import Rash.Lib.Masks
import Rash.Malloc.Releasing

/-!
# Zeroed and aligned blocks

`calloc` writes into the block that `malloc` hands out, and `memalign` takes a part of it that has
the alignment.
-/

namespace Rash

open Regions ByteMemory Masks

namespace Malloc

variable {sys : System} {m m' : Memory} {h h' : Heap} {live rest : List LiveBlock}
  {b b' : LiveBlock} {a n s ptr : ℕ} {ans : Answers}

/-! ## Writing into a block -/

/-- A block that is handed out is written to, and its entry is exchanged for another of the same
block. -/
theorem WellFormed.rewrite (hw : WellFormed sys h live) (hlive : live.Perm (b :: rest))
    (hsame : b'.toBlock = b.toBlock) (hchanged : ChangedIn [b.region] h.mem m')
    (hb' : b'.Intact m') :
    WellFormed sys { h with mem := m' } (b' :: rest) ∧ Undisturbed rest h.mem m' := by
  rcases hw.heap with ⟨rfl, _⟩ | ⟨free, hc, hsmall⟩
  · cases hlive.mem_iff.mpr List.mem_cons_self
  · obtain ⟨hwritten, hkept⟩ := (hc.layout.release hlive).write hchanged
    rw [← hsame] at hwritten
    exact ⟨⟨hw.idle, .inr ⟨free, ⟨hwritten.grant hb', hc.kernel, hc.memtop, hc.aligned, hc.pagesz,
      hc.maxbuck⟩, hsmall⟩⟩, hkept⟩

theorem WellFormed.intact (hw : WellFormed sys h live) (hb : b ∈ live) : b.Intact h.mem := by
  rcases hw.heap with ⟨rfl, _⟩ | ⟨_, hc, _⟩
  · cases hb
  · exact hc.layout.intact b hb

theorem WellFormed.held (hw : WellFormed sys h live) (hb : b ∈ live) :
    Held sys h.kernel b.toBlock ∧ b.base + binsize b.bin ≤ addressLimit := by
  rcases hw.heap with ⟨rfl, _⟩ | ⟨_, hc, _⟩
  · cases hb
  · have hheld := hc.layout.held _ (List.mem_append_right _ (List.mem_append_right _
      (List.mem_map_of_mem hb)))
    exact ⟨hheld, hheld.stop_le hc.kernel⟩

theorem Undisturbed.cons (hb : Kept m m' b.region) (hrest : Undisturbed rest m m') :
    Undisturbed (b :: rest) m m' := fun c hc => by
  rcases List.mem_cons.mp hc with rfl | hc
  · exact hb
  · exact hrest c hc

/-! ## Sizes that are refused or fit -/

/-- The size that `internal_malloc` is called with is the one that was meant, or is refused. -/
def Fits (total : ℕ) : Prop :=
  total + 35 < 2 ^ 64 ∨ maxallocSize < allocatedBytes (total % 2 ^ 64)

instance (total : ℕ) : Decidable (Fits total) := inferInstanceAs (Decidable (_ ∨ _))

/-- What a call that allocates does: it hands out a block for `n` bytes, or gives null and leaves
the blocks that are handed out. -/
def Grants (sys : System) (h : Heap) (live : List LiveBlock) (n : ℕ)
    (outcome : Except Stop (ℕ × Heap)) (good : LiveBlock → Heap → Prop) : Prop :=
  (∃ h', outcome = .ok (0, h') ∧ WellFormed sys h' live ∧ Undisturbed live h.mem h'.mem) ∨
  ∃ h' b, outcome = .ok (b.pointer, h') ∧ b.requested = n ∧ WellFormed sys h' (b :: live) ∧
    Undisturbed live h.mem h'.mem ∧ good b h'

theorem grants_malloc (hw : WellFormed sys h live) (hstart : StartsEven sys h ans)
    (hfits : Fits n) :
    Grants sys h live n (internalMalloc sys ans h (n % 2 ^ 64))
      fun b _ => b.pointer = b.base + 16 ∧ b.nbytes = n ∧ n + 35 < 2 ^ 64 := by
  rcases hfits with hwrap | hlarge
  · rw [Nat.mod_eq_of_lt (by omega)]
    rcases internalMalloc_spec hw hstart hwrap with hnull | ⟨h', nu, p, hok, hw', hkept⟩
    · exact .inl hnull
    · exact .inr ⟨h', _, hok, rfl, hw', hkept, rfl, rfl, hwrap⟩
  · rcases internalMalloc_cases hw hstart (n % 2 ^ 64) with
      hnull | ⟨filled, nu, _, hready, hfits, _⟩
    · exact .inl hnull
    · exact absurd (hfits.trans (binsize_le hready.bin)) (Nat.not_le_of_lt hlarge)

/-! ## `calloc` -/

theorem grants_calloc (hw : WellFormed sys h live) (hstart : StartsEven sys h ans)
    (hfits : Fits (n * s)) :
    Grants sys h live (n * s) (internalCalloc sys ans h n s) fun b h' =>
      ∀ i < n * s, h'.mem (b.pointer + i) = 0 := by
  rw [internalCalloc]
  rcases grants_malloc hw hstart hfits with
    ⟨h', hok, hw', hkept⟩ | ⟨h', b, hok, hn, hw', hkept, hplain, hsize, hwrap⟩
  · rw [hok]
    exact .inl ⟨h', rfl, hw', hkept⟩
  · have hb := hw'.intact List.mem_cons_self
    obtain ⟨_, hstop⟩ := hw'.held List.mem_cons_self
    have hroom := hb.room
    have htotal : n * s % 2 ^ 64 = n * s := Nat.mod_eq_of_lt (by omega)
    simp only [addressLimit] at hstop
    rw [hok]
    simp only [bind, Except.bind, htotal]
    rw [if_neg (by omega), if_neg (by omega)]
    obtain ⟨hw'', hkept'⟩ := hw'.rewrite (List.Perm.refl _) rfl
      ((ChangedIn.refl _ _).fill List.mem_cons_self
        (show Within ⟨b.pointer, n * s⟩ b.region by simp only [Within, Block.region]; omega))
      (hb.written fun x hx => fill_apart (c := 0) (by omega))
    exact .inr ⟨_, b, rfl, hn, hw'', hkept.trans hkept',
      fun i hi => fill_inside (Nat.le_add_right _ i) (Nat.add_lt_add_left hi _)⟩

/-! ## `memalign` -/

/-- The address behind a pointer that has the alignment. -/
theorem aligned_spec (hptr : 16 ∣ ptr) (ha : 0 < a) (hsum : ptr + a ≤ 2 ^ 64)
    (hne : ptr &&& (a - 1) ≠ 0) :
    16 ∣ (ptr + (a - 1) &&& (2 ^ 64 - a)) ∧ ptr + 16 ≤ (ptr + (a - 1) &&& (2 ^ 64 - a)) ∧
      (ptr + (a - 1) &&& (2 ^ 64 - a)) < ptr + a ∧
      ∀ k, a = 2 ^ k → a ∣ (ptr + (a - 1) &&& (2 ^ 64 - a)) := by
  have hparts := and_add_and_rest (x := ptr + (a - 1)) (m := a - 1) (w := 64) (by omega) (by omega)
  rw [Nat.sub_add_cancel ha] at hparts
  have hle : (ptr + (a - 1)) &&& (a - 1) ≤ a - 1 := Nat.and_le_right
  have hlow := low_and_add (a := ptr) (m := a - 1) (k := 4) hptr
  have hlt : (ptr + (a - 1)) &&& (a - 1) ≠ a - 1 := fun heq => hne (and_eq_zero_of_add heq)
  refine ⟨by omega, by omega, by omega, fun k hk => ?_⟩
  have hmod : (ptr + (a - 1)) &&& (a - 1) = (ptr + (a - 1)) % a := by
    rw [hk]
    exact Nat.and_two_pow_sub_one_eq_mod _ k
  have hdiv := Nat.div_add_mod (ptr + (a - 1)) a
  exact ⟨(ptr + (a - 1)) / a, by omega⟩

/-- The second header -/
theorem memalign_intact (hb : b.Intact m) (hplain : b.pointer = b.base + 16) {aligned : ℕ}
    (hdvd : 16 ∣ aligned) (hle : b.pointer + 16 ≤ aligned)
    (hroom : aligned + n ≤ b.pointer + b.nbytes) :
    LiveBlock.Intact
      (fill (store m (aligned - 16 + 4) 4 (aligned - b.pointer)) (aligned - 16) 1 isMemalign)
      { b with pointer := aligned, requested := n } := by
  have hlt := hb.nbytes_lt
  have hshift : aligned - 16 + 4 = aligned - 12 := by omega
  rw [hshift]
  have hbyte : ∀ x, x < b.base + 16 ∨ b.base + 16 + b.nbytes ≤ x →
      fill (store m (aligned - 12) 4 (aligned - b.pointer)) (aligned - 16) 1 isMemalign x = m x :=
    fun x _ => by rw [fill_apart (by omega), store_apart (by omega)]
  have hload : ∀ c len, c + len ≤ b.base + 16 ∨ b.base + 16 + b.nbytes ≤ c →
      load (fill (store m (aligned - 12) 4 (aligned - b.pointer)) (aligned - 16) 1 isMemalign)
        c len = load m c len := fun c len _ => load_congr fun x _ _ => hbyte x (by omega)
  refine ⟨?_, ?_, ?_, ?_, fun i hi => ?_, ?_, hb.fits, hdvd, ?_, fun _ => ⟨?_, ?_, ?_⟩⟩
  · rw [hbyte _ (by simp only; omega), hb.alloc]
  · rw [hbyte _ (by simp only; omega), hb.index]
  · rw [hload _ _ (by simp only; omega), hb.magic]
  · rw [hload _ _ (by simp only; omega), hb.size]
  · rw [hbyte _ (by simp only; omega), hb.beginGuard i hi]
  · rw [hload _ _ (by simp only; omega), hb.endGuard]
  · simp only
    omega
  · simp only
    omega
  · exact fill_inside le_rfl (by simp only; omega)
  · simp only
    rw [load_fill_apart (by omega), load_store_self, ← hplain]
    exact Nat.mod_eq_of_lt (by omega)

theorem grants_memalign (hw : WellFormed sys h live) (hstart : StartsEven sys h ans)
    (ha : 0 < a) (hfits : Fits (n + a)) :
    Grants sys h live n (internalMemalign sys ans h a n) fun b _ =>
      ∀ k, a = 2 ^ k → a ∣ b.pointer := by
  rw [internalMemalign]
  rcases grants_malloc hw hstart hfits with
    ⟨h', hok, hw', hkept⟩ | ⟨h', b, hok, hn, hw', hkept, hplain, hsize, hwrap⟩
  · rw [hok]
    exact .inl ⟨h', rfl, hw', hkept⟩
  · have hb := hw'.intact List.mem_cons_self
    obtain ⟨_, hstop⟩ := hw'.held List.mem_cons_self
    have hroom := hb.room
    have hpos : b.pointer ≠ 0 := by omega
    simp only [addressLimit] at hstop
    have hmask : (a + 2 ^ 64 - 1) % 2 ^ 64 = a - 1 := by omega
    have hrest : (2 ^ 64 - a) % 2 ^ 64 = 2 ^ 64 - a := by omega
    have hsum : (b.pointer + (a - 1)) % 2 ^ 64 = b.pointer + (a - 1) := by omega
    rw [hok]
    simp only [bind, Except.bind, hmask, hrest, hsum, if_neg hpos]
    split_ifs with hsame hlow
    · obtain ⟨hw'', hkept'⟩ := @WellFormed.rewrite _ _ _ _ _ b { b with requested := n } hw'
        (List.Perm.refl _) rfl (ChangedIn.refl _ _)
        ⟨hb.alloc, hb.index, hb.magic, hb.size, hb.beginGuard, hb.endGuard, hb.fits, hb.aligned,
          by simp only; omega, fun hne => absurd hplain hne⟩
      refine .inr ⟨h', { b with requested := n }, rfl, rfl, hw'', hkept.trans hkept',
        fun k hk => ?_⟩
      simp only
      rw [hk, Nat.and_two_pow_sub_one_eq_mod] at hsame
      rw [hk]
      exact Nat.dvd_of_mod_eq_zero hsame
    · have := aligned_spec hb.aligned ha (by omega) hsame
      omega
    · obtain ⟨hdvd, hle, hlt, hmultiple⟩ := aligned_spec hb.aligned ha (by omega) hsame
      have hintact := memalign_intact (n := n) hb hplain hdvd hle (by omega)
      have hchanged : ChangedIn [b.region] h'.mem (fill (store h'.mem
          ((b.pointer + (a - 1) &&& (2 ^ 64 - a)) - 16 + 4) 4
          ((b.pointer + (a - 1) &&& (2 ^ 64 - a)) - b.pointer))
          ((b.pointer + (a - 1) &&& (2 ^ 64 - a)) - 16) 1 isMemalign) := by
        refine ((ChangedIn.refl _ _).store List.mem_cons_self ?_).fill List.mem_cons_self ?_
        · simp only [Within, Block.region]
          omega
        · simp only [Within, Block.region]
          omega
      obtain ⟨hw'', hkept'⟩ := hw'.rewrite (List.Perm.refl _) (by rfl) hchanged hintact
      exact .inr ⟨_, { b with pointer := _, requested := n }, rfl, rfl, hw'',
        hkept.trans hkept', hmultiple⟩

/-- `posix_memalign` does not look for memory: the alignment is none. -/
def PosixRefuses (a : ℕ) : Prop :=
  (a % 8 ≠ 0 ∨ a = 0) ∨ (a + 2 ^ 64 - 1) % 2 ^ 64 &&& a ≠ 0

instance (a : ℕ) : Decidable (PosixRefuses a) := inferInstanceAs (Decidable (_ ∨ _))

theorem grants_posixMemalign (hw : WellFormed sys h live) (hstart : StartsEven sys h ans)
    (hfits : PosixRefuses a ∨ Fits (n + a)) :
    Grants sys h live n ((posixMemalign sys ans h a n).map Prod.snd) fun b _ =>
      ∀ k, a = 2 ^ k → a ∣ b.pointer := by
  rw [posixMemalign]
  split_ifs with hnone hpower
  · exact .inl ⟨h, rfl, hw, Undisturbed.refl live h.mem⟩
  · exact .inl ⟨h, rfl, hw, Undisturbed.refl live h.mem⟩
  · have hfits' := hfits.resolve_left fun hrefuses => hrefuses.elim hnone hpower
    rcases grants_memalign hw hstart (by omega) hfits' with
      ⟨h', hok, hnull⟩ | ⟨h', b, hok, hn, hw', hrest⟩
    · rw [hok]
      exact .inl ⟨h', rfl, hnull⟩
    · have hpos : b.pointer ≠ 0 := by
        have := (hw'.intact List.mem_cons_self).inside
        omega
      rw [hok]
      simp only [bind, Except.bind, if_pos hpos]
      exact .inr ⟨h', b, rfl, hn, hw', hrest⟩

/-- It stores a pointer exactly where it returns 0. -/
theorem posixMemalign_code {code : PosixCode} {q : ℕ}
    (hok : posixMemalign sys ans h a n = .ok (code, q, h')) : code = .zero ↔ q ≠ 0 := by
  rw [posixMemalign] at hok
  split_ifs at hok
  · cases hok
    simp
  · cases hok
    simp
  · rcases hmem : internalMemalign sys ans h a n with e | ⟨mem, h''⟩
    · rw [hmem] at hok
      cases hok
    · rw [hmem] at hok
      simp only [bind, Except.bind] at hok
      split_ifs at hok with hpos
      · cases hok
        simp [hpos]
      · cases hok
        simp

end Malloc

end Rash
