import Rash.Malloc.Aligning

/-!
# Resizing blocks

`internal_realloc` keeps a block where it is, has the system move its mapping, or copies it to
another.  All three keep what both sizes hold, and the first and the last keep a block that cannot
be resized as it was.
-/

namespace Rash

open Regions ByteMemory

namespace Malloc

variable {sys : System} {m m' : Memory} {k k' : Kernel} {h h' : Heap} {live rest : List LiveBlock}
  {b b' : LiveBlock} {n nu p q : ℕ} {ans : Answers}

/-! ## The size in the header -/

theorem sized_intact (halloc : m p = isAlloc) (hindex : (m (p + 1)).toNat = nu)
    (hmagic : load m (p + 2) 2 = magic2) (hguard : ∀ i < 8, m (p + 8 + i) = magic1)
    (hwrap : n + 35 < 2 ^ 64) (hnu : nu < nbuckets) (hfits : allocatedBytes n ≤ binsize nu)
    (hp : 16 ∣ p) :
    (LiveBlock.plain nu p n).Intact (store (store m (p + 4) 4 n) (p + 16 + n) 4 n) := by
  obtain ⟨hn, -⟩ := nbytes_lt hwrap hfits hnu
  refine ⟨?_, ?_, ?_, ?_, fun i hi => ?_, ?_, hfits, Nat.dvd_add hp (by decide), ⟨le_rfl, le_rfl⟩,
    fun hne => absurd rfl hne⟩
  · simp only [LiveBlock.plain]
    rw [store_apart (by omega), store_apart (by omega), halloc]
  · simp only [LiveBlock.plain]
    rw [store_apart (by omega), store_apart (by omega), hindex]
  · simp only [LiveBlock.plain]
    rw [load_store_apart (by omega), load_store_apart (by omega), hmagic]
  · simp only [LiveBlock.plain]
    rw [load_store_apart (by omega), load_store_self]
    exact Nat.mod_eq_of_lt hn
  · simp only [LiveBlock.plain]
    rw [store_apart (by omega), store_apart (by omega), hguard i hi]
  · simp only [LiveBlock.plain]
    rw [load_store_self]
    exact Nat.mod_eq_of_lt hn

/-- What the block at `q` has of the first bytes of the one at `p` -/
def Carries (m m' : Memory) (p q len : ℕ) : Prop := ∀ i < len, m' (q + i) = m (p + i)

/-- The block of a pointer that is not displaced is resized: it is exchanged for one of `n` bytes
that has its first bytes. -/
def Resizes (sys : System) (h : Heap) (b : LiveBlock) (rest : List LiveBlock) (n q : ℕ)
    (h' : Heap) : Prop :=
  ∃ b' : LiveBlock, q = b'.pointer ∧ b'.requested = n ∧ b'.pointer = b'.base + 16 ∧
    WellFormed sys h' (b' :: rest) ∧ Undisturbed rest h.mem h'.mem ∧
    Carries h.mem h'.mem b.pointer q (min b.requested n)

theorem binsize_pred_le (hnu : nu < nbuckets) : binsize (nu - 1) ≤ binsize nu := by
  have : ∀ nu < nbuckets, binsize (nu - 1) ≤ binsize nu := by decide
  exact this nu hnu

/-! ## In its place -/

theorem resizes_same (hw : WellFormed sys h live) (hlive : live.Perm (b :: rest))
    (hplain : b.pointer = b.base + 16) : Resizes sys h b rest b.nbytes b.pointer h := by
  have hb := hw.intact (hlive.mem_iff.mpr List.mem_cons_self)
  obtain ⟨hw', hkept⟩ := hw.rewrite hlive (by rfl) (ChangedIn.refl _ _)
    (show LiveBlock.Intact h.mem { b with requested := b.nbytes } from
      ⟨hb.alloc, hb.index, hb.magic, hb.size, hb.beginGuard, hb.endGuard, hb.fits, hb.aligned,
        by simp only; omega, fun hne => absurd hplain hne⟩)
  exact ⟨{ b with requested := b.nbytes }, rfl, rfl, hplain, hw', hkept, fun _ _ => rfl⟩

theorem resizes_inPlace (hw : WellFormed sys h live) (hlive : live.Perm (b :: rest))
    (hplain : b.pointer = b.base + 16) (hwrap : n + 35 < 2 ^ 64)
    (hfits : allocatedBytes n ≤ binsize b.bin) :
    Resizes sys h b rest n b.pointer { h with
      mem := store (store (store h.mem (b.pointer + b.nbytes) 4 0) (b.base + 4) 4 n)
        (b.pointer + n % 2 ^ 32) 4 n } := by
  have hmem : b ∈ live := hlive.mem_iff.mpr List.mem_cons_self
  have hb := hw.intact hmem
  obtain ⟨hheld, -⟩ := hw.held hmem
  obtain ⟨hn, hroom⟩ := nbytes_lt hwrap hfits hheld.bin
  have hold := hb.room
  have hinside := hb.inside
  rw [Nat.mod_eq_of_lt hn, hplain]
  have hintact : (LiveBlock.plain b.bin b.base n).Intact
      (store (store (store h.mem (b.base + 16 + b.nbytes) 4 0) (b.base + 4) 4 n)
        (b.base + 16 + n) 4 n) := by
    refine sized_intact ?_ ?_ ?_ (fun i hi => ?_) hwrap hheld.bin hfits hheld.aligned
    · rw [store_apart (by omega), hb.alloc]
    · rw [store_apart (by omega), hb.index]
    · rw [load_store_apart (by omega), hb.magic]
    · rw [store_apart (by omega), hb.beginGuard i hi]
  have hwithin : ∀ a, b.base ≤ a → a + 4 ≤ b.base + binsize b.bin → Within ⟨a, 4⟩ b.region :=
    fun a hle hle' => ⟨hle, hle'⟩
  obtain ⟨hw', hkept⟩ := hw.rewrite hlive (by rfl)
    ((((ChangedIn.refl _ h.mem).store List.mem_cons_self (hwithin _ (by omega) (by omega))).store
      List.mem_cons_self (hwithin _ (by omega) (by omega))).store List.mem_cons_self
      (hwithin _ (by omega) (by omega))) hintact
  refine ⟨_, rfl, rfl, rfl, hw', hkept, fun i hi => ?_⟩
  simp only
  rw [store_apart (by omega), store_apart (by omega), store_apart (by omega), hplain]

/-! ## By moving the mapping -/

/-- The header in the memory that a mapping was moved to -/
def headerAt (m : Memory) (p np : ℕ) : Memory :=
  if np ≠ p then fill (store (fill m np 1 isAlloc) (np + 2) 2 magic2) (np + 8) 8 magic1 else m

theorem headerAt_changedIn (m : Memory) (p np : ℕ) : ChangedIn [⟨np, 16⟩] m (headerAt m p np) := by
  rw [headerAt]
  split_ifs
  · exact (((ChangedIn.refl _ m).fill List.mem_cons_self (by simp only [Within]; omega)).store
      List.mem_cons_self (by simp only [Within]; omega)).fill List.mem_cons_self
      (by simp only [Within]; omega)
  · exact ChangedIn.refl _ _

/-- It has its marks, be they written or moved along with the mapping. -/
theorem headerAt_spec (hb : b.Intact m) {np : ℕ} (hmoved : Carries m m' b.base np 16) :
    headerAt m' b.base np np = isAlloc ∧ load (headerAt m' b.base np) (np + 2) 2 = magic2 ∧
      ∀ i < 8, headerAt m' b.base np (np + 8 + i) = magic1 := by
  rw [headerAt]
  split_ifs with hne
  · refine ⟨?_, ?_, fun i hi => fill_inside (by omega) (by omega)⟩
    · rw [fill_apart (by omega), store_apart (by omega), fill_inside le_rfl (by omega)]
    · rw [load_fill_apart (by omega), load_store_self]
      rfl
  · obtain rfl : np = b.base := not_not.mp hne
    refine ⟨(hmoved 0 (by decide)).trans hb.alloc, ?_, fun i hi => ?_⟩
    · rw [← hb.magic]
      refine load_congr fun x _ _ => ?_
      obtain ⟨i, rfl⟩ : ∃ i, x = b.base + i := ⟨x - b.base, by omega⟩
      exact hmoved i (by omega)
    · rw [← hb.beginGuard i hi, Nat.add_assoc]
      exact hmoved _ (by omega)

theorem internalRemap_eq (hb : b.Intact h.mem) (hplain : b.pointer = b.base + 16)
    (hnu : nu < nbuckets) :
    internalRemap sys ans h b.pointer n nu =
      match h.kernel.mremap sys b.base (binsize b.bin) (binsize nu) ans.mremapAt with
      | none => (0, { h with mem := store h.mem (b.pointer + b.nbytes) 4 0 })
      | some (np, kernel) =>
          (np + 16, { h with
            kernel
            mem := store (store (fill (headerAt
              (patch (copy (store h.mem (b.pointer + b.nbytes) 4 0) b.base np
                (min (Kernel.wholePages sys (binsize b.bin)) (Kernel.wholePages sys (binsize nu))))
                (np + min (Kernel.wholePages sys (binsize b.bin))
                  (Kernel.wholePages sys (binsize nu)))
                (Kernel.wholePages sys (binsize nu) - min (Kernel.wholePages sys (binsize b.bin))
                  (Kernel.wholePages sys (binsize nu))) ans.contents) b.base np)
              (np + 1) 1 (UInt8.ofNat nu)) (np + 4) 4 n) (np + 16 + n) 4 n }) := by
  have hp : b.pointer - 16 = b.base := by omega
  have hindex : (store h.mem (b.pointer + b.nbytes) 4 0 (b.base + 1)).toNat = b.bin := by
    rw [store_apart (by omega), hb.index]
  rw [internalRemap, if_neg (Nat.not_le_of_lt hnu), hp]
  simp only [hb.size, hindex]
  rfl

/-- Memory that differs in a region is a patch of it. -/
theorem eq_patch_of_changedIn {a len : ℕ} (hm : ChangedIn [⟨a, len⟩] m m') :
    m' = patch m a len fun i => m' (a + i) := by
  funext x
  by_cases hx : a ≤ x ∧ x < a + len
  · rw [patch_inside hx.1 hx.2, Nat.add_sub_cancel' hx.1]
  · rw [patch_apart (by omega)]
    refine hm x fun r hr => ?_
    rw [List.mem_singleton.mp hr]
    exact hx

/-- The mapping of a block is exchanged for a vacant one that a block of `n` bytes is in. -/
theorem resizes_moved (hw : WellFormed sys h live) (hlive : live.Perm (b :: rest))
    (hmap : mmapThreshold < nu) (hnu : nu < nbuckets) {np : ℕ}
    (hvacant : Kernel.Vacant sys (h.kernel.munmap sys b.base (binsize b.bin))
      ⟨np, Kernel.wholePages sys (binsize nu)⟩) {erased : Memory}
    (herased : ChangedIn [b.region] h.mem erased)
    (hm' : ChangedIn [⟨np, Kernel.wholePages sys (binsize nu)⟩] erased m')
    (hb' : (LiveBlock.plain nu np n).Intact m') :
    WellFormed sys { h with
      kernel := { h.kernel.munmap sys b.base (binsize b.bin) with
        maps := ⟨np, Kernel.wholePages sys (binsize nu)⟩ ::
          (h.kernel.munmap sys b.base (binsize b.bin)).maps }
      mem := m' } (LiveBlock.plain nu np n :: rest) ∧ Undisturbed rest h.mem m' := by
  rcases hw.heap with ⟨rfl, _⟩ | ⟨free, hc, hsmall⟩
  · cases hlive.mem_iff.mpr List.mem_cons_self
  · have hsound := @Kernel.munmap_sound _ _ (binsize b.bin) b.base hc.kernel
    have hwhole := @wholePages_binsize sys _ hmap hnu
    obtain ⟨hwritten, hkept⟩ := (hc.layout.release hlive).write herased
    have hplaced := hsound.place hvacant
    rw [hwhole] at hvacant hplaced hm' ⊢
    obtain ⟨hgrown, hkept'⟩ := hwritten.unmap.growMap hmap hnu hvacant fun i => m' (np + i)
    rw [← eq_patch_of_changedIn hm'] at hgrown hkept'
    exact ⟨⟨hw.idle, .inr ⟨free, ⟨hgrown.grant hb', hplaced, hc.memtop, hc.aligned, hc.pagesz,
      hc.maxbuck⟩, hsmall⟩⟩, fun c hc => (hkept c hc).trans (hkept' c hc)⟩

theorem resizes_remap (hw : WellFormed sys h live) (hlive : live.Perm (b :: rest))
    (hplain : b.pointer = b.base + 16) (hmap : mmapThreshold < nu) (hnu : nu < nbuckets)
    (hwrap : n + 35 < 2 ^ 64) (hfits : allocatedBytes n ≤ binsize nu)
    (hserved : (h.kernel.mremap sys b.base (binsize b.bin) (binsize nu) ans.mremapAt).isSome) :
    Resizes sys h b rest n (internalRemap sys ans h b.pointer n nu).1
      (internalRemap sys ans h b.pointer n nu).2 := by
  have hmem : b ∈ live := hlive.mem_iff.mpr List.mem_cons_self
  have hb := hw.intact hmem
  obtain ⟨hn, hroom⟩ := nbytes_lt hwrap hfits hnu
  have hold := hb.room
  have hinside := hb.inside
  obtain ⟨⟨np, kernel⟩, hmove⟩ := Option.isSome_iff_exists.mp hserved
  obtain ⟨hvacant, rfl⟩ := Kernel.mremap_spec hmove
  have hle := le_wholePages sys (binsize b.bin)
  have hle' := le_wholePages sys (binsize nu)
  rw [internalRemap_eq hb hplain hnu, hmove]
  simp only
  generalize hkeptLen : min (Kernel.wholePages sys (binsize b.bin))
    (Kernel.wholePages sys (binsize nu)) = kept
  have hmin := Nat.min_le_right (Kernel.wholePages sys (binsize b.bin))
    (Kernel.wholePages sys (binsize nu))
  have hmin' : b.nbytes + 20 ≤ kept ∨ n + 20 ≤ kept := by omega
  generalize hlen : Kernel.wholePages sys (binsize nu) = len at *
  have herased : ChangedIn [b.region] h.mem (store h.mem (b.pointer + b.nbytes) 4 0) :=
    (ChangedIn.refl _ _).store List.mem_cons_self (by simp only [Within, Block.region]; omega)
  generalize herasedEq : store h.mem (b.pointer + b.nbytes) 4 0 = erased at *
  have hcopied : Carries erased
      (patch (copy erased b.base np kept) (np + kept) (len - kept) ans.contents) b.base np kept := by
    intro i hi
    rw [patch_apart (by omega), copy_inside (by omega) (by omega), Nat.add_sub_cancel_left]
  have hpatched : ChangedIn [⟨np, len⟩] erased
      (patch (copy erased b.base np kept) (np + kept) (len - kept) ans.contents) :=
    ((ChangedIn.refl _ erased).copy List.mem_cons_self (by simp only [Within]; omega)).patch
      List.mem_cons_self (by simp only [Within]; omega)
  generalize patch (copy erased b.base np kept) (np + kept) (len - kept) ans.contents = moved
    at hcopied hpatched ⊢
  have hsame : Carries h.mem moved b.base np (min (16 + b.nbytes) kept) := by
    intro i hi
    rw [hcopied i (by omega), ← herasedEq, store_apart (by omega)]
  obtain ⟨halloc, hmagic, hguard⟩ := headerAt_spec hb fun i hi => hsame i (by omega)
  have hheader := headerAt_changedIn moved b.base np
  have hhead : ChangedIn [⟨np, len⟩] erased (headerAt moved b.base np) :=
    hpatched.trans (hheader.mono fun r hr => ⟨_, List.mem_cons_self, by
      rw [List.mem_singleton.mp hr]
      simp only [Within]
      omega⟩)
  have hbody : ∀ i, 16 ≤ i → headerAt moved b.base np (np + i) = moved (np + i) := by
    intro i hi
    refine hheader _ fun r hr => ?_
    rw [List.mem_singleton.mp hr, Region.mem_mk]
    omega
  generalize headerAt moved b.base np = marked at *
  have hintact : (LiveBlock.plain nu np n).Intact
      (store (store (fill marked (np + 1) 1 (UInt8.ofNat nu)) (np + 4) 4 n) (np + 16 + n) 4 n) := by
    refine sized_intact ?_ ?_ ?_ (fun i hi => ?_) hwrap hnu hfits
      ((page_dvd sys).trans hvacant.1.2.2.1)
    · rw [fill_apart (by omega), halloc]
    · rw [fill_inside le_rfl (by omega)]
      exact UInt8.toNat_ofNat_of_lt (hnu.trans (by decide))
    · rw [load_fill_apart (by omega), hmagic]
    · rw [fill_apart (by omega), hguard i hi]
  have hfinal : ChangedIn [⟨np, len⟩] erased
      (store (store (fill marked (np + 1) 1 (UInt8.ofNat nu)) (np + 4) 4 n) (np + 16 + n) 4 n) :=
    ((hhead.fill List.mem_cons_self (by simp only [Within]; omega)).store List.mem_cons_self
      (by simp only [Within]; omega)).store List.mem_cons_self (by simp only [Within]; omega)
  subst hlen
  obtain ⟨hw', hundisturbed⟩ := resizes_moved hw hlive hmap hnu hvacant herased hfinal hintact
  refine ⟨_, rfl, rfl, rfl, hw', hundisturbed, fun i hi => ?_⟩
  simp only
  rw [store_apart (by omega), store_apart (by omega), fill_apart (by omega), Nat.add_assoc,
    hbody _ (by omega), hsame _ (by omega), hplain, Nat.add_assoc]

/-! ## By copying -/

/-- What a call that resizes does: it gives null and leaves all blocks, or exchanges one. -/
def Reallocates (sys : System) (h : Heap) (live : List LiveBlock) (b : LiveBlock)
    (rest : List LiveBlock) (n : ℕ) (outcome : Except Stop (ℕ × Heap)) : Prop :=
  (∃ h', outcome = .ok (0, h') ∧ WellFormed sys h' live ∧ Undisturbed live h.mem h'.mem) ∨
  ∃ q h', outcome = .ok (q, h') ∧ Resizes sys h b rest n q h'

/-- The contents are copied to a new block and the old one is freed. -/
theorem resizes_copied (hw : WellFormed sys h (LiveBlock.plain nu p n :: live))
    (hlive : live.Perm (b :: rest)) (hplain : b.pointer = b.base + 16) :
    ∃ h', internalFree sys { h with
        mem := copy h.mem b.pointer (p + 16) (min n b.nbytes) } b.pointer = .ok h' ∧
      Resizes sys h b rest n (p + 16) h' := by
  have hb := hw.intact (List.mem_cons_of_mem _ (hlive.mem_iff.mpr List.mem_cons_self))
  have hnew := hw.intact List.mem_cons_self
  have hroom : n + 20 ≤ binsize nu := hnew.room
  have hold := hb.room
  have hinside := hb.inside
  have hcopy : ∀ x, x < p + 16 ∨ p + 16 + n ≤ x →
      copy h.mem b.pointer (p + 16) (min n b.nbytes) x = h.mem x := fun x hx =>
    copy_apart (by omega)
  obtain ⟨hcopied, hkept⟩ := hw.rewrite (List.Perm.refl _) (by rfl)
    ((ChangedIn.refl [(LiveBlock.plain nu p n).region] h.mem).copy List.mem_cons_self (by
      simp only [Within, Block.region, LiveBlock.plain]
      omega))
    (hnew.written hcopy)
  have hperm : (LiveBlock.plain nu p n :: live).Perm (b :: LiveBlock.plain nu p n :: rest) :=
    (hlive.cons _).trans (List.Perm.swap _ _ _)
  have hb' := hcopied.intact (hperm.mem_iff.mpr List.mem_cons_self)
  obtain ⟨h', hok, hw', hkept'⟩ := internalFree_spec hcopied hperm
    ((scrambleFits_iff hb').mpr fun _ _ => by omega)
  refine ⟨h', hok, _, rfl, rfl, rfl, hw', fun c hc => ?_, fun i hi => ?_⟩
  · exact (hkept c (hlive.mem_iff.mpr (List.mem_cons_of_mem b hc))).trans
      (hkept' c (List.mem_cons_of_mem _ hc))
  · have hmem : p + 16 + i ∈ (LiveBlock.plain nu p n).region := by
      simp only [LiveBlock.plain, Block.region, Region.mem_mk]
      omega
    rw [hkept' _ List.mem_cons_self _ hmem]
    simp only
    rw [copy_inside (by omega) (by omega), Nat.add_sub_cancel_left]

/-! ## `realloc` -/

/-- `realloc` of the pointer goes to the system for the mapping. -/
def Remaps (h : Heap) (mem n : ℕ) : Prop :=
  (n ≠ load h.mem (mem - 12) 4 ∧ allocatedBytes n ≤ maxallocSize ∧
    ¬(RightBucket (allocatedBytes n) (h.mem (mem - 15)).toNat ∨
      1 ≤ (h.mem (mem - 15)).toNat ∧
        RightBucket (allocatedBytes n) ((h.mem (mem - 15)).toNat - 1))) ∧
  mmapThreshold < (h.mem (mem - 15)).toNat ∧
  mmapThreshold < newBin h (h.mem (mem - 15)).toNat (allocatedBytes n) (load h.mem (mem - 12) 4) ∧
  newBin h (h.mem (mem - 15)).toNat (allocatedBytes n) (load h.mem (mem - 12) 4) < nbuckets

instance (h : Heap) (mem n : ℕ) : Decidable (Remaps h mem n) :=
  inferInstanceAs (Decidable (_ ∧ _ ∧ _ ∧ _))

/-- The system moves the mapping if it is asked to. -/
def RemapServed (sys : System) (ans : Answers) (h : Heap) (mem n : ℕ) : Prop :=
  Remaps h mem n →
    (h.kernel.mremap sys (mem - 16) (binsize (h.mem (mem - 15)).toNat)
      (binsize (newBin h (h.mem (mem - 15)).toNat (allocatedBytes n) (load h.mem (mem - 12) 4)))
      ans.mremapAt).isSome

instance (sys : System) (ans : Answers) (h : Heap) (mem n : ℕ) :
    Decidable (RemapServed sys ans h mem n) := inferInstanceAs (Decidable (_ → _))

/-- The ways that a call of `realloc` can take with a pointer that is not displaced. -/
theorem internalRealloc_eq (hb : b.Intact h.mem) (hplain : b.pointer = b.base + 16)
    (hbin : b.bin < nbuckets) (hn : n ≠ 0) :
    internalRealloc sys ans h b.pointer n =
      if n = b.nbytes then .ok (b.pointer, h)
      else if maxallocSize < allocatedBytes n then .ok (0, h)
      else if RightBucket (allocatedBytes n) b.bin ∨
          1 ≤ b.bin ∧ RightBucket (allocatedBytes n) (b.bin - 1) then
        .ok (b.pointer, { h with
          mem := store (store (store h.mem (b.pointer + b.nbytes) 4 0) (b.base + 4) 4 n)
            (b.pointer + n % 2 ^ 32) 4 n })
      else if mmapThreshold < b.bin ∧
          mmapThreshold < newBin h b.bin (allocatedBytes n) b.nbytes then
        .ok (internalRemap sys ans h b.pointer n (newBin h b.bin (allocatedBytes n) b.nbytes))
      else
        (internalMalloc sys ans h n).bind fun (m, h) =>
          if m = 0 then .ok (0, h)
          else
            (internalFree sys { h with
              mem := copy h.mem b.pointer m (min n b.nbytes) } b.pointer).bind fun h =>
                .ok (m, h) := by
  have hp : b.pointer - 16 = b.base := by omega
  rw [internalRealloc, if_neg hn, if_neg (by omega)]
  simp only [hp, hb.index, hb.alloc]
  rw [if_neg (by omega), if_neg (not_not.mpr rfl), checkGuards_ok hb]
  simp only [resizeBlock, hp, hb.index, hb.size]
  rfl

theorem remaps_iff (hb : b.Intact h.mem) (hplain : b.pointer = b.base + 16) :
    Remaps h b.pointer n ↔
      (n ≠ b.nbytes ∧ allocatedBytes n ≤ maxallocSize ∧
        ¬(RightBucket (allocatedBytes n) b.bin ∨
          1 ≤ b.bin ∧ RightBucket (allocatedBytes n) (b.bin - 1))) ∧
      mmapThreshold < b.bin ∧ mmapThreshold < newBin h b.bin (allocatedBytes n) b.nbytes ∧
        newBin h b.bin (allocatedBytes n) b.nbytes < nbuckets := by
  rw [Remaps, show b.pointer - 15 = b.base + 1 by omega, show b.pointer - 12 = b.base + 4 by omega,
    hb.index, hb.size]

theorem remapServed_iff (hb : b.Intact h.mem) (hplain : b.pointer = b.base + 16) :
    RemapServed sys ans h b.pointer n ↔ (Remaps h b.pointer n →
      (h.kernel.mremap sys b.base (binsize b.bin)
        (binsize (newBin h b.bin (allocatedBytes n) b.nbytes)) ans.mremapAt).isSome) := by
  rw [RemapServed, show b.pointer - 15 = b.base + 1 by omega,
    show b.pointer - 12 = b.base + 4 by omega, show b.pointer - 16 = b.base by omega, hb.index,
    hb.size]

theorem fits_rightBucket (hnu : nu < nbuckets)
    (hright : RightBucket n nu ∨ 1 ≤ nu ∧ RightBucket n (nu - 1)) : n ≤ binsize nu := by
  rcases hright with hright | ⟨-, hright⟩
  · exact hright.2
  · exact hright.2.trans (binsize_pred_le hnu)

theorem reallocates (hw : WellFormed sys h live) (hlive : live.Perm (b :: rest))
    (hplain : b.pointer = b.base + 16) (hstart : StartsEven sys h ans) (hn : n ≠ 0)
    (hwrap : n + 35 < 2 ^ 64) (hserved : RemapServed sys ans h b.pointer n) :
    Reallocates sys h live b rest n (internalRealloc sys ans h b.pointer n) := by
  have hmem : b ∈ live := hlive.mem_iff.mpr List.mem_cons_self
  have hb := hw.intact hmem
  have hbin := (hw.held hmem).1.bin
  have hnull : WellFormed sys h live ∧ Undisturbed live h.mem h.mem :=
    ⟨hw, Undisturbed.refl live h.mem⟩
  rw [remapServed_iff hb hplain, remaps_iff hb hplain] at hserved
  rw [internalRealloc_eq hb hplain hbin hn]
  split_ifs with hsame hlarge hright hmap
  · subst hsame
    exact .inr ⟨_, _, rfl, resizes_same hw hlive hplain⟩
  · exact .inl ⟨h, rfl, hnull⟩
  · exact .inr ⟨_, _, rfl,
      resizes_inPlace hw hlive hplain hwrap (fits_rightBucket hbin hright)⟩
  · by_cases hnone : newBin h b.bin (allocatedBytes n) b.nbytes < nbuckets
    · exact .inr ⟨_, _, rfl, resizes_remap hw hlive hplain hmap.2 hnone hwrap (firstBin_spec hnone)
        (hserved ⟨⟨hsame, Nat.le_of_not_lt hlarge, hright⟩, hmap.1, hmap.2, hnone⟩)⟩
    · rw [internalRemap, if_pos (Nat.le_of_not_lt hnone)]
      exact .inl ⟨h, rfl, hnull⟩
  · rcases internalMalloc_spec hw hstart hwrap with
      ⟨h', hok, hw', hkept⟩ | ⟨h', nu, p, hok, hw', hkept⟩
    · rw [hok]
      exact .inl ⟨h', rfl, hw', hkept⟩
    · obtain ⟨h'', hfree, b', hq, hreq, hplain', hw'', hrest, hcarries⟩ :=
        resizes_copied hw' hlive hplain
      rw [hok]
      simp only [Except.bind, if_neg (show ¬p + 16 = 0 by omega), hfree]
      refine .inr ⟨_, _, rfl, b', hq, hreq, hplain', hw'', fun c hc => ?_, fun i hi => ?_⟩
      · exact (hkept c (hlive.mem_iff.mpr (List.mem_cons_of_mem b hc))).trans (hrest c hc)
      · rw [hcarries i hi]
        have hroom := hb.room
        have hinside := hb.inside
        refine hkept b hmem _ ?_
        simp only [Block.region, Region.mem_mk]
        omega

end Malloc

end Rash
