import Rash.Malloc.MoreCore

/-!
# Handing out blocks

`internal_malloc` hands out a block with room for what was asked for, or returns null, as long as
the sum that rounds the size up does not wrap.
-/

namespace Rash

open Regions ByteMemory NullList

namespace Malloc

variable {sys : System} {m m' : Memory} {h h' : Heap} {free : ℕ → List ℕ}
  {live : List LiveBlock} {b : LiveBlock} {nu n p : ℕ} {ans : Answers}

/-- The allocator before its first call -/
def Heap.initial (sys : System) (m : Memory) : Heap where
  mem := m
  nextf := fun _ => 0
  busy := fun _ => false
  pagesz := 0
  pagebucket := 0
  maxbuck := 0
  memtop := 0
  kernel := ⟨sys.initialBreak, []⟩

/-- No mapped block is on a free list. -/
def Started (sys : System) (h : Heap) (live : List LiveBlock) : Prop :=
  ∃ free, Consistent sys h free [] live ∧ ∀ i, mmapThreshold < i → free i = []

/-- What holds between two calls. -/
structure WellFormed (sys : System) (h : Heap) (live : List LiveBlock) : Prop where
  idle : h.busy = fun _ => false
  heap : (live = [] ∧ ∃ m, h = Heap.initial sys m) ∨ Started sys h live

/-- The blocks that are handed out hold what they held. -/
def Undisturbed (live : List LiveBlock) (m m' : Memory) : Prop :=
  ∀ b ∈ live, Kept m m' b.region

theorem Undisturbed.refl (live : List LiveBlock) (m : Memory) : Undisturbed live m m :=
  fun _ _ => Kept.refl m _

theorem Undisturbed.trans {m'' : Memory} (hm : Undisturbed live m m')
    (hm' : Undisturbed live m' m'') : Undisturbed live m m'' :=
  fun b hb => (hm b hb).trans (hm' b hb)

/-! ## The first call -/

theorem Kernel.initial_sound (sys : System) : Kernel.Sound sys ⟨sys.initialBreak, []⟩ :=
  ⟨le_refl _, sys.initialBreak_le, fun _ hr => (by cases hr), List.Pairwise.nil⟩

theorem layout_initial (sys : System) (m : Memory) :
    Layout sys m (fun _ => 0) ⟨sys.initialBreak, []⟩ (fun _ => []) [] [] := by
  have hnone : blocks (fun _ => []) [] [] = [] := by
    simp [blocks, freeBlocks]
  refine ⟨fun _ => rfl, fun _ _ ha => (by cases ha), fun _ _ => rfl, fun c hc => ?_, ?_,
    fun _ hb => (by cases hb)⟩
  · rw [hnone] at hc
    cases hc
  · rw [hnone]
    exact List.Pairwise.nil

theorem pagesz_dvd (sys : System) : 64 ∣ sys.pagesz := by
  rw [pagesz_eq, show 64 = 2 ^ 6 from rfl]
  exact pow_dvd_pow 2 (by omega)

/-- A break that is not moved has to be aligned. -/
theorem pagealign_spec
    (hstart : (pagealign sys ans (Heap.initial sys m)).2 = true ∨ 16 ∣ sys.initialBreak) :
    Started sys (pagealign sys ans (Heap.initial sys m)).1 [] ∧
      (pagealign sys ans (Heap.initial sys m)).1.busy = fun _ => false := by
  have hinitial := layout_initial sys m
  have hkernel := Kernel.initial_sound sys
  have hpagesz : max sys.getpagesize mallocPagesizeMin = sys.pagesz := rfl
  rw [pagealign] at *
  simp only [hpagesz, Heap.initial] at *
  generalize hneeded : sys.pagesz - sys.initialBreak % sys.pagesz = needed at *
  cases hsb : Kernel.sbrk ⟨sys.initialBreak, []⟩ needed ans.alignGranted with
  | none =>
      rw [hsb] at hstart
      have haligned : 16 ∣ sys.initialBreak := hstart.resolve_left Bool.false_ne_true
      exact ⟨⟨fun _ => [], ⟨hinitial, hkernel, rfl, haligned, rfl,
        show 0 < nbuckets by decide⟩, fun _ _ => rfl⟩, rfl⟩
  | some kernel =>
      obtain ⟨rfl, hsound, hmaps⟩ := Kernel.sbrk_spec hkernel hsb
      have hlimit := hsound.limit
      have hpos := sys.initialBreak_pos
      have htop : 64 ∣ sys.initialBreak + needed := by
        refine (pagesz_dvd sys).trans ?_
        have hlt := Nat.mod_lt sys.initialBreak (show 0 < sys.pagesz by
          rw [pagesz_eq]
          exact Nat.two_pow_pos _)
        have hdiv := Nat.div_add_mod sys.initialBreak sys.pagesz
        refine ⟨sys.initialBreak / sys.pagesz + 1, ?_⟩
        rw [Nat.mul_succ]
        omega
      have hsize : binsize prepopBin = prepopSize := rfl
      have htop16 : 16 ∣ sys.initialBreak + needed := (by decide : 16 ∣ 64).trans htop
      by_cases hunits : 0 < needed / prepopSize
      · obtain ⟨nunits, hn⟩ : ∃ k, needed / prepopSize = k + 1 :=
          ⟨_, (Nat.sub_add_cancel hunits).symm⟩
        have hparts : needed % prepopSize + (nunits + 1) * prepopSize = needed := by
          rw [← hn, Nat.mul_comm, Nat.add_comm]
          exact Nat.div_add_mod needed prepopSize
        have hmul : (nunits + 1) * prepopSize = 64 * (nunits + 1) := Nat.mul_comm _ _
        obtain ⟨hgrown, _⟩ := hinitial.growBreak hkernel prepopBin
          (sys.initialBreak + needed % prepopSize) (nunits + 1) (by decide) (by omega)
          (Nat.le_add_right _ _) (by rw [hsize]; simp only; omega) hmaps ans.contents
        rw [List.append_nil] at hgrown
        simp only [addressLimit] at hlimit
        obtain ⟨hlayout, _⟩ := hgrown.link hsound (by decide) (by omega)
          (by rw [hsize]; omega)
        simp only [hn, if_pos (Nat.succ_pos nunits), Nat.add_sub_cancel]
        refine ⟨⟨_, ⟨hlayout, hsound, rfl, htop16, rfl, show 0 < nbuckets by decide⟩,
          fun i hi => ?_⟩, trivial⟩
        rw [Function.update_of_ne (by
          simp only [mmapThreshold, prepopBin] at *
          omega)]
      · have hgrown := (hinitial.growBreak hkernel 0 (sys.initialBreak + needed) 0
          (by decide) htop16 (Nat.le_add_right _ _) (by rw [Nat.zero_mul]; exact le_refl _) hmaps
          ans.contents).1
        simp only [if_neg hunits]
        exact ⟨⟨_, ⟨hgrown, hsound, rfl, htop16, rfl, show 0 < nbuckets by decide⟩, fun _ _ => rfl⟩,
          trivial⟩

/-! ## One block -/

/-- A block as `internal_malloc` hands it out. -/
def LiveBlock.plain (nu p n : ℕ) : LiveBlock :=
  { bin := nu, base := p, pointer := p + 16, requested := n, nbytes := n }

theorem nbytes_lt (hwrap : n + 35 < 2 ^ 64) (hfits : allocatedBytes n ≤ binsize nu)
    (hnu : nu < nbuckets) : n < 2 ^ 32 ∧ n + 20 ≤ binsize nu := by
  have hmax := binsize_le hnu
  rw [allocatedBytes_eq hwrap] at hfits
  have hlast : maxallocSize = 2 ^ 32 - 1 := rfl
  omega

/-- `writeGuards` where the address of the guard does not wrap. -/
theorem writeGuards_eq (h : p + 16 + n < 2 ^ 64) :
    writeGuards m p n = store (fill (store (store (fill m p 1 isAlloc) (p + 2) 2 magic2)
      (p + 4) 4 n) (p + 8) 8 magic1) (p + 16 + n) 4 n := by
  rw [writeGuards, Nat.mod_eq_of_lt h]

theorem writeGuards_changedIn (hfits : p + 16 + n < 2 ^ 64) {len : ℕ} (hlen : n + 20 ≤ len) :
    ChangedIn [⟨p, len⟩] m (writeGuards m p n) := by
  intro x hx
  have hout := hx _ List.mem_cons_self
  rw [Region.mem_mk] at hout
  rw [writeGuards_eq hfits, store_apart (by omega), fill_apart (by omega), store_apart (by omega),
    store_apart (by omega), fill_apart (by omega)]

theorem writeGuards_intact (hmarked : Marked m ⟨nu, p⟩) (hwrap : n + 35 < 2 ^ 64)
    (hnu : nu < nbuckets) (hfits : allocatedBytes n ≤ binsize nu) (hp : 16 ∣ p)
    (hstop : p + binsize nu ≤ addressLimit) :
    (LiveBlock.plain nu p n).Intact (writeGuards m p n) := by
  obtain ⟨hn, hroom⟩ := nbytes_lt hwrap hfits hnu
  simp only [addressLimit] at hstop
  rw [writeGuards_eq (by omega)]
  refine ⟨?_, ?_, ?_, ?_, fun i hi => ?_, ?_, hfits, ?_, ⟨le_rfl, le_rfl⟩, fun hne => ?_⟩
  · simp only [LiveBlock.plain]
    rw [store_apart (by omega), fill_apart (by omega), store_apart (by omega),
      store_apart (by omega), fill_inside (by omega) (by omega)]
  · simp only [LiveBlock.plain]
    rw [store_apart (by omega), fill_apart (by omega), store_apart (by omega),
      store_apart (by omega), fill_apart (by omega)]
    exact hmarked.2
  · simp only [LiveBlock.plain]
    rw [load_store_apart (by omega), load_fill_apart (by omega), load_store_apart (by omega),
      load_store_self]
    rfl
  · simp only [LiveBlock.plain]
    rw [load_store_apart (by omega), load_fill_apart (by omega), load_store_self]
    exact Nat.mod_eq_of_lt hn
  · simp only [LiveBlock.plain]
    rw [store_apart (by omega), fill_inside (by omega) (by omega)]
  · simp only [LiveBlock.plain]
    rw [load_store_self]
    exact Nat.mod_eq_of_lt hn
  · exact Nat.dvd_add hp (by decide)
  · exact absurd rfl hne

/-- The heap with a block at the head of its bin, while the bin is busy. -/
structure Ready (sys : System) (h : Heap) (nu : ℕ) (live : List LiveBlock) : Prop where
  bin : nu < nbuckets
  filled : h.nextf nu ≠ 0
  busy : h.busy = Function.update (fun _ => false) nu true
  heap : ∃ free, Consistent sys h free [] live ∧
    (∀ i, mmapThreshold < i → i ≠ nu → free i = []) ∧ (mmapThreshold < nu → (free nu).tail = [])

theorem takeBlock_spec (hr : Ready sys h nu live) (hwrap : n + 35 < 2 ^ 64)
    (hfits : allocatedBytes n ≤ binsize nu) :
    ∃ h', takeBlock sys h nu n = .ok (h.nextf nu + 16, h') ∧
      WellFormed sys h' (LiveBlock.plain nu (h.nextf nu) n :: live) ∧
      Undisturbed live h.mem h'.mem := by
  obtain ⟨free, hc, hsmall, htail⟩ := hr.heap
  obtain ⟨rest, hrest, _⟩ := (hc.layout.linked nu).eq_cons hr.filled
  have hmem : h.nextf nu ∈ free nu := hrest ▸ List.mem_cons_self
  have hheld := hc.layout.held_free hmem
  have hmarked := hc.layout.marked nu _ hmem
  have hstop := hheld.stop_le hc.kernel
  obtain ⟨hn, hroom⟩ := nbytes_lt hwrap hfits hr.bin
  have hintact := writeGuards_intact hmarked hwrap hr.bin hfits hheld.aligned hstop
  simp only [addressLimit] at hstop
  have htaken := hc.layout.takeHead hr.bin hrest
  have hwritten : ∀ m', ChangedIn [(Block.mk nu (h.nextf nu)).region] h.mem m' →
      (LiveBlock.plain nu (h.nextf nu) n).Intact m' →
      WellFormed sys { h with
        mem := m'
        nextf := Function.update h.nextf nu (chain h.mem (h.nextf nu))
        busy := Function.update h.busy nu false } (LiveBlock.plain nu (h.nextf nu) n :: live) ∧
      Undisturbed live h.mem m' := by
    intro m' hchanged hb
    obtain ⟨hlayout, hkept⟩ := htaken.write hchanged
    refine ⟨⟨?_, .inr ⟨_, ⟨hlayout.grant hb, hc.kernel, hc.memtop, hc.aligned, hc.pagesz,
      hc.maxbuck⟩, fun i hi => ?_⟩⟩, hkept⟩
    · simp only [hr.busy, Function.update_idem, Function.update_eq_self]
    · by_cases hne : i = nu
      · subst hne
        rw [Function.update_self]
        rw [hrest] at htail
        exact htail hi
      · rw [Function.update_of_ne hne]
        exact hsmall i hi hne
  have hguards := writeGuards_changedIn (m := h.mem) (p := h.nextf nu) (n := n) (by omega) hroom
  rw [takeBlock, if_neg fun hor => hor.elim (fun hne => hne hmarked.1) fun hne => hne hmarked.2]
  by_cases hscramble : sys.memscramble ∧ n ≠ 0
  · simp only [if_pos hscramble, if_neg (show ¬2 ^ 64 < h.nextf nu + 16 + n by omega)]
    refine ⟨_, rfl, hwritten _ (hguards.fill List.mem_cons_self ?_) (hintact.written ?_)⟩
    · simp only [Within]
      omega
    · intro x hx
      simp only [LiveBlock.plain] at hx
      exact fill_apart (by omega)
  · simp only [if_neg hscramble]
    exact ⟨_, rfl, hwritten _ hguards hintact⟩

/-! ## `internal_malloc` -/

theorem firstBin_spec {start : ℕ} (hlt : firstBin start n < nbuckets) :
    n ≤ binsize (firstBin start n) := by
  rw [firstBin] at *
  cases hfind : (List.range' start (nbuckets - start)).find? fun nu => n ≤ binsize nu with
  | none =>
      rw [hfind] at hlt
      exact absurd hlt (Nat.lt_irrefl _)
  | some nu =>
      have hfound := List.find?_some hfind
      exact of_decide_eq_true hfound

theorem firstIdle_idle (hidle : h.busy = fun _ => false) (hnu : nu < nbuckets) :
    firstIdle h nu = some nu := by
  obtain ⟨k, hk⟩ : ∃ k, nbuckets - nu = k + 1 := ⟨nbuckets - nu - 1, by omega⟩
  rw [firstIdle, hk, List.range'_succ, List.find?_cons_of_pos (by rw [hidle]; rfl)]

/-- Where the allocator is called first, its break is made even or was even. -/
def StartsEven (sys : System) (h : Heap) (ans : Answers) : Prop :=
  h.pagesz = 0 → (pagealign sys ans h).2 = true ∨ 16 ∣ sys.initialBreak

instance (sys : System) (h : Heap) (ans : Answers) : Decidable (StartsEven sys h ans) :=
  inferInstanceAs (Decidable (_ → _))

/-- The ways a call of `internal_malloc` can take, with any size: null, or a block from the head
of a bin that is large enough for the size as it was rounded. -/
theorem mallocAligned_cases (ans : Answers) (hs : Started sys h live)
    (hidle : h.busy = fun _ => false) (n : ℕ) :
    (∃ h', mallocAligned sys ans h n = .ok (0, h') ∧ WellFormed sys h' live ∧
      Undisturbed live h.mem h'.mem) ∨
    ∃ filled nu, mallocAligned sys ans h n = takeBlock sys filled nu n ∧
      Ready sys filled nu live ∧ allocatedBytes n ≤ binsize nu ∧
      Undisturbed live h.mem filled.mem := by
  have hrefused : WellFormed sys h live ∧ Undisturbed live h.mem h.mem :=
    ⟨⟨hidle, .inr hs⟩, Undisturbed.refl live h.mem⟩
  rw [mallocAligned]
  simp only
  split_ifs with hlarge hnone
  · exact .inl ⟨h, rfl, hrefused⟩
  · exact .inl ⟨h, rfl, hrefused⟩
  · have hnu := Nat.lt_of_not_le hnone
    have hfits := firstBin_spec hnu
    generalize firstBin (startBin h (allocatedBytes n)) (allocatedBytes n) = nu at *
    rw [firstIdle_idle hidle hnu]
    simp only
    obtain ⟨free, hc, hsmall⟩ := hs
    have hmaxbuck : max h.maxbuck nu < nbuckets := max_lt hc.maxbuck hnu
    have hclaimed : Consistent sys { h with
        busy := Function.update h.busy nu true
        maxbuck := max h.maxbuck nu } free [] live :=
      ⟨hc.layout, hc.kernel, hc.memtop, hc.aligned, hc.pagesz, hmaxbuck⟩
    have hbusy : Function.update h.busy nu true = Function.update (fun _ => false) nu true := by
      rw [hidle]
    by_cases hempty : h.nextf nu = 0
    · obtain ⟨h₁, free₁, hok, hc₁, hsmall₁, htail, hserved⟩ := morecore_spec ans hclaimed
        hsmall hnu ((hc.layout.linked nu).head_null_iff.mp hempty)
      rw [if_pos hempty, hok]
      by_cases hstill : h₁.nextf nu = 0
      · refine .inl ⟨_, if_pos hstill, ⟨?_, .inr ⟨free₁, ⟨hc₁.layout, hc₁.kernel, hc₁.memtop,
          hc₁.aligned, hc₁.pagesz, hc₁.maxbuck⟩, fun i hi => ?_⟩⟩, hserved.kept⟩
        · simp only [hserved.busy, hbusy, Function.update_idem, Function.update_eq_self]
        · by_cases hne : i = nu
          · subst hne
            exact (hc₁.layout.linked i).head_null_iff.mp hstill
          · exact hsmall₁ i hi hne
      · exact .inr ⟨h₁, nu, if_neg hstill, ⟨hnu, hstill, hserved.busy.trans hbusy,
          ⟨free₁, hc₁, hsmall₁, htail⟩⟩, hfits, hserved.kept⟩
    · rw [if_neg hempty]
      refine .inr ⟨_, nu, if_neg hempty, ⟨hnu, hempty, hbusy, ⟨free, hclaimed,
        fun i hi _ => hsmall i hi, fun hgt => ?_⟩⟩, hfits, Undisturbed.refl live h.mem⟩
      rw [hsmall nu hgt]
      rfl

theorem internalMalloc_first (hzero : h.pagesz = 0) :
    internalMalloc sys ans h n =
      if (pagealign sys ans h).2 = true then mallocAligned sys ans (pagealign sys ans h).1 n
      else .ok (0, (pagealign sys ans h).1) := by
  rw [internalMalloc, if_pos hzero]
  rcases pagealign sys ans h with ⟨h', _ | _⟩
  · rfl
  · rfl

theorem internalMalloc_cases (hw : WellFormed sys h live) (hstart : StartsEven sys h ans) (n : ℕ) :
    (∃ h', internalMalloc sys ans h n = .ok (0, h') ∧ WellFormed sys h' live ∧
      Undisturbed live h.mem h'.mem) ∨
    ∃ filled nu, internalMalloc sys ans h n = takeBlock sys filled nu n ∧
      Ready sys filled nu live ∧ allocatedBytes n ≤ binsize nu ∧
      Undisturbed live h.mem filled.mem := by
  rcases hw.heap with ⟨rfl, m, rfl⟩ | hs
  · have heven := hstart rfl
    obtain ⟨hs, hidle⟩ := pagealign_spec heven
    rw [internalMalloc_first (show (Heap.initial sys m).pagesz = 0 from rfl)]
    by_cases hok : (pagealign sys ans (Heap.initial sys m)).2 = true
    · rw [if_pos hok]
      rcases mallocAligned_cases ans hs hidle n with
        ⟨h', hnull, hw', _⟩ | ⟨filled, nu, htake, hready, hfits, _⟩
      · exact .inl ⟨h', hnull, hw', fun _ hb => (by cases hb)⟩
      · exact .inr ⟨filled, nu, htake, hready, hfits, fun _ hb => (by cases hb)⟩
    · rw [if_neg hok]
      exact .inl ⟨_, rfl, ⟨hidle, .inr hs⟩, fun _ hb => (by cases hb)⟩
  · obtain ⟨free, hc, _⟩ := id hs
    have hpos : h.pagesz ≠ 0 := by
      rw [hc.pagesz, pagesz_eq]
      exact (Nat.two_pow_pos _).ne'
    rw [internalMalloc, if_neg hpos]
    exact mallocAligned_cases ans hs hw.idle n

/-- With a size whose rounding does not wrap. -/
theorem internalMalloc_spec (hw : WellFormed sys h live) (hstart : StartsEven sys h ans)
    (hwrap : n + 35 < 2 ^ 64) :
    (∃ h', internalMalloc sys ans h n = .ok (0, h') ∧ WellFormed sys h' live ∧
      Undisturbed live h.mem h'.mem) ∨
    ∃ h' nu p, internalMalloc sys ans h n = .ok (p + 16, h') ∧
      WellFormed sys h' (LiveBlock.plain nu p n :: live) ∧ Undisturbed live h.mem h'.mem := by
  rcases internalMalloc_cases hw hstart n with hnull | ⟨filled, nu, htake, hready, hfits, hkept⟩
  · exact .inl hnull
  · obtain ⟨h', hok, hw', hkept'⟩ := takeBlock_spec hready hwrap hfits
    exact .inr ⟨h', nu, _, htake.trans hok, hw', hkept.trans hkept'⟩

end Malloc

end Rash
