import Rash.Malloc.Layout

/-!
# What the system hands out

The break only moves at its end and mappings are placed apart from it and from each other.  The
amounts that `morecore` asks for are whole numbers of blocks.
-/

namespace Rash

open Regions ByteMemory

namespace Malloc

variable {sys : System} {k k' : Kernel} {amount len start : ℕ} {granted : Bool}
  {answer : Option ℕ}

/-- `pagesz` once `pagealign` was called -/
def System.pagesz (sys : System) : ℕ := max sys.getpagesize mallocPagesizeMin

namespace Kernel

structure Sound (sys : System) (k : Kernel) : Prop where
  start : sys.initialBreak ≤ k.brk
  limit : k.brk ≤ addressLimit
  placed : ∀ r ∈ k.maps, (0 < r.start ∧ 0 < r.length ∧ sys.getpagesize ∣ r.start ∧
    r.start + r.length ≤ addressLimit) ∧ Apart r (k.heapRegion sys)
  separated : Separated k.maps

theorem heapRegion_grow (h : k.Sound sys) (amount : ℕ) :
    heapRegion sys { k with brk := k.brk + amount } =
      ⟨sys.initialBreak, (k.brk - sys.initialBreak) + amount⟩ := by
  have := h.start
  simp only [heapRegion, Region.mk.injEq, true_and]
  omega

theorem sbrk_spec (h : k.Sound sys) (hgrow : k.sbrk amount granted = some k') :
    k' = { k with brk := k.brk + amount } ∧ k'.Sound sys ∧
      ∀ s ∈ k.maps, Apart s ⟨k.brk, amount⟩ := by
  rw [sbrk] at hgrow
  split_ifs at hgrow with hcond
  obtain ⟨_, hlimit, hapart⟩ := hcond
  obtain rfl := (Option.some.inj hgrow).symm
  refine ⟨rfl, ⟨?_, hlimit, fun r hr => ?_, h.separated⟩, fun s hs => (hapart s hs).symm⟩
  · exact h.start.trans (Nat.le_add_right _ _)
  · obtain ⟨hplace, hheap⟩ := h.placed r hr
    refine ⟨hplace, ?_⟩
    rw [heapRegion_grow h]
    refine Apart.join hplace.2.1 hheap ?_
    rw [Nat.add_sub_cancel' h.start]
    exact (hapart r hr).symm

theorem shrink_sound (h : k.Sound sys) (hle : sys.initialBreak + amount ≤ k.brk) :
    (k.shrink amount).Sound sys := by
  have hlimit := h.limit
  refine ⟨?_, ?_, fun r hr => ⟨(h.placed r hr).1, ?_⟩, h.separated⟩
  · simp only [shrink]
    omega
  · simp only [shrink]
    omega
  · refine (h.placed r hr).2.mono (Within.refl r) ?_
    simp only [heapRegion, shrink, Within]
    omega

/-- A mapping is placed. -/
theorem Sound.place {r : Region} (h : k.Sound sys) (hr : Vacant sys k r) :
    Sound sys { k with maps := r :: k.maps } := by
  refine ⟨h.start, h.limit, fun s hs => ?_, separated_cons.mpr ⟨hr.2.2, h.separated⟩⟩
  rcases List.mem_cons.mp hs with rfl | hs
  · exact ⟨hr.1, hr.2.1⟩
  · exact h.placed s hs

theorem mmap_spec (h : k.Sound sys) (hmap : k.mmap sys len answer = some (start, k')) :
    k' = { k with maps := ⟨start, wholePages sys len⟩ :: k.maps } ∧ k'.Sound sys ∧
      Vacant sys k ⟨start, wholePages sys len⟩ := by
  cases answer with
  | none => cases hmap
  | some a =>
      simp only [mmap] at hmap
      split_ifs at hmap with hvacant
      obtain ⟨rfl, rfl⟩ := Prod.mk.inj (Option.some.inj hmap)
      exact ⟨rfl, h.place hvacant, hvacant⟩

theorem munmap_sound (h : k.Sound sys) : (k.munmap sys start len).Sound sys :=
  ⟨h.start, h.limit, fun r hr => h.placed r (List.mem_of_mem_erase hr),
    h.separated.sublist List.erase_sublist⟩

theorem mremap_spec {newLen : ℕ}
    (hmove : k.mremap sys start len newLen answer = some (amount, k')) :
    Vacant sys (k.munmap sys start len) ⟨amount, wholePages sys newLen⟩ ∧
      k' = { k.munmap sys start len with
        maps := ⟨amount, wholePages sys newLen⟩ :: (k.munmap sys start len).maps } := by
  cases answer with
  | none => cases hmove
  | some a =>
      simp only [mremap] at hmove
      split_ifs at hmove with hsame hvacant hvacant
      · obtain ⟨rfl, rfl⟩ := Prod.mk.inj (Option.some.inj hmove)
        exact ⟨hvacant, rfl⟩
      · obtain ⟨rfl, rfl⟩ := Prod.mk.inj (Option.some.inj hmove)
        exact ⟨⟨hvacant.1, hvacant.2.1, fun s hs => hvacant.2.2 s (List.mem_of_mem_erase hs)⟩, rfl⟩

end Kernel

/-! ## Amounts -/

theorem page_dvd (sys : System) : 16 ∣ sys.getpagesize := by
  rw [System.getpagesize, show 16 = 2 ^ 4 from rfl]
  exact pow_dvd_pow 2 (by have := sys.pageShift_ge; omega)

theorem getpagesize_pos (sys : System) : 0 < sys.getpagesize := Nat.two_pow_pos _

theorem pagesz_eq (sys : System) : sys.pagesz = 2 ^ max sys.pageShift 12 := by
  have : ∀ s ≤ 18, max (2 ^ s) 4096 = 2 ^ max s 12 := by decide
  exact this _ sys.pageShift_le

theorem wholePages_of_dvd {len : ℕ} (h : sys.getpagesize ∣ len) :
    Kernel.wholePages sys len = len := by
  obtain ⟨n, rfl⟩ := h
  have hpos := getpagesize_pos sys
  rw [Kernel.wholePages, Nat.add_sub_assoc hpos, Nat.mul_add_div hpos,
    Nat.div_eq_of_lt (by omega), Nat.add_zero, Nat.mul_comm]

theorem le_wholePages (sys : System) (len : ℕ) : len ≤ Kernel.wholePages sys len := by
  have hpos := getpagesize_pos sys
  have hlt := Nat.lt_div_mul_add (a := len + sys.getpagesize - 1) hpos
  rw [Kernel.wholePages]
  omega

theorem page_dvd_pow {i : ℕ} (h : 18 ≤ i) : sys.getpagesize ∣ 2 ^ i :=
  pow_dvd_pow 2 (sys.pageShift_le.trans h)

/-- A mapping's length for a bin above the threshold -/
theorem wholePages_binsize {nu : ℕ} (h : mmapThreshold < nu) (hlt : nu < nbuckets) :
    Kernel.wholePages sys (binsize nu) = 2 ^ (nu + 5) := by
  have hdvd : sys.getpagesize ∣ 2 ^ (nu + 5) :=
    page_dvd_pow (by simp only [mmapThreshold] at h; omega)
  by_cases hlast : nu = 27
  · subst hlast
    obtain ⟨n, hn⟩ := hdvd
    have hpos := getpagesize_pos sys
    have hsum : binsize 27 + sys.getpagesize - 1 = sys.getpagesize * n + (sys.getpagesize - 2) := by
      have : 2 ≤ sys.getpagesize := Nat.le_of_dvd hpos ((by decide : 2 ∣ 16).trans (page_dvd sys))
      rw [binsize_last, ← hn]
      omega
    rw [Kernel.wholePages, hsum, Nat.mul_add_div hpos, Nat.div_eq_of_lt (by omega), Nat.add_zero,
      Nat.mul_comm, ← hn]
  · rw [← binsize_eq (by simp only [nbuckets] at hlt; omega)] at hdvd ⊢
    exact wholePages_of_dvd hdvd

/-- What `morecore` maps -/
theorem systemRequest_map {nu : ℕ} (h : mmapThreshold < nu) (hlt : nu < nbuckets) :
    (systemRequest sys.pagesz (binsize nu)).1 = 2 ^ (nu + 5) := by
  have hle : max sys.pageShift 12 ≤ 18 := by have := sys.pageShift_le; omega
  simp only [mmapThreshold, nbuckets] at h hlt
  rw [pagesz_eq, systemRequest]
  by_cases hlast : nu = 27
  · subst hlast
    have : ∀ t ≤ 18, ¬binsize 27 ≤ 2 ^ t ∧ binsize 27 % 2 ^ t ≠ 0 ∧
        binsize 27 + 2 ^ t - binsize 27 % 2 ^ t = 2 ^ 32 ∨ t = 0 := by decide
    rcases this _ hle with ⟨hgt, hmod, hsum⟩ | hzero
    · rw [if_neg hgt, if_neg hmod]
      exact hsum
    · omega
  · rw [binsize_eq (by omega)]
    by_cases hsame : 2 ^ (nu + 5) ≤ 2 ^ max sys.pageShift 12
    · have hexp := (Nat.pow_le_pow_iff_right (by decide)).mp hsame
      rw [if_pos hsame, show max sys.pageShift 12 = nu + 5 by omega]
    · rw [if_neg hsame, if_pos (Nat.mod_eq_zero_of_dvd (pow_dvd_pow 2 (by omega)))]

/-- What `morecore` takes from the break is a whole number of blocks. -/
theorem systemRequest_heap {nu : ℕ} (h : nu ≤ mmapThreshold) :
    ∃ n, systemRequest sys.pagesz (binsize nu) = ((n + 1) * binsize nu, n + 1) := by
  simp only [mmapThreshold] at h
  have hpos : 0 < 2 ^ (nu + 5) := Nat.two_pow_pos _
  rw [pagesz_eq, systemRequest, binsize_eq (by omega)]
  by_cases hle : 2 ^ (nu + 5) ≤ 2 ^ max sys.pageShift 12
  · have hexp := (Nat.pow_le_pow_iff_right (by decide)).mp hle
    have hsplit : 2 ^ max sys.pageShift 12 =
        2 ^ (max sys.pageShift 12 - (nu + 5)) * 2 ^ (nu + 5) := by
      rw [← pow_add]
      congr 1
      omega
    have hone := Nat.two_pow_pos (max sys.pageShift 12 - (nu + 5))
    refine ⟨2 ^ (max sys.pageShift 12 - (nu + 5)) - 1, ?_⟩
    rw [if_pos hle, Nat.sub_add_cancel hone, hsplit, Nat.mul_div_cancel _ hpos]
  · have hexp : max sys.pageShift 12 ≤ nu + 5 := by
      by_contra hgt
      exact hle (Nat.pow_le_pow_right (by decide) (by omega))
    refine ⟨0, ?_⟩
    rw [if_neg hle, if_pos (Nat.mod_eq_zero_of_dvd (pow_dvd_pow 2 hexp)), Nat.zero_add, Nat.one_mul]

end Malloc

end Rash
