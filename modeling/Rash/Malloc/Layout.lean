import Rash.Lib.NullList
import Rash.Malloc.Allocator

/-!
# The layout of the heap

Blocks are on a free list, handed out, or loose: in the allocator's hands while a function runs.
An operation is a series of moves between the three, and each move keeps all blocks apart and in
memory that the process holds.
-/

namespace Rash

open Regions ByteMemory NullList

namespace Malloc

/-! ## Sizes of bins -/

theorem binsize_ge {i : ℕ} (h : i < nbuckets) : 32 ≤ binsize i := by
  have : ∀ i < nbuckets, 32 ≤ binsize i := by decide
  exact this i h

theorem binsize_le {i : ℕ} (h : i < nbuckets) : binsize i ≤ maxallocSize := by
  have : ∀ i < nbuckets, binsize i ≤ maxallocSize := by decide
  exact this i h

theorem binsize_eq {i : ℕ} (h : i < 27) : binsize i = 2 ^ (i + 5) := by
  have : ∀ i < 27, binsize i = 2 ^ (i + 5) := by decide
  exact this i h

theorem binsize_last : binsize 27 = 2 ^ 32 - 1 := rfl

/-- A block of a bin is a whole number of blocks of a lower one. -/
theorem binsize_mul {i j : ℕ} (hij : i ≤ j) (hj : j < 27) :
    binsize j = 2 ^ (j - i) * binsize i := by
  rw [binsize_eq hj, binsize_eq (hij.trans_lt hj), ← pow_add]
  congr 1
  omega

/-! ## Blocks -/

structure Block where
  bin : ℕ
  base : ℕ
  deriving DecidableEq, Repr

def Block.region (c : Block) : Region := ⟨c.base, binsize c.bin⟩

/-- A block that is handed out: the pointer the caller has, the bytes it asked for, and the size
in the header. -/
structure LiveBlock extends Block where
  pointer : ℕ
  requested : ℕ
  nbytes : ℕ
  deriving DecidableEq, Repr

/-- Where the block is memory that the process holds. -/
structure Held (sys : System) (k : Kernel) (c : Block) : Prop where
  bin : c.bin < nbuckets
  positive : 0 < c.base
  aligned : 16 ∣ c.base
  inHeap : c.bin ≤ mmapThreshold →
    sys.initialBreak ≤ c.base ∧ c.base + binsize c.bin ≤ k.brk
  mapped : mmapThreshold < c.bin →
    (⟨c.base, Kernel.wholePages sys (binsize c.bin)⟩ : Region) ∈ k.maps

/-- The mark of a free block -/
def Marked (m : Memory) (c : Block) : Prop := m c.base = isFree ∧ (m (c.base + 1)).toNat = c.bin

/-- The header, the guards and, where the pointer is displaced, the second header. -/
structure LiveBlock.Intact (m : Memory) (b : LiveBlock) : Prop where
  alloc : m b.base = isAlloc
  index : (m (b.base + 1)).toNat = b.bin
  magic : load m (b.base + 2) 2 = magic2
  size : load m (b.base + 4) 4 = b.nbytes
  beginGuard : ∀ i < 8, m (b.base + 8 + i) = magic1
  endGuard : load m (b.base + 16 + b.nbytes) 4 = b.nbytes
  fits : allocatedBytes b.nbytes ≤ binsize b.bin
  aligned : 16 ∣ b.pointer
  inside : b.base + 16 ≤ b.pointer ∧ b.pointer + b.requested ≤ b.base + 16 + b.nbytes
  displaced : b.pointer ≠ b.base + 16 → b.base + 32 ≤ b.pointer ∧
    m (b.pointer - 16) = isMemalign ∧ load m (b.pointer - 12) 4 = b.pointer - (b.base + 16)

variable {sys : System} {m m' : Memory} {k k' : Kernel} {nextf : ℕ → ℕ}
  {free : ℕ → List ℕ} {loose loose' : List Block} {live live' : List LiveBlock} {b : LiveBlock}

theorem Marked.congr {c : Block} (h : Marked m c) (hc : c.bin < nbuckets)
    (hkept : Kept m m' c.region) : Marked m' c := by
  have hsize := binsize_ge hc
  have hfirst := hkept c.base (by simp only [Block.region, Region.mem_mk]; omega)
  have hsecond := hkept (c.base + 1) (by simp only [Block.region, Region.mem_mk]; omega)
  exact ⟨hfirst.trans h.1, (congrArg _ hsecond).trans h.2⟩

theorem chain_congr {c : Block} (hc : c.bin < nbuckets) (hkept : Kept m m' c.region) :
    chain m' c.base = chain m c.base := by
  have hsize := binsize_ge hc
  refine hkept.load ?_
  simp only [Block.region, Within]
  omega

theorem allocatedBytes_eq {n : ℕ} (h : n + 35 < 2 ^ 64) :
    allocatedBytes n = (n + 35) / 16 * 16 := by
  rw [allocatedBytes, Nat.mod_eq_of_lt h]

namespace LiveBlock.Intact

theorem nbytes_lt (h : b.Intact m) : b.nbytes < 2 ^ 32 := h.size ▸ load_lt m _ 4

theorem room (h : b.Intact m) : b.nbytes + 20 ≤ binsize b.bin := by
  have hlt := h.nbytes_lt
  have hfits := h.fits
  rw [allocatedBytes_eq (by omega)] at hfits
  omega

theorem congr (h : b.Intact m) (hkept : Kept m m' b.region) : b.Intact m' := by
  have hroom := h.room
  have hinside := h.inside
  have hbyte : ∀ x, b.base ≤ x → x < b.base + 16 → m' x = m x := fun x _ _ =>
    hkept x (by simp only [Block.region, Region.mem_mk]; omega)
  have hload : ∀ a len, b.base ≤ a → a + len ≤ b.base + 20 + b.nbytes →
      load m' a len = load m a len := fun a len _ _ =>
    hkept.load (by simp only [Block.region, Within]; omega)
  refine ⟨?_, ?_, ?_, ?_, fun i hi => ?_, ?_, h.fits, h.aligned, h.inside, fun hne => ?_⟩
  · rw [hbyte _ le_rfl (by omega), h.alloc]
  · rw [hbyte _ (by omega) (by omega), h.index]
  · rw [hload _ _ (by omega) (by omega), h.magic]
  · rw [hload _ _ (by omega) (by omega), h.size]
  · rw [hbyte _ (by omega) (by omega), h.beginGuard i hi]
  · rw [hload _ _ (by omega) (by omega), h.endGuard]
  · obtain ⟨hbase, hmark, hshift⟩ := h.displaced hne
    have hsame := hkept (b.pointer - 16) (by simp only [Block.region, Region.mem_mk]; omega)
    exact ⟨hbase, hsame.trans hmark,
      (hload _ _ (by omega) (by omega)).trans hshift⟩

/-- What the caller may write leaves the block intact. -/
theorem written (h : b.Intact m)
    (hkept : ∀ x, x < b.pointer ∨ b.pointer + b.requested ≤ x → m' x = m x) : b.Intact m' := by
  have hroom := h.room
  have hinside := h.inside
  have hbyte : ∀ x, x < b.pointer → m' x = m x := fun x hx => hkept x (.inl hx)
  have hload : ∀ a len, a + len ≤ b.pointer → load m' a len = load m a len := fun a len hle =>
    load_congr fun x _ _ => hbyte x (by omega)
  refine ⟨?_, ?_, ?_, ?_, fun i hi => ?_, ?_, h.fits, h.aligned, h.inside, fun hne => ?_⟩
  · rw [hbyte _ (by omega), h.alloc]
  · rw [hbyte _ (by omega), h.index]
  · rw [hload _ _ (by omega), h.magic]
  · rw [hload _ _ (by omega), h.size]
  · rw [hbyte _ (by omega), h.beginGuard i hi]
  · rw [load_congr fun x _ _ => hkept x (.inr (by omega)), h.endGuard]
  · obtain ⟨hbase, hmark, hshift⟩ := h.displaced hne
    exact ⟨hbase, (hbyte _ (by omega)).trans hmark, (hload _ _ (by omega)).trans hshift⟩

theorem trueStart_eq (h : b.Intact m) : trueStart m b.pointer = b.base + 16 := by
  by_cases hne : b.pointer = b.base + 16
  · rw [trueStart, hne, Nat.add_sub_cancel, h.alloc, if_neg (by decide)]
  · obtain ⟨hbase, hmark, hshift⟩ := h.displaced hne
    rw [trueStart, if_pos hmark, hshift]
    omega

end LiveBlock.Intact

/-! ## The layout -/

def freeBlocks (free : ℕ → List ℕ) : List Block :=
  (List.range nbuckets).flatMap fun i => (free i).map (Block.mk i)

/-- The free blocks of the other bins -/
def otherFree (free : ℕ → List ℕ) (i : ℕ) : List Block :=
  ((List.range nbuckets).erase i).flatMap fun j => (free j).map (Block.mk j)

theorem freeBlocks_perm {i : ℕ} (hi : i < nbuckets) :
    (freeBlocks free).Perm ((free i).map (Block.mk i) ++ otherFree free i) :=
  (List.perm_cons_erase (List.mem_range.mpr hi)).flatMap_right _

theorem otherFree_update (i : ℕ) (l : List ℕ) :
    otherFree (Function.update free i l) i = otherFree free i := by
  refine List.flatMap_congr fun j hj => ?_
  have hne : j ≠ i := (List.nodup_range.mem_erase_iff.mp hj).1
  rw [Function.update_of_ne hne]

theorem mem_otherFree {i j a : ℕ} (hj : j < nbuckets) (hne : j ≠ i) (ha : a ∈ free j) :
    (⟨j, a⟩ : Block) ∈ otherFree free i :=
  List.mem_flatMap.mpr ⟨j, List.nodup_range.mem_erase_iff.mpr ⟨hne, List.mem_range.mpr hj⟩,
    List.mem_map_of_mem ha⟩

theorem mem_freeBlocks {c : Block} :
    c ∈ freeBlocks free ↔ c.bin < nbuckets ∧ c.base ∈ free c.bin := by
  simp only [freeBlocks, List.mem_flatMap, List.mem_range, List.mem_map]
  constructor
  · rintro ⟨i, hi, a, ha, rfl⟩
    exact ⟨hi, ha⟩
  · rintro ⟨hi, ha⟩
    exact ⟨c.bin, hi, c.base, ha, rfl⟩

/-- All blocks -/
def blocks (free : ℕ → List ℕ) (loose : List Block) (live : List LiveBlock) : List Block :=
  freeBlocks free ++ (loose ++ live.map LiveBlock.toBlock)

structure Layout (sys : System) (m : Memory) (nextf : ℕ → ℕ) (k : Kernel)
    (free : ℕ → List ℕ) (loose : List Block) (live : List LiveBlock) : Prop where
  linked : ∀ i, Linked 0 (chain m) (free i) (nextf i)
  marked : ∀ i, ∀ a ∈ free i, Marked m ⟨i, a⟩
  bins : ∀ i, nbuckets ≤ i → free i = []
  held : ∀ c ∈ blocks free loose live, Held sys k c
  separated : Separated ((blocks free loose live).map Block.region)
  intact : ∀ b ∈ live, b.Intact m

/-- The blocks of a bin and the loose ones, and what is left. -/
theorem blocks_perm {i : ℕ} (hi : i < nbuckets) :
    (blocks free loose live).Perm (((free i).map (Block.mk i) ++ loose) ++
      (otherFree free i ++ live.map LiveBlock.toBlock)) := by
  refine ((freeBlocks_perm hi).append_right _).trans ?_
  rw [List.append_assoc, List.append_assoc]
  refine List.Perm.append_left _ ?_
  rw [← List.append_assoc, ← List.append_assoc]
  exact List.perm_append_comm.append_right _

namespace Layout

theorem of_perm (hL : Layout sys m nextf k free loose live)
    (hperm : (loose ++ live.map LiveBlock.toBlock).Perm
      (loose' ++ live'.map LiveBlock.toBlock))
    (hintact : ∀ b ∈ live', b.Intact m) : Layout sys m nextf k free loose' live' := by
  have hall := hperm.append_left (freeBlocks free)
  refine ⟨hL.linked, hL.marked, hL.bins, fun c hc => hL.held c (hall.mem_iff.mpr hc), ?_, hintact⟩
  exact hL.separated.perm (hall.map _)

/-- A block that was filled in is handed out. -/
theorem grant (hL : Layout sys m nextf k free (b.toBlock :: loose) live) (hb : b.Intact m) :
    Layout sys m nextf k free loose (b :: live) :=
  hL.of_perm List.perm_middle.symm fun c hc => by
    rcases List.mem_cons.mp hc with rfl | hc
    · exact hb
    · exact hL.intact c hc

/-- A block that was handed out is taken back. -/
theorem release (hL : Layout sys m nextf k free loose live) (hlive : live.Perm (b :: live')) :
    Layout sys m nextf k free (b.toBlock :: loose) live' := by
  refine hL.of_perm ?_ fun c hc => hL.intact c (hlive.mem_iff.mpr (List.mem_cons_of_mem b hc))
  exact ((hlive.map _).append_left _).trans List.perm_middle

theorem apart (hL : Layout sys m nextf k free loose live) {i : ℕ} (hi : i < nbuckets)
    {c d : Block} (hc : c ∈ (free i).map (Block.mk i) ++ loose)
    (hd : d ∈ otherFree free i ++ live.map LiveBlock.toBlock) : Apart d.region c.region := by
  have hsep := hL.separated.perm ((blocks_perm hi).map _)
  rw [List.map_append] at hsep
  have hbetween := (separated_append.mp hsep).2.2
  exact (hbetween _ (List.mem_map_of_mem hc) _ (List.mem_map_of_mem hd)).symm

/-- What an operation leaves of the blocks that are handed out, if it writes to a bin's blocks
and the loose ones. -/
theorem kept (hL : Layout sys m nextf k free loose live) {i : ℕ} (hi : i < nbuckets)
    (hmem : ChangedIn (((free i).map (Block.mk i) ++ loose).map Block.region) m m') :
    ∀ b ∈ live, Kept m m' b.region := by
  refine fun b hb => hmem.kept fun s hs => ?_
  obtain ⟨c, hc, rfl⟩ := List.mem_map.mp hs
  exact hL.apart hi hc (List.mem_append_right _ (List.mem_map_of_mem hb))

/-- Blocks move between one free list and the allocator's hands. -/
theorem rebin (hL : Layout sys m nextf k free loose live) {i : ℕ} (hi : i < nbuckets)
    {l : List ℕ} {head : ℕ}
    (hperm : ((free i).map (Block.mk i) ++ loose).Perm (l.map (Block.mk i) ++ loose'))
    (hmem : ChangedIn (((free i).map (Block.mk i) ++ loose).map Block.region) m m')
    (hlinked : Linked 0 (chain m') l head) (hmarked : ∀ a ∈ l, Marked m' ⟨i, a⟩) :
    Layout sys m' (Function.update nextf i head) k (Function.update free i l) loose' live := by
  have hother : ∀ j ≠ i, ∀ a ∈ free j, j < nbuckets ∧ Kept m m' (Block.mk j a).region := by
    intro j hj a ha
    have hjlt : j < nbuckets := by
      by_contra hge
      rw [hL.bins j (Nat.le_of_not_lt hge)] at ha
      cases ha
    refine ⟨hjlt, hmem.kept fun s hs => ?_⟩
    obtain ⟨c, hc, rfl⟩ := List.mem_map.mp hs
    exact hL.apart hi hc (List.mem_append_left _ (mem_otherFree hjlt hj ha))
  have hblocks : (blocks free loose live).Perm
      (blocks (Function.update free i l) loose' live) := by
    refine (blocks_perm hi).trans (List.Perm.trans ?_ (blocks_perm hi).symm)
    rw [Function.update_self, otherFree_update]
    exact hperm.append_right _
  refine ⟨fun j => ?_, fun j a ha => ?_, fun j hj => ?_, fun c hc => ?_, ?_, fun b hb => ?_⟩
  · by_cases hj : j = i
    · subst hj
      rwa [Function.update_self, Function.update_self]
    · rw [Function.update_of_ne hj, Function.update_of_ne hj]
      exact (hL.linked j).congr fun a ha => chain_congr (hother j hj a ha).1 (hother j hj a ha).2
  · by_cases hj : j = i
    · subst hj
      rw [Function.update_self] at ha
      exact hmarked a ha
    · rw [Function.update_of_ne hj] at ha
      exact (hL.marked j a ha).congr (hother j hj a ha).1 (hother j hj a ha).2
  · rw [Function.update_of_ne (by omega)]
    exact hL.bins j hj
  · exact hL.held c (hblocks.mem_iff.mpr hc)
  · exact hL.separated.perm (hblocks.map _)
  · exact (hL.intact b hb).congr (hL.kept hi hmem b hb)

/-- The lists and the blocks that are handed out stay where their bytes are kept. -/
theorem transport (hL : Layout sys m nextf k free loose live)
    (hkept : ∀ c ∈ freeBlocks free ++ live.map LiveBlock.toBlock, Kept m m' c.region)
    (hheld : ∀ c ∈ blocks free loose' live, Held sys k' c)
    (hsep : Separated ((blocks free loose' live).map Block.region)) :
    Layout sys m' nextf k' free loose' live := by
  have hfree : ∀ i, ∀ a ∈ free i, i < nbuckets ∧ Kept m m' (Block.mk i a).region := by
    intro i a ha
    have hi : i < nbuckets := by
      by_contra hge
      rw [hL.bins i (Nat.le_of_not_lt hge)] at ha
      cases ha
    exact ⟨hi, hkept _ (List.mem_append_left _ (mem_freeBlocks.mpr ⟨hi, ha⟩))⟩
  refine ⟨fun i => ?_, fun i a ha => ?_, hL.bins, hheld, hsep, fun b hb => ?_⟩
  · exact (hL.linked i).congr fun a ha => chain_congr (hfree i a ha).1 (hfree i a ha).2
  · exact (hL.marked i a ha).congr (hfree i a ha).1 (hfree i a ha).2
  · exact (hL.intact b hb).congr (hkept _ (List.mem_append_right _ (List.mem_map_of_mem hb)))

theorem loose_perm : (blocks free loose live).Perm
    (loose ++ (freeBlocks free ++ live.map LiveBlock.toBlock)) := by
  rw [blocks, ← List.append_assoc, ← List.append_assoc]
  exact List.perm_append_comm.append_right _

theorem held_loose (hL : Layout sys m nextf k free loose live) {c : Block} (hc : c ∈ loose) :
    Held sys k c :=
  hL.held c (loose_perm.mem_iff.mpr (List.mem_append_left _ hc))

theorem apart_loose (hL : Layout sys m nextf k free loose live) {c d : Block} (hc : c ∈ loose)
    (hd : d ∈ freeBlocks free ++ live.map LiveBlock.toBlock) : Apart d.region c.region := by
  have hsep := hL.separated.perm (loose_perm.map _)
  rw [List.map_append] at hsep
  exact ((separated_append.mp hsep).2.2 _ (List.mem_map_of_mem hc) _
    (List.mem_map_of_mem hd)).symm

/-- The bytes of loose blocks are the allocator's. -/
theorem write (hL : Layout sys m nextf k free loose live)
    (hmem : ChangedIn (loose.map Block.region) m m') :
    Layout sys m' nextf k free loose live ∧ ∀ b ∈ live, Kept m m' b.region := by
  have hkept : ∀ c ∈ freeBlocks free ++ live.map LiveBlock.toBlock, Kept m m' c.region := by
    refine fun c hc => hmem.kept fun s hs => ?_
    obtain ⟨d, hd, rfl⟩ := List.mem_map.mp hs
    exact hL.apart_loose hd hc
  exact ⟨hL.transport hkept hL.held hL.separated,
    fun b hb => hkept _ (List.mem_append_right _ (List.mem_map_of_mem hb))⟩

theorem exchange (hL : Layout sys m nextf k free loose live)
    (hheld : ∀ c ∈ loose', Held sys k c) (hsep : Separated (loose'.map Block.region))
    (hcovered : ∀ r, 0 < r.length → (∀ c ∈ loose, Apart r c.region) →
      ∀ c ∈ loose', Apart r c.region) : Layout sys m nextf k free loose' live := by
  refine hL.transport (fun _ _ => Kept.refl m _) (fun c hc => ?_) ?_
  · rcases List.mem_append.mp (loose_perm.mem_iff.mp hc) with hc | hc
    · exact hheld c hc
    · exact hL.held c (loose_perm.mem_iff.mpr (List.mem_append_right _ hc))
  · refine Separated.perm ?_ (loose_perm.map _).symm
    have hold := hL.separated.perm (loose_perm.map _)
    rw [List.map_append] at hold ⊢
    refine hold.exchange hsep fun s hs hapart r hr => ?_
    obtain ⟨d, hd, rfl⟩ := List.mem_map.mp hs
    obtain ⟨c, hc, rfl⟩ := List.mem_map.mp hr
    have hsize := binsize_ge (hL.held d (loose_perm.mem_iff.mpr (List.mem_append_right _ hd))).bin
    refine hcovered _ (by simp only [Block.region]; omega) (fun e he => ?_) c hc
    exact hapart _ (List.mem_map_of_mem he)

/-- New memory comes in as loose blocks. -/
theorem grow {r : Region} {new : List Block} (hL : Layout sys m nextf k free loose live)
    (hkeep : ∀ c ∈ blocks free loose live, Held sys k' c ∧ Apart c.region r)
    (hnew : ∀ c ∈ new, Held sys k' c ∧ Within c.region r)
    (hsep : Separated (new.map Block.region)) (hmem : ChangedIn [r] m m') :
    Layout sys m' nextf k' free (new ++ loose) live ∧ ∀ b ∈ live, Kept m m' b.region := by
  have hkept : ∀ c ∈ blocks free loose live, Kept m m' c.region :=
    fun c hc => hmem.kept fun s hs => by
      rw [List.mem_singleton.mp hs]
      exact (hkeep c hc).2
  have hrest : ∀ c ∈ freeBlocks free ++ live.map LiveBlock.toBlock,
      c ∈ blocks free loose live := fun c hc =>
    loose_perm.mem_iff.mpr (List.mem_append_right _ hc)
  have hall : (blocks free (new ++ loose) live).Perm (new ++ blocks free loose live) := by
    refine loose_perm.trans ?_
    rw [List.append_assoc]
    exact loose_perm.symm.append_left _
  refine ⟨hL.transport (fun c hc => hkept c (hrest c hc)) (fun c hc => ?_) ?_, fun b hb => ?_⟩
  · rcases List.mem_append.mp (hall.mem_iff.mp hc) with hc | hc
    · exact (hnew c hc).1
    · exact (hkeep c hc).1
  · refine Separated.perm ?_ (hall.map _).symm
    rw [List.map_append]
    refine separated_append.mpr ⟨hsep, hL.separated, fun s hs t ht => ?_⟩
    obtain ⟨c, hc, rfl⟩ := List.mem_map.mp hs
    obtain ⟨d, hd, rfl⟩ := List.mem_map.mp ht
    exact ((hkeep d hd).2.mono (Within.refl _) (hnew c hc).2).symm
  · exact hkept _ (hrest _ (List.mem_append_right _ (List.mem_map_of_mem hb)))

/-- A loose block goes back to the system. -/
theorem drop {c : Block} (hL : Layout sys m nextf k free (c :: loose) live)
    (hkeep : ∀ d ∈ blocks free loose live, Held sys k d → Apart d.region c.region →
      Held sys k' d) : Layout sys m nextf k' free loose live := by
  have hperm : (blocks free (c :: loose) live).Perm (c :: blocks free loose live) :=
    List.perm_middle
  have hsep := hL.separated.perm (hperm.map _)
  rw [List.map_cons, separated_cons] at hsep
  refine hL.transport (fun _ _ => Kept.refl m _) (fun d hd => ?_) hsep.2
  exact hkeep d hd (hL.held d (hperm.mem_iff.mpr (List.mem_cons_of_mem c hd)))
    (hsep.1 _ (List.mem_map_of_mem hd)).symm

end Layout

end Malloc

end Rash
