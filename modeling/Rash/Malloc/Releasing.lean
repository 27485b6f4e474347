import Rash.Malloc.Granting

/-!
# Taking blocks back

`internal_free` puts the block that was handed out on its list or gives it back to the system, if
what it scrambles stays in the block.
-/

namespace Rash

open Regions ByteMemory NullList

namespace Malloc

variable {sys : System} {m m' : Memory} {k : Kernel} {nextf : ℕ → ℕ} {h h' : Heap}
  {free : ℕ → List ℕ} {loose : List Block} {live live' : List LiveBlock} {b : LiveBlock}
  {c : Block} {ans : Answers}

/-! ## The checks -/

theorem checkGuards_ok (hb : b.Intact m) (who : String) : checkGuards who m b.base = .ok () := by
  have hn := hb.nbytes_lt
  have hroom := hb.room
  have hbucket : InBucket (allocatedBytes b.nbytes % 2 ^ 32) b.bin := by
    refine (Nat.mod_le _ _).trans hb.fits
  rw [checkGuards]
  simp only [hb.size, hb.index]
  rw [if_neg (not_not.mpr hb.magic), if_neg (not_not.mpr hbucket),
    if_neg (not_not.mpr hb.beginGuard), if_neg (not_not.mpr hb.endGuard)]

/-- A block that is intact passes the checks, by the pointer its caller has. -/
theorem internalFree_eq (hb : b.Intact h.mem) :
    internalFree sys h b.pointer = releaseBlock sys h b.pointer b.base := by
  have hpos : b.pointer ≠ 0 := by
    have := hb.inside
    omega
  have hcheck := checkGuards_ok hb "free"
  rw [internalFree, if_neg hpos]
  simp only [hb.trueStart_eq, Nat.add_sub_cancel, hb.alloc]
  rw [if_neg (by decide), if_neg (not_not.mpr rfl), hcheck]
  rfl

/-! ## Where a block goes -/

/-- `free` gives the block at `p` back to the system. -/
def GivenBack (h : Heap) (p : ℕ) : Prop :=
  mmapThreshold < (h.mem (p + 1)).toNat ∨
    (lesscoreMin ≤ (h.mem (p + 1)).toNat ∧ p + binsize (h.mem (p + 1)).toNat = h.memtop) ∧
      (lesscoreFrc ≤ (h.mem (p + 1)).toNat ∨ h.busy (h.mem (p + 1)).toNat = true ∨
        h.nextf (h.mem (p + 1)).toNat ≠ 0)

instance (h : Heap) (p : ℕ) : Decidable (GivenBack h p) := inferInstanceAs (Decidable (_ ∨ _))

/-- What `free` scrambles, from the pointer it is called with on, stays in the block. -/
def ScrambleFits (sys : System) (h : Heap) (mem : ℕ) : Prop :=
  sys.memscramble = true → ¬GivenBack h (trueStart h.mem mem - 16) →
    mem + load h.mem (trueStart h.mem mem - 16 + 4) 4 ≤
      trueStart h.mem mem - 16 + binsize (h.mem (trueStart h.mem mem - 16 + 1)).toNat

instance (sys : System) (h : Heap) (mem : ℕ) : Decidable (ScrambleFits sys h mem) :=
  inferInstanceAs (Decidable (_ → _))

theorem scrambleFits_iff (hb : b.Intact h.mem) : ScrambleFits sys h b.pointer ↔
    (sys.memscramble = true → ¬GivenBack h b.base →
      b.pointer + b.nbytes ≤ b.base + binsize b.bin) := by
  rw [ScrambleFits, hb.trueStart_eq, Nat.add_sub_cancel, hb.size, hb.index]

/-- A marked loose block goes to the front of its list. -/
theorem Layout.push (hL : Layout sys m nextf k free (c :: loose) live) (hmarked : Marked m c)
    (hchain : chain m c.base = nextf c.bin) :
    Layout sys m (Function.update nextf c.bin c.base) k
      (Function.update free c.bin (c.base :: free c.bin)) loose live := by
  have hheld := hL.held_loose List.mem_cons_self
  refine hL.rebin hheld.bin ?_ (ChangedIn.refl _ _)
    ⟨rfl, hheld.positive.ne', hchain ▸ hL.linked c.bin⟩ fun a ha => ?_
  · rw [List.map_cons, List.cons_append]
    exact List.perm_middle
  · rcases List.mem_cons.mp ha with rfl | ha
    · exact hmarked
    · exact hL.marked c.bin a ha

theorem Layout.unmap (hL : Layout sys m nextf k free (c :: loose) live) :
    Layout sys m nextf (k.munmap sys c.base (binsize c.bin)) free loose live := by
  have hsize := binsize_ge (hL.held_loose List.mem_cons_self).bin
  refine hL.drop fun d _ hd hapart => ⟨hd.bin, hd.positive, hd.aligned, hd.inHeap, fun hbin => ?_⟩
  have hdsize := binsize_ge hd.bin
  refine (List.mem_erase_of_ne fun heq => ?_).mpr (hd.mapped hbin)
  have hbase : d.base = c.base := congrArg Region.start heq
  simp only [Apart, Block.region] at hapart
  omega

theorem Layout.shrink (hL : Layout sys m nextf k free (c :: loose) live)
    (htop : c.base + binsize c.bin = k.brk) :
    Layout sys m nextf (k.shrink (binsize c.bin)) free loose live := by
  refine hL.drop fun d _ hd hapart =>
    ⟨hd.bin, hd.positive, hd.aligned, fun hbin => ⟨(hd.inHeap hbin).1, ?_⟩, hd.mapped⟩
  have hdsize := binsize_ge hd.bin
  have hstop := (hd.inHeap hbin).2
  simp only [Apart, Block.region, Kernel.shrink] at *
  omega

/-- The block that `free` keeps -/
theorem Layout.pushFreed (hL : Layout sys m nextf k free [c] live) (hk : k.Sound sys)
    (hindex : (m (c.base + 1)).toNat = c.bin) :
    Layout sys (setChain (fill m c.base 1 isFree) c.base (nextf c.bin))
        (Function.update nextf c.bin c.base) k
        (Function.update free c.bin (c.base :: free c.bin)) [] live ∧
      ∀ b ∈ live, Kept m (setChain (fill m c.base 1 isFree) c.base (nextf c.bin)) b.region := by
  have hsize := binsize_ge (hL.held_loose List.mem_cons_self).bin
  have hchanged : ChangedIn [c.region] m
      (setChain (fill m c.base 1 isFree) c.base (nextf c.bin)) := by
    intro x hx
    have hout := hx _ List.mem_cons_self
    simp only [Block.region, Region.mem_mk] at hout
    rw [setChain, store_apart (by omega), fill_apart (by omega)]
  obtain ⟨hwritten, hkept⟩ := hL.write hchanged
  refine ⟨hwritten.push ⟨?_, ?_⟩ (setChain_spec _ (hL.nextf_lt hk _)), hkept⟩
  · rw [setChain, store_apart (by omega), fill_inside (by omega) (by omega)]
  · rw [setChain, store_apart (by omega), fill_apart (by omega)]
    exact hindex

theorem releaseBlock_spec (hc : Consistent sys h free [b.toBlock] live) (hb : b.Intact h.mem)
    (hidle : h.busy = fun _ => false) (hsmall : ∀ i, mmapThreshold < i → free i = [])
    (hfits : sys.memscramble = true → ¬GivenBack h b.base →
      b.pointer + b.nbytes ≤ b.base + binsize b.bin) :
    ∃ h', releaseBlock sys h b.pointer b.base = .ok h' ∧ WellFormed sys h' live ∧
      Undisturbed live h.mem h'.mem := by
  have hheld := hc.layout.held_loose List.mem_cons_self
  have hsize := binsize_ge hheld.bin
  have hinside := hb.inside
  rw [GivenBack, hb.index] at hfits
  rw [releaseBlock]
  simp only [hb.index, hb.size]
  by_cases hmap : mmapThreshold < b.bin
  · rw [if_pos hmap]
    exact ⟨_, rfl, ⟨hidle, .inr ⟨free, ⟨hc.layout.unmap, Kernel.munmap_sound hc.kernel,
      hc.memtop, hc.aligned, hc.pagesz, hc.maxbuck⟩, hsmall⟩⟩, Undisturbed.refl live h.mem⟩
  · have hle := Nat.le_of_not_lt hmap
    rw [if_neg hmap]
    by_cases hless : (lesscoreMin ≤ b.bin ∧ b.base + binsize b.bin = h.memtop) ∧
        (lesscoreFrc ≤ b.bin ∨ h.busy b.bin = true ∨ h.nextf b.bin ≠ 0)
    · have hplace := hheld.inHeap hle
      have htop : b.base + binsize b.bin = h.kernel.brk := hless.1.2.trans hc.memtop
      rw [if_pos hless]
      refine ⟨_, rfl, ⟨hidle, .inr ⟨free, ⟨hc.layout.shrink htop,
        Kernel.shrink_sound hc.kernel (by omega), ?_, ?_, hc.pagesz, hc.maxbuck⟩, hsmall⟩⟩,
        Undisturbed.refl live h.mem⟩
      · simp only [lesscore, Kernel.shrink, hc.memtop]
      · simp only [lesscore, Kernel.shrink, ← htop, Nat.add_sub_cancel]
        exact hheld.aligned
    · have hbusy : h.busy b.bin = false := by rw [hidle]
      rw [if_neg hless, if_neg (Nat.not_le_of_lt hheld.bin), hbusy]
      have hchanged : ChangedIn [b.region] h.mem
          (if sys.memscramble = true ∧ b.nbytes ≠ 0 then fill h.mem b.pointer b.nbytes 0xcf
            else h.mem) := by
        split_ifs with hscramble
        · refine (ChangedIn.refl _ h.mem).fill List.mem_cons_self ?_
          have hend := hfits hscramble.1 fun hor => hor.elim hmap hless
          simp only [Within, Block.region]
          omega
        · exact ChangedIn.refl _ _
      have hindex : ((if sys.memscramble = true ∧ b.nbytes ≠ 0 then
          fill h.mem b.pointer b.nbytes 0xcf else h.mem) (b.base + 1)).toNat = b.bin := by
        split_ifs
        · rw [fill_apart (by omega), hb.index]
        · exact hb.index
      generalize (if sys.memscramble = true ∧ b.nbytes ≠ 0 then
        fill h.mem b.pointer b.nbytes 0xcf else h.mem) = scrambled at hchanged hindex ⊢
      obtain ⟨hwritten, hkept⟩ := hc.layout.write hchanged
      obtain ⟨hpushed, hkept'⟩ := hwritten.pushFreed hc.kernel hindex
      refine ⟨_, rfl, ⟨hidle, .inr ⟨_, ⟨hpushed, hc.kernel, hc.memtop, hc.aligned, hc.pagesz,
        hc.maxbuck⟩, fun i hi => ?_⟩⟩, fun d hd => (hkept d hd).trans (hkept' d hd)⟩
      rw [Function.update_of_ne (by omega)]
      exact hsmall i hi

/-- `free` of a block that is handed out -/
theorem internalFree_spec (hw : WellFormed sys h live) (hlive : live.Perm (b :: live'))
    (hfits : ScrambleFits sys h b.pointer) :
    ∃ h', internalFree sys h b.pointer = .ok h' ∧ WellFormed sys h' live' ∧
      Undisturbed live' h.mem h'.mem := by
  have hmem : b ∈ live := hlive.mem_iff.mpr List.mem_cons_self
  rcases hw.heap with ⟨rfl, _⟩ | ⟨free, hc, hsmall⟩
  · cases hmem
  · have hb := hc.layout.intact b hmem
    rw [internalFree_eq hb]
    exact releaseBlock_spec ⟨hc.layout.release hlive, hc.kernel, hc.memtop, hc.aligned, hc.pagesz,
      hc.maxbuck⟩ hb hw.idle hsmall ((scrambleFits_iff hb).mp hfits)

end Malloc

end Rash
