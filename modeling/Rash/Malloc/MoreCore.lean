import Mathlib.Data.Finset.Card
import Rash.Malloc.SystemMemory

/-!
# Filling a free list

`bsplit`, `bcoalesce` and `morecore` move memory between bins and take it from the system.  Each
leaves all blocks apart, and the blocks that are handed out as they were.
-/

namespace Rash

open Regions ByteMemory NullList

namespace Malloc

variable {sys : System} {m m' : Memory} {k : Kernel} {nextf : ℕ → ℕ} {h h' : Heap}
  {free : ℕ → List ℕ} {loose loose' : List Block} {live : List LiveBlock} {c : Block}
  {nu mp : ℕ}

/-- What holds of the heap while a function runs. -/
structure Consistent (sys : System) (h : Heap) (free : ℕ → List ℕ) (loose : List Block)
    (live : List LiveBlock) : Prop where
  layout : Layout sys h.mem h.nextf h.kernel free loose live
  kernel : h.kernel.Sound sys
  memtop : h.memtop = h.kernel.brk
  aligned : 16 ∣ h.kernel.brk
  pagesz : h.pagesz = sys.pagesz
  maxbuck : h.maxbuck < nbuckets

/-- What a function leaves that fills a free list. -/
structure Served (h h' : Heap) (live : List LiveBlock) : Prop where
  kept : ∀ b ∈ live, Kept h.mem h'.mem b.region
  busy : h'.busy = h.busy

theorem Served.refl (h : Heap) (live : List LiveBlock) : Served h h live :=
  ⟨fun _ _ => Kept.refl _ _, rfl⟩

theorem Served.trans {h'' : Heap} (hs : Served h h' live) (hs' : Served h' h'' live) :
    Served h h'' live :=
  ⟨fun b hb => (hs.kept b hb).trans (hs'.kept b hb), hs'.busy.trans hs.busy⟩

/-! ## Addresses -/

theorem Held.stop_le (hc : Held sys k c) (hk : k.Sound sys) :
    c.base + binsize c.bin ≤ addressLimit := by
  by_cases hbin : c.bin ≤ mmapThreshold
  · exact (hc.inHeap hbin).2.trans hk.limit
  · obtain ⟨⟨_, _, _, hstop⟩, _⟩ := hk.placed _ (hc.mapped (Nat.lt_of_not_le hbin))
    exact (Nat.add_le_add_left (le_wholePages sys _) _).trans hstop

theorem binsize_dvd (hnu : nu ≤ mmapThreshold) : 16 ∣ binsize nu := by
  have : ∀ nu ≤ mmapThreshold, 16 ∣ binsize nu := by decide
  exact this nu hnu

/-- Blocks of a bin that fill memory below the break -/
theorem held_tile {n : ℕ} (hnu : nu ≤ mmapThreshold) (hpos : 0 < mp) (hmp : 16 ∣ mp)
    (hstart : sys.initialBreak ≤ mp) (hstop : mp + n * binsize nu ≤ k.brk) :
    ∀ c ∈ (tile (binsize nu) mp n).map (Block.mk nu), Held sys k c := by
  intro c hc
  obtain ⟨a, ha, rfl⟩ := List.mem_map.mp hc
  have hwithin := within_tile ha
  obtain ⟨i, _, rfl⟩ := mem_tile ha
  simp only [Within] at hwithin
  refine ⟨hnu.trans_lt (by decide), by simp only; omega, ?_, fun _ => ?_, fun hgt => ?_⟩
  · exact Nat.dvd_add hmp ((binsize_dvd hnu).mul_left i)
  · exact ⟨by simp only; omega, by simp only; omega⟩
  · exact absurd hnu (Nat.not_le_of_lt hgt)

theorem map_region_tile (nu mp n : ℕ) :
    ((tile (binsize nu) mp n).map (Block.mk nu)).map Block.region =
      (tile (binsize nu) mp n).map fun a => ⟨a, binsize nu⟩ := by
  rw [List.map_map]
  rfl

namespace Layout

theorem mem_blocks (hL : Layout sys m nextf k free loose live) {i a : ℕ} (ha : a ∈ free i) :
    (⟨i, a⟩ : Block) ∈ blocks free loose live := by
  refine List.mem_append_left _ (mem_freeBlocks.mpr ⟨?_, ha⟩)
  by_contra hge
  rw [hL.bins i (Nat.le_of_not_lt hge)] at ha
  cases ha

theorem held_free (hL : Layout sys m nextf k free loose live) {i a : ℕ} (ha : a ∈ free i) :
    Held sys k ⟨i, a⟩ := hL.held _ (hL.mem_blocks ha)

theorem nextf_lt (hL : Layout sys m nextf k free loose live) (hk : k.Sound sys) (i : ℕ) :
    nextf i < 2 ^ 64 := by
  by_cases hzero : nextf i = 0
  · rw [hzero]
    decide
  · obtain ⟨l, hl, _⟩ := (hL.linked i).eq_cons hzero
    have hstop := (hL.held_free (hl ▸ List.mem_cons_self)).stop_le hk
    simp only [addressLimit] at hstop
    omega

theorem separated_free (hL : Layout sys m nextf k free loose live) {i : ℕ} (hi : i < nbuckets) :
    (free i).Pairwise fun a b => Apart ⟨a, binsize i⟩ ⟨b, binsize i⟩ := by
  have hsep := hL.separated.perm ((blocks_perm hi).map _)
  rw [List.append_assoc, List.map_append] at hsep
  have hfree := (separated_append.mp hsep).1
  rw [Separated, List.map_map, List.pairwise_map] at hfree
  exact hfree

theorem nodup_free (hL : Layout sys m nextf k free loose live) {i : ℕ} (hi : i < nbuckets) :
    (free i).Nodup := by
  refine (hL.separated_free hi).imp fun hapart heq => ?_
  have hsize := binsize_ge hi
  simp only [Apart, heq] at hapart
  omega

theorem length_free (hL : Layout sys m nextf k free loose live) (hk : k.Sound sys) {i : ℕ}
    (hi : i < nbuckets) : (free i).length ≤ addressLimit := by
  rw [← List.toFinset_card_of_nodup (hL.nodup_free hi), ← Finset.card_range addressLimit]
  refine Finset.card_le_card fun a ha => ?_
  have hstop := (hL.held_free (List.mem_toFinset.mp ha)).stop_le hk
  have hsize := binsize_ge hi
  exact Finset.mem_range.mpr (by simp only at hstop; omega)

end Layout

/-! ## Linking blocks -/

theorem setChain_spec (m : Memory) {a v : ℕ} (hv : v < 2 ^ 64) : chain (setChain m a v) a = v := by
  rw [chain, setChain, load_store_self]
  exact Nat.mod_eq_of_lt hv

/-- The header of one block -/
theorem linkBlock_spec (m : Memory) (mp : ℕ) {v : ℕ} (hv : v < 2 ^ 64) (hnu : nu < nbuckets) :
    ChangedIn [⟨mp, 16⟩] m (setChain (markFree m mp nu) mp v) ∧
      Marked (setChain (markFree m mp nu) mp v) ⟨nu, mp⟩ ∧
      chain (setChain (markFree m mp nu) mp v) mp = v := by
  refine ⟨fun x hx => ?_, ⟨?_, ?_⟩, setChain_spec _ hv⟩
  · have hout := hx _ List.mem_cons_self
    rw [Region.mem_mk] at hout
    simp only [setChain, markFree]
    rw [store_apart (by omega), fill_apart (by omega), fill_apart (by omega)]
  · simp only [setChain, markFree]
    rw [store_apart (by omega), fill_apart (by omega), fill_inside (by omega) (by omega)]
  · simp only [setChain, markFree]
    rw [store_apart (by omega), fill_inside (by omega) (by omega), UInt8.toNat_ofNat']
    exact Nat.mod_eq_of_lt (by simp only [nbuckets] at hnu; omega)

/-- The loop links the blocks in the order of their addresses, in front of what `tail` heads. -/
theorem linkBlocks_spec {tail : ℕ} (hnu : nu < nbuckets) (htail : tail < 2 ^ 64) (n mp : ℕ)
    (m : Memory) (hfits : mp + (n + 1) * binsize nu < 2 ^ 64) :
    ChangedIn [⟨mp, (n + 1) * binsize nu⟩] m (linkBlocks (binsize nu) nu tail n mp m) ∧
      (∀ a ∈ tile (binsize nu) mp (n + 1),
        Marked (linkBlocks (binsize nu) nu tail n mp m) ⟨nu, a⟩) ∧
      ∀ l, 0 < mp → Linked 0 (chain (linkBlocks (binsize nu) nu tail n mp m)) l tail →
        Linked 0 (chain (linkBlocks (binsize nu) nu tail n mp m))
          (tile (binsize nu) mp (n + 1) ++ l) mp := by
  have hsize := binsize_ge hnu
  induction n generalizing mp m with
  | zero =>
      obtain ⟨hchanged, hmarked, hchain⟩ := linkBlock_spec m mp htail hnu
      rw [linkBlocks]
      refine ⟨hchanged.mono fun r hr => ⟨_, List.mem_cons_self, ?_⟩, fun a ha => ?_,
        fun l hpos hl => ?_⟩
      · rw [List.mem_singleton.mp hr]
        simp only [Within]
        omega
      · rw [List.mem_singleton.mp ha]
        exact hmarked
      · exact ⟨rfl, hpos.ne', by rwa [hchain]⟩
  | succ n ih =>
      have hmul : (n + 1 + 1) * binsize nu = (n + 1) * binsize nu + binsize nu := Nat.succ_mul _ _
      obtain ⟨hchanged, hmarked, hchain⟩ :=
        @linkBlock_spec nu m mp (mp + binsize nu) (by omega) hnu
      obtain ⟨hrest, hmarks, hlist⟩ :=
        ih (mp + binsize nu) (setChain (markFree m mp nu) mp (mp + binsize nu)) (by omega)
      rw [linkBlocks]
      have hkept := hrest.kept (r := (Block.mk nu mp).region) fun s hs => by
        rw [List.mem_singleton.mp hs]
        simp only [Block.region, Apart]
        omega
      refine ⟨?_, fun a ha => ?_, fun l hpos hl => ⟨rfl, hpos.ne', ?_⟩⟩
      · refine (hchanged.mono fun r hr => ⟨_, List.mem_cons_self, ?_⟩).trans
          (hrest.mono fun r hr => ⟨_, List.mem_cons_self, ?_⟩)
        all_goals
          rw [List.mem_singleton.mp hr]
          simp only [Within]
          omega
      · rcases List.mem_cons.mp ha with rfl | ha
        · exact hmarked.congr hnu hkept
        · exact hmarks a ha
      · rw [chain_congr (c := ⟨nu, mp⟩) hnu hkept, hchain]
        exact hlist l (by omega) hl

/-- Loose blocks that follow each other go to the front of their bin's list. -/
theorem Layout.link {n : ℕ} (hL : Layout sys m nextf k free
      ((tile (binsize nu) mp (n + 1)).map (Block.mk nu)) live)
    (hk : k.Sound sys) (hnu : nu < nbuckets) (hpos : 0 < mp)
    (hfits : mp + (n + 1) * binsize nu < 2 ^ 64) :
    Layout sys (linkBlocks (binsize nu) nu (nextf nu) n mp m) (Function.update nextf nu mp) k
        (Function.update free nu (tile (binsize nu) mp (n + 1) ++ free nu)) [] live ∧
      ∀ b ∈ live, Kept m (linkBlocks (binsize nu) nu (nextf nu) n mp m) b.region := by
  obtain ⟨hchanged, hmarks, hlist⟩ := linkBlocks_spec hnu (hL.nextf_lt hk nu) n mp m hfits
  have hloose : ChangedIn (((tile (binsize nu) mp (n + 1)).map (Block.mk nu)).map Block.region) m
      (linkBlocks (binsize nu) nu (nextf nu) n mp m) := by
    rw [map_region_tile]
    intro x hx
    refine hchanged x fun r hr hmem => ?_
    rw [List.mem_singleton.mp hr] at hmem
    exact not_mem_of_tile hx hmem
  have hwrite := hL.write hloose
  refine ⟨?_, hwrite.2⟩
  refine hwrite.1.rebin hnu (l := tile (binsize nu) mp (n + 1) ++ free nu) ?_ (ChangedIn.refl _ _)
    (hlist _ hpos (hwrite.1.linked nu)) fun a ha => ?_
  · rw [List.map_append, List.append_nil]
    exact List.perm_append_comm
  · rcases List.mem_append.mp ha with ha | ha
    · exact hmarks a ha
    · exact hwrite.1.marked nu a ha

/-! ## Splitting -/

theorem mem_splitCandidates {nbuck : ℕ} (hmem : nbuck ∈ splitCandidates h nu) :
    nu < nbuck ∧ nbuck ≤ max h.maxbuck splitMax := by
  have hrange : nbuck ∈ List.range' (nu + 1) (max h.maxbuck splitMax - nu) := by
    rw [splitCandidates] at hmem
    split_ifs at hmem
    · exact List.mem_reverse.mp hmem
    · exact hmem
  rw [List.mem_range'_1] at hrange
  omega

/-- The head of a free list is taken into the allocator's hands. -/
theorem Layout.takeHead (hL : Layout sys m nextf k free loose live) {i : ℕ} {rest : List ℕ}
    (hi : i < nbuckets) (hrest : free i = nextf i :: rest) :
    Layout sys m (Function.update nextf i (chain m (nextf i))) k (Function.update free i rest)
      (⟨i, nextf i⟩ :: loose) live := by
  have hlinked := hL.linked i
  rw [hrest] at hlinked
  refine hL.rebin hi ?_ (ChangedIn.refl _ _) hlinked.2.2 fun a ha =>
    hL.marked i a (hrest ▸ List.mem_cons_of_mem _ ha)
  rw [hrest, List.map_cons]
  exact List.perm_middle.symm

/-- A loose block of the heap is cut into blocks of a lower bin. -/
theorem Layout.cut {nbuck n : ℕ} (hL : Layout sys m nextf k free [⟨nbuck, mp⟩] live)
    (hbuck : nbuck ≤ mmapThreshold) (hnu : nu ≤ mmapThreshold)
    (hsize : binsize nbuck = (n + 1) * binsize nu) :
    Layout sys m nextf k free ((tile (binsize nu) mp (n + 1)).map (Block.mk nu)) live := by
  have hheld := hL.held_loose List.mem_cons_self
  obtain ⟨hstart, hstop⟩ := hheld.inHeap hbuck
  refine hL.exchange ?_ ?_ fun r _ hapart c hc => ?_
  · refine held_tile hnu hheld.positive hheld.aligned hstart ?_
    rwa [← hsize]
  · rw [map_region_tile]
    exact separated_tile _ _ _
  · obtain ⟨a, ha, rfl⟩ := List.mem_map.mp hc
    have hwithin := within_tile ha
    rw [← hsize] at hwithin
    exact (hapart _ List.mem_cons_self).mono (Within.refl r) hwithin

theorem bsplit_spec (hc : Consistent sys h free [] live)
    (hsmall : ∀ i, mmapThreshold < i → free i = []) (hnu : nu ≤ mmapThreshold)
    (hempty : free nu = []) :
    ∃ free', Consistent sys (bsplit h nu) free' [] live ∧
      (∀ i, mmapThreshold < i → free' i = []) ∧ Served h (bsplit h nu) live := by
  cases hfind : (splitCandidates h nu).find? fun nbuck =>
      !(h.busy nbuck || h.nextf nbuck == 0) with
  | none =>
      rw [bsplit, hfind]
      exact ⟨free, hc, hsmall, Served.refl h live⟩
  | some nbuck =>
      obtain ⟨hlt, hle⟩ := mem_splitCandidates (List.mem_of_find?_eq_some hfind)
      have hne : h.nextf nbuck ≠ 0 := by
        have hfound := List.find?_some hfind
        rw [Bool.not_eq_true', Bool.or_eq_false_iff, beq_eq_false_iff_ne] at hfound
        exact hfound.2
      have hbin : nbuck < nbuckets := by
        have hmax := hc.maxbuck
        simp only [splitMax, nbuckets] at *
        omega
      obtain ⟨rest, hrest, _⟩ := (hc.layout.linked nbuck).eq_cons hne
      have hbuck : nbuck ≤ mmapThreshold := by
        by_contra hgt
        rw [hsmall nbuck (by omega)] at hrest
        cases hrest
      obtain ⟨n, hn⟩ : ∃ n, 2 ^ (nbuck - nu) = n + 1 :=
        ⟨_, (Nat.sub_add_cancel (Nat.two_pow_pos _)).symm⟩
      have hsize : binsize nbuck = (n + 1) * binsize nu := by
        rw [← hn]
        exact binsize_mul hlt.le (hbuck.trans_lt (by decide))
      have hpos := binsize_ge (hnu.trans_lt (by decide))
      have htaken := hc.layout.takeHead hbin hrest
      have hheld := hc.layout.held_free (hrest ▸ List.mem_cons_self)
      have hstop := hheld.stop_le hc.kernel
      have hzero : Function.update h.nextf nbuck (chain h.mem (h.nextf nbuck)) nu = 0 := by
        rw [Function.update_of_ne hlt.ne]
        exact (hc.layout.linked nu).head_null_iff.mpr hempty
      obtain ⟨hlayout, hkept⟩ := (htaken.cut hbuck hnu hsize).link hc.kernel
        (hnu.trans_lt (by decide)) hheld.positive (by
          rw [← hsize]
          simp only [addressLimit] at hstop
          omega)
      rw [hzero] at hlayout hkept
      have hblocks : binsize nbuck / binsize nu - 1 = n := by
        rw [hsize, Nat.mul_div_cancel _ (by omega), Nat.add_sub_cancel]
      rw [bsplit, hfind]
      simp only [hblocks]
      refine ⟨_, ⟨hlayout, hc.kernel, hc.memtop, hc.aligned, hc.pagesz, hc.maxbuck⟩,
        fun i hi => ?_, ⟨hkept, rfl⟩⟩
      rw [Function.update_of_ne (by omega), Function.update_of_ne (by omega)]
      exact hsmall i hi

/-! ## Coalescing -/

/-- The search ends at the end of the list or at two cells that follow each other in the list
and in memory; `mp2` is the cell before them, or the first of the two. -/
theorem findAdjacent_spec {siz : ℕ} {l : List ℕ} (before : List ℕ) {fuel mp2 mp1 mp : ℕ}
    (hl : Linked 0 (chain m) l mp) (hfuel : l.length < fuel) (hmp2 : mp2 = before.getLastD mp1) :
    ∃ mp2' mp1' mp', findAdjacent m siz fuel mp2 mp1 mp = some (mp2', mp1', mp') ∧
      (mp' ≠ 0 → ∃ before' l', before ++ mp1 :: l = before' ++ mp1' :: mp' :: l' ∧
        mp' = mp1' + siz ∧ mp2' = before'.getLastD mp1') := by
  induction l generalizing before fuel mp2 mp1 mp with
  | nil =>
      obtain ⟨fuel, rfl⟩ : ∃ n, fuel = n + 1 := ⟨fuel - 1, by omega⟩
      refine ⟨mp2, mp1, mp, ?_, fun hne => absurd hl hne⟩
      rw [findAdjacent, if_neg fun hand => hand.1 hl]
  | cons a l ih =>
      obtain ⟨fuel, rfl⟩ : ∃ n, fuel = n + 1 := ⟨fuel - 1, by omega⟩
      obtain ⟨rfl, hne, hl⟩ := hl
      by_cases hadj : mp = mp1 + siz
      · refine ⟨mp2, mp1, mp, ?_, fun _ => ⟨before, l, rfl, hadj, hmp2⟩⟩
        rw [findAdjacent, if_neg fun hand => hand.2 hadj]
      · obtain ⟨mp2', mp1', mp', hfind, hfound⟩ := @ih (before ++ [mp1]) fuel mp1 mp _ hl
          (Nat.lt_of_succ_lt_succ hfuel) (by simp)
        refine ⟨mp2', mp1', mp', ?_, fun hne' => ?_⟩
        · rw [findAdjacent, if_pos ⟨hne, hadj⟩]
          exact hfind
        · obtain ⟨before', l', heq, hrest⟩ := hfound hne'
          exact ⟨before', l', by simpa using heq, hrest⟩

/-- Two cells behind another one are taken out of a free list. -/
theorem Layout.unlink {i mp2 mp1 : ℕ} {front l : List ℕ}
    (hL : Layout sys m nextf k free [] live) (hi : i < nbuckets)
    (hfree : free i = front ++ mp2 :: mp1 :: mp :: l) :
    Layout sys (setChain m mp2 (chain m mp)) nextf k (Function.update free i (front ++ mp2 :: l))
        [⟨i, mp1⟩, ⟨i, mp⟩] live ∧
      ∀ b ∈ live, Kept m (setChain m mp2 (chain m mp)) b.region := by
  have hsize := binsize_ge hi
  have hsep := hL.separated_free hi
  have hlist := hL.linked i
  rw [hfree] at hsep hlist
  have hapart : ∀ a ∈ front ++ mp1 :: mp :: l, Apart ⟨mp2, binsize i⟩ ⟨a, binsize i⟩ :=
    (List.pairwise_cons.mp ((List.perm_middle.pairwise_iff fun hab => hab.symm).mp hsep)).1
  have hchain : ∀ a ∈ front ++ mp1 :: mp :: l,
      chain (setChain m mp2 (chain m mp)) a = chain m a := by
    intro a ha
    have hab := hapart a ha
    simp only [Apart] at hab
    exact load_store_apart (by omega)
  have hturned : chain (setChain m mp2 (chain m mp)) mp2 = chain m mp :=
    setChain_spec m (load_lt m _ 8)
  have hbehind : Linked 0 (chain m) l (chain m mp) := by
    have hsplit : front ++ mp2 :: mp1 :: mp :: l = (front ++ [mp2, mp1]) ++ mp :: l := by simp
    exact (Linked.behind (hsplit ▸ hlist)).2
  have hchanged : ChangedIn (((free i).map (Block.mk i) ++ []).map Block.region) m
      (setChain m mp2 (chain m mp)) := by
    refine (ChangedIn.refl _ m).store (r := ⟨mp2, binsize i⟩) ?_ ?_
    · rw [List.append_nil, List.map_map]
      exact List.mem_map_of_mem (f := Block.region ∘ Block.mk i) (by rw [hfree]; simp)
    · simp only [Within]
      omega
  refine ⟨?_, hL.kept hi hchanged⟩
  rw [← Function.update_eq_self i nextf]
  refine hL.rebin hi ?_ hchanged ?_ fun a ha => ?_
  · rw [hfree, List.append_nil, ← List.map_singleton, ← List.map_cons, ← List.map_append]
    refine List.Perm.map _ ?_
    rw [List.append_assoc]
    refine List.Perm.append_left front ((List.Perm.cons mp2 ?_))
    exact @List.perm_append_comm _ [mp1, mp] l
  · refine hlist.splice (fun a ha => hchain a (by simp [ha])) ?_
    rw [hturned]
    exact hbehind.congr fun a ha => hchain a (by simp [ha])
  · have hmark := hL.marked i a (by
      rw [hfree]
      rcases List.mem_append.mp ha with ha | ha
      · exact List.mem_append_left _ ha
      · rcases List.mem_cons.mp ha with rfl | ha
        · simp
        · simp [ha])
    have hout : a = mp2 ∨ a + 2 ≤ mp2 + 8 ∨ mp2 + 16 ≤ a := by
      by_cases hmem : a ∈ front ++ mp1 :: mp :: l
      · have hab := hapart a hmem
        simp only [Apart] at hab
        omega
      · left
        rcases List.mem_append.mp ha with ha | ha
        · exact absurd (List.mem_append_left _ ha) hmem
        · rcases List.mem_cons.mp ha with rfl | ha
          · rfl
          · exact absurd (by simp [ha]) hmem
    have hfirst : setChain m mp2 (chain m mp) a = m a := store_apart (by omega)
    have hsecond : setChain m mp2 (chain m mp) (a + 1) = m (a + 1) := store_apart (by omega)
    exact ⟨hfirst.trans hmark.1, (congrArg _ hsecond).trans hmark.2⟩

/-- Two loose blocks that follow each other become one of the next bin. -/
theorem Layout.join {i : ℕ} (hL : Layout sys m nextf k free [⟨i, mp⟩, ⟨i, mp + binsize i⟩] live)
    (hi : i + 1 ≤ mmapThreshold) : Layout sys m nextf k free [⟨i + 1, mp⟩] live := by
  have hdouble : binsize (i + 1) = binsize i + binsize i := by
    rw [binsize_mul (Nat.le_add_right i 1) (hi.trans_lt (by decide)), Nat.add_sub_cancel_left,
      pow_one, Nat.two_mul]
  have hfirst := hL.held_loose List.mem_cons_self
  have hsecond := hL.held_loose (List.mem_cons_of_mem _ List.mem_cons_self)
  have hstart := (hfirst.inHeap (by simp only; omega)).1
  have hstop := (hsecond.inHeap (by simp only; omega)).2
  refine hL.exchange (fun c hc => ?_) (List.pairwise_singleton _ _) fun r hr hapart c hc => ?_
  · rw [List.mem_singleton.mp hc]
    refine ⟨hi.trans_lt (by decide), hfirst.positive, hfirst.aligned, fun _ => ⟨hstart, ?_⟩,
      fun hgt => absurd hi (Nat.not_le_of_lt hgt)⟩
    simp only at hstop ⊢
    omega
  · rw [List.mem_singleton.mp hc, Block.region, hdouble]
    exact Apart.join hr (hapart _ List.mem_cons_self)
      (hapart _ (List.mem_cons_of_mem _ List.mem_cons_self))

/-- The same of the first two cells. -/
theorem Layout.unlinkHead {i mp1 : ℕ} {l : List ℕ} (hL : Layout sys m nextf k free [] live)
    (hi : i < nbuckets) (hfree : free i = mp1 :: mp :: l) :
    Layout sys m (Function.update nextf i (chain m mp)) k (Function.update free i l)
      [⟨i, mp1⟩, ⟨i, mp⟩] live := by
  have hlist := hL.linked i
  rw [hfree] at hlist
  refine hL.rebin hi ?_ (ChangedIn.refl _ _) hlist.2.2.2.2 fun a ha =>
    hL.marked i a (by rw [hfree]; simp [ha])
  rw [hfree, List.append_nil]
  exact @List.perm_append_comm _ [Block.mk i mp1, Block.mk i mp] _

/-- Two loose neighbours go to the list of the next bin. -/
theorem Layout.coalesce {i : ℕ}
    (hL : Layout sys m nextf k free [⟨i, mp⟩, ⟨i, mp + binsize i⟩] live) (hk : k.Sound sys)
    (hi : i + 1 ≤ mmapThreshold) :
    Layout sys (setChain (markFree m mp (i + 1)) mp (nextf (i + 1)))
        (Function.update nextf (i + 1) mp) k
        (Function.update free (i + 1) (mp :: free (i + 1))) [] live ∧
      ∀ b ∈ live, Kept m (setChain (markFree m mp (i + 1)) mp (nextf (i + 1))) b.region := by
  have hjoined := hL.join hi
  have hheld := hjoined.held_loose List.mem_cons_self
  have hstop := hheld.stop_le hk
  refine Layout.link (n := 0) hjoined hk (hi.trans_lt (by decide)) hheld.positive ?_
  simp only [addressLimit] at hstop
  omega

theorem bcoalesce_spec (hc : Consistent sys h free [] live)
    (hsmall : ∀ i, mmapThreshold < i → free i = []) (hnu : combineMin ≤ nu ∧ nu ≤ mmapThreshold)
    (hempty : free nu = []) :
    ∃ h' free', bcoalesce h nu = .ok h' ∧ Consistent sys h' free' [] live ∧
      (∀ i, mmapThreshold < i → free' i = []) ∧ Served h h' live := by
  obtain ⟨i, rfl⟩ : ∃ i, nu = i + 1 := ⟨nu - 1, by simp only [combineMin] at hnu; omega⟩
  have hi : i < nbuckets := (Nat.lt_of_succ_le hnu.2).trans (by decide)
  rw [bcoalesce, Nat.add_sub_cancel]
  by_cases hnone : h.nextf i = 0 ∨ h.busy i
  · rw [if_pos hnone]
    exact ⟨h, free, rfl, hc, hsmall, Served.refl h live⟩
  · rw [if_neg hnone]
    obtain ⟨l, hl, hlinked⟩ := (hc.layout.linked i).eq_cons fun hzero => hnone (.inl hzero)
    have hlength := hc.layout.length_free hc.kernel hi
    rw [hl, List.length_cons, addressLimit] at hlength
    obtain ⟨mp2, mp1, mp, hfind, hfound⟩ := @findAdjacent_spec _ (binsize i) _ []
      (2 ^ 64) (h.nextf i) _ _ hlinked (by omega) rfl
    simp only [hfind]
    by_cases hmp : mp = 0
    · rw [if_pos hmp]
      exact ⟨h, free, rfl, hc, hsmall, Served.refl h live⟩
    · obtain ⟨before, rest, hsplit, rfl, hmp2⟩ := hfound hmp
      rw [List.nil_append, ← hl] at hsplit
      rcases List.eq_nil_or_concat before with rfl | ⟨front, x, rfl⟩
      · obtain rfl : mp2 = mp1 := hmp2
        have hhead : mp2 = h.nextf i := List.head_eq_of_cons_eq (hsplit.symm.trans hl)
        obtain ⟨hlayout, hkept⟩ := (hc.layout.unlinkHead hi hsplit).coalesce hc.kernel hnu.2
        rw [if_neg hmp, if_neg fun hand => hand.1 rfl]
        simp only [if_pos hhead]
        refine ⟨_, _, rfl, ⟨hlayout, hc.kernel, hc.memtop, hc.aligned, hc.pagesz, hc.maxbuck⟩,
          fun j hj => ?_, ⟨hkept, rfl⟩⟩
        rw [Function.update_of_ne (by omega), Function.update_of_ne (by omega)]
        exact hsmall j hj
      · obtain rfl : mp2 = x := by simpa using hmp2
        rw [List.concat_eq_append, List.append_assoc, List.singleton_append] at hsplit
        have hlist := hc.layout.linked i
        rw [hsplit] at hlist
        have hnext : chain h.mem mp2 = mp1 := hlist.behind.2.1
        have hhead : mp1 ≠ h.nextf i := by
          have hnodup := hc.layout.nodup_free hi
          have hmem : mp1 ∈ l := by
            have := hsplit.symm.trans hl
            cases front with
            | nil =>
                rw [← (List.cons.inj this).2]
                exact List.mem_cons_self
            | cons y front =>
                rw [← (List.cons.inj this).2]
                simp
          rw [hl] at hnodup
          exact fun heq => (List.nodup_cons.mp hnodup).1 (heq ▸ hmem)
        obtain ⟨hunlinked, hfirst⟩ := hc.layout.unlink hi hsplit
        obtain ⟨hlayout, hkept⟩ := hunlinked.coalesce hc.kernel hnu.2
        rw [if_neg hmp, if_neg fun hand => hand.2 hnext]
        simp only [if_neg hhead]
        refine ⟨_, _, rfl, ⟨hlayout, hc.kernel, hc.memtop, hc.aligned, hc.pagesz, hc.maxbuck⟩,
          fun j hj => ?_, ⟨fun b hb => (hfirst b hb).trans (hkept b hb), rfl⟩⟩
        rw [Function.update_of_ne (by omega), Function.update_of_ne (by omega)]
        exact hsmall j hj

/-! ## Asking the system -/

/-- A mapping that the system places is apart from every block. -/
theorem Held.apart_vacant {r : Region} (hc : Held sys k c) (hr : Kernel.Vacant sys k r) :
    Apart c.region r := by
  by_cases hbin : c.bin ≤ mmapThreshold
  · obtain ⟨hstart, hstop⟩ := hc.inHeap hbin
    refine (hr.2.1.mono (Within.refl r) ?_).symm
    simp only [Within, Block.region, Kernel.heapRegion]
    omega
  · refine ((hr.2.2 _ (hc.mapped (Nat.lt_of_not_le hbin))).mono (Within.refl r) ?_).symm
    have := le_wholePages sys (binsize c.bin)
    simp only [Within, Block.region]
    omega

theorem Held.mono {k' : Kernel} (hc : Held sys k c) (hbrk : k.brk ≤ k'.brk)
    (hmaps : ∀ r ∈ k.maps, r ∈ k'.maps) : Held sys k' c :=
  ⟨hc.bin, hc.positive, hc.aligned,
    fun hbin => ⟨(hc.inHeap hbin).1, (hc.inHeap hbin).2.trans hbrk⟩,
    fun hbin => hmaps _ (hc.mapped hbin)⟩

/-- The break grows by blocks of one bin, which are loose then. -/
theorem Layout.growBreak (hL : Layout sys m nextf k free loose live) (hk : k.Sound sys)
    (nu mp n : ℕ) (hnu : nu ≤ mmapThreshold) (hmp : 16 ∣ mp) (hstart : k.brk ≤ mp) {amount : ℕ}
    (hstop : mp + n * binsize nu ≤ k.brk + amount)
    (hmaps : ∀ s ∈ k.maps, Apart s ⟨k.brk, amount⟩) (f : ℕ → UInt8) :
    Layout sys (patch m k.brk amount f) nextf { k with brk := k.brk + amount } free
        ((tile (binsize nu) mp n).map (Block.mk nu) ++ loose) live ∧
      ∀ b ∈ live, Kept m (patch m k.brk amount f) b.region := by
  have hsound := hk.start
  have hpos := sys.initialBreak_pos
  refine hL.grow (r := ⟨k.brk, amount⟩) (fun c hc => ⟨?_, ?_⟩) (fun c hc => ⟨?_, ?_⟩) ?_
    (changedIn_patch m _ _ _)
  · exact (hL.held c hc).mono (Nat.le_add_right _ _) fun _ hr => hr
  · by_cases hbin : c.bin ≤ mmapThreshold
    · exact .inl ((hL.held c hc).inHeap hbin).2
    · refine (hmaps _ ((hL.held c hc).mapped (Nat.lt_of_not_le hbin))).mono ?_ (Within.refl _)
      have := le_wholePages sys (binsize c.bin)
      simp only [Within, Block.region]
      omega
  · exact held_tile hnu (by omega) hmp (hsound.trans hstart) hstop c hc
  · obtain ⟨a, ha, rfl⟩ := List.mem_map.mp hc
    have hwithin := within_tile ha
    simp only [Within, Block.region] at hwithin ⊢
    omega
  · rw [map_region_tile]
    exact separated_tile _ _ _

/-- A mapping for a bin above the threshold is one loose block then. -/
theorem Layout.growMap (hL : Layout sys m nextf k free loose live) (hmap : mmapThreshold < nu)
    (hnu : nu < nbuckets) (hvacant : Kernel.Vacant sys k ⟨mp, 2 ^ (nu + 5)⟩) (f : ℕ → UInt8) :
    Layout sys (patch m mp (2 ^ (nu + 5)) f) nextf
        { k with maps := ⟨mp, 2 ^ (nu + 5)⟩ :: k.maps } free (⟨nu, mp⟩ :: loose) live ∧
      ∀ b ∈ live, Kept m (patch m mp (2 ^ (nu + 5)) f) b.region := by
  have hwhole : Kernel.wholePages sys (binsize nu) = 2 ^ (nu + 5) := wholePages_binsize hmap hnu
  have hsize : binsize nu ≤ 2 ^ (nu + 5) := hwhole ▸ le_wholePages sys (binsize nu)
  refine @Layout.grow _ m _ k _ _ free loose live _ [⟨nu, mp⟩] hL (fun c hc => ⟨?_, ?_⟩)
    (fun c hc => ?_) (List.pairwise_singleton _ _) (changedIn_patch m _ _ _)
  · exact (hL.held c hc).mono (le_refl _) fun _ hr => List.mem_cons_of_mem _ hr
  · exact (hL.held c hc).apart_vacant hvacant
  · rw [List.mem_singleton.mp hc]
    refine ⟨⟨hnu, hvacant.1.1, (page_dvd sys).trans hvacant.1.2.2.1,
      fun hle => absurd hmap (Nat.not_lt_of_le hle), fun _ => ?_⟩, ?_⟩
    · simp only [hwhole]
      exact List.mem_cons_self
    · simp only [Within, Block.region]
      omega

theorem morecoreSystem_spec (ans : Answers) (hc : Consistent sys h free [] live)
    (hsmall : ∀ i, mmapThreshold < i → i ≠ nu → free i = []) (hnu : nu < nbuckets)
    (hempty : free nu = []) :
    ∃ free', Consistent sys (morecoreSystem sys ans h nu) free' [] live ∧
      (∀ i, mmapThreshold < i → i ≠ nu → free' i = []) ∧
      (mmapThreshold < nu → (free' nu).tail = []) ∧
      Served h (morecoreSystem sys ans h nu) live := by
  have hzero : h.nextf nu = 0 := (hc.layout.linked nu).head_null_iff.mpr hempty
  have hnone : ∃ free', Consistent sys h free' [] live ∧
      (∀ i, mmapThreshold < i → i ≠ nu → free' i = []) ∧
      (mmapThreshold < nu → (free' nu).tail = []) ∧ Served h h live :=
    ⟨free, hc, hsmall, fun _ => by rw [hempty]; rfl, Served.refl h live⟩
  rw [morecoreSystem]
  by_cases hmap : mmapThreshold < nu
  · have hamount : (systemRequest h.pagesz (binsize nu)).1 = 2 ^ (nu + 5) := by
      rw [hc.pagesz]
      exact systemRequest_map hmap hnu
    have hwhole : Kernel.wholePages sys (binsize nu) = 2 ^ (nu + 5) :=
      wholePages_binsize hmap hnu
    generalize systemRequest h.pagesz (binsize nu) = request at hamount
    obtain ⟨amount, nblks⟩ := request
    obtain rfl : amount = 2 ^ (nu + 5) := hamount
    have hlength : Kernel.wholePages sys (2 ^ (nu + 5)) = 2 ^ (nu + 5) :=
      wholePages_of_dvd (page_dvd_pow (by simp only [mmapThreshold] at hmap; omega))
    simp only [if_pos hmap]
    cases hmm : h.kernel.mmap sys (2 ^ (nu + 5)) ans.mmapAt with
    | none => exact hnone
    | some granted =>
        obtain ⟨mp, kernel⟩ := granted
        obtain ⟨rfl, hsound, hvacant⟩ := Kernel.mmap_spec hc.kernel hmm
        rw [hlength] at hvacant hsound ⊢
        have hbound := hvacant.1.2.2.2
        have hsize : binsize nu ≤ 2 ^ (nu + 5) := hwhole ▸ le_wholePages sys (binsize nu)
        obtain ⟨hgrown, hkept⟩ := hc.layout.growMap hmap hnu hvacant ans.contents
        simp only [addressLimit] at hbound
        obtain ⟨hlayout, hlinked⟩ := Layout.link (n := 0) hgrown hsound hnu hvacant.1.1 (by omega)
        rw [hzero] at hlayout hlinked
        refine ⟨_, ⟨hlayout, hsound, hc.memtop, hc.aligned, hc.pagesz, hc.maxbuck⟩,
          fun i hi hne => ?_, fun _ => ?_,
          ⟨fun b hb => (hkept b hb).trans (hlinked b hb), rfl⟩⟩
        · rw [Function.update_of_ne hne]
          exact hsmall i hi hne
        · rw [Function.update_self, hempty]
          rfl
  · obtain ⟨n, hrequest⟩ : ∃ n, systemRequest h.pagesz (binsize nu) =
        ((n + 1) * binsize nu, n + 1) := by
      rw [hc.pagesz]
      exact systemRequest_heap (Nat.le_of_not_lt hmap)
    have hbrk : h.kernel.brk % 16 = 0 := Nat.mod_eq_zero_of_dvd hc.aligned
    simp only [hrequest, if_neg hmap, if_pos hbrk, Nat.add_sub_cancel]
    cases hsb : h.kernel.sbrk ((n + 1) * binsize nu) ans.sbrkGranted with
    | none => exact hnone
    | some kernel =>
        obtain ⟨rfl, hsound, hmaps⟩ := Kernel.sbrk_spec hc.kernel hsb
        have hlimit := hsound.limit
        have hpos := hc.kernel.start.trans_lt' sys.initialBreak_pos
        simp only [addressLimit] at hlimit
        obtain ⟨hgrown, hkept⟩ := hc.layout.growBreak hc.kernel nu h.kernel.brk (n + 1)
          (Nat.le_of_not_lt hmap) hc.aligned le_rfl le_rfl hmaps ans.contents
        rw [List.append_nil] at hgrown
        obtain ⟨hlayout, hlinked⟩ := hgrown.link hsound hnu hpos (by omega)
        rw [hzero] at hlayout hlinked
        refine ⟨_, ⟨hlayout, hsound, ?_, ?_, hc.pagesz, hc.maxbuck⟩, fun i hi hne => ?_,
          fun hgt => absurd hgt hmap, ⟨fun b hb => (hkept b hb).trans (hlinked b hb), rfl⟩⟩
        · simp only [hc.memtop]
        · exact Nat.dvd_add hc.aligned ((binsize_dvd (Nat.le_of_not_lt hmap)).mul_left _)
        · rw [Function.update_of_ne hne]
          exact hsmall i hi hne

theorem morecoreCombine_spec (ans : Answers) (hc : Consistent sys h free [] live)
    (hsmall : ∀ i, mmapThreshold < i → free i = []) (hnu : nu < nbuckets)
    (hempty : free nu = []) :
    ∃ h' free', morecoreCombine sys ans h nu = .ok h' ∧ Consistent sys h' free' [] live ∧
      (∀ i, mmapThreshold < i → i ≠ nu → free' i = []) ∧
      (mmapThreshold < nu → (free' nu).tail = []) ∧ Served h h' live := by
  rw [morecoreCombine]
  split_ifs with hcond
  · obtain ⟨h₁, free₁, hok, hc₁, hsmall₁, hs₁⟩ :=
      bcoalesce_spec hc hsmall ⟨hcond.1.1, hcond.1.2.2⟩ hempty
    rw [hok]
    by_cases hfilled : h₁.nextf nu = 0
    · obtain ⟨free₂, hc₂, hsmall₂, htail, hs₂⟩ := morecoreSystem_spec ans hc₁
        (fun i hi _ => hsmall₁ i hi) hnu ((hc₁.layout.linked nu).head_null_iff.mp hfilled)
      refine ⟨_, free₂, ?_, hc₂, hsmall₂, htail, hs₁.trans hs₂⟩
      exact if_neg (not_not.mpr hfilled)
    · exact ⟨h₁, free₁, if_pos hfilled, hc₁, fun i hi _ => hsmall₁ i hi,
        fun hgt => absurd hcond.1.2.2 (Nat.not_le_of_lt hgt), hs₁⟩
  · obtain ⟨free₁, hc₁, hsmall₁, htail, hs₁⟩ := morecoreSystem_spec ans hc
      (fun i hi _ => hsmall i hi) hnu hempty
    exact ⟨_, free₁, rfl, hc₁, hsmall₁, htail, hs₁⟩

/-- `morecore` leaves the bin empty or filled. -/
theorem morecore_spec (ans : Answers) (hc : Consistent sys h free [] live)
    (hsmall : ∀ i, mmapThreshold < i → free i = []) (hnu : nu < nbuckets)
    (hempty : free nu = []) :
    ∃ h' free', morecore sys ans h nu = .ok h' ∧ Consistent sys h' free' [] live ∧
      (∀ i, mmapThreshold < i → i ≠ nu → free' i = []) ∧
      (mmapThreshold < nu → (free' nu).tail = []) ∧ Served h h' live := by
  rw [morecore]
  by_cases hrange : splitMin ≤ nu ∧ nu ≤ mmapThreshold
  · obtain ⟨free₁, hc₁, hsmall₁, hs₁⟩ := bsplit_spec hc hsmall hrange.2 hempty
    rw [if_pos hrange]
    by_cases hfilled : (bsplit h nu).nextf nu = 0
    · simp only [hfilled, ne_eq, not_true_eq_false, if_false]
      obtain ⟨h₂, free₂, hok, hc₂, hsmall₂, htail, hs₂⟩ := morecoreCombine_spec ans hc₁ hsmall₁ hnu
        ((hc₁.layout.linked nu).head_null_iff.mp hfilled)
      exact ⟨h₂, free₂, hok, hc₂, hsmall₂, htail, hs₁.trans hs₂⟩
    · exact ⟨_, free₁, if_pos hfilled, hc₁, fun i hi _ => hsmall₁ i hi,
        fun hgt => absurd hrange.2 (Nat.not_le_of_lt hgt), hs₁⟩
  · rw [if_neg hrange]
    exact morecoreCombine_spec ans hc hsmall hnu hempty

end Malloc

end Rash
