import Rash.Vars.ArrayMap

/-!
# Shifting indexed arrays

A shift to the left takes the first entries out and subtracts from the other indices; a shift to
the right adds to the indices and may make a new entry at zero.
-/

namespace Rash

open ArrayMemory

namespace SparseMap

/-- The indices in increasing order. -/
def indices (m : SparseMap) : List ℤ := m.keys.sort (· ≤ ·)

def entries (m : SparseMap) : List ArrayElement :=
  m.indices.filterMap fun i => (m.lookup i).map (⟨i, ·⟩)

def shiftLeft (m : SparseMap) (n : ℕ) : SparseMap :=
  FiniteMap.tabulate ((m.indices.drop n).map (· - (n : ℤ))).toFinset fun i => m.lookup (i + n)

def shiftRight (m : SparseMap) (n : ℕ) : SparseMap :=
  FiniteMap.tabulate (m.keys.image (· + (n : ℤ))) fun i => m.lookup (i - n)

theorem lookup_shiftRight (m : SparseMap) (n : ℕ) (i : ℤ) :
    (m.shiftRight n).lookup i = m.lookup (i - n) := by
  unfold shiftRight
  rw [FiniteMap.lookup_tabulate, ite_eq_left_iff]
  intro hi
  symm
  rw [Finmap.lookup_eq_none]
  intro hmem
  apply hi
  rw [Finset.mem_image]
  exact ⟨i - n, Finmap.mem_keys.mpr hmem, by omega⟩

end SparseMap

variable {mem mem' : ArrayMemory} {a : IndexedArray} {l l₁ l₂ : List ℕ} {p q x y new : ℕ} {i : ℤ}
  {m : SparseMap} {v : Option CString} {n : ℕ}

/-! ## The entries in order -/

theorem Contents.indices_eq (h : ArrayHolds mem a l) (hm : Contents mem l m) :
    SparseMap.indices m = l.map mem.elementIndex := by
  have hkeys : m.keys = (l.map mem.elementIndex).toFinset := by
    ext i
    rw [Finmap.mem_keys, List.mem_toFinset, List.mem_map, ← Finmap.lookup_isSome,
      Option.isSome_iff_exists]
    constructor
    · rintro ⟨v, hv⟩
      obtain ⟨p, hp, hentry⟩ := (hm i v).mp hv
      exact ⟨p, hp, congrArg ArrayElement.ind hentry⟩
    · rintro ⟨p, hp, rfl⟩
      exact ⟨_, hm.lookup_index hp⟩
  have hnodup : (l.map mem.elementIndex).Nodup := h.increasing.imp fun hlt => Int.ne_of_lt hlt
  unfold SparseMap.indices
  rw [hkeys, List.toFinset_sort _ hnodup]
  exact h.increasing.imp fun hlt => Int.le_of_lt hlt

theorem Contents.entries_eq (h : ArrayHolds mem a l) (hm : Contents mem l m) :
    SparseMap.entries m = l.map fun p => (mem.cells p).data := by
  unfold SparseMap.entries
  rw [hm.indices_eq h, List.filterMap_map, ← List.filterMap_eq_map]
  apply List.filterMap_congr
  intro p hp
  rw [Function.comp_apply, hm.lookup_index hp]
  rfl

/-- An element has at least as many elements before it as its index says. -/
theorem ArrayHolds.length_le_index (h : ArrayHolds mem a (l₁ ++ x :: l₂)) :
    (l₁.length : ℤ) ≤ mem.elementIndex x := by
  induction l₁ using List.reverseRecOn generalizing x l₂ with
  | nil => exact (h.inRange x List.mem_cons_self).1
  | append_singleton l₃ y ih =>
      have hlt := h.index_lt.1 y (List.mem_append_right _ (List.mem_singleton_self y))
      rw [List.append_assoc] at h
      have hle := ih h
      rw [List.length_append, List.length_singleton]
      push_cast
      omega

/-- The chain of elements from a pointer on, up to `NULL`. -/
def ArrayMemory.chainFrom (mem : ArrayMemory) : ℕ → ℕ → Option (List ArrayElement)
  | _, 0 => some []
  | 0, _ + 1 => none
  | fuel + 1, ae + 1 =>
      (mem.chainFrom fuel (mem.elementForw (ae + 1))).map ((mem.cells (ae + 1)).data :: ·)

theorem chainFrom_eq {fuel : ℕ} (hpos : ∀ p ∈ l, 0 < p)
    (hchain : (l ++ [0]).IsChain fun p q => mem.elementForw p = q) (hfuel : l.length ≤ fuel) :
    mem.chainFrom fuel (l.headD 0) = some (l.map fun p => (mem.cells p).data) := by
  induction l generalizing fuel with
  | nil => cases fuel <;> rfl
  | cons p l ih =>
      obtain ⟨fuel, rfl⟩ := Nat.exists_eq_succ_of_ne_zero
        (Nat.ne_of_gt (Nat.lt_of_lt_of_le (Nat.succ_pos _) hfuel))
      obtain ⟨p, rfl⟩ := Nat.exists_eq_succ_of_ne_zero (Nat.ne_of_gt (hpos p List.mem_cons_self))
      have hforw : mem.elementForw (p + 1) = l.headD 0 := by
        cases l with
        | nil => exact (List.isChain_cons_cons.mp hchain).1
        | cons q l => exact (List.isChain_cons_cons.mp hchain).1
      have hrest := ih (fun q hq => hpos q (List.mem_cons_of_mem _ hq))
        (List.IsChain.tail hchain) (Nat.le_of_succ_le_succ hfuel)
      rw [List.headD_cons]
      unfold chainFrom
      rw [hforw, hrest]
      rfl

/-! ## New indices -/

theorem Contents.shiftLeft (h : ArrayHolds mem a l) (hm : Contents mem l m)
    (hdata : ∀ p ∈ l.drop n,
      (mem'.cells p).data = ⟨mem.elementIndex p - n, mem.elementValue p⟩) :
    Contents mem' (l.drop n) (m.shiftLeft n) := by
  intro i v
  unfold SparseMap.shiftLeft
  rw [FiniteMap.lookup_tabulate, hm.indices_eq h, ← List.map_drop, List.map_map]
  simp only [List.mem_toFinset, List.mem_map, Function.comp_apply]
  constructor
  · intro hv
    split_ifs at hv with hi
    obtain ⟨p, hp, rfl⟩ := hi
    rw [Int.sub_add_cancel, hm.lookup_index (List.mem_of_mem_drop hp)] at hv
    obtain rfl := Option.some_inj.mp hv
    exact ⟨p, hp, hdata p hp⟩
  · rintro ⟨p, hp, hentry⟩
    rw [hdata p hp] at hentry
    cases hentry
    rw [if_pos ⟨p, hp, rfl⟩, Int.sub_add_cancel, hm.lookup_index (List.mem_of_mem_drop hp)]

theorem Contents.shiftRight (hm : Contents mem l m)
    (hdata : ∀ p ∈ l, (mem'.cells p).data = ⟨mem.elementIndex p + n, mem.elementValue p⟩) :
    Contents mem' l (m.shiftRight n) := by
  intro i v
  rw [SparseMap.lookup_shiftRight, hm (i - n) v]
  constructor
  · rintro ⟨p, hp, hentry⟩
    refine ⟨p, hp, ?_⟩
    rw [hdata p hp]
    unfold elementIndex elementValue
    rw [hentry]
    simp
  · rintro ⟨p, hp, hentry⟩
    rw [hdata p hp] at hentry
    cases hentry
    refine ⟨p, hp, ?_⟩
    rw [Int.add_sub_cancel]
    rfl

theorem wrapArrayind_eq {z : ℤ} (h : 0 ≤ z ∧ z ≤ arrayindMax) : wrapArrayind z = z := by
  unfold wrapArrayind
  unfold arrayindMax at h
  rw [Int.bmod_eq_of_le] <;> omega

/-- Elements with new indices, behind at most one new element at zero. -/
theorem renumbered_holds {mem₁ mem₂ : ArrayMemory} {k : ℤ} {front : List ℕ}
    (hring : Cells.Ring mem₁.cells a.head (front ++ l)) (hhead : mem₁.elementIndex a.head = -1)
    (huse : ∀ p ∈ a.head :: (front ++ l), 0 < p ∧ p < mem₁.fresh)
    (hfront : ∀ p ∈ front, mem₁.elementIndex p = 0) (hone : front.length ≤ 1)
    (hsorted : (l.map mem₁.elementIndex).Pairwise (· < ·))
    (hrange : ∀ p ∈ l, (front.length : ℤ) ≤ mem₁.elementIndex p + k ∧
      mem₁.elementIndex p + k ≤ arrayindMax)
    (hr : IndexedArray.Renumbered mem₁ mem₂ k l) (hcount : a.numElements = (front ++ l).length) :
    ArrayHolds mem₂
        { a with maxIndex := mem₂.elementIndex (mem₂.elementBack a.head), lastref := 0 }
        (front ++ l) ∧
      ∀ p ∈ l, (mem₂.cells p).data = ⟨mem₁.elementIndex p + k, mem₁.elementValue p⟩ := by
  have hnodup := hring.nodup
  have hapart := (List.nodup_append.mp (show (a.head :: front ++ l).Nodup from hnodup)).2.2
  have hkept : ∀ p ∈ a.head :: front, mem₂.elementIndex p = mem₁.elementIndex p := by
    intro p hp
    rw [hr.index, if_neg]
    exact fun hbad => hapart p hp p hbad rfl
  have hmoved : ∀ p ∈ l, mem₂.elementIndex p = mem₁.elementIndex p + k := by
    intro p hp
    obtain ⟨hlow, hhigh⟩ := hrange p hp
    rw [hr.index, if_pos hp, wrapArrayind_eq ⟨by omega, hhigh⟩]
  have hring₂ : Cells.Ring mem₂.cells a.head (front ++ l) :=
    hring.frame (fun x _ => hr.next x) fun x _ => hr.prev x
  have hmap : l.map mem₂.elementIndex = (l.map mem₁.elementIndex).map (· + k) := by
    rw [List.map_map]
    exact List.map_congr_left hmoved
  constructor
  · constructor
    · exact hring₂
    · exact (hkept _ List.mem_cons_self).trans hhead
    · rw [hr.fresh]
      exact huse
    · rw [List.map_append, List.pairwise_append]
      refine ⟨?_, ?_, ?_⟩
      · cases front with
        | nil => exact .nil
        | cons p rest =>
            obtain rfl : rest = [] := List.eq_nil_of_length_eq_zero (Nat.le_zero.mp
              (Nat.le_of_succ_le_succ hone))
            exact List.pairwise_singleton _ _
      · rw [hmap, List.pairwise_map]
        exact hsorted.imp fun hlt => by omega
      · intro i hi j hj
        obtain ⟨p, hp, rfl⟩ := List.mem_map.mp hi
        obtain ⟨q, hq, rfl⟩ := List.mem_map.mp hj
        have hlength := List.length_pos_of_mem hp
        have hlow := (hrange q hq).1
        rw [hkept p (List.mem_cons_of_mem _ hp), hfront p hp, hmoved q hq]
        omega
    · intro p hp
      rcases List.mem_append.mp hp with hp | hp
      · rw [hkept p (List.mem_cons_of_mem _ hp), hfront p hp]
        unfold arrayindMax
        omega
      · obtain ⟨hlow, hhigh⟩ := hrange p hp
        rw [hmoved p hp]
        exact ⟨by omega, hhigh⟩
    · exact hcount
    · have hback : mem₂.elementBack a.head = (front ++ l).getLastD a.head := hring₂.prev_head
      dsimp only
      rw [hback, ← hhead, ← hkept _ List.mem_cons_self, List.getLastD_map]
    · exact .inl rfl
  · intro p hp
    rw [← hmoved p hp, ← hr.value]
    rfl

theorem Contents.card_eq (h : ArrayHolds mem a l) (hm : Contents mem l m) :
    a.numElements = m.keys.card := by
  have hlength := congrArg List.length (hm.indices_eq h)
  unfold SparseMap.indices at hlength
  rw [Finset.length_sort, List.length_map] at hlength
  rw [h.count, hlength]

/-! ## Shifting to the right -/

def SparseMap.rshifted (m : SparseMap) (n : ℤ) (s : Option CString) : SparseMap :=
  if n ≤ 0 then m
  else
    match s with
    | none => m.shiftRight n.toNat
    | some s => (m.shiftRight n.toNat).insert 0 (some s)

/-- The greatest index that a shift to the right makes is an `intmax_t`. -/
def SparseMap.Fits (m : SparseMap) (n : ℤ) : Prop :=
  ∀ i ∈ m.keys, i + n ≤ arrayindMax

theorem Contents.fits (hm : Contents mem l m) {n : ℤ} (hfits : m.Fits n) (hp : p ∈ l) :
    mem.elementIndex p + n ≤ arrayindMax := by
  apply hfits
  rw [Finmap.mem_keys]
  exact Finmap.mem_of_lookup_eq_some (hm.lookup_index hp)

/-- The memory in which the new element is in front. -/
theorem front_ring (h : ArrayHolds mem a l) (s : Option CString)
    (hmem : mem' = (mem.createElement 0 s).2.addBefore
      ((mem.createElement 0 s).2.elementForw a.head) mem.fresh) :
    Cells.Ring mem'.cells a.head ([mem.fresh] ++ l) ∧ mem'.fresh = mem.fresh + 1 ∧
      (∀ p, p ≠ mem.fresh → (mem'.cells p).data = (mem.cells p).data) ∧
      (mem'.cells mem.fresh).data = ⟨0, s⟩ := by
  have hold : ArrayHolds mem a ([] ++ l) := h
  have hforw : (mem.createElement 0 s).2.elementForw a.head = l.headD a.head :=
    (h.createElement 0 s).elementForw_head
  have hsplice := hold.spliced_before 0 s
  rw [← hforw, ← hmem] at hsplice
  have hapart : ∀ x ∈ a.head :: ([] ++ l), x ≠ mem.fresh := fun x hx => (h.fresh_ne hx).symm
  have hbehind := hsplice.behind
  rw [hforw] at hbehind
  have hring : Cells.Ring (mem.createElement 0 s).2.cells a.head ([] ++ l) :=
    (h.createElement 0 s).ring
  refine ⟨hring.splice h.fresh_notMem hsplice.before hbehind
    (fun x hx hne => hsplice.next x hne (hapart x hx)) (fun x hx hne => ?_), hsplice.fresh, ?_, ?_⟩
  · apply hsplice.prev x _ (hapart x hx)
    rw [hforw]
    exact hne
  · intro p hp
    rw [hsplice.data, cells_createElement hp]
  · rw [hsplice.data, data_createElement]

theorem rshift_renumber (h : ArrayHolds mem a l) (hm : Contents mem l m) {n : ℤ} (hn : 0 < n)
    (hfits : m.Fits n) :
    ∃ mem₂, a.renumberLoop n mem.fresh (mem.elementForw a.head) mem = some mem₂ ∧
      Becomes (m.shiftRight n.toNat)
        { a with maxIndex := mem₂.elementIndex (mem₂.elementBack a.head), lastref := 0 } mem₂ := by
  have hring : Cells.Ring mem.cells a.head ([] ++ l) := h.ring
  obtain ⟨mem₂, hloop, hr⟩ := IndexedArray.renumberLoop_spec (n := n) hring
    (Nat.lt_of_succ_lt h.length_lt_fresh)
  obtain ⟨hholds, hdata⟩ := renumbered_holds hring h.headIndex h.inUse (fun p hp => by cases hp)
    (Nat.zero_le _) h.increasing
    (fun p hp => ⟨by
      have hlow := (h.inRange p hp).1
      rw [List.length_nil]
      omega, hm.fits hfits hp⟩) hr h.count
  rw [h.elementForw_head]
  refine ⟨mem₂, hloop, l, hholds, hm.shiftRight fun p hp => ?_⟩
  rw [hdata p hp, Int.toNat_of_nonneg (Int.le_of_lt hn)]

theorem rshift_front (h : ArrayHolds mem a l) (hm : Contents mem l m) {n : ℤ} (hn : 0 < n)
    (hfits : m.Fits n) (s : CString)
    (hmem : mem' = (mem.createElement 0 (some s)).2.addBefore
      ((mem.createElement 0 (some s)).2.elementForw a.head) mem.fresh) :
    ∃ mem₂, ({ a with numElements := a.numElements + 1 } : IndexedArray).renumberLoop n mem'.fresh
        (mem.elementForw a.head) mem' = some mem₂ ∧
      Becomes ((m.shiftRight n.toNat).insert 0 (some s))
        { a with
          numElements := a.numElements + 1
          maxIndex := mem₂.elementIndex (mem₂.elementBack a.head)
          lastref := 0 } mem₂ := by
  obtain ⟨hring, hfresh, hdata, hnew⟩ := front_ring h (some s) hmem
  have hne : ∀ p ∈ a.head :: l, p ≠ mem.fresh := fun p hp => (h.fresh_ne hp).symm
  have hindex : ∀ p ∈ a.head :: l, mem'.elementIndex p = mem.elementIndex p := by
    intro p hp
    unfold elementIndex
    rw [hdata p (hne p hp)]
  have hmap : l.map mem'.elementIndex = l.map mem.elementIndex :=
    List.map_congr_left fun p hp => hindex p (List.mem_cons_of_mem _ hp)
  obtain ⟨mem₂, hloop, hr⟩ := @IndexedArray.renumberLoop_spec mem'
    { a with numElements := a.numElements + 1 } [mem.fresh] l n hring _
    (show l.length < mem'.fresh by
      have hfuel := h.length_lt_fresh
      omega)
  have hzero : mem'.elementIndex mem.fresh = 0 := by
    unfold elementIndex
    rw [hnew]
  have huse : ∀ p ∈ a.head :: ([mem.fresh] ++ l), 0 < p ∧ p < mem'.fresh := by
    intro p hp
    rw [hfresh]
    rcases List.mem_cons.mp hp with rfl | hp
    · exact ⟨(h.inUse _ List.mem_cons_self).1, Nat.lt_succ_of_lt (h.inUse _ List.mem_cons_self).2⟩
    · rcases List.mem_cons.mp hp with rfl | hp
      · exact ⟨Nat.lt_trans (h.inUse _ List.mem_cons_self).1 (h.inUse _ List.mem_cons_self).2,
          Nat.lt_succ_self _⟩
      · have hold := h.inUse p (List.mem_cons_of_mem _ hp)
        exact ⟨hold.1, Nat.lt_succ_of_lt hold.2⟩
  have hrange : ∀ p ∈ l, (([mem.fresh] : List ℕ).length : ℤ) ≤ mem'.elementIndex p + n ∧
      mem'.elementIndex p + n ≤ arrayindMax := by
    intro p hp
    have hlow := (h.inRange p hp).1
    rw [hindex p (List.mem_cons_of_mem _ hp), List.length_singleton]
    exact ⟨by push_cast; omega, hm.fits hfits hp⟩
  have hcount : a.numElements + 1 = ([mem.fresh] ++ l).length := by
    have hold := h.count
    rw [List.length_append, List.length_singleton]
    push_cast
    omega
  have hhead : mem'.elementIndex a.head = -1 := (hindex _ List.mem_cons_self).trans h.headIndex
  have hsorted := h.increasing
  rw [← hmap] at hsorted
  obtain ⟨hholds, hmoved⟩ :=
    @renumbered_holds { a with numElements := a.numElements + 1 } l mem' mem₂ n [mem.fresh] hring
      hhead huse (List.forall_mem_singleton.mpr hzero) (Nat.le_refl 1) hsorted hrange hr hcount
  rw [h.elementForw_head]
  refine ⟨mem₂, hloop, [mem.fresh] ++ l, hholds, ?_⟩
  have hentries : ∀ p ∈ l, (mem₂.cells p).data = ⟨mem.elementIndex p + n.toNat, mem.elementValue p⟩ := by
    intro p hp
    have hp' := List.mem_cons_of_mem a.head hp
    rw [hmoved p hp, hindex p hp', Int.toNat_of_nonneg (Int.le_of_lt hn)]
    unfold elementValue
    rw [hdata p (hne p hp')]
  have hshifted : Contents mem₂ ([] ++ l) (m.shiftRight n.toNat) := hm.shiftRight hentries
  refine hshifted.insert (fun _ _ => rfl) ?_ fun p hp => ?_
  · have hnot : mem.fresh ∉ l := fun hbad => h.fresh_notMem (List.mem_cons_of_mem _ hbad)
    have hvalue := hr.value mem.fresh
    have hsame := hr.index mem.fresh
    rw [if_neg hnot] at hsame
    unfold elementValue at hvalue
    unfold elementIndex at hsame
    rw [hnew] at hvalue hsame
    exact congrArg₂ ArrayElement.mk hsame hvalue
  · have hlow := (h.inRange p hp).1
    unfold elementIndex at hlow ⊢
    rw [hentries p hp]
    unfold elementIndex
    dsimp only
    omega

theorem Becomes.count (h : Becomes m a mem) : a.numElements = m.keys.card := by
  obtain ⟨l, hholds, hm⟩ := h
  exact hm.card_eq hholds

theorem becomes_nil (h : ArrayHolds mem a l) (hempty : a.empty = true)
    (hm : ∀ i, m.lookup i = none) : Becomes m a mem := by
  obtain rfl := h.empty_iff.mp hempty
  exact ⟨[], h, contents_nil hm⟩

/-- Where the array was empty, there is nothing else to renumber. -/
theorem rshift_first (h : ArrayHolds mem a []) (hm : Contents mem [] m) {n : ℤ} (hn : 0 < n)
    (s : CString) (hmem : mem' = (mem.createElement 0 (some s)).2.addBefore
      ((mem.createElement 0 (some s)).2.elementForw a.head) mem.fresh) :
    Becomes ((m.shiftRight n.toNat).insert 0 (some s))
      { a with numElements := a.numElements + 1, maxIndex := 0 } mem' := by
  have hfits : m.Fits n := by
    intro i hi
    rw [Finmap.mem_keys] at hi
    exact absurd (hm.lookup_eq_none.mpr fun p hp => by cases hp) (Finmap.lookup_eq_none.not.mpr
      (not_not_intro hi))
  obtain ⟨hring, hfresh, -, hnew⟩ := front_ring h (some s) hmem
  obtain ⟨mem₂, hloop, hbecomes⟩ := rshift_front h hm hn hfits s hmem
  have hsame : mem' = mem₂ := by
    rw [h.elementForw_head, hfresh] at hloop
    unfold IndexedArray.renumberLoop at hloop
    rw [List.headD_nil, if_neg (fun hbad => hbad rfl)] at hloop
    exact Option.some_inj.mp hloop
  subst hsame
  have hback : mem'.elementBack a.head = mem.fresh := hring.prev_head
  have hlast : mem'.elementIndex mem.fresh = 0 := by
    unfold elementIndex
    rw [hnew]
  have hcache : a.lastref = 0 := h.cache.resolve_right (List.not_mem_nil)
  rw [hback, hlast] at hbecomes
  obtain ⟨_, _, _, _⟩ := a
  cases hcache
  exact hbecomes

theorem rshift_spec (h : ArrayHolds mem a l) (hm : Contents mem l m) {n : ℤ}
    (hfits : 0 < n → m.Fits n) (s : Option CString) :
    ∃ a' mem', a.rshift mem n s = some (wrapInt ((m.rshifted n s).keys.card), a', mem') ∧
      Becomes (m.rshifted n s) a' mem' := by
  unfold IndexedArray.rshift SparseMap.rshifted
  by_cases hnothing : a.empty = true ∧ s = none
  · obtain ⟨hempty, rfl⟩ := hnothing
    rw [if_pos ⟨hempty, rfl⟩]
    dsimp only
    have hnone : ∀ i, m.lookup i = none := by
      intro i
      obtain rfl := h.empty_iff.mp hempty
      exact hm.lookup_eq_none.mpr fun p hp => by cases hp
    have hbecomes : Becomes (if n ≤ 0 then m else m.shiftRight n.toNat) a mem := by
      apply becomes_nil h hempty
      intro i
      split_ifs
      · exact hnone i
      · rw [SparseMap.lookup_shiftRight]
        exact hnone _
    refine ⟨a, mem, ?_, hbecomes⟩
    rw [← hbecomes.count, beq_iff_eq.mp hempty]
    rfl
  · rw [if_neg hnothing]
    by_cases hn : n ≤ 0
    · rw [if_pos hn, if_pos hn, hm.card_eq h]
      exact ⟨a, mem, rfl, l, h, hm⟩
    · rw [if_neg hn, if_neg hn]
      have hn' : 0 < n := Int.not_le.mp hn
      cases s with
      | none =>
          obtain ⟨mem₂, hloop, hbecomes⟩ := rshift_renumber h hm hn' (hfits hn')
          dsimp only
          rw [hloop, ← hbecomes.count]
          exact ⟨_, _, rfl, hbecomes⟩
      | some s =>
          have hfresh : (mem.createElement 0 (some s)).1 = mem.fresh := rfl
          have hforw : (mem.createElement 0 (some s)).2.elementForw a.head =
              mem.elementForw a.head := by
            rw [h.elementForw_head]
            exact (h.createElement 0 (some s)).elementForw_head
          dsimp only
          rw [hfresh]
          split_ifs with hone
          · have hempty : a.empty = true := by
              unfold IndexedArray.empty
              rw [beq_iff_eq]
              omega
            obtain rfl := h.empty_iff.mp hempty
            have hbecomes := rshift_first h hm hn' s rfl
            rw [hforw] at hbecomes
            rw [← hbecomes.count]
            dsimp only
            rw [hone] at hbecomes ⊢
            exact ⟨_, _, rfl, hbecomes⟩
          · obtain ⟨mem₂, hloop, hbecomes⟩ := rshift_front h hm hn' (hfits hn') s rfl
            rw [hforw] at hloop
            rw [hloop, ← hbecomes.count]
            exact ⟨_, _, rfl, hbecomes⟩

/-! ## Shifting to the left -/

def SparseMap.shifted (m : SparseMap) (n : ℤ) : SparseMap :=
  if n ≤ 0 then m else m.shiftLeft n.toNat

/-- The elements that are taken out are the first entries, still in their order. -/
theorem chainFrom_taken (h : ArrayHolds mem a (l₁ ++ l₂)) (hne : l₁ ≠ [])
    (hnext : ∀ x ∈ l₁, x ≠ l₁.getLastD a.head → mem'.elementForw x = mem.elementForw x)
    (hlast : mem'.elementForw (l₁.getLastD a.head) = 0)
    (hdata : ∀ p ∈ l₁, (mem'.cells p).data = (mem.cells p).data)
    (hfresh : mem'.fresh = mem.fresh) :
    mem'.chainFrom mem'.fresh (mem.elementForw a.head) =
      some (l₁.map fun p => (mem.cells p).data) := by
  have hnodup := (List.nodup_append.mp (List.nodup_cons.mp h.ring.nodup).2).1
  have hchain : (l₁ ++ [0]).IsChain fun p q => mem'.elementForw p = q :=
    Cells.chain_ended (d := a.head) (List.IsChain.tail h.ring.split.1) hnodup hnext fun _ => hlast
  have hlength := h.length_lt_fresh
  rw [List.length_append] at hlength
  have hforw : mem.elementForw a.head = l₁.headD 0 := by
    rw [h.elementForw_head]
    obtain ⟨x, l, rfl⟩ := List.exists_cons_of_ne_nil hne
    rfl
  rw [hforw, chainFrom_eq (fun p hp => ?_) hchain (by omega), List.map_congr_left hdata]
  exact (h.inUse p (List.mem_cons_of_mem _ (List.mem_append_left _ hp))).1

theorem shift_all (h : ArrayHolds mem a l) (hm : Contents mem l m) (hne : l ≠ [])
    (hall : l.drop n = []) :
    ∃ last, a.lastLoop mem mem.fresh (mem.elementForw a.head) = some last ∧
      Becomes (m.shiftLeft n) { (a.cleared (mem.setNext last 0)).1 with lastref := 0 }
        (a.cleared (mem.setNext last 0)).2 ∧
      ((a.cleared (mem.setNext last 0)).2).chainFrom (a.cleared (mem.setNext last 0)).2.fresh
        (mem.elementForw a.head) = some (m.entries.take n) := by
  have hold : ArrayHolds mem a (l ++ []) := by
    rw [List.append_nil]
    exact h
  have hlast : a.lastLoop mem mem.fresh (mem.elementForw a.head) = some (l.getLastD a.head) := by
    obtain ⟨x, l', rfl⟩ := List.exists_cons_of_ne_nil hne
    have hstart : ArrayHolds mem a ([] ++ x :: l') := h
    have hlength := h.length_lt_fresh
    rw [List.length_cons] at hlength
    have hfuel : l'.length < mem.fresh := by omega
    rw [h.elementForw_head, List.headD_cons, IndexedArray.lastLoop_spec hstart hfuel,
      List.getLastD_cons]
  have hhead : (mem.setNext (l.getLastD a.head) 0).elementIndex a.head = -1 := by
    unfold elementIndex
    rw [cells_setNext, Cells.data_setNext]
    exact h.headIndex
  refine ⟨_, hlast, ⟨[], cleared_holds hhead (h.inUse _ List.mem_cons_self), ?_⟩, ?_⟩
  · have hshifted : Contents (a.cleared (mem.setNext (l.getLastD a.head) 0)).2 (l.drop n)
        (m.shiftLeft n) := hm.shiftLeft h fun p hp => by
      rw [hall] at hp
      cases hp
    rw [hall] at hshifted
    exact hshifted
  · have hnext : ∀ x ∈ l, (a.cleared (mem.setNext (l.getLastD a.head) 0)).2.elementForw x =
        if x = l.getLastD a.head then 0 else mem.elementForw x := by
      intro x hx
      unfold IndexedArray.cleared elementForw
      rw [cells_setNext, Cells.next_setNext, if_neg (h.ne_head hx), cells_setPrev,
        Cells.next_setPrev, cells_setNext, Cells.next_setNext]
    have hmem : l.getLastD a.head ∈ l := by
      obtain ⟨l', x, rfl⟩ := (List.eq_nil_or_concat' l).resolve_left hne
      rw [List.getLastD_concat]
      exact List.mem_append_right _ (List.mem_singleton_self x)
    have hdata : ∀ p ∈ l, ((a.cleared (mem.setNext (l.getLastD a.head) 0)).2.cells p).data =
        (mem.cells p).data := by
      intro p _
      unfold IndexedArray.cleared
      simp
    rw [chainFrom_taken hold hne (fun x hx hother => ?_) ?_ hdata rfl, hm.entries_eq h,
      List.take_of_length_le]
    · rw [List.length_map]
      exact List.drop_eq_nil_iff.mp hall
    · rw [hnext _ hmem, if_pos rfl]
    · rw [hnext x hx, if_neg hother]

/-- The links and the indices of the elements that stay. -/
theorem shift_some (h : ArrayHolds mem a (l₁ ++ y :: l₂)) (hne : l₁ ≠ [])
    (hmem : mem' = ((mem.setNext (mem.elementBack y) 0).setNext a.head y).setPrev y a.head) :
    ∃ mem₂, a.renumberLoop (-l₁.length) mem'.fresh y mem' = some mem₂ ∧
      ArrayHolds mem₂
        { a with
          numElements := a.numElements - l₁.length
          maxIndex := mem₂.elementIndex (mem₂.elementBack a.head)
          lastref := 0 } (y :: l₂) ∧
      (∀ p ∈ y :: l₂,
        (mem₂.cells p).data = ⟨mem.elementIndex p - l₁.length, mem.elementValue p⟩) ∧
      mem₂.chainFrom mem₂.fresh (mem.elementForw a.head) =
        some (l₁.map fun p => (mem.cells p).data) := by
  have hnodup := h.ring.nodup
  have hapart := (List.nodup_append.mp (List.nodup_cons.mp hnodup).2).2.2
  rw [h.elementBack_at] at hmem
  have hlast : l₁.getLastD a.head ∈ l₁ := by
    obtain ⟨l', x, rfl⟩ := (List.eq_nil_or_concat' l₁).resolve_left hne
    rw [List.getLastD_concat]
    exact List.mem_append_right _ (List.mem_singleton_self x)
  have hin₁ : ∀ p ∈ l₁, p ≠ a.head := fun p hp => h.ne_head (List.mem_append_left _ hp)
  have hin₂ : ∀ p ∈ y :: l₂, p ≠ a.head := fun p hp => h.ne_head (List.mem_append_right _ hp)
  have hnext : ∀ x, mem'.elementForw x =
      if x = a.head then y else if x = l₁.getLastD a.head then 0 else mem.elementForw x := by
    intro x
    unfold elementForw
    rw [hmem, cells_setPrev, Cells.next_setPrev, cells_setNext, Cells.next_setNext,
      cells_setNext, Cells.next_setNext]
  have hprev : ∀ x, mem'.elementBack x = if x = y then a.head else mem.elementBack x := by
    intro x
    unfold elementBack
    rw [hmem, cells_setPrev, Cells.prev_setPrev, cells_setNext, Cells.prev_setNext,
      cells_setNext, Cells.prev_setNext]
  have hdata : ∀ x, (mem'.cells x).data = (mem.cells x).data := by
    intro x
    rw [hmem]
    simp
  have hfresh : mem'.fresh = mem.fresh := by
    rw [hmem]
    rfl
  have hindex := elementIndex_eq hdata
  have hring : Cells.Ring mem'.cells a.head ([] ++ y :: l₂) := by
    refine h.ring.cut ⟨?_, ?_⟩ (fun x hx => ?_) fun x _ hother => ?_
    · exact (hnext a.head).trans (if_pos rfl)
    · exact (hprev y).trans (if_pos rfl)
    · have hapart' : x ≠ l₁.getLastD a.head := fun hbad => hapart _ hlast x hx hbad.symm
      exact ((hnext x).trans (if_neg (hin₂ x hx))).trans (if_neg hapart')
    · exact (hprev x).trans (if_neg hother)
  have hlength := h.length_lt_fresh
  rw [List.length_append] at hlength
  obtain ⟨mem₂, hloop, hr⟩ := @IndexedArray.renumberLoop_spec mem' a [] (y :: l₂) (-l₁.length)
    hring mem'.fresh (by omega)
  have hlow : ∀ p ∈ y :: l₂, (l₁.length : ℤ) ≤ mem.elementIndex p := by
    intro p hp
    have hy := h.length_le_index
    rcases List.mem_cons.mp hp with rfl | hp
    · exact hy
    · exact Int.le_trans hy (Int.le_of_lt (h.index_lt.2 p hp))
  have hsorted : ((y :: l₂).map mem'.elementIndex).Pairwise (· < ·) := by
    rw [hindex]
    exact h.increasing.sublist ((List.sublist_append_right l₁ (y :: l₂)).map _)
  have huse : ∀ p ∈ a.head :: ([] ++ y :: l₂), 0 < p ∧ p < mem'.fresh := by
    intro p hp
    rw [hfresh]
    apply h.inUse p
    rcases List.mem_cons.mp hp with rfl | hp
    · exact List.mem_cons_self
    · exact List.mem_cons_of_mem _ (List.mem_append_right _ hp)
  have hrange : ∀ p ∈ y :: l₂, (([] : List ℕ).length : ℤ) ≤ mem'.elementIndex p + -l₁.length ∧
      mem'.elementIndex p + -l₁.length ≤ arrayindMax := by
    intro p hp
    have hle := hlow p hp
    have hhigh := (h.inRange p (List.mem_append_right _ hp)).2
    rw [hindex, List.length_nil]
    constructor
    · push_cast
      omega
    · omega
  have hcount : a.numElements - l₁.length = ([] ++ y :: l₂).length := by
    have hold := h.count
    rw [List.length_append] at hold
    rw [List.nil_append]
    push_cast at hold
    omega
  obtain ⟨hholds, hmoved⟩ :=
    @renumbered_holds { a with numElements := a.numElements - l₁.length } (y :: l₂) mem' mem₂
      (-l₁.length) [] hring (by rw [hindex]; exact h.headIndex) huse (fun p hp => by cases hp)
      (Nat.zero_le _) hsorted hrange hr hcount
  refine ⟨mem₂, hloop, hholds, fun p hp => ?_, ?_⟩
  · rw [hmoved p hp, hindex]
    unfold elementValue
    rw [hdata p]
    rfl
  · have hforw : ∀ x ∈ l₁, mem₂.elementForw x =
        if x = l₁.getLastD a.head then 0 else mem.elementForw x := by
      intro x hx
      have hsame : mem₂.elementForw x = mem'.elementForw x := hr.next x
      rw [hsame, hnext, if_neg (hin₁ x hx)]
    refine chainFrom_taken h hne (fun x hx hother => ?_) ?_ (fun p hp => ?_)
      (hr.fresh.trans hfresh)
    · rw [hforw x hx, if_neg hother]
    · rw [hforw _ hlast, if_pos rfl]
    · have hnot : p ∉ y :: l₂ := fun hbad => hapart p hp p hbad rfl
      have hsame := hr.index p
      rw [if_neg hnot] at hsame
      rw [← hdata p]
      exact congrArg₂ ArrayElement.mk hsame (hr.value p)

theorem shift_spec (h : ArrayHolds mem a l) (hm : Contents mem l m) (n : ℤ) (dispose : Bool) :
    ∃ ret a' mem', a.shift mem n dispose = some (ret, a', mem') ∧ Becomes (m.shifted n) a' mem' ∧
      mem'.chainFrom mem'.fresh ret =
        some (if dispose then [] else m.entries.take n.toNat) := by
  have hzero : ∀ mem : ArrayMemory, mem.chainFrom mem.fresh 0 = some [] := by
    intro mem
    cases mem.fresh <;> rfl
  unfold IndexedArray.shift SparseMap.shifted
  by_cases hnothing : a.empty = true ∨ n ≤ 0
  · rw [if_pos hnothing]
    refine ⟨0, a, mem, rfl, ?_⟩
    rw [hzero]
    rcases hnothing with hempty | hn
    · obtain rfl := h.empty_iff.mp hempty
      have hentries : m.entries = [] := hm.entries_eq h
      have hshifted : Contents mem (([] : List ℕ).drop n.toNat) (m.shiftLeft n.toNat) :=
        hm.shiftLeft h fun p hp => by
          rw [List.drop_nil] at hp
          cases hp
      rw [List.drop_nil] at hshifted
      rw [hentries, List.take_nil, ite_self]
      refine ⟨⟨[], h, ?_⟩, rfl⟩
      split_ifs
      · exact hm
      · exact hshifted
    · rw [if_pos hn, Int.toNat_of_nonpos hn, List.take_zero, ite_self]
      exact ⟨⟨l, h, hm⟩, rfl⟩
  · obtain ⟨hempty, hn⟩ := not_or.mp hnothing
    have hne : l ≠ [] := mt h.empty_iff.mpr hempty
    have hstart : ArrayHolds mem { a with lastref := 0 } ([] ++ l) := h.setCache (.inl rfl)
    have hfuel : l.length < mem.fresh := Nat.lt_of_succ_lt h.length_lt_fresh
    have hskip := IndexedArray.skipLoop_spec (n := n) (k := 0) hstart hfuel
    rw [Int.sub_zero] at hskip
    rw [if_neg hnothing, if_neg hn]
    dsimp only
    rw [h.elementForw_head, hskip]
    dsimp only
    cases hdrop : l.drop n.toNat with
    | nil =>
        have hshifted : ∀ mem' : ArrayMemory, Contents mem' [] (m.shiftLeft n.toNat) := by
          intro mem'
          rw [← hdrop]
          exact hm.shiftLeft h fun p hp => by
            rw [hdrop] at hp
            cases hp
        rw [List.headD_nil, if_pos rfl]
        cases dispose with
        | true =>
            refine ⟨0, _, _, rfl, ⟨[], ?_, hshifted _⟩, hzero _⟩
            exact cleared_holds hstart.headIndex (hstart.inUse _ List.mem_cons_self)
        | false =>
            obtain ⟨last, hlast, hbecomes, hchain⟩ := shift_all hstart hm hne hdrop
            rw [h.elementForw_head] at hlast hchain
            rw [if_neg Bool.false_ne_true, hlast]
            exact ⟨_, _, _, rfl, hbecomes, hchain⟩
    | cons y l₂ =>
        have hsplit : l.take n.toNat ++ y :: l₂ = l := by
          rw [← hdrop, List.take_append_drop]
        have hlength : ((l.take n.toNat).length : ℤ) = n := by
          have hrest := congrArg List.length hdrop
          rw [List.length_drop, List.length_cons] at hrest
          have hlong : n.toNat < l.length := by omega
          rw [List.length_take, Nat.min_eq_left (Nat.le_of_lt hlong), Int.toNat_of_nonneg (by omega)]
        have htaken : l.take n.toNat ≠ [] := by
          intro hbad
          rw [hbad] at hlength
          exact hn (Int.le_of_eq hlength.symm)
        have hy : y ≠ a.head := h.ne_head (by
          rw [← hsplit]
          exact List.mem_append_right _ List.mem_cons_self)
        rw [← hsplit] at hstart
        obtain ⟨mem₂, hloop, hholds, hmoved, hchain⟩ := shift_some hstart htaken rfl
        rw [hlength] at hloop hholds hmoved
        have hcontents : Contents mem₂ (l.drop n.toNat) (m.shiftLeft n.toNat) :=
          hm.shiftLeft h fun p hp => by
            rw [hdrop] at hp
            rw [Int.toNat_of_nonneg (by omega)]
            exact hmoved p hp
        rw [hdrop] at hcontents
        rw [List.headD_cons, if_neg hy, hloop]
        refine ⟨_, _, _, rfl, ⟨y :: l₂, hholds, hcontents⟩, ?_⟩
        cases dispose with
        | true => exact hzero _
        | false =>
            rw [if_neg Bool.false_ne_true, if_neg Bool.false_ne_true, ← h.elementForw_head,
              hm.entries_eq h, ← List.map_take]
            exact hchain

end Rash
