import Rash.Vars.ArrayRuns

/-!
# Arrays from argument vectors

`array_from_argv` of array.c, which takes the elements that exist for the first ones of the new
array, and when that is what the array becomes.
-/

namespace Rash

open ArrayMemory

/-- `vec` with its `count`, which is an `int` and not zero. -/
structure ArgVector where
  vec : List (Option CString)
  nonempty : vec ≠ []
  count_le : vec.length ≤ 2 ^ 31 - 1

/-- `vec[0]` -/
def ArgVector.first (v : ArgVector) : Option CString := v.vec.head v.nonempty

namespace IndexedArray

/-- `for ( ; i < count; i++) array_insert (a, i, vec[i]);` -/
def insertFrom (a : IndexedArray) (mem : ArrayMemory) :
    ℤ → List (Option CString) → Option (IndexedArray × ArrayMemory)
  | _, [] => some (a, mem)
  | i, v :: vec =>
      match a.insert mem i v with
      | none => none
      | some (_, a, mem) => a.insertFrom mem (i + 1) vec

/-- The loop that modifies elements in place, with the number of passes that are left. -/
def replaceLoop (t : Option CString) : ℕ → ℕ → ArrayMemory → ArrayMemory
  | 0, _, mem => mem
  | n + 1, ae, mem => replaceLoop t n (mem.elementForw ae) (mem.setValue (mem.elementForw ae) t)

/-- `array_from_argv`, for an array that is not `NULL`. -/
def fromArgv (a : IndexedArray) (mem : ArrayMemory) (v : ArgVector) :
    Option (IndexedArray × ArrayMemory) :=
  if a.numElements = 0 then a.insertFrom mem 0 v.vec
  else if a.numElements = v.vec.length ∧ v.vec.length = 1 then
    some (a, mem.setValue (mem.elementForw a.head) v.first)
  else if a.numElements ≤ v.vec.length then
    a.insertFrom (replaceLoop v.first a.numElements.toNat a.head mem) a.numElements
      (v.vec.drop a.numElements.toNat)
  else (a.flush mem).1.insertFrom (a.flush mem).2 0 v.vec

end IndexedArray

namespace SparseMap

def insertFrom : SparseMap → ℤ → List (Option CString) → SparseMap
  | m, _, [] => m
  | m, i, v :: vec => insertFrom (m.insert i v) (i + 1) vec

theorem lookup_insertFrom (m : SparseMap) (i : ℤ) (vec : List (Option CString)) (j : ℤ) :
    (m.insertFrom i vec).lookup j =
      if i ≤ j ∧ j < i + vec.length then vec[(j - i).toNat]? else m.lookup j := by
  induction vec generalizing m i with
  | nil =>
      rw [insertFrom, if_neg]
      rw [List.length_nil]
      omega
  | cons v vec ih =>
      rw [insertFrom, ih, FiniteMap.lookup_insert_if, List.length_cons]
      by_cases hj : j = i
      · subst hj
        rw [if_neg (by omega), if_pos rfl, if_pos (by omega), Int.sub_self]
        rfl
      · rw [if_neg hj]
        by_cases hin : i + 1 ≤ j ∧ j < i + 1 + vec.length
        · rw [if_pos hin, if_pos (by omega),
            show (j - i).toNat = (j - (i + 1)).toNat + 1 by omega, List.getElem?_cons_succ]
        · rw [if_neg hin, if_neg (by omega)]

/-- The map that `vec` is. -/
def ofArgv (v : ArgVector) : SparseMap := (∅ : SparseMap).insertFrom 0 v.vec

theorem lookup_ofArgv (v : ArgVector) (j : ℤ) :
    (ofArgv v).lookup j =
      if 0 ≤ j ∧ j < v.vec.length then v.vec[j.toNat]? else none := by
  rw [ofArgv, lookup_insertFrom, Int.sub_zero, zero_add, Finmap.lookup_empty]

end SparseMap

variable {mem mem' : ArrayMemory} {a a' : IndexedArray} {l l₁ l₂ : List ℕ} {m m' : SparseMap}
  {v : ArgVector}

/-! ## The loops -/

theorem insertFrom_spec (h : Becomes m a mem) {i : ℤ} {vec : List (Option CString)} (hi : 0 ≤ i)
    (hlen : i + vec.length ≤ arrayindMax) :
    ∃ a' mem', a.insertFrom mem i vec = some (a', mem') ∧ Becomes (m.insertFrom i vec) a' mem' := by
  induction vec generalizing a mem m i with
  | nil => exact ⟨a, mem, rfl, h⟩
  | cons v vec ih =>
      rw [List.length_cons] at hlen
      obtain ⟨l, hholds, hm⟩ := h
      obtain ⟨a₁, mem₁, hinsert, h₁⟩ := insert_spec hholds hm ⟨hi, by omega⟩ v
      obtain ⟨a₂, mem₂, hrest, h₂⟩ := ih h₁ (i := i + 1) (by omega) (by omega)
      exact ⟨a₂, mem₂, by rw [IndexedArray.insertFrom, hinsert]; exact hrest, h₂⟩

theorem elementForw_getLastD (h : ArrayHolds mem a (l₁ ++ l₂)) :
    mem.elementForw (l₁.getLastD a.head) = l₂.headD a.head := h.ring.split.2.2.1

theorem replaceLoop_spec (t : Option CString) (h : ArrayHolds mem a (l₁ ++ l₂))
    (hm : Contents mem (l₁ ++ l₂) m) :
    ∃ mem' m', IndexedArray.replaceLoop t l₂.length (l₁.getLastD a.head) mem = mem' ∧
      ArrayHolds mem' a (l₁ ++ l₂) ∧ Contents mem' (l₁ ++ l₂) m' ∧
      ∀ i, m'.lookup i = if i ∈ l₂.map mem.elementIndex then some t else m.lookup i := by
  induction l₂ generalizing l₁ mem m with
  | nil => exact ⟨mem, m, rfl, h, hm, fun i => rfl⟩
  | cons x l₃ ih =>
      obtain ⟨hholds, hcontents⟩ := insert_replace h hm t
      have hholds' : ArrayHolds (mem.setValue x t) a (l₁ ++ [x] ++ l₃) := by
        rw [List.append_assoc]
        exact hholds.setCache h.cache
      have hcontents' : Contents (mem.setValue x t) (l₁ ++ [x] ++ l₃)
          (m.insert (mem.elementIndex x) t) := by
        rw [List.append_assoc]
        exact hcontents
      have hindex (p : ℕ) : (mem.setValue x t).elementIndex p = mem.elementIndex p := by
        unfold setValue elementIndex
        rw [Cells.data_setData]
        split_ifs with hp
        · rw [hp]
        · rfl
      obtain ⟨mem', m', hloop, hmem', hm', hlookup⟩ := ih hholds' hcontents'
      refine ⟨mem', m', ?_, ?_, ?_, fun i => ?_⟩
      · rw [List.length_cons, IndexedArray.replaceLoop, elementForw_getLastD h, List.headD_cons]
        rw [List.getLastD_concat] at hloop
        exact hloop
      · rw [List.append_assoc] at hmem'
        exact hmem'
      · rw [List.append_assoc] at hm'
        exact hm'
      · rw [hlookup, FiniteMap.lookup_insert_if, List.map_congr_left fun p _ => hindex p]
        by_cases hx : i = mem.elementIndex x
        · rw [if_pos hx, ite_self, if_pos (by rw [hx]; exact List.mem_cons_self)]
        · rw [if_neg hx]
          refine if_congr ?_ rfl rfl
          rw [List.map_cons, List.mem_cons, or_iff_right hx]

theorem replaceLoop_all (t : Option CString) (h : ArrayHolds mem a l) (hm : Contents mem l m) :
    Becomes (FiniteMap.mapValues (fun _ => t) m) a
      (IndexedArray.replaceLoop t a.numElements.toNat a.head mem) := by
  obtain ⟨_, m', rfl, hholds, hm', hlookup⟩ :=
    @replaceLoop_spec mem a [] l m t h hm
  refine ⟨l, ?_, ?_⟩
  · rw [h.count]
    exact hholds
  · have heq : FiniteMap.mapValues (fun _ => t) m = m' := by
      refine Finmap.ext_lookup fun i => ?_
      rw [FiniteMap.lookup_mapValues, hlookup]
      cases hi : m.lookup i with
      | none =>
          rw [if_neg]
          · rfl
          · rintro hmem
            obtain ⟨p, hp, hindex⟩ := List.mem_map.mp hmem
            exact (hm.lookup_eq_none.mp hi) p hp hindex
      | some w =>
          obtain ⟨p, hp, hentry⟩ := (hm i w).mp hi
          rw [if_pos]
          · rfl
          · refine List.mem_map.mpr ⟨p, hp, ?_⟩
            unfold elementIndex
            rw [hentry]
    rw [heq, h.count]
    exact hm'

/-! ## The contents -/

/-- An array has one contents. -/
theorem Becomes.unique (h : Becomes m a mem) (h' : Becomes m' a mem) : m = m' := by
  obtain ⟨l, hholds, hm⟩ := h
  obtain ⟨l', hholds', hm'⟩ := h'
  refine Finmap.ext_lookup fun i => ?_
  obtain ⟨ae, a₁, mem₁, hremove, -, helement⟩ := remove_spec hholds hm i
  obtain ⟨ae', a₂, mem₂, hremove', -, helement'⟩ := remove_spec hholds' hm' i
  rw [hremove] at hremove'
  cases hremove'
  exact Option.map_injective (fun _ _ h => congrArg ArrayElement.value h) (helement.symm.trans helement')

/-- What `array_from_argv` makes of an array. -/
def fromArgvMap (m : SparseMap) (v : ArgVector) : SparseMap :=
  if m.keys.card ≤ v.vec.length then
    SparseMap.insertFrom (FiniteMap.mapValues (fun _ => v.first) m) m.keys.card
      (v.vec.drop m.keys.card)
  else SparseMap.ofArgv v

theorem ArgVector.length_pos (v : ArgVector) : 0 < v.vec.length :=
  List.length_pos_iff.mpr v.nonempty

theorem ArgVector.getElem?_zero (v : ArgVector) : v.vec[0]? = some v.first := by
  rw [← List.head?_eq_getElem?, List.head?_eq_some_head v.nonempty]
  rfl

theorem ArgVector.fits (v : ArgVector) : (v.vec.length : ℤ) ≤ arrayindMax := by
  have h := v.count_le
  unfold arrayindMax
  omega

theorem eq_empty_of_card (h : m.keys.card = 0) : m = ∅ := by
  refine Finmap.ext_lookup fun i => ?_
  rw [Finmap.lookup_empty, Finmap.lookup_eq_none, ← Finmap.mem_keys, Finset.card_eq_zero.mp h]
  exact Finset.notMem_empty i

theorem fromArgv_spec (h : Becomes m a mem) (v : ArgVector) :
    ∃ a' mem', a.fromArgv mem v = some (a', mem') ∧ Becomes (fromArgvMap m v) a' mem' := by
  have hcount := h.count
  have hpos := v.length_pos
  unfold IndexedArray.fromArgv fromArgvMap
  by_cases hempty : a.numElements = 0
  · have hcard : m.keys.card = 0 := by omega
    obtain rfl := eq_empty_of_card hcard
    rw [if_pos hempty, hcard, if_pos (Nat.zero_le _)]
    exact insertFrom_spec h le_rfl (by rw [zero_add]; exact v.fits)
  rw [if_neg hempty]
  obtain ⟨l, hholds, hm⟩ := h
  by_cases hone : a.numElements = v.vec.length ∧ v.vec.length = 1
  · have hcard : m.keys.card = 1 := by omega
    have hall := replaceLoop_all v.first hholds hm
    rw [hone.1, hone.2] at hall
    rw [if_pos hone, hcard, hone.2, if_pos le_rfl, List.drop_eq_nil_of_le (Nat.le_of_eq hone.2)]
    exact ⟨_, _, rfl, hall⟩
  rw [if_neg hone]
  by_cases hle : a.numElements ≤ v.vec.length
  · have hcard : m.keys.card ≤ v.vec.length := by omega
    have hfits := v.fits
    rw [if_pos hle, if_pos hcard, hcount]
    refine insertFrom_spec (hcount ▸ replaceLoop_all v.first hholds hm) (Int.natCast_nonneg _) ?_
    rw [List.length_drop]
    omega
  · rw [if_neg hle, if_neg (by omega)]
    exact insertFrom_spec (flush_spec hholds) le_rfl (by rw [zero_add]; exact v.fits)

/-! ## When the contents are replaced -/

/-- The elements have the first indices, and the values that are to come there are all the
first. -/
def InPlaceFits (m : SparseMap) (v : ArgVector) : Prop :=
  ∀ i < m.keys.card, (i : ℤ) ∈ m ∧ v.vec[i]? = v.vec[0]?

theorem card_first (n : ℕ) : ((Finset.range n).image fun i : ℕ => (i : ℤ)).card = n := by
  have hinjective : Function.Injective fun i : ℕ => (i : ℤ) := fun _ _ h => Int.ofNat.inj h
  rw [Finset.card_image_of_injective _ hinjective, Finset.card_range]

theorem mem_ofArgv (v : ArgVector) (j : ℤ) :
    j ∈ SparseMap.ofArgv v ↔ 0 ≤ j ∧ j < v.vec.length := by
  rw [← Finmap.lookup_isSome, SparseMap.lookup_ofArgv]
  by_cases hin : 0 ≤ j ∧ j < v.vec.length
  · rw [if_pos hin, List.getElem?_eq_getElem (by omega)]
    exact iff_of_true rfl hin
  · rw [if_neg hin]
    exact iff_of_false nofun hin

theorem mem_first (n : ℕ) (j : ℤ) :
    j ∈ (Finset.range n).image (fun i : ℕ => (i : ℤ)) ↔ 0 ≤ j ∧ j < n := by
  rw [Finset.mem_image]
  constructor
  · rintro ⟨i, hi, rfl⟩
    have hlt := Finset.mem_range.mp hi
    omega
  · exact fun hj => ⟨j.toNat, Finset.mem_range.mpr (by omega), by omega⟩

theorem card_ofArgv (v : ArgVector) : (SparseMap.ofArgv v).keys.card = v.vec.length := by
  have hkeys : (SparseMap.ofArgv v).keys =
      (Finset.range v.vec.length).image fun i : ℕ => (i : ℤ) := by
    ext j
    rw [Finmap.mem_keys, mem_ofArgv, mem_first]
  rw [hkeys, card_first]

/-- The indices are the first ones if these are among them. -/
theorem mem_iff_of_inPlaceFits (h : InPlaceFits m v) (j : ℤ) :
    j ∈ m ↔ 0 ≤ j ∧ j < m.keys.card := by
  have hsub : (Finset.range m.keys.card).image (fun i : ℕ => (i : ℤ)) ⊆ m.keys := by
    intro i hi
    obtain ⟨hpos, hlt⟩ := (mem_first _ _).mp hi
    have hmem := (h i.toNat (by omega)).1
    rw [Int.toNat_of_nonneg hpos] at hmem
    exact Finmap.mem_keys.mpr hmem
  have heq := Finset.eq_of_subset_of_card_le hsub (Nat.le_of_eq (card_first _).symm)
  have hj : j ∈ m.keys ↔ j ∈ (Finset.range m.keys.card).image fun i : ℕ => (i : ℤ) := by rw [heq]
  rw [← Finmap.mem_keys, hj, mem_first]

theorem lookup_fromArgvMap (hle : m.keys.card ≤ v.vec.length) (j : ℤ) :
    (fromArgvMap m v).lookup j =
      if m.keys.card ≤ j ∧ j < v.vec.length then v.vec[j.toNat]?
      else (m.lookup j).map fun _ => v.first := by
  rw [fromArgvMap, if_pos hle, SparseMap.lookup_insertFrom, FiniteMap.lookup_mapValues,
    List.length_drop, List.getElem?_drop]
  by_cases hin : m.keys.card ≤ j ∧ j < v.vec.length
  · rw [if_pos hin, if_pos (by omega), show m.keys.card + (j - m.keys.card).toNat = j.toNat by omega]
  · rw [if_neg hin, if_neg (by omega)]

theorem fromArgvMap_eq_iff (m : SparseMap) (v : ArgVector) :
    fromArgvMap m v = SparseMap.ofArgv v ↔ v.vec.length < m.keys.card ∨ InPlaceFits m v := by
  by_cases hle : m.keys.card ≤ v.vec.length
  · rw [or_iff_right (by omega)]
    constructor
    · intro heq i hi
      have hlookup := lookup_fromArgvMap hle i
      rw [heq, SparseMap.lookup_ofArgv, if_pos (by omega), if_neg (by omega), Int.toNat_natCast,
        List.getElem?_eq_getElem (Nat.lt_of_lt_of_le hi hle)] at hlookup
      cases hi' : m.lookup (i : ℤ) with
      | none =>
          rw [hi'] at hlookup
          cases hlookup
      | some w =>
          rw [hi'] at hlookup
          refine ⟨Finmap.mem_of_lookup_eq_some hi', ?_⟩
          rw [List.getElem?_eq_getElem (Nat.lt_of_lt_of_le hi hle), v.getElem?_zero]
          exact hlookup
    · intro hfits
      refine Finmap.ext_lookup fun j => ?_
      rw [lookup_fromArgvMap hle, SparseMap.lookup_ofArgv]
      by_cases hnew : m.keys.card ≤ j ∧ j < v.vec.length
      · rw [if_pos hnew, if_pos (by omega)]
      rw [if_neg hnew]
      by_cases hold : 0 ≤ j ∧ j < m.keys.card
      · obtain ⟨hmem, hvec⟩ := hfits j.toNat (by omega)
        rw [Int.toNat_of_nonneg hold.1] at hmem
        obtain ⟨w, hw⟩ := Finmap.mem_iff.mp hmem
        rw [if_pos (by omega), hvec, v.getElem?_zero, hw]
        rfl
      · rw [if_neg (by omega), Finmap.lookup_eq_none.mpr (mt (mem_iff_of_inPlaceFits hfits j).mp hold)]
        rfl
  · rw [fromArgvMap, if_neg hle, eq_self, true_iff]
    exact .inl (by omega)

/-- The contents are those of `vec`, and the counters are right. -/
def HoldsArgv (a : IndexedArray) (mem : ArrayMemory) (v : ArgVector) : Prop :=
  Becomes (SparseMap.ofArgv v) a mem ∧ a.numElements = v.vec.length ∧ a.maxIndex = v.vec.length - 1

theorem holdsArgv_of_becomes (h : Becomes (SparseMap.ofArgv v) a mem) : HoldsArgv a mem v := by
  refine ⟨h, by rw [h.count, card_ofArgv], ?_⟩
  obtain ⟨l, hholds, hm⟩ := h
  have hpos := v.length_pos
  have hindex (p : ℕ) (hp : p ∈ l) : mem.elementIndex p < v.vec.length :=
    ((mem_ofArgv v _).mp (Finmap.mem_of_lookup_eq_some (hm.lookup_index hp))).2
  obtain ⟨w, hw⟩ := Finmap.mem_iff.mp ((mem_ofArgv v (v.vec.length - 1)).mpr (by omega))
  obtain ⟨p, hp, hentry⟩ := (hm _ _).mp hw
  have hlast := hholds.index_le_max hp
  rw [show mem.elementIndex p = v.vec.length - 1 from congrArg ArrayElement.ind hentry] at hlast
  have hmax : a.maxIndex < v.vec.length := by
    rw [hholds.greatest]
    obtain rfl | ⟨l', q, rfl⟩ := List.eq_nil_or_concat' l
    · cases hp
    · rw [List.map_append, List.map_singleton, List.getLastD_concat]
      exact hindex q (List.mem_append_right _ (List.mem_singleton_self _))
  omega

theorem fromArgv_replaces_iff (h : Becomes m a mem) (v : ArgVector) :
    ∃ a' mem', a.fromArgv mem v = some (a', mem') ∧
      (HoldsArgv a' mem' v ↔ v.vec.length < m.keys.card ∨ InPlaceFits m v) := by
  obtain ⟨a', mem', hrun, hbecomes⟩ := fromArgv_spec h v
  refine ⟨a', mem', hrun, ?_⟩
  rw [← fromArgvMap_eq_iff]
  constructor
  · exact fun hargv => hbecomes.unique hargv.1
  · intro heq
    exact holdsArgv_of_becomes (heq ▸ hbecomes)

/-- An array with one element, whose index is 3. -/
def sparseOnce : SparseMap := (∅ : SparseMap).insert 3 (some [120])

def twoStrings : ArgVector := ⟨[some [97], some [98]], by decide, by decide⟩

theorem becomes_sparseOnce :
    ∃ a mem, (arrayCreate emptyMemory).1.insert (arrayCreate emptyMemory).2 3 (some [120]) =
      some (0, a, mem) ∧ Becomes sparseOnce a mem :=
  insert_spec (arrayCreate_holds (Nat.succ_pos 0)) (contents_nil fun _ => Finmap.lookup_empty _)
    (by decide) _

theorem fromArgv_replaces_sparse :
    ∃ a mem, Becomes sparseOnce a mem ∧ ∃ a' mem', a.fromArgv mem twoStrings = some (a', mem') ∧
      (HoldsArgv a' mem' twoStrings ↔
        twoStrings.vec.length < sparseOnce.keys.card ∨ InPlaceFits sparseOnce twoStrings) := by
  obtain ⟨a, mem, -, h⟩ := becomes_sparseOnce
  exact ⟨a, mem, h, fromArgv_replaces_iff h twoStrings⟩

/-- The array has the indices 1 and 3 in the end. -/
theorem fromArgv_sparse :
    ∃ a mem, Becomes sparseOnce a mem ∧ ∃ a' mem', a.fromArgv mem twoStrings = some (a', mem') ∧
      Becomes (((sparseOnce.insert 3 (some [97]) : SparseMap).insert 1 (some [98])) : SparseMap) a' mem' ∧
      ¬ HoldsArgv a' mem' twoStrings := by
  obtain ⟨a, mem, -, h⟩ := becomes_sparseOnce
  obtain ⟨a', mem', hrun, hbecomes⟩ := fromArgv_spec h twoStrings
  have hmap : fromArgvMap sparseOnce twoStrings =
      ((sparseOnce.insert 3 (some [97]) : SparseMap).insert 1 (some [98]) : SparseMap) := by
    refine Finmap.ext_lookup fun j => ?_
    have hcard : sparseOnce.keys.card = 1 := by decide
    rw [lookup_fromArgvMap (by rw [hcard]; decide), hcard, FiniteMap.lookup_insert_if,
      FiniteMap.lookup_insert_if, sparseOnce, FiniteMap.lookup_insert_if, Finmap.lookup_empty]
    by_cases hone : j = 1
    · subst hone
      rfl
    · have hlen : twoStrings.vec.length = 2 := rfl
      rw [if_neg hone, hlen, if_neg (by omega)]
      split_ifs <;> rfl
  refine ⟨a, mem, h, a', mem', hrun, hmap ▸ hbecomes, fun hargv => ?_⟩
  have hlookup := congrArg (fun m : SparseMap => m.lookup 3) (hbecomes.unique hargv.1)
  rw [hmap] at hlookup
  rw [SparseMap.lookup_ofArgv, if_neg (by decide), FiniteMap.lookup_insert_if,
    FiniteMap.lookup_insert_if] at hlookup
  cases hlookup

end Rash
