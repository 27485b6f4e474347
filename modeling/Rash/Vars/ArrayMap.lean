import Mathlib.Data.Finset.Sort
import Rash.Lib.FiniteMaps
import Rash.Vars.ArrayLoops

/-!
# Indexed arrays are finite maps

Every call of array.c on a well-formed array leaves a well-formed array, and answers and changes
the contents as a call on the finite map from the indices to the values does.
-/

namespace Rash

open ArrayMemory

abbrev SparseMap := FiniteMap ℤ (Option CString)

/-- The elements of the list are the entries of the map. -/
def Contents (mem : ArrayMemory) (l : List ℕ) (m : SparseMap) : Prop :=
  ∀ i v, m.lookup i = some v ↔ ∃ p ∈ l, (mem.cells p).data = ⟨i, v⟩

variable {mem mem' : ArrayMemory} {a : IndexedArray} {l l₁ l₂ : List ℕ} {p q x y new : ℕ} {i : ℤ}
  {m : SparseMap} {v : Option CString}

namespace Contents

theorem congr_data (h : Contents mem l m)
    (hdata : ∀ p ∈ l, (mem'.cells p).data = (mem.cells p).data) : Contents mem' l m := by
  intro i v
  rw [h i v]
  constructor
  · rintro ⟨p, hp, hentry⟩
    exact ⟨p, hp, (hdata p hp).trans hentry⟩
  · rintro ⟨p, hp, hentry⟩
    exact ⟨p, hp, (hdata p hp).symm.trans hentry⟩

theorem of_map {l' : List ℕ} (h : Contents mem l m)
    (hdata : l'.map (fun p => (mem.cells p).data) = l.map fun p => (mem.cells p).data) :
    Contents mem l' m := by
  intro i v
  have hmem := congrArg (fun es => (⟨i, v⟩ : ArrayElement) ∈ es) hdata
  simp only [List.mem_map, eq_iff_iff] at hmem
  rw [h i v, hmem]

theorem lookup_eq_none (h : Contents mem l m) :
    m.lookup i = none ↔ ∀ p ∈ l, mem.elementIndex p ≠ i := by
  constructor
  · intro hnone p hp hindex
    have hsome := (h i (mem.elementValue p)).mpr ⟨p, hp, by rw [← hindex]; rfl⟩
    rw [hnone] at hsome
    cases hsome
  · intro hne
    rw [Option.eq_none_iff_forall_not_mem]
    intro v hv
    obtain ⟨p, hp, hentry⟩ := (h i v).mp hv
    apply hne p hp
    unfold elementIndex
    rw [hentry]

theorem lookup_index (h : Contents mem l m) (hp : p ∈ l) :
    m.lookup (mem.elementIndex p) = some (mem.elementValue p) := (h _ _).mpr ⟨p, hp, rfl⟩

theorem insert (h : Contents mem (l₁ ++ l₂) m)
    (hdata : ∀ p ∈ l₁ ++ l₂, (mem'.cells p).data = (mem.cells p).data)
    (hnew : (mem'.cells new).data = ⟨i, v⟩) (hfree : ∀ p ∈ l₁ ++ l₂, mem.elementIndex p ≠ i) :
    Contents mem' (l₁ ++ new :: l₂) (m.insert i v) := by
  have h' := h.congr_data hdata
  intro j w
  rw [FiniteMap.lookup_insert_if]
  by_cases hj : j = i
  · subst hj
    rw [if_pos rfl]
    constructor
    · intro hw
      obtain rfl := Option.some_inj.mp hw
      exact ⟨new, List.mem_append_right _ List.mem_cons_self, hnew⟩
    · rintro ⟨p, hp, hentry⟩
      rcases List.mem_cons.mp (List.perm_middle.mem_iff.mp hp) with rfl | hp
      · rw [hnew] at hentry
        cases hentry
        rfl
      · rw [hdata p hp] at hentry
        exact absurd (congrArg ArrayElement.ind hentry) (hfree p hp)
  · rw [if_neg hj, h' j w]
    constructor
    · rintro ⟨p, hp, hentry⟩
      exact ⟨p, List.perm_middle.mem_iff.mpr (List.mem_cons_of_mem _ hp), hentry⟩
    · rintro ⟨p, hp, hentry⟩
      rcases List.mem_cons.mp (List.perm_middle.mem_iff.mp hp) with rfl | hp
      · rw [hnew] at hentry
        cases hentry
        exact absurd rfl hj
      · exact ⟨p, hp, hentry⟩

theorem erase (h : Contents mem (l₁ ++ x :: l₂) m)
    (hdata : ∀ p ∈ l₁ ++ l₂, (mem'.cells p).data = (mem.cells p).data)
    (hother : ∀ p ∈ l₁ ++ l₂, mem.elementIndex p ≠ mem.elementIndex x) :
    Contents mem' (l₁ ++ l₂) (m.erase (mem.elementIndex x)) := by
  intro j w
  rw [FiniteMap.lookup_erase_if]
  by_cases hj : j = mem.elementIndex x
  · subst hj
    rw [if_pos rfl]
    constructor
    · intro hw
      cases hw
    · rintro ⟨p, hp, hentry⟩
      rw [hdata p hp] at hentry
      exact absurd (congrArg ArrayElement.ind hentry) (hother p hp)
  · rw [if_neg hj, h j w]
    constructor
    · rintro ⟨p, hp, hentry⟩
      rcases List.mem_cons.mp (List.perm_middle.mem_iff.mp hp) with rfl | hp
      · exact absurd (congrArg ArrayElement.ind hentry).symm hj
      · exact ⟨p, hp, (hdata p hp).trans hentry⟩
    · rintro ⟨p, hp, hentry⟩
      exact ⟨p, List.perm_middle.mem_iff.mpr (List.mem_cons_of_mem _ hp),
        (hdata p hp).symm.trans hentry⟩

end Contents

namespace ArrayHolds

theorem index_ne (h : ArrayHolds mem a (l₁ ++ x :: l₂)) :
    ∀ p ∈ l₁ ++ l₂, mem.elementIndex p ≠ mem.elementIndex x := by
  intro p hp
  rcases List.mem_append.mp hp with hp | hp
  · exact Int.ne_of_lt (h.index_lt.1 p hp)
  · exact (Int.ne_of_lt (h.index_lt.2 p hp)).symm

theorem index_le_max (h : ArrayHolds mem a l) (hp : p ∈ l) : mem.elementIndex p ≤ a.maxIndex := by
  have hne : l ≠ [] := List.ne_nil_of_mem hp
  obtain ⟨l', q, rfl⟩ := (List.eq_nil_or_concat' l).resolve_left hne
  have hgreatest := h.greatest
  rw [List.map_append, List.map_singleton, List.getLastD_concat] at hgreatest
  rw [hgreatest]
  rcases List.mem_append.mp hp with hp | hp
  · exact Int.le_of_lt (h.index_lt.1 p hp)
  · obtain rfl := List.mem_singleton.mp hp
    exact Int.le_refl _

theorem first_le_index (h : ArrayHolds mem a l) (hp : p ∈ l) :
    mem.elementIndex (mem.elementForw a.head) ≤ mem.elementIndex p := by
  cases l with
  | nil => cases hp
  | cons q l' =>
      rw [h.elementForw_head, List.headD_cons]
      rcases List.mem_cons.mp hp with rfl | hp
      · exact Int.le_refl _
      · have h' : ArrayHolds mem a ([] ++ q :: l') := h
        exact Int.le_of_lt (h'.index_lt.2 p hp)

theorem empty_iff (h : ArrayHolds mem a l) : a.empty = true ↔ l = [] := by
  unfold IndexedArray.empty
  rw [h.count, beq_iff_eq, Int.natCast_eq_zero, List.length_eq_zero_iff]

end ArrayHolds

/-! ## Inserting -/

/-- The new element between its neighbours, with the contents. -/
theorem insert_between (h : ArrayHolds mem a (l₁ ++ l₂)) (hm : Contents mem (l₁ ++ l₂) m)
    (hrange : 0 ≤ i ∧ i ≤ arrayindMax) (hbelow : ∀ p ∈ l₁, mem.elementIndex p < i)
    (habove : ∀ p ∈ l₂, i < mem.elementIndex p)
    (hsplice : Spliced (mem.createElement i v).2 mem' (l₁.getLastD a.head) mem.fresh
      (l₂.headD a.head)) :
    ArrayHolds mem'
        { a with
          maxIndex := if l₂ = [] then i else a.maxIndex
          numElements := a.numElements + 1
          lastref := mem.fresh } (l₁ ++ mem.fresh :: l₂) ∧
      Contents mem' (l₁ ++ mem.fresh :: l₂) (m.insert i v) := by
  have hnew := h.fresh_notMem
  have hne : ∀ p ∈ l₁ ++ l₂, p ≠ mem.fresh := by
    rintro p hp rfl
    exact hnew (List.mem_cons_of_mem _ hp)
  have hindex : (mem.createElement i v).2.elementIndex mem.fresh = i := by
    unfold elementIndex
    rw [data_createElement]
  have hcreated := h.createElement i v
  have hspliced := hcreated.splice hnew
    ⟨Nat.lt_trans (h.inUse _ List.mem_cons_self).1 (h.inUse _ List.mem_cons_self).2,
      Nat.lt_succ_self _⟩ (by rw [hindex]; exact hrange)
    (fun p hp => by
      rw [hindex, elementIndex_createElement (hne p (List.mem_append_left _ hp))]
      exact hbelow p hp)
    (fun p hp => by
      rw [hindex, elementIndex_createElement (hne p (List.mem_append_right _ hp))]
      exact habove p hp) hsplice
  rw [hindex] at hspliced
  refine ⟨hspliced, hm.insert (fun p hp => ?_) ?_ fun p hp => ?_⟩
  · rw [hsplice.data, cells_createElement (hne p hp)]
  · rw [hsplice.data, data_createElement]
  · rcases List.mem_append.mp hp with hp | hp
    · exact Int.ne_of_lt (hbelow p hp)
    · exact (Int.ne_of_lt (habove p hp)).symm

theorem insert_replace (h : ArrayHolds mem a (l₁ ++ x :: l₂)) (hm : Contents mem (l₁ ++ x :: l₂) m)
    (v : Option CString) :
    ArrayHolds (mem.setValue x v) { a with lastref := x } (l₁ ++ x :: l₂) ∧
      Contents (mem.setValue x v) (l₁ ++ x :: l₂) (m.insert (mem.elementIndex x) v) := by
  have hindex : ∀ p, (mem.setValue x v).elementIndex p = mem.elementIndex p := by
    intro p
    unfold setValue elementIndex
    rw [Cells.data_setData]
    split_ifs with hp
    · rw [hp]
    · rfl
  have hmem : x ∈ l₁ ++ x :: l₂ := List.mem_append_right _ List.mem_cons_self
  have hframe : ArrayHolds (mem.setValue x v) a (l₁ ++ x :: l₂) :=
    h.frame (Nat.le_refl _) (fun p _ => Cells.next_setData _ _ _ _)
      (fun p _ => Cells.prev_setData _ _ _ _) fun p _ => hindex p
  refine ⟨hframe.setCache (.inr hmem), ?_⟩
  have hne : ∀ p ∈ l₁ ++ l₂, p ≠ x := by
    rintro p hp rfl
    exact h.index_ne p hp rfl
  have herase : Contents mem (l₁ ++ l₂) (m.erase (mem.elementIndex x)) :=
    hm.erase (fun _ _ => rfl) h.index_ne
  have hinsert : Contents (mem.setValue x v) (l₁ ++ x :: l₂)
      ((m.erase (mem.elementIndex x)).insert (mem.elementIndex x) v) := by
    refine herase.insert (fun p hp => ?_) ?_ h.index_ne
    · unfold setValue
      rw [Cells.data_setData, if_neg (hne p hp)]
    · unfold setValue
      rw [Cells.data_setData, if_pos rfl]
  intro j w
  rw [← hinsert j w, FiniteMap.lookup_insert_if, FiniteMap.lookup_insert_if,
    FiniteMap.lookup_erase_if]
  split_ifs <;> rfl

/-- The call keeps the array well formed and turns the contents into the map. -/
def Becomes (m : SparseMap) (a : IndexedArray) (mem : ArrayMemory) : Prop :=
  ∃ l, ArrayHolds mem a l ∧ Contents mem l m

theorem headD_cases (l : List ℕ) (d : ℕ) : l.headD d = d ∨ l.headD d ∈ l := by
  cases l with
  | nil => exact .inl rfl
  | cons x l => exact .inr List.mem_cons_self

theorem headD_mem (l₁ l₂ : List ℕ) (d : ℕ) : l₂.headD d ∈ d :: (l₁ ++ l₂) := by
  cases l₂ with
  | nil => exact List.mem_cons_self
  | cons x l => exact List.mem_cons_of_mem _ (List.mem_append_right _ List.mem_cons_self)

theorem getLastD_mem (l₁ l₂ : List ℕ) (d : ℕ) : l₁.getLastD d ∈ d :: (l₁ ++ l₂) :=
  List.mem_append_left l₂ List.getLastD_mem_cons

namespace ArrayHolds

theorem fresh_ne (h : ArrayHolds mem a l) (hp : p ∈ a.head :: l) : mem.fresh ≠ p := by
  rintro rfl
  exact h.fresh_notMem hp

/-- The neighbours of a place, which the new element is none of. -/
theorem spliced_before (h : ArrayHolds mem a (l₁ ++ l₂)) (i : ℤ) (v : Option CString) :
    Spliced (mem.createElement i v).2
      ((mem.createElement i v).2.addBefore (l₂.headD a.head) mem.fresh) (l₁.getLastD a.head)
      mem.fresh (l₂.headD a.head) :=
  addBefore_spliced (h.createElement i v).ring.split.2.2 (h.fresh_ne (getLastD_mem _ _ _))
    (h.fresh_ne (headD_mem _ _ _))

theorem spliced_after (h : ArrayHolds mem a (l₁ ++ l₂)) (i : ℤ) (v : Option CString) :
    Spliced (mem.createElement i v).2
      ((mem.createElement i v).2.addAfter (l₁.getLastD a.head) mem.fresh) (l₁.getLastD a.head)
      mem.fresh (l₂.headD a.head) :=
  addAfter_spliced (h.createElement i v).ring.split.2.2 (h.fresh_ne (getLastD_mem _ _ _))
    (h.fresh_ne (headD_mem _ _ _))

end ArrayHolds

/-- Away from the end of the list `max_index` stays. -/
theorem insert_inside (h : ArrayHolds mem a (l₁ ++ l₂)) (hm : Contents mem (l₁ ++ l₂) m)
    (hrange : 0 ≤ i ∧ i ≤ arrayindMax) (hbelow : ∀ p ∈ l₁, mem.elementIndex p < i)
    (habove : ∀ p ∈ l₂, i < mem.elementIndex p) (hle : i ≤ a.maxIndex)
    (hsplice : Spliced (mem.createElement i v).2 mem' (l₁.getLastD a.head) mem.fresh
      (l₂.headD a.head)) :
    Becomes (m.insert i v) { a with numElements := a.numElements + 1, lastref := mem.fresh }
      mem' := by
  have hne : l₂ ≠ [] := by
    rintro rfl
    have hgreatest := h.greatest
    rw [List.append_nil] at h hgreatest
    rcases List.eq_nil_or_concat' l₁ with rfl | ⟨l₃, y, rfl⟩
    · change a.maxIndex = -1 at hgreatest
      omega
    · rw [List.map_append, List.map_singleton, List.getLastD_concat] at hgreatest
      have hlt := hbelow y (List.mem_append_right _ (List.mem_singleton_self _))
      omega
  obtain ⟨hholds, hcontents⟩ := insert_between h hm hrange hbelow habove hsplice
  rw [if_neg hne] at hholds
  exact ⟨_, hholds, hcontents⟩

open IndexedArray in
theorem insert_spec (h : ArrayHolds mem a l) (hm : Contents mem l m)
    (hrange : 0 ≤ i ∧ i ≤ arrayindMax) (v : Option CString) :
    ∃ a' mem', a.insert mem i v = some (0, a', mem') ∧ Becomes (m.insert i v) a' mem' := by
  have hcreated := h.createElement i v
  have hfresh : (mem.createElement i v).1 = mem.fresh := rfl
  have hne : ∀ p ∈ l, p ≠ mem.fresh := fun p hp =>
    (h.fresh_ne (List.mem_cons_of_mem _ hp)).symm
  unfold IndexedArray.insert
  dsimp only
  rw [hfresh]
  split_ifs with hend hfront
  · rw [← List.append_nil l] at h hm
    obtain ⟨hholds, hcontents⟩ := insert_between h hm hrange
      (fun p hp => Int.lt_of_le_of_lt (h.index_le_max (List.mem_append_left _ hp)) hend)
      (fun p hp => by cases hp) (h.spliced_before i v)
    rw [if_pos rfl] at hholds
    exact ⟨_, _, rfl, _, hholds, hcontents⟩
  · have habove : ∀ p ∈ l, i < mem.elementIndex p := by
      intro p hp
      have hle := hcreated.first_le_index hp
      rw [elementIndex_createElement (hne p hp)] at hle
      omega
    have hold : ArrayHolds mem a ([] ++ l) := h
    exact ⟨_, _, rfl, insert_inside hold hm hrange (fun p hp => by cases hp) habove
      (Int.not_lt.mp hend) (hold.spliced_after i v)⟩
  · have hempty : a.empty = false := by
      rw [Bool.eq_false_iff]
      intro hempty
      have hmax := h.greatest
      rw [h.empty_iff.mp hempty] at hmax
      change a.maxIndex = -1 at hmax
      omega
    have hout : a.outside (mem.createElement i v).2 i = false := by
      unfold outside
      rw [decide_eq_false hend, decide_eq_false hfront]
      rfl
    obtain ⟨start, forw, r, hstart, hloop, hresult⟩ := insertPlace_spec hcreated hout hempty
    have hindex : ∀ p ∈ l, (mem.createElement i v).2.elementIndex p = mem.elementIndex p :=
      fun p hp => elementIndex_createElement (hne p hp)
    rw [hstart]
    dsimp only
    rw [hloop]
    cases r with
    | replace ae =>
        obtain ⟨hae, hfound⟩ := hresult
        obtain ⟨l₁, l₂, rfl⟩ := List.append_of_mem hae
        have hvalue : (mem.createElement i v).2.elementValue mem.fresh = v := by
          unfold elementValue
          rw [data_createElement]
        have hm' : Contents (mem.createElement i v).2 (l₁ ++ ae :: l₂) m :=
          hm.congr_data fun p hp => by rw [cells_createElement (hne p hp)]
        obtain ⟨hholds, hcontents⟩ := insert_replace hcreated hm' v
        rw [hfound] at hcontents
        rw [hvalue]
        exact ⟨_, _, rfl, _, hholds, hcontents⟩
    | before ae =>
        obtain ⟨l₁, l₂, rfl, hbelow, habove⟩ := hresult
        refine ⟨_, _, rfl, insert_inside h hm hrange (fun p hp => ?_) (fun p hp => ?_)
          (Int.not_lt.mp hend) (h.spliced_before i v)⟩
        · rw [← hindex p (List.mem_append_left _ hp)]
          exact hbelow p hp
        · rw [← hindex p (List.mem_append_right _ hp)]
          exact habove p hp
    | after ae =>
        obtain ⟨l₁, l₂, rfl, hbelow, habove⟩ := hresult
        have hsplit : l₁ ++ ae :: l₂ = (l₁ ++ [ae]) ++ l₂ := by rw [List.append_assoc]; rfl
        rw [hsplit] at h hm hindex
        have hspliced := h.spliced_after i v
        rw [List.getLastD_concat] at hspliced
        refine ⟨_, _, rfl, insert_inside h hm hrange (fun p hp => ?_) (fun p hp => ?_)
          (Int.not_lt.mp hend) (by rw [List.getLastD_concat]; exact hspliced)⟩
        · rw [← hindex p (List.mem_append_left _ hp)]
          exact hbelow p hp
        · rw [← hindex p (List.mem_append_right _ hp)]
          exact habove p hp
    | problem => exact hresult.elim

/-! ## Removing and looking up -/

/-- What a pointer to an element that a call returns points to. -/
def ArrayMemory.elementAt (mem : ArrayMemory) (ae : ℕ) : Option ArrayElement :=
  if ae = 0 then none else some (mem.cells ae).data

theorem lookup_outside (h : ArrayHolds mem a l) (hm : Contents mem l m)
    (hout : (a.empty || a.outside mem i) = true) : m.lookup i = none := by
  rw [hm.lookup_eq_none]
  rintro p hp rfl
  have hmax := h.index_le_max hp
  have hfirst := h.first_le_index hp
  rcases Bool.or_eq_true_iff.mp hout with hempty | hout
  · rw [h.empty_iff] at hempty
    rw [hempty] at hp
    cases hp
  · unfold IndexedArray.outside at hout
    simp only [Bool.or_eq_true, decide_eq_true_eq] at hout
    omega

theorem erase_of_lookup_none (hm : Contents mem l m) (hnone : m.lookup i = none) :
    Contents mem l (m.erase i) := by
  intro j w
  rw [← hm j w, FiniteMap.lookup_erase_if]
  split_ifs with hj
  · rw [hj, hnone]
    simp
  · rfl

theorem remove_links (h : ArrayHolds mem a (l₁ ++ x :: l₂))
    (hmem : mem' = (mem.setPrev (l₂.headD a.head) (l₁.getLastD a.head)).setNext
      (l₁.getLastD a.head) (l₂.headD a.head)) :
    mem'.elementForw x = l₂.headD a.head ∧ mem'.elementBack x = l₁.getLastD a.head ∧
      (∀ p, (mem'.cells p).data = (mem.cells p).data) ∧
      ∀ c, (c = 0 ∨ c ∈ l₁ ++ l₂) → ArrayHolds mem'
        { a with
          maxIndex := if l₂ = [] then mem.elementIndex (l₁.getLastD a.head) else a.maxIndex
          numElements := a.numElements - 1
          lastref := c } (l₁ ++ l₂) := by
  have hforw := h.elementForw_at
  have hback := h.elementBack_at
  unfold elementForw at hforw
  unfold elementBack at hback
  have hdata : ∀ p, (mem'.cells p).data = (mem.cells p).data := by
    intro p
    rw [hmem]
    simp
  refine ⟨?_, ?_, hdata, fun c hc => ?_⟩
  · unfold elementForw
    rw [hmem, cells_setNext, Cells.next_setNext, cells_setPrev, Cells.next_setPrev, hforw]
    split_ifs <;> rfl
  · unfold elementBack
    rw [hmem, cells_setNext, Cells.prev_setNext, cells_setPrev, Cells.prev_setPrev, hback]
    split_ifs <;> rfl
  · refine h.unlink hc ⟨?_, ?_⟩ ?_ ?_ hdata ?_
    · rw [hmem]
      simp
    · rw [hmem]
      simp
    · intro y hy
      rw [hmem, cells_setNext, Cells.next_setNext, if_neg hy, cells_setPrev, Cells.next_setPrev]
    · intro y hy
      rw [hmem, cells_setNext, Cells.prev_setNext, cells_setPrev, Cells.prev_setPrev, if_neg hy]
    · rw [hmem]
      rfl

/-- Only the last element has the greatest index. -/
theorem eq_maxIndex_iff (h : ArrayHolds mem a (l₁ ++ x :: l₂)) :
    mem.elementIndex x = a.maxIndex ↔ l₂ = [] := by
  constructor
  · intro hmax
    cases l₂ with
    | nil => rfl
    | cons y l₂ =>
        have hy : y ∈ l₁ ++ x :: y :: l₂ :=
          List.mem_append_right l₁ (List.mem_cons_of_mem x List.mem_cons_self)
        have hlt := h.index_lt.2 y List.mem_cons_self
        have hle := h.index_le_max hy
        omega
  · rintro rfl
    rw [h.greatest, List.map_append, List.map_singleton, List.getLastD_concat]

theorem remove_spec (h : ArrayHolds mem a l) (hm : Contents mem l m) (i : ℤ) :
    ∃ ae a' mem', a.remove mem i = some (ae, a', mem') ∧ Becomes (m.erase i) a' mem' ∧
      mem'.elementAt ae = (m.lookup i).map (⟨i, ·⟩) := by
  unfold IndexedArray.remove
  by_cases hout : (a.empty || a.outside mem i) = true
  · have hnone := lookup_outside h hm hout
    rw [if_pos hout]
    refine ⟨0, a, mem, rfl, ⟨l, h, erase_of_lookup_none hm hnone⟩, ?_⟩
    rw [hnone]
    rfl
  · rw [if_neg hout]
    obtain ⟨hempty, hout⟩ := Bool.or_eq_false_iff.mp (Bool.eq_false_iff.mpr hout)
    obtain ⟨start, forw, r, hstart, hloop, hresult⟩ := IndexedArray.search_spec h hout hempty
    rw [hstart]
    dsimp only
    rw [hloop]
    obtain ⟨found, ae⟩ := r
    cases found with
    | false =>
        have hnone := hm.lookup_eq_none.mpr hresult.2
        refine ⟨0, a, mem, rfl, ⟨l, h, erase_of_lookup_none hm hnone⟩, ?_⟩
        rw [hnone]
        rfl
    | true =>
        obtain ⟨hae, rfl⟩ := hresult
        obtain ⟨l₁, l₂, rfl⟩ := List.append_of_mem hae
        dsimp only
        have hsame : (mem.setPrev (mem.elementForw ae) (mem.elementBack ae)).elementBack ae =
            mem.elementBack ae := by
          unfold elementBack
          rw [cells_setPrev, Cells.prev_setPrev]
          split_ifs <;> rfl
        have hsame' : (mem.setPrev (mem.elementForw ae) (mem.elementBack ae)).elementForw ae =
            mem.elementForw ae := by
          unfold elementForw
          rw [cells_setPrev, Cells.next_setPrev]
        rw [hsame, hsame', h.elementForw_at, h.elementBack_at]
        generalize hmem : (mem.setPrev (l₂.headD a.head) (l₁.getLastD a.head)).setNext
          (l₁.getLastD a.head) (l₂.headD a.head) = mem'
        obtain ⟨hforw, hback, hdata, hholds⟩ := remove_links h hmem.symm
        have hcontents : Contents mem' (l₁ ++ l₂) (m.erase (mem.elementIndex ae)) :=
          hm.erase (fun p _ => hdata p) h.index_ne
        have hpos := (h.inUse ae (List.mem_cons_of_mem _ hae)).1
        have helement : mem'.elementAt ae =
            (m.lookup (mem.elementIndex ae)).map (⟨mem.elementIndex ae, ·⟩) := by
          unfold elementAt
          rw [if_neg (Nat.ne_of_gt hpos), hdata, hm.lookup_index hae]
          rfl
        rw [hforw, hback, elementIndex_eq hdata]
        refine ⟨ae, _, mem', rfl, ⟨l₁ ++ l₂, ?_, hcontents⟩, helement⟩
        simp only [eq_maxIndex_iff h]
        apply hholds
        split_ifs with hnext hprev
        · exact .inr (List.mem_append_right _ ((headD_cases l₂ a.head).resolve_left hnext))
        · refine .inr (List.mem_append_left _ ?_)
          exact (List.mem_cons.mp List.getLastD_mem_cons).resolve_left hprev
        · exact .inl rfl

theorem reference_spec (h : ArrayHolds mem a l) (hm : Contents mem l m) (i : ℤ) :
    ∃ v a', a.reference mem i = some (v, a') ∧ Becomes m a' mem ∧ v = (m.lookup i).join := by
  unfold IndexedArray.reference
  by_cases hout : (a.empty || a.outside mem i) = true
  · rw [if_pos hout]
    exact ⟨none, a, rfl, ⟨l, h, hm⟩, by rw [lookup_outside h hm hout]; rfl⟩
  · rw [if_neg hout]
    obtain ⟨hempty, hout⟩ := Bool.or_eq_false_iff.mp (Bool.eq_false_iff.mpr hout)
    obtain ⟨start, forw, r, hstart, hloop, hresult⟩ := IndexedArray.search_spec h hout hempty
    rw [hstart]
    dsimp only
    rw [hloop]
    obtain ⟨found, ae⟩ := r
    cases found with
    | false =>
        obtain ⟨hae, hnone⟩ := hresult
        refine ⟨none, _, rfl, ⟨l, h.setCache (.inr hae), hm⟩, ?_⟩
        rw [hm.lookup_eq_none.mpr hnone]
        rfl
    | true =>
        obtain ⟨hae, rfl⟩ := hresult
        refine ⟨_, _, rfl, ⟨l, h.setCache (.inr hae), hm⟩, ?_⟩
        rw [hm.lookup_index hae]
        rfl

/-! ## Flushing and copying -/

theorem cleared_holds (hhead : mem.elementIndex a.head = -1)
    (huse : 0 < a.head ∧ a.head < mem.fresh) :
    ArrayHolds (a.cleared mem).2 { (a.cleared mem).1 with lastref := 0 } [] := by
  unfold IndexedArray.cleared
  constructor
  · refine ⟨List.nodup_singleton _, .cons_cons ⟨?_, ?_⟩ (.singleton _)⟩
    · simp
    · simp
  · unfold elementIndex at hhead ⊢
    simpa using hhead
  · intro p hp
    obtain rfl := List.mem_singleton.mp hp
    exact huse
  · exact .nil
  · intro p hp
    cases hp
  · rfl
  · rfl
  · exact .inl rfl

theorem contents_nil (h : ∀ i, m.lookup i = none) : Contents mem [] m := by
  intro i v
  rw [h i]
  simp

theorem flush_spec (h : ArrayHolds mem a l) : Becomes ∅ (a.flush mem).1 (a.flush mem).2 :=
  ⟨[], cleared_holds h.headIndex (h.inUse _ List.mem_cons_self), contents_nil fun _ => Finmap.lookup_empty _⟩

theorem arrayCreate_holds (hpos : 0 < mem.fresh) :
    ArrayHolds (arrayCreate mem).2 (arrayCreate mem).1 [] := by
  have hfresh : (mem.createElement (-1) none).1 = mem.fresh := rfl
  unfold arrayCreate
  dsimp only
  rw [hfresh]
  constructor
  · refine ⟨List.nodup_singleton _, .cons_cons ⟨?_, ?_⟩ (.singleton _)⟩
    · simp
    · simp
  · unfold elementIndex
    rw [cells_setPrev, Cells.data_setPrev, cells_setNext, Cells.data_setNext, data_createElement]
  · intro p hp
    obtain rfl := List.mem_singleton.mp hp
    exact ⟨hpos, Nat.lt_succ_self _⟩
  · exact .nil
  · intro p hp
    cases hp
  · rfl
  · rfl
  · exact .inl rfl

theorem arrayCreate_cells (hp : p ≠ mem.fresh) : (arrayCreate mem).2.cells p = mem.cells p :=
  (Function.update_of_ne hp _ _).trans
    ((Function.update_of_ne hp _ _).trans (cells_createElement hp))

theorem ArrayHolds.arrayCreate (h : ArrayHolds mem a l) : ArrayHolds (arrayCreate mem).2 a l := by
  have hsame : ∀ p ∈ a.head :: l, (Rash.arrayCreate mem).2.cells p = mem.cells p := fun p hp =>
    arrayCreate_cells (h.fresh_ne hp).symm
  refine h.frame (Nat.le_succ _) (fun p hp => ?_) (fun p hp => ?_) fun p hp => ?_
  · rw [hsame p hp]
  · rw [hsame p hp]
  · unfold elementIndex
    rw [hsame p hp]

/-- The counters of a full copy are those of the array. -/
theorem IndexedArray.PartHolds.full {a2 : IndexedArray} {l' : List ℕ} (h : ArrayHolds mem a l)
    (hpart : IndexedArray.PartHolds mem a2 l') (hmax : a2.maxIndex = a.maxIndex)
    (hcount : a2.numElements = a.numElements)
    (hdata : l'.map (fun p => (mem.cells p).data) = l.map fun p => (mem.cells p).data) :
    ArrayHolds mem a2 l' := by
  obtain ⟨g, c, hpart⟩ := hpart
  have hindex : l'.map mem.elementIndex = l.map mem.elementIndex := by
    have hboth := congrArg (List.map ArrayElement.ind) hdata
    rw [List.map_map, List.map_map] at hboth
    exact hboth
  have hlength : l'.length = l.length := by
    simpa using congrArg List.length hdata
  refine { hpart with count := ?_, greatest := ?_ }
  · rw [hcount, h.count, hlength]
  · rw [hmax, h.greatest, hindex]

theorem copy_spec (h : ArrayHolds mem a l) (hm : Contents mem l m) :
    ∃ a2 mem', a.copy mem = some (a2, mem') ∧ Becomes m a2 mem' ∧ Becomes m a mem' := by
  have hpos := h.inUse _ List.mem_cons_self
  have hnew : ArrayHolds (arrayCreate mem).2 (arrayCreate mem).1 [] :=
    arrayCreate_holds (Nat.lt_trans hpos.1 hpos.2)
  have hold : ArrayHolds (arrayCreate mem).2 a ([] ++ l) := h.arrayCreate
  have hkept : ∀ p ∈ l, ((arrayCreate mem).2.cells p).data = (mem.cells p).data := fun p hp => by
    rw [arrayCreate_cells (h.fresh_ne (List.mem_cons_of_mem _ hp)).symm]
  have hpart : IndexedArray.PartHolds (arrayCreate mem).2
      { (arrayCreate mem).1 with maxIndex := a.maxIndex, numElements := a.numElements } [] :=
    ⟨_, _, hnew⟩
  have hapart : ∀ p ∈ [mem.fresh], p ∉ a.head :: ([] ++ l) := by
    intro p hp
    obtain rfl := List.mem_singleton.mp hp
    exact h.fresh_notMem
  have hfuel : l.length < (arrayCreate mem).2.fresh :=
    Nat.lt_of_succ_lt hold.length_lt_fresh
  obtain ⟨a2, mem', l', hloop, hpart', hmax, hcount, hold', hdata, hdata'⟩ :=
    IndexedArray.copyLoop_spec hold hpart rfl hapart hfuel
  have hsame : l'.map (fun p => (mem'.cells p).data) = l.map fun p => (mem'.cells p).data :=
    hdata'.trans (List.map_congr_left fun p hp => (hdata p hp).symm)
  have hm' : Contents mem' l m := hm.congr_data fun p hp => (hdata p hp).trans (hkept p hp)
  refine ⟨a2, mem', ?_, ⟨l', hpart'.full hold' hmax hcount hsame, hm'.of_map hsame⟩, l, hold', hm'⟩
  unfold IndexedArray.copy
  have hforw : (arrayCreate mem).2.elementForw a.head = l.headD a.head := hold.elementForw_head
  dsimp only
  rw [hforw]
  exact hloop

end Rash
