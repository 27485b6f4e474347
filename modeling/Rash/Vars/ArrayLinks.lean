import Mathlib.Data.List.Perm.Subperm
import Rash.Vars.Arrays

/-!
# The list of an indexed array

What the well-formed arrays are, and the list after an element has come in, has gone or has a
new index or value.
-/

namespace Rash

open ArrayMemory

/-- `INTMAX_MAX` -/
def arrayindMax : ℤ := 2 ^ 63 - 1

/-- The elements of the list, in its order, are those of the array. -/
structure ArrayHolds (mem : ArrayMemory) (a : IndexedArray) (l : List ℕ) : Prop where
  ring : Cells.Ring mem.cells a.head l
  headIndex : mem.elementIndex a.head = -1
  inUse : ∀ p ∈ a.head :: l, 0 < p ∧ p < mem.fresh
  increasing : (l.map mem.elementIndex).Pairwise (· < ·)
  inRange : ∀ p ∈ l, 0 ≤ mem.elementIndex p ∧ mem.elementIndex p ≤ arrayindMax
  count : a.numElements = l.length
  greatest : a.maxIndex = (l.map mem.elementIndex).getLastD (-1)
  cache : a.lastref = 0 ∨ a.lastref ∈ l

/-- What the macros do to the links: `new` comes between `p` and `q`. -/
structure Spliced (mem mem' : ArrayMemory) (p new q : ℕ) : Prop where
  before : mem'.cells.Linked p new
  behind : mem'.cells.Linked new q
  next : ∀ x, x ≠ p → x ≠ new → (mem'.cells x).next = (mem.cells x).next
  prev : ∀ x, x ≠ q → x ≠ new → (mem'.cells x).prev = (mem.cells x).prev
  data : ∀ x, (mem'.cells x).data = (mem.cells x).data
  fresh : mem'.fresh = mem.fresh

variable {mem mem' : ArrayMemory} {a : IndexedArray} {l l₁ l₂ : List ℕ} {p q x new : ℕ}

theorem addBefore_spliced (h : mem.cells.Linked p q) (hp : new ≠ p) (hq : new ≠ q) :
    Spliced mem (mem.addBefore q new) p new q := by
  obtain ⟨-, hprev⟩ := h
  constructor
  · simp [addBefore, elementBack, Cells.Linked, hprev, hp.symm, hq]
  · simp [addBefore, elementBack, Cells.Linked]
  · intro x hxp hxnew
    simp [addBefore, elementBack, hprev, hxp, hxnew]
  · intro x hxq hxnew
    simp [addBefore, elementBack, hprev, hxq, hxnew]
  · intro x
    simp [addBefore]
  · rfl

theorem addAfter_spliced (h : mem.cells.Linked p q) (hp : new ≠ p) (hq : new ≠ q) :
    Spliced mem (mem.addAfter p new) p new q := by
  obtain ⟨hnext, -⟩ := h
  constructor
  · simp [addAfter, elementForw, Cells.Linked]
  · simp [addAfter, elementForw, Cells.Linked, hnext, hp, hq.symm]
  · intro x hxp hxnew
    simp [addAfter, elementForw, hnext, hxp, hxnew]
  · intro x hxq hxnew
    simp [addAfter, elementForw, hnext, hxq, hxnew]
  · intro x
    simp [addAfter]
  · rfl

theorem elementIndex_eq (h : ∀ x, (mem'.cells x).data = (mem.cells x).data) :
    mem'.elementIndex = mem.elementIndex := by
  funext x
  unfold elementIndex
  rw [h]

namespace ArrayHolds

theorem map_append_index (l₁ l₂ : List ℕ) (f : ℕ → ℤ) :
    (l₁ ++ new :: l₂).map f = l₁.map f ++ f new :: l₂.map f := by
  rw [List.map_append, List.map_cons]

/-- A new element at its place. -/
theorem splice (h : ArrayHolds mem a (l₁ ++ l₂)) (hnew : new ∉ a.head :: (l₁ ++ l₂))
    (huse : 0 < new ∧ new < mem.fresh)
    (hrange : 0 ≤ mem.elementIndex new ∧ mem.elementIndex new ≤ arrayindMax)
    (hbelow : ∀ p ∈ l₁, mem.elementIndex p < mem.elementIndex new)
    (habove : ∀ p ∈ l₂, mem.elementIndex new < mem.elementIndex p)
    (hsplice : Spliced mem mem' (l₁.getLastD a.head) new (l₂.headD a.head)) :
    ArrayHolds mem'
      { a with
        maxIndex := if l₂ = [] then mem.elementIndex new else a.maxIndex
        numElements := a.numElements + 1
        lastref := new } (l₁ ++ new :: l₂) := by
  have hindex := elementIndex_eq hsplice.data
  have hapart : ∀ x ∈ a.head :: (l₁ ++ l₂), x ≠ new := by
    rintro x hx rfl
    exact hnew hx
  constructor
  · exact h.ring.splice hnew hsplice.before hsplice.behind
      (fun x hx hne => hsplice.next x hne (hapart x hx))
      (fun x hx hne => hsplice.prev x hne (hapart x hx))
  · rw [hindex]
    exact h.headIndex
  · rw [hsplice.fresh]
    intro p hp
    rw [← List.cons_append, List.mem_append] at hp
    rcases hp with hp | hp
    · exact h.inUse p (List.mem_append_left l₂ hp)
    · rcases List.mem_cons.mp hp with rfl | hp
      · exact huse
      · exact h.inUse p (List.mem_cons_of_mem _ (List.mem_append_right _ hp))
  · have hsorted := h.increasing
    rw [hindex, map_append_index]
    rw [List.map_append, List.pairwise_append] at hsorted
    obtain ⟨hfirst, hsecond, hcross⟩ := hsorted
    rw [List.pairwise_append, List.pairwise_cons]
    refine ⟨hfirst, ⟨?_, hsecond⟩, ?_⟩
    · intro i hi
      obtain ⟨p, hp, rfl⟩ := List.mem_map.mp hi
      exact habove p hp
    · intro i hi j hj
      rcases List.mem_cons.mp hj with rfl | hj
      · obtain ⟨p, hp, rfl⟩ := List.mem_map.mp hi
        exact hbelow p hp
      · exact hcross i hi j hj
  · rw [hindex]
    intro p hp
    rw [List.mem_append, List.mem_cons] at hp
    rcases hp with hp | rfl | hp
    · exact h.inRange p (List.mem_append_left _ hp)
    · exact hrange
    · exact h.inRange p (List.mem_append_right _ hp)
  · have hcount := h.count
    simp only [List.length_append, List.length_cons] at hcount ⊢
    omega
  · rw [hindex, map_append_index]
    have hgreatest := h.greatest
    dsimp only
    split_ifs with hlast
    · subst hlast
      rw [List.map_nil, List.getLastD_concat]
    · obtain ⟨l₃, y, rfl⟩ := (List.eq_nil_or_concat' l₂).resolve_left hlast
      rw [← List.append_assoc, List.map_append, List.map_singleton,
        List.getLastD_concat] at hgreatest
      rw [List.map_append, List.map_singleton, ← List.cons_append, ← List.append_assoc,
        List.getLastD_concat]
      exact hgreatest
  · exact .inr (List.mem_append_right _ List.mem_cons_self)

/-- The element between two others is taken out; `cache` is what the array keeps for the next
search. -/
theorem unlink (h : ArrayHolds mem a (l₁ ++ x :: l₂)) {cache : ℕ}
    (hcache : cache = 0 ∨ cache ∈ l₁ ++ l₂)
    (hlink : mem'.cells.Linked (l₁.getLastD a.head) (l₂.headD a.head))
    (hnext : ∀ y, y ≠ l₁.getLastD a.head → (mem'.cells y).next = (mem.cells y).next)
    (hprev : ∀ y, y ≠ l₂.headD a.head → (mem'.cells y).prev = (mem.cells y).prev)
    (hdata : ∀ y, (mem'.cells y).data = (mem.cells y).data) (hfresh : mem'.fresh = mem.fresh) :
    ArrayHolds mem'
      { a with
        maxIndex := if l₂ = [] then mem.elementIndex (l₁.getLastD a.head) else a.maxIndex
        numElements := a.numElements - 1
        lastref := cache } (l₁ ++ l₂) := by
  have hindex := elementIndex_eq hdata
  have hsub : ∀ p ∈ l₁ ++ l₂, p ∈ l₁ ++ x :: l₂ := fun p hp =>
    (List.mem_append.mp hp).elim (List.mem_append_left _)
      fun hp => List.mem_append_right _ (List.mem_cons_of_mem _ hp)
  constructor
  · exact h.ring.unlink hlink (fun y _ => hnext y) (fun y _ => hprev y)
  · rw [hindex]
    exact h.headIndex
  · rw [hfresh]
    intro p hp
    rcases List.mem_cons.mp hp with rfl | hp
    · exact h.inUse _ List.mem_cons_self
    · exact h.inUse p (List.mem_cons_of_mem _ (hsub p hp))
  · rw [hindex]
    exact h.increasing.sublist (((List.sublist_cons_self x l₂).append_left l₁).map _)
  · rw [hindex]
    exact fun p hp => h.inRange p (hsub p hp)
  · have hcount := h.count
    simp only [List.length_append, List.length_cons] at hcount ⊢
    omega
  · rw [hindex]
    have hgreatest := h.greatest
    dsimp only
    split_ifs with hlast
    · subst hlast
      rw [List.append_nil, ← h.headIndex, List.getLastD_map]
    · obtain ⟨l₃, y, rfl⟩ := (List.eq_nil_or_concat' l₂).resolve_left hlast
      rw [← List.append_assoc, List.map_append, List.map_singleton, List.getLastD_concat]
      rw [← List.cons_append, ← List.append_assoc, List.map_append, List.map_singleton,
        List.getLastD_concat] at hgreatest
      exact hgreatest
  · exact hcache

/-- A change of values and of what no element of the array uses. -/
theorem frame (h : ArrayHolds mem a l) (hfresh : mem.fresh ≤ mem'.fresh)
    (hnext : ∀ x ∈ a.head :: l, (mem'.cells x).next = (mem.cells x).next)
    (hprev : ∀ x ∈ a.head :: l, (mem'.cells x).prev = (mem.cells x).prev)
    (hindex : ∀ x ∈ a.head :: l, mem'.elementIndex x = mem.elementIndex x) :
    ArrayHolds mem' a l := by
  have hmap : l.map mem'.elementIndex = l.map mem.elementIndex :=
    List.map_congr_left fun x hx => hindex x (List.mem_cons_of_mem _ hx)
  constructor
  · exact h.ring.frame hnext hprev
  · rw [hindex _ List.mem_cons_self]
    exact h.headIndex
  · exact fun p hp => ⟨(h.inUse p hp).1, Nat.lt_of_lt_of_le (h.inUse p hp).2 hfresh⟩
  · rw [hmap]
    exact h.increasing
  · intro p hp
    rw [hindex p (List.mem_cons_of_mem _ hp)]
    exact h.inRange p hp
  · exact h.count
  · rw [hmap]
    exact h.greatest
  · exact h.cache

theorem setCache (h : ArrayHolds mem a l) {cache : ℕ} (hcache : cache = 0 ∨ cache ∈ l) :
    ArrayHolds mem { a with lastref := cache } l :=
  { h with cache := hcache }

theorem fresh_notMem (h : ArrayHolds mem a l) : mem.fresh ∉ a.head :: l :=
  fun hbad => Nat.lt_irrefl _ (h.inUse _ hbad).2

/-- A walk around the list ends before the bound. -/
theorem length_lt_fresh (h : ArrayHolds mem a l) : l.length + 1 < mem.fresh := by
  have hsub : (a.head :: l) ⊆ List.range' 1 (mem.fresh - 1) := by
    intro p hp
    obtain ⟨hpos, hlt⟩ := h.inUse p hp
    rw [List.mem_range'_1]
    omega
  have hlength := (List.subperm_of_subset h.ring.nodup hsub).length_le
  have hpos := (h.inUse a.head List.mem_cons_self).2
  rw [List.length_range', List.length_cons] at hlength
  omega

end ArrayHolds

/-! ## New elements -/

namespace ArrayMemory

variable {ind : ℤ} {value : Option CString}

theorem cells_createElement (hx : x ≠ mem.fresh) :
    (mem.createElement ind value).2.cells x = mem.cells x := Function.update_of_ne hx _ _

theorem elementIndex_createElement (hx : x ≠ mem.fresh) :
    (mem.createElement ind value).2.elementIndex x = mem.elementIndex x := by
  unfold elementIndex
  rw [cells_createElement hx]

theorem data_createElement :
    ((mem.createElement ind value).2.cells mem.fresh).data = ⟨ind, value⟩ := by
  unfold createElement
  dsimp only
  rw [Function.update_self]

end ArrayMemory

theorem ArrayHolds.createElement (h : ArrayHolds mem a l) (ind : ℤ) (value : Option CString) :
    ArrayHolds (mem.createElement ind value).2 a l := by
  have hne : ∀ x ∈ a.head :: l, x ≠ mem.fresh := by
    rintro x hx rfl
    exact h.fresh_notMem hx
  refine h.frame (Nat.le_succ _) ?_ ?_ ?_
  · exact fun x hx => by rw [cells_createElement (hne x hx)]
  · exact fun x hx => by rw [cells_createElement (hne x hx)]
  · exact fun x hx => elementIndex_createElement (hne x hx)

end Rash
