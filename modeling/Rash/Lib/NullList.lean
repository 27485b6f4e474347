import Mathlib.Data.Nat.Notation
import Mathlib.Data.List.Basic

/-!
# Singly linked lists

The list of the cells that follow each other from a head until the null cell is met.
-/

namespace NullList

variable {ι : Type*}

def Linked (null : ι) (next : ι → ι) : List ι → ι → Prop
  | [], head => head = null
  | i :: l, head => head = i ∧ i ≠ null ∧ Linked null next l (next i)

variable {null head i : ι} {next next' : ι → ι} {l before old : List ι}

namespace Linked

theorem congr (h : Linked null next l head) (hsame : ∀ i ∈ l, next' i = next i) :
    Linked null next' l head := by
  induction l generalizing head with
  | nil => exact h
  | cons i l ih =>
      obtain ⟨hhead, hi, hl⟩ := h
      refine ⟨hhead, hi, ?_⟩
      rw [hsame i List.mem_cons_self]
      exact ih hl fun j hj => hsame j (List.mem_cons_of_mem i hj)

theorem eq_nil (h : Linked null next l null) : l = [] := by
  cases l with
  | nil => rfl
  | cons i l => exact absurd h.1.symm h.2.1

theorem head_null_iff (h : Linked null next l head) : head = null ↔ l = [] := by
  constructor
  · rintro rfl
    exact h.eq_nil
  · rintro rfl
    exact h

theorem eq_cons (h : Linked null next l head) (hhead : head ≠ null) :
    ∃ l', l = head :: l' ∧ Linked null next l' (next head) := by
  cases l with
  | nil => exact absurd h hhead
  | cons i l =>
      obtain ⟨rfl, _, hl⟩ := h
      exact ⟨l, rfl, hl⟩

/-- What follows a cell of the list. -/
theorem behind (h : Linked null next (before ++ i :: l) head) :
    i ≠ null ∧ Linked null next l (next i) := by
  induction before generalizing head with
  | nil => exact h.2
  | cons j before ih => exact ih h.2.2

/-- A cell's link is turned to another list. -/
theorem splice (h : Linked null next (before ++ i :: old) head)
    (hsame : ∀ j ∈ before, next' j = next j) (hl : Linked null next' l (next' i)) :
    Linked null next' (before ++ i :: l) head := by
  induction before generalizing head with
  | nil => exact ⟨h.1, h.2.1, hl⟩
  | cons j before ih =>
      obtain ⟨hhead, hj, hrest⟩ := h
      refine ⟨hhead, hj, ?_⟩
      rw [hsame j List.mem_cons_self]
      exact ih hrest fun k hk => hsame k (List.mem_cons_of_mem j hk)

end Linked

end NullList
