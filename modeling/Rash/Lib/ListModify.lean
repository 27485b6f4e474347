import Mathlib.Data.List.Forall2
import Mathlib.Data.List.Basic

/-!
# Changing one element of a list

How `List.modify` goes through append, `map` and a relation of two lists.
-/

namespace List

variable {α β : Type*}

theorem modify_append_of_lt {l m : List α} {i : ℕ} (h : i < l.length) (f : α → α) :
    (l ++ m).modify i f = l.modify i f ++ m := by
  induction l generalizing i with
  | nil => cases h
  | cons a l ih =>
      cases i with
      | zero => rfl
      | succ i =>
          rw [cons_append, modify_succ_cons, modify_succ_cons, cons_append,
            ih (Nat.lt_of_succ_lt_succ h)]

theorem modify_append_length (l m : List α) (a : α) (f : α → α) :
    (l ++ a :: m).modify l.length f = l ++ f a :: m := by
  induction l with
  | nil => rfl
  | cons b l ih => rw [cons_append, length_cons, modify_succ_cons, ih, cons_append]

theorem map_modify_comm {f : α → α} {g : β → β} {h : α → β} (hcomm : ∀ a, h (f a) = g (h a))
    (l : List α) (i : ℕ) : (l.modify i f).map h = (l.map h).modify i g := by
  induction l generalizing i with
  | nil => rw [modify_nil, map_nil, modify_nil]
  | cons a l ih =>
      cases i with
      | zero =>
          rw [map_cons, modify_zero_cons, modify_zero_cons, map_cons, hcomm]
      | succ i => rw [modify_succ_cons, map_cons, map_cons, modify_succ_cons, ih]

theorem Forall₂.modify {R : α → β → Prop} {l : List α} {m : List β} (h : Forall₂ R l m) {i : ℕ}
    {f : α → α} {g : β → β} (hfg : ∀ a b, l[i]? = some a → R a b → R (f a) (g b)) :
    Forall₂ R (l.modify i f) (m.modify i g) := by
  induction h generalizing i with
  | nil =>
      rw [modify_nil, modify_nil]
      exact .nil
  | cons hhead htail ih =>
      cases i with
      | zero =>
          rw [modify_zero_cons, modify_zero_cons]
          exact .cons (hfg _ _ rfl hhead) htail
      | succ i =>
          rw [modify_succ_cons, modify_succ_cons]
          exact .cons hhead (ih hfg)

end List
