import Mathlib.Data.Nat.Notation

/-!
# Scanning

A scanner reads a text from its front, piece by piece.  What it makes of a piece may depend on the
text behind and on the text ahead; it may stop, and else it takes one more than `k` symbols.
-/

namespace Scanning

variable {α P : Type*}

abbrev Scanner (α P : Type*) := List α → List α → Option (P × ℕ)

section

variable (turn : Scanner α P)

def scanFor : ℕ → List α → List α → List P
  | 0, _, _ => []
  | _ + 1, _, [] => []
  | n + 1, before, x :: s =>
      match turn before (x :: s) with
      | none => []
      | some (p, k) => p :: scanFor n (before ++ x :: s.take k) (s.drop k)

def scan (before s : List α) : List P := scanFor turn s.length before s

end

variable {turn : Scanner α P} {before s t e : List α} {x : α} {p : P} {k n m : ℕ}

theorem scanFor_congr (hn : s.length ≤ n) (hm : s.length ≤ m) :
    scanFor turn n before s = scanFor turn m before s := by
  induction n generalizing m before s with
  | zero =>
      obtain rfl := List.length_eq_zero_iff.mp (Nat.le_zero.mp hn)
      cases m <;> rfl
  | succ n ih =>
      cases s with
      | nil => cases m <;> rfl
      | cons x s =>
          obtain ⟨m, rfl⟩ : ∃ l, m = l + 1 := ⟨m - 1, by rw [List.length_cons] at hm; omega⟩
          have hdrop : ∀ k, (s.drop k).length ≤ s.length := fun k => by
            rw [List.length_drop]
            exact Nat.sub_le _ _
          rw [scanFor, scanFor]
          cases turn before (x :: s) with
          | none => rfl
          | some q =>
              have hrest : scanFor turn n (before ++ x :: s.take q.2) (s.drop q.2) =
                  scanFor turn m (before ++ x :: s.take q.2) (s.drop q.2) := ih
                (Nat.le_trans (hdrop q.2) (Nat.le_of_succ_le_succ hn))
                (Nat.le_trans (hdrop q.2) (Nat.le_of_succ_le_succ hm))
              exact congrArg (q.1 :: ·) hrest

@[simp] theorem scan_nil : scan turn before [] = [] := rfl

theorem scan_stop (h : turn before (x :: s) = none) : scan turn before (x :: s) = [] := by
  rw [scan, List.length_cons, scanFor, h]

theorem scan_turn (h : turn before (x :: s) = some (p, k)) :
    scan turn before (x :: s) = p :: scan turn (before ++ x :: s.take k) (s.drop k) := by
  have hdrop : (s.drop k).length ≤ s.length := by
    rw [List.length_drop]
    exact Nat.sub_le _ _
  rw [scan, List.length_cons, scanFor, h]
  exact congrArg (p :: ·) (scanFor_congr hdrop (Nat.le_refl _))

/-- The piece for a part of the text in front of the rest. -/
theorem scan_append (h : turn before (x :: e ++ t) = some (p, e.length)) :
    scan turn before (x :: e ++ t) = p :: scan turn (before ++ x :: e) t := by
  rw [List.cons_append] at h ⊢
  rw [scan_turn h, List.take_left, List.drop_left]

/-- What holds at the end of a text and is carried over every piece holds of the whole text. -/
theorem scan_induction {motive : List α → List α → List P → Prop}
    (nil : ∀ before, motive before [] [])
    (stop : ∀ before x s, turn before (x :: s) = none → motive before (x :: s) [])
    (step : ∀ before x s p k ps, turn before (x :: s) = some (p, k) →
      motive (before ++ x :: s.take k) (s.drop k) ps → motive before (x :: s) (p :: ps))
    (before s : List α) : motive before s (scan turn before s) := by
  induction hlen : s.length using Nat.strongRecOn generalizing before s with
  | ind n ih =>
      cases s with
      | nil => exact nil before
      | cons x s =>
          cases hturn : turn before (x :: s) with
          | none =>
              rw [scan_stop hturn]
              exact stop before x s hturn
          | some q =>
              obtain ⟨p, k⟩ := q
              rw [List.length_cons] at hlen
              have hdrop : (s.drop k).length = s.length - k := List.length_drop
              rw [scan_turn hturn]
              exact step before x s p k _ hturn (ih (s.length - k) (by omega) _ _ hdrop)

/-- A scanner that takes its symbols one by one -/
theorem scan_map {f : α → P} (h : ∀ before x s, turn before (x :: s) = some (f x, 0)) :
    scan turn before s = s.map f := by
  induction s generalizing before with
  | nil => rfl
  | cons x s ih =>
      rw [scan_turn (h before x s), List.drop_zero, ih, List.map_cons]

end Scanning
