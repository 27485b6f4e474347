import Mathlib.Data.List.Infix
import Mathlib.Logic.Basic

/-!
# Asking until one refuses

Parties are asked in order, each in the state that the one before it left, up to and including
the first that refuses.  A loop that keeps a flag and stops when it is set asks the same ones.
-/

namespace Refusal

variable {C R S : Type*}

/-- The answers, and the state behind the last. -/
def rounds (ask : C → S → R × S) (refuses : C → R → Bool) : List C → S → List (C × R) × S
  | [], s => ([], s)
  | c :: rest, s =>
      let asked := ask c s
      if refuses c asked.1 then ([(c, asked.1)], asked.2)
      else
        let later := rounds ask refuses rest asked.2
        ((c, asked.1) :: later.1, later.2)

/-- A loop that stops when the flag is set. -/
def untilFlag (step : C → S → S) (flag : S → Bool) : List C → S → S
  | [], s => s
  | c :: rest, s => if flag (step c s) then step c s else untilFlag step flag rest (step c s)

section

variable (ask : C → S → R × S) (refuses : C → R → Bool)

theorem rounds_prefix (cs : List C) (s : S) :
    ((rounds ask refuses cs s).1.map Prod.fst) <+: cs := by
  induction cs generalizing s with
  | nil => exact List.prefix_rfl
  | cons c rest ih =>
      unfold rounds
      dsimp only
      split_ifs
      · exact List.prefix_iff_eq_append.mpr rfl
      · exact List.cons_prefix_cons.mpr ⟨rfl, ih _⟩

/-- Each answer is one to a question that was asked. -/
theorem rounds_asked (cs : List C) (s : S) :
    ∀ r ∈ (rounds ask refuses cs s).1, ∃ t, r.2 = (ask r.1 t).1 := by
  induction cs generalizing s with
  | nil => exact fun r hr => by cases hr
  | cons c rest ih =>
      unfold rounds
      dsimp only
      split_ifs
      · intro r hr
        obtain rfl := List.mem_singleton.mp hr
        exact ⟨s, rfl⟩
      · intro r hr
        rcases List.mem_cons.mp hr with rfl | hr
        · exact ⟨s, rfl⟩
        · exact ih _ r hr

/-- Only the last one that is asked may refuse. -/
theorem rounds_dropLast (cs : List C) (s : S) :
    ∀ r ∈ (rounds ask refuses cs s).1.dropLast, refuses r.1 r.2 = false := by
  induction cs generalizing s with
  | nil => exact fun r hr => by cases hr
  | cons c rest ih =>
      unfold rounds
      dsimp only
      split_ifs with hrefuses
      · exact fun r hr => by cases hr
      · intro r hr
        generalize hlater : rounds ask refuses rest (ask c s).2 = later at hr
        have hrest := ih (ask c s).2
        rw [hlater] at hrest
        obtain ⟨reports, last⟩ := later
        cases reports with
        | nil => cases hr
        | cons first reports =>
            rcases List.mem_cons.mp hr with rfl | hr
            · exact Bool.eq_false_iff.mpr hrefuses
            · exact hrest r hr

/-- Where none refuses all are asked. -/
theorem rounds_all (cs : List C) (s : S)
    (h : (rounds ask refuses cs s).1.any (fun r => refuses r.1 r.2) = false) :
    (rounds ask refuses cs s).1.map Prod.fst = cs := by
  induction cs generalizing s with
  | nil => rfl
  | cons c rest ih =>
      unfold rounds at h ⊢
      dsimp only at h ⊢
      by_cases hrefuses : refuses c (ask c s).1 = true
      · rw [if_pos hrefuses, List.any_cons, hrefuses] at h
        cases h
      · rw [if_neg hrefuses] at h ⊢
        rw [List.any_cons, Bool.or_eq_false_iff] at h
        exact congrArg (c :: ·) (ih _ h.2)

variable {ask refuses}

/-- The flag that each step leaves says whether the party refused. -/
theorem untilFlag_rounds {step : C → S → S} {flag : S → Bool} {I : S → Prop}
    (hstep : ∀ c s, I s → flag s = false → step c s = (ask c s).2 ∧
      flag (ask c s).2 = refuses c (ask c s).1 ∧ I (ask c s).2)
    (cs : List C) {s : S} (hs : I s) (hflag : flag s = false) :
    untilFlag step flag cs s = (rounds ask refuses cs s).2 ∧
      flag (rounds ask refuses cs s).2 =
        ((rounds ask refuses cs s).1.any fun r => refuses r.1 r.2) ∧
      I (rounds ask refuses cs s).2 := by
  induction cs generalizing s with
  | nil => exact ⟨rfl, hflag, hs⟩
  | cons c rest ih =>
      obtain ⟨heq, hrefuses, hI⟩ := hstep c s hs hflag
      unfold untilFlag rounds
      dsimp only
      rw [heq, hrefuses]
      by_cases h : refuses c (ask c s).1 = true
      · rw [if_pos h, if_pos h, List.any_cons, h]
        exact ⟨rfl, hrefuses.trans h, hI⟩
      · have h := Bool.eq_false_iff.mpr h
        obtain ⟨hloop, hlast, hinv⟩ := ih hI (hrefuses.trans h)
        rw [h, if_neg Bool.false_ne_true, if_neg Bool.false_ne_true]
        exact ⟨hloop, hlast.trans (by rw [List.any_cons, h, Bool.false_or]), hinv⟩

end

end Refusal
