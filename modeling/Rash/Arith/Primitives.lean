import Rash.Arith.Steps

/-!
# What the evaluator divides and shifts

No evaluation divides by 0, or the smallest number by -1, in any form of the operators and
whether or not the operand is suppressed.  The count of a shift is not looked at.
-/

namespace Rash

/-- What is logged from `s` to `s'` is defined, but for shifts. -/
def DividesDefined {Θ : Type} (s s' : ExprState Θ) : Prop :=
  ∃ events, s'.log = s.log ++ events ∧ ∀ e ∈ events, e.isShift = false → e.Defined

instance {Θ : Type} : IsPreorder (ExprState Θ) DividesDefined where
  refl s := ⟨[], by simp, by simp⟩
  trans s t u := by
    rintro ⟨l, hl, hldef⟩ ⟨m, hm, hmdef⟩
    refine ⟨l ++ m, by rw [hm, hl, List.append_assoc], fun e he => ?_⟩
    rcases List.mem_append.mp he with he | he
    · exact hldef e he
    · exact hmdef e he

instance {Θ : Type} : KeptBySteps (DividesDefined (Θ := Θ)) where
  other s t hlog _ := ⟨[], by simp [hlog], by simp⟩
  emit s e he := ⟨[e], rfl, by simpa using he⟩
  push s _ := ⟨[], by simp, by simp⟩
  pop s _ _ _ := ⟨[], by simp, by simp⟩
  unwind s := ⟨[], by simp, by simp⟩

namespace ExprWorld

open ExprM Act

variable {Θ : Type} (w : ExprWorld Θ)

/-- Whatever is evaluated or parsed, every division and every remainder that is computed is
defined; only the count of a shift may lie outside 0..63. -/
theorem evalexp_divides_defined (n : ℕ) (expr : List Char) (expanded : Bool) (s : ExprState Θ) :
    ∃ events, (w.evalexp n expr expanded s).2.log = s.log ++ events ∧
      ∀ e ∈ events, e.isShift = false → e.Defined := by
  exact evalexpWith_keeps (R := DividesDefined) (w.evaluators_keeps n) expr expanded s

/-! ## A shift -/

/-- A shell without variables. -/
def noVariables : ExprWorld Unit where
  isAlpha c := c.isAlpha
  savestring _ := (0, ())
  skipsubscript _ _ _ _ := 0
  interactiveShell := false
  compatLevel := 53
  noLongjmp _ := false
  arrayExpandOnce _ := false
  variableValue _ _ := (.value none, ())
  unboundElement _ _ _ := false
  arrayVariable _ _ _ := .invalid
  expandArithString _ text := .done () text
  assocValue _ _ _ := .done () none
  elementValue _ _ _ := (.badSubscript, ())
  bindScalar _ _ _ := .done () true
  bindAssoc _ _ _ _ := .done () true
  bindElement _ _ _ _ := (true, ())

def freshExpr : ExprState Unit where
  curtok := .none
  lasttok := .none
  expression := none
  tp := []
  lasttp := none
  tokval := 0
  tokstr := none
  noeval := 0
  lval := .init
  assigntok := .none
  alreadyExpanded := false
  stack := []
  log := []
  rest := ()

/-- `1 << 64` shifts by 64. -/
theorem shift_count_unchecked :
    ¬ ∀ (w : ExprWorld Unit) (n : ℕ) (expr : List Char) (expanded : Bool) (s : ExprState Unit),
      ∃ events, (w.evalexp n expr expanded s).2.log = s.log ++ events ∧
        ∀ e ∈ events, e.Defined := by
  intro hall
  obtain ⟨events, hlog, hdefined⟩ := hall noVariables 1 "1<<64".toList true freshExpr
  have hevents : (noVariables.evalexp 1 "1<<64".toList true freshExpr).2.log =
      [.shift true 1 64] := by decide +kernel
  rw [hevents] at hlog
  have hshift : ArithEvent.shift true 1 64 ∈ events := by
    have hmem : ArithEvent.shift true 1 64 ∈ freshExpr.log ++ events := hlog ▸ List.mem_singleton_self _
    simpa [freshExpr] using hmem
  exact absurd (hdefined _ hshift) (by decide)

end ExprWorld

end Rash
