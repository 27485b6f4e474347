import Rash.Arith.Judgments

/-!
# What every step of an evaluation keeps

A relation between states that the single steps keep is kept by every function of the evaluator.
-/

namespace Rash

/-- A relation that the single steps of an evaluation keep. -/
class KeptBySteps {Θ : Type} (R : ExprState Θ → ExprState Θ → Prop) : Prop
    extends IsPreorder (ExprState Θ) R where
  other : ∀ s t, t.log = s.log → t.stack = s.stack → R s t
  emit : ∀ s (e : ArithEvent), (e.isShift = false → e.Defined) → R s { s with log := s.log ++ [e] }
  push : ∀ s, s.stack.length < 1024 → R s { s with stack := s.toExprContext :: s.stack }
  pop : ∀ s context stack, s.stack = context :: stack →
    R s { s with toExprContext := context, stack := stack }
  /-- `expr_unwind`, with what `evalexp` does then -/
  unwind : ∀ s, R s { s with tokstr := none, expression := none, stack := [], noeval := 0 }

namespace KeptBySteps

open ExprM Act

variable {Θ α : Type} {R : ExprState Θ → ExprState Θ → Prop} [KeptBySteps R]

theorem setContext (f : ExprContext → ExprContext) : Keeps R (setContext f : ExprM Θ Unit) :=
  Keeps.modify fun s => other s _ rfl rfl

theorem emits {e : ArithEvent} (he : e.isShift = false → e.Defined) :
    Keeps R (ExprM.emit e : ExprM Θ Unit) :=
  Keeps.modify fun s => emit s e he

theorem modify {f : ExprState Θ → ExprState Θ} (hlog : ∀ s, (f s).log = s.log)
    (hstack : ∀ s, (f s).stack = s.stack) : Keeps R (Act.modify f : ExprM Θ Unit) :=
  Keeps.modify fun s => other s _ (hlog s) (hstack s)

theorem evalerror (message : String) : Keeps R (evalerror message : ExprM Θ α) :=
  Keeps.onState fun _ => Keeps.jump _

theorem judgment : Judgment (fun {α : Type} (m : ExprM Θ α) => Keeps R m) where
  pure a := Keeps.pure a
  jump e := Keeps.jump e
  read := Keeps.read
  bind hm hf := Keeps.bind hm hf
  onState hg := Keeps.onState hg
  modify hlog hstack _ := modify hlog hstack
  emit he _ := emits he

theorem pushexp : Keeps R (pushexp : ExprM Θ Unit) := by
  refine Keeps.bind_read fun s => ?_
  by_cases hfull : 1024 ≤ s.stack.length
  · rw [if_pos hfull]
    exact refl_of R s
  · rw [if_neg hfull]
    exact push s (Nat.lt_of_not_le hfull)

theorem popexp : Keeps R (popexp : ExprM Θ Unit) := by
  refine Keeps.bind_read fun s => ?_
  cases hstack : s.stack with
  | nil => exact (Keeps.bind (setContext _) fun _ => evalerror _ : Keeps R _) s
  | cons context stack => exact pop s context stack hstack

end KeptBySteps

namespace ExprWorld

open ExprM Act

variable {Θ : Type} (w : ExprWorld Θ) {R : ExprState Θ → ExprState Θ → Prop} [KeptBySteps R]

/-- The functions one level deeper keep the relation. -/
structure Evaluators.AllKeep (R : ExprState Θ → ExprState Θ → Prop) (r : Evaluators Θ) : Prop where
  lowest : Keeps R r.lowest
  expassign : Keeps R r.expassign
  expcond : Keeps R r.expcond
  exppower : Keeps R r.exppower
  expunary : Keeps R r.expunary
  subexpr : ∀ expr, Keeps R (r.subexpr expr)

variable {r : Evaluators Θ}

theorem evalexpWith_keeps (hr : r.AllKeep R) (expr : List Char) (expanded : Bool) :
    Keeps R (evalexpWith r expr expanded) := by
  intro s
  have hstart : R s { s with noeval := 0, alreadyExpanded := expanded } := KeptBySteps.other _ _ rfl rfl
  have h := trans_of R hstart (hr.subexpr expr { s with noeval := 0, alreadyExpanded := expanded })
  revert h
  unfold evalexpWith
  rcases r.subexpr expr { s with noeval := 0, alreadyExpanded := expanded } with ⟨(_ | _ | _ | _) | _, t⟩ <;>
    intro h
  · exact trans_of R h (KeptBySteps.unwind t)
  · exact trans_of R h (KeptBySteps.unwind t)
  · exact h
  · exact h
  · exact h

theorem nestedEvalexp_keeps (hr : r.AllKeep R) (expr : List Char) (expanded : Bool) :
    Keeps R (nestedEvalexp r expr expanded) := by
  refine Keeps.bind Keeps.read fun before => ?_
  refine Keeps.bind (evalexpWith_keeps hr expr expanded) fun ⟨val, valid⟩ => ?_
  refine Keeps.ite (fun _ => ?_) fun _ => Keeps.pure _
  exact Keeps.bind Keeps.read fun after => Keeps.bind (KeptBySteps.emits fun _ => trivial) fun _ =>
    Keeps.pure _

theorem setRest_keeps (rest : Θ) : Keeps R (setRest rest) := KeptBySteps.modify (fun _ => rfl) fun _ => rfl

theorem runCode_keeps {α : Type} (hr : r.AllKeep R) (code : ShellCode Θ α) :
    Keeps R (w.runCode r code) := by
  induction code with
  | done rest a => exact Keeps.bind (setRest_keeps rest) fun _ => Keeps.pure a
  | jump rest => exact Keeps.bind (setRest_keeps rest) fun _ => Keeps.jump _
  | evalexp rest expr expanded failed next hfailed hnext =>
      rw [runCode]
      refine Keeps.bind (setRest_keeps rest) fun _ => ?_
      refine Keeps.bind (nestedEvalexp_keeps hr expr expanded) fun val => ?_
      refine Keeps.bind Keeps.read fun s => ?_
      cases val with
      | some val => exact hnext val s.rest
      | none => exact Keeps.ite (fun _ => hfailed s.rest) fun _ => Keeps.jump _

theorem arrayExpandIndex_keeps (hr : r.AllKeep R) (sub : List Char) (noexpand : Bool) :
    Keeps R (w.arrayExpandIndex r sub noexpand) := by
  refine Keeps.bind Keeps.read fun s => Keeps.bind ?_ fun expr => ?_
  · exact Keeps.ite (fun _ => w.runCode_keeps hr _) fun _ => Keeps.pure _
  · refine Keeps.bind (nestedEvalexp_keeps hr expr _) fun val => Keeps.bind Keeps.read fun t => ?_
    cases val with
    | some val => exact Keeps.pure _
    | none => exact Keeps.ite (fun _ => Keeps.pure _) fun _ => Keeps.jump _

theorem getArrayValue_keeps (hr : r.AllKeep R) (tok : List Char) (noexpand : Bool) :
    Keeps R (w.getArrayValue r tok noexpand) := by
  refine Keeps.bind Keeps.read fun s => ?_
  split
  · exact Keeps.pure _
  · exact Keeps.bind (w.runCode_keeps hr _) fun _ => Keeps.pure _
  · refine Keeps.bind (w.arrayExpandIndex_keeps hr _ _) fun ind => Keeps.bind Keeps.read fun t => ?_
    refine Keeps.bind (setRest_keeps _) fun _ => ?_
    split <;> exact Keeps.pure _

theorem referenceValue_keeps (hr : r.AllKeep R) (tok : List Char) (element : Bool) :
    Keeps R (w.referenceValue r tok element) := by
  have hunbound {α : Type} : Keeps R (w.unboundVariable : ExprM Θ α) :=
    Keeps.onState fun _ => Keeps.jump _
  refine Keeps.bind Keeps.read fun s => Keeps.ite (fun _ => ?_) fun _ => ?_
  · exact Keeps.ite (fun _ => hunbound) fun _ => w.getArrayValue_keeps hr _ _
  · refine Keeps.bind (setRest_keeps _) fun _ => ?_
    split
    · exact hunbound
    · exact Keeps.pure _

theorem valueExpr_keeps (hr : r.AllKeep R) (text : Option (List Char)) :
    Keeps R (valueExpr r text) := by
  cases text with
  | none => exact Keeps.pure _
  | some text =>
      refine Keeps.ite (fun _ => Keeps.pure _) fun _ => Keeps.bind Keeps.read fun before => ?_
      refine Keeps.bind (hr.subexpr text) fun val => Keeps.bind Keeps.read fun after => ?_
      exact Keeps.bind (KeptBySteps.emits fun _ => trivial) fun _ => Keeps.pure _

theorem exprStreval_keeps (hr : r.AllKeep R) (tok : HeapString) (element : Bool) :
    Keeps R (w.exprStreval r tok element) := by
  refine Keeps.bind Keeps.read fun s => Keeps.ite (fun _ => Keeps.pure _) fun _ => ?_
  refine Keeps.bind (w.referenceValue_keeps hr _ _) fun ⟨text, ind⟩ => Keeps.bind Keeps.read fun t => ?_
  refine Keeps.ite (fun _ => ?_) fun _ => ?_
  · exact Keeps.ite (fun _ => Keeps.jump _) fun _ => Keeps.pure _
  · exact Keeps.bind (valueExpr_keeps hr text) fun _ => Keeps.bind (KeptBySteps.setContext _) fun _ =>
      Keeps.pure _

theorem bindIntVariable_keeps (hr : r.AllKeep R) (lhs : List Char) (value : Int64) :
    Keeps R (w.bindIntVariable r lhs value) := by
  refine Keeps.bind Keeps.read fun s => Keeps.ite (fun _ => ?_) fun _ => w.runCode_keeps hr _
  split
  · exact Keeps.pure _
  · exact w.runCode_keeps hr _
  · refine Keeps.bind (w.arrayExpandIndex_keeps hr _ _) fun ind => Keeps.bind Keeps.read fun t => ?_
    exact Keeps.bind (setRest_keeps _) fun _ => Keeps.pure _

theorem exprBindVariable_keeps (hr : r.AllKeep R) (lhs : List Char) (value : Int64) :
    Keeps R (w.exprBindVariable r lhs value) := by
  refine Keeps.ite (fun _ => Keeps.pure _) fun _ => Keeps.bind (KeptBySteps.emits fun _ => trivial) fun _ => ?_
  refine Keeps.bind (w.bindIntVariable_keeps hr _ _) fun allowed => ?_
  exact Keeps.ite (fun _ => Keeps.pure _) fun _ => Keeps.jump _

theorem bindIncrement_keeps (hr : r.AllKeep R) (value : Int64) :
    Keeps R (w.bindIncrement r value) := by
  refine Keeps.bind Keeps.read fun s => Keeps.ite (fun _ => ?_) fun _ => Keeps.pure _
  exact Keeps.ite (fun _ => w.exprBindVariable_keeps hr _ _) fun _ =>
    w.exprBindVariable_keeps hr _ _

theorem bindAssigned_keeps (hr : r.AllKeep R) (lhs : List Char) (lind : Int) (value : Int64) :
    Keeps R (w.bindAssigned r lhs lind value) := by
  refine Keeps.bind Keeps.read fun s => Keeps.ite (fun _ => ?_) fun _ => Keeps.pure _
  exact Keeps.ite (fun _ => w.exprBindVariable_keeps hr _ _) fun _ =>
    w.exprBindVariable_keeps hr _ _

/-! ## Expressions -/

theorem parts_keep (hr : r.AllKeep R) :
    Judgment.Parts (fun {α : Type} (m : ExprM Θ α) => Keeps R m) w r where
  streval := w.exprStreval_keeps hr
  increment := w.bindIncrement_keeps hr
  assigned := w.bindAssigned_keeps hr
  lowest := hr.lowest
  expassign := hr.expassign
  expcond := hr.expcond
  exppower := hr.exppower
  expunary := hr.expunary

theorem subexpr_keeps (hr : r.AllKeep R) (expr : List Char) : Keeps R (w.subexpr r expr) := by
  have hparts := w.parts_keep hr
  refine Keeps.ite (fun _ => Keeps.pure _) fun _ => ?_
  refine Keeps.bind KeptBySteps.pushexp fun _ => Keeps.bind (KeptBySteps.setContext _) fun _ => ?_
  refine Keeps.bind (KeptBySteps.judgment.readtok_holds hparts) fun _ => ?_
  refine Keeps.bind (KeptBySteps.judgment.expcomma_holds hparts) fun val => ?_
  refine Keeps.bind Keeps.read fun s => Keeps.ite (fun _ => KeptBySteps.evalerror _) fun _ => ?_
  exact Keeps.bind KeptBySteps.popexp fun _ => Keeps.pure _

theorem evaluators_keeps (n : ℕ) : (w.evaluators n).AllKeep R := by
  induction n with
  | zero =>
      exact ⟨Keeps.jump _, Keeps.jump _, Keeps.jump _, Keeps.jump _, Keeps.jump _,
        fun _ => Keeps.jump _⟩
  | succ n ih =>
      have hparts := w.parts_keep ih
      have hR := KeptBySteps.judgment (R := R)
      exact ⟨hR.expcomma_holds hparts, hR.expassign_holds hparts, hR.expcond_holds hparts,
        hR.exppower_holds hparts, hR.expunary_holds hparts, w.subexpr_keeps ih⟩

end ExprWorld

end Rash
