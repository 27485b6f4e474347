import Rash.Arith.Primitives
import Rash.Lib.ActSpec

/-!
# Evaluations that are nested are not seen

`pushexp` and `popexp` put back all of the evaluator's state but `already_expanded`, also where an
evaluation that failed has emptied the stack: what stands below it cannot be popped any more.  An
evaluation is nested only while nothing is suppressed.
-/

namespace Rash

/-- A nested evaluation that returned has put the state back. -/
def ArithEvent.Framed : ArithEvent → Prop
  | .nested _ before after =>
      after.context = before.context ∧ after.depth = before.depth ∧ before.context.noeval = 0
  | _ => True

namespace ExprWorld

open ExprM Act

variable {Θ : Type}

/-- The events since `s` are framed. -/
def FramedSince (s t : ExprState Θ) : Prop := ∀ e ∈ t.log, e ∈ s.log ∨ e.Framed

instance : IsPreorder (ExprState Θ) FramedSince where
  refl _ _ he := Or.inl he
  trans _ _ _ h h' _ he := (h' _ he).elim (h _) Or.inr

theorem FramedSince.of_log {s t : ExprState Θ} (h : t.log = s.log) : FramedSince s t :=
  fun _ he => Or.inl (h ▸ he)

theorem FramedSince.congr {s s' t t' : ExprState Θ} (h : FramedSince s t) (hs : s'.log = s.log)
    (ht : t'.log = t.log) : FramedSince s' t' := by
  intro e he
  rw [ht] at he
  rw [hs]
  exact h e he

theorem FramedSince.emit {s : ExprState Θ} {e : ArithEvent} (h : e.Framed) :
    FramedSince s { s with log := s.log ++ [e] } := by
  intro e' he'
  rcases List.mem_append.mp he' with he' | he'
  · exact Or.inl he'
  · rw [List.mem_singleton.mp he']
    exact Or.inr h

/-- The stack is the same, or an evaluation that failed has emptied it. -/
def Stacked (s t : ExprState Θ) : Prop := t.stack = s.stack ∨ t.stack = []

theorem Stacked.trans {s t u : ExprState Θ} (h : Stacked s t) (h' : Stacked t u) :
    Stacked s u := by
  rcases h' with h' | h'
  · rcases h with h | h
    · exact Or.inl (h'.trans h)
    · exact Or.inr (h'.trans h)
  · exact Or.inr h'

/-- What a function of the evaluator does to the log and to the stack -/
abbrev Stacks {α : Type} (m : ExprM Θ α) : Prop :=
  Within FramedSince (fun _ => True) Stacked m

/-- What is called only while nothing is suppressed -/
abbrev Quiet {α : Type} (m : ExprM Θ α) : Prop :=
  Within FramedSince (fun s => s.noeval = 0) (fun s t => Stacked s t ∧ t.noeval = 0) m

/-- What pops the context that it starts below -/
abbrev Closing {α : Type} (m : ExprM Θ α) : Prop :=
  Within FramedSince (fun _ => True) (fun s t => s.stack = t.toExprContext :: t.stack) m

/-- An evaluation puts the context and the stack back. -/
abbrev Returns {α : Type} (m : ExprM Θ α) : Prop :=
  Within FramedSince (fun _ => True)
    (fun s t => t.toExprContext = s.toExprContext ∧ t.stack = s.stack) m

/-! ## Rules -/

theorem Stacks.bind {α β : Type} {m : ExprM Θ α} {f : α → ExprM Θ β} (hm : Stacks m)
    (hf : ∀ a, Stacks (f a)) : Stacks (m >>= f) :=
  Within.bind hm hf (fun _ _ _ _ => trivial) fun _ _ _ _ h h' => h.trans h'

theorem Quiet.bind {α β : Type} {m : ExprM Θ α} {f : α → ExprM Θ β} (hm : Quiet m)
    (hf : ∀ a, Quiet (f a)) : Quiet (m >>= f) :=
  Within.bind hm hf (fun _ _ _ h => h.2) fun _ _ _ _ h h' => ⟨h.1.trans h'.1, h'.2⟩

theorem Closing.bind {α β : Type} {m : ExprM Θ α} {f : α → ExprM Θ β} (hm : Stacks m)
    (hf : ∀ a, Closing (f a)) : Closing (m >>= f) := by
  refine Within.bind hm hf (fun _ _ _ _ => trivial) fun s t u _ h h' => ?_
  rcases h with h | h
  · rw [← h]
    exact h'
  · rw [h] at h'
    cases h'

theorem stacks_judgment : Judgment (fun {α : Type} (m : ExprM Θ α) => Stacks m) where
  pure a := Within.pure a fun _ _ => Or.inl rfl
  jump e := Within.jump e
  read := Within.read fun _ _ => Or.inl rfl
  bind := Stacks.bind
  onState := Within.onState
  modify hlog hstack _ := Within.modify fun s _ => ⟨.of_log (hlog s), Or.inl (hstack s)⟩
  emit := by
    intro e _ hnested
    refine Within.modify fun s _ => ⟨FramedSince.emit ?_, Or.inl rfl⟩
    cases e with
    | nested expanded before after => cases hnested
    | _ => trivial

theorem quiet_pure {α : Type} (a : α) : Quiet (pure a : ExprM Θ α) :=
  Within.pure a fun _ h => ⟨Or.inl rfl, h⟩

theorem quiet_read : Quiet (Act.read : ExprM Θ (ExprState Θ)) :=
  Within.read fun _ h => ⟨Or.inl rfl, h⟩

theorem quiet_setRest (rest : Θ) : Quiet (setRest rest) :=
  Within.modify fun _ h => ⟨.of_log rfl, Or.inl rfl, h⟩

/-! ## The calls of an evaluation from within another one -/

variable {r : Evaluators Θ} (w : ExprWorld Θ)

theorem noeval_reset {c : ExprContext} (h : c.noeval = 0) : { c with noeval := 0 } = c := by
  cases c
  cases h
  rfl

/-- Where the evaluation returned it was framed, and where it failed the stack is empty. -/
theorem evalexpWith_run (hr : ∀ text, Returns (r.subexpr text)) (expr : List Char)
    (expanded : Bool) {s : ExprState Θ} (hs : s.noeval = 0) :
    FramedSince s (evalexpWith r expr expanded s).2 ∧
      ∀ val valid t, evalexpWith r expr expanded s = (.ok (val, valid), t) → t.noeval = 0 ∧
        (valid = true → t.toExprContext = s.toExprContext ∧ t.stack = s.stack) ∧
        (valid = false → t.stack = []) := by
  obtain ⟨hkept, hreturns⟩ := hr expr { s with noeval := 0, alreadyExpanded := expanded } trivial
  unfold evalexpWith
  rcases hrun : r.subexpr expr { s with noeval := 0, alreadyExpanded := expanded } with
    ⟨e | val, t⟩
  · rw [hrun] at hkept
    have hlog : FramedSince s t := hkept.congr rfl rfl
    have hfailed : ∀ val valid u, (Except.ok (0, false),
        { t with tokstr := none, expression := none, stack := [], noeval := 0 }) =
          ((.ok (val, valid), u) : Except ExprJump (Int64 × Bool) × ExprState Θ) →
        u.noeval = 0 ∧ (valid = true → u.toExprContext = s.toExprContext ∧ u.stack = s.stack) ∧
          (valid = false → u.stack = []) := by
      intro val valid u h
      cases h
      exact ⟨rfl, (fun h => by cases h), fun _ => rfl⟩
    cases e with
    | topLevel => exact ⟨hlog, fun _ _ _ h => by cases h⟩
    | outOfFuel => exact ⟨hlog, fun _ _ _ h => by cases h⟩
    | evalerror expression message token => exact ⟨hlog.congr rfl rfl, hfailed⟩
    | evalbuf => exact ⟨hlog.congr rfl rfl, hfailed⟩
  · rw [hrun] at hkept
    obtain ⟨hcontext, hstack⟩ := hreturns val t hrun
    have hsame : t.toExprContext = s.toExprContext := hcontext.trans (noeval_reset hs)
    refine ⟨hkept.congr rfl rfl, fun val' valid u h => ?_⟩
    cases h
    exact ⟨by rw [hsame, hs], fun _ => ⟨hsame, hstack⟩, fun h => by cases h⟩

theorem quiet_nestedEvalexp (hr : ∀ text, Returns (r.subexpr text)) (expr : List Char)
    (expanded : Bool) : Quiet (nestedEvalexp r expr expanded) := by
  refine Within.bind_read fun s hs => ?_
  obtain ⟨hkept, hreturns⟩ := evalexpWith_run hr expr expanded hs
  rcases hrun : evalexpWith r expr expanded s with ⟨e | ⟨val, valid⟩, t⟩
  · rw [Act.bind_of_error hrun]
    rw [hrun] at hkept
    exact ⟨hkept, fun _ _ h => by cases h⟩
  · rw [Act.bind_of_ok hrun]
    rw [hrun] at hkept
    obtain ⟨hnoeval, hvalid, hfailed⟩ := hreturns val valid t hrun
    cases valid with
    | false =>
        refine ⟨hkept, fun a u h => ?_⟩
        cases h
        exact ⟨Or.inr (hfailed rfl), hnoeval⟩
    | true =>
        obtain ⟨hcontext, hstack⟩ := hvalid rfl
        have hframed : (ArithEvent.nested (some expanded) s.snapshot t.snapshot).Framed :=
          ⟨hcontext, congrArg List.length hstack, hs⟩
        refine ⟨trans_of FramedSince hkept (FramedSince.emit hframed), fun a u h => ?_⟩
        cases h
        exact ⟨Or.inl hstack, hnoeval⟩

theorem quiet_runCode {α : Type} (hr : ∀ text, Returns (r.subexpr text)) (code : ShellCode Θ α) :
    Quiet (w.runCode r code) := by
  induction code with
  | done rest a => exact (quiet_setRest rest).bind fun _ => quiet_pure a
  | jump rest => exact (quiet_setRest rest).bind fun _ => Within.jump _
  | evalexp rest expr expanded failed next hfailed hnext =>
      rw [runCode]
      refine (quiet_setRest rest).bind fun _ => ?_
      refine (quiet_nestedEvalexp hr expr expanded).bind fun val => quiet_read.bind fun s => ?_
      cases val with
      | some val => exact hnext val s.rest
      | none => exact Within.ite (fun _ => hfailed s.rest) fun _ => Within.jump _

theorem quiet_arrayExpandIndex (hr : ∀ text, Returns (r.subexpr text)) (sub : List Char)
    (noexpand : Bool) : Quiet (w.arrayExpandIndex r sub noexpand) := by
  refine quiet_read.bind fun s => ?_
  refine Quiet.bind (Within.ite (fun _ => w.quiet_runCode hr _) fun _ => quiet_pure sub) fun expr => ?_
  refine (quiet_nestedEvalexp hr expr _).bind fun val => quiet_read.bind fun t => ?_
  cases val with
  | some val => exact quiet_pure val
  | none => exact Within.ite (fun _ => quiet_pure 0) fun _ => Within.jump _

theorem quiet_getArrayValue (hr : ∀ text, Returns (r.subexpr text)) (tok : List Char)
    (noexpand : Bool) : Quiet (w.getArrayValue r tok noexpand) := by
  refine quiet_read.bind fun s => ?_
  cases w.arrayVariable s.rest noexpand tok with
  | invalid => exact quiet_pure _
  | assoc => exact (w.quiet_runCode hr _).bind fun text => quiet_pure _
  | indexed =>
      refine (w.quiet_arrayExpandIndex hr _ noexpand).bind fun ind => quiet_read.bind fun t => ?_
      refine (quiet_setRest _).bind fun _ => ?_
      cases (w.elementValue t.rest (arrayName tok) ind).1 with
      | badSubscript => exact quiet_pure _
      | element ind text => exact quiet_pure _

theorem quiet_unboundVariable {α : Type} : Quiet (w.unboundVariable : ExprM Θ α) :=
  Within.onState fun _ => Within.jump _

theorem quiet_referenceValue (hr : ∀ text, Returns (r.subexpr text)) (tok : List Char)
    (element : Bool) : Quiet (w.referenceValue r tok element) := by
  refine quiet_read.bind fun s => Within.ite (fun _ => ?_) fun _ => ?_
  · exact Within.ite (fun _ => w.quiet_unboundVariable) fun _ => w.quiet_getArrayValue hr tok _
  · refine (quiet_setRest _).bind fun _ => ?_
    cases (w.variableValue s.rest tok).1 with
    | unbound => exact w.quiet_unboundVariable
    | value text => exact quiet_pure _

theorem quiet_valueExpr (hr : ∀ text, Returns (r.subexpr text)) (text : Option (List Char)) :
    Quiet (valueExpr r text) := by
  cases text with
  | none => exact quiet_pure 0
  | some text =>
      refine Within.ite (fun _ => quiet_pure 0) fun _ => Within.bind_read fun s hs => ?_
      obtain ⟨hkept, hreturns⟩ := hr text s trivial
      rcases hrun : r.subexpr text s with ⟨e | val, t⟩
      · rw [Act.bind_of_error hrun]
        rw [hrun] at hkept
        exact ⟨hkept, fun _ _ h => by cases h⟩
      · rw [Act.bind_of_ok hrun]
        rw [hrun] at hkept
        obtain ⟨hcontext, hstack⟩ := hreturns val t hrun
        have hframed : (ArithEvent.nested none s.snapshot t.snapshot).Framed :=
          ⟨hcontext, congrArg List.length hstack, hs⟩
        refine ⟨trans_of FramedSince hkept (FramedSince.emit hframed), fun a u h => ?_⟩
        cases h
        exact ⟨Or.inl hstack, (congrArg ExprContext.noeval hcontext).trans hs⟩

theorem quiet_emit {e : ArithEvent} (he : e.Framed) : Quiet (emit e : ExprM Θ Unit) :=
  Within.modify fun _ h => ⟨FramedSince.emit he, Or.inl rfl, h⟩

theorem quiet_bindIntVariable (hr : ∀ text, Returns (r.subexpr text)) (lhs : List Char)
    (value : Int64) : Quiet (w.bindIntVariable r lhs value) := by
  refine quiet_read.bind fun s => Within.ite (fun _ => ?_) fun _ => w.quiet_runCode hr _
  cases w.arrayVariable s.rest (w.noexpand s) lhs with
  | invalid => exact quiet_pure _
  | assoc => exact w.quiet_runCode hr _
  | indexed =>
      refine (w.quiet_arrayExpandIndex hr _ _).bind fun ind => quiet_read.bind fun t => ?_
      exact (quiet_setRest _).bind fun _ => quiet_pure _

theorem quiet_emitBind (lhs : List Char) (value : Int64) :
    Quiet (emit (.bind lhs value) : ExprM Θ Unit) := quiet_emit trivial

theorem quiet_exprBindVariable (hr : ∀ text, Returns (r.subexpr text)) (lhs : List Char)
    (value : Int64) : Quiet (w.exprBindVariable r lhs value) := by
  refine Within.ite (fun _ => quiet_pure _) fun _ => (quiet_emitBind lhs value).bind fun _ => ?_
  refine (w.quiet_bindIntVariable hr lhs value).bind fun allowed => ?_
  exact Within.ite (fun _ => quiet_pure _) fun _ => Within.jump _

/-! ## The functions of the evaluator -/

/-- What is found from a state in which nothing is suppressed -/
theorem Quiet.stacks {α : Type} {g : ExprState Θ → ExprM Θ α}
    (hg : ∀ s, s.noeval = 0 → Quiet (g s)) (hg' : ∀ s, s.noeval ≠ 0 → Stacks (g s)) :
    Stacks (Act.read >>= g) := by
  refine Within.bind_read fun s _ => ?_
  by_cases hs : s.noeval = 0
  · obtain ⟨hkept, hreturns⟩ := hg s hs s hs
    exact ⟨hkept, fun a t hrun => (hreturns a t hrun).1⟩
  · exact hg' s hs s trivial

theorem stacks_exprStreval (hr : ∀ text, Returns (r.subexpr text)) (tok : HeapString)
    (element : Bool) : Stacks (w.exprStreval r tok element) := by
  refine Quiet.stacks (fun s hs => ?_) fun s hs => ?_
  · rw [if_neg (not_not_intro hs)]
    refine (w.quiet_referenceValue hr tok.text element).bind fun answer => ?_
    refine quiet_read.bind fun t => Within.ite (fun _ => ?_) fun _ => ?_
    · exact Within.ite (fun _ => Within.jump _) fun _ => quiet_pure _
    · refine (quiet_valueExpr hr answer.1).bind fun tval => ?_
      refine Quiet.bind ?_ fun _ => quiet_pure tval
      exact Within.modify fun _ h => ⟨.of_log rfl, Or.inl rfl, h⟩
  · rw [if_pos hs]
    exact stacks_judgment.pure _

theorem stacks_bindIncrement (hr : ∀ text, Returns (r.subexpr text)) (value : Int64) :
    Stacks (w.bindIncrement r value) := by
  refine Quiet.stacks (fun s hs => ?_) fun s hs => ?_
  · rw [if_pos hs]
    exact Within.ite (fun _ => w.quiet_exprBindVariable hr _ _) fun _ =>
      w.quiet_exprBindVariable hr _ _
  · rw [if_neg hs]
    exact stacks_judgment.pure _

theorem stacks_bindAssigned (hr : ∀ text, Returns (r.subexpr text)) (lhs : List Char) (lind : Int)
    (value : Int64) : Stacks (w.bindAssigned r lhs lind value) := by
  refine Quiet.stacks (fun s hs => ?_) fun s hs => ?_
  · rw [if_pos hs]
    exact Within.ite (fun _ => w.quiet_exprBindVariable hr _ _) fun _ =>
      w.quiet_exprBindVariable hr _ _
  · rw [if_neg hs]
    exact stacks_judgment.pure _

/-- The functions one level deeper -/
structure Evaluators.AllStack (r : Evaluators Θ) : Prop where
  lowest : Stacks r.lowest
  expassign : Stacks r.expassign
  expcond : Stacks r.expcond
  exppower : Stacks r.exppower
  expunary : Stacks r.expunary
  subexpr : ∀ text, Returns (r.subexpr text)

theorem parts_stack (hr : r.AllStack) :
    Judgment.Parts (fun {α : Type} (m : ExprM Θ α) => Stacks m) w r where
  streval := w.stacks_exprStreval hr.subexpr
  increment := w.stacks_bindIncrement hr.subexpr
  assigned := w.stacks_bindAssigned hr.subexpr
  lowest := hr.lowest
  expassign := hr.expassign
  expcond := hr.expcond
  exppower := hr.exppower
  expunary := hr.expunary

theorem within_evalerror {α : Type} {pre : ExprState Θ → Prop}
    {post : ExprState Θ → ExprState Θ → Prop} (message : String) :
    Within FramedSince pre post (evalerror message : ExprM Θ α) :=
  Within.onState fun _ => Within.jump _

theorem pushexp_within :
    Within FramedSince (fun _ => True) (fun s t => t.stack = s.toExprContext :: s.stack)
      (pushexp : ExprM Θ Unit) := by
  refine Within.bind_read fun s hs => ?_
  by_cases hfull : 1024 ≤ s.stack.length
  · rw [if_pos hfull]
    have herror : Within FramedSince (fun _ => True) (fun _ _ => False)
        (evalerror "expression recursion level exceeded" : ExprM Θ Unit) := within_evalerror _
    exact ⟨(herror s hs).1, fun a t hrun => ((herror s hs).2 a t hrun).elim⟩
  · rw [if_neg hfull]
    exact ⟨.of_log rfl, fun _ _ h => by cases h; rfl⟩

theorem closing_popexp : Closing (popexp : ExprM Θ Unit) := by
  refine Within.bind_read fun s hs => ?_
  cases hstack : s.stack with
  | nil =>
      have herror : Within FramedSince (fun _ => True) (fun _ _ => False)
          (setContext (fun c => { c with expression := none, lasttp := none }) >>= fun _ =>
            evalerror "recursion stack underflow" : ExprM Θ Unit) :=
        Within.bind (stacks_judgment.setContext _) (fun _ => within_evalerror _)
          (fun _ _ _ _ => trivial) fun _ _ _ _ _ h => h
      exact ⟨(herror s hs).1, fun a t hrun => ((herror s hs).2 a t hrun).elim⟩
  | cons context stack => exact ⟨.of_log rfl, fun _ _ h => by cases h; rfl⟩

theorem closing_return (val : Int64) : Closing (popexp >>= fun _ => pure val : ExprM Θ Int64) := by
  refine Within.bind closing_popexp (fun _ => Within.pure val fun _ _ => rfl)
    (fun _ _ _ _ => trivial) fun s t u _ h (h' : t = u) => ?_
  rw [← h']
  exact h

theorem returns_subexpr (hr : r.AllStack) (expr : List Char) : Returns (w.subexpr r expr) := by
  have hparts := w.parts_stack hr
  refine Within.ite (fun _ => Within.pure _ fun _ _ => ⟨rfl, rfl⟩) fun _ => ?_
  refine Within.bind pushexp_within (fun _ => (?_ : Closing _)) (fun _ _ _ _ => trivial)
    fun s t u _ h h' => ?_
  · refine Closing.bind (stacks_judgment.setContext _) fun _ => ?_
    refine Closing.bind (stacks_judgment.readtok_holds hparts) fun _ => ?_
    refine Closing.bind (stacks_judgment.expcomma_holds hparts) fun val => ?_
    refine Closing.bind stacks_judgment.read fun s => ?_
    exact Within.ite (fun _ => within_evalerror _) fun _ => closing_return val
  · rw [h] at h'
    obtain ⟨hcontext, hstack⟩ := List.cons.inj h'
    exact ⟨hcontext.symm, hstack.symm⟩

theorem evaluators_stack (n : ℕ) : (w.evaluators n).AllStack := by
  induction n with
  | zero =>
      exact ⟨Within.jump _, Within.jump _, Within.jump _, Within.jump _, Within.jump _,
        fun _ => Within.jump _⟩
  | succ n ih =>
      have hparts := w.parts_stack ih
      have hP := stacks_judgment (Θ := Θ)
      exact ⟨hP.expcomma_holds hparts, hP.expassign_holds hparts, hP.expcond_holds hparts,
        hP.exppower_holds hparts, hP.expunary_holds hparts, w.returns_subexpr ih⟩

theorem caught_log (x : Except ExprJump Int64 × ExprState Θ) : (caught x).2.log = x.2.log := by
  rcases x with ⟨(_ | _ | _ | _) | _, t⟩ <;> rfl

/-- A shell in which the value of every variable is `7` -/
def sevens : ExprWorld Unit :=
  { noVariables with variableValue := fun _ _ => (.value (some ['7']), ()) }

end ExprWorld

end Rash
