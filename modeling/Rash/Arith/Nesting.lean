import Rash.Lib.Settling
import Rash.Arith.Steps

/-!
# Evaluations that end, within another one

What the evaluator calls outside of its own text ends if the evaluations that it nests do, and
leaves the position and the stack alone.
-/

namespace Rash

namespace ExprWorld

open ExprM Act

variable {Θ : Type}

/-- The function ends from `s` with enough depth of calls; where it returns it meets `Q`. -/
abbrev Ends {α : Type} (w : ExprWorld Θ) (f : Evaluators Θ → ExprM Θ α) (s : ExprState Θ)
    (Q : α → ExprState Θ → Prop) : Prop :=
  Act.Settles .outOfFuel (fun n => f (w.evaluators n)) s Q

/-- The position and the stack are the same. -/
structure InPlace (s s' : ExprState Θ) : Prop where
  stack : s'.stack = s.stack
  tp : s'.tp = s.tp
  curtok : s'.curtok = s.curtok

theorem InPlace.rfl {s : ExprState Θ} : InPlace s s := ⟨Eq.refl _, Eq.refl _, Eq.refl _⟩

theorem InPlace.trans {s t u : ExprState Θ} (h : InPlace s t) (h' : InPlace t u) : InPlace s u :=
  ⟨h'.stack.trans h.stack, h'.tp.trans h.tp, h'.curtok.trans h.curtok⟩

/-- The evaluations that are nested at a depth end, and the other one goes on where it was. -/
def NestsAt (w : ExprWorld Θ) (depth : ℕ) : Prop :=
  ∀ (expr : List Char) (s : ExprState Θ), s.stack.length = depth →
    w.Ends (fun r => r.subexpr expr) s fun _ s' => InPlace s s'

variable {w : ExprWorld Θ} {depth : ℕ} {s : ExprState Θ}

/-- A function that does not evaluate. -/
theorem ends_of_run {α : Type} {m : ExprM Θ α} {Q : α → ExprState Θ → Prop}
    (hout : (m s).1 ≠ .error .outOfFuel) (hQ : ∀ a s', m s = (.ok a, s') → Q a s') :
    w.Ends (fun _ => m) s Q :=
  ⟨0, m s, fun _ _ => rfl, hout, hQ⟩

theorem ends_evalexpWith (h : w.NestsAt depth) (hs : s.stack.length = depth) (expr : List Char)
    (expanded : Bool) : w.Ends (fun r => evalexpWith r expr expanded) s
      fun val s' => val.2 = true → InPlace s s' := by
  refine (h expr { s with noeval := 0, alreadyExpanded := expanded } hs).through (g := caught)
    (fun _ => rfl) fun o hout hpost => ?_
  rcases o with ⟨(_ | _ | _ | _) | val, t⟩
  · exact ⟨nofun, fun _ _ ho hvalid => by cases ho; cases hvalid⟩
  · exact ⟨nofun, fun _ _ ho hvalid => by cases ho; cases hvalid⟩
  · exact ⟨nofun, fun _ _ ho => by cases ho⟩
  · exact absurd rfl hout
  · obtain ⟨hstack, htp, hcurtok⟩ := hpost val t rfl
    exact ⟨nofun, fun _ _ ho _ => by cases ho; exact ⟨hstack, htp, hcurtok⟩⟩

/-- An evaluation that fails makes the shell jump to the top level. -/
theorem ends_nestedEvalexp (h : w.NestsAt depth) (hs : s.stack.length = depth) (expr : List Char)
    (expanded : Bool) : w.Ends (fun r => nestedEvalexp r expr expanded) s
      fun val s' => val.isSome → InPlace s s' := by
  refine Act.Settles.read ((ends_evalexpWith h hs expr expanded).bind fun ⟨val, valid⟩ t ht => ?_)
  refine Act.Settles.ite (fun hvalid => ?_) fun _ => Act.Settles.pure nofun
  obtain ⟨hstack, htp, hcurtok⟩ := ht hvalid
  exact Act.Settles.read (Act.Settles.modify (Act.Settles.pure fun _ => ⟨hstack, htp, hcurtok⟩))

theorem ends_runCode {α : Type} (hmode : ∀ rest, w.noLongjmp rest = false) (h : w.NestsAt depth)
    (code : ShellCode Θ α) (hs : s.stack.length = depth) :
    w.Ends (fun r => w.runCode r code) s fun _ s' => InPlace s s' := by
  induction code generalizing s with
  | done rest a => exact Act.Settles.modify (Act.Settles.pure ⟨rfl, rfl, rfl⟩)
  | jump rest => exact Act.Settles.modify (Act.Settles.jump nofun)
  | evalexp rest expr expanded failed next hfailed hnext =>
      simp only [runCode]
      have hnested := ends_nestedEvalexp (s := { s with rest := rest }) h hs expr expanded
      refine Act.Settles.modify (hnested.bind fun val t ht => Act.Settles.read ?_)
      cases val with
      | none =>
          simp only [hmode, Bool.false_eq_true, if_false]
          exact Act.Settles.jump nofun
      | some val =>
          have hplace := ht rfl
          refine (hnext val t.rest (by rw [hplace.stack]; exact hs)).imp fun _ s' hs' => ?_
          exact InPlace.trans ⟨hplace.stack, hplace.tp, hplace.curtok⟩ hs'

theorem ends_arrayExpandIndex (hmode : ∀ rest, w.noLongjmp rest = false) (h : w.NestsAt depth)
    (hs : s.stack.length = depth) (sub : List Char) (noexpand : Bool) :
    w.Ends (fun r => w.arrayExpandIndex r sub noexpand) s fun _ s' => InPlace s s' := by
  have hexpand : w.Ends (fun r => if noexpand = false ∧ sub.any arithExpChar then
      w.runCode r (w.expandArithString s.rest sub) else pure sub) s fun _ s' => InPlace s s' :=
    Act.Settles.ite (fun _ => ends_runCode hmode h _ hs) fun _ => Act.Settles.pure InPlace.rfl
  refine Act.Settles.read (hexpand.bind fun expr t ht => ?_)
  have htdepth : t.stack.length = depth := by rw [ht.stack, hs]
  refine (ends_nestedEvalexp h htdepth expr _).bind fun val u hu => Act.Settles.read ?_
  cases val with
  | none =>
      simp only [hmode, Bool.false_eq_true, if_false]
      exact Act.Settles.jump nofun
  | some val => exact Act.Settles.pure (ht.trans (hu rfl))

theorem ends_getArrayValue (hmode : ∀ rest, w.noLongjmp rest = false) (h : w.NestsAt depth)
    (hs : s.stack.length = depth) (tok : List Char) (noexpand : Bool) :
    w.Ends (fun r => w.getArrayValue r tok noexpand) s fun _ s' => InPlace s s' := by
  refine Act.Settles.read ?_
  cases w.arrayVariable s.rest noexpand tok with
  | invalid => exact Act.Settles.pure InPlace.rfl
  | assoc => exact (ends_runCode hmode h _ hs).bind fun text t ht => Act.Settles.pure ht
  | indexed =>
      refine (ends_arrayExpandIndex hmode h hs _ _).bind fun ind t ht => Act.Settles.read ?_
      obtain ⟨hstack, htp, hcurtok⟩ := ht
      rcases w.elementValue t.rest (arrayName tok) ind with ⟨_ | ⟨ind, text⟩, rest⟩
      · exact Act.Settles.modify (Act.Settles.pure ⟨hstack, htp, hcurtok⟩)
      · exact Act.Settles.modify (Act.Settles.pure ⟨hstack, htp, hcurtok⟩)

theorem ends_unboundVariable {α : Type} {Q : α → ExprState Θ → Prop} :
    w.Ends (fun _ => w.unboundVariable) s Q := by
  refine Act.Settles.onState (Act.Settles.jump ?_)
  split <;> nofun

theorem ends_referenceValue (hmode : ∀ rest, w.noLongjmp rest = false) (h : w.NestsAt depth)
    (hs : s.stack.length = depth) (tok : List Char) (element : Bool) :
    w.Ends (fun r => w.referenceValue r tok element) s fun _ s' => InPlace s s' := by
  refine Act.Settles.read (Act.Settles.ite (fun _ => ?_) fun _ => ?_)
  · exact Act.Settles.ite (fun _ => ends_unboundVariable) fun _ => ends_getArrayValue hmode h hs _ _
  · rcases w.variableValue s.rest tok with ⟨_ | text, rest⟩
    · exact Act.Settles.modify ends_unboundVariable
    · exact Act.Settles.modify (Act.Settles.pure ⟨rfl, rfl, rfl⟩)

theorem ends_valueExpr (h : w.NestsAt depth) (hs : s.stack.length = depth)
    (text : Option (List Char)) :
    w.Ends (fun r => valueExpr r text) s fun _ s' => InPlace s s' := by
  cases text with
  | none => exact Act.Settles.pure InPlace.rfl
  | some text =>
      refine Act.Settles.ite (fun _ => Act.Settles.pure InPlace.rfl) fun _ => Act.Settles.read ?_
      refine (h text s hs).bind fun val t ht => Act.Settles.read (Act.Settles.modify
        (Act.Settles.pure ?_))
      exact ⟨ht.stack, ht.tp, ht.curtok⟩

theorem ends_exprStreval (hmode : ∀ rest, w.noLongjmp rest = false) (h : w.NestsAt depth)
    (hs : s.stack.length = depth) (tok : HeapString) (element : Bool) :
    w.Ends (fun r => w.exprStreval r tok element) s fun _ s' => InPlace s s' := by
  refine Act.Settles.read (Act.Settles.ite (fun _ => Act.Settles.pure InPlace.rfl) fun _ => ?_)
  refine (ends_referenceValue hmode h hs _ _).bind fun ⟨text, ind⟩ t ht => Act.Settles.read ?_
  refine Act.Settles.ite (fun hless => absurd hless (by rw [ht.stack]; exact Nat.lt_irrefl _))
    fun _ => ?_
  have htdepth : t.stack.length = depth := by rw [ht.stack, hs]
  refine (ends_valueExpr h htdepth text).bind fun tval u hu => Act.Settles.modify
    (Act.Settles.pure ?_)
  have hplace := ht.trans hu
  exact ⟨hplace.stack, hplace.tp, hplace.curtok⟩

/-! ## Bindings -/

theorem ends_bindIntVariable (hmode : ∀ rest, w.noLongjmp rest = false) (h : w.NestsAt depth)
    (hs : s.stack.length = depth) (lhs : List Char) (value : Int64) :
    w.Ends (fun r => w.bindIntVariable r lhs value) s fun _ s' => InPlace s s' := by
  refine Act.Settles.read (Act.Settles.ite (fun _ => ?_) fun _ => ends_runCode hmode h _ hs)
  cases w.arrayVariable s.rest (w.noexpand s) lhs with
  | invalid => exact Act.Settles.pure InPlace.rfl
  | assoc => exact ends_runCode hmode h _ hs
  | indexed =>
      refine (ends_arrayExpandIndex hmode h hs _ _).bind fun ind t ht => Act.Settles.read ?_
      exact Act.Settles.modify (Act.Settles.pure ⟨ht.stack, ht.tp, ht.curtok⟩)

theorem ends_exprBindVariable (hmode : ∀ rest, w.noLongjmp rest = false) (h : w.NestsAt depth)
    (hs : s.stack.length = depth) (lhs : List Char) (value : Int64) :
    w.Ends (fun r => w.exprBindVariable r lhs value) s fun _ s' => InPlace s s' := by
  refine Act.Settles.ite (fun _ => Act.Settles.pure InPlace.rfl) fun _ => Act.Settles.modify ?_
  have hbind := ends_bindIntVariable (s := { s with log := s.log ++ [.bind lhs value] }) hmode h hs
    lhs value
  refine hbind.bind fun allowed t ht => ?_
  exact Act.Settles.ite (fun _ => Act.Settles.pure ⟨ht.stack, ht.tp, ht.curtok⟩)
    fun _ => Act.Settles.jump nofun

theorem ends_bindIncrement (hmode : ∀ rest, w.noLongjmp rest = false) (h : w.NestsAt depth)
    (hs : s.stack.length = depth) (value : Int64) :
    w.Ends (fun r => w.bindIncrement r value) s fun _ s' => InPlace s s' := by
  refine Act.Settles.read (Act.Settles.ite (fun _ => ?_) fun _ => Act.Settles.pure InPlace.rfl)
  exact Act.Settles.ite (fun _ => ends_exprBindVariable hmode h hs _ _)
    fun _ => ends_exprBindVariable hmode h hs _ _

theorem ends_bindAssigned (hmode : ∀ rest, w.noLongjmp rest = false) (h : w.NestsAt depth)
    (hs : s.stack.length = depth) (lhs : List Char) (lind : Int) (value : Int64) :
    w.Ends (fun r => w.bindAssigned r lhs lind value) s fun _ s' => InPlace s s' := by
  refine Act.Settles.read (Act.Settles.ite (fun _ => ?_) fun _ => Act.Settles.pure InPlace.rfl)
  exact Act.Settles.ite (fun _ => ends_exprBindVariable hmode h hs _ _)
    fun _ => ends_exprBindVariable hmode h hs _ _

end ExprWorld

end Rash
