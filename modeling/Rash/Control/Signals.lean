import Rash.Control.CommandTree
import Mathlib.Tactic.Common

/-!
# Loops that are left by signals

The meaning of a command without `breaking`, `continuing` and `loop_level`.  An answer says which
loops are still to be left, what stands behind a `break` is never started, and the number of
enclosing loops is an argument.  The executor's globals encode just that.
-/

namespace Rash

namespace CommandTree

/-! ## Answers -/

/-- `brk n` and `cont n` leave the `n` innermost loops and break or continue the next one. -/
inductive Signal
  | none
  | brk (n : ℕ)
  | cont (n : ℕ)
  deriving DecidableEq

namespace Signal

/-- How many loops the signal is about -/
def depth : Signal → ℕ
  | none => 0
  | brk n => n + 1
  | cont n => n + 1

/-- The signal outside the innermost loop -/
def lower : Signal → Signal
  | brk (n + 1) => brk n
  | cont (n + 1) => cont n
  | _ => none

/-- Whether the innermost loop takes its next turn -/
def goesOn : Signal → Bool
  | none => true
  | cont 0 => true
  | _ => false

def breaking : Signal → ℕ
  | brk n => n + 1
  | _ => 0

def continuing : Signal → ℕ
  | cont n => n + 1
  | _ => 0

theorem lower_depth (signal : Signal) : signal.lower.depth = signal.depth - 1 := by
  rcases signal with _ | ⟨_ | n⟩ | ⟨_ | n⟩ <;> rfl

theorem lower_of_goesOn {signal : Signal} (h : signal.goesOn = true) : signal.lower = none := by
  rcases signal with _ | ⟨_ | n⟩ | ⟨_ | n⟩ <;> simp [goesOn] at h <;> rfl

@[simp] theorem lower_breaking (signal : Signal) :
    signal.lower.breaking = signal.breaking - 1 := by
  rcases signal with _ | ⟨_ | n⟩ | ⟨_ | n⟩ <;> rfl

@[simp] theorem lower_continuing (signal : Signal) :
    signal.lower.continuing = signal.continuing - 1 := by
  rcases signal with _ | ⟨_ | n⟩ | ⟨_ | n⟩ <;> rfl

theorem set_iff (signal : Signal) :
    signal.breaking ≠ 0 ∨ signal.continuing ≠ 0 ↔ signal ≠ none := by
  rcases signal with _ | n | n <;> simp [breaking, continuing]

end Signal

structure Answer where
  status : Status
  signal : Signal

/-- Where a command stands: the loops and functions around it and the `eval`s -/
structure Place where
  loops : ℕ
  functions : ℕ
  evals : ℕ

/-- How a command is left: out of how many loops and functions, and while which signal stood.
`leaked` is where the executor goes on with loops counted, or a `break` standing, of a command that
it has left. -/
inductive Halt
  | left (escape : Escape) (loops functions : ℕ) (signal : Signal)
  | leaked

abbrev Meaning (σ : Type) (α : Type) := Act (Ambient σ) Halt α

/-- A jump from a place -/
def Place.halt (place : Place) (escape : Escape) (signal : Signal) : Halt :=
  .left escape place.loops place.functions signal

variable {σ W : Type}

/-! ## The meaning of a command -/

/-- The rest of the shell, while `signal` stands -/
def expand {α : Type} (place : Place) (signal : Signal) (f : Act (Ambient σ) Throw α) :
    Meaning σ α := fun a =>
  match f a with
  | (.ok x, b) => (.ok x, b)
  | (.error throw, b) => (.error (place.halt (throw.escape place.evals) signal), b)

def done (status : Status) : Meaning σ Answer := pure ⟨status, .none⟩

/-- Nothing follows a signal. -/
def andThen (first : Meaning σ Answer) (second : Status → Meaning σ Answer) :
    Meaning σ Answer := do
  let answer ← first
  if answer.signal = .none then second answer.status else pure answer

/-- A turn of a loop, and the loop's next turn -/
def turn (body : Meaning σ Answer) (next : Status → Meaning σ Answer) : Meaning σ Answer := do
  let answer ← body
  if answer.signal.goesOn then next answer.status else pure ⟨answer.status, answer.signal.lower⟩

def breakMeaning (place : Place) (n : Int) : Meaning σ Answer :=
  if place.loops = 0 then done executionSuccess
  else if n ≤ 0 then pure ⟨executionFailure, .brk (place.loops - 1)⟩
  else pure ⟨executionSuccess, .brk (min n.toNat place.loops - 1)⟩

def continueMeaning (place : Place) (n : Int) : Meaning σ Answer :=
  if place.loops = 0 then done executionSuccess
  else if n ≤ 0 then pure ⟨executionFailure, .brk (place.loops - 1)⟩
  else pure ⟨executionSuccess, .cont (min n.toNat place.loops - 1)⟩

def returnMeaning (place : Place) (n : Status) : Meaning σ Answer :=
  if place.functions = 0 then done exUsage else Act.jump (place.halt (.returned n) .none)

def Ambient.leaveFunction (sh : Shell σ W) (a : Ambient σ) : Ambient σ :=
  { a with world := sh.leaveFunction a.world }

/-- The place of a function's body -/
def Place.inFunction (sh : Shell σ W) (place : Place) : Place :=
  { place with
    loops := if sh.functionsHideLoops then 0 else place.loops
    functions := place.functions + 1 }

def functionMeaning (sh : Shell σ W) (mean : Place → Command W → Meaning σ Answer)
    (place : Place) (body : Command W) : Meaning σ Answer := fun a =>
  match mean (place.inFunction sh) body a with
  | (.ok answer, b) => (.ok answer, b.leaveFunction sh)
  | (.error (.left (.returned value) _ _ _), b) => (.ok ⟨value, .none⟩, b.leaveFunction sh)
  | (.error (.left (.nearest code) loops functions signal), b) =>
      if place.evals = 0 then (.error (.left (.nearest code) loops functions signal), b)
      else (.error (place.halt (.nearest code) signal), b.leaveFunction sh)
  | (.error (.left escape _ _ signal), b) =>
      (.error (place.halt escape signal), b.leaveFunction sh)
  | (.error .leaked, b) => (.error .leaked, b)

/-- The commands of an `eval`.  A jump that it catches goes on with the next one. -/
def evalTurns (sh : Shell σ W) (mean : Command W → Meaning σ Answer) (place : Place) :
    List (Command W) → Status → Meaning σ Answer
  | [], lastResult => done lastResult
  | command :: rest, _ => fun a =>
      match mean command a with
      | (.ok answer, b) =>
          if answer.signal = .none then evalTurns sh mean place rest answer.status b
          else (.ok answer, b)
      | (.error (.left (.nearest code) loops functions signal), b) =>
          match parseAndExecuteCaught sh.subshellEnvironment code b.lastCommandExitValue with
          | (.leave, last) =>
              (.error (.left (.nearest code) loops functions signal),
                { b with lastCommandExitValue := last })
          | (.nextCommand, last) =>
              if loops = place.loops ∧ functions = place.functions ∧ signal = .none then
                evalTurns sh mean place rest last { b with lastCommandExitValue := last }
              else (.error .leaked, b)
      | halted => halted

/-- The place of the commands of an `eval` -/
def Place.inEval (place : Place) : Place := { place with evals := place.evals + 1 }

def evalMeaning (sh : Shell σ W) (mean : Place → Command W → Meaning σ Answer) (place : Place)
    (commands : List (Command W)) : Meaning σ Answer := fun a =>
  match evalTurns sh (mean place.inEval) place.inEval commands executionSuccess a with
  | (.error (.left escape _ functions signal), b) =>
      (.error (.left escape place.loops functions signal), b)
  | answer => answer

def leafMeaning (sh : Shell σ W) (mean : Place → Command W → Meaning σ Answer) (place : Place)
    (words : W) : Meaning σ Answer := do
  match ← expand place .none (sh.leaf words) with
  | .status n => done n
  | .breakLoops n => breakMeaning place n
  | .continueLoops n => continueMeaning place n
  | .returnValue n => returnMeaning place n
  | .function body => functionMeaning sh mean place body
  | .evaluate commands => evalMeaning sh mean place commands

def connectionMeaning (sh : Shell σ W) (mean : Command W → Meaning σ Answer) (place : Place)
    (connector : Connector) (first second : Command W) : Meaning σ Answer :=
  match connector with
  | .ampersand =>
      match first with
      | .null => done executionSuccess
      | first => do
          expand place .none (sh.asyncCommand first)
          mean second
  | .semicolon => andThen (mean first) fun _ => mean second
  | .andAnd => andThen (mean first) fun status =>
      if status = executionSuccess then mean second else done status
  | .orOr => andThen (mean first) fun status =>
      if status = executionSuccess then done status else mean second

def ifMeaning (mean : Command W → Meaning σ Answer) (test trueCase falseCase : Command W) :
    Meaning σ Answer :=
  andThen (mean test) fun status =>
    if status = executionSuccess then mean trueCase else mean falseCase

def clauseMatches (sh : Shell σ W) (place : Place) (signal : Signal) (word : String) :
    List W → Meaning σ Bool
  | [] => pure false
  | pattern :: rest => do
      if ← expand place signal (sh.caseMatch pattern word) then pure true
      else clauseMatches sh place signal word rest

/-- What a command behind a signal comes to -/
def skipped (signal : Signal) : Meaning σ Answer := do
  let a ← Act.read
  pure ⟨a.lastCommandExitValue, signal⟩

/-- The clauses of a `case`.  Behind a signal no action is started, but `;;&` still tries the
patterns that follow. -/
def clausesMeaning (sh : Shell σ W) (mean : Command W → Meaning σ Answer) (place : Place)
    (word : String) : Bool → List (Clause W) → Answer → Meaning σ Answer
  | _, [], answer => pure answer
  | falls, .clause patterns ending action :: rest, answer => do
      let found ←
        (if falls then pure true else clauseMatches sh place answer.signal word patterns)
      if found then do
        let answer ← (if answer.signal = .none then mean action else skipped answer.signal)
        match ending with
        | .leaveCase => pure answer
        | .fallthrough => clausesMeaning sh mean place word true rest answer
        | .testNext => clausesMeaning sh mean place word false rest answer
      else clausesMeaning sh mean place word false rest answer

def caseMeaning (sh : Shell σ W) (mean : Command W → Meaning σ Answer) (place : Place) (word : W)
    (clauses : List (Clause W)) : Meaning σ Answer := do
  let word ← expand place .none (sh.caseWord word)
  clausesMeaning sh mean place word false clauses ⟨executionSuccess, .none⟩

/-! ## The meaning of a loop -/

/-- The place of a loop's head and body -/
def Place.inLoop (place : Place) : Place := { place with loops := place.loops + 1 }

def forTurns (sh : Shell σ W) (mean : Command W → Meaning σ Answer) (place : Place) (head : W)
    (action : Command W) : List String → Status → Meaning σ Answer
  | [], retval => done retval
  | word :: rest, _ => do
      if ← expand place .none (sh.bindLoop head word) then
        turn (mean action) (forTurns sh mean place head action rest)
      else done executionFailure

def forMeaning (sh : Shell σ W) (mean : Place → Command W → Meaning σ Answer) (place : Place)
    (head : W) (action : Command W) : Meaning σ Answer := do
  if ← expand place .none (sh.checkIdentifier head) then
    let list ← expand place.inLoop .none (sh.forWords head)
    forTurns sh (mean place.inLoop) place.inLoop head action list executionSuccess
  else done executionFailure

/-- A signal out of the test ends the loop where its status does; otherwise it is one out of the
body. -/
def whileTurns (mean : Command W → Meaning σ Answer) (place : Place) (isUntil : Bool)
    (test action : Command W) : ℕ → Status → Meaning σ Answer
  | 0, _ => Act.jump (place.halt .outOfFuel .none)
  | fuel + 1, bodyStatus => do
      let answer ← mean test
      if testEnds isUntil answer.status then pure ⟨bodyStatus, answer.signal.lower⟩
      else
        turn (if answer.signal = .none then mean action else skipped answer.signal)
          (whileTurns mean place isUntil test action fuel)

def arithTurns (sh : Shell σ W) (mean : Command W → Meaning σ Answer) (place : Place)
    (test step : W) (action : Command W) : ℕ → Status → Meaning σ Answer
  | 0, _ => Act.jump (place.halt .outOfFuel .none)
  | fuel + 1, bodyStatus => do
      match ← expand place .none (sh.arith test) with
      | none => done executionFailure
      | some value =>
          if value = 0 then done bodyStatus
          else
            turn (mean action) fun bodyStatus => do
              match ← expand place .none (sh.arith step) with
              | none => done executionFailure
              | some _ => arithTurns sh mean place test step action fuel bodyStatus

def arithForMeaning (sh : Shell σ W) (mean : Place → Command W → Meaning σ Answer) (fuel : ℕ)
    (place : Place) (init test step : W) (action : Command W) : Meaning σ Answer := do
  match ← expand place.inLoop .none (sh.arith init) with
  | none => done executionFailure
  | some _ => arithTurns sh (mean place.inLoop) place.inLoop test step action fuel executionSuccess

def selectTurns (sh : Shell σ W) (mean : Command W → Meaning σ Answer) (place : Place) (head : W)
    (action : Command W) (list : List String) : ℕ → Meaning σ Answer
  | 0 => Act.jump (place.halt .outOfFuel .none)
  | fuel + 1 => do
      match ← expand place .none (sh.selectQuery list) with
      | none => done executionFailure
      | some selection =>
          if ← expand place .none (sh.bindLoop head selection) then
            turn (mean action) fun _ => selectTurns sh mean place head action list fuel
          else done executionFailure

def selectMeaning (sh : Shell σ W) (mean : Place → Command W → Meaning σ Answer) (fuel : ℕ)
    (place : Place) (head : W) (action : Command W) : Meaning σ Answer := do
  if ← expand place .none (sh.checkIdentifier head) then
    let list ← expand place.inLoop .none (sh.selectWords head)
    if list = [] then Act.jump .leaked
    else selectTurns sh (mean place.inLoop) place.inLoop head action list fuel
  else done executionFailure

def valueMeaning (sh : Shell σ W) (mean : Place → Command W → Meaning σ Answer) (fuel : ℕ)
    (place : Place) : Value W → Meaning σ Answer
  | .leaf words => leafMeaning sh mean place words
  | .connection connector first second =>
      connectionMeaning sh (mean place) place connector first second
  | .forCom head action => forMeaning sh mean place head action
  | .arithFor init test step action => arithForMeaning sh mean fuel place init test step action
  | .selectCom head action => selectMeaning sh mean fuel place head action
  | .caseCom word clauses => caseMeaning sh (mean place) place word clauses
  | .whileCom isUntil test action =>
      whileTurns (mean place.inLoop) place.inLoop isUntil test action fuel executionSuccess
  | .ifCom test trueCase falseCase => ifMeaning (mean place) test trueCase falseCase
  | .group command => mean place command

/-- The meaning of a command: its status and the signal that it leaves -/
def meaning (sh : Shell σ W) : ℕ → Place → Command W → Meaning σ Answer
  | _, _, .null => done executionSuccess
  | 0, place, .command _ _ => Act.jump (place.halt .outOfFuel .none)
  | fuel + 1, place, .command invert value => do
      let answer ← valueMeaning sh (meaning sh fuel) fuel place value
      let status := invertStatus invert answer.status
      Act.modify fun a => { a with lastCommandExitValue := status }
      pure ⟨status, answer.signal⟩

end CommandTree

end Rash
