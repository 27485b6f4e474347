import Rash.Basic
import Rash.Lib.Act
import Mathlib.Data.Nat.Notation

/-!
# Command trees

`execute_command_internal` over the compound commands of execute_cmd.c, with `break`, `continue`,
`return`, functions and `eval`.  The globals `breaking` and `continuing` say how many loops are to
be left; while one is set every command is skipped.  Expansions, assignments and the commands that
are no compound commands are parameters, and a command that runs in a child is one step.
-/

namespace Rash

namespace CommandTree

/-! ## Commands -/

inductive Connector
  | semicolon
  | andAnd
  | orOr
  | ampersand
  deriving DecidableEq

/-- `;;`, `;&` (`CASEPAT_FALLTHROUGH`) and `;;&` (`CASEPAT_TESTNEXT`) -/
inductive ClauseEnd
  | leaveCase
  | fallthrough
  | testNext
  deriving DecidableEq

mutual

/-- A `COMMAND`, with `CMD_INVERT_RETURN`; `null` is no command. -/
inductive Command (W : Type)
  | null
  | command (invert : Bool) (value : Value W)

inductive Value (W : Type)
  | leaf (words : W)
  | connection (connector : Connector) (first second : Command W)
  | forCom (head : W) (action : Command W)
  | arithFor (init test step : W) (action : Command W)
  | selectCom (head : W) (action : Command W)
  | caseCom (word : W) (clauses : List (Clause W))
  | whileCom (isUntil : Bool) (test action : Command W)
  | ifCom (test trueCase falseCase : Command W)
  | group (command : Command W)

inductive Clause (W : Type)
  | clause (patterns : List W) (ending : ClauseEnd) (action : Command W)

end

/-! ## The rest of the shell -/

/-- A jump out of an expansion, a builtin or a handler: `jump_to_top_level`,
`exp_jump_to_top_level` or `throw_to_top_level`. -/
inductive Throw
  | jump (code : JumpCode)
  | expansion (code : JumpCode)
  | interrupt (code : JumpCode)
  deriving DecidableEq

/-- What a command that is no compound command comes to -/
inductive LeafAction (W : Type)
  | status (n : Status)
  /-- `break` and `continue` with their numeric argument -/
  | breakLoops (n : Int)
  | continueLoops (n : Int)
  | returnValue (n : Status)
  | function (body : Command W)
  | evaluate (commands : List (Command W))

/-- What expansions and simple commands read and change -/
structure Ambient (σ : Type) where
  world : σ
  lastCommandExitValue : Status

structure Shell (σ W : Type) where
  leaf : W → Act (Ambient σ) Throw (LeafAction W)
  asyncCommand : Command W → Act (Ambient σ) Throw Unit
  checkIdentifier : W → Act (Ambient σ) Throw Bool
  forWords : W → Act (Ambient σ) Throw (List String)
  selectWords : W → Act (Ambient σ) Throw (List String)
  bindLoop : W → String → Act (Ambient σ) Throw Bool
  selectQuery : List String → Act (Ambient σ) Throw (Option String)
  caseWord : W → Act (Ambient σ) Throw String
  caseMatch : W → String → Act (Ambient σ) Throw Bool
  /-- `none` where the expression has an error -/
  arith : W → Act (Ambient σ) Throw (Option Int)
  leaveFunction : σ → σ
  subshellEnvironment : Bool
  /-- `shell_compatibility_level > 43` -/
  functionsHideLoops : Bool

structure Control (σ : Type) extends Ambient σ where
  breaking : ℕ
  continuing : ℕ
  loopLevel : ℕ
  returnCatchFlag : ℕ
  parseAndExecuteLevel : ℕ

/-- How a command is left: to the nearest catch of `top_level`, to the reader loop behind
`top_level_cleanup`, or to `return_catch`. -/
inductive Escape
  | nearest (code : JumpCode)
  | cleaned (code : JumpCode)
  | returned (value : Status)
  | outOfFuel

def Throw.escape (parseAndExecuteLevel : ℕ) : Throw → Escape
  | .jump code => .nearest code
  | .expansion code => if parseAndExecuteLevel = 0 then .cleaned code else .nearest code
  | .interrupt code => .cleaned code

abbrev Run (σ : Type) := Act (Control σ) Escape

variable {σ W : Type}

def outside {α : Type} (f : Act (Ambient σ) Throw α) : Run σ α := fun s =>
  match f s.toAmbient with
  | (.ok a, t) => (.ok a, { s with toAmbient := t })
  | (.error throw, t) =>
      (.error (throw.escape s.parseAndExecuteLevel), { s with toAmbient := t })

/-! ## Builtins and functions -/

/-- `EX_USAGE` -/
def exUsage : Status := 258

def breakBuiltin (n : Int) : Run σ Status := fun s =>
  if s.loopLevel = 0 then (.ok executionSuccess, s)
  else if n ≤ 0 then (.ok executionFailure, { s with breaking := s.loopLevel })
  else (.ok executionSuccess, { s with breaking := min n.toNat s.loopLevel })

/-- An argument below 1 sets `breaking` here too. -/
def continueBuiltin (n : Int) : Run σ Status := fun s =>
  if s.loopLevel = 0 then (.ok executionSuccess, s)
  else if n ≤ 0 then (.ok executionFailure, { s with breaking := s.loopLevel })
  else (.ok executionSuccess, { s with continuing := min n.toNat s.loopLevel })

def returnBuiltin (n : Status) : Run σ Status := fun s =>
  if s.returnCatchFlag = 0 then (.ok exUsage, s) else (.error (.returned n), s)

def Control.enterFunction (sh : Shell σ W) (s : Control σ) : Control σ :=
  { s with
    loopLevel := if sh.functionsHideLoops then 0 else s.loopLevel
    returnCatchFlag := s.returnCatchFlag + 1 }

/-- `run_unwind_frame ("function_calling")`, of a function entered in `s` -/
def Control.leaveFunction (sh : Shell σ W) (s t : Control σ) : Control σ :=
  { t with
    world := sh.leaveFunction t.world
    loopLevel := s.loopLevel
    returnCatchFlag := s.returnCatchFlag }

/-- `execute_function`; its unwind frame is not run where the reader loop catches a jump that
cleans nothing up. -/
def executeFunction (sh : Shell σ W) (run : Command W → Run σ Status) (body : Command W) :
    Run σ Status := fun s =>
  match run body (s.enterFunction sh) with
  | (.ok result, t) => (.ok result, s.leaveFunction sh t)
  | (.error (.returned value), t) => (.ok value, s.leaveFunction sh t)
  | (.error (.nearest code), t) =>
      (.error (.nearest code),
        if s.parseAndExecuteLevel = 0 then t else s.leaveFunction sh t)
  | (.error e, t) => (.error e, s.leaveFunction sh t)

/-- The loop of `parse_and_execute` -/
def evaluateLoop (sh : Shell σ W) (run : Command W → Run σ Status) :
    List (Command W) → Status → Run σ Status
  | [], lastResult => pure lastResult
  | command :: rest, _ => fun s =>
      match run command s with
      | (.ok lastResult, t) => evaluateLoop sh run rest lastResult t
      | (.error (.nearest code), t) =>
          match parseAndExecuteCaught sh.subshellEnvironment code t.lastCommandExitValue with
          | (.nextCommand, last) =>
              evaluateLoop sh run rest last { t with lastCommandExitValue := last }
          | (.leave, last) => (.error (.nearest code), { t with lastCommandExitValue := last })
      | (.error e, t) => (.error e, t)

def parseAndExecute (sh : Shell σ W) (run : Command W → Run σ Status)
    (commands : List (Command W)) : Run σ Status := fun s =>
  let inner := { s with parseAndExecuteLevel := s.parseAndExecuteLevel + 1 }
  match evaluateLoop sh run commands executionSuccess inner with
  | (answer, t) => (answer, { t with
      loopLevel := s.loopLevel, parseAndExecuteLevel := s.parseAndExecuteLevel })

def executeLeaf (sh : Shell σ W) (run : Command W → Run σ Status) (words : W) : Run σ Status := do
  match ← outside (sh.leaf words) with
  | .status n => pure n
  | .breakLoops n => breakBuiltin n
  | .continueLoops n => continueBuiltin n
  | .returnValue n => returnBuiltin n
  | .function body => executeFunction sh run body
  | .evaluate commands => parseAndExecute sh run commands

/-! ## Lists and conditionals -/

def executeConnection (sh : Shell σ W) (run : Command W → Run σ Status) (connector : Connector)
    (first second : Command W) : Run σ Status :=
  match connector with
  | .ampersand =>
      match first with
      | .null => pure executionSuccess
      | first => do
          outside (sh.asyncCommand first)
          run second
  | .semicolon => do
      let _ ← run first
      run second
  | .andAnd => do
      let execResult ← run first
      if execResult = executionSuccess then run second else pure execResult
  | .orOr => do
      let execResult ← run first
      if execResult = executionSuccess then pure execResult else run second

def executeIf (run : Command W → Run σ Status) (test trueCase falseCase : Command W) :
    Run σ Status := do
  let returnValue ← run test
  if returnValue = executionSuccess then run trueCase else run falseCase

/-- The patterns of a clause up to the first that matches -/
def matchClause (sh : Shell σ W) (word : String) : List W → Run σ Bool
  | [] => pure false
  | pattern :: rest => do
      if ← outside (sh.caseMatch pattern word) then pure true else matchClause sh word rest

/-- The clauses of a `case`; behind `;&` the action of the next one is run without a match. -/
def caseClauses (sh : Shell σ W) (run : Command W → Run σ Status) (word : String) :
    Bool → List (Clause W) → Status → Run σ Status
  | _, [], retval => pure retval
  | falls, .clause patterns ending action :: rest, retval => do
      let found ← (if falls then pure true else matchClause sh word patterns)
      if found then do
        let retval ← run action
        match ending with
        | .leaveCase => pure retval
        | .fallthrough => caseClauses sh run word true rest retval
        | .testNext => caseClauses sh run word false rest retval
      else caseClauses sh run word false rest retval

def executeCase (sh : Shell σ W) (run : Command W → Run σ Status) (word : W)
    (clauses : List (Clause W)) : Run σ Status := do
  let word ← outside (sh.caseWord word)
  caseClauses sh run word false clauses executionSuccess

/-! ## Loops -/

def enterLoop : Run σ Unit := Act.modify fun s => { s with loopLevel := s.loopLevel + 1 }

def leaveLoop : Run σ Unit := Act.modify fun s => { s with loopLevel := s.loopLevel - 1 }

/-- What every loop does behind its body: whether it goes on. -/
def loopGoesOn : Run σ Bool := fun s =>
  if s.breaking ≠ 0 then (.ok false, { s with breaking := s.breaking - 1 })
  else if s.continuing ≠ 0 then
    (.ok (decide (s.continuing - 1 = 0)), { s with continuing := s.continuing - 1 })
  else (.ok true, s)

/-- What `while` and `until` do where their test ends them. -/
def endOfTest : Run σ Unit := Act.modify fun s =>
  { s with breaking := s.breaking - 1, continuing := s.continuing - 1 }

def forLoop (sh : Shell σ W) (run : Command W → Run σ Status) (head : W) (action : Command W) :
    List String → Status → Run σ Status
  | [], retval => pure retval
  | word :: rest, _ => do
      if ← outside (sh.bindLoop head word) then
        let retval ← run action
        if ← loopGoesOn then forLoop sh run head action rest retval else pure retval
      else pure executionFailure

def executeFor (sh : Shell σ W) (run : Command W → Run σ Status) (head : W) (action : Command W) :
    Run σ Status := do
  if ← outside (sh.checkIdentifier head) then
    enterLoop
    let list ← outside (sh.forWords head)
    let retval ← forLoop sh run head action list executionSuccess
    leaveLoop
    pure retval
  else pure executionFailure

/-- Whether the test's status ends the loop -/
def testEnds (isUntil : Bool) (status : Status) : Bool :=
  if isUntil then status = executionSuccess else status ≠ executionSuccess

def whileLoop (run : Command W → Run σ Status) (isUntil : Bool) (test action : Command W) :
    ℕ → Status → Run σ Status
  | 0, _ => Act.jump .outOfFuel
  | fuel + 1, bodyStatus => do
      let returnValue ← run test
      if testEnds isUntil returnValue then do
        endOfTest
        pure bodyStatus
      else do
        let bodyStatus ← run action
        if ← loopGoesOn then whileLoop run isUntil test action fuel bodyStatus else pure bodyStatus

def executeWhileOrUntil (run : Command W → Run σ Status) (fuel : ℕ) (isUntil : Bool)
    (test action : Command W) : Run σ Status := do
  enterLoop
  let bodyStatus ← whileLoop run isUntil test action fuel executionSuccess
  leaveLoop
  pure bodyStatus

def arithLoop (sh : Shell σ W) (run : Command W → Run σ Status) (test step : W)
    (action : Command W) : ℕ → Status → Run σ Status
  | 0, _ => Act.jump .outOfFuel
  | fuel + 1, bodyStatus => do
      let value ← outside (sh.arith test)
      if ← loopGoesOn then
        match value with
        | none => pure executionFailure
        | some value =>
            if value = 0 then pure bodyStatus
            else do
              let bodyStatus ← run action
              if ← loopGoesOn then
                match ← outside (sh.arith step) with
                | none => pure executionFailure
                | some _ => arithLoop sh run test step action fuel bodyStatus
              else pure bodyStatus
      else pure (if value.isSome then bodyStatus else executionFailure)

def executeArithFor (sh : Shell σ W) (run : Command W → Run σ Status) (fuel : ℕ)
    (init test step : W) (action : Command W) : Run σ Status := do
  enterLoop
  let bodyStatus ← (do
    match ← outside (sh.arith init) with
    | none => pure executionFailure
    | some _ => arithLoop sh run test step action fuel executionSuccess)
  leaveLoop
  pure bodyStatus

def selectLoop (sh : Shell σ W) (run : Command W → Run σ Status) (head : W) (action : Command W)
    (list : List String) : ℕ → Run σ Status
  | 0 => Act.jump .outOfFuel
  | fuel + 1 => do
      match ← outside (sh.selectQuery list) with
      | none => pure executionFailure
      | some selection =>
          if ← outside (sh.bindLoop head selection) then
            let retval ← run action
            if ← loopGoesOn then selectLoop sh run head action list fuel else pure retval
          else pure executionFailure

/-- Where the list is empty it returns with `loop_level` raised. -/
def executeSelect (sh : Shell σ W) (run : Command W → Run σ Status) (fuel : ℕ) (head : W)
    (action : Command W) : Run σ Status := do
  if ← outside (sh.checkIdentifier head) then
    enterLoop
    let list ← outside (sh.selectWords head)
    if list = [] then pure executionSuccess
    else
      let retval ← selectLoop sh run head action list fuel
      leaveLoop
      pure retval
  else pure executionFailure

/-! ## `execute_command_internal` -/

def executeValue (sh : Shell σ W) (run : Command W → Run σ Status) (fuel : ℕ) :
    Value W → Run σ Status
  | .leaf words => executeLeaf sh run words
  | .connection connector first second => executeConnection sh run connector first second
  | .forCom head action => executeFor sh run head action
  | .arithFor init test step action => executeArithFor sh run fuel init test step action
  | .selectCom head action => executeSelect sh run fuel head action
  | .caseCom word clauses => executeCase sh run word clauses
  | .whileCom isUntil test action => executeWhileOrUntil run fuel isUntil test action
  | .ifCom test trueCase falseCase => executeIf run test trueCase falseCase
  | .group command => run command

def invertStatus (invert : Bool) (status : Status) : Status :=
  if invert then if status = executionSuccess then executionFailure else executionSuccess
  else status

def setLast (status : Status) : Run σ Unit :=
  Act.modify fun s => { s with lastCommandExitValue := status }

def executeCommand (sh : Shell σ W) : ℕ → Command W → Run σ Status
  | fuel, command => fun s =>
      if s.breaking ≠ 0 ∨ s.continuing ≠ 0 then (.ok s.lastCommandExitValue, s)
      else
        match command, fuel with
        | .null, _ => (.ok executionSuccess, s)
        | .command _ _, 0 => (.error .outOfFuel, s)
        | .command invert value, fuel + 1 =>
            (do
              let execResult ← executeValue sh (executeCommand sh fuel) fuel value
              setLast (invertStatus invert execResult)
              pure (invertStatus invert execResult)) s

/-! ## Sessions -/

/-- What `top_level_cleanup` resets -/
def Control.cleaned (s : Control σ) : Control σ :=
  { s with
    breaking := 0, continuing := 0, loopLevel := 0, returnCatchFlag := 0, parseAndExecuteLevel := 0 }

/-- What `reader_loop` does with a jump that it catches -/
def readerCaught (sh : Shell σ W) : Escape → Control σ → LoopAction × Control σ
  | .nearest code, t =>
      let caught := readerLoopCaught sh.subshellEnvironment code t.lastCommandExitValue
      (caught.1, { t with lastCommandExitValue := caught.2 })
  | .cleaned code, t =>
      let caught := readerLoopCaught sh.subshellEnvironment code t.lastCommandExitValue
      (caught.1, { t.cleaned with lastCommandExitValue := caught.2 })
  | _, t => (.leave, t)

/-- The states in which `reader_loop` starts the commands that it reads, and the one it ends in. -/
def readerLoop (sh : Shell σ W) (fuel : ℕ) : List (Command W) → Control σ → List (Control σ)
  | [], s => [s]
  | command :: rest, s =>
      s :: match executeCommand sh fuel command s with
        | (.ok _, t) => readerLoop sh fuel rest t
        | (.error escape, t) =>
            match readerCaught sh escape t with
            | (.nextCommand, t) => readerLoop sh fuel rest t
            | (.leave, _) => []

end CommandTree

end Rash
