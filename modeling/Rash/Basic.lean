import Mathlib.Logic.Basic

/-!
# Statuses and non-local jumps

The exit statuses and the codes that `jump_to_top_level` throws to `top_level`, and what
the two loops that catch them do with each code.
-/

namespace Rash

/-- An exit status, as the executor's functions return it (a C `int`). -/
abbrev Status := Int

def executionSuccess : Status := 0

def executionFailure : Status := 1

/-- The codes of bashjmp.h that reach `top_level`. -/
inductive JumpCode
  | forceEof
  | discard
  | exitProg
  | errExit
  | sigExit
  | exitBltin
  deriving DecidableEq, Repr

/-- What a loop does with the command it caught a jump from. -/
inductive LoopAction
  | nextCommand
  | leave
  deriving DecidableEq, Repr

/-- The switch of `reader_loop`, with `last_command_exit_value` before and after it: only
`DISCARD` outside a subshell reads on, and it leaves a non-zero status alone. -/
def readerLoopCaught (subshell : Bool) (code : JumpCode) (last : Status) :
    LoopAction × Status :=
  match code with
  | .errExit => (.leave, last)
  | .forceEof => (.leave, last)
  | .exitProg => (.leave, last)
  | .exitBltin => (.leave, last)
  | .discard =>
      (if subshell then .leave else .nextCommand, if last = 0 then executionFailure else last)
  | .sigExit => (.leave, last)

/-- The switch of `parse_and_execute`: every code but `DISCARD` outside a subshell is
thrown again once its frame is unwound. -/
def parseAndExecuteCaught (subshell : Bool) (code : JumpCode) (last : Status) :
    LoopAction × Status :=
  match code with
  | .errExit => (.leave, last)
  | .forceEof => (.leave, last)
  | .exitProg => (.leave, last)
  | .exitBltin => (.leave, last)
  | .discard => (if subshell then .leave else .nextCommand, executionFailure)
  | .sigExit => (.leave, last)

theorem parseAndExecuteCaught_action (subshell : Bool) (code : JumpCode) (last : Status) :
    (parseAndExecuteCaught subshell code last).1 =
      (readerLoopCaught subshell code last).1 := by
  cases code <;> rfl

end Rash
