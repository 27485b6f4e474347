import Rash.Words.Braces

/-!
# The test builtin

The parser of test.c, which evaluates what it reads.  The position and the number of arguments
are those of the whole argument vector, also within parentheses.
-/

namespace Rash

namespace TestCommand

/-- The calls of `test_syntax_error`. -/
inductive TestError
  | argumentExpected
  | integerExpected (arg : String)
  | parenExpected (found : Option String)
  | unaryOperatorExpected (arg : String)
  | binaryOperatorExpected (arg : String)
  | unexpected (arg : String)
  | tooManyArguments
  | missingBracket
  deriving DecidableEq

def TestError.message : TestError → String
  | .argumentExpected => "argument expected"
  | .integerExpected arg => arg ++ ": integer expected"
  | .parenExpected none => "`)' expected"
  | .parenExpected (some found) => "`)' expected, found " ++ found
  | .unaryOperatorExpected arg => arg ++ ": unary operator expected"
  | .binaryOperatorExpected arg => arg ++ ": binary operator expected"
  | .unexpected arg => "syntax error: `" ++ arg ++ "' unexpected"
  | .tooManyArguments => "too many arguments"
  | .missingBracket => "missing `]'"

/-- `test_binop`, without `PATTERN_MATCHING`. -/
def testBinop (op : String) : Bool :=
  op ∈ ["=", "<", ">", "==", "!=", "-nt", "-ot", "-lt", "-gt", "-eq", "-ef", "-ne", "-ge", "-le"]

def testUnop (op : String) : Bool :=
  op ∈ ["-a", "-b", "-c", "-d", "-e", "-f", "-g", "-h", "-k", "-n", "-o", "-p", "-r", "-s", "-t",
    "-u", "-v", "-w", "-x", "-z", "-G", "-L", "-O", "-S", "-N", "-R"]

/-- `ANDOR` -/
def andor (s : String) : Bool := s = "-a" || s = "-o"

/-- What a run of the builtin does not change.  The tests of the primaries depend on a state of
the shell and may change it. -/
structure Shell (σ : Type) where
  compat : ℕ
  posixly : Bool
  unaryTest : String → String → σ → Except TestError (Bool × σ)
  binaryTest : String → String → String → σ → Except TestError (Bool × σ)

/-- `argv` up to `argc`, and what stands there in it. -/
structure Args where
  argv : List String
  past : Option String

/-- A value, the position behind what was read, and the state. -/
abbrev Reading (σ : Type) := Except TestError (Bool × ℕ × σ)

variable {σ : Type}

/-- A test at the end of what a primary reads. -/
def Reading.ofTest (r : Except TestError (Bool × σ)) (pos : ℕ) : Reading σ :=
  match r with
  | .ok (value, s) => .ok (value, pos, s)
  | .error e => .error e

/-- Goes on with a value; without a result there is none. -/
def andThen (r : Option (Reading σ)) (f : Bool → ℕ → σ → Option (Reading σ)) :
    Option (Reading σ) :=
  match r with
  | some (.ok (value, pos, s)) => f value pos s
  | some (.error e) => some (.error e)
  | none => none

def negate (r : Reading σ) : Reading σ :=
  match r with
  | .ok (value, pos, s) => .ok (!value, pos, s)
  | .error e => .error e

namespace Args

variable (sh : Shell σ) (a : Args)

def argc : ℕ := a.argv.length

def arg (pos : ℕ) : String := a.argv.getD pos ""

def unaryOperator (pos : ℕ) (s : σ) : Reading σ :=
  let op := a.arg pos
  if !testUnop op then .ok (false, pos, s)
  else if !sh.posixly && op = "-t" then
    if pos + 1 < a.argc then
      if (Braces.validNumber (a.arg (pos + 1)).toList).isSome then
        .ofTest (sh.unaryTest op (a.arg (pos + 1)) s) (pos + 2)
      else if a.argc ≥ 5 && andor (a.arg (pos + 1)) then .ofTest (sh.unaryTest op "1" s) (pos + 1)
      else .error (.integerExpected (a.arg (pos + 1)))
    else .ofTest (sh.unaryTest op "1" s) (pos + 1)
  else if pos + 1 ≥ a.argc then .error .argumentExpected
  else .ofTest (sh.unaryTest op (a.arg (pos + 1)) s) (pos + 2)

def binaryOperator (pos : ℕ) (s : σ) : Reading σ :=
  let op := a.arg (pos + 1)
  if !testBinop op then .error (.binaryOperatorExpected op)
  else .ofTest (sh.binaryTest op (a.arg pos) (a.arg (pos + 2)) s) (pos + 3)

def twoArguments (pos : ℕ) (s : σ) : Reading σ :=
  if a.arg pos = "!" then .ok (a.arg (pos + 1) = "", pos + 2, s)
  else if testUnop (a.arg pos) then a.unaryOperator sh pos s
  else .error (.unaryOperatorExpected (a.arg pos))

/-- `ONE_ARG_TEST` -/
def oneArgTest (pos : ℕ) : Bool := a.arg pos ≠ ""

def threeArguments (pos : ℕ) (s : σ) : Reading σ :=
  if testBinop (a.arg (pos + 1)) then a.binaryOperator sh pos s
  else if andor (a.arg (pos + 1)) then
    .ok (if a.arg (pos + 1) = "-a" then a.oneArgTest pos && a.oneArgTest (pos + 2)
      else a.oneArgTest pos || a.oneArgTest (pos + 2), pos + 3, s)
  else if a.arg pos = "!" then
    if pos + 1 ≥ a.argc then .error .argumentExpected else negate (a.twoArguments sh (pos + 1) s)
  else if a.arg pos = "(" ∧ a.arg (pos + 2) = ")" then .ok (a.oneArgTest (pos + 1), pos + 3, s)
  else .error (.binaryOperatorExpected (a.arg (pos + 1)))

/-- The loop over leading `!`, with the arguments that are left. -/
def leadingNots : List String → ℕ → Bool → Except TestError (Bool × ℕ)
  | [], pos, value => .ok (value, pos)
  | x :: rest, pos, value =>
      if x = "!" then
        if rest = [] then .error .argumentExpected else leadingNots rest (pos + 1) (!value)
      else .ok (value, pos)

/-- The scan for the right parenthesis: the arguments that are left, the number of open
parentheses and the number of arguments before it. -/
def scanParen : List String → ℕ → ℕ → ℕ
  | [], _, nargs => nargs
  | x :: rest, count, nargs =>
      let count := if x = ")" then count - 1 else if x = "(" then count + 1 else count
      if count = 0 then nargs else scanParen rest count (nargs + 1)

mutual

def expr : ℕ → ℕ → σ → Option (Reading σ)
  | 0, _, _ => none
  | fuel + 1, pos, s => if pos ≥ a.argc then some (.error .argumentExpected) else or fuel pos s

def or : ℕ → ℕ → σ → Option (Reading σ)
  | 0, _, _ => none
  | fuel + 1, pos, s =>
      andThen (and fuel pos s) fun value pos s =>
        if pos < a.argc ∧ a.arg pos = "-o" then
          andThen (or fuel (pos + 1) s) fun v2 pos s => some (.ok (value || v2, pos, s))
        else some (.ok (value, pos, s))

def and : ℕ → ℕ → σ → Option (Reading σ)
  | 0, _, _ => none
  | fuel + 1, pos, s =>
      andThen (term fuel pos s) fun value pos s =>
        if pos < a.argc ∧ a.arg pos = "-a" then
          andThen (and fuel (pos + 1) s) fun v2 pos s => some (.ok (value && v2, pos, s))
        else some (.ok (value, pos, s))

def term : ℕ → ℕ → σ → Option (Reading σ)
  | 0, _, _ => none
  | fuel + 1, pos, s =>
      if pos ≥ a.argc then some (.error .argumentExpected)
      else if a.arg pos = "!" then
        match leadingNots (a.argv.drop pos) pos false with
        | .error e => some (.error e)
        | .ok (value, pos) =>
            if value then (term fuel pos s).map negate else term fuel pos s
      else if a.arg pos = "(" then
        if pos + 1 ≥ a.argc then some (.error .argumentExpected)
        else
          let nargs := scanParen (a.argv.drop (pos + 2)) 1 1
          let value := if sh.compat > 52 ∧ pos + 1 + nargs < a.argc ∧ nargs ≤ 4 then
              posixtest fuel nargs (pos + 1) s
            else expr fuel (pos + 1) s
          andThen value fun value pos s =>
            if pos ≥ a.argc then some (.error (.parenExpected a.past))
            else if a.arg pos ≠ ")" then some (.error (.parenExpected (some (a.arg pos))))
            else some (.ok (value, pos + 1, s))
      else if pos + 3 ≤ a.argc ∧ testBinop (a.arg (pos + 1)) then some (a.binaryOperator sh pos s)
      else if pos + 2 ≤ a.argc ∧ testUnop (a.arg pos) then some (a.unaryOperator sh pos s)
      else some (.ok (a.oneArgTest pos, pos + 1, s))

def posixtest : ℕ → ℕ → ℕ → σ → Option (Reading σ)
  | 0, _, _, _ => none
  | fuel + 1, nargs, pos, s =>
      match nargs with
      | 0 => some (.ok (false, pos, s))
      | 1 => some (.ok (a.oneArgTest 1, pos + 1, s))
      | 2 => some (a.twoArguments sh pos s)
      | 3 => some (a.threeArguments sh pos s)
      | 4 =>
          if a.arg pos = "!" then
            if pos + 1 ≥ a.argc then some (.error .argumentExpected)
            else some (negate (a.threeArguments sh (pos + 1) s))
          else if a.arg pos = "(" ∧ a.arg (pos + 3) = ")" then
            if pos + 1 ≥ a.argc then some (.error .argumentExpected)
            else andThen (some (a.twoArguments sh (pos + 1) s)) fun value pos s =>
              some (.ok (value, pos + 1, s))
          else expr fuel pos s
      | _ => expr fuel pos s

end

/-- What is left of `test_command` once `argv` and `argc` are set. -/
def run (s : σ) : Option (Except TestError Bool) :=
  if 1 ≥ a.argc then some (.ok false)
  else
    match a.posixtest sh (5 * a.argc + 5) (a.argc - 1) 1 s with
    | none => none
    | some (.error e) => some (.error e)
    | some (.ok (value, pos, _)) =>
        if pos = a.argc then some (.ok value)
        else if pos < a.argc ∧ (a.arg pos).toList.head? = some '-' then some (.error (.unexpected (a.arg pos)))
        else some (.error .tooManyArguments)

end Args

/-- The arguments of `[`, without the `]`. -/
def bracketArgs (margv : List String) : Except TestError Args :=
  if margv.getLast? = some "]" then .ok ⟨margv.dropLast, some "]"⟩ else .error .missingBracket

/-- `test_command`, with the arguments behind the name.  It returns the value that it exits with,
or the error. -/
def testCommand (sh : Shell σ) (name : String) (args : List String) (s : σ) :
    Option (Except TestError Bool) :=
  if name = "[" then
    match bracketArgs (name :: args) with
    | .error e => some (.error e)
    | .ok a => a.run sh s
  else Args.run sh ⟨name :: args, none⟩ s

/-- `EXECUTION_SUCCESS`, `EXECUTION_FAILURE` and `TEST_ERREXIT_STATUS`. -/
def exitStatus : Except TestError Bool → ℕ
  | .ok value => if value then 0 else 1
  | .error _ => 2

end TestCommand

end Rash
