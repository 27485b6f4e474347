import Mathlib.Data.Nat.Notation
import Rash.Lib.Act

/-!
# The arithmetic evaluator

expr.c: the token reader with its lookahead, the functions of the precedence levels, and the
stack of contexts for the values of variables that are expressions themselves.  Variables and
their binding are parameters; what the evaluator divides, shifts and binds is logged.
-/

namespace Rash

/-! ## Tokens -/

/-- A token; the ones that are a character have the character's code. -/
inductive ExprToken
  | none
  | eqeq
  | neq
  | leq
  | geq
  | str
  | num
  | land
  | lor
  | lsh
  | rsh
  | opAssign
  | cond
  | power
  | preinc
  | predec
  | postinc
  | postdec
  | char (c : Char)
  deriving DecidableEq

/-- A string in the heap, with its address: the evaluator compares addresses. -/
structure HeapString where
  address : ℕ
  text : List Char
  deriving DecidableEq

/-- `struct lvalue`, as far as it is read. -/
structure Lvalue where
  tokstr : Option HeapString
  tokval : Int64
  ind : Int
  deriving DecidableEq

/-- `init_lvalue`. -/
def Lvalue.init : Lvalue := ⟨Option.none, -1, -1⟩

/-- `EXPR_CONTEXT`. -/
structure ExprContext where
  curtok : ExprToken
  lasttok : ExprToken
  expression : Option (List Char)
  /-- what is left of the expression from `tp` on -/
  tp : List Char
  lasttp : Option (List Char)
  tokval : Int64
  tokstr : Option HeapString
  noeval : Int
  lval : Lvalue
  deriving DecidableEq

/-- What an evaluation leaves to the one that it is nested in. -/
structure ExprSnapshot where
  context : ExprContext
  depth : ℕ
  alreadyExpanded : Bool
  deriving DecidableEq

inductive ArithEvent
  /-- one 64-bit division for the quotient or the remainder -/
  | divide (dividend divisor : Int64)
  | shift (left : Bool) (value count : Int64)
  | bind (lhs : List Char) (value : Int64)
  /-- a nested evaluation that returned, with the flag of `evalexp`, or none of `subexpr` -/
  | nested (expanded : Option Bool) (before after : ExprSnapshot)
  deriving DecidableEq

structure ExprState (Θ : Type) extends ExprContext where
  assigntok : ExprToken
  alreadyExpanded : Bool
  /-- `expr_stack`, its top first -/
  stack : List ExprContext
  log : List ArithEvent
  rest : Θ

def ExprState.snapshot {Θ : Type} (s : ExprState Θ) : ExprSnapshot :=
  ⟨s.toExprContext, s.stack.length, s.alreadyExpanded⟩

/-- How an evaluation is left. -/
inductive ExprJump
  /-- `evalerror`, with the expression and the token of its message -/
  | evalerror (expression : List Char) (message : String) (token : List Char)
  /-- an assignment that is not allowed, or an unset variable in a function of readline -/
  | evalbuf
  | topLevel
  | outOfFuel
  deriving DecidableEq

/-- The value of a variable; `unbound` where `set -u` makes it an error. -/
inductive VariableAnswer
  | unbound
  | value (text : Option (List Char))

/-- What `array_variable_part` finds, with the checks of a subscript in the callers: an indexed
array is also a variable that is none yet. -/
inductive ArrayVariable
  /-- a bad subscript, or all elements where that is not allowed -/
  | invalid
  | assoc
  | indexed

/-- An element, by the index counted from the end if it is negative. -/
inductive ElementAnswer
  | badSubscript
  | element (ind : ℕ) (text : Option (List Char))

/-- What code outside of expr.c does that the evaluator calls: it may evaluate expressions
itself, with the flag for `EXP_EXPANDED`, and goes on with their values or the error. -/
inductive ShellCode (Θ α : Type)
  | done (rest : Θ) (a : α)
  /-- `jump_to_top_level` -/
  | jump (rest : Θ)
  | evalexp (rest : Θ) (expr : List Char) (expanded : Bool) (failed : Θ → ShellCode Θ α)
      (next : Int64 → Θ → ShellCode Θ α)

/-- The rest of the shell. -/
structure ExprWorld (Θ : Type) where
  isAlpha : Char → Bool
  /-- `savestring`: the address of the copy -/
  savestring : Θ → ℕ × Θ
  /-- `expr_skipsubscript`, with the name and what follows it -/
  skipsubscript : Θ → Bool → List Char → List Char → ℕ
  interactiveShell : Bool
  /-- `shell_compatibility_level` -/
  compatLevel : ℕ
  /-- `no_longjmp_on_fatal_error` -/
  noLongjmp : Θ → Bool
  arrayExpandOnce : Θ → Bool
  /-- `find_variable` and the value -/
  variableValue : Θ → List Char → VariableAnswer × Θ
  unboundElement : Θ → Bool → List Char → Bool
  arrayVariable : Θ → Bool → List Char → ArrayVariable
  /-- `expand_arith_string`, for a string with something to expand or quotes -/
  expandArithString : Θ → List Char → ShellCode Θ (List Char)
  /-- the element of an associative array -/
  assocValue : Θ → Bool → List Char → ShellCode Θ (Option (List Char))
  elementValue : Θ → List Char → Int64 → ElementAnswer × Θ
  /-- the assignments of `bind_int_variable`: whether the assignment was allowed -/
  bindScalar : Θ → List Char → Int64 → ShellCode Θ Bool
  bindAssoc : Θ → Bool → List Char → Int64 → ShellCode Θ Bool
  bindElement : Θ → List Char → Int64 → Int64 → Bool × Θ

abbrev ExprM (Θ α : Type) : Type := Act (ExprState Θ) ExprJump α

/-- `cr_whitespace`. -/
def crWhitespace (c : Char) : Bool := c == ' ' || c == '\t' || c == '\n'

/-- `is_arithop`. -/
def ExprToken.isArithop : ExprToken → Bool
  | .char c => "=><+-*/%!()&|^~?:,".toList.contains c
  | _ => false

/-- `is_multiop`. -/
def ExprToken.isMultiop : ExprToken → Bool
  | .eqeq | .neq | .leq | .geq | .land | .lor | .lsh | .rsh | .opAssign | .cond | .power
  | .preinc | .predec | .postinc | .postdec => true
  | _ => false

namespace ExprM

variable {Θ : Type}

def setContext (f : ExprContext → ExprContext) : ExprM Θ Unit :=
  Act.modify fun s => { s with toExprContext := f s.toExprContext }

def emit (e : ArithEvent) : ExprM Θ Unit :=
  Act.modify fun s => { s with log := s.log ++ [e] }

/-- `evalerror`. -/
def evalerror {α : Type} (message : String) : ExprM Θ α :=
  Act.onState fun s => Act.jump (.evalerror
    ((s.expression.getD []).dropWhile fun c => c == ' ' || c == '\t') message
    (s.lasttp.getD []))

def setLasttok (t : ExprToken) : ExprM Θ Unit := setContext fun c => { c with lasttok := t }

def addNoeval (n : Int) : ExprM Θ Unit := setContext fun c => { c with noeval := c.noeval + n }

/-- `RESTORETOK`. -/
def restoretok (ec : ExprContext) : ExprM Θ Unit :=
  setContext fun c => { ec with expression := c.expression }

/-- `pushexp`. -/
def pushexp : ExprM Θ Unit := do
  let s ← Act.read
  if 1024 ≤ s.stack.length then evalerror "expression recursion level exceeded"
  else Act.modify fun s => { s with stack := s.toExprContext :: s.stack }

/-- `popexp`. -/
def popexp : ExprM Θ Unit := do
  let s ← Act.read
  match s.stack with
  | [] =>
      setContext fun c => { c with expression := none, lasttp := none }
      evalerror "recursion stack underflow"
  | context :: stack =>
      Act.modify fun s => { s with toExprContext := context, stack := stack }

end ExprM

namespace ExprWorld

open ExprM

variable {Θ : Type} (w : ExprWorld Θ)

/-- `legal_variable_starter`. -/
def isStarter (c : Char) : Bool := w.isAlpha c || c == '_'

/-- `legal_variable_char`. -/
def isVariableChar (c : Char) : Bool := w.isAlpha c || c.isDigit || c == '_'

/-- `VALID_NUMCHAR`. -/
def isNumchar (c : Char) : Bool := w.isAlpha c || c.isDigit || c == '_' || c == '@'

/-- A heap copy of a string. -/
def copyString (text : List Char) : ExprM Θ HeapString :=
  Act.onState fun s => do
    let (address, rest) := w.savestring s.rest
    Act.modify fun s => { s with rest := rest }
    return ⟨address, text⟩

/-! ## Numbers -/

/-- The value of a character of a number in a base. -/
def digitOf (base : Int64) (c : Char) : ℕ :=
  if c.isDigit then c.toNat - 48
  else if 'a' ≤ c && c ≤ 'z' then c.toNat - 87
  else if 'A' ≤ c && c ≤ 'Z' then c.toNat - (if base ≤ 36 then 55 else 29)
  else if c == '@' then 62
  else if c == '_' then 63
  else c.toNat

def strlongDigits (base : Int64) (foundbase : Bool) (val : Int64) : List Char → ExprM Θ Int64
  | [] => return val
  | c :: s =>
      if c = '#' then
        if foundbase then evalerror "invalid number"
        else if val < 2 || 64 < val then evalerror "invalid arithmetic base"
        else if (s.head?.map w.isNumchar).getD false = false then
          evalerror "invalid integer constant"
        else strlongDigits val true 0 s
      else if w.isNumchar c then
        if base.toInt ≤ digitOf base c then evalerror "value too great for base"
        else strlongDigits base foundbase (val * base + Int64.ofNat (digitOf base c)) s
      else return val

/-- `strlong`. -/
def strlong : List Char → ExprM Θ Int64
  | ['0'] => return 0
  | '0' :: 'x' :: s => w.strlongDigits 16 true 0 s
  | '0' :: 'X' :: s => w.strlongDigits 16 true 0 s
  | '0' :: s => w.strlongDigits 8 true 0 s
  | s => w.strlongDigits 10 false 0 s

/-! ## The token reader -/

/-- The functions that an evaluation calls one level deeper. -/
structure Evaluators (Θ : Type) where
  /-- `EXP_LOWEST` -/
  lowest : ExprM Θ Int64
  expassign : ExprM Θ Int64
  expcond : ExprM Θ Int64
  exppower : ExprM Θ Int64
  expunary : ExprM Θ Int64
  subexpr : List Char → ExprM Θ Int64

variable (r : Evaluators Θ)

/-- The value with whether it is valid; the jumps to `evalbuf` end here. -/
def caught : Except ExprJump Int64 × ExprState Θ → Except ExprJump (Int64 × Bool) × ExprState Θ
  | (.ok val, s) => (.ok (val, true), s)
  | (.error .topLevel, s) => (.error .topLevel, s)
  | (.error .outOfFuel, s) => (.error .outOfFuel, s)
  | (.error _, s) =>
      (.ok (0, false), { s with tokstr := none, expression := none, stack := [], noeval := 0 })

/-- `evalexp`. -/
def evalexpWith (expr : List Char) (expanded : Bool) : ExprM Θ (Int64 × Bool) := fun s =>
  caught (r.subexpr expr { s with noeval := 0, alreadyExpanded := expanded })

/-- An evaluation within another one. -/
def nestedEvalexp (expr : List Char) (expanded : Bool) : ExprM Θ (Option Int64) := do
  let before ← Act.read
  let (val, valid) ← evalexpWith r expr expanded
  if valid then
    let after ← Act.read
    emit (.nested (some expanded) before.snapshot after.snapshot)
    return some val
  else return none

def setRest (rest : Θ) : ExprM Θ Unit := Act.modify fun s => { s with rest := rest }

/-- An expression that is invalid makes the shell jump to the top level, if that is allowed. -/
def runCode {α : Type} : ShellCode Θ α → ExprM Θ α
  | .done rest a => do
      setRest rest
      return a
  | .jump rest => do
      setRest rest
      Act.jump .topLevel
  | .evalexp rest expr expanded failed next => do
      setRest rest
      let val ← nestedEvalexp r expr expanded
      let s ← Act.read
      match val with
      | some val => runCode (next val s.rest)
      | none => if w.noLongjmp s.rest then runCode (failed s.rest) else Act.jump .topLevel

/-! ## Elements of arrays -/

/-- The name in a reference to an element. -/
def arrayName (tok : List Char) : List Char := tok.takeWhile (· ≠ '[')

def arraySubscript (tok : List Char) : List Char := ((tok.dropWhile (· ≠ '[')).drop 1).dropLast

/-- `ARITH_EXP_CHAR`, and the characters that quote. -/
def arithExpChar (c : Char) : Bool := "$`\x01'\\\"".toList.contains c

/-- `array_expand_index`. -/
def arrayExpandIndex (sub : List Char) (noexpand : Bool) : ExprM Θ Int64 := do
  let s ← Act.read
  let expr ← (if noexpand = false ∧ sub.any arithExpChar then
    w.runCode r (w.expandArithString s.rest sub) else pure sub)
  let val ← nestedEvalexp r expr (w.compatLevel ≤ 51)
  let t ← Act.read
  match val with
  | some val => return val
  | none => if w.noLongjmp t.rest then return 0 else Act.jump .topLevel

/-- `AV_NOEXPAND` and `ASS_NOEXPAND` -/
def noexpand (s : ExprState Θ) : Bool := w.arrayExpandOnce s.rest && s.alreadyExpanded

/-- `get_array_value`, with the index; there is none but for an indexed array. -/
def getArrayValue (tok : List Char) (noexpand : Bool) : ExprM Θ (Option (List Char) × Int) := do
  let s ← Act.read
  match w.arrayVariable s.rest noexpand tok with
  | .invalid => return (none, -1)
  | .assoc =>
      let text ← w.runCode r (w.assocValue s.rest noexpand tok)
      return (text, -1)
  | .indexed =>
      let ind ← w.arrayExpandIndex r (arraySubscript tok) noexpand
      let t ← Act.read
      let (answer, rest) := w.elementValue t.rest (arrayName tok) ind
      setRest rest
      match answer with
      | .badSubscript => return (none, -1)
      | .element ind text => return (text, ind)

/-- A variable that is unset is an error. -/
def unboundVariable {α : Type} : ExprM Θ α :=
  Act.onState fun s =>
    Act.jump (if w.noLongjmp s.rest && w.interactiveShell then .evalbuf else .topLevel)

/-- The value of the reference, with the index. -/
def referenceValue (tok : List Char) (element : Bool) : ExprM Θ (Option (List Char) × Int) := do
  let s ← Act.read
  if element then
    if w.unboundElement s.rest (w.noexpand s) tok then w.unboundVariable
    else w.getArrayValue r tok (w.noexpand s)
  else
    let (answer, rest) := w.variableValue s.rest tok
    setRest rest
    match answer with
    | .unbound => w.unboundVariable
    | .value text => return (text, -1)

/-- `subexpr` of a value; there is nothing to evaluate in an empty one. -/
def valueExpr : Option (List Char) → ExprM Θ Int64
  | none => return 0
  | some text =>
      if text = [] then return 0
      else do
        let before ← Act.read
        let val ← r.subexpr text
        let after ← Act.read
        emit (.nested none before.snapshot after.snapshot)
        return val

/-- `expr_streval`. -/
def exprStreval (tok : HeapString) (element : Bool) : ExprM Θ Int64 := do
  let s ← Act.read
  if s.noeval ≠ 0 then return 0
  else
    let (text, ind) ← w.referenceValue r tok.text element
    let t ← Act.read
    if t.stack.length < s.stack.length then
      -- an evaluation for the subscript failed and has emptied the stack
      if w.noLongjmp t.rest && w.interactiveShell then Act.jump .evalbuf else return 0
    else
      let tval ← valueExpr r text
      setContext fun c => { c with lval := ⟨some tok, tval, ind⟩ }
      return tval

/-- `init_lvalue`, when the current lvalue is the current token. -/
def initStaleLvalue : ExprM Θ Unit :=
  setContext fun c =>
    if c.lval.tokstr.isSome && c.lval.tokstr.map (·.address) == c.tokstr.map (·.address) then
      { c with lval := .init } else c

/-- The token at an operator, with what follows it.  `c` is its first character. -/
def readOperator (c : Char) (rest : List Char) : ExprM Θ (ExprToken × List Char) := do
  let s ← Act.read
  let c1 := rest.head?
  let cp := rest.tail
  let assign (op : ExprToken) (cp : List Char) : ExprM Θ (ExprToken × List Char) := do
    Act.modify fun s => { s with assigntok := op }
    return (.opAssign, cp)
  let lvalueError {α : Type} : ExprM Θ α :=
    if c = '-' then evalerror "--: assignment requires lvalue"
    else evalerror "++: assignment requires lvalue"
  if c = '=' ∧ c1 = some '=' then return (.eqeq, cp)
  else if c = '!' ∧ c1 = some '=' then return (.neq, cp)
  else if c = '>' ∧ c1 = some '=' then return (.geq, cp)
  else if c = '<' ∧ c1 = some '=' then return (.leq, cp)
  else if c = '<' ∧ c1 = some '<' then
    if cp.head? = some '=' then assign .lsh cp.tail else return (.lsh, cp)
  else if c = '>' ∧ c1 = some '>' then
    if cp.head? = some '=' then assign .rsh cp.tail else return (.rsh, cp)
  else if c = '&' ∧ c1 = some '&' then return (.land, cp)
  else if c = '|' ∧ c1 = some '|' then return (.lor, cp)
  else if c = '*' ∧ c1 = some '*' then return (.power, cp)
  else if (c = '-' ∨ c = '+') ∧ c1 = some c ∧ s.curtok = .str then
    return (if c = '-' then .postdec else .postinc, cp)
  else if (c = '-' ∨ c = '+') ∧ c1 = some c ∧ s.curtok = .num ∧
      (s.lasttok = .preinc ∨ s.lasttok = .predec) then lvalueError
  else if (c = '-' ∨ c = '+') ∧ c1 = some c then
    -- a sign twice is an increment only before an identifier
    if (((cp.dropWhile crWhitespace).head?).map w.isStarter).getD false then
      return (if c = '-' then .predec else .preinc, cp)
    else return (.char c, rest)
  else if c1 = some '=' ∧ "*/%+-&^|".toList.contains c then assign (.char c) cp
  else if (ExprToken.char c).isArithop = false then
    if s.curtok = .none || s.curtok.isArithop || s.curtok.isMultiop then
      evalerror "arithmetic syntax error: operand expected"
    else evalerror "arithmetic syntax error: invalid arithmetic operator"
  else return (.char c, rest)

/-- The name at the beginning of a string, with its subscript, and what follows; whether there
is a subscript. -/
def readName (cs : List Char) : ExprM Θ (List Char × List Char × Bool) := do
  let s ← Act.read
  let name := cs.takeWhile w.isVariableChar
  let after := cs.dropWhile w.isVariableChar
  if after.head? = some '[' then
    let e := w.skipsubscript s.rest s.alreadyExpanded name after
    if after[e]? = some ']' then
      return (name ++ after.take (e + 1), after.drop (e + 1), true)
    else evalerror "bad array subscript"
  else return (name, after, false)

/-- `readtok`; each token that it looks ahead to leaves less of the string. -/
def readtokFrom : ℕ → ExprM Θ Unit
  | 0 => Act.jump .outOfFuel
  | n + 1 => do
      let s ← Act.read
      match s.tp.dropWhile crWhitespace with
      | [] => setContext fun c => { c with lasttok := c.curtok, curtok := .none, tp := [] }
      | c :: rest => do
          setContext fun ctx => { ctx with tp := c :: rest, lasttp := some (c :: rest) }
          if w.isStarter c then
            let (name, after, element) ← w.readName (c :: rest)
            initStaleLvalue
            let tokstr ← w.copyString name
            setContext fun ctx => { ctx with tokstr := some tokstr }
            let saved ← Act.read
            -- the next token says whether this one is assigned to
            setContext fun ctx =>
              { ctx with tokstr := none, tp := after, noeval := 1, curtok := .str }
            readtokFrom n
            let peeked ← Act.read
            restoretok saved.toExprContext
            let tokval ← (if saved.lasttok = .preinc ∨ saved.lasttok = .predec ∨
                peeked.curtok ≠ .char '=' then w.exprStreval r tokstr element else pure 0)
            setContext fun ctx =>
              { ctx with tokval := tokval, lasttok := ctx.curtok, curtok := .str, tp := after }
          else if c.isDigit then
            let numchar (d : Char) := w.isAlpha d || d.isDigit || d == '#' || d == '@' || d == '_'
            let tokval ← w.strlong ((c :: rest).takeWhile numchar)
            setContext fun ctx => { ctx with
              tokval := tokval
              lasttok := ctx.curtok
              curtok := .num
              tp := (c :: rest).dropWhile numchar }
          else
            let (token, after) ← w.readOperator c rest
            setContext fun ctx => { ctx with lasttok := ctx.curtok, curtok := token, tp := after }

/-- `readtok`. -/
def readtok : ExprM Θ Unit := Act.onState fun s => w.readtokFrom r (s.tp.length + 1)

end ExprWorld

end Rash
