import Rash.Arith.Evaluator

/-!
# The precedence levels

The functions of expr.c from `expcomma` down to `exp0`, each given the functions that it calls
one level deeper, and `subexpr` and `evalexp` over them.
-/

namespace Rash

namespace ExprWorld

open ExprM

variable {Θ : Type} (w : ExprWorld Θ) (r : Evaluators Θ)

def ofBool (b : Bool) : Int64 := if b then 1 else 0

/-! ## Operands -/

/-- The assignment of `bind_int_variable`: whether it was allowed. -/
def bindIntVariable (lhs : List Char) (value : Int64) : ExprM Θ Bool := do
  let s ← Act.read
  let noexpand := w.noexpand s
  if lhs.contains '[' then
    match w.arrayVariable s.rest noexpand lhs with
    | .invalid => return true
    | .assoc => w.runCode r (w.bindAssoc s.rest noexpand lhs value)
    | .indexed =>
        let ind ← w.arrayExpandIndex r (arraySubscript lhs) noexpand
        let t ← Act.read
        let (allowed, rest) := w.bindElement t.rest (arrayName lhs) ind value
        setRest rest
        return allowed
  else w.runCode r (w.bindScalar s.rest lhs value)

/-- `expr_bind_variable`. -/
def exprBindVariable (lhs : List Char) (value : Int64) : ExprM Θ Unit :=
  if lhs = [] then return ()
  else do
    emit (.bind lhs value)
    let allowed ← w.bindIntVariable r lhs value
    if allowed then return () else Act.jump .evalbuf

/-- `expr_bind_array_element`: the reference is rewritten with the index. -/
def exprBindArrayElement (tok : List Char) (ind : Int) (value : Int64) : ExprM Θ Unit :=
  w.exprBindVariable r (arrayName tok ++ '[' :: Nat.toDigits 10 ind.toNat ++ [']']) value

/-- The binding of an increment: of an element through the lvalue, else of the token. -/
def bindIncrement (value : Int64) : ExprM Θ Unit := do
  let s ← Act.read
  if s.noeval = 0 then
    if s.lval.ind ≠ -1 then
      w.exprBindArrayElement r ((s.lval.tokstr.map (·.text)).getD []) s.lval.ind value
    else w.exprBindVariable r ((s.tokstr.map (·.text)).getD []) value
  else return ()

/-- `exp0`. -/
def exp0 : ExprM Θ Int64 := do
  let s ← Act.read
  match s.curtok with
  | .preinc | .predec => do
      setLasttok s.curtok
      w.readtok r
      let t ← Act.read
      if t.curtok ≠ .str then
        evalerror "identifier expected after pre-increment or pre-decrement"
      else
        let v2 := t.tokval + (if s.curtok = .preinc then 1 else -1)
        w.bindIncrement r v2
        setContext fun c => { c with curtok := .num }
        w.readtok r
        return v2
  | .char '(' => do
      w.readtok r
      let val ← r.lowest
      let t ← Act.read
      if t.curtok ≠ .char ')' then evalerror "missing `)'"
      else
        w.readtok r
        return val
  | .num => do
      w.readtok r
      return s.tokval
  | .str => do
      setContext fun c => { c with tokstr := none, noeval := 1 }
      w.readtok r
      let t ← Act.read
      (if t.curtok = .postinc ∨ t.curtok = .postdec then do
        setContext fun c => { c with
          tokstr := s.tokstr
          noeval := s.noeval
          lval := s.lval
          lasttok := .str }
        w.bindIncrement r (s.tokval + (if t.curtok = .postinc then 1 else -1))
        setContext fun c => { c with curtok := .num }
      else restoretok s.toExprContext)
      w.readtok r
      return s.tokval
  | _ => evalerror "arithmetic syntax error: operand expected"

/-- `expunary`. -/
def expunary : ExprM Θ Int64 := do
  let s ← Act.read
  let operand (f : Int64 → Int64) : ExprM Θ Int64 := do
    w.readtok r
    let v ← r.expunary
    setLasttok .num
    return f v
  match s.curtok with
  | .char '!' => operand fun v => ofBool (v == 0)
  | .char '~' => operand fun v => ~~~v
  | .char '-' => operand fun v => -v
  | .char '+' => operand id
  | _ => w.exp0 r

/-! ## Binary operators -/

/-- The loop of a left-associative level; `step` is what it does with the operator and its right
operand. -/
def binaryLoop (isOp : ExprToken → Bool) (next : ExprM Θ Int64)
    (step : ExprToken → Int64 → Int64 → ExprM Θ Int64) : ℕ → Int64 → ExprM Θ Int64
  | 0, _ => Act.jump .outOfFuel
  | n + 1, val1 => do
      let s ← Act.read
      if isOp s.curtok then
        w.readtok r
        let val2 ← next
        let val ← step s.curtok val1 val2
        binaryLoop isOp next step n val
      else return val1

/-- A left-associative level over the next one; each turn of its loop leaves less of the
string. -/
def binaryLevel (isOp : ExprToken → Bool) (next : ExprM Θ Int64)
    (step : ExprToken → Int64 → Int64 → ExprM Θ Int64) : ExprM Θ Int64 := do
  let val1 ← next
  let s ← Act.read
  w.binaryLoop r isOp next step (s.tp.length + 2) val1

/-- `ipow`; the exponent is halved until nothing is left of it. -/
def ipowLoop : ℕ → Int64 → Int64 → Int64 → Int64
  | 0, result, _, _ => result
  | n + 1, result, base, exp =>
      if exp = 0 then result
      else ipowLoop n (if exp &&& 1 = 0 then result else result * base) (base * base) (exp >>> 1)

def ipow (base exp : Int64) : Int64 := ipowLoop 64 1 base exp

/-- The loop of `exppower`. -/
def exppowerLoop : ℕ → Int64 → ExprM Θ Int64
  | 0, _ => Act.jump .outOfFuel
  | n + 1, val1 => do
      let s ← Act.read
      if s.curtok = .power then
        w.readtok r
        let val2 ← r.exppower
        setLasttok .num
        let t ← Act.read
        if t.noeval = 0 then
          if val2 = 0 then return 1
          else if val2 < 0 then evalerror "exponent less than 0"
          else exppowerLoop n (ipow val1 val2)
        else exppowerLoop n 1
      else return val1

/-- `exppower`. -/
def exppower : ExprM Θ Int64 := do
  let val1 ← w.expunary r
  let s ← Act.read
  w.exppowerLoop r (s.tp.length + 2) val1

/-- A division for the quotient or the remainder. -/
def divide (op : ExprToken) (a b : Int64) : ExprM Θ Int64 := do
  emit (.divide a b)
  return if op = .char '/' then a / b else a % b

/-- The smallest 64-bit number. -/
def intmaxMin : Int64 := Int64.minValue

/-- The turn of the loop of `expmuldiv`; `stp` is where the operator ends. -/
def muldivStep (stp : List Char) (op : ExprToken) (val1 val2 : Int64) : ExprM Θ Int64 := do
  let s ← Act.read
  if op = .char '*' then
    setLasttok .num
    return val1 * val2
  else if val2 = 0 then
    if s.noeval = 0 then
      setContext fun c => { c with
        lasttp := some (stp.dropWhile fun c => c == ' ' || c == '\t') }
      evalerror "division by 0"
    else
      let v ← divide op val1 1
      setLasttok .num
      return v
  else if op = .char '%' ∧ val1 = intmaxMin ∧ val2 = -1 then return 0
  else
    let v ← divide op val1
      (if op = .char '/' ∧ val1 = intmaxMin ∧ val2 = -1 then 1 else val2)
    setLasttok .num
    return v

/-- The loop of `expmuldiv`. -/
def expmuldivLoop : ℕ → Int64 → ExprM Θ Int64
  | 0, _ => Act.jump .outOfFuel
  | n + 1, val1 => do
      let s ← Act.read
      if s.curtok = .char '*' ∨ s.curtok = .char '/' ∨ s.curtok = .char '%' then
        w.readtok r
        let val2 ← w.exppower r
        let val ← muldivStep s.tp s.curtok val1 val2
        expmuldivLoop n val
      else return val1

/-- `expmuldiv`. -/
def expmuldiv : ExprM Θ Int64 := do
  let val1 ← w.exppower r
  let s ← Act.read
  w.expmuldivLoop r (s.tp.length + 2) val1

/-- What most levels do with their operands. -/
def numStep (f : ExprToken → Int64 → Int64 → Int64) (op : ExprToken) (val1 val2 : Int64) :
    ExprM Θ Int64 := do
  setLasttok .num
  return f op val1 val2

/-- `expaddsub`. -/
def expaddsub : ExprM Θ Int64 :=
  w.binaryLevel r (fun t => t = .char '+' ∨ t = .char '-') (w.expmuldiv r)
    (numStep fun op a b => if op = .char '+' then a + b else a - b)

/-- A shift, by whatever count. -/
def shift (left : Bool) (a n : Int64) : ExprM Θ Int64 := do
  emit (.shift left a n)
  return if left then a <<< n else a >>> n

/-- `expshift`. -/
def expshift : ExprM Θ Int64 :=
  w.binaryLevel r (fun t => t = .lsh ∨ t = .rsh) (w.expaddsub r) fun op a b => do
    let v ← shift (op = .lsh) a b
    setLasttok .num
    return v

/-- `expcompare`. -/
def expcompare : ExprM Θ Int64 :=
  w.binaryLevel r (fun t => t = .leq ∨ t = .geq ∨ t = .char '<' ∨ t = .char '>') (w.expshift r)
    (numStep fun op a b => ofBool (match op with
      | .leq => a ≤ b
      | .geq => b ≤ a
      | .char '<' => a < b
      | _ => b < a))

/-- `expeq`. -/
def expeq : ExprM Θ Int64 :=
  w.binaryLevel r (fun t => t = .eqeq ∨ t = .neq) (w.expcompare r)
    (numStep fun op a b => ofBool (if op = .eqeq then a == b else a != b))

/-- `expband`. -/
def expband : ExprM Θ Int64 :=
  w.binaryLevel r (fun t => t = .char '&') (w.expeq r) (numStep fun _ a b => a &&& b)

/-- `expbxor`. -/
def expbxor : ExprM Θ Int64 :=
  w.binaryLevel r (fun t => t = .char '^') (w.expband r) (numStep fun _ a b => a ^^^ b)

/-- `expbor`. -/
def expbor : ExprM Θ Int64 :=
  w.binaryLevel r (fun t => t = .char '|') (w.expbxor r) (numStep fun _ a b => a ||| b)

/-- The loop of `expland` and `explor`: the right operand is not evaluated where `short` says
that the left one decides. -/
def logicalLoop (tok : ExprToken) (next : ExprM Θ Int64) (short : Int64 → Bool)
    (combine : Int64 → Int64 → Int64) : ℕ → Int64 → ExprM Θ Int64
  | 0, _ => Act.jump .outOfFuel
  | n + 1, val1 => do
      let s ← Act.read
      if s.curtok = tok then
        let suppressed : Int := if short val1 then 1 else 0
        addNoeval suppressed
        w.readtok r
        let val2 ← next
        addNoeval (-suppressed)
        setLasttok tok
        logicalLoop tok next short combine n (combine val1 val2)
      else return val1

def logicalLevel (tok : ExprToken) (next : ExprM Θ Int64) (short : Int64 → Bool)
    (combine : Int64 → Int64 → Int64) : ExprM Θ Int64 := do
  let val1 ← next
  let s ← Act.read
  w.logicalLoop r tok next short combine (s.tp.length + 2) val1

/-- `expland`. -/
def expland : ExprM Θ Int64 :=
  w.logicalLevel r .land (w.expbor r) (· == 0) fun a b => ofBool (a != 0 && b != 0)

/-- `explor`. -/
def explor : ExprM Θ Int64 :=
  w.logicalLevel r .lor (w.expland r) (· != 0) fun a b => ofBool (a != 0 || b != 0)

/-! ## Conditionals, assignments, and lists -/

/-- `expcond`. -/
def expcond : ExprM Θ Int64 := do
  let cval ← w.explor r
  let s ← Act.read
  if s.curtok ≠ .char '?' then return cval
  else
    let first : Int := if cval = 0 then 1 else 0
    addNoeval first
    w.readtok r
    let t ← Act.read
    if t.curtok = .none ∨ t.curtok = .char ':' then evalerror "expression expected"
    else
      let val1 ← r.lowest
      addNoeval (-first)
      let t ← Act.read
      if t.curtok ≠ .char ':' then evalerror "`:' expected for conditional expression"
      else
        let second : Int := if cval = 0 then 0 else 1
        addNoeval second
        w.readtok r
        let t ← Act.read
        if t.curtok = .none then evalerror "expression expected"
        else
          let val2 ← r.expcond
          addNoeval (-second)
          setLasttok .cond
          return if cval = 0 then val2 else val1

/-- What `op=` computes. -/
def assignOperation (op : ExprToken) (lvalue value : Int64) : ExprM Θ Int64 := do
  let s ← Act.read
  let division := op = .char '/' ∨ op = .char '%'
  if division ∧ value = 0 ∧ s.noeval = 0 then evalerror "division by 0"
  else
    let value := if division ∧ value = 0 then 1 else value
    match op with
    | .char '*' => return lvalue * value
    | .char '/' | .char '%' =>
        if lvalue = intmaxMin ∧ value = -1 then
          return if op = .char '/' then intmaxMin else 0
        else divide op lvalue value
    | .char '+' => return lvalue + value
    | .char '-' => return lvalue - value
    | .lsh => shift true lvalue value
    | .rsh => shift false lvalue value
    | .char '&' => return lvalue &&& value
    | .char '|' => return lvalue ||| value
    | .char '^' => return lvalue ^^^ value
    | _ => evalerror "bug: bad expassign token"

/-- The binding of an assignment: of an element, if the lvalue has an index. -/
def bindAssigned (lhs : List Char) (lind : Int) (value : Int64) : ExprM Θ Unit := do
  let s ← Act.read
  if s.noeval = 0 then
    if lind ≠ -1 then w.exprBindArrayElement r lhs lind value else w.exprBindVariable r lhs value
  else return ()

/-- `expassign`. -/
def expassign : ExprM Θ Int64 := do
  let lvalue ← w.expcond r
  let s ← Act.read
  if s.curtok = .char '=' ∨ s.curtok = .opAssign then
    if s.lasttok ≠ .str then evalerror "attempted assignment to non-variable"
    else
      match s.tokstr with
      | none => evalerror "arithmetic syntax error in variable assignment"
      | some tokstr => do
          let lhs ← w.copyString tokstr.text
          w.readtok r
          let rhs ← r.expassign
          let value ← (if s.curtok = .opAssign then assignOperation s.assigntok lvalue rhs
            else pure rhs)
          w.bindAssigned r lhs.text s.lval.ind value
          initStaleLvalue
          setContext fun c => { c with tokstr := none }
          return value
  else return lvalue

/-- The loop of `expcomma`. -/
def expcommaLoop : ℕ → Int64 → ExprM Θ Int64
  | 0, _ => Act.jump .outOfFuel
  | n + 1, value => do
      let s ← Act.read
      if s.curtok = .char ',' then
        w.readtok r
        let value ← w.expassign r
        expcommaLoop n value
      else return value

/-- `expcomma`. -/
def expcomma : ExprM Θ Int64 := do
  let value ← w.expassign r
  let s ← Act.read
  w.expcommaLoop r (s.tp.length + 2) value

/-! ## Expressions -/

/-- `subexpr`. -/
def subexpr (expr : List Char) : ExprM Θ Int64 :=
  if expr.dropWhile crWhitespace = [] then return 0
  else do
    pushexp
    setContext fun c => { c with
      expression := some expr
      tp := expr
      curtok := .none
      lasttok := .none
      tokstr := none
      tokval := 0
      lval := .init }
    w.readtok r
    let val ← w.expcomma r
    let s ← Act.read
    if s.curtok ≠ .none then evalerror "arithmetic syntax error in expression"
    else
      popexp
      return val

/-- The functions for a depth of calls. -/
def evaluators : ℕ → Evaluators Θ
  | 0 =>
      { lowest := Act.jump .outOfFuel
        expassign := Act.jump .outOfFuel
        expcond := Act.jump .outOfFuel
        exppower := Act.jump .outOfFuel
        expunary := Act.jump .outOfFuel
        subexpr := fun _ => Act.jump .outOfFuel }
  | n + 1 =>
      { lowest := w.expcomma (evaluators n)
        expassign := w.expassign (evaluators n)
        expcond := w.expcond (evaluators n)
        exppower := w.exppower (evaluators n)
        expunary := w.expunary (evaluators n)
        subexpr := w.subexpr (evaluators n) }

/-- `evalexp`, with the value and whether it is valid; the calls nest `n` deep at most. -/
def evalexp (n : ℕ) (expr : List Char) (expanded : Bool) (s : ExprState Θ) :
    Except ExprJump (Int64 × Bool) × ExprState Θ :=
  evalexpWith (w.evaluators n) expr expanded s

end ExprWorld

end Rash
