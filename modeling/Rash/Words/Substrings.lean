import Mathlib
import Rash.Words.Quoting

/-!
# Substrings of values and of the positional parameters

`${v:offset:length}`: `verify_substring_values` on `intmax_t`, and `substring`, `mb_substring` and
`pos_params` with the types of their parameters.
-/

namespace Rash

namespace Substrings

open Quoting

/-! ## Machine integers -/

def intmaxMax : ℤ := 2 ^ 63 - 1
def intMax : ℤ := 2 ^ 31 - 1

/-- A sum in a signed type of so many bits, with whether it overflows. -/
def sum (bits : ℕ) (a b : ℤ) : ℤ × Bool :=
  ((a + b).bmod (2 ^ bits), decide (¬ (-2 ^ (bits - 1) ≤ a + b ∧ a + b < 2 ^ (bits - 1))))

/-- The conversion to `int`. -/
def toInt (v : ℤ) : ℤ := v.bmod (2 ^ 32)

/-- The conversion to `size_t`. -/
def toSize (v : ℤ) : ℕ := (v % 2 ^ 64).toNat

/-! ## The two numbers -/

/-- What the substring is taken from; the numbers are what is counted of it. -/
inductive VarType
  | scalar (chars : ℤ)
  /-- `number_of_args`, an `int` -/
  | posparms (count : ℤ)
  | assoc (elements : ℤ)
  | array (maxIndex elements : ℤ)

/-- The limit of the offset. -/
def VarType.len (e1 : ℤ) : VarType → ℤ × Bool
  | .scalar chars => (chars, false)
  | .posparms count =>
      let (len, overflow) := sum 32 count 1
      -- one more if counting from $0
      if e1 = 0 then (len + 1, overflow) else (len, overflow)
  | .assoc elements => (elements + (if e1 < 0 then 1 else 0), false)
  | .array maxIndex _ => (maxIndex + (if e1 < 0 then 1 else 0), false)

inductive Verdict
  /-- 0 -/
  | invalid
  /-- -1 -/
  | outOfRange
  | ok (e1 e2 : ℤ)
  deriving DecidableEq

structure Verified where
  verdict : Verdict
  overflow : Bool
  deriving DecidableEq

/-- The length, for an offset that is in range. -/
def verifyLength (vtype : VarType) (len e1 : ℤ) : Option (Option ℤ) → Verified
  | none => ⟨.ok e1 len, false⟩
  | some none => ⟨.invalid, false⟩
  | some (some e2) =>
      let counted (e2 : ℤ) : ℤ := if len < e2 then len else e2
      match vtype with
      | .assoc _ | .array .. => if e2 < 0 then ⟨.invalid, false⟩ else ⟨.ok e1 e2, false⟩
      | .posparms _ =>
          if e2 < 0 then ⟨.invalid, false⟩
          else
            let (e2, overflow) := sum 64 e2 e1
            ⟨.ok e1 (counted e2), overflow⟩
      | .scalar _ =>
          if e2 < 0 then
            let (e2, overflow) := sum 64 e2 len
            if e2 < 0 ∨ e2 < e1 then ⟨.invalid, overflow⟩ else ⟨.ok e1 (counted e2), overflow⟩
          else
            let (e2, overflow) := sum 64 e2 e1
            ⟨.ok e1 (counted e2), overflow⟩

/-- `verify_substring_values`, with the values of the expressions; an invalid one has none. -/
def verifySubstringValues (vtype : VarType) (offset : Option ℤ) (length : Option (Option ℤ)) :
    Verified :=
  match offset with
  | none => ⟨.invalid, false⟩
  | some e1 =>
      let (len, overflow) := vtype.len e1
      if len = -1 then ⟨.outOfRange, overflow⟩
      else
        let (e1, overflow') := if e1 < 0 then sum 64 e1 len else (e1, false)
        if len < e1 ∨ e1 < 0 then ⟨.outOfRange, overflow || overflow'⟩
        else
          let len :=
            match vtype with
            | .assoc elements | .array _ elements => elements
            | .scalar _ | .posparms _ => len
          let verified := verifyLength vtype len e1 length
          ⟨verified.verdict, overflow || overflow' || verified.overflow⟩

/-! ## The substrings -/

/-- `substring`: without a result where it would copy what is not in the string. -/
def substring (string : Quoting.Bytes) (start stop : ℕ) : Option Quoting.Bytes :=
  if start ≤ stop ∧ stop ≤ string.length then some ((string.take stop).drop start) else none

/-- `while (string[start] && i--) ADVANCE_CHAR`, with the string from `start` on; without a result
where `start` would leave `int`. -/
def advance (loc : Quoting.Locale) : ℕ → Quoting.Bytes → ℤ → ℕ → Option ℕ
  | 0, _, _, start => some start
  | _, [], _, start => some start
  | n + 1, c :: s, i, start =>
      if i = 0 then some start
      else if intMax < start + loc.charLen (c :: s) then none
      else advance loc n ((c :: s).drop (loc.charLen (c :: s))) (i - 1) (start + loc.charLen (c :: s))

/-- `mb_substring`. -/
def mbSubstring (loc : Quoting.Locale) (string : Quoting.Bytes) (s e : ℤ) : Option Quoting.Bytes := do
  let start ← advance loc string.length string s 0
  let stop ← advance loc string.length (string.drop start) (e - s) start
  substring string start stop

/-- `params = params->next` up to the start, with the counter. -/
def skipParams (start : ℤ) : List Quoting.Bytes → ℤ → List Quoting.Bytes × ℤ
  | [], i => ([], i)
  | p :: params, i => if i < start then skipParams start params (i + 1) else (p :: params, i)

/-- The parameters up to the end. -/
def takeParams (stop : ℤ) : List Quoting.Bytes → ℤ → List Quoting.Bytes
  | [], _ => []
  | p :: params, i => if i < stop then p :: takeParams stop params (i + 1) else []

/-- `pos_params`, up to the list that `string_list_pos_params` makes a string of. -/
def posParams (zero : Quoting.Bytes) (args : List Quoting.Bytes) (start stop : ℤ) : List Quoting.Bytes :=
  if start = stop then []
  else if args = [] ∧ 0 < start then []
  else
    let params := if start = 0 then zero :: args else args
    match skipParams start params (if start = 0 then 0 else 1) with
    | ([], _) => []
    | (h :: params, i) =>
        -- the list is cut after its last parameter, or after `h` without one
        match takeParams stop (h :: params) i with
        | [] => [h]
        | taken => taken

/-! ## The expansion -/

/-- A string in memory. -/
structure ScalarValue where
  bytes : Quoting.Bytes
  length_lt : bytes.length < 2 ^ 63

/-- `dollar_vars[0]`, and the parameters that an `int` counts. -/
structure PositionalParameters where
  zero : Quoting.Bytes
  args : List Quoting.Bytes
  count_lt : args.length < 2 ^ 31

inductive Outcome
  | nothing
  | error
  | text (string : Quoting.Bytes)
  | words (list : List Quoting.Bytes)
  | undefined
  deriving DecidableEq

/-- An expansion, with the indices handed to the function that cuts. -/
structure Run where
  outcome : Outcome
  overflow : Bool
  indices : Option (ℤ × ℤ)
  deriving DecidableEq

/-- The characters of a value; without multibyte characters, its bytes. -/
def charsOf (loc : Option Quoting.Locale) (value : Quoting.Bytes) : List Quoting.Bytes :=
  match loc with
  | some loc => loc.chars value
  | none => value.map ([·])

/-- `substring` or `mb_substring`, as the locale has it. -/
def cutScalar (loc : Option Quoting.Locale) (value : Quoting.Bytes) (e1 e2 : ℤ) : Option Quoting.Bytes × ℤ × ℤ :=
  match loc with
  | some loc => (mbSubstring loc value (toInt e1) (toInt e2), toInt e1, toInt e2)
  | none => (substring value (toSize e1) (toSize e2), toSize e1, toSize e2)

/-- `parameter_brace_substring` of a value, up to its quoting. -/
def scalarSubstring (loc : Option Quoting.Locale) (value : Quoting.Bytes) (offset : Option ℤ)
    (length : Option (Option ℤ)) : Run :=
  let verified := verifySubstringValues (.scalar (charsOf loc value).length) offset length
  match verified.verdict with
  | .invalid => ⟨.error, verified.overflow, none⟩
  | .outOfRange => ⟨.nothing, verified.overflow, none⟩
  | .ok e1 e2 =>
      let (string, indices) := cutScalar loc value e1 e2
      ⟨string.elim .undefined .text, verified.overflow, some indices⟩

/-- `parameter_brace_substring` of the positional parameters. -/
def parametersSubstring (p : PositionalParameters) (offset : Option ℤ)
    (length : Option (Option ℤ)) : Run :=
  let verified := verifySubstringValues (.posparms p.args.length) offset length
  match verified.verdict with
  | .invalid => ⟨.error, verified.overflow, none⟩
  | .outOfRange => ⟨.words [], verified.overflow, none⟩
  | .ok e1 e2 => ⟨.words (posParams p.zero p.args (toInt e1) (toInt e2)), verified.overflow,
      some (toInt e1, toInt e2)⟩

/-! ## The reference -/

/-- What is selected of `n` things, by the two numbers. -/
inductive Span
  | nothing
  | error
  | span (start stop : ℤ)

def startOf (n offset : ℤ) : ℤ := if offset < 0 then offset + n else offset

/-- A negative offset counts from the end, and so does a negative length of a value. -/
def scalarSpan (n offset : ℤ) (length : Option ℤ) : Span :=
  let start := startOf n offset
  if start < 0 ∨ n < start then .nothing
  else
    match length with
    | none => .span start n
    | some l =>
        if l < 0 then if n + l < start then .error else .span start (n + l)
        else .span start (min n (start + l))

/-- The parameters have the indices from 0, the first of them `$0`; the end is at most `limit`. -/
def listSpan (n limit offset : ℤ) (length : Option ℤ) : Span :=
  let start := startOf n offset
  if start < 0 ∨ n < start then .nothing
  else
    match length with
    | none => .span start limit
    | some l => if l < 0 then .error else .span start (min limit (start + l))

def slice {α : Type} (xs : List α) (start stop : ℤ) : List α := (xs.take stop.toNat).drop start.toNat

def scalarReference (chars : List Quoting.Bytes) (offset : ℤ) (length : Option ℤ) : Outcome :=
  match scalarSpan chars.length offset length with
  | .nothing => .nothing
  | .error => .error
  | .span start stop => .text (slice chars start stop).flatten

def listReference (p : PositionalParameters) (offset : ℤ) (length : Option ℤ) : Outcome :=
  match listSpan (p.args.length + 1) (p.args.length + 1) offset length with
  | .nothing => .words []
  | .error => .error
  | .span start stop => .words (slice (p.zero :: p.args) start stop)

/-- The expansion is the reference, nothing overflows, and what is handed over are indices into
`n` things. -/
structure Exact (run : Run) (reference : Outcome) (n : ℤ) : Prop where
  outcome : run.outcome = reference
  overflow : run.overflow = false
  indices : ∀ s e, run.indices = some (s, e) → 0 ≤ s ∧ s ≤ e ∧ e ≤ n

end Substrings

end Rash
