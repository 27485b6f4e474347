import Mathlib.Data.List.Basic
import Mathlib.Data.Int.Notation
import Rash.Lib.Decimal

/-!
# Brace expansion

`braces.c` in a locale where no part of a multibyte character looks like another character: a
word is the list of its characters, and reading at its end gives the NUL of the C string.
-/

namespace Rash

namespace Braces

abbrev Word := List Char

def nul : Char := '\x00'
def tab : Char := '\x09'
def newline : Char := '\x0a'
def dquote : Char := '\x22'
def squote : Char := '\x27'
def backslash : Char := '\x5c'
def backquote : Char := '\x60'

def charAt (text : Word) (i : ℕ) : Char := text.getD i nul

/-- `substring (text, start, end)`. -/
def substring (text : Word) (start stop : ℕ) : Word := (text.take stop).drop start

def braceWhitespace (c : Char) : Bool := c == nul || c == ' ' || c == tab || c == newline

def funsubChar (c : Char) : Bool :=
  c == ' ' || c == tab || c == newline || c == '|' || c == '('

inductive BraceType
  | comma
  | seq
  | none
  deriving DecidableEq

/-- What the scan of braces asks of the parser: where the substitution that starts at an index
ends.  The index of its closing character is returned, for a function substitution with the
flag that says whether it stands in double quotes. -/
structure Extractors where
  extractFunctionSubst : Word → ℕ → Bool → ℕ
  extractCommandSubst : Word → ℕ → ℕ

/-! ## Looking for a brace or a separator -/

/-- The local variables of `brace_gobbler`. -/
structure Gobbler where
  i : ℕ
  quoted : Option Char
  level : ℕ
  commas : ℕ
  passNext : Bool
  btype : BraceType

inductive Gobbled
  | next (g : Gobbler)
  | found (g : Gobbler) (c : Char)

/-- Behind a substitution that ends at `si`; the rest of the text when it does not end. -/
def behindSubst (text : Word) (g : Gobbler) (si : ℕ) : Gobbled :=
  if text.length < si + 1 then .found { g with i := text.length } nul
  else .next { g with i := si + 1 }

/-- The levels and the separators, which count only where the closing brace is looked for. -/
def countBraces (text : Word) (satisfy : Char) (g : Gobbler) : Gobbler :=
  let c := charAt text g.i
  if c = '{' then { g with level := g.level + 1 }
  else if c = '}' ∧ g.level ≠ 0 then { g with level := g.level - 1 }
  else if satisfy = '}' ∧ c = ',' ∧ g.level = 0 then
    { g with btype := .comma, commas := g.commas + 1 }
  else if satisfy = '}' ∧ (c = '.' ∧ charAt text (g.i + 1) = '.') ∧
      charAt text (g.i + 2) ≠ satisfy ∧ g.level = 0 ∧ g.btype = .none then
    { g with btype := .seq, commas := g.commas + 1 }
  else g

section

variable (ext : Extractors)

/-- One turn of the loop of `brace_gobbler`. -/
def gobbleStep (text : Word) (satisfy : Char) (g : Gobbler) : Gobbled :=
  let c := charAt text g.i
  let following := charAt text (g.i + 1)
  if g.passNext then .next { g with passNext := false, i := g.i + 1 }
  else if c = backslash ∧ (g.quoted = none ∨ g.quoted = some dquote ∨ g.quoted = some backquote) then
    .next { g with passNext := true, i := g.i + 1 }
  else if c = '$' ∧ following = '{' ∧ g.quoted ≠ some squote then
    if g.i + 1 < text.length ∧ funsubChar (charAt text (g.i + 2)) then
      behindSubst text g (ext.extractFunctionSubst text (g.i + 2) (g.quoted == some dquote))
    else
      -- `${` is read like an escaped brace, whose level still has to be closed.
      .next { g with
        passNext := true, i := g.i + 1, level := if g.quoted = none then g.level + 1 else g.level }
  else if g.quoted ≠ none then
    let g := if g.quoted = some c then { g with quoted := none } else g
    if g.quoted = some dquote ∧ c = '$' ∧ following = '(' then
      behindSubst text g (ext.extractCommandSubst text (g.i + 2))
    else .next { g with i := g.i + 1 }
  else if c = dquote ∨ c = squote ∨ c = backquote then
    .next { g with quoted := some c, i := g.i + 1 }
  else if (c = '$' ∨ c = '<' ∨ c = '>') ∧ following = '(' then
    behindSubst text g (ext.extractCommandSubst text (g.i + 2))
  else if c = satisfy ∧ g.level = 0 ∧ 0 < g.commas then
    if c = '{' ∧ (g.i = 0 ∨ braceWhitespace (charAt text (g.i - 1))) ∧
        (braceWhitespace following ∨ following = '}') then
      .next { g with i := g.i + 1 }
    else .found g c
  else .next { countBraces text satisfy g with i := g.i + 1 }

def gobbleLoop (text : Word) (satisfy : Char) : ℕ → Gobbler → Gobbler × Char
  | 0, g => (g, nul)
  | fuel + 1, g =>
      if charAt text g.i = nul then (g, nul)
      else
        match gobbleStep ext text satisfy g with
        | .next g => gobbleLoop text satisfy fuel g
        | .found g c => (g, c)

/-- The character that ended the scan, its index, and the kind of expansion seen. -/
def braceGobbler (text : Word) (i : ℕ) (satisfy : Char) : Char × ℕ × BraceType :=
  let start : Gobbler := {
    i := i
    quoted := none
    level := 0
    commas := if satisfy = '}' then 0 else 1
    passNext := false
    btype := .none }
  let (g, c) := gobbleLoop ext text satisfy (text.length + 1) start
  (c, g.i, g.btype)

end

/-! ## Sequences -/

def intmaxMax : ℤ := 2 ^ 63 - 1
def intmaxMin : ℤ := -2 ^ 63

/-- `ckd_sub` on `intmax_t`, without a value where it overflows. -/
def ckdSub (a b : ℤ) : Option ℤ :=
  if intmaxMin ≤ a - b ∧ a - b ≤ intmaxMax then some (a - b) else none

structure NumberRead where
  value : ℤ
  rest : Word
  erange : Bool

/-- `strtoimax` in base 10: the text itself is the rest where no digit stands. -/
def strtoimax (s : Word) : NumberRead :=
  let t := s.dropWhile Decimal.isSpace
  let negative := t.head? == some '-'
  let u := if negative ∨ t.head? = some '+' then t.tail else t
  let rest := u.dropWhile Char.isDigit
  let v : ℤ := if negative then -Decimal.number 10 u else Decimal.number 10 u
  if rest.length = u.length then ⟨0, s, false⟩
  else if intmaxMax < v then ⟨intmaxMax, rest, true⟩
  else if v < intmaxMin then ⟨intmaxMin, rest, true⟩
  else ⟨v, rest, false⟩

def validNumber (s : Word) : Option ℤ :=
  let r := strtoimax s
  if r.erange ∨ r.rest.length = s.length then none
  else if r.rest.dropWhile Decimal.isSpace = [] then some r.value
  else none

def itos (n : ℤ) : Word :=
  if n < 0 then '-' :: Decimal.decimal n.natAbs else Decimal.decimal n.natAbs

inductive SeqType
  | bad
  | int
  | char
  | zint
  deriving DecidableEq

/-- One term; a padded number keeps its sign in front of the zeros. -/
def seqTerm (type : SeqType) (width : ℕ) (n : ℤ) : Word :=
  match type with
  | .int => itos n
  | .zint =>
      let zeros := List.replicate (width - (itos n).length) '0'
      if n < 0 then '-' :: zeros ++ (itos n).tail else zeros ++ itos n
  | _ => [Char.ofNat n.toNat]

def seqTerms (type : SeqType) (width : ℕ) (incr : ℤ) : ℕ → ℤ → List Word
  | 0, _ => []
  | k + 1, n => seqTerm type width n :: seqTerms type width incr k (n + incr)

/-- `strvec_mcreate` is told how many elements are asked for, and may fail. -/
def mkseq (strvecMcreate : ℕ → Bool) (start stop incr : ℤ) (type : SeqType) (width : ℕ) :
    Option (List Word) := do
  let incr := if incr = 0 then 1 else incr
  let absIncr ← if incr < 0 then ckdSub 0 incr else some incr
  let incr ← if start < stop ↔ incr < 0 then ckdSub 0 incr else some incr
  let prevn ← if start < stop then ckdSub stop start else ckdSub start stop
  let nelem := (prevn / absIncr + 2).toNat
  if nelem < 2 ^ 64 ∧ strvecMcreate nelem then
    some (seqTerms type width incr (nelem - 1) start)
  else none

/-- `strstr (text, "..")`, as an index. -/
def findDots : Word → Option ℕ
  | [] => none
  | c :: text => if c = '.' ∧ text.head? = some '.' then some 0 else (findDots text).map (· + 1)

def startsNumber (text : Word) (i : ℕ) : Bool :=
  (charAt text i).isDigit ||
    ((charAt text i == '+' || charAt text i == '-') && (charAt text (i + 1)).isDigit)

/-- A first look at the `tlen` characters between the braces; it may see the closing brace. -/
def validSeqterm (text : Word) (tlen : ℕ) : Bool :=
  match findDots (text.take tlen) with
  | none => false
  | some t =>
      let rhs := t + 2
      if charAt text 0 = '.' ∨ charAt text rhs = '}' then false
      else
        let lhsT : SeqType :=
          if startsNumber text 0 then .int
          else if (charAt text 0).isAlpha ∧ charAt text 1 = '.' then .char
          else .bad
        let rhsT : SeqType :=
          if startsNumber text rhs then .int
          else if (charAt text rhs).isAlpha ∧
              (charAt text (rhs + 1) = '}' ∨ charAt text (rhs + 1) = '.') then .char
          else .bad
        lhsT = rhsT ∧ lhsT ≠ .bad

/-- The kind of the right-hand side, its number, and what follows it. -/
def seqRhs (rhs : Word) : SeqType × ℤ × Word :=
  if startsNumber rhs 0 then
    let r := strtoimax rhs
    if r.erange ∨ (r.rest ≠ [] ∧ charAt r.rest 0 ≠ '.') then (.bad, r.value, r.rest)
    else (.int, r.value, r.rest)
  else if (charAt rhs 0).isAlpha ∧ (rhs.length = 1 ∨ charAt rhs 1 = '.') then (.char, 0, rhs.tail)
  else (.bad, 0, [])

/-- The increment behind the right-hand side, and what follows it. -/
def seqIncr (ep : Word) : ℤ × Word × Bool :=
  if charAt ep 0 = '.' ∧ charAt ep 1 = '.' ∧ 2 < ep.length then
    let r := strtoimax (ep.drop 2)
    (r.value, r.rest, r.erange)
  else (1, ep, false)

/-- `side` wants zero-padding: it is a number of several digits that begins with a zero. -/
def paddedSide (side : Word) (len : ℕ) : Bool :=
  (decide (1 < len) && charAt side 0 == '0') ||
    (decide (2 < len) && charAt side 0 == '-' && charAt side 1 == '0')

def expandSeqterm (strvecMcreate : ℕ → Bool) (text : Word) : Option (List Word) := do
  let lhsL ← findDots text
  let lhs := text.take lhsL
  let rhs := text.drop (lhsL + 2)
  if lhs = [] ∨ rhs = [] then none
  else
    let tl := validNumber lhs
    let lhsT : SeqType :=
      if tl.isSome then .int
      else if (charAt lhs 0).isAlpha ∧ lhs.length = 1 then .char
      else .bad
    let (rhsT, tr, oep) := seqRhs rhs
    let (incr, ep, erange) := seqIncr oep
    let rhsT := if rhsT ≠ .bad ∧ (ep ≠ [] ∨ erange) then SeqType.bad else rhsT
    if lhsT ≠ rhsT ∨ lhsT = .bad then none
    else if lhsT = .char then
      mkseq strvecMcreate (charAt lhs 0).toNat (charAt rhs 0).toNat incr .char 1
    else
      let rhsL := text.length - (oep.length - ep.length) - lhsL - 2
      if paddedSide lhs lhsL ∨ paddedSide rhs rhsL then
        mkseq strvecMcreate (tl.getD 0) tr incr .zint (max lhsL rhsL)
      else mkseq strvecMcreate (tl.getD 0) tr incr .int 0

/-! ## The expansion -/

/-- Each string of `arr2` behind each string of `arr1`.  A list of one empty string is not
multiplied out. -/
def arrayConcat (arr1 arr2 : List Word) : List Word :=
  if arr1 = [[]] then arr2
  else if arr2 = [[]] then arr1
  else arr1.flatMap fun a => arr2.map fun b => a ++ b

section

variable (ext : Extractors) (strvecMcreate : ℕ → Bool)

/-- The loop that ends at the end of the text or at a brace that begins an expansion. -/
def findBrace (text : Word) : ℕ → ℕ → Char × ℕ
  | 0, i => (nul, i)
  | fuel + 1, i =>
      let (c, i, _) := braceGobbler ext text i '{'
      if text.length ≤ i ∨ c = nul then (c, i)
      else
        let start := i + 1
        let (closer, j, etype) := braceGobbler ext text start '}'
        if closer = nul ∨ (etype = .seq ∧ validSeqterm (text.drop start) (j - start) = false) then
          findBrace text fuel (i + 1)
        else (c, i)

/-- The text inside a pair of braces, cut at its separators and each piece expanded. -/
def expandAmble (braceExpand : Word → List Word) (text : Word) : ℕ → ℕ → List Word
  | 0, _ => []
  | fuel + 1, start =>
      let (c, i, _) := braceGobbler ext text start ','
      let piece := braceExpand (substring text start i)
      if c = nul then piece else piece ++ expandAmble braceExpand text fuel (i + 1)

/-- The loop that looks for a separator in the amble: `amble[j] == 0` behind it. -/
def runsToEnd (amble : Word) (etype : BraceType) : ℕ → ℕ → Bool
  | 0, _ => true
  | fuel + 1, j =>
      if charAt amble j = nul then true
      else if charAt amble j = backslash then runsToEnd amble etype fuel (j + 2)
      else if charAt amble j = ',' ∧ etype = .comma then false
      else runsToEnd amble etype fuel (j + 1)

/-- What stands in place of the braces from `start` to `i`, or nothing where the text is
returned as it is. -/
def braceTack (braceExpand : Word → List Word) (text : Word) (start i : ℕ) (etype : BraceType) :
    Option (List Word) :=
  let amble := substring text start i
  if runsToEnd amble etype (amble.length + 1) 0 ∧ etype = .seq then
    match expandSeqterm strvecMcreate amble with
    | some tack => some tack
    | none =>
        if i < text.length ∧ charAt text (i + 1) ≠ nul then
          some [substring text (start - 1) (i + 1)]
        else none
  else some (expandAmble ext braceExpand amble (amble.length + 1) 0)

def braceExpandFrom : ℕ → Word → List Word
  | 0, text => [text]
  | fuel + 1, text =>
      let (c, i) := findBrace ext text (text.length + 1) 0
      let preamble := text.take i
      if c ≠ '{' then [preamble]
      else
        let start := i + 1
        let (closer, i, etype) := braceGobbler ext text start '}'
        if closer = nul then [text]
        else
          match braceTack ext strvecMcreate (braceExpandFrom fuel) text start i etype with
          | none => [text]
          | some tack =>
              let result := arrayConcat [preamble] tack
              let postamble := text.drop (i + 1)
              if postamble = [] then result
              else arrayConcat result (braceExpandFrom fuel postamble)

/-- Every recursive call is on a shorter text. -/
def braceExpand (text : Word) : List Word :=
  braceExpandFrom ext strvecMcreate (text.length + 1) text

end

end Braces

end Rash
