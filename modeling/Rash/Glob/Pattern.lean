import Rash.Glob.Bracket
import Rash.Lib.Wildcard

/-!
# The language of a pattern

What a pattern says, read without regard to how it is matched: it is cut into stars and
elements that take one character each, and a bracket expression is cut into items.
-/

namespace Rash

namespace Glob

open Wildcard

/-- An item of a bracket expression.  An unknown collating symbol is `none`, and no character
is equal to it. -/
inductive BracketItem
  | char (c : Option UInt8)
  | range (first last : Option UInt8)
  | cclass (name : List UInt8)
  | equiv (sym : Option UInt8)
  deriving DecidableEq

namespace BracketItem

def accepts (flags : MatchFlags) (x : UInt8) : BracketItem → Bool
  | .char c => c.any fun c => fold flags x == fold flags c
  | .range first last =>
      first.any fun a => last.any fun b =>
        fold flags a ≤ fold flags x && fold flags x ≤ fold flags b
  | .cclass name => isCclass x name
  | .equiv sym => sym.any fun c => fold flags x == fold flags c

/-- The collating symbols that the item names exist. -/
def known : BracketItem → Bool
  | .char c => c.isSome
  | .range first last => first.isSome && last.isSome
  | .cclass _ => true
  | .equiv sym => sym.isSome

end BracketItem

/-- A bracket and a symbol of the given type: its name, and what follows. -/
def bracketSymbol (type : UInt8) : List UInt8 → Option (List UInt8 × List UInt8)
  | [] => none
  | c :: p => symbolAt type c p

/-- One character of a bracket expression: a collating symbol, an escaped character, or the
character itself. -/
def bracketChar (flags : MatchFlags) (p : List UInt8) : Option (Option UInt8 × List UInt8) :=
  match bracketSymbol dot p with
  | some (sym, rest) => some (collsym sym, rest)
  | none =>
      match p with
      | [] => none
      | c :: p =>
          if flags.noescape = false ∧ c = backslash then
            p.head?.map fun d => (some d, p.tail)
          else some (some c, p)

/-- What follows the `-` of a range; one before the closing bracket stands for itself. -/
def rangeTail : List UInt8 → Option (List UInt8)
  | [] => none
  | c :: p => if c = minus ∧ p.head? ≠ some rbrack then some p else none

/-- The character `a`, or the range that it begins. -/
def rangeFrom (flags : MatchFlags) (a : Option UInt8) (rest : List UInt8) :
    Option (BracketItem × List UInt8) :=
  match rangeTail rest with
  | none => some (.char a, rest)
  | some last => (bracketChar flags last).map fun found => (.range a found.1, found.2)

def bracketRange (flags : MatchFlags) (p : List UInt8) : Option (BracketItem × List UInt8) :=
  match bracketChar flags p with
  | none => none
  | some (a, rest) => rangeFrom flags a rest

def bracketItem (flags : MatchFlags) (p : List UInt8) : Option (BracketItem × List UInt8) :=
  match bracketSymbol equals p with
  | some (sym, rest) => some (.equiv (collsym sym), rest)
  | none =>
      match bracketSymbol colon p with
      | some (name, rest) => some (.cclass (dequotePathname name), rest)
      | none => bracketRange flags p

/-- The items up to the closing bracket, which is not the first character. -/
def bracketItems (flags : MatchFlags) :
    ℕ → List UInt8 → Option (List BracketItem × List UInt8)
  | 0, _ => none
  | fuel + 1, p =>
      match bracketItem flags p with
      | none => none
      | some (item, rest) =>
          if rest.head? = some rbrack then some ([item], rest.tail)
          else (bracketItems flags fuel rest).map fun found => (item :: found.1, found.2)

def negated (p : List UInt8) : Bool := p.head? = some exclamation ∨ p.head? = some caret

/-- The text of a bracket expression behind its sense. -/
def bracketList (p : List UInt8) : List UInt8 := if negated p then p.tail else p

structure BracketExpr where
  negated : Bool
  items : List BracketItem
  deriving DecidableEq

def BracketExpr.accepts (flags : MatchFlags) (e : BracketExpr) (x : UInt8) : Bool :=
  (e.items.any fun item => item.accepts flags x) != e.negated

/-- The bracket expression whose opening bracket stands before `p`, and what follows it. -/
def bracketExpr (flags : MatchFlags) (p : List UInt8) : Option (BracketExpr × List UInt8) :=
  (bracketItems flags (bracketList p).length (bracketList p)).map fun found =>
    ({ negated := negated p, items := found.1 }, found.2)

/-- The character `c`, with regard to case if the flags say so. -/
def same (flags : MatchFlags) (c : UInt8) : Token UInt8 :=
  .one fun x => fold flags x == fold flags c

/-- The first token of `c :: p`, and what follows it. -/
def firstToken (flags : MatchFlags) (c : UInt8) (p : List UInt8) :
    Token UInt8 × List UInt8 :=
  if c = question then (.one fun _ => true, p)
  else if c = star then (.star, p)
  else if c = backslash ∧ flags.noescape = false then
    match p with
    | [] => (.one fun _ => false, [])
    | d :: p => (same flags d, p)
  else if c = lbrack then
    match bracketExpr flags p with
    | none => (same flags lbrack, p)
    | some (e, rest) => (.one (e.accepts flags), rest)
  else (same flags c, p)

def tokensUpTo (flags : MatchFlags) : ℕ → List UInt8 → List (Token UInt8)
  | 0, _ => []
  | _ + 1, [] => []
  | fuel + 1, c :: p =>
      (firstToken flags c p).1 :: tokensUpTo flags fuel (firstToken flags c p).2

/-- A pattern as stars and tokens. -/
def tokens (flags : MatchFlags) (p : List UInt8) : List (Token UInt8) :=
  tokensUpTo flags p.length p

/-- What may be left of the string behind the pattern. -/
def Rest (flags : MatchFlags) (s : List UInt8) : Prop :=
  s = [] ∨ flags.leadingDir = true ∧ s.head? = some slash

instance (flags : MatchFlags) : DecidablePred (Rest flags) := fun s =>
  inferInstanceAs (Decidable (s = [] ∨ _))

/-- The string is in the language of the pattern; `FNM_DOTDOT` keeps a pattern that begins with
a special character from `.` and `..`. -/
def InLanguage (flags : MatchFlags) (dotdot : Bool) (pattern string : List UInt8) : Prop :=
  Accepts (Rest flags) (tokens flags pattern) string ∧
    ¬(dotdot = true ∧ (string = [dot] ∨ string = [dot, dot]) ∧
      ∃ c ∈ pattern.head?, c = question ∨ c = star ∨ c = lbrack)

end Glob

end Rash
