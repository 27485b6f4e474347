import Mathlib.Data.List.Infix

/-!
# Bracket expressions

`BRACKMATCH` of sm_loop.c over bytes, in the C locale.  A pointer into the pattern is the rest
of the pattern from there on, and the terminating NUL its end.
-/

namespace Rash

/-- The flags of strmatch.h that take part where `FNM_EXTMATCH`, `FNM_PATHNAME` and
`FNM_PERIOD` are off, but for `FNM_DOTDOT`. -/
structure MatchFlags where
  noescape : Bool
  leadingDir : Bool
  casefold : Bool
  deriving DecidableEq

namespace Glob

abbrev backslash : UInt8 := 92
abbrev caret : UInt8 := 94
abbrev colon : UInt8 := 58
abbrev dot : UInt8 := 46
abbrev equals : UInt8 := 61
abbrev exclamation : UInt8 := 33
abbrev lbrack : UInt8 := 91
abbrev minus : UInt8 := 45
abbrev question : UInt8 := 63
abbrev rbrack : UInt8 := 93
abbrev slash : UInt8 := 47
abbrev star : UInt8 := 42

def toLower (c : UInt8) : UInt8 := if 65 ≤ c ∧ c ≤ 90 then c + 32 else c

/-- `FOLD` -/
def fold (flags : MatchFlags) (c : UInt8) : UInt8 := if flags.casefold then toLower c else c

/-- The bytes of a C string. -/
def bytes (s : String) : List UInt8 := s.toUTF8.data.toList

def posixCollsyms : List (String × UInt8) :=
  [("NUL", 0), ("SOH", 1), ("STX", 2), ("ETX", 3), ("EOT", 4), ("ENQ", 5), ("ACK", 6),
    ("alert", 7), ("BS", 8), ("backspace", 8), ("HT", 9), ("tab", 9), ("LF", 10),
    ("newline", 10), ("VT", 11), ("vertical-tab", 11), ("FF", 12), ("form-feed", 12),
    ("CR", 13), ("carriage-return", 13), ("SO", 14), ("SI", 15), ("DLE", 16), ("DC1", 17),
    ("DC2", 18), ("DC3", 19), ("DC4", 20), ("NAK", 21), ("SYN", 22), ("ETB", 23), ("CAN", 24),
    ("EM", 25), ("SUB", 26), ("ESC", 27), ("IS4", 28), ("FS", 28), ("IS3", 29), ("GS", 29),
    ("IS2", 30), ("RS", 30), ("IS1", 31), ("US", 31), ("space", 32), ("exclamation-mark", 33),
    ("quotation-mark", 34), ("number-sign", 35), ("dollar-sign", 36), ("percent-sign", 37),
    ("ampersand", 38), ("apostrophe", 39), ("left-parenthesis", 40), ("right-parenthesis", 41),
    ("asterisk", 42), ("plus-sign", 43), ("comma", 44), ("hyphen", 45), ("hyphen-minus", 45),
    ("minus", 45), ("dash", 45), ("period", 46), ("full-stop", 46), ("slash", 47),
    ("solidus", 47), ("zero", 48), ("one", 49), ("two", 50), ("three", 51), ("four", 52),
    ("five", 53), ("six", 54), ("seven", 55), ("eight", 56), ("nine", 57), ("colon", 58),
    ("semicolon", 59), ("less-than-sign", 60), ("equals-sign", 61), ("greater-than-sign", 62),
    ("question-mark", 63), ("commercial-at", 64), ("left-square-bracket", 91),
    ("backslash", 92), ("reverse-solidus", 92), ("right-square-bracket", 93),
    ("circumflex", 94), ("circumflex-accent", 94), ("underscore", 95), ("grave-accent", 96),
    ("left-brace", 123), ("left-curly-bracket", 123), ("vertical-line", 124),
    ("right-brace", 125), ("right-curly-bracket", 125), ("tilde", 126), ("DEL", 127)]

/-- `collsym`, with `none` for `INVALID`. -/
def collsym (s : List UInt8) : Option UInt8 :=
  match posixCollsyms.find? fun csp => bytes csp.1 == s with
  | some csp => some csp.2
  | none => if s.length = 1 then s.head? else none

/-- What `COLLSYM` stores in an `unsigned char`: `INVALID` is -1. -/
def collchar (s : List UInt8) : UInt8 := (collsym s).getD 255

def isDigit (c : UInt8) : Bool := 48 ≤ c && c ≤ 57
def isUpper (c : UInt8) : Bool := 65 ≤ c && c ≤ 90
def isLower (c : UInt8) : Bool := 97 ≤ c && c ≤ 122
def isAlpha (c : UInt8) : Bool := isUpper c || isLower c
def isAlnum (c : UInt8) : Bool := isAlpha c || isDigit c
def isGraph (c : UInt8) : Bool := 33 ≤ c && c ≤ 126

/-- `cclass_test` for the names of `cclass_name` -/
def cclasses : List (String × (UInt8 → Bool)) :=
  [("ascii", fun c => c ≤ 127), ("alnum", isAlnum), ("alpha", isAlpha),
    ("blank", fun c => c == 32 || c == 9), ("cntrl", fun c => c ≤ 31 || c == 127),
    ("digit", isDigit), ("graph", isGraph), ("lower", isLower),
    ("print", fun c => isGraph c || c == 32), ("punct", fun c => isGraph c && !isAlnum c),
    ("space", fun c => c == 32 || (9 ≤ c && c ≤ 13)), ("upper", isUpper),
    ("word", fun c => isAlnum c || c == 95),
    ("xdigit", fun c => isDigit c || (65 ≤ c && c ≤ 70) || (97 ≤ c && c ≤ 102))]

/-- `is_cclass`; a name that is no class matches nothing. -/
def isCclass (c : UInt8) (name : List UInt8) : Bool :=
  match cclasses.find? fun cclass => bytes cclass.1 == name with
  | some cclass => cclass.2 c
  | none => false

/-- `udequote_pathname` -/
def dequotePathname : List UInt8 → List UInt8
  | [] => []
  | [c] => if c = backslash then [] else [c]
  | c :: d :: rest =>
      if c = backslash then d :: dequotePathname rest else c :: dequotePathname (d :: rest)

/-- The loop of `PARSE_SUBBRACKET`: the text up to the closing `type` and bracket, and what
follows them. -/
def subbracketEnd (type : UInt8) : List UInt8 → Option (List UInt8 × List UInt8)
  | [] => none
  | c :: p =>
      if type ≠ dot ∧ c = rbrack then none
      else if c = type ∧ p.head? = some rbrack then some ([], p.tail)
      else (subbracketEnd type p).map fun found => (c :: found.1, found.2)

def parseSubbracket (type : UInt8) : List UInt8 → Option (List UInt8 × List UInt8)
  | [] => none
  | c :: p => if c = type then subbracketEnd type p else none

/-- `c == '[' && *p == type && (close = PARSE_SUBBRACKET (p, flags)) != NULL` -/
def symbolAt (type c : UInt8) (p : List UInt8) : Option (List UInt8 × List UInt8) :=
  if c = lbrack then parseSubbracket type p else none

/-- A symbol or a class of any of the three types. -/
def anySymbolAt (c : UInt8) (p : List UInt8) : Option (List UInt8 × List UInt8) :=
  match symbolAt equals c p with
  | some found => some found
  | none =>
      match symbolAt colon c p with
      | some found => some found
      | none => symbolAt dot c p

/-- The loop behind `matched`, which skips the rest of the expression from `p` on: what follows
the closing bracket, if there is one. -/
def skipBracket (flags : MatchFlags) : ℕ → List UInt8 → Option (List UInt8)
  | 0, _ => none
  | _ + 1, [] => none
  | fuel + 1, c :: p =>
      match anySymbolAt c p with
      | some (_, rest) => skipBracket flags fuel rest
      | none =>
          if c = rbrack then some p
          else if flags.noescape = false ∧ c = backslash then skipBracket flags fuel p.tail
          else skipBracket flags fuel p

/-- `BRACKMATCH` between its two labels: the sense of the list, the character that is looked
for, as it stands and folded, and what a literal bracket is followed by. -/
structure BracketSearch where
  flags : MatchFlags
  origTest : UInt8
  not : Bool
  savep : List UInt8

namespace BracketSearch

variable (b : BracketSearch)

def test : UInt8 := fold b.flags b.origTest

/-- A bracket without a match is just another character. -/
def unmatched : Option (List UInt8) := if b.test = lbrack then some b.savep else none

/-- `break` out of the loop: no match. -/
def noMatch (p : List UInt8) : Option (List UInt8) := if b.not then some p else none

/-- `matched`, with `p` where the next character is. -/
def matched (p : List UInt8) : Option (List UInt8) :=
  match skipBracket b.flags (p.length + 1) p with
  | none => b.unmatched
  | some rest => if b.not then none else some rest

/-- The end of a range, from behind the `-`, and what follows it. -/
def rangeEnd (p : List UInt8) : Option (UInt8 × List UInt8) :=
  match p with
  | [] => none
  | c :: p =>
      let escaped := b.flags.noescape = false ∧ c = backslash
      let cend := if escaped then p.head? else some c
      let rest := if escaped then p.tail else p
      match cend with
      | none => none
      | some cend =>
          match symbolAt dot cend rest with
          | some (sym, rest) => some (collchar sym, rest)
          | none => some (cend, rest)

/-- The next character is read, at the end of the expression or for the next element. -/
def next (element : UInt8 → List UInt8 → Option (List UInt8)) (folds : Bool) :
    List UInt8 → Option (List UInt8)
  | [] => b.unmatched
  | c :: p =>
      if c = rbrack then b.noMatch p else element (if folds then fold b.flags c else c) p

/-- The loop of `BRACKMATCH` with the current character `c` and `p` behind it. -/
def loop : ℕ → UInt8 → List UInt8 → Option (List UInt8)
  | 0, _, _ => none
  | fuel + 1, c, p =>
      let next := b.next (loop fuel)
      match symbolAt equals c p with
      | some (sym, rest) =>
          if b.test = fold b.flags (collchar sym) then b.matched rest else next true rest
      | none =>
      match symbolAt colon c p with
      | some (name, rest) =>
          if isCclass b.origTest (dequotePathname name) then b.matched rest else next true rest
      | none =>
      let symbol := symbolAt dot c p
      let cstart := match symbol with
        | some (sym, _) => some (collchar sym)
        | none => if b.flags.noescape = false ∧ c = backslash then p.head? else some c
      let p := match symbol with
        | some (_, rest) => rest
        | none => if b.flags.noescape = false ∧ c = backslash then p.tail else p
      match cstart with
      | none => b.unmatched
      | some cstart =>
      let cstart := fold b.flags cstart
      match p with
      | [] => b.unmatched
      | c :: after =>
          if c = minus ∧ after.head? ≠ some rbrack then
            match b.rangeEnd after with
            | none => b.unmatched
            | some (cend, p) =>
                let cend := fold b.flags cend
                if cend < cstart then next true p
                else if cstart ≤ b.test ∧ b.test ≤ cend then b.matched p
                else next false p
          else if b.test = cstart then b.matched (c :: after)
          else next true (c :: after)

end BracketSearch

/-- `BRACKMATCH (p, test, flags)` -/
def brackmatch (flags : MatchFlags) (p : List UInt8) (test : UInt8) : Option (List UInt8) :=
  let not := p.head? = some exclamation ∨ p.head? = some caret
  let b : BracketSearch := { flags := flags, origTest := test, not := not, savep := p }
  match if not then p.tail else p with
  | [] => b.unmatched
  | c :: p => b.loop (p.length + 1) c p

end Glob

end Rash
