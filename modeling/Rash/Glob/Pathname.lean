import Mathlib.Data.List.Forall2
import Mathlib.Data.List.Infix

/-!
# Matching pathnames

`GMATCH` and `BRACKMATCH` of sm_loop.c for strings of bytes and of wide characters, with all the
flags that take part where the pattern has no extended groups.  A pointer is the rest of the
pattern or of the string from there on, and the terminating NUL its end.  No signal interrupts
the match.
-/

namespace Rash

namespace Pathname

/-- A byte or a wide character. -/
abbrev CHAR := ℕ

abbrev backslash : CHAR := 92
abbrev caret : CHAR := 94
abbrev colon : CHAR := 58
abbrev dot : CHAR := 46
abbrev equals : CHAR := 61
abbrev exclamation : CHAR := 33
abbrev lbrack : CHAR := 91
abbrev lparen : CHAR := 40
abbrev minus : CHAR := 45
abbrev plus : CHAR := 43
abbrev question : CHAR := 63
abbrev rbrack : CHAR := 93
abbrev slash : CHAR := 47
abbrev star : CHAR := 42
abbrev commercialAt : CHAR := 64

structure Flags where
  pathname : Bool
  noescape : Bool
  period : Bool
  leadingDir : Bool
  casefold : Bool
  extmatch : Bool
  dotdot : Bool
  deriving DecidableEq

/-- What smatch.c takes from the locale. -/
structure Locale where
  /-- `TOLOWER` or `towlower`, as far as `FOLD` uses it -/
  toLower : CHAR → CHAR
  collsym : List CHAR → CHAR
  collequiv : CHAR → CHAR → Bool
  isCclass : CHAR → List CHAR → Bool
  rangecmp : CHAR → CHAR → Bool → Int

/-- The flags of a call, in a locale. -/
structure Matcher where
  flags : Flags
  loc : Locale

/-- `DEQUOTE_PATHNAME` -/
def dequotePathname : List CHAR → List CHAR
  | [] => []
  | [c] => if c = backslash then [] else [c]
  | c :: d :: rest =>
      if c = backslash then d :: dequotePathname rest else c :: dequotePathname (d :: rest)

namespace Matcher

variable (m : Matcher)

/-- `FOLD` -/
def fold (c : CHAR) : CHAR := if m.flags.casefold then m.loc.toLower c else c

/-- `SLASH_PATHNAME` -/
def slashPathname (c : CHAR) : Bool := m.flags.pathname && c == slash

/-- A backslash that removes a special meaning. -/
def escapes (c : CHAR) : Bool := !m.flags.noescape && c == backslash

/-! ## Bracket expressions -/

/-- The loop of `PARSE_SUBBRACKET`: the text up to the closing `type` and bracket, and what
follows them. -/
def subbracketEnd (type : CHAR) : List CHAR → Option (List CHAR × List CHAR)
  | [] => none
  | c :: p =>
      if m.slashPathname c then none
      else if type ≠ dot ∧ c = rbrack then none
      else if c = type ∧ p.head? = some rbrack then some ([], p.tail)
      else (subbracketEnd type p).map fun found => (c :: found.1, found.2)

/-- `c == '[' && *p == type && (close = PARSE_SUBBRACKET (p, flags)) != NULL` -/
def symbolAt (type c : CHAR) (p : List CHAR) : Option (List CHAR × List CHAR) :=
  if c = lbrack ∧ p.head? = some type then m.subbracketEnd type p.tail else none

/-- A symbol or a class of any of the three types. -/
def anySymbolAt (c : CHAR) (p : List CHAR) : Option (List CHAR × List CHAR) :=
  ((m.symbolAt equals c p).or (m.symbolAt colon c p)).or (m.symbolAt dot c p)

/-- The loop behind `matched`, which skips the rest of the expression from `p` on: what follows
the closing bracket, if there is one. -/
def skipBracket : ℕ → List CHAR → Option (List CHAR)
  | 0, _ => none
  | _ + 1, [] => none
  | fuel + 1, c :: p =>
      if m.slashPathname c then none
      else
        match m.anySymbolAt c p with
        | some (_, rest) => skipBracket fuel rest
        | none =>
            if c = rbrack then some p
            else if m.escapes c then
              match p with
              | [] => none
              | d :: p => if m.slashPathname d then none else skipBracket fuel p
            else skipBracket fuel p

end Matcher

/-- `BRACKMATCH` between its two labels: the sense of the list, the character that is looked
for, and what a literal bracket is followed by. -/
structure BracketSearch where
  m : Matcher
  origTest : CHAR
  not : Bool
  savep : List CHAR

namespace BracketSearch

variable (b : BracketSearch)

def test : CHAR := b.m.fold b.origTest

/-- A bracket without a match, or with a slash, is just another character. -/
def unmatched : Option (List CHAR) := if b.test = lbrack then some b.savep else none

/-- `break` out of the loop: no match. -/
def noMatch (p : List CHAR) : Option (List CHAR) := if b.not then some p else none

/-- `matched`, with `p` where the next character is. -/
def matched (p : List CHAR) : Option (List CHAR) :=
  match b.m.skipBracket (p.length + 1) p with
  | none => b.unmatched
  | some rest => if b.not then none else some rest

/-- The end of a range at the character `cend`, with what follows it and `forcecoll`. -/
def rangeChar (cend : CHAR) (p : List CHAR) : Option (CHAR × List CHAR × Bool) :=
  if b.m.slashPathname cend then none
  else
    match b.m.symbolAt dot cend p with
    | some (sym, rest) => some (b.m.loc.collsym sym, rest, true)
    | none => some (cend, p, false)

/-- The end of a range, from behind the `-`. -/
def rangeEnd : List CHAR → Option (CHAR × List CHAR × Bool)
  | [] => none
  | cend :: p =>
      if b.m.escapes cend then
        match p with
        | [] => none
        | cend :: p => b.rangeChar cend p
      else b.rangeChar cend p

/-- The next character is read, at the end of the expression or for the next element. -/
def next (element : CHAR → List CHAR → Option (List CHAR)) (folds : Bool) :
    List CHAR → Option (List CHAR)
  | [] => b.unmatched
  | c :: p =>
      if b.m.slashPathname c then b.unmatched
      else if c = rbrack then b.noMatch p
      else element (if folds then b.m.fold c else c) p

/-- The character at which an element starts, with what follows it and `forcecoll`. -/
def elementStart (c : CHAR) (p : List CHAR) : Option (CHAR × List CHAR × Bool) :=
  match b.m.symbolAt dot c p with
  | some (sym, rest) => some (b.m.loc.collsym sym, rest, true)
  | none =>
      if b.m.escapes c then
        match p with
        | [] => none
        | d :: p => if b.m.slashPathname d then none else some (d, p, false)
      else if b.m.slashPathname c then none
      else some (c, p, false)

/-- The end of the loop: a single character or a range, with `p` behind its first character. -/
def elementEnd (element : CHAR → List CHAR → Option (List CHAR)) (cstart : CHAR)
    (forcecoll : Bool) : List CHAR → Option (List CHAR)
  | [] => b.unmatched
  | c :: p =>
      if b.m.slashPathname (b.m.fold c) then b.unmatched
      else if b.m.fold c = minus ∧ p.head? ≠ some rbrack then
        match b.rangeEnd p with
        | none => b.unmatched
        | some (cend, p, collated) =>
            let forcecoll := forcecoll || collated
            let cend := b.m.fold cend
            if 0 < b.m.loc.rangecmp cstart cend forcecoll then b.next element true p
            else if 0 ≤ b.m.loc.rangecmp b.test cstart forcecoll ∧
                b.m.loc.rangecmp b.test cend forcecoll ≤ 0 then
              b.matched p
            else b.next element false p
      else if b.test = cstart then b.matched (c :: p)
      else if b.m.fold c = rbrack then b.noMatch p
      else element (b.m.fold c) p

/-- The loop of `BRACKMATCH` with the current character `c` and `p` behind it. -/
def loop : ℕ → CHAR → List CHAR → Option (List CHAR)
  | 0, _, _ => none
  | fuel + 1, c, p =>
      match b.m.symbolAt equals c p with
      | some (sym, rest) =>
          if b.m.loc.collequiv b.test (b.m.fold (b.m.loc.collsym sym)) then b.matched rest
          else b.next (loop fuel) true rest
      | none =>
          match b.m.symbolAt colon c p with
          | some (name, rest) =>
              if b.m.loc.isCclass b.origTest (dequotePathname name) then b.matched rest
              else b.next (loop fuel) true rest
          | none =>
              match b.elementStart c p with
              | none => b.unmatched
              | some (cstart, p, forcecoll) =>
                  b.elementEnd (loop fuel) (b.m.fold cstart) forcecoll p

end BracketSearch

namespace Matcher

variable (m : Matcher)

/-- `BRACKMATCH (p, test, flags)` -/
def brackmatch (p : List CHAR) (test : CHAR) : Option (List CHAR) :=
  let not := p.head? = some exclamation ∨ p.head? = some caret
  let b : BracketSearch := { m := m, origTest := test, not := not, savep := p }
  match if not then p.tail else p with
  | [] => b.unmatched
  | c :: p => b.loop (p.length + 1) c p

end Matcher

/-! ## The matcher -/

/-- How a call of `GMATCH` ends.  It stops at a star where `ends` is not `NULL`, with the
character before the string there. -/
inductive MatchEnd
  | noMatch
  | matched
  | atStar (pattern : List CHAR) (before : Option CHAR) (string : List CHAR)
  /-- an extended group is found: `EXTMATCH` is called -/
  | group
  deriving DecidableEq

/-- Where the loop that collapses `*` and `?` comes out: at the end of the pattern, or at the
first other character, with the rest of the string and the character before it. -/
inductive Collapsed
  | noMatch
  | atEnd
  | group
  | general (pattern : List CHAR) (before : Option CHAR) (string : List CHAR)
  deriving DecidableEq

/-- `SDOT_OR_DOTDOT` -/
def sdotOrDotdot (s : List CHAR) : Bool := s == [dot] || s == [dot, dot]

/-- `PATHSEP` of a character or of the end. -/
def pathsep (c : Option CHAR) : Bool := c == none || c == some slash

/-- `PDOT_OR_DOTDOT` -/
def pdotOrDotdot (s : List CHAR) : Bool :=
  s.head? == some dot && (pathsep s[1]? || (s[1]? == some dot && pathsep s[2]?))

namespace Matcher

variable (m : Matcher)

/-- A leading `.` that `FNM_PERIOD` keeps from a wildcard at `n` in the string. -/
def leadingPeriod (string : List CHAR) (before : Option CHAR) (n : List CHAR) : Bool :=
  m.flags.period && n.head? == some dot &&
    (n.length == string.length || (m.flags.pathname && before == some slash))

/-- `.` or `..` that `FNM_DOTDOT` keeps from a wildcard. -/
def leadingDotdot (string : List CHAR) (before : Option CHAR) (n : List CHAR) : Bool :=
  m.flags.dotdot && ((n.length == string.length && sdotOrDotdot n) ||
    (m.flags.pathname && n.length != string.length && before == some slash && pdotOrDotdot n))

/-- The wildcard at the head of the pattern does not match at `n`. -/
def hidden (string : List CHAR) (before : Option CHAR) (n : List CHAR) : Bool :=
  m.leadingPeriod string before n || m.leadingDotdot string before n

/-- An extended group at `c`, in front of `p`. -/
def groupAt (c : CHAR) (p : List CHAR) : Bool :=
  m.flags.extmatch && p.head? == some lparen &&
    [plus, star, question, commercialAt, exclamation].contains c

/-- The loop over the characters of the pattern behind a star. -/
def collapse : List CHAR → Option CHAR → List CHAR → Collapsed
  | [], _, _ => .atEnd
  | c :: p, before, n =>
      if c = question ∨ c = star then
        if n.head?.any m.slashPathname then .noMatch
        else if m.groupAt c p then .group
        else if c = question then
          match n with
          | [] => .noMatch
          | x :: n => collapse p (some x) n
        else collapse p before n
      else .general (c :: p) before n

/-- The loop of the general case: `GMATCH` is called at the first positions of the string that
the look-ahead lets through, up to a slash, until it returns 0. -/
def tryPositions (skip : CHAR → Bool) (gmatch : Option CHAR → List CHAR → MatchEnd) :
    Option CHAR → List CHAR → MatchEnd
  | _, [] => .noMatch
  | before, x :: n =>
      if m.slashPathname x then .noMatch
      else if skip x then tryPositions skip gmatch (some x) n
      else
        match gmatch before (x :: n) with
        | .noMatch => tryPositions skip gmatch (some x) n
        | result => result

/-- The character of the pattern does not keep `*n` from being tried. -/
def lookAhead (c : CHAR) (p : List CHAR) (x : CHAR) : Bool :=
  let c1 := m.fold (if m.escapes c then p.headD 0 else c)
  if m.flags.extmatch then
    p.head? != some lparen && !([question, star, plus, commercialAt, exclamation].contains c) &&
      c != lbrack && m.fold x != c1
  else c != lbrack && m.fold x != c1

end Matcher

/-- The loop of `GMATCH` at `n` in the string, behind the character `before`, and `p` in the
pattern; `ends` says that it is not `NULL`, and without `leading` the flags `FNM_PERIOD` and
`FNM_DOTDOT` are off, as in the calls behind a star. -/
def gmatch (m : Matcher) (leading ends : Bool) (string : List CHAR) :
    ℕ → Option CHAR → List CHAR → List CHAR → MatchEnd
  | 0, _, _, _ => .noMatch
  | _ + 1, _, n, [] =>
      if n = [] then .matched
      else if m.flags.leadingDir = true ∧ n.head? = some slash then .matched
      else .noMatch
  | fuel + 1, before, n, c :: p =>
      if m.groupAt (m.fold c) p then .group
      else if m.fold c = question then
        match n with
        | [] => .noMatch
        | x :: rest =>
            if m.slashPathname x || leading && m.hidden string before n then .noMatch
            else gmatch m leading ends string fuel (some x) rest p
      else if m.fold c = backslash then
        match p with
        | [] => if n = [backslash] then .matched else .noMatch
        | d :: q =>
            match n with
            | [] => .noMatch
            | x :: rest =>
                if m.flags.noescape then
                  if m.fold x ≠ m.fold c then .noMatch
                  else gmatch m leading ends string fuel (some x) rest (d :: q)
                else if m.fold x ≠ m.fold d then .noMatch
                else gmatch m leading ends string fuel (some x) rest q
      else if m.fold c = star then
        if ends then .atStar (c :: p) before n
        else if leading && m.hidden string before n then .noMatch
        else if p = [] then .matched
        else
          match m.collapse p before n with
          | .noMatch => .noMatch
          | .group => .group
          | .atEnd => .matched
          | .general [] _ _ => .noMatch
          | .general (d :: q) before n =>
              if n = [] ∧ d = exclamation ∧ m.groupAt d q then .group
              else if m.slashPathname d then
                match n.dropWhile (· != slash) with
                | [] => .noMatch
                | x :: rest =>
                    match gmatch m leading false rest fuel (some x) rest q with
                    | .matched => .matched
                    | .group => .group
                    | _ => .noMatch
              else
                let inner (before : Option CHAR) (n : List CHAR) : MatchEnd :=
                  gmatch m false true n fuel before n (d :: q)
                match m.tryPositions (m.lookAhead d q) inner before n with
                | .atStar p before n => gmatch m leading ends string fuel before n p
                | result => result
      else if m.fold c = lbrack then
        match n with
        | [] => .noMatch
        | x :: rest =>
            if m.slashPathname x || leading && m.hidden string before n then .noMatch
            else
              match m.brackmatch p x with
              | none => .noMatch
              | some q => gmatch m leading ends string fuel (some x) rest q
      else
        match n with
        | [] => .noMatch
        | x :: rest =>
            if m.fold c ≠ m.fold x then .noMatch
            else gmatch m leading ends string fuel (some x) rest p

/-- `internal_strmatch` and `internal_wstrmatch`. -/
def strmatch (m : Matcher) (pattern string : List CHAR) : MatchEnd :=
  gmatch m true false string (pattern.length + 1) none string pattern

/-! ## Components -/

namespace Matcher

variable (m : Matcher)

/-- The character `c` in front of the first of some components. -/
def onto (c : List CHAR) : List (List CHAR) → List (List CHAR)
  | [] => [c]
  | p :: ps => (c ++ p) :: ps

/-- A pattern is cut at its unescaped slashes. -/
def components : List CHAR → List (List CHAR)
  | [] => [[]]
  | [c] => if c = slash then [[], []] else [[c]]
  | c :: d :: p =>
      if m.escapes c then onto [c, d] (components p)
      else if c = slash then [] :: components (d :: p)
      else onto [c] (components (d :: p))

end Matcher

/-- The components of a string with the slashes between them. -/
def joinSlash : List (List CHAR) → List CHAR
  | [] => []
  | [s] => s
  | s :: t :: ss => s ++ slash :: joinSlash (t :: ss)

/-- The pattern takes the string, and no wildcard takes a slash.  Where `loose` is set, a star at
the end with nothing but wildcards behind it takes whatever is long enough. -/
inductive Takes (m : Matcher) (loose : Bool) : List CHAR → List CHAR → Prop
  | nil : Takes m loose [] []
  | question {p s : List CHAR} {x : CHAR} (hx : x ≠ slash) (h : Takes m loose p s) :
      Takes m loose (question :: p) (x :: s)
  | starDone {p s : List CHAR} (h : Takes m loose p s) : Takes m loose (star :: p) s
  | starMore {p s : List CHAR} {x : CHAR} (hx : x ≠ slash) (h : Takes m loose (star :: p) s) :
      Takes m loose (star :: p) (x :: s)
  | escaped {p s : List CHAR} {c d x : CHAR} (hc : m.escapes c = true) (hd : m.fold d = m.fold x)
      (h : Takes m loose p s) : Takes m loose (c :: d :: p) (x :: s)
  | lastBackslash : Takes m loose [backslash] [backslash]
  | bracket {p q s : List CHAR} {x : CHAR} (hx : x ≠ slash) (hq : m.brackmatch p x = some q)
      (h : Takes m loose q s) : Takes m loose (lbrack :: p) (x :: s)
  | literal {p s : List CHAR} {c x : CHAR} (hquestion : c ≠ question) (hstar : c ≠ star)
      (hlbrack : c ≠ lbrack) (hescapes : m.escapes c = false) (hc : m.fold c = m.fold x)
      (h : Takes m loose p s) : Takes m loose (c :: p) (x :: s)
  | trailing {p s : List CHAR} (hloose : loose = true) (hp : ∀ d ∈ p, d = question ∨ d = star)
      (hlen : p.count question ≤ s.length) : Takes m loose (star :: p) s

/-- Pattern and string split at the same slashes, and each component of the pattern takes its
component of the string. -/
def Componentwise (m : Matcher) (pattern string : List CHAR) : Prop :=
  ∃ ss, string = joinSlash ss ∧ List.Forall₂ (Takes m false) (m.components pattern) ss

/-- A star at the end of the pattern, with nothing but wildcards behind it. -/
def EndsInStar (pattern : List CHAR) : Prop :=
  ∃ q w, pattern = q ++ star :: w ∧ ∀ d ∈ w, d = question ∨ d = star

/-- No letter has a special character as its other case. -/
def Locale.Lawful (loc : Locale) : Prop :=
  ∀ c, ∀ k ∈ [slash, backslash, question, star, lbrack], loc.toLower c = k ↔ c = k

end Pathname

end Rash
