import Rash.Glob.Bracket

/-!
# The matcher

`GMATCH` of sm_loop.c over bytes, without `FNM_EXTMATCH`, `FNM_PATHNAME` and `FNM_PERIOD`.  The
string and the pattern end where `se` and `pe` point, and a position in the string is what is
left of it.  No signal interrupts the match.
-/

namespace Rash

namespace Glob

/-- How a call of `GMATCH` ends.  It stops at a star where `ends` is not `NULL`. -/
inductive MatchEnd
  | noMatch
  | matched
  | atStar (pattern string : List UInt8)
  deriving DecidableEq

/-- `SDOT_OR_DOTDOT` -/
def dotOrDotdot (s : List UInt8) : Bool := s == [dot] || s == [dot, dot]

/-- The test of `FNM_DOTDOT` at `n` in the string. -/
def hidden (dotdot : Bool) (string n : List UInt8) : Bool :=
  dotdot && n.length == string.length && dotOrDotdot n

/-- Where the loop that collapses `*` and `?` comes out: at the end of the pattern, or at the
first other character, with the rest of the string. -/
inductive Collapsed
  | tooShort
  | atEnd
  | general (pattern string : List UInt8)
  deriving DecidableEq

/-- The loop over the characters of the pattern behind a star. -/
def collapse : List UInt8 → List UInt8 → Collapsed
  | [], _ => .atEnd
  | c :: p, n =>
      if c = question then
        match n with
        | [] => .tooShort
        | _ :: n => collapse p n
      else if c = star then collapse p n
      else .general (c :: p) n

/-- The loop of the general case: `GMATCH` is called at the first positions of the string that
the look-ahead lets through, until it returns 0. -/
def tryPositions (skip : UInt8 → Bool) (gmatch : List UInt8 → MatchEnd) : List UInt8 → MatchEnd
  | [] => .noMatch
  | x :: n =>
      if skip x then tryPositions skip gmatch n
      else
        match gmatch (x :: n) with
        | .noMatch => tryPositions skip gmatch n
        | result => result

/-- The loop of `GMATCH` at `n` in the string and `p` in the pattern; `ends` says that it is
not `NULL`, and `dotdot` is `FNM_DOTDOT`, which the calls behind a star are made without. -/
def gmatch (flags : MatchFlags) (dotdot ends : Bool) (string : List UInt8) :
    ℕ → List UInt8 → List UInt8 → MatchEnd
  | 0, _, _ => .noMatch
  | _ + 1, n, [] =>
      if n = [] then .matched
      else if flags.leadingDir = true ∧ n.head? = some slash then .matched
      else .noMatch
  | fuel + 1, n, c :: p =>
      let c := fold flags c
      if c = question then
        match n with
        | [] => .noMatch
        | _ :: rest => if hidden dotdot string n then .noMatch else gmatch flags dotdot ends string fuel rest p
      else if c = backslash then
        match p with
        | [] => if n = [backslash] then gmatch flags dotdot ends string fuel n.tail p else .noMatch
        | d :: q =>
            let escaped := flags.noescape = false
            match n with
            | [] => .noMatch
            | sc :: rest =>
                if fold flags sc ≠ (if escaped then fold flags d else c) then .noMatch
                else gmatch flags dotdot ends string fuel rest (if escaped then q else p)
      else if c = star then
        if ends then .atStar (star :: p) n
        else if hidden dotdot string n then .noMatch
        else
          match collapse p n with
          | .tooShort => .noMatch
          | .atEnd => .matched
          | .general [] _ => .noMatch
          | .general (c :: p) n =>
              let c1 := fold flags (if flags.noescape = false ∧ c = backslash then p.headD 0 else c)
              let skip (x : UInt8) : Bool := c != lbrack && fold flags x != c1
              let inner (n : List UInt8) : MatchEnd :=
                gmatch flags false true n fuel n (c :: p)
              match tryPositions skip inner n with
              | .noMatch => .noMatch
              | .matched => .matched
              | .atStar p n => gmatch flags dotdot ends string fuel n p
      else if c = lbrack then
        match n with
        | [] => .noMatch
        | sc :: rest =>
            if hidden dotdot string n then .noMatch
            else
              match brackmatch flags p sc with
              | none => .noMatch
              | some p => gmatch flags dotdot ends string fuel rest p
      else
        match n with
        | [] => .noMatch
        | sc :: rest =>
            if c ≠ fold flags sc then .noMatch else gmatch flags dotdot ends string fuel rest p

/-- `internal_strmatch`: whether it returns 0. -/
def internalStrmatch (flags : MatchFlags) (dotdot : Bool) (pattern string : List UInt8) : Bool :=
  gmatch flags dotdot false string (pattern.length + 1) string pattern == .matched

end Glob

end Rash
