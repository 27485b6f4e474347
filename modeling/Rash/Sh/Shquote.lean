import Rash.Sh.Strtrans

/-!
# Quoting for the shell to read again

The quoters of `shquote.c`.  `COPY_CHAR_P` copies a multibyte character at once.
-/

namespace Rash

open Scanning

namespace Shquote

export Strtrans (Bytes backslash squote Locale ansicQuote isBasic)

def dquote : UInt8 := 0x22
def dollar : UInt8 := 0x24
def backquote : UInt8 := 0x60
def newline : UInt8 := 0x0a
def tilde : UInt8 := 0x7e
def hash : UInt8 := 0x23
def colon : UInt8 := 0x3a
def equals : UInt8 := 0x3d

/-- `sh_syntaxtab[c] & CBSDQUOTE` -/
def cbsdquote (c : UInt8) : Bool :=
  c == backslash || c == backquote || c == dollar || c == dquote || c == newline

/-- The characters of `bstab`: white space, what ends a word, what quotes or expands, and what is
part of a pattern or of a brace expansion. -/
def bstab (c : UInt8) : Bool :=
  [0x09, 0x0a, 0x20, 0x21, 0x22, 0x24, 0x26, 0x27, 0x28, 0x29, 0x2a, 0x2c, 0x3b, 0x3c, 0x3e, 0x3f,
    0x5b, 0x5c, 0x5d, 0x5e, 0x60, 0x7b, 0x7c, 0x7d].contains c

def shSingleQuote (string : Bytes) : Bytes :=
  if string = [squote] then [backslash, squote]
  else
    squote :: (string.flatMap fun c =>
      if c = squote then [squote, backslash, squote, squote] else [c]) ++ [squote]

section

variable (loc : Locale)

def multibyte (c : UInt8) : Bool :=
  (loc.utf8 && decide (0x80 ≤ c)) || (!loc.utf8 && decide (1 < loc.mbCurMax) && !isBasic c)

/-- How many bytes more than the first one `COPY_CHAR_P` copies. -/
def copied (before s : Bytes) : ℕ :=
  match loc.mbrtowc before s with
  | .char trail _ => trail
  | _ => 0

def doubleTurn : Scanner UInt8 Bytes
  | _, [] => none
  | before, c :: s =>
      let front := if cbsdquote c && c != newline then [backslash] else []
      if multibyte loc c then
        let k := copied loc before (c :: s)
        some (front ++ c :: s.take k, k)
      else some (front ++ [c], 0)

/-- What stands between the double quotes -/
def doubleInside (string : Bytes) : Bytes := (scan (doubleTurn loc) [] string).flatten

def shDoubleQuote (string : Bytes) : Bytes := dquote :: doubleInside loc string ++ [dquote]

def unDouble : Bool → Bytes → Bytes
  | _, [] => []
  | true, c :: s => c :: unDouble false s
  | false, c :: s =>
      if c = backslash ∧ cbsdquote (s.headD 0) then unDouble true s else c :: unDouble false s

def shUnDoubleQuote (string : Bytes) : Bytes := unDouble false string

/-- The bits of `FLAGS`: tildes are quoted as well, and the other blanks of the locale. -/
structure BackslashFlags where
  tildes : Bool
  blanks : Bool

variable (shellblank : UInt8 → Bool) (table : UInt8 → Bool) (flags : BackslashFlags)

def needsBackslash (before : Bytes) (c : UInt8) : Bool :=
  if table c then true
  else if c == hash && before.isEmpty then true
  else if flags.tildes && c == tilde &&
      (before.isEmpty || before.getLast? == some colon || before.getLast? == some equals) then true
  else flags.blanks && shellblank c

def backslashTurn : Scanner UInt8 Bytes
  | _, [] => none
  | before, c :: s =>
      if c < 0x80 ∧ table c then some ([backslash, c], 0)
      else if multibyte loc c then
        let k := copied loc before (c :: s)
        some (c :: s.take k, k)
      else if needsBackslash shellblank table flags before c then some ([backslash, c], 0)
      else some ([c], 0)

def shBackslashQuote (string : Bytes) : Bytes :=
  (scan (backslashTurn loc shellblank table flags) [] string).flatten

/-- `ansic_wshouldquote`; each piece tells whether there is a reason to quote. -/
def wideTurn : Scanner UInt8 Bool
  | before, s =>
      match loc.mbrtowc before s with
      | .null => none
      | .invalid => some (true, s.length)
      | .char trail wc => some (!loc.iswprint wc, trail)

def ansicShouldquote : Bytes → Bool
  | [] => false
  | c :: s =>
      if multibyte loc c then (scan (wideTurn loc) [] (c :: s)).any id
      else !loc.isPrint c || ansicShouldquote s

def shQuoteReusable (s : Bytes) (flags : Bool) : Bytes :=
  if s = [] then [squote, squote]
  else if ansicShouldquote loc s then (ansicQuote loc s).getD []
  else if flags then shBackslashQuote loc shellblank bstab ⟨true, false⟩ s
  else shSingleQuote s

end

end Shquote

end Rash
