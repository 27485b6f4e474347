import Mathlib
import Rash.Lib.Scanning
import Rash.Words.Quoting

/-!
# Backslash escapes

`ansicstr` expands the escapes of ANSI C in a string, and `ansic_quote` writes a string so that
`$'…'` gives it back.  A string is the list of its bytes without the NUL at its end; `*s` there is
`NUL`, which no escape takes for one of its own characters.
-/

namespace Rash

open Scanning

namespace Strtrans

export Quoting (Bytes ctlesc ctlnul squote)

def backslash : UInt8 := 0x5c

def mbLenMax : ℕ := 16

/-- What `mbrtowc` says: it has met the NUL, it has met no character, or one of `trail + 1` bytes. -/
inductive MbRead
  | null
  | invalid
  | char (trail wc : ℕ)

/-- What the C library says about the locale.  The answer of `mbrtowc` depends on what it has been
asked about before as well. -/
structure Locale where
  utf8 : Bool
  mbCurMax : ℕ
  isPrint : UInt8 → Bool
  toUpper : UInt8 → UInt8
  mbrtowc : Bytes → Bytes → MbRead
  iswprint : ℕ → Bool
  wctomb : ℕ → Option Bytes
  /-- The conversion from UTF-8, if there is one for the charset. -/
  iconv : Option (Bytes → Option Bytes)

/-- The bits of `FLAGS`: for `echo -e`, for the parser, and to remove the backslash before an
escape that is none. -/
structure AnsiFlags where
  echo : Bool
  parser : Bool
  strip : Bool

/-- What one turn writes at `r`; it may write beyond what it keeps. -/
structure Piece where
  text : Bytes
  touched : ℕ
  sawc : Bool

/-! ## Tables -/

def isBasicTable : List ℕ := [0x00003f81, 0xffffffff, 0xffffffff, 0x7fffffff]

def isBasic (c : UInt8) : Bool := (isBasicTable.getD (c.toNat / 32) 0).testBit (c.toNat % 32)

def octValue (c : UInt8) : Option ℕ :=
  if 0x30 ≤ c ∧ c ≤ 0x37 then some (c.toNat - 0x30) else none

def hexValue (c : UInt8) : Option ℕ :=
  if 0x61 ≤ c ∧ c ≤ 0x66 then some (c.toNat - 0x61 + 10)
  else if 0x41 ≤ c ∧ c ≤ 0x46 then some (c.toNat - 0x41 + 10)
  else if 0x30 ≤ c ∧ c ≤ 0x39 then some (c.toNat - 0x30)
  else none

/-- At most `n` digits behind the value `v`. -/
def numeral (digit : UInt8 → Option ℕ) (base : ℕ) : ℕ → ℕ → Bytes → ℕ × Bytes
  | 0, v, s => (v, s)
  | _ + 1, v, [] => (v, [])
  | n + 1, v, c :: s =>
      match digit c with
      | some d => numeral digit base n (v * base + d) s
      | none => (v, c :: s)

def toCtrl (loc : Locale) (c : UInt8) : UInt8 :=
  if c = 0x3f then 0x7f else loc.toUpper c &&& 0x1f

/-! ## One character of Unicode -/

/-- `sprintf` with `%0nX` -/
def hexText : ℕ → ℕ → Bytes
  | 0, _ => []
  | n + 1, v =>
      hexText n (v / 16) ++
        [if v % 16 < 10 then UInt8.ofNat (0x30 + v % 16) else UInt8.ofNat (0x41 + v % 16 - 10)]

def u32tocesc (wc : ℕ) : Bytes :=
  if wc < 0x10000 then backslash :: 0x75 :: hexText 4 wc else backslash :: 0x55 :: hexText 8 wc

def u32toutf8 (wc : ℕ) : Bytes :=
  let trail (k : ℕ) : UInt8 := UInt8.ofNat (wc / 2 ^ (6 * k) % 0x40 + 0x80)
  if wc < 0x80 then [UInt8.ofNat wc]
  else if wc < 0x800 then [UInt8.ofNat (wc / 2 ^ 6 + 0xc0), trail 0]
  else if wc < 0x10000 then [UInt8.ofNat (wc / 2 ^ 12 + 0xe0), trail 1, trail 0]
  else if wc < 0x200000 then [UInt8.ofNat (wc / 2 ^ 18 + 0xf0), trail 2, trail 1, trail 0]
  else if wc < 0x4000000 then
    [UInt8.ofNat (wc / 2 ^ 24 + 0xf8), trail 3, trail 2, trail 1, trail 0]
  else if wc < 0x80000000 then
    [UInt8.ofNat (wc / 2 ^ 30 + 0xfc), trail 4, trail 3, trail 2, trail 1, trail 0]
  else []

/-- `wctomb` is asked first; else the UTF-8 of the character is written, with a NUL behind it, and
in another charset it is replaced there. -/
def u32cconv (loc : Locale) (c : ℕ) : Piece :=
  match if c ≤ 0x7fffffff then loc.wctomb c else none with
  | some bytes => ⟨bytes, bytes.length, false⟩
  | none =>
      let utf := u32toutf8 c
      if loc.utf8 then ⟨utf, utf.length + 1, false⟩
      else
        match loc.iconv with
        | none => ⟨utf, utf.length + 1, false⟩
        | some conv =>
            let out := (conv utf).getD (u32tocesc c)
            ⟨out, max (utf.length + 1) (out.length + 1), false⟩

/-! ## `ansicstr` -/

section

variable (loc : Locale) (flags : AnsiFlags) (sawc : Bool)

/-- The character at the end of an escape, with the marker for the parser. -/
def mark (c : UInt8) : Bytes :=
  if flags.parser ∧ (c = ctlesc ∨ c = ctlnul) then [ctlesc, c] else [c]

def emit (front : Bytes) (c : UInt8) : Piece :=
  let text := front ++ mark flags c
  ⟨text, text.length, false⟩

def unknown (c : UInt8) : Piece := emit flags (if flags.strip then [] else [backslash]) c

def octal (c : UInt8) (s : Bytes) : Piece × Bytes :=
  let n := 2 + if flags.echo ∧ c = 0x30 then 1 else 0
  let (v, s) := numeral octValue 8 n (c.toNat - 0x30) s
  (emit flags [] (UInt8.ofNat v), s)

def hex (s : Bytes) : Piece × Bytes :=
  let braced : Bool := flags.parser ∧ s.head? = some 0x7b
  let s := if braced then s.drop 1 else s
  let (v, t) := numeral hexValue 16 2 0 s
  if braced then
    let (v, t) := numeral hexValue 16 t.length v t
    (emit flags [] (UInt8.ofNat v), if t.head? = some 0x7d then t.drop 1 else t)
  else if t.length = s.length then (emit flags [backslash] 0x78, t)
  else (emit flags [] (UInt8.ofNat v), t)

def unicode (c : UInt8) (n : ℕ) (s : Bytes) : Piece × Bytes :=
  let (v, t) := numeral hexValue 16 n 0 s
  if t.length = s.length then (emit flags [backslash] c, t)
  else if v ≤ 0x7f then (emit flags [] (UInt8.ofNat v), t)
  else (u32cconv loc v, t)

def control (s : Bytes) : Piece × Bytes :=
  match s with
  | [] => (unknown flags 0x63, [])
  | c :: t =>
      if flags.parser ∧ c = backslash ∧ t.head? = some c then
        (emit flags [] (toCtrl loc c), t.drop 1)
      else
        match t with
        | d :: t' =>
            if flags.parser ∧ c = ctlesc ∧ (d = ctlesc ∨ d = ctlnul) then
              (emit flags [] (toCtrl loc d), t')
            else (emit flags [] (toCtrl loc c), t)
        | [] => (emit flags [] (toCtrl loc c), t)

/-- The escape whose character is `c`, with the rest of the string behind it. -/
def escape (c : UInt8) (s : Bytes) : Piece × Bytes :=
  match Char.ofNat c.toNat with
  | 'a' => (emit flags [] 0x07, s)
  | 'v' => (emit flags [] 0x0b, s)
  | 'b' => (emit flags [] 0x08, s)
  | 'e' | 'E' => (emit flags [] 0x1b, s)
  | 'f' => (emit flags [] 0x0c, s)
  | 'n' => (emit flags [] 0x0a, s)
  | 'r' => (emit flags [] 0x0d, s)
  | 't' => (emit flags [] 0x09, s)
  | '1' | '2' | '3' | '4' | '5' | '6' | '7' =>
      if flags.echo then (emit flags [backslash] c, s) else octal flags c s
  | '0' => octal flags c s
  | 'x' => hex flags s
  | 'u' => unicode loc flags c 4 s
  | 'U' => unicode loc flags c 8 s
  | '\\' => (emit flags [] c, s)
  | '\'' | '"' | '?' => (emit flags (if flags.echo then [backslash] else []) c, s)
  | 'c' =>
      if sawc then (⟨[], 1, true⟩, [])
      else if flags.echo then (unknown flags c, s)
      else control loc flags s
  | _ => (unknown flags c, s)

/-- The bytes that are copied at once where there is no escape; nothing at a NUL character. -/
def plainLength (before s : Bytes) (c : UInt8) : Option ℕ :=
  if loc.utf8 = false ∧ 1 < loc.mbCurMax ∧ isBasic c = false then
    match loc.mbrtowc before s with
    | .null => none
    | .invalid => some 0
    | .char trail _ => some trail
  else some 0

def ansiTurn : Scanner UInt8 Piece
  | _, [] => none
  | before, c :: s =>
      match s with
      | d :: t =>
          if c = backslash then
            let (piece, rest) := escape loc flags sawc d t
            some (piece, 1 + (t.length - rest.length))
          else plain before c s
      | [] => plain before c s
where
  plain (before : Bytes) (c : UInt8) (s : Bytes) : Option (Piece × ℕ) :=
    (plainLength loc before (c :: s) c).map fun k =>
      (⟨c :: s.take k, k + 1, false⟩, k)

/-- How far the buffer is written, with the NUL at the end. -/
def extent : List Piece → ℕ
  | [] => 1
  | p :: ps => max p.touched (p.text.length + extent ps)

structure Decoded where
  text : Bytes
  sawc : Bool
  written : ℕ
  allocated : ℕ

/-- A number in an `int` -/
def toInt (n : ℕ) : ℤ :=
  let w : ℕ := n % 2 ^ 32
  if w < 2 ^ 31 then (w : ℤ) else (w : ℤ) - 2 ^ 32

/-- The size of the buffer goes through an `int`. -/
def allocation (len : ℕ) : ℕ :=
  let temp := toInt ((4 * len + 4) % 2 ^ 64)
  if temp < 12 then 12 else temp.toNat

def ansicstr (string : Bytes) (len : ℕ) : Option Decoded :=
  if string = [] then none
  else
    let pieces := scan (ansiTurn loc flags sawc) [] string
    some ⟨pieces.flatMap Piece.text, pieces.any Piece.sawc, extent pieces, allocation len⟩

end

/-! ## `ansic_quote` -/

section

variable (loc : Locale)

def octalText (c : UInt8) : Bytes :=
  [backslash, (c >>> 6 &&& 7) + 0x30, (c >>> 3 &&& 7) + 0x30, (c &&& 7) + 0x30]

def quoteOther (before : Bytes) (c : UInt8) (s : Bytes) : Option (Bytes × ℕ) :=
  if loc.utf8 ∧ 0x80 ≤ c ∨ loc.utf8 = false ∧ 1 < loc.mbCurMax ∧ isBasic c = false then
    match loc.mbrtowc before (c :: s) with
    | .null => none
    | .invalid => some (octalText c, 0)
    | .char trail wc =>
        if loc.iswprint wc then some (c :: s.take trail, trail) else some (octalText c, 0)
  else if loc.isPrint c then some ([c], 0)
  else some (octalText c, 0)

def quoteTurn : Scanner UInt8 Bytes
  | _, [] => none
  | before, c :: s =>
      match Char.ofNat c.toNat with
      | '\x1b' => some ([backslash, 0x45], 0)
      | '\x07' => some ([backslash, 0x61], 0)
      | '\x0b' => some ([backslash, 0x76], 0)
      | '\x08' => some ([backslash, 0x62], 0)
      | '\x0c' => some ([backslash, 0x66], 0)
      | '\n' => some ([backslash, 0x6e], 0)
      | '\r' => some ([backslash, 0x72], 0)
      | '\t' => some ([backslash, 0x74], 0)
      | '\\' | '\'' => some ([backslash, c], 0)
      | _ => quoteOther loc before c s

def quoted (str : Bytes) : Bytes := (scan (quoteTurn loc) [] str).flatten

def ansicQuote (str : Bytes) : Option Bytes :=
  if str = [] then none else some ([0x24, squote] ++ quoted loc str ++ [squote])

end

end Strtrans

end Rash
