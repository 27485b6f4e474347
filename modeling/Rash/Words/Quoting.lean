import Rash.Lib.FieldSplitting

/-!
# Internal quoting and word splitting

The markers `CTLESC` and `CTLNUL` that `subst.c` puts into strings, and `list_string`, which
splits a string and removes the quoted nulls.  A string is the list of its bytes, without the
NUL at its end.
-/

namespace Rash

namespace Quoting

abbrev Bytes := List UInt8

def ctlesc : UInt8 := 1
def ctlnul : UInt8 := 0x7f
def space : UInt8 := 0x20
def squote : UInt8 := 0x27

/-- What the C library says about the locale. -/
structure Locale where
  /-- `mbrlen` on the rest of a string; nothing for `(size_t)-1` and `(size_t)-2`. -/
  mbrlen : Bytes → Option ℕ
  /-- Is this multibyte character one of the characters of the list?  `wcschr` on the list
  behind `mbstowcs`. -/
  wcschr : Bytes → Bytes → Bool
  isSpace : UInt8 → Bool

namespace Locale

variable (loc : Locale)

/-- How far `ADVANCE_CHAR` and `COPY_CHAR_P` go.  Their tests for basic and ASCII characters
only save the call of `mbrlen`. -/
def charLen (s : Bytes) : ℕ :=
  match loc.mbrlen s with
  | none => 1
  | some n => max n 1

def cutFrom : ℕ → Bytes → List Bytes
  | 0, _ => []
  | _, [] => []
  | n + 1, s => s.take (loc.charLen s) :: cutFrom n (s.drop (loc.charLen s))

/-- The characters of a string. -/
def chars (s : Bytes) : List Bytes := loc.cutFrom s.length s

end Locale

variable (loc : Locale)

/-! ## Quoting -/

/-- `flags & PF_NOSPLIT2` is `nosplit`. -/
def quoteEscapesLoop (skipCtlesc skipCtlnul quoteSpaces : Bool) : ℕ → Bytes → Bytes
  | 0, _ => []
  | _, [] => []
  | n + 1, c :: s =>
      let k := loc.charLen (c :: s)
      let copied := (c :: s).take k
      let rest := quoteEscapesLoop skipCtlesc skipCtlnul quoteSpaces n ((c :: s).drop k)
      if (!skipCtlesc && c == ctlesc) || (!skipCtlnul && c == ctlnul) || (quoteSpaces && c == space)
      then ctlesc :: copied ++ rest
      else copied ++ rest

def quoteEscapesInternal (ifsValue string : Bytes) (nosplit : Bool) : Bytes :=
  let quoteSpaces := ifsValue.isEmpty
  let skipCtlesc := !nosplit && ifsValue.contains ctlesc
  let skipCtlnul := !nosplit && ifsValue.contains ctlnul
  quoteEscapesLoop loc skipCtlesc skipCtlnul quoteSpaces string.length string

def quoteEscapes (ifsValue string : Bytes) : Bytes :=
  quoteEscapesInternal loc ifsValue string false

def dequoteEscapesLoop (quoteSpaces : Bool) : ℕ → Bytes → Bytes
  | 0, _ => []
  | _, [] => []
  | n + 1, c :: s =>
      let protects := s.head? == some ctlesc || s.head? == some ctlnul ||
        (quoteSpaces && s.head? == some space)
      let t := if c == ctlesc && protects then s else c :: s
      t.take (loc.charLen t) ++ dequoteEscapesLoop quoteSpaces n (t.drop (loc.charLen t))

def dequoteEscapes (ifsValue string : Bytes) : Bytes :=
  if ctlesc ∈ string then dequoteEscapesLoop loc ifsValue.isEmpty string.length string else string

def quotedNull (string : Bytes) : Bool := string == [ctlnul]

def makeQuotedChar (c : Option UInt8) : Bytes :=
  match c with
  | none => [ctlnul]
  | some c => [ctlesc, c]

def quoteStringLoop : ℕ → Bytes → Bytes
  | 0, _ => []
  | _, [] => []
  | n + 1, s =>
      ctlesc :: s.take (loc.charLen s) ++ quoteStringLoop n (s.drop (loc.charLen s))

def quoteString (string : Bytes) : Bytes :=
  if string = [] then [ctlnul] else quoteStringLoop loc string.length string

def dequoteStringLoop : ℕ → Bytes → Bytes
  | 0, _ => []
  | _, [] => []
  | n + 1, c :: s =>
      let t := if c = ctlesc ∧ s ≠ [] then s else c :: s
      t.take (loc.charLen t) ++ dequoteStringLoop n (t.drop (loc.charLen t))

def dequoteString (string : Bytes) : Bytes :=
  if quotedNull string then []
  else if ctlesc ∈ string then dequoteStringLoop loc string.length string
  else string

def removeQuotedNullsLoop : ℕ → Bytes → Bytes
  | 0, _ => []
  | _, [] => []
  | n + 1, c :: s =>
      if c = ctlesc then
        if s = [] then [ctlesc]
        else ctlesc :: s.take (loc.charLen s) ++ removeQuotedNullsLoop n (s.drop (loc.charLen s))
      else if c = ctlnul then removeQuotedNullsLoop n s
      else
        let k := loc.charLen (c :: s)
        (c :: s).take k ++ removeQuotedNullsLoop n ((c :: s).drop k)

def removeQuotedNulls (string : Bytes) : Bytes :=
  if ctlnul ∈ string then removeQuotedNullsLoop loc string.length string else string

/-! ## Extracting a word -/

/-- `SX_NOCTLESC` and `SX_NOESCCTLNUL`. -/
structure ExtractFlags where
  noCtlesc : Bool
  noEscCtlnul : Bool

/-- Does the scan stop at the head of `s`?  An invalid character is looked up as a byte. -/
def stopsAt (charlist s : Bytes) : Bool :=
  match s with
  | [] => true
  | c :: _ =>
      match loc.mbrlen s with
      | none => charlist.contains c
      | some n => if 1 < n then loc.wcschr charlist (s.take n) else charlist.contains c

/-- The word at the head of a string, and the rest from the separator on. -/
def extractLoop (charlist : Bytes) (flags : ExtractFlags) : ℕ → Bytes → Bytes × Bytes
  | 0, s => ([], s)
  | _, [] => ([], [])
  | n + 1, c :: s =>
      if flags.noCtlesc = false ∧ c = ctlesc then
        let k := loc.charLen s
        let found := extractLoop charlist flags n (s.drop k)
        if s = [] then ([c], []) else (c :: s.take k ++ found.1, found.2)
      else if flags.noEscCtlnul = false ∧ c = ctlesc ∧ s.head? = some ctlnul then
        let found := extractLoop charlist flags n (s.drop 1)
        (c :: s.take 1 ++ found.1, found.2)
      else if stopsAt loc charlist (c :: s) then ([], c :: s)
      else
        let k := loc.charLen (c :: s)
        let found := extractLoop charlist flags n ((c :: s).drop k)
        ((c :: s).take k ++ found.1, found.2)

/-- `string_extract_single_quoted` without backslashes, back at the quote that ended it. -/
def extractSingleQuoted : ℕ → Bytes → Bytes × Bytes
  | 0, s => ([], s)
  | _, [] => ([], [])
  | n + 1, c :: s =>
      if c = squote then ([], c :: s)
      else
        let k := loc.charLen (c :: s)
        let found := extractSingleQuoted n ((c :: s).drop k)
        ((c :: s).take k ++ found.1, found.2)

def stringExtractVerbatim (string charlist : Bytes) (flags : ExtractFlags) : Bytes × Bytes :=
  if flags.noCtlesc ∧ charlist = [squote] then extractSingleQuoted loc string.length string
  else if charlist = [] then (string, [])
  else extractLoop loc charlist flags string.length string

/-! ## Splitting -/

/-- The word and the flags that `list_string` sets. -/
structure SplitWord where
  word : Bytes
  quoted : Bool
  hasQuotedNull : Bool
  sawQuotedNull : Bool
  deriving DecidableEq

/-- The quoted null that stands for an empty field. -/
def nullWord : SplitWord := ⟨makeQuotedChar none, true, true, false⟩

/-- `Q_DOUBLE_QUOTES` and `Q_HERE_DOCUMENT`. -/
def doubleQuoted (quoted : ℕ) : Bool := quoted.testBit 0 || quoted.testBit 1

section

variable (ifsValue separators : Bytes)

def isifs (c : UInt8) : Bool := ifsValue.contains c

/-- A single separator is compared itself, several are looked up in the map of `IFS`. -/
def issep (c : UInt8) : Bool :=
  match separators with
  | [] => false
  | [d] => c == d
  | _ => isifs ifsValue c

def shStyleSplit : Bool := separators == [0x20, 0x09, 0x0a]

def spctabnl (c : UInt8) : Bool := c == 0x20 || c == 0x09 || c == 0x0a

def ifsWhitesep (c : UInt8) : Bool :=
  if shStyleSplit separators then spctabnl c else loc.isSpace c

/-- The word that an extracted piece adds, when it adds one; `rest` begins with the
separator behind it. -/
def pieceWords (quoted : ℕ) (piece rest : Bytes) : List SplitWord :=
  if quotedNull piece then [nullWord]
  else if piece ≠ [] then
    let word := removeQuotedNulls loc piece
    [⟨word, doubleQuoted quoted, false, word.isEmpty⟩]
  else if !shStyleSplit separators && !rest.head?.any loc.isSpace then [nullWord]
  else []

/-- Past the separator at the head of `rest`, and past what belongs to the same delimiter. -/
def skipDelimiter (rest : Bytes) : Bytes :=
  let whitesep := rest.head?.any (ifsWhitesep loc separators)
  let behind := rest.drop (loc.charLen rest)
  let next := behind.dropWhile fun c => ifsWhitesep loc separators c && issep ifsValue separators c
  match next with
  | [] => []
  | c :: after =>
      if whitesep && issep ifsValue separators c && !ifsWhitesep loc separators c then
        after.dropWhile fun c => ifsWhitesep loc separators c && isifs ifsValue c
      else c :: after

def listStringLoop (quoted : ℕ) (flags : ExtractFlags) : ℕ → Bytes → List SplitWord
  | 0, _ => []
  | _, [] => []
  | n + 1, s =>
      let (piece, rest) := stringExtractVerbatim loc s separators flags
      pieceWords loc separators quoted piece rest ++
        listStringLoop quoted flags n (skipDelimiter loc ifsValue separators rest)

def listString (quoted : ℕ) (string : Bytes) : List SplitWord :=
  let flags : ExtractFlags := ⟨ifsValue.contains ctlesc, ifsValue.contains ctlnul⟩
  let start :=
    if quoted = 0 ∧ separators ≠ [] then
      string.dropWhile fun c => issep ifsValue separators c && loc.isSpace c
    else string
  listStringLoop loc ifsValue separators quoted flags start.length start

end

end Quoting

end Rash
