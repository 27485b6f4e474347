import Mathlib
import Rash.Words.Quoting

/-!
# Pattern substitution

`pat_subst` with its growing buffer, and `strcreplace`, which puts the matched text into the
replacement.  What `match_pattern` finds is a parameter.
-/

namespace Rash

namespace PatSubst

open Quoting

inductive Fault
  /-- a store behind the buffer, or a character read behind the string -/
  | overrun
  /-- a value that is no `int` is to be an `int`: what follows uses a wrong index or size -/
  | intOverflow
  | outOfFuel
  deriving DecidableEq

abbrev Run := Except Fault

def intMax : ℕ := 2 ^ 31 - 1

def ampersand : UInt8 := 0x26
def backslash : UInt8 := 0x5c

/-! ## Buffers -/

/-- A buffer that is written from its beginning: what is in it, and its size. -/
structure Buffer where
  text : Quoting.Bytes
  size : ℕ
  deriving DecidableEq

/-- `while (cind + room >= csize) csize += sincr`. -/
def grow (need : ℕ) (incr : ℕ → ℕ) (size : ℕ) : ℕ :=
  if size ≤ need ∧ 0 < incr size then grow need incr (size + incr size) else size
termination_by need + 1 - size
decreasing_by omega

namespace Buffer

/-- `RESIZE_MALLOCED_BUFFER`. -/
def resize (b : Buffer) (room : ℕ) (incr : ℕ → ℕ) : Buffer :=
  { b with size := grow (b.text.length + room) incr b.size }

/-- Some bytes are stored, with room for so many more. -/
def store (b : Buffer) (s : Quoting.Bytes) (more : ℕ) : Run Buffer :=
  if b.text.length + s.length + more ≤ b.size then .ok { b with text := b.text ++ s }
  else .error .overrun

/-- The string in the buffer, with the NUL at its end. -/
def finish (b : Buffer) : Run Quoting.Bytes :=
  if b.text.length < b.size then .ok b.text else .error .overrun

end Buffer

/-! ## The replacement -/

/-- The loop of `strcreplace`, without the quoting for globs. -/
def strcreplaceLoop (c : UInt8) (text : Quoting.Bytes) (escapeBackslash : Bool) :
    Quoting.Bytes → Buffer → Run Buffer
  | [], r => .ok r
  | [x], r =>
      if x = c then
        if text = [] then .ok r else (r.resize text.length id).store text 1
      else (r.resize 2 id).store [x] 0
  | x :: y :: p, r =>
      if x = c then
        if text = [] then strcreplaceLoop c text escapeBackslash (y :: p) r
        else do
          let r ← (r.resize text.length id).store text 1
          strcreplaceLoop c text escapeBackslash (y :: p) r
      else if x = backslash ∧ (y = c ∨ escapeBackslash ∧ y = backslash) then do
        let r ← (r.resize 2 id).store [y] 0
        strcreplaceLoop c text escapeBackslash p r
      else do
        let r ← (r.resize 2 id).store [x] 0
        strcreplaceLoop c text escapeBackslash (y :: p) r

/-- `strcreplace`; `escapeBackslash` is `flags & 2`. -/
def strcreplace (string : Quoting.Bytes) (c : UInt8) (text : Quoting.Bytes) (escapeBackslash : Bool) : Run Quoting.Bytes := do
  let ret ← strcreplaceLoop c text escapeBackslash string ⟨[], text.length + string.length + 2⟩
  ret.finish

/-! ## The substitution -/

inductive MatchType
  | any
  | beg
  | fin
  deriving DecidableEq

structure MatchFlags where
  mtype : MatchType
  globrep : Bool
  exprep : Bool
  deriving DecidableEq

/-- What `pat_subst` is called with, and the locale. -/
structure Call where
  flags : MatchFlags
  /-- a null pattern, which `match_pattern` never finds -/
  nullPattern : Bool
  rep : Option Quoting.Bytes
  /-- `match_pattern` on a pattern that is not null: where the match begins and ends -/
  matchPattern : Quoting.Bytes → Option (ℕ × ℕ)
  /-- how many bytes `COPY_CHAR_P` copies -/
  charLen : Quoting.Bytes → ℕ
  mbCurMax : ℕ

namespace Call

variable (c : Call)

/-- `match_pattern`. -/
def find (text : Quoting.Bytes) : Option (ℕ × ℕ) := if c.nullPattern then none else c.matchPattern text

/-- `strcreplace (rep, '&', "", 2)` or the replacement itself, for an empty match. -/
def emptyReplacement : Run Quoting.Bytes :=
  match c.rep with
  | some rep => if c.flags.exprep then strcreplace rep ampersand [] true else .ok rep
  | none => if c.flags.exprep then .error .overrun else .ok []

/-- The replacement for a match, whose length is an `int`. -/
def replacement (text : Quoting.Bytes) : Run Quoting.Bytes :=
  match c.rep with
  | some rep =>
      if c.flags.exprep then
        if intMax < text.length + 1 then .error .intOverflow
        else strcreplace rep ampersand text true
      else .ok rep
  | none => .ok []

/-- `strncpy (ret + rptr, s, n)`, and `rptr`, an `int`, goes on. -/
def append (ret : Buffer) (s : Quoting.Bytes) : Run Buffer := do
  let ret ← ret.store s 0
  if intMax < ret.text.length then .error .intOverflow else .ok ret

def incr (_ : ℕ) : ℕ := 64

/-- The unmatched text and the replacement of the match. -/
def putMatch (ret : Buffer) (str : Quoting.Bytes) (s e : ℕ) : Run Buffer := do
  let rstr ← c.replacement ((str.take e).drop s)
  let ret ← append (ret.resize (s + rstr.length) incr) (str.take s)
  append ret rstr

/-- One character behind an empty match, which must not be found again. -/
def putChar (ret : Buffer) (str : Quoting.Bytes) : Run Buffer :=
  if str = [] then .error .overrun
  else append (ret.resize c.mbCurMax incr) (str.take (c.charLen str))

/-- The loop of `pat_subst`, with what is left of the string. -/
def loop : ℕ → Buffer → Quoting.Bytes → Run (Buffer × Quoting.Bytes)
  | 0, _, _ => .error .outOfFuel
  | n + 1, ret, str =>
      if str = [] then .ok (ret, str)
      else
        match c.find str with
        | none => .ok (ret, str)
        | some (s, e) => do
            let ret ← c.putMatch ret str s e
            let str := str.drop e
            if c.flags.globrep = false ∨ c.flags.mtype ≠ .any then .ok (ret, str)
            else if s = e then
              let ret ← c.putChar ret str
              loop n ret (str.drop (c.charLen str))
            else loop n ret str

/-- The rest of the string is copied behind what there is. -/
def copyRest (ret : Buffer) (str : Quoting.Bytes) : Run Quoting.Bytes :=
  if str = [] then ret.finish
  else do
    let ret ← (ret.resize (str.length + 1) incr).store str 1
    ret.finish

/-- `strcpy` of one string and of another one behind it. -/
def copyTwo (first second : Quoting.Bytes) (size : ℕ) : Run Quoting.Bytes := do
  let ret ← (⟨[], size⟩ : Buffer).store first 1
  let ret ← ret.store second 1
  ret.finish

/-- `pat_subst`. -/
def patSubst (string : Quoting.Bytes) : Run Quoting.Bytes :=
  if c.nullPattern ∧ c.flags.mtype ≠ .any then do
    let rstr ← c.emptyReplacement
    if c.flags.mtype = .beg then copyTwo rstr string (rstr.length + string.length + 2)
    else copyTwo string rstr (rstr.length + string.length + 2)
  else if string = [] ∧ (c.find string).isSome then c.emptyReplacement
  else do
    let (ret, str) ← c.loop (string.length + 1) ⟨[], 64⟩ string
    copyRest ret str

end Call

/-! ## The reference -/

/-- The replacement with the matched text for every `&` that no backslash escapes. -/
def expandReplacement (matched : Quoting.Bytes) : Quoting.Bytes → Quoting.Bytes
  | [] => []
  | [x] => if x = ampersand then matched else [x]
  | x :: y :: rep =>
      if x = ampersand then matched ++ expandReplacement matched (y :: rep)
      else if x = backslash ∧ (y = ampersand ∨ y = backslash) then y :: expandReplacement matched rep
      else x :: expandReplacement matched (y :: rep)

/-- A match in the string, with what is before it, and the character that is copied behind an
empty one. -/
structure Piece where
  before : Quoting.Bytes
  matched : Quoting.Bytes
  copied : Quoting.Bytes
  deriving DecidableEq

/-- The matches that are found one after the other, and what follows the last one. -/
inductive Tiling (find : Quoting.Bytes → Option (ℕ × ℕ)) (charLen : Quoting.Bytes → ℕ) (global : Bool) :
    Quoting.Bytes → List Piece → Quoting.Bytes → Prop
  | rest {text : Quoting.Bytes} (h : find text = none) : Tiling find charLen global text [] text
  | last {text : Quoting.Bytes} {s e : ℕ} (h : find text = some (s, e)) (hglobal : global = false) :
      Tiling find charLen global text [⟨text.take s, (text.take e).drop s, []⟩] (text.drop e)
  | next {text tail : Quoting.Bytes} {s e : ℕ} {pieces : List Piece} (h : find text = some (s, e))
      (hglobal : global = true) (hlt : s < e)
      (hrest : Tiling find charLen global (text.drop e) pieces tail) :
      Tiling find charLen global text (⟨text.take s, (text.take e).drop s, []⟩ :: pieces) tail
  | empty {text tail : Quoting.Bytes} {s : ℕ} {pieces : List Piece} (h : find text = some (s, s))
      (hglobal : global = true)
      (hrest : Tiling find charLen global
        ((text.drop s).drop (charLen (text.drop s))) pieces tail) :
      Tiling find charLen global text
        (⟨text.take s, [], (text.drop s).take (charLen (text.drop s))⟩ :: pieces) tail

namespace Call

variable (c : Call)

/-- Where the pattern matches; a null pattern matches the end to which it is anchored. -/
def reference (text : Quoting.Bytes) : Option (ℕ × ℕ) :=
  if c.nullPattern then
    match c.flags.mtype with
    | .any => none
    | .beg => some (0, 0)
    | .fin => some (text.length, text.length)
  else c.matchPattern text

/-- The search goes on as long as some text remains. -/
def referenceRest (text : Quoting.Bytes) : Option (ℕ × ℕ) := if text = [] then none else c.reference text

def global : Bool := c.flags.globrep && c.flags.mtype == .any

/-- The decomposition of the string; in an empty one there is at most one match. -/
def Decomposes (string : Quoting.Bytes) (pieces : List Piece) (tail : Quoting.Bytes) : Prop :=
  if string = [] then
    pieces = (c.reference []).toList.map (fun _ => ⟨[], [], []⟩) ∧ tail = []
  else Tiling c.referenceRest c.charLen c.global string pieces tail

/-- The text that stands for a match. -/
def expansion (matched : Quoting.Bytes) : Quoting.Bytes :=
  if c.flags.exprep then expandReplacement matched (c.rep.getD []) else c.rep.getD []

def assemblePieces (pieces : List Piece) : Quoting.Bytes :=
  pieces.flatMap fun p => p.before ++ c.expansion p.matched ++ p.copied

/-- The matches replaced, and the rest as it is. -/
def assemble (pieces : List Piece) (tail : Quoting.Bytes) : Quoting.Bytes := c.assemblePieces pieces ++ tail

/-- What `pat_subst` can hold: it counts what it has written up to the last match, and the
length of a matched text, in `int`. -/
def Fits (string : Quoting.Bytes) (pieces : List Piece) : Prop :=
  string ≠ [] → c.nullPattern = false →
    (c.flags.exprep = true → ∀ p ∈ pieces, p.matched.length + 1 ≤ intMax) ∧
      (c.assemblePieces pieces).length ≤ intMax

/-! ## What `match_pattern` reports -/

/-- The places between two characters. -/
inductive Boundary (charLen : Quoting.Bytes → ℕ) : Quoting.Bytes → ℕ → Prop
  | start (text : Quoting.Bytes) : Boundary charLen text 0
  | step {text : Quoting.Bytes} {k : ℕ} (hne : text ≠ [])
      (h : Boundary charLen (text.drop (charLen text)) k) : Boundary charLen text (charLen text + k)

/-- A match in the text, by whole characters. -/
structure Candidate (Matches : Quoting.Bytes → Prop) (text : Quoting.Bytes) (s e : ℕ) : Prop where
  le : s ≤ e
  inside : e ≤ text.length
  matched : Matches ((text.take e).drop s)
  starts : Boundary c.charLen text s
  ends : Boundary c.charLen text e
  beg : c.flags.mtype = .beg → s = 0
  fin : c.flags.mtype = .fin → e = text.length

/-- The match is the leftmost one, and of these the longest. -/
def Reports (Matches : Quoting.Bytes → Prop) : Prop :=
  ∀ text s e, c.matchPattern text = some (s, e) ↔ c.Candidate Matches text s e ∧
    ∀ s' e', c.Candidate Matches text s' e' → s < s' ∨ s = s' ∧ e' ≤ e

/-- A character is a part of the string that is left, and of at most `MB_CUR_MAX` bytes. -/
def Measured : Prop :=
  ∀ text, text ≠ [] → 0 < c.charLen text ∧ c.charLen text ≤ text.length ∧ c.charLen text ≤ c.mbCurMax

end Call

end PatSubst

end Rash
