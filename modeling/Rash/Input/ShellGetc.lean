import Mathlib.Data.List.Basic
import Mathlib.Data.Nat.Notation

/-!
# The input of the parser

`shell_getc`, `shell_ungetc` and `shell_ungets` of parse.y with the stack of pushed strings.  A
line is kept with what has been read of it and what has not.  No read error happens, no history
is kept, and every character is a single byte.
-/

namespace Rash

namespace ParserInput

/-- A character of a line or a string, which ends with NUL. -/
abbrev Byte := {c : Char // c ≠ '\x00'}

abbrev newline : Byte := ⟨'\n', by decide⟩
abbrev blank : Byte := ⟨' ', by decide⟩
abbrev backslash : Byte := ⟨'\\', by decide⟩

/-- `shell_meta_chars` -/
def shellmeta (c : Byte) : Bool := ['(', ')', '<', '>', ';', '&', '|'].contains c.val

/-- What `shell_getc` returns. -/
inductive Got
  | char (c : Byte)
  | nul
  | eof
  deriving DecidableEq

/-- `shell_input_line`, with the characters in front of `shell_input_line_index` (the last one
first) and those from it on.  The terminator is `EOF` where nothing was read. -/
@[ext] structure Line where
  before : List Byte
  rest : List Byte
  eof : Bool
  empty_of_eof : eof = true → before = [] ∧ rest = []

namespace Line

/-- A line of text. -/
def start (s : List Byte) : Line := ⟨[], s, false, nofun⟩

/-- `shell_input_line_index` -/
def index (l : Line) : ℕ := l.before.length

/-- `shell_input_line_index++`, in front of a character. -/
def advance (l : Line) : Line :=
  match h : l.rest with
  | [] => l
  | c :: rest =>
      { before := c :: l.before
        rest := rest
        eof := l.eof
        empty_of_eof := fun heof => by rw [(l.empty_of_eof heof).2] at h; cases h }

@[simp] theorem advance_rest (l : Line) : l.advance.rest = l.rest.tail := by
  unfold advance
  split
  · rename_i h
    rw [h]
    rfl
  · rename_i h
    exact (congrArg List.tail h).symm

theorem advance_length (l : Line) (h : l.rest ≠ []) :
    l.advance.rest.length < l.rest.length := by
  rw [advance_rest, List.length_tail]
  exact Nat.sub_lt (List.length_pos_iff.mpr h) Nat.one_pos

end Line

inductive PushFlags
  | plain
  | alias
  | dparen
  | source
  deriving DecidableEq

/-- `STRING_SAVER`; the saved line of a `source` is never returned to by `shell_getc`. -/
structure StringSaver where
  savedLine : Line
  expandAlias : Bool
  expander : Option String
  flags : PushFlags

inductive StreamType
  | stdin
  | stream
  | string
  | bstream
  deriving DecidableEq

/-- `bash_input`: what `yy_getc` returns before `EOF`, without the null bytes, which are skipped. -/
structure BashInput where
  type : StreamType
  chars : List Byte

structure Parser where
  eolUngetcLookahead : Option Got
  line : Line
  pushedStringList : List StringSaver
  /-- `PST_ENDALIAS` -/
  endalias : Bool
  /-- `PST_ALEXPNEXT` -/
  alexpnext : Bool
  unquotedBackslash : Bool
  bashInput : BashInput
  /-- the aliases with `AL_BEINGEXPANDED` -/
  beingExpanded : List String

/-- What stays as it is in the shell and in its locale. -/
structure Env where
  interactive : Bool
  shellblank : Byte → Bool

/-- What the parser is doing when it calls `shell_getc`. -/
structure Context where
  /-- `PST_COMMENT` -/
  comment : Bool
  heredocString : Bool
  /-- the current delimiter is a single or a double quote -/
  quoted : Bool

namespace Parser

variable (p : Parser)

/-- `expanding_alias ()` -/
def expandingAlias : Bool :=
  match p.pushedStringList with
  | [] => false
  | t :: _ => t.expander.isSome

/-- `push_string (s, expand, ap)` -/
def pushString (s : List Byte) (expand : Bool) (ap : Option String) : Parser :=
  { p with
    pushedStringList :=
      { savedLine := p.line, expandAlias := expand, expander := ap
        flags := if ap.isSome then .alias else .plain } :: p.pushedStringList
    beingExpanded := ap.toList ++ p.beingExpanded
    line := .start s }

/-- `pop_string ()`, where `t` is on top of the list. -/
def popString (t : StringSaver) (ts : List StringSaver) : Parser :=
  { p with
    line := t.savedLine
    alexpnext := p.alexpnext || t.expandAlias
    pushedStringList := ts
    beingExpanded := p.beingExpanded.filter fun name => t.expander != some name }

/-- The loop of `restart_read` up to a newline: the characters, whether the newline is missing,
and what is left of the input. -/
def readChars : List Byte → List Byte × Bool × List Byte
  | [] => ([], true, [])
  | c :: cs =>
      if c = newline then ([], false, cs)
      else (c :: (readChars cs).1, (readChars cs).2.1, (readChars cs).2.2)

/-- `last_was_backslash` behind the characters of a line. -/
def lastWasBackslash (last : Bool) (s : List Byte) : Bool :=
  s.foldl (fun b c => !b && c == backslash) last

/-- What stands for the newline at the end of a line. -/
def lineEnd (env : Env) (removeQuotedNewline missing last : Bool) : Byte :=
  let type := p.bashInput.type
  if (type = .string ∨ type = .bstream ∨ env.interactive = false ∧ type = .stream) ∧
      p.expandingAlias = false ∧ last = true ∧ missing = true ∧ removeQuotedNewline = true then
    backslash
  else newline

/-- `restart_read`, with `last_was_backslash`. -/
def restartRead (env : Env) (removeQuotedNewline last : Bool) : Parser × Bool :=
  let text := (readChars p.bashInput.chars).1
  let missing := (readChars p.bashInput.chars).2.1
  let last := lastWasBackslash last text
  let source := { p.bashInput with chars := (readChars p.bashInput.chars).2.2 }
  if missing = true ∧ text = [] then
    ({ p with line := ⟨[], [], true, fun _ => ⟨rfl, rfl⟩⟩, bashInput := source }, last)
  else
    ({ p with
       line := .start (text ++ [p.lineEnd env removeQuotedNewline missing last])
       bashInput := source }, last)

/-- The blank at the end of a pushed string, which keeps an alias marked while its last word is
read. -/
def addsBlank (env : Env) (ctx : Context) : Bool :=
  match p.pushedStringList, p.line.before with
  | t :: _, c :: _ =>
      t.flags != .source && t.flags != .dparen && !ctx.comment && !p.endalias &&
        !ctx.heredocString && !env.shellblank c && c != newline && !p.unquotedBackslash &&
        !shellmeta c && !ctx.quoted
  | _, _ => false

theorem readChars_length (s : List Byte) : (readChars s).2.2.length ≤ s.length := by
  induction s with
  | nil => exact Nat.le_refl _
  | cons c s ih =>
      unfold readChars
      split
      · exact Nat.le_succ _
      · exact Nat.le_succ_of_le ih

theorem readChars_length_lt {s : List Byte} (h : s ≠ []) :
    (readChars s).2.2.length < s.length := by
  cases s with
  | nil => exact absurd rfl h
  | cons c s =>
      unfold readChars
      split
      · exact Nat.lt_succ_self _
      · exact Nat.lt_succ_of_le (readChars_length s)

/-- There is less to read with each line that is read, or nothing more comes. -/
theorem restartRead_lt (p : Parser) (env : Env) (q last : Bool)
    (h : p.line.rest ≠ [] ∨ p.bashInput.chars ≠ []) :
    (p.restartRead env q last).1.bashInput.chars.length < p.bashInput.chars.length ∨
      (p.restartRead env q last).1.bashInput.chars.length = p.bashInput.chars.length ∧
        (p.restartRead env q last).1.line.rest.length < p.line.rest.length := by
  by_cases hchars : p.bashInput.chars = []
  · refine .inr ?_
    have hrest := List.length_pos_iff.mpr (h.resolve_right fun hne => hne hchars)
    unfold restartRead
    rw [hchars]
    exact ⟨rfl, hrest⟩
  · refine .inl ?_
    unfold restartRead
    dsimp only
    split
    · exact readChars_length_lt hchars
    · exact readChars_length_lt hchars

@[simp] theorem restartRead_pushedStringList (p : Parser) (env : Env) (q last : Bool) :
    (p.restartRead env q last).1.pushedStringList = p.pushedStringList := by
  unfold restartRead
  dsimp only
  split <;> rfl

/-- The places in `shell_getc` behind `restart_read`: its two labels, and the test of the
character that was read. -/
inductive Label
  | nextAliasChar
  | popAlias
  | test (uc : Option Byte)

def Label.rank : Label → ℕ
  | .test none => 0
  | .popAlias => 1
  | .nextAliasChar => 2
  | .test (some _) => 3

theorem lex_of_le {a b c d a' b' c' d' : ℕ} (ha : a ≤ a') (hb : b ≤ b')
    (h : c < c' ∨ c ≤ c' ∧ d < d') :
    Prod.Lex (· < ·) (Prod.Lex (· < ·) (Prod.Lex (· < ·) (· < ·))) (a, b, c, d) (a', b', c', d') := by
  simp only [Prod.lex_def]
  omega

theorem lex_of_restartRead (p : Parser) (env : Env) (q last : Bool)
    (h : p.line.rest ≠ [] ∨ p.bashInput.chars ≠ []) {d d' : ℕ} :
    Prod.Lex (· < ·) (Prod.Lex (· < ·) (Prod.Lex (· < ·) (· < ·)))
      ((p.restartRead env q last).1.bashInput.chars.length,
        (p.restartRead env q last).1.pushedStringList.length,
        (p.restartRead env q last).1.line.rest.length, d)
      (p.bashInput.chars.length, p.pushedStringList.length, p.line.rest.length, d') := by
  rw [restartRead_pushedStringList]
  rcases p.restartRead_lt env q last h with hlt | ⟨heq, hlt⟩
  · exact .left _ _ hlt
  · rw [heq]
    exact .right _ (.right _ (.left _ _ hlt))

/-- `unquoted_backslash` at the first character of a line. -/
def startChar : Parser :=
  if p.line.before = [] then { p with unquotedBackslash := false } else p

@[simp] theorem startChar_line : p.startChar.line = p.line := by
  unfold startChar
  split <;> rfl

@[simp] theorem startChar_pushedStringList :
    p.startChar.pushedStringList = p.pushedStringList := by
  unfold startChar
  split <;> rfl

@[simp] theorem startChar_bashInput : p.startChar.bashInput = p.bashInput := by
  unfold startChar
  split <;> rfl

/-- The character is read, with what it is for `unquoted_backslash`. -/
def readChar (c : Byte) : Parser :=
  { p with
    unquotedBackslash := !p.unquotedBackslash && c == backslash
    line := p.line.advance }

/-- `shell_getc` from one of these places on, with `last_was_backslash`. -/
def getcFrom (env : Env) (removeQuotedNewline : Bool) (ctx : Context) :
    Label → Bool → Parser → Got × Parser
  | .nextAliasChar, last, p =>
      match _h : p.line.rest with
      | c :: _ =>
          getcFrom env removeQuotedNewline ctx (.test (some c)) last (p.startChar.readChar c)
      | [] =>
          if p.startChar.addsBlank env ctx then
            (.char blank, { p.startChar with endalias := true })
          else getcFrom env removeQuotedNewline ctx .popAlias last p.startChar
  | .popAlias, last, p =>
      match _h : p.pushedStringList with
      | [] => getcFrom env removeQuotedNewline ctx (.test none) last p
      | t :: ts =>
          if t.flags = .source then getcFrom env removeQuotedNewline ctx (.test none) last p
          else
            let popped := popString { p with endalias := false } t ts
            match t.savedLine.rest with
            | c :: _ =>
                getcFrom env removeQuotedNewline ctx (.test (some c)) last
                  { popped with line := t.savedLine.advance }
            | [] => getcFrom env removeQuotedNewline ctx (.test none) last popped
  | .test (some c), last, p =>
      if c = backslash ∧ removeQuotedNewline = true ∧ p.line.rest.head? = some newline then
        if p.expandingAlias then
          if p.line.rest.tail = [] then getcFrom env removeQuotedNewline ctx .popAlias last p
          else
            getcFrom env removeQuotedNewline ctx .nextAliasChar last
              { p with line := p.line.advance }
        else
          getcFrom env removeQuotedNewline ctx .nextAliasChar
            (p.restartRead env removeQuotedNewline last).2
            (p.restartRead env removeQuotedNewline last).1
      else (.char c, p)
  | .test none, last, p =>
      if p.line.eof then (if p.line.index ≠ 0 then .char newline else .eof, p)
      else if p.bashInput.type = .string ∧ p.bashInput.chars ≠ [] ∧
          p.pushedStringList.head?.map StringSaver.flags = some .source then
        getcFrom env removeQuotedNewline ctx .nextAliasChar
          (p.restartRead env removeQuotedNewline last).2
          (p.restartRead env removeQuotedNewline last).1
      else (.nul, p)
termination_by label _ p =>
  (p.bashInput.chars.length, p.pushedStringList.length, p.line.rest.length, label.rank)
decreasing_by
  · have hrest := p.line.advance_length (by rw [_h]; exact List.cons_ne_nil _ _)
    exact lex_of_le (Nat.le_of_eq (congrArg _ (congrArg _ p.startChar_bashInput)))
      (Nat.le_of_eq (congrArg _ p.startChar_pushedStringList))
      (.inl (by simpa [readChar] using hrest))
  · exact lex_of_le (by simp) (by simp) (.inr ⟨by simp, by decide⟩)
  · exact lex_of_le (Nat.le_refl _) (Nat.le_refl _) (.inr ⟨Nat.le_refl _, by decide⟩)
  · exact lex_of_le (Nat.le_refl _) (Nat.le_refl _) (.inr ⟨Nat.le_refl _, by decide⟩)
  · exact .right _ (.left _ _ (by rw [_h]; exact Nat.lt_succ_self _))
  · exact .right _ (.left _ _ (by rw [_h]; exact Nat.lt_succ_self _))
  · exact lex_of_le (Nat.le_refl _) (Nat.le_refl _) (.inr ⟨Nat.le_refl _, by simp [Label.rank]⟩)
  · rename_i hquoted _ _
    exact lex_of_le (Nat.le_refl _) (Nat.le_refl _) (.inl (p.line.advance_length fun hnil => by
      rw [hnil] at hquoted; cases hquoted.2.2))
  · rename_i hquoted _
    exact lex_of_restartRead p _ _ _ (.inl fun hnil => by rw [hnil] at hquoted; cases hquoted.2.2)
  · rename_i hsource
    exact lex_of_restartRead p _ _ _ (.inr hsource.2.1)

/-- `shell_getc (remove_quoted_newline)` -/
def shellGetc (env : Env) (removeQuotedNewline : Bool) (ctx : Context) (p : Parser) :
    Got × Parser :=
  match p.eolUngetcLookahead with
  | some c => (c, { p with eolUngetcLookahead := none })
  | none =>
      if p.line.rest = [] ∧ p.pushedStringList = [] then
        getcFrom env removeQuotedNewline ctx .nextAliasChar
          (p.restartRead env removeQuotedNewline false).2
          (p.restartRead env removeQuotedNewline false).1
      else getcFrom env removeQuotedNewline ctx .nextAliasChar false p

/-- `shell_ungetc (c)`, for a character of the input. -/
def shellUngetc (p : Parser) (c : Byte) : Parser :=
  match h : p.line.before with
  | [] => { p with eolUngetcLookahead := some (.char c) }
  | _ :: before =>
      { p with
        line :=
          { before := before
            rest := c :: p.line.rest
            eof := p.line.eof
            empty_of_eof := fun heof => by rw [(p.line.empty_of_eof heof).1] at h; cases h } }

/-- `shell_ungets (s)`.  The characters that are moved in the last case lie behind the NUL that
`strcpy` writes after `s`. -/
def shellUngets (p : Parser) (s : List Byte) : Parser :=
  if p.line.rest = [] then { p with line := .start s }
  else if s.length ≤ p.line.index then
    { p with
      line := { before := p.line.before.drop s.length, rest := s ++ p.line.rest, eof := false
                empty_of_eof := nofun } }
  else if s.getLast? = some newline then p.pushString s false none
  else { p with line := .start s }

end Parser

end ParserInput

end Rash
