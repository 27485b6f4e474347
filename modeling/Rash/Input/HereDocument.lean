import Rash.Input.ShellGetc
import Mathlib.Data.Nat.Init
import Mathlib.Tactic.SplitIfs

/-!
# Here-documents

`make_here_document` of make_cmd.c with the lines that `read_a_line` of parse.y gives it.  The
input is what `yy_getc`, or `shell_getc (0)` in the text of an alias, returns before `EOF`,
without the null bytes, which are skipped.
-/

namespace Rash

namespace HereDocument

open ParserInput (Byte newline backslash)

abbrev tab : Byte := ⟨'\t', by decide⟩
abbrev singleQuote : Byte := ⟨'\'', by decide⟩
abbrev doubleQuote : Byte := ⟨'"', by decide⟩
abbrev ctlesc : Byte := ⟨'\x01', by decide⟩
abbrev ctlnul : Byte := ⟨'\x7f', by decide⟩

/-! ## The delimiter -/

/-- `CBSDQUOTE`: `slashify_in_quotes` -/
def cbsdquote (c : Byte) : Bool := ['\\', '`', '$', '"', '\n'].contains c.val

/-- The loop of `string_quote_removal (string, 0)`; the second argument is set between single
quotes. -/
def quoteRemoval : Bool → Bool → List Byte → List Byte
  | _, _, [] => []
  | dquote, true, c :: s =>
      if c = singleQuote then quoteRemoval dquote false s else c :: quoteRemoval dquote true s
  | dquote, false, [c] =>
      if c = singleQuote ∧ dquote = false ∨ c = doubleQuote then [] else [c]
  | dquote, false, c :: d :: s =>
      if c = backslash then
        if dquote = true ∧ cbsdquote d = false then c :: d :: quoteRemoval dquote false s
        else d :: quoteRemoval dquote false s
      else if c = singleQuote ∧ dquote = false then quoteRemoval dquote true (d :: s)
      else if c = doubleQuote then quoteRemoval (!dquote) false (d :: s)
      else c :: quoteRemoval dquote false (d :: s)

/-- The redirection. -/
structure Redirect where
  /-- `r_deblank_reading_until`, not `r_reading_until` -/
  killLeading : Bool
  /-- `redirectee.filename` -/
  word : List Byte
  /-- `W_QUOTED` -/
  quoted : Bool

namespace Redirect

/-- `redir_word` -/
def redirWord (r : Redirect) : List Byte :=
  if r.quoted then quoteRemoval false false r.word else r.word

/-- `delim_unquoted` -/
def delimUnquoted (r : Redirect) : Bool := !r.quoted

end Redirect

/-! ## The lines -/

/-- What surrounds the here-document. -/
structure Surroundings where
  /-- a backslash at the end of the input is doubled: no alias is expanded, and the input is a
  string, a file, or not interactive -/
  doubles : Bool
  /-- `shell_eof_token`, with `PST_EOFTOKEN` -/
  eofToken : Option Byte

/-- `CTLESC` and `CTLNUL` are quoted where the line will be expanded. -/
def quoteControl (removeQuotedNewline : Bool) (c : Byte) : List Byte :=
  if removeQuotedNewline = true ∧ (c = ctlesc ∨ c = ctlnul) then [ctlesc, c] else [c]

/-- The loop of `read_a_line (remove_quoted_newline)`, with `pass_next` and the line so far: the
line, if there is one, and the input that is left.  Behind the last character `EOF` ends the
line. -/
def readALine (removeQuotedNewline doubles : Bool) :
    Bool → List Byte → List Byte → Option (List Byte) × List Byte
  | _, line, [] => (if line = [] then none else some (line ++ [newline]), [])
  | true, line, c :: s =>
      if c = newline then (some (line ++ [c]), s)
      else readALine removeQuotedNewline doubles false (line ++ [c]) s
  | false, line, [c] =>
      if c = backslash ∧ removeQuotedNewline = true then
        (some (line ++ (if doubles then [backslash] else []) ++ [c]), [])
      else if c = newline then (some (line ++ quoteControl removeQuotedNewline c), [])
      else (some (line ++ quoteControl removeQuotedNewline c ++ [newline]), [])
  | false, line, c :: d :: s =>
      if c = backslash ∧ removeQuotedNewline = true then
        if d = newline then readALine removeQuotedNewline doubles false line s
        else readALine removeQuotedNewline doubles true (line ++ [c]) (d :: s)
      else if c = newline then (some (line ++ quoteControl removeQuotedNewline c), d :: s)
      else
        readALine removeQuotedNewline doubles false (line ++ quoteControl removeQuotedNewline c)
          (d :: s)

theorem readALine_length (q doubles passNext : Bool) (line s : List Byte) :
    (readALine q doubles passNext line s).2.length ≤ s.length ∧
      (s ≠ [] → (readALine q doubles passNext line s).2.length < s.length) := by
  induction passNext, line, s using readALine.induct q with
  | case1 passNext line => cases passNext <;> exact ⟨Nat.zero_le _, fun h => absurd rfl h⟩
  | case2 line s =>
      unfold readALine
      simp
  | case3 line c s hc ih =>
      unfold readALine
      rw [if_neg hc, List.length_cons]
      omega
  | case4 line c hc =>
      unfold readALine
      simp [hc]
  | case5 line hc =>
      unfold readALine
      simp
  | case6 line c hc hnewline =>
      unfold readALine
      rw [if_neg hc, if_neg hnewline]
      simp
  | case7 line c s hc ih =>
      unfold readALine
      rw [if_pos hc, if_pos rfl, List.length_cons, List.length_cons]
      omega
  | case8 line c d s hc hd ih =>
      unfold readALine
      rw [if_pos hc, if_neg hd]
      simp only [List.length_cons, ne_eq, reduceCtorEq, not_false_eq_true, forall_const] at ih ⊢
      omega
  | case9 line d s hc =>
      unfold readALine
      simp
  | case10 line c d s hc hnewline ih =>
      unfold readALine
      rw [if_neg hc, if_neg hnewline]
      simp only [List.length_cons, ne_eq, reduceCtorEq, not_false_eq_true, forall_const] at ih ⊢
      omega

/-! ## The document -/

/-- How `make_here_document` stops: at the delimiter, with text that is pushed back, or at the end
of the input. -/
inductive Ending
  | delimiter
  | pushedBack (text : List Byte)
  | endOfFile
  deriving DecidableEq

/-- The document, what is left of the input, and how it has ended. -/
structure Result where
  document : List Byte
  rest : List Byte
  ending : Ending

/-- `STREQN (line, redir_word, redir_len) && line[redir_len] == '\n'` -/
def isDelimiter (redirWord line : List Byte) : Bool :=
  redirWord.isPrefixOf line && (line)[redirWord.length]? == some newline

theorem readALine_lt {q doubles : Bool} {line s rest : List Byte}
    (h : readALine q doubles false [] s = (some line, rest)) : rest.length < s.length := by
  have hlt := (readALine_length q doubles false [] s).2
  rw [h] at hlt
  refine hlt ?_
  rintro rfl
  cases h

/-- The loop of `make_here_document`, with the document so far. -/
def readDocument (r : Redirect) (a : Surroundings) (document input : List Byte) : Result :=
  match _h : readALine r.delimUnquoted a.doubles false [] input with
  | (none, rest) => { document := document, rest := rest, ending := .endOfFile }
  | (some fullLine, rest) =>
      if r.killLeading = true ∧ fullLine ≠ [] ∧ isDelimiter r.redirWord fullLine = true then
        { document := document, rest := rest, ending := .delimiter }
      else
        let line := if r.killLeading then fullLine.dropWhile (· == tab) else fullLine
        if line = [] then readDocument r a document rest
        else if isDelimiter r.redirWord line then
          { document := document, rest := rest, ending := .delimiter }
        else if r.redirWord.isPrefixOf line &&
            a.eofToken.any (line.drop r.redirWord.length).contains then
          { document := document, rest := rest
            ending := .pushedBack (line.drop r.redirWord.length) }
        else readDocument r a (document ++ line) rest
termination_by input.length
decreasing_by
  · exact readALine_lt _h
  · exact readALine_lt _h

/-- `make_here_document` -/
def makeHereDocument (r : Redirect) (a : Surroundings) (input : List Byte) : Result :=
  readDocument r a [] input

end HereDocument

end Rash
