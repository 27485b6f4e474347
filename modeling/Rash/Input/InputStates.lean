import Rash.Input.ShellGetc
import Mathlib.Data.Nat.Init
import Mathlib.Tactic.SplitIfs

/-!
# States of the input

What a call of `shell_getc (0)` does, and which states of the input no sequence of calls tells
apart.  They have the same left to read and the same blanks added at the ends of pushed strings.
-/

namespace Rash

namespace ParserInput

namespace Parser

variable {env : Env} {ctx : Context} {p : Parser}

/-! ## One call -/

/-- The character of the next line that is read first. -/
def firstGot (p : Parser) : Got :=
  match p.line.rest with
  | c :: _ => .char c
  | [] => .eof

/-- The state behind it. -/
def readFirst (p : Parser) : Parser :=
  match p.line.rest with
  | c :: _ => p.startChar.readChar c
  | [] => p.startChar

theorem test_char (last : Bool) (c : Byte) :
    getcFrom env false ctx (.test (some c)) last p = (.char c, p) := by
  rw [getcFrom, if_neg]
  rintro ⟨-, h, -⟩
  cases h

theorem nextAliasChar_cons (last : Bool) {c : Byte} {r : List Byte} (h : p.line.rest = c :: r) :
    getcFrom env false ctx .nextAliasChar last p = (.char c, p.startChar.readChar c) := by
  rw [getcFrom]
  split
  · rename_i hrest
    rw [h] at hrest
    cases hrest
    exact test_char last c
  · rename_i hrest
    rw [h] at hrest
    cases hrest

theorem nextAliasChar_nil (last : Bool) (h : p.line.rest = []) :
    getcFrom env false ctx .nextAliasChar last p =
      if p.startChar.addsBlank env ctx then
        (.char blank, { p.startChar with endalias := true })
      else getcFrom env false ctx .popAlias last p.startChar := by
  rw [getcFrom]
  split
  · rename_i hrest
    rw [h] at hrest
    cases hrest
  · rfl

/-- Nothing is on the stack that `shell_getc` would go back to. -/
def Bottom (p : Parser) : Prop := ∀ t ∈ p.pushedStringList.head?, t.flags = .source

theorem addsBlank_of_bottom (h : p.Bottom) : p.addsBlank env ctx = false := by
  unfold addsBlank
  split
  · rename_i t _ _ _ hpushed _
    have hflags := h t (by rw [hpushed]; rfl)
    rw [hflags]
    rfl
  · rfl

theorem popAlias_of_bottom (last : Bool) (h : p.Bottom) :
    getcFrom env false ctx .popAlias last p = getcFrom env false ctx (.test none) last p := by
  rw [getcFrom]
  split
  · rfl
  · rename_i t _ hpushed
    rw [if_pos (h t (by rw [hpushed]; rfl))]

theorem Bottom.startChar (h : p.Bottom) : p.startChar.Bottom := by
  unfold Bottom
  rw [startChar_pushedStringList]
  exact h

theorem Bottom.restartRead (h : p.Bottom) (q last : Bool) : (p.restartRead env q last).1.Bottom := by
  unfold Bottom
  rw [restartRead_pushedStringList]
  exact h

theorem restartRead_before (q last : Bool) : (p.restartRead env q last).1.line.before = [] := by
  unfold Parser.restartRead
  dsimp only
  split <;> rfl

theorem eof_of_restartRead (q last : Bool) (h : (p.restartRead env q last).1.line.rest = []) :
    (p.restartRead env q last).1.line.eof = true := by
  unfold Parser.restartRead at h ⊢
  dsimp only at h ⊢
  split
  · rfl
  · rename_i hmissing
    rw [if_neg hmissing] at h
    exact absurd (List.append_eq_nil_iff.mp h).2 (List.cons_ne_nil _ _)

/-- A new line is read where no string is left. -/
theorem nextAliasChar_restartRead (hbottom : p.Bottom) (last last' : Bool) :
    getcFrom env false ctx .nextAliasChar last (p.restartRead env false last').1 =
      ((p.restartRead env false last').1.firstGot, (p.restartRead env false last').1.readFirst) := by
  unfold firstGot readFirst
  split
  · rename_i c r hrest
    exact nextAliasChar_cons last hrest
  · rename_i hrest
    have heof := @eof_of_restartRead env _ false last' hrest
    have hstart := (@Bottom.restartRead env _ hbottom false last').startChar
    rw [nextAliasChar_nil last hrest, addsBlank_of_bottom hstart, if_neg Bool.false_ne_true,
      popAlias_of_bottom last hstart, getcFrom, startChar_line, heof, if_pos rfl]
    unfold Line.index
    rw [restartRead_before]
    rfl

/-- The rest of the string that a `source` reads is not reached by popping. -/
def ReadsOn (p : Parser) : Prop :=
  p.bashInput.type = .string ∧ p.bashInput.chars ≠ [] ∧
    p.pushedStringList.head?.map StringSaver.flags = some .source

instance : Decidable p.ReadsOn := inferInstanceAs (Decidable (_ ∧ _ ∧ _))

theorem ReadsOn.bottom (h : p.ReadsOn) : p.Bottom := by
  intro t ht
  have hflags := h.2.2
  rw [Option.mem_def.mp ht] at hflags
  exact Option.some.inj hflags

/-- The end of the line, where no string is popped. -/
theorem test_nul (last : Bool) : getcFrom env false ctx (.test none) last p =
    if p.line.eof then (.eof, p)
    else if p.ReadsOn then
      ((p.restartRead env false last).1.firstGot, (p.restartRead env false last).1.readFirst)
    else (.nul, p) := by
  rw [getcFrom]
  cases heof : p.line.eof with
  | true =>
      rw [if_pos rfl, if_pos rfl]
      unfold Line.index
      rw [(p.line.empty_of_eof heof).1]
      rfl
  | false =>
      rw [if_neg Bool.false_ne_true, if_neg Bool.false_ne_true]
      by_cases hreads : p.ReadsOn
      · rw [if_pos hreads, ← nextAliasChar_restartRead hreads.bottom]
        exact if_pos hreads
      · rw [if_neg hreads]
        exact if_neg hreads

variable (env ctx p)

/-- `shell_getc (0)` -/
def getc : Got × Parser := shellGetc env false ctx p

/-- The string on top of the stack has been read. -/
def pop (t : StringSaver) (ts : List StringSaver) : Parser :=
  popString { p.startChar with endalias := false } t ts

variable {env ctx p}

theorem getc_lookahead {g : Got} (h : p.eolUngetcLookahead = some g) :
    getc env ctx p = (g, { p with eolUngetcLookahead := none }) := by
  unfold getc shellGetc
  rw [h]

section

variable (hlookahead : p.eolUngetcLookahead = none)

include hlookahead

theorem getc_cons {c : Byte} {r : List Byte} (h : p.line.rest = c :: r) :
    getc env ctx p = (.char c, p.startChar.readChar c) := by
  unfold getc shellGetc
  rw [hlookahead]
  dsimp only
  rw [if_neg fun hend => by rw [h] at hend; cases hend.1]
  exact nextAliasChar_cons false h

theorem getc_line (h : p.line.rest = []) (hpushed : p.pushedStringList = []) :
    getc env ctx p =
      ((p.restartRead env false false).1.firstGot, (p.restartRead env false false).1.readFirst) := by
  have hbottom : p.Bottom := by
    unfold Bottom
    rw [hpushed]
    nofun
  unfold getc shellGetc
  rw [hlookahead]
  dsimp only
  rw [if_pos ⟨h, hpushed⟩]
  exact nextAliasChar_restartRead hbottom _ _

theorem getc_source (h : p.line.rest = []) {t : StringSaver} {ts : List StringSaver}
    (hpushed : p.pushedStringList = t :: ts) (hsource : t.flags = .source) :
    getc env ctx p = getcFrom env false ctx (.test none) false p.startChar := by
  have hbottom : p.Bottom := by
    unfold Bottom
    rw [hpushed]
    intro s hs
    cases hs
    exact hsource
  unfold getc shellGetc
  rw [hlookahead]
  dsimp only
  rw [if_neg fun hend => (by rw [hpushed] at hend; cases hend.2), nextAliasChar_nil false h,
    addsBlank_of_bottom hbottom.startChar, if_neg Bool.false_ne_true,
    popAlias_of_bottom false hbottom.startChar]

theorem getc_pushed (h : p.line.rest = []) {t : StringSaver} {ts : List StringSaver}
    (hpushed : p.pushedStringList = t :: ts) (hsource : t.flags ≠ .source) :
    getc env ctx p =
      if p.startChar.addsBlank env ctx then (.char blank, { p.startChar with endalias := true })
      else
        match t.savedLine.rest with
        | c :: _ => (.char c, { p.pop t ts with line := t.savedLine.advance })
        | [] => getcFrom env false ctx (.test none) false (p.pop t ts) := by
  unfold getc shellGetc
  rw [hlookahead]
  dsimp only
  rw [if_neg fun hend => (by rw [hpushed] at hend; cases hend.2), nextAliasChar_nil false h]
  split_ifs
  · rfl
  · rw [getcFrom]
    split
    · rename_i hnil
      rw [startChar_pushedStringList, hpushed] at hnil
      cases hnil
    · rename_i hcons
      rw [startChar_pushedStringList, hpushed] at hcons
      cases hcons
      rw [if_neg hsource]
      cases hrest : t.savedLine.rest with
      | nil => rfl
      | cons c rest => exact test_char false _

end

/-! ## What the end of a pushed string depends on -/

end Parser

/-- The last character of a line, read or not. -/
def Line.last (l : Line) : Option Byte := l.rest.getLast?.or l.before.head?

/-- A character that is the end of a word. -/
def Env.endsWord (env : Env) (c : Byte) : Bool :=
  !env.shellblank c && c != newline && !shellmeta c

/-- The parser does not keep `shell_getc` from adding a blank. -/
def Context.adds (ctx : Context) : Bool := !ctx.comment && !ctx.heredocString && !ctx.quoted

/-- A call in which no blank is added. -/
def Context.quiet : Context := { comment := true, heredocString := false, quoted := false }

/-- The line that is popped, with its first character read. -/
def StringSaver.popped (t : StringSaver) : Line := t.savedLine.advance

/-- `unquoted_backslash` is looked at before it is set again, in the line or in one that is popped
behind it. -/
def tells (env : Env) : Line → List StringSaver → Bool
  | _, [] => false
  | l, t :: ts =>
      t.flags != .source && l.before != [] && l.rest.all (· == backslash) &&
        (t.flags != .dparen && l.last.any env.endsWord || tells env t.popped ts)

namespace Parser

variable {env : Env} {ctx : Context} {adds : Bool} {p p' : Parser}

/-- `unquoted_backslash` at the end of the line. -/
def unquotedAtEnd (p : Parser) : Bool :=
  lastWasBackslash (p.line.before != [] && p.unquotedBackslash) p.line.rest

theorem startChar_unquotedBackslash (p : Parser) :
    p.startChar.unquotedBackslash = (p.line.before != [] && p.unquotedBackslash) := by
  unfold Parser.startChar
  split_ifs with h
  · rw [h]
    rfl
  · rw [bne_iff_ne.mpr h, Bool.true_and]

/-- A blank is added at the end of the line, if the parser does not keep it from being added. -/
def closing (env : Env) (p : Parser) : Bool :=
  p.pushedStringList.head?.any (fun t => t.flags != .source && t.flags != .dparen) &&
    !p.endalias && p.line.last.any env.endsWord && !p.unquotedAtEnd

/-- Two states that no call of `shell_getc (0)` tells apart, or none that adds no blank. -/
structure Alike (env : Env) (adds : Bool) (p p' : Parser) : Prop where
  lookahead : p.eolUngetcLookahead = p'.eolUngetcLookahead
  bashInput : p.bashInput = p'.bashInput
  pushed : p.pushedStringList = p'.pushedStringList
  rest : p.line.rest = p'.line.rest
  eof : ∀ t ∈ p.pushedStringList.head?, t.flags = .source → p.line.eof = p'.line.eof
  closing : adds = true → ∀ t ts, p.pushedStringList = t :: ts → t.flags ≠ .source →
    p.closing env = p'.closing env ∧
      (p.unquotedAtEnd = p'.unquotedAtEnd ∨ tells env t.popped ts = false)

theorem startChar_addsBlank (h : p.line.rest = []) :
    p.startChar.addsBlank env ctx = (ctx.adds && p.closing env) := by
  have hunquoted : p.unquotedAtEnd = p.startChar.unquotedBackslash := by
    unfold unquotedAtEnd
    rw [h, startChar_unquotedBackslash]
    rfl
  have hendalias : p.startChar.endalias = p.endalias := by
    unfold Parser.startChar
    split <;> rfl
  have hlast : p.line.last = p.line.before.head? := by
    unfold Line.last
    rw [h]
    rfl
  unfold addsBlank closing Context.adds Env.endsWord
  rw [startChar_pushedStringList, startChar_line, hunquoted, hlast, hendalias]
  cases p.pushedStringList with
  | nil => simp
  | cons t ts =>
      cases p.line.before with
      | nil => simp
      | cons c before =>
          simp only [List.head?_cons, Option.any_some]
          ac_rfl

/-! ## One step -/

theorem last_advance (l : Line) : l.advance.last = l.last := by
  unfold Line.advance
  split
  · rfl
  · rename_i c r h
    change r.getLast?.or (some c) = _
    unfold Line.last
    rw [h]
    cases r with
    | nil => rfl
    | cons d r => rw [List.getLast?_cons_cons]; rfl

theorem advance_nil {l : Line} (h : l.rest = []) : l.advance = l := by
  unfold Line.advance
  split
  · rfl
  · rename_i hrest
    rw [h] at hrest
    cases hrest

theorem advance_eof (l : Line) : l.advance.eof = l.eof := by
  unfold Line.advance
  split <;> rfl

theorem readChar_before {c : Byte} {r : List Byte} (h : p.line.rest = c :: r) :
    (p.startChar.readChar c).line.before ≠ [] := by
  change p.startChar.line.advance.before ≠ []
  rw [startChar_line]
  unfold Line.advance
  split
  · rename_i hrest
    rw [hrest] at h
    cases h
  · exact List.cons_ne_nil _ _

theorem readChar_rest {c : Byte} {r : List Byte} (h : p.line.rest = c :: r) :
    (p.startChar.readChar c).line.rest = r := by
  change p.startChar.line.advance.rest = r
  rw [startChar_line, Line.advance_rest, h]
  rfl

theorem unquotedAtEnd_readChar {c : Byte} {r : List Byte} (h : p.line.rest = c :: r) :
    (p.startChar.readChar c).unquotedAtEnd = p.unquotedAtEnd := by
  unfold unquotedAtEnd
  rw [bne_iff_ne.mpr (readChar_before h), Bool.true_and]
  change lastWasBackslash (!p.startChar.unquotedBackslash && c == backslash)
    p.startChar.line.advance.rest = _
  rw [startChar_line, Line.advance_rest, startChar_unquotedBackslash, h]
  rfl

theorem startChar_endalias : p.startChar.endalias = p.endalias := by
  unfold Parser.startChar
  split <;> rfl

theorem startChar_lookahead : p.startChar.eolUngetcLookahead = p.eolUngetcLookahead := by
  unfold Parser.startChar
  split <;> rfl

theorem closing_readChar {c : Byte} {r : List Byte} (h : p.line.rest = c :: r) :
    (p.startChar.readChar c).closing env = p.closing env := by
  unfold closing
  rw [unquotedAtEnd_readChar h]
  change (p.startChar.pushedStringList.head?.any _ && !p.startChar.endalias &&
    p.startChar.line.advance.last.any env.endsWord && _) = _
  rw [startChar_pushedStringList, startChar_endalias, startChar_line, last_advance]

/-- A character is read in both. -/
theorem Alike.readChar (h : Alike env adds p p') {c : Byte} {r : List Byte} (hrest : p.line.rest = c :: r) :
    Alike env adds (p.startChar.readChar c) (p'.startChar.readChar c) where
  lookahead := startChar_lookahead.trans (h.lookahead.trans startChar_lookahead.symm)
  bashInput := p.startChar_bashInput.trans (h.bashInput.trans p'.startChar_bashInput.symm)
  pushed := p.startChar_pushedStringList.trans (h.pushed.trans p'.startChar_pushedStringList.symm)
  rest := by
    change p.startChar.line.advance.rest = p'.startChar.line.advance.rest
    rw [startChar_line, startChar_line, Line.advance_rest, Line.advance_rest, h.rest]
  eof t ht hsource := by
    change p.startChar.line.advance.eof = p'.startChar.line.advance.eof
    rw [startChar_line, startChar_line, advance_eof, advance_eof]
    exact h.eof t (p.startChar_pushedStringList ▸ ht) hsource
  closing hadds t ts hpushed hsource := by
    rw [closing_readChar hrest, closing_readChar (h.rest ▸ hrest), unquotedAtEnd_readChar hrest,
      unquotedAtEnd_readChar (h.rest ▸ hrest)]
    exact h.closing hadds t ts (p.startChar_pushedStringList.symm.trans hpushed) hsource

/-- Nothing but the input and the stack matters at the bottom. -/
theorem alike_of_bottom (h : p.Bottom) (hlookahead : p.eolUngetcLookahead = p'.eolUngetcLookahead)
    (hbash : p.bashInput = p'.bashInput) (hpushed : p.pushedStringList = p'.pushedStringList)
    (hrest : p.line.rest = p'.line.rest)
    (heof : p.pushedStringList ≠ [] → p.line.eof = p'.line.eof) : Alike env adds p p' where
  lookahead := hlookahead
  bashInput := hbash
  pushed := hpushed
  rest := hrest
  eof t ht _ := heof fun hnil => by rw [hnil] at ht; cases ht
  closing _ t ts hcons hsource := absurd (h t (by rw [hcons]; rfl)) hsource

theorem restartRead_line (h : p.bashInput = p'.bashInput)
    (hpushed : p.pushedStringList = p'.pushedStringList) (q last : Bool) :
    (p.restartRead env q last).1.line = (p'.restartRead env q last).1.line := by
  unfold Parser.restartRead lineEnd expandingAlias
  rw [h, hpushed]
  dsimp only
  split <;> rfl

theorem restartRead_bashInput (h : p.bashInput = p'.bashInput) (q last : Bool) :
    (p.restartRead env q last).1.bashInput = (p'.restartRead env q last).1.bashInput := by
  unfold Parser.restartRead
  rw [h]
  dsimp only
  split <;> rfl

theorem restartRead_lookahead (q last : Bool) :
    (p.restartRead env q last).1.eolUngetcLookahead = p.eolUngetcLookahead := by
  unfold Parser.restartRead
  dsimp only
  split <;> rfl

theorem readFirst_line : p.readFirst.line = p.line.advance := by
  unfold readFirst
  split
  · exact congrArg Line.advance p.startChar_line
  · rename_i h
    rw [startChar_line, advance_nil h]

theorem readFirst_bashInput : p.readFirst.bashInput = p.bashInput := by
  unfold readFirst
  split
  · exact p.startChar_bashInput
  · exact p.startChar_bashInput

theorem readFirst_pushed : p.readFirst.pushedStringList = p.pushedStringList := by
  unfold readFirst
  split
  · exact p.startChar_pushedStringList
  · exact p.startChar_pushedStringList

theorem readFirst_lookahead : p.readFirst.eolUngetcLookahead = p.eolUngetcLookahead := by
  unfold readFirst
  split
  · exact startChar_lookahead
  · exact startChar_lookahead

/-- A new line is read in both. -/
theorem restartRead_alike (hbottom : p.Bottom)
    (hlookahead : p.eolUngetcLookahead = p'.eolUngetcLookahead) (hbash : p.bashInput = p'.bashInput)
    (hpushed : p.pushedStringList = p'.pushedStringList) (last : Bool) :
    (p.restartRead env false last).1.firstGot = (p'.restartRead env false last).1.firstGot ∧
      Alike env adds (p.restartRead env false last).1.readFirst
        (p'.restartRead env false last).1.readFirst := by
  have hline := @restartRead_line env _ _ hbash hpushed false last
  refine ⟨by unfold firstGot; rw [hline], alike_of_bottom ?_ ?_ ?_ ?_ ?_ ?_⟩
  · unfold Bottom
    rw [readFirst_pushed, restartRead_pushedStringList]
    exact hbottom
  · rw [readFirst_lookahead, readFirst_lookahead, restartRead_lookahead, restartRead_lookahead,
      hlookahead]
  · rw [readFirst_bashInput, readFirst_bashInput, restartRead_bashInput hbash]
  · rw [readFirst_pushed, readFirst_pushed, restartRead_pushedStringList,
      restartRead_pushedStringList, hpushed]
  · rw [readFirst_line, readFirst_line, hline]
  · intro _
    rw [readFirst_line, readFirst_line, hline]

/-- A character that is no backslash settles `unquoted_backslash`. -/
theorem lastWasBackslash_settles {s : List Byte} (h : s.all (· == backslash) = false)
    (u u' : Bool) : lastWasBackslash u s = lastWasBackslash u' s := by
  induction s generalizing u u' with
  | nil => cases h
  | cons c s ih =>
      change lastWasBackslash (!u && c == backslash) s = lastWasBackslash (!u' && c == backslash) s
      by_cases hc : (c == backslash) = true
      · rw [List.all_cons, hc, Bool.true_and] at h
        exact ih h _ _
      · rw [Bool.eq_false_iff.mpr hc, Bool.and_false, Bool.and_false]

theorem tells_cons (l : Line) (t : StringSaver) (ts : List StringSaver) :
    tells env l (t :: ts) = (t.flags != .source && l.before != [] && l.rest.all (· == backslash) &&
      (t.flags != .dparen && l.last.any env.endsWord || tells env t.popped ts)) := rfl

theorem closing_cons {t : StringSaver} {ts : List StringSaver} (h : p.pushedStringList = t :: ts) :
    p.closing env = (t.flags != .source && t.flags != .dparen && !p.endalias &&
      p.line.last.any env.endsWord && !p.unquotedAtEnd) := by
  unfold closing
  rw [h]
  rfl

theorem closing_of_endalias (h : p.endalias = true) : p.closing env = false := by
  unfold closing
  rw [h]
  simp

/-- The same line, where nothing depends on `unquoted_backslash`. -/
theorem alike_of_line (hlookahead : p.eolUngetcLookahead = p'.eolUngetcLookahead)
    (hbash : p.bashInput = p'.bashInput) (hpushed : p.pushedStringList = p'.pushedStringList)
    (hline : p.line = p'.line) (hendalias : p.endalias = p'.endalias)
    (hunquoted : adds = true → p.unquotedBackslash = p'.unquotedBackslash ∨
      tells env p.line p.pushedStringList = false) : Alike env adds p p' where
  lookahead := hlookahead
  bashInput := hbash
  pushed := hpushed
  rest := congrArg Line.rest hline
  eof _ _ _ := congrArg Line.eof hline
  closing hadds t ts hcons hsource := by
    have hsame (h : p.unquotedAtEnd = p'.unquotedAtEnd) : p.closing env = p'.closing env ∧
        (p.unquotedAtEnd = p'.unquotedAtEnd ∨ tells env t.popped ts = false) := by
      refine ⟨?_, .inl h⟩
      rw [closing_cons hcons, closing_cons (hpushed ▸ hcons), h, hendalias, hline]
    by_cases hbefore : p.line.before = []
    · refine hsame ?_
      unfold unquotedAtEnd
      rw [← hline, hbefore]
      rfl
    · rcases hunquoted hadds with hunquoted | htells
      · refine hsame ?_
        unfold unquotedAtEnd
        rw [hunquoted, hline]
      · cases hall : p.line.rest.all (· == backslash) with
        | false =>
            refine hsame ?_
            unfold unquotedAtEnd
            rw [← hline]
            exact lastWasBackslash_settles hall _ _
        | true =>
            rw [hcons, tells_cons, hall, bne_iff_ne.mpr hsource, bne_iff_ne.mpr hbefore,
              Bool.true_and, Bool.true_and, Bool.true_and, Bool.or_eq_false_iff] at htells
            refine ⟨?_, .inr htells.2⟩
            rw [closing_cons hcons, closing_cons (hpushed ▸ hcons), ← hline, bne_iff_ne.mpr hsource,
              Bool.true_and]
            -- at such an end no blank is added
            rcases Bool.and_eq_false_iff.mp htells.1 with hflags | hlast
            · rw [hflags]
              simp
            · rw [hlast]
              simp

theorem unquotedAtEnd_nil (h : p.line.rest = []) :
    p.unquotedAtEnd = p.startChar.unquotedBackslash := by
  unfold unquotedAtEnd
  rw [h, startChar_unquotedBackslash]
  rfl

/-- The end of the line is reached in both, with nothing to pop. -/
theorem Alike.test_nul (h : Alike env adds p p') (hline : p.line.eof = p'.line.eof) :
    (getcFrom env false ctx (.test none) false p).1 =
        (getcFrom env false ctx (.test none) false p').1 ∧
      Alike env adds (getcFrom env false ctx (.test none) false p).2
        (getcFrom env false ctx (.test none) false p').2 := by
  have hreads : p.ReadsOn ↔ p'.ReadsOn := by
    unfold ReadsOn
    rw [h.bashInput, h.pushed]
  rw [Parser.test_nul, Parser.test_nul, ← hline]
  by_cases heof : p.line.eof = true
  · rw [if_pos heof, if_pos heof]
    exact ⟨rfl, h⟩
  rw [if_neg heof, if_neg heof]
  by_cases hreadsOn : p.ReadsOn
  · rw [if_pos hreadsOn, if_pos (hreads.mp hreadsOn)]
    exact restartRead_alike hreadsOn.bottom h.lookahead h.bashInput h.pushed false
  · rw [if_neg hreadsOn, if_neg fun hreadsOn' => hreadsOn (hreads.mpr hreadsOn')]
    exact ⟨rfl, h⟩

theorem startChar_unquotedAtEnd : p.startChar.unquotedAtEnd = p.unquotedAtEnd := by
  unfold unquotedAtEnd
  rw [startChar_unquotedBackslash, startChar_line, Bool.and_self_left]

theorem startChar_closing : p.startChar.closing env = p.closing env := by
  unfold closing
  rw [startChar_unquotedAtEnd, startChar_pushedStringList, startChar_endalias, startChar_line]

theorem Alike.startChar (h : Alike env adds p p') : Alike env adds p.startChar p'.startChar where
  lookahead := startChar_lookahead.trans (h.lookahead.trans startChar_lookahead.symm)
  bashInput := p.startChar_bashInput.trans (h.bashInput.trans p'.startChar_bashInput.symm)
  pushed := p.startChar_pushedStringList.trans (h.pushed.trans p'.startChar_pushedStringList.symm)
  rest := by rw [startChar_line, startChar_line, h.rest]
  eof t ht hsource := by
    rw [startChar_line, startChar_line]
    exact h.eof t (p.startChar_pushedStringList ▸ ht) hsource
  closing hadds t ts hpushed hsource := by
    rw [startChar_closing, startChar_closing, startChar_unquotedAtEnd, startChar_unquotedAtEnd]
    exact h.closing hadds t ts (p.startChar_pushedStringList.symm.trans hpushed) hsource

/-- No call tells two such states apart. -/
theorem Alike.getc (h : Alike env adds p p') (ctx : Context) (hctx : ctx.adds = true → adds = true) :
    (p.getc env ctx).1 = (p'.getc env ctx).1 ∧ Alike env adds (p.getc env ctx).2 (p'.getc env ctx).2 := by
  cases hlookahead : p.eolUngetcLookahead with
  | some g =>
      rw [getc_lookahead hlookahead, getc_lookahead (h.lookahead ▸ hlookahead)]
      exact ⟨rfl, ⟨rfl, h.bashInput, h.pushed, h.rest, h.eof, h.closing⟩⟩
  | none =>
      have hlookahead' : p'.eolUngetcLookahead = none := h.lookahead ▸ hlookahead
      cases hrest : p.line.rest with
      | cons c r =>
          rw [getc_cons hlookahead hrest, getc_cons hlookahead' (h.rest ▸ hrest)]
          exact ⟨rfl, h.readChar hrest⟩
      | nil =>
          have hrest' : p'.line.rest = [] := h.rest ▸ hrest
          cases hpushed : p.pushedStringList with
          | nil =>
              have hpushed' : p'.pushedStringList = [] := h.pushed ▸ hpushed
              have hbottom : p.Bottom := by
                unfold Bottom
                rw [hpushed]
                nofun
              rw [getc_line hlookahead hrest hpushed, getc_line hlookahead' hrest' hpushed']
              exact restartRead_alike hbottom h.lookahead h.bashInput h.pushed false
          | cons t ts =>
              have hpushed' : p'.pushedStringList = t :: ts := h.pushed ▸ hpushed
              by_cases hsource : t.flags = .source
              · rw [getc_source hlookahead hrest hpushed hsource,
                  getc_source hlookahead' hrest' hpushed' hsource]
                refine h.startChar.test_nul ?_
                rw [startChar_line, startChar_line]
                exact h.eof t (by rw [hpushed]; rfl) hsource
              · have hstart := h.startChar
                have hclosing : (ctx.adds && p.closing env) = (ctx.adds && p'.closing env) := by
                  cases hadds : ctx.adds with
                  | false => rfl
                  | true => rw [(h.closing (hctx hadds) t ts hpushed hsource).1]
                rw [getc_pushed hlookahead hrest hpushed hsource,
                  getc_pushed hlookahead' hrest' hpushed' hsource, startChar_addsBlank hrest,
                  startChar_addsBlank hrest', hclosing]
                split_ifs with hblank
                · -- no other blank is added behind this one
                  refine ⟨rfl, hstart.lookahead, hstart.bashInput, hstart.pushed, hstart.rest,
                    hstart.eof, fun hadds s ss hcons hs => ⟨?_, (hstart.closing hadds s ss hcons hs).2⟩⟩
                  rw [closing_of_endalias rfl, closing_of_endalias rfl]
                · have hpop {l : Line} (hl : l = t.popped) : Alike env adds
                      { p.pop t ts with line := l } { p'.pop t ts with line := l } := by
                    refine alike_of_line hstart.lookahead hstart.bashInput rfl rfl rfl fun hadds => ?_
                    have hunquoted := (h.closing hadds t ts hpushed hsource).2
                    rw [unquotedAtEnd_nil hrest, unquotedAtEnd_nil hrest'] at hunquoted
                    exact hl ▸ hunquoted
                  cases hsaved : t.savedLine.rest with
                  | cons c r => exact ⟨rfl, hpop rfl⟩
                  | nil => exact (hpop (advance_nil hsaved).symm).test_nul rfl

/-! ## Sequences of calls -/

variable (env)

/-- What a sequence of calls returns. -/
def gets : List Context → Parser → List Got
  | [], _ => []
  | ctx :: ctxs, p => (p.getc env ctx).1 :: gets ctxs (p.getc env ctx).2

/-- No sequence of calls tells the states apart. -/
def Same (p p' : Parser) : Prop := ∀ ctxs, gets env ctxs p = gets env ctxs p'

/-- What the last of `n + 1` such calls returns. -/
def nth : ℕ → Parser → Got
  | 0, p => (p.getc env Context.quiet).1
  | n + 1, p => nth n (p.getc env Context.quiet).2

variable {env}

theorem Alike.same (h : Alike env true p p') : Same env p p' := by
  intro ctxs
  induction ctxs generalizing p p' with
  | nil => rfl
  | cons ctx ctxs ih =>
      obtain ⟨hgot, hnext⟩ := h.getc ctx fun _ => rfl
      exact congrArg₂ List.cons hgot (ih hnext)

theorem Alike.nth (h : Alike env false p p') (n : ℕ) : nth env n p = nth env n p' := by
  induction n generalizing p p' with
  | zero => exact (h.getc Context.quiet nofun).1
  | succ n ih => exact ih (h.getc Context.quiet nofun).2

theorem Same.getc (h : Same env p p') (ctx : Context) :
    (p.getc env ctx).1 = (p'.getc env ctx).1 ∧ Same env (p.getc env ctx).2 (p'.getc env ctx).2 :=
  ⟨(List.cons.inj (h [ctx])).1, fun ctxs => (List.cons.inj (h (ctx :: ctxs))).2⟩

theorem Same.symm (h : Same env p p') : Same env p' p := fun ctxs => (h ctxs).symm

theorem Same.nth (h : Same env p p') (n : ℕ) : nth env n p = nth env n p' := by
  induction n generalizing p p' with
  | zero => exact (h.getc Context.quiet).1
  | succ n ih => exact ih (h.getc Context.quiet).2

/-! ## The sequence ends -/

theorem restartRead_rest (q last : Bool) (h : p.bashInput.chars ≠ []) :
    (p.restartRead env q last).1.line.rest ≠ [] := by
  unfold Parser.restartRead
  dsimp only
  split
  · rename_i hmissing
    cases hchars : p.bashInput.chars with
    | nil => exact absurd hchars h
    | cons c s =>
        rw [hchars] at hmissing
        unfold readChars at hmissing
        split at hmissing
        · exact absurd hmissing.1 Bool.false_ne_true
        · exact absurd hmissing.2 (List.cons_ne_nil _ _)
  · exact fun hnil => absurd (List.append_eq_nil_iff.mp hnil).2 (List.cons_ne_nil _ _)

theorem firstGot_restartRead (q last : Bool) (h : p.bashInput.chars ≠ []) :
    ∃ c, (p.restartRead env q last).1.firstGot = .char c := by
  unfold firstGot
  split
  · exact ⟨_, rfl⟩
  · rename_i hrest
    exact absurd hrest (restartRead_rest q last h)

theorem restartRead_chars_lt (q last : Bool) (h : p.bashInput.chars ≠ []) :
    (p.restartRead env q last).1.readFirst.bashInput.chars.length < p.bashInput.chars.length := by
  rw [readFirst_bashInput]
  unfold Parser.restartRead
  dsimp only
  split
  · exact readChars_length_lt h
  · exact readChars_length_lt h

/-- There is an end to what is returned where no blank is added. -/
theorem exists_not_char (env : Env) (p : Parser) (hlookahead : p.eolUngetcLookahead = none) :
    ∃ n, ∀ c, nth env n p ≠ .char c := by
  induction hn : p.bashInput.chars.length using Nat.strong_induction_on generalizing p with
  | _ n ihn =>
  induction hk : p.pushedStringList.length using Nat.strong_induction_on generalizing p with
  | _ k ihk =>
  induction hr : p.line.rest.length using Nat.strong_induction_on generalizing p with
  | _ r ihr =>
      -- the result is no character, or there is less to read behind it
      have hnext (h : (∀ c, (p.getc env Context.quiet).1 ≠ .char c) ∨
          ∃ n, ∀ c, nth env n (p.getc env Context.quiet).2 ≠ .char c) :
          ∃ n, ∀ c, nth env n p ≠ .char c := by
        rcases h with hgot | ⟨n, h⟩
        · exact ⟨0, hgot⟩
        · exact ⟨n + 1, h⟩
      -- a line is read, if there is one
      have hline {q : Parser} (hq : q.bashInput = p.bashInput) (hql : q.eolUngetcLookahead = none)
          (hgetc : p.getc env Context.quiet =
            ((q.restartRead env false false).1.firstGot,
              (q.restartRead env false false).1.readFirst))
          (hchars : p.bashInput.chars ≠ []) :
          ∃ n, ∀ c, nth env n (p.getc env Context.quiet).2 ≠ .char c := by
        have hlt := @restartRead_chars_lt env q false false (hq ▸ hchars)
        rw [hq, hn] at hlt
        rw [hgetc]
        refine ihn _ hlt _ ?_ rfl
        rw [readFirst_lookahead, restartRead_lookahead, hql]
      -- the end of a line
      have htest {q : Parser} (hq : q.bashInput = p.bashInput) (hql : q.eolUngetcLookahead = none)
          (hgetc : p.getc env Context.quiet =
            getcFrom env false Context.quiet (.test none) false q) :
          ∃ n, ∀ c, nth env n p ≠ .char c := by
        rw [test_nul] at hgetc
        split_ifs at hgetc with heof hreads
        · exact hnext (.inl fun c => by rw [hgetc]; nofun)
        · exact hnext (.inr (hline hq hql hgetc (hq ▸ hreads.2.1)))
        · exact hnext (.inl fun c => by rw [hgetc]; nofun)
      cases hrest : p.line.rest with
      | cons c rest =>
          have hgetc := @getc_cons env Context.quiet _ hlookahead _ _ hrest
          refine hnext (.inr ?_)
          rw [hgetc]
          refine ihr rest.length ?_ _ (startChar_lookahead.trans hlookahead) ?_ ?_ ?_
          · rw [hrest] at hr
            exact hr ▸ Nat.lt_succ_self _
          · rw [← hn]
            exact congrArg (List.length ∘ BashInput.chars) p.startChar_bashInput
          · rw [← hk]
            exact congrArg List.length p.startChar_pushedStringList
          · change p.startChar.line.advance.rest.length = _
            rw [startChar_line, Line.advance_rest, hrest]
            rfl
      | nil =>
          cases hpushed : p.pushedStringList with
          | nil =>
              have hgetc := @getc_line env Context.quiet _ hlookahead hrest hpushed
              by_cases hchars : p.bashInput.chars = []
              · refine hnext (.inl fun c => ?_)
                rw [hgetc]
                unfold firstGot Parser.restartRead
                rw [hchars]
                nofun
              · exact hnext (.inr (hline rfl hlookahead hgetc hchars))
          | cons t ts =>
              by_cases hsource : t.flags = .source
              · exact htest p.startChar_bashInput (startChar_lookahead.trans hlookahead)
                  (getc_source hlookahead hrest hpushed hsource)
              · have hgetc := @getc_pushed env Context.quiet _ hlookahead hrest _ _
                  hpushed hsource
                rw [startChar_addsBlank hrest, show Context.quiet.adds = false from rfl,
                  Bool.false_and, if_neg Bool.false_ne_true] at hgetc
                cases hsaved : t.savedLine.rest with
                | cons c rest =>
                    rw [hsaved] at hgetc
                    refine hnext (.inr ?_)
                    rw [hgetc]
                    refine ihk ts.length ?_ _ (startChar_lookahead.trans hlookahead) ?_ rfl
                    · rw [hpushed] at hk
                      exact hk ▸ Nat.lt_succ_self _
                    · rw [← hn]
                      exact congrArg (List.length ∘ BashInput.chars) p.startChar_bashInput
                | nil =>
                    rw [hsaved] at hgetc
                    exact htest (q := p.pop t ts) p.startChar_bashInput
                      (startChar_lookahead.trans hlookahead) hgetc

/-! ## States that are told apart -/

theorem getc_source_eof (hlookahead : p.eolUngetcLookahead = none) (hrest : p.line.rest = [])
    {t : StringSaver} {ts : List StringSaver} (hpushed : p.pushedStringList = t :: ts)
    (hsource : t.flags = .source) : (p.getc env ctx).1 = .eof ↔ p.line.eof = true := by
  rw [getc_source hlookahead hrest hpushed hsource, test_nul, startChar_line]
  split_ifs with heof hreads
  · exact ⟨fun _ => heof, fun _ => rfl⟩
  · obtain ⟨c, hc⟩ := @firstGot_restartRead env _ false false hreads.2.1
    refine ⟨fun h => ?_, fun h => absurd h heof⟩
    rw [hc] at h
    cases h
  · exact ⟨nofun, fun h => absurd h heof⟩

theorem eof_of_rest {l : Line} (h : l.rest ≠ []) : l.eof = false := by
  cases heof : l.eof with
  | false => rfl
  | true => exact absurd (l.empty_of_eof heof).2 h

theorem lastWasBackslash_all {s : List Byte} (h : s.all (· == backslash) = true) {u u' : Bool}
    (hu : u ≠ u') : lastWasBackslash u s ≠ lastWasBackslash u' s := by
  induction s generalizing u u' with
  | nil => exact hu
  | cons c s ih =>
      rw [List.all_cons, Bool.and_eq_true] at h
      refine ih h.2 ?_
      change (!u && c == backslash) ≠ (!u' && c == backslash)
      rw [h.1, Bool.and_true, Bool.and_true]
      exact fun heq => hu (Bool.not_inj heq)

theorem tells_of_alike (h : Alike env true p p') (hline : p.line = p'.line)
    (hendalias : p.endalias = false) (hendalias' : p'.endalias = false)
    (hu : p.unquotedBackslash ≠ p'.unquotedBackslash) :
    tells env p.line p.pushedStringList = false := by
  cases hpushed : p.pushedStringList with
  | nil => rfl
  | cons t ts =>
      rw [tells_cons]
      by_cases hsource : t.flags = .source
      · rw [hsource]
        rfl
      by_cases hbefore : p.line.before = []
      · rw [hbefore]
        simp
      cases hall : p.line.rest.all (· == backslash) with
      | false => simp
      | true =>
          obtain ⟨hclosing, hunquoted⟩ := h.closing rfl t ts hpushed hsource
          have hne : p.unquotedAtEnd ≠ p'.unquotedAtEnd := by
            unfold unquotedAtEnd
            rw [← hline, bne_iff_ne.mpr hbefore, Bool.true_and, Bool.true_and]
            exact lastWasBackslash_all hall hu
          rw [hunquoted.resolve_left hne]
          -- the blank would be added in one of the two only
          have hends : (t.flags != .dparen && p.line.last.any env.endsWord) = false := by
            rw [closing_cons hpushed, closing_cons (h.pushed ▸ hpushed), ← hline, hendalias,
              hendalias', bne_iff_ne.mpr hsource] at hclosing
            cases hend : (t.flags != .dparen && p.line.last.any env.endsWord) with
            | false => rfl
            | true =>
                rw [Bool.and_eq_true] at hend
                rw [hend.1, hend.2] at hclosing
                exact absurd (Bool.not_inj hclosing) hne
          rw [hends]
          simp

/-- A blank that is added in one of two states only. -/
theorem not_same_of_closing (hlookahead : p.eolUngetcLookahead = none)
    (hlookahead' : p'.eolUngetcLookahead = none) (hbash : p.bashInput = p'.bashInput)
    {t : StringSaver} {ts : List StringSaver} (hpushed : p.pushedStringList = t :: ts)
    (hpushed' : p'.pushedStringList = t :: ts) (hsource : t.flags ≠ .source)
    (hrest : p.line.rest = []) (hrest' : p'.line.rest = []) (hclosing : p.closing env = true)
    (hclosing' : p'.closing env = false) : ¬ Same env p p' := by
  intro h
  let adding : Context := { comment := false, heredocString := false, quoted := false }
  have hadd : p.getc env adding = (.char blank, { p.startChar with endalias := true }) := by
    rw [getc_pushed hlookahead hrest hpushed hsource, startChar_addsBlank hrest, hclosing]
    exact if_pos rfl
  have hpop : p'.getc env adding = p'.getc env Context.quiet := by
    rw [getc_pushed hlookahead' hrest' hpushed' hsource,
      getc_pushed hlookahead' hrest' hpushed' hsource, startChar_addsBlank hrest',
      startChar_addsBlank hrest', hclosing', Bool.and_false, Bool.and_false,
      if_neg Bool.false_ne_true, if_neg Bool.false_ne_true]
    cases t.savedLine.rest with
    | cons c r => rfl
    | nil => exact (test_nul false).trans (test_nul false).symm
  obtain ⟨hgot, hnext⟩ := h.getc adding
  rw [hadd, hpop] at hgot hnext
  have halike : Alike env false { p.startChar with endalias := true } p' :=
    { lookahead := startChar_lookahead.trans (hlookahead.trans hlookahead'.symm)
      bashInput := p.startChar_bashInput.trans hbash
      pushed := p.startChar_pushedStringList.trans (hpushed.trans hpushed'.symm)
      rest := by
        change p.startChar.line.rest = _
        rw [startChar_line, hrest, hrest']
      eof := fun s hs hflags => by
        change s ∈ p.startChar.pushedStringList.head? at hs
        rw [startChar_pushedStringList, hpushed] at hs
        cases hs
        exact absurd hflags hsource
      closing := nofun }
  have hblank (n : ℕ) : nth env n p' = .char blank := by
    induction n with
    | zero => exact hgot.symm
    | succ n ih => exact (hnext.nth n).symm.trans ((halike.nth n).trans ih)
  obtain ⟨n, hn⟩ := exists_not_char env p' hlookahead'
  exact hn blank (hblank n)

/-- The end of a pushed string, for states that no sequence of calls tells apart. -/
theorem closing_of_same {t : StringSaver} {ts : List StringSaver} (hsource : t.flags ≠ .source)
    (ih : ∀ {q q' : Parser}, q.eolUngetcLookahead = none → q'.eolUngetcLookahead = none →
      q.bashInput = q'.bashInput → q.pushedStringList = q'.pushedStringList →
      q.line.rest = q'.line.rest → Same env q q' → q.pushedStringList = ts → Alike env true q q')
    {r : List Byte} (hlookahead : p.eolUngetcLookahead = none)
    (hlookahead' : p'.eolUngetcLookahead = none) (hbash : p.bashInput = p'.bashInput)
    (hpushed : p.pushedStringList = t :: ts) (hpushed' : p'.pushedStringList = t :: ts)
    (hrest : p.line.rest = r) (hrest' : p'.line.rest = r) (h : Same env p p') :
    p.closing env = p'.closing env ∧
      (p.unquotedAtEnd = p'.unquotedAtEnd ∨ tells env t.popped ts = false) := by
  induction r generalizing p p' with
  | cons c r ihr =>
      have hnext := (h.getc Context.quiet).2
      rw [getc_cons hlookahead hrest, getc_cons hlookahead' hrest'] at hnext
      have hclosing := @ihr (p.startChar.readChar c) (p'.startChar.readChar c)
        (startChar_lookahead.trans hlookahead) (startChar_lookahead.trans hlookahead')
        (p.startChar_bashInput.trans (hbash.trans p'.startChar_bashInput.symm))
        (p.startChar_pushedStringList.trans hpushed) (p'.startChar_pushedStringList.trans hpushed')
        (readChar_rest hrest) (readChar_rest hrest') hnext
      rwa [closing_readChar hrest, closing_readChar hrest', unquotedAtEnd_readChar hrest,
        unquotedAtEnd_readChar hrest'] at hclosing
  | nil =>
      have hclosing : p.closing env = p'.closing env := by
        cases hp : p.closing env with
        | true =>
            cases hp' : p'.closing env with
            | true => rfl
            | false =>
                exact absurd h (not_same_of_closing hlookahead hlookahead' hbash hpushed hpushed'
                  hsource hrest hrest' hp hp')
        | false =>
            cases hp' : p'.closing env with
            | false => rfl
            | true =>
                exact absurd h.symm (not_same_of_closing hlookahead' hlookahead hbash.symm hpushed'
                  hpushed hsource hrest' hrest hp' hp)
      refine ⟨hclosing, ?_⟩
      by_cases hu : p.unquotedAtEnd = p'.unquotedAtEnd
      · exact .inl hu
      refine .inr ?_
      rw [unquotedAtEnd_nil hrest, unquotedAtEnd_nil hrest'] at hu
      -- the string is popped in both, with `unquoted_backslash` as it is
      have hnext := (h.getc Context.quiet).2
      rw [getc_pushed hlookahead hrest hpushed hsource,
        getc_pushed hlookahead' hrest' hpushed' hsource, startChar_addsBlank hrest,
        startChar_addsBlank hrest', show Context.quiet.adds = false from rfl, Bool.false_and,
        Bool.false_and, if_neg Bool.false_ne_true, if_neg Bool.false_ne_true] at hnext
      have hpop {l : Line} (hl : l = t.popped)
          (hsame : Same env { p.pop t ts with line := l } { p'.pop t ts with line := l }) :
          tells env t.popped ts = false := by
        have halike := @ih { p.pop t ts with line := l } { p'.pop t ts with line := l }
          (startChar_lookahead.trans hlookahead) (startChar_lookahead.trans hlookahead')
          (p.startChar_bashInput.trans (hbash.trans p'.startChar_bashInput.symm)) rfl rfl hsame rfl
        exact hl ▸ tells_of_alike halike rfl rfl rfl hu
      cases hsaved : t.savedLine.rest with
      | cons c r =>
          rw [hsaved] at hnext
          exact hpop rfl hnext
      | nil =>
          rw [hsaved] at hnext
          dsimp only at hnext
          have hreads : (p.pop t ts).ReadsOn ↔ (p'.pop t ts).ReadsOn := by
            unfold ReadsOn
            rw [show (p.pop t ts).bashInput = (p'.pop t ts).bashInput from
              p.startChar_bashInput.trans (hbash.trans p'.startChar_bashInput.symm)]
            rfl
          rw [test_nul, test_nul] at hnext
          by_cases heof : t.savedLine.eof = true
          · rw [if_pos (show (p.pop t ts).line.eof = true from heof),
              if_pos (show (p'.pop t ts).line.eof = true from heof)] at hnext
            exact hpop (advance_nil hsaved).symm hnext
          rw [if_neg (show ¬ (p.pop t ts).line.eof = true from heof),
            if_neg (show ¬ (p'.pop t ts).line.eof = true from heof)] at hnext
          by_cases hreadsOn : (p.pop t ts).ReadsOn
          · -- the string below is a `source`
            cases hts : ts with
            | nil => rfl
            | cons t' ts' =>
                have hflags := hreadsOn.bottom t' (by
                  change t' ∈ ts.head?
                  rw [hts]
                  rfl)
                rw [tells_cons, hflags]
                rfl
          · rw [if_neg hreadsOn, if_neg fun hreadsOn' => hreadsOn (hreads.mpr hreadsOn')] at hnext
            exact hpop (advance_nil hsaved).symm hnext

/-- Two states at the same place that no sequence of calls tells apart are alike. -/
theorem alike_of_same (hlookahead : p.eolUngetcLookahead = none)
    (hlookahead' : p'.eolUngetcLookahead = none) (hbash : p.bashInput = p'.bashInput)
    (hpushed : p.pushedStringList = p'.pushedStringList) (hrest : p.line.rest = p'.line.rest)
    (h : Same env p p') : Alike env true p p' := by
  induction hstack : p.pushedStringList generalizing p p' with
  | nil =>
      refine alike_of_bottom ?_ (hlookahead.trans hlookahead'.symm) hbash hpushed hrest
        fun hne => absurd hstack hne
      unfold Bottom
      rw [hstack]
      nofun
  | cons t ts ih =>
      have hstack' : p'.pushedStringList = t :: ts := hpushed ▸ hstack
      by_cases hsource : t.flags = .source
      · refine alike_of_bottom ?_ (hlookahead.trans hlookahead'.symm) hbash hpushed hrest fun _ => ?_
        · unfold Bottom
          rw [hstack]
          intro s hs
          cases hs
          exact hsource
        · by_cases hnil : p.line.rest = []
          · have hgot := (h.getc Context.quiet).1
            have heof := @getc_source_eof env Context.quiet _ hlookahead hnil _ _ hstack
              hsource
            have heof' := @getc_source_eof env Context.quiet _ hlookahead'
              (hrest ▸ hnil) _ _ hstack' hsource
            rw [Bool.eq_iff_iff, ← heof, ← heof', hgot]
          · rw [eof_of_rest hnil, eof_of_rest (hrest ▸ hnil)]
      · refine ⟨hlookahead.trans hlookahead'.symm, hbash, hpushed, hrest, ?_, ?_⟩
        · intro s hs hflags
          rw [hstack] at hs
          cases hs
          exact absurd hflags hsource
        · intro _ s ss hcons _
          rw [hstack] at hcons
          cases hcons
          exact closing_of_same hsource (fun hl hl' hb hp hr hsame hts => ih hl hl' hb hp hr hsame hts)
            hlookahead hlookahead' hbash hstack hstack' rfl hrest.symm h

end Parser

end ParserInput

end Rash
