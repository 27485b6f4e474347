import Rash.Input.InputStates

/-!
# Strings that are pushed back

`shell_ungets` overwrites a line that has been read, backs up in it, pushes a string in front of
it, or writes over the part that has not been read.
-/

namespace Rash

namespace ParserInput

namespace Parser

variable {env : Env} {p p' : Parser}

/-! ## Reading several characters -/

/-- The state behind the characters of a string. -/
def readMany (s : List Byte) (p : Parser) : Parser :=
  s.foldl (fun p c => p.startChar.readChar c) p

/-- What the state keeps when characters of the line are read. -/
structure Reads (env : Env) (r : List Byte) (p p' : Parser) : Prop where
  lookahead : p'.eolUngetcLookahead = none
  rest : p'.line.rest = r
  bashInput : p'.bashInput = p.bashInput
  pushed : p'.pushedStringList = p.pushedStringList
  eof : p'.line.eof = p.line.eof
  closing : p'.closing env = p.closing env
  unquotedAtEnd : p'.unquotedAtEnd = p.unquotedAtEnd

theorem reads_readMany {s r : List Byte} (hlookahead : p.eolUngetcLookahead = none)
    (h : p.line.rest = s ++ r) : Reads env r p (p.readMany s) := by
  induction s generalizing p with
  | nil => exact ⟨hlookahead, h, rfl, rfl, rfl, rfl, rfl⟩
  | cons c s ih =>
      have hread := @ih (p.startChar.readChar c) (startChar_lookahead.trans hlookahead)
        (readChar_rest h)
      refine ⟨hread.lookahead, hread.rest, hread.bashInput.trans p.startChar_bashInput,
        hread.pushed.trans p.startChar_pushedStringList, hread.eof.trans ?_,
        hread.closing.trans (closing_readChar h), hread.unquotedAtEnd.trans (unquotedAtEnd_readChar h)⟩
      change p.startChar.line.advance.eof = _
      rw [startChar_line, advance_eof]

theorem gets_readMany {s r : List Byte} {before : List Context}
    (hlookahead : p.eolUngetcLookahead = none) (h : p.line.rest = s ++ r)
    (hlen : before.length = s.length) (after : List Context) :
    gets env (before ++ after) p = s.map .char ++ gets env after (p.readMany s) := by
  induction s generalizing p before with
  | nil =>
      rw [List.eq_nil_of_length_eq_zero hlen]
      rfl
  | cons c s ih =>
      cases before with
      | nil => cases hlen
      | cons ctx before =>
          have hgetc := @getc_cons env ctx _ hlookahead _ _ h
          change (p.getc env ctx).1 :: gets env (before ++ after) (p.getc env ctx).2 = _
          rw [hgetc]
          exact congrArg (Got.char c :: ·) (ih (startChar_lookahead.trans hlookahead)
            (readChar_rest h) (Nat.succ.inj hlen))

theorem nth_readMany {s r : List Byte} (hlookahead : p.eolUngetcLookahead = none)
    (h : p.line.rest = s ++ r) (n : ℕ) :
    nth env (s.length + n) p = nth env n (p.readMany s) ∧
      (n < s.length → ∃ c, nth env n p = .char c) := by
  induction s generalizing p n with
  | nil => exact ⟨by rw [List.length_nil, Nat.zero_add]; rfl, fun h => absurd h (Nat.not_lt_zero n)⟩
  | cons c s ih =>
      have hgetc := @getc_cons env Context.quiet _ hlookahead _ _ h
      have hread := fun n => @ih (p.startChar.readChar c) (startChar_lookahead.trans hlookahead)
        (readChar_rest h) n
      refine ⟨?_, fun hlt => ?_⟩
      · rw [List.length_cons, Nat.add_right_comm]
        change nth env (s.length + n) (p.getc env Context.quiet).2 = _
        rw [hgetc]
        exact (hread n).1
      · cases n with
        | zero => exact ⟨c, congrArg Prod.fst hgetc⟩
        | succ n =>
            change ∃ d, nth env n (p.getc env Context.quiet).2 = .char d
            rw [hgetc]
            exact (hread n).2 (Nat.lt_of_succ_lt_succ hlt)

/-! ## What is read after a string is pushed back -/

/-- The string is read next, and then what would have been read without it. -/
def PushedBack (env : Env) (p : Parser) (s : List Byte) : Prop :=
  ∀ before after : List Context, before.length = s.length →
    gets env (before ++ after) (p.shellUngets s) = s.map .char ++ gets env after p

/-- At the end of a pushed string a blank is added as it would have been, and
`unquoted_backslash` is the same or makes no difference. -/
def KeepsEnd (env : Env) (p : Parser) (endalias : Bool) (last : Option Byte) (unquoted : Bool) : Prop :=
  ∀ t ts, p.pushedStringList = t :: ts → t.flags ≠ .source →
    (t.flags != .dparen && !endalias && last.any env.endsWord && !unquoted) = p.closing env ∧
      (unquoted = p.unquotedAtEnd ∨ tells env t.popped ts = false)

/-- Nothing that has not been read is written over, and the ends of the pushed strings stay as
they are. -/
def Harmless (env : Env) (p : Parser) (s : List Byte) : Prop :=
  (∀ g, p.eolUngetcLookahead = some g → ∀ x ∈ s, .char x = g) ∧
    if p.line.rest = [] then
      (∀ t ∈ p.pushedStringList.head?, t.flags = .source → p.line.eof = false) ∧
        KeepsEnd env p p.endalias s.getLast? (lastWasBackslash false s)
    else if s.length ≤ p.line.index then
      KeepsEnd env p p.endalias p.line.last
        (lastWasBackslash (decide (s.length < p.line.index) && p.unquotedBackslash)
          (s ++ p.line.rest))
    else s.getLast? = some newline ∧
      KeepsEnd env p false p.line.last (lastWasBackslash false p.line.rest.tail)

/-! ## Without a character that waits -/

section

variable (hlookahead : p.eolUngetcLookahead = none)

theorem shellUngets_lookahead (s : List Byte) :
    (p.shellUngets s).eolUngetcLookahead = p.eolUngetcLookahead := by
  unfold shellUngets
  split_ifs <;> rfl

include hlookahead

theorem pushedBack_iff_same {s r : List Byte} (h : (p.shellUngets s).line.rest = s ++ r) :
    PushedBack env p s ↔ Same env ((p.shellUngets s).readMany s) p := by
  have hreads (before after : List Context) (hlen : before.length = s.length) :=
    @gets_readMany env _ _ _ _ ((shellUngets_lookahead s).trans hlookahead) h hlen after
  refine ⟨fun hback after => ?_, fun hsame before after hlen => ?_⟩
  · have hlen : (List.replicate s.length Context.quiet).length = s.length := List.length_replicate
    exact List.append_cancel_left ((hreads _ after hlen).symm.trans (hback _ after hlen))
  · rw [hreads before after hlen, hsame after]

/-- A state at the same place is alike where the ends of the pushed strings are. -/
theorem same_iff_keepsEnd {q q' : Parser} (hread : Reads env p.line.rest q q')
    (hbash : q.bashInput = p.bashInput) (hpushed : q.pushedStringList = p.pushedStringList)
    (heof : ∀ t ∈ p.pushedStringList.head?, t.flags = .source → q.line.eof = p.line.eof) :
    Same env q' p ↔ KeepsEnd env p q.endalias q.line.last q.unquotedAtEnd := by
  have hclosing {t : StringSaver} {ts : List StringSaver} (hcons : p.pushedStringList = t :: ts)
      (hsource : t.flags ≠ .source) : q'.closing env =
        (t.flags != .dparen && !q.endalias && q.line.last.any env.endsWord && !q.unquotedAtEnd) := by
    rw [hread.closing, closing_cons (hpushed.trans hcons), bne_iff_ne.mpr hsource, Bool.true_and]
  constructor
  · intro hsame t ts hcons hsource
    have halike := alike_of_same hread.lookahead hlookahead (hread.bashInput.trans hbash)
      (hread.pushed.trans hpushed) hread.rest hsame
    have hend := halike.closing rfl t ts ((hread.pushed.trans hpushed).trans hcons) hsource
    rwa [hclosing hcons hsource, hread.unquotedAtEnd] at hend
  · intro hend
    refine Alike.same ⟨hread.lookahead.trans hlookahead.symm, hread.bashInput.trans hbash,
      hread.pushed.trans hpushed, hread.rest, ?_, ?_⟩
    · intro t ht hsource
      rw [hread.eof]
      exact heof t (hread.pushed.trans hpushed ▸ ht) hsource
    · intro _ t ts hcons hsource
      have hcons' := (hread.pushed.trans hpushed).symm.trans hcons
      rw [hclosing hcons' hsource, hread.unquotedAtEnd]
      exact hend t ts hcons' hsource

/-- The line has been read, and is overwritten. -/
theorem pushedBack_atEnd (s : List Byte) (hrest : p.line.rest = []) : PushedBack env p s ↔
    (∀ t ∈ p.pushedStringList.head?, t.flags = .source → p.line.eof = false) ∧
      KeepsEnd env p p.endalias s.getLast? (lastWasBackslash false s) := by
  have hungets : p.shellUngets s = { p with line := .start s } := if_pos hrest
  have hfront : (p.shellUngets s).line.rest = s ++ p.line.rest := by
    rw [hungets, hrest, List.append_nil]
    rfl
  have hread := @reads_readMany env _ _ _ ((shellUngets_lookahead s).trans hlookahead) hfront
  have hlast : (Line.start s).last = s.getLast? := Option.or_none
  rw [pushedBack_iff_same hlookahead hfront]
  rw [hungets] at hread ⊢
  by_cases heof : ∀ t ∈ p.pushedStringList.head?, t.flags = .source → p.line.eof = false
  · rw [same_iff_keepsEnd hlookahead hread rfl rfl fun t ht hsource => (heof t ht hsource).symm]
    change KeepsEnd env p p.endalias (Line.start s).last (lastWasBackslash false s) ↔ _
    rw [hlast]
    exact ⟨fun h => ⟨heof, h⟩, And.right⟩
  · refine ⟨fun hsame => absurd ?_ heof, fun h => absurd h.1 heof⟩
    have halike := alike_of_same hread.lookahead hlookahead hread.bashInput hread.pushed hread.rest
      hsame
    intro t ht hsource
    rw [← halike.eof t (by rw [hread.pushed]; exact ht) hsource, hread.eof]
    rfl

/-- There is room for the string in front of the index. -/
theorem pushedBack_backUp (s : List Byte) (hrest : p.line.rest ≠ [])
    (hlen : s.length ≤ p.line.index) : PushedBack env p s ↔
      KeepsEnd env p p.endalias p.line.last
        (lastWasBackslash (decide (s.length < p.line.index) && p.unquotedBackslash)
          (s ++ p.line.rest)) := by
  have hungets : p.shellUngets s =
      { p with
        line := { before := p.line.before.drop s.length, rest := s ++ p.line.rest, eof := false
                  empty_of_eof := fun h => absurd h Bool.false_ne_true } } := by
    unfold shellUngets
    rw [if_neg hrest, if_pos hlen]
  have hfront : (p.shellUngets s).line.rest = s ++ p.line.rest := by rw [hungets]
  have hread := @reads_readMany env _ _ _ ((shellUngets_lookahead s).trans hlookahead) hfront
  have hlast : (p.shellUngets s).line.last = p.line.last := by
    rw [hungets]
    unfold Line.last
    dsimp only
    obtain ⟨c, r, hcons⟩ := List.exists_cons_of_ne_nil hrest
    rw [List.getLast?_append, hcons, List.getLast?_cons]
    rfl
  have hunquoted : (p.shellUngets s).unquotedAtEnd =
      lastWasBackslash (decide (s.length < p.line.index) && p.unquotedBackslash)
        (s ++ p.line.rest) := by
    rw [hungets]
    unfold unquotedAtEnd
    have hdrop : (p.line.before.drop s.length != []) = decide (s.length < p.line.index) := by
      rw [Bool.eq_iff_iff, bne_iff_ne, decide_eq_true_iff, ne_eq, List.drop_eq_nil_iff, Nat.not_le]
      rfl
    dsimp only
    rw [hdrop]
  have heof : (p.shellUngets s).line.eof = p.line.eof := by
    rw [hungets, eof_of_rest hrest]
  have hpushed : (p.shellUngets s).pushedStringList = p.pushedStringList := by rw [hungets]
  have hbash : (p.shellUngets s).bashInput = p.bashInput := by rw [hungets]
  have hendalias : (p.shellUngets s).endalias = p.endalias := by rw [hungets]
  rw [pushedBack_iff_same hlookahead hfront,
    same_iff_keepsEnd hlookahead hread hbash hpushed fun _ _ _ => heof, hlast, hunquoted, hendalias]

/-- The string is pushed, and popped when it has been read. -/
theorem pushedBack_push (s : List Byte) (hrest : p.line.rest ≠ [])
    (hlen : ¬ s.length ≤ p.line.index) (hnewline : s.getLast? = some newline) :
    PushedBack env p s ↔
      KeepsEnd env p false p.line.last (lastWasBackslash false p.line.rest.tail) := by
  have hungets : p.shellUngets s = p.pushString s false none := by
    unfold shellUngets
    rw [if_neg hrest, if_neg hlen, if_pos hnewline]
  have hfront : (p.shellUngets s).line.rest = s ++ [] := by
    rw [hungets, List.append_nil]
    rfl
  have hread := @reads_readMany env _ _ _ ((shellUngets_lookahead s).trans hlookahead) hfront
  obtain ⟨c, r, hcons⟩ := List.exists_cons_of_ne_nil hrest
  obtain ⟨init, hs⟩ := List.getLast?_eq_some_iff.mp hnewline
  -- the newline keeps a blank from being added, and settles `unquoted_backslash`
  have hunquoted : (p.shellUngets s).unquotedAtEnd = false := by
    rw [hungets]
    change lastWasBackslash false s = false
    unfold lastWasBackslash
    rw [hs, List.foldl_append]
    exact Bool.and_false _
  have hclosing : (p.shellUngets s).closing env = false := by
    have hlast : (p.shellUngets s).line.last = some newline := by
      rw [hungets]
      exact (Option.or_none).trans hnewline
    unfold closing
    rw [hlast, show (some newline).any env.endsWord = false from by
      simp [Env.endsWord], Bool.and_false, Bool.false_and]
  have hpushed : (p.shellUngets s).pushedStringList =
      { savedLine := p.line, expandAlias := false, expander := none, flags := .plain } ::
        p.pushedStringList := by
    rw [hungets]
    rfl
  have hbash : (p.shellUngets s).bashInput = p.bashInput := by
    rw [hungets]
    rfl
  rw [pushedBack_iff_same hlookahead hfront]
  generalize hq : (p.shellUngets s).readMany s = q at hread ⊢
  let t : StringSaver :=
    { savedLine := p.line, expandAlias := false, expander := none, flags := .plain }
  let popped : Parser := { q.pop t p.pushedStringList with line := p.line.advance }
  have hgetc (ctx : Context) : q.getc env ctx = (.char c, popped) := by
    rw [getc_pushed hread.lookahead hread.rest (hread.pushed.trans hpushed) nofun,
      startChar_addsBlank hread.rest, hread.closing, hclosing, Bool.and_false,
      if_neg Bool.false_ne_true, hcons]
  have hsame : Same env q p ↔ Same env popped (p.startChar.readChar c) := by
    constructor
    · intro h
      have hnext := (h.getc Context.quiet).2
      rwa [hgetc, getc_cons hlookahead hcons] at hnext
    · intro h ctxs
      cases ctxs with
      | nil => rfl
      | cons ctx ctxs =>
          change (q.getc env ctx).1 :: gets env ctxs (q.getc env ctx).2 =
            (p.getc env ctx).1 :: gets env ctxs (p.getc env ctx).2
          rw [hgetc, getc_cons hlookahead hcons]
          exact congrArg (Got.char c :: ·) (h ctxs)
  have hpopped : popped.unquotedAtEnd = lastWasBackslash false p.line.rest.tail := by
    change lastWasBackslash (p.line.advance.before != [] && q.startChar.unquotedBackslash)
      p.line.advance.rest = _
    rw [← unquotedAtEnd_nil hread.rest, hread.unquotedAtEnd, hunquoted, Bool.and_false,
      Line.advance_rest]
  have hnext : (p.startChar.readChar c).eolUngetcLookahead = none :=
    startChar_lookahead.trans hlookahead
  have hline : popped.line.rest = (p.startChar.readChar c).line.rest := by
    rw [readChar_rest hcons]
    change p.line.advance.rest = r
    rw [Line.advance_rest, hcons]
    rfl
  have hreads : Reads env (p.startChar.readChar c).line.rest popped popped :=
    ⟨startChar_lookahead.trans hread.lookahead, hline, rfl, rfl, rfl, rfl, rfl⟩
  have heof : popped.line.eof = (p.startChar.readChar c).line.eof := by
    change p.line.advance.eof = p.startChar.line.advance.eof
    rw [startChar_line]
  refine hsame.trans ((same_iff_keepsEnd hnext hreads (q.startChar_bashInput.trans
    (hread.bashInput.trans (hbash.trans p.startChar_bashInput.symm)))
    p.startChar_pushedStringList.symm fun _ _ _ => heof).trans ?_)
  rw [hpopped, show popped.line.last = p.line.last from last_advance p.line]
  unfold KeepsEnd
  rw [closing_readChar hcons, unquotedAtEnd_readChar hcons]
  change (∀ t ts, p.startChar.pushedStringList = t :: ts → _) ↔ _
  rw [startChar_pushedStringList]
  rfl

/-- What has not been read is lost. -/
theorem not_pushedBack_overwrite (s : List Byte) (hrest : p.line.rest ≠ [])
    (hlen : ¬ s.length ≤ p.line.index) (hnewline : s.getLast? ≠ some newline) :
    ¬ PushedBack env p s := by
  have hungets : p.shellUngets s = { p with line := .start s } := by
    unfold shellUngets
    rw [if_neg hrest, if_neg hlen, if_neg hnewline]
  have hfront : (p.shellUngets s).line.rest = s ++ [] := by
    rw [hungets, List.append_nil]
    rfl
  have hread := @reads_readMany env _ _ _ ((shellUngets_lookahead s).trans hlookahead) hfront
  rw [pushedBack_iff_same hlookahead hfront]
  intro hsame
  -- behind the string there is what should come behind the rest of the line
  have hrestRead := @reads_readMany env _ p.line.rest [] hlookahead
    (List.append_nil _).symm
  have halike : Alike env false (p.readMany p.line.rest) ((p.shellUngets s).readMany s) := by
    refine ⟨hrestRead.lookahead.trans hread.lookahead.symm, hrestRead.bashInput.trans ?_,
      hrestRead.pushed.trans ?_, hrestRead.rest.trans hread.rest.symm, fun t _ _ => ?_, nofun⟩
    · rw [hread.bashInput, hungets]
    · rw [hread.pushed, hungets]
    · rw [hrestRead.eof, hread.eof, hungets, eof_of_rest hrest]
      rfl
  have hchar (n : ℕ) : ∃ c, nth env n p = .char c := by
    induction n using Nat.strong_induction_on with
    | _ n ih =>
        have hmany (k : ℕ) := @nth_readMany env _ p.line.rest [] hlookahead
          (List.append_nil _).symm k
        by_cases hn : n < p.line.rest.length
        · exact (hmany n).2 hn
        · obtain ⟨k, rfl⟩ := Nat.exists_eq_add_of_le (Nat.le_of_not_lt hn)
          obtain ⟨c, hc⟩ := ih k (Nat.lt_add_of_pos_left (List.length_pos_iff.mpr hrest))
          exact ⟨c, (hmany k).1.trans ((halike.nth k).trans ((hsame.nth k).trans hc))⟩
  obtain ⟨n, hn⟩ := exists_not_char env p hlookahead
  obtain ⟨c, hc⟩ := hchar n
  exact hn c hc

end

/-! ## With a character that waits -/

theorem cons_append_eq {α : Type*} (g : α) (l A B : List α) :
    g :: (l ++ A) = l ++ g :: B ↔ (∀ y ∈ l, y = g) ∧ A = B := by
  induction l with
  | nil => simp
  | cons y l ih =>
      rw [List.cons_append, List.cons_append, List.cons.injEq, List.forall_mem_cons, and_assoc, ← ih]
      constructor
      · rintro ⟨rfl, h⟩
        exact ⟨rfl, h⟩
      · rintro ⟨rfl, h⟩
        exact ⟨rfl, h⟩

/-- The calls of a shorter sequence return the same. -/
theorem take_gets (ctxs ctxs' : List Context) :
    (gets env (ctxs ++ ctxs') p).take ctxs.length = gets env ctxs p := by
  induction ctxs generalizing p with
  | nil => rfl
  | cons ctx ctxs ih => exact congrArg ((p.getc env ctx).1 :: ·) ih

theorem shellUngets_front (s : List Byte) : ∃ r, (p.shellUngets s).line.rest = s ++ r := by
  unfold shellUngets
  split_ifs
  · exact ⟨[], (List.append_nil s).symm⟩
  · exact ⟨_, rfl⟩
  · exact ⟨[], (List.append_nil s).symm⟩
  · exact ⟨[], (List.append_nil s).symm⟩

theorem gets_lookahead {g : Got} (h : p.eolUngetcLookahead = some g) (ctx : Context)
    (ctxs : List Context) :
    gets env (ctx :: ctxs) p = g :: gets env ctxs { p with eolUngetcLookahead := none } := by
  change (p.getc env ctx).1 :: gets env ctxs (p.getc env ctx).2 = _
  rw [getc_lookahead h]

theorem shellUngets_withoutLookahead (s : List Byte) :
    { p.shellUngets s with eolUngetcLookahead := none } =
      Parser.shellUngets { p with eolUngetcLookahead := none } s := by
  unfold shellUngets
  dsimp only
  split_ifs <;> rfl

/-- The character that waits is read before the string, and has to be the same. -/
theorem pushedBack_of_lookahead {g : Got} (h : p.eolUngetcLookahead = some g) (s : List Byte) :
    PushedBack env p s ↔
      (∀ x ∈ s, .char x = g) ∧ PushedBack env { p with eolUngetcLookahead := none } s := by
  obtain ⟨r, hfront⟩ := shellUngets_front (p := { p with eolUngetcLookahead := none }) s
  have hungets := (shellUngets_lookahead (p := p) s).trans h
  have hmany (before after : List Context) (hlen : before.length = s.length) :=
    @gets_readMany env _ _ _ _
      (shellUngets_lookahead (p := { p with eolUngetcLookahead := none }) s) hfront hlen after
  have hsame := @pushedBack_iff_same env { p with eolUngetcLookahead := none } rfl _ _
    hfront
  -- one call more reads the character first
  have hcall (before after : List Context) (ctx : Context) (hlen : before.length = s.length) :
      gets env (before ++ ctx :: after) (p.shellUngets s) =
          s.map .char ++ gets env (ctx :: after) p ↔
        (∀ x ∈ s, .char x = g) ∧
          gets env after ((Parser.shellUngets { p with eolUngetcLookahead := none } s).readMany s) =
            gets env after { p with eolUngetcLookahead := none } := by
    have hfirst : ∃ ctx' before', before ++ ctx :: after = ctx' :: (before' ++ after) ∧
        before'.length = s.length := by
      cases before with
      | nil => exact ⟨ctx, [], rfl, hlen⟩
      | cons ctx' before =>
          exact ⟨ctx', before ++ [ctx], by rw [List.append_assoc]; rfl, by
            rw [List.length_append]
            exact hlen⟩
    obtain ⟨ctx', before', hctxs, hlen'⟩ := hfirst
    rw [hctxs, gets_lookahead hungets, shellUngets_withoutLookahead, hmany before' after hlen',
      gets_lookahead h, cons_append_eq]
    simp only [List.forall_mem_map]
  have hlen : (List.replicate s.length Context.quiet).length = s.length := List.length_replicate
  rw [hsame]
  constructor
  · intro hback
    exact ⟨((hcall _ [] Context.quiet hlen).mp (hback _ _ hlen)).1,
      fun ctxs => ((hcall _ ctxs Context.quiet hlen).mp (hback _ _ hlen)).2⟩
  · rintro ⟨hall, hsames⟩ before after hbefore
    cases after with
    | cons ctx after => exact (hcall before after ctx hbefore).mpr ⟨hall, hsames after⟩
    | nil =>
        have hlonger := (hcall before [] Context.quiet hbefore).mpr ⟨hall, hsames []⟩
        have htake := congrArg (List.take before.length) hlonger
        rw [take_gets] at htake
        rw [List.append_nil, htake, hbefore, List.take_left' (List.length_map _)]
        exact (List.append_nil _).symm

/-- A string that is pushed back is read next, and then what would have been read without it, if
and only if nothing that has not been read is written over and the ends of the pushed strings
stay as they are. -/
theorem pushedBack_iff (env : Env) (p : Parser) (s : List Byte) :
    PushedBack env p s ↔ Harmless env p s := by
  have hwithout {p : Parser} (hlookahead : p.eolUngetcLookahead = none) :
      PushedBack env p s ↔ Harmless env p s := by
    have hnone : ∀ g, p.eolUngetcLookahead = some g → ∀ x ∈ s, .char x = g := by
      rw [hlookahead]
      nofun
    unfold Harmless
    split_ifs with hrest hlen
    · exact (pushedBack_atEnd hlookahead s hrest).trans ⟨fun h => ⟨hnone, h⟩, And.right⟩
    · exact (pushedBack_backUp hlookahead s hrest hlen).trans ⟨fun h => ⟨hnone, h⟩, And.right⟩
    · by_cases hnewline : s.getLast? = some newline
      · exact (pushedBack_push hlookahead s hrest hlen hnewline).trans
          ⟨fun h => ⟨hnone, hnewline, h⟩, fun h => h.2.2⟩
      · exact ⟨fun h => absurd h (not_pushedBack_overwrite hlookahead s hrest hlen hnewline),
          fun h => absurd h.2.1 hnewline⟩
  cases hlookahead : p.eolUngetcLookahead with
  | none => exact hwithout hlookahead
  | some g =>
      rw [pushedBack_of_lookahead hlookahead, hwithout rfl]
      unfold Harmless
      constructor
      · rintro ⟨hall, -, h⟩
        refine ⟨fun g' hg' => ?_, h⟩
        rw [hlookahead] at hg'
        cases hg'
        exact hall
      · rintro ⟨hall, h⟩
        exact ⟨hall g hlookahead, nofun, h⟩

/-- The second character of `a` and a newline is next, and two others are pushed back. -/
def midLine : Parser where
  eolUngetcLookahead := none
  line := { before := [⟨'a', by decide⟩], rest := [newline], eof := false, empty_of_eof := nofun }
  pushedStringList := []
  endalias := false
  alexpnext := false
  unquotedBackslash := false
  bashInput := { type := .stream, chars := [] }
  beingExpanded := []

theorem midLine_loses : ¬ PushedBack { interactive := false, shellblank := (· == blank) } midLine
    [⟨'x', by decide⟩, ⟨'y', by decide⟩] :=
  not_pushedBack_overwrite rfl _ (List.cons_ne_nil _ _) (by decide) (by decide)

end Parser

end ParserInput

end Rash
