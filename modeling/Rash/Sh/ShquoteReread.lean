import Rash.Sh.Shquote
import Rash.Sh.StrtransRound

/-!
# What is quoted is one word again

The shell reads a word character by character.  A quoter's text, with a delimiter behind it, is one
word with the quoted string for its characters, and none of them is left for an expansion.
-/

namespace Rash

open Scanning

namespace Shquote

/-- The characters of a word, and whether each of them is quoted -/
abbrev Word := List (UInt8 × Bool)

inductive Mode
  | bare
  | escaped
  | single
  | double
  | doubleEscaped
  | dollar
  /-- Inside `$'…'`, with the text so far and whether a backslash stands before the next byte -/
  | ansi (text : Bytes) (escaped : Bool)

/-- What the decoded inside of `$'…'` stands for, without the marker before each marker -/
def unprotect : Bytes → Bytes
  | [] => []
  | c :: s =>
      match s with
      | d :: t => if c = Quoting.ctlesc ∧ (d = Quoting.ctlesc ∨ d = Quoting.ctlnul) then
          d :: unprotect t else c :: unprotect (d :: t)
      | [] => [c]

section

variable (loc : Locale) (shellblank : UInt8 → Bool)

def delimiter (c : UInt8) : Bool :=
  c == newline || [0x26, 0x7c, 0x3b, 0x3c, 0x3e, 0x28, 0x29].contains c || shellblank c

def front (w : Word) (r : Option (Word × Bytes)) : Option (Word × Bytes) :=
  r.map fun r => (w ++ r.1, r.2)

def allQuoted (s : Bytes) : Word := s.map fun c => (c, true)

/-- The word from a place within it up to the delimiter, and the text from there on; nothing when
a quote stays open, or when there is a parameter or command to be expanded. -/
def readFrom : Mode → Bytes → Option (Word × Bytes)
  | .bare, [] => some ([], [])
  | .bare, c :: t =>
      if delimiter shellblank c then some ([], c :: t)
      else if c = backslash then readFrom .escaped t
      else if c = squote then readFrom .single t
      else if c = dquote then readFrom .double t
      else if c = dollar then readFrom .dollar t
      else if c = backquote then none
      else front [(c, false)] (readFrom .bare t)
  | .escaped, c :: t =>
      if c = newline then readFrom .bare t else front [(c, true)] (readFrom .bare t)
  | .single, c :: t =>
      if c = squote then readFrom .bare t else front [(c, true)] (readFrom .single t)
  | .double, c :: t =>
      if c = dquote then readFrom .bare t
      else if c = backslash then readFrom .doubleEscaped t
      else if c = dollar ∨ c = backquote then none
      else front [(c, true)] (readFrom .double t)
  | .doubleEscaped, c :: t =>
      if c = newline then readFrom .double t
      else if cbsdquote c then front [(c, true)] (readFrom .double t)
      else front [(backslash, true), (c, true)] (readFrom .double t)
  | .dollar, c :: t => if c = squote then readFrom (.ansi [] false) t else none
  | .ansi text true, c :: t => readFrom (.ansi (text ++ [c]) false) t
  | .ansi text false, c :: t =>
      if c = squote then
        let decoded := (Strtrans.ansicstr loc Strtrans.dollarFlags false text text.length).elim []
          Strtrans.Decoded.text
        front (allQuoted (unprotect decoded)) (readFrom .bare t)
      else readFrom (.ansi (text ++ [c]) (decide (c = backslash))) t
  | _, [] => none

/-- A word that begins here; a comment and a delimiter are none. -/
def readWord (s : Bytes) : Option (Word × Bytes) :=
  match s with
  | [] => none
  | c :: _ =>
      if delimiter shellblank c ∨ c = hash then none else readFrom loc shellblank .bare s

/-- Is a character left for tilde, brace or pathname expansion?  The character before it is given,
if there is one. -/
def expands : Option UInt8 → Word → Bool
  | _, [] => false
  | before, (c, quoted) :: w =>
      (!quoted && ([0x2a, 0x3f, 0x5b, 0x7b].contains c ||
        (c == tilde && (before == none || before == some colon || before == some equals)))) ||
      expands (some c) w

/-- With a delimiter behind it the text is one word, whose characters without their quotes are
`s`, and nothing in it is expanded. -/
def Rereads (text s : Bytes) : Prop :=
  ∀ rest, (∀ c ∈ rest.head?, delimiter shellblank c = true) → ∃ w,
    readWord loc shellblank (text ++ rest) = some (w, rest) ∧ w.map Prod.fst = s ∧
      expands none w = false

end

/-- The ASCII blanks are the space and the tab. -/
def Blanks (shellblank : UInt8 → Bool) : Prop :=
  ∀ c < 0x80, shellblank c = true → c = 0x20 ∨ c = 0x09

variable {loc : Locale} {shellblank : UInt8 → Bool} {m m' m'' : Mode} {s t text text' : Bytes}
  {w w' : Word} {r : Option (Word × Bytes)} {c : UInt8} {before : Option UInt8}

theorem front_nil (r : Option (Word × Bytes)) : front [] r = r := by
  cases r <;> rfl

theorem front_front : front w (front w' r) = front (w ++ w') r := by
  cases r with
  | none => rfl
  | some r => rw [front, front, front, Option.map_some, Option.map_some, Option.map_some,
      List.append_assoc]

theorem expands_allQuoted (before : Option UInt8) (s : Bytes) :
    expands before (allQuoted s) = false := by
  induction s generalizing before with
  | nil => rfl
  | cons c s ih => exact ih (some c)

theorem fst_allQuoted (s : Bytes) : (allQuoted s).map Prod.fst = s := by
  rw [allQuoted, List.map_map]
  exact List.map_id s

theorem not_delimiter (hblank : Blanks shellblank) (hc : c < 0x80 ∧ c ≠ 0x20 ∧ c ≠ 0x09)
    (hop : (c == newline || [0x26, 0x7c, 0x3b, 0x3c, 0x3e, 0x28, 0x29].contains c) = false) :
    delimiter shellblank c = false := by
  rw [delimiter, hop, Bool.false_or]
  by_contra hne
  rcases hblank c hc.1 (Bool.not_eq_false _ ▸ hne) with h | h
  · exact hc.2.1 h
  · exact hc.2.2 h

/-- In mode `m` the text gives the characters `w` and leads to mode `m'`. -/
def Adds (loc : Locale) (shellblank : UInt8 → Bool) (m m' : Mode) (text : Bytes) (w : Word) : Prop :=
  ∀ t, readFrom loc shellblank m (text ++ t) = front w (readFrom loc shellblank m' t)

namespace Adds

theorem nil (m : Mode) : Adds loc shellblank m m [] [] := fun _ => (front_nil _).symm

theorem append (h : Adds loc shellblank m m' text w) (h' : Adds loc shellblank m' m'' text' w') :
    Adds loc shellblank m m'' (text ++ text') (w ++ w') := by
  intro t
  rw [List.append_assoc, h, h', front_front]

/-- A part for each character of a string -/
theorem flatMap {f : UInt8 → Bytes} (h : ∀ c, Adds loc shellblank m m (f c) [(c, true)])
    (s : Bytes) : Adds loc shellblank m m (s.flatMap f) (allQuoted s) := by
  induction s with
  | nil => exact nil m
  | cons c s ih =>
      rw [List.flatMap_cons]
      exact (h c).append ih

end Adds

/-- A text whose first byte begins a word -/
theorem rereads_of_adds (h : Adds loc shellblank .bare .bare (c :: text) w)
    (hstart : delimiter shellblank c = false) (hhash : c ≠ hash) (hw : w.map Prod.fst = s)
    (hexpands : expands none w = false) : Rereads loc shellblank (c :: text) s := by
  intro rest hrest
  have hend : readFrom loc shellblank .bare rest = some ([], rest) := by
    cases rest with
    | nil => rfl
    | cons d rest => exact if_pos (hrest d rfl)
  refine ⟨w, ?_, hw, hexpands⟩
  have hread := h rest
  rw [hend, List.cons_append] at hread
  have hword : ¬ (delimiter shellblank c = true ∨ c = hash) := by
    rintro (hd | hd)
    · rw [hstart] at hd
      cases hd
    · exact hhash hd
  rw [List.cons_append, readWord, if_neg hword, hread, front, Option.map_some, List.append_nil]

/-! ## Single and double quotes -/

section

variable (hblank : Blanks shellblank)
include hblank

theorem adds_escaped (hc : c ≠ newline) :
    Adds loc shellblank .bare .bare [backslash, c] [(c, true)] := by
  intro t
  have hslash := not_delimiter (c := backslash) hblank (by decide) (by decide)
  change readFrom loc shellblank .bare (backslash :: c :: t) = _
  rw [readFrom, hslash]
  exact if_neg hc

theorem adds_opening (loc : Locale) : Adds loc shellblank .bare .single [squote] [] := by
  intro t
  have hquote := not_delimiter (c := squote) hblank (by decide) (by decide)
  change readFrom loc shellblank .bare (squote :: t) = _
  rw [readFrom, hquote, front_nil]
  rfl

omit hblank in
theorem adds_closing : Adds loc shellblank .single .bare [squote] [] :=
  fun _ => (front_nil _).symm

theorem adds_single (c : UInt8) : Adds loc shellblank .single .single
    (if c = squote then [squote, backslash, squote, squote] else [c]) [(c, true)] := by
  by_cases hc : c = squote
  · rw [if_pos hc, hc]
    exact adds_closing.append ((adds_escaped hblank (by decide)).append (adds_opening hblank loc))
  · rw [if_neg hc]
    exact fun t => if_neg hc

theorem shSingleQuote_rereads (s : Bytes) : Rereads loc shellblank (shSingleQuote s) s := by
  rw [shSingleQuote]
  split_ifs with hs
  · rw [hs]
    exact rereads_of_adds (adds_escaped hblank (by decide))
      (not_delimiter hblank (by decide) (by decide)) (by decide) rfl rfl
  · have hadds := (adds_opening hblank loc).append
      ((Adds.flatMap (adds_single hblank) s).append adds_closing)
    rw [List.append_nil, List.nil_append] at hadds
    exact rereads_of_adds hadds (not_delimiter hblank (by decide) (by decide)) (by decide)
      (fst_allQuoted s) (expands_allQuoted none s)

/-- One byte between double quotes -/
def doubleByte (c : UInt8) : Bytes := if cbsdquote c && c != newline then [backslash, c] else [c]

omit hblank in
theorem multibyte_single (hloc : loc.SingleByte) (c : UInt8) : multibyte loc c = false := by
  have hone : decide (1 < loc.mbCurMax) = false := decide_eq_false (Nat.not_lt_of_le hloc.mbCurMax)
  rw [multibyte, hloc.utf8, hone]
  rfl

omit hblank in
theorem doubleInside_single (hloc : loc.SingleByte) (s : Bytes) :
    doubleInside loc s = s.flatMap doubleByte := by
  have hturn : ∀ before c s, doubleTurn loc before (c :: s) = some (doubleByte c, 0) := by
    intro before c s
    rw [doubleTurn, multibyte_single hloc, if_neg Bool.false_ne_true, doubleByte]
    split_ifs <;> rfl
  rw [doubleInside, scan_map hturn, List.flatMap_def]

omit hblank in
theorem adds_double (c : UInt8) :
    Adds loc shellblank .double .double (doubleByte c) [(c, true)] := by
  rw [doubleByte]
  split_ifs with hc
  · rw [Bool.and_eq_true, bne_iff_ne] at hc
    intro t
    have hslash : readFrom loc shellblank .double ([backslash, c] ++ t) =
        readFrom loc shellblank .doubleEscaped (c :: t) := rfl
    rw [hslash, readFrom, if_neg hc.2, if_pos hc.1]
  · intro t
    have hplain : c ≠ dquote ∧ c ≠ backslash ∧ ¬ (c = dollar ∨ c = backquote) := by
      refine ⟨?_, ?_, ?_⟩
      · rintro rfl
        exact hc rfl
      · rintro rfl
        exact hc rfl
      · rintro (rfl | rfl) <;> exact hc rfl
    change readFrom loc shellblank .double (c :: t) = _
    rw [readFrom, if_neg hplain.1, if_neg hplain.2.1, if_neg hplain.2.2]

theorem shDoubleQuote_rereads (hloc : loc.SingleByte) (s : Bytes) :
    Rereads loc shellblank (shDoubleQuote loc s) s := by
  have hquote := not_delimiter (c := dquote) hblank (by decide) (by decide)
  have hopen : Adds loc shellblank .bare .double [dquote] [] := by
    intro t
    change readFrom loc shellblank .bare (dquote :: t) = _
    rw [readFrom, hquote, front_nil]
    rfl
  have hclose : Adds loc shellblank .double .bare [dquote] [] := fun _ => (front_nil _).symm
  have hadds := hopen.append ((Adds.flatMap adds_double s).append hclose)
  rw [List.append_nil, List.nil_append] at hadds
  rw [shDoubleQuote, doubleInside_single hloc]
  exact rereads_of_adds hadds hquote (by decide) (fst_allQuoted s) (expands_allQuoted none s)

omit hblank in
/-- Taking the backslashes away gives the string back. -/
theorem shUnDoubleQuote_doubleInside (hloc : loc.SingleByte) (s : Bytes) :
    shUnDoubleQuote (doubleInside loc s) = s := by
  rw [shUnDoubleQuote, doubleInside_single hloc]
  induction s with
  | nil => rfl
  | cons c s ih =>
      rw [List.flatMap_cons, doubleByte]
      split_ifs with hc
      · rw [Bool.and_eq_true] at hc
        change unDouble false (backslash :: c :: s.flatMap doubleByte) = _
        rw [unDouble, if_pos ⟨rfl, hc.1⟩, unDouble, ih]
      · have hslash : c ≠ backslash := by
          rintro rfl
          exact hc rfl
        change unDouble false (c :: s.flatMap doubleByte) = _
        rw [unDouble, if_neg fun h => hslash h.1, ih]

/-! ## Backslashes -/

/-- A byte that the quoter leaves alone -/
theorem adds_bare (htable : bstab c = false) (hnotblank : 0x80 ≤ c → shellblank c = false) :
    delimiter shellblank c = false ∧ Adds loc shellblank .bare .bare [c] [(c, false)] := by
  have hblanks : shellblank c = false := by
    by_contra hne
    rw [Bool.not_eq_false] at hne
    rcases UInt8.lt_or_le c 0x80 with hlow | hhigh
    · rcases hblank c hlow hne with rfl | rfl <;> cases htable
    · rw [hnotblank hhigh] at hne
      cases hne
  have hdelimiter : delimiter shellblank c = false := by
    have hop : (c == newline || [0x26, 0x7c, 0x3b, 0x3c, 0x3e, 0x28, 0x29].contains c) = false := by
      by_contra hne
      rw [Bool.not_eq_false, Bool.or_eq_true, beq_iff_eq, List.contains_iff_mem] at hne
      have hall : ∀ d ∈ newline :: [0x26, 0x7c, 0x3b, 0x3c, 0x3e, 0x28, 0x29], bstab d = true := by
        decide +kernel
      rw [hall c (List.mem_cons.mpr hne)] at htable
      cases htable
    rw [delimiter, hop, hblanks]
    rfl
  refine ⟨hdelimiter, fun t => ?_⟩
  have hne : ∀ d, bstab d = true → c ≠ d := by
    rintro d hd rfl
    rw [htable] at hd
    cases hd
  change readFrom loc shellblank .bare (c :: t) = _
  rw [readFrom, hdelimiter, if_neg Bool.false_ne_true, if_neg (hne _ rfl), if_neg (hne _ rfl),
    if_neg (hne _ rfl), if_neg (hne _ rfl), if_neg (hne _ rfl)]

variable {flags : BackslashFlags}

omit hblank in
theorem backslashTurn_cases (hloc : loc.SingleByte) (before : Bytes) (c : UInt8) (s : Bytes) :
    backslashTurn loc shellblank bstab flags before (c :: s) = some ([backslash, c], 0) ∨
      backslashTurn loc shellblank bstab flags before (c :: s) = some ([c], 0) ∧
        needsBackslash shellblank bstab flags before c = false := by
  rw [backslashTurn, multibyte_single hloc, if_neg Bool.false_ne_true]
  split_ifs with hascii hneeds
  · exact .inl rfl
  · exact .inl rfl
  · exact .inr ⟨rfl, Bool.not_eq_true _ ▸ hneeds⟩

omit hblank in
/-- Which bytes are left alone -/
theorem of_needsBackslash {before : Bytes} (htildes : flags.tildes = true)
    (h : needsBackslash shellblank bstab flags before c = false) :
    bstab c = false ∧ (before = [] → c ≠ hash) ∧ (flags.blanks = true → shellblank c = false) ∧
      (c == tilde && (before.getLast? == none || before.getLast? == some colon ||
        before.getLast? == some equals)) = false := by
  rw [needsBackslash] at h
  split_ifs at h with htable hhash htilde
  refine ⟨Bool.not_eq_true _ ▸ htable, ?_, ?_, ?_⟩
  · rintro rfl rfl
    exact hhash rfl
  · intro hblanks
    rwa [hblanks, Bool.true_and] at h
  · rw [htildes, Bool.true_and, Bool.not_eq_true] at htilde
    rw [← htilde]
    cases before <;> rfl

/-- What the backslashes are not able to say: a newline, and a blank beyond ASCII when the flag
for it is not given. -/
def Sayable (shellblank : UInt8 → Bool) (flags : BackslashFlags) (c : UInt8) : Prop :=
  c ≠ newline ∧ (0x80 ≤ c → flags.blanks = false → shellblank c = false)

theorem adds_backslashes (hloc : loc.SingleByte) (htildes : flags.tildes = true)
    (before s : Bytes) (hs : ∀ c ∈ s, Sayable shellblank flags c) :
    ∃ w, Adds loc shellblank .bare .bare
        (scan (backslashTurn loc shellblank bstab flags) before s).flatten w ∧
      w.map Prod.fst = s ∧ expands before.getLast? w = false := by
  refine scan_induction (motive := fun before s ps => (∀ c ∈ s, Sayable shellblank flags c) →
    ∃ w, Adds loc shellblank .bare .bare ps.flatten w ∧ w.map Prod.fst = s ∧
      expands before.getLast? w = false) ?_ ?_ ?_ before s hs
  · exact fun _ _ => ⟨[], Adds.nil _, rfl, rfl⟩
  · intro before c s hstop
    rcases @backslashTurn_cases _ shellblank flags hloc before c s with
      h | ⟨h, _⟩
    · rw [hstop] at h
      cases h
    · rw [hstop] at h
      cases h
  · intro before c s e k ps hturn ih hs
    have hc := hs c List.mem_cons_self
    rcases @backslashTurn_cases _ shellblank flags hloc before c s with
      h | ⟨h, hneeds⟩
    · obtain ⟨rfl, rfl⟩ := Prod.mk.inj (Option.some.inj (hturn.symm.trans h))
      obtain ⟨w, hadds, hw, hexpands⟩ := ih fun d hd => hs d (List.mem_cons_of_mem c hd)
      rw [List.take_zero, List.getLast?_concat] at hexpands
      exact ⟨_, (adds_escaped hblank hc.1).append hadds, congrArg (c :: ·) hw, hexpands⟩
    · obtain ⟨rfl, rfl⟩ := Prod.mk.inj (Option.some.inj (hturn.symm.trans h))
      obtain ⟨w, hadds, hw, hexpands⟩ := ih fun d hd => hs d (List.mem_cons_of_mem c hd)
      rw [List.take_zero, List.getLast?_concat] at hexpands
      obtain ⟨htable, _, hblanks, htilde⟩ := of_needsBackslash htildes hneeds
      obtain ⟨_, hone⟩ := @adds_bare loc _ _ hblank htable (fun hhigh => by
        cases hflag : flags.blanks with
        | true => exact hblanks hflag
        | false => exact hc.2 hhigh hflag)
      refine ⟨_, hone.append hadds, congrArg (c :: ·) hw, ?_⟩
      have hglob : [0x2a, 0x3f, 0x5b, 0x7b].contains c = false := by
        by_contra hne
        rw [Bool.not_eq_false, List.contains_iff_mem] at hne
        have hall : ∀ d ∈ [0x2a, 0x3f, 0x5b, 0x7b], bstab d = true := by decide +kernel
        rw [hall c hne] at htable
        cases htable
      rw [List.singleton_append, expands, hexpands, hglob, htilde]
      rfl

/-- A string that is not empty and has no newline in it: a backslash before a newline would take
it away. -/
theorem shBackslashQuote_rereads (hloc : loc.SingleByte) (htildes : flags.tildes = true)
    (hne : s ≠ []) (hs : ∀ c ∈ s, Sayable shellblank flags c) :
    Rereads loc shellblank (shBackslashQuote loc shellblank bstab flags s) s := by
  obtain ⟨w, hadds, hw, hexpands⟩ := adds_backslashes hblank hloc htildes [] s hs
  obtain ⟨c, s, rfl⟩ := List.exists_cons_of_ne_nil hne
  rw [shBackslashQuote]
  rcases @backslashTurn_cases _ shellblank flags hloc [] c s with
    h | ⟨h, hneeds⟩
  · rw [scan_turn h] at hadds ⊢
    exact rereads_of_adds hadds (not_delimiter hblank (by decide) (by decide)) (by decide) hw hexpands
  · rw [scan_turn h] at hadds ⊢
    obtain ⟨htable, hhash, hblanks, _⟩ := of_needsBackslash htildes hneeds
    have hc := hs c List.mem_cons_self
    obtain ⟨hstart, _⟩ := @adds_bare loc _ _ hblank htable (fun hhigh => by
      cases hflag : flags.blanks with
      | true => exact hblanks hflag
      | false => exact hc.2 hhigh hflag)
    exact rereads_of_adds hadds hstart (hhash rfl) hw hexpands

/-! ## `$'…'` -/

omit hblank in
theorem readFrom_ansi {inside : Bytes} (hbare : Strtrans.bareQuote inside = false) (acc t : Bytes) :
    readFrom loc shellblank (.ansi acc false) (inside ++ squote :: t) =
      readFrom loc shellblank (.ansi (acc ++ inside) false) (squote :: t) := by
  induction inside using Strtrans.bareQuote.induct generalizing acc with
  | case1 => rw [List.nil_append, List.append_nil]
  | case2 => cases hbare
  | case3 d inside ih =>
      have hread : readFrom loc shellblank (.ansi acc false)
          (backslash :: d :: inside ++ squote :: t) =
            readFrom loc shellblank (.ansi (acc ++ [backslash] ++ [d]) false)
              (inside ++ squote :: t) := rfl
      rw [hread, ih hbare, List.append_assoc, List.append_assoc]
      rfl
  | case4 c inside hc ih =>
      have hquote : c ≠ squote := by
        rintro rfl
        cases inside <;> cases hbare
      rw [Strtrans.bareQuote_cons hc hquote] at hbare
      have hread : readFrom loc shellblank (.ansi acc false) (c :: inside ++ squote :: t) =
          readFrom loc shellblank (.ansi (acc ++ [c]) false) (inside ++ squote :: t) := by
        rw [List.cons_append, readFrom, if_neg hquote, decide_eq_false hc]
      rw [hread, ih hbare, List.append_assoc]
      rfl

omit hblank in
theorem unprotect_protect (s : Bytes) : unprotect (Strtrans.protect s) = s := by
  induction s with
  | nil => rfl
  | cons c s ih =>
      rw [Strtrans.protect, List.flatMap_cons, ← Strtrans.protect, Strtrans.mark]
      split_ifs with hc
      · change (if _ then _ else _) = _
        rw [if_pos ⟨rfl, hc.2⟩]
        exact congrArg (c :: ·) ih
      · have hmark : c ≠ Quoting.ctlesc := fun h => hc ⟨rfl, .inl h⟩
        rw [List.singleton_append]
        cases hrest : Strtrans.protect s with
        | nil =>
            rw [hrest] at ih
            rw [← ih]
            rfl
        | cons d t =>
            rw [unprotect, if_neg fun h => hmark h.1, ← hrest, ih]

theorem ansicQuote_rereads (hloc : loc.SingleByte) (hne : s ≠ []) :
    Rereads loc shellblank ((ansicQuote loc s).getD []) s := by
  obtain ⟨hbare, htext⟩ := Strtrans.quoted_spec (.inl hloc) hne
  have hdollar := not_delimiter (c := dollar) hblank (by decide) (by decide)
  have hadds : Adds loc shellblank .bare .bare
      (dollar :: squote :: (Strtrans.quoted loc s ++ [squote])) (allQuoted s) := by
    intro t
    have hopen : readFrom loc shellblank .bare
        (dollar :: squote :: (Strtrans.quoted loc s ++ [squote]) ++ t) =
          readFrom loc shellblank (.ansi [] false) (Strtrans.quoted loc s ++ squote :: t) := by
      rw [List.cons_append, readFrom, hdollar, List.cons_append, List.append_assoc]
      rfl
    obtain ⟨decoded, hdecoded, hresult⟩ := Option.map_eq_some_iff.mp htext
    rw [hopen, readFrom_ansi hbare, List.nil_append, readFrom, if_pos rfl, hdecoded]
    simp only [Option.elim_some]
    rw [hresult, unprotect_protect]
  rw [ansicQuote, if_neg hne, Option.getD_some]
  exact rereads_of_adds hadds hdollar (by decide) (fst_allQuoted s) (expands_allQuoted none s)

omit hblank in
theorem ansicShouldquote_single (hloc : loc.SingleByte) (h : ansicShouldquote loc s = false) :
    ∀ c ∈ s, c < 0x80 → 0x20 ≤ c := by
  induction s with
  | nil => exact nofun
  | cons d s ih =>
      rw [ansicShouldquote, multibyte_single hloc, if_neg Bool.false_ne_true, Bool.or_eq_false_iff,
        Bool.not_eq_false'] at h
      intro c hc hlow
      rcases List.mem_cons.mp hc with rfl | hc
      · exact (hloc.isPrint c hlow h.1).1
      · exact ih h.2 c hc hlow

theorem shQuoteReusable_rereads (hloc : loc.SingleByte) (flags : Bool)
    (hs : flags = true → ∀ c ∈ s, 0x80 ≤ c → shellblank c = false) :
    Rereads loc shellblank (shQuoteReusable loc shellblank s flags) s := by
  rw [shQuoteReusable]
  split_ifs with hnil hansi hflags
  · rw [hnil]
    exact shSingleQuote_rereads hblank []
  · exact ansicQuote_rereads hblank hloc hnil
  · refine shBackslashQuote_rereads hblank hloc rfl hnil fun c hc => ⟨?_, fun hhigh _ => ?_⟩
    · rintro rfl
      exact absurd (ansicShouldquote_single hloc (Bool.not_eq_true _ ▸ hansi) _ hc (by decide))
        (by decide)
    · exact hs hflags c hc hhigh
  · exact shSingleQuote_rereads hblank s

end

/-- Each quoted form of a string is one word with that string for its characters.  The backslashes
want the flag for tildes, and a string that is not empty and has neither a newline nor, without the
flag for them, a blank beyond ASCII. -/
theorem quoted_rereads (loc : Locale) (shellblank : UInt8 → Bool) (hloc : loc.SingleByte)
    (hblank : Blanks shellblank) (s : Bytes) :
    Rereads loc shellblank (shSingleQuote s) s ∧ Rereads loc shellblank (shDoubleQuote loc s) s ∧
      (∀ flags : BackslashFlags, flags.tildes = true → s ≠ [] →
        (∀ c ∈ s, Sayable shellblank flags c) →
          Rereads loc shellblank (shBackslashQuote loc shellblank bstab flags s) s) ∧
      (∀ flags, (flags = true → ∀ c ∈ s, 0x80 ≤ c → shellblank c = false) →
        Rereads loc shellblank (shQuoteReusable loc shellblank s flags) s) ∧
      shUnDoubleQuote (doubleInside loc s) = s :=
  ⟨shSingleQuote_rereads hblank s, shDoubleQuote_rereads hblank hloc s,
    fun _ htildes hne hs => shBackslashQuote_rereads hblank hloc htildes hne hs,
    fun flags hs => shQuoteReusable_rereads hblank hloc flags hs,
    shUnDoubleQuote_doubleInside hloc s⟩

def posixBlank (c : UInt8) : Bool := c == 0x20 || c == 0x09

theorem posixBlank_blanks : Blanks posixBlank := by
  intro c _ h
  rwa [posixBlank, Bool.or_eq_true, beq_iff_eq, beq_iff_eq] at h

theorem quoted_rereads_mixed :
    Rereads Strtrans.posixLocale posixBlank
      (shQuoteReusable Strtrans.posixLocale posixBlank [0x7e, 0x20, 0x27, 0x24] true)
      [0x7e, 0x20, 0x27, 0x24] :=
  (quoted_rereads Strtrans.posixLocale posixBlank Strtrans.posixLocale_singleByte posixBlank_blanks
    [0x7e, 0x20, 0x27, 0x24]).2.2.2.1 true
    fun _ => by decide +kernel

theorem not_rereads_of_read (hread : readWord loc shellblank text = some (w, t))
    (hw : w.map Prod.fst ≠ s ∨ expands none w = true) : ¬ Rereads loc shellblank text s := by
  intro h
  obtain ⟨w', hread', hw', hexpands⟩ := h [] nofun
  rw [List.append_nil, hread] at hread'
  obtain ⟨rfl, _⟩ := Prod.mk.inj (Option.some.inj hread')
  rcases hw with hw | hw
  · exact hw hw'
  · rw [hw] at hexpands
    cases hexpands

/-- A locale in which the byte `0xa0` is printed and is a blank -/
def latin1Locale : Locale := { Strtrans.posixLocale with
  isPrint := fun c => decide (0x20 ≤ c ∧ c ≤ 0x7e) || decide (0xa0 ≤ c) }

def latin1Blank (c : UInt8) : Bool := posixBlank c || c == 0xa0

/-- A newline between two letters is lost, the empty string is no word, a tilde without the flag
for it is expanded, and a blank without the flag for it ends the word. -/
theorem shBackslashQuote_not_rereads :
    ¬ Rereads Strtrans.posixLocale posixBlank
        (shBackslashQuote Strtrans.posixLocale posixBlank bstab ⟨true, true⟩ [0x61, 0x0a, 0x62])
        [0x61, 0x0a, 0x62] ∧
      ¬ Rereads Strtrans.posixLocale posixBlank
        (shBackslashQuote Strtrans.posixLocale posixBlank bstab ⟨true, true⟩ []) [] ∧
      ¬ Rereads Strtrans.posixLocale posixBlank
        (shBackslashQuote Strtrans.posixLocale posixBlank bstab ⟨false, true⟩ [0x7e]) [0x7e] ∧
      ¬ Rereads latin1Locale latin1Blank
        (shQuoteReusable latin1Locale latin1Blank [0x61, 0xa0] true) [0x61, 0xa0] := by
  refine ⟨not_rereads_of_read (w := [(0x61, false), (0x62, false)]) (t := []) (by decide)
    (by decide), fun h => ?_,
    not_rereads_of_read (w := [(0x7e, false)]) (t := []) (by decide) (by decide),
    not_rereads_of_read (w := [(0x61, false)]) (t := [0xa0]) (by decide) (by decide)⟩
  obtain ⟨w, hread, _⟩ := h [] nofun
  cases hread

end Shquote

end Rash
