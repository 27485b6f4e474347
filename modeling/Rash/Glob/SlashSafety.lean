import Rash.Glob.Pathname

/-!
# Brackets and slashes

The text that `BRACKMATCH` goes past has no slash in it and does not end in the middle of an
escape, and what it does depends on the pattern up to the next slash only.
-/

namespace Rash

namespace Pathname

/-- A text without a slash that is read to its end, escape by escape. -/
inductive Plain (m : Matcher) : List CHAR → Prop
  | nil : Plain m []
  | char {c : CHAR} {p : List CHAR} (hslash : c ≠ slash) (hescapes : m.escapes c = false)
      (h : Plain m p) : Plain m (c :: p)
  | pair {c d : CHAR} {p : List CHAR} (hescapes : m.escapes c = true) (hd : d ≠ slash)
      (h : Plain m p) : Plain m (c :: d :: p)

theorem Plain.append {m : Matcher} {a b : List CHAR} (ha : Plain m a) (hb : Plain m b) :
    Plain m (a ++ b) := by
  induction ha with
  | nil => exact hb
  | char hslash hescapes _ ih => exact .char hslash hescapes ih
  | pair hescapes hd _ ih => exact .pair hescapes hd ih

section

variable {m : Matcher} (hpathname : m.flags.pathname = true) (hlawful : m.loc.Lawful)

theorem fold_special (hlawful : m.loc.Lawful) (c : CHAR) {k : CHAR}
    (hk : k ∈ [slash, backslash, question, star, lbrack]) : m.fold c = k ↔ c = k := by
  unfold Matcher.fold
  split_ifs
  · exact hlawful c k hk
  · rfl

theorem fold_slash (hlawful : m.loc.Lawful) (c : CHAR) : m.fold c = slash ↔ c = slash :=
  fold_special hlawful c (by decide)

theorem fold_backslash (hlawful : m.loc.Lawful) (c : CHAR) :
    m.fold c = backslash ↔ c = backslash := fold_special hlawful c (by decide)

theorem escapes_of_ne {c : CHAR} (hc : c ≠ backslash) : m.escapes c = false := by
  unfold Matcher.escapes
  rw [beq_false_of_ne hc, Bool.and_false]

theorem escapes_eq {c : CHAR} (h : m.escapes c = true) : c = backslash := by
  by_contra hc
  rw [escapes_of_ne hc] at h
  cases h

theorem escapes_fold (hlawful : m.loc.Lawful) (c : CHAR) : m.escapes (m.fold c) = m.escapes c := by
  unfold Matcher.escapes
  rw [Bool.eq_iff_iff, Bool.and_eq_true, Bool.and_eq_true, beq_iff_eq, beq_iff_eq,
    fold_backslash hlawful]

/-! ## The text of a bracket expression -/

include hpathname

theorem slashPathname_iff (c : CHAR) : m.slashPathname c = true ↔ c = slash := by
  simp [Matcher.slashPathname, hpathname]

theorem ne_slash {c : CHAR} (h : ¬ m.slashPathname c = true) : c ≠ slash :=
  fun hc => h ((slashPathname_iff hpathname c).mpr hc)

theorem subbracketEnd_plain {type : CHAR} (htype : type ≠ slash ∧ type ≠ backslash)
    {p : List CHAR} {found : List CHAR × List CHAR} (h : m.subbracketEnd type p = some found) :
    ∃ b, p = b ++ found.2 ∧ Plain m b := by
  induction hn : p.length using Nat.strong_induction_on generalizing p found with
  | _ n ih =>
      cases p with
      | nil => cases h
      | cons c p =>
          rw [Matcher.subbracketEnd] at h
          split_ifs at h with hslash hend hclose
          · obtain ⟨rfl, hhead⟩ := hclose
            obtain ⟨rest, rfl⟩ : ∃ rest, p = rbrack :: rest := by
              cases p with
              | nil => cases hhead
              | cons d rest => exact ⟨rest, by rw [Option.some.inj hhead]⟩
            cases h
            refine ⟨[c, rbrack], rfl, .char htype.1 (escapes_of_ne htype.2) (.char ?_ ?_ .nil)⟩
            · decide
            · exact escapes_of_ne (by decide)
          · obtain ⟨found', hfound, rfl⟩ := Option.map_eq_some_iff.mp h
            have hc := ne_slash hpathname hslash
            cases hescapes : m.escapes c with
            | false =>
                obtain ⟨b, rfl, hb⟩ := ih p.length (by simp at hn; omega) hfound rfl
                exact ⟨c :: b, rfl, .char hc hescapes hb⟩
            | true =>
                -- the escaped character is the next one, whatever it is
                cases p with
                | nil => cases hfound
                | cons d p =>
                    rw [Matcher.subbracketEnd] at hfound
                    split_ifs at hfound with hslash' hend' hclose'
                    · obtain ⟨rfl, hhead⟩ := hclose'
                      obtain ⟨rest, rfl⟩ : ∃ rest, p = rbrack :: rest := by
                        cases p with
                        | nil => cases hhead
                        | cons e rest => exact ⟨rest, by rw [Option.some.inj hhead]⟩
                      cases hfound
                      refine ⟨[c, d, rbrack], rfl, .pair hescapes htype.1 (.char ?_ ?_ .nil)⟩
                      · decide
                      · exact escapes_of_ne (by decide)
                    · obtain ⟨found'', hfound', rfl⟩ := Option.map_eq_some_iff.mp hfound
                      obtain ⟨b, rfl, hb⟩ := ih p.length (by simp at hn; omega) hfound' rfl
                      exact ⟨c :: d :: b, rfl, .pair hescapes (ne_slash hpathname hslash') hb⟩

/-- The types of the symbols are no slash and no backslash. -/
theorem symbolAt_plain {type c : CHAR} (htype : type ≠ slash ∧ type ≠ backslash) {p : List CHAR}
    {found : List CHAR × List CHAR} (h : m.symbolAt type c p = some found) :
    c = lbrack ∧ ∃ b, p = b ++ found.2 ∧ Plain m b := by
  unfold Matcher.symbolAt at h
  split_ifs at h with hopen
  obtain ⟨rfl, hhead⟩ := hopen
  obtain ⟨p, rfl⟩ : ∃ q, p = type :: q := by
    cases p with
    | nil => cases hhead
    | cons d q => exact ⟨q, by rw [Option.some.inj hhead]⟩
  obtain ⟨b, hb, hplain⟩ := subbracketEnd_plain hpathname htype h
  exact ⟨rfl, type :: b, by rw [List.cons_append, ← hb, List.tail_cons],
    .char htype.1 (escapes_of_ne htype.2) hplain⟩

theorem anySymbolAt_plain {c : CHAR} {p : List CHAR} {found : List CHAR × List CHAR}
    (h : m.anySymbolAt c p = some found) : c = lbrack ∧ ∃ b, p = b ++ found.2 ∧ Plain m b := by
  unfold Matcher.anySymbolAt at h
  rcases Option.or_eq_some_iff.mp h with h | ⟨-, h⟩
  · rcases Option.or_eq_some_iff.mp h with h | ⟨-, h⟩
    · exact symbolAt_plain hpathname (by decide) h
    · exact symbolAt_plain hpathname (by decide) h
  · exact symbolAt_plain hpathname (by decide) h

omit hpathname in
theorem skipBracket_cons (fuel : ℕ) (c : CHAR) (p : List CHAR) :
    m.skipBracket (fuel + 1) (c :: p) =
      if m.slashPathname c then none
      else
        match m.anySymbolAt c p with
        | some (_, rest) => m.skipBracket fuel rest
        | none =>
            if c = rbrack then some p
            else if m.escapes c then
              match p with
              | [] => none
              | d :: p => if m.slashPathname d then none else m.skipBracket fuel p
            else m.skipBracket fuel p := rfl

theorem skipBracket_plain {fuel : ℕ} : ∀ {p rest : List CHAR},
    m.skipBracket fuel p = some rest → ∃ b, p = b ++ rest ∧ Plain m b := by
  induction fuel with
  | zero => intro p rest h; cases h
  | succ fuel ih =>
      intro p rest h
      cases p with
      | nil => cases h
      | cons c p =>
          rw [skipBracket_cons] at h
          by_cases hslash : m.slashPathname c = true
          · rw [if_pos hslash] at h
            cases h
          rw [if_neg hslash] at h
          have hc := ne_slash hpathname hslash
          cases hsymbol : m.anySymbolAt c p with
          | some found =>
              rw [hsymbol] at h
              obtain ⟨rfl, b, hb, hplain⟩ := anySymbolAt_plain hpathname hsymbol
              obtain ⟨b', hb', hplain'⟩ := ih h
              refine ⟨lbrack :: (b ++ b'), ?_, .char hc (escapes_of_ne (by decide))
                (hplain.append hplain')⟩
              rw [List.cons_append, List.append_assoc, ← hb', ← hb]
          | none =>
              rw [hsymbol] at h
              dsimp only at h
              split_ifs at h with hclose hescapes
              · cases h
                exact ⟨[c], rfl, .char hc (escapes_of_ne (by rw [hclose]; decide)) .nil⟩
              · cases p with
                | nil => cases h
                | cons d p =>
                    dsimp only at h
                    split_ifs at h with hslash'
                    obtain ⟨b, rfl, hplain⟩ := ih h
                    exact ⟨c :: d :: b, rfl, .pair hescapes (ne_slash hpathname hslash') hplain⟩
              · obtain ⟨b, rfl, hplain⟩ := ih h
                exact ⟨c :: b, rfl, .char hc (Bool.eq_false_iff.mpr hescapes) hplain⟩

end

/-! ## The loop over the elements -/

/-- What is read behind the current character `c` to the end of an element. -/
def Follows (m : Matcher) (c : CHAR) (b : List CHAR) : Prop :=
  if m.escapes c = true then ∃ d b', b = d :: b' ∧ d ≠ slash ∧ Plain m b'
  else c ≠ slash ∧ Plain m b

theorem Follows.plain {m : Matcher} {c : CHAR} {b : List CHAR} (h : Follows m c b) :
    Plain m (c :: b) := by
  unfold Follows at h
  split_ifs at h with hescapes
  · obtain ⟨d, b', rfl, hd, hb⟩ := h
    exact .pair hescapes hd hb
  · exact .char h.1 (Bool.eq_false_iff.mpr hescapes) h.2

theorem Follows.append {m : Matcher} {c : CHAR} {a b : List CHAR} (ha : Follows m c a)
    (hb : Plain m b) : Follows m c (a ++ b) := by
  unfold Follows at ha ⊢
  split_ifs at ha ⊢
  · obtain ⟨d, a', rfl, hd, ha⟩ := ha
    exact ⟨d, a' ++ b, rfl, hd, ha.append hb⟩
  · exact ⟨ha.1, ha.2.append hb⟩

theorem follows_fold {m : Matcher} (hlawful : m.loc.Lawful) {c : CHAR} {b : List CHAR} :
    Follows m (m.fold c) b ↔ Follows m c b := by
  unfold Follows
  rw [escapes_fold hlawful, ne_eq, fold_slash hlawful]

namespace BracketSearch

variable {b : BracketSearch}

/-- The rest of the pattern that is answered lies behind a text of the bracket expression, or
the bracket is taken as it stands. -/
def Answers (b : BracketSearch) (Text : List CHAR → Prop) (p : List CHAR) (x : Option (List CHAR)) :
    Prop :=
  ∀ q, x = some q → q = b.savep ∨ ∃ t, p = t ++ q ∧ Text t

theorem answers_unmatched (Text : List CHAR → Prop) (p : List CHAR) :
    b.Answers Text p b.unmatched := by
  intro q h
  unfold unmatched at h
  split_ifs at h
  exact .inl (Option.some.inj h).symm

theorem Answers.behind {Text Text' : List CHAR → Prop} {t p : List CHAR} {x : Option (List CHAR)}
    (h : b.Answers Text p x) (hText : ∀ t', Text t' → Text' (t ++ t')) :
    b.Answers Text' (t ++ p) x := by
  intro q hq
  rcases h q hq with hsave | ⟨t', rfl, ht'⟩
  · exact .inl hsave
  · exact .inr ⟨t ++ t', (List.append_assoc _ _ _).symm, hText t' ht'⟩

section

variable (hpathname : b.m.flags.pathname = true) (hlawful : b.m.loc.Lawful)

theorem answers_noMatch {p : List CHAR} : b.Answers (· = []) p (b.noMatch p) := by
  intro q h
  unfold noMatch at h
  split_ifs at h
  cases h
  exact .inr ⟨[], rfl, rfl⟩

include hpathname

theorem answers_matched (p : List CHAR) : b.Answers (Plain b.m) p (b.matched p) := by
  intro q h
  unfold matched at h
  cases hskip : b.m.skipBracket (p.length + 1) p with
  | none =>
      rw [hskip] at h
      exact answers_unmatched _ p q h
  | some rest =>
      rw [hskip] at h
      dsimp only at h
      split_ifs at h
      cases h
      exact .inr (skipBracket_plain hpathname hskip)

theorem rangeChar_plain {c cend : CHAR} {p p' : List CHAR} {collated : Bool}
    (h : b.rangeChar c p = some (cend, p', collated)) :
    c ≠ slash ∧ ∃ t, p = t ++ p' ∧ Plain b.m t := by
  unfold rangeChar at h
  split_ifs at h with hslash
  refine ⟨ne_slash hpathname hslash, ?_⟩
  cases hfound : b.m.symbolAt dot c p with
  | none =>
      rw [hfound] at h
      cases h
      exact ⟨[], rfl, .nil⟩
  | some found =>
      rw [hfound] at h
      cases h
      obtain ⟨-, t, ht, hplain⟩ := symbolAt_plain hpathname (by decide) hfound
      exact ⟨t, ht, hplain⟩

theorem rangeEnd_plain {p p' : List CHAR} {cend : CHAR} {collated : Bool}
    (h : b.rangeEnd p = some (cend, p', collated)) : ∃ t, p = t ++ p' ∧ Plain b.m t := by
  cases p with
  | nil => cases h
  | cons c p =>
      unfold rangeEnd at h
      dsimp only at h
      cases hescapes : b.m.escapes c with
      | false =>
          rw [hescapes, if_neg Bool.false_ne_true] at h
          obtain ⟨hc, t, rfl, ht⟩ := rangeChar_plain hpathname h
          exact ⟨c :: t, rfl, .char hc hescapes ht⟩
      | true =>
          rw [hescapes, if_pos rfl] at h
          cases p with
          | nil => cases h
          | cons d p =>
              obtain ⟨hd, t, rfl, ht⟩ := rangeChar_plain hpathname h
              exact ⟨c :: d :: t, rfl, .pair hescapes hd ht⟩

theorem elementStart_follows {c cstart : CHAR} {p p' : List CHAR} {forcecoll : Bool}
    (h : b.elementStart c p = some (cstart, p', forcecoll)) :
    ∃ t, p = t ++ p' ∧ Follows b.m c t := by
  unfold elementStart at h
  cases hfound : b.m.symbolAt dot c p with
  | some found =>
      rw [hfound] at h
      cases h
      obtain ⟨rfl, t, ht, hplain⟩ := symbolAt_plain hpathname (by decide) hfound
      refine ⟨t, ht, ?_⟩
      unfold Follows
      rw [escapes_of_ne (by decide), if_neg Bool.false_ne_true]
      exact ⟨by decide, hplain⟩
  | none =>
      rw [hfound] at h
      dsimp only at h
      cases hescapes : b.m.escapes c with
      | true =>
          rw [hescapes, if_pos rfl] at h
          cases p with
          | nil => cases h
          | cons d p =>
              dsimp only at h
              split_ifs at h with hslash
              cases h
              refine ⟨[_], rfl, ?_⟩
              unfold Follows
              rw [hescapes, if_pos rfl]
              exact ⟨_, [], rfl, ne_slash hpathname hslash, .nil⟩
      | false =>
          rw [hescapes, if_neg Bool.false_ne_true] at h
          split_ifs at h with hslash
          cases h
          refine ⟨[], rfl, ?_⟩
          unfold Follows
          rw [hescapes, if_neg Bool.false_ne_true]
          exact ⟨ne_slash hpathname hslash, .nil⟩

include hlawful

theorem answers_next {element : CHAR → List CHAR → Option (List CHAR)}
    (helement : ∀ c p, b.Answers (Follows b.m c) p (element c p)) (folds : Bool) (p : List CHAR) :
    b.Answers (Plain b.m) p (b.next element folds p) := by
  cases p with
  | nil => exact answers_unmatched _ _
  | cons c p =>
      unfold next
      dsimp only
      split_ifs with hslash hclose hfolds
      · exact answers_unmatched _ _
      · refine (answers_noMatch (p := p)).behind (t := [c]) ?_
        rintro _ rfl
        exact .char (ne_slash hpathname hslash) (escapes_of_ne (by rw [hclose]; decide)) .nil
      · exact (helement (b.m.fold c) p).behind (t := [c]) fun t ht =>
          ((follows_fold hlawful).mp ht).plain
      · exact (helement c p).behind (t := [c]) fun t ht => ht.plain

theorem answers_elementEnd {element : CHAR → List CHAR → Option (List CHAR)}
    (helement : ∀ c p, b.Answers (Follows b.m c) p (element c p)) (cstart : CHAR) (forcecoll : Bool)
    (p : List CHAR) : b.Answers (Plain b.m) p (b.elementEnd element cstart forcecoll p) := by
  cases p with
  | nil => exact answers_unmatched _ _
  | cons c p =>
      unfold elementEnd
      dsimp only
      split_ifs with hslash hrange hsame hclose
      · exact answers_unmatched _ _
      · have hc : c ≠ slash := fun h => hslash (by
          rw [slashPathname_iff hpathname, fold_slash hlawful]
          exact h)
        have hescapes : b.m.escapes c = false := by
          refine escapes_of_ne fun h => ?_
          have hfold := (fold_backslash hlawful c).mpr h
          rw [hrange.1] at hfold
          exact absurd hfold (by decide)
        cases hend : b.rangeEnd p with
        | none => exact answers_unmatched _ _
        | some found =>
            obtain ⟨cend, p', collated⟩ := found
            obtain ⟨t, rfl, ht⟩ := rangeEnd_plain hpathname hend
            have hbehind {x : Option (List CHAR)} (hx : b.Answers (Plain b.m) p' x) :
                b.Answers (Plain b.m) (c :: (t ++ p')) x :=
              hx.behind (t := c :: t) fun t' ht' => .char hc hescapes (ht.append ht')
            dsimp only
            split_ifs
            · exact hbehind (answers_next hpathname hlawful helement true p')
            · exact hbehind (answers_matched hpathname p')
            · exact hbehind (answers_next hpathname hlawful helement false p')
      · exact answers_matched hpathname (c :: p)
      · refine (answers_noMatch (p := p)).behind (t := [c]) ?_
        rintro _ rfl
        refine .char (fun h => hslash ?_) (escapes_of_ne fun h => ?_) .nil
        · rw [slashPathname_iff hpathname, fold_slash hlawful]
          exact h
        · have hfold := (fold_backslash hlawful c).mpr h
          rw [hclose] at hfold
          exact absurd hfold (by decide)
      · exact (helement (b.m.fold c) p).behind (t := [c]) fun t ht =>
          ((follows_fold hlawful).mp ht).plain

theorem answers_loop (fuel : ℕ) : ∀ c p, b.Answers (Follows b.m c) p (b.loop fuel c p) := by
  induction fuel with
  | zero => intro c p q h; cases h
  | succ fuel ih =>
      intro c p
      have hsymbol {type : CHAR} (htype : type ≠ slash ∧ type ≠ backslash)
          {found : List CHAR × List CHAR} (hfound : b.m.symbolAt type c p = some found)
          {x : Option (List CHAR)} (hx : b.Answers (Plain b.m) found.2 x) :
          b.Answers (Follows b.m c) p x := by
        obtain ⟨rfl, t, ht, hplain⟩ := symbolAt_plain hpathname htype hfound
        rw [ht]
        refine hx.behind fun t' ht' => ?_
        unfold Follows
        rw [escapes_of_ne (by decide), if_neg Bool.false_ne_true]
        exact ⟨by decide, hplain.append ht'⟩
      unfold loop
      cases hequiv : b.m.symbolAt equals c p with
      | some found =>
          dsimp only
          split_ifs
          · exact hsymbol (by decide) hequiv (answers_matched hpathname _)
          · exact hsymbol (by decide) hequiv (answers_next hpathname hlawful ih true _)
      | none =>
          cases hclass : b.m.symbolAt colon c p with
          | some found =>
              dsimp only
              split_ifs
              · exact hsymbol (by decide) hclass (answers_matched hpathname _)
              · exact hsymbol (by decide) hclass (answers_next hpathname hlawful ih true _)
          | none =>
              cases hstart : b.elementStart c p with
              | none => exact answers_unmatched _ _
              | some found =>
                  obtain ⟨cstart, p', forcecoll⟩ := found
                  obtain ⟨t, rfl, ht⟩ := elementStart_follows hpathname hstart
                  exact (answers_elementEnd hpathname hlawful ih _ _ p').behind fun t' ht' =>
                    ht.append ht'

end

end BracketSearch

/-- `BRACKMATCH` goes past a text without a slash, or past nothing. -/
theorem brackmatch_plain {m : Matcher} (hpathname : m.flags.pathname = true)
    (hlawful : m.loc.Lawful) {p q : List CHAR} {x : CHAR} (h : m.brackmatch p x = some q) :
    ∃ t, p = t ++ q ∧ Plain m t := by
  have hanswers : ∀ {b : BracketSearch}, b.m = m → ∀ r q, (match r with
      | [] => b.unmatched
      | c :: p => b.loop (p.length + 1) c p) = some q → q = b.savep ∨ ∃ t, r = t ++ q ∧ Plain m t := by
    rintro b rfl r q h
    cases r with
    | nil => exact BracketSearch.answers_unmatched (Plain b.m) [] q h
    | cons c p =>
        exact (BracketSearch.answers_loop hpathname hlawful _ c p).behind (t := [c])
          (fun t ht => ht.plain) q h
  unfold Matcher.brackmatch at h
  dsimp only at h
  rcases hanswers rfl _ q h with hsave | ⟨t, ht, hplain⟩
  · exact ⟨[], hsave.symm, .nil⟩
  · split_ifs at ht with hnot
    · obtain ⟨c, rest, rfl⟩ : ∃ c rest, p = c :: rest := by
        cases p with
        | nil => simp at hnot
        | cons c rest => exact ⟨c, rest, rfl⟩
      refine ⟨c :: t, by rw [List.cons_append, ← ht]; rfl, .char ?_ (escapes_of_ne ?_) hplain⟩
      · rintro rfl
        simp only [List.head?_cons, Option.some.injEq] at hnot
        exact absurd hnot (by decide)
      · rintro rfl
        simp only [List.head?_cons, Option.some.injEq] at hnot
        exact absurd hnot (by decide)
    · exact ⟨t, ht, hplain⟩

/-! ## Up to the next slash -/

section

variable {m : Matcher} (hpathname : m.flags.pathname = true) (z : List CHAR)

include hpathname

theorem subbracketEnd_slash {type : CHAR} (p : List CHAR) :
    m.subbracketEnd type (p ++ slash :: z) =
      (m.subbracketEnd type p).map fun found => (found.1, found.2 ++ slash :: z) := by
  have hstop : m.slashPathname slash = true := (slashPathname_iff hpathname slash).mpr rfl
  induction p with
  | nil =>
      change m.subbracketEnd type (slash :: z) = none
      rw [Matcher.subbracketEnd, if_pos hstop]
  | cons c p ih =>
      rw [List.cons_append, Matcher.subbracketEnd, Matcher.subbracketEnd]
      by_cases hslash : m.slashPathname c = true
      · rw [if_pos hslash, if_pos hslash]
        rfl
      rw [if_neg hslash, if_neg hslash]
      by_cases hend : type ≠ dot ∧ c = rbrack
      · rw [if_pos hend, if_pos hend]
        rfl
      rw [if_neg hend, if_neg hend, ih]
      cases p with
      | nil =>
          have hopen : ¬ (c = type ∧ ([] ++ slash :: z).head? = some rbrack) := fun h =>
            absurd (Option.some.inj h.2) (by decide)
          rw [if_neg hopen, if_neg (by simp)]
          rfl
      | cons d p =>
          by_cases hclose : c = type ∧ (d :: p).head? = some rbrack
          · rw [if_pos hclose,
              if_pos (show c = type ∧ (d :: p ++ slash :: z).head? = some rbrack from hclose)]
            rfl
          · rw [if_neg hclose,
              if_neg (show ¬ (c = type ∧ (d :: p ++ slash :: z).head? = some rbrack) from hclose),
              Option.map_map, Option.map_map]
            rfl

theorem symbolAt_slash {type c : CHAR} (htype : type ≠ slash) (p : List CHAR) :
    m.symbolAt type c (p ++ slash :: z) =
      (m.symbolAt type c p).map fun found => (found.1, found.2 ++ slash :: z) := by
  unfold Matcher.symbolAt
  cases p with
  | nil =>
      have hhead : ¬ (slash :: z).head? = some type := fun h => htype (Option.some.inj h).symm
      rw [List.nil_append, if_neg fun h => hhead h.2, if_neg (by simp)]
      rfl
  | cons d p =>
      by_cases hopen : c = lbrack ∧ (d :: p).head? = some type
      · rw [if_pos hopen, if_pos (show c = lbrack ∧ (d :: p ++ slash :: z).head? = some type from hopen)]
        exact subbracketEnd_slash hpathname z p
      · rw [if_neg hopen,
          if_neg (show ¬ (c = lbrack ∧ (d :: p ++ slash :: z).head? = some type) from hopen)]
        rfl

theorem anySymbolAt_slash (c : CHAR) (p : List CHAR) :
    m.anySymbolAt c (p ++ slash :: z) =
      (m.anySymbolAt c p).map fun found => (found.1, found.2 ++ slash :: z) := by
  unfold Matcher.anySymbolAt
  rw [symbolAt_slash hpathname z (by decide), symbolAt_slash hpathname z (by decide),
    symbolAt_slash hpathname z (by decide)]
  cases m.symbolAt equals c p with
  | some found => rfl
  | none =>
      cases m.symbolAt colon c p with
      | some found => rfl
      | none => rfl

theorem skipBracket_slash (k : ℕ) : ∀ {k' : ℕ} {p : List CHAR}, p.length < k →
    p.length + z.length + 1 < k' →
    m.skipBracket k' (p ++ slash :: z) = (m.skipBracket k p).map (· ++ slash :: z) := by
  have hstop : m.slashPathname slash = true := (slashPathname_iff hpathname slash).mpr rfl
  induction k with
  | zero => intro k' p h; exact absurd h (Nat.not_lt_zero _)
  | succ k ih =>
      intro k' p hk hk'
      obtain ⟨k', rfl⟩ := Nat.exists_eq_succ_of_ne_zero (by omega : k' ≠ 0)
      cases p with
      | nil =>
          rw [List.nil_append, skipBracket_cons, if_pos hstop]
          rfl
      | cons c p =>
          rw [List.length_cons] at hk hk'
          rw [List.cons_append, skipBracket_cons, skipBracket_cons, anySymbolAt_slash hpathname z]
          by_cases hslash : m.slashPathname c = true
          · rw [if_pos hslash, if_pos hslash]
            rfl
          rw [if_neg hslash, if_neg hslash]
          cases hsymbol : m.anySymbolAt c p with
          | some found =>
              obtain ⟨-, b, hb, -⟩ := anySymbolAt_plain hpathname hsymbol
              have hlen := congrArg List.length hb
              rw [List.length_append] at hlen
              exact ih (by omega) (by omega)
          | none =>
              dsimp only [Option.map_none]
              by_cases hclose : c = rbrack
              · rw [if_pos hclose, if_pos hclose]
                rfl
              rw [if_neg hclose, if_neg hclose]
              by_cases hescapes : m.escapes c = true
              · rw [if_pos hescapes, if_pos hescapes]
                cases p with
                | nil =>
                    dsimp only [List.nil_append]
                    rw [if_pos hstop]
                    rfl
                | cons d p =>
                    rw [List.length_cons] at hk hk'
                    dsimp only [List.cons_append]
                    split_ifs
                    · rfl
                    · exact ih (by omega) (by omega)
              · rw [if_neg hescapes, if_neg hescapes]
                exact ih (by omega) (by omega)

end

namespace BracketSearch

/-- The same search where a slash follows. -/
def before (b : BracketSearch) (z : List CHAR) : BracketSearch :=
  { b with savep := b.savep ++ slash :: z }

variable {b : BracketSearch} (hpathname : b.m.flags.pathname = true) (z : List CHAR)

theorem unmatched_slash : (b.before z).unmatched = b.unmatched.map (· ++ slash :: z) := by
  change (if b.test = lbrack then _ else _) = _
  unfold unmatched
  split_ifs <;> rfl

theorem noMatch_slash (p : List CHAR) :
    (b.before z).noMatch (p ++ slash :: z) = (b.noMatch p).map (· ++ slash :: z) := by
  change (if b.not then _ else _) = _
  unfold noMatch
  split_ifs <;> rfl

include hpathname

theorem matched_slash (p : List CHAR) :
    (b.before z).matched (p ++ slash :: z) = (b.matched p).map (· ++ slash :: z) := by
  have hskip := @skipBracket_slash _ hpathname z (p.length + 1) ((p ++ slash :: z).length + 1) p
    (by omega) (by simp)
  have hm : (b.before z).m = b.m := rfl
  have hnot : (b.before z).not = b.not := rfl
  unfold matched
  rw [hm, hnot, hskip, unmatched_slash]
  cases b.m.skipBracket (p.length + 1) p with
  | none => rfl
  | some rest =>
      dsimp only [Option.map_some]
      split_ifs <;> rfl

theorem stop_slash : b.m.slashPathname slash = true := (slashPathname_iff hpathname slash).mpr rfl

theorem rangeChar_slash (c : CHAR) (p : List CHAR) :
    (b.before z).rangeChar c (p ++ slash :: z) =
      (b.rangeChar c p).map fun found => (found.1, found.2.1 ++ slash :: z, found.2.2) := by
  change (if b.m.slashPathname c then none else _) = _
  unfold rangeChar
  split_ifs
  · rfl
  · rw [show (b.before z).m.symbolAt dot c (p ++ slash :: z) = _ from
      symbolAt_slash hpathname z (by decide) p]
    cases b.m.symbolAt dot c p <;> rfl

theorem rangeEnd_slash (p : List CHAR) : (b.before z).rangeEnd (p ++ slash :: z) =
    (b.rangeEnd p).map fun found => (found.1, found.2.1 ++ slash :: z, found.2.2) := by
  have hstop (r : List CHAR) : (b.before z).rangeChar slash r = none :=
    if_pos (stop_slash hpathname)
  cases p with
  | nil =>
      change (if b.m.escapes slash then _ else (b.before z).rangeChar slash z) = none
      rw [if_neg (by rw [escapes_of_ne (by decide)]; exact Bool.false_ne_true), hstop]
  | cons c p =>
      change (if b.m.escapes c then _ else (b.before z).rangeChar c (p ++ slash :: z)) = _
      unfold rangeEnd
      dsimp only
      by_cases hescapes : b.m.escapes c = true
      · rw [if_pos hescapes, if_pos hescapes]
        cases p with
        | nil => exact hstop z
        | cons d p => exact rangeChar_slash hpathname z d p
      · rw [if_neg hescapes, if_neg hescapes]
        exact rangeChar_slash hpathname z c p

theorem next_slash {element element' : CHAR → List CHAR → Option (List CHAR)} {n : ℕ}
    (helement : ∀ c p, p.length < n →
      element' c (p ++ slash :: z) = (element c p).map (· ++ slash :: z))
    (folds : Bool) (p : List CHAR) (hp : p.length ≤ n) :
    (b.before z).next element' folds (p ++ slash :: z) =
      (b.next element folds p).map (· ++ slash :: z) := by
  cases p with
  | nil =>
      change (if b.m.slashPathname slash then (b.before z).unmatched else _) = _
      rw [if_pos (stop_slash hpathname)]
      exact unmatched_slash z
  | cons c p =>
      rw [List.length_cons] at hp
      change (if b.m.slashPathname c then (b.before z).unmatched
        else if c = rbrack then (b.before z).noMatch (p ++ slash :: z)
        else element' (if folds then b.m.fold c else c) (p ++ slash :: z)) = _
      unfold next
      dsimp only
      by_cases hslash : b.m.slashPathname c = true
      · rw [if_pos hslash, if_pos hslash]
        exact unmatched_slash z
      rw [if_neg hslash, if_neg hslash]
      by_cases hclose : c = rbrack
      · rw [if_pos hclose, if_pos hclose]
        exact noMatch_slash z p
      rw [if_neg hclose, if_neg hclose]
      exact helement _ p (by omega)

theorem elementStart_slash (c : CHAR) (p : List CHAR) :
    (b.before z).elementStart c (p ++ slash :: z) =
      (b.elementStart c p).map fun found => (found.1, found.2.1 ++ slash :: z, found.2.2) := by
  have hstop := stop_slash hpathname
  unfold elementStart
  rw [show (b.before z).m.symbolAt dot c (p ++ slash :: z) = _ from
    symbolAt_slash hpathname z (by decide) p]
  cases b.m.symbolAt dot c p with
  | some found => rfl
  | none =>
      dsimp only [Option.map_none]
      change (if b.m.escapes c then _ else if b.m.slashPathname c then none else _) = _
      by_cases hescapes : b.m.escapes c = true
      · rw [if_pos hescapes, if_pos hescapes]
        cases p with
        | nil => exact if_pos hstop
        | cons d p =>
            change (if b.m.slashPathname d then none else some (d, p ++ slash :: z, false)) = _
            dsimp only
            split_ifs <;> rfl
      · rw [if_neg hescapes, if_neg hescapes]
        split_ifs <;> rfl

theorem elementEnd_slash (hlawful : b.m.loc.Lawful)
    {element element' : CHAR → List CHAR → Option (List CHAR)} {n : ℕ}
    (helement : ∀ c p, p.length < n →
      element' c (p ++ slash :: z) = (element c p).map (· ++ slash :: z))
    (cstart : CHAR) (forcecoll : Bool) (p : List CHAR) (hp : p.length ≤ n) :
    (b.before z).elementEnd element' cstart forcecoll (p ++ slash :: z) =
      (b.elementEnd element cstart forcecoll p).map (· ++ slash :: z) := by
  cases p with
  | nil =>
      change (if b.m.slashPathname (b.m.fold slash) then (b.before z).unmatched else _) = _
      rw [(fold_slash hlawful slash).mpr rfl, if_pos (stop_slash hpathname)]
      exact unmatched_slash z
  | cons c p =>
      rw [List.length_cons] at hp
      have hhead : (p ++ slash :: z).head? ≠ some rbrack ↔ p.head? ≠ some rbrack := by
        cases p with
        | nil => exact ⟨fun _ => by simp, fun _ h => absurd (Option.some.inj h) (by decide)⟩
        | cons d p => exact Iff.rfl
      have hbefore : (b.before z).m = b.m := rfl
      have hsubject : (b.before z).test = b.test := rfl
      rw [List.cons_append]
      unfold elementEnd
      dsimp only
      rw [hbefore, hsubject]
      by_cases hslash : b.m.slashPathname (b.m.fold c) = true
      · rw [if_pos hslash, if_pos hslash]
        exact unmatched_slash z
      rw [if_neg hslash, if_neg hslash]
      by_cases hrange : b.m.fold c = minus ∧ p.head? ≠ some rbrack
      · rw [if_pos hrange, if_pos ⟨hrange.1, hhead.mpr hrange.2⟩, rangeEnd_slash hpathname z]
        cases hend : b.rangeEnd p with
        | none => exact unmatched_slash z
        | some found =>
            obtain ⟨cend, p', collated⟩ := found
            obtain ⟨t, ht, -⟩ := rangeEnd_plain hpathname hend
            have hlen : p'.length ≤ n := by
              have := congrArg List.length ht
              rw [List.length_append] at this
              omega
            dsimp only [Option.map_some]
            by_cases hempty : 0 < b.m.loc.rangecmp cstart (b.m.fold cend) (forcecoll || collated)
            · rw [if_pos hempty, if_pos hempty]
              exact next_slash hpathname z helement true p' hlen
            rw [if_neg hempty, if_neg hempty]
            split_ifs
            · exact matched_slash hpathname z p'
            · exact next_slash hpathname z helement false p' hlen
      rw [if_neg hrange, if_neg fun h => hrange ⟨h.1, hhead.mp h.2⟩]
      by_cases hsame : b.test = cstart
      · rw [if_pos hsame, if_pos hsame]
        exact matched_slash hpathname z (c :: p)
      rw [if_neg hsame, if_neg hsame]
      by_cases hclose : b.m.fold c = rbrack
      · rw [if_pos hclose, if_pos hclose]
        exact noMatch_slash z p
      rw [if_neg hclose, if_neg hclose]
      exact helement _ p (by omega)

theorem loop_slash (hlawful : b.m.loc.Lawful) (k : ℕ) : ∀ {k' : ℕ} {c : CHAR} {p : List CHAR},
    p.length < k → p.length + z.length + 1 < k' →
    (b.before z).loop k' c (p ++ slash :: z) = (b.loop k c p).map (· ++ slash :: z) := by
  induction k with
  | zero => intro k' c p h; exact absurd h (Nat.not_lt_zero _)
  | succ k ih =>
      intro k' c p hk hk'
      obtain ⟨k', rfl⟩ := Nat.exists_eq_succ_of_ne_zero (by omega : k' ≠ 0)
      -- the calls behind the first element read a shorter rest
      have helement (n : ℕ) (hn : n ≤ p.length) (c : CHAR) (q : List CHAR) (hq : q.length < n) :
          (b.before z).loop k' c (q ++ slash :: z) = (b.loop k c q).map (· ++ slash :: z) :=
        ih (by omega) (by omega)
      have hshorter {type : CHAR} (htype : type ≠ slash ∧ type ≠ backslash)
          {found : List CHAR × List CHAR} (hfound : b.m.symbolAt type c p = some found) :
          found.2.length ≤ p.length := by
        obtain ⟨-, t, ht, -⟩ := symbolAt_plain hpathname htype hfound
        have := congrArg List.length ht
        rw [List.length_append] at this
        omega
      have hm : (b.before z).m = b.m := rfl
      have htest : (b.before z).test = b.test := rfl
      have horig : (b.before z).origTest = b.origTest := rfl
      unfold loop
      rw [hm, symbolAt_slash hpathname z (by decide), symbolAt_slash hpathname z (by decide),
        elementStart_slash hpathname z, htest, horig]
      cases hequiv : b.m.symbolAt equals c p with
      | some found =>
          dsimp only [Option.map_some]
          split_ifs
          · exact matched_slash hpathname z found.2
          · exact next_slash hpathname z (helement _ (hshorter (by decide) hequiv)) true found.2
              (Nat.le_refl _)
      | none =>
          dsimp only [Option.map_none]
          cases hclass : b.m.symbolAt colon c p with
          | some found =>
              dsimp only [Option.map_some]
              split_ifs
              · exact matched_slash hpathname z found.2
              · exact next_slash hpathname z (helement _ (hshorter (by decide) hclass)) true
                  found.2 (Nat.le_refl _)
          | none =>
              dsimp only [Option.map_none]
              cases hstart : b.elementStart c p with
              | none => exact unmatched_slash z
              | some found =>
                  obtain ⟨cstart, p', forcecoll⟩ := found
                  obtain ⟨t, ht, -⟩ := elementStart_follows hpathname hstart
                  have hlen : p'.length ≤ p.length := by
                    have := congrArg List.length ht
                    rw [List.length_append] at this
                    omega
                  exact elementEnd_slash hpathname z hlawful (helement _ hlen) _ _ p'
                    (Nat.le_refl _)

end BracketSearch

theorem search_slash {b : BracketSearch} (hpathname : b.m.flags.pathname = true)
    (hlawful : b.m.loc.Lawful) (z r : List CHAR) :
    (match r ++ slash :: z with
      | [] => (b.before z).unmatched
      | c :: p => (b.before z).loop (p.length + 1) c p) =
    (match r with
      | [] => b.unmatched
      | c :: p => b.loop (p.length + 1) c p).map (· ++ slash :: z) := by
  cases r with
  | nil =>
      -- a slash is no element
      have hstart : (b.before z).elementStart slash z = none := by
        change (if b.m.escapes slash then _ else if b.m.slashPathname slash then none else _) = none
        rw [escapes_of_ne (by decide), if_neg Bool.false_ne_true,
          if_pos (BracketSearch.stop_slash hpathname)]
      change (b.before z).loop (z.length + 1) slash z = _
      rw [BracketSearch.loop, hstart]
      exact BracketSearch.unmatched_slash z
  | cons c p =>
      exact BracketSearch.loop_slash hpathname z hlawful _ (Nat.lt_succ_self _) (by simp)

/-- What `BRACKMATCH` does depends on the pattern up to the next slash. -/
theorem brackmatch_slash {m : Matcher} (hpathname : m.flags.pathname = true)
    (hlawful : m.loc.Lawful) (z p : List CHAR) (x : CHAR) :
    m.brackmatch (p ++ slash :: z) x = (m.brackmatch p x).map (· ++ slash :: z) := by
  unfold Matcher.brackmatch
  dsimp only
  cases p with
  | nil =>
      rw [List.nil_append, List.head?_cons]
      by_cases h : some slash = some exclamation ∨ some slash = some caret
      · exact absurd h (by decide)
      · rw [if_neg h]
        exact @search_slash { m := m, origTest := x, not := false, savep := [] } hpathname hlawful
          z []
  | cons c p =>
      rw [List.cons_append, List.head?_cons, List.head?_cons]
      let search : BracketSearch :=
        { m := m, origTest := x, not := decide (some c = some exclamation ∨ some c = some caret)
          savep := c :: p }
      have hsearch := @search_slash search hpathname hlawful z
      by_cases h : some c = some exclamation ∨ some c = some caret
      · rw [if_pos h, if_pos h]
        exact hsearch p
      · rw [if_neg h, if_neg h]
        exact hsearch (c :: p)

end Pathname

end Rash
