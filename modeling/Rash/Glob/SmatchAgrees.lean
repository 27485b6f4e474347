import Rash.Glob.BracketAgrees
import Rash.Glob.Smatch

/-!
# The matcher finds every match

`GMATCH` returns 0 for the strings in the language of the pattern and no others.  Behind a
star it settles for the leftmost place where the characters up to the next star fit, which
loses no match, and its look-ahead only passes over places where the first character does not
fit.
-/

namespace Rash

namespace Glob

open Wildcard

/-- The pattern ends in a backslash that no other backslash stands before. -/
def endsInBackslash : List UInt8 → Bool
  | [] => false
  | [c] => c == backslash
  | c :: d :: p => if c = backslash then endsInBackslash p else endsInBackslash (d :: p)

/-- A backslash at the end that escapes nothing.  Under `FNM_NOESCAPE` it stands for itself,
but not where `FNM_LEADING_DIR` would have more of the string follow. -/
def danglingBackslash (flags : MatchFlags) (p : List UInt8) : Bool :=
  if flags.noescape then flags.leadingDir && p.getLast? == some backslash
  else endsInBackslash p

def plainUpTo (flags : MatchFlags) : ℕ → List UInt8 → Bool
  | 0, _ => true
  | _ + 1, [] => true
  | fuel + 1, c :: p =>
      (c != lbrack || plainBracket flags p) && plainUpTo flags fuel (firstToken flags c p).2

/-- All bracket expressions of the pattern are plain. -/
def plainPattern (flags : MatchFlags) (p : List UInt8) : Bool := plainUpTo flags p.length p

theorem firstToken_suffix (flags : MatchFlags) (c : UInt8) (p : List UInt8) :
    (firstToken flags c p).2 <:+ p := by
  simp only [firstToken]
  split
  · exact List.suffix_refl p
  · split
    · exact List.suffix_refl p
    · split
      · cases p with
        | nil => exact List.suffix_refl _
        | cons d p => exact List.suffix_cons d p
      · split
        · cases hexpr : bracketExpr flags p with
          | none => exact List.suffix_refl p
          | some found => exact (List.suffix_cons _ _).trans (bracketExpr_suffix hexpr)
        · exact List.suffix_refl p

theorem tokensUpTo_fuel {flags : MatchFlags} {k k' : ℕ} {p : List UInt8} (hk : p.length ≤ k)
    (hk' : p.length ≤ k') : tokensUpTo flags k p = tokensUpTo flags k' p := by
  induction k generalizing k' p with
  | zero =>
      obtain rfl := List.eq_nil_of_length_eq_zero (Nat.le_zero.mp hk)
      cases k' <;> rfl
  | succ k ih =>
      cases p with
      | nil => cases k' <;> rfl
      | cons c p =>
          have hlen := (firstToken_suffix flags c p).length_le
          simp only [List.length_cons] at hk hk'
          obtain _ | k' := k'
          · omega
          · simp only [tokensUpTo]
            rw [ih (by omega) (show (firstToken flags c p).2.length ≤ k' by omega)]

@[simp] theorem tokens_nil (flags : MatchFlags) : tokens flags [] = [] := rfl

theorem tokens_cons (flags : MatchFlags) (c : UInt8) (p : List UInt8) :
    tokens flags (c :: p) = (firstToken flags c p).1 :: tokens flags (firstToken flags c p).2 := by
  rw [tokens, List.length_cons, tokensUpTo, tokens,
    tokensUpTo_fuel (firstToken_suffix flags c p).length_le (Nat.le_refl _)]

theorem plainUpTo_fuel {flags : MatchFlags} {k k' : ℕ} {p : List UInt8} (hk : p.length ≤ k)
    (hk' : p.length ≤ k') : plainUpTo flags k p = plainUpTo flags k' p := by
  induction k generalizing k' p with
  | zero =>
      obtain rfl := List.eq_nil_of_length_eq_zero (Nat.le_zero.mp hk)
      cases k' <;> rfl
  | succ k ih =>
      cases p with
      | nil => cases k' <;> rfl
      | cons c p =>
          have hlen := (firstToken_suffix flags c p).length_le
          simp only [List.length_cons] at hk hk'
          obtain _ | k' := k'
          · omega
          · simp only [plainUpTo]
            rw [ih (by omega) (show (firstToken flags c p).2.length ≤ k' by omega)]

theorem plainPattern_cons (flags : MatchFlags) (c : UInt8) (p : List UInt8) :
    plainPattern flags (c :: p) =
      ((c != lbrack || plainBracket flags p) && plainPattern flags (firstToken flags c p).2) := by
  rw [plainPattern, List.length_cons, plainUpTo, plainPattern,
    plainUpTo_fuel (firstToken_suffix flags c p).length_le (Nat.le_refl _)]

theorem endsInBackslash_cons {d : UInt8} (hd : d ≠ backslash) (rest : List UInt8) :
    endsInBackslash (d :: rest) = endsInBackslash rest := by
  cases rest with
  | nil => simp [endsInBackslash, hd]
  | cons e rest => rw [endsInBackslash, if_neg hd]

/-- What stands behind another character does not depend on what stands before it. -/
theorem endsInBackslash_append (front : List UInt8) {d : UInt8} (hd : d ≠ backslash)
    (rest : List UInt8) : endsInBackslash (front ++ d :: rest) = endsInBackslash rest := by
  induction front using endsInBackslash.induct with
  | case1 => exact endsInBackslash_cons hd rest
  | case2 c =>
      rw [List.singleton_append, endsInBackslash]
      split
      · rfl
      · exact endsInBackslash_cons hd rest
  | case3 e p ih =>
      rw [List.cons_append, List.cons_append, endsInBackslash, if_pos rfl]
      exact ih
  | case4 c e p hc ih =>
      rw [List.cons_append, List.cons_append, endsInBackslash, if_neg hc]
      exact ih

theorem endsInBackslash_rest {flags : MatchFlags} {c : UInt8} {p : List UInt8}
    (hesc : flags.noescape = false) (h : endsInBackslash (c :: p) = false) :
    endsInBackslash (firstToken flags c p).2 = false := by
  simp only [firstToken]
  split
  next hc => rwa [endsInBackslash_cons (by rw [hc]; decide)] at h
  next =>
      split
      next hc => rwa [endsInBackslash_cons (by rw [hc]; decide)] at h
      next =>
          split
          next hc =>
              cases p with
              | nil => rfl
              | cons d p => rwa [endsInBackslash, if_pos hc.1] at h
          next hc =>
              have hp : endsInBackslash p = false := by
                rwa [endsInBackslash_cons fun hb => hc ⟨hb, hesc⟩] at h
              split
              · cases hexpr : bracketExpr flags p with
                | none => exact hp
                | some found =>
                    obtain ⟨front, hfront⟩ := bracketExpr_suffix hexpr
                    rw [← hfront, endsInBackslash_append front (by decide)] at hp
                    exact hp
              · exact hp

theorem danglingBackslash_rest {flags : MatchFlags} {c : UInt8} {p : List UInt8}
    (h : danglingBackslash flags (c :: p) = false) :
    danglingBackslash flags (firstToken flags c p).2 = false := by
  simp only [danglingBackslash] at h ⊢
  cases hesc : flags.noescape with
  | false =>
      rw [hesc] at h
      exact endsInBackslash_rest hesc h
  | true =>
      rw [hesc] at h
      obtain ⟨front, hfront⟩ := (firstToken_suffix flags c p).trans (List.suffix_cons c p)
      cases hrest : (firstToken flags c p).2 with
      | nil => simp
      | cons d rest =>
          rw [← hfront, hrest, List.getLast?_append] at h
          simpa using h

/-- The patterns that the claims of this module are about. -/
structure Fine (flags : MatchFlags) (p : List UInt8) : Prop where
  plain : plainPattern flags p = true
  dangling : danglingBackslash flags p = false

theorem Fine.bracket {flags : MatchFlags} {p : List UInt8} (h : Fine flags (lbrack :: p)) :
    plainBracket flags p = true := by
  have hplain := h.plain
  rw [plainPattern_cons, Bool.and_eq_true] at hplain
  simpa using hplain.1

theorem Fine.rest {flags : MatchFlags} {c : UInt8} {p : List UInt8} (h : Fine flags (c :: p)) :
    Fine flags (firstToken flags c p).2 := by
  have hplain := h.plain
  rw [plainPattern_cons, Bool.and_eq_true] at hplain
  exact ⟨hplain.2, danglingBackslash_rest h.dangling⟩

/-- A token takes the next character of the string, or the match ends. -/
def takeToken (f : UInt8 → Bool) (goOn : List UInt8 → MatchEnd) : List UInt8 → MatchEnd
  | [] => .noMatch
  | x :: m => if f x then goOn m else .noMatch

theorem takeToken_accepts {f : UInt8 → Bool} {goOn : List UInt8 → MatchEnd}
    {stop : List UInt8 → Prop} {p : List (Token UInt8)} {n : List UInt8}
    (h : ∀ x m, n = x :: m → (goOn m = .matched ↔ Accepts stop p m)) :
    takeToken f goOn n = .matched ↔ Accepts stop (.one f :: p) n := by
  cases n with
  | nil => simp [takeToken]
  | cons x m =>
      rw [takeToken, accepts_one_cons, ← h x m rfl]
      by_cases hx : f x = true <;> simp [hx]

section Steps

variable {flags : MatchFlags} {dotdot ends : Bool} {string n : List UInt8} {fuel : ℕ}
  {c : UInt8} {p : List UInt8}

theorem gmatch_nil : gmatch flags dotdot ends string (fuel + 1) n [] =
    if Rest flags n then .matched else .noMatch := by
  simp only [gmatch, Rest]
  by_cases hn : n = []
  · simp [hn]
  · simp [hn]

theorem gmatch_question (hhidden : hidden dotdot string n = false) :
    gmatch flags dotdot ends string (fuel + 1) n (question :: p) =
      takeToken (fun _ => true) (fun m => gmatch flags dotdot ends string fuel m p) n := by
  have hfold : fold flags question = question := (fold_eq_iff flags (by decide)).mpr rfl
  simp only [gmatch, hfold, if_true]
  cases n with
  | nil => rfl
  | cons x m => simp [hhidden, takeToken]

theorem gmatch_escaped {d : UInt8} (hesc : flags.noescape = false) :
    gmatch flags dotdot ends string (fuel + 1) n (backslash :: d :: p) =
      takeToken (fun x => fold flags x == fold flags d)
        (fun m => gmatch flags dotdot ends string fuel m p) n := by
  have hfold : fold flags backslash = backslash := (fold_eq_iff flags (by decide)).mpr rfl
  simp only [gmatch, hfold, hesc, if_true, if_neg (show ¬backslash = question by decide)]
  cases n with
  | nil => rfl
  | cons x m => simp [takeToken]

theorem gmatch_bracket (hhidden : hidden dotdot string n = false) (hp : plainBracket flags p = true) :
    gmatch flags dotdot ends string (fuel + 1) n (lbrack :: p) =
      match bracketExpr flags p with
      | none => takeToken (fun x => fold flags x == fold flags lbrack)
          (fun m => gmatch flags dotdot ends string fuel m p) n
      | some (e, rest) => takeToken (e.accepts flags)
          (fun m => gmatch flags dotdot ends string fuel m rest) n := by
  have hfold : fold flags lbrack = lbrack := (fold_eq_iff flags (by decide)).mpr rfl
  simp only [gmatch, hfold, if_neg (show ¬lbrack = question by decide),
    if_neg (show ¬lbrack = backslash by decide), if_neg (show ¬lbrack = star by decide), if_true]
  cases n with
  | nil => cases bracketExpr flags p <;> rfl
  | cons x m =>
      simp only [brackmatch_eq hp, hhidden, Bool.false_eq_true, if_false]
      cases bracketExpr flags p with
      | none => by_cases hx : fold flags x = lbrack <;> simp [takeToken, hx]
      | some found => by_cases hx : found.1.accepts flags x = true <;> simp [takeToken, hx]

/-- A backslash under `FNM_NOESCAPE` is a character like the others. -/
theorem gmatch_same (hquestion : c ≠ question) (hstar : c ≠ star) (hlbrack : c ≠ lbrack)
    (hback : c = backslash → flags.noescape = true) (hfine : Fine flags (c :: p))
    (hfuel : p.length < fuel) :
    gmatch flags dotdot ends string (fuel + 1) n (c :: p) =
      takeToken (fun x => fold flags x == fold flags c)
        (fun m => gmatch flags dotdot ends string fuel m p) n := by
  have hfold' : ∀ k, isAlpha k = false → ∀ c, fold flags c = k ↔ c = k := fun k hk _ =>
    fold_eq_iff flags hk
  have hfold : ∀ k, isAlpha k = false → (fold flags c = k ↔ c = k) := fun k hk => hfold' k hk c
  simp only [gmatch, hfold question (by decide), hfold backslash (by decide),
    hfold star (by decide), hfold lbrack (by decide), if_neg hquestion, if_neg hstar,
    if_neg hlbrack]
  by_cases hc : c = backslash
  · have hesc := hback hc
    simp only [if_pos hc, hesc, Bool.true_eq_false, if_false]
    have hsame : ∀ x, fold flags x = fold flags c ↔ x = backslash := by
      intro x
      rw [hc, (hfold' backslash (by decide) backslash).mpr rfl]
      exact hfold' backslash (by decide) x
    cases p with
    | nil =>
        -- the last backslash has to be the last character of the string
        obtain _ | fuel := fuel
        · omega
        have hdangling := hfine.dangling
        simp only [danglingBackslash, hesc, if_true, hc, List.getLast?_singleton, BEq.rfl,
          Bool.and_true] at hdangling
        cases n with
        | nil => rfl
        | cons x m =>
            simp only [takeToken, beq_iff_eq, hsame, gmatch_nil, Rest, hdangling,
              Bool.false_eq_true, false_and, or_false, List.cons.injEq, List.tail_cons]
            by_cases hx : x = backslash <;> by_cases hm : m = [] <;> simp [hx, hm]
    | cons d q =>
        cases n with
        | nil => rfl
        | cons x m =>
            simp only [takeToken, beq_iff_eq]
            by_cases hx : fold flags x = fold flags c <;> simp [hx]
  · simp only [if_neg hc]
    cases n with
    | nil => rfl
    | cons x m =>
        simp only [takeToken, beq_iff_eq]
        by_cases hx : fold flags x = fold flags c
        · simp [hx]
        · simp [hx, Ne.symm hx]

/-- One character of the string against one token of the pattern. -/
theorem gmatch_token (hfine : Fine flags (c :: p)) (hstar : c ≠ star)
    (hhidden : c = question ∨ c = lbrack → hidden dotdot string n = false)
    (hfuel : p.length < fuel) :
    ∃ f, (firstToken flags c p).1 = .one f ∧
      gmatch flags dotdot ends string (fuel + 1) n (c :: p) =
        takeToken f (fun m => gmatch flags dotdot ends string fuel m (firstToken flags c p).2)
          n := by
  by_cases hquestion : c = question
  · simp only [firstToken, if_pos hquestion]
    refine ⟨_, rfl, ?_⟩
    rw [hquestion, gmatch_question (hhidden (.inl hquestion))]
  by_cases hback : c = backslash ∧ flags.noescape = false
  · cases p with
    | nil =>
        have hdangling := hfine.dangling
        simp [danglingBackslash, hback, endsInBackslash] at hdangling
    | cons d p =>
        simp only [firstToken, if_neg hquestion, if_neg hstar, if_pos hback]
        refine ⟨_, rfl, ?_⟩
        rw [hback.1, gmatch_escaped hback.2]
  by_cases hlbrack : c = lbrack
  · rw [hlbrack] at hfine
    simp only [firstToken, if_neg hquestion, if_neg hstar, if_neg hback, if_pos hlbrack]
    rw [hlbrack, gmatch_bracket (hhidden (.inr hlbrack)) hfine.bracket]
    cases bracketExpr flags p with
    | none => exact ⟨_, rfl, rfl⟩
    | some found => exact ⟨_, rfl, rfl⟩
  · simp only [firstToken, if_neg hquestion, if_neg hstar, if_neg hback, if_neg hlbrack]
    refine ⟨_, rfl, ?_⟩
    exact gmatch_same hquestion hstar hlbrack
      (fun hc => eq_true_of_ne_false fun hesc => hback ⟨hc, hesc⟩) hfine hfuel

end Steps

/-- How a call with `ends` comes out: it stops at the next star if the tokens before it fit. -/
inductive SegmentEnd (flags : MatchFlags) (p n : List UInt8) : MatchEnd → Prop
  | noFit (h : ¬Fits (segment (tokens flags p)).1 n) : SegmentEnd flags p n .noMatch
  | last (hrest : (segment (tokens flags p)).2 = []) (hfits : Fits (segment (tokens flags p)).1 n)
      (hstop : Rest flags (n.drop (segment (tokens flags p)).1.length)) :
      SegmentEnd flags p n .matched
  | tooLong (hrest : (segment (tokens flags p)).2 = [])
      (hstop : ¬Rest flags (n.drop (segment (tokens flags p)).1.length)) :
      SegmentEnd flags p n .noMatch
  | atStar {q : List UInt8} (hfits : Fits (segment (tokens flags p)).1 n)
      (hrest : tokens flags (star :: q) = (segment (tokens flags p)).2)
      (hfine : Fine flags (star :: q)) (hlen : (star :: q).length ≤ p.length) :
      SegmentEnd flags p n (.atStar (star :: q) (n.drop (segment (tokens flags p)).1.length))

theorem firstToken_star (flags : MatchFlags) (p : List UInt8) :
    firstToken flags star p = (.star, p) := by
  simp only [firstToken, if_neg (show ¬star = question by decide), if_true]

theorem tokens_star (flags : MatchFlags) (p : List UInt8) :
    tokens flags (star :: p) = .star :: tokens flags p := by
  rw [tokens_cons, firstToken_star]

theorem hidden_false (string n : List UInt8) : hidden false string n = false := rfl

theorem gmatch_segment {flags : MatchFlags} {fuel : ℕ} {string p n : List UInt8}
    (hfine : Fine flags p) (hfuel : p.length < fuel) :
    SegmentEnd flags p n (gmatch flags false true string fuel n p) := by
  induction fuel generalizing p n with
  | zero => omega
  | succ fuel ih =>
      cases p with
      | nil =>
          rw [gmatch_nil]
          split
          next hstop => exact .last rfl trivial hstop
          next hstop => exact .tooLong rfl hstop
      | cons c p =>
          simp only [List.length_cons] at hfuel
          by_cases hstar : c = star
          · have hfold : fold flags star = star := (fold_eq_iff flags (by decide)).mpr rfl
            subst hstar
            have htokens : segment (tokens flags (star :: p)) = ([], tokens flags (star :: p)) := by
              rw [tokens_star]
              rfl
            have hend : gmatch flags false true string (fuel + 1) n (star :: p) =
                .atStar (star :: p) (n.drop (segment (tokens flags (star :: p))).1.length) := by
              rw [htokens]
              simp only [gmatch, hfold, if_neg (show ¬star = question by decide),
                if_neg (show ¬star = backslash by decide), if_true]
              rfl
            rw [hend]
            exact .atStar (by rw [htokens]; trivial) (by rw [htokens]) hfine (Nat.le_refl _)
          · obtain ⟨f, hf, hstep⟩ := @gmatch_token flags false true string n fuel c p hfine hstar
              (fun _ => hidden_false string n) (Nat.lt_of_succ_lt_succ hfuel)
            have hlen := (firstToken_suffix flags c p).length_le
            have htokens : segment (tokens flags (c :: p)) =
                (f :: (segment (tokens flags (firstToken flags c p).2)).1,
                  (segment (tokens flags (firstToken flags c p).2)).2) := by
              rw [tokens_cons, hf]
              rfl
            rw [hstep]
            cases n with
            | nil => exact .noFit (by rw [htokens]; exact id)
            | cons x m =>
                simp only [takeToken]
                split
                next hx =>
                  have hend := @ih (firstToken flags c p).2 m hfine.rest (by omega)
                  generalize gmatch flags false true string fuel m (firstToken flags c p).2 = r
                    at hend
                  cases hend with
                  | noFit h => exact .noFit (by rw [htokens]; exact fun hfits => h hfits.2)
                  | last hrest hfits hstop =>
                      exact .last (by rw [htokens]; exact hrest) (by rw [htokens]; exact ⟨hx, hfits⟩)
                        (by rw [htokens]; exact hstop)
                  | tooLong hrest hstop =>
                      exact .tooLong (by rw [htokens]; exact hrest) (by rw [htokens]; exact hstop)
                  | @atStar q hfits hrest hfine' hlen' =>
                      have hstop : SegmentEnd flags (c :: p) (x :: m) (.atStar (star :: q)
                          ((x :: m).drop (segment (tokens flags (c :: p))).1.length)) :=
                        .atStar (by rw [htokens]; exact ⟨hx, hfits⟩) (by rw [htokens]; exact hrest)
                          hfine' (by simp only [List.length_cons] at hlen' ⊢; omega)
                      rw [htokens] at hstop
                      exact hstop
                next hx => exact .noFit (by rw [htokens]; exact fun hfits => hx hfits.1)

/-- What the loop that collapses stars and question marks leaves to be matched. -/
inductive CollapsedTo (flags : MatchFlags) (p n : List UInt8) : Collapsed → Prop
  | tooShort (h : ¬Accepts (Rest flags) (.star :: tokens flags p) n) :
      CollapsedTo flags p n .tooShort
  | atEnd (h : Accepts (Rest flags) (.star :: tokens flags p) n) : CollapsedTo flags p n .atEnd
  | general {c : UInt8} {q m : List UInt8} (hquestion : c ≠ question) (hstar : c ≠ star)
      (hfine : Fine flags (c :: q)) (hlen : (c :: q).length ≤ p.length) (hm : m <:+ n)
      (h : Accepts (Rest flags) (.star :: tokens flags p) n ↔
        Accepts (Rest flags) (.star :: tokens flags (c :: q)) m) :
      CollapsedTo flags p n (.general (c :: q) m)

theorem collapse_collapsedTo {flags : MatchFlags} {p : List UInt8} (hfine : Fine flags p)
    (n : List UInt8) : CollapsedTo flags p n (collapse p n) := by
  induction p generalizing n with
  | nil => exact .atEnd (accepts_star_nil (.inl rfl))
  | cons c p ih =>
      simp only [collapse]
      by_cases hquestion : c = question
      · have hfirst : firstToken flags c p = (.one fun _ => true, p) := by
          simp only [firstToken, if_pos hquestion]
        have hrest : Fine flags p := by
          have h := hfine.rest
          rwa [hfirst] at h
        have htokens : tokens flags (c :: p) = .one (fun _ => true) :: tokens flags p := by
          rw [tokens_cons, hfirst]
        rw [if_pos hquestion]
        cases n with
        | nil =>
            apply CollapsedTo.tooShort
            rw [htokens]
            exact not_accepts_star_one_nil _
        | cons x n =>
            have hiff : Accepts (Rest flags) (.star :: tokens flags (c :: p)) (x :: n) ↔
                Accepts (Rest flags) (.star :: tokens flags p) n := by
              rw [htokens]
              exact accepts_star_one fun _ => rfl
            dsimp only
            generalize hend : collapse p n = r
            have hcoll := ih hrest n
            rw [hend] at hcoll
            cases hcoll with
            | tooShort h => exact .tooShort (hiff.not.mpr h)
            | atEnd h => exact .atEnd (hiff.mpr h)
            | general hq hs hf hlen hm h =>
                exact .general hq hs hf (Nat.le_succ_of_le hlen) (hm.trans (List.suffix_cons x n))
                  (hiff.trans h)
      · rw [if_neg hquestion]
        by_cases hstar : c = star
        · subst hstar
          have hrest : Fine flags p := by
            have h := hfine.rest
            rwa [firstToken_star] at h
          have hiff : Accepts (Rest flags) (.star :: tokens flags (star :: p)) n ↔
              Accepts (Rest flags) (.star :: tokens flags p) n := by
            rw [tokens_star]
            exact accepts_star_star
          rw [if_pos rfl]
          generalize hend : collapse p n = r
          have hcoll := ih hrest n
          rw [hend] at hcoll
          cases hcoll with
          | tooShort h => exact .tooShort (hiff.not.mpr h)
          | atEnd h => exact .atEnd (hiff.mpr h)
          | general hq hs hf hlen hm h =>
              exact .general hq hs hf (Nat.le_succ_of_le hlen) hm (hiff.trans h)
        · rw [if_neg hstar]
          exact .general hquestion hstar hfine (Nat.le_refl _) (List.suffix_refl n) Iff.rfl

/-- The loop over the positions finds the first one that the call does not refuse. -/
theorem tryPositions_first (skip : UInt8 → Bool) (gmatch : List UInt8 → MatchEnd)
    (n : List UInt8) :
    (tryPositions skip gmatch n = .noMatch ∧
        ∀ x t, x :: t <:+ n → skip x = true ∨ gmatch (x :: t) = .noMatch) ∨
      ∃ x t, x :: t <:+ n ∧ gmatch (x :: t) ≠ .noMatch ∧
        tryPositions skip gmatch n = gmatch (x :: t) ∧
        ∀ y u, y :: u <:+ n → (x :: t).length < (y :: u).length →
          skip y = true ∨ gmatch (y :: u) = .noMatch := by
  induction n with
  | nil =>
      refine .inl ⟨rfl, fun x t h => ?_⟩
      exact absurd (List.suffix_nil.mp h) (by simp)
  | cons z n ih =>
      have hlater : skip z = true ∨ gmatch (z :: n) = .noMatch →
          tryPositions skip gmatch (z :: n) = tryPositions skip gmatch n := by
        intro hz
        simp only [tryPositions]
        split
        · rfl
        next hskip => rw [hz.resolve_left hskip]
      by_cases hz : skip z = true ∨ gmatch (z :: n) = .noMatch
      · rw [hlater hz]
        rcases ih with ⟨hnone, hall⟩ | ⟨x, t, hxt, hne, heq, hall⟩
        · refine .inl ⟨hnone, fun x t h => ?_⟩
          rcases List.suffix_cons_iff.mp h with heq | h
          · cases heq
            exact hz
          · exact hall x t h
        · refine .inr ⟨x, t, hxt.trans (List.suffix_cons z n), hne, heq, fun y u h hlt => ?_⟩
          rcases List.suffix_cons_iff.mp h with heq | h
          · cases heq
            exact hz
          · exact hall y u h hlt
      · rw [not_or] at hz
        refine .inr ⟨z, n, List.suffix_refl _, hz.2, ?_, fun y u h hlt => ?_⟩
        · simp only [tryPositions, if_neg hz.1]
          split
          next hnone => exact absurd hnone hz.2
          next => rfl
        · exact absurd h.length_le (by omega)

/-- The look-ahead of the general case. -/
def lookAhead (flags : MatchFlags) (c : UInt8) (q : List UInt8) (x : UInt8) : Bool :=
  c != lbrack &&
    fold flags x != fold flags (if flags.noescape = false ∧ c = backslash then q.headD 0 else c)

/-- The look-ahead passes over characters that the first token does not take. -/
theorem lookAhead_rejects {flags : MatchFlags} {c : UInt8} {q : List UInt8}
    (hquestion : c ≠ question) (hstar : c ≠ star) {x : UInt8} (h : lookAhead flags c q x = true)
    {f : UInt8 → Bool} (hf : (firstToken flags c q).1 = .one f) : f x = false := by
  simp only [lookAhead, Bool.and_eq_true, bne_iff_ne, ne_eq] at h
  simp only [firstToken, if_neg hquestion, if_neg hstar, if_neg h.1] at hf
  by_cases hback : c = backslash ∧ flags.noescape = false
  · rw [if_pos hback] at hf
    rw [if_pos hback.symm] at h
    cases q with
    | nil =>
        cases hf
        rfl
    | cons d q =>
        cases hf
        simpa using h.2
  · rw [if_neg hback] at hf
    rw [if_neg fun hc => hback hc.symm] at h
    cases hf
    simpa using h.2

/-- The general case behind a star that does not end the pattern. -/
theorem tryPositions_accepts {flags : MatchFlags} {fuel : ℕ} {c : UInt8} {q m : List UInt8}
    (hquestion : c ≠ question) (hstar : c ≠ star) (hfine : Fine flags (c :: q))
    (hfuel : (c :: q).length < fuel) :
    match tryPositions (lookAhead flags c q)
        (fun n => gmatch flags false true n fuel n (c :: q)) m with
    | .noMatch => ¬Accepts (Rest flags) (.star :: tokens flags (c :: q)) m
    | .matched => Accepts (Rest flags) (.star :: tokens flags (c :: q)) m
    | .atStar p n => n <:+ m ∧ p.length ≤ (c :: q).length ∧ Fine flags p ∧
        (Accepts (Rest flags) (.star :: tokens flags (c :: q)) m ↔
          Accepts (Rest flags) (tokens flags p) n) := by
  obtain ⟨f, hf, -⟩ := @gmatch_token flags false true m m fuel c q hfine hstar
    (fun _ => hidden_false m m) (Nat.lt_of_succ_lt hfuel)
  have htokens : tokens flags (c :: q) = .one f :: tokens flags (firstToken flags c q).2 := by
    rw [tokens_cons, hf]
  have hseg : ∀ n, SegmentEnd flags (c :: q) n (gmatch flags false true n fuel n (c :: q)) :=
    fun n => gmatch_segment hfine hfuel
  have hskip : ∀ {x t}, lookAhead flags c q x = true →
      ¬Fits (segment (tokens flags (c :: q))).1 (x :: t) := by
    intro x t hx hfits
    rw [htokens] at hfits
    exact absurd hfits.1 (by simp [lookAhead_rejects hquestion hstar hx hf])
  have hrefused : ∀ {x t}, lookAhead flags c q x = true ∨
      gmatch flags false true (x :: t) fuel (x :: t) (c :: q) = .noMatch →
      ¬Accepts (Rest flags) (tokens flags (c :: q)) (x :: t) := by
    intro x t hx haccepts
    rw [accepts_segment] at haccepts
    rcases hx with hx | hx
    · exact hskip hx haccepts.1
    · have hend := hseg (x :: t)
      rw [hx] at hend
      cases hend with
      | noFit h => exact h haccepts.1
      | tooLong hrest hstop =>
          rw [hrest] at haccepts
          exact hstop haccepts.2
  have hempty : ¬Accepts (Rest flags) (tokens flags (c :: q)) [] := by
    rw [htokens]
    exact not_accepts_one_nil f
  rcases tryPositions_first (lookAhead flags c q)
    (fun n => gmatch flags false true n fuel n (c :: q)) m with
    ⟨hnone, hall⟩ | ⟨x, t, hxt, hne, heq, hall⟩
  · rw [hnone]
    rintro ⟨t, ht, haccepts⟩
    cases t with
    | nil => exact hempty haccepts
    | cons x t => exact hrefused (hall x t ht) haccepts
  · rw [heq]
    have hend := hseg (x :: t)
    generalize gmatch flags false true (x :: t) fuel (x :: t) (c :: q) = r at hend hne
    cases hend with
    | noFit => exact absurd rfl hne
    | tooLong => exact absurd rfl hne
    | last hrest hfits hstop =>
        refine ⟨x :: t, hxt, ?_⟩
        rw [accepts_segment, hrest]
        exact ⟨hfits, hstop⟩
    | @atStar r hfits hrest hfine' hlen =>
        refine ⟨(List.drop_suffix _ _).trans hxt, hlen, hfine', ?_⟩
        rw [tokens_star] at hrest ⊢
        refine accepts_star_leftmost hrest.symm hxt hfits ?_
        intro u hu hlt hufits
        cases u with
        | nil => simp at hlt
        | cons y u =>
            rcases hall y u hu hlt with hy | hy
            · exact hskip hy hufits
            · have huend := hseg (y :: u)
              rw [hy] at huend
              cases huend with
              | noFit h => exact h hufits
              | tooLong hnil =>
                  rw [hnil] at hrest
                  cases hrest

theorem Fine.star_rest {flags : MatchFlags} {p : List UInt8} (h : Fine flags (star :: p)) :
    Fine flags p := by
  have hrest := h.rest
  rwa [firstToken_star] at hrest

/-- The loop of `GMATCH`, from a place in the string where `FNM_DOTDOT` keeps nothing from it. -/
theorem gmatch_accepts {flags : MatchFlags} {dotdot : Bool} {fuel : ℕ} {string p n : List UInt8}
    (hfine : Fine flags p) (hfuel : p.length < fuel)
    (hhidden : ∀ m, m <:+ n → hidden dotdot string m = false) :
    gmatch flags dotdot false string fuel n p = .matched ↔
      Accepts (Rest flags) (tokens flags p) n := by
  induction fuel generalizing p n with
  | zero => omega
  | succ fuel ih =>
      cases p with
      | nil =>
          rw [gmatch_nil]
          by_cases hstop : Rest flags n
          · simp [hstop, Accepts]
          · simp [hstop, Accepts]
      | cons c p =>
          simp only [List.length_cons] at hfuel
          by_cases hstar : c = star
          · subst hstar
            have hfold : fold flags star = star := (fold_eq_iff flags (by decide)).mpr rfl
            simp only [gmatch, hfold, if_neg (show ¬star = question by decide),
              if_neg (show ¬star = backslash by decide), if_true, Bool.false_eq_true, if_false,
              hhidden n (List.suffix_refl n), tokens_star]
            have hcoll := collapse_collapsedTo hfine.star_rest n
            generalize collapse p n = r at hcoll
            cases hcoll with
            | tooShort h => simp [h]
            | atEnd h => simp [h]
            | @general c q m hquestion hstar hfine' hlen hm h =>
                have htry := @tryPositions_accepts flags fuel c q m hquestion hstar hfine'
                  (by omega)
                rw [h]
                change (match tryPositions (lookAhead flags c q)
                    (fun n => gmatch flags false true n fuel n (c :: q)) m with
                  | .noMatch => MatchEnd.noMatch
                  | .matched => .matched
                  | .atStar p n => gmatch flags dotdot false string fuel n p) = .matched ↔ _
                generalize tryPositions (lookAhead flags c q)
                  (fun n => gmatch flags false true n fuel n (c :: q)) m = r at htry
                cases r with
                | noMatch => simpa using htry
                | matched => simpa using htry
                | atStar p' n' =>
                    obtain ⟨hn', hlen', hfine'', hiff⟩ := htry
                    rw [hiff]
                    exact ih hfine'' (by omega) fun m' hm' => hhidden m' (hm'.trans (hn'.trans hm))
          · obtain ⟨f, hf, hstep⟩ := @gmatch_token flags dotdot false string n fuel c p hfine hstar
              (fun _ => hhidden n (List.suffix_refl n)) (Nat.lt_of_succ_lt_succ hfuel)
            have hlen := (firstToken_suffix flags c p).length_le
            rw [hstep, tokens_cons, hf]
            apply takeToken_accepts
            rintro x m rfl
            exact ih hfine.rest (by omega) fun m' hm' =>
              hhidden m' (hm'.trans (List.suffix_cons x m))

theorem hidden_eq_true {dotdot : Bool} {string : List UInt8} :
    hidden dotdot string string = true ↔
      dotdot = true ∧ (string = [dot] ∨ string = [dot, dot]) := by
  simp [hidden, dotOrDotdot]

/-- A shorter rest of the string is not hidden. -/
theorem hidden_of_shorter (dotdot : Bool) {string m n : List UInt8} (hm : m <:+ n)
    (hn : n.length < string.length) : hidden dotdot string m = false := by
  have hlen : m.length ≠ string.length := by
    have hle := hm.length_le
    omega
  simp [hidden, hlen]

theorem gmatch_hidden {flags : MatchFlags} {dotdot : Bool} {fuel : ℕ} {c : UInt8}
    {p string : List UInt8} (hc : c = question ∨ c = star ∨ c = lbrack)
    (hhidden : hidden dotdot string string = true) :
    gmatch flags dotdot false string (fuel + 1) string (c :: p) = .noMatch := by
  have hfold : ∀ k, isAlpha k = false → fold flags k = k := fun k hk =>
    (fold_eq_iff flags hk).mpr rfl
  rcases hc with rfl | rfl | rfl
  · simp only [gmatch, hfold question (by decide), if_true]
    cases string with
    | nil => rfl
    | cons x m => simp only [hhidden, if_true]
  · simp only [gmatch, hfold star (by decide), if_neg (show ¬star = question by decide),
      if_neg (show ¬star = backslash by decide), if_true, Bool.false_eq_true, if_false, hhidden]
  · simp only [gmatch, hfold lbrack (by decide), if_neg (show ¬lbrack = question by decide),
      if_neg (show ¬lbrack = backslash by decide), if_neg (show ¬lbrack = star by decide), if_true]
    cases string with
    | nil => rfl
    | cons x m => simp only [hhidden, if_true]

/-- `FNM_DOTDOT` and one of the two strings it is about: the pattern has to begin with the
dot. -/
theorem gmatch_dotdot {flags : MatchFlags} {dotdot : Bool} {pattern string : List UInt8}
    (hfine : Fine flags pattern) (hhidden : hidden dotdot string string = true) :
    gmatch flags dotdot false string (pattern.length + 1) string pattern = .matched ↔
      Accepts (Rest flags) (tokens flags pattern) string ∧
        ¬∃ c ∈ pattern.head?, c = question ∨ c = star ∨ c = lbrack := by
  cases pattern with
  | nil =>
      rw [gmatch_nil]
      by_cases hstop : Rest flags string <;> simp [Accepts, hstop]
  | cons c p =>
      by_cases hc : c = question ∨ c = star ∨ c = lbrack
      · rw [List.length_cons, gmatch_hidden hc hhidden]
        simp [hc]
      · obtain ⟨f, hf, hstep⟩ := @gmatch_token flags dotdot false string string (p.length + 1) c p
          hfine (fun h => hc (.inr (.inl h)))
          (fun h => absurd (h.imp id .inr) hc) (Nat.lt_succ_self _)
        have hlen := (firstToken_suffix flags c p).length_le
        have hplainHead : ¬∃ d ∈ (c :: p).head?, d = question ∨ d = star ∨ d = lbrack := by
          rintro ⟨d, hd, hspecial⟩
          obtain rfl : c = d := by simpa using hd
          exact hc hspecial
        rw [List.length_cons, hstep, tokens_cons, hf, and_iff_left hplainHead]
        apply takeToken_accepts
        rintro x m rfl
        exact gmatch_accepts hfine.rest (by omega) fun m' hm' =>
          hidden_of_shorter dotdot hm' (Nat.lt_succ_self _)

/-- No flags. -/
def noFlags : MatchFlags := { noescape := false, leadingDir := false, casefold := false }

/-- The expression ends at its first closing bracket for some characters and at its second for
others. -/
example : internalStrmatch noFlags false (bytes "[xA-[:b:]]") (bytes "x") = true ∧
    internalStrmatch noFlags false (bytes "[xA-[:b:]]") (bytes "B]") = true := by decide

end Glob

end Rash
