import Rash.Glob.SlashSafety
import Mathlib.Tactic.SplitIfs

/-!
# Matching component by component

A match of `GMATCH` is one in which no wildcard takes a slash, but for a star at the end of the
pattern.  Without such a star the components of the pattern take those of the string.
-/

namespace Rash

namespace Pathname

/-- Nothing but `*` and `?`. -/
def Wild (w : List CHAR) : Prop := ∀ d ∈ w, d = question ∨ d = star

theorem Wild.count_slash {w : List CHAR} (h : Wild w) : w.count slash = 0 :=
  List.count_eq_zero.mpr fun hmem => by
    rcases h slash hmem with heq | heq <;> exact absurd heq (by decide)

theorem Plain.count_slash {m : Matcher} {t : List CHAR} (h : Plain m t) : t.count slash = 0 := by
  induction h with
  | nil => rfl
  | char hslash _ _ ih => rw [List.count_cons_of_ne hslash, ih]
  | pair hescapes hd _ ih =>
      rw [List.count_cons_of_ne (by rw [escapes_eq hescapes]; decide), List.count_cons_of_ne hd, ih]

/-! ## What the matcher takes -/

section

variable {m : Matcher} {loose : Bool}

theorem takes_star {p t s : List CHAR} (ht : slash ∉ t) (h : Takes m loose p s) :
    Takes m loose (star :: p) (t ++ s) := by
  induction t with
  | nil => exact .starDone h
  | cons x t ih =>
      exact .starMore (fun hx => ht (by rw [hx]; exact List.mem_cons_self))
        (ih fun hmem => ht (List.mem_cons_of_mem x hmem))

/-- The wildcards of a collapsed star, each `?` at its character. -/
theorem takes_wild {w p t s : List CHAR} (hw : Wild w) (ht : slash ∉ t)
    (hlen : t.length = w.count question) (h : Takes m loose p s) :
    Takes m loose (w ++ p) (t ++ s) := by
  induction w generalizing t with
  | nil =>
      rw [List.eq_nil_of_length_eq_zero hlen]
      exact h
  | cons c w ih =>
      have hrest : Wild w := fun d hd => hw d (List.mem_cons_of_mem c hd)
      rcases hw c List.mem_cons_self with rfl | rfl
      · rw [List.count_cons_self] at hlen
        cases t with
        | nil => cases hlen
        | cons x t =>
            exact .question (fun hx => ht (by rw [hx]; exact List.mem_cons_self))
              (ih hrest (fun hmem => ht (List.mem_cons_of_mem x hmem)) (Nat.succ.inj hlen))
      · rw [List.count_cons_of_ne (by decide)] at hlen
        exact .starDone (ih hrest ht hlen)

/-- A star and the wildcards behind it take a text that is long enough. -/
theorem takes_starWild {w p t s : List CHAR} (hw : Wild w) (ht : slash ∉ t)
    (hlen : w.count question ≤ t.length) (h : Takes m loose p s) :
    Takes m loose (star :: (w ++ p)) (t ++ s) := by
  have hsplit := List.take_append_drop (t.length - w.count question) t
  rw [← hsplit, List.append_assoc]
  refine takes_star (fun hmem => ht (List.mem_of_mem_take hmem))
    (takes_wild hw (fun hmem => ht (List.mem_of_mem_drop hmem)) ?_ h)
  rw [List.length_drop]
  omega

variable (hpathname : m.flags.pathname = true)

include hpathname

/-- The collapsed wildcards, and the text that their `?` have taken. -/
theorem collapse_general {p p' n n' : List CHAR} {before before' : Option CHAR}
    (h : m.collapse p before n = .general p' before' n') :
    ∃ w t, p = w ++ p' ∧ n = t ++ n' ∧ Wild w ∧ slash ∉ t ∧ t.length = w.count question := by
  induction p generalizing before n with
  | nil => cases h
  | cons c p ih =>
      unfold Matcher.collapse at h
      split_ifs at h with hwild hslash hgroup hquestion
      · cases n with
        | nil => cases h
        | cons x n =>
            obtain ⟨w, t, rfl, rfl, hw, ht, hlen⟩ := ih h
            refine ⟨c :: w, x :: t, rfl, rfl, List.forall_mem_cons.mpr ⟨hwild, hw⟩, ?_, ?_⟩
            · refine List.not_mem_cons_of_ne_of_not_mem (fun hx => hslash ?_) ht
              exact (slashPathname_iff hpathname x).mpr hx.symm
            · rw [hquestion, List.count_cons_self, List.length_cons, hlen]
      · obtain ⟨w, t, rfl, rfl, hw, ht, hlen⟩ := ih h
        refine ⟨c :: w, t, rfl, rfl, List.forall_mem_cons.mpr ⟨hwild, hw⟩, ht, ?_⟩
        rw [List.count_cons_of_ne hquestion, hlen]
      · cases h
        exact ⟨[], [], rfl, rfl, by simp [Wild], List.not_mem_nil, rfl⟩

omit hpathname in
theorem collapse_atEnd {p n : List CHAR} {before : Option CHAR}
    (h : m.collapse p before n = .atEnd) : Wild p ∧ p.count question ≤ n.length := by
  induction p generalizing before n with
  | nil => exact ⟨by simp [Wild], Nat.zero_le _⟩
  | cons c p ih =>
      unfold Matcher.collapse at h
      split_ifs at h with hwild hslash hgroup hquestion
      · cases n with
        | nil => cases h
        | cons x n =>
            obtain ⟨hw, hlen⟩ := ih h
            refine ⟨List.forall_mem_cons.mpr ⟨hwild, hw⟩, ?_⟩
            rw [hquestion, List.count_cons_self, List.length_cons]
            exact Nat.succ_le_succ hlen
      · obtain ⟨hw, hlen⟩ := ih h
        refine ⟨List.forall_mem_cons.mpr ⟨hwild, hw⟩, ?_⟩
        rw [List.count_cons_of_ne hquestion]
        exact hlen

/-- The call that decides is one before the next slash. -/
theorem tryPositions_result {skip : CHAR → Bool} {call : Option CHAR → List CHAR → MatchEnd}
    {before : Option CHAR} {n : List CHAR} {result : MatchEnd} (hresult : result ≠ .noMatch)
    (h : m.tryPositions skip call before n = result) :
    ∃ t n' before', n = t ++ n' ∧ slash ∉ t ∧ call before' n' = result := by
  induction n generalizing before with
  | nil => exact absurd h.symm hresult
  | cons x n ih =>
      have hcons (hx : ¬ m.slashPathname x = true)
          (hrest : m.tryPositions skip call (some x) n = result) :
          ∃ t n' before', x :: n = t ++ n' ∧ slash ∉ t ∧ call before' n' = result := by
        obtain ⟨t, n', before', rfl, ht, hcall⟩ := ih hrest
        exact ⟨x :: t, n', before', rfl,
          List.not_mem_cons_of_ne_of_not_mem (ne_slash hpathname hx).symm ht, hcall⟩
      unfold Matcher.tryPositions at h
      split_ifs at h with hslash hskip
      · exact absurd h.symm hresult
      · exact hcons hslash h
      · cases hcall : call before (x :: n) with
        | noMatch =>
            rw [hcall] at h
            exact hcons hslash h
        | matched =>
            rw [hcall] at h
            exact ⟨[], x :: n, before, rfl, List.not_mem_nil, hcall.trans h⟩
        | group =>
            rw [hcall] at h
            exact ⟨[], x :: n, before, rfl, List.not_mem_nil, hcall.trans h⟩
        | atStar p b s =>
            rw [hcall] at h
            exact ⟨[], x :: n, before, rfl, List.not_mem_nil, hcall.trans h⟩

omit hpathname in
/-- The string up to the next slash, where there is one. -/
theorem dropWhile_slash {n rest : List CHAR} {x : CHAR}
    (h : n.dropWhile (· != slash) = x :: rest) :
    x = slash ∧ ∃ t, n = t ++ x :: rest ∧ slash ∉ t := by
  induction n with
  | nil => cases h
  | cons c n ih =>
      rw [List.dropWhile_cons] at h
      split_ifs at h with hc
      · obtain ⟨hx, t, rfl, ht⟩ := ih h
        exact ⟨hx, c :: t, rfl, List.not_mem_cons_of_ne_of_not_mem (bne_iff_ne.mp hc).symm ht⟩
      · cases h
        exact ⟨by simpa using hc, [], rfl, List.not_mem_nil⟩

/-- What the end of a call says of the pattern and the string that it was called with. -/
def Sound (m : Matcher) (p n : List CHAR) : MatchEnd → Prop
  | .matched => Takes m true p n
  | .atStar p' _ n' => Takes m true p' n' → Takes m true p n
  | .noMatch | .group => True

omit hpathname in
theorem Sound.imp {p p' n n' : List CHAR} {result : MatchEnd} (h : Sound m p' n' result)
    (htakes : Takes m true p' n' → Takes m true p n) : Sound m p n result := by
  cases result with
  | matched => exact htakes h
  | atStar p'' before'' n'' => exact fun htaken => htakes (h htaken)
  | noMatch => trivial
  | group => trivial

section

variable {fuel : ℕ} (hlawful : m.loc.Lawful)
  (hcalls : ∀ leading ends string before n p,
    Sound m p n (gmatch m leading ends string fuel before n p))
  (leading ends : Bool) (string : List CHAR) (before : Option CHAR) (n p : List CHAR)

include hlawful hcalls

omit hpathname in
theorem gmatch_backslash :
    Sound m (backslash :: p) n
      (gmatch m leading ends string (fuel + 1) before n (backslash :: p)) := by
  have hfold : m.fold backslash = backslash := (fold_backslash hlawful backslash).mpr rfl
  have hgroup : ¬ m.groupAt (m.fold backslash) p = true := by
    rw [hfold, Matcher.groupAt, show [plus, star, question, commercialAt, exclamation].contains
      backslash = false from rfl, Bool.and_false]
    exact Bool.false_ne_true
  unfold gmatch
  rw [if_neg hgroup, if_neg (by rw [hfold]; decide), if_pos hfold]
  cases p with
  | nil =>
      dsimp only
      split_ifs with hn
      · rw [hn]
        exact .lastBackslash
      · trivial
  | cons d q =>
      cases n with
      | nil => trivial
      | cons x rest =>
          dsimp only
          by_cases hnoescape : m.flags.noescape = true
          · rw [if_pos hnoescape]
            split_ifs with hsame
            · trivial
            · refine (hcalls leading ends string (some x) rest (d :: q)).imp
                (.literal (by decide) (by decide) (by decide) ?_ (not_not.mp hsame).symm)
              unfold Matcher.escapes
              rw [hnoescape, Bool.not_true, Bool.false_and]
          · rw [if_neg hnoescape]
            split_ifs with hsame
            · trivial
            · refine (hcalls leading ends string (some x) rest q).imp
                (.escaped ?_ (not_not.mp hsame).symm)
              unfold Matcher.escapes
              rw [Bool.eq_false_iff.mpr hnoescape]
              rfl

theorem gmatch_star :
    Sound m (star :: p) n (gmatch m leading ends string (fuel + 1) before n (star :: p)) := by
  have hfold : m.fold star = star := (fold_special hlawful star (by decide)).mpr rfl
  unfold gmatch
  by_cases hgroup : m.groupAt (m.fold star) p = true
  · rw [if_pos hgroup]
    trivial
  rw [if_neg hgroup, if_neg (by rw [hfold]; decide), if_neg (by rw [hfold]; decide), if_pos hfold]
  by_cases hends : ends = true
  · rw [if_pos hends]
    exact id
  rw [if_neg hends]
  by_cases hhidden : (leading && m.hidden string before n) = true
  · rw [if_pos hhidden]
    trivial
  rw [if_neg hhidden]
  by_cases hlast : p = []
  · rw [if_pos hlast, hlast]
    exact .trailing rfl (by simp) (Nat.zero_le _)
  rw [if_neg hlast]
  cases hcollapse : m.collapse p before n with
  | noMatch => trivial
  | group => trivial
  | atEnd =>
      obtain ⟨hw, hlen⟩ := collapse_atEnd hcollapse
      exact .trailing rfl hw hlen
  | general p' before' n' =>
      cases p' with
      | nil => trivial
      | cons d q =>
          obtain ⟨w, t, rfl, rfl, hw, ht, hlen⟩ := collapse_general hpathname hcollapse
          have htakes {t' s : List CHAR} (ht' : slash ∉ t') (h : Takes m true (d :: q) s) :
              Takes m true (star :: (w ++ d :: q)) (t ++ (t' ++ s)) := by
            rw [← List.append_assoc]
            refine takes_starWild hw ?_ ?_ h
            · exact fun hmem => (List.mem_append.mp hmem).elim ht ht'
            · rw [List.length_append]
              omega
          dsimp only
          by_cases hnegated : n' = [] ∧ d = exclamation ∧ m.groupAt d q = true
          · rw [if_pos hnegated]
            trivial
          rw [if_neg hnegated]
          by_cases hslash : m.slashPathname d = true
          · -- the slash behind the star is the next one of the string
            rw [if_pos hslash]
            cases hdrop : n'.dropWhile (· != slash) with
            | nil => trivial
            | cons x rest =>
                obtain ⟨hx, t', rfl, ht'⟩ := dropWhile_slash hdrop
                obtain rfl := (slashPathname_iff hpathname d).mp hslash
                have hrest := hcalls leading false rest (some x) rest q
                dsimp only
                cases hcall : gmatch m leading false rest fuel (some x) rest q with
                | noMatch => trivial
                | group => trivial
                | atStar p'' before'' n'' => trivial
                | matched =>
                    rw [hcall] at hrest
                    refine htakes ht' (.literal (by decide) (by decide) (by decide)
                      (escapes_of_ne (by decide)) ?_ hrest)
                    rw [hx]
          · -- the rest is tried at every position up to the next slash
            rw [if_neg hslash]
            generalize htry : m.tryPositions _ _ before' n' = result
            cases result with
            | noMatch => trivial
            | group => trivial
            | matched =>
                obtain ⟨t', s, before'', rfl, ht', hcall⟩ :=
                  tryPositions_result hpathname (by simp) htry
                have hs := hcalls false true s before'' s (d :: q)
                rw [hcall] at hs
                exact htakes ht' hs
            | atStar p'' b n'' =>
                obtain ⟨t', s, before'', rfl, ht', hcall⟩ :=
                  tryPositions_result hpathname (by simp) htry
                have hs := hcalls false true s before'' s (d :: q)
                rw [hcall] at hs
                exact (hcalls leading ends string b n'' p'').imp fun h => htakes ht' (hs h)

end

theorem gmatch_sound (hleading : m.flags.leadingDir = false) (hlawful : m.loc.Lawful) (fuel : ℕ) :
    ∀ (leading ends : Bool) (string : List CHAR) (before : Option CHAR) (n p : List CHAR),
      Sound m p n (gmatch m leading ends string fuel before n p) := by
  induction fuel with
  | zero => exact fun _ _ _ _ _ _ => trivial
  | succ fuel ih =>
      intro leading ends string before n p
      cases p with
      | nil =>
          unfold gmatch
          split_ifs with hn hdir
          · rw [hn]
            exact .nil
          · rw [hleading] at hdir
            exact absurd hdir.1 Bool.false_ne_true
          · trivial
      | cons c p =>
          by_cases hbackslash : c = backslash
          · rw [hbackslash]
            exact gmatch_backslash hlawful ih leading ends string before n p
          by_cases hstar : c = star
          · rw [hstar]
            exact gmatch_star hpathname hlawful ih leading ends string before n p
          unfold gmatch
          by_cases hgroup : m.groupAt (m.fold c) p = true
          · rw [if_pos hgroup]
            trivial
          rw [if_neg hgroup]
          by_cases hquestion : m.fold c = question
          · rw [if_pos hquestion]
            cases n with
            | nil => trivial
            | cons x rest =>
                dsimp only
                split_ifs with hslash
                · trivial
                · have hx : x ≠ slash := ne_slash hpathname fun h => hslash (by rw [h]; rfl)
                  rw [(fold_special hlawful c (by decide)).mp hquestion]
                  exact (ih leading ends string (some x) rest p).imp (.question hx)
          rw [if_neg hquestion, if_neg fun h => hbackslash ((fold_backslash hlawful c).mp h),
            if_neg fun h => hstar ((fold_special hlawful c (by decide)).mp h)]
          by_cases hlbrack : m.fold c = lbrack
          · rw [if_pos hlbrack]
            obtain rfl := (fold_special hlawful c (by decide)).mp hlbrack
            cases n with
            | nil => trivial
            | cons x rest =>
                dsimp only
                by_cases hslash : (m.slashPathname x ||
                    leading && m.hidden string before (x :: rest)) = true
                · rw [if_pos hslash]
                  trivial
                · have hx : x ≠ slash := ne_slash hpathname fun h => hslash (by rw [h]; rfl)
                  rw [if_neg hslash]
                  cases hbracket : m.brackmatch p x with
                  | none => trivial
                  | some q => exact (ih leading ends string (some x) rest q).imp (.bracket hx hbracket)
          rw [if_neg hlbrack]
          cases n with
          | nil => trivial
          | cons x rest =>
              dsimp only
              split_ifs with hsame
              · trivial
              · refine (ih leading ends string (some x) rest p).imp
                  (.literal ?_ hstar ?_ (escapes_of_ne hbackslash) (not_not.mp hsame))
                · exact fun h => hquestion ((fold_special hlawful c (by decide)).mpr h)
                · exact fun h => hlbrack ((fold_special hlawful c (by decide)).mpr h)

end

/-! ## Slashes -/

section

variable {m : Matcher} (hpathname : m.flags.pathname = true) (hlawful : m.loc.Lawful)

include hpathname hlawful

/-- Each slash of the pattern takes one, and where no slash is left over no star has taken one. -/
theorem takes_slashes {loose : Bool} {p s : List CHAR} (h : Takes m loose p s) :
    p.count slash ≤ s.count slash ∧ (p.count slash = s.count slash → Takes m false p s) ∧
      (loose = false → p.count slash = s.count slash) := by
  induction h with
  | nil => exact ⟨Nat.le_refl _, fun _ => .nil, fun _ => rfl⟩
  | question hx _ ih =>
      rw [List.count_cons_of_ne hx, List.count_cons_of_ne (by decide)]
      exact ⟨ih.1, fun heq => .question hx (ih.2.1 heq), ih.2.2⟩
  | starDone _ ih =>
      rw [List.count_cons_of_ne (by decide)]
      exact ⟨ih.1, fun heq => .starDone (ih.2.1 heq), ih.2.2⟩
  | starMore hx _ ih =>
      rw [List.count_cons_of_ne hx]
      exact ⟨ih.1, fun heq => .starMore hx (ih.2.1 heq), ih.2.2⟩
  | @escaped p s c d x hc hd _ ih =>
      have hslash : d = slash ↔ x = slash := by
        rw [← fold_slash hlawful d, hd, fold_slash hlawful]
      rw [List.count_cons_of_ne (by rw [escapes_eq hc]; decide), List.count_cons, List.count_cons]
      simp only [beq_iff_eq, hslash, Nat.add_le_add_iff_right, Nat.add_right_cancel_iff]
      exact ⟨ih.1, fun heq => .escaped hc hd (ih.2.1 heq), ih.2.2⟩
  | lastBackslash => exact ⟨Nat.le_refl _, fun _ => .lastBackslash, fun _ => rfl⟩
  | @bracket p q s x hx hq _ ih =>
      obtain ⟨t, rfl, ht⟩ := brackmatch_plain hpathname hlawful hq
      rw [List.count_cons_of_ne hx, List.count_cons_of_ne (by decide), List.count_append,
        ht.count_slash, Nat.zero_add]
      exact ⟨ih.1, fun heq => .bracket hx hq (ih.2.1 heq), ih.2.2⟩
  | @literal p s c x hquestion hstar hlbrack hescapes hc _ ih =>
      have hslash : c = slash ↔ x = slash := by
        rw [← fold_slash hlawful c, hc, fold_slash hlawful]
      rw [List.count_cons, List.count_cons]
      simp only [beq_iff_eq, hslash, Nat.add_le_add_iff_right, Nat.add_right_cancel_iff]
      exact ⟨ih.1, fun heq => .literal hquestion hstar hlbrack hescapes hc (ih.2.1 heq), ih.2.2⟩
  | @trailing p s hloose hp hlen =>
      rw [List.count_cons_of_ne (by decide), Wild.count_slash hp]
      refine ⟨Nat.zero_le _, fun heq => ?_, fun h => absurd (hloose.symm.trans h) (by decide)⟩
      have hs : slash ∉ s := List.count_eq_zero.mp heq.symm
      have h := @takes_starWild m false _ [] _ [] hp hs hlen .nil
      rwa [List.append_nil, List.append_nil] at h

/-- A star is the last of the pattern's other characters only where it is so in the whole. -/
theorem takes_of_not_endsInStar {p s : List CHAR} (hend : ¬ EndsInStar p) (h : Takes m true p s) :
    Takes m false p s := by
  have hbehind {t q : List CHAR} (hend : ¬ EndsInStar (t ++ q)) : ¬ EndsInStar q := by
    rintro ⟨q, w, rfl, hw⟩
    exact hend ⟨t ++ q, w, (List.append_assoc _ _ _).symm, hw⟩
  induction h with
  | nil => exact .nil
  | question hx _ ih => exact .question hx (ih (hbehind (t := [question]) hend))
  | starDone _ ih => exact .starDone (ih (hbehind (t := [star]) hend))
  | starMore hx _ ih => exact .starMore hx (ih hend)
  | @escaped _ _ c d _ hc hd _ ih => exact .escaped hc hd (ih (hbehind (t := [c, d]) hend))
  | lastBackslash => exact .lastBackslash
  | bracket hx hq _ ih =>
      obtain ⟨t, rfl, -⟩ := brackmatch_plain hpathname hlawful hq
      exact .bracket hx hq (ih (hbehind (t := lbrack :: t) hend))
  | @literal _ _ c _ hquestion hstar hlbrack hescapes hc _ ih =>
      exact .literal hquestion hstar hlbrack hescapes hc (ih (hbehind (t := [c]) hend))
  | @trailing p _ _ hp _ => exact absurd ⟨[], p, rfl, hp⟩ hend

end

/-! ## Components -/

section

variable {m : Matcher}

theorem components_ne_nil (p : List CHAR) : ∃ q qs, m.components p = q :: qs := by
  induction hn : p.length using Nat.strong_induction_on generalizing p with
  | _ n ih =>
      match p with
      | [] => exact ⟨[], [], rfl⟩
      | [c] =>
          unfold Matcher.components
          split_ifs
          · exact ⟨_, _, rfl⟩
          · exact ⟨_, _, rfl⟩
      | c :: d :: p =>
          rw [List.length_cons, List.length_cons] at hn
          unfold Matcher.components
          split_ifs
          · obtain ⟨q, qs, h⟩ := ih p.length (by omega) p rfl
            rw [h]
            exact ⟨_, _, rfl⟩
          · exact ⟨_, _, rfl⟩
          · obtain ⟨q, qs, h⟩ := ih (d :: p).length (by rw [List.length_cons]; omega) (d :: p) rfl
            rw [h]
            exact ⟨_, _, rfl⟩

theorem onto_onto (a b : List CHAR) (cs : List (List CHAR)) :
    Matcher.onto a (Matcher.onto b cs) = Matcher.onto (a ++ b) cs := by
  cases cs with
  | nil => rfl
  | cons c cs => exact congrArg (· :: cs) (List.append_assoc a b c).symm

theorem components_char {c : CHAR} (hslash : c ≠ slash) (hescapes : m.escapes c = false)
    (p : List CHAR) : m.components (c :: p) = Matcher.onto [c] (m.components p) := by
  cases p with
  | nil => exact if_neg hslash
  | cons d p =>
      rw [Matcher.components, hescapes, if_neg Bool.false_ne_true, if_neg hslash]

theorem components_slash (p : List CHAR) : m.components (slash :: p) = [] :: m.components p := by
  cases p with
  | nil => rfl
  | cons d p =>
      rw [Matcher.components, escapes_of_ne (by decide), if_neg Bool.false_ne_true, if_pos rfl]

theorem components_pair {c : CHAR} (hescapes : m.escapes c = true) (d : CHAR) (p : List CHAR) :
    m.components (c :: d :: p) = Matcher.onto [c, d] (m.components p) := by
  rw [Matcher.components, if_pos hescapes]

theorem components_plain {t : List CHAR} (ht : Plain m t) (p : List CHAR) :
    m.components (t ++ p) = Matcher.onto t (m.components p) := by
  induction ht with
  | nil =>
      obtain ⟨q, qs, h⟩ := components_ne_nil (m := m) p
      rw [List.nil_append, h]
      rfl
  | char hslash hescapes _ ih =>
      rw [List.cons_append, components_char hslash hescapes, ih, onto_onto]
      rfl
  | pair hescapes _ _ ih =>
      rw [List.cons_append, List.cons_append, components_pair hescapes, ih, onto_onto]
      rfl

theorem joinSlash_onto (a : List CHAR) {cs : List (List CHAR)} (h : cs ≠ []) :
    joinSlash (Matcher.onto a cs) = a ++ joinSlash cs := by
  match cs with
  | [] => exact absurd rfl h
  | [c] => rfl
  | c :: d :: cs => exact List.append_assoc a c _

theorem joinSlash_nil_cons {cs : List (List CHAR)} (h : cs ≠ []) :
    joinSlash ([] :: cs) = slash :: joinSlash cs := by
  match cs with
  | [] => exact absurd rfl h
  | c :: cs => rfl

theorem joinSlash_components (p : List CHAR) : joinSlash (m.components p) = p := by
  induction hn : p.length using Nat.strong_induction_on generalizing p with
  | _ n ih =>
      have hne (p : List CHAR) : m.components p ≠ [] := by
        obtain ⟨q, qs, h⟩ := components_ne_nil (m := m) p
        rw [h]
        exact List.cons_ne_nil q qs
      cases p with
      | nil => rfl
      | cons c p =>
          rw [List.length_cons] at hn
          cases hescapes : m.escapes c with
          | true =>
              cases p with
              | nil =>
                  rw [escapes_eq hescapes]
                  rfl
              | cons d p =>
                  rw [List.length_cons] at hn
                  rw [components_pair hescapes, joinSlash_onto _ (hne p),
                    ih p.length (by omega) p rfl]
                  rfl
          | false =>
              by_cases hslash : c = slash
              · rw [hslash, components_slash, joinSlash_nil_cons (hne p),
                  ih p.length (by omega) p rfl]
              · rw [components_char hslash hescapes, joinSlash_onto _ (hne p),
                  ih p.length (by omega) p rfl]
                rfl

/-- The first component is the pattern up to a slash or to its end. -/
theorem components_head {p q : List CHAR} {qs : List (List CHAR)} (h : m.components p = q :: qs) :
    p = q ∨ ∃ z, p = q ++ slash :: z := by
  have hjoin := joinSlash_components (m := m) p
  rw [h] at hjoin
  cases qs with
  | nil => exact .inl hjoin.symm
  | cons r qs => exact .inr ⟨_, hjoin.symm⟩

/-- As many slashes in the one list of components as in the other. -/
theorem joinSlash_count {ps ss : List (List CHAR)} (h : List.Forall₂
    (fun p s => p.count slash = s.count slash) ps ss) :
    (joinSlash ps).count slash = (joinSlash ss).count slash := by
  induction h with
  | nil => rfl
  | @cons p s ps ss hp hps ih =>
      cases hps with
      | nil => exact hp
      | @cons p' s' ps ss hp' hps =>
          change (p ++ slash :: joinSlash (p' :: ps)).count slash =
            (s ++ slash :: joinSlash (s' :: ss)).count slash
          rw [List.count_append, List.count_append, List.count_cons_self, List.count_cons_self, hp, ih]

variable (hpathname : m.flags.pathname = true) (hlawful : m.loc.Lawful)

include hpathname hlawful

theorem componentwise_of_takes {p s : List CHAR} (h : Takes m false p s) :
    Componentwise m p s := by
  have hne (p : List CHAR) := components_ne_nil (m := m) p
  -- an element that takes one character, at the head of the first component
  have hfirst {t q s : List CHAR} {x : CHAR}
      (hcomponents : m.components (t ++ q) = Matcher.onto t (m.components q))
      (htakes : ∀ q' qs s', m.components q = q' :: qs → Takes m false q' s' →
        Takes m false (t ++ q') (x :: s'))
      (h : Componentwise m q s) : Componentwise m (t ++ q) (x :: s) := by
    obtain ⟨ss, rfl, hss⟩ := h
    obtain ⟨q', qs, hq⟩ := hne q
    rw [hq] at hss
    cases hss with
    | @cons _ s' _ ss htaken hrest =>
        refine ⟨(x :: s') :: ss, ?_, ?_⟩
        · cases ss <;> rfl
        · rw [hcomponents, hq]
          exact .cons (htakes q' qs s' hq htaken) hrest
  induction h with
  | nil => exact ⟨[[]], rfl, .cons .nil .nil⟩
  | @question p s x hx h ih =>
      exact hfirst (t := [question])
        (components_char (by decide) (escapes_of_ne (by decide)) p)
        (fun _ _ _ _ htaken => .question hx htaken) ih
  | @starDone p s h ih =>
      obtain ⟨ss, rfl, hss⟩ := ih
      obtain ⟨q', qs, hq⟩ := hne p
      refine ⟨ss, rfl, ?_⟩
      rw [components_char (by decide) (escapes_of_ne (by decide)), hq]
      rw [hq] at hss
      cases hss with
      | cons htaken hrest => exact .cons (.starDone htaken) hrest
  | @starMore p s x hx h ih =>
      obtain ⟨ss, rfl, hss⟩ := ih
      obtain ⟨q', qs, hq⟩ := hne p
      have hstar : m.components (star :: p) = (star :: q') :: qs := by
        rw [components_char (by decide) (escapes_of_ne (by decide)), hq]
        rfl
      rw [hstar] at hss
      cases hss with
      | @cons _ s' _ ss htaken hrest =>
          refine ⟨(x :: s') :: ss, ?_, ?_⟩
          · cases ss <;> rfl
          · rw [hstar]
            exact .cons (.starMore hx htaken) hrest
  | @escaped p s c d x hc hd h ih =>
      exact hfirst (t := [c, d]) (components_pair hc d p)
        (fun _ _ _ _ htaken => .escaped hc hd htaken) ih
  | lastBackslash => exact ⟨[[backslash]], rfl, .cons .lastBackslash .nil⟩
  | @bracket p q s x hx hq h ih =>
      obtain ⟨t, rfl, ht⟩ := brackmatch_plain hpathname hlawful hq
      refine hfirst (t := lbrack :: t) ?_ (fun q' qs s' hcomponents htaken => ?_) ih
      · exact components_plain (.char (by decide) (escapes_of_ne (by decide)) ht) q
      · -- the bracket stays what it is where the component ends
        refine .bracket hx ?_ htaken
        rcases components_head hcomponents with rfl | ⟨z, rfl⟩
        · exact hq
        · rw [← List.append_assoc, brackmatch_slash hpathname hlawful] at hq
          obtain ⟨r, hr, heq⟩ := Option.map_eq_some_iff.mp hq
          exact hr.trans (congrArg some (List.append_cancel_right heq))
  | @literal p s c x hquestion hstar hlbrack hescapes hc h ih =>
      by_cases hslash : c = slash
      · obtain rfl := hslash
        have hx : x = slash := (fold_slash hlawful x).mp (hc ▸ (fold_slash hlawful slash).mpr rfl)
        obtain ⟨ss, rfl, hss⟩ := ih
        refine ⟨[] :: ss, ?_, ?_⟩
        · rw [hx, joinSlash_nil_cons]
          rintro rfl
          obtain ⟨q', qs, hq⟩ := hne p
          rw [hq] at hss
          cases hss
        · rw [components_slash]
          exact .cons .nil hss
      · exact hfirst (t := [c]) (components_char hslash hescapes p)
          (fun _ _ _ _ htaken => .literal hquestion hstar hlbrack hescapes hc htaken) ih
  | trailing hloose => exact absurd hloose Bool.false_ne_true

theorem Componentwise.count_slash {p s : List CHAR} (h : Componentwise m p s) :
    s.count slash = p.count slash := by
  obtain ⟨ss, rfl, hss⟩ := h
  rw [← joinSlash_count (hss.imp fun _ _ htaken =>
    (takes_slashes hpathname hlawful htaken).2.2 rfl), joinSlash_components]

end

/-- Where the matcher returns 0, the components of the pattern take those of the string, but for
a pattern that ends in a star: it has to have all the slashes of the string. -/
theorem strmatch_componentwise_iff {m : Matcher} (hpathname : m.flags.pathname = true)
    (hleading : m.flags.leadingDir = false) (hlawful : m.loc.Lawful) (pattern string : List CHAR)
    (h : strmatch m pattern string = .matched) :
    Componentwise m pattern string ↔
      (EndsInStar pattern → string.count slash = pattern.count slash) := by
  have htakes : Takes m true pattern string := by
    have hsound := gmatch_sound hpathname hleading hlawful (pattern.length + 1) true false string
      none string pattern
    rwa [show gmatch m true false string (pattern.length + 1) none string pattern = .matched
      from h] at hsound
  refine ⟨fun hcomponents _ => hcomponents.count_slash hpathname hlawful, fun hslashes => ?_⟩
  refine componentwise_of_takes hpathname hlawful ?_
  by_cases hend : EndsInStar pattern
  · exact (takes_slashes hpathname hlawful htakes).2.1 (hslashes hend).symm
  · exact takes_of_not_endsInStar hpathname hlawful hend htakes

/-- The C locale without its classes. -/
def cLocale : Locale where
  toLower c := if 65 ≤ c ∧ c ≤ 90 then c + 32 else c
  collsym sym := sym.headD 0
  collequiv c d := c == d
  isCclass _ _ := false
  rangecmp c d _ := c - d

theorem cLocale_lawful : cLocale.Lawful := by
  have hlower (c k : ℕ) (hk : k < 65 ∨ k = 91 ∨ k = 92) :
      (if 65 ≤ c ∧ c ≤ 90 then c + 32 else c) = k ↔ c = k := by
    split_ifs <;> omega
  intro c k hk
  refine hlower c k ?_
  simp only [List.mem_cons, List.not_mem_nil, or_false] at hk
  rcases hk with rfl | rfl | rfl | rfl | rfl <;> decide

/-- A matcher for pathnames in the C locale. -/
def pathnameMatcher : Matcher where
  flags :=
    { pathname := true, noescape := false, period := true, leadingDir := false, casefold := true,
      extmatch := false, dotdot := true }
  loc := cLocale

/-- `a*/[b-d]` and `abc/c` -/
theorem strmatch_componentwise_bracket :
    Componentwise pathnameMatcher [97, 42, 47, 91, 98, 45, 100, 93] [97, 98, 99, 47, 99] :=
  (strmatch_componentwise_iff rfl rfl cLocale_lawful [97, 42, 47, 91, 98, 45, 100, 93]
    [97, 98, 99, 47, 99] (by decide +kernel)).mpr fun _ => rfl

/-- `*` and `a/b` -/
theorem strmatch_star_slash : strmatch pathnameMatcher [42] [97, 47, 98] = .matched ∧
    ¬ Componentwise pathnameMatcher [42] [97, 47, 98] := by
  refine ⟨by decide +kernel, fun h => ?_⟩
  have hslashes := h.count_slash rfl cLocale_lawful
  exact absurd hslashes (by decide)

end Pathname

end Rash
