import Rash.Words.Braces

/-!
# Where braces open, separate and close

For a word without quotes and substitutions the three scans are described by positions alone:
the depth of the braces in front of a position decides what stands there.
-/

namespace Rash

namespace Braces

/-- The open braces behind `w`; a closing brace without an open one is ordinary text. -/
def depth (w : Word) : ℕ :=
  w.foldl (fun d c => if c = '{' then d + 1 else if c = '}' then d - 1 else d) 0

def CommaAt (w : Word) (k : ℕ) : Prop := w[k]? = some ',' ∧ depth (w.take k) = 0

/-- Two dots separate the ends of a sequence, except directly before a closing brace. -/
def DotsAt (w : Word) (k : ℕ) : Prop :=
  (w[k]? = some '.' ∧ w[k + 1]? = some '.' ∧ w[k + 2]? ≠ some '}') ∧ depth (w.take k) = 0

def HasComma (w : Word) (m : ℕ) : Prop := ∃ k < m, CommaAt w k

def Separated (w : Word) (m : ℕ) : Prop := ∃ k < m, CommaAt w k ∨ DotsAt w k

/-- A closing brace outside inner braces counts when a separator stands before it. -/
def CloserAt (w : Word) (m : ℕ) : Prop :=
  w[m]? = some '}' ∧ depth (w.take m) = 0 ∧ Separated w m

/-- `m` is where the brace in front of `w` is closed. -/
def Closes (w : Word) (m : ℕ) : Prop := CloserAt w m ∧ ∀ k < m, ¬ CloserAt w k

/-- A brace that the scan does not pass over: `{}` and a lone brace at the front are. -/
def OpensAt (w : Word) (j : ℕ) : Prop :=
  w[j]? = some '{' ∧ ¬ (j = 0 ∧ (w[1]? = none ∨ w[1]? = some '}'))

/-- A valid brace expression begins at `j`. -/
def Begins (w : Word) (j : ℕ) : Prop :=
  OpensAt w j ∧ ∃ m, Closes (w.drop (j + 1)) m ∧
    (HasComma (w.drop (j + 1)) m ∨ validSeqterm (w.drop (j + 1)) m = true)

def Ordinary (c : Char) : Prop :=
  c ∉ [nul, ' ', tab, newline, dquote, squote, backslash, backquote, '$']

/-- No quotes, no expansions that begin with a dollar sign, no white space, and no process
substitution. -/
structure Plain (w : Word) : Prop where
  ordinary : ∀ c ∈ w, Ordinary c
  noSubst : ∀ i, w[i]? = some '<' ∨ w[i]? = some '>' → w[i + 1]? ≠ some '('

/-! ## Depth -/

@[simp] theorem depth_nil : depth [] = 0 := rfl

theorem depth_snoc (w : Word) (c : Char) :
    depth (w ++ [c]) =
      if c = '{' then depth w + 1 else if c = '}' then depth w - 1 else depth w := by
  simp only [depth, List.foldl_append, List.foldl_cons, List.foldl_nil]

theorem depth_take_succ {w : Word} {k : ℕ} {c : Char} (h : w[k]? = some c) :
    depth (w.take (k + 1)) =
      if c = '{' then depth (w.take k) + 1
      else if c = '}' then depth (w.take k) - 1 else depth (w.take k) := by
  rw [List.take_add_one, h, Option.toList_some, depth_snoc]

/-- Behind a word that closes all its braces the count starts again. -/
theorem depth_append {u : Word} (hu : depth u = 0) (w : Word) : depth (u ++ w) = depth w := by
  unfold depth at hu ⊢
  rw [List.foldl_append, hu]

theorem depth_cons {c : Char} (hopen : c ≠ '{') (w : Word) : depth (c :: w) = depth w := by
  have hone : depth [c] = 0 := by
    simp only [depth, List.foldl_cons, List.foldl_nil, if_neg hopen]
    split <;> rfl
  exact depth_append hone w

theorem depth_append_comma {a : Word} (ha : depth a = 0) (w : Word) :
    depth (a ++ ',' :: w) = depth w := by
  rw [depth_append ha, depth_cons (by decide)]

/-! ## Positions -/

theorem charAt_eq_iff {w : Word} {i : ℕ} {c : Char} (hc : c ≠ nul) :
    charAt w i = c ↔ w[i]? = some c := by
  unfold charAt
  rw [List.getD_eq_getElem?_getD]
  cases h : w[i]? with
  | none => simp [Ne.symm hc]
  | some d => simp

theorem charAt_of_some {w : Word} {i : ℕ} {c : Char} (h : w[i]? = some c) : charAt w i = c := by
  unfold charAt
  rw [List.getD_eq_getElem?_getD, h, Option.getD_some]

theorem charAt_of_length_le {w : Word} {i : ℕ} (h : w.length ≤ i) : charAt w i = nul := by
  unfold charAt
  rw [List.getD_eq_getElem?_getD, List.getElem?_eq_none h, Option.getD_none]

namespace Plain

variable {w : Word}

theorem of_take (h : Plain w) (n : ℕ) : Plain (w.take n) where
  ordinary c hc := h.ordinary c (List.mem_of_mem_take hc)
  noSubst i hi hparen := by
    rw [List.getElem?_take] at hi hparen
    split at hparen
    case isTrue hlt =>
      rw [if_pos (by omega)] at hi
      exact h.noSubst i hi hparen
    case isFalse => cases hparen

theorem of_drop (h : Plain w) (n : ℕ) : Plain (w.drop n) where
  ordinary c hc := h.ordinary c (List.mem_of_mem_drop hc)
  noSubst i hi hparen := by
    rw [List.getElem?_drop] at hi hparen
    exact h.noSubst (n + i) hi hparen

theorem ordinary_at (h : Plain w) {i : ℕ} {c : Char} (hc : w[i]? = some c) : Ordinary c :=
  h.ordinary c (List.mem_of_getElem? hc)

theorem charAt_ne_nul (h : Plain w) {i : ℕ} (hi : i < w.length) : charAt w i ≠ nul := by
  have hsome : w[i]? = some w[i] := List.getElem?_eq_getElem hi
  rw [charAt_of_some hsome]
  intro hbad
  apply h.ordinary_at hsome
  rw [hbad]
  exact List.mem_cons_self

theorem braceWhitespace_charAt (h : Plain w) (i : ℕ) :
    braceWhitespace (charAt w i) = true ↔ w.length ≤ i := by
  constructor
  · intro hws
    by_contra hlt
    have hsome : w[i]? = some w[i] := List.getElem?_eq_getElem (by omega)
    have hord := h.ordinary_at hsome
    rw [charAt_of_some hsome] at hws
    simp only [braceWhitespace, Bool.or_eq_true, beq_iff_eq] at hws
    simp only [Ordinary, List.mem_cons, not_or] at hord
    tauto
  · intro hle
    rw [charAt_of_length_le hle]
    rfl

end Plain

/-! ## One step and the loop -/

section

variable {x : Extractors} {text : Word} {s : Char}

/-- On a plain word only the braces, the separators and the character looked for matter. -/
theorem gobbleStep_plain (hplain : Plain text) {g : Gobbler} (hq : g.quoted = none)
    (hpass : g.passNext = false) {c : Char} (hc : text[g.i]? = some c) :
    gobbleStep x text s g =
      if c = s ∧ g.level = 0 ∧ 0 < g.commas then
        if c = '{' ∧ g.i = 0 ∧ (text[1]? = none ∨ text[1]? = some '}') then
          .next { g with i := g.i + 1 }
        else .found g c
      else .next { countBraces text s g with i := g.i + 1 } := by
  have hord := hplain.ordinary_at hc
  simp only [Ordinary, List.mem_cons, List.not_mem_nil, not_or, or_false] at hord
  obtain ⟨-, -, -, -, hdquote, hsquote, hback, hbquote, hdollar⟩ := hord
  have hchar := charAt_of_some hc
  have hsubst : ¬ ((c = '$' ∨ c = '<' ∨ c = '>') ∧ charAt text (g.i + 1) = '(') := by
    rintro ⟨hsign, hparen⟩
    rw [charAt_eq_iff (by decide)] at hparen
    rcases hsign with rfl | rfl | rfl
    · exact hdollar rfl
    · exact hplain.noSubst g.i (.inl hc) hparen
    · exact hplain.noSubst g.i (.inr hc) hparen
  have hskip : (c = '{' ∧ (g.i = 0 ∨ braceWhitespace (charAt text (g.i - 1)) = true) ∧
      (braceWhitespace (charAt text (g.i + 1)) = true ∨ charAt text (g.i + 1) = '}')) ↔
      c = '{' ∧ g.i = 0 ∧ (text[1]? = none ∨ text[1]? = some '}') := by
    have hlt := (List.getElem?_eq_some_iff.mp hc).1
    rw [hplain.braceWhitespace_charAt, hplain.braceWhitespace_charAt, charAt_eq_iff (by decide)]
    apply and_congr_right
    intro _
    constructor
    · rintro ⟨hzero | hbefore, hafter⟩
      · rw [hzero] at hafter
        exact ⟨hzero, hafter.imp_left List.getElem?_eq_none⟩
      · omega
    · rintro ⟨hzero, hafter⟩
      rw [hzero]
      exact ⟨.inl rfl, hafter.imp_left List.getElem?_eq_none_iff.mp⟩
  unfold gobbleStep
  simp only [hchar, hpass, hq]
  rw [if_neg Bool.false_ne_true, if_neg (fun h => hback h.1), if_neg (fun h => hdollar h.1),
    if_neg (by simp), if_neg (by tauto), if_neg hsubst]
  simp only [hskip]

/-- A scan that steps over every position before `j` and stops there with `c`. -/
theorem gobbleLoop_stops (hplain : Plain text) {I : Gobbler → Prop} {j : ℕ} {c : Char}
    (hstep : ∀ g, I g → g.i < j →
      ∃ g', gobbleStep x text s g = .next g' ∧ g'.i = g.i + 1 ∧ I g')
    (hstop : (j = text.length ∧ c = nul) ∨
      (j < text.length ∧ ∀ g, I g → g.i = j → gobbleStep x text s g = .found g c))
    (fuel : ℕ) : ∀ g, I g → g.i ≤ j → j < g.i + fuel →
      ∃ g', gobbleLoop x text s fuel g = (g', c) ∧ g'.i = j ∧ I g' := by
  have hj : j ≤ text.length := by rcases hstop with h | h <;> omega
  induction fuel with
  | zero => intro g _ _ _; omega
  | succ fuel ih =>
      intro g hinv hle hfuel
      unfold gobbleLoop
      rcases Nat.lt_or_eq_of_le hle with hlt | heq
      · obtain ⟨g', hg, hi, hinv'⟩ := hstep g hinv hlt
        rw [if_neg (hplain.charAt_ne_nul (by omega)), hg]
        exact ih g' hinv' (by omega) (by omega)
      · rcases hstop with ⟨hend, rfl⟩ | ⟨hlt, hfound⟩
        · rw [if_pos (charAt_of_length_le (by omega))]
          exact ⟨g, rfl, heq, hinv⟩
        · rw [if_neg (hplain.charAt_ne_nul (by omega)), hfound g hinv heq]
          exact ⟨g, rfl, heq, hinv⟩

/-! ## Looking for an opening brace -/

theorem gobble_open_step (hplain : Plain text) {g : Gobbler}
    (hg : (g.quoted = none ∧ g.passNext = false) ∧ g.level = 0 ∧ g.commas = 1)
    (hlt : g.i < text.length) (hopens : ¬ OpensAt text g.i) :
    ∃ g', gobbleStep x text '{' g = .next g' ∧ g'.i = g.i + 1 ∧
      (g'.quoted = none ∧ g'.passNext = false) ∧ g'.level = 0 ∧ g'.commas = 1 := by
  obtain ⟨⟨hq, hpass⟩, hlevel, hcommas⟩ := hg
  have hc : text[g.i]? = some text[g.i] := List.getElem?_eq_getElem hlt
  rw [gobbleStep_plain hplain hq hpass hc]
  by_cases hopen : text[g.i] = '{'
  · have hskip : g.i = 0 ∧ (text[1]? = none ∨ text[1]? = some '}') := by
      by_contra hskip
      exact hopens ⟨by rw [hc, hopen], hskip⟩
    rw [if_pos ⟨hopen, hlevel, by omega⟩, if_pos ⟨hopen, hskip⟩]
    exact ⟨_, rfl, rfl, ⟨hq, hpass⟩, hlevel, hcommas⟩
  · have hsame : countBraces text '{' g = g := by
      unfold countBraces
      rw [charAt_of_some hc]
      rw [if_neg hopen, if_neg (fun h => h.2 hlevel), if_neg (by simp), if_neg (by simp)]
    rw [if_neg (fun h => hopen h.1), hsame]
    exact ⟨_, rfl, rfl, ⟨hq, hpass⟩, hlevel, hcommas⟩

theorem braceGobbler_open (hplain : Plain text) {i j : ℕ} {c : Char} (hij : i ≤ j)
    (hstop : (j = text.length ∧ c = nul) ∨ (OpensAt text j ∧ c = '{'))
    (hbefore : ∀ k, i ≤ k → k < j → ¬ OpensAt text k) :
    ∃ b, braceGobbler x text i '{' = (c, j, b) := by
  have hle : j ≤ text.length := by
    rcases hstop with ⟨hend, -⟩ | ⟨hopens, -⟩
    · exact hend.le
    · exact (List.getElem?_eq_some_iff.mp hopens.1).1.le
  obtain ⟨g, hloop, hi, -⟩ := gobbleLoop_stops (x := x) (s := '{') (c := c) hplain
    (I := fun g => i ≤ g.i ∧ (g.quoted = none ∧ g.passNext = false) ∧ g.level = 0 ∧ g.commas = 1)
    (j := j)
    (by
      rintro g ⟨hle, hg⟩ hgj
      obtain ⟨g', hstep, hi, hg'⟩ :=
        gobble_open_step (x := x) hplain hg (by omega) (hbefore g.i hle hgj)
      exact ⟨g', hstep, hi, by omega, hg'⟩)
    (by
      rcases hstop with hend | ⟨hopens, rfl⟩
      · exact .inl hend
      · refine .inr ⟨(List.getElem?_eq_some_iff.mp hopens.1).1, ?_⟩
        rintro g ⟨hle, ⟨hq, hpass⟩, hlevel, hcommas⟩ rfl
        rw [gobbleStep_plain hplain hq hpass hopens.1, if_pos ⟨rfl, hlevel, by omega⟩,
          if_neg (fun h => hopens.2 h.2)])
    (text.length + 1) ⟨i, none, 0, 1, false, .none⟩ ⟨le_rfl, ⟨rfl, rfl⟩, rfl, rfl⟩ hij
    (by change j < i + (text.length + 1); omega)
  refine ⟨g.btype, ?_⟩
  unfold braceGobbler
  simp only [show ¬ ('{' = '}') by decide, if_false, hloop, hi]

/-! ## Looking for the closing brace -/

theorem separated_succ {w : Word} {k : ℕ} :
    Separated w (k + 1) ↔ Separated w k ∨ CommaAt w k ∨ DotsAt w k := by
  unfold Separated
  rw [Nat.exists_lt_succ_right]

theorem hasComma_succ {w : Word} {k : ℕ} : HasComma w (k + 1) ↔ HasComma w k ∨ CommaAt w k := by
  unfold HasComma
  rw [Nat.exists_lt_succ_right]

theorem HasComma.separated {w : Word} {m : ℕ} (h : HasComma w m) : Separated w m :=
  h.imp fun _ hk => ⟨hk.1, .inl hk.2⟩

/-- What the scan for a closing brace knows behind the first `k` characters of `w`. -/
structure ScanInv (w : Word) (k : ℕ) (g : Gobbler) : Prop where
  quoted : g.quoted = none
  passNext : g.passNext = false
  level : g.level = depth (w.take k)
  commas : 0 < g.commas ↔ Separated w k
  comma : g.btype = .comma ↔ HasComma w k
  none : g.btype = .none ↔ ¬ Separated w k

namespace ScanInv

variable {w : Word} {k : ℕ} {g : Gobbler}

/-- A character that separates nothing. -/
theorem keep (h : ScanInv w k g) (hcomma : ¬ CommaAt w k) (hdots : ¬ DotsAt w k) {level : ℕ}
    (hlevel : level = depth (w.take (k + 1))) (i : ℕ) :
    ScanInv w (k + 1) { g with level := level, i := i } where
  quoted := h.quoted
  passNext := h.passNext
  level := hlevel
  commas := by
    rw [separated_succ, or_iff_left (not_or.mpr ⟨hcomma, hdots⟩)]
    exact h.commas
  comma := by
    rw [hasComma_succ, or_iff_left hcomma]
    exact h.comma
  none := by
    rw [separated_succ, or_iff_left (not_or.mpr ⟨hcomma, hdots⟩)]
    exact h.none

theorem noteComma (h : ScanInv w k g) (hcomma : CommaAt w k)
    (hlevel : g.level = depth (w.take (k + 1))) (i : ℕ) :
    ScanInv w (k + 1) { g with btype := .comma, commas := g.commas + 1, i := i } where
  quoted := h.quoted
  passNext := h.passNext
  level := hlevel
  commas := iff_of_true (Nat.succ_pos _) (separated_succ.mpr (.inr (.inl hcomma)))
  comma := iff_of_true rfl (hasComma_succ.mpr (.inr hcomma))
  none := iff_of_false (by simp) (fun hbad => hbad (separated_succ.mpr (.inr (.inl hcomma))))

theorem noteDots (h : ScanInv w k g) (hcomma : ¬ CommaAt w k) (hdots : DotsAt w k)
    (hnone : g.btype = .none) (hlevel : g.level = depth (w.take (k + 1))) (i : ℕ) :
    ScanInv w (k + 1) { g with btype := .seq, commas := g.commas + 1, i := i } where
  quoted := h.quoted
  passNext := h.passNext
  level := hlevel
  commas := iff_of_true (Nat.succ_pos _) (separated_succ.mpr (.inr (.inr hdots)))
  comma := by
    rw [hasComma_succ, or_iff_left hcomma]
    exact iff_of_false (by simp) (fun hbad => h.none.mp hnone hbad.separated)
  none := iff_of_false (by simp) (fun hbad => hbad (separated_succ.mpr (.inr (.inr hdots))))

/-- Two dots behind another separator change nothing. -/
theorem passDots (h : ScanInv w k g) (hcomma : ¬ CommaAt w k) (hbtype : g.btype ≠ .none)
    (hlevel : g.level = depth (w.take (k + 1))) (i : ℕ) :
    ScanInv w (k + 1) { g with i := i } := by
  have hsep : Separated w k := by
    by_contra hbad
    exact hbtype (h.none.mpr hbad)
  refine { quoted := h.quoted, passNext := h.passNext, level := hlevel, commas := ?_, comma := ?_,
           none := ?_ }
  · exact iff_of_true (h.commas.mpr hsep) (separated_succ.mpr (.inl hsep))
  · rw [hasComma_succ, or_iff_left hcomma]
    exact h.comma
  · exact iff_of_false hbtype (fun hbad => hbad (separated_succ.mpr (.inl hsep)))

/-- One character counted: the level is the depth again, and its separator is noted. -/
theorem count {start : ℕ} (h : ScanInv (text.drop start) k g) (hi : g.i = start + k) {c : Char}
    (hc : text[g.i]? = some c) :
    ScanInv (text.drop start) (k + 1) { countBraces text '}' g with i := g.i + 1 } := by
  have hat : ∀ n, (text.drop start)[n]? = text[start + n]? := fun n => List.getElem?_drop
  have hck : (text.drop start)[k]? = some c := by rw [hat, ← hi, hc]
  have hdepth := depth_take_succ hck
  rw [← h.level] at hdepth
  have hcommaAt : CommaAt (text.drop start) k ↔ c = ',' ∧ g.level = 0 := by
    unfold CommaAt
    rw [hck, Option.some_inj, h.level]
  have hdotsAt : DotsAt (text.drop start) k ↔
      (c = '.' ∧ charAt text (g.i + 1) = '.' ∧ charAt text (g.i + 2) ≠ '}') ∧ g.level = 0 := by
    unfold DotsAt
    rw [hck, Option.some_inj, h.level, hat, hat, ne_eq, ne_eq, charAt_eq_iff (by decide),
      charAt_eq_iff (by decide), hi]
    rfl
  unfold countBraces
  rw [charAt_of_some hc]
  by_cases hopen : c = '{'
  · rw [if_pos hopen]
    rw [if_pos hopen] at hdepth
    refine h.keep ?_ ?_ hdepth.symm _
    · rw [hcommaAt, hopen]
      simp
    · rw [hdotsAt, hopen]
      simp
  rw [if_neg hopen]
  rw [if_neg hopen] at hdepth
  by_cases hclose : c = '}'
  · rw [if_pos hclose] at hdepth
    have hcomma : ¬ CommaAt (text.drop start) k := by
      rw [hcommaAt, hclose]
      simp
    have hdots : ¬ DotsAt (text.drop start) k := by
      rw [hdotsAt, hclose]
      simp
    by_cases hzero : g.level = 0
    · -- without an open brace the depth stays at zero
      rw [if_neg (fun hbad => hbad.2 hzero), if_neg (by simp [hclose]), if_neg (by simp [hclose])]
      exact h.keep hcomma hdots (by omega) _
    · rw [if_pos ⟨hclose, hzero⟩]
      exact h.keep hcomma hdots hdepth.symm _
  rw [if_neg (fun hbad => hclose hbad.1)]
  rw [if_neg hclose] at hdepth
  by_cases hcomma : c = ',' ∧ g.level = 0
  · rw [if_pos ⟨rfl, hcomma⟩]
    exact h.noteComma (hcommaAt.mpr hcomma) hdepth.symm _
  rw [if_neg (fun hbad => hcomma hbad.2)]
  rw [← hcommaAt] at hcomma
  by_cases hdots : (c = '.' ∧ charAt text (g.i + 1) = '.' ∧ charAt text (g.i + 2) ≠ '}') ∧
      g.level = 0
  · by_cases hbtype : g.btype = .none
    · rw [if_pos ⟨rfl, ⟨hdots.1.1, hdots.1.2.1⟩, hdots.1.2.2, hdots.2, hbtype⟩]
      exact h.noteDots hcomma (hdotsAt.mpr hdots) hbtype hdepth.symm _
    · rw [if_neg (fun hbad => hbtype hbad.2.2.2.2)]
      exact h.passDots hcomma hbtype hdepth.symm _
  · rw [if_neg (fun hbad => hdots ⟨⟨hbad.2.1.1, hbad.2.1.2, hbad.2.2.1⟩, hbad.2.2.2.1⟩)]
    exact h.keep hcomma (hdotsAt.not.mpr hdots) hdepth.symm _

end ScanInv

/-- The scan for the closing brace of the brace in front of `start`: it ends at that brace, or
at the end of the text when there is none. -/
theorem braceGobbler_close (hplain : Plain text) {start m : ℕ} {c : Char}
    (hstop : (start + m = text.length ∧ c = nul) ∨ (CloserAt (text.drop start) m ∧ c = '}'))
    (hbefore : ∀ k < m, ¬ CloserAt (text.drop start) k) :
    ∃ b, braceGobbler x text start '}' = (c, start + m, b) ∧
      (b = .comma ↔ HasComma (text.drop start) m) ∧
      (b = .none ↔ ¬ Separated (text.drop start) m) := by
  have hstep : ∀ g, (start ≤ g.i ∧ ScanInv (text.drop start) (g.i - start) g) →
      g.i < text.length → ¬ CloserAt (text.drop start) (g.i - start) →
      ∃ g', gobbleStep x text '}' g = .next g' ∧ g'.i = g.i + 1 ∧
        start ≤ g'.i ∧ ScanInv (text.drop start) (g'.i - start) g' := by
    rintro g ⟨hle, hg⟩ hlt hnot
    have hc : text[g.i]? = some text[g.i] := List.getElem?_eq_getElem hlt
    have hkeep : ¬ (text[g.i] = '}' ∧ g.level = 0 ∧ 0 < g.commas) := by
      rintro ⟨hclose, hlevel, hcommas⟩
      refine hnot ⟨?_, by rw [← hg.level, hlevel], hg.commas.mp hcommas⟩
      rw [List.getElem?_drop, Nat.add_sub_cancel' hle, hc, hclose]
    have hcount := hg.count (by omega) hc
    rw [gobbleStep_plain hplain hg.quoted hg.passNext hc, if_neg hkeep]
    refine ⟨_, rfl, rfl, by change start ≤ g.i + 1; omega, ?_⟩
    change ScanInv (text.drop start) (g.i + 1 - start) _
    rw [Nat.sub_add_comm hle]
    exact hcount
  have hle : start + m ≤ text.length := by
    rcases hstop with ⟨hend, -⟩ | ⟨hcloser, -⟩
    · exact hend.le
    · have hlt := (List.getElem?_eq_some_iff.mp hcloser.1).1
      rw [List.length_drop] at hlt
      omega
  obtain ⟨g, hloop, hi, -, hinv⟩ := gobbleLoop_stops (x := x) (s := '}') (c := c) hplain
    (I := fun g => start ≤ g.i ∧ ScanInv (text.drop start) (g.i - start) g) (j := start + m)
    (fun g hg hgj => hstep g hg (by omega) (hbefore _ (by omega)))
    (by
      rcases hstop with hend | ⟨hcloser, rfl⟩
      · exact .inl hend
      · obtain ⟨hat, hdepth, hsep⟩ := hcloser
        rw [List.getElem?_drop] at hat
        refine .inr ⟨(List.getElem?_eq_some_iff.mp hat).1, ?_⟩
        rintro g ⟨-, hg⟩ hgi
        rw [← hgi] at hat
        rw [hgi, Nat.add_sub_cancel_left] at hg
        rw [gobbleStep_plain hplain hg.quoted hg.passNext hat,
          if_pos ⟨rfl, hg.level.trans hdepth, hg.commas.mpr hsep⟩, if_neg (by simp)])
    (text.length + 1) ⟨start, none, 0, 0, false, .none⟩
    ⟨le_rfl, by
      change ScanInv _ (start - start) _
      rw [Nat.sub_self]
      exact ⟨rfl, rfl, rfl, by simp [Separated], by simp [HasComma], by simp [Separated]⟩⟩
    (by change start ≤ start + m; omega) (by change start + m < start + (text.length + 1); omega)
  rw [hi, Nat.add_sub_cancel_left] at hinv
  refine ⟨g.btype, ?_, hinv.comma, hinv.none⟩
  unfold braceGobbler
  simp only [if_true, hloop, hi]

/-! ## Looking for a separator -/

theorem countBraces_comma {g : Gobbler} {c : Char} (hc : text[g.i]? = some c) :
    countBraces text ',' g = { g with
      level := if c = '{' then g.level + 1 else if c = '}' then g.level - 1 else g.level } := by
  unfold countBraces
  rw [charAt_of_some hc]
  by_cases hopen : c = '{'
  · rw [if_pos hopen, if_pos hopen]
  rw [if_neg hopen, if_neg hopen]
  by_cases hclose : c = '}'
  · rw [if_pos hclose]
    by_cases hzero : g.level = 0
    · have hsame : g.level - 1 = g.level := by omega
      rw [if_neg (fun hbad => hbad.2 hzero), if_neg (by simp), if_neg (by simp), hsame]
    · rw [if_pos ⟨hclose, hzero⟩]
  · rw [if_neg (fun hbad => hclose hbad.1), if_neg (by simp), if_neg (by simp), if_neg hclose]

/-- The scan for the next separator from `start` on. -/
theorem braceGobbler_comma (hplain : Plain text) {start m : ℕ} {c : Char}
    (hstop : (start + m = text.length ∧ c = nul) ∨ (CommaAt (text.drop start) m ∧ c = ','))
    (hbefore : ∀ k < m, ¬ CommaAt (text.drop start) k) :
    ∃ b, braceGobbler x text start ',' = (c, start + m, b) := by
  have hle : start + m ≤ text.length := by
    rcases hstop with ⟨hend, -⟩ | ⟨hcomma, -⟩
    · exact hend.le
    · have hlt := (List.getElem?_eq_some_iff.mp hcomma.1).1
      rw [List.length_drop] at hlt
      omega
  obtain ⟨g, hloop, hi, -⟩ := gobbleLoop_stops (x := x) (s := ',') (c := c) hplain
    (I := fun g => start ≤ g.i ∧ (g.quoted = none ∧ g.passNext = false) ∧ g.commas = 1 ∧
      g.level = depth ((text.drop start).take (g.i - start))) (j := start + m)
    (by
      rintro g ⟨hge, ⟨hq, hpass⟩, hcommas, hlevel⟩ hgj
      have hlt : g.i < text.length := by omega
      have hc : text[g.i]? = some text[g.i] := List.getElem?_eq_getElem hlt
      have hck : (text.drop start)[g.i - start]? = some text[g.i] := by
        rw [List.getElem?_drop, Nat.add_sub_cancel' hge, hc]
      have hkeep : ¬ (text[g.i] = ',' ∧ g.level = 0 ∧ 0 < g.commas) := by
        rintro ⟨hcomma, hzero, -⟩
        exact hbefore (g.i - start) (by omega) ⟨by rw [hck, hcomma], by rw [← hlevel, hzero]⟩
      rw [gobbleStep_plain hplain hq hpass hc, if_neg hkeep, countBraces_comma hc]
      refine ⟨_, rfl, rfl, by change start ≤ g.i + 1; omega, ⟨hq, hpass⟩, hcommas, ?_⟩
      change _ = depth ((text.drop start).take (g.i + 1 - start))
      rw [Nat.sub_add_comm hge, depth_take_succ hck, ← hlevel])
    (by
      rcases hstop with hend | ⟨⟨hat, hdepth⟩, rfl⟩
      · exact .inl hend
      · rw [List.getElem?_drop] at hat
        refine .inr ⟨(List.getElem?_eq_some_iff.mp hat).1, ?_⟩
        rintro g ⟨-, ⟨hq, hpass⟩, hcommas, hlevel⟩ hgi
        rw [← hgi] at hat
        rw [hgi, Nat.add_sub_cancel_left, hdepth] at hlevel
        rw [gobbleStep_plain hplain hq hpass hat, if_pos ⟨rfl, hlevel, by omega⟩,
          if_neg (by simp)])
    (text.length + 1) ⟨start, none, 0, 1, false, .none⟩
    ⟨le_rfl, ⟨rfl, rfl⟩, rfl, by simp⟩
    (by change start ≤ start + m; omega) (by change start + m < start + (text.length + 1); omega)
  refine ⟨g.btype, ?_⟩
  unfold braceGobbler
  simp only [show ¬ (',' = '}') by decide, if_false, hloop, hi]

end

end Braces

end Rash
