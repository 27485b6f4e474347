import Rash.Cond.TestGrammar
import Mathlib.Data.Nat.Bits
import Mathlib.Tactic.SplitIfs

/-!
# What test accepts

Whatever a function of the parser accepts is a tree of the grammar with the value that the
function returns.
-/

namespace Rash

namespace TestCommand

variable {σ : Type} {sh : Shell σ} {a : Args} {pos : ℕ} {s : σ} {c : Nonterminal}

theorem ofTest_eq_ok {r : Except TestError (Bool × σ)} {p : ℕ} {x : Bool × ℕ × σ} :
    Reading.ofTest r p = .ok x ↔ r = .ok (x.1, x.2.2) ∧ x.2.1 = p := by
  obtain ⟨value, q, s⟩ := x
  cases r with
  | error e => simp [Reading.ofTest]
  | ok y => simp [Reading.ofTest, Prod.ext_iff]; tauto

theorem negate_eq_ok {r : Reading σ} {x : Bool × ℕ × σ} :
    negate r = .ok x ↔ r = .ok (!x.1, x.2) := by
  obtain ⟨value, q, s⟩ := x
  cases r with
  | error e => simp [negate]
  | ok y =>
      obtain ⟨value', q', s'⟩ := y
      cases value <;> cases value' <;> simp [negate]

theorem andThen_eq_ok {r : Option (Reading σ)} {f : Bool → ℕ → σ → Option (Reading σ)}
    {x : Bool × ℕ × σ} : andThen r f = some (.ok x) ↔
      ∃ value p s, r = some (.ok (value, p, s)) ∧ f value p s = some (.ok x) := by
  rcases r with - | (e | ⟨value, p, s⟩)
  · simp [andThen]
  · simp [andThen]
  · simp [andThen]

namespace Args

theorem drop_eq (h : pos < a.argc) : a.argv.drop pos = a.arg pos :: a.argv.drop (pos + 1) := by
  have hget : a.arg pos = a.argv[pos] := by
    rw [arg, List.getD_eq_getElem?_getD, List.getElem?_eq_getElem h]
    rfl
  rw [hget]
  exact List.drop_eq_getElem_cons h

theorem drop_three (h : pos + 3 ≤ a.argc) : a.argv.drop pos =
    a.arg pos :: a.arg (pos + 1) :: a.arg (pos + 2) :: a.argv.drop (pos + 3) := by
  rw [drop_eq (Nat.lt_of_lt_of_le (by omega) h), drop_eq (Nat.lt_of_lt_of_le (by omega) h),
    drop_eq (Nat.lt_of_lt_of_le (by omega) h)]

theorem drop_eq_nil (h : a.argc ≤ pos) : a.argv.drop pos = [] := List.drop_eq_nil_of_le h

/-- The function reads the arguments of the tree, and has its value. -/
structure Reads (sh : Shell σ) (a : Args) (pos : ℕ) (s : σ) (e : Tree c) (x : Bool × ℕ × σ) :
    Prop where
  valid : e.Valid sh
  args : a.argv.drop pos = e.args ++ a.argv.drop x.2.1
  le : x.2.1 ≤ a.argc
  eval : e.eval sh s = .ok (x.1, x.2.2)

variable {x : Bool × ℕ × σ}

theorem unaryOperator_reads (hop : testUnop (a.arg pos) = true) (hlt : pos + 2 ≤ a.argc)
    (h : a.unaryOperator sh pos s = .ok x) : ∃ e : Tree .term, Reads sh a pos s e x := by
  have hdrop := drop_eq (show pos < a.argc by omega)
  have hdrop' := drop_eq (show pos + 1 < a.argc by omega)
  have hunary : (a.arg pos = "-t" → sh.posixly = false →
      (Braces.validNumber (a.arg (pos + 1)).toList).isSome = true) →
      Reading.ofTest (sh.unaryTest (a.arg pos) (a.arg (pos + 1)) s) (pos + 2) = .ok x →
      ∃ e : Tree .term, Reads sh a pos s e x := fun hvalid hx => by
    obtain ⟨hx, hpos⟩ := ofTest_eq_ok.mp hx
    have hargs : a.argv.drop pos = [a.arg pos, a.arg (pos + 1)] ++ a.argv.drop x.2.1 := by
      rw [hdrop, hdrop', hpos]
      rfl
    have hle : x.2.1 ≤ a.argc := by omega
    have hreads : Reads sh a pos s (.unary (a.arg pos) (a.arg (pos + 1)) hop) x :=
      ⟨hvalid, hargs, hle, hx⟩
    exact ⟨_, hreads⟩
  have htty : a.arg pos = "-t" → sh.posixly = false →
      Reading.ofTest (sh.unaryTest (a.arg pos) "1" s) (pos + 1) = .ok x →
      ∃ e : Tree .term, Reads sh a pos s e x := fun ht hposix hx => by
    obtain ⟨hx, hpos⟩ := ofTest_eq_ok.mp hx
    rw [ht] at hx
    refine ⟨.tty, hposix, ?_, by omega, hx⟩
    rw [hdrop, hpos, ht]
    rfl
  rw [unaryOperator] at h
  simp only [hop, Bool.not_true, Bool.false_eq_true, if_false] at h
  by_cases ht : a.arg pos = "-t" ∧ sh.posixly = false
  · have hcond : (!sh.posixly && decide (a.arg pos = "-t")) = true := by simp [ht]
    rw [if_pos hcond, if_pos (by omega)] at h
    split_ifs at h with hnumber hconn
    · exact hunary (fun _ _ => hnumber) h
    · exact htty ht.1 ht.2 h
  · have hcond : ¬ (!sh.posixly && decide (a.arg pos = "-t")) = true := by
      simpa [and_comm] using ht
    rw [if_neg hcond, if_neg (by omega)] at h
    exact hunary (fun hop hposix => absurd ⟨hop, hposix⟩ ht) h

theorem binaryOperator_reads (hop : testBinop (a.arg (pos + 1)) = true) (hlt : pos + 3 ≤ a.argc)
    (h : a.binaryOperator sh pos s = .ok x) : ∃ e : Tree .term, Reads sh a pos s e x := by
  rw [binaryOperator] at h
  simp only [hop, Bool.not_true, Bool.false_eq_true, if_false] at h
  obtain ⟨hx, hpos⟩ := ofTest_eq_ok.mp h
  have hargs : a.argv.drop pos =
      [a.arg pos, a.arg (pos + 1), a.arg (pos + 2)] ++ a.argv.drop x.2.1 := by
    rw [drop_three hlt, hpos]
    rfl
  have hle : x.2.1 ≤ a.argc := by omega
  have hreads : Reads sh a pos s (.binary (a.arg pos) (a.arg (pos + 1)) (a.arg (pos + 2)) hop) x :=
    ⟨trivial, hargs, hle, hx⟩
  exact ⟨_, hreads⟩

theorem Reads.not {t : Tree .term} (hnot : a.arg pos = "!") (hlt : pos < a.argc)
    (h : Reads sh a (pos + 1) s t (!x.1, x.2)) : Reads sh a pos s (.not t) x where
  valid := h.valid
  args := by
    rw [drop_eq hlt, hnot, h.args]
    rfl
  le := h.le
  eval := by
    rw [Tree.eval, h.eval]
    simp [Tree.complement]

variable (sh) in
theorem Reads.string (hlt : pos < a.argc) :
    Reads sh a pos s (.string (a.arg pos)) (a.oneArgTest pos, pos + 1, s) :=
  ⟨trivial, drop_eq hlt, hlt, rfl⟩

theorem twoArguments_reads (hlt : pos + 2 ≤ a.argc) (h : a.twoArguments sh pos s = .ok x) :
    ∃ e : Tree .term, Reads sh a pos s e x := by
  rw [twoArguments] at h
  split_ifs at h with hnot hop
  · cases h
    refine ⟨.not (.string (a.arg (pos + 1))), .not hnot (by omega) ?_⟩
    have hstring := Reads.string sh (s := s) (show pos + 1 < a.argc by omega)
    simpa [oneArgTest] using hstring
  · exact unaryOperator_reads hop hlt h

/-- Three arguments that are strings joined by a connective. -/
structure ReadsStrings (a : Args) (pos : ℕ) (s : σ) (left : String) (isAnd : Bool) (right : String)
    (x : Bool × ℕ × σ) : Prop where
  args : a.argv.drop pos = left :: connective isAnd :: right :: a.argv.drop x.2.1
  le : x.2.1 ≤ a.argc
  value : x.1 = joined isAnd (left ≠ "") (right ≠ "")
  state : x.2.2 = s

theorem threeArguments_reads (hlt : pos + 3 ≤ a.argc) (h : a.threeArguments sh pos s = .ok x) :
    (∃ e : Tree .term, Reads sh a pos s e x) ∨
      ∃ left isAnd right, ReadsStrings a pos s left isAnd right x := by
  have hdrop := drop_three hlt
  rw [threeArguments] at h
  split_ifs at h with hop hconn hand hnot hbeyond hparen
  · exact .inl (binaryOperator_reads hop hlt h)
  · cases h
    refine .inr ⟨a.arg pos, true, a.arg (pos + 2), ?_, hlt, rfl, rfl⟩
    rw [hdrop, hand]
    rfl
  · cases h
    have hor : a.arg (pos + 1) = "-o" := by
      rw [andor, Bool.or_eq_true, decide_eq_true_eq, decide_eq_true_eq] at hconn
      exact hconn.resolve_left hand
    refine .inr ⟨a.arg pos, false, a.arg (pos + 2), ?_, hlt, rfl, rfl⟩
    rw [hdrop, hor]
    rfl
  · obtain ⟨e, he⟩ := twoArguments_reads (by omega) (negate_eq_ok.mp h)
    exact .inl ⟨.not e, he.not hnot (by omega)⟩
  · cases h
    have hargs : a.argv.drop pos = ["(", a.arg (pos + 1), ")"] ++ a.argv.drop (pos + 3) := by
      rw [hdrop, hparen.1, hparen.2]
      rfl
    have hreads : Reads sh a pos s (.paren (.ofAnd (.ofTerm (.string (a.arg (pos + 1))))))
        (a.oneArgTest (pos + 1), pos + 3, s) := ⟨trivial, hargs, hlt, rfl⟩
    exact .inl ⟨_, hreads⟩

/-! ## Leading `!` -/

/-- The tree with so many `!` in front. -/
def nots : ℕ → Tree .term → Tree .term
  | 0, t => t
  | n + 1, t => .not (nots n t)

/-- The value is that of as many negations as there are `!`. -/
theorem leadingNots_eq_ok : ∀ {l : List String} {pos p : ℕ} {value v : Bool},
    leadingNots l pos value = .ok (v, p) →
      ∃ n, p = pos + n ∧ l = List.replicate n "!" ++ l.drop n ∧ n ≤ l.length ∧ v = (value ^^ n.bodd) ∧
        (l.drop n).head? ≠ some "!"
  | [], pos, p, value, v, h => by
      cases h
      exact ⟨0, rfl, rfl, Nat.le_refl 0, by simp, by simp⟩
  | x :: rest, pos, p, value, v, h => by
      rw [leadingNots] at h
      split_ifs at h with hnot hnil
      · obtain ⟨n, hp, hl, hlen, hv, hhead⟩ := leadingNots_eq_ok h
        refine ⟨n + 1, by omega, ?_, Nat.succ_le_succ hlen, ?_, hhead⟩
        · rw [List.replicate_succ, List.cons_append, List.drop_succ_cons, ← hl, hnot]
        · rw [hv, Nat.bodd_succ]
          cases value <;> simp
      · cases h
        exact ⟨0, rfl, rfl, Nat.zero_le _, by simp, by simpa using hnot⟩

theorem Reads.nots {t : Tree .term} : ∀ (n : ℕ) {pos : ℕ} {x : Bool × ℕ × σ},
    a.argv.drop pos = List.replicate n "!" ++ a.argv.drop (pos + n) → pos + n ≤ a.argc →
      Reads sh a (pos + n) s t (x.1 ^^ n.bodd, x.2) → Reads sh a pos s (nots n t) x
  | 0, pos, x, _, _, h => by
      have hx : (x.1 ^^ Nat.bodd 0, x.2) = x := by simp
      rw [hx] at h
      exact h
  | n + 1, pos, x, hdrop, hle, h => by
      have hlt : pos < a.argc := by omega
      rw [drop_eq hlt, List.replicate_succ, List.cons_append, List.cons.injEq] at hdrop
      refine Reads.not hdrop.1 hlt (Reads.nots n ?_ (by omega) ?_)
      · rw [hdrop.2, Nat.add_assoc, Nat.add_comm 1 n]
      · rw [Nat.add_assoc, Nat.add_comm 1 n]
        have hbodd : (x.1 ^^ (n + 1).bodd) = (!x.1 ^^ n.bodd) := by
          rw [Nat.bodd_succ]
          cases x.1 <;> simp
        rw [← hbodd]
        exact h

/-! ## Parentheses -/

theorem le_scanParen : ∀ (l : List String) (count nargs : ℕ), nargs ≤ scanParen l count nargs
  | [], _, _ => Nat.le_refl _
  | x :: rest, count, nargs => by
      have hrest : ∀ n, nargs ≤ if n = 0 then nargs else scanParen rest n (nargs + 1) := fun n => by
        split
        · exact Nat.le_refl _
        · exact Nat.le_of_succ_le (le_scanParen rest n (nargs + 1))
      exact hrest _

/-- A single argument is in front of a right parenthesis. -/
theorem scanParen_eq_one {x : String} {l : List String} (h : scanParen (x :: l) 1 1 = 1) : x = ")" := by
  by_contra hne
  have hcount : ¬ (if x = ")" then 1 - 1 else if x = "(" then 1 + 1 else 1) = 0 := by
    rw [if_neg hne]
    split <;> simp
  rw [scanParen] at h
  simp only [if_neg hcount] at h
  have := le_scanParen l (if x = ")" then 1 - 1 else if x = "(" then 1 + 1 else 1) (1 + 1)
  omega

/-- A single argument in parentheses is empty where the first argument is, which is the one that
the shortcut looks at. -/
def SingleSame (sh : Shell σ) (a : Args) : Prop :=
  52 < sh.compat → ∀ i, a.arg i = "(" → a.arg (i + 2) = ")" → (a.arg (i + 1) = "" ↔ a.arg 1 = "")

/-- What stands in parentheses: an expression, or what the last production has there. -/
def ReadsGroup (sh : Shell σ) (a : Args) (pos : ℕ) (s : σ) (x : Bool × ℕ × σ) : Prop :=
  (∃ e : Tree .or, Reads sh a pos s e x) ∨
    ∃ left isAnd right, 52 < sh.compat ∧ a.arg pos = "!" ∧ pos < a.argc ∧
      ReadsStrings a (pos + 1) s left isAnd right (!x.1, x.2)

theorem Reads.ofTerm {t : Tree .term} (h : Reads sh a pos s t x) :
    Reads sh a pos s (Tree.ofTerm t) x :=
  ⟨h.valid, h.args, h.le, h.eval⟩

theorem Reads.ofAnd {t : Tree .and} (h : Reads sh a pos s t x) : Reads sh a pos s (Tree.ofAnd t) x :=
  ⟨h.valid, h.args, h.le, h.eval⟩

theorem ReadsStrings.reads {left right : String} {isAnd : Bool}
    (h : ReadsStrings a pos s left isAnd right x) : ∃ e : Tree .or, Reads sh a pos s e x := by
  obtain ⟨hargs, hle, hvalue, hstate⟩ := h
  obtain ⟨value, p, s'⟩ := x
  cases hstate
  cases hvalue
  cases isAnd with
  | true => exact ⟨.ofAnd (.and (.string left) (.ofTerm (.string right))), ⟨trivial, trivial⟩, hargs, hle, rfl⟩
  | false =>
      exact ⟨.or (.ofTerm (.string left)) (.ofAnd (.ofTerm (.string right))), ⟨trivial, trivial⟩, hargs, hle, rfl⟩

/-- What the five functions accept with so much fuel. -/
structure Sound (sh : Shell σ) (a : Args) (fuel : ℕ) : Prop where
  expr : ∀ pos s x, a.expr sh fuel pos s = some (.ok x) → ∃ e : Tree .or, Reads sh a pos s e x
  or : ∀ pos s x, a.or sh fuel pos s = some (.ok x) → ∃ e : Tree .or, Reads sh a pos s e x
  and : ∀ pos s x, a.and sh fuel pos s = some (.ok x) → ∃ e : Tree .and, Reads sh a pos s e x
  term : ∀ pos s x, a.term sh fuel pos s = some (.ok x) → ∃ e : Tree .term, Reads sh a pos s e x
  posixtest : ∀ nargs pos s x, scanParen (a.argv.drop (pos + 1)) 1 1 = nargs → pos + nargs < a.argc →
    52 < sh.compat → (nargs = 1 → (a.arg pos = "" ↔ a.arg 1 = "")) →
      a.posixtest sh fuel nargs pos s = some (.ok x) → ReadsGroup sh a pos s x

variable {fuel : ℕ}

/-- A connective with its two operands. -/
theorem Reads.join {c' : Nonterminal} (isAnd : Bool) {t : Tree c} {e : Tree c'} {whole : Tree c'}
    {value v2 : Bool} {p q : ℕ} {s₁ s₂ : σ}
    (hvalid : t.Valid sh → e.Valid sh → whole.Valid sh)
    (hargs : whole.args = t.args ++ connective isAnd :: e.args)
    (heval : whole.eval sh s = Tree.join isAnd (t.eval sh s) (e.eval sh))
    (ht : Reads sh a pos s t (value, p, s₁)) (hlt : p < a.argc) (hconn : a.arg p = connective isAnd)
    (he : Reads sh a (p + 1) s₁ e (v2, q, s₂)) :
    Reads sh a pos s whole (joined isAnd value v2, q, s₂) where
  valid := hvalid ht.valid he.valid
  args := by
    have hrest := he.args
    have hfirst := ht.args
    simp only at hrest hfirst
    rw [hfirst, hargs, drop_eq hlt, hconn, hrest]
    simp
  le := he.le
  eval := by
    rw [heval, ht.eval]
    simp only [Tree.join, he.eval]

theorem or_reads (h : Sound sh a fuel) (hx : a.or sh (fuel + 1) pos s = some (.ok x)) :
    ∃ e : Tree .or, Reads sh a pos s e x := by
  rw [Args.or, andThen_eq_ok] at hx
  obtain ⟨value, p, s₁, hand, hx⟩ := hx
  obtain ⟨t, ht⟩ := h.and _ _ _ hand
  split_ifs at hx with hconn
  · obtain ⟨v2, q, s₂, hor, hx⟩ := andThen_eq_ok.mp hx
    obtain ⟨e, he⟩ := h.or _ _ _ hor
    cases hx
    exact ⟨.or t e, ht.join false And.intro rfl rfl hconn.1 hconn.2 he⟩
  · cases hx
    exact ⟨.ofAnd t, ht.ofAnd⟩

theorem and_reads (h : Sound sh a fuel) (hx : a.and sh (fuel + 1) pos s = some (.ok x)) :
    ∃ e : Tree .and, Reads sh a pos s e x := by
  rw [Args.and, andThen_eq_ok] at hx
  obtain ⟨value, p, s₁, hterm, hx⟩ := hx
  obtain ⟨t, ht⟩ := h.term _ _ _ hterm
  split_ifs at hx with hconn
  · obtain ⟨v2, q, s₂, hand, hx⟩ := andThen_eq_ok.mp hx
    obtain ⟨e, he⟩ := h.and _ _ _ hand
    cases hx
    exact ⟨.and t e, ht.join true And.intro rfl rfl hconn.1 hconn.2 he⟩
  · cases hx
    exact ⟨.ofTerm t, ht.ofTerm⟩

/-- The right parenthesis follows. -/
theorem ReadsGroup.paren (hparen : a.arg pos = "(") (hlt : pos < a.argc) {value : Bool} {p : ℕ} {s₁ : σ}
    (h : ReadsGroup sh a (pos + 1) s (value, p, s₁)) (hp : p < a.argc) (hclose : a.arg p = ")") :
    ∃ e : Tree .term, Reads sh a pos s e (value, p + 1, s₁) := by
  rcases h with ⟨e, he⟩ | ⟨left, isAnd, right, hcompat, hnot, hlt', hstrings⟩
  · have hrest := he.args
    simp only at hrest
    have hargs : a.argv.drop pos = (Tree.paren e).args ++ a.argv.drop (p + 1) := by
      rw [drop_eq hlt, hparen, hrest, drop_eq hp, hclose]
      simp [Tree.args]
    have hreads : Reads sh a pos s (.paren e) (value, p + 1, s₁) := ⟨he.valid, hargs, hp, he.eval⟩
    exact ⟨_, hreads⟩
  · obtain ⟨hrest, -, hvalue, hstate⟩ := hstrings
    simp only at hrest hvalue hstate
    have hargs : a.argv.drop pos = (Tree.notThree left isAnd right).args ++ a.argv.drop (p + 1) := by
      rw [drop_eq hlt, hparen, drop_eq hlt', hnot, hrest, drop_eq hp, hclose]
      rfl
    have hreads : Reads sh a pos s (.notThree left isAnd right) (value, p + 1, s₁) := by
      refine ⟨hcompat, hargs, hp, ?_⟩
      rw [Tree.eval, ← hvalue, hstate, Bool.not_not]
    exact ⟨_, hreads⟩

/-- Leading negations of a term. -/
theorem term_reads_nots (h : Sound sh a fuel) (hlt : pos < a.argc)
    (hx : (match leadingNots (a.argv.drop pos) pos false with
      | .error e => some (.error e)
      | .ok (value, pos) =>
          if value then (a.term sh fuel pos s).map negate else a.term sh fuel pos s) = some (.ok x)) :
    ∃ e : Tree .term, Reads sh a pos s e x := by
  cases hnots : leadingNots (a.argv.drop pos) pos false with
  | error e =>
      rw [hnots] at hx
      cases hx
  | ok r =>
      obtain ⟨value, p⟩ := r
      rw [hnots] at hx
      obtain ⟨n, rfl, hl, hlen, rfl, -⟩ := leadingNots_eq_ok hnots
      rw [List.drop_drop] at hl
      rw [List.length_drop] at hlen
      have hle : pos + n ≤ a.argc := by
        rw [argc] at hlt ⊢
        omega
      have hterm : ∃ t : Tree .term, Reads sh a (pos + n) s t (x.1 ^^ n.bodd, x.2) := by
        simp only [Bool.false_bne] at hx
        split at hx
        · next hodd =>
            obtain ⟨r, hr, hrx⟩ := Option.map_eq_some_iff.mp hx
            refine h.term _ _ _ (hr.trans ?_)
            rw [negate_eq_ok.mp hrx, hodd]
            simp
        · next heven =>
            refine h.term _ _ _ (hx.trans ?_)
            rw [Bool.not_eq_true] at heven
            simp [heven]
      obtain ⟨t, ht⟩ := hterm
      exact ⟨_, ht.nots n hl hle⟩

theorem term_reads (hsame : SingleSame sh a) (h : Sound sh a fuel)
    (hx : a.term sh (fuel + 1) pos s = some (.ok x)) : ∃ e : Tree .term, Reads sh a pos s e x := by
  rw [Args.term] at hx
  by_cases hbeyond : pos ≥ a.argc
  · rw [if_pos hbeyond] at hx
    cases hx
  rw [if_neg hbeyond] at hx
  by_cases hnot : a.arg pos = "!"
  · rw [if_pos hnot] at hx
    exact term_reads_nots h (by omega) hx
  rw [if_neg hnot] at hx
  by_cases hparen : a.arg pos = "("
  · rw [if_pos hparen] at hx
    by_cases hend : pos + 1 ≥ a.argc
    · rw [if_pos hend] at hx
      cases hx
    rw [if_neg hend] at hx
    obtain ⟨value, p, s₁, hgroup, hx⟩ := andThen_eq_ok.mp hx
    by_cases hout : p ≥ a.argc
    · rw [if_pos hout] at hx
      cases hx
    rw [if_neg hout] at hx
    by_cases hclose : a.arg p = ")"
    · rw [if_neg (not_not.mpr hclose)] at hx
      cases hx
      refine ReadsGroup.paren hparen (by omega) ?_ (by omega) hclose
      split at hgroup
      · next hshort =>
          refine h.posixtest _ _ _ _ rfl hshort.2.1 hshort.1 (fun hone => ?_) hgroup
          refine hsame hshort.1 pos hparen ?_
          rw [hone] at hshort
          rw [drop_eq hshort.2.1] at hone
          exact scanParen_eq_one hone
      · exact .inl (h.expr _ _ _ hgroup)
    · rw [if_pos hclose] at hx
      cases hx
  rw [if_neg hparen] at hx
  split_ifs at hx with hbinary hunary
  · exact binaryOperator_reads hbinary.2 (by omega) (Option.some.inj hx)
  · exact unaryOperator_reads hunary.2 (by omega) (Option.some.inj hx)
  · cases hx
    exact ⟨_, Reads.string _ (by omega)⟩

/-- Two arguments are read, unless `-t` is in front of a connective. -/
theorem twoArguments_pos (hle : pos + 2 ≤ a.argc) (h : a.twoArguments sh pos s = .ok x) :
    x.2.1 = pos + 2 ∨ a.arg pos = "-t" ∧ andor (a.arg (pos + 1)) = true := by
  rw [twoArguments] at h
  split_ifs at h with hnot hop
  · cases h
    exact .inl rfl
  · rw [unaryOperator] at h
    simp only [hop, Bool.not_true, Bool.false_eq_true, if_false, Bool.and_eq_true,
      decide_eq_true_eq] at h
    split_ifs at h with ht hlt hnumber hconn hbeyond
    · exact .inl (ofTest_eq_ok.mp h).2
    · exact .inr ⟨ht.2, hconn.2⟩
    · omega
    · exact .inl (ofTest_eq_ok.mp h).2

/-- Two arguments in parentheses, which are four arguments. -/
theorem twoInParens_reads (hlt : pos + 4 < a.argc) (hscan : scanParen (a.argv.drop (pos + 1)) 1 1 = 4)
    (hparen : a.arg pos = "(") (hclose : a.arg (pos + 3) = ")")
    (h : a.twoArguments sh (pos + 1) s = .ok x) :
    ∃ e : Tree .term, Reads sh a pos s e (x.1, x.2.1 + 1, x.2.2) := by
  obtain ⟨t, ht⟩ := twoArguments_reads (by omega) h
  rcases twoArguments_pos (by omega) h with hpos | ⟨htty, hconn⟩
  · obtain ⟨value, p, s₁⟩ := x
    obtain rfl : p = pos + 3 := hpos
    have hlt' : pos + 3 < a.argc := by omega
    exact ReadsGroup.paren hparen (by omega) (.inl ⟨_, ht.ofTerm.ofAnd⟩) hlt' hclose
  · -- the scan would have stopped at the parenthesis
    exfalso
    rw [drop_three (by omega), htty, hclose] at hscan
    rw [andor, Bool.or_eq_true, decide_eq_true_eq, decide_eq_true_eq] at hconn
    rcases hconn with hconn | hconn <;> simp [hconn, scanParen] at hscan

theorem posixtest_reads (h : Sound sh a fuel) (nargs : ℕ)
    (hscan : scanParen (a.argv.drop (pos + 1)) 1 1 = nargs) (hlt : pos + nargs < a.argc)
    (hcompat : 52 < sh.compat) (hone : nargs = 1 → (a.arg pos = "" ↔ a.arg 1 = ""))
    (hx : a.posixtest sh (fuel + 1) nargs pos s = some (.ok x)) : ReadsGroup sh a pos s x := by
  obtain rfl | rfl | rfl | rfl | rfl | hbig : nargs = 0 ∨ nargs = 1 ∨ nargs = 2 ∨ nargs = 3 ∨
      nargs = 4 ∨ 4 < nargs := by omega
  · have := le_scanParen (a.argv.drop (pos + 1)) 1 1
    omega
  · rw [Args.posixtest] at hx
    cases hx
    have hvalue : a.oneArgTest 1 = a.oneArgTest pos := by
      simp only [oneArgTest, ne_eq, hone rfl]
    rw [hvalue]
    exact .inl ⟨_, (Reads.string _ (by omega)).ofTerm.ofAnd⟩
  · rw [Args.posixtest] at hx
    obtain ⟨t, ht⟩ := twoArguments_reads (by omega) (Option.some.inj hx)
    exact .inl ⟨_, ht.ofTerm.ofAnd⟩
  · rw [Args.posixtest] at hx
    rcases threeArguments_reads (by omega) (Option.some.inj hx) with ⟨t, ht⟩ | ⟨l, isAnd, r, hstrings⟩
    · exact .inl ⟨_, ht.ofTerm.ofAnd⟩
    · exact .inl hstrings.reads
  · rw [Args.posixtest] at hx
    have hmore : ¬ pos + 1 ≥ a.argc := by omega
    simp only [if_neg hmore] at hx
    split_ifs at hx with hnot hparen
    · rcases threeArguments_reads (by omega) (negate_eq_ok.mp (Option.some.inj hx)) with
        ⟨t, ht⟩ | ⟨l, isAnd, r, hstrings⟩
      · exact .inl ⟨_, (ht.not hnot (by omega)).ofTerm.ofAnd⟩
      · exact .inr ⟨l, isAnd, r, hcompat, hnot, by omega, hstrings⟩
    · obtain ⟨value, p, s₁, htwo, hx⟩ := andThen_eq_ok.mp hx
      cases hx
      obtain ⟨t, ht⟩ := twoInParens_reads hlt hscan hparen.1 hparen.2 (Option.some.inj htwo)
      exact .inl ⟨_, ht.ofTerm.ofAnd⟩
    · exact .inl (h.expr _ _ _ hx)
  · rw [Args.posixtest] at hx
    · exact .inl (h.expr _ _ _ hx)
    all_goals omega

theorem sound (hsame : SingleSame sh a) : ∀ fuel, Sound sh a fuel
  | 0 =>
      ⟨fun _ _ _ hx => (by simp [Args.expr] at hx), fun _ _ _ hx => (by simp [Args.or] at hx),
        fun _ _ _ hx => (by simp [Args.and] at hx), fun _ _ _ hx => (by simp [Args.term] at hx),
        fun _ _ _ _ _ _ _ _ hx => (by simp [Args.posixtest] at hx)⟩
  | fuel + 1 => by
      have ih := sound hsame fuel
      refine ⟨fun pos s x hx => ?_, fun _ _ _ => or_reads ih, fun _ _ _ => and_reads ih,
        fun _ _ _ => term_reads hsame ih, fun _ _ _ _ => posixtest_reads ih _⟩
      rw [Args.expr] at hx
      split at hx
      · cases hx
      · exact ih.or _ _ _ hx

end Args

end TestCommand

end Rash
