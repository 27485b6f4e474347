import Rash.Cond.TestClear

/-!
# test reads clear expressions

A clear expression of the grammar is read whole, with its value, whatever the nesting.
-/

namespace Rash

namespace TestCommand

namespace Args

variable {σ : Type} {sh : Shell σ} {a : Args} {pos fuel : ℕ} {s : σ} {c : Nonterminal}
  {l : List String}

/-! ## Positions -/

/-- The arguments from the position on. -/
structure Rest (a : Args) (pos : ℕ) (l : List String) : Prop where
  drop : a.argv.drop pos = l
  le : pos ≤ a.argc

theorem Rest.argc (h : Rest a pos l) : a.argc = pos + l.length := by
  have hlength := congrArg List.length h.drop
  have hle := h.le
  rw [List.length_drop] at hlength
  rw [Args.argc] at hle ⊢
  omega

theorem Rest.arg (h : Rest a pos l) (k : ℕ) : a.arg (pos + k) = l.getD k "" := by
  rw [Args.arg, ← h.drop, List.getD_eq_getElem?_getD, List.getD_eq_getElem?_getD, List.getElem?_drop]

theorem Rest.append {l' : List String} (h : Rest a pos (l ++ l')) : Rest a (pos + l.length) l' := by
  have hargc := h.argc
  rw [List.length_append] at hargc
  refine ⟨?_, by omega⟩
  rw [← List.drop_drop, h.drop, List.drop_left]

theorem Rest.tail {x : String} (h : Rest a pos (x :: l)) : Rest a (pos + 1) l :=
  Rest.append (l := [x]) h

theorem Rest.head {x : String} (h : Rest a pos (x :: l)) : a.arg pos = x := h.arg 0

theorem Rest.lt {x : String} (h : Rest a pos (x :: l)) : pos < a.argc := by
  rw [h.argc, List.length_cons]
  omega

/-! ## Primaries -/

theorem unaryOperator_number {op arg : String} (hop : testUnop op = true)
    (h : Rest a pos (op :: arg :: l)) (hvalid : op = "-t" → sh.posixly = false →
      (Braces.validNumber arg.toList).isSome = true) :
    a.unaryOperator sh pos s = .ofTest (sh.unaryTest op arg s) (pos + 2) := by
  have hlt := h.tail.lt
  have harg : a.arg (pos + 1) = arg := h.tail.head
  rw [unaryOperator, h.head, harg]
  simp only [hop, Bool.not_true, Bool.false_eq_true, if_false]
  by_cases ht : op = "-t" ∧ sh.posixly = false
  · rw [if_pos (by simp [ht]), if_pos hlt, if_pos (hvalid ht.1 ht.2)]
  · have hcond : ¬ (!sh.posixly && decide (op = "-t")) = true := by simpa [and_comm] using ht
    rw [if_neg hcond, if_neg (by omega)]

theorem unaryOperator_tty {conn : String} (h : Rest a pos ("-t" :: conn :: l)) (hconn : andor conn = true)
    (hposix : sh.posixly = false) (hargc : 5 ≤ a.argc) :
    a.unaryOperator sh pos s = .ofTest (sh.unaryTest "-t" "1" s) (pos + 1) := by
  have hlt := h.tail.lt
  have harg : a.arg (pos + 1) = conn := h.tail.head
  have hnumber : (Braces.validNumber conn.toList).isSome = false := by
    rcases andor_eq.mp hconn with rfl | rfl <;> decide +kernel
  have hop : testUnop "-t" = true := by decide
  rw [unaryOperator, h.head, harg]
  simp only [hop, hposix, hnumber, hconn, Bool.not_true, Bool.not_false, Bool.false_eq_true, if_false,
    decide_true, Bool.and_self, if_true, if_pos hlt, hargc]

theorem binaryOperator_tree {left op right : String} (hop : testBinop op = true)
    (h : Rest a pos (left :: op :: right :: l)) :
    a.binaryOperator sh pos s = .ofTest (sh.binaryTest op left right s) (pos + 3) := by
  have hopArg : a.arg (pos + 1) = op := h.tail.head
  have hright : a.arg (pos + 2) = right := h.tail.tail.head
  rw [binaryOperator, h.head, hopArg, hright]
  simp only [hop, Bool.not_true, Bool.false_eq_true, if_false]

theorem negate_ofTest (r : Except TestError (Bool × σ)) (p : ℕ) :
    negate (.ofTest r p) = .ofTest (Tree.complement r) p := by
  cases r <;> rfl

/-! ## Few arguments -/

/-- A term of one argument in front of a right parenthesis is a string. -/
theorem term_one {t : Tree .term} (hlen : t.args.length = 1) (hclear : t.Clear (some ")")) :
    ∃ x, t = .string x := by
  cases t with
  | string x => exact ⟨x, rfl⟩
  | unary op arg hop => simp [Tree.args] at hlen
  | tty => simp [Tree.Clear] at hclear
  | binary left op right hop => simp [Tree.args] at hlen
  | not t =>
      simp [Tree.args] at hlen
      exact absurd hlen t.args_ne_nil
  | paren e => simp [Tree.args] at hlen
  | notThree left isAnd right => simp [Tree.args] at hlen

/-- The length of an expression with a connective. -/
theorem length_join {c' : Nonterminal} (t : Tree c) (op : String) (e : Tree c') :
    (t.args ++ op :: e.args).length = t.args.length + 1 + e.args.length ∧ 0 < t.args.length ∧
      0 < e.args.length := by
  refine ⟨by simp; omega, List.length_pos_iff.mpr t.args_ne_nil, List.length_pos_iff.mpr e.args_ne_nil⟩

theorem and_one {e : Tree .and} (hlen : e.args.length ≤ 2) : ∃ t, e = .ofTerm t := by
  cases e with
  | ofTerm t => exact ⟨t, rfl⟩
  | and t e =>
      have := length_join t "-a" e
      simp only [Tree.args] at hlen
      omega

theorem or_one {e : Tree .or} (hlen : e.args.length ≤ 2) : ∃ t, e = .ofAnd (.ofTerm t) := by
  cases e with
  | ofAnd e =>
      obtain ⟨t, rfl⟩ := and_one (e := e) hlen
      exact ⟨t, rfl⟩
  | or t e =>
      have := length_join t "-o" e
      simp only [Tree.args] at hlen
      omega

theorem twoArguments_tree {t : Tree .term} (hlen : t.args.length = 2) (h : Rest a pos (t.args ++ l))
    (hvalid : t.Valid sh) (hclear : t.Clear (some ")")) :
    a.twoArguments sh pos s = .ofTest (t.eval sh s) (pos + 2) := by
  cases t with
  | string x => simp [Tree.args] at hlen
  | unary op arg hop =>
      have hunary := unaryOperator_number (s := s) hop h hvalid
      rw [twoArguments, Rest.head h, if_neg (testUnop_spec hop).2.1, if_pos hop, hunary]
      rfl
  | tty => simp [Tree.args] at hlen
  | binary left op right hop => simp [Tree.args] at hlen
  | not t =>
      obtain ⟨x, rfl⟩ := term_one (t := t) (by simpa [Tree.args] using hlen) hclear
      have harg : a.arg (pos + 1) = x := Rest.head (Rest.tail h)
      rw [twoArguments, Rest.head h, if_pos rfl, harg]
      simp [Tree.eval, Tree.complement, Reading.ofTest]
  | paren e =>
      simp [Tree.args] at hlen
      exact absurd hlen e.args_ne_nil
  | notThree left isAnd right => simp [Tree.args] at hlen

/-- A term of three arguments whose second is no connective. -/
theorem threeArguments_tree {first : String} {t : Tree .term} (hlen : t.args.length = 3)
    (h : Rest a pos (t.args ++ l)) (hvalid : t.Valid sh) (hclear : t.Clear (some ")"))
    (htame : t.Tame first) (hmid : andor (a.arg (pos + 1)) = false) :
    a.threeArguments sh pos s = .ofTest (t.eval sh s) (pos + 3) := by
  cases t with
  | string x => simp [Tree.args] at hlen
  | unary op arg hop => simp [Tree.args] at hlen
  | tty => simp [Tree.args] at hlen
  | binary left op right hop =>
      have harg : a.arg (pos + 1) = op := Rest.head (Rest.tail h)
      rw [threeArguments, harg, if_pos hop, binaryOperator_tree hop h]
      rfl
  | not t =>
      have hlen' : t.args.length = 2 := by simpa [Tree.args] using hlen
      have hrest : Rest a (pos + 1) (t.args ++ l) := Rest.tail h
      have hbinop : testBinop (a.arg (pos + 1)) = false := by
        cases t with
        | string x => simp [Tree.args] at hlen'
        | unary op arg hop =>
            rw [show a.arg (pos + 1) = op from Rest.head hrest]
            exact (testUnop_spec hop).1
        | tty => simp [Tree.args] at hlen'
        | binary left op right hop => simp [Tree.args] at hlen'
        | not t =>
            rw [show a.arg (pos + 1) = "!" from Rest.head hrest]
            decide
        | paren e =>
            simp [Tree.args] at hlen'
            exact absurd hlen' e.args_ne_nil
        | notThree left isAnd right => simp [Tree.args] at hlen'
      have hlt : ¬ pos + 1 ≥ a.argc := by
        have := hrest.argc
        simp only [List.length_append] at this
        omega
      rw [threeArguments, hbinop, hmid, Rest.head h]
      simp only [Bool.false_eq_true, if_false, if_true, if_neg hlt]
      rw [twoArguments_tree hlen' hrest hvalid hclear, negate_ofTest]
      rfl
  | paren e =>
      have hlen' : e.args.length = 1 := by simpa [Tree.args] using hlen
      obtain ⟨t, rfl⟩ := or_one (e := e) (by omega)
      obtain ⟨x, rfl⟩ := term_one (t := t) hlen' hclear
      have hmiddle : a.arg (pos + 1) = x := Rest.head (Rest.tail h)
      have hclose : a.arg (pos + 2) = ")" := Rest.head (Rest.tail (Rest.tail h))
      have hbinop : testBinop x = false := htame.1.2
      rw [threeArguments, hmid, hmiddle, hbinop, Rest.head h, hclose]
      simp only [Bool.false_eq_true, if_false]
      simp [oneArgTest, hmiddle, Tree.eval, Reading.ofTest]
  | notThree left isAnd right => simp [Tree.args] at hlen

theorem threeArguments_strings {left right : String} {isAnd : Bool}
    (h : Rest a pos (left :: connective isAnd :: right :: l)) :
    a.threeArguments sh pos s = .ok (joined isAnd (left ≠ "") (right ≠ ""), pos + 3, s) := by
  have hconn : a.arg (pos + 1) = connective isAnd := h.tail.head
  have hright : a.arg (pos + 2) = right := h.tail.tail.head
  have hbinop : testBinop (connective isAnd) = false :=
    (testUnop_spec (testUnop_of_andor (andor_connective isAnd))).1
  rw [threeArguments, hconn, hbinop, andor_connective]
  simp only [Bool.false_eq_true, if_false, if_true, oneArgTest, h.head, hright]
  cases isAnd with
  | true => rfl
  | false => rfl

/-- What begins with `!` is a negation. -/
theorem term_not_of_head {t : Tree .term} {next : Option String} (hclear : t.Clear next)
    (hhead : t.args.head? = some "!") : ∃ t', t = .not t' := by
  cases t with
  | string x => exact absurd (Option.some.inj hhead) hclear.1
  | unary op arg hop => exact absurd (Option.some.inj hhead) (testUnop_spec hop).2.1
  | tty => exact absurd (Option.some.inj hhead) (by decide)
  | binary left op right hop => exact absurd (Option.some.inj hhead) hclear.1
  | not t => exact ⟨t, rfl⟩
  | paren e => exact absurd (Option.some.inj hhead) (by decide)
  | notThree left isAnd right => exact absurd (Option.some.inj hhead) (by decide)

theorem length_not (t : Tree .term) : 2 ≤ (Tree.not t).args.length := by
  have := List.length_pos_iff.mpr t.args_ne_nil
  simp only [Tree.args, List.length_cons]
  omega

theorem and_not_of_head {e : Tree .and} {next : Option String} (hclear : e.Clear next)
    (hhead : e.args.head? = some "!") : 2 ≤ e.args.length := by
  cases e with
  | ofTerm t =>
      obtain ⟨t', rfl⟩ := term_not_of_head hclear hhead
      exact length_not t'
  | and t e =>
      have := length_join t "-a" e
      simp only [Tree.args]
      omega

variable (sh) in
/-- Three arguments in parentheses are a term, or strings with a connective. -/
theorem or_three {first : String} {e : Tree .or} (hlen : e.args.length = 3)
    (hclear : e.Clear (some ")")) (hshort : Unshortened first e.args) :
    (∃ t, e = .ofAnd (.ofTerm t)) ∨ ∃ left isAnd right,
      e.args = [left, connective isAnd, right] ∧ ∀ s,
        e.eval sh s = .ok (joined isAnd (left ≠ "") (right ≠ ""), s) := by
  -- the first operand of a connective is no `-t`
  have hone : ∀ {t : Tree .term} (isAnd : Bool) {right : String},
      e.args = t.args ++ [connective isAnd, right] → t.args.length = 1 →
      t.Clear (some (connective isAnd)) → ∃ left, t = .string left := by
    intro t isAnd right hargs hlen' hclear'
    cases t with
    | string x => exact ⟨x, rfl⟩
    | unary op arg hop => simp [Tree.args] at hlen'
    | tty =>
        have hthree := hshort.three hlen (by rw [hargs]; exact andor_connective isAnd)
        rw [hargs] at hthree
        exact absurd rfl hthree.2
    | binary left op right hop => simp [Tree.args] at hlen'
    | not t =>
        have := length_not t
        omega
    | paren e => simp [Tree.args] at hlen'
    | notThree left isAnd right => simp [Tree.args] at hlen'
  cases e with
  | ofAnd e =>
      cases e with
      | ofTerm t => exact .inl ⟨t, rfl⟩
      | and t e =>
          have hsum := length_join t "-a" e
          simp only [Tree.args] at hlen
          have ht : t.args.length = 1 := by omega
          have he : e.args.length = 1 := by omega
          obtain ⟨t₂, rfl⟩ := and_one (e := e) (by omega)
          obtain ⟨right, rfl⟩ := term_one (t := t₂) he hclear.2
          obtain ⟨left, rfl⟩ := hone (t := t) true rfl ht hclear.1
          exact .inr ⟨left, true, right, rfl, fun s => rfl⟩
  | or t e =>
      have hsum := length_join t "-o" e
      simp only [Tree.args] at hlen
      have ht : t.args.length = 1 := by omega
      have he : e.args.length = 1 := by omega
      obtain ⟨t₁, rfl⟩ := and_one (e := t) (by omega)
      obtain ⟨t₂, rfl⟩ := or_one (e := e) (by omega)
      obtain ⟨right, rfl⟩ := term_one (t := t₂) he hclear.2
      obtain ⟨left, rfl⟩ := hone (t := t₁) false rfl ht hclear.1
      exact .inr ⟨left, false, right, rfl, fun s => rfl⟩

theorem getD_length (xs : List String) (x : String) (ys : List String) :
    (xs ++ x :: ys).getD xs.length "" = x := by
  simp [List.getD_eq_getElem?_getD]

theorem head?_join {c' : Nonterminal} (t : Tree c) (op : String) (e : Tree c') :
    (t.args ++ op :: e.args).head? = t.args.head? :=
  List.head?_append_of_ne_nil _ t.args_ne_nil

/-- Four arguments in parentheses that begin with `!` are a negation. -/
theorem or_four {first : String} {e : Tree .or} (hlen : e.args.length = 4)
    (hclear : e.Clear (some ")")) (hshort : Unshortened first e.args)
    (hhead : e.args.head? = some "!") : ∃ t, e = .ofAnd (.ofTerm (.not t)) := by
  have hfirst : e.args.getD 0 "" = "!" := by
    rw [List.getD_eq_getElem?_getD, ← List.head?_eq_getElem?, hhead]
    rfl
  have hfour := hshort.four hlen hfirst
  -- no connective is third
  have hjoin : ∀ {c c' : Nonterminal} (t : Tree c) (isAnd : Bool) (e' : Tree c'),
      e.args = t.args ++ connective isAnd :: e'.args → 2 ≤ t.args.length → False := by
    intro c c' t isAnd e' hargs ht
    have hsum := length_join t (connective isAnd) e'
    rw [← hargs, hlen] at hsum
    have htwo : t.args.length = 2 := by omega
    have hthird := getD_length t.args (connective isAnd) e'.args
    rw [htwo, ← hargs] at hthird
    rw [hthird, andor_connective] at hfour
    cases hfour
  cases e with
  | ofAnd e =>
      cases e with
      | ofTerm t =>
          obtain ⟨t', rfl⟩ := term_not_of_head (t := t) hclear hhead
          exact ⟨t', rfl⟩
      | and t e =>
          obtain ⟨t', rfl⟩ := term_not_of_head (t := t) hclear.1 ((head?_join t "-a" e).symm.trans hhead)
          exact (hjoin (.not t') true e rfl (length_not t')).elim
  | or t e =>
      have hlen' := and_not_of_head (e := t) hclear.1 ((head?_join t "-o" e).symm.trans hhead)
      exact (hjoin t false e rfl hlen').elim

/-- The second argument of a term of three is no connective. -/
theorem term_three_mid {first : String} {t : Tree .term} (hlen : t.args.length = 3)
    (hparen : t.args.head? ≠ some "(") (hshort : Unshortened first t.args) :
    andor (t.args.getD 1 "") = false := by
  by_contra hconn
  rw [Bool.not_eq_false] at hconn
  have hthree := hshort.three hlen hconn
  cases t with
  | string x => simp [Tree.args] at hlen
  | unary op arg hop => simp [Tree.args] at hlen
  | tty => simp [Tree.args] at hlen
  | binary left op right hop =>
      have hbinop := (testUnop_spec (testUnop_of_andor (show andor op = true from hconn))).1
      rw [hop] at hbinop
      cases hbinop
  | not t => exact hthree.1 rfl
  | paren e => exact hparen rfl
  | notThree left isAnd right => simp [Tree.args] at hlen

/-- The shortcut for at most four arguments that do not begin with a parenthesis. -/
theorem posixtest_tree {e : Tree .or} (hlen : e.args.length ≤ 4) (h : Rest a pos (e.args ++ ")" :: l))
    (hparen : e.args.head? ≠ some "(") (hvalid : e.Valid sh) (hclear : e.Clear (some ")"))
    (htame : e.Tame (a.arg 1)) (hshort : Unshortened (a.arg 1) e.args)
    (hexpr : a.expr sh fuel pos s = some (.ofTest (e.eval sh s) (pos + e.args.length))) :
    a.posixtest sh (fuel + 1) e.args.length pos s =
      some (.ofTest (e.eval sh s) (pos + e.args.length)) := by
  have hpos := List.length_pos_iff.mpr e.args_ne_nil
  have harg : ∀ k < e.args.length, a.arg (pos + k) = e.args.getD k "" := fun k hk => by
    rw [h.arg k, List.getD_eq_getElem?_getD, List.getD_eq_getElem?_getD,
      List.getElem?_append_left hk]
  have hhead : e.args.head? = some (a.arg pos) := by
    rw [show a.arg pos = e.args.getD 0 "" from harg 0 hpos, List.head?_eq_getElem?,
      List.getD_eq_getElem?_getD]
    cases hget : e.args[0]? with
    | none => rw [List.getElem?_eq_none_iff] at hget; omega
    | some x => rfl
  have hopen : a.arg pos ≠ "(" := fun heq => hparen (heq ▸ hhead)
  obtain hone | htwo | hthree | hfour : e.args.length = 1 ∨ e.args.length = 2 ∨ e.args.length = 3 ∨
      e.args.length = 4 := by omega
  · obtain ⟨t, rfl⟩ := or_one (e := e) (by omega)
    obtain ⟨x, rfl⟩ := term_one (t := t) hone hclear
    have hsame : (x = "" ↔ a.arg 1 = "") := hshort.single hone
    rw [hone, Args.posixtest]
    simp [oneArgTest, Tree.eval, Reading.ofTest, hsame]
  · obtain ⟨t, rfl⟩ := or_one (e := e) (by omega)
    rw [htwo, Args.posixtest, twoArguments_tree (t := t) htwo h hvalid hclear]
    rfl
  · rw [hthree, Args.posixtest]
    rcases or_three sh hthree hclear hshort with ⟨t, rfl⟩ | ⟨left, isAnd, right, hargs, heval⟩
    · have hmid : andor (a.arg (pos + 1)) = false := by
        rw [harg 1 (by omega)]
        exact term_three_mid (t := t) hthree hparen hshort
      rw [threeArguments_tree (t := t) hthree h hvalid hclear htame hmid]
      rfl
    · rw [hargs] at h
      rw [threeArguments_strings h, heval]
      rfl
  · rw [hfour, Args.posixtest]
    by_cases hnot : a.arg pos = "!"
    · obtain ⟨t, rfl⟩ := or_four hfour hclear hshort (hnot ▸ hhead)
      have hlt : ¬ pos + 1 ≥ a.argc := by
        have := h.argc
        simp only [List.length_append, hfour] at this
        omega
      have hmid : andor (a.arg (pos + 1 + 1)) = false := by
        rw [Nat.add_assoc, harg 2 (by omega)]
        exact hshort.four hfour rfl
      rw [if_pos hnot, if_neg hlt]
      have hrest : Rest a (pos + 1) (t.args ++ ")" :: l) := Rest.tail h
      have hlen' : t.args.length = 3 := by simpa [Tree.args] using hfour
      rw [threeArguments_tree hlen' hrest hvalid hclear htame hmid, negate_ofTest]
      rfl
    · have hnone : ¬ (a.arg pos = "(" ∧ a.arg (pos + 3) = ")") := fun hboth => hopen hboth.1
      rw [if_neg hnot, if_neg hnone, hexpr, hfour]

/-! ## Terms -/

def parse (sh : Shell σ) (a : Args) : Nonterminal → ℕ → ℕ → σ → Option (Reading σ)
  | .or => a.or sh
  | .and => a.and sh
  | .term => a.term sh

/-- The calls that a function makes before it reads an argument. -/
def rank : Nonterminal → ℕ
  | .or => 3
  | .and => 2
  | .term => 1

/-- What may follow in a rendered expression. -/
def Follows : Nonterminal → Option String → Prop
  | .or, next => next = none ∨ next = some ")"
  | .and, next => next = none ∨ next = some ")" ∨ next = some "-o"
  | .term, next => next = none ∨ next = some ")" ∨ next = some "-o" ∨ next = some "-a"

/-- The tree is read from every place where its arguments stand. -/
def Complete (sh : Shell σ) (a : Args) (e : Tree c) : Prop :=
  ∀ (pos : ℕ) (l : List String) (s : σ) (fuel : ℕ), Rest a pos (e.args ++ l) → Follows c l.head? →
    e.Valid sh → e.Clear l.head? → (52 < sh.compat → e.Tame (a.arg 1)) →
      5 * (a.argc - pos) + rank c ≤ fuel →
        parse sh a c fuel pos s = some (.ofTest (e.eval sh s) (pos + e.args.length))

theorem Follows.not_binop {x : String} (h : Follows .term (some x)) : testBinop x = false := by
  rcases h with h | h | h | h
  · cases h
  · cases h
    decide
  · cases h
    decide
  · cases h
    decide

theorem term_string {x : String} {n : ℕ} (h : Rest a pos (x :: l)) (hnext : Follows .term l.head?)
    (hclear : (Tree.string x).Clear l.head?) :
    a.term sh (n + 1) pos s = some (.ok (x ≠ "", pos + 1, s)) := by
  obtain ⟨hnot, hparen, hunop⟩ := hclear
  have hlt := h.lt
  have hargc := h.argc
  have hbinary : ¬ (pos + 3 ≤ a.argc ∧ testBinop (a.arg (pos + 1)) = true) := by
    rintro ⟨hle, hbinop⟩
    cases l with
    | nil => simp at hargc; omega
    | cons y l =>
        rw [h.tail.head, Follows.not_binop hnext] at hbinop
        cases hbinop
  have hunary : ¬ (pos + 2 ≤ a.argc ∧ testUnop x = true) := by
    rintro ⟨hle, hop⟩
    have hnil : l = [] := List.head?_eq_none_iff.mp (hunop hop)
    rw [hnil] at hargc
    simp at hargc
    omega
  rw [Args.term, h.head, if_neg (by omega), if_neg hnot, if_neg hparen, if_neg hbinary,
    if_neg hunary, oneArgTest, h.head]

theorem term_unary {op arg : String} {n : ℕ} (hop : testUnop op = true)
    (h : Rest a pos (op :: arg :: l)) (hvalid : (Tree.unary op arg hop).Valid sh)
    (hclear : (Tree.unary op arg hop).Clear l.head?) :
    a.term sh (n + 1) pos s = some (.ofTest (sh.unaryTest op arg s) (pos + 2)) := by
  have hlt := h.lt
  have hargc := h.argc
  obtain ⟨-, hnot, hparen⟩ := testUnop_spec hop
  have hbinary : ¬ (pos + 3 ≤ a.argc ∧ testBinop (a.arg (pos + 1)) = true) := by
    rintro ⟨hle, hbinop⟩
    rw [h.tail.head] at hbinop
    have hnil : l = [] := List.head?_eq_none_iff.mp (hclear hbinop)
    rw [hnil] at hargc
    simp at hargc
    omega
  have hunary : pos + 2 ≤ a.argc ∧ testUnop op = true := ⟨by simp at hargc; omega, hop⟩
  rw [Args.term, h.head, if_neg (by omega), if_neg hnot, if_neg (not_isParen hparen).1,
    if_neg hbinary, if_pos hunary, unaryOperator_number hop h hvalid]

theorem term_tty {n : ℕ} (h : Rest a pos ("-t" :: l)) (hposix : sh.posixly = false)
    (hargc : 5 ≤ a.argc) (hclear : Tree.tty.Clear l.head?) :
    a.term sh (n + 1) pos s = some (.ofTest (sh.unaryTest "-t" "1" s) (pos + 1)) := by
  obtain ⟨conn, l, rfl, hconn⟩ : ∃ conn l', l = conn :: l' ∧ andor conn = true := by
    cases l with
    | nil => rcases hclear with h | h <;> cases h
    | cons conn l =>
        refine ⟨conn, l, rfl, andor_eq.mpr ?_⟩
        exact hclear.imp Option.some.inj Option.some.inj
  have hlt := h.tail.lt
  have hbinary : ¬ (pos + 3 ≤ a.argc ∧ testBinop (a.arg (pos + 1)) = true) := by
    rw [h.tail.head, (testUnop_spec (testUnop_of_andor hconn)).1]
    simp
  have hunary : pos + 2 ≤ a.argc ∧ testUnop "-t" = true := ⟨by omega, by decide⟩
  rw [Args.term, h.head, if_neg (by omega), if_neg (by decide), if_neg (by decide), if_neg hbinary,
    if_pos hunary, unaryOperator_tty h hconn hposix hargc]

theorem term_binary {left op right : String} {n : ℕ} (hop : testBinop op = true)
    (h : Rest a pos (left :: op :: right :: l)) (hclear : left ≠ "!" ∧ left ≠ "(") :
    a.term sh (n + 1) pos s = some (.ofTest (sh.binaryTest op left right s) (pos + 3)) := by
  have hlt := h.lt
  have hargc := h.argc
  have hbinary : pos + 3 ≤ a.argc ∧ testBinop (a.arg (pos + 1)) = true := by
    refine ⟨by simp at hargc; omega, ?_⟩
    rw [h.tail.head, hop]
  rw [Args.term, h.head, if_neg (by omega), if_neg hclear.1, if_neg hclear.2, if_pos hbinary,
    binaryOperator_tree hop h]

/-- One more `!` turns every answer of the loop around. -/
theorem leadingNots_not : ∀ (l : List String) (pos : ℕ) (value : Bool),
    leadingNots l pos (!value) = (leadingNots l pos value).map fun r => (!r.1, r.2)
  | [], _, _ => rfl
  | x :: rest, pos, value => by
      rw [leadingNots, leadingNots]
      split_ifs
      · rfl
      · exact leadingNots_not rest (pos + 1) (!value)
      · rfl

theorem negate_negate (r : Reading σ) : negate (negate r) = r := by
  rcases r with e | ⟨value, p, s⟩
  · rfl
  · simp [negate]

theorem term_nots {n : ℕ} (h : Rest a pos ("!" :: l)) : a.term sh (n + 1) pos s =
    match leadingNots ("!" :: l) pos false with
    | .error e => some (.error e)
    | .ok (value, pos) => if value then (a.term sh n pos s).map negate else a.term sh n pos s := by
  have hlt := h.lt
  rw [Args.term, h.head, if_neg (by omega), if_pos rfl, h.drop] <;> rfl

/-- A `!` negates what follows it. -/
theorem term_bang {n : ℕ} (h : Rest a pos ("!" :: l)) (hl : l ≠ []) :
    a.term sh (n + 1) pos s =
      (a.term sh (if l.head? = some "!" then n + 1 else n) (pos + 1) s).map negate := by
  have hfirst : leadingNots ("!" :: l) pos false = leadingNots l (pos + 1) true := by
    rw [leadingNots, if_pos rfl, if_neg hl, Bool.not_false]
  obtain ⟨x, rest, rfl⟩ := List.exists_cons_of_ne_nil hl
  rw [term_nots h, hfirst]
  by_cases hx : x = "!"
  · subst hx
    have hhead : ("!" :: rest).head? = some "!" := rfl
    rw [if_pos hhead, term_nots h.tail, show true = !false from rfl, leadingNots_not]
    rcases leadingNots ("!" :: rest) (pos + 1) false with e | ⟨value, p⟩
    · rfl
    · cases value with
      | false => rfl
      | true =>
          change a.term sh n p s = ((a.term sh n p s).map negate).map negate
          rw [Option.map_map]
          cases a.term sh n p s with
          | none => rfl
          | some r => exact congrArg some (negate_negate r).symm
  · have hnot : ¬ (x :: rest).head? = some "!" := fun heq => hx (Option.some.inj heq)
    rw [if_neg hnot, leadingNots, if_neg hx]
    rfl

theorem complete_not {t : Tree .term} (ht : Complete sh a t) : Complete sh a (Tree.not t) := by
  intro pos l s fuel h hnext hvalid hclear htame hfuel
  have hlt : pos < a.argc := Rest.lt h
  obtain ⟨n, rfl⟩ : ∃ n, fuel = n + 1 := Nat.exists_eq_add_one_of_ne_zero (by simp only [rank] at hfuel; omega)
  have hrest : Rest a (pos + 1) (t.args ++ l) := Rest.tail h
  have hne : t.args ++ l ≠ [] := fun heq => t.args_ne_nil (List.append_eq_nil_iff.mp heq).1
  change a.term sh (n + 1) pos s = _
  rw [term_bang h hne]
  simp only [rank] at hfuel
  have hcomplete : ∀ m, n ≤ m → a.term sh m (pos + 1) s =
      some (.ofTest (t.eval sh s) (pos + 1 + t.args.length)) := fun m hm =>
    ht (pos + 1) l s m hrest hnext hvalid hclear htame (by simp only [rank]; omega)
  have hlen : (Tree.not t).args.length = t.args.length + 1 := rfl
  split
  · rw [hcomplete _ (Nat.le_succ n), Option.map_some, negate_ofTest, hlen, Nat.add_assoc,
      Nat.add_comm 1]
    rfl
  · rw [hcomplete _ (Nat.le_refl n), Option.map_some, negate_ofTest, hlen, Nat.add_assoc,
      Nat.add_comm 1]
    rfl

/-- What stands in parentheses, however the scan ends. -/
theorem complete_group {e : Tree .or} (he : Complete sh a e) {first : String} (hfirst : a.arg 1 = first)
    (h : Rest a pos (e.args ++ ")" :: l)) (hvalid : e.Valid sh) (hclear : e.Clear (some ")"))
    (htame : 52 < sh.compat → e.Tame first ∧ Unshortened first e.args)
    (hfuel : 5 * (a.argc - pos) + 5 ≤ fuel) :
    (if sh.compat > 52 ∧ pos + scanParen (a.argv.drop (pos + 1)) 1 1 < a.argc ∧
        scanParen (a.argv.drop (pos + 1)) 1 1 ≤ 4 then
      a.posixtest sh fuel (scanParen (a.argv.drop (pos + 1)) 1 1) pos s
    else a.expr sh fuel pos s) = some (.ofTest (e.eval sh s) (pos + e.args.length)) := by
  subst hfirst
  have hargc := h.argc
  rw [List.length_append, List.length_cons] at hargc
  have hexpr : ∀ n, 5 * (a.argc - pos) + 4 ≤ n →
      a.expr sh n pos s = some (.ofTest (e.eval sh s) (pos + e.args.length)) := by
    intro n hn
    obtain ⟨n, rfl⟩ : ∃ m, n = m + 1 := Nat.exists_eq_add_one_of_ne_zero (by omega)
    rw [Args.expr, if_neg (by omega)]
    exact he pos (")" :: l) s n h (.inr rfl) hvalid hclear (fun hcompat => (htame hcompat).1)
      (by simp only [rank]; omega)
  split
  · next hshort =>
      obtain ⟨hcompat, hlt, hle⟩ := hshort
      obtain ⟨htame, hshort⟩ := htame hcompat
      obtain ⟨n, rfl⟩ : ∃ n, fuel = n + 1 := Nat.exists_eq_add_one_of_ne_zero (by omega)
      have hwhole := scanParen_args _ e htame (")" :: l) 1 0 Nat.one_ne_zero
      rw [scanParen_end, Nat.zero_add] at hwhole
      obtain ⟨x, rest, hargs⟩ := List.exists_cons_of_ne_nil e.args_ne_nil
      have hdrop : a.argv.drop (pos + 1) = rest ++ ")" :: l := by
        rw [hargs] at h
        exact h.tail.drop
      by_cases hparen : x = "("
      · -- only the inner parentheses are counted
        subst hparen
        obtain ⟨g, more, hg, hne, hscan⟩ := args_of_paren _ e htame (by rw [hargs]; rfl)
        rw [hargs, List.cons.injEq] at hg
        have hnargs : scanParen (a.argv.drop (pos + 1)) 1 1 = 1 + g.length := by
          rw [hdrop, hg.2, List.append_assoc, hscan _ _ _ Nat.one_ne_zero, List.cons_append,
            scanParen_end]
        have hnested := hshort.nested (by rw [hargs]; rfl)
        have hgroup : e.args = "(" :: (g ++ ")" :: more) := by rw [hargs, hg.2]
        have hlong : 3 ≤ g.length := by
          rw [hgroup] at hnested
          obtain - | ⟨y, - | ⟨z, - | ⟨w, g⟩⟩⟩ := g
          · exact absurd rfl hne
          · exact absurd rfl hnested.1
          · exact absurd rfl hnested.2
          · simp
        have hfour : 1 + g.length = 4 := by omega
        have hthird : a.arg (pos + 3) = e.args.getD 3 "" := by
          rw [h.arg 3, List.getD_eq_getElem?_getD, List.getD_eq_getElem?_getD,
            List.getElem?_append_left (by rw [hgroup]; simp; omega)]
        have hopen : a.arg pos = "(" := by
          rw [hargs] at h
          exact h.head
        rw [hnargs, hfour, Args.posixtest, if_neg (by rw [hopen]; decide), if_neg ?_, hexpr n (by omega)]
        rw [hthird]
        exact fun hboth => hnested.2 hboth.2
      · have hnargs : scanParen (a.argv.drop (pos + 1)) 1 1 = e.args.length := by
          have hclose : x ≠ ")" := by
            rintro rfl
            rw [hargs, List.cons_append, scanParen_end] at hwhole
            simp at hwhole
          rw [← hwhole, hdrop, hargs, List.cons_append,
            scanParen_cons (by simp [isParen, hparen, hclose]) _ Nat.one_ne_zero]
        rw [hnargs] at hle ⊢
        refine posixtest_tree hle h (by rw [hargs]; simpa using hparen) hvalid hclear htame hshort ?_
        exact hexpr n (by omega)
  · exact hexpr fuel (by omega)

theorem complete_paren {e : Tree .or} (he : Complete sh a e) : Complete sh a (Tree.paren e) := by
  intro pos l s fuel h hnext hvalid hclear htame hfuel
  have hargs : (Tree.paren e).args ++ l = "(" :: (e.args ++ ")" :: l) := by simp [Tree.args]
  rw [hargs] at h
  have hlt := h.lt
  have hargc := h.argc
  simp only [List.length_cons, List.length_append] at hargc
  simp only [rank] at hfuel
  obtain ⟨n, rfl⟩ : ∃ n, fuel = n + 1 := Nat.exists_eq_add_one_of_ne_zero (by omega)
  have hgroup := complete_group (s := s) he rfl h.tail hvalid hclear htame
    (show 5 * (a.argc - (pos + 1)) + 5 ≤ n by omega)
  have hclose : Rest a (pos + 1 + e.args.length) (")" :: l) := h.tail.append
  have hlen : (Tree.paren e).args.length = e.args.length + 2 := by simp [Tree.args]
  change a.term sh (n + 1) pos s = _
  rw [Args.term, h.head, if_neg (by omega), if_neg (by decide), if_pos rfl, if_neg (by omega)]
  refine Eq.trans (congrArg (andThen · _) hgroup) ?_
  rw [Tree.eval, hlen]
  rcases e.eval sh s with err | ⟨value, s₁⟩
  · rfl
  · have hend : ¬ pos + 1 + e.args.length ≥ a.argc := by omega
    have hpos : pos + 1 + e.args.length + 1 = pos + (e.args.length + 2) := by omega
    change (if pos + 1 + e.args.length ≥ a.argc then _ else
      if a.arg (pos + 1 + e.args.length) ≠ ")" then _ else
        some (Except.ok (value, pos + 1 + e.args.length + 1, s₁))) = _
    rw [if_neg hend, hclose.head, if_neg (by decide), hpos]
    rfl

/-- The last production. -/
theorem complete_notThree (left : String) (isAnd : Bool) (right : String) :
    Complete sh a (Tree.notThree left isAnd right) := by
  intro pos l s fuel h hnext hvalid hclear htame hfuel
  have hcompat : 52 < sh.compat := hvalid
  have hoperands := htame hcompat
  have h : Rest a pos ("(" :: "!" :: left :: connective isAnd :: right :: ")" :: l) := h
  have hlt := h.lt
  have hargc := h.argc
  simp only [List.length_cons] at hargc
  simp only [rank] at hfuel
  obtain ⟨n, rfl⟩ : ∃ n, fuel = n + 2 := ⟨fuel - 2, by omega⟩
  have hconn : isParen (connective isAnd) = false :=
    (testUnop_spec (testUnop_of_andor (andor_connective isAnd))).2.2
  have hscan : scanParen (a.argv.drop (pos + 2)) 1 1 = 4 := by
    rw [h.tail.tail.drop, scanParen_cons hoperands.1 _ Nat.one_ne_zero,
      scanParen_cons hconn _ Nat.one_ne_zero, scanParen_cons hoperands.2 _ Nat.one_ne_zero, scanParen_end]
  have hthree : a.threeArguments sh (pos + 2) s =
      .ok (joined isAnd (left ≠ "") (right ≠ ""), pos + 5, s) := threeArguments_strings h.tail.tail
  have hclose : a.arg (pos + 5) = ")" := h.arg 5
  change a.term sh (n + 2) pos s = _
  rw [Args.term, h.head, if_neg (by omega), if_neg (by decide), if_pos rfl, if_neg (by omega), hscan]
  have hnot : a.arg (pos + 1) = "!" := h.tail.head
  have hvalue : (if sh.compat > 52 ∧ pos + 1 + 4 < a.argc ∧ 4 ≤ 4 then
      a.posixtest sh (n + 1) 4 (pos + 1) s else a.expr sh (n + 1) (pos + 1) s) =
      some (.ok (!joined isAnd (left ≠ "") (right ≠ ""), pos + 5, s)) := by
    rw [if_pos ⟨hcompat, by omega, Nat.le_refl 4⟩, Args.posixtest, if_pos hnot, if_neg (by omega),
      hthree]
    rfl
  refine Eq.trans (congrArg (andThen · _) hvalue) ?_
  change (if pos + 5 ≥ a.argc then _ else if a.arg (pos + 5) ≠ ")" then _ else _) = _
  rw [if_neg (by omega), hclose, if_neg (by decide)]
  rfl

/-! ## Connectives -/

/-- Both operands are read, and joined. -/
theorem andThen_join (isAnd : Bool) {r : Except TestError (Bool × σ)} {p q : ℕ}
    (rest : ℕ → σ → Option (Reading σ)) {right : σ → Except TestError (Bool × σ)} (hlt : p < a.argc)
    (hconn : a.arg p = connective isAnd) (hrest : ∀ s, rest (p + 1) s = some (.ofTest (right s) q)) :
    (andThen (some (.ofTest r p)) fun value pos s =>
      if pos < a.argc ∧ a.arg pos = connective isAnd then
        andThen (rest (pos + 1) s) fun v2 pos s => some (.ok (joined isAnd value v2, pos, s))
      else some (.ok (value, pos, s))) = some (.ofTest (Tree.join isAnd r right) q) := by
  rcases r with e | ⟨value, s⟩
  · rfl
  · change (if p < a.argc ∧ a.arg p = connective isAnd then _ else _) = _
    rw [if_pos ⟨hlt, hconn⟩, hrest s, Tree.join]
    rcases right s with e | ⟨v2, s⟩ <;> rfl

/-- No connective follows. -/
theorem andThen_single {op : String} {r : Except TestError (Bool × σ)} {p : ℕ} {l : List String}
    {f : Bool → ℕ → σ → Option (Reading σ)} (h : Rest a p l) (hop : l.head? ≠ some op) :
    (andThen (some (.ofTest r p)) fun value pos s =>
      if pos < a.argc ∧ a.arg pos = op then f value pos s else some (.ok (value, pos, s))) =
      some (.ofTest r p) := by
  rcases r with e | ⟨value, s⟩
  · rfl
  · change (if p < a.argc ∧ a.arg p = op then _ else _) = _
    rw [if_neg]
    · rfl
    · rintro ⟨hlt, hconn⟩
      have hargc := h.argc
      cases l with
      | nil => simp at hargc; omega
      | cons x l => exact hop (congrArg some (h.head.symm.trans hconn))

theorem complete_ofTerm {t : Tree .term} (ht : Complete sh a t) : Complete sh a (Tree.ofTerm t) := by
  intro pos l s fuel h hnext hvalid hclear htame hfuel
  simp only [rank] at hfuel
  obtain ⟨n, rfl⟩ : ∃ n, fuel = n + 1 := Nat.exists_eq_add_one_of_ne_zero (by omega)
  have hread : a.term sh n pos s = _ := ht pos l s n h
    (hnext.elim .inl fun hnext => .inr (hnext.elim .inl fun hor => .inr (.inl hor))) hvalid hclear htame
    (by simp only [rank]; omega)
  change a.and sh (n + 1) pos s = _
  rw [Args.and, hread]
  refine andThen_single h.append ?_
  rcases hnext with h | h | h <;> rw [h] <;> decide

theorem complete_ofAnd {t : Tree .and} (ht : Complete sh a t) : Complete sh a (Tree.ofAnd t) := by
  intro pos l s fuel h hnext hvalid hclear htame hfuel
  simp only [rank] at hfuel
  obtain ⟨n, rfl⟩ : ∃ n, fuel = n + 1 := Nat.exists_eq_add_one_of_ne_zero (by omega)
  have hread : a.and sh n pos s = _ := ht pos l s n h (hnext.imp_right .inl) hvalid hclear htame
    (by simp only [rank]; omega)
  change a.or sh (n + 1) pos s = _
  rw [Args.or, hread]
  refine andThen_single h.append ?_
  rcases hnext with h | h <;> rw [h] <;> decide

theorem complete_and {t : Tree .term} {e : Tree .and} (ht : Complete sh a t) (he : Complete sh a e) :
    Complete sh a (Tree.and t e) := by
  intro pos l s fuel h hnext hvalid hclear htame hfuel
  simp only [rank] at hfuel
  obtain ⟨n, rfl⟩ : ∃ n, fuel = n + 1 := Nat.exists_eq_add_one_of_ne_zero (by omega)
  have hargs : (Tree.and t e).args ++ l = t.args ++ "-a" :: (e.args ++ l) := by simp [Tree.args]
  rw [hargs] at h
  have hlen := length_join t "-a" e
  have hread : a.term sh n pos s = _ := ht pos ("-a" :: (e.args ++ l)) s n h (.inr (.inr (.inr rfl)))
    hvalid.1 hclear.1 (fun hcompat => (htame hcompat).1) (by simp only [rank]; omega)
  have hargc := h.argc
  simp only [List.length_append, List.length_cons] at hargc
  have hrest : ∀ s, a.and sh n (pos + t.args.length + 1) s =
      some (.ofTest (e.eval sh s) (pos + (Tree.and t e).args.length)) := fun s => by
    have hright := he (pos + t.args.length + 1) l s n h.append.tail hnext hvalid.2 hclear.2
      (fun hcompat => (htame hcompat).2) (by simp only [rank]; omega)
    have hpos : pos + t.args.length + 1 + e.args.length = pos + (Tree.and t e).args.length := by
      rw [Tree.args, hlen.1]
      omega
    rw [hpos] at hright
    exact hright
  change a.and sh (n + 1) pos s = _
  rw [Args.and, hread]
  exact andThen_join true (a.and sh n) h.append.lt h.append.head hrest

theorem complete_or {t : Tree .and} {e : Tree .or} (ht : Complete sh a t) (he : Complete sh a e) :
    Complete sh a (Tree.or t e) := by
  intro pos l s fuel h hnext hvalid hclear htame hfuel
  simp only [rank] at hfuel
  obtain ⟨n, rfl⟩ : ∃ n, fuel = n + 1 := Nat.exists_eq_add_one_of_ne_zero (by omega)
  have hargs : (Tree.or t e).args ++ l = t.args ++ "-o" :: (e.args ++ l) := by simp [Tree.args]
  rw [hargs] at h
  have hlen := length_join t "-o" e
  have hread : a.and sh n pos s = _ := ht pos ("-o" :: (e.args ++ l)) s n h (.inr (.inr rfl))
    hvalid.1 hclear.1 (fun hcompat => (htame hcompat).1) (by simp only [rank]; omega)
  have hargc := h.argc
  simp only [List.length_append, List.length_cons] at hargc
  have hrest : ∀ s, a.or sh n (pos + t.args.length + 1) s =
      some (.ofTest (e.eval sh s) (pos + (Tree.or t e).args.length)) := fun s => by
    have hright := he (pos + t.args.length + 1) l s n h.append.tail hnext hvalid.2 hclear.2
      (fun hcompat => (htame hcompat).2) (by simp only [rank]; omega)
    have hpos : pos + t.args.length + 1 + e.args.length = pos + (Tree.or t e).args.length := by
      rw [Tree.args, hlen.1]
      omega
    rw [hpos] at hright
    exact hright
  change a.or sh (n + 1) pos s = _
  rw [Args.or, hread]
  exact andThen_join false (a.or sh n) h.append.lt h.append.head hrest

/-- A clear tree is read wherever it stands, by induction on the tree. -/
theorem complete (hargc : 5 ≤ a.argc) : {c : Nonterminal} → (e : Tree c) → Complete sh a e
  | _, .string x => by
      intro pos l s fuel h hnext hvalid hclear htame hfuel
      obtain ⟨n, rfl⟩ : ∃ n, fuel = n + 1 := Nat.exists_eq_add_one_of_ne_zero (by simp only [rank] at hfuel; omega)
      exact term_string h hnext hclear
  | _, .unary op arg hop => by
      intro pos l s fuel h hnext hvalid hclear htame hfuel
      obtain ⟨n, rfl⟩ : ∃ n, fuel = n + 1 := Nat.exists_eq_add_one_of_ne_zero (by simp only [rank] at hfuel; omega)
      exact term_unary hop h hvalid hclear
  | _, .tty => by
      intro pos l s fuel h hnext hvalid hclear htame hfuel
      obtain ⟨n, rfl⟩ : ∃ n, fuel = n + 1 := Nat.exists_eq_add_one_of_ne_zero (by simp only [rank] at hfuel; omega)
      exact term_tty h hvalid hargc hclear
  | _, .binary left op right hop => by
      intro pos l s fuel h hnext hvalid hclear htame hfuel
      obtain ⟨n, rfl⟩ : ∃ n, fuel = n + 1 := Nat.exists_eq_add_one_of_ne_zero (by simp only [rank] at hfuel; omega)
      exact term_binary hop h hclear
  | _, .not t => complete_not (complete hargc t)
  | _, .paren e => complete_paren (complete hargc e)
  | _, .ofTerm t => complete_ofTerm (complete hargc t)
  | _, .and t e => complete_and (complete hargc t) (complete hargc e)
  | _, .ofAnd t => complete_ofAnd (complete hargc t)
  | _, .or t e => complete_or (complete hargc t) (complete hargc e)
  | _, .notThree left isAnd right => complete_notThree left isAnd right

end Args

end TestCommand

end Rash
