import Rash.Cond.TestTotal

/-!
# Expressions that test reads as they are meant

A tree is clear where no operand of it can be taken for an operator.  With the shortcuts for few
arguments in parentheses it must be tame too.
-/

namespace Rash

namespace TestCommand

variable {σ : Type} {sh : Shell σ} {c : Nonterminal}

/-- The arguments in parentheses are read as the grammar has them.  A single one must be empty
where the first argument of the builtin is; they must not begin with one or two arguments in
parentheses; and POSIX's rules for three and four arguments must not make strings or a
negation of other things. -/
structure Unshortened (first : String) (l : List String) : Prop where
  single : l.length = 1 → (l.getD 0 "" = "" ↔ first = "")
  nested : l.getD 0 "" = "(" → l.getD 2 "" ≠ ")" ∧ l.getD 3 "" ≠ ")"
  three : l.length = 3 → andor (l.getD 1 "") = true → l.getD 0 "" ≠ "!" ∧ l.getD 0 "" ≠ "-t"
  four : l.length = 4 → l.getD 0 "" = "!" → andor (l.getD 2 "") = false

def isParen (s : String) : Bool := s = "(" || s = ")"

namespace Tree

/-- No operand can be taken for an operator, if `next` follows, or none at the end. -/
def Clear : {c : Nonterminal} → Tree c → Option String → Prop
  | _, .string s, next => s ≠ "!" ∧ s ≠ "(" ∧ (testUnop s = true → next = none)
  | _, .unary _ arg _, next => testBinop arg = true → next = none
  | _, .tty, next => next = some "-a" ∨ next = some "-o"
  | _, .binary left _ _ _, _ => left ≠ "!" ∧ left ≠ "("
  | _, .not t, next => t.Clear next
  | _, .paren e, _ => e.Clear (some ")")
  | _, .ofTerm t, next => t.Clear next
  | _, .and t e, next => t.Clear (some "-a") ∧ e.Clear next
  | _, .ofAnd t, next => t.Clear next
  | _, .or t e, next => t.Clear (some "-o") ∧ e.Clear next
  | _, .notThree _ _ _, _ => True

/-- No operand is a parenthesis or a string that is a binary operator, and no parenthesised
expression is read otherwise by the shortcuts. -/
def Tame (first : String) : {c : Nonterminal} → Tree c → Prop
  | _, .string s => isParen s = false ∧ testBinop s = false
  | _, .unary _ arg _ => isParen arg = false
  | _, .tty => True
  | _, .binary left _ right _ => isParen left = false ∧ isParen right = false
  | _, .not t => t.Tame first
  | _, .paren e => e.Tame first ∧ Unshortened first e.args
  | _, .ofTerm t => t.Tame first
  | _, .and t e => t.Tame first ∧ e.Tame first
  | _, .ofAnd t => t.Tame first
  | _, .or t e => t.Tame first ∧ e.Tame first
  | _, .notThree left _ right => isParen left = false ∧ isParen right = false

end Tree

/-! ## Operators -/

/-- What a unary operator is not. -/
theorem testUnop_spec {op : String} (h : testUnop op = true) :
    testBinop op = false ∧ op ≠ "!" ∧ isParen op = false := by
  have hall : ∀ op ∈ ["-a", "-b", "-c", "-d", "-e", "-f", "-g", "-h", "-k", "-n", "-o", "-p", "-r",
      "-s", "-t", "-u", "-v", "-w", "-x", "-z", "-G", "-L", "-O", "-S", "-N", "-R"],
      testBinop op = false ∧ op ≠ "!" ∧ isParen op = false := by decide +kernel
  exact hall op (of_decide_eq_true h)

theorem isParen_of_testBinop {op : String} (h : testBinop op = true) : isParen op = false := by
  have hall : ∀ op ∈ ["=", "<", ">", "==", "!=", "-nt", "-ot", "-lt", "-gt", "-eq", "-ef", "-ne",
      "-ge", "-le"], isParen op = false := by decide +kernel
  exact hall op (of_decide_eq_true h)

theorem andor_eq {op : String} : andor op = true ↔ op = "-a" ∨ op = "-o" := by
  rw [andor, Bool.or_eq_true, decide_eq_true_eq, decide_eq_true_eq]

theorem testUnop_of_andor {op : String} (h : andor op = true) : testUnop op = true := by
  rcases andor_eq.mp h with rfl | rfl <;> decide

theorem andor_connective (isAnd : Bool) : andor (connective isAnd) = true := by
  cases isAnd <;> decide

theorem not_isParen {s : String} (h : isParen s = false) : s ≠ "(" ∧ s ≠ ")" := by
  simpa [isParen] using h

/-! ## The scan -/

open Args (scanParen)

theorem scanParen_cons {x : String} (hx : isParen x = false) (l : List String) {count : ℕ}
    (hcount : count ≠ 0) (nargs : ℕ) :
    scanParen (x :: l) count nargs = scanParen l count (nargs + 1) := by
  obtain ⟨hopen, hclose⟩ := not_isParen hx
  rw [scanParen]
  simp only [if_neg hclose, if_neg hopen, if_neg hcount]

theorem scanParen_open (l : List String) (count nargs : ℕ) :
    scanParen ("(" :: l) count nargs = scanParen l (count + 1) (nargs + 1) := by
  rw [scanParen]
  simp

theorem scanParen_close (l : List String) {count : ℕ} (hcount : count ≠ 0) (nargs : ℕ) :
    scanParen (")" :: l) (count + 1) nargs = scanParen l count (nargs + 1) := by
  rw [scanParen]
  simp [hcount]

theorem scanParen_end (l : List String) (nargs : ℕ) : scanParen (")" :: l) 1 nargs = nargs := by
  rw [scanParen]
  simp

/-- The parentheses of a tame tree are balanced. -/
theorem scanParen_args (first : String) : {c : Nonterminal} → (e : Tree c) → e.Tame first →
    ∀ (l : List String) (count nargs : ℕ), count ≠ 0 →
      scanParen (e.args ++ l) count nargs = scanParen l count (nargs + e.args.length)
  | _, .string s, h, l, count, nargs, hcount => scanParen_cons h.1 l hcount nargs
  | _, .unary op arg hop, h, l, count, nargs, hcount => by
      rw [Tree.args, List.cons_append, scanParen_cons (testUnop_spec hop).2.2 _ hcount]
      exact scanParen_cons h l hcount _
  | _, .tty, _, l, count, nargs, hcount => scanParen_cons (by decide) l hcount nargs
  | _, .binary left op right hop, h, l, count, nargs, hcount => by
      rw [Tree.args, List.cons_append, scanParen_cons h.1 _ hcount, List.cons_append,
        scanParen_cons (isParen_of_testBinop hop) _ hcount]
      exact scanParen_cons h.2 l hcount _
  | _, .not t, h, l, count, nargs, hcount => by
      rw [Tree.args, List.cons_append, scanParen_cons (by decide) _ hcount,
        scanParen_args first t h l count _ hcount, List.length_cons]
      congr 1
      omega
  | _, .paren e, h, l, count, nargs, hcount => by
      have happend : (Tree.paren e).args ++ l = "(" :: (e.args ++ ")" :: l) := by simp [Tree.args]
      rw [happend, scanParen_open, scanParen_args first e h.1 _ _ _ (Nat.succ_ne_zero count),
        scanParen_close l hcount]
      congr 1
      simp [Tree.args]
      omega
  | _, .ofTerm t, h, l, count, nargs, hcount => scanParen_args first t h l count nargs hcount
  | _, .and t e, h, l, count, nargs, hcount => by
      rw [Tree.args, List.append_assoc, scanParen_args first t h.1 _ _ _ hcount, List.cons_append,
        scanParen_cons (by decide) _ hcount, scanParen_args first e h.2 _ _ _ hcount]
      congr 1
      simp
      omega
  | _, .ofAnd t, h, l, count, nargs, hcount => scanParen_args first t h l count nargs hcount
  | _, .or t e, h, l, count, nargs, hcount => by
      rw [Tree.args, List.append_assoc, scanParen_args first t h.1 _ _ _ hcount, List.cons_append,
        scanParen_cons (by decide) _ hcount, scanParen_args first e h.2 _ _ _ hcount]
      congr 1
      simp
      omega
  | _, .notThree left isAnd right, h, l, count, nargs, hcount => by
      have hconn : isParen (connective isAnd) = false :=
        (testUnop_spec (testUnop_of_andor (andor_connective isAnd))).2.2
      have hcount' := Nat.succ_ne_zero count
      have happend : (Tree.notThree left isAnd right).args ++ l =
          "(" :: "!" :: left :: connective isAnd :: right :: ")" :: l := rfl
      rw [happend, scanParen_open, scanParen_cons (by decide) _ hcount', scanParen_cons h.1 _ hcount',
        scanParen_cons hconn _ hcount', scanParen_cons h.2 _ hcount', scanParen_close l hcount]
      rfl

/-- A tame tree that begins with a parenthesis begins with a group in parentheses. -/
theorem args_of_paren (first : String) : {c : Nonterminal} → (e : Tree c) → e.Tame first →
    e.args.head? = some "(" → ∃ g more, e.args = "(" :: (g ++ ")" :: more) ∧ g ≠ [] ∧
      ∀ l count nargs, count ≠ 0 → scanParen (g ++ l) count nargs = scanParen l count (nargs + g.length)
  | _, .string s, h, hhead => absurd (Option.some.inj hhead) (not_isParen h.1).1
  | _, .unary op arg hop, _, hhead =>
      absurd (Option.some.inj hhead) (not_isParen (testUnop_spec hop).2.2).1
  | _, .tty, _, hhead => absurd (Option.some.inj hhead) (by decide)
  | _, .binary left op right hop, h, hhead => absurd (Option.some.inj hhead) (not_isParen h.1).1
  | _, .not t, _, hhead => absurd (Option.some.inj hhead) (by decide)
  | _, .paren e, h, _ => ⟨e.args, [], rfl, e.args_ne_nil, scanParen_args first e h.1⟩
  | _, .ofTerm t, h, hhead => args_of_paren first t h hhead
  | _, .and t e, h, hhead => by
      obtain ⟨g, more, hargs, hne, hscan⟩ := args_of_paren first t h.1
        (by simpa [Tree.args, List.head?_append_of_ne_nil _ t.args_ne_nil] using hhead)
      exact ⟨g, more ++ "-a" :: e.args, by simp [Tree.args, hargs], hne, hscan⟩
  | _, .ofAnd t, h, hhead => args_of_paren first t h hhead
  | _, .or t e, h, hhead => by
      obtain ⟨g, more, hargs, hne, hscan⟩ := args_of_paren first t h.1
        (by simpa [Tree.args, List.head?_append_of_ne_nil _ t.args_ne_nil] using hhead)
      exact ⟨g, more ++ "-o" :: e.args, by simp [Tree.args, hargs], hne, hscan⟩
  | _, .notThree left isAnd right, h, _ => by
      have hconn : isParen (connective isAnd) = false :=
        (testUnop_spec (testUnop_of_andor (andor_connective isAnd))).2.2
      refine ⟨["!", left, connective isAnd, right], [], rfl, List.cons_ne_nil _ _,
        fun l count nargs hcount => ?_⟩
      rw [List.cons_append, scanParen_cons (by decide) _ hcount, List.cons_append,
        scanParen_cons h.1 _ hcount, List.cons_append, scanParen_cons hconn _ hcount, List.cons_append,
        scanParen_cons h.2 _ hcount]
      rfl

end TestCommand

end Rash
