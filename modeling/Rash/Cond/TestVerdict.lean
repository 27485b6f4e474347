import Rash.Cond.TestComplete

/-!
# The verdict of test

For five or more arguments: what is accepted is in the grammar, with its value; clear expressions
are accepted; and parentheses around a part of one change nothing.
-/

namespace Rash

namespace TestCommand

open Args (SingleSame Rest)

variable {σ : Type}

/-- The builtin as `test` or as `[`. -/
def invoke (sh : Shell σ) (bracket : Bool) (args : List String) (s : σ) :
    Option (Except TestError Bool) :=
  if bracket then testCommand sh "[" (args ++ ["]"]) s else testCommand sh "test" args s

/-- The arguments as the parser has them. -/
def parserArgs (bracket : Bool) (args : List String) : Args :=
  if bracket then ⟨"[" :: args, some "]"⟩ else ⟨"test" :: args, none⟩

variable {sh : Shell σ} {bracket : Bool} {args : List String} {s : σ}

theorem invoke_eq : invoke sh bracket args s = (parserArgs bracket args).run sh s := by
  cases bracket with
  | false => rfl
  | true =>
      have hbracket : bracketArgs ("[" :: (args ++ ["]"])) = .ok ⟨"[" :: args, some "]"⟩ := by
        rw [bracketArgs, ← List.cons_append, if_pos List.getLast?_concat, List.dropLast_concat]
      change testCommand sh "[" (args ++ ["]"]) s = _
      rw [testCommand, if_pos rfl, hbracket]
      rfl

theorem rest_parserArgs : Rest (parserArgs bracket args) 1 args := by
  cases bracket with
  | false => exact ⟨rfl, Nat.le_add_left 1 _⟩
  | true => exact ⟨rfl, Nat.le_add_left 1 _⟩

/-- From five arguments on they are an expression. -/
theorem run_eq (hfive : 5 ≤ args.length) : (parserArgs bracket args).run sh s =
    match (parserArgs bracket args).or sh (5 * args.length + 8) 1 s with
    | none => none
    | some (.error e) => some (.error e)
    | some (.ok (value, pos, _)) =>
        if pos = (parserArgs bracket args).argc then some (.ok value)
        else if pos < (parserArgs bracket args).argc ∧
            ((parserArgs bracket args).arg pos).toList.head? = some '-' then
          some (.error (.unexpected ((parserArgs bracket args).arg pos)))
        else some (.error .tooManyArguments) := by
  have hargc := (rest_parserArgs : Rest (parserArgs bracket args) 1 args).argc
  generalize parserArgs bracket args = a at *
  have hfuel : 5 * a.argc + 5 = 5 * args.length + 8 + 1 + 1 := by omega
  obtain ⟨n, hn⟩ : ∃ n, a.argc - 1 = n + 5 := ⟨a.argc - 6, by omega⟩
  rw [Args.run, if_neg (by omega), hfuel, hn, Args.posixtest, Args.expr, if_neg (by omega)] <;>
    first | rfl | omega

/-- A single argument in parentheses is empty where the first argument is. -/
def SingleAsFirst (sh : Shell σ) (args : List String) : Prop :=
  52 < sh.compat → ∀ i, args.getD i "" = "(" → args.getD (i + 2) "" = ")" →
    (args.getD (i + 1) "" = "" ↔ args.getD 0 "" = "")

theorem SingleAsFirst.singleSame (h : SingleAsFirst sh args) :
    SingleSame sh (parserArgs bracket args) := by
  intro hcompat i hopen hclose
  have hrest : Rest (parserArgs bracket args) 1 args := rest_parserArgs
  cases i with
  | zero =>
      cases bracket with
      | false => exact absurd (show "test" = "(" from hopen) (by decide)
      | true => exact absurd (show "[" = "(" from hopen) (by decide)
  | succ i =>
      have hfirst : (parserArgs bracket args).arg 1 = args.getD 0 "" := hrest.arg 0
      have harg : ∀ k, (parserArgs bracket args).arg (i + 1 + k) = args.getD (i + k) "" := fun k => by
        rw [← hrest.arg (i + k)]
        congr 1
        omega
      rw [harg 2] at hclose
      rw [harg 1, hfirst]
      exact h hcompat i ((harg 0).symm.trans hopen) hclose

/-- An expression that cannot be read otherwise. -/
structure Plain (sh : Shell σ) (e : Tree .or) : Prop where
  valid : e.Valid sh
  clear : e.Clear none
  tame : 52 < sh.compat → e.Tame (e.args.getD 0 "")

/-- `e'` is `e` with one subexpression in parentheses. -/
inductive Wraps : {c : Nonterminal} → Tree c → Tree c → Prop
  | or (e : Tree .or) : Wraps e (.ofAnd (.ofTerm (.paren e)))
  | and (e : Tree .and) : Wraps e (.ofTerm (.paren (.ofAnd e)))
  | term (t : Tree .term) : Wraps t (.paren (.ofAnd (.ofTerm t)))
  | not {t t' : Tree .term} (h : Wraps t t') : Wraps (.not t) (.not t')
  | paren {e e' : Tree .or} (h : Wraps e e') : Wraps (.paren e) (.paren e')
  | ofTerm {t t' : Tree .term} (h : Wraps t t') : Wraps (.ofTerm t) (.ofTerm t')
  | andLeft {t t' : Tree .term} (h : Wraps t t') (e : Tree .and) : Wraps (.and t e) (.and t' e)
  | andRight (t : Tree .term) {e e' : Tree .and} (h : Wraps e e') : Wraps (.and t e) (.and t e')
  | ofAnd {e e' : Tree .and} (h : Wraps e e') : Wraps (.ofAnd e) (.ofAnd e')
  | orLeft {t t' : Tree .and} (h : Wraps t t') (e : Tree .or) : Wraps (.or t e) (.or t' e)
  | orRight (t : Tree .and) {e e' : Tree .or} (h : Wraps e e') : Wraps (.or t e) (.or t e')

theorem Wraps.eval {c : Nonterminal} {e e' : Tree c} (h : Wraps e e') : e'.eval sh = e.eval sh := by
  funext s
  induction h generalizing s with
  | or e => rfl
  | and e => rfl
  | term t => rfl
  | not h ih => rw [Tree.eval, Tree.eval, ih]
  | paren h ih => rw [Tree.eval, Tree.eval, ih]
  | ofTerm h ih => rw [Tree.eval, Tree.eval, ih]
  | andLeft h e ih => rw [Tree.eval, Tree.eval, ih]
  | andRight t h ih => rw [Tree.eval, Tree.eval, funext ih]
  | ofAnd h ih => rw [Tree.eval, Tree.eval, ih]
  | orLeft h e ih => rw [Tree.eval, Tree.eval, ih]
  | orRight t h ih => rw [Tree.eval, Tree.eval, funext ih]

theorem Wraps.length {c : Nonterminal} {e e' : Tree c} (h : Wraps e e') :
    e.args.length ≤ e'.args.length := by
  induction h <;> simp [Tree.args] at * <;> omega

theorem invoke_sound (hfive : 5 ≤ args.length) (hsingle : SingleAsFirst sh args) {value : Bool}
    (h : invoke sh bracket args s = some (.ok value)) :
    ∃ e : Tree .or, e.Valid sh ∧ e.args = args ∧ ∃ s', e.eval sh s = .ok (value, s') := by
  rw [invoke_eq, run_eq hfive] at h
  have hrest : Rest (parserArgs bracket args) 1 args := rest_parserArgs
  cases hor : (parserArgs bracket args).or sh (5 * args.length + 8) 1 s with
  | none =>
      rw [hor] at h
      cases h
  | some r =>
      rw [hor] at h
      rcases r with e | ⟨v, p, s'⟩
      · cases h
      · simp only at h
        split_ifs at h with hend
        · cases h
          obtain ⟨e, he⟩ := (Args.sound hsingle.singleSame _).or _ _ _ hor
          refine ⟨e, he.valid, ?_, s', he.eval⟩
          have hargs := he.args
          rw [hrest.drop, Args.drop_eq_nil (Nat.le_of_eq hend.symm), List.append_nil] at hargs
          exact hargs.symm
        · cases h
        · cases h

theorem invoke_plain {e : Tree .or} (hfive : 5 ≤ e.args.length) (he : Plain sh e) :
    invoke sh bracket e.args s = some ((e.eval sh s).map Prod.fst) := by
  have hrest : Rest (parserArgs bracket e.args) 1 e.args := rest_parserArgs
  have hargc := hrest.argc
  have hcomplete : Args.Complete sh (parserArgs bracket e.args) e := Args.complete (by omega) e
  have hread := hcomplete 1 [] s (5 * e.args.length + 8) (by rw [List.append_nil]; exact hrest)
    (.inl rfl) he.valid he.clear (fun hcompat => (hrest.arg 0).symm ▸ he.tame hcompat)
    (by simp only [Args.rank]; omega)
  change (parserArgs bracket e.args).or sh _ 1 s = _ at hread
  rw [invoke_eq, run_eq hfive, hread]
  rcases e.eval sh s with err | ⟨value, s'⟩
  · rfl
  · exact if_pos hargc.symm

/-- What is said of the builtin with so many arguments. -/
structure ReadsGrammar (sh : Shell σ) (bracket : Bool) (args : List String) (s : σ) : Prop where
  ends : ∃ r, invoke sh bracket args s = some r
  /-- what is accepted has a tree with the verdict as its value -/
  sound : SingleAsFirst sh args → ∀ value, invoke sh bracket args s = some (.ok value) →
    ∃ e : Tree .or, e.Valid sh ∧ e.args = args ∧ ∃ s', e.eval sh s = .ok (value, s')
  /-- a plain tree is accepted, or a test in it fails -/
  complete : ∀ e : Tree .or, e.args = args → Plain sh e →
    invoke sh bracket args s = some ((e.eval sh s).map Prod.fst)
  parens : ∀ e e' : Tree .or, e.args = args → Wraps e e' → Plain sh e → Plain sh e' →
    invoke sh bracket e'.args s = invoke sh bracket args s

/-- Five or more arguments are read by the grammar. -/
theorem test_readsGrammar (sh : Shell σ) (bracket : Bool) (args : List String) (s : σ)
    (hfive : 5 ≤ args.length) : ReadsGrammar sh bracket args s where
  ends := by
    rw [invoke_eq]
    exact Args.run_total _ s
  sound hsingle value h := invoke_sound hfive hsingle h
  complete e hargs he := by
    subst hargs
    exact invoke_plain hfive he
  parens e e' hargs hwraps he he' := by
    subst hargs
    rw [invoke_plain hfive he, invoke_plain (Nat.le_trans hfive hwraps.length) he', hwraps.eval]

/-- A shell of the current version, in which every unary test succeeds. -/
def newShell : Shell Unit where
  compat := 53
  posixly := false
  unaryTest _ _ s := .ok (true, s)
  binaryTest op left right s := .ok (if op = "=" then left = right else false, s)

/-- `x -a ( y -o z )` -/
theorem test_readsGrammar_group :
    5 ≤ ["x", "-a", "(", "y", "-o", "z", ")"].length ∧
      ReadsGrammar newShell true ["x", "-a", "(", "y", "-o", "z", ")"] () :=
  ⟨by decide, test_readsGrammar newShell true _ () (by decide)⟩

/-- `! "" -a "" -o ""`, and the same with its first conjunction in parentheses, which is four
arguments long and thus the negation of a test of three. -/
theorem wraps_changes_verdict : ∃ e e' : Tree .or, e.Valid newShell ∧ 5 ≤ e.args.length ∧
    Wraps e e' ∧ e'.eval newShell () = .ok (false, ()) ∧
    invoke newShell false e.args () = some (.ok false) ∧
    invoke newShell false e'.args () = some (.ok true) := by
  let left : Tree .and := .and (.not (.string "")) (.ofTerm (.string ""))
  let right : Tree .or := .ofAnd (.ofTerm (.string ""))
  refine ⟨.or left right, .or (.ofTerm (.paren (.ofAnd left))) right, ?_, by decide,
    .orLeft (.and left) right, rfl, ?_, ?_⟩
  · simp [left, right, Tree.Valid]
  · decide +kernel
  · decide +kernel

end TestCommand

end Rash
