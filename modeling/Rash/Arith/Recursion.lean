import Rash.Arith.Primitives
import Rash.Arith.Termination

/-!
# The recursion of the evaluator

Evaluation ends where the shell leaves an expression whose subscript is invalid.  Where a prompt
is expanded it does not, and the depth is counted from 0 again.
-/

namespace Rash

/-- The stack is not longer than it may get. -/
def StackBounded {Θ : Type} (s s' : ExprState Θ) : Prop :=
  s.stack.length ≤ 1024 → s'.stack.length ≤ 1024

instance {Θ : Type} : KeptBySteps (StackBounded (Θ := Θ)) where
  refl _ := id
  trans _ _ _ h h' := h' ∘ h
  other s t _ hstack h := by rwa [hstack]
  emit s e _ h := h
  push s hroom _ := hroom
  pop s context stack hstack h := by
    rw [hstack] at h
    exact Nat.le_of_succ_le h
  unwind s _ := Nat.zero_le 1024

namespace ExprWorld

open ExprM Act

variable {Θ : Type}

/-- The evaluation of an expression. -/
structure Terminates (w : ExprWorld Θ) (expr : List Char) (expanded : Bool) (s : ExprState Θ) :
    Prop where
  /-- calls that nest deep enough give the same result -/
  ends : ∃ N o, (∀ n, N ≤ n → w.evalexp n expr expanded s = o) ∧ o.1 ≠ .error .outOfFuel
  /-- also where it is in the middle of the evaluation, for want of fuel -/
  bounded : s.stack.length ≤ 1024 → ∀ n, (w.evalexp n expr expanded s).2.stack.length ≤ 1024
  /-- a token leaves less of the text, and the level of the stack -/
  consumes : ∀ t : ExprState Θ, t.curtok ≠ .none →
    w.Ends (fun r => w.readtok r) t fun _ t' => t'.stack = t.stack ∧ pending t' < pending t

variable {w : ExprWorld Θ}

theorem bounded (expr : List Char) (expanded : Bool) {s : ExprState Θ} (hs : s.stack.length ≤ 1024)
    (n : ℕ) : (w.evalexp n expr expanded s).2.stack.length ≤ 1024 :=
  evalexpWith_keeps (R := StackBounded) (w.evaluators_keeps n) expr expanded s hs

theorem terminates (hmode : ∀ rest, w.noLongjmp rest = false) (expr : List Char) (expanded : Bool)
    (s : ExprState Θ) : w.Terminates expr expanded s where
  ends := by
    obtain ⟨N, o, hrun, hout, -⟩ := ends_evalexpWith (nestsAt hmode _) (Eq.refl s.stack.length) expr expanded
    exact ⟨N, o, hrun, hout⟩
  bounded hs n := bounded expr expanded hs n
  consumes t ht := by
    have hlevel := level_of_nests hmode (nestsAt hmode t.stack.length) 0
    exact (hlevel.readtok (Eq.refl _)).imp fun _ t' ht' => ⟨ht'.stack, ht'.pending_lt ht⟩

/-! ## In a prompt -/

/-- `a[${v@P}]` -/
def promptReference : List Char := ['a', '[', '$', '{', 'v', '@', 'P', '}', ']']

/-- `x` is `a[${v@P}]`, and `v` is `${b[1+]}${c[x]}`, in a script. -/
def promptShell : ExprWorld Unit where
  isAlpha c := c.isAlpha
  savestring _ := (0, ())
  skipsubscript _ _ _ _ := 7
  interactiveShell := false
  compatLevel := 53
  noLongjmp _ := true
  arrayExpandOnce _ := false
  variableValue _ _ := (.value (some promptReference), ())
  unboundElement _ _ _ := false
  arrayVariable _ _ _ := .indexed
  expandArithString _ _ := .evalexp () ['1', '+'] false
    (fun _ => .evalexp () ['x'] false (fun _ => .done () []) fun _ _ => .done () [])
    fun _ _ => .done () []
  assocValue _ _ _ := .done () none
  elementValue _ _ _ := (.element 0 none, ())
  bindScalar _ _ _ := .done () true
  bindAssoc _ _ _ _ := .done () true
  bindElement _ _ _ _ := (true, ())

variable {s : ExprState Unit} {r : Evaluators Unit}

/-- The state in which a text is read at the next level. -/
def levelState (s : ExprState Unit) (text : List Char) : ExprState Unit :=
  { s with
    expression := some text
    tp := text
    curtok := .none
    lasttok := .none
    tokstr := none
    tokval := 0
    lval := .init
    stack := s.toExprContext :: s.stack }

/-- A name is looked up as soon as it is read. -/
theorem leaves_readtok {text : List Char} {element : Bool}
    (htext : text = ['x'] ∧ element = false ∨ text = promptReference ∧ element = true)
    (hnoeval : s.noeval = 0)
    (h : ∀ t, t.noeval = 0 → t.stack = s.toExprContext :: s.stack →
      Leaves .outOfFuel (promptShell.exprStreval r ⟨0, text⟩ element) t) :
    Leaves .outOfFuel (promptShell.readtok r) (levelState s text) := by
  rcases htext with ⟨rfl, rfl⟩ | ⟨rfl, rfl⟩
  · change Leaves _ (promptShell.readtokFrom r 2) _
    rw [readtokFrom]
    refine Leaves.bind_of_ok rfl (Leaves.bind_of_ok rfl ?_)
    refine Leaves.bind_of_ok rfl (Leaves.bind_of_ok rfl ?_)
    refine Leaves.bind_of_ok rfl (Leaves.bind_of_ok rfl ?_)
    refine Leaves.bind_of_ok rfl (Leaves.bind_of_ok rfl ?_)
    refine Leaves.bind_of_ok rfl (Leaves.bind_of_ok rfl ?_)
    refine Leaves.bind_of_ok rfl (Leaves.bind ?_)
    exact h _ hnoeval rfl
  · change Leaves _ (promptShell.readtokFrom r 10) _
    rw [readtokFrom]
    refine Leaves.bind_of_ok rfl (Leaves.bind_of_ok rfl ?_)
    refine Leaves.bind_of_ok rfl (Leaves.bind_of_ok rfl ?_)
    refine Leaves.bind_of_ok rfl (Leaves.bind_of_ok rfl ?_)
    refine Leaves.bind_of_ok rfl (Leaves.bind_of_ok rfl ?_)
    refine Leaves.bind_of_ok rfl (Leaves.bind_of_ok rfl ?_)
    refine Leaves.bind_of_ok rfl (Leaves.bind ?_)
    exact h _ hnoeval rfl

theorem pushexp_run (hroom : s.stack.length < 1024) :
    (pushexp : ExprM Unit Unit) s = (.ok (), { s with stack := s.toExprContext :: s.stack }) := by
  refine (Act.bind_of_ok (Act.read_run s)).trans ?_
  rw [if_neg (Nat.not_le_of_lt hroom)]
  rfl

theorem leaves_subexpr {text : List Char} {element : Bool}
    (htext : text = ['x'] ∧ element = false ∨ text = promptReference ∧ element = true)
    (hnoeval : s.noeval = 0) (hroom : s.stack.length < 1024)
    (h : ∀ t, t.noeval = 0 → t.stack = s.toExprContext :: s.stack →
      Leaves .outOfFuel (promptShell.exprStreval r ⟨0, text⟩ element) t) :
    Leaves .outOfFuel (promptShell.subexpr r text) s := by
  have hblank : text.dropWhile crWhitespace ≠ [] := by
    rcases htext with ⟨rfl, -⟩ | ⟨rfl, -⟩ <;> decide
  rw [subexpr, if_neg hblank]
  refine Leaves.bind_of_ok (pushexp_run hroom) (Leaves.bind_of_ok rfl (Leaves.bind ?_))
  exact leaves_readtok htext hnoeval h

/-- An operand is missing. -/
theorem invalid_run (n : ℕ) (hroom : s.stack.length < 1024) (expanded : Bool) :
    ∃ t : ExprState Unit,
      nestedEvalexp (promptShell.evaluators (n + 1)) ['1', '+'] expanded s = (.ok none, t) ∧
        t.stack = [] := by
  let s₁ : ExprState Unit := { s with noeval := 0, alreadyExpanded := expanded }
  obtain ⟨u, message, token, hu⟩ : ∃ u message token,
      promptShell.subexpr (promptShell.evaluators n) ['1', '+'] s₁ =
        (.error (.evalerror ['1', '+'] message token), u) := by
    rw [subexpr, if_neg (by decide), Act.bind_of_ok (pushexp_run (s := s₁) hroom)]
    exact ⟨_, _, _, rfl⟩
  have hwith : evalexpWith (promptShell.evaluators (n + 1)) ['1', '+'] expanded s =
      (.ok (0, false), { u with tokstr := none, expression := none, stack := [], noeval := 0 }) :=
    congrArg caught hu
  exact ⟨_, (Act.bind_of_ok rfl).trans (Act.bind_of_ok hwith), rfl⟩

/-- The subscript is evaluated from the bottom of the stack. -/
theorem leaves_element (n : ℕ) {t : ExprState Unit} (hnoeval : t.noeval = 0)
    (hroom : t.stack.length < 1024)
    (h : ∀ u, u.stack = [] → Leaves .outOfFuel (nestedEvalexp (promptShell.evaluators n) ['x'] false) u) :
    Leaves .outOfFuel (promptShell.exprStreval (promptShell.evaluators n) ⟨0, promptReference⟩ true) t := by
  have hcode : Leaves .outOfFuel (promptShell.runCode (promptShell.evaluators n)
      (promptShell.expandArithString t.rest (arraySubscript promptReference))) t := by
    cases n with
    | zero =>
        have hzero : ∀ u, Leaves .outOfFuel
            (nestedEvalexp (promptShell.evaluators 0) ['1', '+'] false) u := fun _ => rfl
        simp only [promptShell, runCode]
        exact Leaves.bind_of_ok rfl (Leaves.bind (hzero _))
    | succ n =>
        obtain ⟨u, hu, hstack⟩ := invalid_run (s := { t with rest := () }) n hroom false
        simp only [promptShell, runCode]
        refine Leaves.bind_of_ok rfl (Leaves.bind_of_ok hu (Leaves.bind_of_ok rfl ?_))
        exact Leaves.bind_of_ok rfl (Leaves.bind (h _ hstack))
  have hindex : Leaves .outOfFuel (promptShell.arrayExpandIndex (promptShell.evaluators n)
      (arraySubscript promptReference) false) t :=
    Leaves.bind_of_ok rfl (Leaves.bind hcode)
  refine Leaves.bind_of_ok rfl ?_
  rw [if_neg (not_not.mpr hnoeval)]
  exact Leaves.bind (Leaves.bind_of_ok rfl (Leaves.bind_of_ok rfl (Leaves.bind hindex)))

theorem leaves_scalar {r : Evaluators Unit} {t : ExprState Unit} (hnoeval : t.noeval = 0)
    (h : Leaves .outOfFuel (r.subexpr promptReference) { t with rest := () }) :
    Leaves .outOfFuel (promptShell.exprStreval r ⟨0, ['x']⟩ false) t := by
  refine Leaves.bind_of_ok rfl ?_
  rw [if_neg (not_not.mpr hnoeval)]
  refine Leaves.bind_of_ok rfl (Leaves.bind_of_ok rfl ?_)
  rw [if_neg (Nat.lt_irrefl _)]
  exact Leaves.bind (Leaves.bind_of_ok rfl (Leaves.bind h))

/-- From an empty stack the evaluation of `x` comes back to one, by induction on the fuel. -/
theorem leaves_x (n : ℕ) (s : ExprState Unit) (expanded : Bool) (hs : s.stack = []) :
    Leaves .outOfFuel (evalexpWith (promptShell.evaluators n) ['x'] expanded) s := by
  induction n using Nat.strongRecOn generalizing s expanded with
  | ind n ih =>
      let s₁ : ExprState Unit := { s with noeval := 0, alreadyExpanded := expanded }
      suffices hsub : Leaves .outOfFuel ((promptShell.evaluators n).subexpr ['x']) s₁ by
        rw [Leaves] at hsub ⊢
        change (caught ((promptShell.evaluators n).subexpr ['x'] s₁)).1 = _
        rcases hrun : (promptShell.evaluators n).subexpr ['x'] s₁ with ⟨o, t⟩
        rw [hrun] at hsub
        cases hsub
        rfl
      have hs₁ : s₁.stack.length = 0 := congrArg List.length hs
      cases n with
      | zero => rfl
      | succ n =>
          refine leaves_subexpr (s := s₁) (.inl ⟨rfl, rfl⟩) rfl (by omega) fun t ht hstack => ?_
          have ht₁ : t.stack.length = 1 := by rw [hstack, List.length_cons, hs₁]
          refine leaves_scalar ht ?_
          cases n with
          | zero => rfl
          | succ n =>
              let t₂ : ExprState Unit := { t with rest := () }
              have ht₂ : t₂.stack.length = 1 := ht₁
              refine leaves_subexpr (s := t₂) (.inr ⟨rfl, rfl⟩) ht (by omega) fun u hu hstack' => ?_
              refine leaves_element n hu ?_ fun v hv => ?_
              · rw [hstack', List.length_cons, ht₂]
                decide
              · exact Leaves.bind_of_ok rfl (Leaves.bind (ih n (by omega) v false hv))

end ExprWorld

end Rash
