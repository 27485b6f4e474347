import Mathlib.Logic.Basic

/-!
# Interaction trees over a signature of operations

A callback of an embedded language is, to its host, a finite interaction: it asks for
operations, goes on with their answers and returns.  The host answers each operation in a
state of its own, or leaves the interaction by an exit that the callback cannot catch.
-/

namespace Interaction

universe u v w

/-- A program asks for operations `Op`, each answered in `Ans`, and returns an `R`. -/
inductive Prog (Op : Type u) (Ans : Op → Type v) (R : Type w) : Type (max u v w)
  | ret (r : R)
  | op (o : Op) (k : Ans o → Prog Op Ans R)

/-- A handler answers an operation in a state, or leaves by an exit. -/
abbrev Handler (Op : Type u) (Ans : Op → Type v) (X S : Type*) :=
  (o : Op) → S → Except X (Ans o) × S

/-- How an interaction ends: under `post` when it returns, under `onExit` when it leaves. -/
def Ends {X R S : Type*} (post : R → S → Prop) (onExit : X → S → Prop) :
    Except X R × S → Prop
  | (.ok r, s) => post r s
  | (.error x, s) => onExit x s

namespace Prog

variable {Op : Type u} {Ans : Op → Type v} {R : Type w} {X S T : Type*}

def run (h : Handler Op Ans X S) : Prog Op Ans R → S → Except X R × S
  | ret r, s => (.ok r, s)
  | op o k, s =>
      match h o s with
      | (.ok a, s') => (k a).run h s'
      | (.error x, s') => (.error x, s')

@[simp] theorem run_ret (h : Handler Op Ans X S) (r : R) (s : S) :
    (ret r : Prog Op Ans R).run h s = (.ok r, s) := rfl

theorem run_op_ok {h : Handler Op Ans X S} {o : Op} {k : Ans o → Prog Op Ans R}
    {s s' : S} {a : Ans o} (ho : h o s = (.ok a, s')) :
    (op o k).run h s = (k a).run h s' := by
  simp [run, ho]

theorem run_op_error {h : Handler Op Ans X S} {o : Op} {k : Ans o → Prog Op Ans R}
    {s s' : S} {x : X} (ho : h o s = (.error x, s')) :
    (op o k).run h s = (.error x, s') := by
  simp [run, ho]

/-- Every operation on every path of the program lies in `allowed`. -/
def Uses (allowed : Op → Prop) : Prog Op Ans R → Prop
  | ret _ => True
  | op o k => allowed o ∧ ∀ a, (k a).Uses allowed

/-- Every value the program can return satisfies `post`. -/
def Returns (post : R → Prop) : Prog Op Ans R → Prop
  | ret r => post r
  | op _ k => ∀ a, (k a).Returns post

theorem uses_of_forall {allowed : Op → Prop} (h : ∀ o, allowed o) (p : Prog Op Ans R) :
    p.Uses allowed := by
  induction p with
  | ret r => trivial
  | op o k ih => exact ⟨h o, ih⟩

theorem uses_true (p : Prog Op Ans R) : p.Uses fun _ => True :=
  uses_of_forall (fun _ => trivial) p

/-- What every allowed operation preserves, a whole run preserves. -/
theorem run_invariant {h : Handler Op Ans X S} {allowed : Op → Prop} {I : S → Prop}
    (hstep : ∀ o s, allowed o → I s → I (h o s).2) {p : Prog Op Ans R}
    (hp : p.Uses allowed) {s : S} (hs : I s) : I (p.run h s).2 := by
  induction p generalizing s with
  | ret r => exact hs
  | op o k ih =>
      have ho := hstep o s hp.1 hs
      cases he : h o s with
      | mk answer s' =>
          rw [he] at ho
          cases answer with
          | error x => rw [run_op_error he]; exact ho
          | ok a => rw [run_op_ok he]; exact ih a (hp.2 a) ho

/-- The invariant rule with a condition of its own on the states in which the run leaves. -/
theorem run_invariant_exit {h : Handler Op Ans X S} {I : S → Prop} {E : X → S → Prop}
    (hanswer : ∀ o s a s', I s → h o s = (.ok a, s') → I s')
    (hleave : ∀ o s x s', I s → h o s = (.error x, s') → E x s')
    (p : Prog Op Ans R) {s : S} (hs : I s) : Ends (fun _ => I) E (p.run h s) := by
  induction p generalizing s with
  | ret r => exact hs
  | op o k ih =>
      cases he : h o s with
      | mk answer s' =>
          cases answer with
          | error x => rw [run_op_error he]; exact hleave o s x s' hs he
          | ok a => rw [run_op_ok he]; exact ih a (hanswer o s a s' hs he)

/-- A relation from the first state that every operation extends holds of the whole run. -/
theorem run_progress {h : Handler Op Ans X S} {allowed : Op → Prop} {le : S → S → Prop}
    (hrefl : ∀ s, le s s) (htrans : ∀ a b c, le a b → le b c → le a c)
    (hstep : ∀ o s, allowed o → le s (h o s).2) {p : Prog Op Ans R}
    (hp : p.Uses allowed) (s : S) : le s (p.run h s).2 :=
  run_invariant (I := le s) (fun o s' ho hs => htrans s s' _ hs (hstep o s' ho)) hp (hrefl s)

/-- Two handlers that answer alike in related states until they part for good run a program
to the same result in related states, or part. -/
theorem run_related_or {h : Handler Op Ans X S} {g : Handler Op Ans X T}
    {Rel Parted : S → T → Prop}
    (hstep : ∀ o s t, Rel s t →
      ((h o s).1 = (g o t).1 ∧ Rel (h o s).2 (g o t).2) ∨ Parted (h o s).2 (g o t).2)
    (hparted : ∀ {o k s t}, Parted (h o s).2 (g o t).2 →
      Parted ((op o k : Prog Op Ans R).run h s).2 ((op o k : Prog Op Ans R).run g t).2)
    (p : Prog Op Ans R) {s : S} {t : T} (hst : Rel s t) :
    ((p.run h s).1 = (p.run g t).1 ∧ Rel (p.run h s).2 (p.run g t).2) ∨
      Parted (p.run h s).2 (p.run g t).2 := by
  induction p generalizing s t with
  | ret r => exact Or.inl ⟨rfl, hst⟩
  | op o k ih =>
      rcases hstep o s t hst with ⟨hans, hrel⟩ | hpart
      · cases hs : h o s with
        | mk answer s' =>
            cases ht : g o t with
            | mk answer' t' =>
                rw [hs, ht] at hans hrel
                cases hans
                cases answer with
                | error x => rw [run_op_error hs, run_op_error ht]; exact Or.inl ⟨rfl, hrel⟩
                | ok a => rw [run_op_ok hs, run_op_ok ht]; exact ih a hrel
      · exact Or.inr (hparted hpart)

/-! ## Programs under a handler that always answers -/

def bind {R' : Type w} : Prog Op Ans R → (R → Prog Op Ans R') → Prog Op Ans R'
  | ret r, f => f r
  | op o k, f => op o fun a => (k a).bind f

instance : Monad (Prog Op Ans) where
  pure := ret
  bind := bind

/-- One operation. -/
def ask (o : Op) : Prog Op Ans (Ans o) := op o ret

/-- A run in which every operation is answered. -/
def eval (h : (o : Op) → S → Ans o × S) : Prog Op Ans R → S → R × S
  | ret r, s => (r, s)
  | op o k, s => (k (h o s).1).eval h (h o s).2

@[simp] theorem eval_ret (h : (o : Op) → S → Ans o × S) (r : R) (s : S) :
    (ret r : Prog Op Ans R).eval h s = (r, s) := rfl

@[simp] theorem eval_op (h : (o : Op) → S → Ans o × S) (o : Op) (k : Ans o → Prog Op Ans R)
    (s : S) : (op o k).eval h s = (k (h o s).1).eval h (h o s).2 := rfl

@[simp] theorem eval_pure (h : (o : Op) → S → Ans o × S) (r : R) (s : S) :
    (pure r : Prog Op Ans R).eval h s = (r, s) := rfl

@[simp] theorem eval_bind {R' : Type w} (h : (o : Op) → S → Ans o × S) (p : Prog Op Ans R)
    (f : R → Prog Op Ans R') (s : S) :
    (p >>= f).eval h s = (f (p.eval h s).1).eval h (p.eval h s).2 := by
  induction p generalizing s with
  | ret r => rfl
  | op o k ih => exact ih (h o s).1 (h o s).2

@[simp] theorem eval_ask (h : (o : Op) → S → Ans o × S) (o : Op) (s : S) :
    (ask o : Prog Op Ans (Ans o)).eval h s = h o s := rfl

/-- Whether an evaluation asks for an operation with the property. -/
def asks (h : (o : Op) → S → Ans o × S) (q : Op → Bool) : Prog Op Ans R → S → Bool
  | ret _, _ => false
  | op o k, s => q o || (k (h o s).1).asks h q (h o s).2

theorem Uses.bind {R' : Type w} {allowed : Op → Prop} {p : Prog Op Ans R}
    {f : R → Prog Op Ans R'} (hp : p.Uses allowed) (hf : ∀ r, (f r).Uses allowed) :
    (p >>= f).Uses allowed := by
  induction p with
  | ret r => exact hf r
  | op o k ih => exact ⟨hp.1, fun a => ih a (hp.2 a)⟩

/-- What every answer to an allowed operation preserves, an evaluation preserves. -/
theorem eval_invariant {h : (o : Op) → S → Ans o × S} {allowed : Op → Prop} {I : S → Prop}
    (hstep : ∀ o s, allowed o → I s → I (h o s).2) {p : Prog Op Ans R}
    (hp : p.Uses allowed) {s : S} (hs : I s) : I (p.eval h s).2 := by
  induction p generalizing s with
  | ret r => exact hs
  | op o k ih => exact ih _ (hp.2 _) (hstep o s hp.1 hs)

/-! ## Programs in a nondeterministic environment -/

/-- What an environment requires of each operation and which answers and states may follow
it. -/
structure Spec (Op : Type u) (Ans : Op → Type v) (S : Type*) where
  pre : Op → S → Prop
  next : (o : Op) → S → Ans o → S → Prop

/-- On every path that the environment allows, the program asks only for what is required
and returns under `post`. -/
def Meets (spec : Spec Op Ans S) (post : R → S → Prop) : Prog Op Ans R → S → Prop
  | ret r, s => post r s
  | op o k, s => spec.pre o s ∧ ∀ a s', spec.next o s a s' → (k a).Meets spec post s'

theorem not_meets_op {spec : Spec Op Ans S} {post : R → S → Prop} {o : Op}
    {k : Ans o → Prog Op Ans R} {s : S} (h : ¬ (op o k).Meets spec post s) :
    ¬ spec.pre o s ∨
      spec.pre o s ∧ ∃ a s', spec.next o s a s' ∧ ¬ (k a).Meets spec post s' := by
  by_cases hpre : spec.pre o s
  · refine Or.inr ⟨hpre, ?_⟩
    have hsome : ¬ ∀ a s', spec.next o s a s' → (k a).Meets spec post s' :=
      fun hall => h ⟨hpre, hall⟩
    simpa only [not_forall, exists_prop] using hsome
  · exact Or.inl hpre

/-- A handler whose states are abstracted by those of the environment: `onExit` holds of the
states in which it leaves. -/
structure Simulates (spec : Spec Op Ans S) (h : Handler Op Ans X T) (abs : T → S → Prop)
    (onExit : X → T → Prop) : Prop where
  answer : ∀ {o t s a t'}, abs t s → spec.pre o s → h o t = (.ok a, t') →
    ∃ s', spec.next o s a s' ∧ abs t' s'
  leave : ∀ {o t s x t'}, abs t s → spec.pre o s → h o t = (.error x, t') → onExit x t'

/-- A program that meets its specification returns under `post` or leaves under `onExit`. -/
theorem run_meets {spec : Spec Op Ans S} {post : R → S → Prop} {h : Handler Op Ans X T}
    {abs : T → S → Prop} {onExit : X → T → Prop} (hsim : Simulates spec h abs onExit)
    {p : Prog Op Ans R} {s : S} (hp : p.Meets spec post s) {t : T} (ht : abs t s) :
    Ends (fun r t' => ∃ s', post r s' ∧ abs t' s') onExit (p.run h t) := by
  induction p generalizing s t with
  | ret r => exact ⟨s, hp, ht⟩
  | op o k ih =>
      cases he : h o t with
      | mk answer t' =>
          cases answer with
          | error x =>
              rw [run_op_error he]
              exact hsim.leave ht hp.1 he
          | ok a =>
              rw [run_op_ok he]
              obtain ⟨s', hs', ht'⟩ := hsim.answer ht hp.1 he
              exact ih a (hp.2 a s' hs') ht'

/-- What follows an operation extends the state the operation leaves. -/
theorem run_op_progress {h : Handler Op Ans X S} {le : S → S → Prop}
    (hrefl : ∀ s, le s s) (htrans : ∀ a b c, le a b → le b c → le a c)
    (hstep : ∀ o s, le s (h o s).2) (o : Op) (k : Ans o → Prog Op Ans R) (s : S) :
    le (h o s).2 ((op o k).run h s).2 := by
  cases he : h o s with
  | mk answer s' =>
      cases answer with
      | error x => rw [run_op_error he]; exact hrefl s'
      | ok a =>
          rw [run_op_ok he]
          exact run_progress hrefl htrans (fun o s _ => hstep o s) (uses_true (k a)) s'

end Prog

end Interaction
