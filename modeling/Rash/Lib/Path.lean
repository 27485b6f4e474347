import Rash.Lib.Interaction

/-!
# The path of a process through sequential code

A computation returns a value to its caller, or leaves by an exit that no caller on the path
catches.  Postconditions are given for both ways, and follow the code by one rule for each
construct.
-/

namespace Interaction

universe u v w

/-- A computation on states `S` that returns an `A` or leaves by an `X`. -/
def Path (X : Type v) (S : Type w) (A : Type u) := S → Except X A × S

namespace Path

variable {X Y : Type v} {S T : Type w} {A B : Type u}

def ret (a : A) : Path X S A := fun s => (.ok a, s)

def andThen (c : Path X S A) (k : A → Path X S B) : Path X S B := fun s =>
  match c s with
  | (.ok a, s') => k a s'
  | (.error x, s') => (.error x, s')

instance : Monad (Path X S) where
  pure := ret
  bind := andThen

def leave (x : X) : Path X S A := fun s => (.error x, s)

def reads (f : S → A) : Path X S A := fun s => (.ok (f s), s)

def modify (f : S → S) : Path X S PUnit := fun s => (.ok ⟨⟩, f s)

/-- A step that always returns. -/
def step (f : S → A × S) : Path X S A := fun s => (.ok (f s).1, (f s).2)

/-- The exits that `h` knows are caught where they arrive. -/
def catching (h : X → Option (Path X S A)) (c : Path X S A) : Path X S A := fun s =>
  match c s with
  | (.ok a, s') => (.ok a, s')
  | (.error x, s') =>
      match h x with
      | some d => d s'
      | none => (.error x, s')

theorem bind_ok {c : Path X S A} {k : A → Path X S B} {s s' : S} {a : A}
    (h : c s = (.ok a, s')) : (c >>= k) s = k a s' := by
  change andThen c k s = _
  simp [andThen, h]

theorem bind_error {c : Path X S A} {k : A → Path X S B} {s s' : S} {x : X}
    (h : c s = (.error x, s')) : (c >>= k) s = (.error x, s') := by
  change andThen c k s = _
  simp [andThen, h]

/-- Where a sequence returns, both parts have returned. -/
theorem bind_returns {c : Path X S A} {k : A → Path X S B} {s s' : S} {b : B}
    (h : (c >>= k) s = (.ok b, s')) : ∃ a s₁, c s = (.ok a, s₁) ∧ k a s₁ = (.ok b, s') := by
  cases hc : c s with
  | mk answer s₁ =>
      cases answer with
      | error x =>
          rw [bind_error hc] at h
          cases h
      | ok a =>
          rw [bind_ok hc] at h
          exact ⟨a, s₁, rfl, h⟩

@[simp] theorem pure_apply (a : A) (s : S) : (pure a : Path X S A) s = (.ok a, s) := rfl

@[simp] theorem leave_apply (x : X) (s : S) : (leave x : Path X S A) s = (.error x, s) := rfl

@[simp] theorem reads_bind (f : S → A) (k : A → Path X S B) (s : S) :
    (reads f >>= k) s = k (f s) s := rfl

@[simp] theorem modify_bind {B : Type} (f : S → S) (k : PUnit → Path X S B) (s : S) :
    ((modify f : Path X S PUnit) >>= k) s = k ⟨⟩ (f s) := rfl

@[simp] theorem step_bind (f : S → A × S) (k : A → Path X S B) (s : S) :
    (step f >>= k) s = k (f s).1 (f s).2 := rfl

@[simp] theorem leave_bind (x : X) (k : A → Path X S B) (s : S) :
    ((leave x : Path X S A) >>= k) s = (.error x, s) := rfl

/-! ## Postconditions for both ways -/

/-- From a state in `pre` the computation returns under `post` or leaves under `onExit`. -/
def Holds (pre : S → Prop) (c : Path X S A) (post : A → S → Prop) (onExit : X → S → Prop) :
    Prop :=
  ∀ s, pre s → Ends post onExit (c s)

section Rules

variable {pre pre' : S → Prop} {post post' : A → S → Prop} {onExit onExit' : X → S → Prop}
  {out : B → S → Prop}

theorem Ends.mono {r : Except X A × S} (h : Ends post onExit r)
    (hpost : ∀ a s, post a s → post' a s) (hexit : ∀ x s, onExit x s → onExit' x s) :
    Ends post' onExit' r := by
  obtain ⟨answer, s⟩ := r
  cases answer with
  | error x => exact hexit x s h
  | ok a => exact hpost a s h

theorem Holds.mono {c : Path X S A} (h : Holds pre c post onExit)
    (hpre : ∀ s, pre' s → pre s) (hpost : ∀ a s, post a s → post' a s)
    (hexit : ∀ x s, onExit x s → onExit' x s) : Holds pre' c post' onExit' :=
  fun s hs => Ends.mono (h s (hpre s hs)) hpost hexit

/-- What a computation does from one state. -/
theorem holds_at {c : Path X S A} {s : S} (h : Ends post onExit (c s)) :
    Holds (· = s) c post onExit := by
  rintro _ rfl
  exact h

theorem Holds.returned {c : Path X S A} {s s' : S} {a : A} (h : Holds pre c post onExit)
    (hs : pre s) (hc : c s = (.ok a, s')) : post a s' := by
  have hends := h s hs
  rw [hc] at hends
  exact hends

theorem holds_ret {a : A} (h : ∀ s, pre s → post a s) :
    Holds pre (pure a : Path X S A) post onExit := h

theorem holds_step {f : S → A × S} (h : ∀ s, pre s → post (f s).1 (f s).2) :
    Holds pre (step f : Path X S A) post onExit := h

theorem Holds.bind {p : A → S → Prop} {c : Path X S A} {k : A → Path X S B}
    (hc : Holds pre c p onExit) (hk : ∀ a, Holds (p a) (k a) out onExit) :
    Holds pre (c >>= k) out onExit := by
  intro s hs
  have hends := hc s hs
  cases hr : c s with
  | mk answer s' =>
      rw [hr] at hends
      cases answer with
      | error x => rw [bind_error hr]; exact hends
      | ok a => rw [bind_ok hr]; exact hk a s' hends

/-- What follows code that never returns is not reached. -/
theorem Ends.never_bind {c : Path X S A} {k : A → Path X S B} {s : S}
    (h : Ends (fun _ _ => False) onExit (c s)) :
    Ends (fun _ _ => False) onExit ((c >>= k) s) :=
  Holds.bind (holds_at h) (fun _ _ hfalse => False.elim hfalse) s rfl

theorem Holds.catching {c : Path X S A} {h : X → Option (Path X S A)}
    (hc : Holds pre c post onExit)
    (hcaught : ∀ x d, h x = some d → Holds (onExit x) d post onExit')
    (hpast : ∀ x s, h x = none → onExit x s → onExit' x s) :
    Holds pre (catching h c) post onExit' := by
  intro s hs
  have hends := hc s hs
  unfold Path.catching
  cases hr : c s with
  | mk answer s' =>
      rw [hr] at hends
      cases answer with
      | ok a => exact hends
      | error x =>
          cases hx : h x with
          | none => simp only [hx]; exact hpast x s' hx hends
          | some d => simp only [hx]; exact hcaught x d hx s' hends

theorem holds_ite {P : Prop} [Decidable P] {c d : Path X S A}
    (hc : P → Holds pre c post onExit) (hd : ¬ P → Holds pre d post onExit) :
    Holds pre (if P then c else d) post onExit := by
  by_cases h : P
  · rw [if_pos h]; exact hc h
  · rw [if_neg h]; exact hd h

end Rules

/-! ## Invariants -/

/-- The computation returns in a state of `I` from a state of `I`. -/
def Preserves (I : S → Prop) (onExit : X → S → Prop) (c : Path X S A) : Prop :=
  Holds I c (fun _ => I) onExit

section Invariants

variable {I : S → Prop} {onExit onExit' : X → S → Prop}

theorem Preserves.bind {c : Path X S A} {k : A → Path X S B} (hc : Preserves I onExit c)
    (hk : ∀ a, Preserves I onExit (k a)) : Preserves I onExit (c >>= k) :=
  Holds.bind hc hk

theorem Preserves.bind_holds {c : Path X S A} {k : A → Path X S B} {out : B → S → Prop}
    (hc : Preserves I onExit c) (hk : ∀ a, Holds I (k a) out onExit) :
    Holds I (c >>= k) out onExit :=
  Holds.bind hc hk

theorem Preserves.mono {c : Path X S A} (hc : Preserves I onExit c)
    (hexit : ∀ x s, onExit x s → onExit' x s) : Preserves I onExit' c :=
  Holds.mono hc (fun _ h => h) (fun _ _ h => h) hexit

theorem Preserves.returned {c : Path X S A} {s s' : S} {a : A} (h : Preserves I onExit c)
    (hs : I s) (hc : c s = (.ok a, s')) : I s' := Holds.returned h hs hc

theorem preserves_true (c : Path X S A) : Preserves (fun _ => True) (fun _ _ => True) c := by
  intro s _
  cases c s with
  | mk answer s' => cases answer <;> trivial

theorem preserves_pure (a : A) : Preserves I onExit (pure a : Path X S A) := fun _ h => h

theorem preserves_reads (f : S → A) : Preserves I onExit (reads f : Path X S A) := fun _ h => h

theorem preserves_step {f : S → A × S} (h : ∀ s, I s → I (f s).2) :
    Preserves I onExit (step f : Path X S A) := h

theorem preserves_modify {f : S → S} (h : ∀ s, I s → I (f s)) :
    Preserves I onExit (modify f : Path X S PUnit) := h

theorem preserves_ite {P : Prop} [Decidable P] {c d : Path X S A}
    (hc : Preserves I onExit c) (hd : Preserves I onExit d) :
    Preserves I onExit (if P then c else d) :=
  holds_ite (fun _ => hc) fun _ => hd

end Invariants

end Path

end Interaction
