import Mathlib.Logic.Basic
import Mathlib.Order.Defs.Unbundled

/-!
# Actions on a state

Computations that change a state and may leave by a jump, with the changes they have made.  A
relation that every single change keeps is kept by the whole computation.
-/

def Act (S E α : Type) : Type := S → Except E α × S

namespace Act

variable {S E α β : Type}

instance : Monad (Act S E) where
  pure a s := (.ok a, s)
  bind m f s :=
    match m s with
    | (.ok a, s) => f a s
    | (.error e, s) => (.error e, s)

def read : Act S E S := fun s => (.ok s, s)

def modify (f : S → S) : Act S E Unit := fun s => (.ok (), f s)

def jump (e : E) : Act S E α := fun s => (.error e, s)

/-- A computation that is found from the state that it starts in. -/
def onState (f : S → Act S E α) : Act S E α := fun s => f s s

theorem bind_of_ok {m : Act S E α} {f : α → Act S E β} {s s' : S} {a : α}
    (h : m s = (.ok a, s')) : (m >>= f) s = f a s' := by
  simp [Bind.bind, h]

theorem bind_of_error {m : Act S E α} {f : α → Act S E β} {s s' : S} {e : E}
    (h : m s = (.error e, s')) : (m >>= f) s = (.error e, s') := by
  simp [Bind.bind, h]

theorem bind_assoc {γ : Type} (m : Act S E α) (f : α → Act S E β) (g : β → Act S E γ) :
    m >>= f >>= g = m >>= fun a => f a >>= g := by
  funext s
  rcases h : m s with ⟨e | a, s'⟩
  · rw [bind_of_error h, bind_of_error (bind_of_error h)]
  · rw [bind_of_ok h]
    simp only [Bind.bind, h]

@[simp] theorem pure_run (a : α) (s : S) : (pure a : Act S E α) s = (.ok a, s) := rfl

@[simp] theorem read_run (s : S) : (read : Act S E S) s = (.ok s, s) := rfl

@[simp] theorem modify_run (f : S → S) (s : S) :
    (modify f : Act S E Unit) s = (.ok (), f s) := rfl

@[simp] theorem jump_run (e : E) (s : S) : (jump e : Act S E α) s = (.error e, s) := rfl

/-! ## Relations that are kept -/

/-- From its first state to its last, returning or jumping, the computation keeps `R`. -/
def Keeps (R : S → S → Prop) (m : Act S E α) : Prop := ∀ s, R s (m s).2

namespace Keeps

variable {R : S → S → Prop} {m m' : Act S E α} {f : α → Act S E β}

theorem modify {f : S → S} (h : ∀ s, R s (f s)) : Keeps R (Act.modify f : Act S E Unit) := h

/-- What follows a look at the state need keep the relation only in that state. -/
theorem bind_read {g : S → Act S E β} (hg : ∀ s, R s (g s s).2) : Keeps R (Act.read >>= g) := hg

theorem onState {g : S → Act S E α} (hg : ∀ s, Keeps R (g s)) : Keeps R (Act.onState g) :=
  fun s => hg s s

theorem ite {p : Prop} [Decidable p] (hm : p → Keeps R m) (hm' : ¬p → Keeps R m') :
    Keeps R (if p then m else m') := by
  split
  · next hp => exact hm hp
  · next hp => exact hm' hp

variable [IsPreorder S R]

theorem pure (a : α) : Keeps R (pure a : Act S E α) := fun s => refl_of R s

theorem read : Keeps R (Act.read : Act S E S) := fun s => refl_of R s

theorem jump (e : E) : Keeps R (Act.jump e : Act S E α) := fun s => refl_of R s

theorem bind (hm : Keeps R m) (hf : ∀ a, Keeps R (f a)) : Keeps R (m >>= f) := by
  intro s
  have hfirst := hm s
  rcases h : m s with ⟨e | a, s'⟩
  · rw [bind_of_error h]
    rw [h] at hfirst
    exact hfirst
  · rw [bind_of_ok h]
    rw [h] at hfirst
    exact trans_of R hfirst (hf a s')

end Keeps

end Act
