import Mathlib.Data.Nat.Notation
import Rash.Lib.Act

/-!
# Computations that settle

A family of computations indexed by fuel settles from a state if, with enough fuel, it always
ends the same way there, and not for want of fuel.
-/

namespace Act

variable {S E α β : Type}

/-- With enough fuel the family ends the same way from `s`, not by the jump `out`; where it
returns it meets `Q`. -/
def Settles (out : E) (m : ℕ → Act S E α) (s : S) (Q : α → S → Prop) : Prop :=
  ∃ N o, (∀ n, N ≤ n → m n s = o) ∧ o.1 ≠ .error out ∧ ∀ a s', o = (.ok a, s') → Q a s'

namespace Settles

variable {out : E} {m : ℕ → Act S E α} {f : α → ℕ → Act S E β} {s : S} {Q Q' : α → S → Prop}
  {P : β → S → Prop}

theorem imp (h : Settles out m s Q) (hQ : ∀ a s', Q a s' → Q' a s') : Settles out m s Q' := by
  obtain ⟨N, o, hm, hout, hpost⟩ := h
  exact ⟨N, o, hm, hout, fun a s' ho => hQ a s' (hpost a s' ho)⟩

theorem of_eq {m' : ℕ → Act S E α} (h : Settles out m s Q) (heq : ∀ n, m' n s = m n s) :
    Settles out m' s Q := by
  obtain ⟨N, o, hm, hpost⟩ := h
  exact ⟨N, o, fun n hn => (heq n).trans (hm n hn), hpost⟩

/-- One level deeper there is less fuel. -/
theorem deeper {m' : ℕ → Act S E α} (h : Settles out m s Q) (heq : ∀ n, m' (n + 1) s = m n s) :
    Settles out m' s Q := by
  obtain ⟨N, o, hm, hpost⟩ := h
  refine ⟨N + 1, o, fun n hn => ?_, hpost⟩
  obtain ⟨n, rfl⟩ : ∃ k, n = k + 1 := Nat.exists_eq_add_one_of_ne_zero (by omega)
  rw [heq, hm n (by omega)]

theorem pure {a : α} (h : Q a s) : Settles out (fun _ => (Pure.pure a : Act S E α)) s Q :=
  ⟨0, _, fun _ _ => rfl, nofun, fun _ _ ho => by cases ho; exact h⟩

theorem jump {e : E} (h : e ≠ out) : Settles out (fun _ => (Act.jump e : Act S E α)) s Q :=
  ⟨0, _, fun _ _ => rfl, fun heq => h (Except.error.inj heq), fun _ _ ho => by cases ho⟩

/-- A computation that goes on with whatever the first part ends with. -/
theorem through {m' : ℕ → Act S E β} {g : Except E α × S → Except E β × S} {s' : S}
    (h : Settles out m s Q) (heq : ∀ n, m' n s' = g (m n s))
    (hg : ∀ o, o.1 ≠ .error out → (∀ a t, o = (.ok a, t) → Q a t) →
      (g o).1 ≠ .error out ∧ ∀ b t, g o = (.ok b, t) → P b t) : Settles out m' s' P := by
  obtain ⟨N, o, hm, hout, hpost⟩ := h
  exact ⟨N, g o, fun n hn => by rw [heq, hm n hn], hg o hout hpost⟩

/-- What follows settles from every state that the first part may leave. -/
theorem bind (hm : Settles out m s Q) (hf : ∀ a s', Q a s' → Settles out (f a) s' P) :
    Settles out (fun n => m n >>= fun a => f a n) s P := by
  obtain ⟨N, ⟨o, s'⟩, hm, hout, hpost⟩ := hm
  cases o with
  | error e =>
      refine ⟨N, (.error e, s'), fun n hn => Act.bind_of_error (hm n hn), ?_, fun _ _ ho => by cases ho⟩
      exact fun heq => hout (congrArg Except.error (Except.error.inj heq))
  | ok a =>
      obtain ⟨M, o, hf, hrest⟩ := hf a s' (hpost a s' rfl)
      refine ⟨max N M, o, fun n hn => ?_, hrest⟩
      exact (Act.bind_of_ok (hm n (Nat.le_trans (Nat.le_max_left N M) hn))).trans
        (hf n (Nat.le_trans (Nat.le_max_right N M) hn))

theorem read {f : S → ℕ → Act S E β} (hf : Settles out (f s) s P) :
    Settles out (fun n => Act.read >>= fun s => f s n) s P :=
  hf

theorem modify {g : S → S} {f : ℕ → Act S E β} (hf : Settles out f (g s) P) :
    Settles out (fun n => Act.modify g >>= fun _ => f n) s P :=
  hf

theorem set {g : S → S} {Q : Unit → S → Prop} (h : Q () (g s)) :
    Settles out (fun _ => (Act.modify g : Act S E Unit)) s Q :=
  ⟨0, _, fun _ _ => rfl, nofun, fun _ _ ho => by cases ho; exact h⟩

theorem onState {f : S → ℕ → Act S E α} (hf : Settles out (f s) s Q) :
    Settles out (fun n => Act.onState fun s => f s n) s Q :=
  hf

theorem ite {p : Prop} [Decidable p] {m' : ℕ → Act S E α} (hm : p → Settles out m s Q)
    (hm' : ¬ p → Settles out m' s Q) : Settles out (fun n => if p then m n else m' n) s Q := by
  by_cases hp : p
  · simpa only [if_pos hp] using hm hp
  · simpa only [if_neg hp] using hm' hp

end Settles

/-! ## Computations that are left -/

/-- The computation is left by the jump `e` from `s`. -/
def Leaves (e : E) (m : Act S E α) (s : S) : Prop := (m s).1 = .error e

namespace Leaves

variable {e : E} {m : Act S E α} {f : α → Act S E β} {s s' : S}

theorem bind (h : Leaves e m s) : Leaves e (m >>= f) s := by
  rcases hm : m s with ⟨o, s'⟩
  have ho : o = .error e := by
    rw [Leaves, hm] at h
    exact h
  subst ho
  exact congrArg Prod.fst (Act.bind_of_error hm)

theorem bind_of_ok {a : α} (hm : m s = (.ok a, s')) (h : Leaves e (f a) s') :
    Leaves e (m >>= f) s :=
  (congrArg Prod.fst (Act.bind_of_ok hm)).trans h

end Leaves

end Act
