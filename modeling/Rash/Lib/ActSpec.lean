import Rash.Lib.Act

/-!
# Actions between a precondition and a relation

An action that starts where `pre` holds keeps `R` however it is left, and where it returns it
relates its first state to its last by `post`.
-/

namespace Act

variable {S E α β : Type}

def Within (R : S → S → Prop) (pre : S → Prop) (post : S → S → Prop) (m : Act S E α) : Prop :=
  ∀ s, pre s → R s (m s).2 ∧ ∀ a t, m s = (.ok a, t) → post s t

namespace Within

variable {R : S → S → Prop} {pre pre' : S → Prop} {post post' post'' : S → S → Prop}
  {m m' : Act S E α} {f : α → Act S E β}

theorem ite {p : Prop} [Decidable p] (hm : p → Within R pre post m)
    (hm' : ¬p → Within R pre post m') : Within R pre post (if p then m else m') := by
  split
  · next hp => exact hm hp
  · next hp => exact hm' hp

theorem modify {f : S → S} (h : ∀ s, pre s → R s (f s) ∧ post s (f s)) :
    Within R pre post (Act.modify f : Act S E Unit) := by
  refine fun s hs => ⟨(h s hs).1, fun a t hrun => ?_⟩
  cases hrun
  exact (h s hs).2

/-- An action that is found from the state that it starts in -/
theorem bind_read {g : S → Act S E β}
    (hg : ∀ s, pre s → R s (g s s).2 ∧ ∀ b t, g s s = (.ok b, t) → post s t) :
    Within R pre post (Act.read >>= g) := hg

theorem onState {g : S → Act S E α} (hg : ∀ s, Within R pre post (g s)) :
    Within R pre post (Act.onState g) := fun s hs => hg s s hs

variable [IsPreorder S R]

theorem pure (a : α) (h : ∀ s, pre s → post s s) : Within R pre post (pure a : Act S E α) := by
  refine fun s hs => ⟨refl_of R s, fun b t hrun => ?_⟩
  cases hrun
  exact h s hs

theorem read (h : ∀ s, pre s → post s s) : Within R pre post (Act.read : Act S E S) := by
  refine fun s hs => ⟨refl_of R s, fun b t hrun => ?_⟩
  cases hrun
  exact h s hs

theorem jump (e : E) : Within R pre post (Act.jump e : Act S E α) :=
  fun s _ => ⟨refl_of R s, nofun⟩

theorem bind (hm : Within R pre post m) (hf : ∀ a, Within R pre' post' (f a))
    (hpre : ∀ s t, pre s → post s t → pre' t)
    (hpost : ∀ s t u, pre s → post s t → post' t u → post'' s u) :
    Within R pre post'' (m >>= f) := by
  intro s hs
  obtain ⟨hkept, hreturns⟩ := hm s hs
  rcases h : m s with ⟨e | a, t⟩
  · rw [bind_of_error h]
    rw [h] at hkept
    exact ⟨hkept, nofun⟩
  · rw [bind_of_ok h]
    rw [h] at hkept
    have ht := hreturns a t h
    obtain ⟨hkept', hreturns'⟩ := hf a t (hpre s t hs ht)
    exact ⟨trans_of R hkept hkept', fun b u hrun => hpost s t u hs ht (hreturns' b u hrun)⟩

end Within

end Act
