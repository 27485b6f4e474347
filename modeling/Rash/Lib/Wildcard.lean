import Mathlib.Data.List.Infix

/-!
# Patterns with one kind of wildcard

Patterns of tokens that each take one letter and of stars that take any number of them, over
any alphabet.  A matcher that never goes back behind a star it has passed loses no match: the
leftmost place where the tokens between two stars fit is as good as every later one.
-/

namespace Wildcard

variable {α : Type*}

inductive Token (α : Type*)
  | star
  | one (accepts : α → Bool)

/-- The pattern takes a beginning of the string and leaves a rest that `stop` allows. -/
def Accepts (stop : List α → Prop) : List (Token α) → List α → Prop
  | [], s => stop s
  | .star :: p, s => ∃ t, t <:+ s ∧ Accepts stop p t
  | .one _ :: _, [] => False
  | .one f :: p, x :: s => f x = true ∧ Accepts stop p s

instance Accepts.decidable {stop : List α → Prop} [DecidablePred stop] :
    (p : List (Token α)) → (s : List α) → Decidable (Accepts stop p s)
  | [], s => inferInstanceAs (Decidable (stop s))
  | .star :: p, s =>
      have : DecidablePred (Accepts stop p) := Accepts.decidable p
      decidable_of_iff (∃ t ∈ s.tails, Accepts stop p t) (by simp [Accepts])
  | .one _ :: _, [] => isFalse id
  | .one f :: p, x :: s =>
      have : Decidable (Accepts stop p s) := Accepts.decidable p s
      inferInstanceAs (Decidable (f x = true ∧ Accepts stop p s))

variable {stop : List α → Prop} {p : List (Token α)} {s t : List α}

@[simp] theorem accepts_one_cons (f : α → Bool) (x : α) :
    Accepts stop (.one f :: p) (x :: s) ↔ f x = true ∧ Accepts stop p s := Iff.rfl

@[simp] theorem not_accepts_one_nil (f : α → Bool) : ¬ Accepts stop (.one f :: p) [] := id

theorem Accepts.of_suffix (h : Accepts stop (.star :: p) t) (hts : t <:+ s) :
    Accepts stop (.star :: p) s := by
  obtain ⟨u, hu, hp⟩ := h
  exact ⟨u, hu.trans hts, hp⟩

theorem accepts_star_star :
    Accepts stop (.star :: .star :: p) s ↔ Accepts stop (.star :: p) s := by
  constructor
  · rintro ⟨t, hts, h⟩
    exact h.of_suffix hts
  · intro h
    exact ⟨s, List.suffix_refl s, h⟩

theorem accepts_star_nil (hstop : stop []) : Accepts stop [.star] s :=
  ⟨[], List.nil_suffix, hstop⟩

/-- A star and a token that takes every letter may change places. -/
theorem accepts_star_one {f : α → Bool} (hf : ∀ x, f x = true) {x : α} :
    Accepts stop (.star :: .one f :: p) (x :: s) ↔ Accepts stop (.star :: p) s := by
  constructor
  · rintro ⟨t, hts, h⟩
    cases t with
    | nil => exact absurd h (not_accepts_one_nil f)
    | cons y t =>
        refine ⟨t, ?_, h.2⟩
        rcases List.suffix_cons_iff.mp hts with heq | hsub
        · rw [List.tail_eq_of_cons_eq heq]
        · exact (List.suffix_cons y t).trans hsub
  · rintro ⟨t, ⟨front, rfl⟩, h⟩
    -- the token takes the letter before `t`
    rcases List.eq_nil_or_concat front with rfl | ⟨front, y, rfl⟩
    · exact ⟨x :: t, List.suffix_refl _, hf x, h⟩
    · exact ⟨y :: t, ⟨x :: front, by simp⟩, hf y, h⟩

theorem not_accepts_star_one_nil (f : α → Bool) : ¬ Accepts stop (.star :: .one f :: p) [] := by
  rintro ⟨t, hts, h⟩
  obtain rfl := List.suffix_nil.mp hts
  exact not_accepts_one_nil f h

/-- The tokens up to the first star, and the pattern from that star on. -/
def segment : List (Token α) → List (α → Bool) × List (Token α)
  | [] => ([], [])
  | .star :: p => ([], .star :: p)
  | .one f :: p => (f :: (segment p).1, (segment p).2)

/-- The tokens take the first letters of the string, one each. -/
def Fits : List (α → Bool) → List α → Prop
  | [], _ => True
  | _ :: _, [] => False
  | f :: seg, x :: s => f x = true ∧ Fits seg s

theorem accepts_segment :
    Accepts stop p s ↔
      Fits (segment p).1 s ∧ Accepts stop (segment p).2 (s.drop (segment p).1.length) := by
  induction p generalizing s with
  | nil => simp [segment, Fits]
  | cons token p ih =>
      cases token with
      | star => simp [segment, Fits]
      | one f =>
          cases s with
          | nil => simp [segment, Fits]
          | cons x s =>
              simp only [accepts_one_cons, segment, Fits, List.length_cons,
                List.drop_succ_cons, and_assoc]
              rw [ih]

/-- The leftmost place where the tokens behind a star fit, up to the next star, decides. -/
theorem accepts_star_leftmost {q : List (Token α)} (hrest : (segment p).2 = .star :: q)
    (hts : t <:+ s) (hfits : Fits (segment p).1 t)
    (hleftmost : ∀ u, u <:+ s → t.length < u.length → ¬ Fits (segment p).1 u) :
    Accepts stop (.star :: p) s ↔
      Accepts stop (.star :: q) (t.drop (segment p).1.length) := by
  constructor
  · rintro ⟨u, hus, hu⟩
    rw [accepts_segment, hrest] at hu
    have hle : u.length ≤ t.length := by
      by_contra hlt
      exact hleftmost u hus (Nat.lt_of_not_le hlt) hu.1
    have hut : u <:+ t := List.suffix_of_suffix_length_le hus hts hle
    refine hu.2.of_suffix (List.suffix_of_suffix_length_le
      ((List.drop_suffix _ u).trans hut) (List.drop_suffix _ t) ?_)
    simp only [List.length_drop]
    omega
  · intro h
    refine ⟨t, hts, ?_⟩
    rw [accepts_segment, hrest]
    exact ⟨hfits, h⟩

end Wildcard
