import Rash.Cond.TestSound

/-!
# test ends

The fuel is enough for every argument vector: five calls for each argument that is left.
-/

namespace Rash

namespace TestCommand

namespace Args

variable {σ : Type} {sh : Shell σ} {a : Args} {pos fuel : ℕ} {s : σ} {x : Bool × ℕ × σ}

theorem unaryOperator_ge (h : a.unaryOperator sh pos s = .ok x) : pos ≤ x.2.1 := by
  rw [unaryOperator] at h
  split_ifs at h
  · cases h
    exact Nat.le_refl pos
  all_goals
    obtain ⟨-, hpos⟩ := ofTest_eq_ok.mp h
    omega

theorem unaryOperator_gt (hop : testUnop (a.arg pos) = true) (h : a.unaryOperator sh pos s = .ok x) :
    pos < x.2.1 := by
  rw [unaryOperator] at h
  simp only [hop, Bool.not_true, Bool.false_eq_true, if_false] at h
  split_ifs at h
  all_goals
    obtain ⟨-, hpos⟩ := ofTest_eq_ok.mp h
    omega

theorem binaryOperator_gt (h : a.binaryOperator sh pos s = .ok x) : pos < x.2.1 := by
  rw [binaryOperator] at h
  split_ifs at h
  obtain ⟨-, hpos⟩ := ofTest_eq_ok.mp h
  omega

theorem twoArguments_ge (h : a.twoArguments sh pos s = .ok x) : pos ≤ x.2.1 := by
  rw [twoArguments] at h
  split_ifs at h
  · cases h
    exact Nat.le_add_right pos 2
  · exact unaryOperator_ge h

theorem threeArguments_ge (h : a.threeArguments sh pos s = .ok x) : pos ≤ x.2.1 := by
  rw [threeArguments] at h
  split_ifs at h
  · exact Nat.le_of_lt (binaryOperator_gt h)
  · cases h
    exact Nat.le_add_right pos 3
  · cases h
    exact Nat.le_add_right pos 3
  · have htwo := twoArguments_ge (negate_eq_ok.mp h)
    exact Nat.le_of_succ_le htwo
  · cases h
    exact Nat.le_add_right pos 3

/-- There is a result, behind the position where it is a value. -/
def Ends (pos : ℕ) (r : Option (Reading σ)) : Prop :=
  ∃ y, r = some y ∧ ∀ x, y = .ok x → pos < x.2.1

theorem Ends.andThen {r : Option (Reading σ)} {f : Bool → ℕ → σ → Option (Reading σ)} {p : ℕ}
    (h : ∃ y, r = some y ∧ ∀ x, y = .ok x → p ≤ x.2.1)
    (hf : ∀ value q s, p ≤ q → Ends pos (f value q s)) : Ends pos (TestCommand.andThen r f) := by
  obtain ⟨y, rfl, hy⟩ := h
  cases y with
  | error e => exact ⟨_, rfl, fun _ hx => by cases hx⟩
  | ok x => exact hf x.1 x.2.1 x.2.2 (hy x rfl)

theorem Ends.error (e : TestError) : Ends pos (some (.error e : Reading σ)) :=
  ⟨_, rfl, fun _ hx => by cases hx⟩

theorem Ends.ok {value : Bool} {p : ℕ} (h : pos < p) : Ends pos (some (.ok (value, p, s))) :=
  ⟨_, rfl, fun x hx => by cases hx; exact h⟩

theorem Ends.negate {r : Option (Reading σ)} (h : Ends pos r) : Ends pos (r.map negate) := by
  obtain ⟨y, rfl, hy⟩ := h
  refine ⟨_, rfl, fun x hx => ?_⟩
  have hlt := hy _ (negate_eq_ok.mp hx)
  exact hlt

theorem Ends.mono {p : ℕ} {r : Option (Reading σ)} (h : Ends p r) (hp : pos ≤ p) : Ends pos r := by
  obtain ⟨y, rfl, hy⟩ := h
  exact ⟨y, rfl, fun x hx => Nat.lt_of_le_of_lt hp (hy x hx)⟩

/-- With so much fuel the five functions end. -/
structure Total (sh : Shell σ) (a : Args) (fuel : ℕ) : Prop where
  expr : ∀ pos s, 5 * (a.argc - pos) + 4 ≤ fuel → Ends pos (a.expr sh fuel pos s)
  or : ∀ pos s, 5 * (a.argc - pos) + 3 ≤ fuel → Ends pos (a.or sh fuel pos s)
  and : ∀ pos s, 5 * (a.argc - pos) + 2 ≤ fuel → Ends pos (a.and sh fuel pos s)
  term : ∀ pos s, 5 * (a.argc - pos) + 1 ≤ fuel → Ends pos (a.term sh fuel pos s)
  posixtest : ∀ nargs pos s, 5 * (a.argc - pos) + 5 ≤ fuel →
    ∃ y, a.posixtest sh fuel nargs pos s = some y ∧ ∀ x, y = .ok x → pos ≤ x.2.1

theorem Ends.le {r : Option (Reading σ)} (h : Ends pos r) :
    ∃ y, r = some y ∧ ∀ x, y = .ok x → pos ≤ x.2.1 := by
  obtain ⟨y, hy, hlt⟩ := h
  exact ⟨y, hy, fun x hx => Nat.le_of_lt (hlt x hx)⟩

/-- An operand, and what may follow it. -/
theorem Ends.connective {r : Option (Reading σ)} {rest : ℕ → σ → Option (Reading σ)} {op : String}
    {f : Bool → Bool → Bool} (h : Ends pos r) (hrest : ∀ q s, pos < q → q < a.argc →
      Ends (q + 1) (rest (q + 1) s)) :
    Ends pos (TestCommand.andThen r fun value pos s =>
      if pos < a.argc ∧ a.arg pos = op then
        TestCommand.andThen (rest (pos + 1) s) fun v2 pos s => some (.ok (f value v2, pos, s))
      else some (.ok (value, pos, s))) := by
  obtain ⟨y, rfl, hy⟩ := h
  cases y with
  | error e => exact Ends.error e
  | ok x =>
      obtain ⟨value, q, s⟩ := x
      have hq : pos < q := hy _ rfl
      change Ends pos (if _ then _ else _)
      split
      · next hconn =>
          refine Ends.andThen (hrest q s hq hconn.1).le fun v2 q' s' hq' => Ends.ok ?_
          omega
      · exact Ends.ok hq

theorem total_term (h : Total sh a fuel) (hfuel : 5 * (a.argc - pos) + 1 ≤ fuel + 1) :
    Ends pos (a.term sh (fuel + 1) pos s) := by
  rw [Args.term]
  by_cases hbeyond : pos ≥ a.argc
  · rw [if_pos hbeyond]
    exact Ends.error _
  rw [if_neg hbeyond]
  by_cases hnot : a.arg pos = "!"
  · rw [if_pos hnot]
    cases hnots : leadingNots (a.argv.drop pos) pos false with
    | error e => exact Ends.error e
    | ok r =>
        obtain ⟨value, p⟩ := r
        obtain ⟨n, rfl, -, -, -, hhead⟩ := leadingNots_eq_ok hnots
        have hn : n ≠ 0 := by
          rintro rfl
          rw [List.drop_zero, drop_eq (by omega), hnot] at hhead
          exact hhead rfl
        have hterm : Ends pos (a.term sh fuel (pos + n) s) :=
          (h.term (pos + n) s (by omega)).mono (by omega)
        change Ends pos (if value = true then _ else _)
        split
        · exact hterm.negate
        · exact hterm
  rw [if_neg hnot]
  by_cases hparen : a.arg pos = "("
  · rw [if_pos hparen]
    by_cases hend : pos + 1 ≥ a.argc
    · rw [if_pos hend]
      exact Ends.error _
    rw [if_neg hend]
    refine Ends.andThen (p := pos + 1) ?_ fun value q s₁ hq => ?_
    · split
      · exact h.posixtest _ _ _ (by omega)
      · exact (h.expr _ _ (by omega)).le
    · split_ifs
      · exact Ends.error _
      · exact Ends.error _
      · exact Ends.ok (by omega)
  rw [if_neg hparen]
  split_ifs with hbinary hunary
  · exact ⟨_, rfl, fun x hx => binaryOperator_gt hx⟩
  · exact ⟨_, rfl, fun x hx => unaryOperator_gt hunary.2 hx⟩
  · exact Ends.ok (Nat.lt_succ_self pos)

theorem total_posixtest (h : Total sh a fuel) (nargs : ℕ)
    (hfuel : 5 * (a.argc - pos) + 5 ≤ fuel + 1) :
    ∃ y, a.posixtest sh (fuel + 1) nargs pos s = some y ∧ ∀ x, y = .ok x → pos ≤ x.2.1 := by
  have hexpr : ∃ y, a.expr sh fuel pos s = some y ∧ ∀ x, y = .ok x → pos ≤ x.2.1 :=
    (h.expr pos s (by omega)).le
  obtain rfl | rfl | rfl | rfl | rfl | hbig : nargs = 0 ∨ nargs = 1 ∨ nargs = 2 ∨ nargs = 3 ∨
      nargs = 4 ∨ 4 < nargs := by omega
  · rw [Args.posixtest]
    exact ⟨_, rfl, fun x hx => by cases hx; exact Nat.le_refl pos⟩
  · rw [Args.posixtest]
    exact ⟨_, rfl, fun x hx => by cases hx; exact Nat.le_add_right pos 1⟩
  · rw [Args.posixtest]
    exact ⟨_, rfl, fun x hx => twoArguments_ge hx⟩
  · rw [Args.posixtest]
    exact ⟨_, rfl, fun x hx => threeArguments_ge hx⟩
  · rw [Args.posixtest]
    split_ifs
    · exact (Ends.error _).le
    · refine ⟨_, rfl, fun x hx => ?_⟩
      have hthree := threeArguments_ge (negate_eq_ok.mp hx)
      exact Nat.le_of_succ_le hthree
    · exact (Ends.error _).le
    · refine (Ends.andThen ⟨_, rfl, fun x hx => twoArguments_ge hx⟩ fun value q s₁ hq => ?_).le
      exact Ends.ok (by omega)
    · exact hexpr
  · rw [Args.posixtest]
    · exact hexpr
    all_goals omega

theorem total : ∀ fuel, Total sh a fuel
  | 0 =>
      ⟨fun _ _ h => (by omega), fun _ _ h => (by omega), fun _ _ h => (by omega),
        fun _ _ h => (by omega), fun _ _ _ h => (by omega)⟩
  | fuel + 1 => by
      have ih : Total sh a fuel := total fuel
      refine ⟨fun pos s hfuel => ?_, fun pos s hfuel => ?_, fun pos s hfuel => ?_,
        fun pos s hfuel => total_term ih hfuel, fun nargs pos s hfuel => total_posixtest ih nargs hfuel⟩
      · rw [Args.expr]
        split
        · exact Ends.error _
        · exact ih.or pos s (by omega)
      · rw [Args.or]
        exact Ends.connective (ih.and pos s (by omega)) fun q s₁ hq hlt => ih.or (q + 1) s₁ (by omega)
      · rw [Args.and]
        exact Ends.connective (ih.term pos s (by omega)) fun q s₁ hq hlt => ih.and (q + 1) s₁ (by omega)

/-- The builtin has a result for every argument vector. -/
theorem run_total (a : Args) (s : σ) : ∃ r, a.run sh s = some r := by
  rw [run]
  split
  · exact ⟨_, rfl⟩
  · have htotal : Total sh a (5 * a.argc + 5) := total _
    obtain ⟨y, hy, -⟩ := htotal.posixtest (a.argc - 1) 1 s (by omega)
    rw [hy]
    rcases y with e | ⟨value, p, s₁⟩
    · exact ⟨_, rfl⟩
    · simp only
      split_ifs <;> exact ⟨_, rfl⟩

end Args

end TestCommand

end Rash
