import Mathlib.Data.Nat.Bitwise

/-!
# Bit masks of naturals
-/

namespace Masks

variable {a b m w x : ℕ}

/-- Numbers without a bit in common add up without a carry. -/
theorem add_eq_or (h : a &&& b = 0) : a + b = a ||| b := by
  induction a using Nat.strongRecOn generalizing b with
  | ind a ih =>
      rcases Nat.eq_zero_or_pos a with rfl | hpos
      · rw [Nat.zero_add, Nat.zero_or]
      · have hhalf := ih (a / 2) (Nat.div_lt_self hpos (by decide)) (b := b / 2) (by
          rw [← Nat.and_div_two, h])
        have hlow : (a &&& b) % 2 = 0 := by rw [h]
        have hor := Nat.or_div_two (a := a) (b := b)
        have hbit := Nat.or_mod_two_eq_one (a := a) (b := b)
        have hand := Nat.and_mod_two_eq_one (a := a) (b := b)
        omega

/-- A mask and its complement divide the bits of a word. -/
theorem and_add_and_rest (hx : x < 2 ^ w) (hm : m < 2 ^ w) :
    (x &&& m) + (x &&& (2 ^ w - (m + 1))) = x := by
  have hrest : ∀ i, (2 ^ w - (m + 1)).testBit i = (decide (i < w) && !m.testBit i) :=
    fun i => Nat.testBit_two_pow_sub_succ hm i
  rw [add_eq_or]
  · refine Nat.eq_of_testBit_eq fun i => ?_
    have hhigh : ¬i < w → x.testBit i = false := fun hge =>
      Nat.testBit_lt_two_pow (hx.trans_le (Nat.pow_le_pow_right (by decide) (Nat.le_of_not_lt hge)))
    rw [Nat.testBit_or, Nat.testBit_and, Nat.testBit_and, hrest]
    by_cases hi : i < w
    · cases x.testBit i <;> cases m.testBit i <;> simp [hi]
    · simp [hhigh hi]
  · refine Nat.eq_of_testBit_eq fun i => ?_
    rw [Nat.testBit_and, Nat.testBit_and, Nat.testBit_and, hrest, Nat.zero_testBit]
    cases m.testBit i <;> simp

/-- A sum that has all the bits of a summand has none of them from the other. -/
theorem and_eq_zero_of_add (h : (a + m) &&& m = m) : a &&& m = 0 := by
  have hdisjoint : ((a + m) ^^^ m) &&& m = 0 := by
    rw [Nat.and_xor_distrib_right, h, Nat.and_self, Nat.xor_self]
  have hsum : ((a + m) ^^^ m) + m = a + m := by
    rw [add_eq_or hdisjoint]
    refine Nat.eq_of_testBit_eq fun i => ?_
    have hbit := congrArg (Nat.testBit · i) h
    simp only [Nat.testBit_and] at hbit
    rw [Nat.testBit_or, Nat.testBit_xor]
    revert hbit
    cases (a + m).testBit i <;> cases m.testBit i <;> simp
  rw [← Nat.add_right_cancel hsum]
  exact hdisjoint

/-- The low bits of a sum, where one summand has only high ones. -/
theorem low_and_add {k : ℕ} (h : 2 ^ k ∣ a) : ((a + m) &&& m) % 2 ^ k = m % 2 ^ k := by
  rw [Nat.and_mod_two_pow, Nat.add_mod, Nat.mod_eq_zero_of_dvd h, Nat.zero_add, Nat.mod_mod,
    Nat.and_self]

end Masks
