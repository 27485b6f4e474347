import Mathlib.Data.List.Basic
import Mathlib.Tactic.Common
import Mathlib.Tactic.IntervalCases

/-!
# Decimal text in C

`strtoul` for a base or with the base taken from the text, `%lu` and `%0wlu`, and the round
trips between them.
-/

namespace Decimal

def ulongMax : ℕ := 2 ^ 64 - 1

def isSpace (c : Char) : Bool := c == ' ' || (9 ≤ c.toNat && c.toNat ≤ 13)

/-- The value of a character as a digit, 36 for one that is no digit in any base. -/
def charValue (c : Char) : ℕ :=
  if c.isDigit then c.toNat - 48
  else if 'a' ≤ c ∧ c ≤ 'z' then c.toNat - 87
  else if 'A' ≤ c ∧ c ≤ 'Z' then c.toNat - 55
  else 36

/-- The digits at the head of a text, as a number. -/
def number (base : ℕ) (s : List Char) : ℕ :=
  (s.takeWhile fun c => decide (charValue c < base)).foldl (fun v c => base * v + charValue c) 0

/-- The base that a text announces. -/
def radix : List Char → ℕ × List Char
  | '0' :: x :: c :: rest =>
      if (x = 'x' ∨ x = 'X') ∧ charValue c < 16 then (16, c :: rest) else (8, '0' :: x :: c :: rest)
  | '0' :: rest => (8, '0' :: rest)
  | s => (10, s)

/-- The number at the head of a text without a sign; base 0 takes the base from the text. -/
def magnitude (base : ℕ) (t : List Char) : ℕ :=
  if base = 0 then number (radix t).1 (radix t).2 else number base t

/-- An `unsigned long`, or its largest value where the number does not fit. -/
def toUlong (negative : Bool) (v : ℕ) : ℕ :=
  if ulongMax < v then ulongMax else if negative then (2 ^ 64 - v) % 2 ^ 64 else v

def strtoul (base : ℕ) (s : List Char) : ℕ :=
  match s.dropWhile isSpace with
  | '-' :: t => toUlong true (magnitude base t)
  | '+' :: t => toUlong false (magnitude base t)
  | t => toUlong false (magnitude base t)

theorem toUlong_le (negative : Bool) (v : ℕ) : toUlong negative v ≤ ulongMax := by
  unfold toUlong
  split
  · exact le_rfl
  · rename_i hfits
    split
    · exact Nat.le_of_lt_succ (Nat.mod_lt _ (by decide))
    · exact Nat.not_lt.mp hfits

theorem strtoul_le (base : ℕ) (text : List Char) : strtoul base text ≤ ulongMax := by
  unfold strtoul
  split <;> apply toUlong_le

/-- `%lu`. -/
def decimal (n : ℕ) : List Char := Nat.toDigits 10 n

/-- `%0wlu`. -/
def padded (width n : ℕ) : List Char :=
  List.replicate (width - (decimal n).length) '0' ++ decimal n

/-! ## Reading back what was printed -/

theorem isDigit_of_mem_decimal {n : ℕ} {c : Char} (h : c ∈ decimal n) : c.isDigit = true :=
  Nat.isDigit_of_mem_toDigits (by decide) (by decide) h

theorem isDigit_of_mem_padded {width n : ℕ} {c : Char} (h : c ∈ padded width n) :
    c.isDigit = true := by
  rcases List.mem_append.mp h with hzero | hdigit
  · rw [List.eq_of_mem_replicate hzero]
    rfl
  · exact isDigit_of_mem_decimal hdigit

theorem decimal_ne_nil (n : ℕ) : decimal n ≠ [] := Nat.toDigits_ne_nil

theorem charValue_of_isDigit {c : Char} (h : c.isDigit = true) : charValue c = c.toNat - 48 := by
  rw [charValue, if_pos h]

theorem charValue_lt_of_isDigit {c : Char} (h : c.isDigit = true) : charValue c < 10 := by
  rw [charValue_of_isDigit h]
  have hle : c.toNat ≤ 57 := by
    simp only [Char.isDigit, Bool.and_eq_true, decide_eq_true_eq] at h
    exact h.2
  omega

/-- The text goes on with something that is no decimal digit. -/
def Ends (rest : List Char) : Prop := ∀ c ∈ rest.head?, ¬ charValue c < 10

theorem number_ten {digits rest : List Char} (hdigits : ∀ c ∈ digits, c.isDigit = true)
    (hrest : Ends rest) : number 10 (digits ++ rest) = Nat.ofDigitChars 10 digits 0 := by
  have hall : ∀ c ∈ digits, decide (charValue c < 10) = true :=
    fun c hc => decide_eq_true (charValue_lt_of_isDigit (hdigits c hc))
  have hstop : rest.takeWhile (fun c => decide (charValue c < 10)) = [] := by
    cases rest with
    | nil => rfl
    | cons c rest => rw [List.takeWhile_cons_of_neg (by simpa using hrest c rfl)]
  rw [number, List.takeWhile_append_of_pos hall, hstop, List.append_nil,
    Nat.ofDigitChars_eq_foldl]
  refine List.foldl_ext _ _ _ fun v c hc => ?_
  rw [charValue_of_isDigit (hdigits c hc)]
  rfl

theorem number_decimal {rest : List Char} (n : ℕ) (hrest : Ends rest) :
    number 10 (decimal n ++ rest) = n := by
  rw [number_ten (fun _ => isDigit_of_mem_decimal) hrest]
  exact Nat.ofDigitChars_ten_toDigits

theorem number_padded (width n : ℕ) : number 10 (padded width n) = n := by
  have hten : number 10 (padded width n ++ []) = Nat.ofDigitChars 10 (padded width n) 0 :=
    number_ten (fun _ => isDigit_of_mem_padded) nofun
  rw [List.append_nil] at hten
  rw [hten, padded, Nat.ofDigitChars_append, Nat.ofDigitChars_replicate_zero, Nat.mul_zero]
  exact Nat.ofDigitChars_ten_toDigits

theorem padded_injective (width : ℕ) : Function.Injective (padded width) :=
  Function.LeftInverse.injective (number_padded width)

theorem isSpace_of_isDigit {c : Char} (hc : c.isDigit = true) : isSpace c = false := by
  have hle : 48 ≤ c.toNat := by
    simp only [Char.isDigit, Bool.and_eq_true, decide_eq_true_eq] at hc
    exact hc.1
  have hne : c ≠ ' ' := by
    rintro rfl
    exact absurd hle (by decide)
  simp only [isSpace, Bool.or_eq_false_iff, beq_eq_false_iff_ne, Bool.and_eq_false_iff,
    decide_eq_false_iff_not]
  exact ⟨hne, Or.inr (by omega)⟩

theorem strtoul_of_digit {base : ℕ} {c : Char} {t : List Char} (hc : c.isDigit = true)
    (hmax : magnitude base (c :: t) ≤ ulongMax) :
    strtoul base (c :: t) = magnitude base (c :: t) := by
  have hspace := isSpace_of_isDigit hc
  have hdrop : (c :: t).dropWhile isSpace = c :: t := by
    rw [List.dropWhile_cons_of_neg (by simp [hspace])]
  unfold strtoul
  rw [hdrop]
  split
  · rename_i heq
    obtain ⟨rfl, rfl⟩ := List.cons.inj heq
    cases hc
  · rename_i heq
    obtain ⟨rfl, rfl⟩ := List.cons.inj heq
    cases hc
  · simp [toUlong, Nat.not_lt.mpr hmax]

theorem strtoul_ten_decimal {n : ℕ} (hmax : n ≤ ulongMax) {rest : List Char} (hrest : Ends rest) :
    strtoul 10 (decimal n ++ rest) = n := by
  have hnumber := number_decimal n hrest
  have hmem : ∀ c ∈ decimal n, c.isDigit = true := fun _ => isDigit_of_mem_decimal
  cases hdec : decimal n with
  | nil => exact absurd hdec (decimal_ne_nil n)
  | cons c t =>
      rw [hdec] at hnumber hmem
      have hten : magnitude 10 (c :: (t ++ rest)) = n := hnumber
      rw [List.cons_append, strtoul_of_digit (hmem c List.mem_cons_self) (hten ▸ hmax), hten]

/-- A positive number is not printed with a leading 0. -/
theorem head_decimal_ne_zero {n : ℕ} (hpos : 0 < n) {t : List Char} : decimal n ≠ '0' :: t := by
  intro h
  induction n using Nat.strongRecOn generalizing t with
  | ind n ih =>
      rw [decimal, Nat.toDigits_eq_if (by decide)] at h
      split at h
      · rename_i hlt
        have hn : n.digitChar = '0' := (List.cons.inj h).1
        interval_cases n <;> cases hn
      · rename_i hge
        have hne : decimal (n / 10) ≠ [] := decimal_ne_nil _
        cases hdec : decimal (n / 10) with
        | nil => exact hne hdec
        | cons c rest =>
            have hcons : decimal (n / 10) ++ [(n % 10).digitChar] = '0' :: t := h
            rw [hdec, List.cons_append] at hcons
            obtain ⟨rfl, -⟩ := List.cons.inj hcons
            exact ih (n / 10) (by omega) (by omega) hdec

/-- With the base taken from the text a number that was printed in decimal is read as such. -/
theorem strtoul_zero_decimal {n : ℕ} (hmax : n ≤ ulongMax) : strtoul 0 (decimal n) = n := by
  have hnumber : number 10 (decimal n ++ []) = n := number_decimal n nofun
  rw [List.append_nil] at hnumber
  have hmem : ∀ c ∈ decimal n, c.isDigit = true := fun _ => isDigit_of_mem_decimal
  rcases Nat.eq_zero_or_pos n with rfl | hpos
  · rfl
  cases hdec : decimal n with
  | nil => exact absurd hdec (decimal_ne_nil n)
  | cons c t =>
      have hne : c ≠ '0' := fun heq => head_decimal_ne_zero hpos (heq ▸ hdec)
      have hradix : radix (c :: t) = (10, c :: t) := by
        unfold radix
        split
        · rename_i heq
          exact absurd (List.cons.inj heq).1 hne
        · rename_i heq
          exact absurd (List.cons.inj heq).1 hne
        · rfl
      rw [hdec] at hnumber hmem
      have hzero : magnitude 0 (c :: t) = n := by
        rw [magnitude, if_pos rfl, hradix]
        exact hnumber
      rw [strtoul_of_digit (hmem c List.mem_cons_self) (hzero ▸ hmax), hzero]

end Decimal
