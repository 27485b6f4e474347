import Mathlib
import Rash.Arith.Primitives

/-!
# Numerals

What `strlong` makes of the text of a number: the grammar of numerals with their values, and the
base that is read from the text with wrapping arithmetic.
-/

namespace Rash

namespace Numerals

/-- The value of a digit: the cases of letters are interchangeable in bases up to 36. -/
def digitValue (base : ℕ) (c : Char) : Option ℕ :=
  if c.isDigit then some (c.toNat - '0'.toNat)
  else if 'a' ≤ c ∧ c ≤ 'z' then some (c.toNat - 'a'.toNat + 10)
  else if 'A' ≤ c ∧ c ≤ 'Z' then some (c.toNat - 'A'.toNat + if base ≤ 36 then 10 else 36)
  else if c = '@' then some 62
  else if c = '_' then some 63
  else none

/-- The value of a digit in a base. -/
def digitIn (base : ℕ) (c : Char) : Option ℕ := (digitValue base c).filter (· < base)

/-- The text is a sequence of digits in the base, with this value. -/
inductive Digits (base : ℕ) : List Char → ℕ → Prop
  | intro {text : List Char} {digits : List ℕ} (h : text.mapM (digitIn base) = some digits) :
      Digits base text (Nat.ofDigits base digits.reverse)

/-- A decimal number: one that begins with 0 would be octal. -/
inductive DecimalNumber : List Char → ℕ → Prop
  | intro {text : List Char} {v : ℕ} (hne : text ≠ []) (hzero : text.head? ≠ some '0')
      (h : Digits 10 text v) : DecimalNumber text v

/-- The numerals, with their values. -/
inductive Numeral : List Char → ℕ → Prop
  | decimal {text : List Char} {v : ℕ} (h : DecimalNumber text v) : Numeral text v
  | octal {text : List Char} {v : ℕ} (h : Digits 8 text v) : Numeral ('0' :: text) v
  | hexadecimal {x : Char} {text : List Char} {v : ℕ} (hx : x = 'x' ∨ x = 'X')
      (h : Digits 16 text v) : Numeral ('0' :: x :: text) v
  | based {number text : List Char} {base v : ℕ} (hnumber : DecimalNumber number base)
      (hlow : 2 ≤ base) (hhigh : base ≤ 64) (hne : text ≠ []) (h : Digits base text v) :
      Numeral (number ++ '#' :: text) v

/-- Digits after a base that is too large, but is a base in 64 bits. -/
def WrapsBase (text : List Char) : Prop :=
  ∃ number base digits v, text = number ++ '#' :: digits ∧ DecimalNumber number base ∧ 64 < base ∧
    2 ≤ base % 2 ^ 64 ∧ base % 2 ^ 64 ≤ 64 ∧ digits ≠ [] ∧ Digits (base % 2 ^ 64) digits v

/-! ## Digits, one by one -/

/-- The number that digits continue. -/
def accumulate (base : ℕ) (v : ℕ) (digits : List ℕ) : ℕ := digits.foldl (fun v d => v * base + d) v

theorem accumulate_eq (base v : ℕ) (digits : List ℕ) :
    accumulate base v digits = v * base ^ digits.length + Nat.ofDigits base digits.reverse := by
  induction digits generalizing v with
  | nil => simp [accumulate]
  | cons d digits ih =>
      have hstep : accumulate base v (d :: digits) = accumulate base (v * base + d) digits := rfl
      rw [hstep, ih, List.reverse_cons, Nat.ofDigits_append, Nat.ofDigits_singleton,
        List.length_reverse, List.length_cons]
      ring

theorem accumulate_zero (base : ℕ) (digits : List ℕ) :
    accumulate base 0 digits = Nat.ofDigits base digits.reverse := by
  rw [accumulate_eq, Nat.zero_mul, Nat.zero_add]

@[simp] theorem digitIn_hash (base : ℕ) : digitIn base '#' = none := rfl

theorem mapM_cons (base : ℕ) (c : Char) (text : List Char) :
    (c :: text).mapM (digitIn base) =
      (digitIn base c).bind fun d => (text.mapM (digitIn base)).map (d :: ·) := by
  rw [List.mapM_cons]
  cases digitIn base c <;> cases text.mapM (digitIn base) <;> rfl

theorem Digits.of_accumulate {base v : ℕ} {text : List Char} {digits : List ℕ}
    (h : text.mapM (digitIn base) = some digits) (hv : accumulate base 0 digits = v) :
    Digits base text v := by
  rw [accumulate_zero] at hv
  exact hv ▸ Digits.intro h

theorem Digits.eq_accumulate {base v : ℕ} {text : List Char} (h : Digits base text v) :
    ∃ digits, text.mapM (digitIn base) = some digits ∧ accumulate base 0 digits = v := by
  obtain ⟨h⟩ := h
  exact ⟨_, h, accumulate_zero _ _⟩

theorem Digits.unique {base v v' : ℕ} {text : List Char} (h : Digits base text v)
    (h' : Digits base text v') : v = v' := by
  obtain ⟨digits, hdigits, rfl⟩ := h.eq_accumulate
  obtain ⟨digits', hdigits', rfl⟩ := h'.eq_accumulate
  rw [hdigits] at hdigits'
  rw [Option.some.inj hdigits']

theorem notMem_of_mapM {base : ℕ} {text : List Char} {digits : List ℕ}
    (h : text.mapM (digitIn base) = some digits) : '#' ∉ text := by
  induction text generalizing digits with
  | nil => simp
  | cons c text ih =>
      rw [mapM_cons] at h
      cases hc : digitIn base c with
      | none => simp [hc] at h
      | some d =>
          cases htext : text.mapM (digitIn base) with
          | none => simp [hc, htext] at h
          | some ds =>
              have hne : '#' ≠ c := by
                rintro rfl
                simp at hc
              simpa [hne] using ih htext

theorem DecimalNumber.notMem {text : List Char} {v : ℕ} (h : DecimalNumber text v) : '#' ∉ text := by
  obtain ⟨-, -, ⟨hdigits⟩⟩ := h
  exact notMem_of_mapM hdigits

end Numerals

open Numerals ExprM

namespace ExprWorld

variable {Θ : Type} (w : ExprWorld Θ)

/-- What the token reader hands to `strlong`. -/
structure Lexed (text : List Char) : Prop where
  first : ∃ c rest, text = c :: rest ∧ c.isDigit = true
  chars : ∀ c ∈ text, w.isNumchar c = true ∨ c = '#'

/-- `isalpha`, as far as ASCII goes. -/
def AsciiAlpha : Prop := ∀ c, c.toNat < 128 → w.isAlpha c = c.isAlpha

/-- An error of the evaluation. -/
def Rejects {α : Type} (m : ExprM Θ α) (s : ExprState Θ) : Prop :=
  ∃ expression message token, m s = (.error (.evalerror expression message token), s)

theorem evalerror_rejects {α : Type} (message : String) (s : ExprState Θ) :
    Rejects (evalerror message : ExprM Θ α) s := ⟨_, _, _, rfl⟩

variable {w}

theorem base_le_iff {base : ℕ} (hbase : base ≤ 64) (k : ℕ) (hk : k ≤ 64) :
    Int64.ofNat base ≤ Int64.ofNat k ↔ base ≤ k := by
  rw [Int64.le_iff_toInt_le, Int64.toInt_ofNat_of_lt (by omega), Int64.toInt_ofNat_of_lt (by omega)]
  omega

theorem digitIn_eq (hw : w.AsciiAlpha) {base : ℕ} (hbase : base ≤ 64) {c : Char}
    (hc : w.isNumchar c = true) :
    digitIn base c = if digitOf (Int64.ofNat base) c < base then
      some (digitOf (Int64.ofNat base) c) else none := by
  have hle : Int64.ofNat base ≤ 36 ↔ base ≤ 36 := base_le_iff hbase 36 (by omega)
  suffices hvalue : digitValue base c = some (digitOf (Int64.ofNat base) c) ∨
      digitValue base c = none ∧ 64 ≤ digitOf (Int64.ofNat base) c by
    rcases hvalue with hvalue | ⟨hvalue, hlarge⟩
    · simp [digitIn, hvalue, Option.filter_some]
    · simp only [digitIn, hvalue, Option.filter_none]
      rw [if_neg (by omega)]
  simp only [digitValue, digitOf, Bool.and_eq_true, decide_eq_true_eq, beq_iff_eq, hle]
  have hlow (h : 'a' ≤ c) : 97 ≤ c.toNat := h
  have hup (h : 'A' ≤ c) : 65 ≤ c.toNat := h
  split_ifs with hdigit hlower hupper hcase hat hunderscore
  · exact .inl rfl
  · have := hlow hlower.1
    exact .inl (congrArg some (show c.toNat - 97 + 10 = c.toNat - 87 by omega))
  · have := hup hupper.1
    exact .inl (congrArg some (show c.toNat - 65 + 10 = c.toNat - 55 by omega))
  · have := hup hupper.1
    exact .inl (congrArg some (show c.toNat - 65 + 36 = c.toNat - 29 by omega))
  · exact .inl rfl
  · exact .inl rfl
  · -- a letter of the locale that is not in ASCII
    refine .inr ⟨rfl, ?_⟩
    by_contra hsmall
    have halpha : c.isAlpha = true := by
      rw [← hw c (by omega)]
      simpa [isNumchar, hdigit, hat, hunderscore] using hc
    simp only [Char.isAlpha, Char.isUpper, Char.isLower, Bool.or_eq_true, Bool.and_eq_true,
      decide_eq_true_eq] at halpha
    exact halpha.elim hupper hlower

/-! ## The loop -/

theorem strlongDigits_digit (hw : w.AsciiAlpha) {base : ℕ} (hbase : base ≤ 64) {c : Char}
    (hhash : c ≠ '#') (hc : w.isNumchar c = true) (found : Bool) (val : Int64) (text : List Char) :
    w.strlongDigits (Int64.ofNat base) found val (c :: text) =
      match digitIn base c with
      | some d => w.strlongDigits (Int64.ofNat base) found (val * Int64.ofNat base + Int64.ofNat d) text
      | none => evalerror "value too great for base" := by
  have hint : (Int64.ofNat base).toInt = base := Int64.toInt_ofNat_of_lt (by omega)
  rw [strlongDigits, if_neg hhash, if_pos hc, digitIn_eq hw hbase hc, hint]
  by_cases hlt : digitOf (Int64.ofNat base) c < base
  · rw [if_neg (by omega), if_pos hlt]
  · rw [if_pos (by omega), if_neg hlt]

/-- The digits before the rest of the text. -/
theorem strlongDigits_append (hw : w.AsciiAlpha) {base : ℕ} (hbase : base ≤ 64)
    {text rest : List Char} (hhash : '#' ∉ text) (hchars : ∀ c ∈ text, w.isNumchar c = true)
    (found : Bool) (v : ℕ) (s : ExprState Θ) :
    (∃ digits, text.mapM (digitIn base) = some digits ∧
      w.strlongDigits (Int64.ofNat base) found (Int64.ofNat v) (text ++ rest) =
        w.strlongDigits (Int64.ofNat base) found (Int64.ofNat (accumulate base v digits)) rest) ∨
    text.mapM (digitIn base) = none ∧
      Rejects (w.strlongDigits (Int64.ofNat base) found (Int64.ofNat v) (text ++ rest)) s := by
  induction text generalizing v with
  | nil => exact .inl ⟨[], rfl, rfl⟩
  | cons c text ih =>
      obtain ⟨hne, hhash⟩ := not_or.mp (mt List.mem_cons.mpr hhash)
      have hc := hchars c List.mem_cons_self
      rw [List.cons_append, strlongDigits_digit hw hbase (Ne.symm hne) hc, mapM_cons]
      cases digitIn base c with
      | none => exact .inr ⟨rfl, evalerror_rejects _ _⟩
      | some d =>
          dsimp only
          rw [← Int64.ofNat_mul, ← Int64.ofNat_add]
          rcases ih hhash (fun c hc => hchars c (List.mem_cons_of_mem _ hc)) (v * base + d) with
            ⟨digits, hdigits, heq⟩ | ⟨hnone, hrejects⟩
          · exact .inl ⟨d :: digits, by simp [hdigits], heq⟩
          · exact .inr ⟨by simp [hnone], hrejects⟩

/-- The digits of a base that is known are the whole rest of a numeral. -/
theorem strlongDigits_based (hw : w.AsciiAlpha) {base : ℕ} (hbase : base ≤ 64) {text : List Char}
    (hchars : ∀ c ∈ text, w.isNumchar c = true ∨ c = '#') (s : ExprState Θ) :
    (∃ v, Digits base text v ∧
      w.strlongDigits (Int64.ofNat base) true 0 text s = (.ok (Int64.ofNat v), s)) ∨
    (∀ v, ¬ Digits base text v) ∧ Rejects (w.strlongDigits (Int64.ofNat base) true 0 text) s := by
  have hnumchar (t : List Char) (ht : '#' ∉ t) (hsub : t ⊆ text) : ∀ c ∈ t, w.isNumchar c = true :=
    fun c hc => (hchars c (hsub hc)).resolve_right fun h => ht (h ▸ hc)
  have hnone (h : text.mapM (digitIn base) = none) (v : ℕ) : ¬ Digits base text v := by
    rintro ⟨h'⟩
    simp [h] at h'
  by_cases hhash : '#' ∈ text
  · obtain ⟨number, rest, htext, hnot⟩ := List.eq_append_cons_of_mem hhash
    have hno (v : ℕ) : ¬ Digits base text v := by
      rintro ⟨h⟩
      exact notMem_of_mapM h hhash
    rcases @strlongDigits_append _ _ hw _ hbase _ ('#' :: rest) hnot
      (hnumchar number hnot (by simp [htext])) true 0 s with ⟨digits, -, heq⟩ | ⟨-, hrejects⟩
    · refine .inr ⟨hno, ?_⟩
      rw [htext]
      exact heq ▸ evalerror_rejects _ _
    · exact .inr ⟨hno, htext ▸ hrejects⟩
  · rcases @strlongDigits_append _ _ hw _ hbase _ [] hhash (hnumchar text hhash fun _ h => h) true 0 s
      with ⟨digits, hdigits, heq⟩ | ⟨hmapM, hrejects⟩
    · rw [List.append_nil] at heq
      exact .inl ⟨_, Digits.of_accumulate hdigits rfl, congrFun heq s⟩
    · rw [List.append_nil] at hrejects
      exact .inr ⟨hnone hmapM, hrejects⟩

/-! ## The numerals -/

/-- The text is read as the numeral that it is, or rejected. -/
def StrlongExact (w : ExprWorld Θ) (text : List Char) (s : ExprState Θ) : Prop :=
  (∀ v, Numeral text v → w.strlong text s = (.ok (Int64.ofNat v), s)) ∧
    ((∀ v, ¬ Numeral text v) → Rejects (w.strlong text) s)

theorem StrlongExact.of_rejects {text : List Char} {s : ExprState Θ}
    (hno : ∀ v, ¬ Numeral text v) (h : Rejects (w.strlong text) s) : w.StrlongExact text s :=
  ⟨fun v hv => absurd hv (hno v), fun _ => h⟩

/-- A text with digits of one base. -/
theorem strlongExact_of_digits (hw : w.AsciiAlpha) {base : ℕ} (hbase : base ≤ 64)
    {text digits : List Char} (hchars : ∀ c ∈ digits, w.isNumchar c = true ∨ c = '#')
    (hnumeral : ∀ v, Numeral text v ↔ Digits base digits v)
    (hread : w.strlong text = w.strlongDigits (Int64.ofNat base) true 0 digits)
    (s : ExprState Θ) : w.StrlongExact text s := by
  rcases strlongDigits_based hw hbase hchars s with ⟨v, hv, heq⟩ | ⟨hno, hrejects⟩
  · refine ⟨fun v' hv' => ?_, fun hno => absurd ((hnumeral v).mpr hv) (hno v)⟩
    rw [hread, heq, Digits.unique ((hnumeral v').mp hv') hv]
  · exact .of_rejects (fun v hv => hno v ((hnumeral v).mp hv)) (hread ▸ hrejects)

theorem numeral_zero {text : List Char} {v : ℕ} (h : Numeral ('0' :: text) v) :
    Digits 8 text v ∨ ∃ x rest, (x = 'x' ∨ x = 'X') ∧ text = x :: rest ∧ Digits 16 rest v := by
  generalize htext : '0' :: text = t at h
  cases h with
  | decimal h =>
      obtain ⟨-, hzero, -⟩ := h
      exact absurd (by rw [← htext]; rfl) hzero
  | octal h => exact .inl ((List.cons.inj htext).2 ▸ h)
  | hexadecimal hx h => exact .inr ⟨_, _, hx, (List.cons.inj htext).2, h⟩
  | @based number digits base v hnumber =>
      obtain ⟨hne, hzero, -⟩ := hnumber
      cases number with
      | nil => exact absurd rfl hne
      | cons c number => exact absurd (congrArg some (List.cons.inj htext).1.symm) hzero

theorem hash_split {number number' digits digits' : List Char} (h : '#' ∉ number)
    (h' : '#' ∉ number') (heq : number ++ '#' :: digits = number' ++ '#' :: digits') :
    number = number' ∧ digits = digits' := by
  have htake (t : List Char) (ht : '#' ∉ t) (rest : List Char) :
      (t ++ '#' :: rest).takeWhile (· ≠ '#') = t := by
    rw [List.takeWhile_append_of_pos fun c hc => by
      simpa using fun h : c = '#' => ht (h ▸ hc)]
    simp
  have hnumber : number = number' := by
    rw [← htake number h digits, heq, htake number' h' digits']
  subst hnumber
  exact ⟨rfl, (List.cons.inj (List.append_cancel_left heq)).2⟩

theorem numeral_hash {number digits : List Char} {v : ℕ} (hhash : '#' ∉ number)
    (hne : number ≠ []) (hzero : number.head? ≠ some '0') (h : Numeral (number ++ '#' :: digits) v) :
    ∃ base, DecimalNumber number base ∧ 2 ≤ base ∧ base ≤ 64 ∧ digits ≠ [] ∧
      Digits base digits v := by
  generalize htext : number ++ '#' :: digits = t at h
  have hhead : t.head? = number.head? := by
    rw [← htext, List.head?_append, List.head?_eq_some_head hne]
    rfl
  cases h with
  | decimal h => exact absurd (htext ▸ by simp) h.notMem
  | octal => exact absurd (hhead ▸ rfl) hzero
  | hexadecimal => exact absurd (hhead ▸ rfl) hzero
  | based hnumber hlow hhigh hdigits h =>
      obtain ⟨rfl, rfl⟩ := hash_split hhash hnumber.notMem htext
      exact ⟨_, hnumber, hlow, hhigh, hdigits, h⟩

/-- The text without a base is a decimal number. -/
theorem numeral_decimal {text : List Char} {v : ℕ} (hhash : '#' ∉ text)
    (hzero : text.head? ≠ some '0') (h : Numeral text v) : Digits 10 text v := by
  cases h with
  | decimal h => exact h.3
  | octal => exact absurd rfl hzero
  | hexadecimal => exact absurd rfl hzero
  | based => exact absurd (by simp) hhash

theorem strlong_zero (hw : w.AsciiAlpha) {text : List Char}
    (hchars : ∀ c ∈ text, w.isNumchar c = true ∨ c = '#') (s : ExprState Θ) :
    w.StrlongExact ('0' :: text) s := by
  by_cases hx : ∃ x rest, (x = 'x' ∨ x = 'X') ∧ text = x :: rest
  · obtain ⟨x, rest, hx, rfl⟩ := hx
    refine @strlongExact_of_digits _ _ hw 16 (by omega) _ rest
      (fun c hc => hchars c (List.mem_cons_of_mem _ hc)) (fun v => ⟨fun h => ?_, .hexadecimal hx⟩) ?_ s
    · rcases numeral_zero h with h | ⟨_, _, -, heq, h⟩
      · obtain ⟨digits, hdigits, -⟩ := h.eq_accumulate
        have hnone : digitIn 8 x = none := by rcases hx with rfl | rfl <;> decide
        simp [hnone] at hdigits
      · exact (List.cons.inj heq).2 ▸ h
    · rcases hx with rfl | rfl <;> rfl
  · refine @strlongExact_of_digits _ _ hw 8 (by omega) _ text hchars
      (fun v => ⟨fun h => ?_, .octal⟩) ?_ s
    · rcases numeral_zero h with h | ⟨x, rest, hx', heq, -⟩
      · exact h
      · exact absurd ⟨x, rest, hx', heq⟩ hx
    · unfold strlong
      split
      · next heq => exact (List.cons.inj heq).2 ▸ rfl
      · next heq => exact absurd ⟨_, _, .inl rfl, (List.cons.inj heq).2⟩ hx
      · next heq => exact absurd ⟨_, _, .inr rfl, (List.cons.inj heq).2⟩ hx
      · next heq => exact (List.cons.inj heq).2 ▸ rfl
      · next hoct => exact absurd rfl (hoct _)

/-- The text begins with a digit that is not 0. -/
theorem strlong_decimal {c : Char} (hc : c ≠ '0') (text : List Char) :
    w.strlong (c :: text) = w.strlongDigits (Int64.ofNat 10) false (Int64.ofNat 0) (c :: text) := by
  unfold strlong
  split
  · next heq => exact absurd (List.cons.inj heq).1 hc
  · next heq => exact absurd (List.cons.inj heq).1 hc
  · next heq => exact absurd (List.cons.inj heq).1 hc
  · next heq => exact absurd (List.cons.inj heq).1 hc
  · rfl


/-! ## The base -/

theorem ofNat_wrap (v : ℕ) : Int64.ofNat (v % 2 ^ 64) = Int64.ofNat v := by
  rw [← Int64.toInt_inj, Int64.toInt_ofNat', Int64.toInt_ofNat', Int.natCast_mod]
  exact Int.emod_bmod _ _

theorem base_in_range (v : ℕ) : (Int64.ofNat v < 2 || 64 < Int64.ofNat v) = false ↔
    2 ≤ v % 2 ^ 64 ∧ v % 2 ^ 64 ≤ 64 := by
  have htwo : (2 : Int64).toInt = 2 := rfl
  have hmax : (64 : Int64).toInt = 64 := rfl
  simp only [Bool.or_eq_false_iff, decide_eq_false_iff_not, Int64.lt_iff_toInt_lt, htwo, hmax,
    Int64.toInt_ofNat', Int64.size, Int.bmod_def]
  omega

/-- What follows a decimal number with this value and a `#`. -/
theorem strlongDigits_hash (hw : w.AsciiAlpha) {digits : List Char}
    (hchars : ∀ c ∈ digits, w.isNumchar c = true ∨ c = '#') (value : ℕ) (s : ExprState Θ) :
    (∃ v, 2 ≤ value % 2 ^ 64 ∧ value % 2 ^ 64 ≤ 64 ∧ digits ≠ [] ∧
      Digits (value % 2 ^ 64) digits v ∧
      w.strlongDigits (Int64.ofNat 10) false (Int64.ofNat value) ('#' :: digits) s =
        (.ok (Int64.ofNat v), s)) ∨
    (¬ ∃ v, 2 ≤ value % 2 ^ 64 ∧ value % 2 ^ 64 ≤ 64 ∧ digits ≠ [] ∧
      Digits (value % 2 ^ 64) digits v) ∧
      Rejects (w.strlongDigits (Int64.ofNat 10) false (Int64.ofNat value) ('#' :: digits)) s := by
  rw [strlongDigits, if_pos rfl, if_neg Bool.false_ne_true]
  by_cases hrange : 2 ≤ value % 2 ^ 64 ∧ value % 2 ^ 64 ≤ 64
  · rw [if_neg (by simp [(base_in_range value).mpr hrange])]
    split_ifs with hhead
    · refine .inr ⟨fun ⟨v, _, _, hne, hdigits⟩ => ?_, evalerror_rejects _ _⟩
      -- the character after the `#` would be another one
      cases digits with
      | nil => exact hne rfl
      | cons c digits =>
          obtain ⟨ds, hds, -⟩ := hdigits.eq_accumulate
          rcases hchars c List.mem_cons_self with hc | rfl
          · simp [hc] at hhead
          · exact notMem_of_mapM hds List.mem_cons_self
    · have hne : digits ≠ [] := by
        rintro rfl
        exact hhead rfl
      rw [← ofNat_wrap value]
      rcases strlongDigits_based hw hrange.2 hchars s with ⟨v, hv, heq⟩ | ⟨hno, hrejects⟩
      · exact .inl ⟨v, hrange.1, hrange.2, hne, hv, heq⟩
      · exact .inr ⟨fun ⟨v, _, _, _, hv⟩ => hno v hv, hrejects⟩
  · rw [if_pos (by simpa only [Bool.not_eq_false] using mt (base_in_range value).mp hrange)]
    exact .inr ⟨fun ⟨v, hlow, hhigh, _⟩ => hrange ⟨hlow, hhigh⟩, evalerror_rejects _ _⟩

/-- The number before a `#` is the base if its value is, in 64 bits. -/
theorem strlong_hash (hw : w.AsciiAlpha) {number digits : List Char} (hhash : '#' ∉ number)
    (hne : number ≠ []) (hzero : number.head? ≠ some '0')
    (hnumber : ∀ c ∈ number, w.isNumchar c = true)
    (hchars : ∀ c ∈ digits, w.isNumchar c = true ∨ c = '#') (s : ExprState Θ) :
    w.StrlongExact (number ++ '#' :: digits) s ↔ ¬ WrapsBase (number ++ '#' :: digits) := by
  have hread : w.strlong (number ++ '#' :: digits) =
      w.strlongDigits (Int64.ofNat 10) false (Int64.ofNat 0) (number ++ '#' :: digits) := by
    cases number with
    | nil => exact absurd rfl hne
    | cons c number => exact strlong_decimal (fun hc => hzero (congrArg some hc)) _
  rcases @strlongDigits_append _ _ hw 10 (by omega) _ ('#' :: digits) hhash hnumber false 0 s
    with ⟨ds, hds, heq⟩ | ⟨hnone, hrejects⟩
  · have hdecimal : DecimalNumber number (accumulate 10 0 ds) :=
      ⟨hne, hzero, .of_accumulate hds rfl⟩
    have hbase {base : ℕ} (h : DecimalNumber number base) : base = accumulate 10 0 ds :=
      Digits.unique h.3 hdecimal.3
    rw [heq] at hread
    rcases strlongDigits_hash hw hchars (accumulate 10 0 ds) s with
      ⟨v, hlow, hhigh, hdne, hdigits, hval⟩ | ⟨hno, hrejects⟩
    · rw [← hread] at hval
      by_cases hsmall : accumulate 10 0 ds ≤ 64
      · rw [Nat.mod_eq_of_lt (by omega)] at hdigits hlow
        refine iff_of_true ⟨fun v' hv' => ?_, fun hno => ?_⟩ ?_
        · obtain ⟨base, hb, -, -, -, hv'⟩ := numeral_hash hhash hne hzero hv'
          rw [hval, hdigits.unique (hbase hb ▸ hv')]
        · exact absurd (.based hdecimal hlow hsmall hdne hdigits) (hno v)
        · rintro ⟨number', base, digits', v', htext, hb, hlarge, -⟩
          obtain ⟨rfl, rfl⟩ := hash_split hhash hb.notMem htext
          exact absurd (hbase hb ▸ hlarge) (by omega)
      · refine iff_of_false (fun hexact => ?_) fun hwraps => hwraps
          ⟨number, _, digits, v, rfl, hdecimal, by omega, hlow, hhigh, hdne, hdigits⟩
        obtain ⟨_, _, _, herror⟩ := hexact.2 fun v' hv' => by
          obtain ⟨base, hb, -, hb64, -⟩ := numeral_hash hhash hne hzero hv'
          exact hsmall (hbase hb ▸ hb64)
        rw [hval] at herror
        cases congrArg Prod.fst herror
    · rw [← hread] at hrejects
      refine iff_of_true (.of_rejects (fun v hv => ?_) hrejects) ?_
      · obtain ⟨base, hb, hlow, hhigh, hdne, hv⟩ := numeral_hash hhash hne hzero hv
        obtain rfl := hbase hb
        rw [Nat.mod_eq_of_lt (by omega)] at hno
        exact hno ⟨v, hlow, hhigh, hdne, hv⟩
      · rintro ⟨number', base, digits', v, htext, hb, -, hlow, hhigh, hdne, hv⟩
        obtain ⟨rfl, rfl⟩ := hash_split hhash hb.notMem htext
        obtain rfl := hbase hb
        exact hno ⟨v, hlow, hhigh, hdne, hv⟩
  · rw [← hread] at hrejects
    have hno {base : ℕ} (h : DecimalNumber number base) : False := by
      obtain ⟨-, -, ⟨h⟩⟩ := h
      simp [hnone] at h
    refine iff_of_true (.of_rejects (fun v hv => ?_) hrejects) ?_
    · obtain ⟨base, hb, -⟩ := numeral_hash hhash hne hzero hv
      exact hno hb
    · rintro ⟨number', base, digits', v, htext, hb, -⟩
      obtain ⟨rfl, rfl⟩ := hash_split hhash hb.notMem htext
      exact hno hb

/-- A text without a base that does not begin with 0 -/
theorem strlong_plain (hw : w.AsciiAlpha) {c : Char} {rest : List Char} (hzero : c ≠ '0')
    (hnumchar : ∀ d ∈ c :: rest, w.isNumchar d = true) (hhash : '#' ∉ c :: rest)
    (s : ExprState Θ) : w.StrlongExact (c :: rest) s := by
  have hhead : (c :: rest).head? ≠ some '0' := fun h => hzero (Option.some.inj h)
  rcases @strlongDigits_append _ _ hw 10 (by omega) _ [] hhash hnumchar false 0 s
    with ⟨ds, hds, heq⟩ | ⟨hnone, hrejects⟩
  · rw [List.append_nil, ← strlong_decimal hzero] at heq
    refine ⟨fun v hv => ?_, fun hno => absurd (.decimal ⟨nofun, hhead, .of_accumulate hds rfl⟩) (hno _)⟩
    rw [heq, (numeral_decimal hhash hhead hv).unique (.of_accumulate hds rfl)]
    rfl
  · rw [List.append_nil, ← strlong_decimal hzero] at hrejects
    refine .of_rejects (fun v hv => ?_) hrejects
    obtain ⟨h⟩ := numeral_decimal hhash hhead hv
    simp [hnone] at h

/-- What the token reader takes for a number is read as the numeral that it is, or rejected,
unless its base is a base in 64 bits only. -/
theorem strlong_exact_iff (hw : w.AsciiAlpha) {text : List Char} (htext : w.Lexed text)
    (s : ExprState Θ) : w.StrlongExact text s ↔ ¬ WrapsBase text := by
  obtain ⟨⟨c, rest, rfl, hdigit⟩, hchars⟩ := htext
  by_cases hzero : c = '0'
  · subst hzero
    refine iff_of_true (strlong_zero hw (fun c hc => hchars c (List.mem_cons_of_mem _ hc)) s) ?_
    rintro ⟨number, base, digits, v, heq, ⟨hne, hhead, -⟩, -⟩
    cases number with
    | nil => exact hne rfl
    | cons d number => exact hhead (congrArg some (List.cons.inj heq).1.symm)
  · by_cases hhash : '#' ∈ c :: rest
    · obtain ⟨number, digits, heq, hnot⟩ := List.eq_append_cons_of_mem hhash
      rw [heq] at hchars ⊢
      have hhead : number.head? = some c := by
        cases number with
        | nil =>
            obtain rfl := (List.cons.inj heq).1
            exact absurd hdigit (by decide)
        | cons d number => exact congrArg some (List.cons.inj heq).1.symm
      refine strlong_hash hw hnot ?_ ?_ (fun c hc => ?_) (fun c hc => ?_) s
      · rintro rfl
        exact absurd hhead nofun
      · rw [hhead]
        exact fun h => hzero (Option.some.inj h)
      · exact (hchars c (List.mem_append_left _ hc)).resolve_right fun h => hnot (h ▸ hc)
      · exact hchars c (List.mem_append_right _ (List.mem_cons_of_mem _ hc))
    · have hnumchar (d : Char) (hd : d ∈ c :: rest) : w.isNumchar d = true :=
        (hchars d hd).resolve_right fun h => hhash (h ▸ hd)
      refine iff_of_true (strlong_plain hw hzero hnumchar hhash s) ?_
      rintro ⟨number, base, digits, v, heq, -⟩
      exact hhash (heq ▸ by simp)

theorem Lexed.cons {w : ExprWorld Θ} {c : Char} {rest : List Char} (hdigit : c.isDigit = true)
    (hall : ((c :: rest).all fun c => w.isNumchar c || c == '#') = true) : w.Lexed (c :: rest) where
  first := ⟨c, rest, rfl, hdigit⟩
  chars d hd := by simpa using List.all_eq_true.mp hall d hd

theorem strlong_exact_based :
    noVariables.StrlongExact ['3', '6', '#', 'Z', 'z'] freshExpr ↔
      ¬ WrapsBase ['3', '6', '#', 'Z', 'z'] :=
  strlong_exact_iff (fun _ _ => rfl) (.cons (by decide) (by decide)) _

/-- 2 ^ 64 + 10 as a base. -/
def wrappedBase : List Char := "18446744073709551626".toList

/-- 18446744073709551626#9 is 9. -/
theorem strlong_wraps_base : noVariables.Lexed (wrappedBase ++ ['#', '9']) ∧
    ¬ noVariables.StrlongExact (wrappedBase ++ ['#', '9']) freshExpr := by
  refine ⟨.cons (by decide) (by decide), fun hexact => ?_⟩
  obtain ⟨_, _, _, herror⟩ := hexact.2 fun v hv => by
    obtain ⟨base, ⟨-, -, hbase⟩, -, hsmall, -⟩ := numeral_hash (by decide) (by decide) (by decide) hv
    have hdigits : wrappedBase.mapM (digitIn 10) =
        some [1, 8, 4, 4, 6, 7, 4, 4, 0, 7, 3, 7, 0, 9, 5, 5, 1, 6, 2, 6] := by decide
    obtain rfl := hbase.unique (.of_accumulate hdigits (by decide : _ = 18446744073709551626))
    exact absurd hsmall (by decide)
  have hval : (noVariables.strlong (wrappedBase ++ ['#', '9']) freshExpr).1 = .ok 9 := by
    decide +kernel
  rw [herror] at hval
  cases hval

end ExprWorld

end Rash
