import Rash.Arith.Numerals

/-!
# Printing numbers

`fmtulong`, which writes a number from the end of the caller's buffer backwards, and what `strlong`
reads from it.
-/

namespace Rash

namespace Printing

/-- The flags `FL_PREFIX`, `FL_ADDBASE`, `FL_HEXUPPER` and `FL_UNSIGNED` -/
structure FmtFlags where
  flPrefix : Bool
  flAddbase : Bool
  flHexupper : Bool
  flUnsigned : Bool

/-- The index `p` of the buffer that is written next, and the text behind it up to the NUL. -/
structure Backward where
  p : Int
  text : List Char
  deriving DecidableEq

/-- `*p-- = c` -/
def Backward.put (b : Backward) (c : Char) : Backward := ⟨b.p - 1, c :: b.text⟩

def xDigs : List Char := "0123456789abcdef".toList

def upperXDigs : List Char := "0123456789ABCDEF".toList

def allDigs : List Char := "0123456789abcdefghijklmnopqrstuvwxyzABCDEFGHIJKLMNOPQRSTUVWXYZ@_".toList

/-- An entry of a table of digits, at an index within it -/
def charAt (digs : List Char) (x : ℕ) : Char := digs.getD x '0'

/-- `TOCHAR` -/
def tochar (x : ℕ) : Char := Char.ofNat (x + 48)

/-- The loops that write the digits.  A number of 64 bits has at most 64 of them. -/
def digitLoop (digit : UInt64 → Char) (rest : UInt64 → UInt64) :
    ℕ → UInt64 → Backward → Backward
  | 0, _, b => b
  | n + 1, ui, b =>
      if rest ui = 0 then b.put (digit ui)
      else digitLoop digit rest n (rest ui) (b.put (digit ui))

/-- The digits, by the base. -/
def writeDigits (ui : UInt64) (base : ℕ) (hexupper : Bool) (b : Backward) : Backward :=
  match base with
  | 10 =>
      let digit (ui : UInt64) : Char := tochar (ui % 10).toNat
      if ui < 10 then b.put (tochar ui.toNat)
      -- `si` is not negative in the loop.
      else if ui.toInt64 < 0 then digitLoop digit (· / 10) 64 (ui / 10) (b.put (digit ui))
      else digitLoop digit (· / 10) 64 ui b
  | 8 => digitLoop (fun ui => tochar (ui &&& 7).toNat) (· >>> 3) 64 ui b
  | 16 =>
      let digs := if hexupper then upperXDigs else xDigs
      digitLoop (fun ui => charAt digs (ui &&& 15).toNat) (· >>> 4) 64 ui b
  | 2 => digitLoop (fun ui => tochar (ui &&& 1).toNat) (· >>> 1) 64 ui b
  | base =>
      let base := UInt64.ofNat base
      digitLoop (fun ui => charAt allDigs (ui % base).toNat) (· / base) 64 ui b

/-- What is written before the digits, but for a sign. -/
def writePrefix (base : ℕ) (flags : FmtFlags) (b : Backward) : Backward :=
  if flags.flPrefix ∧ (base = 8 ∨ base = 16) then
    if base = 16 then (b.put (if flags.flHexupper then 'X' else 'x')).put '0'
    else if b.text.head? ≠ some '0' then b.put '0'
    else b
  else if flags.flAddbase ∧ base ≠ 10 then
    let b := (b.put '#').put (tochar (base % 10))
    if 10 < base then b.put (tochar (base / 10)) else b
  else b

/-- A number is printed as signed and is negative. -/
def hasSign (ui : UInt64) (flags : FmtFlags) : Bool := !flags.flUnsigned && decide (ui.toInt64 < 0)

/-- `fmtulong` with a buffer of `len` bytes; the text starts at the index behind `p`. -/
def fmtulong (ui : UInt64) (base : Int) (len : ℕ) (flags : FmtFlags) : Backward :=
  let base := if base = 0 then 10 else base
  if base < 2 ∨ 64 < base then ⟨-1, "invalid base".toList.take (len - 1)⟩
  else
    let sign := hasSign ui flags
    let ui := if sign then -ui else ui
    let digits := writeDigits ui base.toNat flags.flHexupper ⟨len - 2, []⟩
    let written := writePrefix base.toNat flags digits
    if sign then written.put '-' else written

example : (fmtulong 255 16 70 ⟨false, true, true, false⟩).text = "16#FF".toList := by decide

/-! ## Digits -/

open Numerals

theorem digitValue_allDigs {base d : ℕ} (hd : d < 64) (hbase : base ≤ 36 → d < 36) :
    digitValue base (charAt allDigs d) = some d := by
  have hlow : ∀ d < 64, d < 36 → digitValue 36 (charAt allDigs d) = some d := by decide +kernel
  have hhigh : ∀ d < 64, digitValue 64 (charAt allDigs d) = some d := by
    decide +kernel
  by_cases hle : base ≤ 36
  · have hsame : digitValue base = digitValue 36 := by
      funext c
      simp only [digitValue, if_pos hle, le_refl, if_true]
    rw [hsame]
    exact hlow d hd (hbase hle)
  · have hsame : digitValue base = digitValue 64 := by
      funext c
      simp only [digitValue, if_neg hle]
      rfl
    rw [hsame]
    exact hhigh d hd

theorem digitIn_of_value {base d : ℕ} {c : Char} (h : digitValue base c = some d) (hd : d < base) :
    digitIn base c = some d := by
  rw [digitIn, h, Option.filter_some, if_pos (by simpa using hd)]

theorem digitIn_allDigs {base d : ℕ} (hbase : base ≤ 64) (hd : d < base) :
    digitIn base (charAt allDigs d) = some d :=
  digitIn_of_value (digitValue_allDigs (by omega) (by omega)) hd

theorem tochar_allDigs {d : ℕ} (hd : d < 10) : tochar d = charAt allDigs d := by
  have : ∀ d < 10, tochar d = charAt allDigs d := by decide
  exact this d hd

theorem digitIn_hex (upper : Bool) {d : ℕ} (hd : d < 16) :
    digitIn 16 (charAt (if upper then upperXDigs else xDigs) d) = some d := by
  have : ∀ upper : Bool, ∀ d < 16,
      digitIn 16 (charAt (if upper then upperXDigs else xDigs) d) = some d := by decide
  exact this upper d hd

/-- What a loop over the digits writes before `b`. -/
structure Writes (base v : ℕ) (b b' : Backward) (pre : List Char) : Prop where
  text : b'.text = pre ++ b.text
  p : b'.p = b.p - pre.length
  digits : Digits base pre v
  length : ∀ k, 0 < k → v < base ^ k → pre.length ≤ k
  nonempty : pre ≠ []
  head : 0 < v → pre.head? ≠ some '0'

theorem digitIn_zero {base : ℕ} (hbase : 0 < base) : digitIn base '0' = some 0 :=
  digitIn_of_value rfl hbase

/-- One digit -/
theorem writes_one {base v : ℕ} {c : Char} (hc : digitIn base c = some v) (hv : v < base)
    (b : Backward) : Writes base v b (b.put c) [c] := by
  refine ⟨rfl, rfl, ?_, fun k hk _ => hk, List.cons_ne_nil _ _, fun hpos hhead => ?_⟩
  · have hmap : [c].mapM (digitIn base) = some [v] := by simp [hc]
    simpa using Digits.intro hmap
  · obtain rfl : c = '0' := Option.some.inj hhead
    rw [digitIn_zero (by omega)] at hc
    exact hpos.ne (Option.some.inj hc)

/-- One digit more at the end -/
theorem Writes.snoc {base v d : ℕ} {c : Char} {b b' : Backward} {pre : List Char}
    (h : Writes base v (b.put c) b' pre) (hc : digitIn base c = some d) (hv : 0 < v) :
    Writes base (v * base + d) b b' (pre ++ [c]) := by
  refine ⟨?_, ?_, ?_, fun k hk hlt => ?_, by simp, fun _ => ?_⟩
  · rw [h.text, Backward.put, List.append_assoc, List.singleton_append]
  · rw [h.p, Backward.put, List.length_append, List.length_singleton]
    push_cast
    ring
  · obtain ⟨ds, hds, hv'⟩ := h.digits.eq_accumulate
    have hall : (pre ++ [c]).mapM (digitIn base) = some (ds ++ [d]) := by
      rw [List.mapM_append, hds]
      simp [hc]
    refine Digits.of_accumulate hall ?_
    rw [← hv', accumulate, List.foldl_append]
    rfl
  · obtain ⟨k, rfl⟩ : ∃ j, k = j + 1 := ⟨k - 1, by omega⟩
    rw [pow_succ] at hlt
    have hlt' : v < base ^ k := by
      by_contra hge
      have := Nat.mul_le_mul_right base (Nat.le_of_not_lt hge)
      omega
    have hk' : 0 < k := by
      rcases Nat.eq_zero_or_pos k with rfl | hk'
      · rw [pow_zero] at hlt'
        omega
      · exact hk'
    rw [List.length_append, List.length_singleton]
    exact Nat.succ_le_succ (h.length k hk' hlt')
  · have hhead := h.head hv
    obtain ⟨x, xs, rfl⟩ := List.exists_cons_of_ne_nil h.nonempty
    exact hhead

/-- The loop ends before its counter does and writes the digits of the number. -/
theorem digitLoop_writes {base : ℕ} {digit : UInt64 → Char} {rest : UInt64 → UInt64}
    (hbase : 2 ≤ base) (hdigit : ∀ u, digitIn base (digit u) = some (u.toNat % base))
    (hrest : ∀ u, (rest u).toNat = u.toNat / base) (n : ℕ) (ui : UInt64) (b : Backward)
    (hn : ui.toNat < 2 ^ n) (hpos : 0 < n) :
    ∃ pre, Writes base ui.toNat b (digitLoop digit rest n ui b) pre := by
  induction n generalizing ui b with
  | zero => exact absurd hpos (Nat.lt_irrefl 0)
  | succ n ih =>
      rw [digitLoop]
      by_cases hend : rest ui = 0
      · have hlt : ui.toNat < base := by
          have := hrest ui
          rw [hend] at this
          exact (Nat.div_eq_zero_iff.mp this.symm).resolve_left (by omega)
        have hone := hdigit ui
        rw [Nat.mod_eq_of_lt hlt] at hone
        rw [if_pos hend]
        exact ⟨_, writes_one hone hlt b⟩
      · have hne : 0 < ui.toNat / base := by
          rw [← hrest ui]
          exact Nat.pos_of_ne_zero fun hzero => hend (UInt64.toNat_inj.mp hzero)
        have hsmall : (rest ui).toNat < 2 ^ n := by
          rw [hrest ui, Nat.div_lt_iff_lt_mul (by omega)]
          calc ui.toNat < 2 ^ n * 2 := by rwa [← pow_succ]
            _ ≤ 2 ^ n * base := Nat.mul_le_mul_left _ hbase
        have hn' : 0 < n := by
          rcases Nat.eq_zero_or_pos n with rfl | hn'
          · rw [hrest ui, pow_zero] at hsmall
            omega
          · exact hn'
        obtain ⟨pre, hpre⟩ := ih (rest ui) (b.put (digit ui)) hsmall hn'
        rw [hrest ui] at hpre
        rw [if_neg hend]
        refine ⟨pre ++ [digit ui], ?_⟩
        have hsnoc := hpre.snoc (hdigit ui) hne
        rwa [Nat.mul_comm, Nat.div_add_mod] at hsnoc

/-- Every loop writes the digits of its base. -/
theorem writeDigits_writes (ui : UInt64) {base : ℕ} (hbase : 2 ≤ base) (hhigh : base ≤ 64)
    (hexupper : Bool) (b : Backward) :
    ∃ pre, Writes base ui.toNat b (writeDigits ui base hexupper b) pre := by
  have hui := ui.toNat_lt
  unfold writeDigits
  split
  · have hdigit (u : UInt64) : digitIn 10 (tochar (u % 10).toNat) = some (u.toNat % 10) := by
      have hlt := Nat.mod_lt u.toNat (by decide : 0 < 10)
      rw [UInt64.toNat_mod, show (10 : UInt64).toNat = 10 from rfl, tochar_allDigs hlt]
      exact digitIn_allDigs (by decide) hlt
    have hrest (u : UInt64) : (u / 10).toNat = u.toNat / 10 := UInt64.toNat_div _ _
    split_ifs with hsmall hneg
    · have hlt : ui.toNat < 10 := UInt64.lt_iff_toNat_lt.mp hsmall
      have hone := hdigit ui
      rw [UInt64.toNat_mod, show (10 : UInt64).toNat = 10 from rfl, Nat.mod_eq_of_lt hlt] at hone
      exact ⟨_, writes_one hone hlt b⟩
    · -- The digit before the loop is one more turn of it.
      have hge : 10 ≤ ui.toNat := Nat.le_of_not_lt fun hlt => hsmall (UInt64.lt_iff_toNat_lt.mpr hlt)
      have hne : ui / 10 ≠ 0 := by
        intro hzero
        have := hrest ui
        rw [hzero, UInt64.toNat_zero] at this
        omega
      have hloop := digitLoop_writes (by decide) hdigit hrest 65 ui b (by omega) (by decide)
      rwa [digitLoop, if_neg hne] at hloop
    · exact digitLoop_writes (by decide) hdigit hrest 64 ui b hui (by decide)
  · refine digitLoop_writes (by decide) (fun u => ?_) (fun u => ?_) 64 ui b hui (by decide)
    · have hlt := Nat.mod_lt u.toNat (by decide : 0 < 8)
      rw [UInt64.toNat_and, show (7 : UInt64).toNat = 2 ^ 3 - 1 from rfl,
        Nat.and_two_pow_sub_one_eq_mod, tochar_allDigs (by omega)]
      exact digitIn_allDigs (by decide) hlt
    · rw [UInt64.toNat_shiftRight, Nat.shiftRight_eq_div_pow]
      rfl
  · refine digitLoop_writes (by decide) (fun u => ?_) (fun u => ?_) 64 ui b hui (by decide)
    · have hlt := Nat.mod_lt u.toNat (by decide : 0 < 16)
      rw [UInt64.toNat_and, show (15 : UInt64).toNat = 2 ^ 4 - 1 from rfl,
        Nat.and_two_pow_sub_one_eq_mod]
      exact digitIn_hex hexupper hlt
    · rw [UInt64.toNat_shiftRight, Nat.shiftRight_eq_div_pow]
      rfl
  · refine digitLoop_writes (by decide) (fun u => ?_) (fun u => ?_) 64 ui b hui (by decide)
    · have hlt := Nat.mod_lt u.toNat (by decide : 0 < 2)
      rw [UInt64.toNat_and, show (1 : UInt64).toNat = 2 ^ 1 - 1 from rfl,
        Nat.and_two_pow_sub_one_eq_mod, tochar_allDigs (by omega)]
      exact digitIn_allDigs (by decide) hlt
    · rw [UInt64.toNat_shiftRight, Nat.shiftRight_eq_div_pow]
      rfl
  · have hof : (UInt64.ofNat base).toNat = base := UInt64.toNat_ofNat_of_lt' (by
      rw [UInt64.size]
      omega)
    refine digitLoop_writes hbase (fun u => ?_) (fun u => ?_) 64 ui b hui (by decide)
    · rw [UInt64.toNat_mod, hof]
      exact digitIn_allDigs hhigh (Nat.mod_lt _ (by omega))
    · rw [UInt64.toNat_div, hof]

/-! ## Reading the text -/

theorem digitIn_eq_zero {base : ℕ} {c : Char} (h : digitIn base c = some 0) : c = '0' := by
  have hvalue : digitValue base c = some 0 := by
    rw [digitIn, Option.filter_eq_some_iff] at h
    exact h.1
  unfold digitValue at hvalue
  split_ifs at hvalue with hdigit
  · have hle : c.toNat ≤ 48 := Nat.le_of_sub_eq_zero (Option.some.inj hvalue)
    have hge : 48 ≤ c.toNat := by
      rw [Char.isDigit, Bool.and_eq_true, decide_eq_true_eq] at hdigit
      exact hdigit.1
    exact Char.toNat_inj.mp (Nat.le_antisymm hle hge)
  all_goals simp at hvalue

theorem Writes.eq_zero {base : ℕ} {b b' : Backward} {pre : List Char}
    (h : Writes base 0 b b' pre) (hbase : 0 < base) : pre = ['0'] := by
  obtain ⟨ds, hds, hv⟩ := h.digits.eq_accumulate
  have hlength := h.length 1 Nat.one_pos (by rwa [pow_one])
  obtain ⟨c, rest, rfl⟩ := List.exists_cons_of_ne_nil h.nonempty
  obtain rfl : rest = [] := List.eq_nil_of_length_eq_zero (by simpa using hlength)
  cases hc : digitIn base c with
  | none => simp [hc] at hds
  | some d =>
      simp only [List.mapM_cons, hc, List.mapM_nil] at hds
      obtain rfl : [d] = ds := Option.some.inj hds
      obtain rfl : d = 0 := by simpa [accumulate] using hv
      rw [digitIn_eq_zero hc]

end Printing

namespace ExprWorld

open Printing Numerals

variable {Θ : Type} {w : ExprWorld Θ}

theorem isNumchar_of_digitIn (hw : w.AsciiAlpha) {base : ℕ} {c : Char} {d : ℕ}
    (h : digitIn base c = some d) : w.isNumchar c = true := by
  have hvalue : digitValue base c = some d := by
    rw [digitIn, Option.filter_eq_some_iff] at h
    exact h.1
  have hletter (hhigh : c.toNat ≤ 122) (halpha : c.isAlpha = true) : w.isNumchar c = true := by
    rw [isNumchar, hw c (by omega), halpha]
    rfl
  by_cases hlower : 'a' ≤ c ∧ c ≤ 'z'
  · have hhigh : c.toNat ≤ 122 := hlower.2
    refine hletter hhigh ?_
    simp only [Char.isAlpha, Char.isUpper, Char.isLower, Bool.or_eq_true, Bool.and_eq_true,
      decide_eq_true_eq]
    exact .inr hlower
  · by_cases hupper : 'A' ≤ c ∧ c ≤ 'Z'
    · have hhigh : c.toNat ≤ 90 := hupper.2
      refine hletter (by omega) ?_
      simp only [Char.isAlpha, Char.isUpper, Char.isLower, Bool.or_eq_true, Bool.and_eq_true,
        decide_eq_true_eq]
      exact .inl hupper
    · rw [digitValue, if_neg hlower, if_neg hupper] at hvalue
      simp only [isNumchar, Bool.or_eq_true, beq_iff_eq]
      by_cases hdigit : c.isDigit = true
      · exact .inl (.inl (.inr hdigit))
      · rw [if_neg hdigit] at hvalue
        by_cases hat : c = '@'
        · exact .inr hat
        · by_cases hunder : c = '_'
          · exact .inl (.inr hunder)
          · rw [if_neg hat, if_neg hunder] at hvalue
            cases hvalue

theorem isNumchar_of_digits (hw : w.AsciiAlpha) {base v : ℕ} {text : List Char}
    (h : Digits base text v) : ∀ c ∈ text, w.isNumchar c = true := by
  obtain ⟨ds, hds, -⟩ := h.eq_accumulate
  clear h
  induction text generalizing ds with
  | nil => exact fun c hc => (by cases hc)
  | cons x text ih =>
      rw [mapM_cons] at hds
      cases hx : digitIn base x with
      | none => simp [hx] at hds
      | some d =>
          cases hrest : text.mapM (digitIn base) with
          | none => simp [hx, hrest] at hds
          | some rest =>
              intro c hc
              rcases List.mem_cons.mp hc with rfl | hc
              · exact isNumchar_of_digitIn hw hx
              · exact ih rest hrest c hc

theorem notMem_of_digits {base v : ℕ} {text : List Char} (h : Digits base text v) :
    '#' ∉ text := by
  obtain ⟨ds, hds, -⟩ := h.eq_accumulate
  exact notMem_of_mapM hds

/-- Digits in base 10 as they are printed -/
theorem strlong_printed (hw : w.AsciiAlpha) {v : ℕ} {b b' : Backward} {pre : List Char}
    (h : Writes 10 v b b' pre) (s : ExprState Θ) :
    w.strlong pre s = (.ok (Int64.ofNat v), s) := by
  rcases Nat.eq_zero_or_pos v with rfl | hpos
  · rw [h.eq_zero (by decide)]
    rfl
  · have hhead := h.head hpos
    have hdecimal : Numeral pre v := .decimal ⟨h.nonempty, hhead, h.digits⟩
    have hnumchar := isNumchar_of_digits hw h.digits
    have hhash := notMem_of_digits h.digits
    obtain ⟨c, rest, rfl⟩ := List.exists_cons_of_ne_nil h.nonempty
    exact (strlong_plain hw (fun hc => hhead (congrArg some hc)) hnumchar hhash s).1 v hdecimal

/-- The text of a base before the `#` -/
def baseText (base : ℕ) : List Char :=
  if 10 < base then [tochar (base / 10), tochar (base % 10)] else [tochar (base % 10)]

theorem decimalNumber_baseText {base : ℕ} (hlow : 2 ≤ base) (hhigh : base ≤ 64) (hten : base ≠ 10) :
    DecimalNumber (baseText base) base := by
  have hdigit {d : ℕ} (hd : d < 10) : digitIn 10 (tochar d) = some d := by
    rw [tochar_allDigs hd]
    exact digitIn_allDigs (by decide) hd
  have hne {d : ℕ} (hd : d < 10) (hpos : 0 < d) : some (tochar d) ≠ some '0' := by
    intro heq
    have hzero := hdigit hd
    rw [Option.some.inj heq, digitIn_zero (by decide)] at hzero
    exact hpos.ne (Option.some.inj hzero)
  rw [baseText]
  split_ifs with hlarge
  · have hmap : [tochar (base / 10), tochar (base % 10)].mapM (digitIn 10) =
        some [base / 10, base % 10] := by
      simp [hdigit (show base / 10 < 10 by omega), hdigit (show base % 10 < 10 by omega)]
    refine ⟨List.cons_ne_nil _ _, hne (by omega) (by omega), Digits.of_accumulate hmap ?_⟩
    simp only [accumulate, List.foldl_cons, List.foldl_nil]
    omega
  · have hmap : [tochar (base % 10)].mapM (digitIn 10) = some [base % 10] := by
      simp [hdigit (show base % 10 < 10 by omega)]
    refine ⟨List.cons_ne_nil _ _, hne (by omega) (by omega), Digits.of_accumulate hmap ?_⟩
    simp only [accumulate, List.foldl_cons, List.foldl_nil]
    omega

/-- Digits behind a base -/
theorem strlong_based (hw : w.AsciiAlpha) {base v : ℕ} {digits : List Char} (hlow : 2 ≤ base)
    (hhigh : base ≤ 64) (hten : base ≠ 10) (hdigits : Digits base digits v) (hne : digits ≠ [])
    (s : ExprState Θ) :
    w.strlong (baseText base ++ '#' :: digits) s = (.ok (Int64.ofNat v), s) := by
  have hnumber := decimalNumber_baseText hlow hhigh hten
  have hexact := (strlong_hash hw hnumber.notMem hnumber.1 hnumber.2
    (isNumchar_of_digits hw hnumber.3)
    (fun c hc => .inl (isNumchar_of_digits hw hdigits c hc)) s).mpr ?_
  · exact hexact.1 v (.based hnumber hlow hhigh hne hdigits)
  · rintro ⟨number, base', digits', v', heq, hnumber', hlarge, -⟩
    obtain ⟨hsame, -⟩ := hash_split hnumber.notMem hnumber'.notMem heq
    rw [← hsame] at hnumber'
    obtain rfl := Digits.unique hnumber.3 hnumber'.3
    omega

/-- The longest text before the digits -/
def prefixLength (base : ℕ) : ℕ := if base = 10 then 0 else if 10 < base then 3 else 2

theorem numchars (hw : w.AsciiAlpha) {base v : ℕ} {digits : List Char}
    (hdigits : Digits base digits v) : ∀ c ∈ digits, w.isNumchar c = true ∨ c = '#' :=
  fun c hc => .inl (isNumchar_of_digits hw hdigits c hc)

/-- What stands before the digits tells their base. -/
theorem writePrefix_spec (hw : w.AsciiAlpha) {base v : ℕ} (hlow : 2 ≤ base) (hhigh : base ≤ 64)
    {flags : FmtFlags} (hadd : flags.flAddbase = true) {b b' : Backward} {pre : List Char}
    (h : Writes base v b b' pre) (hempty : b.text = []) :
    ∃ front, (writePrefix base flags b').text = front ++ pre ∧
      (writePrefix base flags b').p = b'.p - front.length ∧ front.length ≤ prefixLength base ∧
      (∀ c ∈ front, w.isNumchar c = true ∨ c = '#') ∧
      ∀ s, w.strlong (front ++ pre) s = (.ok (Int64.ofNat v), s) := by
  have htext : b'.text = pre := by rw [h.text, hempty, List.append_nil]
  have hchars := numchars hw h.digits
  rw [writePrefix]
  by_cases hprefix : flags.flPrefix ∧ (base = 8 ∨ base = 16)
  · rw [if_pos hprefix]
    by_cases hhex : base = 16
    · subst hhex
      rw [if_pos rfl]
      have hfront : ∀ c ∈ ['0', if flags.flHexupper = true then 'X' else 'x'],
          w.isNumchar c = true ∨ c = '#' := by
        intro c hc
        refine .inl ?_
        rcases List.mem_cons.mp hc with rfl | hc
        · exact isNumchar_of_digitIn hw (digitIn_zero (by decide : 0 < 2))
        · rw [List.mem_singleton.mp hc]
          split_ifs
          · exact isNumchar_of_digitIn hw (show digitIn 36 'X' = some 33 by decide)
          · exact isNumchar_of_digitIn hw (show digitIn 36 'x' = some 33 by decide)
      refine ⟨['0', if flags.flHexupper then 'X' else 'x'], ?_, ?_, le_of_lt (Nat.lt_succ_self 2),
        hfront, fun s => ?_⟩
      · rw [Backward.put, Backward.put, htext]
        rfl
      · simp only [Backward.put, List.length_cons, List.length_nil]
        push_cast
        ring
      · refine (strlong_zero hw (fun c hc => ?_) s).1 v (.hexadecimal ?_ h.digits)
        · rcases List.mem_cons.mp hc with rfl | hc
          · exact hfront _ (List.mem_cons_of_mem _ List.mem_cons_self)
          · exact hchars c hc
        · split_ifs
          · exact .inr rfl
          · exact .inl rfl
    · obtain rfl : base = 8 := hprefix.2.resolve_right hhex
      rw [if_neg hhex, htext]
      by_cases hhead : pre.head? = some '0'
      · have hzero : v = 0 := Nat.eq_zero_of_not_pos fun hpos => h.head hpos hhead
        subst hzero
        rw [if_neg (not_not.mpr hhead), h.eq_zero (by decide)]
        refine ⟨[], ?_, (by simp), by decide, nofun, fun s => rfl⟩
        rw [htext, h.eq_zero (by decide)]
        rfl
      · rw [if_pos hhead]
        refine ⟨['0'], ?_, rfl, by decide, fun c hc => .inl ?_, fun s => ?_⟩
        · rw [Backward.put, htext]
          rfl
        · rw [List.mem_singleton.mp hc]
          exact isNumchar_of_digitIn hw (digitIn_zero (by decide : 0 < 2))
        · exact (strlong_zero hw hchars s).1 v (.octal h.digits)
  · rw [if_neg hprefix]
    by_cases hten : base = 10
    · subst hten
      rw [if_neg fun hand => hand.2 rfl]
      exact ⟨[], htext, (by simp), by decide, nofun, strlong_printed hw h⟩
    · rw [if_pos ⟨hadd, hten⟩]
      refine ⟨baseText base ++ ['#'], ?_, ?_, ?_, fun c hc => ?_, fun s => ?_⟩
      · rw [baseText, List.append_assoc]
        split_ifs
        · simp only [Backward.put, htext]
          rfl
        · simp only [Backward.put, htext]
          rfl
      · rw [baseText]
        split_ifs
        · simp only [Backward.put, List.length_append, List.length_cons, List.length_nil]
          push_cast
          ring
        · simp only [Backward.put, List.length_append, List.length_cons, List.length_nil]
          push_cast
          ring
      · rw [baseText, prefixLength, if_neg hten]
        split_ifs
        · exact le_refl _
        · exact le_refl _
      · rcases List.mem_append.mp hc with hc | hc
        · exact numchars hw (decimalNumber_baseText hlow hhigh hten).3 c hc
        · exact .inr (List.mem_singleton.mp hc)
      · rw [List.append_assoc]
        exact strlong_based hw hlow hhigh hten h.digits h.nonempty s

/-- A number's text is read with `strlong`, behind a unary minus. -/
def readSigned (w : ExprWorld Θ) : List Char → ExprM Θ Int64
  | '-' :: text => do
      let val ← w.strlong text
      return -val
  | text => w.strlong text

theorem readSigned_minus {text : List Char} {val : Int64} {s : ExprState Θ}
    (h : w.strlong text s = (.ok val, s)) : w.readSigned ('-' :: text) s = (.ok (-val), s) :=
  Act.bind_of_ok h

theorem readSigned_plain {text : List Char} (h : text.head? ≠ some '-') :
    w.readSigned text = w.strlong text := by
  unfold readSigned
  split
  · exact absurd rfl h
  · rfl

theorem minus_not_numchar (hw : w.AsciiAlpha) : ¬(w.isNumchar '-' = true ∨ '-' = '#') := by
  rw [isNumchar, hw '-' (by decide)]
  decide

/-! ## The round trip -/

theorem ofNat_toNat (ui : UInt64) : Int64.ofNat ui.toNat = ui.toInt64 := by
  rw [← Int64.toBitVec_inj]
  simp

theorem neg_ofNat (ui : UInt64) : -Int64.ofNat (-ui).toNat = ui.toInt64 := by
  rw [ofNat_toNat, UInt64.toInt64_neg, Int64.neg_neg]

/-- `INT_STRLEN_BOUND` of a 64-bit type -/
def intStrlenBound (signed : Bool) : ℕ := (64 - signed.toNat) * 302 / 1000 + 1 + signed.toNat

/-- What `fmtulong` writes with `FL_ADDBASE` is read as the value that was printed, and it stays in
a buffer for 64 digits, what stands before them, a sign and the NUL; in base 10, in one of the
callers' size. -/
theorem strlong_fmtulong (hw : w.AsciiAlpha) (ui : UInt64) {base : Int} (hlow : 2 ≤ base)
    (hhigh : base ≤ 64) {flags : FmtFlags} (hadd : flags.flAddbase = true) (len : ℕ)
    (s : ExprState Θ) :
    w.readSigned (fmtulong ui base len flags).text s = (.ok ui.toInt64, s) ∧
      (64 + prefixLength base.toNat + (!flags.flUnsigned).toNat + 1 ≤ len →
        0 ≤ (fmtulong ui base len flags).p + 1) ∧
      (base = 10 → intStrlenBound (!flags.flUnsigned) + 1 ≤ len →
        0 ≤ (fmtulong ui base len flags).p + 1) := by
  obtain ⟨n, rfl⟩ := Int.eq_ofNat_of_zero_le (show 0 ≤ base by omega)
  have hbase : 2 ≤ n ∧ n ≤ 64 := by omega
  have hspec (ui : UInt64) := writeDigits_writes ui hbase.1 hbase.2 flags.flHexupper ⟨len - 2, []⟩
  have hlength {u : UInt64} {b' : Backward} {pre : List Char}
      (hpre : Writes n u.toNat ⟨len - 2, []⟩ b' pre) : pre.length ≤ 64 :=
    hpre.length 64 (by decide) (u.toNat_lt.trans_le (Nat.pow_le_pow_left hbase.1 64))
  have hten {u : UInt64} {b' : Backward} {pre : List Char}
      (hpre : Writes n u.toNat ⟨len - 2, []⟩ b' pre) (hn : n = 10) : pre.length ≤ 20 := by
    subst hn
    exact hpre.length 20 (by decide) (u.toNat_lt.trans (by decide))
  have hbound : intStrlenBound true = 21 ∧ intStrlenBound false = 20 := by decide
  rw [fmtulong, if_neg (show ¬(n : Int) = 0 by omega), if_neg (by omega), Int.toNat_natCast]
  cases hsign : hasSign ui flags with
  | true =>
      obtain ⟨pre, hpre⟩ := hspec (-ui)
      obtain ⟨front, htext, hp, hfront, _, hread⟩ :=
        writePrefix_spec hw hbase.1 hbase.2 hadd hpre rfl
      have hsigned : flags.flUnsigned = false := by
        cases hflag : flags.flUnsigned with
        | false => rfl
        | true => simp [hasSign, hflag] at hsign
      simp only [if_true, Backward.put, htext, hp, hpre.p, hsigned, Bool.not_false, Bool.toNat_true,
        hbound.1]
      have hdigits := hlength hpre
      refine ⟨?_, fun hfits => ?_, fun heq hfits => ?_⟩
      · rw [← neg_ofNat ui]
        exact readSigned_minus (hread s)
      · omega
      · have hdecimal := hten hpre (by omega)
        have hzero : prefixLength n = 0 := if_pos (by omega)
        omega
  | false =>
      obtain ⟨pre, hpre⟩ := hspec ui
      obtain ⟨front, htext, hp, hfront, hchars, hread⟩ :=
        writePrefix_spec hw hbase.1 hbase.2 hadd hpre rfl
      simp only [Bool.false_eq_true, if_false, htext, hp, hpre.p]
      have hdigits := hlength hpre
      refine ⟨?_, fun hfits => ?_, fun heq hfits => ?_⟩
      · rw [readSigned_plain, hread s, ofNat_toNat]
        intro hhead
        have hmem : '-' ∈ front ++ pre := List.mem_of_head? hhead
        rcases List.mem_append.mp hmem with hmem | hmem
        · exact minus_not_numchar hw (hchars _ hmem)
        · exact minus_not_numchar hw (numchars hw hpre.digits _ hmem)
      · omega
      · have hdecimal := hten hpre (by omega)
        have hzero : prefixLength n = 0 := if_pos (by omega)
        cases hflag : flags.flUnsigned with
        | true =>
            rw [hflag, Bool.not_true, hbound.2] at hfits
            omega
        | false =>
            rw [hflag, Bool.not_false, hbound.1] at hfits
            omega

theorem strlong_fmtulong_lowest :
    noVariables.readSigned (fmtulong (2 ^ 63) 2 68 ⟨false, true, false, false⟩).text freshExpr =
        (.ok (UInt64.toInt64 (2 ^ 63)), freshExpr) ∧
      (64 + prefixLength 2 + (!false).toNat + 1 ≤ 68 →
        0 ≤ (fmtulong (2 ^ 63) 2 68 ⟨false, true, false, false⟩).p + 1) ∧
      ((2 : Int) = 10 → intStrlenBound (!false) + 1 ≤ 68 →
        0 ≤ (fmtulong (2 ^ 63) 2 68 ⟨false, true, false, false⟩).p + 1) :=
  strlong_fmtulong (fun _ _ => rfl) (2 ^ 63) (by decide) (by decide) rfl 68 freshExpr

end ExprWorld

end Rash
