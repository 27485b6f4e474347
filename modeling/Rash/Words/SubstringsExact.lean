import Mathlib.Tactic.Linarith
import Rash.Words.Locales
import Rash.Words.Substrings

/-!
# Where substrings are exact

The numbers come out as in the reference where their sum is an `intmax_t`; the functions that cut
agree with it where the indices, and the bytes in front of them, are an `int`.
-/

namespace Rash

namespace Substrings

open Quoting

/-! ## When it is exact -/

/-- The sum of the start and the length is an `intmax_t`. -/
def LengthFits (start : ℤ) (length : Option ℤ) : Prop :=
  ∀ l, length = some l → 0 ≤ l → start + l ≤ intmaxMax

theorem sum_fits {a b : ℤ} (hlow : -2 ^ 63 ≤ a + b) (hhigh : a + b ≤ intmaxMax) :
    sum 64 a b = (a + b, false) := by
  have hmax : intmaxMax = 2 ^ 63 - 1 := rfl
  simp only [sum, Int.bmod_def, Prod.mk.injEq, decide_eq_false_iff_not, not_not]
  omega

theorem sum_overflows {a b : ℤ} (h : intmaxMax < a + b) : (sum 64 a b).2 = true := by
  have hmax : intmaxMax = 2 ^ 63 - 1 := rfl
  simp only [sum, decide_eq_true_eq]
  omega

theorem overflow_of_not_fits {start l : ℤ} (h : ¬ LengthFits start (some l)) :
    intmaxMax < start + l := by
  by_contra hle
  exact h fun l' hl' _ => Option.some.inj hl' ▸ Int.not_lt.mp hle

/-- The verdict on a span that is selected. -/
def Span.verdict : Span → Verdict
  | .nothing => .outOfRange
  | .error => .invalid
  | .span start stop => .ok start stop

theorem offset_eq {n offset : ℤ} (hn : 0 ≤ n) (hmax : n ≤ intmaxMax) (hoffset : -2 ^ 63 ≤ offset) :
    (if offset < 0 then sum 64 offset n else (offset, false)) = (startOf n offset, false) := by
  have hlimit : intmaxMax = 2 ^ 63 - 1 := rfl
  unfold startOf
  split_ifs with hneg
  · exact sum_fits (by omega) (by omega)
  · rfl

theorem counted_eq (n start l : ℤ) :
    (if n < l + start then n else l + start) = min n (start + l) := by
  split_ifs <;> omega

section Verify

variable {n offset : ℤ} {length : Option ℤ} (hn : 0 ≤ n) (hmax : n ≤ intmaxMax)
  (hoffset : -2 ^ 63 ≤ offset) (hlength : ∀ l, length = some l → -2 ^ 63 ≤ l)

include hn hmax hoffset

theorem verify_scalar_start : verifySubstringValues (.scalar n) (some offset) (length.map some) =
    if n < startOf n offset ∨ startOf n offset < 0 then ⟨.outOfRange, false⟩
    else verifyLength (.scalar n) n (startOf n offset) (length.map some) := by
  unfold verifySubstringValues
  dsimp only [VarType.len]
  rw [if_neg (by omega), offset_eq hn hmax hoffset]
  split_ifs <;> rfl

include hlength

/-- The numbers of a value come out as in the reference. -/
theorem verify_scalar
    (hfits : ∀ s e, scalarSpan n offset length = .span s e → LengthFits s length) :
    verifySubstringValues (.scalar n) (some offset) (length.map some) =
      ⟨(scalarSpan n offset length).verdict, false⟩ := by
  have hlimit : intmaxMax = 2 ^ 63 - 1 := rfl
  rw [verify_scalar_start hn hmax hoffset]
  unfold scalarSpan at hfits ⊢
  dsimp only at hfits ⊢
  by_cases hrange : startOf n offset < 0 ∨ n < startOf n offset
  · rw [if_pos hrange, if_pos hrange.symm]
    rfl
  · rw [if_neg hrange, if_neg (mt Or.symm hrange)]
    cases length with
    | none => rfl
    | some l =>
        have hl := hlength l rfl
        rw [if_neg hrange] at hfits
        dsimp only [Option.map_some, verifyLength] at hfits ⊢
        by_cases hneg : l < 0
        · rw [if_pos hneg, if_pos hneg, sum_fits (by omega) (by omega)]
          by_cases herror : n + l < startOf n offset
          · rw [if_pos herror, if_pos (by omega)]
            rfl
          · rw [if_neg herror, if_neg (by omega), if_neg (by omega), Int.add_comm l n]
            rfl
        · have hfit := hfits _ _ (if_neg hneg) l rfl (by omega)
          rw [if_neg hneg, if_neg hneg, sum_fits (by omega) (by omega), counted_eq]
          rfl

/-- A sum that is no `intmax_t` overflows. -/
theorem verify_scalar_overflows {s e : ℤ} (hspan : scalarSpan n offset length = .span s e)
    (hfits : ¬ LengthFits s length) :
    (verifySubstringValues (.scalar n) (some offset) (length.map some)).overflow = true := by
  rw [verify_scalar_start hn hmax hoffset]
  unfold scalarSpan at hspan
  dsimp only at hspan
  by_cases hrange : startOf n offset < 0 ∨ n < startOf n offset
  · rw [if_pos hrange] at hspan
    cases hspan
  · rw [if_neg hrange] at hspan
    rw [if_neg (mt Or.symm hrange)]
    cases length with
    | none => exact absurd nofun hfits
    | some l =>
        by_cases hneg : l < 0
        · refine absurd (fun l' hl' hpos => ?_) hfits
          obtain rfl := Option.some.inj hl'
          omega
        · dsimp only at hspan
          rw [if_neg hneg] at hspan
          cases hspan
          have hlarge := overflow_of_not_fits hfits
          dsimp only [Option.map_some, verifyLength]
          rw [if_neg hneg]
          exact sum_overflows (by omega)

end Verify

/-! ## The positional parameters -/

/-- Counting from `$0` makes the limit one more. -/
def listLimit (m offset : ℤ) : ℤ := if offset = 0 then m + 2 else m + 1

theorem verify_overflow_of_len {vtype : VarType} {offset : ℤ} (h : (vtype.len offset).2 = true)
    (length : Option (Option ℤ)) :
    (verifySubstringValues vtype (some offset) length).overflow = true := by
  unfold verifySubstringValues
  dsimp only
  split_ifs <;> simp [h]

/-- The count of the parameters and 1 is computed in `int`. -/
theorem sum_count_overflows {m : ℤ} (hcount : intMax < m + 1) (offset : ℤ)
    (length : Option (Option ℤ)) :
    (verifySubstringValues (.posparms m) (some offset) length).overflow = true := by
  have hlimit : intMax = 2 ^ 31 - 1 := rfl
  have hsum : (sum 32 m 1).2 = true := by
    simp only [sum, decide_eq_true_eq]
    omega
  refine verify_overflow_of_len ?_ length
  unfold VarType.len
  dsimp only
  split_ifs <;> exact hsum

section VerifyList

variable {m offset : ℤ} {length : Option ℤ} (hm : 0 ≤ m) (hcount : m + 1 ≤ intMax)
  (hoffset : -2 ^ 63 ≤ offset)

include hm hcount hoffset

theorem verify_list_start : verifySubstringValues (.posparms m) (some offset) (length.map some) =
    if m + 1 < startOf (m + 1) offset ∨ startOf (m + 1) offset < 0 then ⟨.outOfRange, false⟩
    else verifyLength (.posparms m) (listLimit m offset) (startOf (m + 1) offset) (length.map some) := by
  have hlimit : intMax = 2 ^ 31 - 1 := rfl
  have hlimit' : intmaxMax = 2 ^ 63 - 1 := rfl
  have hsum : sum 32 m 1 = (m + 1, false) := by
    simp only [sum, Int.bmod_def, Prod.mk.injEq, decide_eq_false_iff_not, not_not]
    omega
  have hlen : (VarType.posparms m).len offset = (listLimit m offset, false) := by
    unfold VarType.len listLimit
    dsimp only
    rw [hsum]
    split_ifs
    · exact congrArg (·, false) (by omega)
    · rfl
  unfold verifySubstringValues
  dsimp only
  rw [hlen]
  dsimp only
  rw [if_neg (by unfold listLimit; split_ifs <;> omega)]
  by_cases hzero : offset = 0
  · subst hzero
    have hstart : (if (0 : ℤ) < 0 then sum 64 0 (listLimit m 0) else (0, false)) = (0, false) := rfl
    have htwo : listLimit m 0 = m + 2 := rfl
    have hzero : startOf (m + 1) 0 = 0 := rfl
    rw [hstart, htwo, hzero, if_neg (by omega), if_neg (by omega)]
    rfl
  · have hone : listLimit m offset = m + 1 := if_neg hzero
    rw [hone, offset_eq (by omega) (by omega) hoffset]
    split_ifs <;> rfl

/-- The numbers of the parameters come out as in the reference, but for the limit. -/
theorem verify_list (hlength : ∀ l, length = some l → -2 ^ 63 ≤ l)
    (hfits : ∀ s e, listSpan (m + 1) (listLimit m offset) offset length = .span s e →
      LengthFits s length) :
    verifySubstringValues (.posparms m) (some offset) (length.map some) =
      ⟨(listSpan (m + 1) (listLimit m offset) offset length).verdict, false⟩ := by
  have hlimit : intMax = 2 ^ 31 - 1 := rfl
  rw [verify_list_start hm hcount hoffset]
  unfold listSpan at hfits ⊢
  dsimp only at hfits ⊢
  by_cases hrange : startOf (m + 1) offset < 0 ∨ m + 1 < startOf (m + 1) offset
  · rw [if_pos hrange, if_pos hrange.symm]
    rfl
  · rw [if_neg hrange, if_neg (mt Or.symm hrange)]
    cases length with
    | none => rfl
    | some l =>
        rw [if_neg hrange] at hfits
        dsimp only [Option.map_some, verifyLength] at hfits ⊢
        by_cases hneg : l < 0
        · rw [if_pos hneg, if_pos hneg]
          rfl
        · have hfit := hfits _ _ (if_neg hneg) l rfl (by omega)
          rw [if_neg hneg, if_neg hneg, sum_fits (by omega) (by omega), counted_eq]
          rfl

theorem verify_list_overflows {s e : ℤ}
    (hspan : listSpan (m + 1) (listLimit m offset) offset length = .span s e)
    (hfits : ¬ LengthFits s length) :
    (verifySubstringValues (.posparms m) (some offset) (length.map some)).overflow = true := by
  rw [verify_list_start hm hcount hoffset]
  unfold listSpan at hspan
  dsimp only at hspan
  by_cases hrange : startOf (m + 1) offset < 0 ∨ m + 1 < startOf (m + 1) offset
  · rw [if_pos hrange] at hspan
    cases hspan
  · rw [if_neg hrange] at hspan
    rw [if_neg (mt Or.symm hrange)]
    cases length with
    | none => exact absurd nofun hfits
    | some l =>
        dsimp only at hspan
        by_cases hneg : l < 0
        · rw [if_pos hneg] at hspan
          cases hspan
        · rw [if_neg hneg] at hspan
          cases hspan
          have hlarge := overflow_of_not_fits hfits
          dsimp only [Option.map_some, verifyLength]
          rw [if_neg hneg]
          exact sum_overflows (by omega)

end VerifyList

/-! ## The cuts -/

theorem toInt_of_le {v : ℤ} (hpos : 0 ≤ v) (h : v ≤ intMax) : toInt v = v := by
  have hlimit : intMax = 2 ^ 31 - 1 := rfl
  simp only [toInt, Int.bmod_def]
  omega

theorem toInt_le_self {v : ℤ} (hpos : 0 ≤ v) : toInt v ≤ v ∧ toInt v ≤ intMax := by
  have hlimit : intMax = 2 ^ 31 - 1 := rfl
  simp only [toInt, Int.bmod_def]
  omega

theorem toSize_of_le {v : ℤ} (hpos : 0 ≤ v) (h : v ≤ intmaxMax) : (toSize v : ℤ) = v := by
  have hlimit : intmaxMax = 2 ^ 63 - 1 := rfl
  unfold toSize
  omega

theorem takeParams_eq (stop : ℤ) (params : List Quoting.Bytes) (i : ℤ) :
    takeParams stop params i = params.take (stop - i).toNat := by
  induction params generalizing i with
  | nil => simp [takeParams]
  | cons p params ih =>
      rw [takeParams]
      split_ifs with hlt
      · rw [ih, show (stop - i).toNat = (stop - (i + 1)).toNat + 1 by omega, List.take_succ_cons]
      · rw [show (stop - i).toNat = 0 by omega, List.take_zero]

theorem skipParams_eq {start : ℤ} (params : List Quoting.Bytes) {i : ℤ} (hi : i ≤ start) :
    (skipParams start params i).1 = params.drop (start - i).toNat ∧
      ((skipParams start params i).1 ≠ [] → (skipParams start params i).2 = start) := by
  induction params generalizing i with
  | nil => simp [skipParams]
  | cons p params ih =>
      rw [skipParams]
      split_ifs with hlt
      · rw [show (start - i).toNat = (start - (i + 1)).toNat + 1 by omega, List.drop_succ_cons]
        exact ih (by omega)
      · rw [show (start - i).toNat = 0 by omega, List.drop_zero]
        exact ⟨rfl, fun _ => by omega⟩

theorem taken_eq (params : List Quoting.Bytes) (h : Quoting.Bytes) {i e : ℤ} (hi : i < e) :
    (match takeParams e (h :: params) i with
      | [] => [h]
      | taken => taken) = (h :: params).take (e - i).toNat := by
  rw [takeParams_eq, show (e - i).toNat = (e - i - 1).toNat + 1 by omega, List.take_succ_cons]

theorem posParams_eq (zero : Quoting.Bytes) (args : List Quoting.Bytes) {s e : ℤ} (hs : 0 ≤ s) (he : s ≤ e) :
    posParams zero args s e = slice (zero :: args) s e := by
  unfold posParams slice
  by_cases hempty : s = e
  · rw [if_pos hempty, hempty, List.drop_take_self]
  · rw [if_neg hempty]
    by_cases hzero : s = 0
    · subst hzero
      have hskip : skipParams 0 (zero :: args) 0 = (zero :: args, 0) := rfl
      rw [if_neg fun h => absurd h.2 (lt_irrefl 0)]
      simp only [if_true, hskip]
      refine (taken_eq args zero (by omega)).trans ?_
      rw [Int.sub_zero]
      rfl
    · have hcut : ((zero :: args).take e.toNat).drop s.toNat =
          (args.drop (s - 1).toNat).take (e - s).toNat := by
        rw [show e.toNat = (e - 1).toNat + 1 by omega, show s.toNat = (s - 1).toNat + 1 by omega,
          List.take_succ_cons, List.drop_succ_cons, List.drop_take,
          show (e - 1).toNat - (s - 1).toNat = (e - s).toNat by omega]
      rw [hcut]
      by_cases hargs : args = [] ∧ 0 < s
      · rw [if_pos hargs, hargs.1, List.drop_nil, List.take_nil]
      · rw [if_neg hargs]
        simp only [if_neg hzero]
        obtain ⟨hdrop, hcounter⟩ := skipParams_eq args (show 1 ≤ s by omega)
        rw [← hdrop]
        revert hcounter
        rcases skipParams s args 1 with ⟨_ | ⟨h, params⟩, i⟩
        · intro _
          rw [List.take_nil]
        · intro hcounter
          obtain rfl := hcounter (List.cons_ne_nil _ _)
          exact taken_eq params h (by omega)

/-! ### Characters -/

/-- `mbrlen` looks at no more than the string. -/
def MbrlenFits (loc : Quoting.Locale) : Prop :=
  ∀ (s : Quoting.Bytes) (n : ℕ), s ≠ [] → loc.mbrlen s = some n → n ≤ s.length

theorem MbrlenFits.charLen_le {loc : Quoting.Locale} (hloc : MbrlenFits loc) {s : Quoting.Bytes} (hs : s ≠ []) :
    loc.charLen s ≤ s.length := by
  have hpos : 0 < s.length := List.length_pos_iff.mpr hs
  unfold Quoting.Locale.charLen
  split
  · exact hpos
  · next n hn => exact max_le (hloc s n hs hn) hpos

theorem cutFrom_eq_chars (loc : Quoting.Locale) {n : ℕ} {s : Quoting.Bytes} (hn : s.length ≤ n) :
    loc.cutFrom n s = loc.chars s := by
  have hfuel (n m : ℕ) (s : Quoting.Bytes) (hn : s.length ≤ n) (hm : s.length ≤ m) :
      loc.cutFrom n s = loc.cutFrom m s := by
    induction n generalizing m s with
    | zero =>
        rw [List.length_eq_zero_iff.mp (Nat.le_zero.mp hn)]
        cases m <;> rfl
    | succ n ih =>
        cases s with
        | nil => cases m <;> rfl
        | cons c s =>
            cases m with
            | zero => exact absurd hm (by simp)
            | succ m =>
                have hpos := loc.charLen_pos (c :: s)
                simp only [List.length_cons] at hn hm
                refine congrArg _ (ih m _ ?_ ?_) <;> rw [List.length_drop, List.length_cons] <;> omega
  exact hfuel n s.length s hn le_rfl

theorem chars_cons (loc : Quoting.Locale) (c : UInt8) (s : Quoting.Bytes) : loc.chars (c :: s) =
    (c :: s).take (loc.charLen (c :: s)) :: loc.chars ((c :: s).drop (loc.charLen (c :: s))) := by
  have hpos := loc.charLen_pos (c :: s)
  rw [← cutFrom_eq_chars loc (n := s.length) (s := (c :: s).drop (loc.charLen (c :: s)))
    (by rw [List.length_drop, List.length_cons]; omega)]
  rfl

theorem flatten_chars_eq (loc : Quoting.Locale) (value : Quoting.Bytes) : (loc.chars value).flatten = value := by
  induction hlen : value.length using Nat.strong_induction_on generalizing value with
  | _ n ih =>
      cases value with
      | nil => rfl
      | cons c s =>
          have hpos := loc.charLen_pos (c :: s)
          rw [chars_cons, List.flatten_cons, ih _ ?_ _ rfl, List.take_append_drop]
          rw [List.length_drop, ← hlen, List.length_cons]
          omega

theorem take_flatten_length (us : List Quoting.Bytes) (i : ℕ) :
    us.flatten.take (us.take i).flatten.length = (us.take i).flatten := by
  have hsplit : us.flatten = (us.take i).flatten ++ (us.drop i).flatten := by
    rw [← List.flatten_append, List.take_append_drop]
  conv_lhs => rw [hsplit]
  exact List.take_left

/-- The characters behind the first ones. -/
theorem chars_drop (loc : Quoting.Locale) (i : ℕ) (s : Quoting.Bytes) :
    loc.chars (s.drop ((loc.chars s).take i).flatten.length) = (loc.chars s).drop i := by
  induction i generalizing s with
  | zero => rfl
  | succ i ih =>
      cases s with
      | nil => rfl
      | cons c s =>
          rw [chars_cons, List.take_succ_cons, List.drop_succ_cons, List.flatten_cons,
            List.length_append, ← List.drop_drop, ← ih]
          congr 2
          rw [List.length_take, List.drop_eq_drop_iff]
          omega

/-- The loop goes over so many characters, if their bytes can be counted in `int`. -/
theorem advance_eq {loc : Quoting.Locale} (hloc : MbrlenFits loc) {n : ℕ} {s : Quoting.Bytes} (hn : s.length ≤ n)
    {i : ℤ} (hi : 0 ≤ i) {start : ℕ} (hstart : (start : ℤ) ≤ intMax) :
    advance loc n s i start =
      if ((start + ((loc.chars s).take i.toNat).flatten.length : ℕ) : ℤ) ≤ intMax then
        some (start + ((loc.chars s).take i.toNat).flatten.length) else none := by
  induction n generalizing s i start with
  | zero =>
      rw [List.length_eq_zero_iff.mp (Nat.le_zero.mp hn)]
      simp [advance, Quoting.Locale.chars, Quoting.Locale.cutFrom, hstart]
  | succ n ih =>
      cases s with
      | nil => simp [advance, Quoting.Locale.chars, Quoting.Locale.cutFrom, hstart]
      | cons c s =>
          have hpos := loc.charLen_pos (c :: s)
          have hle := hloc.charLen_le (List.cons_ne_nil c s)
          rw [advance]
          by_cases hzero : i = 0
          · subst hzero
            simp [hstart]
          · rw [if_neg hzero, chars_cons, show i.toNat = (i - 1).toNat + 1 by omega,
              List.take_succ_cons, List.flatten_cons, List.length_append, List.length_take_of_le hle,
              ← Nat.add_assoc]
            split_ifs with hfar hnear hnear
            · push_cast at hnear
              omega
            · rfl
            · rw [ih _ (by omega) (by push_cast; omega), if_pos hnear]
              rw [List.length_drop]
              omega
            · rw [ih _ (by omega) (by push_cast; omega), if_neg hnear]
              rw [List.length_drop]
              omega

theorem mbSubstring_eq {loc : Quoting.Locale} (hloc : MbrlenFits loc) (string : Quoting.Bytes) {s e : ℤ}
    (hs : 0 ≤ s) (he : s ≤ e) : mbSubstring loc string s e =
      if (((loc.chars string).take e.toNat).flatten.length : ℤ) ≤ intMax then
        some (slice (loc.chars string) s e).flatten else none := by
  have hzero : ((0 : ℕ) : ℤ) ≤ intMax := by decide
  have hflat := flatten_chars_eq loc string
  set us := loc.chars string with hus
  have hsplit : us.take e.toNat = us.take s.toNat ++ (us.drop s.toNat).take (e - s).toNat := by
    rw [← List.take_add, show s.toNat + (e - s).toNat = e.toNat by omega]
  have hbytes : (us.take e.toNat).flatten.length = (us.take s.toNat).flatten.length +
      ((us.drop s.toNat).take (e - s).toNat).flatten.length := by
    rw [hsplit, List.flatten_append, List.length_append]
  have hrest (start : ℕ) (hstart : start = (us.take s.toNat).flatten.length)
      (hnear : (start : ℤ) ≤ intMax) :
      advance loc string.length (string.drop start) (e - s) start =
        if ((us.take e.toNat).flatten.length : ℤ) ≤ intMax then
          some (us.take e.toNat).flatten.length else none := by
    rw [advance_eq hloc (by rw [List.length_drop]; omega) (by omega) hnear, hstart, hus, chars_drop,
      ← hus, hbytes]
  unfold mbSubstring
  rw [advance_eq hloc le_rfl hs hzero, Nat.zero_add, ← hus]
  by_cases hend : ((us.take e.toNat).flatten.length : ℤ) ≤ intMax
  · have hnear : ((us.take s.toNat).flatten.length : ℤ) ≤ intMax := by
      rw [hbytes] at hend
      push_cast at hend
      omega
    rw [if_pos hnear, if_pos hend]
    simp only [Option.bind_eq_bind, Option.bind_some, hrest _ rfl hnear, if_pos hend]
    have hle : (us.take e.toNat).flatten.length ≤ string.length := by
      rw [← hflat, ← take_flatten_length us e.toNat]
      exact List.length_take_le' _ _
    rw [substring, if_pos ⟨by omega, hle⟩, ← hflat, take_flatten_length, slice]
    conv_lhs => rw [hsplit, List.flatten_append, List.drop_left]
    rw [List.drop_take, show e.toNat - s.toNat = (e - s).toNat by omega]
  · rw [if_neg hend]
    split_ifs with hnear
    · simp only [Option.bind_eq_bind, Option.bind_some, hrest _ rfl hnear, if_neg hend]
      rfl
    · rfl

theorem length_chars_le (loc : Quoting.Locale) (value : Quoting.Bytes) :
    (loc.chars value).length ≤ value.length := by
  have hcut (n : ℕ) (s : Quoting.Bytes) : (loc.cutFrom n s).length ≤ n := by
    induction n generalizing s with
    | zero => exact le_rfl
    | succ n ih =>
        cases s with
        | nil => exact Nat.zero_le _
        | cons c s => exact Nat.succ_le_succ (ih _)
  exact hcut _ _

theorem flatten_map_singleton (value : Quoting.Bytes) : (value.map ([·])).flatten = value := by
  induction value with
  | nil => rfl
  | cons c value ih => rw [List.map_cons, List.flatten_cons, ih, List.singleton_append]

theorem length_charsOf_le (loc : Option Quoting.Locale) (value : Quoting.Bytes) :
    (charsOf loc value).length ≤ value.length := by
  cases loc with
  | none => simp [charsOf]
  | some loc => exact length_chars_le loc value

/-- `int` can hold the two indices and the bytes in front of them; beyond it, only where what is
left of the indices happens to cut the same text. -/
def NarrowFits (loc : Quoting.Locale) (value : Quoting.Bytes) (s e : ℤ) : Prop :=
  0 ≤ toInt s ∧ toInt s ≤ toInt e ∧
    (((loc.chars value).take (toInt e).toNat).flatten.length : ℤ) ≤ intMax ∧
    (slice (loc.chars value) (toInt s) (toInt e)).flatten = (slice (loc.chars value) s e).flatten

theorem scalarSpan_bounds {n offset s e : ℤ} {length : Option ℤ}
    (h : scalarSpan n offset length = .span s e) : 0 ≤ s ∧ s ≤ e ∧ e ≤ n := by
  unfold scalarSpan at h
  dsimp only at h
  split_ifs at h with hrange
  cases length with
  | none =>
      cases h
      omega
  | some l =>
      dsimp only at h
      split_ifs at h <;> cases h <;> omega

theorem listSpan_bounds {n limit offset s e : ℤ} {length : Option ℤ} (hlimit : n ≤ limit)
    (h : listSpan n limit offset length = .span s e) : 0 ≤ s ∧ s ≤ n ∧ s ≤ e ∧ e ≤ limit := by
  unfold listSpan at h
  dsimp only at h
  split_ifs at h with hrange
  cases length with
  | none =>
      cases h
      omega
  | some l =>
      dsimp only at h
      split_ifs at h
      cases h
      omega

/-- When the substring of a value is exact. -/
def ScalarFits (loc : Option Quoting.Locale) (value : Quoting.Bytes) (offset : ℤ) (length : Option ℤ) : Prop :=
  ∀ s e, scalarSpan (charsOf loc value).length offset length = .span s e →
    LengthFits s length ∧ ∀ l, loc = some l → NarrowFits l value s e

/-- When the positional parameters that are selected are. -/
def ListFits (m offset : ℤ) (length : Option ℤ) : Prop :=
  m + 1 ≤ intMax ∧ ∀ s e, listSpan (m + 1) (listLimit m offset) offset length = .span s e →
    LengthFits s length ∧ e ≤ intMax

theorem slice_bytes (value : Quoting.Bytes) (s e : ℤ) :
    (slice (value.map ([·])) s e).flatten = slice value s e := by
  rw [slice, ← List.map_take, ← List.map_drop, flatten_map_singleton]
  rfl

/-- In a single-byte locale the indices are those of the bytes. -/
theorem substring_eq (value : Quoting.Bytes) {s e : ℤ} (hs : 0 ≤ s) (he : s ≤ e) (hn : e ≤ value.length)
    (hmax : (value.length : ℤ) ≤ intmaxMax) :
    substring value (toSize s) (toSize e) = some (slice value s e) := by
  have hstart := toSize_of_le hs (by omega)
  have hstop := toSize_of_le (show 0 ≤ e by omega) (by omega)
  rw [substring, if_pos (by omega), slice, show toSize s = s.toNat by omega,
    show toSize e = e.toNat by omega]

/-- With the numbers of the reference, the value is cut as in the reference. -/
theorem cut_exact_iff {loc : Option Quoting.Locale} (hloc : ∀ l, loc = some l → MbrlenFits l)
    {value : Quoting.Bytes} {s e : ℤ} (hs : 0 ≤ s) (he : s ≤ e) (hn : e ≤ (charsOf loc value).length)
    (hmax : (value.length : ℤ) ≤ intmaxMax) :
    Exact ⟨(cutScalar loc value s e).1.elim .undefined .text, false, some (cutScalar loc value s e).2⟩
        (.text (slice (charsOf loc value) s e).flatten) (charsOf loc value).length ↔
      ∀ l, loc = some l → NarrowFits l value s e := by
  cases loc with
  | none =>
      have hlen : ((charsOf none value).length : ℤ) = value.length := by simp [charsOf]
      rw [hlen] at hn
      refine iff_of_true ⟨?_, rfl, fun s' e' hindices => ?_⟩ nofun
      · simp only [cutScalar, substring_eq value hs he hn hmax, charsOf, slice_bytes]
        rfl
      · cases hindices
        have hstart := toSize_of_le hs (by omega)
        have hstop := toSize_of_le (show 0 ≤ e by omega) (by omega)
        omega
  | some loc =>
      have hfits := hloc loc rfl
      dsimp only [cutScalar, charsOf] at hn ⊢
      have hstop := toInt_le_self (show 0 ≤ e by omega)
      constructor
      · rintro ⟨houtcome, -, hindices⟩ l hl
        obtain rfl := Option.some.inj hl
        obtain ⟨hlow, hle, -⟩ := hindices _ _ rfl
        rw [mbSubstring_eq hfits value hlow hle] at houtcome
        split_ifs at houtcome with hbytes
        · exact ⟨hlow, hle, hbytes, Outcome.text.inj houtcome⟩
        · cases houtcome
      · intro h
        obtain ⟨hlow, hle, hbytes, htext⟩ := h loc rfl
        refine ⟨?_, rfl, fun s' e' hindices => ?_⟩
        · rw [mbSubstring_eq hfits value hlow hle, if_pos hbytes, htext]
          rfl
        · cases hindices
          exact ⟨hlow, hle, by omega⟩

theorem scalarSubstring_overflow (loc : Option Quoting.Locale) (value : Quoting.Bytes) (offset : Option ℤ)
    (length : Option (Option ℤ)) : (scalarSubstring loc value offset length).overflow =
      (verifySubstringValues (.scalar (charsOf loc value).length) offset length).overflow := by
  unfold scalarSubstring
  dsimp only
  split <;> rfl

theorem parametersSubstring_overflow (p : PositionalParameters) (offset : Option ℤ)
    (length : Option (Option ℤ)) : (parametersSubstring p offset length).overflow =
      (verifySubstringValues (.posparms p.args.length) offset length).overflow := by
  unfold parametersSubstring
  dsimp only
  split <;> rfl

theorem int64_lower {length : Option Int64} (l : ℤ) (h : length.map (·.toInt) = some l) :
    -2 ^ 63 ≤ l := by
  obtain ⟨v, -, rfl⟩ := Option.map_eq_some_iff.mp h
  exact Int64.le_toInt v

/-- The value is cut exactly where the sum of the two numbers is an `intmax_t`, and the indices
pass through `int`. -/
theorem scalar_exact_iff {loc : Option Quoting.Locale} (hloc : ∀ l, loc = some l → MbrlenFits l)
    (value : ScalarValue) (offset : Int64) (length : Option Int64) :
    Exact (scalarSubstring loc value.bytes (some offset.toInt) ((length.map (·.toInt)).map some))
        (scalarReference (charsOf loc value.bytes) offset.toInt (length.map (·.toInt)))
        (charsOf loc value.bytes).length ↔
      ScalarFits loc value.bytes offset.toInt (length.map (·.toInt)) := by
  have hlimit : intmaxMax = 2 ^ 63 - 1 := rfl
  have hsize := value.length_lt
  have hchars := length_charsOf_le loc value.bytes
  have hlow := @int64_lower length
  have hoffset := Int64.le_toInt offset
  generalize length.map (·.toInt) = length at hlow ⊢
  generalize offset.toInt = offset at hoffset ⊢
  have hn : (0 : ℤ) ≤ (charsOf loc value.bytes).length := by omega
  have hmax : ((charsOf loc value.bytes).length : ℤ) ≤ intmaxMax := by omega
  unfold scalarSubstring scalarReference ScalarFits
  cases hspan : scalarSpan (charsOf loc value.bytes).length offset length with
  | nothing =>
      rw [verify_scalar hn hmax hoffset hlow (fun s e h => by rw [hspan] at h; cases h), hspan]
      exact iff_of_true ⟨rfl, rfl, nofun⟩ nofun
  | error =>
      rw [verify_scalar hn hmax hoffset hlow (fun s e h => by rw [hspan] at h; cases h), hspan]
      exact iff_of_true ⟨rfl, rfl, nofun⟩ nofun
  | span s e =>
      obtain ⟨hs, he, hen⟩ := scalarSpan_bounds hspan
      by_cases hfits : LengthFits s length
      · rw [verify_scalar hn hmax hoffset hlow (fun s' e' h => by
          rw [hspan] at h
          cases h
          exact hfits), hspan]
        refine (cut_exact_iff hloc hs he hen (by omega)).trans ⟨fun h s' e' heq => ?_, fun h => ?_⟩
        · cases heq
          exact ⟨hfits, h⟩
        · exact (h s e rfl).2
      · refine iff_of_false (fun hexact => ?_) fun h => hfits (h s e rfl).1
        have hoverflow := verify_scalar_overflows hn hmax hoffset hlow hspan hfits
        rw [← scalarSubstring_overflow] at hoverflow
        exact Bool.false_ne_true (hexact.overflow.symm.trans hoverflow)

/-- Behind the last parameter there is nothing that a larger limit would add. -/
theorem slice_limit {m offset : ℤ} {length : Option ℤ} {xs : List Quoting.Bytes}
    (hxs : (xs.length : ℤ) = m + 1) :
    (match listSpan (m + 1) (listLimit m offset) offset length with
      | .nothing => Outcome.words []
      | .error => .error
      | .span start stop => .words (slice xs start stop)) =
    match listSpan (m + 1) (m + 1) offset length with
      | .nothing => .words []
      | .error => .error
      | .span start stop => .words (slice xs start stop) := by
  have hlimit : m + 1 ≤ listLimit m offset := by
    unfold listLimit
    split_ifs <;> omega
  have hcut (s a b : ℤ) (ha : m + 1 ≤ a) (hb : m + 1 ≤ b) : slice xs s a = slice xs s b := by
    rw [slice, slice, List.take_of_length_le (by omega), List.take_of_length_le (by omega)]
  unfold listSpan
  dsimp only
  split_ifs with hrange
  · rfl
  · cases length with
    | none => exact congrArg Outcome.words (hcut _ _ _ hlimit le_rfl)
    | some l =>
        dsimp only
        split_ifs with hneg
        · rfl
        · refine congrArg Outcome.words ?_
          by_cases hend : m + 1 ≤ startOf (m + 1) offset + l
          · exact hcut _ _ _ (by omega) (by omega)
          · rw [min_eq_right (by omega), min_eq_right (by omega)]

/-- The parameters that are selected are exact where the sum of the two numbers is an `intmax_t`,
and their number and the limit are an `int`. -/
theorem list_exact_iff (p : PositionalParameters) (offset : Int64) (length : Option Int64) :
    Exact (parametersSubstring p (some offset.toInt) ((length.map (·.toInt)).map some))
        (listReference p offset.toInt (length.map (·.toInt)))
        (listLimit p.args.length offset.toInt) ↔
      ListFits p.args.length offset.toInt (length.map (·.toInt)) := by
  have hlimit : intMax = 2 ^ 31 - 1 := rfl
  have hsize := p.count_lt
  have hlow := @int64_lower length
  have hoffset := Int64.le_toInt offset
  generalize length.map (·.toInt) = length at hlow ⊢
  generalize offset.toInt = offset at hoffset ⊢
  have hm : (0 : ℤ) ≤ p.args.length := by omega
  by_cases hcount : (p.args.length : ℤ) + 1 ≤ intMax
  · have hlist : listReference p offset length = _ :=
      (slice_limit (m := p.args.length) (by simp)).symm
    rw [hlist]
    unfold ListFits
    cases hspan : listSpan (p.args.length + 1) (listLimit p.args.length offset) offset length with
    | nothing =>
        refine iff_of_true ?_ ⟨hcount, nofun⟩
        unfold parametersSubstring
        rw [verify_list hm hcount hoffset hlow (fun s e h => by rw [hspan] at h; cases h), hspan]
        exact ⟨rfl, rfl, nofun⟩
    | error =>
        refine iff_of_true ?_ ⟨hcount, nofun⟩
        unfold parametersSubstring
        rw [verify_list hm hcount hoffset hlow (fun s e h => by rw [hspan] at h; cases h), hspan]
        exact ⟨rfl, rfl, nofun⟩
    | span s e =>
        have hone : (p.args.length : ℤ) + 1 ≤ listLimit p.args.length offset ∧
            listLimit p.args.length offset ≤ p.args.length + 2 := by
          unfold listLimit
          split_ifs <;> omega
        obtain ⟨hs, hsm, he, hen⟩ := listSpan_bounds hone.1 hspan
        by_cases hfits : LengthFits s length
        · unfold parametersSubstring
          rw [verify_list hm hcount hoffset hlow (fun s' e' h => by
            rw [hspan] at h
            cases h
            exact hfits), hspan]
          dsimp only [Span.verdict]
          by_cases hint : e ≤ intMax
          · refine iff_of_true ⟨?_, rfl, fun s' e' hindices => ?_⟩ ⟨hcount, fun s' e' heq => ?_⟩
            · rw [toInt_of_le hs (by omega), toInt_of_le (by omega) hint, posParams_eq _ _ hs he]
            · cases hindices
              rw [toInt_of_le hs (by omega), toInt_of_le (by omega) hint]
              exact ⟨hs, he, hen⟩
            · cases heq
              exact ⟨hfits, hint⟩
          · refine iff_of_false (fun hexact => ?_) fun h => hint (h.2 s e rfl).2
            obtain ⟨hlow, hle, -⟩ := hexact.indices _ _ rfl
            have hnegative : toInt e < 0 := by
              simp only [toInt, Int.bmod_def]
              omega
            omega
        · refine iff_of_false (fun hexact => ?_) fun h => hfits (h.2 s e rfl).1
          have hoverflow := verify_list_overflows hm hcount hoffset hspan hfits
          rw [← parametersSubstring_overflow] at hoverflow
          exact Bool.false_ne_true (hexact.overflow.symm.trans hoverflow)
  · refine iff_of_false (fun hexact => ?_) fun h => hcount h.1
    have hoverflow := sum_count_overflows (Int.not_le.mp hcount) offset (length.map some)
    rw [← parametersSubstring_overflow] at hoverflow
    exact Bool.false_ne_true (hexact.overflow.symm.trans hoverflow)

/-! ## Values and parameters together -/

/-- What a substring is taken of. -/
inductive Subject
  /-- a value, in a locale with multibyte characters or in another one -/
  | scalar (loc : Option Quoting.Locale) (value : ScalarValue)
  | parameters (p : PositionalParameters)

namespace Subject

/-- The substring is that of the reference, without an overflow, by indices into the subject. -/
def Exact (offset : Int64) (length : Option Int64) : Subject → Prop
  | .scalar loc value => Substrings.Exact
      (scalarSubstring loc value.bytes (some offset.toInt) ((length.map (·.toInt)).map some))
      (scalarReference (charsOf loc value.bytes) offset.toInt (length.map (·.toInt)))
      (charsOf loc value.bytes).length
  | .parameters p => Substrings.Exact
      (parametersSubstring p (some offset.toInt) ((length.map (·.toInt)).map some))
      (listReference p offset.toInt (length.map (·.toInt)))
      (listLimit p.args.length offset.toInt)

def Fits (offset : Int64) (length : Option Int64) : Subject → Prop
  | .scalar loc value => ScalarFits loc value.bytes offset.toInt (length.map (·.toInt))
  | .parameters p => ListFits p.args.length offset.toInt (length.map (·.toInt))

/-- The locale measures characters within the string. -/
def Measured : Subject → Prop
  | .scalar loc _ => ∀ l, loc = some l → MbrlenFits l
  | .parameters _ => True

end Subject

/-- A substring is exact just where the sum of start and length, and what passes through `int`,
fits its type. -/
theorem substring_exact_iff (subject : Subject) (hsubject : subject.Measured) (offset : Int64)
    (length : Option Int64) : subject.Exact offset length ↔ subject.Fits offset length := by
  cases subject with
  | scalar loc value => exact scalar_exact_iff hsubject value offset length
  | parameters p => exact list_exact_iff p offset length

/-- The string `abc`. -/
def abc : ScalarValue := ⟨[0x61, 0x62, 0x63], by decide⟩

theorem substring_exact_utf8 : (Subject.scalar (some utf8Locale) abc).Exact 1 (some 1) ↔
    (Subject.scalar (some utf8Locale) abc).Fits 1 (some 1) :=
  substring_exact_iff (.scalar (some utf8Locale) abc)
    (fun _ h _ _ => Option.some.inj h ▸ utf8Locale_lawful.mbrlen_le) 1 (some 1)

/-- `${v:1:9223372036854775807}` of `abc`, without multibyte characters. -/
theorem substring_overflows : ¬ (Subject.scalar none abc).Exact 1 (some Int64.maxValue) := by
  intro h
  exact absurd (Substrings.Exact.overflow h) (by decide)

end Substrings

end Rash
