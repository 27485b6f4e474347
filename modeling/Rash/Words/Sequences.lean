import Mathlib.Data.List.Range
import Mathlib.Algebra.Order.Group.Unbundled.Int
import Mathlib.Tactic.Positivity
import Mathlib.Tactic.Ring
import Rash.Words.Braces

/-!
# The vector of a sequence

`mkseq` with its additions on `intmax_t`, the vector that it fills, and the allocations and
interrupts on the way.
-/

namespace Rash

namespace Braces

/-- What the calls of `mkseq` come to, by the number of elements and the index of the turn. -/
structure SeqWorld where
  /-- `reallocarray` for so many pointers, whose size is a `size_t` -/
  reallocarray : ℕ → Bool
  /-- `realloc` for a padded number, or `malloc` for a letter -/
  allocated : ℕ → Bool
  interrupted : ℕ → Bool

inductive SeqEnd
  | vector (result : List Word)
  | failed
  /-- `throw_to_top_level` -/
  | interrupted
  /-- a division by zero, or a sum that is no `intmax_t` -/
  | overflow
  /-- a store behind the vector -/
  | overrun
  deriving DecidableEq

def ckdAdd (a b : ℤ) : Option ℤ :=
  if intmaxMin ≤ a + b ∧ a + b ≤ intmaxMax then some (a + b) else none

/-- A zero-padded number, in the memory that holds `width` characters: `memmove` puts the number
at the end, `memset` writes the zeros over what is in front of it. -/
def zeroPad (width : ℕ) (n : ℤ) : Word :=
  let t := itos n
  if t.length < width then
    let pad := width - t.length
    let moved := (t ++ List.replicate pad nul).take pad ++ t
    let sign := if n < 0 then 1 else 0
    moved.take sign ++ List.replicate pad '0' ++ moved.drop (sign + pad)
  else t

namespace SeqWorld

variable (w : SeqWorld)

/-- `strvec_mcreate`. -/
def strvecMcreate (n : ℕ) : Bool := decide (n * 8 < 2 ^ 64) && w.reallocarray n

/-- The turn has no memory for its element. -/
def outOfMemory (type : SeqType) (width : ℕ) (i : ℕ) (n : ℤ) : Bool :=
  match type with
  | .int => false
  | .zint => decide ((itos n).length < width) && !w.allocated i
  | _ => !w.allocated i

def element (type : SeqType) (width : ℕ) (n : ℤ) : Word :=
  match type with
  | .int => itos n
  | .zint => zeroPad width n
  | _ => [Char.ofNat n.toNat]

/-- The loop of `mkseq`, with the elements before `i`. -/
def fill (type : SeqType) (width nelem : ℕ) (incr : ℤ) (i : ℕ) (n : ℤ) (result : List Word) :
    SeqEnd :=
  if w.interrupted i then .interrupted
  else if nelem ≤ i then .overrun
  else if w.outOfMemory type width i n then .failed
  else
    let result := result ++ [element type width n]
    if nelem - 1 ≤ i + 1 then if nelem ≤ i + 1 then .overrun else .vector result
    else
      match ckdAdd n incr with
      | some n => fill type width nelem incr (i + 1) n result
      | none => .overflow
termination_by nelem - i

/-- `mkseq`. -/
def mkseq (start stop incr : ℤ) (type : SeqType) (width : ℕ) : SeqEnd :=
  let incr := if incr = 0 then 1 else incr
  match if incr < 0 then ckdSub 0 incr else some incr,
      if start < stop ↔ incr < 0 then ckdSub 0 incr else some incr,
      if start < stop then ckdSub stop start else ckdSub start stop with
  | some absIncr, some incr, some prevn =>
      if absIncr = 0 ∨ prevn = intmaxMin ∧ absIncr = -1 then .overflow
      else
        let nelem := prevn / absIncr + 2
        if nelem < 0 ∨ 2 ^ 64 ≤ nelem then .failed
        else if w.strvecMcreate nelem.toNat then
          w.fill type width nelem.toNat incr 0 start []
        else .failed
  | _, _, _ => .failed

end SeqWorld

/-! ## The progression -/

/-- The step, by which the progression goes from its start towards its end. -/
def seqStep (incr : ℤ) : ℕ := if incr = 0 then 1 else incr.natAbs

/-- The term `k` of the progression, as long as it is not beyond the end. -/
def progression (start stop incr : ℤ) (k : ℕ) : Option ℤ :=
  if start < stop then
    if start + k * seqStep incr ≤ stop then some (start + k * seqStep incr) else none
  else if stop ≤ start - k * seqStep incr then some (start - k * seqStep incr) else none

/-- How many terms there are. -/
def seqCount (start stop incr : ℤ) : ℕ := (stop - start).natAbs / seqStep incr + 1

theorem seqStep_pos (incr : ℤ) : 0 < seqStep incr := by
  unfold seqStep
  split <;> omega

def direction (start stop : ℤ) : ℤ := if start < stop then 1 else -1

theorem progression_eq (start stop incr : ℤ) (k : ℕ) :
    progression start stop incr k =
      if k < seqCount start stop incr then
        some (start + k * (direction start stop * seqStep incr)) else none := by
  have hcount : k < seqCount start stop incr ↔ k * seqStep incr ≤ (stop - start).natAbs := by
    rw [seqCount, Nat.lt_succ_iff, Nat.le_div_iff_mul_le (seqStep_pos incr)]
  have hle : k < seqCount start stop incr ↔
      (k * seqStep incr : ℤ) ≤ (stop - start).natAbs := by
    rw [hcount]
    exact_mod_cast Iff.rfl
  simp only [progression, direction]
  split_ifs with hlt h h' h' h h' h' <;> first | rfl | (simp only [Option.some.injEq]; ring) | omega

/-- The terms lie between the ends. -/
theorem progression_range {incr v : ℤ} {k : ℕ} (start stop : Int64)
    (h : progression start.toInt stop.toInt incr k = some v) : intmaxMin ≤ v ∧ v ≤ intmaxMax := by
  have hmin : intmaxMin = -2 ^ 63 := rfl
  have hmax : intmaxMax = 2 ^ 63 - 1 := rfl
  have hpos : (0 : ℤ) ≤ k * seqStep incr := by positivity
  have hstart := And.intro (Int64.le_toInt start) (Int64.toInt_lt start)
  have hstop := And.intro (Int64.le_toInt stop) (Int64.toInt_lt stop)
  unfold progression at h
  split_ifs at h <;> cases h <;> omega

/-! ## The elements -/

theorem itos_neg {n : ℤ} (hn : n < 0) : itos n = '-' :: Decimal.decimal n.natAbs := if_pos hn

theorem zeroPad_eq (width : ℕ) (n : ℤ) : zeroPad width n = seqTerm .zint width n := by
  unfold zeroPad seqTerm
  by_cases hlt : (itos n).length < width
  · have hfront (t : Word) (pad : ℕ) : ((t ++ List.replicate pad nul).take pad).length = pad := by
      simp
    simp only [if_pos hlt]
    by_cases hn : n < 0
    · obtain ⟨pad, hpad⟩ : ∃ pad, width - (itos n).length = pad + 1 :=
        ⟨width - (itos n).length - 1, by omega⟩
      -- the sign stays in front, the copy of it is written over
      simp only [if_pos hn, hpad]
      rw [Nat.add_comm 1, ← List.drop_drop, List.drop_left' (hfront _ _), List.drop_one, itos_neg hn]
      rfl
    · simp only [if_neg hn, Nat.zero_add, List.take_zero, List.nil_append]
      rw [List.drop_left' (hfront _ _)]
  · rw [if_neg hlt]
    have hpad : width - (itos n).length = 0 := by omega
    simp only [hpad, List.replicate_zero, List.nil_append]
    split_ifs with hn
    · rw [itos_neg hn]
      rfl
    · rfl

theorem element_eq (type : SeqType) (width : ℕ) (n : ℤ) :
    SeqWorld.element type width n = seqTerm type width n := by
  cases type with
  | zint => exact zeroPad_eq width n
  | int => rfl
  | char => rfl
  | bad => rfl

/-! ## The loop -/

/-- How the loop ends that should store `count` terms. -/
def Fills (w : SeqWorld) (type : SeqType) (width count : ℕ) (start step : ℤ) : SeqEnd → Prop
  | .vector result =>
      result = (List.range count).map fun k : ℕ => seqTerm type width (start + k * step)
  | .failed => ∃ k < count, w.outOfMemory type width k (start + k * step) = true
  | .interrupted => ∃ k < count, w.interrupted k = true
  | .overflow | .overrun => False

/-- From turn `i` on, with the terms before it stored. -/
theorem fill_spec (w : SeqWorld) (type : SeqType) (width count : ℕ) {start step : ℤ}
    (hrange : ∀ k : ℕ, k < count → intmaxMin ≤ start + k * step ∧ start + k * step ≤ intmaxMax)
    {i : ℕ} (hi : i < count) :
    Fills w type width count start step (w.fill type width (count + 1) step i (start + i * step)
      ((List.range i).map fun k : ℕ => seqTerm type width (start + k * step))) := by
  induction hleft : count - i generalizing i with
  | zero => omega
  | succ left ih =>
      have hstored : ((List.range i).map fun k : ℕ => seqTerm type width (start + k * step)) ++
          [SeqWorld.element type width (start + i * step)] =
          (List.range (i + 1)).map fun k : ℕ => seqTerm type width (start + k * step) := by
        rw [element_eq, List.range_succ, List.map_append]
        rfl
      rw [SeqWorld.fill, hstored]
      split_ifs with hinterrupted hover hmemory hlast hnull
      · exact ⟨i, hi, hinterrupted⟩
      · omega
      · exact ⟨i, hi, hmemory⟩
      · omega
      · rw [show count = i + 1 by omega]
        rfl
      · have hnext : start + i * step + step = start + (i + 1 : ℕ) * step := by
          push_cast
          ring
        have hbound := hrange (i + 1) (by omega)
        rw [ckdAdd, hnext, if_pos hbound]
        exact ih (by omega) (by omega)

/-! ## The sequence -/

variable (w : SeqWorld) (start stop incr : Int64) (type : SeqType) (width : ℕ)

/-- The count of the terms, or their memory, is what makes the sequence fail. -/
def DoesNotFit : Prop :=
  w.strvecMcreate (seqCount start.toInt stop.toInt incr.toInt + 1) = false ∨
    ∃ k v, progression start.toInt stop.toInt incr.toInt k = some v ∧
      w.outOfMemory type width k v = true

/-- How a sequence ends, if it may fail for the reason `failure`. -/
def SeqExact (failure : Prop) : SeqEnd → Prop
  | .vector result => ∀ k,
      result[k]? = (progression start.toInt stop.toInt incr.toInt k).map (seqTerm type width)
  | .failed => failure
  | .interrupted => ∃ k, (progression start.toInt stop.toInt incr.toInt k).isSome ∧
      w.interrupted k = true
  | .overflow | .overrun => False

section Prologue

variable {start stop incr : ℤ}

theorem absIncr_eq {c : ℤ} (hc : (if incr = 0 then 1 else incr) = c) (hlow : intmaxMin ≤ incr) :
    (if c < 0 then ckdSub 0 c else some c) =
      if incr = intmaxMin then none else some (seqStep incr : ℤ) := by
  have hmin : intmaxMin = -2 ^ 63 := rfl
  have hmax : intmaxMax = 2 ^ 63 - 1 := rfl
  subst hc
  unfold ckdSub seqStep
  split_ifs <;> first | rfl | omega | (rw [Option.some.injEq]; omega)

theorem signedIncr_eq {c : ℤ} (hc : (if incr = 0 then 1 else incr) = c) (hlow : intmaxMin < incr)
    (hhigh : incr ≤ intmaxMax) : (if start < stop ↔ c < 0 then ckdSub 0 c else some c) =
      some (direction start stop * seqStep incr) := by
  have hmin : intmaxMin = -2 ^ 63 := rfl
  have hmax : intmaxMax = 2 ^ 63 - 1 := rfl
  subst hc
  unfold ckdSub seqStep direction
  split_ifs <;> first | rfl | omega | (rw [Option.some.injEq]; omega)

theorem prevn_eq : (if start < stop then ckdSub stop start else ckdSub start stop) =
    if intmaxMax < (stop - start).natAbs then none else some ((stop - start).natAbs : ℤ) := by
  have hmin : intmaxMin = -2 ^ 63 := rfl
  have hmax : intmaxMax = 2 ^ 63 - 1 := rfl
  unfold ckdSub
  split_ifs <;> first | rfl | omega | (rw [Option.some.injEq]; omega)

theorem nelem_eq (start stop incr : ℤ) :
    ((stop - start).natAbs : ℤ) / (seqStep incr : ℤ) + 2 = (seqCount start stop incr + 1 : ℕ) := by
  rw [seqCount]
  push_cast
  ring

theorem mkseq_eq (hlow : intmaxMin ≤ incr) (hhigh : incr ≤ intmaxMax) :
    w.mkseq start stop incr type width =
      if incr = intmaxMin ∨ intmaxMax < (stop - start).natAbs then .failed
      else if w.strvecMcreate (seqCount start stop incr + 1) then
        w.fill type width (seqCount start stop incr + 1) (direction start stop * seqStep incr) 0 start []
      else .failed := by
  have hstep : (0 : ℤ) < seqStep incr := Int.natCast_pos.mpr (seqStep_pos incr)
  rw [SeqWorld.mkseq]
  dsimp only
  generalize hc : (if incr = 0 then 1 else incr) = c
  rw [absIncr_eq hc hlow, prevn_eq]
  by_cases hmin : incr = intmaxMin
  · rw [if_pos hmin, if_pos (Or.inl hmin : incr = intmaxMin ∨ _)]
  · rw [signedIncr_eq hc (lt_of_le_of_ne hlow (Ne.symm hmin)) hhigh, if_neg hmin]
    by_cases hfar : intmaxMax < (stop - start).natAbs
    · rw [if_pos hfar, if_pos (Or.inr hfar : incr = intmaxMin ∨ _)]
    · rw [if_neg hfar, if_neg (not_or.mpr ⟨hmin, hfar⟩)]
      have hmax : intmaxMax = 2 ^ 63 - 1 := rfl
      have hcount : seqCount start stop incr ≤ (stop - start).natAbs + 1 :=
        Nat.succ_le_succ (Nat.div_le_self _ _)
      dsimp only
      rw [nelem_eq, Int.toNat_natCast, if_neg (by omega), if_neg (by omega)]

end Prologue

/-- Whatever the ends and the increment are, the sequence is the progression, or it fails
because the increment or the distance has no absolute value, or for the count of its terms; there
is no overflow, and no store behind the vector. -/
theorem mkseq_exact : SeqExact w start stop incr type width
    (incr = Int64.minValue ∨ intmaxMax < (stop.toInt - start.toInt).natAbs ∨
      DoesNotFit w start stop incr type width)
    (w.mkseq start.toInt stop.toInt incr.toInt type width) := by
  rw [mkseq_eq w type width (Int64.le_toInt incr) (Int64.toInt_le incr)]
  have hterm {k : ℕ} (hk : k < seqCount start.toInt stop.toInt incr.toInt) :=
    (progression_eq start.toInt stop.toInt incr.toInt k).trans (if_pos hk)
  split_ifs with hguard hvector
  · exact hguard.imp (fun hmin => Int64.toInt_inj.mp hmin) .inl
  · have hfill := fill_spec w type width (seqCount start.toInt stop.toInt incr.toInt)
      (fun k hk => progression_range start stop (hterm hk)) (Nat.succ_pos _)
    simp only [Nat.cast_zero, zero_mul, add_zero, List.range_zero, List.map_nil] at hfill
    revert hfill
    generalize w.fill type width _ _ 0 start.toInt [] = e
    intro hfill
    cases e with
    | vector result =>
        intro k
        rw [progression_eq, hfill, List.getElem?_map]
        split_ifs with hk
        · rw [List.getElem?_range hk]
          rfl
        · rw [List.getElem?_eq_none (by simpa using hk)]
          rfl
    | failed =>
        obtain ⟨k, hk, hmemory⟩ := hfill
        exact .inr (.inr (.inr ⟨k, _, hterm hk, hmemory⟩))
    | interrupted =>
        obtain ⟨k, hk, hinterrupted⟩ := hfill
        exact ⟨k, by rw [hterm hk]; rfl, hinterrupted⟩
    | overflow => exact hfill
    | overrun => exact hfill
  · exact .inr (.inr (.inl (by simpa using hvector)))

/-- Everything that is asked for is given. -/
def allGiven : SeqWorld where
  reallocarray _ := true
  allocated _ := true
  interrupted _ := false

/-- {1..5..-9223372036854775808} has one term, and fails. -/
theorem mkseq_minValue : ¬ ∀ (w : SeqWorld) (start stop incr : Int64) (type : SeqType) (width : ℕ),
    SeqExact w start stop incr type width (DoesNotFit w start stop incr type width)
      (w.mkseq start.toInt stop.toInt incr.toInt type width) := by
  intro h
  have hfailed : allGiven.mkseq (1 : Int64).toInt (5 : Int64).toInt Int64.minValue.toInt .int 0 =
      .failed := by decide
  have hfit := h allGiven 1 5 Int64.minValue .int 0
  rw [hfailed] at hfit
  rcases hfit with hvector | ⟨k, v, -, hmemory⟩
  · exact absurd hvector (by decide)
  · exact absurd hmemory Bool.false_ne_true

/-! ## The words of the expansion -/

theorem seqTerms_eq (start step : ℤ) (count : ℕ) :
    seqTerms type width step count start =
      (List.range count).map fun k : ℕ => seqTerm type width (start + k * step) := by
  induction count generalizing start with
  | zero => rfl
  | succ count ih =>
      rw [seqTerms, ih, List.range_succ_eq_map, List.map_cons, List.map_map]
      refine congrArg₂ List.cons (by simp) (List.map_congr_left fun k _ => congrArg _ ?_)
      push_cast
      ring

theorem expansion_eq (strvecMcreate : ℕ → Bool) {start stop incr : ℤ} (hlow : intmaxMin < incr)
    (hhigh : incr ≤ intmaxMax) (hnear : ¬ intmaxMax < (stop - start).natAbs)
    (hvector : strvecMcreate (seqCount start stop incr + 1) = true) :
    mkseq strvecMcreate start stop incr type width =
      some ((List.range (seqCount start stop incr)).map fun k : ℕ =>
        seqTerm type width (start + k * (direction start stop * seqStep incr))) := by
  have hmax : intmaxMax = 2 ^ 63 - 1 := rfl
  have hcount : seqCount start stop incr ≤ (stop - start).natAbs + 1 :=
    Nat.succ_le_succ (Nat.div_le_self _ _)
  have hbind : mkseq strvecMcreate start stop incr type width =
      (let c := if incr = 0 then 1 else incr
       (if c < 0 then ckdSub 0 c else some c).bind fun absIncr =>
         (if start < stop ↔ c < 0 then ckdSub 0 c else some c).bind fun step =>
           (if start < stop then ckdSub stop start else ckdSub start stop).bind fun prevn =>
             if (prevn / absIncr + 2).toNat < 2 ^ 64 ∧ strvecMcreate (prevn / absIncr + 2).toNat then
               some (seqTerms type width step ((prevn / absIncr + 2).toNat - 1) start)
             else none) := by
    unfold mkseq
    dsimp only
    generalize (if incr = 0 then 1 else incr) = c
    by_cases hneg : c < 0 <;> by_cases hlt : start < stop <;> simp [hneg, hlt]
  rw [hbind]
  dsimp only
  generalize hc : (if incr = 0 then 1 else incr) = c
  rw [absIncr_eq hc hlow.le, prevn_eq, signedIncr_eq hc hlow hhigh, if_neg hlow.ne', if_neg hnear]
  simp only [Option.bind_some]
  rw [nelem_eq, Int.toNat_natCast, if_pos ⟨by omega, hvector⟩, seqTerms_eq]
  rfl

end Braces

end Rash
