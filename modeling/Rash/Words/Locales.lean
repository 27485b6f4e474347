import Rash.Words.QuotingItems

/-!
# The locales C and UTF-8

Both are lawful.  In the C locale every byte is a character.
-/

namespace Rash

namespace Quoting

/-- `IFS` consists of characters of one byte. -/
def SingleBytes (loc : Locale) (ifs : Bytes) : Prop :=
  ∀ b ∈ ifs, ∀ t, loc.mbrlen (b :: t) = some 1

theorem chars_singleBytes {loc : Locale} {ifs : Bytes} (hsingle : SingleBytes loc ifs) :
    loc.chars ifs = ifs.map ([·]) := by
  unfold Locale.chars
  induction ifs with
  | nil => rfl
  | cons b ifs ih =>
      have hlen : loc.charLen (b :: ifs) = 1 := by
        unfold Locale.charLen
        rw [hsingle b List.mem_cons_self ifs]
        rfl
      have hrest := ih fun c hc => hsingle c (List.mem_cons_of_mem _ hc)
      change (b :: ifs).take (loc.charLen (b :: ifs)) ::
        loc.cutFrom ifs.length ((b :: ifs).drop (loc.charLen (b :: ifs))) = _
      rw [hlen, List.drop_succ_cons, List.drop_zero, hrest]
      rfl

def asciiSpace (c : UInt8) : Bool := c == 0x20 || (9 ≤ c && c ≤ 13)

theorem asciiSpace_of_spctabnl (c : UInt8) (h : spctabnl c = true) : asciiSpace c = true := by
  simp only [spctabnl, Bool.or_eq_true, beq_iff_eq] at h
  rcases h with (rfl | rfl) | rfl <;> rfl

def cLocale : Locale where
  mbrlen _ := some 1
  wcschr _ _ := false
  isSpace := asciiSpace

theorem cLocale_lawful : cLocale.Lawful where
  mbrlen_le hs hn := by
    obtain rfl := Option.some.inj hn
    exact List.length_pos_iff.mpr hs
  truncated _ _ := rfl
  ctlesc_apart _ _ := rfl
  isSpace_blank := asciiSpace_of_spctabnl
  wcschr_short _ _ := rfl

/-! ## UTF-8 -/

def inRange (a b c : UInt8) : Bool := a ≤ c && c ≤ b

/-- The ranges of the bytes that must follow a first byte, or nothing for a byte that begins no
character. -/
def utf8Tail (b : UInt8) : Option (List (UInt8 → Bool)) :=
  let tail := inRange 0x80 0xbf
  if b < 0x80 then some []
  else if b < 0xc2 then none
  else if b < 0xe0 then some [tail]
  else if b = 0xe0 then some [inRange 0xa0 0xbf, tail]
  else if b = 0xed then some [inRange 0x80 0x9f, tail]
  else if b < 0xf0 then some [tail, tail]
  else if b = 0xf0 then some [inRange 0x90 0xbf, tail, tail]
  else if b < 0xf4 then some [tail, tail, tail]
  else if b = 0xf4 then some [inRange 0x80 0x8f, tail, tail]
  else none

def follows : List (UInt8 → Bool) → Bytes → Bool
  | [], _ => true
  | _ :: _, [] => false
  | p :: ps, c :: s => p c && follows ps s

def utf8Mbrlen : Bytes → Option ℕ
  | [] => none
  | b :: s =>
      match utf8Tail b with
      | none => none
      | some ps => if follows ps s then some (ps.length + 1) else none

def utf8Locale : Locale where
  mbrlen := utf8Mbrlen
  wcschr charlist s := (Locale.chars ⟨utf8Mbrlen, fun _ _ => false, asciiSpace⟩ charlist).contains s
  isSpace := asciiSpace

theorem follows_length {ps : List (UInt8 → Bool)} : ∀ {s : Bytes}, follows ps s = true →
    ps.length ≤ s.length := by
  induction ps with
  | nil => intro s _; exact Nat.zero_le _
  | cons p ps ih =>
      intro s hs
      cases s with
      | nil => cases hs
      | cons c s => exact Nat.succ_le_succ (ih (Bool.and_eq_true_iff.mp hs).2)

theorem follows_append {ps : List (UInt8 → Bool)} : ∀ {s : Bytes} (t : Bytes),
    ps.length ≤ s.length → follows ps (s ++ t) = follows ps s := by
  induction ps with
  | nil => intro s t _; rfl
  | cons p ps ih =>
      intro s t hle
      cases s with
      | nil => exact absurd hle (by simp)
      | cons c s => exact congrArg (p c && ·) (ih t (Nat.le_of_succ_le_succ hle))

theorem follows_ctlesc {ps : List (UInt8 → Bool)} (hps : ∀ p ∈ ps, p ctlesc = false) :
    ∀ (s t : Bytes), follows ps (s ++ ctlesc :: t) = follows ps s := by
  induction ps with
  | nil => intro s t; rfl
  | cons p ps ih =>
      intro s t
      cases s with
      | nil =>
          change (p ctlesc && follows ps t) = false
          rw [hps p List.mem_cons_self, Bool.false_and]
      | cons c s =>
          exact congrArg (p c && ·) (ih (fun q hq => hps q (List.mem_cons_of_mem _ hq)) s t)

theorem utf8Tail_ctlesc {b : UInt8} {ps : List (UInt8 → Bool)} (h : utf8Tail b = some ps) :
    ∀ p ∈ ps, p ctlesc = false := by
  have hranges : ∀ p ∈ [inRange 0x80 0xbf, inRange 0xa0 0xbf, inRange 0x80 0x9f,
      inRange 0x90 0xbf, inRange 0x80 0x8f], p ctlesc = false := by
    intro p hp
    simp only [List.mem_cons, List.not_mem_nil, or_false] at hp
    rcases hp with rfl | rfl | rfl | rfl | rfl <;> rfl
  intro p hp
  apply hranges
  unfold utf8Tail at h
  grind

theorem utf8Locale_charLen (b : UInt8) (s : Bytes) : utf8Locale.charLen (b :: s) =
    match utf8Tail b with
    | none => 1
    | some ps => if follows ps s then ps.length + 1 else 1 := by
  unfold Locale.charLen utf8Locale utf8Mbrlen
  simp only
  cases utf8Tail b with
  | none => rfl
  | some ps =>
      by_cases hfollows : follows ps s = true
      · simp only [hfollows, if_true]
        exact Nat.max_eq_left (Nat.le_add_left _ _)
      · simp only [hfollows, Bool.false_eq_true, if_false]

theorem utf8Locale_lawful : utf8Locale.Lawful where
  mbrlen_le {s n} hs hn := by
    obtain ⟨b, s, rfl⟩ := List.exists_cons_of_ne_nil hs
    change utf8Mbrlen (b :: s) = some n at hn
    simp only [utf8Mbrlen] at hn
    cases htail : utf8Tail b with
    | none =>
        rw [htail] at hn
        cases hn
    | some ps =>
        rw [htail] at hn
        by_cases hfollows : follows ps s = true
        · simp only [hfollows, if_true] at hn
          obtain rfl := Option.some.inj hn
          exact Nat.succ_le_succ (follows_length hfollows)
        · simp only [hfollows, Bool.false_eq_true, if_false] at hn
          cases hn
  truncated {s t} hs hle := by
    obtain ⟨b, s, rfl⟩ := List.exists_cons_of_ne_nil hs
    rw [List.cons_append] at hle ⊢
    rw [utf8Locale_charLen] at hle ⊢
    rw [utf8Locale_charLen]
    cases htail : utf8Tail b with
    | none => rfl
    | some ps =>
        rw [htail] at hle
        simp only at hle ⊢
        by_cases hshort : ps.length ≤ s.length
        · rw [follows_append t hshort]
        · -- too short for the whole character, and by the bound none was seen
          have hno : follows ps s = false := by
            by_contra hbad
            exact hshort (follows_length (Bool.not_eq_false _ ▸ hbad))
          rw [hno, if_neg Bool.false_ne_true]
          by_cases hlong : follows ps (s ++ t) = true
          · rw [if_pos hlong, List.length_cons] at hle
            omega
          · rw [if_neg hlong]
  ctlesc_apart {s} t hs := by
    obtain ⟨b, s, rfl⟩ := List.exists_cons_of_ne_nil hs
    rw [List.cons_append, utf8Locale_charLen, utf8Locale_charLen]
    cases htail : utf8Tail b with
    | none => rfl
    | some ps =>
        simp only
        rw [follows_ctlesc (utf8Tail_ctlesc htail)]
  isSpace_blank := asciiSpace_of_spctabnl
  wcschr_short {charlist s} hsingle hs := by
    change (Locale.chars ⟨utf8Mbrlen, fun _ _ => false, asciiSpace⟩ charlist).contains s = false
    have hchars := @chars_singleBytes ⟨utf8Mbrlen, fun _ _ => false, asciiSpace⟩ charlist hsingle
    rw [hchars]
    by_contra hbad
    rw [Bool.not_eq_false, List.contains_iff_mem] at hbad
    obtain ⟨b, -, rfl⟩ := List.mem_map.mp hbad
    exact absurd hs (by simp)

end Quoting

end Rash
