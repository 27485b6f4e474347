import Rash.Sh.Strtrans

/-!
# What is quoted comes back

Each turn of `ansic_quote` writes a text that `ansicstr` reads as what the turn has taken, whatever
stands behind it.
-/

namespace Rash

open Scanning

namespace Strtrans

/-- Without multibyte characters -/
structure Locale.SingleByte (loc : Locale) : Prop where
  utf8 : loc.utf8 = false
  mbCurMax : loc.mbCurMax ≤ 1
  isPrint : ∀ c < 0x80, loc.isPrint c = true → 0x20 ≤ c ∧ c ≤ 0x7e

/-- In UTF-8 every byte of a longer character is above ASCII, and none stands for the NUL. -/
structure Locale.Utf8 (loc : Locale) : Prop where
  utf8 : loc.utf8 = true
  isPrint : ∀ c < 0x80, loc.isPrint c = true → 0x20 ≤ c ∧ c ≤ 0x7e
  notNull : ∀ before c s, 0x80 ≤ c → loc.mbrtowc before (c :: s) ≠ .null
  trail : ∀ before c s trail wc, 0x80 ≤ c → loc.mbrtowc before (c :: s) = .char trail wc →
    ∀ d ∈ s.take trail, 0x80 ≤ d

def dollarFlags : AnsiFlags := ⟨false, true, false⟩

/-- Each marker with a marker in front -/
def protect (s : Bytes) : Bytes := s.flatMap (mark dollarFlags)

/-- Does a single quote stand there with no backslash to escape it, or a backslash that would
escape one behind the text? -/
def bareQuote : Bytes → Bool
  | [] => false
  | c :: s =>
      if c = backslash then
        match s with
        | [] => true
        | _ :: t => bareQuote t
      else c == squote || bareQuote s

/-- `e` is a text for `out`, whatever stands around it. -/
structure Reads (loc : Locale) (e out : Bytes) : Prop where
  scan_eq : ∀ before t, ∃ pieces,
    scan (ansiTurn loc dollarFlags false) before (e ++ t) =
      pieces ++ scan (ansiTurn loc dollarFlags false) (before ++ e) t ∧
    pieces.flatMap Piece.text = out
  bare : ∀ t, bareQuote (e ++ t) = bareQuote t

variable {loc : Locale} {e e' out out' s t before : Bytes} {c d : UInt8}

namespace Reads

theorem nil : Reads loc [] [] where
  scan_eq before t := ⟨[], by rw [List.append_nil]; rfl, rfl⟩
  bare _ := rfl

theorem append (h : Reads loc e out) (h' : Reads loc e' out') :
    Reads loc (e ++ e') (out ++ out') where
  scan_eq before t := by
    obtain ⟨pieces, hscan, htext⟩ := h.scan_eq before (e' ++ t)
    obtain ⟨pieces', hscan', htext'⟩ := h'.scan_eq (before ++ e) t
    refine ⟨pieces ++ pieces', ?_, ?_⟩
    · rw [List.append_assoc, hscan, hscan', List.append_assoc, List.append_assoc]
    · rw [List.flatMap_append, htext, htext']
  bare t := by rw [List.append_assoc, h.bare, h'.bare]

theorem of_turn {piece : Piece}
    (hturn : ∀ before t, ansiTurn loc dollarFlags false before (c :: e ++ t) =
      some (piece, e.length)) (hbare : ∀ t, bareQuote (c :: e ++ t) = bareQuote t) :
    Reads loc (c :: e) piece.text where
  scan_eq before t := ⟨[piece], scan_append (hturn before t), by simp⟩
  bare := hbare

/-- A backslash and what belongs to it -/
theorem of_escape {piece : Piece}
    (hescape : ∀ t, escape loc dollarFlags false d (e ++ t) = (piece, t))
    (hbare : ∀ t, bareQuote (e ++ t) = bareQuote t) :
    Reads loc (backslash :: d :: e) piece.text := by
  refine of_turn (fun before t => ?_) fun t => ?_
  · rw [List.cons_append, List.cons_append, ansiTurn, if_pos rfl, hescape]
    simp only [List.length_append, Nat.add_sub_cancel, List.length_cons]
    rw [Nat.add_comm]
  · rw [List.cons_append, List.cons_append, bareQuote, if_pos rfl]
    exact hbare t

end Reads

/-! ## The texts of one byte -/

theorem bareQuote_cons (hc : c ≠ backslash) (hquote : c ≠ squote) :
    bareQuote (c :: t) = bareQuote t := by
  have hcons : bareQuote (c :: t) = (c == squote || bareQuote t) := by
    cases t <;> exact if_neg hc
  rw [hcons, beq_eq_false_iff_ne.mpr hquote, Bool.false_or]

theorem reads_plain (hwidth : loc.utf8 = true ∨ loc.mbCurMax ≤ 1) (hc : c ≠ backslash)
    (hquote : c ≠ squote) : Reads loc [c] [c] := by
  have hlength : ∀ before s, plainLength loc before s c = some 0 := by
    intro before s
    rw [plainLength, if_neg]
    rintro ⟨hutf8, hmany, _⟩
    rcases hwidth with h | h
    · rw [hutf8] at h
      cases h
    · exact Nat.not_lt_of_le h hmany
  refine @Reads.of_turn _ _ _ ⟨[c], 1, false⟩ (fun before t => ?_) fun t => ?_
  · cases t with
    | nil =>
        change ansiTurn.plain loc before c [] = _
        rw [ansiTurn.plain, hlength]
        rfl
    | cons d t =>
        change ansiTurn loc dollarFlags false before (c :: d :: t) = _
        rw [ansiTurn, if_neg hc, ansiTurn.plain, hlength]
        rfl
  · exact bareQuote_cons hc hquote

/-- The bytes above ASCII, one by one -/
theorem reads_high (hutf8 : loc.utf8 = true) (he : ∀ c ∈ e, 0x80 ≤ c) : Reads loc e e := by
  induction e with
  | nil => exact Reads.nil
  | cons c e ih =>
      have hc := he c List.mem_cons_self
      have hone : Reads loc [c] [c] := by
        refine reads_plain (.inl hutf8) ?_ ?_ <;>
          · rintro rfl
            exact absurd hc (by decide)
      exact hone.append (ih fun d hd => he d (List.mem_cons_of_mem c hd))

theorem emit_text (c : UInt8) : (emit dollarFlags [] c).text = protect [c] := by
  rw [protect, List.flatMap_singleton]
  rfl

theorem reads_letter (hescape : ∀ t, escape loc dollarFlags false d t = (emit dollarFlags [] c, t)) :
    Reads loc [backslash, d] (protect [c]) := by
  rw [← emit_text]
  exact Reads.of_escape hescape fun t => rfl

theorem octal_digits (c : UInt8) :
    octValue ((c >>> 6 &&& 7) + 0x30) = some (c.toNat / 64) ∧
      octValue ((c >>> 3 &&& 7) + 0x30) = some (c.toNat / 8 % 8) ∧
      octValue ((c &&& 7) + 0x30) = some (c.toNat % 8) := by
  have hall : ∀ n < 256,
      octValue ((UInt8.ofNat n >>> 6 &&& 7) + 0x30) = some (n / 64) ∧
        octValue ((UInt8.ofNat n >>> 3 &&& 7) + 0x30) = some (n / 8 % 8) ∧
        octValue ((UInt8.ofNat n &&& 7) + 0x30) = some (n % 8) := by
    decide +kernel
  have hc := hall c.toNat c.toNat_lt
  rwa [UInt8.ofNat_toNat] at hc

theorem eq_of_octValue {k : ℕ} (hd : octValue d = some k) : k < 8 ∧ d = UInt8.ofNat (0x30 + k) := by
  rw [octValue] at hd
  split_ifs at hd with hrange
  obtain ⟨hlow, hhigh⟩ := hrange
  rw [UInt8.le_iff_toNat_le] at hlow hhigh
  change 0x30 ≤ d.toNat at hlow
  change d.toNat ≤ 0x37 at hhigh
  obtain rfl := Option.some.inj hd
  refine ⟨by omega, ?_⟩
  rw [Nat.add_sub_cancel' hlow, UInt8.ofNat_toNat]

theorem ne_of_octValue {k : ℕ} (hd : octValue d = some k) : d ≠ backslash ∧ d ≠ squote := by
  constructor <;>
    · rintro rfl
      cases hd

theorem escape_octal {k : ℕ} (hd : octValue d = some k) (hk : k < 4) (t : Bytes) :
    escape loc dollarFlags false d t = octal dollarFlags d t ∧ d.toNat - 0x30 = k := by
  obtain ⟨_, rfl⟩ := eq_of_octValue hd
  match k, hk with
  | 0, _ | 1, _ | 2, _ | 3, _ => exact ⟨rfl, rfl⟩

theorem reads_octal (c : UInt8) : Reads loc (octalText c) (protect [c]) := by
  obtain ⟨h2, h1, h0⟩ := octal_digits c
  have hk : c.toNat / 64 < 4 := by
    have hlt := c.toNat_lt
    omega
  rw [octalText, ← emit_text]
  generalize (c >>> 6 &&& 7) + 0x30 = d2 at *
  generalize (c >>> 3 &&& 7) + 0x30 = d1 at *
  generalize (c &&& 7) + 0x30 = d0 at *
  refine Reads.of_escape (fun t => ?_) fun t => ?_
  · obtain ⟨hoctal, hfirst⟩ := @escape_octal loc _ _ h2 hk ([d1, d0] ++ t)
    have hvalue : (c.toNat / 64 * 8 + c.toNat / 8 % 8) * 8 + c.toNat % 8 = c.toNat := by omega
    rw [hoctal, octal, hfirst]
    simp only [dollarFlags, List.cons_append, List.nil_append, Bool.false_eq_true, false_and,
      if_false, Nat.add_zero, numeral, h1, h0, hvalue, UInt8.ofNat_toNat]
  · obtain ⟨hslash1, hquote1⟩ := ne_of_octValue h1
    obtain ⟨hslash0, hquote0⟩ := ne_of_octValue h0
    exact (bareQuote_cons hslash1 hquote1).trans (bareQuote_cons hslash0 hquote0)

/-! ## The turns of the quoter -/

theorem eq_of_char {x : Char} (hx : Char.ofNat c.toNat = x) : c = UInt8.ofNat x.toNat := by
  have hvalid : c.toNat.isValidChar := .inl (c.toNat_lt.trans (by decide))
  have hnat : (Char.ofNat c.toNat).toNat = c.toNat := by
    rw [Char.ofNat, dif_pos hvalid]
    rfl
  rw [← hx, hnat, UInt8.ofNat_toNat]

theorem protect_singleton (hc : c ≠ ctlesc) (hnul : c ≠ ctlnul) : protect [c] = [c] := by
  rw [protect, List.flatMap_singleton, mark, if_neg]
  rintro ⟨_, h | h⟩
  · exact hc h
  · exact hnul h

theorem protect_append (s t : Bytes) : protect (s ++ t) = protect s ++ protect t :=
  List.flatMap_append

theorem protect_high (he : ∀ c ∈ e, 0x80 ≤ c) : protect e = e := by
  induction e with
  | nil => rfl
  | cons c e ih =>
      have hc := he c List.mem_cons_self
      have hone : protect [c] = [c] := by
        refine protect_singleton ?_ ?_ <;>
          · rintro rfl
            exact absurd hc (by decide)
      rw [← List.singleton_append, protect_append, hone,
        ih fun d hd => he d (List.mem_cons_of_mem c hd)]

theorem reads_printable (hwidth : loc.utf8 = true ∨ loc.mbCurMax ≤ 1)
    (hprint : c < 0x80 → 0x20 ≤ c ∧ c ≤ 0x7e) (hc : c ≠ backslash) (hquote : c ≠ squote) :
    Reads loc [c] (protect [c]) := by
  have hplain : protect [c] = [c] := by
    refine protect_singleton ?_ ?_
    · rintro rfl
      exact absurd (hprint (by decide)).1 (by decide)
    · rintro rfl
      exact absurd (hprint (by decide)).2 (by decide)
  rw [hplain]
  exact reads_plain hwidth hc hquote

/-- A turn for a byte that has no letter of its own. -/
theorem quoteOther_reads (hloc : loc.SingleByte ∨ loc.Utf8) (hc : c ≠ backslash)
    (hquote : c ≠ squote) : ∃ e k, quoteOther loc before c s = some (e, k) ∧
      Reads loc e (protect (c :: s.take k)) := by
  rcases hloc with hloc | hloc
  · have hone : ¬ (loc.utf8 = true ∧ 0x80 ≤ c ∨
        loc.utf8 = false ∧ 1 < loc.mbCurMax ∧ isBasic c = false) := by
      rintro (⟨hutf8, _⟩ | ⟨_, hmany, _⟩)
      · rw [hloc.utf8] at hutf8
        cases hutf8
      · exact Nat.not_lt_of_le hloc.mbCurMax hmany
    rw [quoteOther, if_neg hone]
    by_cases hprint : loc.isPrint c = true
    · rw [if_pos hprint]
      exact ⟨_, _, rfl, reads_printable (.inr hloc.mbCurMax)
        (fun hlow => hloc.isPrint c hlow hprint) hc hquote⟩
    · rw [if_neg hprint]
      exact ⟨_, _, rfl, reads_octal c⟩
  · by_cases hhigh : 0x80 ≤ c
    · rw [quoteOther, if_pos (.inl ⟨hloc.utf8, hhigh⟩)]
      cases hread : loc.mbrtowc before (c :: s) with
      | null => exact absurd hread (hloc.notNull before c s hhigh)
      | invalid => exact ⟨_, _, rfl, reads_octal c⟩
      | char trail wc =>
          simp only
          by_cases hprint : loc.iswprint wc = true
          · rw [if_pos hprint]
            have hall : ∀ d ∈ c :: s.take trail, 0x80 ≤ d := by
              intro d hd
              rcases List.mem_cons.mp hd with rfl | hd
              · exact hhigh
              · exact hloc.trail before c s trail wc hhigh hread d hd
            refine ⟨_, _, rfl, ?_⟩
            rw [protect_high hall]
            exact reads_high hloc.utf8 hall
          · rw [if_neg hprint]
            exact ⟨_, _, rfl, reads_octal c⟩
    · have hone : ¬ (loc.utf8 = true ∧ 0x80 ≤ c ∨
          loc.utf8 = false ∧ 1 < loc.mbCurMax ∧ isBasic c = false) := by
        rintro (⟨_, h⟩ | ⟨hutf8, _⟩)
        · exact hhigh h
        · rw [hloc.utf8] at hutf8
          cases hutf8
      rw [quoteOther, if_neg hone]
      by_cases hprint : loc.isPrint c = true
      · rw [if_pos hprint]
        exact ⟨_, _, rfl, reads_printable (.inl hloc.utf8)
          (fun hlow => hloc.isPrint c hlow hprint) hc hquote⟩
      · rw [if_neg hprint]
        exact ⟨_, _, rfl, reads_octal c⟩

theorem quoteTurn_reads (hloc : loc.SingleByte ∨ loc.Utf8) :
    ∃ e k, quoteTurn loc before (c :: s) = some (e, k) ∧
      Reads loc e (protect (c :: s.take k)) := by
  rw [quoteTurn]
  split
  all_goals try
    · next hx =>
        obtain rfl := eq_of_char hx
        exact ⟨_, _, rfl, reads_letter fun t => rfl⟩
  next hslash hquote =>
    refine quoteOther_reads hloc ?_ ?_
    · rintro rfl
      exact hslash rfl
    · rintro rfl
      exact hquote rfl

theorem quoted_reads (hloc : loc.SingleByte ∨ loc.Utf8) (before s : Bytes) :
    Reads loc (scan (quoteTurn loc) before s).flatten (protect s) := by
  refine scan_induction (motive := fun _ s ps => Reads loc ps.flatten (protect s)) ?_ ?_ ?_ before s
  · exact fun _ => Reads.nil
  · intro before x s hstop
    obtain ⟨e, k, hturn, _⟩ := @quoteTurn_reads _ s before x hloc
    rw [hturn] at hstop
    cases hstop
  · intro before x s e k ps hturn hrest
    obtain ⟨e', k', hturn', hreads⟩ := @quoteTurn_reads _ s before x hloc
    rw [hturn, Option.some.injEq, Prod.mk.injEq] at hturn'
    obtain ⟨rfl, rfl⟩ := hturn'
    have hsplit : protect (x :: s) = protect (x :: s.take k) ++ protect (s.drop k) := by
      rw [← protect_append, List.cons_append, List.take_append_drop]
    rw [hsplit, List.flatten_cons]
    exact hreads.append hrest

theorem quoted_spec (hloc : loc.SingleByte ∨ loc.Utf8) (hne : s ≠ []) :
    bareQuote (quoted loc s) = false ∧
      (ansicstr loc dollarFlags false (quoted loc s) (quoted loc s).length).map Decoded.text =
        some (protect s) := by
  have hreads := quoted_reads hloc [] s
  obtain ⟨pieces, hscan, htext⟩ := hreads.scan_eq [] []
  rw [List.append_nil, scan_nil, List.append_nil] at hscan
  have hinside : quoted loc s ≠ [] := by
    intro hnil
    rw [← quoted, hnil] at hscan
    rw [← hscan] at htext
    obtain ⟨c, s, rfl⟩ := List.exists_cons_of_ne_nil hne
    rw [protect, List.flatMap_cons, mark] at htext
    split_ifs at htext <;> cases htext
  constructor
  · have hbare := hreads.bare []
    rwa [List.append_nil] at hbare
  · rw [ansicstr, if_neg hinside, Option.map_some, quoted, hscan, htext]

def asciiUpper (c : UInt8) : UInt8 := if 0x61 ≤ c ∧ c ≤ 0x7a then c - 0x20 else c

/-- The locale of POSIX -/
def posixLocale : Locale where
  utf8 := false
  mbCurMax := 1
  isPrint c := decide (0x20 ≤ c ∧ c ≤ 0x7e)
  toUpper := asciiUpper
  mbrtowc _ s := match s with
    | [] => .null
    | c :: _ => if c = 0 then .null else if c < 0x80 then .char 0 c.toNat else .invalid
  iswprint wc := decide (0x20 ≤ wc ∧ wc ≤ 0x7e)
  wctomb wc := if wc < 0x80 then some [UInt8.ofNat wc] else none
  iconv := some fun s => if s.all (· < 0x80) then some s else none

theorem posixLocale_singleByte : posixLocale.SingleByte where
  utf8 := rfl
  mbCurMax := Nat.le_refl _
  isPrint _ _ h := of_decide_eq_true h

/-- How many bytes follow, the least character they may stand for, and the bits of the first byte -/
def utf8Lead (c : UInt8) : ℕ × ℕ × ℕ :=
  if c < 0xe0 then (1, 0x80, c.toNat % 0x20)
  else if c < 0xf0 then (2, 0x800, c.toNat % 0x10)
  else (3, 0x10000, c.toNat % 8)

def utf8Mbrtowc : Bytes → MbRead
  | [] => .null
  | c :: s =>
      if c = 0 then .null
      else if c < 0x80 then .char 0 c.toNat
      else
        let (n, least, v) := utf8Lead c
        let trail := s.take n
        let wc := trail.foldl (fun v d => v * 0x40 + d.toNat % 0x40) v
        if (0xc0 ≤ c ∧ c < 0xf8 ∧ trail.length = n) ∧ (∀ d ∈ trail, 0x80 ≤ d ∧ d < 0xc0) ∧
            least ≤ wc ∧ wc ≤ 0x10ffff ∧ ¬ (0xd800 ≤ wc ∧ wc ≤ 0xdfff) then .char n wc
        else .invalid

def utf8Locale : Locale where
  utf8 := true
  mbCurMax := 6
  isPrint c := decide (0x20 ≤ c ∧ c ≤ 0x7e)
  toUpper := asciiUpper
  mbrtowc _ := utf8Mbrtowc
  iswprint wc := decide (0xa0 ≤ wc)
  wctomb wc := if wc ≤ 0x10ffff ∧ ¬ (0xd800 ≤ wc ∧ wc ≤ 0xdfff) then some (u32toutf8 wc) else none
  iconv := some some

theorem utf8Locale_utf8 : utf8Locale.Utf8 where
  utf8 := rfl
  isPrint _ _ h := of_decide_eq_true h
  notNull before c s hc := by
    change utf8Mbrtowc (c :: s) ≠ _
    have hne : c ≠ 0 := by
      rintro rfl
      exact absurd hc (by decide)
    rw [utf8Mbrtowc, if_neg hne, if_neg (UInt8.not_lt.mpr hc)]
    simp only
    split_ifs <;> exact nofun
  trail before c s trail wc hc h := by
    change utf8Mbrtowc (c :: s) = _ at h
    have hne : c ≠ 0 := by
      rintro rfl
      exact absurd hc (by decide)
    rw [utf8Mbrtowc, if_neg hne, if_neg (UInt8.not_lt.mpr hc)] at h
    simp only at h
    split_ifs at h with hchar
    obtain ⟨rfl, _⟩ := MbRead.char.inj h
    exact fun d hd => (hchar.2.1 d hd).1

end Strtrans

end Rash
