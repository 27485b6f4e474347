import Rash.Sh.StrtransRound

/-!
# How far the buffer is written

No escape writes more than four bytes for each of its own, so `4 * len + 4` bytes are enough.  The
number goes through an `int`, and from `2 ^ 31` on what is allocated is too little for some string.
-/

namespace Rash

open Scanning

namespace Strtrans

/-- What the C library promises: a character lies within the string, and has no more than
`MB_LEN_MAX` bytes. -/
structure Locale.Bounded (loc : Locale) : Prop where
  mbrtowc : ∀ before c s trail wc, loc.mbrtowc before (c :: s) = .char trail wc → trail ≤ s.length
  wctomb : ∀ wc bytes, loc.wctomb wc = some bytes → bytes.length ≤ mbLenMax
  iconv : ∀ conv, loc.iconv = some conv → ∀ wc out, conv (u32toutf8 wc) = some out →
    out.length ≤ mbLenMax

/-- A turn over `n` bytes -/
structure Piece.Within (p : Piece) (n : ℕ) : Prop where
  text : p.text.length ≤ 4 * n
  touched : p.touched ≤ 4 * n + 1

variable {loc : Locale} {flags : AnsiFlags} {sawc : Bool} {s t rest before : Bytes} {c d : UInt8}
  {p : Piece} {n k v v' : ℕ} {digit : UInt8 → Option ℕ}

/-! ## One turn -/

theorem length_mark_le (flags : AnsiFlags) (c : UInt8) : (mark flags c).length ≤ 2 := by
  rw [mark]
  split_ifs
  · exact Nat.le_refl _
  · exact Nat.le_succ _

theorem within_emit {front : Bytes} (hfront : front.length ≤ 1) (n : ℕ) :
    (emit flags front c).Within (n + 2) := by
  have hmark := length_mark_le flags c
  have hlength : (front ++ mark flags c).length ≤ 4 * (n + 2) := by
    rw [List.length_append]
    omega
  exact ⟨hlength, hlength.trans (Nat.le_succ _)⟩

theorem within_unknown (n : ℕ) : (unknown flags c).Within (n + 2) := by
  refine within_emit ?_ n
  split_ifs <;> decide

/-- The digits that are read tell how large the number may be. -/
theorem numeral_spec {base : ℕ} (hdigit : ∀ c d, digit c = some d → d < base) (n v : ℕ)
    (s : Bytes) : ∃ j, (numeral digit base n v s).2.length + j = s.length ∧
      (numeral digit base n v s).1 < (v + 1) * base ^ j := by
  induction n generalizing v s with
  | zero => exact ⟨0, rfl, by rw [numeral, pow_zero, Nat.mul_one]; exact Nat.lt_succ_self v⟩
  | succ n ih =>
      cases s with
      | nil => exact ⟨0, rfl, by rw [numeral, pow_zero, Nat.mul_one]; exact Nat.lt_succ_self v⟩
      | cons c s =>
          rw [numeral]
          cases hc : digit c with
          | none => exact ⟨0, rfl, by rw [pow_zero, Nat.mul_one]; exact Nat.lt_succ_self v⟩
          | some d =>
              obtain ⟨j, hlength, hvalue⟩ := ih (v * base + d) s
              refine ⟨j + 1, by rw [← Nat.add_assoc, hlength]; rfl, hvalue.trans_le ?_⟩
              have hstep : v * base + d + 1 ≤ (v + 1) * base := by
                have hd := hdigit c d hc
                rw [Nat.add_mul, Nat.one_mul]
                omega
              calc (v * base + d + 1) * base ^ j
                  ≤ (v + 1) * base * base ^ j := Nat.mul_le_mul_right _ hstep
                _ = (v + 1) * base ^ (j + 1) := by rw [pow_succ', Nat.mul_assoc]

theorem octValue_lt (c : UInt8) (k : ℕ) (h : octValue c = some k) : k < 8 := (eq_of_octValue h).1

theorem hexValue_lt (c : UInt8) (k : ℕ) (h : hexValue c = some k) : k < 16 := by
  have hall : ∀ n < 256, ∀ k ∈ hexValue (UInt8.ofNat n), k < 16 := by decide +kernel
  have hc := hall c.toNat c.toNat_lt
  rw [UInt8.ofNat_toNat] at hc
  exact hc k h

theorem length_hex_le (n v : ℕ) (s : Bytes) : (numeral hexValue 16 n v s).2.length ≤ s.length := by
  obtain ⟨j, hlength, _⟩ := numeral_spec hexValue_lt n v s
  exact Nat.le.intro hlength

/-- The escape behind a backslash and a character leaves no more than was there, and writes no more
than four bytes for each that it takes. -/
structure Fits (t : Bytes) (r : Piece × Bytes) : Prop where
  left : r.2.length ≤ t.length
  within : r.1.Within (t.length - r.2.length + 2)

theorem fits_emit {front : Bytes} (hfront : front.length ≤ 1) (hrest : rest.length ≤ t.length) :
    Fits t (emit flags front c, rest) :=
  ⟨hrest, within_emit hfront _⟩

theorem fits_octal (flags : AnsiFlags) (c : UInt8) (t : Bytes) : Fits t (octal flags c t) := by
  obtain ⟨j, hlength, _⟩ := numeral_spec octValue_lt (2 + if flags.echo ∧ c = 0x30 then 1 else 0)
    (c.toNat - 0x30) t
  exact fits_emit (Nat.zero_le _) (Nat.le.intro hlength)

theorem fits_hex (flags : AnsiFlags) (t : Bytes) : Fits t (hex flags t) := by
  rw [hex]
  have hdrop : ∀ u : Bytes, (u.drop 1).length ≤ u.length := fun u => by
    rw [List.length_drop]
    exact Nat.sub_le _ _
  by_cases hbraced : decide (flags.parser ∧ t.head? = some 0x7b) = true
  · simp only [hbraced, if_true]
    have hfirst := (length_hex_le 2 0 (t.drop 1)).trans (hdrop t)
    generalize (numeral hexValue 16 2 0 (t.drop 1)) = r at *
    have hsecond := (length_hex_le r.2.length r.1 r.2).trans hfirst
    refine fits_emit (Nat.zero_le _) ?_
    split_ifs
    · exact (hdrop _).trans hsecond
    · exact hsecond
  · simp only [hbraced, Bool.false_eq_true, if_false]
    have hfirst := length_hex_le 2 0 t
    split_ifs
    · exact fits_emit (Nat.le_refl _) hfirst
    · exact fits_emit (Nat.zero_le _) hfirst

theorem length_hexText (n v : ℕ) : (hexText n v).length = n := by
  induction n generalizing v with
  | zero => rfl
  | succ n ih => rw [hexText, List.length_append, ih, List.length_singleton]

theorem length_u32toutf8_le (wc : ℕ) : (u32toutf8 wc).length ≤ 6 := by
  rw [u32toutf8]
  simp only
  split_ifs <;> simp

theorem length_u32tocesc_le (wc : ℕ) : (u32tocesc wc).length ≤ 10 := by
  rw [u32tocesc]
  split_ifs <;> simp [length_hexText]

theorem within_u32cconv (hloc : loc.Bounded) (wc : ℕ) (n : ℕ) :
    (u32cconv loc wc).Within (n + 4) := by
  have hutf := length_u32toutf8_le wc
  have hesc := length_u32tocesc_le wc
  rw [u32cconv]
  split
  · next bytes hbytes =>
      have hlength : bytes.length ≤ mbLenMax := by
        split_ifs at hbytes with hsmall
        exact hloc.wctomb wc bytes hbytes
      rw [mbLenMax] at hlength
      constructor <;> simp only <;> omega
  · simp only
    split_ifs
    · constructor <;> simp only <;> omega
    · split
      · constructor <;> simp only <;> omega
      · next conv hconv =>
          have hout : ((conv (u32toutf8 wc)).getD (u32tocesc wc)).length ≤ 16 := by
            cases hc : conv (u32toutf8 wc) with
            | none => exact hesc.trans (by decide)
            | some out => exact hloc.iconv conv hconv _ out hc
          constructor <;> simp only <;> omega

theorem fits_unicode (hloc : loc.Bounded) (flags : AnsiFlags) (c : UInt8) (n : ℕ) (t : Bytes) :
    Fits t (unicode loc flags c n t) := by
  obtain ⟨j, hlength, hvalue⟩ := numeral_spec hexValue_lt n 0 t
  rw [Nat.zero_add, Nat.one_mul] at hvalue
  have hrest := Nat.le.intro hlength
  rw [unicode]
  simp only
  split_ifs with hnone hsmall
  · exact fits_emit (Nat.le_refl _) hrest
  · exact fits_emit (Nat.zero_le _) hrest
  · -- a number above `0x7f` has two digits at least
    have hj : 2 ≤ j := by
      by_contra hlt
      have hpow : 16 ^ j ≤ 16 ^ 1 := Nat.pow_le_pow_right (by decide) (by omega)
      omega
    refine ⟨hrest, ?_⟩
    obtain ⟨i, rfl⟩ := Nat.exists_eq_add_of_le' hj
    have htaken : t.length - (numeral hexValue 16 n 0 t).2.length + 2 = i + 4 := by omega
    rw [htaken]
    exact within_u32cconv hloc _ i

theorem fits_control (loc : Locale) (flags : AnsiFlags) (t : Bytes) :
    Fits t (control loc flags t) := by
  cases t with
  | nil => exact ⟨Nat.le_refl _, within_unknown _⟩
  | cons c t =>
      have hrest : t.length ≤ (c :: t).length := Nat.le_succ _
      rw [control.eq_def]
      simp only
      split_ifs
      · refine fits_emit (Nat.zero_le _) ?_
        rw [List.length_drop]
        exact (Nat.sub_le _ _).trans hrest
      · cases t with
        | nil => exact fits_emit (Nat.zero_le _) hrest
        | cons d t =>
            simp only
            split_ifs
            · exact fits_emit (Nat.zero_le _) ((Nat.le_succ _).trans hrest)
            · exact fits_emit (Nat.zero_le _) hrest

theorem fits_escape (hloc : loc.Bounded) (flags : AnsiFlags) (sawc : Bool) (c : UInt8) (t : Bytes) :
    Fits t (escape loc flags sawc c t) := by
  have hself : t.length ≤ t.length := Nat.le_refl _
  have hunknown : Fits t (unknown flags c, t) := ⟨hself, within_unknown _⟩
  have hletter : ∀ d, Fits t (emit flags [] d, t) := fun d => fits_emit (Nat.zero_le _) hself
  have hdigit : Fits t (if flags.echo then (emit flags [backslash] c, t) else octal flags c t) := by
    split_ifs
    · exact fits_emit (Nat.le_refl _) hself
    · exact fits_octal flags c t
  have hquote : Fits t (emit flags (if flags.echo then [backslash] else []) c, t) := by
    refine fits_emit ?_ hself
    split_ifs
    · exact Nat.le_refl _
    · exact Nat.zero_le _
  have hstop : Fits t (if sawc then (⟨[], 1, true⟩, [])
      else if flags.echo then (unknown flags c, t) else control loc flags t) := by
    split_ifs
    · exact ⟨Nat.zero_le _, ⟨Nat.zero_le _, Nat.succ_le_succ (Nat.zero_le _)⟩⟩
    · exact hunknown
    · exact fits_control loc flags t
  rw [escape]
  split <;>
    first
    | exact hletter _
    | exact hdigit
    | exact fits_octal flags c t
    | exact fits_hex flags t
    | exact fits_unicode hloc flags c _ t
    | exact hquote
    | exact hstop
    | exact hunknown

/-- A turn takes no more than there is, and stays within its share of the buffer. -/
theorem within_turn (hloc : loc.Bounded) (before : Bytes) (c : UInt8) (s : Bytes)
    (hturn : ansiTurn loc flags sawc before (c :: s) = some (p, k)) :
    k ≤ s.length ∧ p.Within (k + 1) := by
  have hplain : ansiTurn.plain loc before c s = some (p, k) → k ≤ s.length ∧ p.Within (k + 1) := by
    intro h
    rw [ansiTurn.plain, Option.map_eq_some_iff] at h
    obtain ⟨l, hl, hp⟩ := h
    obtain ⟨rfl, rfl⟩ := Prod.mk.inj hp
    have hle : l ≤ s.length := by
      rw [plainLength] at hl
      split_ifs at hl
      · split at hl
        · cases hl
        · obtain rfl := Option.some.inj hl
          exact Nat.zero_le _
        · next trail wc hread =>
            obtain rfl := Option.some.inj hl
            exact hloc.mbrtowc before c s trail wc hread
      · obtain rfl := Option.some.inj hl
        exact Nat.zero_le _
    refine ⟨hle, ?_, ?_⟩
    · simp only [List.length_cons, List.length_take]
      omega
    · simp only
      omega
  cases s with
  | nil => exact hplain hturn
  | cons d t =>
      rw [ansiTurn] at hturn
      split_ifs at hturn
      · obtain ⟨hleft, hwithin⟩ := fits_escape hloc flags sawc d t
        obtain ⟨rfl, rfl⟩ := Prod.mk.inj (Option.some.inj hturn)
        rw [List.length_cons]
        refine ⟨by omega, ?_⟩
        rwa [Nat.add_comm 1, Nat.add_assoc]
      · exact hplain hturn

/-! ## The whole string -/

theorem extent_le (hloc : loc.Bounded) (before s : Bytes) :
    extent (scan (ansiTurn loc flags sawc) before s) ≤ 4 * s.length + 1 := by
  refine scan_induction (motive := fun _ s ps => extent ps ≤ 4 * s.length + 1) ?_ ?_ ?_ before s
  · exact fun _ => Nat.le_refl _
  · exact fun _ _ _ _ => Nat.le_add_left _ _
  · intro before c s p k ps hturn hrest
    obtain ⟨hk, htext, htouched⟩ := within_turn hloc before c s hturn
    rw [List.length_drop] at hrest
    rw [extent, List.length_cons]
    exact max_le (by omega) (by omega)

theorem lt_extent (ps : List Piece) : (ps.flatMap Piece.text).length < extent ps := by
  induction ps with
  | nil => exact Nat.one_pos
  | cons p ps ih =>
      rw [List.flatMap_cons, List.length_append, extent]
      exact lt_max_of_lt_right (Nat.add_lt_add_left ih _)

/-- A backslash before a marker makes three bytes of two. -/
theorem reads_unknown : Reads loc [backslash, ctlesc] [backslash, ctlesc, ctlesc] :=
  @Reads.of_escape _ _ _ ⟨[backslash, ctlesc, ctlesc], 3, false⟩ (fun _ => rfl) fun _ => rfl

/-- The string of `n` bytes that is written longest when no character is converted. -/
def longest (n : ℕ) : Bytes :=
  (List.replicate (n / 2) [backslash, ctlesc]).flatten ++ List.replicate (n % 2) 0x61

theorem length_longest (n : ℕ) : (longest n).length = n := by
  simp only [longest, List.length_append, List.length_flatten, List.map_replicate,
    List.sum_replicate_nat, List.length_replicate, List.length_cons, List.length_nil]
  omega

theorem nul_notMem_longest (n : ℕ) : (0 : UInt8) ∉ longest n := by
  intro hin
  rcases List.mem_append.mp hin with hin | hin
  · obtain ⟨pair, hpair, hin⟩ := List.mem_flatten.mp hin
    rw [List.eq_of_mem_replicate hpair] at hin
    exact absurd hin (by decide)
  · exact absurd (List.eq_of_mem_replicate hin) (by decide)

theorem reads_replicate (h : Reads loc s t) (n : ℕ) :
    Reads loc (List.replicate n s).flatten (List.replicate n t).flatten := by
  induction n with
  | zero => exact Reads.nil
  | succ n ih =>
      rw [List.replicate_succ, List.replicate_succ, List.flatten_cons, List.flatten_cons]
      exact h.append ih

theorem reads_plains (hwidth : loc.utf8 = true ∨ loc.mbCurMax ≤ 1) (hc : c ≠ backslash)
    (hquote : c ≠ squote) (n : ℕ) : Reads loc (List.replicate n c) (List.replicate n c) := by
  have hplain := reads_replicate (reads_plain hwidth hc hquote) n
  rwa [List.flatten_replicate_singleton] at hplain

theorem reads_longest (hwidth : loc.utf8 = true ∨ loc.mbCurMax ≤ 1) (n : ℕ) :
    ∃ out, Reads loc (longest n) out ∧ out.length = n + n / 2 := by
  refine ⟨_, (reads_replicate reads_unknown (n / 2)).append
    (reads_plains hwidth (by decide) (by decide) (n % 2)), ?_⟩
  simp only [List.length_append, List.length_flatten, List.map_replicate,
    List.sum_replicate_nat, List.length_replicate, List.length_cons, List.length_nil]
  omega

theorem Reads.written {out : Bytes} (h : Reads loc s out) (hne : s ≠ []) (len : ℕ) :
    ∃ result, ansicstr loc dollarFlags false s len = some result ∧
      result.allocated = allocation len ∧ out.length < result.written := by
  obtain ⟨pieces, hscan, htext⟩ := h.scan_eq [] []
  rw [List.append_nil, scan_nil, List.append_nil] at hscan
  rw [ansicstr, if_neg hne]
  refine ⟨_, rfl, rfl, ?_⟩
  simp only
  rw [hscan, ← htext]
  exact lt_extent pieces

/-! ## The size of the buffer -/

theorem allocation_enough {len : ℕ} (h : 4 * len + 4 < 2 ^ 31) : 4 * len + 4 ≤ allocation len := by
  rw [allocation, toInt]
  split_ifs <;> omega

/-- A size that has wrapped is too little even for a string in ASCII. -/
theorem allocation_wrapped {len : ℕ} (hlen : len < 2 ^ 64) (h : 2 ^ 31 ≤ 4 * len + 4) :
    allocation len ≤ len + len / 2 := by
  rw [allocation, toInt]
  split_ifs <;> omega

theorem posixLocale_bounded : posixLocale.Bounded where
  mbrtowc before c s trail wc h := by
    change (if c = 0 then MbRead.null else if c < 0x80 then .char 0 c.toNat else .invalid) = _ at h
    split_ifs at h
    obtain ⟨rfl, _⟩ := MbRead.char.inj h
    exact Nat.zero_le _
  wctomb wc bytes h := by
    change (if wc < 0x80 then some [UInt8.ofNat wc] else none) = some bytes at h
    split_ifs at h
    obtain rfl := Option.some.inj h
    exact Nat.succ_le_succ (Nat.zero_le _)
  iconv conv h wc out hout := by
    obtain rfl := Option.some.inj h
    beta_reduce at hout
    split_ifs at hout
    obtain rfl := Option.some.inj hout
    exact (length_u32toutf8_le wc).trans (by decide)

/-- For a length every string of that length stays within the buffer exactly when the size of the
buffer is a positive `int`. -/
theorem ansicstr_written_iff (len : ℕ) (hlen : len < 2 ^ 64) :
    (∀ loc : Locale, loc.Bounded → ∀ flags sawc string result, string.length = len →
      (0 : UInt8) ∉ string → ansicstr loc flags sawc string len = some result →
        result.written ≤ result.allocated) ↔ 4 * len + 4 < 2 ^ 31 := by
  constructor
  · intro h
    by_contra hwrapped
    have hne : longest len ≠ [] := by
      intro hnil
      have hlength := length_longest len
      rw [hnil, List.length_nil] at hlength
      omega
    obtain ⟨out, hreads, hout⟩ := @reads_longest posixLocale (.inr (Nat.le_refl _)) len
    obtain ⟨result, hresult, hallocated, hwritten⟩ := hreads.written hne len
    have hle := h posixLocale posixLocale_bounded dollarFlags false _ result (length_longest len)
      (nul_notMem_longest len) hresult
    have hsize := allocation_wrapped hlen (Nat.le_of_not_lt hwrapped)
    omega
  · intro hsmall loc hloc flags sawc string result hstring _ hresult
    rw [ansicstr] at hresult
    split_ifs at hresult
    obtain rfl := Option.some.inj hresult
    have hextent := @extent_le _ flags sawc hloc [] string
    rw [hstring] at hextent
    exact hextent.trans ((Nat.le_add_right _ 3).trans (allocation_enough hsmall))

theorem ansicstr_written_iff_four :
    (∀ loc : Locale, loc.Bounded → ∀ flags sawc string result, string.length = 4 →
      (0 : UInt8) ∉ string → ansicstr loc flags sawc string 4 = some result →
        result.written ≤ result.allocated) ↔ 4 * 4 + 4 < 2 ^ 31 :=
  ansicstr_written_iff 4 (by decide)

theorem plain_written (hwidth : loc.utf8 = true ∨ loc.mbCurMax ≤ 1) {n : ℕ} (hn : 0 < n) :
    ∃ result, ansicstr loc dollarFlags false (List.replicate n 0x61) n = some result ∧
      result.allocated = allocation n ∧ n < result.written := by
  have hne : List.replicate n (0x61 : UInt8) ≠ [] := by
    rw [Ne, List.replicate_eq_nil_iff]
    exact hn.ne'
  have hwritten := (reads_plains (c := 0x61) hwidth (by decide) (by decide) n).written hne n
  rwa [List.length_replicate] at hwritten

theorem ansicstr_overrun : ∃ string : Bytes, string.length = 2 ^ 29 ∧ (0 : UInt8) ∉ string ∧
    ∃ result, ansicstr posixLocale dollarFlags false string (2 ^ 29) = some result ∧
      result.allocated = 12 ∧ 2 ^ 29 < result.written := by
  obtain ⟨result, hresult, hallocated, hwritten⟩ :=
    @plain_written posixLocale (.inr (Nat.le_refl _)) _ (Nat.two_pow_pos 29)
  refine ⟨_, List.length_replicate, fun hin => ?_, result, hresult, ?_, hwritten⟩
  · exact absurd (List.eq_of_mem_replicate hin) (by decide)
  · rw [hallocated]
    decide

end Strtrans

end Rash
