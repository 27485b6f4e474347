import Rash.Words.Quoting

/-!
# Quoted strings, character by character

What the quoting functions write is a list of characters of which some have a `CTLESC` in front.
Every reader of such a string takes it apart into the same items.
-/

namespace Rash

namespace Quoting

/-- What is known of the locales that the shell runs in: a character is recognised by its own
bytes, and `CTLESC` is no part of a multibyte character. -/
structure Locale.Lawful (loc : Locale) : Prop where
  mbrlen_le : ∀ {s n}, s ≠ [] → loc.mbrlen s = some n → n ≤ s.length
  truncated : ∀ {s t}, s ≠ [] → loc.charLen (s ++ t) ≤ s.length →
    loc.charLen s = loc.charLen (s ++ t)
  ctlesc_apart : ∀ {s} t, s ≠ [] → loc.charLen (s ++ ctlesc :: t) = loc.charLen s
  isSpace_blank : ∀ c, spctabnl c = true → loc.isSpace c = true
  wcschr_short : ∀ {charlist s}, (∀ b ∈ charlist, ∀ t, loc.mbrlen (b :: t) = some 1) →
    1 < s.length → loc.wcschr charlist s = false

/-- A character with the mark that says whether `CTLESC` stands in front of it. -/
abbrev Item := Bool × Bytes

def encode (its : List Item) : Bytes := its.flatMap fun i => if i.1 then ctlesc :: i.2 else i.2

def text (its : List Item) : Bytes := (its.map Prod.snd).flatten

/-- The characters without a mark are no markers, and every character ends where the locale
sees its end. -/
inductive Encoded (loc : Locale) : List Item → Prop
  | nil : Encoded loc []
  | cons {marked : Bool} {c : UInt8} {u : Bytes} {its : List Item}
      (hlen : loc.charLen (c :: u ++ encode its) = (c :: u).length)
      (hplain : marked = false → c ≠ ctlesc ∧ c ≠ ctlnul) (hits : Encoded loc its) :
      Encoded loc ((marked, c :: u) :: its)

inductive IsCut (loc : Locale) : List Bytes → Prop
  | nil : IsCut loc []
  | cons {c : UInt8} {u : Bytes} {us : List Bytes}
      (hlen : loc.charLen (c :: u ++ us.flatten) = (c :: u).length) (hus : IsCut loc us) :
      IsCut loc ((c :: u) :: us)

@[simp] theorem encode_nil : encode [] = [] := rfl
@[simp] theorem text_nil : text [] = [] := rfl

@[simp] theorem encode_marked (u : Bytes) (its : List Item) :
    encode ((true, u) :: its) = ctlesc :: (u ++ encode its) := rfl

@[simp] theorem encode_unmarked (u : Bytes) (its : List Item) :
    encode ((false, u) :: its) = u ++ encode its := rfl

@[simp] theorem text_cons (i : Item) (its : List Item) : text (i :: its) = i.2 ++ text its := rfl

theorem encode_append (a b : List Item) : encode (a ++ b) = encode a ++ encode b :=
  List.flatMap_append

variable {loc : Locale}

theorem Locale.charLen_pos (s : Bytes) : 0 < loc.charLen s := by
  unfold Locale.charLen
  split
  · exact Nat.one_pos
  · exact Nat.lt_of_lt_of_le Nat.one_pos (Nat.le_max_right _ _)

theorem Locale.Lawful.charLen_le (hloc : loc.Lawful) {s : Bytes} (hs : s ≠ []) :
    loc.charLen s ≤ s.length := by
  have hpos : 0 < s.length := List.length_pos_iff.mpr hs
  unfold Locale.charLen
  split
  · exact hpos
  · next n hn => exact max_le (hloc.mbrlen_le hs hn) hpos

/-! ## The characters of a string -/

theorem isCut_cutFrom (hloc : loc.Lawful) (n : ℕ) : ∀ s : Bytes, s.length ≤ n →
    IsCut loc (loc.cutFrom n s) ∧ (loc.cutFrom n s).flatten = s := by
  induction n with
  | zero =>
      intro s hs
      rw [List.length_eq_zero_iff.mp (Nat.le_zero.mp hs)]
      exact ⟨.nil, rfl⟩
  | succ n ih =>
      intro s hs
      cases s with
      | nil => exact ⟨.nil, rfl⟩
      | cons c s =>
          have hpos := loc.charLen_pos (c :: s)
          have hle := hloc.charLen_le (List.cons_ne_nil c s)
          obtain ⟨k, hk⟩ := Nat.exists_eq_succ_of_ne_zero (Nat.pos_iff_ne_zero.mp hpos)
          rw [List.length_cons] at hs hle
          obtain ⟨hcut, hflat⟩ := ih ((c :: s).drop (loc.charLen (c :: s)))
            (by rw [List.length_drop, List.length_cons]; omega)
          have heq : loc.cutFrom (n + 1) (c :: s) = (c :: s).take (loc.charLen (c :: s)) ::
              loc.cutFrom n ((c :: s).drop (loc.charLen (c :: s))) := rfl
          rw [heq]
          refine ⟨?_, by rw [List.flatten_cons, hflat, List.take_append_drop]⟩
          have htake : (c :: s).take (loc.charLen (c :: s)) = c :: s.take k := by
            rw [hk, List.take_succ_cons]
          have hsame : c :: s.take k ++
              (loc.cutFrom n ((c :: s).drop (loc.charLen (c :: s)))).flatten = c :: s := by
            rw [hflat, ← htake, List.take_append_drop]
          rw [htake]
          refine .cons ?_ hcut
          rw [hsame, List.length_cons, List.length_take_of_le (by omega), hk]

theorem isCut_chars (hloc : loc.Lawful) (s : Bytes) : IsCut loc (loc.chars s) :=
  (isCut_cutFrom hloc _ s le_rfl).1

theorem flatten_chars (hloc : loc.Lawful) (s : Bytes) : (loc.chars s).flatten = s :=
  (isCut_cutFrom hloc _ s le_rfl).2

/-- The marked text agrees with the unmarked one up to the first mark. -/
theorem encode_agrees (its : List Item) : ∃ run x y, encode its = run ++ x ∧
    text its = run ++ y ∧ (x = [] ∨ ∃ t, x = ctlesc :: t) := by
  induction its with
  | nil => exact ⟨[], [], [], rfl, rfl, .inl rfl⟩
  | cons i its ih =>
      obtain ⟨marked, u⟩ := i
      cases marked with
      | true => exact ⟨[], ctlesc :: (u ++ encode its), u ++ text its, rfl, rfl, .inr ⟨_, rfl⟩⟩
      | false =>
          obtain ⟨run, x, y, henc, htext, hx⟩ := ih
          exact ⟨u ++ run, x, y, by rw [encode_unmarked, henc, List.append_assoc],
            by rw [text_cons, htext, List.append_assoc], hx⟩

/-- Marks do not move the ends of the characters. -/
theorem charLen_encode (hloc : loc.Lawful) {u : Bytes} (hu : u ≠ []) {its : List Item}
    (h : loc.charLen (u ++ text its) = u.length) : loc.charLen (u ++ encode its) = u.length := by
  obtain ⟨run, x, y, henc, htext, hx⟩ := encode_agrees its
  have hne : u ++ run ≠ [] := by simp [hu]
  rw [htext, ← List.append_assoc] at h
  have hrun : loc.charLen (u ++ run) = u.length := by
    rw [hloc.truncated hne (by rw [h, List.length_append]; omega), h]
  rw [henc, ← List.append_assoc]
  rcases hx with rfl | ⟨t, rfl⟩
  · rw [List.append_nil, hrun]
  · rw [hloc.ctlesc_apart t hne, hrun]

/-- The items of a string whose characters are marked by `mark`. -/
def itemsOf (mark : Bytes → Bool) (us : List Bytes) : List Item := us.map fun u => (mark u, u)

theorem text_itemsOf (mark : Bytes → Bool) (us : List Bytes) :
    text (itemsOf mark us) = us.flatten := by
  unfold text itemsOf
  rw [List.map_map]
  exact congrArg List.flatten (List.map_id us)

theorem IsCut.encoded (hloc : loc.Lawful) {mark : Bytes → Bool}
    (hmark : ∀ c u, mark (c :: u) = false → c ≠ ctlesc ∧ c ≠ ctlnul) {us : List Bytes}
    (h : IsCut loc us) : Encoded loc (itemsOf mark us) := by
  induction h with
  | nil => exact .nil
  | @cons c u us hlen _ ih =>
      refine .cons ?_ (hmark c u) ih
      apply charLen_encode hloc (List.cons_ne_nil c u)
      have htext := text_itemsOf mark us
      unfold itemsOf at htext
      rw [htext]
      exact hlen

theorem Encoded.left (hloc : loc.Lawful) {a b : List Item} (h : Encoded loc (a ++ b)) :
    Encoded loc a := by
  induction a with
  | nil => exact .nil
  | cons i a ih =>
      rw [List.cons_append] at h
      cases h with
      | @cons marked c u _ hlen hplain hits =>
          refine .cons ?_ hplain (ih hits)
          rw [encode_append, ← List.append_assoc] at hlen
          have hne : c :: u ++ encode a ≠ [] := List.cons_ne_nil _ _
          rw [hloc.truncated hne (by rw [hlen, List.length_append]; omega), hlen]

theorem Encoded.right {a b : List Item} (h : Encoded loc (a ++ b)) : Encoded loc b := by
  induction a with
  | nil => exact h
  | cons i a ih =>
      rw [List.cons_append] at h
      cases h with
      | cons _ _ hits => exact ih hits

/-! ## Writing -/

theorem take_char {u t : Bytes} (h : loc.charLen (u ++ t) = u.length) :
    (u ++ t).take (loc.charLen (u ++ t)) = u := by
  rw [h, List.take_left' rfl]

theorem drop_char {u t : Bytes} (h : loc.charLen (u ++ t) = u.length) :
    (u ++ t).drop (loc.charLen (u ++ t)) = t := by
  rw [h, List.drop_left' rfl]

theorem quoteStringLoop_eq {us : List Bytes} (h : IsCut loc us) : ∀ n, us.flatten.length ≤ n →
    quoteStringLoop loc n us.flatten = encode (itemsOf (fun _ => true) us) := by
  induction h with
  | nil => intro n _; cases n <;> rfl
  | @cons c u us hlen _ ih =>
      intro n hn
      rw [List.flatten_cons] at hn ⊢
      rw [List.length_append, List.length_cons] at hn
      obtain ⟨n, rfl⟩ := Nat.exists_eq_succ_of_ne_zero (by omega : n ≠ 0)
      have hstep : quoteStringLoop loc (n + 1) (c :: u ++ us.flatten) =
          ctlesc :: (c :: u ++ us.flatten).take (loc.charLen (c :: u ++ us.flatten)) ++
            quoteStringLoop loc n
              ((c :: u ++ us.flatten).drop (loc.charLen (c :: u ++ us.flatten))) := rfl
      rw [hstep, take_char hlen, drop_char hlen, ih n (by omega)]
      rfl

/-- The characters that `quote_escapes` protects. -/
def protects (ifsValue : Bytes) (u : Bytes) : Bool :=
  u.head?.any fun c => c == ctlesc || c == ctlnul || (ifsValue.isEmpty && c == space)

theorem quoteEscapesLoop_eq (ifsValue : Bytes) {us : List Bytes} (h : IsCut loc us) :
    ∀ n, us.flatten.length ≤ n →
      quoteEscapesLoop loc false false ifsValue.isEmpty n us.flatten =
        encode (itemsOf (protects ifsValue) us) := by
  induction h with
  | nil => intro n _; cases n <;> rfl
  | @cons c u us hlen _ ih =>
      intro n hn
      rw [List.flatten_cons] at hn ⊢
      rw [List.length_append, List.length_cons] at hn
      obtain ⟨n, rfl⟩ := Nat.exists_eq_succ_of_ne_zero (by omega : n ≠ 0)
      have htake := take_char hlen
      have hdrop := drop_char hlen
      rw [List.cons_append] at htake hdrop ⊢
      unfold quoteEscapesLoop
      simp only [htake, hdrop, ih n (by omega), Bool.not_false, Bool.true_and]
      cases hmark : c == ctlesc || c == ctlnul || (ifsValue.isEmpty && c == space) <;>
        simp [itemsOf, encode, protects, hmark]

/-! ## Reading -/

theorem length_lt_encode {marked : Bool} {c : UInt8} {u : Bytes} {its : List Item} {n : ℕ}
    (hn : (encode ((marked, c :: u) :: its)).length ≤ n) :
    ∃ k, n = k + 1 ∧ (encode its).length ≤ k := by
  have hlen : (encode its).length + 1 ≤ (encode ((marked, c :: u) :: its)).length := by
    cases marked with
    | true =>
        rw [encode_marked, List.length_cons, List.length_append]
        omega
    | false =>
        rw [encode_unmarked, List.length_append, List.length_cons]
        omega
  exact ⟨n - 1, by omega, by omega⟩

theorem dequoteStringLoop_eq {its : List Item} (h : Encoded loc its) :
    ∀ n, (encode its).length ≤ n → dequoteStringLoop loc n (encode its) = text its := by
  induction h with
  | nil => intro n _; cases n <;> rfl
  | @cons marked c u its hlen hplain _ ih =>
      intro n hn
      obtain ⟨n, rfl, hle⟩ := length_lt_encode hn
      cases marked with
      | true =>
          rw [encode_marked]
          unfold dequoteStringLoop
          rw [if_pos ⟨rfl, by simp⟩]
          simp only [take_char hlen, drop_char hlen, ih n hle]
          rfl
      | false =>
          have htake := take_char hlen
          have hdrop := drop_char hlen
          rw [encode_unmarked, List.cons_append] at *
          unfold dequoteStringLoop
          rw [if_neg (fun hbad => (hplain rfl).1 hbad.1)]
          simp only [htake, hdrop, ih n hle]
          rfl

theorem dequoteEscapesLoop_eq {ifsValue : Bytes} {its : List Item} (h : Encoded loc its)
    (hmark : ∀ i ∈ its, i.1 = true → protects ifsValue i.2 = true) :
    ∀ n, (encode its).length ≤ n →
      dequoteEscapesLoop loc ifsValue.isEmpty n (encode its) = text its := by
  induction h with
  | nil => intro n _; cases n <;> rfl
  | @cons marked c u its hlen hplain _ ih =>
      intro n hn
      obtain ⟨n, rfl, hle⟩ := length_lt_encode hn
      have hrest := ih (fun i hi => hmark i (List.mem_cons_of_mem _ hi)) n hle
      have htake := take_char hlen
      have hdrop := drop_char hlen
      cases marked with
      | true =>
          have hprotects := hmark _ List.mem_cons_self rfl
          rw [encode_marked]
          rw [List.cons_append] at htake hdrop ⊢
          unfold dequoteEscapesLoop
          have hcond : (ctlesc == ctlesc && ((c :: (u ++ encode its)).head? == some ctlesc ||
              (c :: (u ++ encode its)).head? == some ctlnul ||
              (ifsValue.isEmpty && (c :: (u ++ encode its)).head? == some space))) = true := by
            simpa [protects] using hprotects
          simp only [hcond, if_true, htake, hdrop, hrest]
          rfl
      | false =>
          rw [encode_unmarked]
          rw [List.cons_append] at htake hdrop ⊢
          unfold dequoteEscapesLoop
          have hcond : (c == ctlesc) = false := beq_false_of_ne (hplain rfl).1
          simp only [hcond, Bool.false_and, Bool.false_eq_true, if_false, htake, hdrop, hrest]
          rfl

theorem removeQuotedNullsLoop_eq {its : List Item} (h : Encoded loc its) :
    ∀ n, (encode its).length ≤ n → removeQuotedNullsLoop loc n (encode its) = encode its := by
  induction h with
  | nil => intro n _; cases n <;> rfl
  | @cons marked c u its hlen hplain _ ih =>
      intro n hn
      obtain ⟨n, rfl, hle⟩ := length_lt_encode hn
      have htake := take_char hlen
      have hdrop := drop_char hlen
      cases marked with
      | true =>
          rw [encode_marked]
          unfold removeQuotedNullsLoop
          rw [if_pos rfl, if_neg (by simp), htake, hdrop, ih n hle]
          rfl
      | false =>
          rw [encode_unmarked]
          rw [List.cons_append] at htake hdrop ⊢
          unfold removeQuotedNullsLoop
          rw [if_neg (hplain rfl).1, if_neg (hplain rfl).2]
          simp only [htake, hdrop, ih n hle]
          rfl

theorem encode_eq_text {its : List Item} (h : ctlesc ∉ encode its) : encode its = text its := by
  induction its with
  | nil => rfl
  | cons i its ih =>
      obtain ⟨marked, u⟩ := i
      cases marked with
      | true => exact absurd List.mem_cons_self h
      | false =>
          rw [encode_unmarked, List.mem_append, not_or] at h
          rw [encode_unmarked, text_cons, ih h.2]

theorem Encoded.not_quotedNull {its : List Item} (h : Encoded loc its) :
    quotedNull (encode its) = false := by
  unfold quotedNull
  cases h with
  | nil => rfl
  | @cons marked c u its _ hplain _ =>
      apply beq_false_of_ne
      intro hbad
      cases marked with
      | true => exact absurd (List.cons.inj hbad).1 (by decide)
      | false => exact (hplain rfl).2 (List.cons.inj hbad).1

theorem dequoteString_encode {its : List Item} (h : Encoded loc its) :
    dequoteString loc (encode its) = text its := by
  unfold dequoteString
  rw [h.not_quotedNull, if_neg Bool.false_ne_true]
  split
  · exact dequoteStringLoop_eq h _ le_rfl
  · next hno => exact encode_eq_text hno

theorem dequoteEscapes_encode {ifsValue : Bytes} {its : List Item} (h : Encoded loc its)
    (hmark : ∀ i ∈ its, i.1 = true → protects ifsValue i.2 = true) :
    dequoteEscapes loc ifsValue (encode its) = text its := by
  unfold dequoteEscapes
  split
  · exact dequoteEscapesLoop_eq h hmark _ le_rfl
  · next hno => exact encode_eq_text hno

theorem removeQuotedNulls_encode {its : List Item} (h : Encoded loc its) :
    removeQuotedNulls loc (encode its) = encode its := by
  unfold removeQuotedNulls
  split
  · exact removeQuotedNullsLoop_eq h _ le_rfl
  · rfl

end Quoting

end Rash
