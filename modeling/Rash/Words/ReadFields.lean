import Rash.Lib.FieldByField
import Rash.Words.WordSplitting

/-!
# The two field splitters

`read` takes one word after the other with `get_word_from_string`, expansion splits with
`list_string`.
-/

namespace Rash

namespace Quoting

open FieldSplitting

/-! ## Reading words -/

/-- The word, where `*stringp` is left, and `*endptr` if it is set. -/
structure WordFromString where
  word : Option Bytes
  string : Bytes
  endptr : Option Bytes
  deriving DecidableEq

section

variable (loc : Locale) (separators : Bytes)

def islocalsep (c : UInt8) : Bool := separators.contains c

def getWordFromString (string : Bytes) : WordFromString :=
  if string = [] then ⟨none, string, none⟩
  else
    let flags : ExtractFlags := ⟨separators.contains ctlesc, separators.contains ctlnul⟩
    let s := string.dropWhile fun c => ifsWhitesep loc separators c && islocalsep separators c
    if s = [] then ⟨none, s, some s⟩
    else
      let (word, rest) := stringExtractVerbatim loc s separators flags
      let whitesep := rest.head?.any (ifsWhitesep loc separators)
      let behind := rest.drop (loc.charLen rest)
      -- here `list_string` skips all of the white space
      match behind.dropWhile fun c => spctabnl c && islocalsep separators c with
      | [] => ⟨some word, [], some rest⟩
      | c :: after =>
          if whitesep && islocalsep separators c && !ifsWhitesep loc separators c then
            ⟨some word, after.dropWhile fun c =>
              ifsWhitesep loc separators c && islocalsep separators c, some rest⟩
          else ⟨some word, c :: after, some rest⟩

/-- The words that are read until there is no further one. -/
inductive Reads : Bytes → List Bytes → Prop
  | stop {string : Bytes} (h : (getWordFromString loc separators string).word = none) :
      Reads string []
  | word {string word : Bytes} {words : List Bytes}
      (h : (getWordFromString loc separators string).word = some word)
      (hrest : Reads (getWordFromString loc separators string).string words) :
      Reads string (word :: words)

end

/-- The field that a word of `list_string` stands for. -/
def SplitWord.field (w : SplitWord) : Bytes := if w.hasQuotedNull then [] else w.word

/-- Every character is a byte. -/
def SingleByte (loc : Locale) : Prop := ∀ c s, loc.mbrlen (c :: s) = some 1

/-- The string has no marker bytes. -/
def Unmarked (string : Bytes) : Prop := ctlesc ∉ string ∧ ctlnul ∉ string

variable {loc : Locale} {ifs : Bytes}

theorem Reads.unique {s : Bytes} {words words' : List Bytes} (h : Reads loc ifs s words)
    (h' : Reads loc ifs s words') : words' = words := by
  induction h generalizing words' with
  | stop h =>
      cases h' with
      | stop => rfl
      | word h' => rw [h] at h'; cases h'
  | word h _ ih =>
      cases h' with
      | stop h' => rw [h] at h'; cases h'
      | word h' hrest' =>
          rw [h] at h'
          cases h'
          rw [ih hrest']

/-! ## Words of single bytes -/

section

variable (hsingle : SingleByte loc)

include hsingle

theorem charLen_single (s : Bytes) (hs : s ≠ []) : loc.charLen s = 1 := by
  obtain ⟨c, t, rfl⟩ := List.exists_cons_of_ne_nil hs
  unfold Locale.charLen
  rw [hsingle c t]
  rfl

theorem drop_charLen (s : Bytes) : s.drop (loc.charLen s) = s.tail := by
  cases s with
  | nil => exact List.drop_nil
  | cons c s => rw [charLen_single hsingle _ (List.cons_ne_nil c s), List.drop_one]

theorem extractLoop_single (flags : ExtractFlags) {s : Bytes} (hplain : ctlesc ∉ s) :
    ∀ n, s.length ≤ n → extractLoop loc ifs flags n s =
      (s.takeWhile fun c => !ifsByte ifs c, s.dropWhile fun c => !ifsByte ifs c) := by
  induction s with
  | nil => intro n _; cases n <;> rfl
  | cons c s ih =>
      intro n hn
      obtain ⟨n, rfl⟩ := Nat.exists_eq_succ_of_ne_zero (by rw [List.length_cons] at hn; omega : n ≠ 0)
      have hc : c ≠ ctlesc := fun h => hplain (h ▸ List.mem_cons_self)
      have hrec := ih (fun h => hplain (List.mem_cons_of_mem _ h)) n (Nat.le_of_succ_le_succ hn)
      have hstop : stopsAt loc ifs (c :: s) = ifsByte ifs c := by
        unfold stopsAt
        simp only [hsingle c s, Nat.lt_irrefl, if_false]
        rfl
      unfold extractLoop
      rw [if_neg fun h => hc h.2, if_neg fun h => hc h.2.1, hstop,
        charLen_single hsingle _ (List.cons_ne_nil c s)]
      cases hifs : ifsByte ifs c with
      | true =>
          rw [if_pos rfl, List.takeWhile_cons_of_neg (by simp [hifs]),
            List.dropWhile_cons_of_neg (by simp [hifs])]
      | false =>
          rw [if_neg Bool.false_ne_true, List.takeWhile_cons_of_pos (by simp [hifs]),
            List.dropWhile_cons_of_pos (by simp [hifs])]
          change (c :: (extractLoop loc ifs flags n s).1, (extractLoop loc ifs flags n s).2) = _
          rw [hrec]

theorem stringExtractVerbatim_single {s : Bytes} (hplain : ctlesc ∉ s) :
    stringExtractVerbatim loc s ifs ⟨ifs.contains ctlesc, ifs.contains ctlnul⟩ =
      (s.takeWhile fun c => !ifsByte ifs c, s.dropWhile fun c => !ifsByte ifs c) := by
  unfold stringExtractVerbatim
  have hquote : ¬ (ifs.contains ctlesc = true ∧ ifs = [squote]) := by
    rintro ⟨hmem, rfl⟩
    exact absurd hmem (by decide)
  rw [if_neg hquote]
  split_ifs with hnil
  · subst hnil
    have hall : ∀ c ∈ s, (fun c => !ifsByte [] c) c = true := fun _ _ => rfl
    have htake := takeWhile_append_stop hall notAhead_nil
    have hdrop := dropWhile_append_all hall []
    rw [List.append_nil] at htake hdrop
    rw [htake, hdrop]
    rfl
  · exact extractLoop_single hsingle _ hplain _ le_rfl

end

/-! ## Delimiters -/

section

variable (hloc : loc.Lawful) (hsingle : SingleByte loc)

include hloc

theorem blank_of_spctabnl (c : UInt8) (h : spctabnl c = true) (hc : ifsByte ifs c = true) :
    blankByte loc ifs c = true := by
  rw [blankByte, hloc.isSpace_blank c h, Bool.and_true]
  exact hc

theorem ifsWhitesep_of_ifs {c : UInt8} (hc : ifsByte ifs c = true) :
    ifsWhitesep loc ifs c = blankByte loc ifs c := by
  have hmem : c ∈ ifs := by simpa [ifsByte] using hc
  rw [ifsWhitesep_of_mem hloc hmem, blankByte]
  exact (by rw [show ifs.contains c = true from hc, Bool.true_and])

omit hloc in
theorem blank_le_ifs (c : UInt8) (h : blankByte loc ifs c = true) : ifsByte ifs c = true :=
  (Bool.and_eq_true_iff.mp h).1

theorem whitesep_and_islocalsep :
    (fun c => ifsWhitesep loc ifs c && islocalsep ifs c) = blankByte loc ifs := by
  rw [← whitesep_and_issep hloc]
  funext c
  rw [issep_self]
  rfl

/-- The test for another separator behind white space. -/
theorem sep_and_not_whitesep (c : UInt8) :
    (ifsByte ifs c && !ifsWhitesep loc ifs c) = (ifsByte ifs c && !blankByte loc ifs c) := by
  cases hc : ifsByte ifs c with
  | false => rfl
  | true => rw [ifsWhitesep_of_ifs hloc hc]

theorem getWordFromString_stop {s : Bytes} (h : s.dropWhile (blankByte loc ifs) = []) :
    (getWordFromString loc ifs s).word = none := by
  unfold getWordFromString
  dsimp only
  rw [whitesep_and_islocalsep hloc, h, if_pos rfl]
  split_ifs <;> rfl

include hsingle

theorem skipDelimiter_single {rest : Bytes} (hrest : ∀ c ∈ rest.head?, ifsByte ifs c = true) :
    skipDelimiter loc ifs ifs rest = dropDelimiter (blankByte loc ifs) (ifsByte ifs) rest := by
  have hsep : issep ifs ifs = ifsByte ifs := funext issep_self
  have hskip : (fun c => ifsWhitesep loc ifs c && isifs ifs c) = blankByte loc ifs :=
    whitesep_and_islocalsep hloc
  unfold skipDelimiter
  rw [drop_charLen hsingle, whitesep_and_issep hloc, hskip, hsep]
  cases rest with
  | nil => rfl
  | cons x t =>
      have hx := hrest x rfl
      rw [List.head?_cons, Option.any_some, ifsWhitesep_of_ifs hloc hx, List.tail_cons]
      unfold dropDelimiter
      cases hws : blankByte loc ifs x with
      | false =>
          rw [List.dropWhile_cons_of_neg (by rw [hws]; exact Bool.false_ne_true)]
          simp only [hx, if_true, Bool.false_and, Bool.false_eq_true, if_false]
          cases t.dropWhile (blankByte loc ifs) <;> rfl
      | true =>
          rw [List.dropWhile_cons_of_pos hws]
          dsimp only
          have hahead := notAhead_dropWhile (blankByte loc ifs) t
          cases hnext : t.dropWhile (blankByte loc ifs) with
          | nil => rfl
          | cons c after =>
              rw [hnext] at hahead
              simp only [Bool.true_and, sep_and_not_whitesep hloc, hahead c rfl, Bool.not_false,
                Bool.and_true]

theorem getWordFromString_word {s : Bytes} (hplain : ctlesc ∉ s) {t : Bytes}
    (ht : s.dropWhile (blankByte loc ifs) = t) (hne : t ≠ []) :
    (getWordFromString loc ifs s).word = some (t.takeWhile fun c => !ifsByte ifs c) ∧
      (getWordFromString loc ifs s).string =
        dropPlain (blankByte loc ifs) (ifsByte ifs) spctabnl (t.dropWhile fun c => !ifsByte ifs c) := by
  have hs : s ≠ [] := by
    rintro rfl
    exact hne ht.symm
  have hplain : ctlesc ∉ t := fun h => hplain ((List.dropWhile_sublist _).mem (ht ▸ h))
  have hstop := notAhead_dropWhile (fun c => !ifsByte ifs c) t
  unfold getWordFromString
  rw [whitesep_and_islocalsep hloc, ht, if_neg hs, if_neg hne,
    stringExtractVerbatim_single hsingle hplain]
  generalize t.dropWhile (fun c => !ifsByte ifs c) = rest at hstop
  dsimp only
  rw [drop_charLen hsingle]
  unfold dropPlain
  have hsep : islocalsep ifs = ifsByte ifs := rfl
  have hwhitesep : rest.head?.any (ifsWhitesep loc ifs) = rest.head?.any (blankByte loc ifs) := by
    cases rest with
    | nil => rfl
    | cons x rest => exact ifsWhitesep_of_ifs hloc (by simpa using hstop x rfl)
  rw [hwhitesep, hsep]
  cases rest.tail.dropWhile fun c => spctabnl c && ifsByte ifs c with
  | nil => exact ⟨rfl, rfl⟩
  | cons c after =>
      have hassoc (b : Bool) : (b && ifsByte ifs c && !ifsWhitesep loc ifs c) =
          (b && ifsByte ifs c && !blankByte loc ifs c) := by
        rw [Bool.and_assoc, Bool.and_assoc, sep_and_not_whitesep hloc]
      simp only [hassoc]
      split_ifs <;> exact ⟨rfl, rfl⟩

/-! ## All the words -/

theorem reads_single (n : ℕ) : ∀ {s : Bytes}, ctlesc ∉ s →
    (s.dropWhile (blankByte loc ifs)).length ≤ n → Reads loc ifs s
      (fieldsOneByOne (blankByte loc ifs) (ifsByte ifs) spctabnl n
        (s.dropWhile (blankByte loc ifs))) := by
  induction n with
  | zero =>
      intro s _ hn
      exact .stop (getWordFromString_stop hloc (List.length_eq_zero_iff.mp (Nat.le_zero.mp hn)))
  | succ n ih =>
      intro s hplain hn
      by_cases hne : s.dropWhile (blankByte loc ifs) = []
      · rw [hne]
        exact .stop (getWordFromString_stop hloc hne)
      · obtain ⟨hword, hstring⟩ := getWordFromString_word hloc hsingle hplain rfl hne
        rw [fieldsOneByOne_cons n hne]
        refine .word hword ?_
        rw [hstring]
        have hrest := List.dropWhile_sublist (l := s.dropWhile (blankByte loc ifs))
          fun c => !ifsByte ifs c
        have hsub := @dropPlain_sublist _ (blankByte loc ifs) (ifsByte ifs) spctabnl
          ((s.dropWhile (blankByte loc ifs)).dropWhile fun c => !ifsByte ifs c)
        refine ih (fun h => hplain ?_) ?_
        · exact (List.dropWhile_sublist _).mem (hrest.mem (List.mem_of_mem_tail (hsub.mem h)))
        · have hlen := ((List.dropWhile_sublist (blankByte loc ifs)).trans hsub).length_le
          have hrest := hrest.length_le
          rw [List.length_tail] at hlen
          have hpos := List.length_pos_iff.mpr hne
          omega

omit hsingle in
/-- The word that a piece adds stands for the piece. -/
theorem pieceWords_field (quoted : ℕ) {s piece rest : Bytes} (hpiece : ctlnul ∉ piece)
    (hahead : NotAhead (blankByte loc ifs) s) (hs : piece = [] → s ≠ [] ∧ rest = s)
    (hrest : ∀ c ∈ rest.head?, ifsByte ifs c = true) :
    (pieceWords loc ifs quoted piece rest).map SplitWord.field = [piece] := by
  have hnull : ¬ quotedNull piece = true := by
    intro h
    rw [eq_of_beq h] at hpiece
    exact hpiece List.mem_cons_self
  unfold pieceWords
  rw [if_neg hnull]
  by_cases hne : piece = []
  · obtain ⟨hs, rfl⟩ := hs hne
    obtain ⟨c, t, rfl⟩ := List.exists_cons_of_ne_nil hs
    have hc := hrest c rfl
    have hspace : loc.isSpace c = false := by
      have hblank := hahead c rfl
      rwa [blankByte, show ifs.contains c = true from hc, Bool.true_and] at hblank
    have hstyle : shStyleSplit ifs = false := by
      by_contra hstyle
      rw [Bool.not_eq_false] at hstyle
      have heq : ifs = [0x20, 0x09, 0x0a] := eq_of_beq hstyle
      have hblank : spctabnl c = true := by
        rw [heq] at hc
        simpa [ifsByte, spctabnl, or_assoc] using hc
      rw [hloc.isSpace_blank c hblank] at hspace
      cases hspace
    rw [if_neg (not_not.mpr hne), List.head?_cons, Option.any_some, hspace, hstyle, hne]
    rfl
  · have hword : removeQuotedNulls loc piece = piece := if_neg hpiece
    rw [if_pos hne]
    dsimp only
    rw [hword]
    rfl

theorem listStringLoop_single (quoted : ℕ) (n : ℕ) : ∀ {s : Bytes}, Unmarked s →
    NotAhead (blankByte loc ifs) s →
      (listStringLoop loc ifs ifs quoted ⟨ifs.contains ctlesc, ifs.contains ctlnul⟩ n s).map
        SplitWord.field = fields (blankByte loc ifs) (ifsByte ifs) n s := by
  induction n with
  | zero => intro s _ _; rfl
  | succ n ih =>
      intro s hplain hahead
      by_cases hs : s = []
      · rw [hs]
        rfl
      · have hloop : listStringLoop loc ifs ifs quoted ⟨ifs.contains ctlesc, ifs.contains ctlnul⟩
            (n + 1) s = pieceWords loc ifs quoted (s.takeWhile fun c => !ifsByte ifs c)
              (s.dropWhile fun c => !ifsByte ifs c) ++
            listStringLoop loc ifs ifs quoted ⟨ifs.contains ctlesc, ifs.contains ctlnul⟩ n
              (skipDelimiter loc ifs ifs (s.dropWhile fun c => !ifsByte ifs c)) := by
          obtain ⟨c, t, rfl⟩ := List.exists_cons_of_ne_nil hs
          rw [listStringLoop, stringExtractVerbatim_single hsingle hplain.1]
          exact List.cons_ne_nil c t
        have hsplit := List.takeWhile_append_dropWhile (p := fun c => !ifsByte ifs c) (l := s)
        have hstop : ∀ c ∈ (s.dropWhile fun c => !ifsByte ifs c).head?, ifsByte ifs c = true :=
          fun c hc => by simpa using notAhead_dropWhile (fun c => !ifsByte ifs c) s c hc
        rw [hloop, List.map_append, skipDelimiter_single hloc hsingle hstop, fields_cons n hs]
        generalize s.takeWhile (fun c => !ifsByte ifs c) = piece at *
        generalize s.dropWhile (fun c => !ifsByte ifs c) = rest at *
        obtain ⟨d, heq, hnext, -⟩ := dropDelimiter_spec (blankByte loc ifs) blank_le_ifs hstop
        have hmem {c : UInt8} (hc : c ∈ dropDelimiter (blankByte loc ifs) (ifsByte ifs) rest) :
            c ∈ s := by
          rw [← hsplit, heq]
          exact List.mem_append_right _ (List.mem_append_right _ hc)
        rw [ih ⟨fun h => hplain.1 (hmem h), fun h => hplain.2 (hmem h)⟩ hnext,
          pieceWords_field hloc quoted (fun h => hplain.2 (hsplit ▸ List.mem_append_left _ h)) hahead
            (fun hnil => ⟨hs, by rw [← hsplit, hnil, List.nil_append]⟩) hstop]
        rfl

theorem listString_single {s : Bytes} (hplain : Unmarked s) :
    (listString loc ifs ifs 0 s).map SplitWord.field =
      fields (blankByte loc ifs) (ifsByte ifs) (s.dropWhile (blankByte loc ifs)).length
        (s.dropWhile (blankByte loc ifs)) := by
  have hstart : (if (0 : ℕ) = 0 ∧ ifs ≠ [] then
      s.dropWhile fun c => issep ifs ifs c && loc.isSpace c else s) =
        s.dropWhile (blankByte loc ifs) := by
    have hblank : (fun c => issep ifs ifs c && loc.isSpace c) = blankByte loc ifs := by
      funext c
      rw [issep_self]
      rfl
    rw [hblank]
    split_ifs with hifs
    · rfl
    · obtain rfl : ifs = [] := by simpa using hifs
      exact (NotAhead.dropWhile_eq fun _ _ => rfl).symm
  have hrest : Unmarked (s.dropWhile (blankByte loc ifs)) :=
    ⟨fun h => hplain.1 ((List.dropWhile_sublist _).mem h),
      fun h => hplain.2 ((List.dropWhile_sublist _).mem h)⟩
  unfold listString
  dsimp only
  rw [hstart]
  exact listStringLoop_single hloc hsingle 0 _ hrest (notAhead_dropWhile _ _)

end

/-- `get_word_from_string` reads the fields that `list_string` finds, unless behind one of them
other white space than spaces, tabs and newlines comes between the first white space and the
separator that belongs to it. -/
theorem splitters_agree_iff (hloc : loc.Lawful) (hsingle : SingleByte loc) (ifs : Bytes) {s : Bytes}
    (hplain : Unmarked s) : ∃ words, Reads loc ifs s words ∧
      (∀ words', Reads loc ifs s words' → words' = words) ∧
      (words = (listString loc ifs ifs 0 s).map SplitWord.field ↔
        PlainBehind (blankByte loc ifs) (ifsByte ifs) spctabnl s) := by
  have hreads := @reads_single _ ifs hloc hsingle _ _ hplain.1 le_rfl
  refine ⟨_, hreads, fun words' h => hreads.unique h, ?_⟩
  rw [listString_single hloc hsingle hplain]
  have hspec := (fieldsOneByOne_spec blank_le_ifs (blank_of_spctabnl hloc)
    (s.dropWhile (blankByte loc ifs)) _ _ le_rfl le_rfl (notAhead_dropWhile _ s)).2
  rw [hspec]
  have hsplit := List.takeWhile_append_dropWhile (p := blankByte loc ifs) (l := s)
  conv_rhs => rw [← hsplit]
  exact (plainBehind_append_ifs (fun c hc => blank_le_ifs c (List.mem_takeWhile_imp hc)) _).symm

/-- `a b::c` with a space and a colon in `IFS`. -/
theorem splitters_agree_colon : ∃ words,
    Reads cLocale [0x20, 0x3a] [0x61, 0x20, 0x62, 0x3a, 0x3a, 0x63] words ∧
      (∀ words', Reads cLocale [0x20, 0x3a] [0x61, 0x20, 0x62, 0x3a, 0x3a, 0x63] words' →
        words' = words) ∧
      (words = (listString cLocale [0x20, 0x3a] [0x20, 0x3a] 0
          [0x61, 0x20, 0x62, 0x3a, 0x3a, 0x63]).map SplitWord.field ↔
        PlainBehind (blankByte cLocale [0x20, 0x3a]) (ifsByte [0x20, 0x3a]) spctabnl
          [0x61, 0x20, 0x62, 0x3a, 0x3a, 0x63]) :=
  splitters_agree_iff cLocale_lawful (fun _ _ => rfl) [0x20, 0x3a] ⟨by decide, by decide⟩

/-- A space, a carriage return and a colon between two letters delimit one field for `list_string`
and two for `get_word_from_string`. -/
theorem splitters_differ : Unmarked [0x61, 0x20, 0x0d, 0x3a, 0x62] ∧ SingleByte cLocale ∧
    ¬ Reads cLocale [0x20, 0x0d, 0x3a] [0x61, 0x20, 0x0d, 0x3a, 0x62]
      ((listString cLocale [0x20, 0x0d, 0x3a] [0x20, 0x0d, 0x3a] 0
        [0x61, 0x20, 0x0d, 0x3a, 0x62]).map SplitWord.field) := by
  have hread : Reads cLocale [0x20, 0x0d, 0x3a] [0x61, 0x20, 0x0d, 0x3a, 0x62]
      [[0x61], [], [0x62]] := .word rfl (.word rfl (.word rfl (.stop rfl)))
  have hsplit : (listString cLocale [0x20, 0x0d, 0x3a] [0x20, 0x0d, 0x3a] 0
      [0x61, 0x20, 0x0d, 0x3a, 0x62]).map SplitWord.field = [[0x61], [0x62]] := rfl
  refine ⟨⟨by decide, by decide⟩, fun _ _ => rfl, fun h => ?_⟩
  rw [hsplit] at h
  exact absurd (hread.unique h) (by decide)

end Quoting

end Rash
