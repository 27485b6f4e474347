import Rash.Words.Locales

/-!
# Word splitting is field splitting

`list_string` on a string with quoted escapes, for an `IFS` of single-byte characters.
-/

namespace Rash

namespace Quoting

open FieldSplitting

variable {loc : Locale} {ifs : Bytes}

/-- An item without a mark that is a single byte with the property `p`. -/
def itemByte (p : UInt8 → Bool) : Item → Bool
  | (false, [b]) => p b
  | _ => false

def ifsByte (ifs : Bytes) (c : UInt8) : Bool := ifs.contains c

def blankByte (loc : Locale) (ifs : Bytes) (c : UInt8) : Bool := ifs.contains c && loc.isSpace c

theorem blank_le (i : Item) (h : itemByte (blankByte loc ifs) i = true) :
    itemByte (ifsByte ifs) i = true := by
  match i, h with
  | (false, [b]), h => exact (Bool.and_eq_true_iff.mp h).1

/-! ## The separators as the code tests them -/

theorem issep_self (c : UInt8) : issep ifs ifs c = ifs.contains c := by
  match ifs with
  | [] => rfl
  | [d] =>
      change (c == d) = [d].contains c
      rw [List.contains_cons, List.contains_nil, Bool.or_false]
  | d :: e :: t => rfl

theorem ifsWhitesep_of_mem (hloc : loc.Lawful) {c : UInt8} (hc : c ∈ ifs) :
    ifsWhitesep loc ifs c = loc.isSpace c := by
  unfold ifsWhitesep
  split
  · next hstyle =>
      have heq : ifs = [0x20, 0x09, 0x0a] := eq_of_beq hstyle
      rw [heq] at hc
      have hblank : spctabnl c = true := by
        simp only [List.mem_cons, List.not_mem_nil, or_false] at hc
        rcases hc with rfl | rfl | rfl <;> rfl
      rw [hblank, hloc.isSpace_blank c hblank]
  · rfl

theorem whitesep_and_issep (hloc : loc.Lawful) :
    (fun c => ifsWhitesep loc ifs c && issep ifs ifs c) = blankByte loc ifs := by
  funext c
  rw [issep_self]
  unfold blankByte
  by_cases hc : c ∈ ifs
  · rw [ifsWhitesep_of_mem hloc hc, Bool.and_comm]
  · have hfalse : ifs.contains c = false := by simpa using hc
    rw [hfalse, Bool.and_false, Bool.false_and]

theorem stopsAt_cons (hloc : loc.Lawful) (hsingle : SingleBytes loc ifs) (c : UInt8) (s : Bytes) :
    stopsAt loc ifs (c :: s) = ifs.contains c := by
  unfold stopsAt
  by_cases hc : c ∈ ifs
  · simp only [hsingle c hc s, Nat.lt_irrefl, if_false]
  · have hfalse : ifs.contains c = false := by simpa using hc
    rw [hfalse]
    cases hlen : loc.mbrlen (c :: s) with
    | none => exact hfalse
    | some n =>
        by_cases hn : 1 < n
        · simp only [if_pos hn]
          apply hloc.wcschr_short hsingle
          rw [List.length_take_of_le (hloc.mbrlen_le (List.cons_ne_nil c s) hlen)]
          exact hn
        · simp only [if_neg hn]
          exact hfalse

/-- A character of `IFS` is a single byte. -/
theorem char_of_mem (hsingle : SingleBytes loc ifs) {c : UInt8} {u t : Bytes} (hc : c ∈ ifs)
    (hlen : loc.charLen (c :: u ++ t) = (c :: u).length) : u = [] := by
  have hone : loc.charLen (c :: u ++ t) = 1 := by
    unfold Locale.charLen
    rw [List.cons_append, hsingle c hc (u ++ t)]
    rfl
  rw [hone, List.length_cons] at hlen
  exact List.length_eq_zero_iff.mp (by omega)

/-! ## One piece and one delimiter -/

section

variable (hloc : loc.Lawful) (hsingle : SingleBytes loc ifs) (hctlesc : ctlesc ∉ ifs)

include hsingle

/-- An item begins with a byte that has a property of some bytes of `IFS` exactly when it is
such a byte. -/
theorem itemByte_unmarked {p : UInt8 → Bool} (hp : ∀ b, p b = true → b ∈ ifs) {c : UInt8}
    {u t : Bytes} (hlen : loc.charLen (c :: u ++ t) = (c :: u).length) :
    itemByte p (false, c :: u) = p c := by
  cases hpc : p c with
  | true =>
      rw [char_of_mem hsingle (hp c hpc) hlen]
      exact hpc
  | false =>
      cases u with
      | nil => exact hpc
      | cons d u => rfl

include hctlesc

theorem dropWhile_encode {p : UInt8 → Bool} (hp : ∀ b, p b = true → b ∈ ifs) {its : List Item}
    (h : Encoded loc its) : (encode its).dropWhile p = encode (its.dropWhile (itemByte p)) := by
  induction h with
  | nil => rfl
  | @cons marked c u its hlen _ _ ih =>
      cases marked with
      | true =>
          have hfalse : p ctlesc = false := by
            by_contra hbad
            exact hctlesc (hp ctlesc (Bool.not_eq_false _ ▸ hbad))
          rw [encode_marked, List.dropWhile_cons_of_neg (by rw [hfalse]; exact Bool.false_ne_true),
            List.dropWhile_cons_of_neg (by exact Bool.false_ne_true), encode_marked]
      | false =>
          have hitem := itemByte_unmarked hsingle hp hlen
          cases hpc : p c with
          | true =>
              rw [hpc] at hitem
              rw [List.dropWhile_cons_of_pos hitem, ← ih, char_of_mem hsingle (hp c hpc) hlen,
                encode_unmarked, List.cons_append, List.nil_append,
                List.dropWhile_cons_of_pos hpc]
          | false =>
              rw [hpc] at hitem
              rw [List.dropWhile_cons_of_neg (by rw [hitem]; exact Bool.false_ne_true),
                encode_unmarked, List.cons_append,
                List.dropWhile_cons_of_neg (by rw [hpc]; exact Bool.false_ne_true)]

include hloc

omit hctlesc in
theorem extractLoop_encode {its : List Item} (h : Encoded loc its) :
    ∀ n, (encode its).length ≤ n →
      extractLoop loc ifs ⟨false, false⟩ n (encode its) =
        (encode (its.takeWhile fun i => !itemByte (ifsByte ifs) i),
          encode (its.dropWhile fun i => !itemByte (ifsByte ifs) i)) := by
  induction h with
  | nil => intro n _; cases n <;> rfl
  | @cons marked c u its hlen hplain _ ih =>
      intro n hn
      obtain ⟨n, rfl, hle⟩ := length_lt_encode hn
      have htake := take_char hlen
      have hdrop := drop_char hlen
      have hrest := ih n hle
      cases marked with
      | true =>
          rw [List.takeWhile_cons_of_pos (by rfl), List.dropWhile_cons_of_pos (by rfl),
            encode_marked, encode_marked]
          unfold extractLoop
          rw [if_pos ⟨rfl, rfl⟩, if_neg (by simp), htake, hdrop, hrest]
          rfl
      | false =>
          have hitem := itemByte_unmarked hsingle (p := ifsByte ifs) (by simp [ifsByte]) hlen
          have hstop := stopsAt_cons hloc hsingle c (u ++ encode its)
          have hne : ¬ (c = ctlesc) := (hplain rfl).1
          cases hc : ifsByte ifs c with
          | true =>
              rw [hc] at hitem
              rw [List.takeWhile_cons_of_neg (by rw [hitem]; exact Bool.false_ne_true),
                List.dropWhile_cons_of_neg (by rw [hitem]; exact Bool.false_ne_true),
                encode_unmarked, List.cons_append]
              unfold extractLoop
              unfold ifsByte at hc
              rw [if_neg (fun hbad => hne hbad.2), if_neg (fun hbad => hne hbad.2.1), hstop, hc,
                if_pos rfl]
              rfl
          | false =>
              rw [hc] at hitem
              rw [List.takeWhile_cons_of_pos (by rw [hitem]; rfl),
                List.dropWhile_cons_of_pos (by rw [hitem]; rfl), encode_unmarked, encode_unmarked]
              rw [List.cons_append] at htake hdrop ⊢
              unfold extractLoop
              rw [if_neg (fun hbad => hne hbad.2), if_neg (fun hbad => hne hbad.2.1), hstop]
              unfold ifsByte at hc
              rw [hc, if_neg Bool.false_ne_true]
              simp only [htake, hdrop, hrest]

omit hctlesc in
theorem stringExtractVerbatim_encode {its : List Item} (h : Encoded loc its) :
    stringExtractVerbatim loc (encode its) ifs ⟨false, false⟩ =
      (encode (its.takeWhile fun i => !itemByte (ifsByte ifs) i),
        encode (its.dropWhile fun i => !itemByte (ifsByte ifs) i)) := by
  unfold stringExtractVerbatim
  rw [if_neg (fun hbad => Bool.false_ne_true hbad.1)]
  split
  · next hnil =>
      have hall : (fun i => !itemByte (ifsByte ifs) i) = fun _ => true := by
        funext i
        match i with
        | (true, _) => rfl
        | (false, []) => rfl
        | (false, [b]) => simp [itemByte, ifsByte, hnil]
        | (false, _ :: _ :: _) => rfl
      have htake : its.takeWhile (fun _ => true) = its := by
        induction its with
        | nil => rfl
        | cons i its _ => simp
      have hdrop : its.dropWhile (fun _ => true) = [] := by simp
      rw [hall, htake, hdrop]
      rfl
  · exact extractLoop_encode hloc hsingle h _ le_rfl

/-- Behind a piece the code skips one delimiter. -/
theorem skipDelimiter_encode {its : List Item} (h : Encoded loc its)
    (hsep : ∀ i ∈ its.head?, itemByte (ifsByte ifs) i = true) :
    skipDelimiter loc ifs ifs (encode its) =
      encode (dropDelimiter (itemByte (blankByte loc ifs)) (itemByte (ifsByte ifs)) its) := by
  have hblank : ∀ b, blankByte loc ifs b = true → b ∈ ifs := fun b hb => by
    simpa using (Bool.and_eq_true_iff.mp hb).1
  have hisifs : (fun c => ifsWhitesep loc ifs c && isifs ifs c) = blankByte loc ifs := by
    rw [← whitesep_and_issep hloc]
    funext c
    rw [issep_self]
    rfl
  unfold skipDelimiter
  simp only [whitesep_and_issep hloc, hisifs]
  cases h with
  | nil => simp [dropDelimiter]
  | @cons marked c u its hlen _ hits =>
      have hhead := hsep _ rfl
      obtain rfl : marked = false := by
        cases marked with
        | true => cases hhead
        | false => rfl
      have hmem : c ∈ ifs := by
        rw [itemByte_unmarked hsingle (p := ifsByte ifs) (by simp [ifsByte]) hlen] at hhead
        simpa [ifsByte] using hhead
      obtain rfl := char_of_mem hsingle hmem hlen
      have hdrop := drop_char hlen
      have hitem := itemByte_unmarked hsingle hblank hlen
      rw [encode_unmarked, hdrop, dropWhile_encode hsingle hctlesc hblank hits]
      have hwhite : ([c] ++ encode its).head?.any (ifsWhitesep loc ifs) = loc.isSpace c := by
        rw [← ifsWhitesep_of_mem hloc hmem]
        rfl
      have hcontains : ifs.contains c = true := by simpa using hmem
      have hisblank : blankByte loc ifs c = loc.isSpace c := by
        unfold blankByte
        rw [hcontains, Bool.true_and]
      rw [hwhite]
      unfold dropDelimiter
      cases hspace : loc.isSpace c with
      | false =>
          -- a separator that is no white space ends the delimiter with the white space behind it
          rw [hisblank, hspace] at hitem
          rw [List.dropWhile_cons_of_neg (by rw [hitem]; exact Bool.false_ne_true)]
          simp only [hhead, if_true, Bool.false_and, Bool.false_eq_true, if_false]
          split
          · next heq => rw [heq]
          · next heq => rw [heq]
      | true =>
          rw [hisblank, hspace] at hitem
          rw [List.dropWhile_cons_of_pos hitem]
          have hahead := notAhead_dropWhile (itemByte (blankByte loc ifs)) its
          have hleft : Encoded loc (its.dropWhile (itemByte (blankByte loc ifs))) := by
            have hsplit := List.takeWhile_append_dropWhile
              (p := itemByte (blankByte loc ifs)) (l := its)
            rw [← hsplit] at hits
            exact hits.right
          revert hahead hleft
          generalize its.dropWhile (itemByte (blankByte loc ifs)) = behind
          intro hahead hleft
          cases hleft with
          | nil => rfl
          | @cons marked d w rest hlen' _ hrest =>
              have hnot := hahead _ rfl
              cases marked with
              | true =>
                  have hesc : issep ifs ifs ctlesc = false := by
                    rw [issep_self]
                    simpa using hctlesc
                  rw [encode_marked]
                  simp only [hesc, Bool.and_false, Bool.false_and, Bool.false_eq_true, if_false]
                  rfl
              | false =>
                  have hsepd := itemByte_unmarked hsingle (p := ifsByte ifs) (by simp [ifsByte]) hlen'
                  rw [itemByte_unmarked hsingle hblank hlen'] at hnot
                  rw [encode_unmarked, List.cons_append]
                  simp only [Bool.true_and, issep_self, hsepd]
                  cases hd : ifs.contains d with
                  | false =>
                      have hdmem : d ∉ ifs := by simpa using hd
                      simp [ifsByte, hdmem]
                  | true =>
                      have hdmem : d ∈ ifs := by simpa using hd
                      have hwd : ifsWhitesep loc ifs d = false := by
                        rw [ifsWhitesep_of_mem hloc hdmem]
                        unfold blankByte at hnot
                        rwa [hd, Bool.true_and] at hnot
                      obtain rfl := char_of_mem hsingle hdmem hlen'
                      simp only [ifsByte, hd, hwd, Bool.not_false, Bool.and_self, if_true,
                        List.nil_append]
                      exact dropWhile_encode hsingle hctlesc hblank hrest

end

/-! ## The whole string -/

/-- The word that a field becomes. -/
def fieldWord (f : List Item) : SplitWord :=
  if f = [] then nullWord else ⟨encode f, false, false, false⟩

theorem encode_ne_nil {f : List Item} (h : Encoded loc f) (hf : f ≠ []) : encode f ≠ [] := by
  cases h with
  | nil => exact absurd rfl hf
  | @cons marked c u its _ _ _ => cases marked <;> simp

theorem length_le_encode {its : List Item} (h : Encoded loc its) :
    its.length ≤ (encode its).length := by
  induction h with
  | nil => exact le_rfl
  | @cons marked c u its _ _ _ ih =>
      obtain ⟨k, hk, hle⟩ := length_lt_encode (le_refl (encode ((marked, c :: u) :: its)).length)
      rw [hk, List.length_cons]
      omega

theorem dequoteString_fieldWord {f : List Item} (h : Encoded loc f) :
    dequoteString loc (fieldWord f).word = text f := by
  unfold fieldWord
  split
  · next hf =>
      rw [hf]
      rfl
  · exact dequoteString_encode h

theorem pieceWords_encode {quoted : ℕ} (hquoted : doubleQuoted quoted = false) {f rest : List Item}
    (h : Encoded loc f)
    (hempty : f = [] → (!shStyleSplit ifs && !(encode rest).head?.any loc.isSpace) = true) :
    pieceWords loc ifs quoted (encode f) (encode rest) = [fieldWord f] := by
  unfold pieceWords fieldWord
  rw [h.not_quotedNull, if_neg Bool.false_ne_true]
  by_cases hf : f = []
  · subst hf
    rw [if_neg (by simp), if_pos (hempty rfl), if_pos rfl]
  · have hne := encode_ne_nil h hf
    have hisEmpty : (encode f).isEmpty = false := by simpa using hne
    rw [if_pos hne, if_neg hf]
    simp only [removeQuotedNulls_encode h, hquoted, hisEmpty]

section

variable (hloc : loc.Lawful) (hsingle : SingleBytes loc ifs) (hctlesc : ctlesc ∉ ifs)

include hloc hsingle hctlesc

omit hsingle hctlesc in
/-- An empty field stands in front of a separator that is no white space. -/
theorem empty_piece {its : List Item}
    (hahead : NotAhead (itemByte (blankByte loc ifs)) its)
    (hsep : ∃ i ∈ its.head?, itemByte (ifsByte ifs) i = true) :
    (!shStyleSplit ifs && !(encode its).head?.any loc.isSpace) = true := by
  obtain ⟨i, hi, hsep⟩ := hsep
  have hnot := hahead i hi
  match its, i, hi, hsep, hnot with
  | (false, [b]) :: its, _, rfl, hsep, hnot =>
      have hcontains : ifs.contains b = true := hsep
      have hb : b ∈ ifs := by simpa using hcontains
      have hspace : loc.isSpace b = false := by
        have hblank : (ifs.contains b && loc.isSpace b) = false := hnot
        rwa [hcontains, Bool.true_and] at hblank
      have hstyle : shStyleSplit ifs = false := by
        by_contra hbad
        rw [Bool.not_eq_false] at hbad
        have heq : ifs = [0x20, 0x09, 0x0a] := eq_of_beq hbad
        have hwhite := ifsWhitesep_of_mem hloc hb
        unfold ifsWhitesep at hwhite
        rw [hbad, if_pos rfl, hspace] at hwhite
        rw [heq] at hb
        simp only [List.mem_cons, List.not_mem_nil, or_false] at hb
        rcases hb with rfl | rfl | rfl <;> cases hwhite
      rw [hstyle, encode_unmarked]
      simp [hspace]

theorem listStringLoop_encode {quoted : ℕ} (hquoted : doubleQuoted quoted = false) (n : ℕ) :
    ∀ its : List Item, Encoded loc its → (encode its).length ≤ n →
      NotAhead (itemByte (blankByte loc ifs)) its →
      listStringLoop loc ifs ifs quoted ⟨false, false⟩ n (encode its) =
        (fields (itemByte (blankByte loc ifs)) (itemByte (ifsByte ifs)) n its).map fieldWord := by
  induction n with
  | zero => intro its _ _ _; rfl
  | succ n ih =>
      intro its h hn hahead
      cases its with
      | nil => rfl
      | cons i its =>
          have hfields : fields (itemByte (blankByte loc ifs)) (itemByte (ifsByte ifs)) (n + 1)
              (i :: its) = (i :: its).takeWhile (fun i => !itemByte (ifsByte ifs) i) ::
                fields (itemByte (blankByte loc ifs)) (itemByte (ifsByte ifs)) n
                  (dropDelimiter (itemByte (blankByte loc ifs)) (itemByte (ifsByte ifs))
                    ((i :: its).dropWhile fun i => !itemByte (ifsByte ifs) i)) := rfl
          have hextract := stringExtractVerbatim_encode hloc hsingle h
          have hsplit := List.takeWhile_append_dropWhile
            (p := fun i => !itemByte (ifsByte ifs) i) (l := i :: its)
          have hnotAhead := notAhead_dropWhile (fun i => !itemByte (ifsByte ifs) i) (i :: its)
          rw [hfields]
          revert hextract hsplit hnotAhead
          generalize (i :: its).takeWhile (fun i => !itemByte (ifsByte ifs) i) = piece
          generalize (i :: its).dropWhile (fun i => !itemByte (ifsByte ifs) i) = rest
          intro hextract hsplit hnotAhead
          have hsep : ∀ x ∈ rest.head?, itemByte (ifsByte ifs) x = true := by
            intro x hx
            simpa using hnotAhead x hx
          have hboth := h
          rw [← hsplit] at hboth
          have hpiece := hboth.left hloc
          have hskip := skipDelimiter_encode hloc hsingle hctlesc hboth.right hsep
          obtain ⟨d, hd, hahead', hor⟩ :=
            dropDelimiter_spec (itemByte (blankByte loc ifs)) blank_le hsep
          have hrest := hboth.right
          rw [hd] at hrest
          have hlen : (encode (dropDelimiter (itemByte (blankByte loc ifs))
              (itemByte (ifsByte ifs)) rest)).length ≤ n := by
            have htotal := congrArg (fun l => (encode l).length) hsplit
            have hdlen := congrArg (fun l => (encode l).length) hd
            simp only [encode_append, List.length_append] at htotal hdlen
            rcases hor with hnil | hdne
            · have hpos := List.length_pos_iff.mpr (encode_ne_nil h (List.cons_ne_nil i its))
              rw [hnil] at htotal hdlen ⊢
              simp only [dropDelimiter, List.dropWhile_nil, encode_nil, List.length_nil]
              omega
            · have hpos := List.length_pos_iff.mpr (encode_ne_nil (hrest.left hloc) hdne)
              omega
          have hwords : pieceWords loc ifs quoted (encode piece) (encode rest) =
              [fieldWord piece] := pieceWords_encode hquoted hpiece
            (by
              rintro rfl
              rw [List.nil_append] at hsplit
              subst hsplit
              exact empty_piece hloc hahead ⟨i, rfl, hsep i rfl⟩)
          obtain ⟨c, s, hs⟩ :=
            List.exists_cons_of_ne_nil (encode_ne_nil h (List.cons_ne_nil i its))
          rw [hs] at hextract ⊢
          unfold listStringLoop
          rw [hextract]
          simp only [hwords, hskip, ih _ hrest.right hlen hahead']
          rfl

theorem listString_encode {its : List Item} (h : Encoded loc its) (hctlnul : ctlnul ∉ ifs) :
    listString loc ifs ifs 0 (encode its) =
      (split (itemByte (blankByte loc ifs)) (itemByte (ifsByte ifs)) its).map fieldWord := by
  have hblank : ∀ b, blankByte loc ifs b = true → b ∈ ifs := fun b hb => by
    simpa using (Bool.and_eq_true_iff.mp hb).1
  have hflags : (⟨ifs.contains ctlesc, ifs.contains ctlnul⟩ : ExtractFlags) = ⟨false, false⟩ := by
    simp [hctlesc, hctlnul]
  have hskip : (fun c => issep ifs ifs c && loc.isSpace c) = blankByte loc ifs := by
    funext c
    rw [issep_self]
    rfl
  have hstart : (if (0 : ℕ) = 0 ∧ ifs ≠ [] then
      (encode its).dropWhile (fun c => issep ifs ifs c && loc.isSpace c) else encode its) =
      encode (its.dropWhile (itemByte (blankByte loc ifs))) := by
    rw [hskip, ← dropWhile_encode hsingle hctlesc hblank h]
    split
    · rfl
    · next hnil =>
        have hifs : ifs = [] := by
          by_contra hbad
          exact hnil ⟨rfl, hbad⟩
        cases encode its with
        | nil => rfl
        | cons c s => rw [List.dropWhile_cons_of_neg (by simp [blankByte, hifs])]
  have hahead := notAhead_dropWhile (itemByte (blankByte loc ifs)) its
  have hrest : Encoded loc (its.dropWhile (itemByte (blankByte loc ifs))) := by
    have hsplit :=
      List.takeWhile_append_dropWhile (p := itemByte (blankByte loc ifs)) (l := its)
    rw [← hsplit] at h
    exact h.right
  unfold listString
  rw [hflags, hstart, listStringLoop_encode hloc hsingle hctlesc rfl _ _ hrest le_rfl hahead]
  have hfields : Fields (itemByte (blankByte loc ifs)) (itemByte (ifsByte ifs))
      (its.dropWhile (itemByte (blankByte loc ifs))) _ := fields_spec blank_le _ _ le_rfl hahead
  unfold split
  rw [hfields.eq_fields blank_le _ (length_le_encode hrest) hahead,
    hfields.eq_fields blank_le _ (List.dropWhile_sublist _).length_le hahead]

end

/-! ## The characters of `IFS` -/

/-- A character of `IFS`, as the locale cuts it. -/
def ifsChar (loc : Locale) (ifs u : Bytes) : Bool := (loc.chars ifs).contains u

/-- A character of `IFS` that is white space. -/
def ifsBlank (loc : Locale) (ifs : Bytes) : Bytes → Bool
  | [b] => ifsChar loc ifs [b] && loc.isSpace b
  | _ => false

theorem ifsChar_single (hsingle : SingleBytes loc ifs) (b : UInt8) :
    ifsChar loc ifs [b] = ifs.contains b := by
  unfold ifsChar
  rw [chars_singleBytes hsingle, Bool.eq_iff_iff]
  simp

theorem ifsChar_long (hsingle : SingleBytes loc ifs) {u : Bytes} (hu : u.length ≠ 1) :
    ifsChar loc ifs u = false := by
  unfold ifsChar
  rw [chars_singleBytes hsingle]
  by_contra hbad
  rw [Bool.not_eq_false, List.contains_iff_mem] at hbad
  obtain ⟨b, -, rfl⟩ := List.mem_map.mp hbad
  exact hu rfl

/-- The marks of quoted escapes never stand in front of a character of `IFS`. -/
theorem itemByte_protects (hctlesc : ctlesc ∉ ifs) (hctlnul : ctlnul ∉ ifs) {p : UInt8 → Bool}
    (hp : ∀ b, p b = true → b ∈ ifs) (b : UInt8) :
    itemByte p (protects ifs [b], [b]) = p b := by
  cases hmark : protects ifs [b] with
  | false => rfl
  | true =>
      change false = p b
      by_contra hbad
      have hmem : b ∈ ifs := by
        apply hp b
        cases hpb : p b with
        | true => rfl
        | false => exact absurd hpb.symm hbad
      unfold protects at hmark
      simp only [List.head?_cons, Option.any_some, Bool.or_eq_true, beq_iff_eq,
        Bool.and_eq_true, List.isEmpty_iff] at hmark
      rcases hmark with (rfl | rfl) | ⟨rfl, -⟩
      · exact hctlesc hmem
      · exact hctlnul hmem
      · cases hmem

section

variable (hsingle : SingleBytes loc ifs) (hctlesc : ctlesc ∉ ifs) (hctlnul : ctlnul ∉ ifs)

include hsingle hctlesc hctlnul

theorem itemByte_ifs : itemByte (ifsByte ifs) ∘ (fun u => (protects ifs u, u)) =
    ifsChar loc ifs := by
  funext u
  match u with
  | [] =>
      rw [ifsChar_long hsingle (by simp)]
      rfl
  | [b] =>
      rw [ifsChar_single hsingle]
      exact itemByte_protects hctlesc hctlnul (p := ifsByte ifs) (by simp [ifsByte]) b
  | b :: c :: u =>
      rw [ifsChar_long hsingle (by simp)]
      cases hmark : protects ifs (b :: c :: u) <;> simp [itemByte, hmark]

theorem itemByte_blank : itemByte (blankByte loc ifs) ∘ (fun u => (protects ifs u, u)) =
    ifsBlank loc ifs := by
  have hblank : ∀ b, blankByte loc ifs b = true → b ∈ ifs := fun b hb => by
    simpa using (Bool.and_eq_true_iff.mp hb).1
  funext u
  match u with
  | [] => cases hmark : protects ifs [] <;> simp [itemByte, hmark, ifsBlank]
  | [b] =>
      change itemByte (blankByte loc ifs) (protects ifs [b], [b]) =
        (ifsChar loc ifs [b] && loc.isSpace b)
      rw [ifsChar_single hsingle]
      exact itemByte_protects hctlesc hctlnul hblank b
  | b :: c :: u => cases hmark : protects ifs (b :: c :: u) <;> simp [itemByte, hmark, ifsBlank]

end

theorem ifsBlank_le (u : Bytes) (h : ifsBlank loc ifs u = true) : ifsChar loc ifs u = true := by
  match u, h with
  | [b], h => exact (Bool.and_eq_true_iff.mp h).1

/-! ## Round trips -/

theorem itemsOf_marked (ifs : Bytes) (us : List Bytes) :
    ∀ i ∈ itemsOf (protects ifs) us, i.1 = true → protects ifs i.2 = true := by
  intro i hi hmark
  obtain ⟨u, -, rfl⟩ := List.mem_map.mp hi
  exact hmark

theorem protects_plain (c : UInt8) (u : Bytes) (h : protects ifs (c :: u) = false) :
    c ≠ ctlesc ∧ c ≠ ctlnul := by
  unfold protects at h
  simp only [List.head?_cons, Option.any_some, Bool.or_eq_false_iff, beq_eq_false_iff_ne] at h
  exact h.1

theorem quoteString_eq (hloc : loc.Lawful) {v : Bytes} (hv : v ≠ []) :
    quoteString loc v = encode (itemsOf (fun _ => true) (loc.chars v)) := by
  unfold quoteString
  rw [if_neg hv]
  have h := quoteStringLoop_eq (isCut_chars hloc v) v.length (by rw [flatten_chars hloc])
  rwa [flatten_chars hloc] at h

theorem quoteEscapes_eq (hloc : loc.Lawful) (hctlesc : ctlesc ∉ ifs) (hctlnul : ctlnul ∉ ifs)
    (v : Bytes) : quoteEscapes loc ifs v = encode (itemsOf (protects ifs) (loc.chars v)) := by
  have hskip : ifs.contains ctlesc = false ∧ ifs.contains ctlnul = false := by
    simp [hctlesc, hctlnul]
  unfold quoteEscapes quoteEscapesInternal
  rw [hskip.1, hskip.2]
  have h := quoteEscapesLoop_eq ifs (isCut_chars hloc v) v.length (by rw [flatten_chars hloc])
  rwa [flatten_chars hloc] at h

theorem encoded_quoteString (hloc : loc.Lawful) (v : Bytes) :
    Encoded loc (itemsOf (fun _ => true) (loc.chars v)) :=
  (isCut_chars hloc v).encoded hloc (by simp)

theorem encoded_quoteEscapes (hloc : loc.Lawful) (v : Bytes) :
    Encoded loc (itemsOf (protects ifs) (loc.chars v)) :=
  (isCut_chars hloc v).encoded hloc protects_plain

theorem dequoteString_quoteString (hloc : loc.Lawful) (v : Bytes) :
    dequoteString loc (quoteString loc v) = v := by
  by_cases hv : v = []
  · rw [hv]
    rfl
  · rw [quoteString_eq hloc hv, dequoteString_encode (encoded_quoteString hloc v), text_itemsOf,
      flatten_chars hloc]

theorem dequoteEscapes_quoteEscapes (hloc : loc.Lawful) (hctlesc : ctlesc ∉ ifs)
    (hctlnul : ctlnul ∉ ifs) (v : Bytes) :
    dequoteEscapes loc ifs (quoteEscapes loc ifs v) = v := by
  rw [quoteEscapes_eq hloc hctlesc hctlnul,
    dequoteEscapes_encode (encoded_quoteEscapes hloc v) (itemsOf_marked ifs _), text_itemsOf,
    flatten_chars hloc]

theorem Encoded.quotedNull_or (hloc : loc.Lawful) (v : Bytes) : quoteString loc v = [ctlnul] ∨
    ∃ its, quoteString loc v = encode its ∧ Encoded loc its ∧ its ≠ [] ∧ ∀ i ∈ its, i.1 = true := by
  by_cases hv : v = []
  · exact .inl (by rw [hv]; rfl)
  · refine .inr ⟨_, quoteString_eq hloc hv, encoded_quoteString hloc v, ?_, ?_⟩
    · intro hnil
      have hflat := flatten_chars hloc v
      rw [List.map_eq_nil_iff.mp hnil] at hflat
      exact hv hflat.symm
    · intro i hi
      obtain ⟨u, -, rfl⟩ := List.mem_map.mp hi
      rfl

/-- A quoted string is one word, whatever the separators. -/
theorem listString_quoteString (hloc : loc.Lawful) (hsingle : SingleBytes loc ifs)
    (hctlesc : ctlesc ∉ ifs) (hctlnul : ctlnul ∉ ifs) (quoted : ℕ) (v : Bytes) :
    ∃ w, listString loc ifs ifs quoted (quoteString loc v) = [w] ∧
      dequoteString loc w.word = v := by
  have hflags : (⟨ifs.contains ctlesc, ifs.contains ctlnul⟩ : ExtractFlags) = ⟨false, false⟩ := by
    simp [hctlesc, hctlnul]
  have hstart : ∀ c s, c ∉ ifs → (if quoted = 0 ∧ ifs ≠ [] then
      (c :: s).dropWhile (fun c => issep ifs ifs c && loc.isSpace c) else c :: s) = c :: s := by
    intro c s hc
    split
    · rw [List.dropWhile_cons_of_neg]
      simp [issep_self, hc]
    · rfl
  have hskip : skipDelimiter loc ifs ifs [] = [] := by simp [skipDelimiter]
  rcases Encoded.quotedNull_or hloc v with hnull | ⟨its, heq, hits, hne, hmarked⟩
  · have hv : v = [] := by
      rw [← dequoteString_quoteString hloc v, hnull]
      rfl
    have hextract : stringExtractVerbatim loc [ctlnul] ifs ⟨false, false⟩ = ([ctlnul], []) := by
      unfold stringExtractVerbatim
      rw [if_neg (fun hbad => Bool.false_ne_true hbad.1)]
      split
      · rfl
      · have hstop : stopsAt loc ifs [ctlnul] = false := by
          rw [stopsAt_cons hloc hsingle]
          simpa using hctlnul
        have hone : loc.charLen [ctlnul] = 1 := by
          have hle := hloc.charLen_le (s := [ctlnul]) (by simp)
          have hpos := loc.charLen_pos [ctlnul]
          rw [List.length_singleton] at hle
          omega
        have hne : ¬ ctlnul = ctlesc := by decide
        rw [List.length_singleton]
        unfold extractLoop
        rw [if_neg (fun hbad => hne hbad.2), if_neg (fun hbad => hne hbad.2.1), hstop,
          if_neg Bool.false_ne_true]
        simp only [hone]
        rfl
    refine ⟨nullWord, ?_, by rw [hv]; rfl⟩
    have hlist : listString loc ifs ifs quoted [ctlnul] =
        listStringLoop loc ifs ifs quoted ⟨false, false⟩ 1 [ctlnul] := by
      unfold listString
      rw [hflags, hstart _ _ hctlnul]
      rfl
    rw [hnull, hlist]
    unfold listStringLoop
    rw [hextract]
    simp only [hskip]
    rfl
  · have hnone : ∀ i ∈ its, (!itemByte (ifsByte ifs) i) = true := by
      intro i hi
      have hmark := hmarked i hi
      match i, hmark with
      | (true, _), _ => rfl
    have htake : its.takeWhile (fun i => !itemByte (ifsByte ifs) i) = its :=
      List.takeWhile_eq_self_iff.mpr hnone
    have hdrop : its.dropWhile (fun i => !itemByte (ifsByte ifs) i) = [] :=
      List.dropWhile_eq_nil_iff.mpr hnone
    have hextract := stringExtractVerbatim_encode hloc hsingle hits
    rw [htake, hdrop, encode_nil] at hextract
    obtain ⟨s, hs⟩ : ∃ s, encode its = ctlesc :: s := by
      obtain ⟨i, its, rfl⟩ := List.exists_cons_of_ne_nil hne
      obtain ⟨marked, u⟩ := i
      have hmark : marked = true := hmarked _ List.mem_cons_self
      rw [hmark]
      exact ⟨_, rfl⟩
    refine ⟨⟨encode its, doubleQuoted quoted, false, (encode its).isEmpty⟩, ?_, ?_⟩
    · have hlist : listString loc ifs ifs quoted (ctlesc :: s) =
          listStringLoop loc ifs ifs quoted ⟨false, false⟩ (s.length + 1) (ctlesc :: s) := by
        unfold listString
        rw [hflags, hstart _ _ hctlesc]
        rfl
      rw [hs] at hextract
      rw [heq, hs, hlist]
      unfold listStringLoop
      rw [hextract]
      simp only [hskip]
      have hwords : pieceWords loc ifs quoted (encode its) [] =
          [⟨encode its, doubleQuoted quoted, false, (encode its).isEmpty⟩] := by
        unfold pieceWords
        rw [hits.not_quotedNull, if_neg Bool.false_ne_true, if_pos (encode_ne_nil hits hne)]
        simp only [removeQuotedNulls_encode hits]
      rw [← hs, hwords]
      cases s.length with
      | zero => rfl
      | succ k => rfl
    · have htext := dequoteString_encode hits
      rw [← heq, dequoteString_quoteString hloc] at htext
      rw [dequoteString_encode hits, htext]

theorem fields_encoded (hloc : loc.Lawful) {ws sep : Item → Bool} {t : List Item}
    {fs : List (List Item)} (h : Fields ws sep t fs) (ht : Encoded loc t) :
    ∀ f ∈ fs, Encoded loc f := by
  induction h with
  | nil =>
      intro f hf
      cases hf
  | @last f _ _ =>
      intro x hx
      rw [List.mem_singleton.mp hx]
      exact ht
  | @more f d rest fs _ _ _ ih =>
      intro x hx
      rcases List.mem_cons.mp hx with rfl | hx
      · exact (ht.left hloc).left hloc
      · exact ih ht.right x hx

theorem splits_encoded (hloc : loc.Lawful) {ws sep : Item → Bool} {t : List Item}
    {fs : List (List Item)} (h : Splits ws sep t fs) (ht : Encoded loc t) :
    ∀ f ∈ fs, Encoded loc f := by
  obtain ⟨lead, body, rfl, -, -, hfields⟩ := h
  exact fields_encoded hloc hfields ht.right

/-- Internal quoting loses nothing, and splitting is field splitting. -/
theorem quoting_lossless_splitting_exact {loc : Locale} (hloc : loc.Lawful) {ifs : Bytes}
    (hsingle : SingleBytes loc ifs) (hctlesc : ctlesc ∉ ifs) (hctlnul : ctlnul ∉ ifs) (v : Bytes) :
    dequoteString loc (quoteString loc v) = v ∧
      dequoteEscapes loc ifs (quoteEscapes loc ifs v) = v ∧
      (∀ quoted, ∃ w, listString loc ifs ifs quoted (quoteString loc v) = [w] ∧
        dequoteString loc w.word = v) ∧
      ∃ fs, Splits (ifsBlank loc ifs) (ifsChar loc ifs) (loc.chars v) fs ∧
        (listString loc ifs ifs 0 (quoteEscapes loc ifs v)).map (fun w => dequoteString loc w.word) =
          fs.map List.flatten := by
  refine ⟨dequoteString_quoteString hloc v, dequoteEscapes_quoteEscapes hloc hctlesc hctlnul v,
    fun quoted => listString_quoteString hloc hsingle hctlesc hctlnul quoted v, ?_⟩
  refine ⟨split (ifsBlank loc ifs) (ifsChar loc ifs) (loc.chars v),
    (splits_iff ifsBlank_le).mpr rfl, ?_⟩
  have hencoded : Encoded loc (itemsOf (protects ifs) (loc.chars v)) :=
    encoded_quoteEscapes hloc v
  rw [quoteEscapes_eq hloc hctlesc hctlnul, listString_encode hloc hsingle hctlesc hencoded hctlnul]
  have hfields : split (itemByte (blankByte loc ifs)) (itemByte (ifsByte ifs))
      (itemsOf (protects ifs) (loc.chars v)) =
      (split (ifsBlank loc ifs) (ifsChar loc ifs) (loc.chars v)).map (itemsOf (protects ifs)) := by
    unfold split itemsOf
    rw [List.dropWhile_map, fields_map, List.length_map, itemByte_ifs hsingle hctlesc hctlnul,
      itemByte_blank hsingle hctlesc hctlnul]
  have hsplits : Splits (itemByte (blankByte loc ifs)) (itemByte (ifsByte ifs))
      (itemsOf (protects ifs) (loc.chars v)) _ := (splits_iff blank_le).mpr rfl
  have htext : ∀ f ∈ split (itemByte (blankByte loc ifs)) (itemByte (ifsByte ifs))
      (itemsOf (protects ifs) (loc.chars v)), dequoteString loc (fieldWord f).word = text f :=
    fun f hf => dequoteString_fieldWord (splits_encoded hloc hsplits hencoded f hf)
  rw [List.map_map, List.map_congr_left (g := text) (by exact htext), hfields, List.map_map]
  apply List.map_congr_left
  intro f _
  exact text_itemsOf _ f

theorem quoting_lossless_utf8 :
    (listString utf8Locale [0x3a, 0x20] [0x3a, 0x20] 0
        (quoteEscapes utf8Locale [0x3a, 0x20] [0x01, 0x20, 0x3a, 0xc3, 0xa9, 0x3a, 0x3a, 0x7f])).map
      (fun w => dequoteString utf8Locale w.word) = [[0x01], [0xc3, 0xa9], [], [0x7f]] := by
  have hsingle : SingleBytes utf8Locale [0x3a, 0x20] := by
    intro b hb t
    simp only [List.mem_cons, List.not_mem_nil, or_false] at hb
    rcases hb with rfl | rfl <;> rfl
  obtain ⟨-, -, -, fs, hsplits, heq⟩ := quoting_lossless_splitting_exact utf8Locale_lawful hsingle
    (by decide) (by decide) [0x01, 0x20, 0x3a, 0xc3, 0xa9, 0x3a, 0x3a, 0x7f]
  rw [heq, ← (splits_iff ifsBlank_le).mp hsplits]
  decide +kernel

/-- Behind white space the map of single bytes decides: the first byte of another character is
taken for a separator when a multibyte character of `IFS` begins with it. -/
theorem splitting_multibyte_ifs : ¬ ∀ ifs v : Bytes, ctlesc ∉ ifs → ctlnul ∉ ifs →
    ∃ fs, Splits (ifsBlank utf8Locale ifs) (ifsChar utf8Locale ifs) (utf8Locale.chars v) fs ∧
      (listString utf8Locale ifs ifs 0 (quoteEscapes utf8Locale ifs v)).map
        (fun w => dequoteString utf8Locale w.word) = fs.map List.flatten := by
  intro hall
  obtain ⟨fs, hsplits, heq⟩ :=
    hall [0x20, 0xc3, 0xa9] [0x61, 0x20, 0xc3, 0xaa] (by decide) (by decide)
  rw [← (splits_iff ifsBlank_le).mp hsplits] at heq
  exact absurd heq (by decide +kernel)

end Quoting

end Rash
