import Mathlib.Tactic.Linarith
import Rash.Words.PatSubst

/-!
# Substitution tiles the string

The string is cut into the matches and what is between them; `pat_subst` puts the replacements in
their places as long as an `int` holds what it counts.
-/

namespace Rash

namespace PatSubst

open Quoting

/-! ## Buffers -/

theorem lt_grow {need size : ℕ} {incr : ℕ → ℕ} (hincr : ∀ n, size ≤ n → 0 < incr n) :
    need < grow need incr size := by
  induction size using grow.induct need incr with
  | case1 size h ih =>
      rw [grow, if_pos h]
      exact ih fun n hn => hincr n (by omega)
  | case2 size h =>
      rw [grow, if_neg h]
      have := hincr size le_rfl
      omega

/-- The buffer has a place for the NUL. -/
def Buffer.Open (b : Buffer) : Prop := b.text.length < b.size

namespace Buffer

variable {b : Buffer} {s : Quoting.Bytes} {more : ℕ}

theorem lt_resize (hb : b.Open) (room : ℕ) {incr : ℕ → ℕ} (hincr : ∀ n, 0 < n → 0 < incr n) :
    b.text.length + room < (b.resize room incr).size :=
  lt_grow fun n hn => hincr n (Nat.lt_of_lt_of_le (Nat.zero_lt_of_lt hb) hn)

@[simp] theorem resize_text (b : Buffer) (room : ℕ) (incr : ℕ → ℕ) :
    (b.resize room incr).text = b.text := rfl

theorem store_fits (h : b.text.length + s.length + more ≤ b.size) :
    b.store s more = .ok { b with text := b.text ++ s } := if_pos h

theorem finish_open (hb : b.Open) : b.finish = .ok b.text := if_pos hb

end Buffer

/-! ## The replacement -/

/-- What is put behind the text of a buffer. -/
structure Puts (r : Buffer) (s : Quoting.Bytes) (r' : Buffer) : Prop where
  text : r'.text = r.text ++ s
  isOpen : r'.Open

theorem store_resize {r : Buffer} (hr : r.Open) {s : Quoting.Bytes} {room more : ℕ}
    (hroom : s.length ≤ room) (hmore : more ≤ 1) {incr : ℕ → ℕ} (hincr : ∀ n, 0 < n → 0 < incr n) :
    ∃ r', (r.resize room incr).store s more = .ok r' ∧ Puts r s r' := by
  have hlt := Buffer.lt_resize hr room hincr
  have htext : (r.resize room incr).text = r.text := rfl
  refine ⟨_, Buffer.store_fits (by rw [htext]; omega), rfl, ?_⟩
  rw [Buffer.Open, List.length_append, htext]
  change _ < (r.resize room incr).size
  omega

theorem Puts.trans {r r' r'' : Buffer} {s t : Quoting.Bytes} (h : Puts r s r') (h' : Puts r' t r'') :
    Puts r (s ++ t) r'' :=
  ⟨by rw [h'.text, h.text, List.append_assoc], h'.isOpen⟩

theorem Puts.nil {r : Buffer} (hr : r.Open) : Puts r [] r := ⟨(List.append_nil _).symm, hr⟩

theorem put_char {r : Buffer} (hr : r.Open) (x : UInt8) :
    ∃ r', (r.resize 2 id).store [x] 0 = .ok r' ∧ Puts r [x] r' :=
  store_resize hr (by simp) (by simp) fun _ hn => hn

theorem put_matched {r : Buffer} (hr : r.Open) (matched : Quoting.Bytes) :
    ∃ r', (r.resize matched.length id).store matched 1 = .ok r' ∧ Puts r matched r' :=
  store_resize hr le_rfl le_rfl fun _ hn => hn

/-- The loop puts the expansion of the replacement behind what is there. -/
theorem strcreplaceLoop_spec (matched : Quoting.Bytes) : ∀ (rep : Quoting.Bytes) {r : Buffer}, r.Open →
    ∃ r', strcreplaceLoop ampersand matched true rep r = .ok r' ∧
      Puts r (expandReplacement matched rep) r'
  | [], r, hr => ⟨r, rfl, Puts.nil hr⟩
  | [x], r, hr => by
      rw [strcreplaceLoop, expandReplacement]
      split_ifs with hamp hempty
      · exact ⟨r, rfl, hempty ▸ Puts.nil hr⟩
      · exact put_matched hr matched
      · exact put_char hr x
  | x :: y :: rep, r, hr => by
      rw [strcreplaceLoop, expandReplacement]
      by_cases hamp : x = ampersand
      · rw [if_pos hamp, if_pos hamp]
        split_ifs with hempty
        · obtain ⟨r', hloop, hputs⟩ := strcreplaceLoop_spec matched (y :: rep) hr
          exact ⟨r', hloop, by rwa [hempty, List.nil_append, ← hempty]⟩
        · obtain ⟨r', hstore, hputs⟩ := put_matched hr matched
          obtain ⟨r'', hloop, hputs'⟩ := strcreplaceLoop_spec matched (y :: rep) hputs.isOpen
          exact ⟨r'', by rw [hstore]; exact hloop, hputs.trans hputs'⟩
      · rw [if_neg hamp, if_neg hamp]
        simp only [true_and]
        split_ifs with hescaped
        · obtain ⟨r', hstore, hputs⟩ := put_char hr y
          obtain ⟨r'', hloop, hputs'⟩ := strcreplaceLoop_spec matched rep hputs.isOpen
          exact ⟨r'', by rw [hstore]; exact hloop, hputs.trans hputs'⟩
        · obtain ⟨r', hstore, hputs⟩ := put_char hr x
          obtain ⟨r'', hloop, hputs'⟩ := strcreplaceLoop_spec matched (y :: rep) hputs.isOpen
          exact ⟨r'', by rw [hstore]; exact hloop, hputs.trans hputs'⟩

theorem strcreplace_eq (rep matched : Quoting.Bytes) :
    strcreplace rep ampersand matched true = .ok (expandReplacement matched rep) := by
  obtain ⟨r, hloop, hputs⟩ := strcreplaceLoop_spec matched rep
    (r := ⟨[], matched.length + rep.length + 2⟩) (by simp [Buffer.Open])
  unfold strcreplace
  rw [hloop]
  exact (Buffer.finish_open hputs.isOpen).trans (congrArg _ hputs.text)

/-! ## The loop -/

namespace Call

variable {c : Call}

theorem replacement_eq (hrep : c.flags.exprep = true → c.rep ≠ none) (matched : Quoting.Bytes) :
    c.replacement matched =
      if c.flags.exprep = true ∧ intMax < matched.length + 1 then .error .intOverflow
      else .ok (c.expansion matched) := by
  unfold replacement expansion
  cases hrep' : c.rep with
  | none =>
      have hexprep : ¬ c.flags.exprep = true := fun h => hrep h hrep'
      rw [if_neg fun h => hexprep h.1, if_neg hexprep]
      rfl
  | some rep =>
      dsimp only [Option.getD_some]
      by_cases hexprep : c.flags.exprep = true
      · simp only [hexprep, if_true, true_and, strcreplace_eq]
      · rw [if_neg hexprep, if_neg fun h => hexprep h.1, if_neg hexprep]

/-- The text is put into the buffer, unless an `int` cannot count it. -/
def Appends (ret : Buffer) (s : Quoting.Bytes) (x : Run Buffer) : Prop :=
  if intMax < ret.text.length + s.length then x = .error .intOverflow
  else ∃ r', x = .ok r' ∧ Puts ret s r'

theorem append_eq {ret : Buffer} {s : Quoting.Bytes} (h : ret.text.length + s.length < ret.size) :
    append ret s = if intMax < ret.text.length + s.length then .error .intOverflow
      else .ok { ret with text := ret.text ++ s } := by
  have hrun : append ret s = if intMax < (ret.text ++ s).length then .error .intOverflow
      else .ok { ret with text := ret.text ++ s } := by
    unfold append
    rw [Buffer.store_fits (by omega)]
    rfl
  rw [hrun, List.length_append]

theorem lt_resize_incr {ret : Buffer} (hret : ret.Open) (room : ℕ) :
    ret.text.length + room < (ret.resize room incr).size :=
  Buffer.lt_resize hret room fun _ _ => Nat.succ_pos 63

theorem puts_append {ret : Buffer} {s : Quoting.Bytes} (h : ret.text.length + s.length < ret.size) :
    Puts ret s { ret with text := ret.text ++ s } :=
  ⟨rfl, by rw [Buffer.Open, List.length_append]; exact h⟩

theorem putChar_appends (hmeasured : c.Measured) {ret : Buffer} (hret : ret.Open) {str : Quoting.Bytes}
    (hne : str ≠ []) : Appends ret (str.take (c.charLen str)) (c.putChar ret str) := by
  unfold putChar Appends
  have hroom := lt_resize_incr hret c.mbCurMax
  have hlen : (str.take (c.charLen str)).length ≤ c.mbCurMax :=
    (List.length_take_le _ _).trans (hmeasured str hne).2.2
  have hfits : (ret.resize c.mbCurMax incr).text.length + (str.take (c.charLen str)).length <
      (ret.resize c.mbCurMax incr).size := by
    rw [Buffer.resize_text]
    omega
  rw [if_neg hne, append_eq hfits]
  have hputs := puts_append hfits
  rw [Buffer.resize_text] at hputs ⊢
  split_ifs with hfar
  · rfl
  · exact ⟨_, rfl, rfl, hputs.isOpen⟩

theorem putMatch_appends (hrep : c.flags.exprep = true → c.rep ≠ none) {ret : Buffer}
    (hret : ret.Open) (str : Quoting.Bytes) (s e : ℕ) :
    let matched := (str.take e).drop s
    if c.flags.exprep = true ∧ intMax < matched.length + 1 then
      c.putMatch ret str s e = .error .intOverflow
    else Appends ret (str.take s ++ c.expansion matched) (c.putMatch ret str s e) := by
  dsimp only
  have hputMatch : c.putMatch ret str s e = c.replacement ((str.take e).drop s) >>= fun rstr =>
      append (ret.resize (s + rstr.length) incr) (str.take s) >>= fun ret => append ret rstr := rfl
  rw [hputMatch, replacement_eq hrep]
  split_ifs with hlarge
  · rfl
  · generalize c.expansion ((str.take e).drop s) = rstr
    have hroom := lt_resize_incr hret (s + rstr.length)
    have hlen : (str.take s).length ≤ s := List.length_take_le _ _
    change Appends ret _ (append (ret.resize (s + rstr.length) incr) (str.take s) >>= fun ret =>
      append ret rstr)
    have hfirst : (ret.resize (s + rstr.length) incr).text.length + (str.take s).length <
        (ret.resize (s + rstr.length) incr).size := by
      rw [Buffer.resize_text]
      omega
    rw [append_eq hfirst, Buffer.resize_text]
    generalize (ret.resize (s + rstr.length) incr).size = size at hroom ⊢
    by_cases hfar : intMax < ret.text.length + (str.take s).length
    · rw [if_pos hfar, Appends, if_pos (by rw [List.length_append]; omega)]
      rfl
    · rw [if_neg hfar]
      have hsecond : (ret.text ++ str.take s).length + rstr.length < size := by
        rw [List.length_append]
        omega
      have happend := @append_eq ⟨ret.text ++ str.take s, size⟩ _ hsecond
      simp only [List.length_append, Nat.add_assoc] at happend
      change Appends ret _ (append ⟨ret.text ++ str.take s, size⟩ rstr)
      rw [happend, Appends, List.length_append]
      split_ifs with hend
      · rfl
      · refine ⟨_, rfl, List.append_assoc _ _ _, ?_⟩
        rw [Buffer.Open, List.length_append]
        exact hsecond

/-! ## Turns -/

variable (c) in
/-- What comes into the buffer for a piece. -/
def pieceText (p : Piece) : Quoting.Bytes := p.before ++ c.expansion p.matched ++ p.copied

variable (c) in
/-- What `pat_subst` can hold, from so many bytes on. -/
def FitsFrom (k : ℕ) (pieces : List Piece) : Prop :=
  (c.flags.exprep = true → ∀ p ∈ pieces, p.matched.length + 1 ≤ intMax) ∧
    k + (c.assemblePieces pieces).length ≤ intMax

theorem assemblePieces_cons (p : Piece) (pieces : List Piece) :
    c.assemblePieces (p :: pieces) = c.pieceText p ++ c.assemblePieces pieces := rfl

theorem fitsFrom_cons {k : ℕ} {p : Piece} {pieces : List Piece} :
    c.FitsFrom k (p :: pieces) ↔
      ((c.flags.exprep = true → p.matched.length + 1 ≤ intMax) ∧
        k + (c.pieceText p).length ≤ intMax) ∧ c.FitsFrom (k + (c.pieceText p).length) pieces := by
  simp only [FitsFrom, assemblePieces_cons, List.length_append, List.forall_mem_cons]
  constructor
  · rintro ⟨hmatched, hlen⟩
    exact ⟨⟨fun h => (hmatched h).1, by omega⟩, fun h => (hmatched h).2, by omega⟩
  · rintro ⟨⟨hhead, -⟩, htail, hlen⟩
    exact ⟨fun h => ⟨hhead h, htail h⟩, by omega⟩

/-- The loop ends with the pieces in the buffer, or where an `int` overflows. -/
structure Loops (c : Call) (ret : Buffer) (pieces : List Piece) (tail : Quoting.Bytes)
    (x : Run (Buffer × Quoting.Bytes)) : Prop where
  fits : c.FitsFrom ret.text.length pieces →
    ∃ r', x = .ok (r', tail) ∧ Puts ret (c.assemblePieces pieces) r'
  overflows : ¬ c.FitsFrom ret.text.length pieces → x = .error .intOverflow

theorem Loops.nil {ret : Buffer} (hret : ret.Open) (hint : ret.text.length ≤ intMax) (str : Quoting.Bytes) :
    Loops c ret [] str (.ok (ret, str)) where
  fits _ := ⟨ret, rfl, Puts.nil hret⟩
  overflows h := absurd ⟨fun _ => nofun, hint⟩ h

/-- A piece is put into the buffer, and the loop goes on. -/
theorem Loops.cons {ret : Buffer} {p : Piece} {pieces : List Piece} {tail : Quoting.Bytes}
    {x : Run Buffer} {f : Buffer → Run (Buffer × Quoting.Bytes)}
    (hx : if c.flags.exprep = true ∧ intMax < p.matched.length + 1 then x = .error .intOverflow
      else Appends ret (c.pieceText p) x)
    (hf : ∀ r', Puts ret (c.pieceText p) r' → r'.text.length ≤ intMax → Loops c r' pieces tail (f r')) :
    Loops c ret (p :: pieces) tail (x >>= f) := by
  unfold Appends at hx
  split_ifs at hx with hlarge hfar
  · subst hx
    refine ⟨fun h => ?_, fun _ => rfl⟩
    exact absurd ((fitsFrom_cons.mp h).1.1 hlarge.1) (by omega)
  · subst hx
    refine ⟨fun h => ?_, fun _ => rfl⟩
    exact absurd (fitsFrom_cons.mp h).1.2 (by omega)
  · obtain ⟨r', rfl, hputs⟩ := hx
    have hlen : r'.text.length = ret.text.length + (c.pieceText p).length := by
      rw [hputs.text, List.length_append]
    obtain ⟨hfits, hoverflows⟩ := hf r' hputs (by omega)
    rw [hlen] at hfits hoverflows
    have hhead : (c.flags.exprep = true → p.matched.length + 1 ≤ intMax) ∧
        ret.text.length + (c.pieceText p).length ≤ intMax :=
      ⟨fun h => by by_contra hgt; exact hlarge ⟨h, by omega⟩, by omega⟩
    refine ⟨fun h => ?_, fun h => hoverflows fun hrest => h (fitsFrom_cons.mpr ⟨hhead, hrest⟩)⟩
    obtain ⟨r'', hr'', hputs'⟩ := hfits (fitsFrom_cons.mp h).2
    exact ⟨r'', hr'', hputs.trans hputs'⟩

theorem Appends.bind {ret : Buffer} {s t : Quoting.Bytes} {x : Run Buffer} {f : Buffer → Run Buffer}
    (hx : Appends ret s x) (hf : ∀ r', Puts ret s r' → Appends r' t (f r')) :
    Appends ret (s ++ t) (x >>= f) := by
  unfold Appends at hx ⊢
  rw [List.length_append]
  split_ifs at hx with hfar
  · rw [if_pos (by omega), hx]
    rfl
  · obtain ⟨r', rfl, hputs⟩ := hx
    have hnext := hf r' hputs
    rw [Appends, hputs.text, List.length_append] at hnext
    change if _ then f r' = _ else ∃ r'', f r' = _ ∧ _
    split_ifs at hnext with hend
    · rw [if_pos (by omega)]
      exact hnext
    · rw [if_neg (by omega)]
      obtain ⟨r'', hr'', hputs'⟩ := hnext
      exact ⟨r'', hr'', hputs.trans hputs'⟩

/-- A match with the text before it, without a character behind. -/
theorem matchPiece (hrep : c.flags.exprep = true → c.rep ≠ none) {ret : Buffer} (hret : ret.Open)
    (text : Quoting.Bytes) (s e : ℕ) :
    if c.flags.exprep = true ∧ intMax < ((text.take e).drop s).length + 1 then
      c.putMatch ret text s e = .error .intOverflow
    else Appends ret (c.pieceText ⟨text.take s, (text.take e).drop s, []⟩) (c.putMatch ret text s e) := by
  have h := putMatch_appends hrep hret text s e
  dsimp only at h
  rw [pieceText, List.append_nil]
  exact h

/-- What the loop relies on: what is found lies in the text, an empty match at its beginning. -/
structure Finds (c : Call) : Prop where
  reference : ∀ text, text ≠ [] → c.find text = c.referenceRest text
  le : ∀ {text s e}, c.referenceRest text = some (s, e) → s ≤ e ∧ e ≤ text.length
  empty : ∀ {text s}, c.referenceRest text = some (s, s) → c.flags.mtype = .any → s = 0

theorem ne_nil_of_referenceRest {text : Quoting.Bytes} {s e : ℕ}
    (h : c.referenceRest text = some (s, e)) : text ≠ [] := by
  rintro rfl
  cases h

theorem global_iff : c.global = true ↔ ¬ (c.flags.globrep = false ∨ c.flags.mtype ≠ .any) := by
  simp [global]

/-- The loop follows the decomposition. -/
theorem loop_spec (hrep : c.flags.exprep = true → c.rep ≠ none) (hmeasured : c.Measured)
    (hfinds : c.Finds) {str tail : Quoting.Bytes} {pieces : List Piece}
    (h : Tiling c.referenceRest c.charLen c.global str pieces tail) {n : ℕ} (hn : str.length < n)
    {ret : Buffer} (hret : ret.Open) (hint : ret.text.length ≤ intMax) :
    Loops c ret pieces tail (c.loop n ret str) := by
  induction h generalizing n ret with
  | @rest text h =>
      obtain ⟨n, rfl⟩ : ∃ m, n = m + 1 := ⟨n - 1, by omega⟩
      rw [loop]
      by_cases hne : text = []
      · rw [if_pos hne]
        exact .nil hret hint text
      · rw [if_neg hne, hfinds.reference text hne, h]
        exact .nil hret hint text
  | @last text s e h hglobal =>
      obtain ⟨n, rfl⟩ : ∃ m, n = m + 1 := ⟨n - 1, by omega⟩
      have hne := ne_nil_of_referenceRest h
      have hstop : c.flags.globrep = false ∨ c.flags.mtype ≠ .any := by
        by_contra hgo
        rw [global_iff.mpr hgo] at hglobal
        cases hglobal
      rw [loop, if_neg hne, hfinds.reference text hne, h]
      refine Loops.cons (matchPiece hrep hret text s e) fun r' hputs hlen => ?_
      rw [if_pos hstop]
      exact .nil hputs.isOpen hlen _
  | @next text tail s e pieces h hglobal hlt hrest ih =>
      obtain ⟨n, rfl⟩ : ∃ m, n = m + 1 := ⟨n - 1, by omega⟩
      have hne := ne_nil_of_referenceRest h
      have hend := (hfinds.le h).2
      rw [loop, if_neg hne, hfinds.reference text hne, h]
      refine Loops.cons (matchPiece hrep hret text s e) fun r' hputs hlen => ?_
      rw [if_neg (global_iff.mp hglobal), if_neg hlt.ne]
      exact ih (by rw [List.length_drop]; omega) hputs.isOpen hlen
  | @empty text tail s pieces h hglobal hrest ih =>
      obtain ⟨n, rfl⟩ : ∃ m, n = m + 1 := ⟨n - 1, by omega⟩
      have hne := ne_nil_of_referenceRest h
      obtain rfl := hfinds.empty h (by simpa [global] using (Bool.and_eq_true_iff.mp hglobal).2)
      have hpos := (hmeasured text hne).1
      have hlength := List.length_pos_iff.mpr hne
      have hturn : c.loop (n + 1) ret text =
          (c.putMatch ret text 0 0 >>= fun ret => c.putChar ret text) >>= fun ret =>
            c.loop n ret (text.drop (c.charLen text)) := by
        rw [loop, if_neg hne, hfinds.reference text hne, h, bind_assoc]
        refine congrArg (c.putMatch ret text 0 0 >>= ·) (funext fun ret => ?_)
        rw [if_neg (global_iff.mp hglobal), if_pos rfl]
        rfl
      rw [hturn]
      refine Loops.cons ?_ fun r' hputs hlen => ih ?_ hputs.isOpen hlen
      · have hmatch := matchPiece hrep hret text 0 0
        have hsmall : ¬ (c.flags.exprep = true ∧ intMax < ([] : Quoting.Bytes).length + 1) := by
          simp [intMax]
        rw [if_neg (by simpa using hsmall)] at hmatch
        rw [if_neg hsmall]
        have hturn := hmatch.bind fun r' hputs => putChar_appends hmeasured hputs.isOpen hne
        simpa only [pieceText, List.append_nil, List.take_zero, List.drop_zero] using hturn
      · rw [List.length_drop, List.drop_zero]
        omega

/-! ## The decomposition -/

theorem exists_tiling (hmeasured : c.Measured) (hfinds : c.Finds) (text : Quoting.Bytes) :
    ∃ pieces tail, Tiling c.referenceRest c.charLen c.global text pieces tail := by
  induction hlen : text.length using Nat.strong_induction_on generalizing text with
  | _ n ih =>
      cases h : c.referenceRest text with
      | none => exact ⟨[], text, .rest h⟩
      | some span =>
          obtain ⟨s, e⟩ := span
          have hne := ne_nil_of_referenceRest h
          have hlength := List.length_pos_iff.mpr hne
          obtain ⟨hle, hend⟩ := hfinds.le h
          cases hglobal : c.global with
          | false => exact ⟨_, _, .last h rfl⟩
          | true =>
              rcases hle.lt_or_eq with hlt | rfl
              · obtain ⟨pieces, tail, hrest⟩ := ih _ (by rw [List.length_drop]; omega)
                  (text.drop e) rfl
                rw [hglobal] at hrest
                exact ⟨_, _, .next h rfl hlt hrest⟩
              · obtain rfl := hfinds.empty h (by simpa [global] using (Bool.and_eq_true_iff.mp hglobal).2)
                have hpos := (hmeasured text hne).1
                obtain ⟨pieces, tail, hrest⟩ := ih _ (by rw [List.length_drop, List.drop_zero]; omega)
                  ((text.drop 0).drop (c.charLen (text.drop 0))) rfl
                rw [hglobal] at hrest
                exact ⟨_, _, .empty h rfl hrest⟩

end Call

theorem Tiling.unique {find : Quoting.Bytes → Option (ℕ × ℕ)} {charLen : Quoting.Bytes → ℕ} {global : Bool}
    {text tail tail' : Quoting.Bytes} {pieces pieces' : List Piece}
    (h : Tiling find charLen global text pieces tail)
    (h' : Tiling find charLen global text pieces' tail') : pieces' = pieces ∧ tail' = tail := by
  induction h generalizing pieces' tail' with
  | rest h =>
      cases h' with
      | rest => exact ⟨rfl, rfl⟩
      | last h' | next h' | empty h' => simp [h] at h'
  | last h hglobal =>
      cases h' with
      | rest h' => simp [h] at h'
      | last h' =>
          rw [h] at h'
          cases h'
          exact ⟨rfl, rfl⟩
      | next h' hglobal' | empty h' hglobal' => simp [hglobal] at hglobal'
  | next h hglobal hlt hrest ih =>
      cases h' with
      | rest h' => simp [h] at h'
      | last h' hglobal' => simp [hglobal] at hglobal'
      | next h' _ _ hrest' =>
          rw [h] at h'
          cases h'
          obtain ⟨rfl, rfl⟩ := ih hrest'
          exact ⟨rfl, rfl⟩
      | empty h' =>
          rw [h] at h'
          cases h'
          exact absurd hlt (lt_irrefl _)
  | empty h hglobal hrest ih =>
      cases h' with
      | rest h' => simp [h] at h'
      | last h' hglobal' => simp [hglobal] at hglobal'
      | next h' _ hlt =>
          rw [h] at h'
          cases h'
          exact absurd hlt (lt_irrefl _)
      | empty h' _ hrest' =>
          rw [h] at h'
          cases h'
          obtain ⟨rfl, rfl⟩ := ih hrest'
          exact ⟨rfl, rfl⟩

/-- The string itself, from its pieces. -/
def source (pieces : List Piece) (tail : Quoting.Bytes) : Quoting.Bytes :=
  (pieces.flatMap fun p => p.before ++ p.matched ++ p.copied) ++ tail

theorem Tiling.source_eq {find : Quoting.Bytes → Option (ℕ × ℕ)} {charLen : Quoting.Bytes → ℕ} {global : Bool}
    {text tail : Quoting.Bytes} {pieces : List Piece} (h : Tiling find charLen global text pieces tail)
    (hle : ∀ {text s e}, find text = some (s, e) → s ≤ e) : source pieces tail = text := by
  have hcut {text : Quoting.Bytes} {s e : ℕ} (hse : s ≤ e) :
      text.take s ++ (text.take e).drop s ++ text.drop e = text := by
    have htake : text.take s = (text.take e).take s := by rw [List.take_take, min_eq_left hse]
    rw [htake, List.take_append_drop, List.take_append_drop]
  have hcons (p : Piece) (pieces : List Piece) (tail : Quoting.Bytes) :
      source (p :: pieces) tail = p.before ++ p.matched ++ p.copied ++ source pieces tail := by
    simp [source]
  induction h with
  | rest => rfl
  | last h =>
      rw [hcons, List.append_nil]
      exact hcut (hle h)
  | next h hglobal hlt hrest ih =>
      rw [hcons, List.append_nil, ih]
      exact hcut (hle h)
  | empty h hglobal hrest ih =>
      rw [hcons, List.append_nil, ih, List.append_assoc, List.take_append_drop, List.take_append_drop]

theorem Tiling.length_le_one {find : Quoting.Bytes → Option (ℕ × ℕ)} {charLen : Quoting.Bytes → ℕ}
    {text tail : Quoting.Bytes} {pieces : List Piece} (h : Tiling find charLen false text pieces tail) :
    pieces.length ≤ 1 := by
  cases h with
  | rest => exact Nat.zero_le _
  | last => exact le_rfl
  | next _ hglobal => cases hglobal
  | empty _ hglobal => cases hglobal

namespace Call

/-! ## The substitution -/

variable {c : Call}

variable (c) in
/-- The decomposition of the string is the only one, and the substitution replaces its matches,
just as long as it can hold what it counts. -/
structure Tiles (string : Quoting.Bytes) (pieces : List Piece) (tail : Quoting.Bytes) : Prop where
  decomposes : c.Decomposes string pieces tail
  unique : ∀ pieces' tail', c.Decomposes string pieces' tail' → pieces' = pieces ∧ tail' = tail
  source : source pieces tail = string
  single : c.global = false → pieces.length ≤ 1
  exact_iff : c.patSubst string = .ok (c.assemble pieces tail) ↔ c.Fits string pieces

theorem Reports.le {Matches : Quoting.Bytes → Prop} (h : c.Reports Matches) {text : Quoting.Bytes} {s e : ℕ}
    (hmatch : c.matchPattern text = some (s, e)) : s ≤ e ∧ e ≤ text.length :=
  have hcandidate := ((h text s e).mp hmatch).1
  ⟨hcandidate.le, hcandidate.inside⟩

/-- An empty match is found at the beginning, where the pattern matches nothing as well. -/
theorem Reports.empty {Matches : Quoting.Bytes → Prop} (h : c.Reports Matches) {text : Quoting.Bytes} {s : ℕ}
    (hmatch : c.matchPattern text = some (s, s)) (hany : c.flags.mtype = .any) : s = 0 := by
  obtain ⟨hcandidate, hbest⟩ := (h text s s).mp hmatch
  have hnil : (text.take s).drop s = [] := List.drop_eq_nil_of_le (List.length_take_le _ _)
  have hstart : c.Candidate Matches text 0 0 :=
    { le := le_rfl
      inside := Nat.zero_le _
      matched := by
        have hmatched := hcandidate.matched
        rw [hnil] at hmatched
        exact hmatched
      starts := .start text
      ends := .start text
      beg := fun _ => rfl
      fin := fun hfin => by rw [hany] at hfin; cases hfin }
  rcases hbest 0 0 hstart with hlt | ⟨heq, -⟩
  · omega
  · exact heq

theorem find_eq_reference (hloop : ¬ (c.nullPattern = true ∧ c.flags.mtype ≠ .any)) (text : Quoting.Bytes) :
    c.find text = c.reference text := by
  unfold reference find
  by_cases hnull : c.nullPattern = true
  · have hany : c.flags.mtype = .any := by
      by_contra hne
      exact hloop ⟨hnull, hne⟩
    rw [if_pos hnull, if_pos hnull, hany]
  · rw [if_neg hnull, if_neg hnull]

theorem Reports.finds {Matches : Quoting.Bytes → Prop} (h : c.Reports Matches)
    (hloop : ¬ (c.nullPattern = true ∧ c.flags.mtype ≠ .any)) : c.Finds := by
  have href := find_eq_reference hloop
  have hpattern {text : Quoting.Bytes} {s e : ℕ} (hrest : c.referenceRest text = some (s, e)) :
      c.matchPattern text = some (s, e) := by
    unfold referenceRest at hrest
    rw [← href] at hrest
    unfold find at hrest
    split_ifs at hrest
    exact hrest
  exact
    { reference := fun text hne => by rw [referenceRest, if_neg hne, href]
      le := fun hrest => h.le (hpattern hrest)
      empty := fun hrest => h.empty (hpattern hrest) }

theorem emptyReplacement_eq (hrep : c.flags.exprep = true → c.rep ≠ none) :
    c.emptyReplacement = .ok (c.expansion []) := by
  unfold emptyReplacement expansion
  cases hrep' : c.rep with
  | none =>
      have hexprep : ¬ c.flags.exprep = true := fun h => hrep h hrep'
      dsimp only
      rw [if_neg hexprep, if_neg hexprep]
      rfl
  | some rep =>
      dsimp only [Option.getD_some]
      rw [strcreplace_eq]
      split_ifs <;> rfl

theorem copyRest_eq {ret : Buffer} (hret : ret.Open) (str : Quoting.Bytes) :
    copyRest ret str = .ok (ret.text ++ str) := by
  unfold copyRest
  split_ifs with hstr
  · rw [hstr, List.append_nil]
    exact Buffer.finish_open hret
  · have hroom := lt_resize_incr hret (str.length + 1)
    rw [Buffer.store_fits (by rw [Buffer.resize_text]; omega)]
    have hopen : (ret.text ++ str).length < (ret.resize (str.length + 1) incr).size := by
      rw [List.length_append]
      omega
    exact if_pos hopen

theorem copyTwo_eq {first second : Quoting.Bytes} {size : ℕ} (h : first.length + second.length + 1 ≤ size) :
    copyTwo first second size = .ok (first ++ second) := by
  have hfirst : (⟨[], size⟩ : Buffer).store first 1 = .ok ⟨first, size⟩ :=
    if_pos (show 0 + first.length + 1 ≤ size by omega)
  have hsecond : (⟨first, size⟩ : Buffer).store second 1 = .ok ⟨first ++ second, size⟩ := if_pos h
  have hfinish : (⟨first ++ second, size⟩ : Buffer).finish = .ok (first ++ second) :=
    if_pos (show (first ++ second).length < size by rw [List.length_append]; omega)
  unfold copyTwo
  rw [hfirst]
  change ((⟨first, size⟩ : Buffer).store second 1 >>= Buffer.finish) = _
  rw [hsecond]
  exact hfinish

/-- A null pattern that is anchored puts the replacement at its end of the string. -/
theorem tiles_anchored (hrep : c.flags.exprep = true → c.rep ≠ none) (hnull : c.nullPattern = true)
    (hany : c.flags.mtype ≠ .any) (string : Quoting.Bytes) : ∃ pieces tail, c.Tiles string pieces tail := by
  have hfits (pieces : List Piece) : c.Fits string pieces := fun _ h => by simp [hnull] at h
  have hglobal : c.global = false := by simp [global, hany]
  have hrun : c.patSubst string = .ok (if c.flags.mtype = .beg then c.expansion [] ++ string
      else string ++ c.expansion []) := by
    rw [patSubst, if_pos ⟨hnull, hany⟩, emptyReplacement_eq hrep]
    change (if c.flags.mtype = .beg then copyTwo (c.expansion []) string _
      else copyTwo string (c.expansion []) _) = _
    split_ifs
    · exact copyTwo_eq (by omega)
    · exact copyTwo_eq (by omega)
  obtain ⟨s, tail, htail, href, hval⟩ : ∃ s tail, string.drop s = tail ∧
      c.reference string = some (s, s) ∧
      c.patSubst string = .ok (string.take s ++ c.expansion [] ++ tail) := by
    cases hmtype : c.flags.mtype with
    | any => exact absurd hmtype hany
    | beg =>
        refine ⟨0, string, rfl, by rw [reference, if_pos hnull, hmtype], ?_⟩
        rw [hrun, if_pos hmtype]
        rfl
    | fin =>
        refine ⟨string.length, [], by simp, by rw [reference, if_pos hnull, hmtype], ?_⟩
        rw [hrun, if_neg (by simp [hmtype]), List.take_length, List.append_nil]
  have hassemble : c.assemble [⟨string.take s, [], []⟩] tail =
      string.take s ++ c.expansion [] ++ tail := by
    simp [assemble, assemblePieces]
  have hdecomposes (pieces : List Piece) (tail' : Quoting.Bytes) : c.Decomposes string pieces tail' ↔
      pieces = [⟨string.take s, [], []⟩] ∧ tail' = tail := by
    unfold Decomposes
    split_ifs with hne
    · subst hne
      rw [href, ← htail, List.take_nil, List.drop_nil]
      rfl
    · have hlast := @Tiling.last _ c.charLen c.global _ _ _
        (show c.referenceRest string = some (s, s) by rw [referenceRest, if_neg hne, href]) hglobal
      rw [List.drop_eq_nil_of_le (List.length_take_le _ _), htail] at hlast
      refine ⟨fun h => hlast.unique h, ?_⟩
      rintro ⟨rfl, rfl⟩
      exact hlast
  refine ⟨_, tail, (hdecomposes _ _).mpr ⟨rfl, rfl⟩, fun _ _ h => (hdecomposes _ _).mp h, ?_,
    fun _ => le_rfl, iff_of_true (by rw [hval, hassemble]) (hfits _)⟩
  rw [← htail]
  simp [PatSubst.source]

/-- An empty string with a match is the replacement. -/
theorem tiles_empty (hrep : c.flags.exprep = true → c.rep ≠ none)
    (hloop : ¬ (c.nullPattern = true ∧ c.flags.mtype ≠ .any)) :
    ∃ pieces tail, c.Tiles [] pieces tail := by
  have hdecomposes (pieces : List Piece) (tail : Quoting.Bytes) : c.Decomposes [] pieces tail ↔
      pieces = (c.reference []).toList.map (fun _ => ⟨[], [], []⟩) ∧ tail = [] := by
    rw [Decomposes, if_pos rfl]
  refine ⟨_, _, (hdecomposes _ _).mpr ⟨rfl, rfl⟩, fun _ _ h => (hdecomposes _ _).mp h, ?_, ?_, ?_⟩
  · cases c.reference [] <;> rfl
  · intro _
    cases c.reference [] <;> simp
  · refine iff_of_true ?_ fun h => absurd rfl h
    rw [patSubst, if_neg hloop, find_eq_reference hloop]
    cases href : c.reference [] with
    | none => rfl
    | some span =>
        rw [if_pos ⟨rfl, rfl⟩, emptyReplacement_eq hrep]
        simp [assemble, assemblePieces]

theorem tiles_loop (hrep : c.flags.exprep = true → c.rep ≠ none) (hmeasured : c.Measured)
    (hfinds : c.Finds) (hloop : ¬ (c.nullPattern = true ∧ c.flags.mtype ≠ .any)) {string : Quoting.Bytes}
    (hne : string ≠ []) : ∃ pieces tail, c.Tiles string pieces tail := by
  obtain ⟨pieces, tail, htiling⟩ := exists_tiling hmeasured hfinds string
  have hdecomposes (pieces' : List Piece) (tail' : Quoting.Bytes) : c.Decomposes string pieces' tail' ↔
      Tiling c.referenceRest c.charLen c.global string pieces' tail' := by
    rw [Decomposes, if_neg hne]
  have hspec := @loop_spec _ hrep hmeasured hfinds _ _ _ htiling _ (Nat.lt_succ_self _) ⟨[], 64⟩
    (by simp [Buffer.Open]) (by decide)
  have hpat : c.patSubst string = c.loop (string.length + 1) ⟨[], 64⟩ string >>= fun x =>
      copyRest x.1 x.2 := by
    rw [patSubst, if_neg hloop, if_neg fun h => hne h.1]
  have hfits : c.Fits string pieces ↔ c.FitsFrom 0 pieces := by
    rw [FitsFrom, Nat.zero_add]
    refine ⟨fun h => ?_, fun h _ _ => h⟩
    cases hnull : c.nullPattern with
    | false => exact h hne hnull
    | true =>
        -- nothing is found, so nothing is counted
        have hnone : c.referenceRest string = none := by
          rw [← hfinds.reference string hne, find, if_pos hnull]
        obtain ⟨rfl, -⟩ := htiling.unique (.rest hnone)
        exact ⟨fun _ => nofun, Nat.zero_le _⟩
  refine ⟨pieces, tail, (hdecomposes _ _).mpr htiling, fun _ _ h => htiling.unique ((hdecomposes _ _).mp h),
    htiling.source_eq fun h => (hfinds.le h).1, fun hglobal => ?_, ?_⟩
  · rw [hglobal] at htiling
    exact htiling.length_le_one
  · rw [hpat, hfits]
    constructor
    · intro hok
      by_contra hover
      rw [hspec.overflows hover] at hok
      cases hok
    · intro hfit
      obtain ⟨r', hr', hputs⟩ := hspec.fits hfit
      rw [hr']
      refine (copyRest_eq hputs.isOpen tail).trans ?_
      rw [hputs.text]
      rfl

/-! ## A single letter -/

/-- `${v/b/c}`, where every character is a byte. -/
def letterCall : Call where
  flags       := ⟨.any, false, false⟩
  nullPattern := false
  rep         := some [0x63]
  matchPattern text :=
    if 0x62 ∈ text then some (text.idxOf 0x62, text.idxOf 0x62 + 1) else none
  charLen _   := 1
  mbCurMax    := 1

theorem letterCall_measured : letterCall.Measured := fun _ hne =>
  ⟨Nat.one_pos, List.length_pos_iff.mpr hne, le_rfl⟩

theorem boundary_bytes {text : Quoting.Bytes} {k : ℕ} (h : k ≤ text.length) :
    Boundary (fun _ => 1) text k := by
  induction text generalizing k with
  | nil =>
      obtain rfl : k = 0 := Nat.le_zero.mp h
      exact .start []
  | cons x text ih =>
      cases k with
      | zero => exact .start _
      | succ k =>
          have hstep := @Boundary.step (fun _ => 1) _ _ (List.cons_ne_nil x text)
            (ih (Nat.le_of_succ_le_succ h))
          rwa [Nat.add_comm] at hstep

theorem letterCall_candidate {text : Quoting.Bytes} {s e : ℕ} :
    letterCall.Candidate (· = [0x62]) text s e ↔ e = s + 1 ∧ text[s]? = some 0x62 := by
  constructor
  · intro h
    have hmatched := h.matched
    have hle := h.le
    have hinside := h.inside
    have hlen := congrArg List.length hmatched
    rw [List.length_drop, List.length_take, min_eq_left hinside] at hlen
    obtain rfl : e = s + 1 := by
      simp only [List.length_singleton] at hlen
      omega
    have hlt : s < text.length := by omega
    refine ⟨rfl, ?_⟩
    rw [List.take_succ_eq_append_getElem hlt, List.drop_left' (by simp; omega)] at hmatched
    rw [List.getElem?_eq_getElem hlt, List.singleton_inj.mp hmatched]
  · rintro ⟨rfl, hget⟩
    obtain ⟨hlt, hs⟩ := List.getElem?_eq_some_iff.mp hget
    exact
      { le := Nat.le_succ s
        inside := hlt
        matched := by
          rw [List.take_succ_eq_append_getElem hlt, List.drop_left' (by simp; omega), hs]
        starts := boundary_bytes hlt.le
        ends := boundary_bytes hlt
        beg := nofun
        fin := nofun }

theorem letterCall_reports : letterCall.Reports (· = [0x62]) := by
  intro text s e
  have hfirst {k : ℕ} (hk : text[k]? = some 0x62) : text.idxOf 0x62 ≤ k := by
    obtain ⟨hlt, hget⟩ := List.getElem?_eq_some_iff.mp hk
    by_contra hgt
    have hnot := List.not_of_lt_findIdx (Nat.lt_of_not_le hgt)
    simp [hget] at hnot
  simp only [letterCall_candidate]
  change (if 0x62 ∈ text then some (text.idxOf 0x62, text.idxOf 0x62 + 1) else none) = _ ↔ _
  split_ifs with hmem
  · have hat : text[text.idxOf 0x62]? = some 0x62 :=
      List.getElem?_eq_some_iff.mpr ⟨List.idxOf_lt_length_of_mem hmem, List.getElem_idxOf _⟩
    constructor
    · rintro ⟨rfl, rfl⟩
      refine ⟨⟨rfl, hat⟩, ?_⟩
      rintro s' e' ⟨rfl, hs'⟩
      have := hfirst hs'
      omega
    · rintro ⟨⟨rfl, hs⟩, hbest⟩
      have hle := hfirst hs
      have := hbest _ _ ⟨rfl, hat⟩
      obtain rfl : s = text.idxOf 0x62 := by omega
      rfl
  · refine iff_of_false nofun ?_
    rintro ⟨⟨-, hs⟩, -⟩
    exact hmem (List.mem_of_getElem? hs)


/-- The letter is not replaced where it is too far behind the beginning. -/
theorem patSubst_far {n : ℕ} (hn : intMax ≤ n) {pieces : List Piece} {tail : Quoting.Bytes}
    (h : letterCall.Decomposes (List.replicate n 0x61 ++ [0x62]) pieces tail) :
    letterCall.patSubst (List.replicate n 0x61 ++ [0x62]) ≠ .ok (letterCall.assemble pieces tail) := by
  intro hok
  have hanchored : ¬ (letterCall.nullPattern = true ∧ letterCall.flags.mtype ≠ .any) := nofun
  have hne : List.replicate n (0x61 : UInt8) ++ [0x62] ≠ [] := by simp
  obtain ⟨pieces', tail', htiles⟩ := tiles_loop (fun _ => Option.some_ne_none _) letterCall_measured
    (letterCall_reports.finds hanchored) hanchored hne
  obtain ⟨rfl, rfl⟩ := htiles.unique _ _ h
  have hfits := (htiles.exact_iff.mp hok hne rfl).2
  have hfound : letterCall.referenceRest (List.replicate n 0x61 ++ [0x62]) = some (n, n + 1) := by
    have hindex : (List.replicate n (0x61 : UInt8) ++ [0x62]).idxOf 0x62 = n := by
      rw [List.idxOf_append_of_notMem (by simp)]
      simp
    have hmatch : letterCall.matchPattern (List.replicate n 0x61 ++ [0x62]) = some (n, n + 1) := by
      change (if _ then some (List.idxOf _ _, List.idxOf _ _ + 1) else none) = _
      rw [if_pos (by simp), hindex]
    rw [referenceRest, if_neg hne]
    exact hmatch
  rw [Decomposes, if_neg hne] at h
  obtain ⟨rfl, -⟩ := h.unique (.last hfound rfl)
  simp [assemblePieces, expansion, letterCall] at hfits
  omega

end Call

end PatSubst

end Rash
