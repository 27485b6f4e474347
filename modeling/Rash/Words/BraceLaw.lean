import Rash.Words.BraceScan
import Mathlib.Order.Basic

/-!
# The brace expansion law

The expansion of a plain word, stated without the scans: the first brace that begins a valid
expression is closed, its pieces and what follows the closing brace are expanded on their own,
and the results are multiplied out.
-/

namespace Rash

namespace Braces

/-- The pieces between separators: no open brace is left, and no separator stands outside
braces. -/
def Piece (a : Word) : Prop := depth a = 0 ∧ ∀ k, ¬ CommaAt a k

/-- Every closing brace closes an open one, and none stays open. -/
def Balanced (a : Word) : Prop := depth a = 0 ∧ ∀ k, a[k]? = some '}' → depth (a.take k) ≠ 0

def FirstBegins (w : Word) (j : ℕ) : Prop := Begins w j ∧ ∀ k < j, ¬ Begins w k

/-- `pre`, then each of `xs`, and for each of them each of `ys`. -/
def product (pre : Word) (xs ys : List Word) : List Word :=
  xs.flatMap fun x => ys.map fun y => pre ++ x ++ y

/-- A word whose first brace group lies between `pre` and `post`. -/
def group (pre body post : Word) : Word := pre ++ '{' :: (body ++ '}' :: post)

/-- The terms of a sequence; the text of the group where they cannot be generated. -/
def sequenceTerms (strvecMcreate : ℕ → Bool) (body : Word) : List Word :=
  (expandSeqterm strvecMcreate body).getD ['{' :: (body ++ ['}'])]

/-- The reference expansion. -/
inductive BraceExpansion (strvecMcreate : ℕ → Bool) : Word → List Word → Prop
  | plain {w : Word} (hnone : ∀ j, ¬ Begins w j) : BraceExpansion strvecMcreate w [w]
  | comma {pre post : Word} {parts ys : List Word} {expand : Word → List Word}
      (hparts : 2 ≤ parts.length) (hpiece : ∀ a ∈ parts, Piece a)
      (hfirst : FirstBegins (group pre ([','].intercalate parts) post) pre.length)
      (hcloses : Closes ([','].intercalate parts ++ '}' :: post) ([','].intercalate parts).length)
      (hexpand : ∀ a ∈ parts, BraceExpansion strvecMcreate a (expand a))
      (hpost : BraceExpansion strvecMcreate post ys) :
      BraceExpansion strvecMcreate (group pre ([','].intercalate parts) post)
        (product pre (parts.flatMap expand) ys)
  | seq {pre body post : Word} {ys : List Word}
      (hfirst : FirstBegins (group pre body post) pre.length)
      (hcloses : Closes (body ++ '}' :: post) body.length)
      (hcomma : ¬ HasComma (body ++ '}' :: post) body.length)
      (hpost : BraceExpansion strvecMcreate post ys) :
      BraceExpansion strvecMcreate (group pre body post)
        (product pre (sequenceTerms strvecMcreate body) ys)

/-! ## Pieces -/

theorem commaAt_append {a : Word} {k : ℕ} (hk : k < a.length) (w : Word) :
    CommaAt (a ++ w) k ↔ CommaAt a k := by
  unfold CommaAt
  rw [List.getElem?_append_left hk, List.take_append_of_le_length hk.le]

theorem CommaAt.lt {w : Word} {k : ℕ} (h : CommaAt w k) : k < w.length :=
  (List.getElem?_eq_some_iff.mp h.1).1

theorem commaAt_length {a : Word} (ha : depth a = 0) (w : Word) :
    CommaAt (a ++ ',' :: w) a.length := by
  constructor
  · rw [List.getElem?_append_right le_rfl, Nat.sub_self, List.getElem?_cons_zero]
  · rw [List.take_left' rfl, ha]

/-- The text around the character at a position. -/
theorem eq_take_cons_drop {w : Word} {k : ℕ} {c : Char} (h : w[k]? = some c) :
    w = w.take k ++ c :: w.drop (k + 1) := by
  obtain ⟨hlt, hc⟩ := List.getElem?_eq_some_iff.mp h
  rw [← hc, List.getElem_cons_drop, List.take_append_drop]

theorem intercalate_cons {a : Word} {parts : List Word} (hparts : parts ≠ []) :
    [','].intercalate (a :: parts) = a ++ ',' :: [','].intercalate parts := by
  obtain ⟨b, rest, rfl⟩ := List.exists_cons_of_ne_nil hparts
  rw [List.intercalate_cons_cons, List.append_assoc, List.singleton_append]

/-- A text that closes its braces is cut at its separators in one way into pieces. -/
theorem exists_pieces (n : ℕ) : ∀ w : Word, w.length < n → depth w = 0 →
    ∃ parts, parts ≠ [] ∧ w = [','].intercalate parts ∧ (∀ a ∈ parts, Piece a) ∧
      ((∃ k, CommaAt w k) → 2 ≤ parts.length) := by
  induction n with
  | zero => intro w hw; omega
  | succ n ih =>
      intro w hw hdepth
      classical
      by_cases hcomma : ∃ k, CommaAt w k
      · let k := Nat.find hcomma
        have hk : CommaAt w k := Nat.find_spec hcomma
        have hlt := hk.lt
        have hw' := eq_take_cons_drop hk.1
        have hlen : (w.take k).length = k := List.length_take_of_le hlt.le
        have hrest : depth (w.drop (k + 1)) = 0 := by
          rw [hw', depth_append_comma hk.2] at hdepth
          exact hdepth
        obtain ⟨parts, hne, heq, hpiece, -⟩ :=
          ih (w.drop (k + 1)) (by rw [List.length_drop]; omega) hrest
        refine ⟨w.take k :: parts, List.cons_ne_nil _ _, ?_, ?_, ?_⟩
        · rw [intercalate_cons hne, ← heq]
          exact hw'
        · intro a ha
          rcases List.mem_cons.mp ha with rfl | ha
          · refine ⟨hk.2, fun i hi => ?_⟩
            have hik : i < k := hlen ▸ hi.lt
            apply Nat.find_min hcomma hik
            rw [hw']
            exact (commaAt_append hi.lt _).mpr hi
          · exact hpiece a ha
        · intro _
          have := List.length_pos_of_ne_nil hne
          rw [List.length_cons]
          omega
      · refine ⟨[w], List.cons_ne_nil _ _, List.intercalate_singleton.symm, ?_, ?_⟩
        · intro a ha
          rw [List.mem_singleton.mp ha]
          exact ⟨hdepth, fun k hk => hcomma ⟨k, hk⟩⟩
        · exact fun h => absurd h hcomma

theorem mem_intercalate {a : Word} {parts : List Word} (ha : a ∈ parts) :
    ∃ u v, [','].intercalate parts = u ++ a ++ v := by
  induction parts with
  | nil => cases ha
  | cons b parts ih =>
      by_cases hparts : parts = []
      · rw [hparts, List.mem_singleton] at ha
        rw [hparts, ha, List.intercalate_singleton]
        exact ⟨[], [], by simp⟩
      · rw [intercalate_cons hparts]
        rcases List.mem_cons.mp ha with rfl | ha
        · exact ⟨[], ',' :: [','].intercalate parts, rfl⟩
        · obtain ⟨u, v, heq⟩ := ih ha
          exact ⟨b ++ ',' :: u, v, by rw [heq]; simp⟩

/-! ## The scans of a plain word -/

section

variable {x : Extractors} {A : ℕ → Bool} {text : Word}

theorem Plain.left {u v : Word} (h : Plain (u ++ v)) : Plain u := by
  have := h.of_take u.length
  rwa [List.take_left' rfl] at this

theorem Plain.right {u v : Word} (h : Plain (u ++ v)) : Plain v := by
  have := h.of_drop u.length
  rwa [List.drop_left' rfl] at this

theorem Plain.behind {pre body post : Word} (h : Plain (group pre body post)) :
    Plain (body ++ '}' :: post) := by
  have hbrace : Plain ('{' :: (body ++ '}' :: post)) := h.right
  exact Plain.right (u := ['{']) hbrace

theorem Plain.post {body post : Word} (h : Plain (body ++ '}' :: post)) : Plain post :=
  Plain.right (u := ['}']) h.right

theorem Plain.part {parts : List Word} (h : Plain ([','].intercalate parts)) {a : Word}
    (ha : a ∈ parts) : Plain a ∧ a.length ≤ ([','].intercalate parts).length := by
  obtain ⟨u, v, heq⟩ := mem_intercalate ha
  rw [heq] at h ⊢
  refine ⟨h.left.right, ?_⟩
  simp only [List.length_append]
  omega

theorem exists_closes {w : Word} (h : ∃ m, CloserAt w m) : ∃ m, Closes w m := by
  classical
  exact ⟨Nat.find h, Nat.find_spec h, fun k hk => Nat.find_min h hk⟩

theorem braceGobbler_closes (hplain : Plain text) {i m : ℕ} (hcloses : Closes (text.drop i) m) :
    ∃ b, braceGobbler x text i '}' = ('}', i + m, b) ∧
      (b = .comma ↔ HasComma (text.drop i) m) ∧ b ≠ .none := by
  obtain ⟨b, hgobble, hcomma, hnone⟩ := braceGobbler_close (x := x) (c := '}') hplain
    (.inr ⟨hcloses.1, rfl⟩) hcloses.2
  exact ⟨b, hgobble, hcomma, hnone.not.mpr (not_not.mpr hcloses.1.2.2)⟩

theorem braceGobbler_unclosed (hplain : Plain text) {start : ℕ} (hstart : start ≤ text.length)
    (hnone : ∀ m, ¬ CloserAt (text.drop start) m) :
    ∃ b, braceGobbler x text start '}' = (nul, text.length, b) := by
  obtain ⟨b, hgobble, -⟩ := braceGobbler_close (x := x) (c := nul) (m := text.length - start)
    hplain (.inl ⟨Nat.add_sub_cancel' hstart, rfl⟩) (fun k _ => hnone k)
  rw [Nat.add_sub_cancel' hstart] at hgobble
  exact ⟨b, hgobble⟩

/-- The loop ends at the first brace that begins a valid expression, or at the end. -/
theorem findBrace_eq (hplain : Plain text) {j : ℕ} {c : Char}
    (hstop : (j = text.length ∧ c = nul) ∨ (Begins text j ∧ c = '{')) (fuel : ℕ) :
    ∀ i, i ≤ j → j < i + fuel → (∀ k, i ≤ k → k < j → ¬ Begins text k) →
      findBrace x text fuel i = (c, j) := by
  have hjle : j ≤ text.length := by
    rcases hstop with ⟨hend, -⟩ | ⟨hbegins, -⟩
    · exact hend.le
    · exact (List.getElem?_eq_some_iff.mp hbegins.1.1).1.le
  induction fuel with
  | zero => intro i _ _ _; omega
  | succ fuel ih =>
      intro i hij hfuel hbefore
      classical
      unfold findBrace
      by_cases hopen : ∃ k, i ≤ k ∧ k < j ∧ OpensAt text k
      · -- an open brace before `j` begins nothing, and the search goes on behind it
        let k := Nat.find hopen
        obtain ⟨hik, hkj, hopens⟩ : i ≤ k ∧ k < j ∧ OpensAt text k := Nat.find_spec hopen
        have hklt : k < text.length := by omega
        obtain ⟨b, hgobble⟩ := braceGobbler_open (x := x) (c := '{') hplain hik
          (.inr ⟨hopens, rfl⟩)
          (fun n hin hnk hbad => Nat.find_min hopen hnk ⟨hin, by omega, hbad⟩)
        have hgo : findBrace x text fuel (k + 1) = (c, j) :=
          ih (k + 1) hkj (by omega) (fun n hn hnj => hbefore n (by omega) hnj)
        have hnot := hbefore k hik hkj
        simp only [hgobble]
        rw [if_neg (by simp only [not_or]; exact ⟨by omega, by decide⟩)]
        by_cases hcloser : ∃ m, CloserAt (text.drop (k + 1)) m
        · obtain ⟨m, hcloses⟩ := exists_closes hcloser
          obtain ⟨b', hclose, hcomma, hb⟩ := braceGobbler_closes (x := x) hplain hcloses
          have hinvalid : ¬ (HasComma (text.drop (k + 1)) m ∨
              validSeqterm (text.drop (k + 1)) m = true) :=
            fun hbad => hnot ⟨hopens, m, hcloses, hbad⟩
          rw [not_or, Bool.not_eq_true] at hinvalid
          have hseq : b' = .seq := by
            cases b' with
            | comma => exact absurd (hcomma.mp rfl) hinvalid.1
            | seq => rfl
            | none => exact absurd rfl hb
          simp only [hclose, Nat.add_sub_cancel_left]
          rw [if_pos (.inr ⟨hseq, hinvalid.2⟩), hgo]
        · obtain ⟨b', hclose⟩ := braceGobbler_unclosed (x := x) hplain hklt
            (fun m hm => hcloser ⟨m, hm⟩)
          simp only [hclose]
          rw [if_pos (.inl trivial), hgo]
      · have hnone : ∀ k, i ≤ k → k < j → ¬ OpensAt text k :=
          fun k hik hkj hbad => hopen ⟨k, hik, hkj, hbad⟩
        rcases hstop with ⟨hend, rfl⟩ | ⟨hbegins, rfl⟩
        · obtain ⟨b, hgobble⟩ := braceGobbler_open (x := x) (c := nul) hplain hij
            (.inl ⟨hend, rfl⟩) hnone
          simp only [hgobble]
          rw [if_pos (.inr trivial)]
        · obtain ⟨hopens, m, hcloses, hvalid⟩ := hbegins
          have hlt := (List.getElem?_eq_some_iff.mp hopens.1).1
          obtain ⟨b, hgobble⟩ := braceGobbler_open (x := x) (c := '{') hplain hij
            (.inr ⟨hopens, rfl⟩) hnone
          obtain ⟨b', hclose, hcomma, -⟩ := braceGobbler_closes (x := x) hplain hcloses
          simp only [hgobble]
          rw [if_neg (by simp only [not_or]; exact ⟨by omega, by decide⟩)]
          simp only [hclose, Nat.add_sub_cancel_left]
          rw [if_neg]
          rintro (hbad | ⟨hseq, hinvalid⟩)
          · exact absurd hbad (by decide)
          · rcases hvalid with hhas | hvalid
            · rw [hcomma.mpr hhas] at hseq
              cases hseq
            · rw [hvalid] at hinvalid
              cases hinvalid

/-- Cut at its separators, a text is expanded piece by piece. -/
theorem expandAmble_eq (hplain : Plain text) (expand : Word → List Word) {parts : List Word}
    (hne : parts ≠ []) (hpiece : ∀ a ∈ parts, Piece a) : ∀ (front : Word) (fuel : ℕ),
      text = front ++ [','].intercalate parts → text.length < front.length + fuel →
      expandAmble x expand text fuel front.length = parts.flatMap expand := by
  induction parts with
  | nil => exact absurd rfl hne
  | cons a parts ih =>
      intro front fuel htext hfuel
      have ha := hpiece a List.mem_cons_self
      obtain ⟨fuel, rfl⟩ : ∃ n, fuel = n + 1 := by
        have hlen := congrArg List.length htext
        rw [List.length_append] at hlen
        exact Nat.exists_eq_succ_of_ne_zero (by omega)
      by_cases hparts : parts = []
      · subst hparts
        rw [List.intercalate_singleton] at htext
        have hdrop : text.drop front.length = a := by rw [htext, List.drop_left' rfl]
        have hlen : front.length + a.length = text.length := by
          rw [htext, List.length_append]
        obtain ⟨b, hgobble⟩ := braceGobbler_comma (x := x) (c := nul) (m := a.length) hplain
          (.inl ⟨hlen, rfl⟩) (fun k _ => by rw [hdrop]; exact ha.2 k)
        have hpiece' : substring text front.length (front.length + a.length) = a := by
          unfold substring
          rw [hlen, List.take_length, hdrop]
        unfold expandAmble
        simp only [hgobble, hpiece', if_true, List.flatMap_cons, List.flatMap_nil, List.append_nil]
      · rw [intercalate_cons hparts] at htext
        have hdrop : text.drop front.length = a ++ ',' :: [','].intercalate parts := by
          rw [htext, List.drop_left' rfl]
        have hcomma : CommaAt (text.drop front.length) a.length := by
          rw [hdrop]
          exact commaAt_length ha.1 _
        obtain ⟨b, hgobble⟩ := braceGobbler_comma (x := x) (c := ',') hplain
          (.inr ⟨hcomma, rfl⟩)
          (fun k hk => by rw [hdrop, commaAt_append hk]; exact ha.2 k)
        have hpiece' : substring text front.length (front.length + a.length) = a := by
          unfold substring
          rw [htext, ← List.append_assoc, List.take_left' (by rw [List.length_append]),
            List.drop_left' rfl]
        have hnext := ih hparts (fun b hb => hpiece b (List.mem_cons_of_mem _ hb))
          (front ++ a ++ [',']) fuel (by rw [htext]; simp)
          (by simp only [List.length_append, List.length_singleton]; omega)
        simp only [List.length_append, List.length_singleton] at hnext
        unfold expandAmble
        simp only [hgobble, hpiece', hnext, show ¬ (',' = nul) by decide, if_false,
          List.flatMap_cons]

/-! ## One round of the expansion -/

theorem arrayConcat_eq (xs ys : List Word) :
    arrayConcat xs ys = xs.flatMap fun x => ys.map fun y => x ++ y := by
  unfold arrayConcat
  split
  · next hxs => simp [hxs]
  split
  · next hys => simp [hys]
  rfl

theorem arrayConcat_product (pre : Word) (xs ys : List Word) :
    arrayConcat (arrayConcat [pre] xs) ys = product pre xs ys := by
  simp only [arrayConcat_eq, product, List.flatMap_singleton, List.flatMap_map]

theorem product_nil (pre : Word) (xs : List Word) :
    product pre xs [[]] = arrayConcat [pre] xs := by
  simp [arrayConcat_eq, product, List.map_eq_flatMap]

theorem braceExpandFrom_plain (hplain : Plain text) (fuel : ℕ) (hnone : ∀ j, ¬ Begins text j) :
    braceExpandFrom x A (fuel + 1) text = [text] := by
  have hfind := findBrace_eq (x := x) (c := nul) hplain (.inl ⟨rfl, rfl⟩) (text.length + 1) 0
    (Nat.zero_le _) (by omega) (fun k _ _ => hnone k)
  unfold braceExpandFrom
  simp only [hfind]
  rw [if_pos (by decide), List.take_length]

theorem braceExpandFrom_nil (fuel : ℕ) : braceExpandFrom x A fuel [] = [[]] := by
  cases fuel with
  | zero => rfl
  | succ fuel =>
      apply braceExpandFrom_plain ⟨by simp, by simp⟩
      intro j hbegins
      simpa using hbegins.1.1

theorem runsToEnd_of_ne_comma {etype : BraceType} (h : etype ≠ .comma) (amble : Word) (fuel : ℕ) :
    ∀ j, runsToEnd amble etype fuel j = true := by
  induction fuel with
  | zero => intro j; rfl
  | succ fuel ih =>
      intro j
      unfold runsToEnd
      split
      · rfl
      split
      · exact ih _
      rw [if_neg (fun hbad => h hbad.2)]
      exact ih _

section

variable {pre body post : Word}

@[simp] theorem length_group : (group pre body post).length =
    pre.length + 1 + (body.length + 1 + post.length) := by
  simp only [group, List.length_append, List.length_cons]
  omega

theorem drop_group : (group pre body post).drop (pre.length + 1) = body ++ '}' :: post := by
  unfold group
  rw [List.append_cons, List.drop_left' (by rw [List.length_append, List.length_singleton])]

theorem drop_group_post :
    (group pre body post).drop (pre.length + 1 + body.length + 1) = post := by
  rw [Nat.add_assoc (pre.length + 1), ← List.drop_drop, drop_group, List.append_cons,
    List.drop_left' (by rw [List.length_append, List.length_singleton])]

theorem substring_group :
    substring (group pre body post) (pre.length + 1) (pre.length + 1 + body.length) = body := by
  unfold substring
  rw [List.drop_take, drop_group, Nat.add_sub_cancel_left, List.take_left' rfl]

theorem substring_group_braces :
    substring (group pre body post) pre.length (pre.length + 1 + body.length + 1) =
      '{' :: (body ++ ['}']) := by
  unfold substring group
  rw [List.drop_take, List.drop_left' rfl]
  have hlen : pre.length + 1 + body.length + 1 - pre.length = body.length + 1 + 1 := by omega
  rw [hlen, List.take_succ_cons, List.append_cons, List.take_left' (by simp)]

/-- Where a valid group comes first, the tack stands between what is in front of it and the
expansion of what is behind it. -/
theorem braceExpandFrom_group (hplain : Plain (group pre body post)) (fuel : ℕ)
    (hfirst : FirstBegins (group pre body post) pre.length)
    (hcloses : Closes (body ++ '}' :: post) body.length) :
    ∃ etype, (etype = .comma ↔ HasComma (body ++ '}' :: post) body.length) ∧ etype ≠ .none ∧
      braceExpandFrom x A (fuel + 1) (group pre body post) =
        match braceTack x A (braceExpandFrom x A fuel)
            (group pre body post) (pre.length + 1) (pre.length + 1 + body.length) etype with
        | none => [group pre body post]
        | some xs => product pre xs (braceExpandFrom x A fuel post) := by
  have hfind := findBrace_eq (x := x) (c := '{') hplain (.inr ⟨hfirst.1, rfl⟩)
    ((group pre body post).length + 1) 0 (Nat.zero_le _) (by rw [length_group]; omega)
    (fun k _ hk => hfirst.2 k hk)
  obtain ⟨etype, hclose, hcomma, hnone⟩ := braceGobbler_closes (x := x)
    (i := pre.length + 1) hplain (by rw [drop_group]; exact hcloses)
  rw [drop_group] at hcomma
  refine ⟨etype, hcomma, hnone, ?_⟩
  have hpre : (group pre body post).take pre.length = pre := List.take_left' rfl
  conv_lhs => unfold braceExpandFrom
  simp only [hfind]
  rw [if_neg (by simp)]
  simp only [hclose]
  rw [if_neg (by decide), drop_group_post, hpre]
  cases braceTack x A (braceExpandFrom x A fuel) (group pre body post)
    (pre.length + 1) (pre.length + 1 + body.length) etype with
  | none => rfl
  | some xs =>
      by_cases hpost : post = []
      · simp only [hpost, if_true]
        rw [braceExpandFrom_nil, product_nil]
      · simp only [hpost, if_false]
        rw [arrayConcat_product]

theorem braceExpandFrom_comma {parts : List Word} (hparts : 2 ≤ parts.length)
    (hpiece : ∀ a ∈ parts, Piece a) (hplain : Plain (group pre ([','].intercalate parts) post))
    (fuel : ℕ) (hfirst : FirstBegins (group pre ([','].intercalate parts) post) pre.length)
    (hcloses :
      Closes ([','].intercalate parts ++ '}' :: post) ([','].intercalate parts).length) :
    braceExpandFrom x A (fuel + 1) (group pre ([','].intercalate parts) post) =
      product pre (parts.flatMap (braceExpandFrom x A fuel))
        (braceExpandFrom x A fuel post) := by
  obtain ⟨etype, hcomma, -, heq⟩ :=
    braceExpandFrom_group (x := x) (A := A) hplain fuel hfirst hcloses
  have hetype : etype = .comma := by
    rw [hcomma]
    match parts, hparts with
    | a :: b :: rest, _ =>
        rw [intercalate_cons (List.cons_ne_nil _ _), List.append_assoc, List.cons_append]
        refine ⟨a.length, ?_, commaAt_length (hpiece a List.mem_cons_self).1 _⟩
        rw [List.length_append, List.length_cons]
        omega
  have hbody : Plain ([','].intercalate parts) := hplain.behind.left
  have hamble := expandAmble_eq (x := x) hbody (braceExpandFrom x A fuel)
    (by rintro rfl; simp at hparts) hpiece [] (([','].intercalate parts).length + 1)
    rfl (by rw [List.length_nil]; omega)
  rw [List.length_nil] at hamble
  rw [heq]
  unfold braceTack
  simp only [substring_group, hetype]
  rw [if_neg (by simp), hamble]

theorem braceExpandFrom_seq (hplain : Plain (group pre body post)) (fuel : ℕ)
    (hfirst : FirstBegins (group pre body post) pre.length)
    (hcloses : Closes (body ++ '}' :: post) body.length)
    (hcomma : ¬ HasComma (body ++ '}' :: post) body.length) :
    braceExpandFrom x A (fuel + 1) (group pre body post) =
      product pre (sequenceTerms A body)
        (braceExpandFrom x A fuel post) := by
  obtain ⟨etype, hiff, hnone, heq⟩ :=
    braceExpandFrom_group (x := x) (A := A) hplain fuel hfirst hcloses
  have hne : etype ≠ .comma := hiff.not.mpr hcomma
  have hetype : etype = .seq := by
    cases etype with
    | comma => exact absurd rfl hne
    | seq => rfl
    | none => exact absurd rfl hnone
  subst hetype
  rw [heq]
  unfold braceTack sequenceTerms
  simp only [substring_group, runsToEnd_of_ne_comma hne, Nat.add_sub_cancel]
  rw [if_pos ⟨trivial, trivial⟩, substring_group_braces]
  cases expandSeqterm A body with
  | some tack => rfl
  | none =>
      by_cases hpost : post = []
      · have hend : ¬ (pre.length + 1 + body.length < (group pre body post).length ∧
            charAt (group pre body post) (pre.length + 1 + body.length + 1) ≠ nul) := by
          rintro ⟨-, hbad⟩
          apply hbad
          apply charAt_of_length_le
          rw [length_group, hpost, List.length_nil]
          omega
        simp only [if_neg hend]
        rw [hpost, braceExpandFrom_nil, product_nil, arrayConcat_eq]
        simp [group]
      · have hlen := List.length_pos_of_ne_nil hpost
        have hmore : pre.length + 1 + body.length < (group pre body post).length ∧
            charAt (group pre body post) (pre.length + 1 + body.length + 1) ≠ nul :=
          ⟨by rw [length_group]; omega, hplain.charAt_ne_nul (by rw [length_group]; omega)⟩
        simp only [if_pos hmore]
        rfl

end

end

/-! ## The law -/

section

variable {x : Extractors} {A : ℕ → Bool} {w : Word}

theorem exists_group {j : ℕ} (hbegins : Begins w j) : ∃ pre body post, pre.length = j ∧
    w = group pre body post ∧ Closes (body ++ '}' :: post) body.length ∧ depth body = 0 := by
  obtain ⟨hopens, m, hcloses, -⟩ := hbegins
  have hw := eq_take_cons_drop hopens.1
  have hrest := eq_take_cons_drop hcloses.1.1
  have hlen : ((w.drop (j + 1)).take m).length = m :=
    List.length_take_of_le (List.getElem?_eq_some_iff.mp hcloses.1.1).1.le
  refine ⟨w.take j, (w.drop (j + 1)).take m, (w.drop (j + 1)).drop (m + 1), ?_, ?_, ?_, ?_⟩
  · exact List.length_take_of_le (List.getElem?_eq_some_iff.mp hopens.1).1.le
  · unfold group
    rw [← hrest]
    exact hw
  · rw [← hrest, hlen]
    exact hcloses
  · exact hcloses.1.2.1

theorem HasComma.commaAt {body rest : Word} (h : HasComma (body ++ rest) body.length) :
    ∃ k, CommaAt body k := by
  obtain ⟨k, hk, hcomma⟩ := h
  exact ⟨k, (commaAt_append hk _).mp hcomma⟩

theorem braceExpansion_braceExpandFrom (fuel : ℕ) : ∀ w : Word, w.length < fuel → Plain w →
    BraceExpansion A w (braceExpandFrom x A fuel w) := by
  induction fuel with
  | zero => intro w hw; omega
  | succ fuel ih =>
      intro w hw hplain
      classical
      by_cases hbegins : ∃ j, Begins w j
      · have hfirst : FirstBegins w (Nat.find hbegins) :=
          ⟨Nat.find_spec hbegins, fun k hk => Nat.find_min hbegins hk⟩
        obtain ⟨pre, body, post, hpre, rfl, hcloses, hdepth⟩ := exists_group hfirst.1
        rw [← hpre] at hfirst
        rw [length_group] at hw
        have hbody := hplain.behind
        have hpost := ih post (by omega) hbody.post
        by_cases hcomma : HasComma (body ++ '}' :: post) body.length
        · obtain ⟨parts, -, rfl, hpiece, htwo⟩ := exists_pieces _ body (Nat.lt_succ_self _) hdepth
          have hparts := htwo hcomma.commaAt
          rw [braceExpandFrom_comma hparts hpiece hplain fuel hfirst hcloses]
          refine .comma hparts hpiece hfirst hcloses (fun a ha => ?_) hpost
          obtain ⟨hplainPart, hlen⟩ := hbody.left.part ha
          exact ih a (by omega) hplainPart
        · rw [braceExpandFrom_seq hplain fuel hfirst hcloses hcomma]
          exact .seq hfirst hcloses hcomma hpost
      · rw [braceExpandFrom_plain hplain fuel (fun j hj => hbegins ⟨j, hj⟩)]
        exact .plain fun j hj => hbegins ⟨j, hj⟩

theorem BraceExpansion.eq_braceExpandFrom {ws : List Word}
    (h : BraceExpansion A w ws) : ∀ fuel, w.length < fuel → Plain w →
      braceExpandFrom x A fuel w = ws := by
  induction h with
  | plain hnone =>
      intro fuel hfuel hplain
      obtain ⟨fuel, rfl⟩ := Nat.exists_eq_succ_of_ne_zero (by omega : fuel ≠ 0)
      exact braceExpandFrom_plain hplain fuel hnone
  | @comma pre post parts ys expand hparts hpiece hfirst hcloses hexpand hpost ihparts ihpost =>
      intro fuel hfuel hplain
      obtain ⟨fuel, rfl⟩ := Nat.exists_eq_succ_of_ne_zero (by omega : fuel ≠ 0)
      rw [length_group] at hfuel
      have hbody := hplain.behind
      have hsame : parts.flatMap (braceExpandFrom x A fuel) =
          parts.flatMap expand := by
        apply List.flatMap_congr
        intro a ha
        obtain ⟨hplainPart, hlen⟩ := hbody.left.part ha
        exact ihparts a ha fuel (by omega) hplainPart
      rw [braceExpandFrom_comma hparts hpiece hplain fuel hfirst hcloses, hsame,
        ihpost fuel (by omega) hbody.post]
  | @seq pre body post ys hfirst hcloses hcomma hpost ihpost =>
      intro fuel hfuel hplain
      obtain ⟨fuel, rfl⟩ := Nat.exists_eq_succ_of_ne_zero (by omega : fuel ≠ 0)
      rw [length_group] at hfuel
      rw [braceExpandFrom_seq hplain fuel hfirst hcloses hcomma,
        ihpost fuel (by omega) hplain.behind.post]

theorem braceExpand_eq_of_lt (hplain : Plain w) {fuel : ℕ} (hfuel : w.length < fuel) :
    braceExpandFrom x A fuel w = braceExpand x A w :=
  (braceExpansion_braceExpandFrom (w.length + 1) w (Nat.lt_succ_self _)
    hplain).eq_braceExpandFrom fuel hfuel hplain

/-! ## Balanced groups -/

theorem Balanced.piece {a : Word} (h : Balanced a) (hcomma : ∀ k, ¬ CommaAt a k) : Piece a :=
  ⟨h.1, hcomma⟩

theorem balanced_intercalate {parts : List Word} (hparts : ∀ a ∈ parts, Balanced a) :
    Balanced ([','].intercalate parts) := by
  induction parts with
  | nil => exact ⟨rfl, by simp⟩
  | cons a parts ih =>
      have ha := hparts a List.mem_cons_self
      by_cases hnil : parts = []
      · rw [hnil, List.intercalate_singleton]
        exact ha
      have hrest := ih fun b hb => hparts b (List.mem_cons_of_mem _ hb)
      rw [intercalate_cons hnil]
      refine ⟨by rw [depth_append_comma ha.1, hrest.1], ?_⟩
      intro k hk
      rcases Nat.lt_or_ge k a.length with hlt | hge
      · rw [List.getElem?_append_left hlt] at hk
        rw [List.take_append_of_le_length hlt.le]
        exact ha.2 k hk
      · obtain ⟨i, rfl⟩ := Nat.exists_eq_add_of_le hge
        rw [List.getElem?_append_right hge, Nat.add_sub_cancel_left] at hk
        rw [List.take_length_add_append]
        cases i with
        | zero => simp at hk
        | succ i =>
            rw [List.getElem?_cons_succ] at hk
            rw [List.take_succ_cons, depth_append_comma ha.1]
            exact hrest.2 i hk

/-- A balanced group with a separator is closed by its own brace and is always valid. -/
theorem begins_of_balanced (pre post : Word) {parts : List Word} (hparts : 2 ≤ parts.length)
    (hbalanced : ∀ a ∈ parts, Balanced a) :
    Closes ([','].intercalate parts ++ '}' :: post) ([','].intercalate parts).length ∧
      Begins (group pre ([','].intercalate parts) post) pre.length := by
  have hbody := balanced_intercalate hbalanced
  have hcomma : HasComma ([','].intercalate parts ++ '}' :: post)
      ([','].intercalate parts).length := by
    match parts, hparts with
    | a :: b :: rest, _ =>
        rw [intercalate_cons (List.cons_ne_nil _ _), List.append_assoc, List.cons_append]
        refine ⟨a.length, ?_, commaAt_length (hbalanced a List.mem_cons_self).1 _⟩
        rw [List.length_append, List.length_cons]
        omega
  generalize [','].intercalate parts = body at hbody hcomma
  have hcloses : Closes (body ++ '}' :: post) body.length := by
    refine ⟨⟨by simp, ?_, hcomma.separated⟩, ?_⟩
    · rw [List.take_left' rfl]
      exact hbody.1
    · rintro k hk ⟨hclose, hdepth, -⟩
      rw [List.getElem?_append_left hk] at hclose
      rw [List.take_append_of_le_length hk.le] at hdepth
      exact hbody.2 k hclose hdepth
  have hne : 0 < body.length := by
    obtain ⟨k, hk, -⟩ := hcomma
    omega
  refine ⟨hcloses, ⟨?_, ?_⟩, body.length, ?_, ?_⟩
  · simp [group]
  · rintro ⟨hpre, hbad⟩
    rw [List.length_eq_zero_iff.mp hpre] at hbad
    have hsnd : (group [] body post)[1]? = body[0]? := by
      unfold group
      rw [List.nil_append, List.getElem?_cons_succ, List.getElem?_append_left hne]
    rw [hsnd] at hbad
    rcases hbad with hbad | hbad
    · rw [List.getElem?_eq_none_iff] at hbad
      omega
    · exact hbody.2 0 hbad rfl
  · rw [drop_group]
    exact hcloses
  · rw [drop_group]
    exact .inl hcomma

end

instance (w : Word) (k : ℕ) : Decidable (CommaAt w k) :=
  inferInstanceAs (Decidable (_ ∧ _))

instance (c : Char) : Decidable (Ordinary c) :=
  inferInstanceAs (Decidable (_ ∉ _))

theorem forall_mem_of_all {p : Char → Prop} [DecidablePred p] {w : Word}
    (h : w.all (fun c => decide (p c)) = true) : ∀ c ∈ w, p c := fun c hc =>
  of_decide_eq_true (List.all_eq_true.mp h c hc)

/-- Readers for words whose substitutions end at the next parenthesis. -/
def nextParenthesis : Extractors where
  extractFunctionSubst text i _ := text.length + i
  extractCommandSubst text i := i + (text.drop i).findIdx (· = ')')

/-- In `{a}b,c}` no balanced group can be found. -/
theorem no_balanced_group (pre post : Word) {parts : List Word} (hparts : 2 ≤ parts.length)
    (hbalanced : ∀ a ∈ parts, Balanced a) :
    "\x7ba\x7db,c\x7d".toList ≠ group pre ([','].intercalate parts) post := by
  intro hword
  obtain ⟨hcloses, hbegins⟩ := begins_of_balanced pre post hparts hbalanced
  have hbody := balanced_intercalate hbalanced
  generalize [','].intercalate parts = body at hword hcloses hbegins hbody
  have hpre : pre = [] := by
    have hopen := hbegins.1.1
    rw [← hword] at hopen
    have hlt : pre.length < 7 := (List.getElem?_eq_some_iff.mp hopen).1
    have honly : ∀ k < 7, "\x7ba\x7db,c\x7d".toList[k]? = some '{' → k = 0 := by decide +kernel
    exact List.length_eq_zero_iff.mp (honly _ hlt hopen)
  have hrest : body ++ '}' :: post = "a\x7db,c\x7d".toList := by
    rw [hpre] at hword
    exact (List.cons.inj hword).2.symm
  have hclose := hcloses.1.1
  have hsep := hcloses.1.2.2
  rw [hrest] at hclose hsep
  have hlt : body.length < 6 := (List.getElem?_eq_some_iff.mp hclose).1
  have honly : ∀ k < 6, "a\x7db,c\x7d".toList[k]? = some '}' → k = 1 ∨ k = 5 := by decide +kernel
  rcases honly _ hlt hclose with hlen | hlen
  · -- nothing separates before the first closing brace
    obtain ⟨k, hk, hat⟩ := hsep
    obtain rfl : k = 0 := by omega
    rcases hat with hat | hat
    · exact absurd hat.1 (by decide +kernel)
    · exact absurd hat.1.1 (by decide +kernel)
  · have htake : body = "a\x7db,c".toList := by
      have := congrArg (List.take 5) hrest
      rwa [← hlen, List.take_left' rfl, hlen] at this
    exact hbody.2 1 (by rw [htake]; decide +kernel) (by rw [htake]; decide +kernel)

end Braces

end Rash
