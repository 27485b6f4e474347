import Rash.Lib.FieldSplitting

/-!
# Splitting field by field

A splitter that is called for one field at a time trims the white space before the field itself,
so it may leave some of the white space behind the field.  What it must not leave is white space
that belongs to a delimiter with another separator.
-/

namespace FieldSplitting

variable {α : Type*} (ws ifs plain : α → Bool)

/-- Past the separator at the head of a text: of the white space behind it only the plain
characters are skipped on the way to another separator. -/
def dropPlain (t : List α) : List α :=
  match t.tail.dropWhile fun c => plain c && ifs c with
  | [] => []
  | c :: after => if t.head?.any ws && ifs c && !ws c then after.dropWhile ws else c :: after

def fieldsOneByOne : ℕ → List α → List (List α)
  | 0, _ => []
  | _, [] => []
  | n + 1, t =>
      t.takeWhile (fun c => !ifs c) ::
        fieldsOneByOne n ((dropPlain ws ifs plain (t.dropWhile fun c => !ifs c)).dropWhile ws)

/-- Between the field and the other separator of the delimiter at the head of a text there is
only plain white space, but for the first character. -/
def PlainAhead (t : List α) : Prop :=
  ∀ c ∈ (t.dropWhile ws).head?, ifs c = true → ∀ x ∈ (t.takeWhile ws).tail, plain x = true

/-- So it is behind every field of the text. -/
def PlainBehind : List α → Prop
  | [] => True
  | c :: t => (ifs c = false → PlainAhead ws ifs plain t) ∧ PlainBehind t

variable {ws ifs plain}

theorem dropPlain_of_blank {x : α} (hws : ws x = true) (t : List α) :
    dropPlain ws ifs plain (x :: t) =
      match t.dropWhile fun c => plain c && ifs c with
      | [] => []
      | c :: after => if ifs c && !ws c then after.dropWhile ws else c :: after := by
  unfold dropPlain
  simp only [List.tail_cons, List.head?_cons, Option.any_some, hws, Bool.true_and]

theorem plainBehind_append_ifs {d : List α} (hd : ∀ c ∈ d, ifs c = true) (t : List α) :
    PlainBehind ws ifs plain (d ++ t) ↔ PlainBehind ws ifs plain t := by
  induction d with
  | nil => rfl
  | cons c d ih =>
      rw [List.cons_append, PlainBehind, ih fun x hx => hd x (List.mem_cons_of_mem _ hx)]
      have hc := hd c List.mem_cons_self
      exact ⟨fun h => h.2, fun h => ⟨fun hfalse => absurd (hc.symm.trans hfalse) nofun, h⟩⟩

theorem plainAhead_of_notAhead {t : List α} (h : NotAhead ws t) : PlainAhead ws ifs plain t := by
  intro c hc _ x hx
  have hnil : t.takeWhile ws = [] := by
    cases t with
    | nil => rfl
    | cons y t => exact List.takeWhile_cons_of_neg (by rw [h y rfl]; exact Bool.false_ne_true)
  rw [hnil] at hx
  cases hx

/-- A delimiter that begins with another separator is skipped whole. -/
theorem dropPlain_sep (hplain : ∀ c, plain c = true → ifs c = true → ws c = true) {c : α}
    (hc : ifs c = true ∧ ws c = false) (t : List α) :
    (dropPlain ws ifs plain (c :: t)).dropWhile ws = dropDelimiter ws ifs (c :: t) := by
  have hnext : dropPlain ws ifs plain (c :: t) = t.dropWhile fun c => plain c && ifs c := by
    unfold dropPlain
    simp only [List.tail_cons, List.head?_cons, Option.any_some, hc.2, Bool.false_and,
      Bool.false_eq_true, if_false]
    cases t.dropWhile fun c => plain c && ifs c <;> rfl
  have hdelimiter : dropDelimiter ws ifs (c :: t) = t.dropWhile ws := by
    unfold dropDelimiter
    rw [List.dropWhile_cons_of_neg (by rw [hc.2]; exact Bool.false_ne_true)]
    simp only [hc.1, if_true]
  rw [hnext, hdelimiter]
  have hsplit := List.takeWhile_append_dropWhile (p := fun c => plain c && ifs c) (l := t)
  conv_rhs => rw [← hsplit]
  refine (dropWhile_append_all (fun x hx => ?_) _).symm
  have hx := List.mem_takeWhile_imp hx
  rw [Bool.and_eq_true] at hx
  exact hplain x hx.1 hx.2

theorem dropPlain_sublist (t : List α) : (dropPlain ws ifs plain t).Sublist t.tail := by
  have hsub := List.dropWhile_sublist (l := t.tail) fun c => plain c && ifs c
  unfold dropPlain
  cases hnext : t.tail.dropWhile fun c => plain c && ifs c with
  | nil => exact List.nil_sublist _
  | cons c after =>
      rw [hnext] at hsub
      dsimp only
      split_ifs
      · exact (List.dropWhile_sublist ws).trans ((List.sublist_cons_self c after).trans hsub)
      · exact hsub

theorem fieldsOneByOne_cons (n : ℕ) {t : List α} (hne : t ≠ []) :
    fieldsOneByOne ws ifs plain (n + 1) t = t.takeWhile (fun c => !ifs c) ::
      fieldsOneByOne ws ifs plain n
        ((dropPlain ws ifs plain (t.dropWhile fun c => !ifs c)).dropWhile ws) := by
  cases t with
  | nil => exact absurd rfl hne
  | cons c t => rfl

theorem fields_cons (n : ℕ) {t : List α} (hne : t ≠ []) :
    fields ws ifs (n + 1) t = t.takeWhile (fun c => !ifs c) ::
      fields ws ifs n (dropDelimiter ws ifs (t.dropWhile fun c => !ifs c)) := by
  cases t with
  | nil => exact absurd rfl hne
  | cons c t => rfl

section

variable (hle : ∀ c, ws c = true → ifs c = true)

include hle

theorem plainBehind_field {f : List α} (hfield : ∀ c ∈ f, ifs c = false) (hne : f ≠ [])
    (t : List α) : PlainBehind ws ifs plain (f ++ t) ↔
      PlainAhead ws ifs plain t ∧ PlainBehind ws ifs plain t := by
  have hws {c : α} (hc : ifs c = false) : ws c = false := by
    by_contra hbad
    rw [Bool.not_eq_false] at hbad
    exact Bool.false_ne_true (hc.symm.trans (hle c hbad))
  induction f with
  | nil => exact absurd rfl hne
  | cons c f ih =>
      rw [List.cons_append, PlainBehind]
      have hc := hfield c List.mem_cons_self
      cases f with
      | nil => exact ⟨fun h => ⟨h.1 hc, h.2⟩, fun h => ⟨fun _ => h.1, h.2⟩⟩
      | cons x f =>
          have hx := hfield x (List.mem_cons_of_mem _ List.mem_cons_self)
          have hrest := ih (fun y hy => hfield y (List.mem_cons_of_mem _ hy)) (List.cons_ne_nil _ _)
          refine ⟨fun h => hrest.mp h.2, fun h => ⟨fun _ => plainAhead_of_notAhead ?_, hrest.mpr h⟩⟩
          intro y hy
          obtain rfl := Option.some.inj hy
          exact hws hx

theorem Delimits.all_ifs {d rest : List α} (h : Delimits ws ifs d rest) :
    ∀ c ∈ d, ifs c = true := by
  cases h with
  | blank _ hws _ => exact fun c hc => hle c (hws c hc)
  | sep before after x heq hbefore hsep hafter _ =>
      intro c hc
      rw [heq, List.mem_append, List.mem_cons] at hc
      rcases hc with hc | rfl | hc
      · exact hle c (hbefore c hc)
      · exact hsep.1
      · exact hle c (hafter c hc)

/-- White space that is not plain stops the skipping. -/
theorem dropWhile_plain {t : List α} (h : ¬ ∀ x ∈ t.takeWhile ws, plain x = true) :
    ∃ x rest, (t.dropWhile fun c => plain c && ifs c) = x :: rest ∧ ws x = true ∧
      (x :: rest).dropWhile ws = t.dropWhile ws := by
  induction t with
  | nil => exact absurd (fun x hx => nomatch hx) h
  | cons c t ih =>
      cases hws : ws c with
      | false =>
          rw [List.takeWhile_cons_of_neg (by rw [hws]; exact Bool.false_ne_true)] at h
          exact absurd (fun x hx => nomatch hx) h
      | true =>
          rw [List.takeWhile_cons_of_pos hws] at h
          cases hplain : plain c with
          | false =>
              refine ⟨c, t, List.dropWhile_cons_of_neg ?_, hws, rfl⟩
              rw [hplain, Bool.false_and]
              exact Bool.false_ne_true
          | true =>
              have hrest : ¬ ∀ x ∈ t.takeWhile ws, plain x = true := fun hall =>
                h (List.forall_mem_cons.mpr ⟨hplain, hall⟩)
              obtain ⟨x, rest, hnext, hx, hdrop⟩ := ih hrest
              refine ⟨x, rest, ?_, hx, ?_⟩
              · rw [List.dropWhile_cons_of_pos (by rw [hplain, hle c hws]; rfl), hnext]
              · rw [hdrop, List.dropWhile_cons_of_pos hws]

/-- What is ahead behind the field: the same as for the whole splitting, or the other separator
of the delimiter. -/
theorem dropPlain_cases (hplain : ∀ c, plain c = true → ifs c = true → ws c = true) {x : α}
    (hx : ifs x = true) (t : List α) :
    ((dropPlain ws ifs plain (x :: t)).dropWhile ws = dropDelimiter ws ifs (x :: t) ∧
        PlainAhead ws ifs plain (x :: t)) ∨
      ¬ PlainAhead ws ifs plain (x :: t) ∧ ∃ c after,
        (dropPlain ws ifs plain (x :: t)).dropWhile ws = c :: after ∧ t.dropWhile ws = c :: after ∧
        (ifs c = true ∧ ws c = false) ∧ dropDelimiter ws ifs (x :: t) = after.dropWhile ws := by
  cases hws : ws x with
  | false =>
      refine .inl ⟨dropPlain_sep hplain ⟨hx, hws⟩ t, plainAhead_of_notAhead ?_⟩
      intro y hy
      obtain rfl := Option.some.inj hy
      exact hws
  | true =>
      have hsplit := List.takeWhile_append_dropWhile (p := ws) (l := t)
      have hblank : ∀ y ∈ t.takeWhile ws, ws y = true := fun y hy => List.mem_takeWhile_imp hy
      have hahead := notAhead_dropWhile ws t
      have htake : (x :: t).takeWhile ws = x :: t.takeWhile ws := List.takeWhile_cons_of_pos hws
      have hdrop : (x :: t).dropWhile ws = t.dropWhile ws := List.dropWhile_cons_of_pos hws
      rw [PlainAhead, htake, hdrop, dropDelimiter, hdrop, dropPlain_of_blank hws, List.tail_cons]
      by_cases hall : ∀ y ∈ t.takeWhile ws, plain y = true
      · -- all the white space is skipped
        refine .inl ⟨?_, fun _ _ _ => hall⟩
        have hnext : (t.dropWhile fun c => plain c && ifs c) = t.dropWhile ws := by
          conv_lhs => rw [← hsplit]
          have hskipped : ∀ y ∈ t.takeWhile ws, (plain y && ifs y) = true := fun y hy => by
            rw [hall y hy, hle y (hblank y hy)]
            rfl
          rw [dropWhile_append_all hskipped]
          refine NotAhead.dropWhile_eq fun y hy => ?_
          by_contra hbad
          rw [Bool.not_eq_false, Bool.and_eq_true] at hbad
          exact Bool.false_ne_true ((hahead y hy).symm.trans (hplain y hbad.1 hbad.2))
        rw [hnext]
        cases hrest : t.dropWhile ws with
        | nil => rfl
        | cons c rest =>
            rw [hrest] at hahead
            have hc := hahead c rfl
            cases hifs : ifs c with
            | true =>
                simp only [hifs, hc, Bool.not_false, Bool.and_self, if_true]
                exact (notAhead_dropWhile ws rest).dropWhile_eq
            | false =>
                simp only [hifs, Bool.false_and, Bool.false_eq_true, if_false]
                exact hahead.dropWhile_eq
      · obtain ⟨y, rest, hnext, hy, htrim⟩ := dropWhile_plain hle hall
        rw [hnext]
        simp only [hy, Bool.not_true, Bool.and_false, Bool.false_eq_true, if_false, htrim]
        cases hrest : t.dropWhile ws with
        | nil => exact .inl ⟨rfl, fun _ hc => nomatch hc⟩
        | cons c after =>
            rw [hrest] at hahead
            cases hifs : ifs c with
            | true =>
                simp only [hifs, if_true]
                exact .inr ⟨fun h => hall (h c rfl hifs), c, after, rfl, rfl, ⟨hifs, hahead c rfl⟩, rfl⟩
            | false =>
                simp only [hifs, Bool.false_eq_true, if_false]
                refine .inl ⟨trivial, fun y hy hy' => ?_⟩
                obtain rfl := Option.some.inj hy
                rw [hifs] at hy'
                cases hy'

/-- Field by field there are never fewer fields; there are the same ones exactly if the white
space inside the delimiters is plain. -/
theorem fieldsOneByOne_spec (hplain : ∀ c, plain c = true → ifs c = true → ws c = true)
    (t : List α) : ∀ n m : ℕ, t.length ≤ n → t.length ≤ m → NotAhead ws t →
      (fields ws ifs n t).length ≤ (fieldsOneByOne ws ifs plain m t).length ∧
        (fieldsOneByOne ws ifs plain m t = fields ws ifs n t ↔ PlainBehind ws ifs plain t) := by
  induction hlen : t.length using Nat.strong_induction_on generalizing t with
  | _ k ih =>
      intro n m hn hm hahead
      by_cases hne : t = []
      · subst hne
        have hfields (n : ℕ) : fields ws ifs n [] = [] := by cases n <;> rfl
        have hone (m : ℕ) : fieldsOneByOne ws ifs plain m [] = [] := by cases m <;> rfl
        rw [hfields, hone]
        exact ⟨le_rfl, iff_of_true rfl trivial⟩
      · have hpos := List.length_pos_iff.mpr hne
        obtain ⟨n, rfl⟩ := Nat.exists_eq_succ_of_ne_zero (by omega : n ≠ 0)
        obtain ⟨m, rfl⟩ := Nat.exists_eq_succ_of_ne_zero (by omega : m ≠ 0)
        have hsplit := List.takeWhile_append_dropWhile (p := fun c => !ifs c) (l := t)
        have hfield : ∀ x ∈ t.takeWhile (fun c => !ifs c), ifs x = false := fun x hx => by
          simpa using List.mem_takeWhile_imp hx
        have hstop := notAhead_dropWhile (fun c => !ifs c) t
        rw [fields_cons n hne, fieldsOneByOne_cons m hne, List.length_cons, List.length_cons]
        generalize t.takeWhile (fun c => !ifs c) = f at *
        generalize t.dropWhile (fun c => !ifs c) = r at *
        have hbehind : PlainBehind ws ifs plain t ↔
            PlainAhead ws ifs plain r ∧ PlainBehind ws ifs plain r := by
          rw [← hsplit]
          by_cases hf : f = []
          · subst hf
            rw [List.nil_append] at hsplit ⊢
            subst hsplit
            exact (and_iff_right (plainAhead_of_notAhead hahead)).symm
          · exact plainBehind_field hle hfield hf r
        rw [hbehind, List.cons_inj_right]
        have hlt := congrArg List.length hsplit
        rw [List.length_append] at hlt
        cases r with
        | nil =>
            have hfields : fields ws ifs n (dropDelimiter ws ifs []) = [] := by cases n <;> rfl
            have hone : fieldsOneByOne ws ifs plain m ((dropPlain ws ifs plain []).dropWhile ws) =
                [] := by cases m <;> rfl
            rw [hfields, hone]
            exact ⟨le_rfl, iff_of_true rfl ⟨plainAhead_of_notAhead notAhead_nil, trivial⟩⟩
        | cons x r =>
            have hx : ifs x = true := by simpa using hstop x rfl
            obtain ⟨d, heq, hdelimits, hd⟩ := exists_delimits ws (t := r) hx
            have hdlen := congrArg List.length heq
            have hdpos := List.length_pos_iff.mpr hd
            rw [List.length_append, List.length_cons] at hdlen
            rw [List.length_cons] at hlt
            have hrest : PlainBehind ws ifs plain (x :: r) ↔
                PlainBehind ws ifs plain (dropDelimiter ws ifs (x :: r)) := by
              conv_lhs => rw [heq]
              exact plainBehind_append_ifs (hdelimits.all_ifs hle) _
            rw [hrest]
            rcases dropPlain_cases hle hplain hx r with ⟨hsame, hplainAhead⟩ |
              ⟨hother, c, after, hnext, hdrop, hc, hskipped⟩
            · rw [hsame]
              obtain ⟨hle', hiff⟩ := ih (dropDelimiter ws ifs (x :: r)).length (by omega) _ rfl n m
                (by omega) (by omega) (hdelimits.notAhead hle)
              exact ⟨by omega, hiff.trans (and_iff_right hplainAhead).symm⟩
            · -- the other separator begins an empty field of its own
              have hafter := congrArg List.length hdrop
              have hsub := (List.dropWhile_sublist ws (l := r)).length_le
              rw [List.length_cons] at hafter
              obtain ⟨m, rfl⟩ := Nat.exists_eq_succ_of_ne_zero (by omega : m ≠ 0)
              have hempty : (c :: after).takeWhile (fun c => !ifs c) = [] :=
                List.takeWhile_cons_of_neg (by simp [hc.1])
              have hstay : (c :: after).dropWhile (fun c => !ifs c) = c :: after :=
                List.dropWhile_cons_of_neg (by simp [hc.1])
              have hsep : dropDelimiter ws ifs (c :: after) = after.dropWhile ws := by
                unfold dropDelimiter
                rw [List.dropWhile_cons_of_neg (by simp [hc.2])]
                simp only [hc.1, if_true]
              rw [hnext, fieldsOneByOne_cons m (List.cons_ne_nil c after), hempty, hstay,
                dropPlain_sep hplain hc, hsep, hskipped, List.length_cons]
              have hafter' := (List.dropWhile_sublist ws (l := after)).length_le
              obtain ⟨hle', -⟩ := ih (after.dropWhile ws).length (by omega) _ rfl n m
                (by omega) (by omega) (notAhead_dropWhile ws after)
              refine ⟨by omega, iff_of_false (fun h => ?_) fun h => hother h.1⟩
              have hcount := congrArg List.length h
              rw [List.length_cons] at hcount
              omega

end

end FieldSplitting
