import Mathlib.Data.List.Basic
import Mathlib.Data.List.TakeWhile
import Mathlib.Tactic.Common

/-!
# Field splitting

Splitting a text at separators of which some are white space: white space is trimmed at both
ends, a run of it delimits a field, and so does any other separator with the white space next
to it.
-/

namespace FieldSplitting

variable {α β : Type*} (ws ifs : α → Bool)

/-- `rest` does not begin with a character of the kind `p`. -/
def NotAhead (p : α → Bool) (rest : List α) : Prop := ∀ c ∈ rest.head?, p c = false

/-- `d` is one delimiter, taken as far as it goes: `rest` follows it. -/
inductive Delimits (d rest : List α) : Prop
  | blank (hne : d ≠ []) (hws : ∀ c ∈ d, ws c = true) (hrest : NotAhead ifs rest)
  | sep (before after : List α) (c : α) (heq : d = before ++ c :: after)
      (hbefore : ∀ x ∈ before, ws x = true) (hsep : ifs c = true ∧ ws c = false)
      (hafter : ∀ x ∈ after, ws x = true) (hrest : NotAhead ws rest)

/-- The fields of a text that begins with no white space. -/
inductive Fields : List α → List (List α) → Prop
  | nil : Fields [] []
  | last {f : List α} (hne : f ≠ []) (hfield : ∀ c ∈ f, ifs c = false) : Fields f [f]
  | more {f d rest : List α} {fs : List (List α)} (hfield : ∀ c ∈ f, ifs c = false)
      (hdelimits : Delimits ws ifs d rest) (hrest : Fields rest fs) :
      Fields (f ++ d ++ rest) (f :: fs)

def Splits (t : List α) (fs : List (List α)) : Prop :=
  ∃ lead body, t = lead ++ body ∧ (∀ c ∈ lead, ws c = true) ∧ NotAhead ws body ∧
    Fields ws ifs body fs

/-- What follows the delimiter at the head of a text. -/
def dropDelimiter (t : List α) : List α :=
  match t.dropWhile ws with
  | [] => []
  | c :: rest => if ifs c then rest.dropWhile ws else c :: rest

def fields : ℕ → List α → List (List α)
  | 0, _ => []
  | _, [] => []
  | n + 1, t =>
      t.takeWhile (fun c => !ifs c) ::
        fields n (dropDelimiter ws ifs (t.dropWhile fun c => !ifs c))

def split (t : List α) : List (List α) := fields ws ifs t.length (t.dropWhile ws)

variable {ws ifs}

theorem notAhead_nil {p : α → Bool} : NotAhead p ([] : List α) := by
  intro c hc
  cases hc

theorem notAhead_dropWhile (p : α → Bool) (t : List α) : NotAhead p (t.dropWhile p) := by
  intro c hc
  have h := List.head?_dropWhile_not p t
  rw [Option.mem_def.mp hc] at h
  simpa using h

theorem NotAhead.dropWhile_eq {p : α → Bool} {t : List α} (h : NotAhead p t) :
    t.dropWhile p = t := by
  cases t with
  | nil => rfl
  | cons c t => rw [List.dropWhile_cons_of_neg (by rw [h c rfl]; exact Bool.false_ne_true)]

theorem dropWhile_append_all {p : α → Bool} {u : List α} (hu : ∀ c ∈ u, p c = true) (t : List α) :
    (u ++ t).dropWhile p = t.dropWhile p := by
  induction u with
  | nil => rfl
  | cons c u ih =>
      rw [List.cons_append, List.dropWhile_cons_of_pos (hu c List.mem_cons_self)]
      exact ih fun x hx => hu x (List.mem_cons_of_mem _ hx)

theorem takeWhile_append_stop {p : α → Bool} {u t : List α} (hu : ∀ c ∈ u, p c = true)
    (ht : NotAhead p t) : (u ++ t).takeWhile p = u := by
  induction u with
  | nil =>
      cases t with
      | nil => rfl
      | cons c t =>
          rw [List.nil_append, List.takeWhile_cons_of_neg (by rw [ht c rfl]; exact Bool.false_ne_true)]
  | cons c u ih =>
      rw [List.cons_append, List.takeWhile_cons_of_pos (hu c List.mem_cons_self),
        ih fun x hx => hu x (List.mem_cons_of_mem _ hx)]

variable (ws) in
/-- Every text that begins with a separator begins with a delimiter. -/
theorem exists_delimits {c : α} {t : List α} (hc : ifs c = true) : ∃ d,
    c :: t = d ++ dropDelimiter ws ifs (c :: t) ∧
      Delimits ws ifs d (dropDelimiter ws ifs (c :: t)) ∧ d ≠ [] := by
  have hsplit := List.takeWhile_append_dropWhile (p := ws) (l := c :: t)
  have hws : ∀ x ∈ (c :: t).takeWhile ws, ws x = true := fun x hx => List.mem_takeWhile_imp hx
  unfold dropDelimiter
  cases hrest : (c :: t).dropWhile ws with
  | nil =>
      rw [hrest, List.append_nil] at hsplit
      rw [hsplit] at hws
      exact ⟨c :: t, (List.append_nil _).symm, .blank (List.cons_ne_nil _ _) hws notAhead_nil,
        List.cons_ne_nil _ _⟩
  | cons x rest =>
      rw [hrest] at hsplit
      have hx : ws x = false := by
        have hahead := notAhead_dropWhile ws (c :: t)
        rw [hrest] at hahead
        exact hahead x rfl
      by_cases hifs : ifs x = true
      · simp only [hifs, if_true]
        have hrest' := List.takeWhile_append_dropWhile (p := ws) (l := rest)
        refine ⟨(c :: t).takeWhile ws ++ x :: rest.takeWhile ws, ?_, ?_, by simp⟩
        · rw [List.append_assoc, List.cons_append, hrest', hsplit]
        · exact .sep _ _ x rfl hws ⟨hifs, hx⟩ (fun y hy => List.mem_takeWhile_imp hy)
            (notAhead_dropWhile _ _)
      · rw [Bool.not_eq_true] at hifs
        simp only [hifs, Bool.false_eq_true, if_false]
        have hne : (c :: t).takeWhile ws ≠ [] := by
          intro hnil
          rw [hnil, List.nil_append] at hsplit
          rw [(List.cons.inj hsplit).1] at hifs
          rw [hc] at hifs
          cases hifs
        refine ⟨(c :: t).takeWhile ws, hsplit.symm, .blank hne hws ?_, hne⟩
        intro y hy
        obtain rfl := Option.some.inj hy
        exact hifs

section

variable (hle : ∀ c, ws c = true → ifs c = true)

include hle

theorem NotAhead.of_ifs {t : List α} (h : NotAhead ifs t) : NotAhead ws t := by
  intro c hc
  by_contra hbad
  rw [Bool.not_eq_false] at hbad
  exact Bool.false_ne_true ((h c hc).symm.trans (hle c hbad))

theorem Delimits.notAhead {d rest : List α} (h : Delimits ws ifs d rest) : NotAhead ws rest := by
  cases h with
  | blank _ _ hrest => exact hrest.of_ifs hle
  | sep _ _ _ _ _ _ _ hrest => exact hrest

theorem Delimits.drop {d rest : List α} (h : Delimits ws ifs d rest) :
    dropDelimiter ws ifs (d ++ rest) = rest := by
  unfold dropDelimiter
  cases h with
  | blank hne hws hrest =>
      rw [dropWhile_append_all hws, (hrest.of_ifs hle).dropWhile_eq]
      cases rest with
      | nil => rfl
      | cons c rest => simp only [hrest c rfl, Bool.false_eq_true, if_false]
  | sep before after c heq hbefore hsep hafter hrest =>
      rw [heq, List.append_assoc, dropWhile_append_all hbefore, List.cons_append,
        List.dropWhile_cons_of_neg (by rw [hsep.2]; exact Bool.false_ne_true)]
      simp only [hsep.1, if_true]
      rw [dropWhile_append_all hafter, hrest.dropWhile_eq]

/-- A delimiter begins with a separator. -/
theorem Delimits.head {d rest : List α} (h : Delimits ws ifs d rest) :
    ∃ c t, d = c :: t ∧ ifs c = true := by
  cases h with
  | blank hne hws _ =>
      obtain ⟨c, t, rfl⟩ := List.exists_cons_of_ne_nil hne
      exact ⟨c, t, rfl, hle c (hws c List.mem_cons_self)⟩
  | sep before after c heq hbefore hsep _ _ =>
      cases before with
      | nil => exact ⟨c, after, heq, hsep.1⟩
      | cons b before => exact ⟨b, before ++ c :: after, heq, hle b (hbefore b List.mem_cons_self)⟩

variable (ws) in
/-- What follows the delimiter behind a field is shorter, and begins with no white space. -/
theorem dropDelimiter_spec {rest : List α} (hsep : ∀ c ∈ rest.head?, ifs c = true) :
    ∃ d, rest = d ++ dropDelimiter ws ifs rest ∧ NotAhead ws (dropDelimiter ws ifs rest) ∧
      (rest = [] ∨ d ≠ []) := by
  cases rest with
  | nil => exact ⟨[], rfl, notAhead_nil, .inl rfl⟩
  | cons c rest =>
      obtain ⟨d, heq, hdelimits, hd⟩ := exists_delimits ws (t := rest) (hsep c rfl)
      exact ⟨d, heq, hdelimits.notAhead hle, .inr hd⟩

theorem fields_spec (n : ℕ) : ∀ t : List α, t.length ≤ n → NotAhead ws t →
    Fields ws ifs t (fields ws ifs n t) := by
  induction n with
  | zero =>
      intro t ht _
      rw [List.length_eq_zero_iff.mp (Nat.le_zero.mp ht)]
      exact .nil
  | succ n ih =>
      intro t ht hahead
      cases t with
      | nil => exact .nil
      | cons c t =>
          unfold fields
          have hsplit := List.takeWhile_append_dropWhile (p := fun c => !ifs c) (l := c :: t)
          have hfield : ∀ x ∈ (c :: t).takeWhile (fun c => !ifs c), ifs x = false := by
            intro x hx
            simpa using List.mem_takeWhile_imp hx
          cases hrest : (c :: t).dropWhile (fun c => !ifs c) with
          | nil =>
              rw [hrest, List.append_nil] at hsplit
              rw [hsplit] at hfield ⊢
              have hend : fields ws ifs n (dropDelimiter ws ifs []) = [] := by
                cases n <;> rfl
              rw [hend]
              exact .last (List.cons_ne_nil _ _) hfield
          | cons x rest =>
              have hx : ifs x = true := by
                have hnot := notAhead_dropWhile (fun c => !ifs c) (c :: t)
                rw [hrest] at hnot
                simpa using hnot x rfl
              obtain ⟨d, heq, hdelimits, hne⟩ := exists_delimits ws (t := rest) hx
              rw [hrest] at hsplit
              have hlen := congrArg List.length hsplit
              have hdlen := congrArg List.length heq
              have hpos := List.length_pos_iff.mpr hne
              rw [List.length_append] at hlen hdlen
              have hrec := ih (dropDelimiter ws ifs (x :: rest)) (by omega)
                (hdelimits.notAhead hle)
              have hmore := Fields.more hfield hdelimits hrec
              rw [List.append_assoc, ← heq, hsplit] at hmore
              exact hmore

theorem Fields.eq_fields {t : List α} {fs : List (List α)} (h : Fields ws ifs t fs) :
    ∀ n, t.length ≤ n → NotAhead ws t → fields ws ifs n t = fs := by
  induction h with
  | nil => intro n _ _; cases n <;> rfl
  | @last f hne hfield =>
      intro n hn _
      obtain ⟨c, t, rfl⟩ := List.exists_cons_of_ne_nil hne
      obtain ⟨n, rfl⟩ := Nat.exists_eq_succ_of_ne_zero (by rw [List.length_cons] at hn; omega : n ≠ 0)
      have hall : ∀ x ∈ c :: t, (fun c => !ifs c) x = true := by
        intro x hx
        simp [hfield x hx]
      have htake := takeWhile_append_stop hall notAhead_nil
      have hdrop := dropWhile_append_all hall []
      rw [List.append_nil] at htake hdrop
      unfold fields
      rw [htake, hdrop]
      cases n <;> rfl
  | @more f d rest fs hfield hdelimits _ ih =>
      intro n hn _
      obtain ⟨c, t, rfl, hc⟩ := hdelimits.head hle
      have hall : ∀ x ∈ f, (fun c => !ifs c) x = true := by
        intro x hx
        simp [hfield x hx]
      have hstop : NotAhead (fun c => !ifs c) (c :: t ++ rest) := by
        intro x hx
        obtain rfl := Option.some.inj hx
        simp [hc]
      have htake := takeWhile_append_stop hall hstop
      have hdrop := dropWhile_append_all hall (c :: t ++ rest)
      rw [hstop.dropWhile_eq] at hdrop
      rw [← List.append_assoc] at htake hdrop
      simp only [List.length_append, List.length_cons] at hn
      obtain ⟨n, rfl⟩ := Nat.exists_eq_succ_of_ne_zero (by omega : n ≠ 0)
      have hne : f ++ (c :: t) ++ rest ≠ [] := by simp
      have hrest := ih n (by omega) (hdelimits.notAhead hle)
      obtain ⟨x, u, hxu⟩ := List.exists_cons_of_ne_nil hne
      rw [hxu] at htake hdrop ⊢
      unfold fields
      rw [htake, hdrop, hdelimits.drop hle, hrest]

/-- The fields of a text are determined by it. -/
theorem splits_iff {t : List α} {fs : List (List α)} :
    Splits ws ifs t fs ↔ split ws ifs t = fs := by
  have hlen : ∀ t : List α, (t.dropWhile ws).length ≤ t.length := fun t =>
    (List.dropWhile_sublist ws).length_le
  constructor
  · rintro ⟨lead, body, rfl, hlead, hahead, hfields⟩
    unfold split
    rw [dropWhile_append_all hlead, hahead.dropWhile_eq]
    exact hfields.eq_fields hle _ (by rw [List.length_append]; omega) hahead
  · rintro rfl
    refine ⟨t.takeWhile ws, t.dropWhile ws, List.takeWhile_append_dropWhile.symm,
      fun c hc => List.mem_takeWhile_imp hc, notAhead_dropWhile _ _, ?_⟩
    exact fields_spec hle _ _ (hlen t) (notAhead_dropWhile _ _)

end

/-! ## Renaming characters -/

theorem dropDelimiter_map (f : β → α) (t : List β) :
    dropDelimiter ws ifs (t.map f) =
      (dropDelimiter (ws ∘ f) (ifs ∘ f) t).map f := by
  unfold dropDelimiter
  rw [List.dropWhile_map]
  cases t.dropWhile (ws ∘ f) with
  | nil => rfl
  | cons c rest =>
      simp only [List.map_cons, Function.comp_apply]
      split
      · rw [List.dropWhile_map]
      · rfl

theorem fields_map (f : β → α) (n : ℕ) : ∀ t : List β,
    fields ws ifs n (t.map f) = (fields (ws ∘ f) (ifs ∘ f) n t).map (List.map f) := by
  induction n with
  | zero => intro t; rfl
  | succ n ih =>
      intro t
      cases t with
      | nil => rfl
      | cons c t =>
          have htake : ((c :: t).map f).takeWhile (fun c => !ifs c) =
              ((c :: t).takeWhile fun c => !(ifs ∘ f) c).map f := List.takeWhile_map ..
          have hdrop : ((c :: t).map f).dropWhile (fun c => !ifs c) =
              ((c :: t).dropWhile fun c => !(ifs ∘ f) c).map f := List.dropWhile_map ..
          rw [List.map_cons] at htake hdrop ⊢
          unfold fields
          rw [htake, hdrop, dropDelimiter_map, ih]
          rfl

end FieldSplitting
