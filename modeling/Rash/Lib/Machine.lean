import Mathlib.Logic.Basic
import Mathlib.Data.Nat.Notation

/-!
# Machines that take guarded steps

A step function that is partial where an action is not enabled, its paths, and the two
rules used of them: an invariant that every step under a side condition keeps, and the
refinement of one machine with outputs by another.
-/

namespace Machine

variable {S T A O : Type*}

/-- The states reached from `s` by the actions in order, each enabled when it is taken. -/
def runPath (step : S → A → Option S) : S → List A → Option S
  | s, [] => some s
  | s, a :: rest => (step s a).bind fun s' => runPath step s' rest

/-- Every step of the path from `s` meets `cond` in the state before it. -/
def PathMeets (step : S → A → Option S) (cond : S → A → Prop) : S → List A → Prop
  | _, [] => True
  | s, a :: rest => cond s a ∧ ∀ s', step s a = some s' → PathMeets step cond s' rest

theorem runPath_cons {step : S → A → Option S} {s last : S} {a : A} {rest : List A}
    (h : runPath step s (a :: rest) = some last) :
    ∃ s', step s a = some s' ∧ runPath step s' rest = some last :=
  Option.bind_eq_some_iff.mp h

instance PathMeets.decidable {step : S → A → Option S} {cond : S → A → Prop}
    [∀ s a, Decidable (cond s a)] :
    (s : S) → (path : List A) → Decidable (PathMeets step cond s path)
  | _, [] => isTrue trivial
  | s, a :: rest =>
      match h : step s a with
      | none => decidable_of_iff (cond s a) ⟨fun hcond => ⟨hcond, fun s' hs' => by
          cases h.symm.trans hs'⟩, And.left⟩
      | some next =>
          have : Decidable (PathMeets step cond next rest) := PathMeets.decidable next rest
          decidable_of_iff (cond s a ∧ PathMeets step cond next rest)
            ⟨fun hmeets => ⟨hmeets.1, fun s' hs' => by
              cases h.symm.trans hs'
              exact hmeets.2⟩, fun hmeets => ⟨hmeets.1, hmeets.2 next h⟩⟩

/-- The invariant rule for a path whose steps all meet the side condition. -/
theorem path_invariant {step : S → A → Option S} {cond : S → A → Prop} {I : S → Prop}
    (hstep : ∀ s a s', I s → cond s a → step s a = some s' → I s')
    {s last : S} {path : List A} (hs : I s) (hmeets : PathMeets step cond s path)
    (hrun : runPath step s path = some last) : I last := by
  induction path generalizing s with
  | nil =>
      cases hrun
      exact hs
  | cons a rest ih =>
      obtain ⟨s', hs', hrest⟩ := runPath_cons hrun
      exact ih (hstep s a s' hs hmeets.1 hs') (hmeets.2 s' hs') hrest

/-- The invariant rule where no step needs a side condition -/
theorem path_keeps {step : S → A → Option S} {I : S → Prop}
    (hstep : ∀ s a s', I s → step s a = some s' → I s')
    {s last : S} {path : List A} (hs : I s) (hrun : runPath step s path = some last) : I last := by
  induction path generalizing s with
  | nil =>
      cases hrun
      exact hs
  | cons a rest ih =>
      obtain ⟨s', hs', hrest⟩ := runPath_cons hrun
      exact ih (hstep s a s' hs hs') hrest

/-- A measure that every step makes smaller bounds the length of the paths. -/
theorem path_length_le {step : S → A → Option S} {I : S → Prop} {measure : S → ℕ}
    (hstep : ∀ s a s', I s → step s a = some s' → I s' ∧ measure s' < measure s)
    {s last : S} {path : List A} (hs : I s) (hrun : runPath step s path = some last) :
    path.length + measure last ≤ measure s := by
  induction path generalizing s with
  | nil =>
      cases hrun
      exact Nat.le_of_eq (Nat.zero_add _)
  | cons a rest ih =>
      obtain ⟨s', hs', hrest⟩ := runPath_cons hrun
      obtain ⟨hinv, hless⟩ := hstep s a s' hs hs'
      have hbound := ih hinv hrest
      rw [List.length_cons]
      omega

/-- The runs of a relation whose steps are labelled -/
inductive Labelled {L : Type*} (step : T → L → T → Prop) : T → List L → T → Prop
  | nil (t : T) : Labelled step t [] t
  | cons {t t' last : T} {l : L} {rest : List L} (hstep : step t l t')
      (hrest : Labelled step t' rest last) : Labelled step t (l :: rest) last

/-- Forward simulation of a path by a labelled relation, where the invariant holds and the steps
meet the condition. -/
theorem labelled_of_path {B : Type*} {step : S → A → Option S} {cond : S → A → Prop} {I : S → Prop}
    {spec : T → B × O → T → Prop} (abs : S → T) (name : A → B) (out : S → O)
    (hstep : ∀ s a s', I s → cond s a → step s a = some s' →
      I s' ∧ spec (abs s) (name a, out s') (abs s'))
    {s last : S} {path : List A} (hs : I s) (hmeets : PathMeets step cond s path)
    (hrun : runPath step s path = some last) :
    ∃ labels, labels.map Prod.fst = path.map name ∧ Labelled spec (abs s) labels (abs last) := by
  induction path generalizing s with
  | nil =>
      cases hrun
      exact ⟨[], rfl, .nil _⟩
  | cons a rest ih =>
      obtain ⟨s', hs', hrest⟩ := runPath_cons hrun
      obtain ⟨hinv, hspec⟩ := hstep s a s' hs hmeets.1 hs'
      obtain ⟨labels, hnames, hlabelled⟩ := ih hinv (hmeets.2 s' hs') hrest
      exact ⟨(name a, out s') :: labels, by rw [List.map_cons, hnames, List.map_cons],
        .cons hspec hlabelled⟩

/-- The outputs of a machine with outputs, in order, and the state it ends in. -/
def outputs (step : S → A → O × S) : S → List A → List O × S
  | s, [] => ([], s)
  | s, a :: rest =>
      let next := step s a
      let later := outputs step next.2 rest
      (next.1 :: later.1, later.2)

/-- Forward simulation: if one step from related states gives equal outputs and related
states, for every enabled action whose output is good, so does every run of such actions. -/
theorem outputs_refines {step : S → A → O × S} {spec : T → A → O × T} {Rel : S → T → Prop}
    {enabled : A → Prop} {good : O → Prop}
    (hstep : ∀ s t a, enabled a → Rel s t → good (step s a).1 →
      (step s a).1 = (spec t a).1 ∧ Rel (step s a).2 (spec t a).2)
    {actions : List A} (hen : ∀ a ∈ actions, enabled a) {s : S} {t : T} (hst : Rel s t)
    (hgood : ∀ o ∈ (outputs step s actions).1, good o) :
    (outputs step s actions).1 = (outputs spec t actions).1 ∧
      Rel (outputs step s actions).2 (outputs spec t actions).2 := by
  induction actions generalizing s t with
  | nil => exact ⟨rfl, hst⟩
  | cons a rest ih =>
      obtain ⟨hout, hrel⟩ :=
        hstep s t a (hen a List.mem_cons_self) hst (hgood _ List.mem_cons_self)
      obtain ⟨houts, hlast⟩ := ih (fun b hb => hen b (List.mem_cons_of_mem _ hb)) hrel
        fun o ho => hgood o (List.mem_cons_of_mem _ ho)
      exact ⟨by simp only [outputs, hout, houts], hlast⟩

end Machine
