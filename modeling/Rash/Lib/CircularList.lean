import Mathlib.Data.List.Chain
import Mathlib.Data.List.Nodup
import Mathlib.Data.Nat.Notation
import Mathlib.Logic.Function.Basic
import Mathlib.Tactic.SplitIfs

/-!
# Circular doubly linked lists

A memory of cells that hold the address of the next cell and of the one before, and the rings in
it: the cells of a list, in its order, between a head and itself.
-/

structure LinkedCell (α : Type*) where
  next : ℕ
  prev : ℕ
  data : α

/-- What each address holds. -/
abbrev Cells (α : Type*) := ℕ → LinkedCell α

namespace Cells

variable {α : Type*}

def setNext (m : Cells α) (p q : ℕ) : Cells α := Function.update m p { m p with next := q }

def setPrev (m : Cells α) (p q : ℕ) : Cells α := Function.update m p { m p with prev := q }

def setData (m : Cells α) (p : ℕ) (d : α) : Cells α := Function.update m p { m p with data := d }

variable (m : Cells α) (p q x : ℕ)

@[simp] theorem next_setNext : (m.setNext p q x).next = if x = p then q else (m x).next := by
  unfold setNext
  rw [Function.update_apply]
  split_ifs <;> rfl

@[simp] theorem prev_setNext : (m.setNext p q x).prev = (m x).prev := by
  unfold setNext
  rw [Function.update_apply]
  split_ifs with h
  · rw [h]
  · rfl

@[simp] theorem data_setNext : (m.setNext p q x).data = (m x).data := by
  unfold setNext
  rw [Function.update_apply]
  split_ifs with h
  · rw [h]
  · rfl

@[simp] theorem next_setPrev : (m.setPrev p q x).next = (m x).next := by
  unfold setPrev
  rw [Function.update_apply]
  split_ifs with h
  · rw [h]
  · rfl

@[simp] theorem prev_setPrev : (m.setPrev p q x).prev = if x = p then q else (m x).prev := by
  unfold setPrev
  rw [Function.update_apply]
  split_ifs <;> rfl

@[simp] theorem data_setPrev : (m.setPrev p q x).data = (m x).data := by
  unfold setPrev
  rw [Function.update_apply]
  split_ifs with h
  · rw [h]
  · rfl

@[simp] theorem next_setData (d : α) : (m.setData p d x).next = (m x).next := by
  unfold setData
  rw [Function.update_apply]
  split_ifs with h
  · rw [h]
  · rfl

@[simp] theorem prev_setData (d : α) : (m.setData p d x).prev = (m x).prev := by
  unfold setData
  rw [Function.update_apply]
  split_ifs with h
  · rw [h]
  · rfl

@[simp] theorem data_setData (d : α) :
    (m.setData p d x).data = if x = p then d else (m x).data := by
  unfold setData
  rw [Function.update_apply]
  split_ifs <;> rfl

/-- The second cell follows the first one, read either way. -/
def Linked (m : Cells α) (p q : ℕ) : Prop := (m p).next = q ∧ (m q).prev = p

/-- The cells of the list, in its order, between the head and itself. -/
structure Ring (m : Cells α) (head : ℕ) (l : List ℕ) : Prop where
  nodup : (head :: l).Nodup
  chain : (head :: l ++ [head]).IsChain m.Linked

theorem chain_frame {m m' : Cells α} {l : List ℕ} (h : l.IsChain m.Linked)
    (hnext : ∀ x ∈ l.dropLast, (m' x).next = (m x).next)
    (hprev : ∀ x ∈ l.tail, (m' x).prev = (m x).prev) : l.IsChain m'.Linked := by
  induction h with
  | nil => exact .nil
  | singleton a => exact .singleton a
  | @cons_cons a b l hlink _ ih =>
      refine .cons_cons ⟨?_, ?_⟩ (ih ?_ ?_)
      · rw [hnext a List.mem_cons_self]
        exact hlink.1
      · rw [hprev b List.mem_cons_self]
        exact hlink.2
      · intro x hx
        exact hnext x (List.mem_cons_of_mem _ hx)
      · intro x hx
        exact hprev x (List.mem_cons_of_mem _ hx)

/-- A part of a list that a zero ends. -/
theorem chain_ended {m m' : Cells α} {l : List ℕ} {d : ℕ} (h : l.IsChain m.Linked)
    (hnodup : l.Nodup) (hnext : ∀ x ∈ l, x ≠ l.getLastD d → (m' x).next = (m x).next)
    (hlast : l ≠ [] → (m' (l.getLastD d)).next = 0) :
    (l ++ [0]).IsChain fun p q => (m' p).next = q := by
  induction h with
  | nil => exact .singleton 0
  | singleton x => exact .cons_cons (hlast (List.cons_ne_nil _ _)) (.singleton 0)
  | @cons_cons x y l hlink _ ih =>
      obtain ⟨hnot, hrest⟩ := List.nodup_cons.mp hnodup
      have hne : x ≠ (x :: y :: l).getLastD d := by
        intro hbad
        apply hnot
        rw [hbad, List.getLastD_cons, List.getLastD_cons]
        exact List.getLastD_mem_cons
      rw [List.getLastD_cons, List.getLastD_cons] at hnext hlast
      refine .cons_cons ?_ (ih hrest (fun z hz => ?_) fun _ => ?_)
      · rw [hnext x List.mem_cons_self]
        · exact hlink.1
        · rw [List.getLastD_cons, List.getLastD_cons] at hne
          exact hne
      · rw [List.getLastD_cons]
        exact hnext z (List.mem_cons_of_mem _ hz)
      · rw [List.getLastD_cons]
        exact hlast (List.cons_ne_nil _ _)

namespace Ring

variable {m m' : Cells α} {head p q x new : ℕ} {l l₁ l₂ : List ℕ}

/-- A change that leaves the links of the ring's cells. -/
theorem frame (h : Ring m head l) (hnext : ∀ x ∈ head :: l, (m' x).next = (m x).next)
    (hprev : ∀ x ∈ head :: l, (m' x).prev = (m x).prev) : Ring m' head l := by
  refine ⟨h.nodup, chain_frame h.chain ?_ ?_⟩
  · intro x hx
    rw [List.dropLast_concat] at hx
    exact hnext x hx
  · intro x hx
    apply hprev x
    simp only [List.cons_append, List.tail_cons, List.mem_append, List.mem_singleton] at hx
    exact List.mem_cons.mpr hx.symm

theorem split (h : Ring m head (l₁ ++ l₂)) :
    (head :: l₁).IsChain m.Linked ∧ (l₂ ++ [head]).IsChain m.Linked ∧
      m.Linked (l₁.getLastD head) (l₂.headD head) := by
  have hchain := h.chain
  rw [← List.cons_append, List.append_assoc, List.isChain_append] at hchain
  obtain ⟨hfirst, hsecond, hlink⟩ := hchain
  refine ⟨hfirst, hsecond, hlink _ ?_ _ ?_⟩
  · rw [Option.mem_def, List.getLast?_cons, List.getLastD_eq_getLast?]
  · cases l₂ <;> rfl

theorem next_head (h : Ring m head l) : (m head).next = l.headD head := by
  have h' : Ring m head ([] ++ l) := h
  exact h'.split.2.2.1

theorem prev_head (h : Ring m head l) : (m head).prev = l.getLastD head := by
  have h' : Ring m head (l ++ []) := by
    rw [List.append_nil]
    exact h
  exact h'.split.2.2.2

theorem next_at (h : Ring m head (l₁ ++ x :: l₂)) : (m x).next = l₂.headD head := by
  have h' : Ring m head ((l₁ ++ [x]) ++ l₂) := by
    rw [List.append_assoc]
    exact h
  have hlink := h'.split.2.2.1
  rw [List.getLastD_concat] at hlink
  exact hlink

theorem prev_at (h : Ring m head (l₁ ++ x :: l₂)) : (m x).prev = l₁.getLastD head :=
  h.split.2.2.2

theorem first_frame (hchain : (head :: l₁).IsChain m.Linked) (hnodup : (head :: l₁).Nodup)
    (hnext : ∀ x ∈ head :: l₁, x ≠ l₁.getLastD head → (m' x).next = (m x).next)
    (hprev : ∀ x ∈ l₁, (m' x).prev = (m x).prev) : (head :: l₁).IsChain m'.Linked := by
  refine chain_frame hchain (fun x hx => ?_) hprev
  apply hnext x (List.dropLast_subset _ hx)
  rintro rfl
  have hsplit : (head :: l₁).dropLast ++ [l₁.getLastD head] = head :: l₁ := by
    rw [← List.getLast_eq_getLastD (List.cons_ne_nil _ _)]
    exact List.dropLast_append_getLast _
  rw [← hsplit] at hnodup
  exact (List.nodup_append.mp hnodup).2.2 _ hx _ (List.mem_singleton_self _) rfl

theorem second_frame (hchain : (l₂ ++ [head]).IsChain m.Linked) (hnodup : (l₂ ++ [head]).Nodup)
    (hnext : ∀ x ∈ l₂, (m' x).next = (m x).next)
    (hprev : ∀ x ∈ l₂ ++ [head], x ≠ l₂.headD head → (m' x).prev = (m x).prev) :
    (l₂ ++ [head]).IsChain m'.Linked := by
  refine chain_frame hchain (fun x hx => ?_) (fun x hx => ?_)
  · rw [List.dropLast_concat] at hx
    exact hnext x hx
  · apply hprev x (List.mem_of_mem_tail hx)
    rintro rfl
    cases l₂ with
    | nil => cases hx
    | cons y l₂ => exact (List.nodup_cons.mp hnodup).1 hx

theorem concat_nodup (h : (head :: (l₁ ++ l₂)).Nodup) : (l₂ ++ [head]).Nodup := by
  obtain ⟨hhead, hall⟩ := List.nodup_cons.mp h
  refine List.nodup_append.mpr ⟨(List.nodup_append.mp hall).2.1, List.nodup_singleton head, ?_⟩
  rintro x hx y hy rfl
  obtain rfl := List.mem_singleton.mp hy
  exact hhead (List.mem_append_right _ hx)

/-- Two neighbours, with the cells before them and the cells behind them. -/
theorem join (hnodup : (head :: (l₁ ++ l₂)).Nodup) (hfirst : (head :: l₁).IsChain m.Linked)
    (hsecond : (l₂ ++ [head]).IsChain m.Linked)
    (hlink : m.Linked (l₁.getLastD head) (l₂.headD head)) : Ring m head (l₁ ++ l₂) := by
  refine ⟨hnodup, ?_⟩
  rw [← List.cons_append, List.append_assoc, List.isChain_append]
  refine ⟨hfirst, hsecond, fun p hp q hq => ?_⟩
  rw [Option.mem_def, List.getLast?_cons, ← List.getLastD_eq_getLast?] at hp
  obtain rfl := Option.some_inj.mp hp
  obtain rfl : l₂.headD head = q := by
    cases l₂ <;> exact Option.some_inj.mp hq
  exact hlink

/-- The cells before a place and those behind it, where only the links over the place change. -/
theorem segments (hnodup : (head :: (l₁ ++ l₂)).Nodup) (hfirst : (head :: l₁).IsChain m.Linked)
    (hsecond : (l₂ ++ [head]).IsChain m.Linked)
    (hnext : ∀ x ∈ head :: (l₁ ++ l₂), x ≠ l₁.getLastD head → (m' x).next = (m x).next)
    (hprev : ∀ x ∈ head :: (l₁ ++ l₂), x ≠ l₂.headD head → (m' x).prev = (m x).prev) :
    (head :: l₁).IsChain m'.Linked ∧ (l₂ ++ [head]).IsChain m'.Linked := by
  obtain ⟨hbefore, -, hapart⟩ := List.nodup_append.mp (show (head :: l₁ ++ l₂).Nodup from hnodup)
  have hin₁ : ∀ x ∈ head :: l₁, x ∈ head :: (l₁ ++ l₂) := fun x hx => List.mem_append_left l₂ hx
  have hin₂ : ∀ x ∈ l₂, x ∈ head :: (l₁ ++ l₂) := fun x hx =>
    List.mem_cons_of_mem _ (List.mem_append_right _ hx)
  constructor
  · refine first_frame hfirst hbefore (fun x hx => hnext x (hin₁ x hx)) fun x hx => ?_
    apply hprev x (hin₁ x (List.mem_cons_of_mem _ hx))
    rintro rfl
    cases l₂ with
    | nil => exact (List.nodup_cons.mp hbefore).1 hx
    | cons y l₂ => exact hapart _ (List.mem_cons_of_mem _ hx) _ List.mem_cons_self rfl
  · refine second_frame hsecond (concat_nodup hnodup) (fun x hx => ?_) fun x hx => ?_
    · exact hnext x (hin₂ x hx) fun hbad => hapart _ List.getLastD_mem_cons _ hx hbad.symm
    · rcases List.mem_append.mp hx with hx | hx
      · exact hprev x (hin₂ x hx)
      · obtain rfl := List.mem_singleton.mp hx
        exact hprev x List.mem_cons_self

/-- A new cell between two neighbours. -/
theorem splice (h : Ring m head (l₁ ++ l₂)) (hnew : new ∉ head :: (l₁ ++ l₂))
    (hbefore : m'.Linked (l₁.getLastD head) new) (hbehind : m'.Linked new (l₂.headD head))
    (hnext : ∀ x ∈ head :: (l₁ ++ l₂), x ≠ l₁.getLastD head → (m' x).next = (m x).next)
    (hprev : ∀ x ∈ head :: (l₁ ++ l₂), x ≠ l₂.headD head → (m' x).prev = (m x).prev) :
    Ring m' head (l₁ ++ new :: l₂) := by
  obtain ⟨hfirst, hsecond, -⟩ := h.split
  obtain ⟨hfirst', hsecond'⟩ := segments h.nodup hfirst hsecond hnext hprev
  have hnodup : (head :: (l₁ ++ new :: l₂)).Nodup := by
    rw [← List.cons_append, (List.perm_middle).nodup_iff]
    exact List.nodup_cons.mpr ⟨hnew, h.nodup⟩
  refine join hnodup hfirst' ?_ hbefore
  cases l₂ with
  | nil => exact .cons_cons hbehind hsecond'
  | cons y l₂ => exact .cons_cons hbehind hsecond'

/-- The cell between two others is taken out. -/
theorem unlink (h : Ring m head (l₁ ++ x :: l₂))
    (hlink : m'.Linked (l₁.getLastD head) (l₂.headD head))
    (hnext : ∀ y ∈ head :: (l₁ ++ l₂), y ≠ l₁.getLastD head → (m' y).next = (m y).next)
    (hprev : ∀ y ∈ head :: (l₁ ++ l₂), y ≠ l₂.headD head → (m' y).prev = (m y).prev) :
    Ring m' head (l₁ ++ l₂) := by
  obtain ⟨hfirst, hsecond, -⟩ := h.split
  have hnodup : (head :: (l₁ ++ l₂)).Nodup := by
    have hall := h.nodup
    rw [← List.cons_append, (List.perm_middle).nodup_iff] at hall
    exact (List.nodup_cons.mp hall).2
  obtain ⟨hfirst', hsecond'⟩ :=
    segments hnodup hfirst (List.IsChain.tail hsecond) hnext hprev
  exact join hnodup hfirst' hsecond' hlink

/-- The cells up to a place are taken out. -/
theorem cut (h : Ring m head (l₁ ++ l₂)) (hlink : m'.Linked head (l₂.headD head))
    (hnext : ∀ x ∈ l₂, (m' x).next = (m x).next)
    (hprev : ∀ x ∈ l₂ ++ [head], x ≠ l₂.headD head → (m' x).prev = (m x).prev) :
    Ring m' head l₂ := by
  have hnodup : (head :: ([] ++ l₂)).Nodup := by
    obtain ⟨hhead, hall⟩ := List.nodup_cons.mp h.nodup
    exact List.nodup_cons.mpr
      ⟨fun hbad => hhead (List.mem_append_right _ hbad), (List.nodup_append.mp hall).2.1⟩
  exact join hnodup (.singleton head)
    (second_frame h.split.2.1 (concat_nodup h.nodup) hnext hprev) hlink

end Ring

end Cells
