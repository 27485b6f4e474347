import Mathlib.Data.Nat.Notation
import Mathlib.Data.List.Basic
import Mathlib.Data.List.Infix

/-!
# Paths as stacks of components

A path is a text of components between separators.  Without a look at a file system its components
are folded over a stack: empty ones and dots go, and a double dot takes the component before it.
-/

namespace LexicalPath

variable {α : Type*} [DecidableEq α]

section

variable (sep dot : α)

/-- The stack behind one component more; a root has no component above it. -/
def push (rooted : Bool) (stack : List (List α)) (c : List α) : List (List α) :=
  if c = [] ∨ c = [dot] then stack
  else if c = [dot, dot] then
    match stack.getLast? with
    | some top => if top = [dot, dot] then stack ++ [c] else stack.dropLast
    | none => if rooted then [] else [c]
  else stack ++ [c]

def fold (rooted : Bool) (stack : List (List α)) (path : List α) : List (List α) :=
  (path.splitOn sep).foldl (push dot rooted) stack

/-- A component that names something -/
structure Named (c : List α) : Prop where
  nonempty : c ≠ []
  notDot : c ≠ [dot]
  notDotdot : c ≠ [dot, dot]
  whole : sep ∉ c

/-- Double dots at the front only, and none below a root. -/
def Canonical (rooted : Bool) (stack : List (List α)) : Prop :=
  ∃ k names, stack = List.replicate k [dot, dot] ++ names ∧ (rooted = true → k = 0) ∧
    ∀ c ∈ names, Named sep dot c

def join (stack : List (List α)) : List α := [sep].intercalate stack

end

variable {sep dot : α} {rooted : Bool} {stack names : List (List α)} {c e t : List α}

/-! ## The stack -/

theorem push_named (hc : Named sep dot c) : push dot rooted stack c = stack ++ [c] := by
  rw [push, if_neg (not_or.mpr ⟨hc.nonempty, hc.notDot⟩), if_neg hc.notDotdot]

theorem push_dotdot_named (hc : Named sep dot c) :
    push dot rooted (stack ++ [c]) [dot, dot] = stack := by
  have hlast : (stack ++ [c]).getLast? = some c := by simp
  rw [push, if_neg (by simp), if_pos rfl, hlast]
  simp only
  rw [if_neg hc.notDotdot, List.dropLast_concat]

theorem push_dotdot_front (k : ℕ) :
    push dot rooted (List.replicate k [dot, dot]) [dot, dot] =
      if rooted ∧ k = 0 then [] else List.replicate (k + 1) [dot, dot] := by
  rw [push, if_neg (by simp), if_pos rfl]
  cases k with
  | zero => cases rooted <;> simp
  | succ k =>
      have hlast : (List.replicate (k + 1) [dot, dot]).getLast? = some [dot, dot] := by
        simp [List.getLast?_replicate]
      have hroot : ¬ (rooted = true ∧ k + 1 = 0) := fun hand => Nat.succ_ne_zero k hand.2
      rw [hlast, if_neg hroot]
      simp only
      rw [if_pos trivial, ← List.replicate_succ']

theorem Canonical.push (h : Canonical sep dot rooted stack) (hsep : sep ∉ c) :
    Canonical sep dot rooted (push dot rooted stack c) := by
  obtain ⟨k, names, rfl, hroot, hnames⟩ := h
  by_cases hnull : c = [] ∨ c = [dot]
  · rw [LexicalPath.push, if_pos hnull]
    exact ⟨k, names, rfl, hroot, hnames⟩
  · by_cases hdots : c = [dot, dot]
    · subst hdots
      rcases List.eq_nil_or_concat names with rfl | ⟨front, top, rfl⟩
      · rw [List.append_nil, push_dotdot_front]
        split_ifs with hzero
        · exact ⟨0, [], rfl, fun _ => rfl, nofun⟩
        · exact ⟨k + 1, [], (List.append_nil _).symm,
            fun hr => absurd ⟨hr, hroot hr⟩ hzero, nofun⟩
      · rw [List.concat_eq_append] at hnames ⊢
        rw [← List.append_assoc, push_dotdot_named (hnames top (by simp))]
        exact ⟨k, front, rfl, hroot, fun d hd => hnames d (List.mem_append_left _ hd)⟩
    · rw [not_or] at hnull
      have hc : Named sep dot c := ⟨hnull.1, hnull.2, hdots, hsep⟩
      rw [push_named hc, List.append_assoc]
      refine ⟨k, _, rfl, hroot, fun d hd => ?_⟩
      rcases List.mem_append.mp hd with hd | hd
      · exact hnames d hd
      · rwa [List.mem_singleton.mp hd]

theorem Canonical.foldl_push (h : Canonical sep dot rooted stack) {cs : List (List α)}
    (hcs : ∀ c ∈ cs, sep ∉ c) :
    Canonical sep dot rooted (cs.foldl (LexicalPath.push dot rooted) stack) := by
  induction cs generalizing stack with
  | nil => exact h
  | cons c cs ih =>
      exact ih (h.push (hcs c List.mem_cons_self)) fun d hd => hcs d (List.mem_cons_of_mem c hd)

/-- A canonical stack is the fold of its own components. -/
theorem Canonical.foldl_self (h : Canonical sep dot rooted stack) :
    stack.foldl (LexicalPath.push dot rooted) [] = stack := by
  obtain ⟨k, names, rfl, hroot, hnames⟩ := h
  have hfront : (List.replicate k [dot, dot]).foldl (LexicalPath.push dot rooted) [] =
      List.replicate k [dot, dot] := by
    induction k with
    | zero => rfl
    | succ k ih =>
        have hfalse : rooted = false := by
          cases rooted with
          | false => rfl
          | true => cases hroot rfl
        rw [List.replicate_succ', List.foldl_append, ih fun hr => by simp [hfalse] at hr]
        simp only [List.foldl_cons, List.foldl_nil]
        rw [push_dotdot_front, if_neg (by simp [hfalse]), List.replicate_succ']
  rw [List.foldl_append, hfront]
  clear hfront hroot
  generalize List.replicate k [dot, dot] = front
  induction names generalizing front with
  | nil => rw [List.append_nil]; rfl
  | cons c names ih =>
      rw [List.foldl_cons, push_named (hnames c List.mem_cons_self),
        ih (fun d hd => hnames d (List.mem_cons_of_mem c hd)), List.append_assoc,
        List.singleton_append]

omit [DecidableEq α] in
theorem Canonical.sep_notMem (h : Canonical sep dot rooted stack) (hne : sep ≠ dot) :
    ∀ c ∈ stack, sep ∉ c := by
  obtain ⟨k, names, rfl, _, hnames⟩ := h
  intro c hc
  rcases List.mem_append.mp hc with hc | hc
  · rw [List.eq_of_mem_replicate hc]
    simp [hne]
  · exact (hnames c hc).whole

omit [DecidableEq α] in
theorem Canonical.ne_nil (h : Canonical sep dot rooted stack) : ∀ c ∈ stack, c ≠ [] := by
  obtain ⟨k, names, rfl, _, hnames⟩ := h
  intro c hc
  rcases List.mem_append.mp hc with hc | hc
  · rw [List.eq_of_mem_replicate hc]
    exact List.cons_ne_nil _ _
  · exact (hnames c hc).nonempty

/-! ## Texts -/

/-- The rest of a path from a place where a component may end -/
def AtEnd (sep : α) (t : List α) : Prop := ∀ x ∈ t.head?, x = sep

@[simp] theorem fold_nil : fold sep dot rooted stack [] = stack := by
  rw [fold, List.splitOn_eq_singleton List.not_mem_nil]
  simp only [List.foldl_cons, List.foldl_nil]
  rw [push, if_pos (.inl rfl)]

theorem fold_sep : fold sep dot rooted stack (sep :: t) = fold sep dot rooted stack t := by
  have hsplit : (sep :: t).splitOn sep = [] :: t.splitOn sep := by
    simpa using List.splitOn_append_cons_self (a := sep) [] t
  rw [fold, hsplit, List.foldl_cons, push, if_pos (.inl rfl)]
  rfl

/-- The fold takes a component at once. -/
theorem fold_component (he : sep ∉ e) (ht : AtEnd sep t) :
    fold sep dot rooted stack (e ++ t) = fold sep dot rooted (push dot rooted stack e) t := by
  cases t with
  | nil =>
      rw [List.append_nil, fold_nil, fold, List.splitOn_eq_singleton he]
      rfl
  | cons x t =>
      obtain rfl : x = sep := ht x rfl
      rw [fold_sep, fold, List.splitOn_append_cons_self_of_not_mem he, List.foldl_cons]
      rfl

theorem notMem_splitOn : ∀ c ∈ t.splitOn sep, sep ∉ c := by
  induction t with
  | nil => simp
  | cons x t ih =>
      obtain ⟨d, rest, hsplit⟩ := List.exists_cons_of_ne_nil (List.splitOn_ne_nil sep t)
      rw [List.splitOn_cons_eq_if_modifyHead]
      rw [hsplit] at ih ⊢
      intro c hc
      split_ifs at hc with hx
      · rcases List.mem_cons.mp hc with rfl | hc
        · exact List.not_mem_nil
        · exact ih c hc
      · rcases List.mem_cons.mp hc with rfl | hc
        · have hne : sep ≠ x := fun heq => hx (beq_iff_eq.mpr heq.symm)
          exact fun hin => (List.mem_cons.mp hin).elim hne (ih d List.mem_cons_self)
        · exact ih c (List.mem_cons_of_mem d hc)

theorem Canonical.fold (h : Canonical sep dot rooted stack) (t : List α) :
    Canonical sep dot rooted (LexicalPath.fold sep dot rooted stack t) :=
  h.foldl_push notMem_splitOn

theorem fold_join (h : Canonical sep dot rooted stack) (hne : sep ≠ dot) :
    fold sep dot rooted [] (join sep stack) = stack := by
  cases stack with
  | nil => exact fold_nil
  | cons c rest =>
      rw [join, fold, List.splitOn_intercalate _ (h.sep_notMem hne) (List.cons_ne_nil _ _)]
      exact h.foldl_self

omit [DecidableEq α] in
@[simp] theorem join_nil : join sep ([] : List (List α)) = [] := rfl

omit [DecidableEq α] in
theorem join_snoc : join sep (stack ++ [c]) =
    if stack = [] then c else join sep stack ++ sep :: c := by
  induction stack with
  | nil => simp [join]
  | cons d rest ih =>
      rw [if_neg (List.cons_ne_nil _ _), List.cons_append]
      cases rest with
      | nil => simp [join]
      | cons f rest =>
          rw [if_neg (List.cons_ne_nil _ _)] at ih
          rw [join, List.cons_append, List.intercalate_cons_cons, ← List.cons_append, ← join, ih,
            join, join, List.intercalate_cons_cons, ← List.append_assoc]

omit [DecidableEq α] in
theorem join_cons : join sep (c :: stack) =
    if stack = [] then c else c ++ sep :: join sep stack := by
  cases stack with
  | nil => simp [join]
  | cons d rest =>
      rw [if_neg (List.cons_ne_nil _ _), join, List.intercalate_cons_cons, List.append_assoc]
      rfl

omit [DecidableEq α] in
/-- No separator stands in front. -/
theorem Canonical.head_join (h : Canonical sep dot rooted stack) (hne : sep ≠ dot) :
    ∀ x ∈ (join sep stack).head?, x ≠ sep := by
  cases stack with
  | nil => simp
  | cons c rest =>
      have hnonempty : c ≠ [] := h.ne_nil c List.mem_cons_self
      obtain ⟨y, c, rfl⟩ := List.exists_cons_of_ne_nil hnonempty
      have hy : y ≠ sep := by
        rintro rfl
        exact h.sep_notMem hne _ List.mem_cons_self List.mem_cons_self
      have hhead : (join sep ((y :: c) :: rest)).head? = some y := by
        rw [join_cons]
        split_ifs <;> simp
      rintro x hx
      rw [hhead] at hx
      rwa [← Option.some.inj hx]

omit [DecidableEq α] in
theorem Canonical.join_eq_nil (h : Canonical sep dot rooted stack) :
    join sep stack = [] ↔ stack = [] := by
  constructor
  · intro hjoin
    by_contra hne
    obtain ⟨c, rest, rfl⟩ := List.exists_cons_of_ne_nil hne
    rw [join_cons] at hjoin
    have hnonempty : c ≠ [] := h.ne_nil c List.mem_cons_self
    split_ifs at hjoin
    · exact hnonempty hjoin
    · exact hnonempty (List.append_eq_nil_iff.mp hjoin).1
  · rintro rfl
    rfl

omit [DecidableEq α] in
theorem length_join_le (rest : List (List α)) :
    (join sep stack).length ≤ (join sep (stack ++ rest)).length := by
  induction rest generalizing stack with
  | nil => rw [List.append_nil]
  | cons c rest ih =>
      rw [← List.singleton_append, ← List.append_assoc]
      refine le_trans ?_ (@ih (stack ++ [c]))
      rw [join_snoc]
      split_ifs with hnil
      · rw [hnil]
        exact Nat.zero_le _
      · rw [List.length_append]
        exact Nat.le_add_right _ _

omit [DecidableEq α] in
theorem mem_join {x : α} (hx : x ∈ join sep stack) : x = sep ∨ ∃ c ∈ stack, x ∈ c := by
  induction stack with
  | nil => cases hx
  | cons c rest ih =>
      rw [join_cons] at hx
      split_ifs at hx with hnil
      · exact .inr ⟨c, List.mem_cons_self, hx⟩
      · rcases List.mem_append.mp hx with hx | hx
        · exact .inr ⟨c, List.mem_cons_self, hx⟩
        · rcases List.mem_cons.mp hx with hx | hx
          · exact .inl hx
          · obtain hx | ⟨d, hd, hx⟩ := ih hx
            · exact .inl hx
            · exact .inr ⟨d, List.mem_cons_of_mem c hd, hx⟩

end LexicalPath
