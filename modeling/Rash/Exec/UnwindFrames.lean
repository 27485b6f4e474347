import Rash.Exec.UnwindProtect

/-!
# What a frame gives back

A program is nested when each frame that it begins is run or discarded in it.  All that such a
program leaves on the list are the registrations of its own; running the frame around it takes them
off again, the last one first.
-/

namespace Rash

open Regions ByteMemory

namespace UnwindProtect

variable {τ κ : Type}

/-- What a program has put on the list outside the frames it has ended. -/
inductive Registration (κ : Type)
  | protect (var : Region)
  | cleanup (f : κ)

inductive Nested : List (Op τ κ) → List (Registration κ) → Prop
  | nil : Nested [] []
  | assign {ops regs} (address : ℕ) (bytes : List UInt8) (h : Nested ops regs) :
      Nested (.assign address bytes :: ops) regs
  | protect {ops regs} (var size : ℕ) (h : Nested ops regs) :
      Nested (.unwindProtectMem var size :: ops) (.protect ⟨var, size⟩ :: regs)
  | cleanup {ops regs} (f : κ) (h : Nested ops regs) :
      Nested (.addUnwindProtect f :: ops) (.cleanup f :: regs)
  | run {body own ops regs} (tag : τ) (hbody : Nested body own) (h : Nested ops regs) :
      Nested (.beginUnwindFrame tag :: (body ++ .runUnwindFrame tag :: ops)) regs
  | discard {body own ops regs} (tag : τ) (hbody : Nested body own) (h : Nested ops regs) :
      Nested (.beginUnwindFrame tag :: (body ++ .discardUnwindFrame tag :: ops)) regs

/-- A cleanup function leaves the list as it has found it. -/
def Balanced (call : κ → State τ κ → State τ κ) : Prop :=
  ∀ f s, (call f s).unwindProtectList = s.unwindProtectList

/-- A registration that does not touch the variable when it is undone. -/
def Registration.Spares (call : κ → State τ κ → State τ κ) (var : Region) :
    Registration κ → Prop
  | .protect r => Apart var r
  | .cleanup f => ∀ s, Kept s.memory (call f s).memory var

def Registration.function : Registration κ → Option κ
  | .protect _ => none
  | .cleanup f => some f

def Elt.registration : Elt τ κ → Option (Registration κ)
  | .frame _ => none
  | .saved var desiredSetting => some (.protect ⟨var, desiredSetting.length⟩)
  | .cleanup f => some (.cleanup f)

/-- The elements of the list for some registrations, the last one on top -/
def Listed (elts : List (Elt τ κ)) (regs : List (Registration κ)) : Prop :=
  elts.map Elt.registration = regs.reverse.map some

variable {call : κ → State τ κ → State τ κ} {s s' : State τ κ} {elts elts' rest : List (Elt τ κ)}
  {regs regs' : List (Registration κ)} {ops ops' body : List (Op τ κ)} {tag : τ} {n : ℕ}

/-! ## Taking elements off -/

section

variable (call)

/-- One element undone, after it has been taken off -/
def undoElt : Elt τ κ → State τ κ → State τ κ
  | .frame _, s => s
  | .saved var desiredSetting, s => restoreVariable var desiredSetting s
  | .cleanup f, s => call f s

def undoElts : List (Elt τ κ) → State τ κ → State τ κ
  | [], s => s
  | elt :: elts, s => undoElts elts (undoElt call elt (s.withList s.unwindProtectList.tail))

end

theorem undoElts_append (elts elts' : List (Elt τ κ)) (s : State τ κ) :
    undoElts call (elts ++ elts') s = undoElts call elts' (undoElts call elts s) := by
  induction elts generalizing s with
  | nil => rfl
  | cons elt elts ih => exact ih _

theorem undoElt_list (hcall : Balanced call) (elt : Elt τ κ) (s : State τ κ) :
    (undoElt call elt s).unwindProtectList = s.unwindProtectList := by
  cases elt with
  | frame tag => rfl
  | saved var desiredSetting => rfl
  | cleanup f => exact hcall f s

theorem undoElts_list (hcall : Balanced call) (hlist : s.unwindProtectList = elts ++ rest) :
    (undoElts call elts s).unwindProtectList = rest := by
  induction elts generalizing s with
  | nil => exact hlist
  | cons elt elts ih =>
      refine ih ?_
      rw [undoElt_list hcall, State.withList, hlist]
      rfl

def functions (regs : List (Registration κ)) : List κ := regs.filterMap Registration.function

namespace Listed

theorem nil : Listed ([] : List (Elt τ κ)) [] := rfl

theorem exists_registration (h : Listed elts regs) {elt : Elt τ κ} (helt : elt ∈ elts) :
    ∃ reg ∈ regs, elt.registration = some reg := by
  have hmem : elt.registration ∈ regs.reverse.map some := by
    rw [← h]
    exact List.mem_map_of_mem helt
  obtain ⟨reg, hreg, heq⟩ := List.mem_map.mp hmem
  exact ⟨reg, List.mem_reverse.mp hreg, heq.symm⟩

/-- A registration in front of the others stands below them. -/
theorem cons {elt : Elt τ κ} {reg : Registration κ} (h : Listed elts regs)
    (helt : elt.registration = some reg) : Listed (elts ++ [elt]) (reg :: regs) := by
  rw [Listed, List.map_append, h, List.reverse_cons, List.map_append, List.map_singleton, helt]
  rfl

theorem append (h : Listed elts regs) (h' : Listed elts' regs') :
    Listed (elts' ++ elts) (regs ++ regs') := by
  rw [Listed, List.map_append, h, h', List.reverse_append, List.map_append]

theorem length_eq (h : Listed elts regs) : elts.length = regs.length := by
  have hlength := congrArg List.length h
  rwa [List.length_map, List.length_map, List.length_reverse] at hlength

end Listed

theorem undoElt_kept {r : Region} {elt : Elt τ κ} {reg : Registration κ}
    (helt : elt.registration = some reg) (hspares : reg.Spares call r) (s : State τ κ) :
    Kept s.memory (undoElt call elt s).memory r := by
  cases elt with
  | frame tag => exact Kept.refl _ _
  | saved var desiredSetting =>
      obtain rfl := Option.some.inj helt
      refine (changedIn_write s.memory var desiredSetting).kept fun r' hr' => ?_
      rw [List.mem_singleton.mp hr']
      exact hspares
  | cleanup f =>
      obtain rfl := Option.some.inj helt
      exact hspares s

theorem undoElts_kept {r : Region} (hspares : ∀ elt ∈ elts, ∃ reg : Registration κ,
    elt.registration = some reg ∧ reg.Spares call r) (s : State τ κ) :
    Kept s.memory (undoElts call elts s).memory r := by
  induction elts generalizing s with
  | nil => exact Kept.refl _ _
  | cons elt elts ih =>
      obtain ⟨reg, helt, hreg⟩ := hspares elt List.mem_cons_self
      have hone := @undoElt_kept _ _ call _ _ _ helt hreg (s.withList s.unwindProtectList.tail)
      exact hone.trans (ih (fun e he => hspares e (List.mem_cons_of_mem elt he)) _)

/-! ## The loop -/

variable [DecidableEq τ]

/-- The loop undoes what is registered, one element a turn, and goes on below. -/
theorem run_elts (hcall : Balanced call) (tag : Option τ) (n : ℕ)
    (helts : ∀ elt ∈ elts, elt.registration ≠ none) (hlist : s.unwindProtectList = elts ++ rest) :
    unwindFrameRunInternal call tag (n + elts.length) s =
      (unwindFrameRunInternal call tag n (undoElts call elts s)).map fun u =>
        { u with called := functions (elts.filterMap Elt.registration) ++ u.called } := by
  induction elts generalizing s with
  | nil =>
      rw [undoElts, List.filterMap_nil, List.length_nil, Nat.add_zero]
      cases unwindFrameRunInternal call tag n s <;> rfl
  | cons elt elts ih =>
      have hrest := fun e he => helts e (List.mem_cons_of_mem elt he)
      rw [List.length_cons, ← Nat.add_assoc, unwindFrameRunInternal, hlist, List.cons_append,
        undoElts, hlist, List.cons_append, List.tail_cons]
      cases elt with
      | frame tag => exact absurd rfl (helts _ List.mem_cons_self)
      | saved var desiredSetting => exact ih hrest rfl
      | cleanup f =>
          simp only
          rw [ih hrest (hcall f _), Option.map_map]
          rfl

theorem run_frame (hcall : Balanced call) (hn : elts.length < n) (hlisted : Listed elts regs)
    (hlist : s.unwindProtectList = elts ++ .frame tag :: rest) :
    runUnwindFrame call n tag s =
      some ⟨(undoElts call elts s).withList rest, functions regs.reverse, true⟩ := by
  have helts : ∀ elt ∈ elts, elt.registration ≠ none := by
    intro elt helt
    obtain ⟨reg, _, hreg⟩ := hlisted.exists_registration helt
    rw [hreg]
    exact Option.some_ne_none reg
  have hregs : elts.filterMap Elt.registration = regs.reverse := by
    have hmap : elts.filterMap Elt.registration = (elts.map Elt.registration).filterMap id := by
      rw [List.filterMap_map]
      rfl
    rw [hmap, hlisted, List.filterMap_map]
    exact List.filterMap_some
  obtain ⟨m, rfl⟩ : ∃ m, n = m + 1 + elts.length := ⟨n - 1 - elts.length, by omega⟩
  have hsome : s.unwindProtectList.isEmpty = false := by
    rw [hlist]
    cases elts <;> rfl
  rw [runUnwindFrame, hsome, run_elts hcall (some tag) (m + 1) helts hlist, hregs,
    unwindFrameRunInternal, undoElts_list hcall hlist]
  simp

theorem discard_frame (hlisted : Listed elts regs)
    (hlist : s.unwindProtectList = elts ++ .frame tag :: rest) :
    discardUnwindFrame tag s = s.withList rest := by
  have hdiscard : unwindFrameDiscardInternal tag (elts ++ .frame tag :: rest) = (rest, true) := by
    have helts := fun elt (helt : elt ∈ elts) => hlisted.exists_registration helt
    clear hlisted hlist
    induction elts with
    | nil => exact if_pos rfl
    | cons elt elts ih =>
        obtain ⟨reg, _, hreg⟩ := helts elt List.mem_cons_self
        have hrest := ih fun e he => helts e (List.mem_cons_of_mem elt he)
        cases elt with
        | frame tag => cases hreg
        | saved var desiredSetting => exact hrest
        | cleanup f => exact hrest
  rw [discardUnwindFrame, hlist, hdiscard]

/-! ## Nested programs -/

theorem execute_append (ops ops' : List (Op τ κ)) (s : State τ κ) :
    execute call n (ops ++ ops') s = (execute call n ops s).bind (execute call n ops') := by
  induction ops generalizing s with
  | nil => rfl
  | cons op ops ih =>
      rw [List.cons_append, execute, execute]
      cases perform call n op s with
      | none => rfl
      | some s' => exact ih s'

omit [DecidableEq τ] in
theorem Nested.length_le (h : Nested ops regs) : regs.length ≤ ops.length := by
  induction h with
  | nil => exact Nat.le_refl _
  | assign address bytes h ih => exact ih.trans (Nat.le_succ _)
  | protect var size h ih => exact Nat.succ_le_succ ih
  | cleanup f h ih => exact Nat.succ_le_succ ih
  | run tag hbody h _ ih | discard tag hbody h _ ih =>
      rw [List.length_cons, List.length_append, List.length_cons]
      omega

/-- A nested program leaves its registrations above what was on the list. -/
theorem Nested.execute (hcall : Balanced call) (h : Nested ops regs) (s : State τ κ)
    (hn : ops.length < n) : ∃ s' elts, UnwindProtect.execute call n ops s = some s' ∧
      s'.unwindProtectList = elts ++ s.unwindProtectList ∧ Listed elts regs := by
  induction h generalizing s with
  | nil => exact ⟨s, [], rfl, rfl, Listed.nil⟩
  | assign address bytes h ih => exact ih (s.assign address bytes) (Nat.lt_of_succ_lt hn)
  | protect var size h ih =>
      obtain ⟨s', elts, hexecute, hlist, hlisted⟩ :=
        ih (unwindProtectMem var size s) (Nat.lt_of_succ_lt hn)
      refine ⟨s', _, hexecute, hlist.trans (List.append_cons _ _ _), hlisted.cons ?_⟩
      rw [Elt.registration, length_bytesAt]
  | cleanup f h ih =>
      obtain ⟨s', elts, hexecute, hlist, hlisted⟩ :=
        ih (addUnwindProtect f s) (Nat.lt_of_succ_lt hn)
      exact ⟨s', _, hexecute, hlist.trans (List.append_cons _ _ _), hlisted.cons rfl⟩
  | run tag hbody h ihbody ih =>
      rw [List.length_cons, List.length_append, List.length_cons] at hn
      obtain ⟨s₁, elts₁, hexecute₁, hlist₁, hlisted₁⟩ := ihbody (beginUnwindFrame tag s) (by omega)
      have hrun := run_frame (n := n) hcall (by
        rw [hlisted₁.length_eq]
        exact hbody.length_le.trans_lt (by omega)) hlisted₁ hlist₁
      obtain ⟨s₂, elts₂, hexecute₂, hlist₂, hlisted₂⟩ := ih
        ((undoElts call elts₁ s₁).withList s.unwindProtectList) (by omega)
      refine ⟨s₂, elts₂, ?_, hlist₂, hlisted₂⟩
      change UnwindProtect.execute call n (_ ++ _) (beginUnwindFrame tag s) = _
      rw [execute_append, hexecute₁, Option.bind_some, UnwindProtect.execute, perform, hrun]
      exact hexecute₂
  | discard tag hbody h ihbody ih =>
      rw [List.length_cons, List.length_append, List.length_cons] at hn
      obtain ⟨s₁, elts₁, hexecute₁, hlist₁, hlisted₁⟩ := ihbody (beginUnwindFrame tag s) (by omega)
      obtain ⟨s₂, elts₂, hexecute₂, hlist₂, hlisted₂⟩ := ih
        (s₁.withList s.unwindProtectList) (by omega)
      refine ⟨s₂, elts₂, ?_, hlist₂, hlisted₂⟩
      change UnwindProtect.execute call n (_ ++ _) (beginUnwindFrame tag s) = _
      rw [execute_append, hexecute₁, Option.bind_some, UnwindProtect.execute, perform,
        discard_frame hlisted₁ hlist₁]
      exact hexecute₂

/-- A program that registers nothing of its own is a cleanup function that leaves the list alone. -/
theorem Nested.balanced (hcall : Balanced call) {programs : κ → List (Op τ κ)}
    (h : ∀ f, Nested (programs f) []) :
    Balanced fun f s =>
      (UnwindProtect.execute call ((programs f).length + 1) (programs f) s).getD s := by
  intro f s
  obtain ⟨s', elts, hexecute, hlist, hlisted⟩ := (h f).execute hcall s (Nat.lt_succ_self _)
  have hnil : elts = [] := List.length_eq_zero_iff.mp hlisted.length_eq
  simp only
  rw [hexecute, Option.getD_some, hlist, hnil, List.nil_append]

/-- Running a frame around a nested program calls its cleanup functions, the last one first and each
once, and leaves the list as it was; a variable gets back the bytes it had when it was first
protected there, unless an earlier cleanup function of the frame writes it. -/
theorem runUnwindFrame_restores (hcall : Balanced call) (tag : τ) (hbody : Nested body regs)
    (s : State τ κ) (n : ℕ) (hn : body.length + 1 < n) :
    ∃ s' u, execute call n (.beginUnwindFrame tag :: body) s = some s' ∧
      runUnwindFrame call n tag s' = some u ∧ u.found = true ∧
      u.state.unwindProtectList = s.unwindProtectList ∧ u.called = (functions regs).reverse ∧
      ∀ before after var size beforeRegs afterRegs,
        body = before ++ .unwindProtectMem var size :: after → Nested before beforeRegs →
        Nested after afterRegs → (∀ reg ∈ beforeRegs, reg.Spares call ⟨var, size⟩) →
        ∃ s'', execute call n (.beginUnwindFrame tag :: before) s = some s'' ∧
          Kept s''.memory u.state.memory ⟨var, size⟩ := by
  obtain ⟨s', elts, hexecute, hlist, hlisted⟩ :=
    hbody.execute hcall (beginUnwindFrame tag s) (Nat.lt_of_succ_lt hn)
  have helts : elts.length < n := by
    rw [hlisted.length_eq]
    exact hbody.length_le.trans_lt (Nat.lt_of_succ_lt hn)
  refine ⟨s', _, hexecute, run_frame hcall helts hlisted hlist, rfl, rfl, ?_, ?_⟩
  · exact List.filterMap_reverse
  intro before after var size beforeRegs afterRegs hsplit hbefore hafter hspares
  have hlength := congrArg List.length hsplit
  rw [List.length_append, List.length_cons] at hlength
  obtain ⟨s₁, elts₁, hexecute₁, hlist₁, hlisted₁⟩ :=
    hbefore.execute hcall (beginUnwindFrame tag s) (n := n) (by omega)
  obtain ⟨s₂, elts₂, hexecute₂, hlist₂, hlisted₂⟩ :=
    hafter.execute hcall (unwindProtectMem var size s₁) (n := n) (by omega)
  -- the elements of the whole program are those of its parts
  have hsame : s₂ = s' := by
    rw [hsplit, execute_append, hexecute₁, Option.bind_some] at hexecute
    exact Option.some.inj (hexecute₂.symm.trans hexecute)
  have hparts : elts = elts₂ ++ .saved var (bytesAt s₁.memory var size) :: elts₁ := by
    rw [hsame, hlist] at hlist₂
    change elts ++ _ = elts₂ ++ .saved var _ :: s₁.unwindProtectList at hlist₂
    rw [hlist₁, ← List.cons_append, ← List.append_assoc] at hlist₂
    exact List.append_cancel_right hlist₂
  refine ⟨s₁, hexecute₁, ?_⟩
  rw [hparts, undoElts_append]
  have hrestored : ∀ t : State τ κ, Kept s₁.memory
      (restoreVariable var (bytesAt s₁.memory var size) t).memory ⟨var, size⟩ :=
    fun t => kept_write_bytesAt s₁.memory t.memory var size
  refine (hrestored _).trans (undoElts_kept (fun elt helt => ?_) _)
  obtain ⟨reg, hreg, heq⟩ := hlisted₁.exists_registration helt
  exact ⟨reg, heq, hspares reg hreg⟩

/-- A frame with a cleanup function that begins and runs a frame of the same tag -/
def reentrant : Unit → List (Op ℕ Unit) := fun _ =>
  [.beginUnwindFrame 0, .unwindProtectMem 8 1, .assign 8 [7], .runUnwindFrame 0]

theorem reentrant_nested (f : Unit) : Nested (reentrant f) [] :=
  .run 0 (.protect 8 1 (.assign 8 [7] .nil)) .nil

def runReentrant (f : Unit) (s : State ℕ Unit) : State ℕ Unit :=
  (execute (fun _ s => s) ((reentrant f).length + 1) (reentrant f) s).getD s

theorem runUnwindFrame_restores_reentrant :
    ∃ s' u, execute runReentrant 9 [.beginUnwindFrame 0, .unwindProtectMem 0 1,
        .addUnwindProtect (), .assign 0 [2], .unwindProtectMem 0 1, .assign 0 [3]]
        (⟨fun _ => 1, []⟩ : State ℕ Unit) = some s' ∧
      runUnwindFrame runReentrant 9 0 s' = some u ∧ u.called = [()] ∧
      u.state.unwindProtectList = [] ∧ u.state.memory 0 = 1 := by
  have hafter : Nested (τ := ℕ) [.addUnwindProtect (), .assign 0 [2], .unwindProtectMem 0 1,
      .assign 0 [3]] [.cleanup (), .protect ⟨0, 1⟩] :=
    .cleanup () (.assign 0 [2] (.protect 0 1 (.assign 0 [3] .nil)))
  obtain ⟨s', u, hexecute, hrun, _, hlist, hcalled, hvalues⟩ := runUnwindFrame_restores
    (Nested.balanced (fun _ _ => rfl) reentrant_nested) 0 (.protect 0 1 hafter) ⟨fun _ => 1, []⟩ 9
    (by decide)
  obtain ⟨s'', hbegin, hkept⟩ := hvalues [] _ 0 1 [] _ rfl .nil hafter nofun
  refine ⟨s', u, hexecute, hrun, hcalled, hlist, ?_⟩
  rw [hkept 0 ⟨Nat.le_refl _, Nat.one_pos⟩, ← Option.some.inj hbegin]
  rfl

/-- A variable whose frame has been discarded keeps what was assigned to it, and so does one that an
earlier cleanup function of the frame assigns. -/
theorem runUnwindFrame_not_restores :
    ((execute (fun (_ : Unit) s => s) 9 [.beginUnwindFrame 0, .beginUnwindFrame 1,
        .unwindProtectMem 0 1, .assign 0 [2], .discardUnwindFrame 1, .runUnwindFrame 0]
        (⟨fun _ => 1, []⟩ : State ℕ Unit)).map fun s => s.memory 0) = some 2 ∧
      ((execute (fun (_ : Unit) s => s.assign 0 [5]) 9 [.beginUnwindFrame 0,
        .addUnwindProtect (), .unwindProtectMem 0 1, .assign 0 [2], .runUnwindFrame 0]
        (⟨fun _ => 1, []⟩ : State ℕ Unit)).map fun s => s.memory 0) = some 5 := by
  decide

end UnwindProtect

end Rash
