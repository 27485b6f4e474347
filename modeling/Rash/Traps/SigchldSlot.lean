import Mathlib

/-!
# The trap slot of `SIGCHLD`

`trap_list[SIGCHLD]` and the bits of `sigmodes[SIGCHLD]`, and the functions of trap.c that
change them.  Each function is the list of stores that it makes, in order, since children are
reaped between any two of them.
-/

namespace Rash

/-- An entry of `trap_list`. -/
inductive TrapSlot
  | defaultSig
  | ignoreSig
  /-- `IMPOSSIBLE_TRAP_HANDLER` -/
  | impossible
  | command (c : String)
  deriving DecidableEq

/-- The slot with `SIG_TRAPPED`, `SIG_IGNORED`, `SIG_INPROGRESS`, `SIG_CHANGED` and
`SIG_HARD_IGNORE`.  `SIG_NO_TRAP` is set for `SIGCHLD` and no handler is installed for it. -/
structure Disposition where
  slot : TrapSlot
  trapped : Bool
  ignored : Bool
  inProgress : Bool
  changed : Bool
  hardIgnore : Bool
  deriving DecidableEq

/-- A store to the slot or to its bits. -/
inductive SlotStore
  | put (value : TrapSlot)
  /-- What `change_signal` does to the bits behind its store. -/
  | mark
  /-- `&= ~SIG_TRAPPED` -/
  | untrap
  /-- `|= SIG_TRAPPED` -/
  | trap
  deriving DecidableEq

namespace Disposition

def store (d : Disposition) : SlotStore → Disposition
  | .put value => { d with slot := value }
  | .mark => { d with
      trapped := true
      ignored := decide (d.slot = .ignoreSig)
      changed := d.changed || d.inProgress }
  | .untrap => { d with trapped := false }
  | .trap => { d with trapped := true }

def stores (d : Disposition) (list : List SlotStore) : Disposition := list.foldl store d

@[simp] theorem stores_nil (d : Disposition) : d.stores [] = d := rfl

@[simp] theorem stores_cons (d : Disposition) (t : SlotStore) (list : List SlotStore) :
    d.stores (t :: list) = (d.store t).stores list := rfl

theorem stores_append (d : Disposition) (xs ys : List SlotStore) :
    d.stores (xs ++ ys) = (d.stores xs).stores ys := List.foldl_append

end Disposition

/-- `change_signal`. -/
def changeSignal (value : TrapSlot) : List SlotStore := [.put value, .mark]

/-- `set_signal`. -/
def setSignal (d : Disposition) (c : String) : List SlotStore :=
  if d.hardIgnore then [] else changeSignal (.command c)

/-- `restore_default_signal`. -/
def restoreDefaultSignal (d : Disposition) : List SlotStore :=
  if d.hardIgnore then []
  else if d.trapped = false ∧ (d.inProgress = false ∨ d.slot ≠ .impossible) then []
  else changeSignal .defaultSig ++ [.untrap]

/-- `ignore_signal`. -/
def ignoreSignal (d : Disposition) : List SlotStore :=
  if d.hardIgnore then []
  else if d.ignored then [.trap]
  else changeSignal .ignoreSig

/-- `set_impossible_sigchld_trap`. -/
def setImpossibleSigchldTrap (d : Disposition) : List SlotStore :=
  restoreDefaultSignal d ++ (changeSignal .impossible ++ [.untrap])

/-- `uw_maybe_set_sigchld_trap`. -/
def uwMaybeSetSigchldTrap (d : Disposition) (c : String) : List SlotStore :=
  if d.trapped = false ∧ d.slot = .impossible then setSignal d c else []

/-- What the `trap` builtin is asked to do with `SIGCHLD`. -/
inductive TrapOp
  /-- `trap cmd CHLD` -/
  | set (c : String)
  /-- `trap '' CHLD` -/
  | ignore
  /-- `trap - CHLD` -/
  | revert
  deriving DecidableEq

/-- The operation of `trap_builtin`. -/
def TrapOp.stores (d : Disposition) : TrapOp → List SlotStore
  | .set c => setSignal d c
  | .ignore => ignoreSignal d
  | .revert => restoreDefaultSignal d

/-! ## A trap that changes itself -/

/-- The two places from which `run_sigchld_trap` is called for the first firing. -/
inductive DispatchPath
  /-- `waitchld`, for the `wait` builtin -/
  | waitchld
  | runPendingTraps
  deriving DecidableEq

namespace Disposition

def trapBuiltin (d : Disposition) (op : TrapOp) : Disposition := d.stores (op.stores d)

/-- `run_sigchld_trap`, with the operations of all the firings in order, up to where they
return or are unwound; nothing where `savestring` gets no string. -/
def runSigchldTrap (d : Disposition) (ops : List TrapOp) : Option Disposition :=
  match d.slot with
  | .command c =>
      let body := ops.foldl trapBuiltin (d.stores (setImpossibleSigchldTrap d))
      some (body.stores (uwMaybeSetSigchldTrap body c))
  | _ => none

/-- The call with the flag that only `run_pending_traps` sets around it; a trap that is
unwound may leave it set. -/
def dispatchSigchld (d : Disposition) (path : DispatchPath) (returns : Bool)
    (ops : List TrapOp) : Option Disposition :=
  match path with
  | .waitchld => d.runSigchldTrap ops
  | .runPendingTraps =>
      let inside : Disposition := { d with inProgress := true }
      (inside.runSigchldTrap ops).map fun ran : Disposition =>
        if returns then { ran with inProgress := false } else ran

/-- The user's trap, and nothing in progress. -/
structure UserTrap (d : Disposition) (c : String) : Prop where
  slot : d.slot = .command c
  trapped : d.trapped = true
  ignored : d.ignored = false
  inProgress : d.inProgress = false
  hardIgnore : d.hardIgnore = false

/-- What `trap -p` and the reaping of a child look at. -/
def shown (d : Disposition) : TrapSlot × Bool × Bool := (d.slot, d.trapped, d.ignored)

end Disposition

/-- What an operation asks for. -/
def TrapOp.shown : TrapOp → TrapSlot × Bool × Bool
  | .set c => (.command c, true, false)
  | .ignore => (.ignoreSig, true, true)
  | .revert => (.defaultSig, false, false)

/-- The last of the operations, or the user's trap when there is none. -/
def lastShown (c : String) (ops : List TrapOp) : TrapSlot × Bool × Bool :=
  match ops.getLast? with
  | none => (.command c, true, false)
  | some op => op.shown

/-- Some operation gets past the placeholder: on the path that sets no flag, `trap -` does not. -/
def takesEffect (inProgress : Bool) (ops : List TrapOp) : Bool :=
  ops.any fun op => inProgress || op != .revert

/-- The placeholder of a trap that runs. -/
structure Placeholder (d : Disposition) (inProgress : Bool) : Prop where
  slot : d.slot = .impossible
  trapped : d.trapped = false
  ignored : d.ignored = false
  inProgress : d.inProgress = inProgress
  hardIgnore : d.hardIgnore = false

/-- The slot shows an operation that took effect. -/
structure Shows (d : Disposition) (op : TrapOp) (inProgress : Bool) : Prop where
  shown : d.shown = op.shown
  inProgress : d.inProgress = inProgress
  hardIgnore : d.hardIgnore = false

theorem placeholder_of_trapped {d : Disposition} (htrapped : d.trapped = true)
    (hhard : d.hardIgnore = false) :
    Placeholder (d.stores (setImpossibleSigchldTrap d)) d.inProgress := by
  have hrestore : setImpossibleSigchldTrap d =
      [.put .defaultSig, .mark, .untrap, .put .impossible, .mark, .untrap] := by
    simp [setImpossibleSigchldTrap, restoreDefaultSignal, htrapped, hhard, changeSignal]
  rw [hrestore]
  exact ⟨rfl, rfl, rfl, rfl, hhard⟩

theorem Placeholder.trapBuiltin {d : Disposition} {inProgress : Bool}
    (h : Placeholder d inProgress) (op : TrapOp) :
    if inProgress || op != .revert then Shows (d.trapBuiltin op) op inProgress
    else Placeholder (d.trapBuiltin op) inProgress := by
  obtain ⟨slot, trapped, ignored, inProg, changed, hardIgnore⟩ := d
  obtain ⟨hslot, htrapped, hignored, hprog, hhard⟩ := h
  dsimp only at hslot htrapped hignored hprog hhard
  subst hslot htrapped hignored hprog hhard
  cases op with
  | set c => rw [if_pos (by simp)]; exact ⟨rfl, rfl, rfl⟩
  | ignore => rw [if_pos (by simp)]; exact ⟨rfl, rfl, rfl⟩
  | revert =>
      cases inProg with
      | true => exact ⟨rfl, rfl, rfl⟩
      | false => exact ⟨rfl, rfl, rfl, rfl, rfl⟩

theorem Shows.trapBuiltin {d : Disposition} {last : TrapOp} {inProgress : Bool}
    (h : Shows d last inProgress) (op : TrapOp) : Shows (d.trapBuiltin op) op inProgress := by
  obtain ⟨slot, trapped, ignored, inProg, changed, hardIgnore⟩ := d
  obtain ⟨hshown, hprog, hhard⟩ := h
  dsimp only at hprog hhard
  subst hprog hhard
  cases last with
  | set c' =>
      cases hshown
      cases op <;> exact ⟨rfl, rfl, rfl⟩
  | ignore =>
      cases hshown
      cases op <;> exact ⟨rfl, rfl, rfl⟩
  | revert =>
      cases hshown
      cases op with
      | set c => exact ⟨rfl, rfl, rfl⟩
      | ignore => exact ⟨rfl, rfl, rfl⟩
      | revert =>
          cases inProg <;> exact ⟨rfl, rfl, rfl⟩

/-- The slot behind any sequence of operations in the body. -/
theorem body_shows {d : Disposition} {inProgress : Bool} (h : Placeholder d inProgress)
    (ops : List TrapOp) :
    if takesEffect inProgress ops then
      ∃ op, ops.getLast? = some op ∧ Shows (ops.foldl Disposition.trapBuiltin d) op inProgress
    else Placeholder (ops.foldl Disposition.trapBuiltin d) inProgress := by
  induction ops using List.reverseRecOn with
  | nil => exact h
  | append_singleton ops op ih =>
      rw [List.foldl_append, takesEffect, List.any_append]
      by_cases heffect : takesEffect inProgress ops = true
      · rw [if_pos heffect] at ih
        obtain ⟨last, -, hshows⟩ := ih
        unfold takesEffect at heffect
        rw [if_pos (by simp [heffect])]
        exact ⟨op, by simp, hshows.trapBuiltin op⟩
      · rw [if_neg heffect] at ih
        have hop := ih.trapBuiltin op
        unfold takesEffect at heffect
        rw [Bool.not_eq_true] at heffect
        simp only [heffect, List.any_cons, List.any_nil, Bool.or_false, Bool.false_or]
        split at hop
        · rename_i htakes
          rw [if_pos htakes]
          exact ⟨op, by simp, hop⟩
        · rename_i htakes
          rw [if_neg htakes]
          exact hop

theorem runSigchldTrap_shown {d : Disposition} {c : String} (hslot : d.slot = .command c)
    (htrapped : d.trapped = true) (hhard : d.hardIgnore = false) (ops : List TrapOp) :
    (d.runSigchldTrap ops).map Disposition.shown =
      some (if takesEffect d.inProgress ops then lastShown c ops
        else (.command c, true, false)) := by
  have hbody := body_shows (placeholder_of_trapped htrapped hhard) ops
  unfold Disposition.runSigchldTrap
  rw [hslot]
  dsimp only
  obtain ⟨body, hb⟩ : ∃ body, body = ops.foldl Disposition.trapBuiltin
    (d.stores (setImpossibleSigchldTrap d)) := ⟨_, rfl⟩
  rw [← hb] at hbody ⊢
  by_cases heffect : takesEffect d.inProgress ops = true
  · rw [if_pos heffect] at hbody ⊢
    obtain ⟨op, hlast, hshows⟩ := hbody
    have hslotOp : body.slot ≠ .impossible := by
      have hfst : body.slot = op.shown.1 := congrArg Prod.fst hshows.shown
      rw [hfst]
      cases op <;> simp [TrapOp.shown]
    have hkept : uwMaybeSetSigchldTrap body c = [] := if_neg fun hand => hslotOp hand.2
    rw [hkept, lastShown, hlast]
    exact congrArg some hshows.shown
  · rw [if_neg heffect] at hbody ⊢
    have hrestored : uwMaybeSetSigchldTrap body c = [.put (.command c), .mark] := by
      unfold uwMaybeSetSigchldTrap setSignal
      rw [if_pos ⟨hbody.trapped, hbody.slot⟩, hbody.hardIgnore]
      rfl
    rw [hrestored]
    rfl

theorem dispatchSigchld_shown {d : Disposition} {c : String} (h : d.UserTrap c)
    (path : DispatchPath) (returns : Bool) (ops : List TrapOp) :
    (d.dispatchSigchld path returns ops).map Disposition.shown =
      some (if takesEffect (path == .runPendingTraps) ops then lastShown c ops
        else (.command c, true, false)) := by
  cases path with
  | waitchld =>
      have hrun := runSigchldTrap_shown h.slot h.trapped h.hardIgnore ops
      rw [h.inProgress] at hrun
      exact hrun
  | runPendingTraps =>
      have hrun := runSigchldTrap_shown (d := { d with inProgress := true }) h.slot h.trapped
        h.hardIgnore ops
      refine Eq.trans ?_ hrun
      unfold Disposition.dispatchSigchld
      dsimp only
      rw [Option.map_map]
      congr 1
      funext ran
      cases returns <;> rfl

theorem lastShown_of_not_takesEffect {c : String} {inProgress : Bool} {ops : List TrapOp}
    (h : takesEffect inProgress ops = false) (hne : ops ≠ []) :
    lastShown c ops = (.defaultSig, false, false) := by
  obtain ⟨op, hlast⟩ := Option.ne_none_iff_exists'.mp (mt List.getLast?_eq_none_iff.mp hne)
  have hop := List.any_eq_false.mp h op (List.mem_of_getLast? hlast)
  have hrevert : op = .revert := by
    cases op with
    | set c => simp at hop
    | ignore => simp at hop
    | revert => rfl
  unfold lastShown
  rw [hlast, hrevert]
  rfl

/-- A trap leaves the disposition that its last operation asked for, on both paths, except for
`trap - CHLD` alone on the path from `waitchld`. -/
theorem dispatchSigchld_shown_iff {d : Disposition} {c : String} (h : d.UserTrap c)
    (path : DispatchPath) (returns : Bool) (ops : List TrapOp) :
    (d.dispatchSigchld path returns ops).map Disposition.shown = some (lastShown c ops) ↔
      path = .runPendingTraps ∨ ops = [] ∨ ∃ op ∈ ops, op ≠ .revert := by
  rw [dispatchSigchld_shown h]
  by_cases heffect : takesEffect (path == .runPendingTraps) ops = true
  · rw [if_pos heffect]
    refine ⟨fun _ => ?_, fun _ => rfl⟩
    obtain ⟨op, hop, htakes⟩ := List.any_eq_true.mp heffect
    cases path with
    | runPendingTraps => exact .inl rfl
    | waitchld => exact .inr (.inr ⟨op, hop, by simpa using htakes⟩)
  · rw [if_neg heffect]
    rw [Bool.not_eq_true] at heffect
    by_cases hnil : ops = []
    · subst hnil
      exact ⟨fun _ => .inr (.inl rfl), fun _ => rfl⟩
    · rw [lastShown_of_not_takesEffect heffect hnil]
      constructor
      · intro hsame
        cases hsame
      · rintro (rfl | hempty | ⟨op, hop, hne⟩)
        · obtain ⟨op, hop⟩ := List.exists_mem_of_ne_nil ops hnil
          exact absurd (List.any_eq_false.mp heffect op hop) (by simp)
        · exact absurd hempty hnil
        · exact absurd (List.any_eq_false.mp heffect op hop) (by simp [hne])

/-- `trap 'trap - CHLD' CHLD`, when `wait` reaps a child: the trap stays. -/
theorem dispatchSigchld_keeps_removed :
    ∃ d : Disposition, d.UserTrap "trap - CHLD" ∧
      (d.dispatchSigchld .waitchld true [.revert]).map Disposition.shown ≠
        some (lastShown "trap - CHLD" [.revert]) ∧
      (d.dispatchSigchld .runPendingTraps true [.revert]).map Disposition.shown =
        some (lastShown "trap - CHLD" [.revert]) :=
  ⟨⟨.command "trap - CHLD", true, false, false, false, false⟩, ⟨rfl, rfl, rfl, rfl, rfl⟩,
    by decide, by decide⟩

/-- The trap replaces itself and is then removed. -/
theorem dispatchSigchld_shown_replaced :
    ((⟨.command "trap x CHLD; trap - CHLD", true, false, false, false, false⟩ :
        Disposition).dispatchSigchld .waitchld true [.set "x", .revert]).map
          Disposition.shown =
        some (lastShown "trap x CHLD; trap - CHLD" [.set "x", .revert]) ↔
      DispatchPath.waitchld = .runPendingTraps ∨ [TrapOp.set "x", .revert] = [] ∨
        ∃ op ∈ [TrapOp.set "x", .revert], op ≠ .revert :=
  dispatchSigchld_shown_iff ⟨rfl, rfl, rfl, rfl, rfl⟩ .waitchld true [.set "x", .revert]

end Rash
