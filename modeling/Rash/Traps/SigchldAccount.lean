import Mathlib.Tactic.IntervalCases
import Rash.Traps.SigchldMachine

/-!
# Every reaped child is accounted for

What a step adds to the children that no firing stands for, and the steps that add nothing.
While the user leaves the trap alone, children are lost only between two stores that the shell
makes to the slot itself, and by exits that leave queued firings behind.
-/

namespace Rash

namespace TrapState

/-! ## The balance -/

theorem queuedFirings_append (xs ys : List TrapFrame) :
    queuedFirings (xs ++ ys) = queuedFirings xs + queuedFirings ys := by
  simp [queuedFirings]

@[simp] theorem queuedFirings_cons (f : TrapFrame) (stack : List TrapFrame) :
    queuedFirings (f :: stack) = f.queued + queuedFirings stack := by
  simp [queuedFirings]

theorem queuedFirings_unwound (stack : List TrapFrame) :
    queuedFirings (stack.filterMap TrapFrame.unwound) = 0 := by
  induction stack with
  | nil => rfl
  | cons f stack ih =>
      cases f <;> simp [List.filterMap_cons, TrapFrame.unwound, TrapFrame.queued, ih]

theorem dispatch_balance (s : TrapState) (k : ℕ) (reapedIn : ReapedIn) :
    (s.dispatch k reapedIn).pending + queuedFirings (s.dispatch k reapedIn).stack +
        (s.dispatch k reapedIn).lost =
      s.pending + queuedFirings s.stack + s.lost + k ∧
      (s.dispatch k reapedIn).started = s.started ∧
      (s.dispatch k reapedIn).reaped = s.reaped := by
  unfold dispatch
  repeat' split
  all_goals
    refine ⟨?_, rfl, rfl⟩
    simp only [queueSigchldTrap, queuedFirings_cons, TrapFrame.queued]
    omega

theorem runPendingTraps_balance (s : TrapState) :
    s.runPendingTraps.pending + queuedFirings s.runPendingTraps.stack =
        s.pending + queuedFirings s.stack ∧
      s.runPendingTraps.lost = s.lost ∧ s.runPendingTraps.started = s.started ∧
      s.runPendingTraps.reaped = s.reaped := by
  unfold runPendingTraps
  split
  · exact ⟨rfl, rfl, rfl, rfl⟩
  · split
    · exact ⟨by simp [TrapFrame.queued], rfl, rfl, rfl⟩
    · exact ⟨rfl, rfl, rfl, rfl⟩

theorem userStore_counts (s : TrapState) (t : SlotStore) :
    (s.userStore t).pending = s.pending ∧ (s.userStore t).lost = s.lost ∧
      (s.userStore t).started = s.started ∧ (s.userStore t).reaped = s.reaped := by
  unfold userStore
  split <;> exact ⟨rfl, rfl, rfl, rfl⟩

/-- A step of the innermost function moves firings on, and drops none. -/
theorem advance_balance {s s' : TrapState} (h : s.advance = some s') :
    s'.started + (s'.pending + queuedFirings s'.stack) =
        s.started + (s.pending + queuedFirings s.stack) ∧
      s'.lost = s.lost ∧ s'.reaped = s.reaped := by
  unfold advance at h
  split at h
  all_goals rename_i hstack
  all_goals try rw [hstack]
  · cases h
  · cases h
  · split at h
    · split at h
      · cases h
        exact ⟨by simp [TrapFrame.queued], rfl, rfl⟩
      · cases h
        exact ⟨by simp [TrapFrame.queued], rfl, rfl⟩
    · cases h
      refine ⟨?_, rfl, rfl⟩
      simp only [hstack, queuedFirings_cons, TrapFrame.queued]
      omega
  · split at h
    · cases h
      exact ⟨by simp [TrapFrame.queued], rfl, rfl⟩
    · cases h
  · cases h
    exact ⟨by simp [TrapFrame.queued], rfl, rfl⟩
  · cases h
    exact ⟨by simp [TrapFrame.queued, store], rfl, rfl⟩
  · cases h
    exact ⟨by simp [TrapFrame.queued], rfl, rfl⟩
  · cases h
    refine ⟨?_, rfl, rfl⟩
    simp only [queuedFirings_cons, TrapFrame.queued]
    omega
  · cases h
    exact ⟨by simp [TrapFrame.queued], rfl, rfl⟩
  · cases h
    exact ⟨by simp [TrapFrame.queued, store], rfl, rfl⟩
  · cases h
    exact ⟨by simp [TrapFrame.queued], rfl, rfl⟩
  · cases h
    rename_i t _ _
    obtain ⟨hpending, hlost, hstarted, hreaped⟩ := s.userStore_counts t
    refine ⟨?_, hlost, hreaped⟩
    simp only [hpending, hstarted, queuedFirings_cons, TrapFrame.queued]
  · cases h
    exact ⟨by simp [TrapFrame.queued], rfl, rfl⟩

/-- What a step loses. -/
def loss (s : TrapState) : TrapAction → ℕ
  | .waitchld k _ => if s.counts then 0 else k
  | .waitInterrupted k => k
  | .leave n _ _ => queuedFirings (s.stack.take n)
  | _ => 0

theorem dispatch_lost (s : TrapState) (k : ℕ) (reapedIn : ReapedIn) :
    (s.dispatch k reapedIn).lost = s.lost + if s.counts then 0 else k := by
  unfold dispatch
  split
  · rename_i hnone
    rcases hnone with hk | hcounts
    · simp [hk]
    · simp [hcounts]
  · rename_i hsome
    rw [not_or, Bool.not_eq_false] at hsome
    rw [if_pos hsome.2]
    repeat' split
    all_goals rfl

theorem step_lost {s s' : TrapState} {a : TrapAction} (h : s.step a = some s') :
    s'.lost = s.lost + s.loss a := by
  cases a with
  | waitchld k reapedIn =>
      simp only [step] at h
      split at h
      · cases h
      · cases h
        exact dispatch_lost _ k reapedIn
  | waitInterrupted k =>
      simp only [step] at h
      split at h
      · cases h
        rfl
      · cases h
  | runPendingTraps =>
      simp only [step] at h
      split at h
      · cases h
        exact s.runPendingTraps_balance.2.1
      · cases h
  | trap op =>
      simp only [step] at h
      split at h
      · cases h
        rfl
      · cases h
  | bodyReturns =>
      simp only [step] at h
      split at h
      · cases h
        rfl
      · cases h
  | leave n cleanup running =>
      simp only [step] at h
      split at h
      · cases h
        rfl
      · cases h
  | advance => exact (advance_balance h).2.1

theorem step_balanced {s s' : TrapState} {a : TrapAction} (h : s.step a = some s')
    (hs : Balanced s) : Balanced s' := by
  unfold Balanced at hs ⊢
  cases a with
  | waitchld k reapedIn =>
      simp only [step] at h
      split at h
      · cases h
      · cases h
        obtain ⟨hqueued, hstarted, hreaped⟩ :=
          ({ s with reaped := s.reaped + k }).dispatch_balance k reapedIn
        rw [hreaped, hstarted]
        dsimp only at hqueued ⊢
        omega
  | waitInterrupted k =>
      simp only [step] at h
      split at h
      · cases h
        dsimp only
        omega
      · cases h
  | runPendingTraps =>
      simp only [step] at h
      split at h
      · cases h
        obtain ⟨hqueued, hlost, hstarted, hreaped⟩ := s.runPendingTraps_balance
        rw [hqueued, hlost, hstarted, hreaped]
        exact hs
      · cases h
  | trap op =>
      simp only [step] at h
      split at h
      · cases h
        simpa [TrapFrame.queued] using hs
      · cases h
  | bodyReturns =>
      simp only [step] at h
      split at h
      · rename_i hstack
        cases h
        rw [hstack] at hs
        simpa [TrapFrame.queued] using hs
      · cases h
  | leave n cleanup running =>
      simp only [step] at h
      split at h
      · cases h
        have hsplit := queuedFirings_append (s.stack.take n) (s.stack.drop n)
        rw [List.take_append_drop] at hsplit
        simp only [leave, queuedFirings_append, queuedFirings_unwound]
        omega
      · cases h
  | advance =>
      obtain ⟨hqueued, hlost, hreaped⟩ := advance_balance h
      rw [hlost, hreaped, hqueued]
      exact hs

/-! ## While the user leaves the trap alone -/

/-- The user's command is in the slot. -/
structure Armed (d : Disposition) (c : String) : Prop where
  slot : d.slot = .command c
  trapped : d.trapped = true
  hardIgnore : d.hardIgnore = false

/-- The placeholder is in the slot. -/
structure Placed (d : Disposition) : Prop where
  slot : d.slot = .impossible
  trapped : d.trapped = false
  hardIgnore : d.hardIgnore = false

/-- The stores of `set_impossible_sigchld_trap` over a trap. -/
def placingStores : List SlotStore :=
  [.put .defaultSig, .mark, .untrap, .put .impossible, .mark, .untrap]

/-- Where a call of `run_sigchld_trap` returns to: a loop, or nothing after an exit. -/
inductive Caller : List TrapFrame → Prop
  | drain (deferred : Bool) : Caller [.drain deferred]
  | none : Caller []

/-- What the shell does about the trap `c`, with the slot as it is then. -/
inductive Stage (c : String) (d : Disposition) : List TrapFrame → Prop
  | idle (h : Armed d c) : Stage c d []
  | drain (deferred : Bool) (h : Armed d c) : Stage c d [.drain deferred]
  | entered (n : ℕ) (deferred : Bool) (h : Armed d c) :
      Stage c d [.entered n, .drain deferred]
  | placing (i n : ℕ) (deferred : Bool) (hi : i ≤ 6) (d₀ : Disposition) (h : Armed d₀ c)
      (hd : d = d₀.stores (placingStores.take i)) :
      Stage c d [.placing (placingStores.drop i) c n, .drain deferred]
  | firing (left : ℕ) (deferred : Bool) (h : Placed d) :
      Stage c d [.firing c left, .drain deferred]
  | body (left : ℕ) (deferred : Bool) (h : Placed d) :
      Stage c d [.body, .firing c left, .drain deferred]
  | unwinding (returns : Bool) {caller : List TrapFrame} (hcaller : Caller caller)
      (h : Placed d) : Stage c d (.unwinding c returns :: caller)
  | restoring (returns : Bool) {caller : List TrapFrame} (hcaller : Caller caller)
      (h : Placed d) : Stage c d (.restoring [.put (.command c), .mark] returns :: caller)
  | marking (returns : Bool) {caller : List TrapFrame} (hcaller : Caller caller)
      (hslot : d.slot = .command c) (htrapped : d.trapped = false)
      (hhard : d.hardIgnore = false) : Stage c d (.restoring [.mark] returns :: caller)
  | restored (returns : Bool) {caller : List TrapFrame} (hcaller : Caller caller)
      (h : Armed d c) : Stage c d (.restoring [] returns :: caller)

/-- Between two stores the slot shows neither the trap nor the placeholder. -/
def InWindow (s : TrapState) : Prop :=
  match s.stack with
  | .placing (.put .impossible :: _) _ _ :: _ => True
  | .restoring [.mark] _ :: _ => True
  | _ => False

instance (s : TrapState) : Decidable s.InWindow := by
  unfold InWindow
  split
  · exact isTrue trivial
  · exact isTrue trivial
  · exact isFalse id

theorem Stage.counts_iff {s : TrapState} {c : String} (h : Stage c s.signal s.stack) :
    s.counts = true ↔ ¬ s.InWindow := by
  obtain ⟨signal, pending, running, stack, lastSet, reaped, started, lost⟩ := s
  dsimp only at h
  unfold counts InWindow
  dsimp only
  cases h with
  | idle h => simp [h.slot, h.trapped]
  | drain deferred h => simp [h.slot, h.trapped]
  | entered n deferred h => simp [h.slot, h.trapped]
  | placing i n deferred hi d₀ h hd =>
      obtain ⟨slot, trapped, ignored, inProgress, changed, hardIgnore⟩ := d₀
      obtain ⟨hslot, htrapped, hhard⟩ := h
      dsimp only at hslot htrapped
      subst hd hslot htrapped
      interval_cases i <;> simp [placingStores, Disposition.store]
  | firing left deferred h => simp [h.slot, h.trapped]
  | body left deferred h => simp [h.slot, h.trapped]
  | unwinding returns hcaller h => simp [h.slot, h.trapped]
  | restoring returns hcaller h => simp [h.slot, h.trapped]
  | marking returns hcaller hslot htrapped hhard => simp [hslot, htrapped]
  | restored returns hcaller h => simp [h.slot, h.trapped]

theorem Armed.setImpossible {d : Disposition} {c : String} (h : Armed d c) :
    setImpossibleSigchldTrap d = placingStores := by
  simp [setImpossibleSigchldTrap, restoreDefaultSignal, changeSignal, placingStores, h.trapped,
    h.hardIgnore]

theorem Placed.uwMaybeSet {d : Disposition} (h : Placed d) (c : String) :
    uwMaybeSetSigchldTrap d c = [.put (.command c), .mark] := by
  simp [uwMaybeSetSigchldTrap, setSignal, changeSignal, h.slot, h.trapped, h.hardIgnore]

theorem Stage.dispatch {s : TrapState} {c : String} (h : Stage c s.signal s.stack) (k : ℕ)
    (reapedIn : ReapedIn) (hwait : reapedIn = .waitBuiltin → s.executing = true) :
    Stage c (s.dispatch k reapedIn).signal (s.dispatch k reapedIn).stack := by
  unfold TrapState.dispatch
  split
  · exact h
  · split
    · exact h
    · split
      · exact h
      · split
        · exact h
        · split
          · exact h
          · split
            · exact h
            · split
              · -- the trap is run on the spot: commands are executed, and not by a body
                rename_i hslot _ hbuiltin
                have hexecuting := hwait hbuiltin
                generalize hstack : s.stack = stack at h hexecuting
                cases h with
                | idle h => exact .entered k true h
                | body left deferred h => exact absurd h.slot hslot
                | _ => simp [executing, hstack] at hexecuting
              · exact h

theorem Stage.runPendingTraps {s : TrapState} {c : String} (h : Stage c s.signal s.stack)
    (hexecuting : s.executing = true) :
    Stage c s.runPendingTraps.signal s.runPendingTraps.stack := by
  unfold TrapState.runPendingTraps
  split
  · exact h
  · split
    · rename_i hfree
      generalize hstack : s.stack = stack at h hexecuting
      cases h with
      | idle h => exact .drain false ⟨h.slot, h.trapped, h.hardIgnore⟩
      | body left deferred h => exact absurd h.slot hfree.1
      | _ => simp [executing, hstack] at hexecuting
    · exact h

theorem Stage.advance {s s' : TrapState} {c : String} (h : Stage c s.signal s.stack)
    (hstep : s.advance = some s') : Stage c s'.signal s'.stack := by
  obtain ⟨signal, pending, running, stack, lastSet, reaped, started, lost⟩ := s
  dsimp only at h
  unfold TrapState.advance at hstep
  cases h with
  | idle h => cases hstep
  | drain deferred h =>
      dsimp only at hstep
      split at hstep
      · split at hstep
        · cases hstep
          exact .idle h
        · cases hstep
          exact .idle ⟨h.slot, h.trapped, h.hardIgnore⟩
      · cases hstep
        exact .entered pending deferred h
  | entered n deferred h =>
      simp only [h.slot, h.setImpossible] at hstep
      cases hstep
      exact .placing 0 n deferred (Nat.zero_le 6) signal h rfl
  | placing i n deferred hi d₀ h hd =>
      rcases Nat.lt_or_eq_of_le hi with hlt | rfl
      · have hdrop := List.drop_eq_getElem_cons (l := placingStores) hlt
        rw [hdrop] at hstep
        cases hstep
        refine .placing (i + 1) n deferred hlt d₀ h ?_
        rw [List.take_succ_eq_append_getElem hlt, Disposition.stores_append, ← hd]
        rfl
      · cases hstep
        subst hd
        exact .firing n deferred ⟨rfl, rfl, h.hardIgnore⟩
  | firing left deferred h =>
      cases left with
      | zero =>
          cases hstep
          exact .unwinding true (.drain deferred) h
      | succ left =>
          cases hstep
          exact .body left deferred h
  | body left deferred h => cases hstep
  | unwinding returns hcaller h =>
      simp only [h.uwMaybeSet] at hstep
      cases hstep
      exact .restoring returns hcaller h
  | restoring returns hcaller h =>
      cases hstep
      exact .marking returns hcaller rfl h.trapped h.hardIgnore
  | marking returns hcaller hslot htrapped hhard =>
      cases hstep
      exact .restored returns hcaller ⟨hslot, rfl, hhard⟩
  | restored returns hcaller h =>
      cases hstep
      cases hcaller with
      | drain deferred => exact .drain deferred h
      | none => exact .idle h

theorem Stage.step {s s' : TrapState} {c : String} {a : TrapAction}
    (h : Stage c s.signal s.stack) (ha : a.keepsTrap = true) (hstep : s.step a = some s') :
    Stage c s'.signal s'.stack := by
  cases a with
  | waitchld k reapedIn =>
      simp only [TrapState.step] at hstep
      split at hstep
      · cases hstep
      · rename_i hwait
        cases hstep
        apply Stage.dispatch (s := { s with reaped := s.reaped + k }) h k reapedIn
        intro hbuiltin
        by_contra hexecuting
        exact hwait ⟨hbuiltin, Bool.eq_false_of_not_eq_true hexecuting⟩
  | waitInterrupted k =>
      simp only [TrapState.step] at hstep
      split at hstep
      · cases hstep
        exact h
      · cases hstep
  | runPendingTraps =>
      simp only [TrapState.step] at hstep
      split at hstep
      · cases hstep
        exact h.runPendingTraps ‹_›
      · cases hstep
  | trap op => cases ha
  | bodyReturns =>
      simp only [TrapState.step] at hstep
      split at hstep
      · rename_i hstack
        cases hstep
        rw [hstack] at h
        cases h with
        | body left deferred h => exact .firing left deferred h
      · cases hstep
  | leave n cleanup running =>
      simp only [TrapState.step] at hstep
      split at hstep
      · rename_i hboth
        obtain ⟨hfrom, hto⟩ := hboth
        cases hstep
        unfold TrapState.leave
        dsimp only
        generalize hstack : s.stack = stack at h hto
        cases h with
        | idle h =>
            rw [List.take_nil, List.drop_nil]
            exact .idle ⟨h.slot, h.trapped, h.hardIgnore⟩
        | body left deferred h =>
            match n with
            | 0 => exact .body left deferred ⟨h.slot, h.trapped, h.hardIgnore⟩
            | 1 => cases hto
            | 2 => cases hto
            | n + 3 =>
                rw [List.take_of_length_le (by simp), List.drop_eq_nil_of_le (by simp)]
                exact .unwinding false .none ⟨h.slot, h.trapped, h.hardIgnore⟩
        | _ => simp [executing, hstack] at hfrom
      · cases hstep
  | advance => exact h.advance hstep

/-- The step leaves no child without a firing: none is reaped between the two stores, no
`wait` is interrupted behind a child it reaped, and no exit drops a queued firing. -/
def Accounts (s : TrapState) : TrapAction → Prop
  | .waitchld k _ => k = 0 ∨ ¬ s.InWindow
  | .waitInterrupted k => k = 0
  | .leave n _ _ => queuedFirings (s.stack.take n) = 0
  | _ => True

instance (s : TrapState) (a : TrapAction) : Decidable (s.Accounts a) := by
  cases a <;> unfold Accounts <;> infer_instance

theorem Stage.loss_eq_zero_iff {s : TrapState} {c : String} (h : Stage c s.signal s.stack)
    (a : TrapAction) : s.loss a = 0 ↔ s.Accounts a := by
  cases a with
  | waitchld k reapedIn =>
      have hcounts := h.counts_iff
      by_cases hin : s.InWindow
      · have hnot : ¬ s.counts = true := fun hc => hcounts.mp hc hin
        simp [loss, Accounts, hin, hnot]
      · simp [loss, Accounts, hin, hcounts.mpr hin]
  | waitInterrupted k => rfl
  | runPendingTraps => exact ⟨fun _ => trivial, fun _ => rfl⟩
  | trap op => exact ⟨fun _ => trivial, fun _ => rfl⟩
  | bodyReturns => exact ⟨fun _ => trivial, fun _ => rfl⟩
  | leave n cleanup running => rfl
  | advance => exact ⟨fun _ => trivial, fun _ => rfl⟩

theorem runPath_lost_le {s last : TrapState} {path : List TrapAction}
    (hrun : Machine.runPath step s path = some last) : s.lost ≤ last.lost := by
  induction path generalizing s with
  | nil => cases hrun; exact le_refl _
  | cons a rest ih =>
      obtain ⟨s', hs', hrest⟩ := Machine.runPath_cons hrun
      exact (step_lost hs' ▸ Nat.le_add_right _ _).trans (ih hrest)

theorem runPath_balanced {s last : TrapState} {path : List TrapAction} (hs : Balanced s)
    (hrun : Machine.runPath step s path = some last) : Balanced last := by
  induction path generalizing s with
  | nil => cases hrun; exact hs
  | cons a rest ih =>
      obtain ⟨s', hs', hrest⟩ := Machine.runPath_cons hrun
      exact ih (step_balanced hs' hs) hrest

/-- Nothing more is lost on a path, if and only if each of its steps accounts. -/
theorem runPath_lost_eq_iff {c : String} {s last : TrapState} {path : List TrapAction}
    (hs : Stage c s.signal s.stack) (hkeeps : ∀ a ∈ path, a.keepsTrap = true)
    (hrun : Machine.runPath step s path = some last) :
    last.lost = s.lost ↔ Machine.PathMeets step Accounts s path := by
  induction path generalizing s with
  | nil => cases hrun; exact ⟨fun _ => trivial, fun _ => rfl⟩
  | cons a rest ih =>
      obtain ⟨s', hs', hrest⟩ := Machine.runPath_cons hrun
      have hlost := step_lost hs'
      have hle := runPath_lost_le hrest
      have hzero := hs.loss_eq_zero_iff a
      have hlater := ih (hs.step (hkeeps a List.mem_cons_self) hs')
        (fun b hb => hkeeps b (List.mem_cons_of_mem _ hb)) hrest
      constructor
      · intro heq
        refine ⟨hzero.mp (by omega), fun s'' hs'' => ?_⟩
        obtain rfl : s' = s'' := Option.some_injective _ (hs'.symm.trans hs'')
        exact hlater.mp (by omega)
      · rintro ⟨hhead, htail⟩
        have hrestEq := hlater.mpr (htail s' hs')
        have hnone := hzero.mpr hhead
        omega

/-- From a shell in which the user has set a trap and leaves it alone, the children reaped are
the bodies started and the firings queued, if and only if every step so far accounts. -/
theorem sigchld_conserved_iff (c : String) {path : List TrapAction} {s : TrapState}
    (hkeeps : ∀ a ∈ path, a.keepsTrap = true)
    (hrun : Machine.runPath step (trapping c) path = some s) :
    Conserved s ↔ Machine.PathMeets step Accounts (trapping c) path := by
  have hstage : Stage c (trapping c).signal (trapping c).stack := .idle ⟨rfl, rfl, rfl⟩
  have hbalanced := runPath_balanced (s := trapping c) rfl hrun
  rw [← runPath_lost_eq_iff hstage hkeeps hrun]
  unfold Conserved
  unfold Balanced at hbalanced
  change _ ↔ s.lost = 0
  omega

/-- Two children are reaped while a command runs, and the first of the two bodies is left by a
`return` from the function around it. -/
theorem sigchld_return_drops_firing :
    ∃ s, Machine.runPath step (trapping "return") [.waitchld 2 .handler, .runPendingTraps,
        .advance, .advance, .advance, .advance, .advance, .advance, .advance, .advance, .advance,
        .advance, .leave 3 false true] = some s ∧ ¬ Conserved s := by
  refine ⟨_, rfl, ?_⟩
  decide

/-- One child, a body that returns, and a second child that is reaped meanwhile. -/
theorem sigchld_conserved_queued :
    ∃ s, Machine.runPath step (trapping "true") [.waitchld 1 .handler, .runPendingTraps,
        .advance, .advance, .advance, .advance, .advance, .advance, .advance, .advance, .advance,
        .advance, .waitchld 1 .handler] = some s ∧
      (Conserved s ↔ Machine.PathMeets step Accounts (trapping "true") [.waitchld 1 .handler,
        .runPendingTraps, .advance, .advance, .advance, .advance, .advance, .advance, .advance,
        .advance, .advance, .advance, .waitchld 1 .handler]) :=
  ⟨_, rfl, sigchld_conserved_iff "true" (by decide) rfl⟩

end TrapState

end Rash
