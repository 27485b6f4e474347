import Rash.Traps.SigchldAccount

/-!
# What `run_sigchld_trap` is called with

Bodies change and remove the trap while its firings are queued.  The slot holds the command
that the user set last at every call, as long as the trap is only removed or ignored when no
firing is pending, and no child is reaped while it is removed.
-/

namespace Rash

namespace TrapState

/-- `run_sigchld_trap` copies the command that the user set last. -/
def EntersWithCommand (s : TrapState) : Prop :=
  ∀ n rest, s.stack = .entered n :: rest →
    ∃ c, s.signal.slot = .command c ∧ s.lastSet = some c

/-- The trap is removed or ignored when no firing is pending, and no child is reaped between
the stores that remove it. -/
def RemovesIdle (s : TrapState) : TrapAction → Prop
  | .advance =>
      match s.stack with
      | .changing (.put .defaultSig :: _) :: _ => s.pending = 0
      | .changing (.put .ignoreSig :: _) :: _ => s.pending = 0
      | _ => True
  | .waitchld k _ =>
      match s.stack with
      | .changing _ :: _ => s.signal.slot = .defaultSig → s.signal.trapped = true → k = 0
      | _ => True
  | _ => True

instance (s : TrapState) (a : TrapAction) : Decidable (s.RemovesIdle a) :=
  match s, a with
  | ⟨signal, _, _, stack, _, _, _, _⟩, .waitchld k _ =>
      match stack with
      | .changing _ :: _ => inferInstanceAs
          (Decidable (signal.slot = .defaultSig → signal.trapped = true → k = 0))
      | [] | .body :: _ | .drain .. :: _ | .entered .. :: _ | .placing .. :: _
      | .firing .. :: _ | .unwinding .. :: _ | .restoring .. :: _ => isTrue trivial
  | ⟨_, pending, _, stack, _, _, _, _⟩, .advance =>
      match stack with
      | .changing (.put .defaultSig :: _) :: _ | .changing (.put .ignoreSig :: _) :: _ =>
          Nat.decEq pending 0
      | .changing [] :: _ | .changing (.put .impossible :: _) :: _
      | .changing (.put (.command _) :: _) :: _ | .changing (.mark :: _) :: _
      | .changing (.untrap :: _) :: _ | .changing (.trap :: _) :: _ => isTrue trivial
      | [] | .body :: _ | .drain .. :: _ | .entered .. :: _ | .placing .. :: _
      | .firing .. :: _ | .unwinding .. :: _ | .restoring .. :: _ => isTrue trivial
  | _, .waitInterrupted _ | _, .runPendingTraps | _, .trap _ | _, .bodyReturns
  | _, .leave _ _ _ => isTrue trivial

/-! ## Stacks -/

/-- The command of the activation that put the placeholder into the slot. -/
def innermost : List TrapFrame → Option String
  | .firing c _ :: _ => some c
  | .unwinding c _ :: _ => some c
  | .body :: rest => innermost rest
  | .changing _ :: rest => innermost rest
  | _ => none

/-- Bodies in bodies, down to the main shell. -/
inductive Shells : List TrapFrame → Prop
  | main : Shells []
  | body (c : String) (left : ℕ) (deferred : Bool) {stack : List TrapFrame}
      (h : Shells stack) : Shells (.body :: .firing c left :: .drain deferred :: stack)

/-- Activations that an exit has still to unwind, over the shell that goes on. -/
inductive Exits : List TrapFrame → Prop
  | shells {stack : List TrapFrame} (h : Shells stack) : Exits stack
  | unwinding (c : String) {stack : List TrapFrame} (h : Exits stack) :
      Exits (.unwinding c false :: stack)

/-- Where an activation of `run_sigchld_trap` goes on to. -/
inductive Resumes : Bool → List TrapFrame → Prop
  | drain (deferred : Bool) {stack : List TrapFrame} (h : Shells stack) :
      Resumes true (.drain deferred :: stack)
  | exits {stack : List TrapFrame} (h : Exits stack) : Resumes false stack

/-- The slot and its bits agree, with the user's last command or with the placeholder of the
activation `top`. -/
def Settled (d : Disposition) (last top : Option String) : Prop :=
  d.hardIgnore = false ∧
    match d.slot with
    | .command c => d.trapped = true ∧ d.ignored = false ∧ last = some c
    | .ignoreSig => d.trapped = true ∧ d.ignored = true
    | .defaultSig => d.trapped = false ∧ d.ignored = false
    | .impossible => d.trapped = false ∧ d.ignored = false ∧ last.isSome ∧ top = last

/-- Nothing is pending once the trap is removed or ignored. -/
def NonePending (d : Disposition) (pending : ℕ) : Prop :=
  d.slot = .defaultSig ∨ d.slot = .ignoreSig → pending = 0

/-- The rest of an operation of the user. -/
inductive Changes (d : Disposition) (last : Option String) (pending : ℕ)
    (stack : List TrapFrame) : List SlotStore → Prop
  | done (h : Settled d last (innermost stack)) (hnone : NonePending d pending) :
      Changes d last pending stack []
  | set (c : String) (h : Settled d last (innermost stack)) (hnone : NonePending d pending) :
      Changes d last pending stack [.put (.command c), .mark]
  | marksSet (c : String) (hhard : d.hardIgnore = false) (hslot : d.slot = .command c)
      (hlast : last = some c) : Changes d last pending stack [.mark]
  | ignore (h : Settled d last (innermost stack)) (hnone : NonePending d pending) :
      Changes d last pending stack [.put .ignoreSig, .mark]
  | marksIgnored (hhard : d.hardIgnore = false) (hslot : d.slot = .ignoreSig)
      (hpending : pending = 0) : Changes d last pending stack [.mark]
  | traps (hhard : d.hardIgnore = false) (hslot : d.slot = .ignoreSig)
      (hignored : d.ignored = true) (hpending : pending = 0) :
      Changes d last pending stack [.trap]
  | revert (h : Settled d last (innermost stack)) (hnone : NonePending d pending) :
      Changes d last pending stack [.put .defaultSig, .mark, .untrap]
  | marksReverted (hhard : d.hardIgnore = false) (hslot : d.slot = .defaultSig)
      (hpending : pending = 0) : Changes d last pending stack [.mark, .untrap]
  | untraps (hhard : d.hardIgnore = false) (hslot : d.slot = .defaultSig)
      (hignored : d.ignored = false) (hpending : pending = 0) :
      Changes d last pending stack [.untrap]

/-- What the shell does about the trap, while the user changes it. -/
inductive EntryStage (d : Disposition) (last : Option String) (pending : ℕ) :
    List TrapFrame → Prop
  | exits {stack : List TrapFrame} (hstack : Exits stack)
      (h : Settled d last (innermost stack)) (hnone : NonePending d pending) :
      EntryStage d last pending stack
  | drain (deferred : Bool) {stack : List TrapFrame} (hstack : Shells stack)
      (h : Settled d last none) (hnone : NonePending d pending) :
      EntryStage d last pending (.drain deferred :: stack)
  | entered (c : String) (n : ℕ) (deferred : Bool) {stack : List TrapFrame}
      (hstack : Shells stack) (h : Armed d c) (hlast : last = some c) :
      EntryStage d last pending (.entered n :: .drain deferred :: stack)
  | placing (c : String) (i n : ℕ) (deferred : Bool) {stack : List TrapFrame}
      (hstack : Shells stack) (hi : i ≤ 6) (d₀ : Disposition) (h : Armed d₀ c)
      (hd : d = d₀.stores (placingStores.take i)) (hlast : last = some c) :
      EntryStage d last pending
        (.placing (placingStores.drop i) c n :: .drain deferred :: stack)
  | firing (c : String) (left : ℕ) (deferred : Bool) {stack : List TrapFrame}
      (hstack : Shells stack) (h : Settled d last (some c)) (hnone : NonePending d pending) :
      EntryStage d last pending (.firing c left :: .drain deferred :: stack)
  | returning (c : String) (deferred : Bool) {stack : List TrapFrame}
      (hstack : Shells stack) (h : Settled d last (some c)) (hnone : NonePending d pending) :
      EntryStage d last pending (.unwinding c true :: .drain deferred :: stack)
  | restoring (c : String) (returns : Bool) {stack : List TrapFrame}
      (hstack : Resumes returns stack) (h : Placed d) (hlast : last = some c) :
      EntryStage d last pending (.restoring [.put (.command c), .mark] returns :: stack)
  | marking (c : String) (returns : Bool) {stack : List TrapFrame}
      (hstack : Resumes returns stack) (hhard : d.hardIgnore = false)
      (hslot : d.slot = .command c) (hlast : last = some c) :
      EntryStage d last pending (.restoring [.mark] returns :: stack)
  | restored (returns : Bool) {stack : List TrapFrame} (hstack : Resumes returns stack)
      (h : Settled d last none) (hnone : NonePending d pending) :
      EntryStage d last pending (.restoring [] returns :: stack)
  | changing {todo : List SlotStore} {stack : List TrapFrame} (hstack : Shells stack)
      (h : Changes d last pending stack todo) :
      EntryStage d last pending (.changing todo :: stack)

/-- With `SIGCHLD` ignored on entry nothing ever changes. -/
structure NeverTraps (s : TrapState) : Prop where
  hardIgnore : s.signal.hardIgnore = true
  slot : s.signal.slot = .defaultSig
  trapped : s.signal.trapped = false
  pending : s.pending = 0
  stack : s.stack = [] ∨ s.stack = [.changing []]

def EntryInv (s : TrapState) : Prop :=
  NeverTraps s ∨ EntryStage s.signal s.lastSet s.pending s.stack

/-! ## What settles -/

theorem Settled.of_ne {d : Disposition} {last top top' : Option String}
    (h : Settled d last top) (hslot : d.slot ≠ .impossible) : Settled d last top' := by
  obtain ⟨hhard, h⟩ := h
  refine ⟨hhard, ?_⟩
  cases hd : d.slot with
  | impossible => exact absurd hd hslot
  | _ => rw [hd] at h; exact h

/-- Where no activation can have put it there, the placeholder is not in the slot. -/
theorem Settled.ne_impossible {d : Disposition} {last : Option String}
    (h : Settled d last none) : d.slot ≠ .impossible := by
  intro hslot
  have hrest := h.2
  rw [hslot] at hrest
  obtain ⟨-, -, hsome, hnone⟩ := hrest
  rw [← hnone] at hsome
  cases hsome

theorem Settled.armed {d : Disposition} {last : Option String} {c : String} {top : Option String}
    (h : Settled d last top) (hslot : d.slot = .command c) : Armed d c ∧ last = some c := by
  have hrest := h.2
  rw [hslot] at hrest
  exact ⟨⟨hslot, hrest.1, h.1⟩, hrest.2.2⟩

theorem Settled.placed {d : Disposition} {last : Option String} {c : String}
    (h : Settled d last (some c)) (hslot : d.slot = .impossible) : Placed d ∧ last = some c := by
  have hrest := h.2
  rw [hslot] at hrest
  exact ⟨⟨hslot, hrest.1, h.1⟩, hrest.2.2.2.symm⟩

/-- Children are only counted while there is a command or the placeholder in the slot. -/
theorem Settled.counted {s : TrapState} {top : Option String}
    (h : Settled s.signal s.lastSet top) (hcounts : s.counts = true) :
    s.signal.slot ≠ .defaultSig ∧ s.signal.slot ≠ .ignoreSig := by
  unfold counts at hcounts
  have hrest := h.2
  constructor
  · intro hslot
    rw [hslot] at hrest
    simp [hslot, hrest.1] at hcounts
  · intro hslot
    simp [hslot] at hcounts

theorem NonePending.of_slot {d : Disposition} {pending : ℕ} (hdefault : d.slot ≠ .defaultSig)
    (hignore : d.slot ≠ .ignoreSig) : NonePending d pending := by
  rintro (h | h)
  · exact absurd h hdefault
  · exact absurd h hignore

theorem settled_command {d : Disposition} {last top : Option String} {c : String}
    (hhard : d.hardIgnore = false) (hslot : d.slot = .command c) (htrapped : d.trapped = true)
    (hignored : d.ignored = false) (hlast : last = some c) : Settled d last top := by
  refine ⟨hhard, ?_⟩
  rw [hslot]
  exact ⟨htrapped, hignored, hlast⟩

theorem Settled.inProgress {d : Disposition} {last top : Option String}
    (h : Settled d last top) (inProgress changed : Bool) :
    Settled { d with inProgress := inProgress, changed := changed } last top := h

/-! ## Steps -/

/-- Operations begin where commands are executed. -/
theorem Settled.changes {d : Disposition} {last : Option String} {pending : ℕ}
    {stack : List TrapFrame} (h : Settled d last (innermost stack))
    (hnone : NonePending d pending) (op : TrapOp) :
    Changes d last pending stack (op.stores d) := by
  cases op with
  | set c =>
      simp only [TrapOp.stores, setSignal, h.1, Bool.false_eq_true, if_false, changeSignal]
      exact .set c h hnone
  | ignore =>
      simp only [TrapOp.stores, ignoreSignal, h.1, Bool.false_eq_true, if_false, changeSignal]
      split
      · rename_i hignored
        have hslot : d.slot = .ignoreSig := by
          have hrest := h.2
          cases hd : d.slot with
          | ignoreSig => rfl
          | command c => rw [hd] at hrest; simp [hignored] at hrest
          | defaultSig => rw [hd] at hrest; simp [hignored] at hrest
          | impossible => rw [hd] at hrest; simp [hignored] at hrest
        exact .traps h.1 hslot hignored (hnone (.inr hslot))
      · exact .ignore h hnone
  | revert =>
      simp only [TrapOp.stores, restoreDefaultSignal, h.1, Bool.false_eq_true, if_false,
        changeSignal]
      split
      · exact .done h hnone
      · exact .revert h hnone

theorem Changes.store {s : TrapState} {stack : List TrapFrame} {t : SlotStore}
    {todo : List SlotStore} (hstack : s.stack = .changing (t :: todo) :: stack)
    (h : Changes s.signal s.lastSet s.pending stack (t :: todo))
    (hidle : s.RemovesIdle .advance) :
    Changes (s.userStore t).signal (s.userStore t).lastSet (s.userStore t).pending stack
      todo := by
  unfold RemovesIdle at hidle
  rw [hstack] at hidle
  cases h with
  | set c h hnone => exact .marksSet c h.1 rfl rfl
  | marksSet c hhard hslot hlast =>
      refine .done (settled_command hhard hslot rfl ?_ hlast) (.of_slot ?_ ?_)
      · simp [userStore, TrapState.store, Disposition.store, hslot]
      · simp [userStore, TrapState.store, Disposition.store, hslot]
      · simp [userStore, TrapState.store, Disposition.store, hslot]
  | ignore h hnone => exact .marksIgnored h.1 rfl hidle
  | marksIgnored hhard hslot hpending =>
      refine .done ⟨hhard, ?_⟩ fun _ => hpending
      simp [userStore, TrapState.store, Disposition.store, hslot]
  | traps hhard hslot hignored hpending =>
      refine .done ⟨hhard, ?_⟩ fun _ => hpending
      simp [userStore, TrapState.store, Disposition.store, hslot, hignored]
  | revert h hnone => exact .marksReverted h.1 rfl hidle
  | marksReverted hhard hslot hpending =>
      refine .untraps hhard hslot ?_ hpending
      simp [userStore, TrapState.store, Disposition.store, hslot]
  | untraps hhard hslot hignored hpending =>
      refine .done ⟨hhard, ?_⟩ fun _ => hpending
      simp [userStore, TrapState.store, Disposition.store, hslot, hignored]

theorem EntryStage.advance {s s' : TrapState}
    (h : EntryStage s.signal s.lastSet s.pending s.stack) (hidle : s.RemovesIdle .advance)
    (hstep : s.advance = some s') :
    EntryStage s'.signal s'.lastSet s'.pending s'.stack := by
  generalize hstack : s.stack = stack at h
  unfold TrapState.advance at hstep
  rw [hstack] at hstep
  cases h with
  | exits hexits h hnone =>
      cases hexits with
      | shells hshells =>
          cases hshells with
          | main => cases hstep
          | body c left deferred hrest => cases hstep
      | unwinding c hrest =>
          cases hstep
          by_cases hslot : s.signal.slot = .impossible
          · obtain ⟨hplaced, hlast⟩ := h.placed hslot
            dsimp only
            rw [hplaced.uwMaybeSet]
            exact .restoring c false (.exits hrest) hplaced hlast
          · have hkept : uwMaybeSetSigchldTrap s.signal c = [] := if_neg fun hand => hslot hand.2
            dsimp only
            rw [hkept]
            exact .restored false (.exits hrest) (h.of_ne hslot) hnone
  | drain deferred hshells h hnone =>
      dsimp only at hstep
      split at hstep
      · split at hstep
        · cases hstep
          exact .exits (.shells hshells) (h.of_ne h.ne_impossible) hnone
        · cases hstep
          exact .exits (.shells hshells) ((h.of_ne h.ne_impossible).inProgress false _) hnone
      · rename_i hpending
        cases hstep
        -- something is pending, so that the slot holds a command
        cases hslot : s.signal.slot with
        | impossible => exact absurd hslot h.ne_impossible
        | defaultSig => exact absurd (hnone (.inl hslot)) hpending
        | ignoreSig => exact absurd (hnone (.inr hslot)) hpending
        | command c =>
            obtain ⟨harmed, hlast⟩ := h.armed hslot
            exact .entered c s.pending deferred hshells harmed hlast
  | entered c n deferred hshells h hlast =>
      simp only [h.slot, h.setImpossible] at hstep
      cases hstep
      exact .placing c 0 n deferred hshells (Nat.zero_le 6) s.signal h rfl hlast
  | placing c i n deferred hshells hi d₀ h hd hlast =>
      rcases Nat.lt_or_eq_of_le hi with hlt | rfl
      · have hdrop := List.drop_eq_getElem_cons (l := placingStores) hlt
        rw [hdrop] at hstep
        cases hstep
        refine .placing c (i + 1) n deferred hshells hlt d₀ h ?_ hlast
        rw [List.take_succ_eq_append_getElem hlt, Disposition.stores_append, ← hd]
        rfl
      · cases hstep
        refine .firing c n deferred hshells ?_ (.of_slot ?_ ?_)
        · dsimp only
          rw [hd]
          exact ⟨h.hardIgnore, rfl, rfl, by rw [hlast]; rfl, hlast.symm⟩
        · dsimp only
          rw [hd]
          simp [placingStores, Disposition.store]
        · dsimp only
          rw [hd]
          simp [placingStores, Disposition.store]
  | firing c left deferred hshells h hnone =>
      cases left with
      | zero =>
          cases hstep
          exact .returning c deferred hshells h hnone
      | succ left =>
          cases hstep
          exact .exits (.shells (.body c left deferred hshells)) h hnone
  | returning c deferred hshells h hnone =>
      cases hstep
      by_cases hslot : s.signal.slot = .impossible
      · obtain ⟨hplaced, hlast⟩ := h.placed hslot
        dsimp only
        rw [hplaced.uwMaybeSet]
        exact .restoring c true (.drain deferred hshells) hplaced hlast
      · have hkept : uwMaybeSetSigchldTrap s.signal c = [] := if_neg fun hand => hslot hand.2
        dsimp only
        rw [hkept]
        exact .restored true (.drain deferred hshells) (h.of_ne hslot) hnone
  | restoring c returns hresumes h hlast =>
      cases hstep
      exact .marking c returns hresumes h.hardIgnore rfl hlast
  | marking c returns hresumes hhard hslot hlast =>
      cases hstep
      refine .restored returns hresumes (settled_command hhard hslot rfl ?_ hlast)
        (.of_slot ?_ ?_)
      · simp [TrapState.store, Disposition.store, hslot]
      · simp [TrapState.store, Disposition.store, hslot]
      · simp [TrapState.store, Disposition.store, hslot]
  | restored returns hresumes h hnone =>
      cases hstep
      cases hresumes with
      | drain deferred hshells => exact .drain deferred hshells h hnone
      | exits hexits => exact .exits hexits (h.of_ne h.ne_impossible) hnone
  | changing hshells h =>
      rename_i todo stack
      cases todo with
      | nil =>
          cases hstep
          cases h with
          | done h hnone => exact .exits (.shells hshells) h hnone
      | cons t todo =>
          cases hstep
          exact .changing hshells (h.store hstack hidle)

/-- Where commands are executed, the stack is that of a shell. -/
theorem EntryStage.executing {s : TrapState}
    (h : EntryStage s.signal s.lastSet s.pending s.stack) (hexecuting : s.executing = true) :
    Shells s.stack ∧ Settled s.signal s.lastSet (innermost s.stack) ∧
      NonePending s.signal s.pending := by
  unfold TrapState.executing at hexecuting
  generalize hstack : s.stack = stack at h hexecuting
  cases h with
  | exits hexits h hnone =>
      cases hexits with
      | shells hshells => exact ⟨hshells, h, hnone⟩
      | unwinding c hrest => cases hexecuting
  | _ => cases hexecuting

theorem EntryStage.queue {s : TrapState}
    (h : EntryStage s.signal s.lastSet s.pending s.stack) (k : ℕ) (reapedIn : ReapedIn)
    (hidle : s.RemovesIdle (.waitchld k reapedIn)) (hk : k ≠ 0) (hcounts : s.counts = true) :
    EntryStage s.signal s.lastSet (s.pending + k) s.stack := by
  unfold RemovesIdle at hidle
  generalize hstack : s.stack = stack at h hidle
  have hnew : ∀ {top : Option String}, Settled s.signal s.lastSet top →
      NonePending s.signal (s.pending + k) := fun hsettled =>
    .of_slot (hsettled.counted hcounts).1 (hsettled.counted hcounts).2
  cases h with
  | exits hexits h hnone => exact .exits hexits h (hnew h)
  | drain deferred hshells h hnone => exact .drain deferred hshells h (hnew h)
  | entered c n deferred hshells h hlast => exact .entered c n deferred hshells h hlast
  | placing c i n deferred hshells hi d₀ h hd hlast =>
      exact .placing c i n deferred hshells hi d₀ h hd hlast
  | firing c left deferred hshells h hnone => exact .firing c left deferred hshells h (hnew h)
  | returning c deferred hshells h hnone => exact .returning c deferred hshells h (hnew h)
  | restoring c returns hresumes h hlast => exact .restoring c returns hresumes h hlast
  | marking c returns hresumes hhard hslot hlast =>
      exact .marking c returns hresumes hhard hslot hlast
  | restored returns hresumes h hnone => exact .restored returns hresumes h (hnew h)
  | changing hshells h =>
      refine .changing hshells ?_
      have hremoved : s.signal.slot = .defaultSig → False := by
        intro hslot
        refine hk (hidle hslot ?_)
        simpa [counts, hslot] using hcounts
      have hignored : s.signal.slot = .ignoreSig → False := by
        intro hslot
        simp [counts, hslot] at hcounts
      cases h with
      | done h hnone => exact .done h (hnew h)
      | set c h hnone => exact .set c h (hnew h)
      | marksSet c hhard hslot hlast => exact .marksSet c hhard hslot hlast
      | ignore h hnone => exact .ignore h (hnew h)
      | marksIgnored hhard hslot hpending => exact (hignored hslot).elim
      | traps hhard hslot hignored' hpending => exact (hignored hslot).elim
      | revert h hnone => exact .revert h (hnew h)
      | marksReverted hhard hslot hpending => exact (hremoved hslot).elim
      | untraps hhard hslot hignored' hpending => exact (hremoved hslot).elim

theorem EntryStage.dispatch {s : TrapState}
    (h : EntryStage s.signal s.lastSet s.pending s.stack) (k : ℕ) (reapedIn : ReapedIn)
    (hwait : reapedIn = .waitBuiltin → s.executing = true)
    (hidle : s.RemovesIdle (.waitchld k reapedIn)) :
    EntryStage (s.dispatch k reapedIn).signal (s.dispatch k reapedIn).lastSet
      (s.dispatch k reapedIn).pending (s.dispatch k reapedIn).stack := by
  unfold TrapState.dispatch
  split
  · exact h
  · rename_i hcounted
    rw [not_or, Bool.not_eq_false] at hcounted
    have hqueue := h.queue k reapedIn hidle hcounted.1 hcounted.2
    split
    · exact hqueue
    · split
      · exact hqueue
      · split
        · exact hqueue
        · split
          · exact hqueue
          · split
            · exact hqueue
            · split
              · -- the slot holds a command, as children are counted
                rename_i hslot _ hbuiltin
                obtain ⟨hshells, hsettled, hnone⟩ := h.executing (hwait hbuiltin)
                obtain ⟨hdefault, hignore⟩ := hsettled.counted hcounted.2
                cases hcommand : s.signal.slot with
                | impossible => exact absurd hcommand hslot
                | defaultSig => exact absurd hcommand hdefault
                | ignoreSig => exact absurd hcommand hignore
                | command c =>
                    obtain ⟨harmed, hlast⟩ := hsettled.armed hcommand
                    exact .entered c k true hshells harmed hlast
              · exact hqueue

/-- What is left to unwind, with the placeholder's activation on top as before. -/
theorem Shells.leave {s : TrapState} {stack : List TrapFrame} (h : Shells stack) (n : ℕ)
    (hto : ({ s with stack := stack.drop n } : TrapState).executing = true) :
    Exits ((stack.take n).filterMap TrapFrame.unwound ++ stack.drop n) ∧
      innermost ((stack.take n).filterMap TrapFrame.unwound ++ stack.drop n) =
        innermost stack := by
  induction h generalizing n with
  | main =>
      rw [List.take_nil, List.drop_nil]
      exact ⟨.shells .main, rfl⟩
  | body c left deferred hrest ih =>
      match n with
      | 0 => exact ⟨.shells (.body c left deferred hrest), rfl⟩
      | 1 => cases hto
      | 2 => cases hto
      | n + 3 => exact ⟨.unwinding c (ih n hto).1, rfl⟩

theorem EntryStage.step {s s' : TrapState} {a : TrapAction}
    (h : EntryStage s.signal s.lastSet s.pending s.stack) (hidle : s.RemovesIdle a)
    (hstep : s.step a = some s') :
    EntryStage s'.signal s'.lastSet s'.pending s'.stack := by
  cases a with
  | waitchld k reapedIn =>
      simp only [TrapState.step] at hstep
      split at hstep
      · cases hstep
      · rename_i hwait
        cases hstep
        apply EntryStage.dispatch (s := { s with reaped := s.reaped + k }) h k reapedIn ?_ hidle
        intro hbuiltin
        by_contra hexecuting
        exact hwait ⟨hbuiltin, Bool.eq_false_of_not_eq_true hexecuting⟩
  | waitInterrupted k =>
      simp only [TrapState.step] at hstep
      split at hstep
      · cases hstep
        exact h
      · cases hstep
  | runPendingTraps =>
      simp only [TrapState.step] at hstep
      split at hstep
      · rename_i hexecuting
        cases hstep
        unfold TrapState.runPendingTraps
        split
        · exact h
        · split
          · rename_i hfree
            obtain ⟨hshells, hsettled, hnone⟩ := h.executing hexecuting
            exact .drain false hshells
              ((hsettled.of_ne hfree.1).inProgress true s.signal.changed) hnone
          · exact h
      · cases hstep
  | trap op =>
      simp only [TrapState.step] at hstep
      split at hstep
      · rename_i hexecuting
        cases hstep
        obtain ⟨hshells, hsettled, hnone⟩ := h.executing hexecuting
        exact .changing hshells (hsettled.changes hnone op)
      · cases hstep
  | bodyReturns =>
      simp only [TrapState.step] at hstep
      split at hstep
      · rename_i rest hstack
        cases hstep
        have hexecuting : s.executing = true := by
          unfold TrapState.executing
          rw [hstack]
        obtain ⟨hshells, hsettled, hnone⟩ := h.executing hexecuting
        rw [hstack] at hshells hsettled
        cases hshells with
        | body c left deferred hrest => exact .firing c left deferred hrest hsettled hnone
      · cases hstep
  | leave n cleanup running =>
      simp only [TrapState.step] at hstep
      split at hstep
      · rename_i hboth
        cases hstep
        obtain ⟨hshells, hsettled, hnone⟩ := h.executing hboth.1
        obtain ⟨hexits, htop⟩ := hshells.leave n hboth.2
        refine .exits hexits ?_ hnone
        dsimp only [TrapState.leave]
        rw [htop]
        exact hsettled.inProgress _ _
      · cases hstep
  | advance => exact h.advance hidle hstep

theorem NeverTraps.executing {s : TrapState} (h : NeverTraps s)
    (hexecuting : s.executing = true) : s.stack = [] := by
  rcases h.stack with hnil | hchanging
  · exact hnil
  · unfold TrapState.executing at hexecuting
    rw [hchanging] at hexecuting
    cases hexecuting

theorem NeverTraps.stores {s : TrapState} (h : NeverTraps s) (op : TrapOp) :
    op.stores s.signal = [] := by
  cases op with
  | set c => exact if_pos h.hardIgnore
  | ignore => exact if_pos h.hardIgnore
  | revert => exact if_pos h.hardIgnore

theorem NeverTraps.step {s s' : TrapState} {a : TrapAction} (h : NeverTraps s)
    (hstep : s.step a = some s') : NeverTraps s' := by
  cases a with
  | waitchld k reapedIn =>
      simp only [TrapState.step] at hstep
      split at hstep
      · cases hstep
      · cases hstep
        have hcounts : ({ s with reaped := s.reaped + k } : TrapState).counts = false := by
          simp [counts, h.slot, h.trapped]
        unfold TrapState.dispatch
        rw [if_pos (.inr hcounts)]
        exact ⟨h.hardIgnore, h.slot, h.trapped, h.pending, h.stack⟩
  | waitInterrupted k =>
      simp only [TrapState.step] at hstep
      split at hstep
      · cases hstep
        exact ⟨h.hardIgnore, h.slot, h.trapped, h.pending, h.stack⟩
      · cases hstep
  | runPendingTraps =>
      simp only [TrapState.step] at hstep
      split at hstep
      · cases hstep
        unfold TrapState.runPendingTraps
        rw [if_pos h.pending]
        exact h
      · cases hstep
  | trap op =>
      simp only [TrapState.step] at hstep
      split at hstep
      · rename_i hexecuting
        cases hstep
        refine ⟨h.hardIgnore, h.slot, h.trapped, h.pending, .inr ?_⟩
        dsimp only
        rw [h.executing hexecuting, h.stores op]
      · cases hstep
  | bodyReturns =>
      simp only [TrapState.step] at hstep
      split at hstep
      · rename_i rest hstack
        rcases h.stack with hnil | hchanging
        · rw [hnil] at hstack
          cases hstack
        · rw [hchanging] at hstack
          cases hstack
      · cases hstep
  | leave n cleanup running =>
      simp only [TrapState.step] at hstep
      split at hstep
      · rename_i hboth
        cases hstep
        refine ⟨h.hardIgnore, h.slot, h.trapped, h.pending, .inl ?_⟩
        dsimp only [TrapState.leave]
        rw [h.executing hboth.1, List.take_nil, List.drop_nil]
        rfl
      · cases hstep
  | advance =>
      unfold TrapState.step TrapState.advance at hstep
      rcases h.stack with hnil | hchanging
      · rw [hnil] at hstep
        cases hstep
      · rw [hchanging] at hstep
        cases hstep
        exact ⟨h.hardIgnore, h.slot, h.trapped, h.pending, .inl rfl⟩

theorem entryInv_step {s s' : TrapState} {a : TrapAction} (h : EntryInv s)
    (hidle : s.RemovesIdle a) (hstep : s.step a = some s') : EntryInv s' := by
  rcases h with hnever | hstage
  · exact .inl (hnever.step hstep)
  · exact .inr (hstage.step hidle hstep)

theorem EntryInv.entersWithCommand {s : TrapState} (h : EntryInv s) : s.EntersWithCommand := by
  intro n rest hstack
  rcases h with hnever | hstage
  · rcases hnever.stack with hnil | hchanging
    · rw [hnil] at hstack
      cases hstack
    · rw [hchanging] at hstack
      cases hstack
  · rw [hstack] at hstage
    cases hstage with
    | exits hexits h hnone =>
        cases hexits with
        | shells hshells => cases hshells
    | entered c n deferred hshells h hlast => exact ⟨c, h.slot, hlast⟩

theorem initial_entryInv (hardIgnore : Bool) : EntryInv (initial hardIgnore) := by
  cases hardIgnore with
  | true => exact .inl ⟨rfl, rfl, rfl, rfl, .inl rfl⟩
  | false => exact .inr (.exits (.shells .main) ⟨rfl, rfl, rfl⟩ fun _ => rfl)

/-- From the start of a shell, `run_sigchld_trap` is entered with the command that the user set
last, in every run whose steps remove or ignore the trap only while nothing is pending. -/
theorem runSigchldTrap_entered (hardIgnore : Bool) {path : List TrapAction} {s : TrapState}
    (hmeets : Machine.PathMeets step RemovesIdle (initial hardIgnore) path)
    (hrun : Machine.runPath step (initial hardIgnore) path = some s) :
    s.EntersWithCommand :=
  (Machine.path_invariant (fun _ _ _ h hidle hstep => entryInv_step h hidle hstep)
    (initial_entryInv hardIgnore) hmeets hrun).entersWithCommand

/-- `trap x CHLD`; a child is reaped by the handler while `trap - CHLD` comes next, and the
firing is then drained. -/
def removedPending : List TrapAction :=
  [.trap (.set "x"), .advance, .advance, .advance, .waitchld 1 .handler, .trap .revert,
    .advance, .advance, .advance, .advance, .runPendingTraps, .advance]

theorem runSigchldTrap_entered_removed :
    ∃ s, Machine.runPath step (initial false) removedPending = some s ∧
      ¬ s.EntersWithCommand := by
  refine ⟨_, rfl, fun h => ?_⟩
  obtain ⟨c, hslot, -⟩ := h 1 [.drain false] rfl
  cases hslot

/-- The trap is set, a child is reaped, and the firing is drained. -/
theorem runSigchldTrap_entered_once :
    ∃ s, Machine.runPath step (initial false) [.trap (.set "x"), .advance, .advance, .advance,
        .waitchld 1 .handler, .runPendingTraps, .advance] = some s ∧ s.EntersWithCommand := by
  refine ⟨_, rfl, @runSigchldTrap_entered false [.trap (.set "x"), .advance, .advance, .advance,
    .waitchld 1 .handler, .runPendingTraps, .advance] _ ?_ rfl⟩
  decide

end TrapState

end Rash
