import Rash.Undo.Processes

/-!
# Ports that do not overlap

Where a port is entered only when no process is in one, the shared store follows the shared
stack, so that no snapshot is lost.  Where they overlap, one can be.
-/

namespace Rash

open Decimal FlatFiles Interaction Machine

variable {P : Type} [DecidableEq P]

/-- Only the system calls of the one port that was entered come in between. -/
def Apart (dir : Text) (s : SharedStore P) : SharedAction P → Prop
  | .begin _ (.snapshotFile _ cwd path) =>
      s.Idle ∧ ¬ Inside dir (rashUndoAbspath cwd path) ∧ rashUndoLatestSeq dir s.files < ulongMax
  | .begin _ .undoLast => s.Idle
  | .step _ => True
  | .applyBegin _ => s.Idle
  | .applyEnd _ => s.Idle
  | .external path _ => s.Idle ∧ ¬ Inside dir path

/-- The store holds the stack for every process. -/
structure Follows (dir : Text) (s : SharedStore P) (t : SharedStack P) : Prop where
  log : s.log = t.log
  holds : ∀ p, Refines dir (s.view p) (t.view p)

/-- No process is in a port, or one is and will leave it where the stack is already. -/
def Together (dir : Text) (s : SharedStore P) (t : SharedStack P) : Prop :=
  (s.Idle ∧ Follows dir s t) ∨
    ∃ p run, s.running p = some run ∧ (∀ q, q ≠ p → s.running q = none) ∧
      Follows dir ({ s with files := (run.rest.eval (perform dir) s.files).2 }.returnFrom p run.call
        (run.rest.eval (perform dir) s.files).1) t

/-- Windows matter only to what a process sees of them. -/
theorem Refines.of_windows {dir : Text} {s s' : UndoState} {t t' : UndoStack}
    (h : Refines dir s t) (hfiles : s'.files = s.files) (hworld : t'.world.files = t.world.files)
    (hstack : t'.stack = t.stack) (hactive : s'.applyWindowActive = t'.world.applyWindowActive)
    (hwindow : s'.applyWindowPaths = t'.world.applyWindowPaths) : Refines dir s' t' := by
  obtain ⟨-, -, houtside, hdirectory, hseq, hentries, habsent, htargets, hbound⟩ := h
  rw [← hfiles] at houtside hdirectory hseq hentries habsent
  rw [← hworld] at houtside htargets
  rw [← hstack] at hseq hentries habsent htargets hbound
  exact ⟨hactive, hwindow, houtside, hdirectory, hseq, hentries, habsent, htargets, hbound⟩

/-! ## Windows -/

/-- A port leaves the window of its process as its reply says. -/
theorem takeSnapshot_window (dir abspath : Text) (preimage : Option RegularFile)
    (s : UndoState) :
    (takeSnapshot dir abspath preimage s).2 =
      (if (takeSnapshot dir abspath preimage s).1 = (true, none) then
        { s with files := (takeSnapshot dir abspath preimage s).2.files }.applyWindowAdd abspath
      else { s with files := (takeSnapshot dir abspath preimage s).2.files }) := by
  unfold takeSnapshot
  cases hnext : rashUndoNextSeq dir s.files with
  | error text => simp
  | ok next =>
      obtain ⟨seq, fs⟩ := next
      dsimp only
      by_cases hzero : seq = 0
      · simp [hzero, seqWrapped]
      · simp only [hzero, if_false]
        by_cases hdone : (writeEntry dir seq abspath preimage fs).1.1 = true
        · simp [writeEntry_reply hdone, applyWindowAdd_files]
        · have hne : (writeEntry dir seq abspath preimage fs).1 ≠ (true, none) := fun heq =>
            hdone (congrArg Prod.fst heq)
          simp [hdone, hne]

theorem snapshotFile_window (dir : Text) (maxBytes cwd : Option Text) (path : Text)
    (s : UndoState) :
    (rashLuaSnapshotFile dir maxBytes cwd path s).2 =
      portReturn { s with files := (rashLuaSnapshotFile dir maxBytes cwd path s).2.files }
        (rashLuaSnapshotFile dir maxBytes cwd path s).1 (.snapshotFile maxBytes cwd path) := by
  unfold rashLuaSnapshotFile portReturn
  cases hdir : rashUndoEnsureDir dir s.files with
  | error text => simp
  | ok fs =>
      dsimp only
      split
      · simp [already]
      · split
        · exact takeSnapshot_window ..
        · split
          · simp [exceedsMaxBytes]
          · exact takeSnapshot_window ..
        · simp [notRegularFile]

theorem undoLast_window (dir : Text) (s : UndoState) :
    (rashLuaUndoLast dir s).2 = { s with files := (rashLuaUndoLast dir s).2.files } := by
  unfold rashLuaUndoLast
  cases rashUndoEnsureDir dir s.files with
  | error text => rfl
  | ok fs =>
      dsimp only
      split <;> rfl

/-! ## Steps -/

theorem setView_holds {dir : Text} {s : SharedStore P} {t : SharedStack P}
    (h : ∀ p, Refines dir (s.view p) (t.view p)) {v : UndoState} {w : UndoStack}
    (hview : Refines dir v w) (p q : P) :
    Refines dir ((s.setView p v).view q) ((t.setView p w).view q) := by
  by_cases hq : q = p
  · subst hq
    refine hview.of_windows rfl rfl rfl ?_ ?_
    · simp [SharedStore.view, SharedStore.setView, SharedStack.view, SharedStack.setView,
        hview.active]
    · simp [SharedStore.view, SharedStore.setView, SharedStack.view, SharedStack.setView,
        hview.window]
  · refine hview.of_windows rfl rfl rfl ?_ ?_
    · have hactive := (h q).active
      simpa [SharedStore.view, SharedStore.setView, SharedStack.view, SharedStack.setView, hq]
        using hactive
    · have hwindow := (h q).window
      simpa [SharedStore.view, SharedStore.setView, SharedStack.view, SharedStack.setView, hq]
        using hwindow

theorem Follows.enter {dir : Text} {s : SharedStore P} {t : SharedStack P} {p : P}
    {call : PortCall} (h : Follows dir s t) (hapart : Apart dir s (.begin p call)) :
    Follows dir ({ s with files := ((portCalls (s.view p) call).eval (perform dir) s.files).2
      }.returnFrom p call ((portCalls (s.view p) call).eval (perform dir) s.files).1)
        (t.enter p call) := by
  cases call with
  | undoLast =>
      obtain ⟨hreply, hrefines⟩ := undoLast_refines (h.holds p)
      have hcalls := undoLastCalls_eval (h.holds p)
      have hfiles : (s.view p).files = s.files := rfl
      rw [hfiles] at hcalls
      simp only [portCalls, hcalls]
      refine ⟨?_, fun q => ?_⟩
      · simp only [SharedStore.returnFrom, SharedStack.enter, h.log, hreply]
      · rw [undoLast_window] at hrefines
        exact setView_holds h.holds hrefines p q
  | snapshotFile maxBytes cwd path =>
      obtain ⟨-, hout, hroom⟩ := hapart
      have hlength := rashUndoLatestSeq_eq (h.holds p).seq (h.holds p).bound
      have hfiles : (s.view p).files = s.files := rfl
      rw [hfiles] at hlength
      rw [hlength] at hroom
      obtain ⟨hreply, hrefines⟩ := snapshotFile_refines (h.holds p) maxBytes cwd path hout
        fun hzero => by
          unfold ulongMax at hroom
          omega
      have hcalls := snapshotFileCalls_eval (h.holds p) maxBytes cwd path hout
      rw [hfiles] at hcalls
      simp only [portCalls, hcalls]
      refine ⟨?_, fun q => ?_⟩
      · simp only [SharedStore.returnFrom, SharedStack.enter, h.log, hreply]
      · rw [snapshotFile_window] at hrefines
        exact setView_holds h.holds hrefines p q

theorem Together.follows {dir : Text} {s : SharedStore P} {t : SharedStack P}
    (h : Together dir s t) (hidle : s.Idle) : Follows dir s t := by
  rcases h with ⟨-, hfollows⟩ | ⟨p, run, hrun, -⟩
  · exact hfollows
  · rw [hidle p] at hrun
    cases hrun

/-- A step of ports that do not overlap keeps the store and the stack together. -/
theorem Together.step {dir : Text} {s s' : SharedStore P} {t : SharedStack P}
    {a : SharedAction P} (h : Together dir s t) (hapart : Apart dir s a)
    (hstep : sharedStep dir s a = some s') : Together dir s' (t.follow a) := by
  cases a with
  | step p =>
      rcases h with ⟨hidle, -⟩ | ⟨p', run, hrun, hothers, hfollows⟩
      · simp only [sharedStep, hidle p] at hstep
        cases hstep
      · by_cases hp : p = p'
        · subst hp
          obtain ⟨call, rest⟩ := run
          cases rest with
          | ret reply =>
              simp only [sharedStep, hrun, Option.some.injEq] at hstep
              subst hstep
              refine Or.inl ⟨fun q => ?_, hfollows⟩
              by_cases hq : q = p
              · simp [SharedStore.returnFrom, SharedStore.setRunning, hq]
              · simpa [SharedStore.returnFrom, SharedStore.setRunning, SharedStore.setView, hq]
                  using hothers q hq
          | op o k =>
              simp only [sharedStep, hrun, Option.some.injEq] at hstep
              subst hstep
              refine Or.inr ⟨p, ⟨call, k (perform dir o s.files).1⟩, ?_, fun q hq => ?_, ?_⟩
              · simp [SharedStore.setRunning]
              · simpa [SharedStore.setRunning, hq] using hothers q hq
              · refine ⟨hfollows.log, fun q => ?_⟩
                have hholds := hfollows.holds q
                exact hholds
        · simp only [sharedStep, hothers p hp] at hstep
          cases hstep
  | begin p call =>
      have hidle : s.Idle := by
        cases call with
        | snapshotFile maxBytes cwd path => exact hapart.1
        | undoLast => exact hapart
      simp only [sharedStep, hidle p, Option.some.injEq] at hstep
      subst hstep
      refine Or.inr ⟨p, ⟨call, portCalls (s.view p) call⟩, ?_, fun q hq => ?_, ?_⟩
      · simp [SharedStore.setRunning]
      · simpa [SharedStore.setRunning, hq] using hidle q
      · obtain ⟨hlog, hholds⟩ := (h.follows hidle).enter hapart
        exact ⟨hlog, hholds⟩
  | applyBegin p =>
      have hfollows := h.follows hapart
      simp only [sharedStep, hapart p, Option.some.injEq] at hstep
      subst hstep
      refine Or.inl ⟨hapart, hfollows.log, fun q => setView_holds hfollows.holds ?_ p q⟩
      exact (hfollows.holds p).of_windows rfl rfl rfl rfl rfl
  | applyEnd p =>
      have hfollows := h.follows hapart
      simp only [sharedStep, hapart p, Option.some.injEq] at hstep
      subst hstep
      refine Or.inl ⟨hapart, hfollows.log, fun q => setView_holds hfollows.holds ?_ p q⟩
      exact (hfollows.holds p).of_windows rfl rfl rfl rfl rfl
  | external path file =>
      have hfollows := h.follows hapart.1
      simp only [sharedStep, Option.some.injEq] at hstep
      subst hstep
      exact Or.inl ⟨hapart.1, hfollows.log, fun q =>
        external_refines (hfollows.holds q) hapart.2 file⟩

/-! ## Runs -/

theorem Together.run {dir : Text} {path : List (SharedAction P)} {s last : SharedStore P}
    {t : SharedStack P} (h : Together dir s t)
    (hapart : PathMeets (sharedStep dir) (Apart dir) s path)
    (hrun : runPath (sharedStep dir) s path = some last) :
    Together dir last (path.foldl SharedStack.follow t) := by
  induction path generalizing s t with
  | nil =>
      cases hrun
      exact h
  | cons a rest ih =>
      obtain ⟨s', hstep, hrest⟩ := runPath_cons hrun
      exact ih (h.step hapart.1 hstep) (hapart.2 s' hstep) hrest

theorem SharedStack.Complete.run {path : List (SharedAction P)} {t : SharedStack P}
    (h : t.Complete) : (path.foldl SharedStack.follow t).Complete := by
  induction path generalizing t with
  | nil => exact h
  | cons a rest ih => exact ih (h.follow a)

/-- Ports of any number of processes that do not overlap reply as those of one stack, on
which every snapshot taken stays until one undo restores it. -/
theorem sharedStore_apart {dir : Text} {fs : Files} (hfresh : FreshStore dir fs)
    {path : List (SharedAction P)} {last : SharedStore P}
    (hapart : PathMeets (sharedStep dir) (Apart dir) (.start fs) path)
    (hrun : runPath (sharedStep dir) (.start fs) path = some last) (hidle : last.Idle) :
    last.log = (path.foldl SharedStack.follow (.start fs)).log ∧
      (∀ p, Refines dir (last.view p) ((path.foldl SharedStack.follow (.start fs)).view p)) ∧
      (path.foldl SharedStack.follow (SharedStack.start (P := P) fs)).Complete := by
  have hstart : Together dir (SharedStore.start (P := P) fs) (.start fs) :=
    Or.inl ⟨fun _ => rfl, rfl, fun _ => hfresh.refines⟩
  obtain ⟨hlog, hholds⟩ := (hstart.run hapart hrun).follows hidle
  exact ⟨hlog, hholds, SharedStack.Complete.run (List.Perm.refl [])⟩

instance (s : SharedStore Bool) : Decidable s.Idle :=
  inferInstanceAs (Decidable (∀ p : Bool, s.running p = none))

instance (dir : Text) (s : SharedStore Bool) : (a : SharedAction Bool) → Decidable (Apart dir s a)
  | .begin _ (.snapshotFile _ cwd path) =>
      inferInstanceAs (Decidable (s.Idle ∧ ¬ Inside dir (rashUndoAbspath cwd path) ∧
        rashUndoLatestSeq dir s.files < ulongMax))
  | .begin _ .undoLast => inferInstanceAs (Decidable s.Idle)
  | .step _ => inferInstanceAs (Decidable True)
  | .applyBegin _ => inferInstanceAs (Decidable s.Idle)
  | .applyEnd _ => inferInstanceAs (Decidable s.Idle)
  | .external path _ => inferInstanceAs (Decidable (s.Idle ∧ ¬ Inside dir path))

/-- A port of one process from its entry to its return, which takes `steps` steps. -/
def wholePort (p : Bool) (call : PortCall) (steps : ℕ) : List (SharedAction Bool) :=
  .begin p call :: List.replicate steps (.step p)

def snapshotOf (c : Char) : PortCall := .snapshotFile none none ['/', c]

def handover : List (SharedAction Bool) :=
  wholePort true (snapshotOf 'a') 12 ++ wholePort false .undoLast 14

/-- One process takes a snapshot, the other one undoes it. -/
theorem sharedStore_apart_handover :
    (handover.foldl SharedStack.follow (.start fun _ => none)).log =
      [(true, snapshotOf 'a', (true, none)), (false, .undoLast, (true, none))] := by
  have hrun : runPath (sharedStep undoRoot) (.start fun _ => none) handover =
      some ((runPath (sharedStep undoRoot) (.start fun _ => none) handover).get (by decide)) :=
    (Option.some_get _).symm
  have hlog := (sharedStore_apart freshStore_none (by decide) hrun (by decide)).1
  rw [← hlog]
  decide

/-- One process has read the seq file when the other one takes two snapshots. -/
def overlap : List (SharedAction Bool) :=
  .begin false (snapshotOf 'a') :: List.replicate 4 (.step false) ++
    wholePort true (snapshotOf 'b') 13 ++ wholePort true (snapshotOf 'c') 13 ++
      List.replicate 4 (.step false) ++ [.external ['/', 'c'] (edited 'c')] ++
        wholePort true .undoLast 14 ++ wholePort true .undoLast 4

/-- The second snapshot is passed over: the stack reads as empty, the file stays. -/
theorem sharedStore_lost :
    (runPath (sharedStep undoRoot) (.start fun _ => none) overlap).map
        (fun s => (s.log, s.files ['/', 'c'])) =
      some ([(true, snapshotOf 'b', (true, none)), (true, snapshotOf 'c', (true, none)),
        (false, snapshotOf 'a', (false, some "cannot create undo entry: File exists")),
        (true, .undoLast, (true, none)), (true, .undoLast, stackEmpty)],
        (edited 'c').map .regular) := by
  rfl

end Rash
