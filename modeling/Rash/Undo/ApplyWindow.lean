import Rash.Undo.Store

/-!
# The window of a redirection apply

`rash_stage_apply_simple_redirects` opens the window, asks the policies, carries the redirections
out and closes the window.  There is one window in the process: a simple command that runs while
the redirections are expanded opens and closes the same one.
-/

namespace Rash

open FlatFiles

namespace ApplyWindow

/-- What happens in an apply.  A command that runs in it has an apply of its own when it has
redirections. -/
inductive ApplyEvent
  /-- A callback calls `rash.snapshot_file`. -/
  | snapshotFile (maxBytes cwd : Option Text) (path : Text)
  | undoLast
  /-- A redirection is opened, or something else changes a file. -/
  | external (path : Text) (file : Option RegularFile)
  /-- The apply of a command that runs in the process: what its policies do, whether they deny, and
  what happens in its `do_redirections`. -/
  | nested (policy : List ApplyEvent) (denied : Bool) (port : List ApplyEvent)

def ApplyEvent.IsNested : ApplyEvent → Prop
  | .nested _ _ _ => True
  | _ => False

instance : (e : ApplyEvent) → Decidable e.IsNested
  | .nested _ _ _ => inferInstanceAs (Decidable True)
  | .snapshotFile _ _ _ | .undoLast | .external _ _ => inferInstanceAs (Decidable False)

/-- What the command sees of its window: a preimage that is taken, and whether the window is open
behind the apply of a nested command. -/
inductive WindowNote
  | taken (abspath : Text)
  | returned (active : Bool)
  deriving DecidableEq

/-- `rash.snapshot_file` with the preimage it takes. -/
def snapshotNoted (dir : Text) (maxBytes cwd : Option Text) (path : Text) (s : UndoState) :
    UndoState × List WindowNote :=
  let r := rashLuaSnapshotFile dir maxBytes cwd path s
  (r.2, if r.1 = (true, none) then [.taken (rashUndoAbspath cwd path)] else [])

mutual

def applyEvent (dir : Text) (s : UndoState) : ApplyEvent → UndoState × List WindowNote
  | .snapshotFile maxBytes cwd path => snapshotNoted dir maxBytes cwd path s
  | .undoLast => ((rashLuaUndoLast dir s).2, [])
  | .external path file => ({ s with files := s.files.set path (file.map .regular) }, [])
  | .nested policy denied port =>
      let s' := (applyEvents dir s.applyBegin policy).1
      let s' := if denied then s' else (applyEvents dir s' port).1
      (s'.applyEnd, [.returned s'.applyEnd.applyWindowActive])

def applyEvents (dir : Text) (s : UndoState) : List ApplyEvent → UndoState × List WindowNote
  | [] => (s, [])
  | e :: events =>
      let (s', notes) := applyEvent dir s e
      let (s'', later) := applyEvents dir s' events
      (s'', notes ++ later)

end

/-- `rash_stage_apply_simple_redirects` with what the command sees of its window. -/
def rashStageApplySimpleRedirects (dir : Text) (policy : List ApplyEvent) (denied : Bool)
    (port : List ApplyEvent) (s : UndoState) : UndoState × List WindowNote :=
  let (s', notes) := applyEvents dir s.applyBegin policy
  if denied then (s'.applyEnd, notes)
  else
    let (s'', later) := applyEvents dir s' port
    (s''.applyEnd, notes ++ later)

def takenPaths (notes : List WindowNote) : List Text :=
  notes.filterMap fun
    | .taken abspath => some abspath
    | .returned _ => none

/-- Each path is taken once, and the window is open behind each nested command. -/
def OnePreimage (notes : List WindowNote) : Prop :=
  (takenPaths notes).Nodup ∧ ∀ active, .returned active ∈ notes → active = true

variable {dir path abspath : Text} {maxBytes cwd : Option Text} {s : UndoState}
  {e : ApplyEvent} {events policy port : List ApplyEvent} {denied : Bool}

/-! ## One snapshot -/

/-- A snapshot takes a preimage and enters its path, or leaves the window. -/
structure WindowStep (s s' : UndoState) (reply : Reply) (abspath : Text) : Prop where
  active : s'.applyWindowActive = s.applyWindowActive
  taken : reply = (true, none) → abspath ∉ s.applyWindowPaths ∧
    s'.applyWindowPaths = s.applyWindowPaths ++ [abspath]
  left : reply ≠ (true, none) → s'.applyWindowPaths = s.applyWindowPaths

theorem WindowStep.of_failed {s' : UndoState} {reply : Reply} (hreply : reply ≠ (true, none))
    (hactive : s'.applyWindowActive = s.applyWindowActive)
    (hpaths : s'.applyWindowPaths = s.applyWindowPaths) : WindowStep s s' reply abspath :=
  ⟨hactive, fun h => absurd h hreply, fun _ => hpaths⟩

theorem takeSnapshot_window {fs : Files} (hopen : s.applyWindowActive = true)
    (hnew : abspath ∉ s.applyWindowPaths) (preimage : Option RegularFile) :
    WindowStep s (takeSnapshot dir abspath preimage { s with files := fs }).2
      (takeSnapshot dir abspath preimage { s with files := fs }).1 abspath := by
  unfold takeSnapshot
  dsimp only
  split
  · exact .of_failed nofun rfl rfl
  · rename_i seq fs' _
    by_cases hseq : seq = 0
    · rw [if_pos hseq]
      exact .of_failed (show seqWrapped ≠ (true, none) by decide) rfl rfl
    · rw [if_neg hseq]
      by_cases hwritten : (writeEntry dir seq abspath preimage fs').1.1 = true
      · dsimp only
        rw [if_pos hwritten, UndoState.applyWindowAdd, if_pos hopen]
        exact ⟨rfl, fun _ => ⟨hnew, rfl⟩, fun h => absurd (writeEntry_reply hwritten) h⟩
      · dsimp only
        rw [if_neg hwritten]
        exact .of_failed (fun h => hwritten (congrArg Prod.fst h)) rfl rfl

theorem rashLuaSnapshotFile_window (hopen : s.applyWindowActive = true) :
    WindowStep s (rashLuaSnapshotFile dir maxBytes cwd path s).2
      (rashLuaSnapshotFile dir maxBytes cwd path s).1 (rashUndoAbspath cwd path) := by
  unfold rashLuaSnapshotFile
  split
  · exact .of_failed nofun rfl rfl
  · rename_i fs _
    dsimp only
    by_cases hhas : { s with files := fs }.applyWindowHas (rashUndoAbspath cwd path) = true
    · rw [if_pos hhas]
      exact .of_failed (show already ≠ (true, none) by decide) rfl rfl
    · rw [if_neg hhas]
      have hnew : rashUndoAbspath cwd path ∉ s.applyWindowPaths := by
        rw [UndoState.applyWindowHas, hopen, Bool.true_and, List.contains_iff_mem] at hhas
        exact hhas
      split
      · exact takeSnapshot_window hopen hnew _
      · split_ifs
        · exact .of_failed (show exceedsMaxBytes ≠ (true, none) by decide) rfl rfl
        · exact takeSnapshot_window hopen hnew _
      · exact .of_failed (show notRegularFile ≠ (true, none) by decide) rfl rfl

/-! ## An apply -/

/-- The window is open and holds what was taken, each path once. -/
structure InWindow (s : UndoState) (taken : List Text) : Prop where
  isOpen : s.applyWindowActive = true
  paths : s.applyWindowPaths = taken
  nodup : taken.Nodup

theorem takenPaths_append (notes later : List WindowNote) :
    takenPaths (notes ++ later) = takenPaths notes ++ takenPaths later :=
  List.filterMap_append

theorem InWindow.quiet {taken : List Text} {s' : UndoState} (h : InWindow s taken)
    (hactive : s'.applyWindowActive = s.applyWindowActive)
    (hpaths : s'.applyWindowPaths = s.applyWindowPaths) : InWindow s' (taken ++ takenPaths []) := by
  rw [takenPaths, List.filterMap_nil, List.append_nil]
  exact ⟨hactive.trans h.isOpen, hpaths.trans h.paths, h.nodup⟩

theorem rashLuaUndoLast_window (dir : Text) (s : UndoState) :
    (rashLuaUndoLast dir s).2.applyWindowActive = s.applyWindowActive ∧
      (rashLuaUndoLast dir s).2.applyWindowPaths = s.applyWindowPaths := by
  unfold rashLuaUndoLast
  split
  · exact ⟨rfl, rfl⟩
  · split <;> exact ⟨rfl, rfl⟩

theorem InWindow.snapshot {taken : List Text} (h : InWindow s taken) :
    InWindow (snapshotNoted dir maxBytes cwd path s).1
      (taken ++ takenPaths (snapshotNoted dir maxBytes cwd path s).2) := by
  have hstep := @rashLuaSnapshotFile_window dir path maxBytes cwd _ h.isOpen
  unfold snapshotNoted
  dsimp only
  by_cases hreply : (rashLuaSnapshotFile dir maxBytes cwd path s).1 = (true, none)
  · obtain ⟨hnew, hpaths⟩ := hstep.taken hreply
    rw [h.paths] at hnew hpaths
    rw [if_pos hreply]
    refine ⟨hstep.active.trans h.isOpen, hpaths, ?_⟩
    exact List.nodup_append.mpr ⟨h.nodup, List.pairwise_singleton _ _,
      fun a ha b hb hab => hnew (List.mem_singleton.mp hb ▸ hab ▸ ha)⟩
  · rw [if_neg hreply]
    exact h.quiet hstep.active (hstep.left hreply)

/-- What the command does itself keeps the window open, and a path that it takes is new. -/
theorem InWindow.event {taken : List Text} (h : InWindow s taken) (he : ¬ e.IsNested) :
    InWindow (applyEvent dir s e).1 (taken ++ takenPaths (applyEvent dir s e).2) ∧
      ∀ active, .returned active ∉ (applyEvent dir s e).2 := by
  cases e with
  | snapshotFile maxBytes cwd path =>
      refine ⟨h.snapshot, fun active hmem => ?_⟩
      rw [applyEvent, snapshotNoted] at hmem
      dsimp only at hmem
      split_ifs at hmem
      · cases List.mem_singleton.mp hmem
      · cases hmem
  | undoLast =>
      obtain ⟨hactive, hpaths⟩ := rashLuaUndoLast_window dir s
      exact ⟨h.quiet hactive hpaths, fun _ => List.not_mem_nil⟩
  | external path file => exact ⟨h.quiet rfl rfl, fun _ => List.not_mem_nil⟩
  | nested policy denied port => exact absurd trivial he

theorem InWindow.run {taken : List Text} (h : InWindow s taken)
    (hevents : ∀ e ∈ events, ¬ e.IsNested) :
    InWindow (applyEvents dir s events).1 (taken ++ takenPaths (applyEvents dir s events).2) ∧
      ∀ active, .returned active ∉ (applyEvents dir s events).2 := by
  induction events generalizing s taken with
  | nil => exact ⟨h.quiet rfl rfl, fun _ => List.not_mem_nil⟩
  | cons e events ih =>
      obtain ⟨hfirst, hquiet⟩ := @InWindow.event dir _ _ _ h (hevents e List.mem_cons_self)
      obtain ⟨hrest, hlater⟩ := ih hfirst fun e' he' => hevents e' (List.mem_cons_of_mem e he')
      rw [applyEvents]
      dsimp only
      rw [takenPaths_append, ← List.append_assoc]
      refine ⟨hrest, fun active hmem => ?_⟩
      exact (List.mem_append.mp hmem).elim (hquiet active) (hlater active)

/-- Behind a nested command the window is closed. -/
theorem returned_false_mem (he : e ∈ events) (hnested : e.IsNested) (dir : Text) (s : UndoState) :
    .returned false ∈ (applyEvents dir s events).2 := by
  induction events generalizing s with
  | nil => cases he
  | cons e' events ih =>
      rw [applyEvents]
      dsimp only
      rcases List.mem_cons.mp he with rfl | he
      · cases e with
        | nested policy denied port =>
            rw [applyEvent]
            exact List.mem_append_left _ (List.mem_singleton.mpr rfl)
        | _ => cases hnested
      · exact List.mem_append_right _ (ih he _)

/-! ## The apply of a command -/

/-- A policy that denies ends the apply. -/
def performed (policy : List ApplyEvent) (denied : Bool) (port : List ApplyEvent) :
    List ApplyEvent :=
  policy ++ if denied then [] else port

theorem applyEvents_append (dir : Text) (s : UndoState) (events later : List ApplyEvent) :
    applyEvents dir s (events ++ later) =
      let (s', notes) := applyEvents dir s events
      let (s'', more) := applyEvents dir s' later
      (s'', notes ++ more) := by
  induction events generalizing s with
  | nil => rfl
  | cons e events ih =>
      rw [List.cons_append, applyEvents, applyEvents]
      dsimp only
      rw [ih]
      dsimp only
      rw [List.append_assoc]

theorem rashStageApplySimpleRedirects_eq (dir : Text) (policy : List ApplyEvent) (denied : Bool)
    (port : List ApplyEvent) (s : UndoState) :
    rashStageApplySimpleRedirects dir policy denied port s =
      ((applyEvents dir s.applyBegin (performed policy denied port)).1.applyEnd,
        (applyEvents dir s.applyBegin (performed policy denied port)).2) := by
  rw [performed, applyEvents_append, rashStageApplySimpleRedirects]
  cases denied
  · rfl
  · dsimp only
    rw [if_pos rfl, if_pos rfl, applyEvents, List.append_nil]

/-- A nested command's apply is the same function on the same window. -/
theorem applyEvent_nested :
    (applyEvent dir s (.nested policy denied port)).1 =
      (rashStageApplySimpleRedirects dir policy denied port s).1 := by
  rw [applyEvent, rashStageApplySimpleRedirects]
  cases denied <;> rfl

theorem InWindow.begin (s : UndoState) : InWindow s.applyBegin [] := ⟨rfl, rfl, List.nodup_nil⟩

/-- A path is taken once in an apply, in a window that stays open, exactly when no command with
redirections of its own runs in it. -/
theorem rashStageApplySimpleRedirects_onePreimage_iff :
    OnePreimage (rashStageApplySimpleRedirects dir policy denied port s).2 ↔
      ∀ e ∈ performed policy denied port, ¬ e.IsNested := by
  rw [rashStageApplySimpleRedirects_eq]
  refine ⟨fun h e he hnested => ?_, fun h => ?_⟩
  · exact Bool.false_ne_true (h.2 false (returned_false_mem he hnested dir s.applyBegin))
  · obtain ⟨hwindow, hquiet⟩ := @InWindow.run dir _ _ _ (InWindow.begin s) h
    rw [List.nil_append] at hwindow
    exact ⟨hwindow.nodup, fun active hmem => absurd hmem (hquiet active)⟩

def undoDirectory : Text := ['/', 'u']

def clobbered : Text := ['/', 'f']

/-- `>f >|${ : >g; echo f; }`: the policy takes the preimage, `f` is emptied, and behind the nested
command `f` is taken again; `rash.undo_last` puts back the empty file. -/
theorem rashStageApplySimpleRedirects_taken_twice :
    let r := rashStageApplySimpleRedirects undoDirectory [.snapshotFile none none clobbered] false
      [.external clobbered (some ⟨0o644, []⟩), .nested [] false [.external ['/', 'g'] none],
        .snapshotFile none none clobbered]
      (.start (Files.set (fun _ => none) clobbered (some (.regular ⟨0o644, ['a']⟩))))
    r.2 = [.taken clobbered, .returned false, .taken clobbered] ∧ ¬ OnePreimage r.2 ∧
      (rashLuaUndoLast undoDirectory r.1).2.files clobbered = some (.regular ⟨0o644, []⟩) := by
  intro r
  have hnotes : r.2 = [.taken clobbered, .returned false, .taken clobbered] := by decide
  refine ⟨hnotes, fun h => ?_, by decide⟩
  exact Bool.false_ne_true (h.2 false (by rw [hnotes]; decide))

end ApplyWindow

end Rash
