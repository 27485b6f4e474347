import Rash.Exec.SimpleCommand
import Rash.Exec.StageAnswers

/-!
# The marks of an executing builtin

`executing_builtin` and `executing_command_builtin` through `execute_simple_command`: who changes
them, and on which ways out of the command they are put back.
-/

namespace Rash

open Interaction Path Code

variable {σ Θ : Type}

/-- `executing_builtin` and `executing_command_builtin` -/
def Shell.marks (p : Shell σ Θ) : Int × Int :=
  (p.globals.executingBuiltin, p.globals.executingCommandBuiltin)

def KeepsMarks (f : Shell σ Θ → Shell σ Θ) : Prop := ∀ p, (f p).marks = p.marks

/-- The marks are the same where the call returns. -/
def ReturnKeepsMarks {X A : Type} (f : Shell σ Θ → Except X A × Shell σ Θ) : Prop :=
  ∀ p a p', f p = (.ok a, p') → p'.marks = p.marks

/-- What the command calls leaves the marks as it finds them.  Of the builtins this is about the
two that resume a job; the others run between a save and a restore. -/
structure MarksKept (w : SimpleWorld σ Θ) : Prop where
  quit : ReturnKeepsMarks w.quit
  runDebugTrap : ReturnKeepsMarks w.runDebugTrap
  makeChild : ∀ child async, ReturnKeepsMarks (w.makeChild child async)
  childRan : ∀ parent child, (w.childRan parent child).marks = parent.marks
  doPiping : ∀ pipeIn pipeOut, KeepsMarks (w.doPiping pipeIn pipeOut)
  closePipes : ∀ pipeIn pipeOut, KeepsMarks (w.closePipes pipeIn pipeOut)
  expandWords : ∀ words, ReturnKeepsMarks (w.expandWords words)
  doRedirections : ∀ redirects undoable p status,
    (w.doRedirections redirects undoable p).outcome = .ok status →
      (w.doRedirections redirects undoable p).shell.marks = p.marks
  cleanupRedirects : KeepsMarks w.cleanupRedirects
  undoPartialRedirects : KeepsMarks w.undoPartialRedirects
  saveUndoLists : ∀ exec, KeepsMarks (w.saveUndoLists exec)
  undoSavedLists : ∀ exec, KeepsMarks (w.undoSavedLists exec)
  bindLastarg : ∀ lastarg, KeepsMarks (w.bindLastarg lastarg)
  xtracePrintWordList : ∀ words, KeepsMarks (w.xtracePrintWordList words)
  captureStdio : KeepsMarks fun p => (w.captureStdio p).2
  restoreStdio : KeepsMarks fun p => (w.restoreStdio p).2
  writeFully : ∀ fd text, KeepsMarks (w.writeFully fd text)
  jobBuiltin : ∀ b, b = .fg ∨ b = .bg → ∀ words flags,
    ReturnKeepsMarks (w.runBuiltin b words false flags)
  runFunction : ∀ name words flags, ReturnKeepsMarks (w.runFunction name words false flags)
  startJob : ∀ job, KeepsMarks fun p => (w.startJob job p).2
  unwindSimpleCommand : KeepsMarks w.unwindSimpleCommand
  searchForCommand : ∀ name stdpath, KeepsMarks fun p => (w.searchForCommand name stdpath p).2

variable {w : SimpleWorld σ Θ} {m : Int × Int} {A B : Type} {P : Prop}

/-! ## Code that leaves the marks -/

def Marked (m : Int × Int) (s : SimpleState σ Θ) : Prop := s.shell.marks = m

theorem marked_iff {s : SimpleState σ Θ} : Marked m s ↔
    s.shell.globals.executingBuiltin = m.1 ∧ s.shell.globals.executingCommandBuiltin = m.2 :=
  Prod.ext_iff

/-- What is asked of a state that the command is left in -/
abbrev Anyhow : Leave → SimpleState σ Θ → Prop := fun _ _ => True

abbrev Steady (m : Int × Int) (c : Code σ Θ A) : Prop := Preserves (Marked m) Anyhow c

theorem steady_call {f : Shell σ Θ → Except Leave A × Shell σ Θ} (h : ReturnKeepsMarks f) :
    Steady m (Code.call f) := by
  intro s hs
  unfold Code.call
  rcases hf : f s.shell with ⟨_ | a, p⟩
  · trivial
  · exact (h s.shell a p hf).trans hs

theorem steady_callDeparts {f : Shell σ Θ → Except Departure A × Shell σ Θ}
    (h : ReturnKeepsMarks f) : Steady m (callDeparts f) := by
  refine steady_call fun p a p' hcall => ?_
  rcases hf : f p with ⟨_ | b, q⟩
  · rw [hf] at hcall
    cases hcall
  · rw [hf] at hcall
    cases hcall
    exact h p _ _ hf

theorem steady_always {f : Shell σ Θ → A × Shell σ Θ} (h : KeepsMarks fun p => (f p).2) :
    Steady m (always f) := fun s hs => (h s.shell).trans hs

theorem steady_update {f : Shell σ Θ → Shell σ Θ} (h : KeepsMarks f) : Steady m (update f) :=
  fun s hs => (h s.shell).trans hs

theorem steady_shell (f : Shell σ Θ → A) : Steady m (shell f) := fun _ h => h

theorem steady_globals (f : ShellGlobals → A) : Steady m (globals f : Code σ Θ A) := fun _ h => h

theorem steady_setGlobals {f : ShellGlobals → ShellGlobals}
    (h : ∀ g, (f g).executingBuiltin = g.executingBuiltin ∧
      (f g).executingCommandBuiltin = g.executingCommandBuiltin) :
    Steady m (setGlobals f : Code σ Θ Unit) :=
  steady_update fun p => Prod.ext (h p.globals).1 (h p.globals).2

theorem steady_setLastCommandExitValue (status : Status) :
    Steady m (setLastCommandExitValue status : Code σ Θ Unit) :=
  steady_setGlobals fun _ => ⟨rfl, rfl⟩

theorem steady_note (e : SimpleEvent) : Steady m (note e : Code σ Θ Unit) := fun _ h => h

theorem steady_onlyIf [Decidable P] {c : Code σ Θ Unit} (hc : Steady m c) :
    Steady m (onlyIf P c) := preserves_ite hc (preserves_pure _)

/-- Code that never returns -/
abbrev Departs (c : Code σ Θ A) : Prop := Holds (fun _ => True) c (fun _ _ => False) Anyhow

theorem leaves_depart (d : Departure) : Departs (depart d : Code σ Θ A) := fun _ _ => trivial

theorem leaves_exit (status : Status) : Departs (Code.exit status : Code σ Θ A) :=
  leaves_depart (.exit status)

theorem Departs.behind {c : Code σ Θ A} {k : A → Code σ Θ B} (hk : ∀ a, Departs (k a)) :
    Departs (c >>= k) := (preserves_true c).bind_holds hk

theorem Departs.holds {c : Code σ Θ A} {pre : SimpleState σ Θ → Prop}
    {post : A → SimpleState σ Θ → Prop} (hc : Departs c) : Holds pre c post Anyhow :=
  Holds.mono hc (fun _ _ => trivial) (fun _ _ h => h.elim) fun _ _ _ => trivial

theorem steady_quit (hw : MarksKept w) : Steady m (Code.quit w) := by
  intro s hs
  unfold Code.quit
  rcases hquit : w.quit s.shell with ⟨_ | a, p⟩
  · trivial
  · exact (hw.quit s.shell a p hquit).trans hs

/-! ## The stages -/

theorem Asked.marked {s s' : SimpleState σ Θ} {added : List SimpleEvent} (h : Asked s s' added)
    (hs : Marked m s) : Marked m s' := by
  rw [Marked, Shell.marks, h.globals]
  exact hs

theorem Answered.marked {kind : HookKind} {s s' : SimpleState σ Θ} {denied : Bool}
    (h : Answered kind s denied s') (hs : Marked m s) : Marked m s' := by
  obtain ⟨asked, added, hasked, rfl⟩ := h
  cases denied with
  | false => exact hasked.marked hs
  | true => exact hasked.marked hs

theorem steady_doRedirections (hw : MarksKept w) (redirects : List Redirect) (undoable : Bool) :
    Steady m (doRedirections w redirects undoable) := by
  intro s hs
  unfold doRedirections
  dsimp only
  rcases houtcome : (w.doRedirections redirects undoable s.shell).outcome with _ | status
  · trivial
  · exact (hw.doRedirections redirects undoable s.shell status houtcome).trans hs

theorem steady_rashStageApplySimpleRedirects (hw : MarksKept w) (redirects : List Redirect)
    (undoable : Bool) : Steady m (rashStageApplySimpleRedirects w redirects undoable) := by
  unfold rashStageApplySimpleRedirects
  apply (preserves_step fun s hs =>
    (rashHooksRedirectPolicy_answered w.hookFiles w.lstat w.shellVariables redirects s).marked
      hs).bind
  rintro ⟨denied, apply⟩
  refine preserves_ite (preserves_pure _) ?_
  refine (steady_doRedirections hw _ undoable).bind fun r => ?_
  refine preserves_ite (preserves_pure _) (preserves_ite ?_ (preserves_pure _))
  exact (steady_update hw.undoPartialRedirects).bind fun _ => preserves_pure _

theorem steady_forkChild (hw : MarksKept w) (async : Bool) (environment : SubshellEnvironment)
    (child : Code σ Θ Empty) : Steady m (forkChild w async environment child) := by
  intro s hs
  unfold forkChild
  rcases hchild : w.makeChild false async s.shell with ⟨_ | u, parent⟩
  · trivial
  · exact ((hw.childRan _ _).trans (hw.makeChild false async s.shell u parent hchild)).trans hs

theorem steady_executeNullCommand (hw : MarksKept w) (redirects : List Redirect)
    (pipeIn pipeOut : Int) (async : Bool) :
    Steady m (executeNullCommand w redirects pipeIn pipeOut async) := by
  unfold executeNullCommand
  refine (steady_shell _).bind fun forks => preserves_ite ?_ ?_
  · refine (steady_forkChild hw async _ _).bind fun _ => ?_
    exact (steady_update (hw.closePipes _ _)).bind fun _ => preserves_pure _
  · refine (steady_doRedirections hw redirects true).bind fun r => ?_
    refine (steady_update hw.cleanupRedirects).bind fun _ => ?_
    refine (steady_globals _).bind fun subst => ?_
    exact preserves_ite (preserves_pure _) (preserves_pure _)

theorem steady_executeFunction (hw : MarksKept w) (name : String) (words : List WordDesc)
    (flags : CommandFlags) : Steady m (executeFunction w name words flags false) := by
  unfold executeFunction
  refine (steady_globals _).bind fun nested => preserves_ite ?_ ?_
  · exact (Departs.behind fun _ => leaves_depart _).holds
  · refine Preserves.bind (preserves_step fun s hs =>
      (rashHooksOnFunction_answered w.hookFiles name words s).marked hs) fun denied => ?_
    refine preserves_ite (preserves_pure _) ?_
    exact (steady_note _).bind fun _ => steady_callDeparts (hw.runFunction name words flags)

theorem leaves_diskCommandChild (w : SimpleWorld σ Θ) (words : List WordDesc)
    (redirects : List Redirect) (command : Option String) (pipeIn pipeOut : Int) :
    Departs (diskCommandChild w words redirects command pipeIn pipeOut : Code σ Θ A) := by
  unfold diskCommandChild
  refine Departs.behind fun _ => Departs.behind fun r => ?_
  refine holds_ite (fun _ => leaves_exit _) fun _ => ?_
  cases command with
  | some command => exact Departs.behind fun status => leaves_exit status
  | none =>
      refine Departs.behind fun hookf => ?_
      cases hookf with
      | none => exact leaves_exit _
      | some hookf => exact Departs.behind fun status => leaves_exit status

theorem steady_executeDiskCommand (hw : MarksKept w) (words : List WordDesc)
    (redirects : List Redirect) (pipeIn pipeOut : Int) (async : Bool) (flags : CommandFlags) :
    Steady m (executeDiskCommand w words redirects pipeIn pipeOut async flags) := by
  unfold executeDiskCommand
  refine (steady_globals _).bind fun restricted => preserves_ite ?_ ?_
  · refine (steady_setLastCommandExitValue _).bind fun _ => preserves_ite ?_ ?_
    · exact (leaves_exit _).holds
    · refine (steady_quit hw).bind fun _ => ?_
      exact (steady_update (hw.closePipes _ _)).bind fun _ => preserves_pure _
  · refine (steady_always (hw.searchForCommand _ _)).bind fun command => ?_
    refine (steady_quit hw).bind fun _ => preserves_ite ?_ ?_
    · exact (Departs.behind fun _ => leaves_diskCommandChild w words redirects command _ _).holds
    · refine Preserves.bind (preserves_reads _) fun environment => ?_
      refine (steady_forkChild hw async _ _).bind fun _ => (steady_quit hw).bind fun _ => ?_
      exact (steady_update (hw.closePipes _ _)).bind fun _ => preserves_pure _

/-! ## Up to the dispatch -/

/-- The mark behind `executing_command_builtin |= 1`, when `command` was stripped. -/
def Resolved.commandMark (resolved : Resolved) (mark : Int) : Int :=
  if resolved.flags.commandBuiltin then orOne mark else mark

/-- The marks in front of the dispatch, and the saved one. -/
structure ReadyMarks (m : Int × Int) (resolved : Resolved) (oldCommandBuiltin : Int)
    (s : SimpleState σ Θ) : Prop where
  marks : Marked (m.1, resolved.commandMark m.2) s
  saved : oldCommandBuiltin = if resolved.flags.commandBuiltin then m.2 else -1

theorem steady_startSimple (hw : MarksKept w) (child : Bool) (call : SimpleCall) :
    Steady m (startSimple w child call) := by
  unfold startSimple
  refine Preserves.bind (steady_setGlobals ?_) fun _ => (steady_quit hw).bind fun _ => ?_
  · exact fun _ => ⟨rfl, rfl⟩
  refine (steady_call hw.runDebugTrap).bind fun result => (steady_globals _).bind fun debug => ?_
  refine preserves_ite (preserves_pure _) (Preserves.bind (steady_setGlobals ?_) fun _ => ?_)
  · exact fun _ => ⟨rfl, rfl⟩
  refine preserves_ite (preserves_ite ?_ ?_) (preserves_pure _)
  · refine Preserves.bind ?_ fun _ => preserves_pure _
    refine (steady_callDeparts (hw.makeChild _ _)).bind fun _ => ?_
    refine Preserves.bind (preserves_modify fun s hs => hs) fun _ => ?_
    exact steady_update (hw.doPiping _ _)
  · refine (steady_callDeparts (hw.makeChild _ _)).bind fun _ => ?_
    refine (steady_globals _).bind fun last => ?_
    exact (steady_update (hw.closePipes _ _)).bind fun _ => preserves_pure _

theorem steady_rashStageExpandSimpleWords (hw : MarksKept w) (words : List WordDesc)
    (flags : CommandFlags) : Steady m (rashStageExpandSimpleWords w words flags) := by
  unfold rashStageExpandSimpleWords
  refine preserves_ite (preserves_pure _) (Preserves.bind (preserves_step fun s hs =>
    (rashHooksTryLuaExpand_answered w.hookFiles words s).marked hs) fun luaExpand => ?_)
  cases luaExpand with
  | words built => exact preserves_pure built
  | cExpand => exact steady_callDeparts (hw.expandWords words)
  | denied => exact preserves_pure []

theorem steady_checkTempenv (isSpecial : Bool) :
    Steady m (checkTempenv isSpecial : Code σ Θ Unit) := by
  unfold checkTempenv
  refine (steady_globals _).bind fun g => preserves_ite ?_ (steady_setGlobals fun _ => ⟨rfl, rfl⟩)
  refine (Departs.behind fun _ => ?_).holds
  exact holds_ite (fun _ => leaves_depart _) fun _ => leaves_depart _

theorem marks_resolveWords (hw : MarksKept w) (words : List WordDesc) (flags : CommandFlags) :
    Holds (Marked m) (resolveWords w words flags)
      (fun found => ReadyMarks m found.1 found.2) Anyhow := by
  unfold resolveWords
  refine (steady_onlyIf (steady_update (hw.xtracePrintWordList words))).bind_holds fun _ => ?_
  refine (steady_shell _).bind_holds fun resolved => ?_
  refine (steady_checkTempenv _).bind_holds fun _ => ?_
  refine Holds.bind (p := fun marked s => Marked m s ∧ marked = m.2)
    (fun s hs => ⟨hs, congrArg Prod.snd hs⟩) fun marked => ?_
  rintro s ⟨hs, rfl⟩
  refine Holds.bind (p := fun _ => Marked (m.1, resolved.commandMark m.2)) ?_ (fun _ => ?_) s hs
  · intro s hs
    unfold onlyIf Resolved.commandMark
    split_ifs
    · obtain ⟨hbuiltin, hcommand⟩ := marked_iff.mp hs
      exact marked_iff.mpr ⟨hbuiltin, congrArg orOne hcommand⟩
    · exact hs
  · refine (steady_quit hw).bind_holds fun _ => ?_
    exact fun s hs => ⟨hs, rfl⟩

/-- A command that has ended left the marks. -/
def PreparedMarks (m : Int × Int) (prepared : Prepared) (s : SimpleState σ Θ) : Prop :=
  match prepared with
  | .ended _ => Marked m s
  | .ready _ resolved oldCommandBuiltin => ReadyMarks m resolved oldCommandBuiltin s

theorem wantsStdio_marked (w : SimpleWorld σ Θ) {s : SimpleState σ Θ} (hs : Marked m s) :
    Marked m (wantsStdio w s).2 := by
  have hafter := (afterStage.wanted_asked w.hookFiles s).marked hs
  unfold wantsStdio
  dsimp only
  split
  · exact hafter
  · exact (stdioBundleStage.wanted_asked w.hookFiles _).marked hafter

theorem marks_prepareWords (hw : MarksKept w) (call : SimpleCall) (alreadyForked : Bool)
    (flags : CommandFlags) (words : List WordDesc) :
    Holds (Marked m) (prepareWords w call alreadyForked flags words) (PreparedMarks m)
      Anyhow := by
  unfold prepareWords
  refine Preserves.bind_holds (I := Marked m) (preserves_ite (preserves_pure _)
    (preserves_step fun s hs => (rashHooksBeforeSimple_answered w.hookFiles words s).marked hs))
    fun denied => holds_ite (fun _ => ?_) fun _ => ?_
  · exact (steady_setLastCommandExitValue _).bind_holds fun _ => fun s hs => hs
  · refine Preserves.bind_holds (I := Marked m) (preserves_ite (preserves_pure _)
      (preserves_step fun s hs => wantsStdio_marked w hs)) fun wants => ?_
    refine Preserves.bind_holds (I := Marked m)
      (preserves_ite (steady_always hw.captureStdio) (preserves_pure _)) fun captured => ?_
    exact Holds.bind (marks_resolveWords hw words flags) fun found => fun s hs => hs

theorem marks_prepareCommand (hw : MarksKept w) (call : SimpleCall) (alreadyForked : Bool) :
    Holds (Marked m) (prepareCommand w call alreadyForked) (PreparedMarks m) Anyhow := by
  unfold prepareCommand
  refine (steady_quit hw).bind_holds fun _ => ?_
  refine (steady_rashStageExpandSimpleWords hw _ _).bind_holds fun words => ?_
  refine holds_ite (fun _ => ?_) fun _ => marks_prepareWords hw call alreadyForked _ words
  refine (steady_executeNullCommand hw _ _ _ _).bind_holds fun result => ?_
  refine holds_ite (fun _ => (leaves_exit _).holds) fun _ => ?_
  exact (steady_update (hw.bindLastarg "")).bind_holds fun _ => fun s hs => hs

/-! ## The dispatch -/

/-- How the dispatch of a command goes: a callback denies it, a stopped job is resumed and the
frame of the command unwound, a builtin runs, or a function, a program or a job. -/
inductive DispatchWay
  | denied
  | resumed
  | builtin
  | other
  deriving DecidableEq

def Selected.way : Selected → DispatchWay
  | .ended result => if result.earlyReturn then .resumed else .other
  | .target _ (.builtin _) => .builtin
  | .target _ (.function _) | .disk _ => .other

def selectedWay : Except Leave Selected → DispatchWay
  | .ok selected => selected.way
  | .error _ => .other

def dispatchWay (w : SimpleWorld σ Θ) (call : SimpleCall) (alreadyForked : Bool)
    (resolved : Resolved) (oldCommandBuiltin : Int) (s : SimpleState σ Θ) : DispatchWay :=
  let chosen := rashHooksChooseDispatch w.hookFiles resolved.words resolved.isFunction
    resolved.isBuiltin s
  if chosen.1.1 then .denied
  else selectedWay (selectTarget w
    (.of call alreadyForked resolved oldCommandBuiltin chosen.1.2) chosen.2).1

/-- The marks that the command is left with. -/
def marksBehind (m : Int × Int) (resolved : Resolved) (oldCommandBuiltin : Int) :
    DispatchWay → Int × Int
  | .denied =>
      if resolved.isBuiltin then (0, oldCommandBuiltin) else (m.1, resolved.commandMark m.2)
  | .resumed | .builtin => m
  | .other => (m.1, resolved.commandMark m.2)

/-- The marks that `ended` leaves behind the end of the command. -/
def DispatchEnd.marks (ended : DispatchEnd) (s : SimpleState σ Θ) : Int × Int :=
  if ended.earlyReturn then s.shell.marks else ended.builtin.getD s.shell.marks

theorem marks_dispatchDisk (hw : MarksKept w) (d : SimpleDispatch) (words : List WordDesc)
    (pipeIn pipeOut : Int) :
    Holds (Marked m) (dispatchDisk w d words pipeIn pipeOut) (fun ended s => ended.marks s = m)
      Anyhow := by
  unfold dispatchDisk
  refine (steady_shell _).bind_holds fun pending => ?_
  refine (steady_executeDiskCommand hw words _ _ _ _ _).bind_holds fun result => ?_
  exact fun s hs => hs

/-- What the unwind frame puts back, and what the dispatch saves. -/
theorem saved_mark {resolved : Resolved} {old : Int}
    (hsaved : old = if resolved.flags.commandBuiltin then m.2 else -1) :
    (if old = -1 then resolved.commandMark m.2 else old) = m.2 := by
  rw [hsaved, Resolved.commandMark]
  by_cases hcommand : resolved.flags.commandBuiltin = true
  · rw [if_pos hcommand, if_pos hcommand]
    by_cases hmark : m.2 = -1
    · rw [if_pos hmark, hmark]
      rfl
    · rw [if_neg hmark]
  · rw [if_neg hcommand, if_neg hcommand, if_pos rfl]

section Dispatch

variable {resolved : Resolved} {d : SimpleDispatch}

/-- What is left of the marks by a command that is not dispatched, or that is selected. -/
def SelectedMarks (m : Int × Int) (resolved : Resolved) (oldCommandBuiltin : Int)
    (selected : Selected) (s : SimpleState σ Θ) : Prop :=
  match selected with
  | .ended ended => ended.marks s = marksBehind m resolved oldCommandBuiltin selected.way
  | .target _ _ | .disk _ => Marked (m.1, resolved.commandMark m.2) s

def JobMarks (m : Int × Int) (resolved : Resolved) (oldCommandBuiltin : Int) :
    Option DispatchEnd → SimpleState σ Θ → Prop
  | none => Marked (m.1, resolved.commandMark m.2)
  | some ended => SelectedMarks m resolved oldCommandBuiltin (.ended ended)

theorem marks_dispatchJob (hw : MarksKept w)
    (hsaved : d.oldCommandBuiltin = if resolved.flags.commandBuiltin then m.2 else -1) :
    Holds (Marked (m.1, resolved.commandMark m.2)) (dispatchJob w d)
      (JobMarks m resolved d.oldCommandBuiltin) Anyhow := by
  unfold dispatchJob
  refine holds_ite (fun _ => ?_) fun _ => ?_
  · refine (steady_note _).bind_holds fun _ => ?_
    refine Preserves.bind_holds (steady_call (hw.jobBuiltin _ ?_ _ _)) fun result => ?_
    · split
      · exact .inr rfl
      · exact .inl rfl
    · exact fun s hs => hs
  · refine (steady_globals _).bind_holds fun jobControl => (steady_shell _).bind_holds fun mode => ?_
    cases mode with
    | none => exact fun s hs => hs
    | some mode =>
        refine holds_ite (fun _ => ?_) fun _ => fun s hs => hs
        refine (steady_shell _).bind_holds fun job => ?_
        cases job with
        | none => exact fun s hs => hs
        | some job =>
            refine (steady_update hw.unwindSimpleCommand).bind_holds fun _ => ?_
            refine Holds.bind (p := fun _ => Marked m) (fun s hs => ?_) fun _ => ?_
            · obtain ⟨hbuiltin, hcommand⟩ := marked_iff.mp hs
              refine marked_iff.mpr ⟨hbuiltin, ?_⟩
              exact (congrArg (fun mark => if d.oldCommandBuiltin = -1 then mark
                else d.oldCommandBuiltin) hcommand).trans (saved_mark hsaved)
            · refine (steady_note _).bind_holds fun _ => ?_
              exact (steady_always (hw.startJob job)).bind_holds fun status => fun s hs => hs

theorem marks_selectAutocd (hw : MarksKept w) (words : List WordDesc) (old : Int) :
    Holds (Marked (m.1, resolved.commandMark m.2)) (selectAutocd w d words)
      (SelectedMarks m resolved old) Anyhow := by
  unfold selectAutocd
  refine (steady_update (hw.xtracePrintWordList _)).bind_holds fun _ => ?_
  refine (steady_shell _).bind_holds fun function => (steady_quit hw).bind_holds fun _ => ?_
  refine (steady_shell _).bind_holds fun target => ?_
  cases target with
  | some target => exact fun s hs => hs
  | none =>
      refine (steady_shell _).bind_holds fun again => ?_
      exact holds_ite (fun _ => fun _ _ => trivial) fun _ => fun s hs => hs

theorem marks_selectTarget (hw : MarksKept w)
    (hsaved : d.oldCommandBuiltin = if resolved.flags.commandBuiltin then m.2 else -1) :
    Holds (Marked (m.1, resolved.commandMark m.2)) (selectTarget w d)
      (SelectedMarks m resolved d.oldCommandBuiltin) Anyhow := by
  unfold selectTarget
  refine Holds.bind (marks_dispatchJob hw hsaved) fun job => ?_
  cases job with
  | some ended => exact fun s hs => hs
  | none =>
      refine (steady_quit hw).bind_holds fun _ => (steady_shell _).bind_holds fun target => ?_
      cases target with
      | some target => exact fun s hs => hs
      | none =>
          refine (steady_globals _).bind_holds fun g => (steady_shell _).bind_holds fun dir => ?_
          refine holds_ite (fun _ => marks_selectAutocd hw d.words _) fun _ => ?_
          exact fun s hs => hs

theorem leaves_subshellExit (status : Status) : Departs (subshellExit status : Code σ Θ A) :=
  Departs.behind fun _ => leaves_exit status

theorem leaves_subshellCaught (code : JumpCode) : Departs (subshellCaught code : Code σ Θ A) := by
  unfold subshellCaught
  split
  · exact Departs.behind fun last => leaves_subshellExit last
  · exact Departs.behind fun last => leaves_subshellExit last
  · exact leaves_subshellExit executionFailure

theorem leaves_catching {h : Leave → Option (Code σ Θ A)} {c : Code σ Θ A} (hc : Departs c)
    (hcaught : ∀ x c', h x = some c' → Departs c') : Departs (Path.catching h c) :=
  Holds.catching hc hcaught fun _ _ _ _ => trivial

theorem leaves_builtinChild (w : SimpleWorld σ Θ) (words : List WordDesc) (b : Builtin)
    (async : Bool) (flags : CommandFlags) :
    Departs (builtinChild w words b async flags : Code σ Θ A) := by
  have hbuiltin : Departs (atTopLevel subshellCaught (subshellBuiltin w words b async flags) :
      Code σ Θ A) := by
    refine leaves_catching (Departs.behind fun r => ?_) fun x c' hx => ?_
    · refine holds_ite (fun _ => leaves_subshellExit _) fun _ => ?_
      refine holds_ite (fun _ => ?_) fun _ => leaves_subshellExit _
      exact Departs.behind fun r => leaves_subshellExit r
    · split at hx
      · cases hx
        exact leaves_subshellCaught _
      · cases hx
  unfold builtinChild
  refine Departs.behind fun catches => holds_ite (fun _ => ?_) fun _ => hbuiltin
  refine leaves_catching hbuiltin fun x c' hx => ?_
  split at hx
  · cases hx
    exact leaves_subshellExit _
  · cases hx

theorem leaves_executeSubshellBuiltinOrFunction (w : SimpleWorld σ Θ) (words : List WordDesc)
    (redirects : List Redirect) (target : Target) (pipeIn pipeOut : Int) (async : Bool)
    (flags : CommandFlags) :
    Departs (executeSubshellBuiltinOrFunction w words redirects target pipeIn pipeOut async flags :
      Code σ Θ A) := by
  unfold executeSubshellBuiltinOrFunction
  refine Departs.behind fun r => holds_ite (fun _ => leaves_exit _) fun _ => ?_
  cases target with
  | builtin b => exact leaves_builtinChild w words b async flags
  | function name => exact Departs.behind fun r => leaves_subshellExit r

theorem marks_dispatchTarget (hw : MarksKept w) (words : List WordDesc) (target : Target)
    (hsaved : d.oldCommandBuiltin = if resolved.flags.commandBuiltin then m.2 else -1) :
    Holds (Marked (m.1, resolved.commandMark m.2)) (dispatchTarget w d words target)
      (fun ended s => ended.marks s =
        marksBehind m resolved d.oldCommandBuiltin (Selected.target words target).way)
      Anyhow := by
  unfold dispatchTarget
  refine Holds.bind (p := fun g s => Marked (m.1, resolved.commandMark m.2) s ∧
    g.executingBuiltin = m.1 ∧ g.executingCommandBuiltin = resolved.commandMark m.2)
    (fun s hs => ⟨hs, marked_iff.mp hs⟩) fun g => ?_
  rintro s ⟨hs, hbuiltin, hcommand⟩
  have hmarks : (g.executingBuiltin,
      if d.oldCommandBuiltin = -1 then g.executingCommandBuiltin else d.oldCommandBuiltin) = m := by
    rw [hbuiltin, hcommand, saved_mark hsaved]
  refine holds_ite (fun _ => ?_) (fun _ => ?_) s hs
  · refine (Departs.behind fun _ => ?_).holds
    exact leaves_executeSubshellBuiltinOrFunction w words _ target _ _ _ _
  cases target with
  | builtin b =>
      rw [hmarks]
      refine Holds.mono ((preserves_true _).bind_holds fun result =>
        (preserves_true _).bind_holds fun settled => ?_) (fun _ _ => trivial) (fun _ _ h => h)
        fun _ _ h => h
      cases settled with
      | some result => exact fun s _ => rfl
      | none =>
          refine Holds.bind (p := fun _ => Marked m) (fun s _ => rfl) fun _ => ?_
          exact marks_dispatchDisk hw d words noPipe noPipe
  | function name =>
      refine Preserves.bind_holds (I := Marked (m.1, resolved.commandMark m.2)) ?_ fun result => ?_
      · unfold executeBuiltinOrFunction
        refine (steady_rashStageApplySimpleRedirects hw _ true).bind fun r => ?_
        refine preserves_ite (preserves_pure _) ?_
        refine (steady_update (hw.saveUndoLists _)).bind fun _ => ?_
        refine (steady_executeFunction hw name words d.flags).bind fun result => ?_
        exact (steady_update (hw.undoSavedLists _)).bind fun _ => preserves_pure _
      · exact fun s hs => hs

theorem marks_rashStageDispatchSimple (hw : MarksKept w) {s : SimpleState σ Θ}
    (hsaved : d.oldCommandBuiltin = if resolved.flags.commandBuiltin then m.2 else -1)
    (hs : Marked (m.1, resolved.commandMark m.2) s) :
    Ends (fun ended s' => ended.marks s' =
        marksBehind m resolved d.oldCommandBuiltin (selectedWay (selectTarget w d s).1)) Anyhow
      (rashStageDispatchSimple w d s) := by
  have hselected := marks_selectTarget hw hsaved s hs
  unfold rashStageDispatchSimple
  rcases hselect : selectTarget w d s with ⟨_ | selected, s₁⟩
  · rw [bind_error hselect]
    trivial
  · rw [bind_ok hselect]
    rw [hselect] at hselected
    cases selected with
    | ended result => exact hselected
    | target words target => exact marks_dispatchTarget hw words target hsaved s₁ hselected
    | disk words => exact marks_dispatchDisk hw d words _ _ s₁ hselected

/-- The marks that a dispatch leaves for the end of the command. -/
theorem marks_dispatchResolved (hw : MarksKept w) (call : SimpleCall) (alreadyForked : Bool)
    {old : Int} {s : SimpleState σ Θ} (h : ReadyMarks m resolved old s) :
    Ends (fun ended s' => ended.marks s' =
        marksBehind m resolved old (dispatchWay w call alreadyForked resolved old s)) Anyhow
      (dispatchResolved w call alreadyForked resolved old s) := by
  have hmarked := (rashHooksChooseDispatch_answered w.hookFiles resolved.words
    resolved.isFunction resolved.isBuiltin s).marked h.marks
  unfold dispatchResolved dispatchWay
  rw [step_bind]
  rcases hstage : rashHooksChooseDispatch w.hookFiles resolved.words resolved.isFunction
    resolved.isBuiltin s with ⟨⟨denied, choice⟩, s₁⟩
  rw [hstage] at hmarked
  cases denied with
  | true =>
      refine (steady_setLastCommandExitValue _).bind_holds (fun _ => ?_) s₁ hmarked
      intro s' hs'
      change DispatchEnd.marks _ s' = if resolved.isBuiltin = true then _ else _
      unfold DispatchEnd.marks
      cases resolved.isBuiltin with
      | true => rfl
      | false => exact hs'
  | false =>
      exact marks_rashStageDispatchSimple (d := .of call alreadyForked resolved old choice) hw
        h.saved hmarked

end Dispatch

/-! ## The command -/

theorem steady_observe (hw : MarksKept w) (words : List WordDesc) (result : Status)
    (stdout stderr : Option Bytes) : Steady m (observe w words result stdout stderr) := by
  unfold observe
  refine Preserves.bind (preserves_modify fun s hs => ?_) fun _ => ?_
  · obtain ⟨added, hasked⟩ :=
      rashHooksAfterSimple_asked w.hookFiles words result stdout stderr s
    exact hasked.marked hs
  refine Preserves.bind (preserves_step fun s hs => ?_) fun payloads => ?_
  · obtain ⟨added, hasked⟩ :=
      rashHooksStdioBundle_asked w.hookFiles w.captureFd words result stdout stderr s
    exact hasked.marked hs
  refine (steady_shell _).bind fun fd => steady_update fun p => ?_
  induction payloads generalizing p with
  | nil => rfl
  | cons payload payloads ih => exact (ih _).trans (hw.writeFully (fd.getD 0) payload p)

theorem marks_finishCommand (hw : MarksKept w) (alreadyForked captured : Bool) (lastarg : String)
    (ended : DispatchEnd) :
    Holds (fun s => ended.marks s = m) (finishCommand w alreadyForked captured lastarg ended)
      (fun _ => Marked m) Anyhow := by
  unfold finishCommand DispatchEnd.marks
  refine holds_ite (fun hearly => ?_) fun hreturned => ?_
  · simp only [if_pos hearly]
    exact fun s hs => hs
  simp only [if_neg hreturned]
  rcases hbuiltin : ended.builtin with _ | marks
  · refine (steady_update (hw.bindLastarg lastarg)).bind_holds fun _ => ?_
    refine Preserves.bind_holds (I := Marked m)
      (preserves_ite (steady_always hw.restoreStdio) (preserves_pure _)) fun streams => ?_
    refine (steady_onlyIf (steady_observe hw _ _ _ _)).bind_holds fun _ => ?_
    exact fun s hs => hs
  · rintro s rfl
    refine (preserves_true _).bind_holds (fun _ => ?_) s trivial
    refine (preserves_true _).bind_holds fun streams => ?_
    exact (preserves_true _).bind_holds fun _ => fun s _ => rfl

/-- The commands that put the marks back: the way of the dispatch does so, or there is nothing to
put back. -/
def PutsMarksBack (m : Int × Int) (resolved : Resolved) : DispatchWay → Prop
  | .resumed | .builtin => True
  | .denied =>
      if resolved.isBuiltin then
        m.1 = 0 ∧ (resolved.flags.commandBuiltin = true ∨ m.2 = -1)
      else resolved.flags.commandBuiltin = true → m.2 % 2 = 1
  | .other => resolved.flags.commandBuiltin = true → m.2 % 2 = 1

theorem commandMark_eq_iff (resolved : Resolved) (mark : Int) :
    resolved.commandMark mark = mark ↔ (resolved.flags.commandBuiltin = true → mark % 2 = 1) := by
  unfold Resolved.commandMark orOne
  split_ifs with hcommand heven
  · exact ⟨fun h => absurd h (by omega), fun h => absurd (h hcommand) (by omega)⟩
  · exact ⟨fun _ _ => by omega, fun _ => rfl⟩
  · exact ⟨fun _ h => absurd h hcommand, fun _ => rfl⟩

theorem marksBehind_eq_iff {resolved : Resolved} {old : Int}
    (hsaved : old = if resolved.flags.commandBuiltin then m.2 else -1) (way : DispatchWay) :
    marksBehind m resolved old way = m ↔ PutsMarksBack m resolved way := by
  have hmark : (m.1, resolved.commandMark m.2) = m ↔
      (resolved.flags.commandBuiltin = true → m.2 % 2 = 1) := by
    rw [← commandMark_eq_iff, Prod.ext_iff]
    exact and_iff_right rfl
  cases way with
  | resumed => exact iff_of_true rfl trivial
  | builtin => exact iff_of_true rfl trivial
  | other => exact hmark
  | denied =>
      unfold marksBehind PutsMarksBack
      split_ifs with hbuiltin
      · rw [Prod.ext_iff, hsaved]
        refine and_congr eq_comm ?_
        by_cases hcommand : resolved.flags.commandBuiltin = true
        · rw [if_pos hcommand]
          exact iff_of_true rfl (.inl hcommand)
        · rw [if_neg hcommand, or_iff_right hcommand]
          exact eq_comm
      · exact hmark

/-- Whenever the command comes to its dispatch, the way of the dispatch puts the marks back. -/
def MarksPutBack (w : SimpleWorld σ Θ) (child : Bool) (call : SimpleCall)
    (s : SimpleState σ Θ) : Prop :=
  ∀ alreadyForked s₁ captured resolved old s₂,
    startSimple w child call s = (.ok (.goesOn alreadyForked), s₁) →
      prepareCommand w call alreadyForked s₁ = (.ok (.ready captured resolved old), s₂) →
        PutsMarksBack s.shell.marks resolved (dispatchWay w call alreadyForked resolved old s₂)

/-- The marks with which a command returns: those behind its dispatch, if it comes to one. -/
theorem marks_executeSimpleCommand (hw : MarksKept w) (child : Bool) (call : SimpleCall)
    {s s' : SimpleState σ Θ} {status : Status}
    (hreturns : executeSimpleCommand w child call s = (.ok status, s')) :
    (s'.shell.marks = s.shell.marks ∧ MarksPutBack w child call s) ∨
      ∃ alreadyForked s₁ captured resolved old s₂,
        startSimple w child call s = (.ok (.goesOn alreadyForked), s₁) ∧
        prepareCommand w call alreadyForked s₁ = (.ok (.ready captured resolved old), s₂) ∧
        (s'.shell.marks = s.shell.marks ↔ PutsMarksBack s.shell.marks resolved
          (dispatchWay w call alreadyForked resolved old s₂)) := by
  obtain ⟨start, s₁, hstart, hrest⟩ := bind_returns hreturns
  have hmarks₁ : Marked s.shell.marks s₁ :=
    (steady_startSimple hw child call).returned rfl hstart
  cases start with
  | returns result =>
      cases hrest
      refine .inl ⟨hmarks₁, fun alreadyForked s₂ captured resolved old s₃ hgoesOn => ?_⟩
      rw [hstart] at hgoesOn
      cases hgoesOn
  | goesOn alreadyForked =>
      obtain ⟨prepared, s₂, hprepare, hrest⟩ := bind_returns hrest
      have hmarks₂ := (marks_prepareCommand hw call alreadyForked).returned hmarks₁ hprepare
      cases prepared with
      | ended result =>
          cases hrest
          refine .inl ⟨hmarks₂, fun forked t₁ captured resolved old t₂ hgoesOn hready => ?_⟩
          rw [hstart] at hgoesOn
          cases hgoesOn
          rw [hprepare] at hready
          cases hready
      | ready captured resolved old =>
          obtain ⟨ended, s₃, hdispatch, hfinish⟩ := bind_returns hrest
          have hmarks₃ := marks_dispatchResolved hw call alreadyForked hmarks₂
          rw [hdispatch] at hmarks₃
          have hmarks₄ := (marks_finishCommand hw alreadyForked captured _ ended).returned
            hmarks₃ hfinish
          refine .inr ⟨alreadyForked, s₁, captured, resolved, old, s₂, hstart, hprepare, ?_⟩
          rw [show s'.shell.marks = _ from hmarks₄]
          exact marksBehind_eq_iff hmarks₂.saved _

/-- Code that runs inside a command: steps that leave the marks, and commands that return and
whose dispatch puts them back. -/
inductive RunsInside (w : SimpleWorld σ Θ) (s : SimpleState σ Θ) : SimpleState σ Θ → Prop
  | start : RunsInside w s s
  | step {s' s'' : SimpleState σ Θ} (h : RunsInside w s s')
      (hmarks : s''.shell.marks = s'.shell.marks) : RunsInside w s s''
  | command {s' s'' : SimpleState σ Θ} {child : Bool} {call : SimpleCall} {status : Status}
      (h : RunsInside w s s') (hputs : MarksPutBack w child call s')
      (hreturns : executeSimpleCommand w child call s' = (.ok status, s'')) : RunsInside w s s''

/-- The calls of an outer command that run such code keep the marks in turn. -/
theorem RunsInside.marks (hw : MarksKept w) {s s' : SimpleState σ Θ} (h : RunsInside w s s') :
    s'.shell.marks = s.shell.marks := by
  induction h with
  | start => rfl
  | step _ hmarks ih => exact hmarks.trans ih
  | command _ hputs hreturns ih =>
      rcases marks_executeSimpleCommand hw _ _ hreturns with ⟨hmarks, -⟩ | ⟨_, _, _, _, _, _, hstart,
        hprepare, hiff⟩
      · exact hmarks.trans ih
      · exact (hiff.mpr (hputs _ _ _ _ _ _ hstart hprepare)).trans ih

/-- A command that returns has left the marks as it found them exactly when its dispatch is one
that puts them back. -/
theorem executeSimpleCommand_marks_iff (hw : MarksKept w) (child : Bool) (call : SimpleCall)
    {s s' : SimpleState σ Θ} {status : Status}
    (hreturns : executeSimpleCommand w child call s = (.ok status, s')) :
    s'.shell.marks = s.shell.marks ↔ MarksPutBack w child call s := by
  rcases marks_executeSimpleCommand hw child call hreturns with ⟨hmarks, hputs⟩ |
    ⟨alreadyForked, s₁, captured, resolved, old, s₂, hstart, hprepare, hiff⟩
  · exact iff_of_true hmarks hputs
  · rw [hiff]
    refine ⟨fun hputs forked t₁ captured' resolved' old' t₂ hgoesOn hready => ?_,
      fun hputs => hputs _ _ _ _ _ _ hstart hprepare⟩
    rw [hstart] at hgoesOn
    cases hgoesOn
    rw [hprepare] at hready
    cases hready
    exact hputs

theorem plainMachine_marksKept (registers : List (HookKind × StageFunction Unit)) :
    MarksKept (plainMachine registers) where
  quit p a p' h := by cases h; rfl
  runDebugTrap p a p' h := by cases h; rfl
  makeChild _ _ p a p' h := by cases h; rfl
  childRan _ _ := rfl
  doPiping _ _ _ := rfl
  closePipes _ _ _ := rfl
  expandWords _ p a p' h := by cases h; rfl
  doRedirections _ _ _ _ _ := rfl
  cleanupRedirects _ := rfl
  undoPartialRedirects _ := rfl
  saveUndoLists _ _ := rfl
  undoSavedLists _ _ := rfl
  bindLastarg _ _ := rfl
  xtracePrintWordList _ _ := rfl
  captureStdio _ := rfl
  restoreStdio _ := rfl
  writeFully _ _ _ := rfl
  jobBuiltin _ _ _ _ p a p' h := by cases h; rfl
  runFunction _ _ _ p a p' h := by cases h; rfl
  startJob _ _ := rfl
  unwindSimpleCommand _ := rfl
  searchForCommand _ _ _ := rfl

/-- A shell with the builtin `command` -/
def commandMachine : SimpleWorld Unit Unit :=
  { plainMachine [] with
    findShellBuiltin := fun name _ => if name = "command" then some .command else none }

def posixShell : SimpleState Unit Unit :=
  freshShell.setGlobals { freshShell.shell.globals with posixlyCorrect := true }

/-- `ls` leaves the marks. -/
theorem executeSimpleCommand_marks_ls :
    (executeSimpleCommand (plainMachine []) false (plainCall ["ls"] false)
        freshShell).2.shell.marks = (0, 0) ↔
      MarksPutBack (plainMachine []) false (plainCall ["ls"] false) freshShell :=
  @executeSimpleCommand_marks_iff _ _ _ (plainMachine_marksKept []) false (plainCall ["ls"] false)
    freshShell _ executionSuccess rfl

/-- `command ls` leaves `executing_command_builtin` set, and a `return` that a callback denies in a
posix shell leaves it -1. -/
theorem executeSimpleCommand_marks_left :
    (freshShell.shell.marks = (0, 0) ∧
      (executeSimpleCommand commandMachine false (plainCall ["command", "ls"] false)
        freshShell).1 = .ok executionSuccess ∧
      (executeSimpleCommand commandMachine false (plainCall ["command", "ls"] false)
        freshShell).2.shell.marks = (0, 1)) ∧
    posixShell.shell.marks = (0, 0) ∧
      (executeSimpleCommand (plainMachine [(.dispatch, denyingCallback)]) false
        (plainCall ["return"] false) posixShell).1 = .ok executionFailure ∧
      (executeSimpleCommand (plainMachine [(.dispatch, denyingCallback)]) false
        (plainCall ["return"] false) posixShell).2.shell.marks = (0, -1) :=
  ⟨⟨rfl, rfl, rfl⟩, rfl, rfl, rfl⟩

end Rash
