import Rash.Undo.CallByCall

/-!
# Processes that share an undo directory

Any number of processes make their snapshots and undos in one `RASH_UNDO_DIR`, one system
call at a time in any order.  Nothing locks the directory.
-/

namespace Rash

open Decimal FlatFiles Interaction Machine

inductive PortCall
  | snapshotFile (maxBytes cwd : Option Text) (path : Text)
  | undoLast
  deriving DecidableEq

/-- A call that has not returned, with the calls that it still makes. -/
structure PortRun where
  call : PortCall
  rest : UndoProg Reply

/-- The files, the window of each process, the call it is in and the calls that returned. -/
structure SharedStore (P : Type) where
  files : Files
  active : P → Bool
  paths : P → List Text
  running : P → Option PortRun
  log : List (P × PortCall × Reply)

inductive SharedAction (P : Type)
  | begin (p : P) (call : PortCall)
  | step (p : P)
  | applyBegin (p : P)
  | applyEnd (p : P)
  | external (path : Text) (file : Option RegularFile)

variable {P : Type} [DecidableEq P]

namespace SharedStore

/-- What one process sees. -/
def view (s : SharedStore P) (p : P) : UndoState := ⟨s.files, s.active p, s.paths p⟩

def setView (s : SharedStore P) (p : P) (v : UndoState) : SharedStore P :=
  { s with
    files := v.files
    active := Function.update s.active p v.applyWindowActive
    paths := Function.update s.paths p v.applyWindowPaths }

def setRunning (s : SharedStore P) (p : P) (run : Option PortRun) : SharedStore P :=
  { s with running := Function.update s.running p run }

/-- No process is in a call. -/
def Idle (s : SharedStore P) : Prop := ∀ p, s.running p = none

def start (fs : Files) : SharedStore P := ⟨fs, fun _ => false, fun _ => [], fun _ => none, []⟩

end SharedStore

/-- The calls that a port makes when it is entered. -/
def portCalls (s : UndoState) : PortCall → UndoProg Reply
  | .snapshotFile maxBytes cwd path =>
      snapshotFileCalls maxBytes (rashUndoAbspath cwd path)
        (s.applyWindowHas (rashUndoAbspath cwd path))
  | .undoLast => undoLastCalls

/-- What a port does to the window of its process when it returns. -/
def portReturn (s : UndoState) (reply : Reply) : PortCall → UndoState
  | .snapshotFile _ cwd path =>
      if reply = (true, none) then s.applyWindowAdd (rashUndoAbspath cwd path) else s
  | .undoLast => s

def SharedStore.returnFrom (s : SharedStore P) (p : P) (call : PortCall) (reply : Reply) :
    SharedStore P :=
  { (s.setView p (portReturn (s.view p) reply call)).setRunning p none with
    log := s.log ++ [(p, call, reply)] }

/-- A process makes its next system call, or returns from its port. -/
def sharedStep (dir : Text) (s : SharedStore P) : SharedAction P → Option (SharedStore P)
  | .begin p call =>
      match s.running p with
      | none => some (s.setRunning p (some ⟨call, portCalls (s.view p) call⟩))
      | some _ => none
  | .step p =>
      match s.running p with
      | none => none
      | some ⟨call, .op o k⟩ =>
          let answer := perform dir o s.files
          some ({ s with files := answer.2 }.setRunning p (some ⟨call, k answer.1⟩))
      | some ⟨call, .ret reply⟩ => some (s.returnFrom p call reply)
  | .applyBegin p =>
      match s.running p with
      | none => some (s.setView p (s.view p).applyBegin)
      | some _ => none
  | .applyEnd p =>
      match s.running p with
      | none => some (s.setView p (s.view p).applyEnd)
      | some _ => none
  | .external path file => some { s with files := s.files.set path (file.map .regular) }

/-! ## The shared stack -/

/-- One stack for all, with the snapshots taken and those restored so far. -/
structure SharedStack (P : Type) where
  files : Files
  active : P → Bool
  paths : P → List Text
  stack : List UndoRecord
  taken : List UndoRecord
  restored : List UndoRecord
  log : List (P × PortCall × Reply)

namespace SharedStack

def view (t : SharedStack P) (p : P) : UndoStack := ⟨⟨t.files, t.active p, t.paths p⟩, t.stack⟩

def setView (t : SharedStack P) (p : P) (v : UndoStack) : SharedStack P :=
  { t with
    files := v.world.files
    active := Function.update t.active p v.world.applyWindowActive
    paths := Function.update t.paths p v.world.applyWindowPaths
    stack := v.stack }

/-- A port as one step. -/
def enter (t : SharedStack P) (p : P) : PortCall → SharedStack P
  | .snapshotFile maxBytes cwd path =>
      let r := (t.view p).snapshot true maxBytes cwd path
      { t.setView p r.2 with
        taken := t.taken ++ if r.1 = (true, none) then r.2.stack.head?.toList else []
        log := t.log ++ [(p, .snapshotFile maxBytes cwd path, r.1)] }
  | .undoLast =>
      let r := (t.view p).undo
      { t.setView p r.2 with
        restored := t.restored ++ t.stack.head?.toList
        log := t.log ++ [(p, .undoLast, r.1)] }

/-- A port counts when it is entered. -/
def follow (t : SharedStack P) : SharedAction P → SharedStack P
  | .begin p call => t.enter p call
  | .step _ => t
  | .applyBegin p => t.setView p { t.view p with world := (t.view p).world.applyBegin }
  | .applyEnd p => t.setView p { t.view p with world := (t.view p).world.applyEnd }
  | .external path file => { t with files := t.files.set path (file.map .regular) }

def start (fs : Files) : SharedStack P := ⟨fs, fun _ => false, fun _ => [], [], [], [], []⟩

/-- Every snapshot taken was restored once or is still on the stack. -/
def Complete (t : SharedStack P) : Prop := t.taken.Perm (t.restored ++ t.stack)

end SharedStack

theorem snapshot_cases (takesOnce : Bool) (maxBytes cwd : Option Text) (path : Text)
    (t : UndoStack) :
    (∃ r, t.snapshot takesOnce maxBytes cwd path = ((true, none), t.push r)) ∨
      (t.snapshot takesOnce maxBytes cwd path).1 ≠ (true, none) ∧
        (t.snapshot takesOnce maxBytes cwd path).2 = t := by
  unfold UndoStack.snapshot
  dsimp only
  split
  · exact Or.inr ⟨by simp [already], rfl⟩
  · split
    · exact Or.inl ⟨_, rfl⟩
    · split
      · exact Or.inr ⟨by simp [exceedsMaxBytes], rfl⟩
      · exact Or.inl ⟨_, rfl⟩
    · exact Or.inr ⟨by simp [notRegularFile], rfl⟩

theorem SharedStack.Complete.enter {t : SharedStack P} (h : t.Complete) (p : P)
    (call : PortCall) : (t.enter p call).Complete := by
  unfold SharedStack.Complete at h ⊢
  cases call with
  | snapshotFile maxBytes cwd path =>
      rcases snapshot_cases true maxBytes cwd path (t.view p) with ⟨r, hpush⟩ | ⟨hne, hsame⟩
      · simp only [SharedStack.enter, hpush, SharedStack.setView, if_true]
        have hcons : (r :: t.taken).Perm (r :: (t.restored ++ t.stack)) := h.cons r
        exact (List.perm_append_singleton r t.taken).trans (hcons.trans List.perm_middle.symm)
      · simp only [SharedStack.enter, hne, hsame, SharedStack.setView, if_false, List.append_nil]
        exact h
  | undoLast =>
      simp only [SharedStack.enter, SharedStack.setView, SharedStack.view, UndoStack.undo]
      cases hstack : t.stack with
      | nil =>
          rw [hstack] at h
          simpa using h
      | cons r rest =>
          rw [hstack] at h
          simpa using h

theorem SharedStack.Complete.follow {t : SharedStack P} (h : t.Complete)
    (a : SharedAction P) : (t.follow a).Complete := by
  cases a with
  | begin p call => exact h.enter p call
  | step p => exact h
  | applyBegin p => exact h
  | applyEnd p => exact h
  | external path file => exact h

end Rash
