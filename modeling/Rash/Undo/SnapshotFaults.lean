import Rash.Undo.CallByCall

/-!
# Snapshots whose system calls fail

`rash.snapshot_file` where any of its calls may fail, a write short of its end, or find the
file that it copies grown or shrunk, and what a call that fails leaves in the undo directory.
-/

namespace Rash

open Decimal FlatFiles Interaction

/-- Which calls fail, with the number of bytes that a write that fails has written; and what
the reads of the copied file answer where it is not the file that `lstat` found. -/
structure SnapshotFaults where
  act : UndoAct → Option (ℕ × Errno)
  readSeq : Option Errno
  readSource : ℕ → Option (Except Errno Text)

def noFaults : SnapshotFaults := ⟨fun _ => none, none, fun _ => none⟩

/-- What a call that fails has done: a write, the part that it wrote. -/
def performPart (dir : Text) (written : ℕ) : UndoAct → Files → Files
  | .writeSeq seq, fs => (writeCall (join dir seqName) ((seqText seq).take written) fs).2
  | .writePath seq path, fs => (writeCall (entryFile dir seq pathName) (path.take written) fs).2
  | .writeData seq chunk, fs => (writeCall (entryFile dir seq dataName) (chunk.take written) fs).2
  | .closeMeta seq text, fs => (writeCall (entryFile dir seq metaName) (text.take written) fs).2
  | _, fs => fs

def performFaulty (faults : SnapshotFaults) (dir : Text) :
    (call : UndoCall) → Files → call.Ans × Files
  | .act a, fs =>
      match faults.act a with
      | none => performAct dir a fs
      | some (written, e) => (.error e, performPart dir written a fs)
  | .look q, fs => (performLook dir fs q, fs)
  | .fetch .readSeq, fs =>
      match faults.readSeq with
      | none => (performFetch dir fs .readSeq, fs)
      | some e => (.error e, fs)
  | .fetch (.readSource path offset), fs =>
      match faults.readSource offset with
      | none => (performFetch dir fs (.readSource path offset), fs)
      | some answer => (answer, fs)
  | .fetch q, fs => (performFetch dir fs q, fs)

/-- `rash_lua_snapshot_file` under faults. -/
def snapshotWith (faults : SnapshotFaults) (dir : Text) (maxBytes cwd : Option Text) (path : Text)
    (s : UndoState) : Reply × UndoState :=
  let abspath := rashUndoAbspath cwd path
  let answer := (snapshotFileCalls maxBytes abspath (s.applyWindowHas abspath)).eval
    (performFaulty faults dir) s.files
  let s' := { s with files := answer.2 }
  (answer.1, if answer.1 = (true, none) then s'.applyWindowAdd abspath else s')

theorem eval_act_faulty (faults : SnapshotFaults) (dir : Text) (a : UndoAct) (fs : Files) :
    (act a).eval (performFaulty faults dir) fs =
      match faults.act a with
      | none => performAct dir a fs
      | some (written, e) => (.error e, performPart dir written a fs) := rfl

theorem eval_act_fails {faults : SnapshotFaults} {dir : Text} {a : UndoAct} {fault : ℕ × Errno}
    (h : faults.act a = some fault) (fs : Files) :
    (act a).eval (performFaulty faults dir) fs =
      (.error fault.2, performPart dir fault.1 a fs) := by
  rw [eval_act_faulty, h]

theorem eval_act_works {faults : SnapshotFaults} {dir : Text} {a : UndoAct}
    (h : faults.act a = none) (fs : Files) :
    (act a).eval (performFaulty faults dir) fs = performAct dir a fs := by
  rw [eval_act_faulty, h]

theorem eval_look_faulty (faults : SnapshotFaults) (dir : Text) (q : NodeQuery) (fs : Files) :
    (look q).eval (performFaulty faults dir) fs = (performLook dir fs q, fs) := rfl

theorem eval_readSeq_faulty (faults : SnapshotFaults) (dir : Text) (fs : Files) :
    (fetch .readSeq).eval (performFaulty faults dir) fs =
      match faults.readSeq with
      | none => (performFetch dir fs .readSeq, fs)
      | some e => (.error e, fs) := rfl

/-! ## The paths that calls leave alone -/

/-- The call does not change the node of the path. -/
def UndoAct.Spares (dir p : Text) : UndoAct → Prop
  | .openSource _ | .openPreimage _ | .closeData _ => True
  | .makeDir => p ≠ dir
  | .openSeq | .resetSeq | .writeSeq _ | .truncateSeq => p ≠ join dir seqName
  | .makeEntry seq | .removeEntry seq => p ≠ entryDir dir seq
  | .openPath seq | .writePath seq _ | .unlinkPath seq => p ≠ entryFile dir seq pathName
  | .openMeta seq | .closeMeta seq _ | .unlinkMeta seq => p ≠ entryFile dir seq metaName
  | .openData seq | .writeData seq _ | .unlinkData seq => p ≠ entryFile dir seq dataName
  | .unlinkTarget target | .openTarget target _ | .copyPreimage _ target
  | .chmodTarget target _ => p ≠ target

def UndoCall.Spares (dir p : Text) : UndoCall → Prop
  | .act a => a.Spares dir p
  | .look _ | .fetch _ => True

theorem mkdirCall_frame {path p : Text} (h : p ≠ path) (fs : Files) :
    (mkdirCall path fs).2 p = fs p := by
  unfold mkdirCall
  split
  · exact Files.set_of_ne _ _ h
  · rfl

theorem createCall_frame {path p : Text} (h : p ≠ path) (mode : Fin 4096) (fs : Files) :
    (createCall path mode fs).2 p = fs p := by
  unfold createCall
  split
  · rfl
  · exact Files.set_of_ne _ _ h

theorem createNewCall_frame {path p : Text} (h : p ≠ path) (fs : Files) :
    (createNewCall path fs).2 p = fs p := by
  unfold createNewCall
  split
  · exact Files.set_of_ne _ _ h
  · rfl

theorem createEmptyCall_frame {path p : Text} (h : p ≠ path) (mode : Fin 4096) (fs : Files) :
    (createEmptyCall path mode fs).2 p = fs p := by
  unfold createEmptyCall
  split
  · rfl
  · exact Files.set_of_ne _ _ h

theorem changeFile_frame {path p : Text} (h : p ≠ path) (change : RegularFile → RegularFile)
    (fs : Files) : changeFile path change fs p = fs p := by
  cases hnode : fs path with
  | none => simp only [changeFile, hnode]
  | some node =>
      cases node with
      | regular file => simp only [changeFile, hnode, Files.set_of_ne _ _ h]
      | directory => simp only [changeFile, hnode]
      | other => simp only [changeFile, hnode]

theorem unlinkCall_frame {path p : Text} (h : p ≠ path) (fs : Files) :
    (unlinkCall path fs).2 p = fs p := by
  unfold unlinkCall
  split
  · rfl
  · rfl
  · exact Files.set_of_ne _ _ h

theorem performAct_frame {dir p : Text} {a : UndoAct} (h : a.Spares dir p) (fs : Files) :
    (performAct dir a fs).2 p = fs p := by
  cases a with
  | makeDir => exact mkdirCall_frame h fs
  | openSeq => exact createCall_frame h _ fs
  | resetSeq => exact changeFile_frame h _ fs
  | writeSeq seq => exact changeFile_frame h _ fs
  | makeEntry seq => exact mkdirCall_frame h fs
  | openPath seq => exact createNewCall_frame h fs
  | writePath seq path => exact changeFile_frame h _ fs
  | openMeta seq => exact createEmptyCall_frame h _ fs
  | openSource path => rfl
  | openData seq => exact createNewCall_frame h fs
  | writeData seq chunk => exact changeFile_frame h _ fs
  | closeData seq => rfl
  | unlinkData seq => exact unlinkCall_frame h fs
  | closeMeta seq text => exact changeFile_frame h _ fs
  | unlinkTarget target => exact unlinkCall_frame h fs
  | openTarget target mode => exact createEmptyCall_frame h _ fs
  | openPreimage seq => rfl
  | copyPreimage seq target =>
      dsimp only [performAct]
      split
      · exact changeFile_frame h _ fs
      · rfl
  | chmodTarget target mode => exact changeFile_frame h _ fs
  | unlinkMeta seq => exact unlinkCall_frame h fs
  | unlinkPath seq => exact unlinkCall_frame h fs
  | removeEntry seq =>
      dsimp only [performAct]
      split
      · exact Files.set_of_ne _ _ h
      · rfl
  | truncateSeq => exact createEmptyCall_frame h _ fs

theorem performPart_frame {dir p : Text} {a : UndoAct} (h : a.Spares dir p) (written : ℕ)
    (fs : Files) : performPart dir written a fs p = fs p := by
  cases a with
  | writeSeq seq => exact changeFile_frame h _ fs
  | writePath seq path => exact changeFile_frame h _ fs
  | writeData seq chunk => exact changeFile_frame h _ fs
  | closeMeta seq text => exact changeFile_frame h _ fs
  | _ => rfl

theorem performFaulty_frame (faults : SnapshotFaults) {dir p : Text} {call : UndoCall}
    (h : call.Spares dir p) (fs : Files) : (performFaulty faults dir call fs).2 p = fs p := by
  rcases call with a | q | q
  · dsimp only [performFaulty]
    split
    · exact performAct_frame h fs
    · exact performPart_frame h _ fs
  · rfl
  · cases q with
    | readSeq =>
        dsimp only [performFaulty]
        split <;> rfl
    | readSource path offset =>
        dsimp only [performFaulty]
        split <;> rfl
    | loadSeq => rfl
    | readPath seq => rfl
    | readMeta seq => rfl

/-- A program does not change a path that all its calls spare. -/
theorem eval_frame (faults : SnapshotFaults) {dir p : Text} {R : Type} {prog : UndoProg R}
    (h : prog.Uses (UndoCall.Spares dir p)) (fs : Files) :
    (prog.eval (performFaulty faults dir) fs).2 p = fs p :=
  Prog.eval_invariant (I := fun fs' => fs' p = fs p)
    (fun _ fs' hcall hfs => (performFaulty_frame faults hcall fs').trans hfs) h rfl

theorem uses_act {allowed : UndoCall → Prop} {a : UndoAct} (h : allowed (.act a)) :
    (act a).Uses allowed := ⟨h, fun _ => trivial⟩

theorem copyRounds_spares {dir p source : Text} {seq expected : ℕ}
    (h : p ≠ entryFile dir seq dataName) (rounds total : ℕ) :
    (copyRounds seq source expected rounds total).Uses (UndoCall.Spares dir p) := by
  induction rounds generalizing total with
  | zero => trivial
  | succ rounds ih =>
      refine Prog.Uses.bind ⟨trivial, fun _ => trivial⟩ fun answer => ?_
      cases answer with
      | error e => trivial
      | ok chunk =>
          dsimp only
          split
          · trivial
          · refine Prog.Uses.bind (uses_act h) fun answer => ?_
            cases answer with
            | error e => trivial
            | ok done =>
                dsimp only
                split
                · trivial
                · exact ih _

theorem copyFileCalls_spares {dir p source : Text} {seq expected : ℕ}
    (h : p ≠ entryFile dir seq dataName) :
    (copyFileCalls seq source expected).Uses (UndoCall.Spares dir p) := by
  have hunlink : ∀ e : Errno, (do
      let _ ← act (.unlinkData seq)
      return (.error e : Done) : UndoProg Done).Uses (UndoCall.Spares dir p) := fun e =>
    Prog.Uses.bind (uses_act h) fun _ => trivial
  refine Prog.Uses.bind (uses_act trivial) fun answer => ?_
  cases answer with
  | error e => trivial
  | ok opened =>
      refine Prog.Uses.bind (uses_act h) fun answer => ?_
      cases answer with
      | error e => trivial
      | ok created =>
          refine Prog.Uses.bind (copyRounds_spares h _ _) fun copied => ?_
          refine Prog.Uses.bind (uses_act trivial) fun closed => ?_
          cases copied with
          | error e => exact hunlink e
          | ok total =>
              cases closed with
              | error e => exact hunlink e
              | ok done =>
                  dsimp only
                  split
                  · trivial
                  · exact hunlink _

end Rash
