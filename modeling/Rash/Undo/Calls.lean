import Rash.Lib.Interaction
import Rash.Undo.Store

/-!
# The system calls of the undo store

`rash.snapshot_file` and `rash.undo_last` call by call: what each system call does to the
files and answers, and the two ports as programs over these calls.  A whole file that is
read, or copied back, counts as one call; the copy of a preimage goes through its buffer.
-/

namespace Rash

open Decimal FlatFiles Interaction

inductive Errno
  | eexist
  | enoent
  | eisdir
  | other (text : String)
  deriving DecidableEq

def Errno.text : Errno → String
  | .eexist => "File exists"
  | .enoent => "No such file or directory"
  | .eisdir => "Is a directory"
  | .other text => text

/-- Calls that change something, by the place they are made at. -/
inductive UndoAct
  | makeDir
  | openSeq
  | resetSeq
  | writeSeq (seq : ℕ)
  | makeEntry (seq : ℕ)
  | openPath (seq : ℕ)
  | writePath (seq : ℕ) (path : Text)
  | openMeta (seq : ℕ)
  | openSource (path : Text)
  | openData (seq : ℕ)
  | writeData (seq : ℕ) (chunk : Text)
  | closeData (seq : ℕ)
  | unlinkData (seq : ℕ)
  | closeMeta (seq : ℕ) (text : Text)
  | unlinkTarget (target : Text)
  | openTarget (target : Text) (mode : ℕ)
  | openPreimage (seq : ℕ)
  | copyPreimage (seq : ℕ) (target : Text)
  | chmodTarget (target : Text) (mode : ℕ)
  | unlinkMeta (seq : ℕ)
  | unlinkPath (seq : ℕ)
  | removeEntry (seq : ℕ)
  | truncateSeq

/-- `stat`, `lstat` and `access`. -/
inductive NodeQuery
  | statDir
  | lstat (path : Text)
  | accessMeta (seq : ℕ)

/-- Reads. -/
inductive TextQuery
  | readSeq
  | readSource (path : Text) (offset : ℕ)
  | loadSeq
  | readPath (seq : ℕ)
  | readMeta (seq : ℕ)

inductive UndoCall
  | act (a : UndoAct)
  | look (q : NodeQuery)
  | fetch (q : TextQuery)

abbrev Done := Except Errno Unit

/-- What a call answers. -/
def UndoCall.Ans : UndoCall → Type
  | .act _ => Done
  | .look _ => Option Node
  | .fetch _ => Except Errno Text

abbrev UndoProg := Prog UndoCall UndoCall.Ans

def act (a : UndoAct) : UndoProg Done := Prog.ask (UndoCall.act a)

def look (q : NodeQuery) : UndoProg (Option Node) := Prog.ask (UndoCall.look q)

def fetch (q : TextQuery) : UndoProg (Except Errno Text) := Prog.ask (UndoCall.fetch q)

/-! ## Calls on files -/

def mkdirCall (path : Text) (fs : Files) : Done × Files :=
  match fs path with
  | none => (.ok (), fs.set path (some .directory))
  | some _ => (.error .eexist, fs)

/-- `open` with `O_CREAT`. -/
def createCall (path : Text) (mode : Fin 4096) (fs : Files) : Done × Files :=
  match openCreate fs path mode with
  | none => (.error .eisdir, fs)
  | some file => (.ok (), fs.set path (some (.regular file)))

/-- `open` with `O_CREAT | O_EXCL`. -/
def createNewCall (path : Text) (fs : Files) : Done × Files :=
  match fs path with
  | none => (.ok (), fs.set path (some (.regular ⟨privateMode, []⟩)))
  | some _ => (.error .eexist, fs)

/-- `open` with `O_CREAT | O_TRUNC`, and `fopen` for writing. -/
def createEmptyCall (path : Text) (mode : Fin 4096) (fs : Files) : Done × Files :=
  match openCreate fs path mode with
  | none => (.error .eisdir, fs)
  | some file => (.ok (), fs.set path (some (.regular ⟨file.mode, []⟩)))

/-- A change to an open file; one that is gone is changed where nobody finds it. -/
def changeFile (path : Text) (change : RegularFile → RegularFile) (fs : Files) : Files :=
  match fs path with
  | some (.regular file) => fs.set path (some (.regular (change file)))
  | _ => fs

def writeCall (path text : Text) (fs : Files) : Done × Files :=
  (.ok (), changeFile path (fun file => { file with content := file.content ++ text }) fs)

def readCall (path : Text) (fs : Files) : Except Errno Text :=
  match fs path with
  | some (.regular file) => .ok file.content
  | some _ => .error .eisdir
  | none => .error .enoent

def unlinkCall (path : Text) (fs : Files) : Done × Files :=
  match fs path with
  | none => (.error .enoent, fs)
  | some .directory => (.error .eisdir, fs)
  | some _ => (.ok (), fs.set path none)

/-- A call works whenever the node it finds lets it. -/
def performAct (dir : Text) : UndoAct → Files → Done × Files
  | .makeDir, fs => mkdirCall dir fs
  | .openSeq, fs => createCall (join dir seqName) privateMode fs
  | .resetSeq, fs =>
      (.ok (), changeFile (join dir seqName) (fun file => { file with content := [] }) fs)
  | .writeSeq seq, fs => writeCall (join dir seqName) (seqText seq) fs
  | .makeEntry seq, fs => mkdirCall (entryDir dir seq) fs
  | .openPath seq, fs => createNewCall (entryFile dir seq pathName) fs
  | .writePath seq path, fs => writeCall (entryFile dir seq pathName) path fs
  | .openMeta seq, fs => createEmptyCall (entryFile dir seq metaName) privateMode fs
  | .openSource path, fs => ((readCall path fs).map fun _ => (), fs)
  | .openData seq, fs => createNewCall (entryFile dir seq dataName) fs
  | .writeData seq chunk, fs => writeCall (entryFile dir seq dataName) chunk fs
  | .closeData _, fs => (.ok (), fs)
  | .unlinkData seq, fs => unlinkCall (entryFile dir seq dataName) fs
  | .closeMeta seq text, fs => writeCall (entryFile dir seq metaName) text fs
  | .unlinkTarget target, fs => unlinkCall target fs
  | .openTarget target mode, fs => createEmptyCall target (Fin.ofNat 4096 mode) fs
  | .openPreimage seq, fs => ((readCall (entryFile dir seq dataName) fs).map fun _ => (), fs)
  | .copyPreimage seq target, fs =>
      match readCall (entryFile dir seq dataName) fs with
      | .ok content => writeCall target (copyBytes content) fs
      | .error e => (.error e, fs)
  | .chmodTarget target mode, fs =>
      (.ok (), changeFile target (fun file => { file with mode := Fin.ofNat 4096 mode }) fs)
  | .unlinkMeta seq, fs => unlinkCall (entryFile dir seq metaName) fs
  | .unlinkPath seq, fs => unlinkCall (entryFile dir seq pathName) fs
  | .removeEntry seq, fs =>
      match fs (entryDir dir seq) with
      | some .directory => (.ok (), fs.set (entryDir dir seq) none)
      | _ => (.error .enoent, fs)
  | .truncateSeq, fs => createEmptyCall (join dir seqName) privateMode fs

def performLook (dir : Text) (fs : Files) : NodeQuery → Option Node
  | .statDir => fs dir
  | .lstat path => fs path
  | .accessMeta seq => fs (entryFile dir seq metaName)

def performFetch (dir : Text) (fs : Files) : TextQuery → Except Errno Text
  | .readSeq => (readCall (join dir seqName) fs).map (·.take 31)
  | .readSource path offset =>
      (readCall path fs).map fun content => (content.drop offset).take 8192
  | .loadSeq => (readCall (join dir seqName) fs).map (·.take 31)
  | .readPath seq => readCall (entryFile dir seq pathName) fs
  | .readMeta seq => readCall (entryFile dir seq metaName) fs

def perform (dir : Text) : (call : UndoCall) → Files → call.Ans × Files
  | .act a, fs => performAct dir a fs
  | .look q, fs => (performLook dir fs q, fs)
  | .fetch q, fs => (performFetch dir fs q, fs)

@[simp] theorem changeFile_set (path : Text) (change : RegularFile → RegularFile) (fs : Files)
    (file : RegularFile) :
    changeFile path change (fs.set path (some (.regular file))) =
      fs.set path (some (.regular (change file))) := by
  simp only [changeFile, Files.set_self, Files.set_set]

@[simp] theorem writeCall_set (path text : Text) (fs : Files) (file : RegularFile) :
    writeCall path text (fs.set path (some (.regular file))) =
      (.ok (), fs.set path (some (.regular ⟨file.mode, file.content ++ text⟩))) := by
  rw [writeCall, changeFile_set]

@[simp] theorem eval_act (dir : Text) (a : UndoAct) (fs : Files) :
    (act a).eval (perform dir) fs = performAct dir a fs := rfl

@[simp] theorem eval_look (dir : Text) (q : NodeQuery) (fs : Files) :
    (look q).eval (perform dir) fs = (performLook dir fs q, fs) := rfl

@[simp] theorem eval_fetch (dir : Text) (q : TextQuery) (fs : Files) :
    (fetch q).eval (perform dir) fs = (performFetch dir fs q, fs) := rfl

/-! ## `rash.snapshot_file` -/

def failure (text : String) : Reply := (false, some text)

/-- `rash_undo_ensure_dir`. -/
def ensureDirCalls : UndoProg (Except String Unit) := do
  match ← act .makeDir with
  | .ok () => return .ok ()
  | .error .eexist =>
      match ← look .statDir with
      | some .directory => return .ok ()
      | _ => return .error "RASH_UNDO_DIR is not a directory"
  | .error e => return .error ("cannot create undo dir: " ++ e.text)

/-- The number `rash_undo_next_seq` makes of what it reads. -/
def nextSeq (text : Text) : ℕ :=
  let seq := strtoul 10 text
  if seq = 0 then 1 else (seq + 1) % 2 ^ 64

/-- `rash_undo_next_seq`. -/
def nextSeqCalls : UndoProg (Except String ℕ) := do
  match ← act .openSeq with
  | .error e => return .error ("cannot open undo seq: " ++ e.text)
  | .ok () =>
  match ← fetch .readSeq with
  | .error e => return .error ("cannot read undo seq: " ++ e.text)
  | .ok text =>
  match ← act .resetSeq with
  | .error e => return .error ("cannot reset undo seq: " ++ e.text)
  | .ok () =>
  match ← act (.writeSeq (nextSeq text)) with
  | .error e => return .error ("cannot write undo seq: " ++ e.text)
  | .ok () => return .ok (nextSeq text)

/-- The loop of `rash_undo_copy_file` after `total` bytes.  A round that goes on has copied
at least one byte, and no more than the expected size in all. -/
def copyRounds (seq : ℕ) (source : Text) (expected : ℕ) : ℕ → ℕ → UndoProg (Except Errno ℕ)
  | 0, total => return .ok total
  | rounds + 1, total => do
      match ← fetch (.readSource source total) with
      | .error e => return .error e
      | .ok chunk =>
      if chunk = [] then return .ok total
      else
        match ← act (.writeData seq chunk) with
        | .error e => return .error e
        | .ok () =>
            if expected < total + chunk.length then return .error (.other "")
            else copyRounds seq source expected rounds (total + chunk.length)

/-- `rash_undo_copy_file`. -/
def copyFileCalls (seq : ℕ) (source : Text) (expected : ℕ) : UndoProg Done := do
  match ← act (.openSource source) with
  | .error e => return .error e
  | .ok () =>
  match ← act (.openData seq) with
  | .error e => return .error e
  | .ok () =>
  let copied ← copyRounds seq source expected (expected + 2) 0
  let closed ← act (.closeData seq)
  match copied, closed with
  | .ok total, .ok () =>
      if total = expected then return .ok ()
      else do
        let _ ← act (.unlinkData seq)
        return .error (.other "")
  | .error e, _ => do
      let _ ← act (.unlinkData seq)
      return .error e
  | .ok _, .error e => do
      let _ ← act (.unlinkData seq)
      return .error e

/-- The entry of `rash_lua_snapshot_file` from `mkdir` on. -/
def writeEntryCalls (seq : ℕ) (abspath : Text) (preimage : Option RegularFile) :
    UndoProg Reply := do
  match ← act (.makeEntry seq) with
  | .error e => return failure ("cannot create undo entry: " ++ e.text)
  | .ok () =>
  match ← act (.openPath seq) with
  | .error e => return failure ("cannot write undo path: " ++ e.text)
  | .ok () =>
  match ← act (.writePath seq abspath) with
  | .error e => return failure ("cannot write undo path: " ++ e.text)
  | .ok () =>
  match ← act (.openMeta seq) with
  | .error e => return failure ("cannot write undo meta: " ++ e.text)
  | .ok () =>
  match preimage with
  | none =>
      -- the result of `fclose` is not looked at
      let _ ← act (.closeMeta seq (metaText none))
      return (true, none)
  | some file =>
      match ← copyFileCalls seq abspath file.content.length with
      | .error e =>
          let _ ← act (.closeMeta seq [])
          let _ ← act (.unlinkData seq)
          return failure ("cannot copy preimage: " ++ e.text)
      | .ok () =>
          let _ ← act (.closeMeta seq (metaText preimage))
          return (true, none)

/-- `rash_lua_snapshot_file` behind its checks. -/
def takeSnapshotCalls (abspath : Text) (preimage : Option RegularFile) : UndoProg Reply := do
  match ← nextSeqCalls with
  | .error text => return failure text
  | .ok seq => if seq = 0 then return seqWrapped else writeEntryCalls seq abspath preimage

/-- `rash_lua_snapshot_file`; `taken` says whether the window has the path already. -/
def snapshotFileCalls (maxBytes : Option Text) (abspath : Text) (taken : Bool) :
    UndoProg Reply := do
  match ← ensureDirCalls with
  | .error text => return failure text
  | .ok () =>
  if taken then return already
  else
    match ← look (.lstat abspath) with
    | none => takeSnapshotCalls abspath none
    | some (.regular file) =>
        if rashUndoMaxBytes maxBytes < file.content.length then return exceedsMaxBytes
        else takeSnapshotCalls abspath (some file)
    | some _ => return notRegularFile

/-! ## `rash.undo_last` -/

/-- `rash_undo_latest_seq`. -/
def latestSeqCalls : UndoProg ℕ := do
  match ← fetch .loadSeq with
  | .ok text => return if text = [] then 0 else strtoul 10 text
  | .error _ => return 0

/-- The scan of `rash_lua_undo_last`. -/
def latestEntryCalls : ℕ → UndoProg ℕ
  | 0 => return 0
  | seq + 1 => do
      if (← look (.accessMeta (seq + 1))).isSome then return seq + 1 else latestEntryCalls seq

def restoreEntryCalls (seq : ℕ) (m : UndoMeta) (target : Text) : UndoProg Reply := do
  if m.existed = 0 then
    match ← act (.unlinkTarget target) with
    | .ok () | .error .enoent => return (true, none)
    | .error e => return failure ("cannot unlink: " ++ e.text)
  else
    match ← act (.openTarget target m.mode) with
    | .error e => return failure ("cannot restore: " ++ e.text)
    | .ok () =>
    match ← act (.openPreimage seq) with
    | .error _ => return failure "missing preimage data"
    | .ok () =>
    match ← act (.copyPreimage seq target) with
    | .error e => return failure ("restore write failed: " ++ e.text)
    | .ok () =>
    match ← act (.chmodTarget target m.mode) with
    | .error e => return failure ("cannot restore mode: " ++ e.text)
    | .ok () => return (true, none)

/-- `rash_undo_remove_entry`. -/
def removeEntryCalls (seq : ℕ) : UndoProg Unit := do
  let _ ← act (.unlinkData seq)
  let _ ← act (.unlinkMeta seq)
  let _ ← act (.unlinkPath seq)
  let _ ← act (.removeEntry seq)

/-- The seq file after an undo; what goes wrong here is not reported. -/
def storeSeqCalls (seq : ℕ) : UndoProg Unit := do
  match ← act .truncateSeq with
  | .error _ => return ()
  | .ok () => let _ ← act (.writeSeq seq)

def undoEntryCalls (seq : ℕ) : UndoProg Reply := do
  match ← fetch (.readPath seq) with
  | .error _ => return failure "corrupt undo entry"
  | .ok target =>
  match ← fetch (.readMeta seq) with
  | .error _ => return failure "corrupt undo entry"
  | .ok content =>
  let reply ← restoreEntryCalls seq (rashUndoReadMeta content) target
  if reply.1 then
    removeEntryCalls seq
    storeSeqCalls (seq - 1)
    return (true, none)
  else return reply

def undoLastCalls : UndoProg Reply := do
  match ← ensureDirCalls with
  | .error text => return failure text
  | .ok () =>
  let latest ← latestSeqCalls
  match ← latestEntryCalls latest with
  | 0 => return stackEmpty
  | seq + 1 => undoEntryCalls (seq + 1)

end Rash
