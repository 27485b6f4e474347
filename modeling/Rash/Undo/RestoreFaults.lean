import Rash.Undo.CallByCall
import Rash.Undo.SnapshotFaults

/-!
# Undos whose system calls fail

`rash.undo_last` where any of its calls may fail, with the copy of the preimage read by read and
write by write.
-/

namespace Rash

open FlatFiles Interaction

/-- How many bytes a call moves at an offset, and the offset behind which none are moved. -/
structure ByteStream where
  size : ℕ → ℕ
  limit : Option (ℕ × Errno)

/-- A call at an offset that asks for `most` bytes; what works moves at least one. -/
def ByteStream.move (b : ByteStream) (offset most : ℕ) : Except Errno ℕ :=
  match b.limit with
  | none => .ok (min (max 1 (b.size offset)) most)
  | some (limit, e) =>
      if limit ≤ offset then .error e
      else .ok (min (min (max 1 (b.size offset)) most) (limit - offset))

/-- How many of the first `n` bytes are moved. -/
def ByteStream.reach (b : ByteStream) (n : ℕ) : ℕ :=
  match b.limit with
  | none => n
  | some (limit, _) => min n limit

/-- Which calls of an undo fail, and how the preimage is read and written. -/
structure UndoFaults where
  act : UndoAct → Option (ℕ × Errno)
  look : NodeQuery → Bool
  fetch : TextQuery → Option Errno
  reads : ByteStream
  writes : ByteStream

def noUndoFaults : UndoFaults where
  act _ := none
  look _ := false
  fetch _ := none
  reads := ⟨fun _ => 8192, none⟩
  writes := ⟨fun _ => 8192, none⟩

def performUndo (faults : UndoFaults) (dir : Text) : (call : UndoCall) → Files → call.Ans × Files
  | .act a, fs =>
      match faults.act a with
      | none => performAct dir a fs
      | some (written, e) => (.error e, performPart dir written a fs)
  | .look q, fs => (if faults.look q then none else performLook dir fs q, fs)
  | .fetch q, fs =>
      match faults.fetch q with
      | none => (performFetch dir fs q, fs)
      | some e => (.error e, fs)

/-! ## The copy of the preimage -/

/-- The inner loop of the copy: `p` is what is left of the buffer. -/
def writeBack (faults : UndoFaults) (target : Text) : ℕ → Text → ℕ → Files → Done × Files
  | 0, _, _, fs => (.ok (), fs)
  | rounds + 1, p, written, fs =>
      if p = [] then (.ok (), fs)
      else
        match faults.writes.move written p.length with
        | .error e => (.error e, fs)
        | .ok nwrite =>
            writeBack faults target rounds (p.drop nwrite) (written + nwrite)
              (writeCall target (p.take nwrite) fs).2

/-- The outer loop after `total` bytes. -/
def copyBack (faults : UndoFaults) (dataPath target : Text) :
    ℕ → ℕ → Files → Except String Unit × Files
  | 0, _, fs => (.ok (), fs)
  | rounds + 1, total, fs =>
      match faults.reads.move total 8192, readCall dataPath fs with
      | .error e, _ => (.error ("restore read failed: " ++ e.text), fs)
      | .ok _, .error e => (.error ("restore read failed: " ++ e.text), fs)
      | .ok nread, .ok content =>
          let chunk := (content.drop total).take nread
          if chunk = [] then (.ok (), fs)
          else
            match writeBack faults target chunk.length chunk total fs with
            | (.error e, fs') => (.error ("restore write failed: " ++ e.text), fs')
            | (.ok (), fs') =>
                copyBack faults dataPath target rounds (total + chunk.length) fs'

/-- The number of bytes in a file. -/
def fileLength (path : Text) (fs : Files) : ℕ :=
  match fs path with
  | some (.regular file) => file.content.length
  | _ => 0

/-! ## `rash_lua_undo_last` -/

/-- The file of an entry is removed or put back. -/
def restoreWith (faults : UndoFaults) (dir : Text) (seq : ℕ) (m : UndoMeta) (target : Text)
    (fs : Files) : Reply × Files :=
  if m.existed = 0 then
    match performUndo faults dir (.act (.unlinkTarget target)) fs with
    | (.ok (), fs') => ((true, none), fs')
    | (.error .enoent, fs') => ((true, none), fs')
    | (.error e, fs') => (failure ("cannot unlink: " ++ e.text), fs')
  else
    match performUndo faults dir (.act (.openTarget target m.mode)) fs with
    | (.error e, fs') => (failure ("cannot restore: " ++ e.text), fs')
    | (.ok (), truncated) =>
        match performUndo faults dir (.act (.openPreimage seq)) truncated with
        | (.error _, fs') => (failure "missing preimage data", fs')
        | (.ok (), opened) =>
            let dataPath := entryFile dir seq dataName
            match copyBack faults dataPath target (fileLength dataPath opened + 1) 0 opened with
            | (.error text, fs') => (failure text, fs')
            | (.ok (), copied) =>
                match performUndo faults dir (.act (.chmodTarget target m.mode)) copied with
                | (.error e, fs') => (failure ("cannot restore mode: " ++ e.text), fs')
                | (.ok (), fs') => ((true, none), fs')

/-- The entry of a number with its meta and the path in it. -/
def readUndoEntry (faults : UndoFaults) (dir : Text) (seq : ℕ) (fs : Files) :
    Except Reply (ℕ × UndoMeta × Text) :=
  match (performUndo faults dir (.fetch (.readPath seq)) fs).1,
      (performUndo faults dir (.fetch (.readMeta seq)) fs).1 with
  | .ok target, .ok content => .ok (seq, rashUndoReadMeta content, target)
  | _, _ => .error (failure "corrupt undo entry")

/-- The entry that an undo goes for, with the files behind the calls that find it. -/
def findEntry (faults : UndoFaults) (dir : Text) (fs : Files) :
    Except Reply (ℕ × UndoMeta × Text) × Files :=
  match ensureDirCalls.eval (performUndo faults dir) fs with
  | (.error text, fs') => (.error (failure text), fs')
  | (.ok (), fs') =>
      let latest := (latestSeqCalls.eval (performUndo faults dir) fs').1
      match ((latestEntryCalls latest).eval (performUndo faults dir) fs').1 with
      | 0 => (.error stackEmpty, fs')
      | seq + 1 => (readUndoEntry faults dir (seq + 1) fs', fs')

/-- `rash_lua_undo_last` under faults. -/
def undoLastWith (faults : UndoFaults) (dir : Text) (fs : Files) : Reply × Files :=
  match findEntry faults dir fs with
  | (.error reply, fs') => (reply, fs')
  | (.ok (seq, m, target), fs') =>
      let restored := restoreWith faults dir seq m target fs'
      if restored.1.1 then
        let removed := (removeEntryCalls seq).eval (performUndo faults dir) restored.2
        let stored := (storeSeqCalls (seq - 1)).eval (performUndo faults dir) removed.2
        ((true, none), stored.2)
      else restored

end Rash
