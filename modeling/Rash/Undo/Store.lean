import Rash.Lib.Decimal
import Rash.Lib.FlatFiles

/-!
# The undo store

`rash.snapshot_file` and `rash.undo_last` over the files under `RASH_UNDO_DIR`: the `seq`
file, an entry directory for each snapshot with its `path`, `meta` and `data` files, and the
window of one redirection apply, in which a path is taken once.  I/O itself does not fail; an
open, a `mkdir` or an `unlink` fails where the node that it finds makes it fail.  A path is its
text: nothing resolves `..` or a link.
-/

namespace Rash

open Decimal FlatFiles

/-- What a port returns to Lua: a boolean and an optional text. -/
abbrev Reply := Bool × Option String

structure UndoState where
  files : Files
  applyWindowActive : Bool
  applyWindowPaths : List Text

/-! ## Names and texts -/

def seqName : Text := ['s', 'e', 'q']

def pathName : Text := ['p', 'a', 't', 'h']

def metaName : Text := ['m', 'e', 't', 'a']

def dataName : Text := ['d', 'a', 't', 'a']

/-- `%s/%06lu`. -/
def entryDir (dir : Text) (seq : ℕ) : Text := join dir (padded 6 seq)

def entryFile (dir : Text) (seq : ℕ) (name : Text) : Text := join (entryDir dir seq) name

def existedKey : Text := ['e', 'x', 'i', 's', 't', 'e', 'd', '=']

def modeKey : Text := ['m', 'o', 'd', 'e', '=']

def sizeKey : Text := ['s', 'i', 'z', 'e', '=']

/-- `0600`. -/
def privateMode : Fin 4096 := 0o600

/-- `RASH_UNDO_DEFAULT_MAX_BYTES`. -/
def rashUndoDefaultMaxBytes : ℕ := 256 * 1024 * 1024

/-- `rash_undo_max_bytes`: the variable counts when all of it is a number that fits. -/
def rashUndoMaxBytes (raw : Option Text) : ℕ :=
  match raw with
  | none => rashUndoDefaultMaxBytes
  | some raw =>
      let unsigned :=
        match raw.dropWhile isSpace with
        | '-' :: t => t
        | '+' :: t => t
        | t => t
      if unsigned ≠ [] ∧ unsigned.all Char.isDigit ∧ number 10 unsigned ≤ ulongMax then
        strtoul 10 raw
      else rashUndoDefaultMaxBytes

/-- `rash_undo_abspath`, with what `getcwd` returns. -/
def rashUndoAbspath (cwd : Option Text) (path : Text) : Text :=
  match path, cwd with
  | '/' :: _, _ => path
  | _, none => path
  | _, some cwd => join cwd path

/-! ## Files -/

/-- `rash_undo_ensure_dir`. -/
def rashUndoEnsureDir (dir : Text) (fs : Files) : Except String Files :=
  match fs dir with
  | none => .ok (fs.set dir (some .directory))
  | some .directory => .ok fs
  | some _ => .error "RASH_UNDO_DIR is not a directory"

/-- A loop of `read` and `write` through a buffer of 8192 bytes. -/
def copyLoop : ℕ → Text → Text → Text
  | 0, _, copied => copied
  | rounds + 1, source, copied =>
      if source = [] then copied
      else copyLoop rounds (source.drop 8192) (copied ++ source.take 8192)

def copyBytes (source : Text) : Text := copyLoop (source.length + 1) source []

/-- `rash_undo_copy_file`: the copy must have the expected size. -/
def rashUndoCopyFile (source : Text) (expectedSize : ℕ) : Option Text :=
  if (copyBytes source).length = expectedSize then some (copyBytes source) else none

/-- `open` with `O_CREAT`: the file that is there, or a new empty one. -/
def openCreate (fs : Files) (path : Text) (mode : Fin 4096) : Option RegularFile :=
  match fs path with
  | none => some ⟨mode, []⟩
  | some (.regular file) => some file
  | some _ => none

def seqText (seq : ℕ) : Text := decimal seq ++ ['\n']

/-- `rash_undo_next_seq`; 0 when the counter wraps around. -/
def rashUndoNextSeq (dir : Text) (fs : Files) : Except String (ℕ × Files) :=
  match openCreate fs (join dir seqName) privateMode with
  | none => .error "cannot open undo seq: Is a directory"
  | some file =>
      let seq := strtoul 10 (file.content.take 31)
      let next := if seq = 0 then 1 else (seq + 1) % 2 ^ 64
      .ok (next, fs.set (join dir seqName) (some (.regular ⟨file.mode, seqText next⟩)))

/-- `rash_undo_latest_seq`. -/
def rashUndoLatestSeq (dir : Text) (fs : Files) : ℕ :=
  match fs (join dir seqName) with
  | some (.regular file) => if file.content = [] then 0 else strtoul 10 (file.content.take 31)
  | _ => 0

/-! ## `rash.snapshot_file` -/

def already : Reply := (true, some "already")

def notRegularFile : Reply := (false, some "not a regular file")

def exceedsMaxBytes : Reply := (false, some "file exceeds RASH_UNDO_MAX_BYTES")

/-- The reply when `rash_undo_next_seq` returned 0 without a message. -/
def seqWrapped : Reply := (false, some "")

/-- What goes into the `meta` file. -/
def metaText (preimage : Option RegularFile) : Text :=
  match preimage with
  | none => existedKey ++ ['0', '\n']
  | some file =>
      existedKey ++ ['1', '\n'] ++ modeKey ++ decimal file.mode ++ ['\n'] ++ sizeKey ++
        decimal file.content.length ++ ['\n']

/-- `mkdir` of the entry and its three files. -/
def writeEntry (dir : Text) (seq : ℕ) (abspath : Text) (preimage : Option RegularFile)
    (fs : Files) : Reply × Files :=
  let fileAt := entryFile dir seq
  if (fs (entryDir dir seq)).isSome then
    ((false, some "cannot create undo entry: File exists"), fs)
  else
    let made := fs.set (entryDir dir seq) (some .directory)
    if (made (fileAt pathName)).isSome then
      ((false, some "cannot write undo path: File exists"), made)
    else
      let named := made.set (fileAt pathName) (some (.regular ⟨privateMode, abspath⟩))
      match openCreate named (fileAt metaName) privateMode, preimage with
      | none, _ => ((false, some "cannot write undo meta: Is a directory"), named)
      | some opened, none =>
          ((true, none),
            named.set (fileAt metaName) (some (.regular ⟨opened.mode, metaText none⟩)))
      | some opened, some file =>
          let emptied := named.set (fileAt metaName) (some (.regular ⟨opened.mode, []⟩))
          match emptied (fileAt dataName), rashUndoCopyFile file.content file.content.length with
          | none, some copy =>
              ((true, none),
                (emptied.set (fileAt dataName) (some (.regular ⟨privateMode, copy⟩))).set
                  (fileAt metaName) (some (.regular ⟨opened.mode, metaText (some file)⟩)))
          | _, _ =>
              ((false, some "cannot copy preimage: File exists"),
                emptied.set (fileAt dataName) none)

theorem writeEntry_reply {dir abspath : Text} {seq : ℕ} {preimage : Option RegularFile}
    {fs : Files} (h : (writeEntry dir seq abspath preimage fs).1.1 = true) :
    (writeEntry dir seq abspath preimage fs).1 = (true, none) := by
  unfold writeEntry at h ⊢
  dsimp only at h ⊢
  split_ifs at h ⊢
  split at h <;> try rfl
  · cases h
  · split at h
    · rfl
    · cases h

namespace UndoState

/-- `rash_apply_window_has`. -/
def applyWindowHas (s : UndoState) (abspath : Text) : Bool :=
  s.applyWindowActive && s.applyWindowPaths.contains abspath

/-- `rash_apply_window_add`. -/
def applyWindowAdd (s : UndoState) (abspath : Text) : UndoState :=
  if s.applyWindowActive then { s with applyWindowPaths := s.applyWindowPaths ++ [abspath] }
  else s

/-- `rash_hooks_redirect_apply_end`. -/
def applyEnd (s : UndoState) : UndoState :=
  { s with applyWindowActive := false, applyWindowPaths := [] }

/-- `rash_hooks_redirect_apply_begin`. -/
def applyBegin (s : UndoState) : UndoState := { s.applyEnd with applyWindowActive := true }

end UndoState

/-- `rash_lua_snapshot_file` behind its checks. -/
def takeSnapshot (dir abspath : Text) (preimage : Option RegularFile) (s : UndoState) :
    Reply × UndoState :=
  match rashUndoNextSeq dir s.files with
  | .error text => ((false, some text), s)
  | .ok (seq, fs) =>
      if seq = 0 then (seqWrapped, { s with files := fs })
      else
        let written := writeEntry dir seq abspath preimage fs
        let s' := { s with files := written.2 }
        (written.1, if written.1.1 then s'.applyWindowAdd abspath else s')

def rashLuaSnapshotFile (dir : Text) (maxBytes : Option Text) (cwd : Option Text) (path : Text)
    (s : UndoState) : Reply × UndoState :=
  match rashUndoEnsureDir dir s.files with
  | .error text => ((false, some text), s)
  | .ok fs =>
      let s := { s with files := fs }
      let abspath := rashUndoAbspath cwd path
      if s.applyWindowHas abspath then (already, s)
      else
        match fs abspath with
        | none => takeSnapshot dir abspath none s
        | some (.regular file) =>
            if rashUndoMaxBytes maxBytes < file.content.length then (exceedsMaxBytes, s)
            else takeSnapshot dir abspath (some file) s
        | some _ => (notRegularFile, s)

/-! ## `rash.undo_last` -/

def stackEmpty : Reply := (false, some "undo stack empty")

/-- The variables that `rash_undo_read_meta` fills; `size` is not read again. -/
structure UndoMeta where
  existed : ℕ
  mode : ℕ
  size : ℕ

def UndoMeta.read (m : UndoMeta) (line : Text) : UndoMeta :=
  if existedKey.isPrefixOf line then { m with existed := strtoul 10 (line.drop 8) }
  else if modeKey.isPrefixOf line then { m with mode := strtoul 0 (line.drop 5) }
  else if sizeKey.isPrefixOf line then { m with size := strtoul 10 (line.drop 5) }
  else m

/-- `rash_undo_read_meta`; the lines that are written fit into its buffer. -/
def rashUndoReadMeta (content : Text) : UndoMeta :=
  (content.splitOn '\n').foldl UndoMeta.read ⟨0, 0o600, 0⟩

/-- The loop of `rash_lua_undo_last` down to an entry with a `meta` file. -/
def latestEntry (dir : Text) (fs : Files) : ℕ → ℕ
  | 0 => 0
  | seq + 1 =>
      if (fs (entryFile dir (seq + 1) metaName)).isSome then seq + 1 else latestEntry dir fs seq

/-- `unlink`; a file that does not exist is no error. -/
def unlinkTarget (target : Text) (fs : Files) : Except String Files :=
  match fs target with
  | some .directory => .error "cannot unlink: Is a directory"
  | _ => .ok (fs.set target none)

/-- `open` with `O_TRUNC`, the copy of the preimage and `fchmod`. -/
def restoreTarget (target dataPath : Text) (mode : ℕ) (fs : Files) : Reply × Files :=
  match openCreate fs target (Fin.ofNat 4096 mode) with
  | none => ((false, some "cannot restore: Is a directory"), fs)
  | some opened =>
      let truncated := fs.set target (some (.regular ⟨opened.mode, []⟩))
      match truncated dataPath with
      | some (.regular file) =>
          ((true, none), truncated.set target
            (some (.regular ⟨Fin.ofNat 4096 mode, copyBytes file.content⟩)))
      | _ => ((false, some "missing preimage data"), truncated)

/-- `rash_undo_remove_entry`; the three files are all that an entry holds. -/
def rashUndoRemoveEntry (dir : Text) (seq : ℕ) (fs : Files) : Files :=
  (((fs.set (entryFile dir seq dataName) none).set (entryFile dir seq metaName) none).set
    (entryFile dir seq pathName) none).set (entryDir dir seq) none

/-- The last lines of `rash_lua_undo_last`: a seq file that cannot be opened is left alone. -/
def writeSeq (dir : Text) (seq : ℕ) (fs : Files) : Files :=
  match openCreate fs (join dir seqName) privateMode with
  | none => fs
  | some file => fs.set (join dir seqName) (some (.regular ⟨file.mode, seqText seq⟩))

/-- The file of an entry is removed or put back. -/
def restoreEntry (dir : Text) (seq : ℕ) (m : UndoMeta) (target : Text) (fs : Files) :
    Reply × Files :=
  if m.existed = 0 then
    match unlinkTarget target fs with
    | .error text => ((false, some text), fs)
    | .ok fs' => ((true, none), fs')
  else restoreTarget target (entryFile dir seq dataName) m.mode fs

/-- `rash_lua_undo_last` on entry `seq`. -/
def undoEntry (dir : Text) (seq : ℕ) (fs : Files) : Reply × Files :=
  match fs (entryFile dir seq pathName), fs (entryFile dir seq metaName) with
  | some (.regular pathFile), some (.regular metaFile) =>
      let restored :=
        restoreEntry dir seq (rashUndoReadMeta metaFile.content) pathFile.content fs
      if restored.1.1 then
        ((true, none), writeSeq dir (seq - 1) (rashUndoRemoveEntry dir seq restored.2))
      else restored
  | _, _ => ((false, some "corrupt undo entry"), fs)

def rashLuaUndoLast (dir : Text) (s : UndoState) : Reply × UndoState :=
  match rashUndoEnsureDir dir s.files with
  | .error text => ((false, some text), s)
  | .ok fs =>
      match latestEntry dir fs (rashUndoLatestSeq dir fs) with
      | 0 => (stackEmpty, { s with files := fs })
      | seq + 1 =>
          let undone := undoEntry dir (seq + 1) fs
          (undone.1, { s with files := undone.2 })

/-! ## Runs -/

inductive UndoAction
  | snapshotFile (maxBytes cwd : Option Text) (path : Text)
  | undoLast
  | applyBegin
  | applyEnd
  /-- Something else writes, changes, creates or removes a file. -/
  | external (path : Text) (file : Option RegularFile)

/-- One action; only the two ports reply. -/
def undoStep (dir : Text) (s : UndoState) : UndoAction → Option Reply × UndoState
  | .snapshotFile maxBytes cwd path =>
      let r := rashLuaSnapshotFile dir maxBytes cwd path s
      (some r.1, r.2)
  | .undoLast =>
      let r := rashLuaUndoLast dir s
      (some r.1, r.2)
  | .applyBegin => (none, s.applyBegin)
  | .applyEnd => (none, s.applyEnd)
  | .external path file => (none, { s with files := s.files.set path (file.map .regular) })

def UndoState.start (fs : Files) : UndoState := ⟨fs, false, []⟩

end Rash
