import Rash.Undo.Store

/-!
# The undo stack

What the store is for: a stack of preimages, and the relation between the files under the
undo directory and that stack.
-/

namespace Rash

open Decimal FlatFiles

/-- A snapshot: the path and the file that was there, if any. -/
structure UndoRecord where
  path : Text
  preimage : Option RegularFile

/-- The files outside the undo directory with the window, and the snapshots not yet undone. -/
structure UndoStack where
  world : UndoState
  stack : List UndoRecord

namespace UndoStack

def push (t : UndoStack) (r : UndoRecord) : UndoStack :=
  ⟨t.world.applyWindowAdd r.path, r :: t.stack⟩

/-- A snapshot; with `takesOnce` a path is taken once in a window. -/
def snapshot (takesOnce : Bool) (maxBytes cwd : Option Text) (path : Text) (t : UndoStack) :
    Reply × UndoStack :=
  let abspath := rashUndoAbspath cwd path
  if takesOnce && t.world.applyWindowHas abspath then (already, t)
  else
    match t.world.files abspath with
    | none => ((true, none), t.push ⟨abspath, none⟩)
    | some (.regular file) =>
        if rashUndoMaxBytes maxBytes < file.content.length then (exceedsMaxBytes, t)
        else ((true, none), t.push ⟨abspath, some file⟩)
    | some _ => (notRegularFile, t)

/-- The latest snapshot is put back and popped. -/
def undo (t : UndoStack) : Reply × UndoStack :=
  match t.stack with
  | [] => (stackEmpty, t)
  | r :: rest =>
      ((true, none),
        ⟨{ t.world with files := t.world.files.set r.path (r.preimage.map .regular) }, rest⟩)

def step (takesOnce : Bool) (t : UndoStack) : UndoAction → Option Reply × UndoStack
  | .snapshotFile maxBytes cwd path =>
      let r := t.snapshot takesOnce maxBytes cwd path
      (some r.1, r.2)
  | .undoLast =>
      let r := t.undo
      (some r.1, r.2)
  | .applyBegin => (none, { t with world := t.world.applyBegin })
  | .applyEnd => (none, { t with world := t.world.applyEnd })
  | .external path file =>
      (none, { t with world := { t.world with
        files := t.world.files.set path (file.map .regular) } })

def start (fs : Files) : UndoStack := ⟨.start fs, []⟩

end UndoStack

/-- The files that an action names lie outside the undo directory. -/
def UndoAction.Outside (dir : Text) : UndoAction → Prop
  | .snapshotFile _ cwd path => ¬ Inside dir (rashUndoAbspath cwd path)
  | .external path _ => ¬ Inside dir path
  | .undoLast | .applyBegin | .applyEnd => True

instance (dir : Text) : (a : UndoAction) → Decidable (a.Outside dir)
  | .snapshotFile _ cwd path => inferInstanceAs (Decidable (¬ Inside dir (rashUndoAbspath cwd path)))
  | .external path _ => inferInstanceAs (Decidable (¬ Inside dir path))
  | .undoLast | .applyBegin | .applyEnd => inferInstanceAs (Decidable True)

/-! ## The files of a stack -/

/-- What an entry directory holds. -/
def entryFiles (dir : Text) (seq : ℕ) (r : UndoRecord) : Files :=
  let bare : Files := fun _ => none
  (((bare.set (entryDir dir seq) (some .directory)).set (entryFile dir seq pathName)
    (some (.regular ⟨privateMode, r.path⟩))).set (entryFile dir seq dataName)
      (r.preimage.map fun file => .regular ⟨privateMode, file.content⟩)).set
        (entryFile dir seq metaName) (some (.regular ⟨privateMode, metaText r.preimage⟩))

def EntryHolds (dir : Text) (fs : Files) (seq : ℕ) (r : UndoRecord) : Prop :=
  ∀ p, Inside (entryDir dir seq) p → fs p = entryFiles dir seq r p

def EntryAbsent (dir : Text) (fs : Files) (seq : ℕ) : Prop :=
  ∀ p, Inside (entryDir dir seq) p → fs p = none

/-- The entries of a stack are numbered from its bottom. -/
def EntriesHold (dir : Text) (fs : Files) : List UndoRecord → Prop
  | [] => True
  | r :: rest => EntryHolds dir fs (rest.length + 1) r ∧ EntriesHold dir fs rest

/-- The seq file says how many entries there are. -/
def SeqHolds (dir : Text) (fs : Files) (count : ℕ) : Prop :=
  (fs (join dir seqName) = none ∧ count = 0) ∨
    ∃ mode, fs (join dir seqName) = some (.regular ⟨mode, seqText count⟩)

/-- A node that `open` and `unlink` can work on. -/
def Replaceable (node : Option Node) : Prop := ∃ file : Option RegularFile, node = file.map .regular

/-- The store holds the stack. -/
structure Refines (dir : Text) (s : UndoState) (t : UndoStack) : Prop where
  active : s.applyWindowActive = t.world.applyWindowActive
  window : s.applyWindowPaths = t.world.applyWindowPaths
  outside : ∀ p, ¬ Inside dir p → s.files p = t.world.files p
  directory : s.files dir = none ∨ s.files dir = some .directory
  seq : SeqHolds dir s.files t.stack.length
  entries : EntriesHold dir s.files t.stack
  absent : ∀ seq, t.stack.length < seq → EntryAbsent dir s.files seq
  targets : ∀ r ∈ t.stack, ¬ Inside dir r.path ∧ Replaceable (t.world.files r.path)
  bound : t.stack.length ≤ ulongMax

/-- An undo directory that does not exist yet or is empty. -/
structure FreshStore (dir : Text) (fs : Files) : Prop where
  directory : fs dir = none ∨ fs dir = some .directory
  empty : ∀ name, fs (join dir name) = none

end Rash
