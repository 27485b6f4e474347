import Rash.Input.BufferedStream
import Mathlib.Data.List.Nodup

/-!
# Streams that share a buffer

The table of streams in input.c, with the buffers as blocks of the heap.  A block is named by its
allocation, so that a pointer to a freed block is not mistaken for a later one.
-/

namespace Rash

namespace SharedBuffers

abbrev Block := ℕ

/-- `BUFFERED_STREAM`; the buffer is a pointer, which may be null. -/
structure Stream where
  fd : ℕ
  buffer : Option Block
  size : ℕ
  used : ℕ
  inputp : ℕ
  eof : Bool
  error : Bool
  unbuff : Bool
  wasBashInput : Bool
  sharedBuf : Bool
  deriving DecidableEq

structure State where
  buffers : ℕ → Option Stream
  nbuffers : ℕ
  /-- `bash_input.location.buffered_fd`, while `bash_input` is a buffered stream -/
  bashInput : Option ℕ
  defaultBufferedInput : Option ℕ
  interactiveShell : Bool
  bashInputFdChanged : ℕ
  usingBashMalloc : Bool
  /-- the block that is allocated next -/
  next : Block
  /-- the blocks that have been freed, the last one first -/
  freed : List Block

inductive Fault
  /-- an entry is read outside the table -/
  | outside
  /-- a null stream is used -/
  | null
  deriving DecidableEq

namespace Stream

/-- `if (bp->b_flag & B_SHAREDBUF) bp->b_buffer = NULL`. -/
def detach (bp : Stream) : Stream := if bp.sharedBuf then { bp with buffer := none } else bp

end Stream

namespace State

variable (s : State)

def allocateBuffers (n : ℕ) : State := if s.nbuffers ≤ n then { s with nbuffers := n + 20 } else s

def setSlot (fd : ℕ) (bp : Option Stream) : State :=
  { s with buffers := Function.update s.buffers fd bp }

/-- `buffers[fd]`. -/
def slot (fd : ℕ) : Except Fault (Option Stream) :=
  if fd < s.nbuffers then .ok (s.buffers fd) else .error .outside

def makeBufferedStream (fd : ℕ) (buffer : Block) (bufsize : ℕ) : Stream × State :=
  let bp : Stream :=
    { fd := fd, buffer := some buffer, size := bufsize, used := 0, inputp := 0, eof := false,
      error := false, unbuff := bufsize == 1, wasBashInput := false, sharedBuf := false }
  (bp, (s.allocateBuffers fd).setSlot fd (some bp))

/-- `fd_to_buffered_stream`; `file` is the open file, if `fstat` finds one. -/
def fdToBufferedStream (fd : ℕ) (file : Option OpenFile) : Option Stream × State :=
  match file with
  | none => (none, s)
  | some file =>
      let made := { s with next := s.next + 1 }.makeBufferedStream fd s.next
        (InputState.bufferSize s.usingBashMalloc file)
      (some made.1, made.2)

def freeBufferedStream (bp : Stream) : State :=
  { s with freed := bp.buffer.toList ++ s.freed, buffers := Function.update s.buffers bp.fd none }

def closeBufferedStream (bp : Stream) : State := s.freeBufferedStream bp.detach

def closeBufferedFd (fd : ℕ) : State :=
  if s.nbuffers ≤ fd then s
  else
    match s.buffers fd with
    | none => s
    | some bp => s.closeBufferedStream bp

def fdIsBashInput (fd : ℕ) : Bool :=
  s.bashInput == some fd || !s.interactiveShell && s.defaultBufferedInput == some fd

/-- `sync_buffered_stream`, and whether there was a stream. -/
def syncBufferedStream (bfd : ℕ) : Except Fault (Bool × State) :=
  if s.nbuffers = 0 then .ok (false, s)
  else do
    match ← s.slot bfd with
    | none => .ok (false, s)
    | some bp => .ok (true, s.setSlot bfd (some { bp with used := 0, inputp := 0 }))

/-- A stray stream at the new descriptor for the input is freed. -/
def closeStray (nfd : ℕ) : State :=
  if nfd < s.nbuffers then
    match s.buffers nfd with
    | none => s
    | some bp => s.freeBufferedStream bp.detach
  else s

/-- `bash_input` is read from the new descriptor, or its change is noted. -/
def moveInput (fd nfd : ℕ) (file : Option OpenFile) : State :=
  match s.bashInput with
  | some _ =>
      let opened := ({ s with bashInput := some nfd } : State).fdToBufferedStream nfd file
      opened.2.closeBufferedFd fd
  | none => { s with bashInputFdChanged := s.bashInputFdChanged + 1 }

def moveDefault (fd nfd : ℕ) : State :=
  if s.defaultBufferedInput = some fd then { s with defaultBufferedInput := some nfd } else s

def syncIfStream (bp : Option Stream) (fd : ℕ) : Except Fault State :=
  if bp.isSome then Prod.snd <$> s.syncBufferedStream fd else .ok s

/-- `save_bash_input`, and the new descriptor; `dupfd` is what `fcntl (fd, F_DUPFD, 10)` answers. -/
def saveBashInput (fd : ℕ) (newFd dupfd : Option ℕ) (file : Option OpenFile) :
    Except Fault (Option ℕ × State) := do
  let bp ← s.slot fd
  let s ← s.syncIfStream bp fd
  match newFd.or dupfd with
  | none => .ok (none, s)
  | some nfd => .ok (some nfd, ((s.closeStray nfd).moveInput fd nfd file).moveDefault fd nfd)

/-- `check_bash_input`, and the new descriptor, 0 or -1. -/
def checkBashInput (fd : ℕ) (dupfd : Option ℕ) (file : Option OpenFile) :
    Except Fault (Int × State) :=
  if s.fdIsBashInput fd then
    if 0 < fd then do
      let (nfd, s) ← s.saveBashInput fd none dupfd file
      .ok (nfd.elim (-1) Int.ofNat, s)
    else do
      let (synced, s) ← s.syncBufferedStream fd
      .ok (if synced then 0 else -1, s)
  else .ok (0, s)

/-- The stream that is to be overwritten goes, with its buffer unless that is still used. -/
def dropTarget (fd1 fd2 : ℕ) : State :=
  match s.buffers fd2 with
  | none => s
  | some old =>
      if (s.buffers fd1).any fun bp => bp.buffer.isSome && bp.buffer == old.buffer then
        s.setSlot fd2 none
      else s.freeBufferedStream old.detach

/-- The shell's input must have a stream. -/
def markInput (isBashInput : Bool) (fd2 : ℕ) (file : Option OpenFile) : Except Fault State :=
  if isBashInput then
    let s := if (s.buffers fd2).isSome then s else (s.fdToBufferedStream fd2 file).2
    match s.buffers fd2 with
    | none => .error .null
    | some bp => .ok (s.setSlot fd2 (some { bp with wasBashInput := true }))
  else .ok s

def markShared (fd1 fd2 : ℕ) : State :=
  match s.buffers fd2 with
  | none => s
  | some bp =>
      if s.fdIsBashInput fd1 || (s.buffers fd1).any Stream.sharedBuf then
        s.setSlot fd2 (some { bp with sharedBuf := true })
      else s

def duplicateBufferedStream (fd1 fd2 : ℕ) (file : Option OpenFile) : Except Fault (ℕ × State) :=
  if fd1 = fd2 then .ok (0, s)
  else do
    let s := (s.allocateBuffers (max fd1 fd2)).dropTarget fd1 fd2
    let s := s.setSlot fd2 ((s.buffers fd1).map fun bp => { bp with fd := fd2 })
    let s ← s.markInput (s.bashInput == some fd2) fd2 file
    .ok (fd2, s.markShared fd1 fd2)

end State

/-! ## Runs -/

/-- A call, with what the kernel answers to it. -/
inductive Op
  | fdToBufferedStream (fd : ℕ) (file : Option OpenFile)
  | duplicateBufferedStream (fd1 fd2 : ℕ) (file : Option OpenFile)
  | closeBufferedFd (fd : ℕ)
  | checkBashInput (fd : ℕ) (dupfd : Option ℕ) (file : Option OpenFile)
  | saveBashInput (fd : ℕ) (newFd dupfd : Option ℕ) (file : Option OpenFile)

namespace State

def step (s : State) : Op → Except Fault State
  | .fdToBufferedStream fd file => .ok (s.fdToBufferedStream fd file).2
  | .duplicateBufferedStream fd1 fd2 file => Prod.snd <$> s.duplicateBufferedStream fd1 fd2 file
  | .closeBufferedFd fd => .ok (s.closeBufferedFd fd)
  | .checkBashInput fd dupfd file => Prod.snd <$> s.checkBashInput fd dupfd file
  | .saveBashInput fd newFd dupfd file => Prod.snd <$> s.saveBashInput fd newFd dupfd file

def run (s : State) (ops : List Op) : Except Fault State := ops.foldlM step s

/-- The beginning, whatever the shell's input is. -/
structure NoStreams (s : State) : Prop where
  nbuffers : s.nbuffers = 0
  buffers : ∀ i, s.buffers i = none
  freed : s.freed = []

/-- What is asserted of every state. -/
structure OneOwner (s : State) : Prop where
  live : ∀ i bp b, s.buffers i = some bp → bp.buffer = some b → b ∉ s.freed
  fd : ∀ i bp, s.buffers i = some bp → bp.fd = i
  apart : ∀ i j bp bq b, i ≠ j → s.buffers i = some bp → s.buffers j = some bq →
    bp.buffer = some b → bq.buffer = some b → bp.sharedBuf = true ∨ bq.sharedBuf = true
  once : s.freed.Nodup

/-- The block that is freed when the stream at `fd` is. -/
def released (s : State) (fd : ℕ) : Option Block := (s.buffers fd).bind fun bp => bp.detach.buffer

/-- The block that goes with the stream at `fd` is used by no stream elsewhere. -/
def LastUse (s : State) (fd : ℕ) (elsewhere : ℕ → Prop) : Prop :=
  ∀ b ∈ s.released fd, ∀ k bp, elsewhere k → s.buffers k = some bp → bp.buffer ≠ some b

/-- The two descriptors have streams with the same buffer. -/
def SameBuffer (s : State) (fd1 fd2 : ℕ) : Prop :=
  ∃ bp bq, s.buffers fd1 = some bp ∧ s.buffers fd2 = some bq ∧ bp.buffer = bq.buffer

/-- Where the input moves, the streams that go are the last ones with their buffers. -/
structure MoveAllowed (s : State) (fd : ℕ) (newFd dupfd : Option ℕ) : Prop where
  inside : fd < s.nbuffers
  stray : ∀ nfd ∈ newFd.or dupfd, s.LastUse nfd fun k => k ≠ nfd ∧ (s.bashInput ≠ none → k ≠ fd)
  input : ∀ nfd ∈ newFd.or dupfd, s.bashInput ≠ none → s.LastUse fd fun k => k ≠ fd ∧ k ≠ nfd

/-- The calls after which every buffer still has its one owner. -/
def Allowed (s : State) : Op → Prop
  | .fdToBufferedStream _ _ => True
  | .duplicateBufferedStream fd1 fd2 file => fd1 ≠ fd2 →
      (s.SameBuffer fd1 fd2 ∨ s.LastUse fd2 (· ≠ fd2)) ∧
      (∀ bp, s.buffers fd1 = some bp → s.fdIsBashInput fd1 = true ∨ bp.sharedBuf = true) ∧
      (s.buffers fd1 = none → s.bashInput = some fd2 → file ≠ none)
  | .closeBufferedFd fd => s.LastUse fd (· ≠ fd)
  | .checkBashInput fd dupfd _ => s.fdIsBashInput fd = true → 0 < fd → s.MoveAllowed fd none dupfd
  | .saveBashInput fd newFd dupfd _ => s.MoveAllowed fd newFd dupfd

/-- Every call of the run is allowed in its state. -/
def AllAllowed : State → List Op → Prop
  | _, [] => True
  | s, op :: ops => s.Allowed op ∧ ∀ s', s.step op = .ok s' → AllAllowed s' ops

end State

end SharedBuffers

end Rash
