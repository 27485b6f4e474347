import Mathlib.Logic.Function.Basic
import Mathlib.Data.List.Basic

/-!
# Buffered streams

The streams of input.c over the kernel's open files.  A descriptor refers to an open file,
which holds the offset, so that duplicates share it.  `O_TEXT` is 0 on the systems modelled,
and no stream is in text mode.
-/

namespace Rash

/-- An open file: what can be read from it, and how far it has been read.  Of a pipe or a
terminal, the contents are everything that its writers will ever write. -/
structure OpenFile where
  contents : List UInt8
  offset : ℕ
  seekable : Bool
  /-- `st_size` -/
  size : ℕ
  deriving DecidableEq

/-- What the kernel answers to `read`: at most `n` bytes, or an error other than `EINTR`. -/
inductive ReadAnswer
  | bytes (n : ℕ)
  | failed
  deriving DecidableEq

structure BufferedStream where
  fd : ℕ
  buffer : List UInt8
  size : ℕ
  used : ℕ
  inputp : ℕ
  eof : Bool
  error : Bool
  unbuff : Bool
  deriving DecidableEq

/-- The kernel's tables and the variables of input.c, while `bash_input` is a buffered
stream. -/
structure InputState where
  files : ℕ → OpenFile
  descriptors : ℕ → Option ℕ
  buffers : ℕ → Option BufferedStream
  /-- `bash_input.location.buffered_fd`, if not negative -/
  bufferedFd : Option ℕ
  defaultBufferedInput : Option ℕ
  /-- `USING_BASH_MALLOC` -/
  usingBashMalloc : Bool

/-- `MAX_INPUT_BUFFER_SIZE` -/
def maxInputBufferSize (usingBashMalloc : Bool) : ℕ := if usingBashMalloc then 8172 else 8192

namespace InputState

/-- `zread` -/
def zread (s : InputState) (fd len : ℕ) (answer : ReadAnswer) :
    Option (List UInt8) × InputState :=
  match s.descriptors fd, answer with
  | none, _ => (none, s)
  | some _, .failed => (none, s)
  | some f, .bytes n =>
      let file := s.files f
      let got := (file.contents.drop file.offset).take (min n len)
      let files := Function.update s.files f { file with offset := file.offset + got.length }
      (some got, { s with files := files })

/-- `lseek (fd, -k, SEEK_CUR)`, which fails unless the file is seekable. -/
def seekBack (s : InputState) (fd k : ℕ) : InputState :=
  match s.descriptors fd with
  | none => s
  | some f =>
      let file := s.files f
      if file.seekable then
        { s with files := Function.update s.files f { file with offset := file.offset - k } }
      else s

def close (s : InputState) (fd : ℕ) : InputState :=
  { s with descriptors := Function.update s.descriptors fd none }

def putStream (s : InputState) (fd : ℕ) (bp : BufferedStream) : InputState :=
  { s with buffers := Function.update s.buffers fd (some bp) }

/-- `free_buffered_stream` of the stream at `fd` -/
def freeBufferedStream (s : InputState) (fd : ℕ) : InputState :=
  { s with buffers := Function.update s.buffers fd none }

def makeBufferedStream (s : InputState) (fd bufsize : ℕ) : InputState :=
  s.putStream fd
    { fd := fd, buffer := List.replicate bufsize 0, size := bufsize, used := 0, inputp := 0,
      eof := false, error := false, unbuff := bufsize == 1 }

/-- The size of the buffer that `fd_to_buffered_stream` allocates. -/
def bufferSize (usingBashMalloc : Bool) (file : OpenFile) : ℕ :=
  let size := if file.seekable then min file.size (maxInputBufferSize usingBashMalloc) else 1
  if size = 0 then 1 else size

def fdToBufferedStream (s : InputState) (fd : ℕ) : InputState :=
  match s.descriptors fd with
  | none => s.close fd
  | some f => s.makeBufferedStream fd (bufferSize s.usingBashMalloc (s.files f))

def closeBufferedFd (s : InputState) (fd : ℕ) : InputState :=
  match s.buffers fd with
  | none => s.close fd
  | some bp => (s.freeBufferedStream bp.fd).close bp.fd

/-- `b_fill_buffer` of the stream at `fd`.  A read error is sticky. -/
def bFillBuffer (s : InputState) (fd : ℕ) (bp : BufferedStream) (answer : ReadAnswer) :
    Option UInt8 × InputState :=
  if bp.error then (none, s)
  else
    match s.zread bp.fd bp.size answer with
    | (none, s') =>
        (none, s'.putStream fd
          { bp with used := 0, inputp := 0, buffer := bp.buffer.set 0 0, error := true })
    | (some [], s') =>
        (none, s'.putStream fd
          { bp with used := 0, inputp := 0, buffer := bp.buffer.set 0 0, eof := true })
    | (some (c :: got), s') =>
        (some c, s'.putStream fd
          { bp with used := (c :: got).length, inputp := 1,
                    buffer := (c :: got) ++ bp.buffer.drop (c :: got).length })

def bufstreamGetc (s : InputState) (fd : ℕ) (bp : BufferedStream) (answer : ReadAnswer) :
    Option UInt8 × InputState :=
  if bp.inputp = bp.used ∨ bp.used = 0 then s.bFillBuffer fd bp answer
  else (bp.buffer[bp.inputp]?, s.putStream fd { bp with inputp := bp.inputp + 1 })

/-- `bufstream_ungetc`, and whether it took the character. -/
def bufstreamUngetc (s : InputState) (fd : ℕ) (c : UInt8) (bp : BufferedStream) :
    Bool × InputState :=
  if bp.inputp = 0 then (false, s)
  else
    (true, s.putStream fd
      { bp with inputp := bp.inputp - 1, buffer := bp.buffer.set (bp.inputp - 1) c })

def syncBufferedStream (s : InputState) (bfd : ℕ) : InputState :=
  match s.buffers bfd with
  | none => s
  | some bp =>
      let charsLeft := bp.used - bp.inputp
      let s' := if charsLeft ≠ 0 then s.seekBack bp.fd charsLeft else s
      s'.putStream bfd { bp with used := 0, inputp := 0 }

@[simp] theorem seekBack_descriptors (s : InputState) (fd k : ℕ) :
    (s.seekBack fd k).descriptors = s.descriptors := by
  simp only [seekBack]
  split
  · rfl
  · split <;> rfl

@[simp] theorem syncBufferedStream_descriptors (s : InputState) (fd : ℕ) :
    (s.syncBufferedStream fd).descriptors = s.descriptors := by
  simp only [syncBufferedStream, putStream]
  split
  · rfl
  · split <;> simp

theorem bufferSize_pos (usingBashMalloc : Bool) (file : OpenFile) :
    0 < bufferSize usingBashMalloc file := by
  simp only [bufferSize]
  generalize (if file.seekable then min file.size (maxInputBufferSize usingBashMalloc) else 1)
    = size
  split <;> omega

def bufferedGetchar (s : InputState) (answer : ReadAnswer) : Option UInt8 × InputState :=
  match s.bufferedFd with
  | none => (none, s)
  | some fd =>
      match s.buffers fd with
      | none => (none, s)
      | some bp => s.bufstreamGetc fd bp answer

def bufferedUngetchar (s : InputState) (c : UInt8) : Bool × InputState :=
  match s.bufferedFd with
  | none => (false, s)
  | some fd =>
      match s.buffers fd with
      | none => (false, s)
      | some bp => s.bufstreamUngetc fd c bp

/-- `with_input_from_buffered_stream` -/
def withInputFromBufferedStream (s : InputState) (bfd : ℕ) : InputState :=
  { s.fdToBufferedStream bfd with bufferedFd := some bfd }

theorem fdToBufferedStream_bufferedFd (s : InputState) (fd : ℕ) :
    { s with bufferedFd := some fd }.fdToBufferedStream fd = s.withInputFromBufferedStream fd := by
  simp only [fdToBufferedStream, withInputFromBufferedStream]
  cases s.descriptors fd <;> rfl

theorem withInputFromBufferedStream_buffers (s : InputState) {fd n : ℕ} (hn : n ≠ fd) :
    (s.withInputFromBufferedStream fd).buffers n = s.buffers n := by
  simp only [withInputFromBufferedStream, fdToBufferedStream]
  cases s.descriptors fd with
  | none => rfl
  | some f => simp [makeBufferedStream, putStream, hn]

/-- The end of `save_bash_input`, which goes on with the descriptor `nfd`. -/
def moveBashInput (s : InputState) (fd nfd : ℕ) : InputState :=
  -- a stray buffer without an associated open file
  let cleared := if (s.buffers nfd).isSome then s.freeBufferedStream nfd else s
  let moved := { cleared with bufferedFd := some nfd }
  let reopened := (moved.fdToBufferedStream nfd).closeBufferedFd fd
  { reopened with
    defaultBufferedInput :=
      if reopened.defaultBufferedInput = some fd then some nfd
      else reopened.defaultBufferedInput }

/-- `save_bash_input (fd, new_fd)`, where `none` stands for a `new_fd` of -1 and `dup` is
what `fcntl (fd, F_DUPFD, 10)` returns. -/
def saveBashInput (s : InputState) (fd : ℕ) (newFd dup : Option ℕ) : Option ℕ × InputState :=
  let synced := if (s.buffers fd).isSome then s.syncBufferedStream fd else s
  match newFd, dup with
  | some nfd, _ => (some nfd, synced.moveBashInput fd nfd)
  | none, none => (none, synced)
  | none, some nfd =>
      let descriptors := Function.update synced.descriptors nfd (synced.descriptors fd)
      (some nfd, { synced with descriptors := descriptors }.moveBashInput fd nfd)

end InputState

end Rash
