import Rash.Lib.Machine
import Mathlib.Logic.Function.Basic
import Mathlib.Data.Nat.Notation

/-!
# Children that hooks spawn

`rash_lua_spawn` reads the standard output and the standard error of a child from two pipes while
the child runs.  The shell polls the pipes that are open, reads from those that are reported, and
keeps the beginning of what it reads; the child, a single process, writes where there is room.
Every order of their steps is a path.
-/

namespace Rash

open Machine

namespace Spawn

inductive Stream
  | out
  | err
  deriving DecidableEq

/-- `RASH_SPAWN_OUTPUT_MAX` -/
def outputMax : ℕ := 64 * 1024

/-- `sizeof (scratch)` -/
def scratchSize : ℕ := 4096

/-- `SIGKILL` -/
def sigkill : ℕ := 9

structure Pipe where
  contents : List UInt8
  /-- some process may still write to it -/
  writable : Bool
  deriving DecidableEq

/-- What the child does, in order, before it exits -/
inductive ChildAct
  | write (stream : Stream) (bytes : List UInt8)
  | close (stream : Stream)
  deriving DecidableEq

inductive Ended
  | exited (code : ℕ)
  | signaled (signal : ℕ)
  deriving DecidableEq

/-- Where the shell stands: in `poll`, before a `read` (with whether it reads the standard error
next), in `waitpid`, or behind the call. -/
inductive Phase
  | poll
  | reading (stream : Stream) (thenErr : Bool)
  | waiting
  | returned (rc : ℕ)
  | failed
  deriving DecidableEq

structure State where
  script : List ChildAct
  ended : Option Ended
  pipes : Stream → Pipe
  /-- `out_open` and `err_open` -/
  isOpen : Stream → Bool
  /-- `stdout_buf` and `stderr_buf`, up to `stdout_len` and `stderr_len` -/
  buffers : Stream → List UInt8
  phase : Phase
  /-- everything that the child has written -/
  written : Stream → List UInt8

def initial (script : List ChildAct) : State where
  script := script
  ended := none
  pipes _ := ⟨[], true⟩
  isOpen _ := true
  buffers _ := []
  phase := .poll
  written _ := []

/-- What happens next: a write puts so many bytes into its pipe, and a read takes so many. -/
inductive Event
  | write (n : ℕ)
  /-- a write of nothing, or to a stream that is closed -/
  | idle
  | close
  | exit (code : ℕ)
  | killed (signal : ℕ)
  | poll
  | pollFails
  | read (n : ℕ)
  | reap
  deriving DecidableEq

/-! ## The child -/

/-- The child ends, and its descriptors are closed. -/
def State.endChild (s : State) (ended : Ended) : State :=
  { s with ended := some ended, pipes := fun stream => { s.pipes stream with writable := false } }

def childWrite (capacity n : ℕ) (s : State) : Option State :=
  match s.script with
  | .write stream bytes :: rest =>
      let pipe := s.pipes stream
      if pipe.writable ∧ 0 < n ∧ n ≤ bytes.length ∧ pipe.contents.length + n ≤ capacity then
        some { s with
          script := if n = bytes.length then rest else .write stream (bytes.drop n) :: rest
          pipes := Function.update s.pipes stream
            { pipe with contents := pipe.contents ++ bytes.take n }
          written := Function.update s.written stream (s.written stream ++ bytes.take n) }
      else none
  | _ => none

def childIdle (s : State) : Option State :=
  match s.script with
  | .write stream bytes :: rest =>
      if bytes = [] ∨ (s.pipes stream).writable = false then some { s with script := rest }
      else none
  | _ => none

def childClose (s : State) : Option State :=
  match s.script with
  | .close stream :: rest =>
      some { s with
        script := rest
        pipes := Function.update s.pipes stream { s.pipes stream with writable := false } }
  | _ => none

/-! ## The shell -/

/-- `POLLIN` or `POLLHUP` on a pipe that is polled -/
def State.ready (s : State) (stream : Stream) : Bool :=
  s.isOpen stream && ((s.pipes stream).contents ≠ [] || (s.pipes stream).writable = false)

/-- The loop ends where both streams are at their end; else `poll` blocks until one is ready. -/
def shellPoll (s : State) : Option State :=
  if s.isOpen .out = false ∧ s.isOpen .err = false then some { s with phase := .waiting }
  else if s.ready .out then some { s with phase := .reading .out (s.ready .err) }
  else if s.ready .err then some { s with phase := .reading .err false }
  else none

def nextPhase (thenErr : Bool) : Phase := if thenErr then .reading .err false else .poll

/-- `read`, and what is kept of it -/
def shellRead (n : ℕ) (s : State) : Option State :=
  match s.phase with
  | .reading stream thenErr =>
      let pipe := s.pipes stream
      if pipe.contents = [] then
        if pipe.writable = false ∧ n = 0 then
          some { s with
            isOpen := Function.update s.isOpen stream false, phase := nextPhase thenErr }
        else none
      else if 0 < n ∧ n ≤ scratchSize ∧ n ≤ pipe.contents.length then
        let copy := min n (outputMax - (s.buffers stream).length)
        some { s with
          pipes := Function.update s.pipes stream { pipe with contents := pipe.contents.drop n }
          buffers := Function.update s.buffers stream
            (s.buffers stream ++ (pipe.contents.take n).take copy)
          phase := nextPhase thenErr }
      else none
  | _ => none

def Ended.rc : Ended → ℕ
  | .exited code => code
  | .signaled signal => 128 + signal

/-- One step of the child or of the shell; `capacity` is the size of a pipe. -/
def step (capacity : ℕ) (s : State) : Event → Option State
  | .write n => if s.ended = none then childWrite capacity n s else none
  | .idle => if s.ended = none then childIdle s else none
  | .close => if s.ended = none then childClose s else none
  | .exit code =>
      if s.ended = none ∧ s.script = [] then some (s.endChild (.exited code)) else none
  | .killed signal => if s.ended = none then some (s.endChild (.signaled signal)) else none
  | .poll => if s.phase = .poll then shellPoll s else none
  | .pollFails =>
      -- the child is killed and waited for
      if s.phase = .poll ∧ (s.isOpen .out ∨ s.isOpen .err) then
        some { (if s.ended = none then s.endChild (.signaled sigkill) else s) with phase := .failed }
      else none
  | .read n => shellRead n s
  | .reap =>
      match s.phase, s.ended with
      | .waiting, some ended => some { s with phase := .returned ended.rc }
      | _, _ => none

end Spawn

end Rash
