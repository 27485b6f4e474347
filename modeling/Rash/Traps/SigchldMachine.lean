import Rash.Lib.Machine
import Rash.Traps.SigchldSlot

/-!
# Children, firings and the trap on `SIGCHLD`

The shell as it reaps children, queues firings of the trap on `SIGCHLD` and runs them.  The
functions of trap.c and jobs.c that take part are frames on a stack, and take one step at a
time: a store, a read with the clear that is blocked together with it, or the start of a body.
A `waitchld` is one action, since none is interrupted by another: the others run with
`queue_sigchld` set, or with the signal blocked in its handler.
-/

namespace Rash

/-- What runs on behalf of the trap, from the innermost function on; under it the main shell
executes commands. -/
inductive TrapFrame
  /-- `parse_and_execute` of the trap command: a shell that executes commands. -/
  | body
  /-- The loop of `run_pending_traps`, or of `run_deferred_sigchld_traps`. -/
  | drain (deferred : Bool)
  /-- `run_sigchld_trap (n)` has been called. -/
  | entered (n : ℕ)
  /-- In `set_impossible_sigchld_trap`, with a copy of the command. -/
  | placing (todo : List SlotStore) (c : String) (n : ℕ)
  /-- The loop of `run_sigchld_trap`, with the firings it has not started. -/
  | firing (c : String) (left : ℕ)
  /-- Before the unwind frame is run, by `run_sigchld_trap` itself if `returns` is set. -/
  | unwinding (c : String) (returns : Bool)
  /-- In `uw_maybe_set_sigchld_trap`. -/
  | restoring (todo : List SlotStore) (returns : Bool)
  /-- In the `trap` builtin. -/
  | changing (todo : List SlotStore)
  deriving DecidableEq

/-- The shell.  `reaped` counts the children that `waitchld` has seen change state, `started`
the bodies that were started, and `lost` the children that no firing stands for; `lastSet` is
the command that the user set last. -/
structure TrapState where
  signal : Disposition
  /-- `pending_traps[SIGCHLD]` -/
  pending : ℕ
  runningTrap : Bool
  stack : List TrapFrame
  lastSet : Option String
  reaped : ℕ
  started : ℕ
  lost : ℕ
  deriving DecidableEq

/-- How `waitchld` comes to the end, as it tells the cases apart. -/
inductive ReapedIn
  /-- The `wait` builtin in posix mode. -/
  | posixWait
  /-- `sigchld` is not 0. -/
  | handler
  /-- The `wait` builtin. -/
  | waitBuiltin
  | elsewhere
  deriving DecidableEq

inductive TrapAction
  /-- A `waitchld` that reaps `k` children. -/
  | waitchld (k : ℕ) (reapedIn : ReapedIn)
  /-- A trapped signal interrupts `wait`: `CHECK_WAIT_INTR` leaves a `waitchld` that has
  reaped `k` children. -/
  | waitInterrupted (k : ℕ)
  | runPendingTraps
  | trap (op : TrapOp)
  /-- A body comes to its end. -/
  | bodyReturns
  /-- A non-local exit out of `n` frames; `cleanup` is `run_trap_cleanup`, and `running` what
  becomes of `running_trap`. -/
  | leave (n : ℕ) (cleanup running : Bool)
  /-- The innermost function takes a step. -/
  | advance
  deriving DecidableEq

/-- The user does not change the trap. -/
def TrapAction.keepsTrap : TrapAction → Bool
  | .trap _ => false
  | _ => true

namespace TrapState

def store (s : TrapState) (t : SlotStore) : TrapState := { s with signal := s.signal.store t }

/-- A store that the user asked for. -/
def userStore (s : TrapState) (t : SlotStore) : TrapState :=
  match t with
  | .put (.command c) => { s.store t with lastSet := some c }
  | _ => s.store t

/-- Commands are executed, in the main shell or in a body. -/
def executing (s : TrapState) : Bool :=
  match s.stack with
  | [] => true
  | .body :: _ => true
  | _ => false

/-- `signal_is_trapped (SIGCHLD) || trap_list[SIGCHLD] == IMPOSSIBLE_TRAP_HANDLER`, and not
`IGNORE_SIG`. -/
def counts (s : TrapState) : Bool :=
  (s.signal.trapped || s.signal.slot == .impossible) && s.signal.slot != .ignoreSig

def queueSigchldTrap (s : TrapState) (k : ℕ) : TrapState := { s with pending := s.pending + k }

/-- `waitchld` behind its loop. -/
def dispatch (s : TrapState) (k : ℕ) (reapedIn : ReapedIn) : TrapState :=
  if k = 0 ∨ s.counts = false then { s with lost := s.lost + k }
  else if reapedIn = .posixWait then s.queueSigchldTrap k
  else if reapedIn = .handler then s.queueSigchldTrap k
  else if s.signal.inProgress then s.queueSigchldTrap k
  else if s.signal.slot = .impossible then s.queueSigchldTrap k
  else if s.runningTrap then s.queueSigchldTrap k
  else if reapedIn = .waitBuiltin then
    { s with stack := .entered k :: .drain true :: s.stack }
  else s.queueSigchldTrap k

/-- `run_pending_traps`, for this signal. -/
def runPendingTraps (s : TrapState) : TrapState :=
  if s.pending = 0 then s
  else if s.signal.slot ≠ .impossible ∧ s.signal.inProgress = false then
    { s with
      signal := { s.signal with inProgress := true }
      runningTrap := true
      stack := .drain false :: s.stack }
  else { s with runningTrap := false }

end TrapState

/-- The firings that are queued in the activations of `run_sigchld_trap`. -/
def TrapFrame.queued : TrapFrame → ℕ
  | .entered n => n
  | .placing _ _ n => n
  | .firing _ left => left
  | _ => 0

def queuedFirings (stack : List TrapFrame) : ℕ := (stack.map TrapFrame.queued).sum

/-- What an exit makes of a frame it leaves: the unwind frames are still to be run. -/
def TrapFrame.unwound : TrapFrame → Option TrapFrame
  | .placing _ c _ => some (.unwinding c false)
  | .firing c _ => some (.unwinding c false)
  | .unwinding c _ => some (.unwinding c false)
  | .restoring todo _ => some (.restoring todo false)
  | _ => none

namespace TrapState

/-- The next step of the innermost function; nothing where `savestring` gets no string, and
while commands are executed. -/
def advance (s : TrapState) : Option TrapState :=
  match s.stack with
  | [] => none
  | .body :: _ => none
  | .drain deferred :: rest =>
      if s.pending = 0 then
        if deferred then some { s with stack := rest }
        else some { s with
          signal := { s.signal with inProgress := false }
          runningTrap := false
          stack := rest }
      else some { s with pending := 0, stack := .entered s.pending :: s.stack }
  | .entered n :: rest =>
      match s.signal.slot with
      | .command c => some { s with
          runningTrap := true
          stack := .placing (setImpossibleSigchldTrap s.signal) c n :: rest }
      | _ => none
  | .placing [] c n :: rest => some { s with stack := .firing c n :: rest }
  | .placing (t :: todo) c n :: rest =>
      some { s.store t with stack := .placing todo c n :: rest }
  | .firing c 0 :: rest => some { s with stack := .unwinding c true :: rest }
  | .firing c (left + 1) :: rest =>
      some { s with started := s.started + 1, stack := .body :: .firing c left :: rest }
  | .unwinding c returns :: rest =>
      some { s with stack := .restoring (uwMaybeSetSigchldTrap s.signal c) returns :: rest }
  | .restoring (t :: todo) returns :: rest =>
      some { s.store t with stack := .restoring todo returns :: rest }
  | .restoring [] returns :: rest =>
      some { s with runningTrap := s.runningTrap && !returns, stack := rest }
  | .changing (t :: todo) :: rest =>
      some { s.userStore t with stack := .changing todo :: rest }
  | .changing [] :: rest => some { s with stack := rest }

/-- A non-local exit out of the innermost `n` frames. -/
def leave (s : TrapState) (n : ℕ) (cleanup running : Bool) : TrapState :=
  { s with
    signal := { s.signal with
      inProgress := s.signal.inProgress && !cleanup
      changed := s.signal.changed && !cleanup }
    runningTrap := running
    stack := (s.stack.take n).filterMap TrapFrame.unwound ++ s.stack.drop n
    lost := s.lost + queuedFirings (s.stack.take n) }

/-- One step of the shell, nothing where the action is not possible.  Only a signal handler
runs between the steps of the other functions. -/
def step (s : TrapState) : TrapAction → Option TrapState
  | .waitchld k reapedIn =>
      if reapedIn = .waitBuiltin ∧ s.executing = false then none
      else some ({ s with reaped := s.reaped + k }.dispatch k reapedIn)
  | .waitInterrupted k =>
      if s.executing then some { s with reaped := s.reaped + k, lost := s.lost + k } else none
  | .runPendingTraps => if s.executing then some s.runPendingTraps else none
  | .trap op =>
      if s.executing then
        some { s with stack := .changing (op.stores s.signal) :: s.stack }
      else none
  | .bodyReturns =>
      match s.stack with
      | .body :: rest => some { s with stack := rest }
      | _ => none
  | .leave n cleanup running =>
      if s.executing ∧ (({ s with stack := s.stack.drop n } : TrapState)).executing then
        some (s.leave n cleanup running)
      else none
  | .advance => s.advance

/-- A shell that has not set a trap, with `SIGCHLD` ignored when it was started or not. -/
def initial (hardIgnore : Bool) : TrapState :=
  ⟨⟨.defaultSig, false, false, false, false, hardIgnore⟩, 0, false, [], none, 0, 0, 0⟩

/-- A shell in which the user has set a trap, before it has reaped a child. -/
def trapping (c : String) : TrapState :=
  ⟨⟨.command c, true, false, false, false, false⟩, 0, false, [], some c, 0, 0, 0⟩

end TrapState

/-! ## What a firing stands for -/

/-- Every child that was reaped is one body started, or one firing still queued. -/
def Conserved (s : TrapState) : Prop :=
  s.reaped = s.started + (s.pending + queuedFirings s.stack)

instance (s : TrapState) : Decidable (Conserved s) := by
  unfold Conserved
  infer_instance

/-- The equation with what was lost. -/
def Balanced (s : TrapState) : Prop :=
  s.reaped = s.started + (s.pending + queuedFirings s.stack) + s.lost

end Rash
