import Rash.Hooks.Rack

/-!
# Sessions of outermost commands

The commands a process hands to `rash_rack_execute` one after the other, from `reader_loop`
or from `parse_and_execute`, each ending normally or by a jump that the loop catches.
-/

namespace Rash

variable {σ Cmd : Type}

inductive CommandLoop
  | readerLoop
  | parseAndExecute
  deriving DecidableEq

def CommandLoop.caught : CommandLoop → Bool → JumpCode → Status → LoopAction × Status
  | .readerLoop => readerLoopCaught
  | .parseAndExecute => parseAndExecuteCaught

/-- One outermost command: its number, `rack_depth` when it was handed over, what happened
in its chain and how it ended. -/
structure CallRecord where
  serial : ℕ
  rackDepth : ℕ
  events : List RackEvent
  outcome : Except JumpCode Status

/-- Layer 1 was called for the command. -/
def CallRecord.Consulted (r : CallRecord) : Prop :=
  ∃ denied, .consult r.serial 1 denied ∈ r.events

def CallRecord.EndedNormally (r : CallRecord) : Prop := ∃ status, r.outcome = .ok status

def rackCall (exec : Executor σ Cmd) (layers : List (Callback σ Cmd)) (room : ℕ)
    (mode : Option String) (call : CommandCall Cmd) (s : RackState σ Cmd) :
    CallRecord × RackState σ Cmd :=
  let r := rashRackExecute exec layers room mode call { s with log := [] }
  (⟨s.calls, s.globals.rackDepth, r.2.log, r.1⟩, r.2)

/-- What the loop does behind the command. -/
def rackCaught (loop : CommandLoop) (subshell : Bool) (outcome : Except JumpCode Status)
    (s : RackState σ Cmd) : LoopAction × RackState σ Cmd :=
  match outcome with
  | .ok _ => (.nextCommand, s)
  | .error code =>
      let next := loop.caught subshell code s.proc.lastCommandExitValue
      (next.1, if next.2 = s.proc.lastCommandExitValue then s else s.setStatus next.2)

def rackSession (exec : Executor σ Cmd) (layers : List (Callback σ Cmd)) (room : ℕ)
    (mode : Option String) (subshell : Bool) :
    List (CommandLoop × CommandCall Cmd) → RackState σ Cmd → List CallRecord
  | [], _ => []
  | (loop, call) :: rest, s =>
      let r := rackCall exec layers room mode call s
      let next := rackCaught loop subshell r.1.outcome r.2
      match next.1 with
      | .leave => [r.1]
      | .nextCommand => r.1 :: rackSession exec layers room mode subshell rest next.2

/-! ## One command -/

section Session

variable (exec : Executor σ Cmd) {layers : List (Callback σ Cmd)} (room : ℕ)
  {mode : Option String} (subshell : Bool)

theorem rackCall_consulted (hmode : mode ≠ some "c") (hlayers : layers ≠ [])
    (call : CommandCall Cmd) {s : RackState σ Cmd} (hdepth : s.globals.rackDepth = 0) :
    (rackCall exec layers room mode call s).1.Consulted := by
  obtain ⟨layer, hl⟩ : ∃ layer, layers[1 - 1]? = some layer := by
    cases layers with
    | nil => exact absurd rfl hlayers
    | cons layer rest => exact ⟨layer, rfl⟩
  let s₀ : RackState σ Cmd := { s with log := [] }
  have hdepth₀ : s₀.globals.rackDepth = 0 := hdepth
  have hlog := consult_logged exec room ⟨call, s₀.calls⟩ s₀.openRun.raiseDepth hl
  refine ⟨s.globals.rackDenied, ?_⟩
  change _ ∈ (rashRackExecute exec layers room mode call s₀).2.log
  rw [(rashRackExecute_chain exec room call hmode hlayers hdepth₀).2]
  exact hlog

/-- What an outermost command leaves in `rack_depth`. -/
theorem rackCall_depth (hmode : mode ≠ some "c") (hlayers : layers ≠ [])
    (call : CommandCall Cmd) {s : RackState σ Cmd} (hdepth : s.globals.rackDepth = 0) :
    (rackCall exec layers room mode call s).2.globals.rackDepth =
      depthLeft (rackCall exec layers room mode call s).1.outcome :=
  rashRackExecute_depth exec room call hmode hlayers (s := { s with log := [] }) hdepth

theorem rackCaught_depth (loop : CommandLoop) (outcome : Except JumpCode Status)
    (s : RackState σ Cmd) :
    (rackCaught loop subshell outcome s).2.globals.rackDepth = s.globals.rackDepth := by
  cases outcome with
  | ok status => rfl
  | error code =>
      simp only [rackCaught]
      split <;> rfl

/-! ## Whole sessions -/

theorem rackSession_head {commands : List (CommandLoop × CommandCall Cmd)}
    {s : RackState σ Cmd} {r : CallRecord} {later : List CallRecord}
    (h : rackSession exec layers room mode subshell commands s = r :: later) :
    r.rackDepth = s.globals.rackDepth := by
  cases commands with
  | nil => cases h
  | cons command rest =>
      simp only [rackSession] at h
      split at h <;> obtain ⟨rfl, -⟩ := List.cons.inj h <;> rfl

theorem rackSession_single (loop : CommandLoop) (call : CommandCall Cmd) (s : RackState σ Cmd) :
    rackSession exec layers room mode subshell [(loop, call)] s =
      [(rackCall exec layers room mode call s).1] := by
  simp only [rackSession]
  split <;> rfl

/-- What every single command keeps to, whatever state it starts in, every command of a
session keeps to. -/
theorem rackSession_forall {P : CallRecord → Prop}
    (h : ∀ call s, P (rackCall exec layers room mode call s).1)
    (commands : List (CommandLoop × CommandCall Cmd)) (s : RackState σ Cmd) :
    ∀ r ∈ rackSession exec layers room mode subshell commands s, P r := by
  induction commands generalizing s with
  | nil => simp [rackSession]
  | cons command rest ih =>
      obtain ⟨loop, call⟩ := command
      simp only [rackSession]
      split
      · simpa using h call s
      · exact List.forall_mem_cons.mpr ⟨h call s, ih _⟩

/-- Every outermost command of the session starts with `rack_depth` 0 and reaches layer 1
exactly when no command before the last one is left by a jump. -/
theorem rackSession_mediated_iff (hmode : mode ≠ some "c") (hlayers : layers ≠ [])
    (commands : List (CommandLoop × CommandCall Cmd)) {s : RackState σ Cmd}
    (hdepth : s.globals.rackDepth = 0) :
    (∀ r ∈ rackSession exec layers room mode subshell commands s,
        r.rackDepth = 0 ∧ r.Consulted) ↔
      ∀ r ∈ (rackSession exec layers room mode subshell commands s).dropLast,
        r.EndedNormally := by
  induction commands generalizing s with
  | nil => simp [rackSession]
  | cons command rest ih =>
      obtain ⟨loop, call⟩ := command
      have hfirst : (rackCall exec layers room mode call s).1.rackDepth = 0 ∧
          (rackCall exec layers room mode call s).1.Consulted :=
        ⟨hdepth, rackCall_consulted exec room hmode hlayers call hdepth⟩
      have hleft := rackCall_depth exec room hmode hlayers call hdepth
      simp only [rackSession]
      generalize rackCall exec layers room mode call s = r at hfirst hleft
      have hnext := (rackCaught_depth subshell loop r.1.outcome r.2).trans hleft
      split
      · simp [hfirst]
      · generalize hlater : rackSession exec layers room mode subshell rest
          (rackCaught loop subshell r.1.outcome r.2).2 = later
        cases later with
        | nil => simp [hfirst]
        | cons r' later =>
            cases hout : r.1.outcome with
            | ok status =>
                rw [hout] at hnext hlater
                have hrest := ih hnext
                rw [hlater] at hrest
                exact List.forall_mem_cons.trans
                  ((and_congr (iff_of_true hfirst ⟨status, hout⟩) hrest).trans
                    List.forall_mem_cons.symm)
            | error code =>
                -- The jump left `rack_depth` raised, and the next command finds it so.
                rw [hout] at hnext hlater
                have hraised : r'.rackDepth = 1 :=
                  (rackSession_head exec room subshell hlater).trans hnext
                refine iff_of_false (fun h => ?_) (fun h => ?_)
                · have h' := (h r' (by simp)).1
                  omega
                · obtain ⟨status, hok⟩ := h r.1 (by simp)
                  rw [hout] at hok
                  cases hok

end Session

/-- An executor under which the command `true` fails an expansion, as `echo $((1/0))` does,
and `false` succeeds. -/
def discardingExecutor : Executor Unit Bool := fun call p =>
  (if call.command then .error .discard else .ok executionSuccess, p)

/-- The second command of the script finds `rack_depth` raised and meets no layer. -/
theorem rackSession_bypassed_after_discard :
    ¬ ∀ r ∈ rackSession discardingExecutor [passingLayer true] 1 none false
        [(.readerLoop, foregroundCall true), (.readerLoop, foregroundCall false)]
        (RackState.initial ()), r.rackDepth = 0 ∧ r.Consulted := by
  intro h
  have hdepths : ¬ ∀ r ∈ rackSession discardingExecutor [passingLayer true] 1 none false
      [(.readerLoop, foregroundCall true), (.readerLoop, foregroundCall false)]
      (RackState.initial ()), r.rackDepth = 0 := by decide
  exact hdepths fun r hr => (h r hr).1

theorem rackSession_mediated_two_commands :
    (∀ r ∈ rackSession discardingExecutor [passingLayer true] 1 none false
        [(.readerLoop, foregroundCall false), (.parseAndExecute, foregroundCall true)]
        (RackState.initial ()), r.rackDepth = 0 ∧ r.Consulted) ↔
      ∀ r ∈ (rackSession discardingExecutor [passingLayer true] 1 none false
        [(.readerLoop, foregroundCall false), (.parseAndExecute, foregroundCall true)]
        (RackState.initial ())).dropLast, r.EndedNormally :=
  rackSession_mediated_iff discardingExecutor 1 false (by decide) (by simp) _ rfl

end Rash
