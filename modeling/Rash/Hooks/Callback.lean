import Mathlib.Data.Nat.Notation
import Mathlib.Tactic.Common
import Rash.Basic
import Rash.Lib.Interaction

/-!
# Lua callbacks and `rash.deny`

The globals of hooks.c that are read and written while a callback runs, the port
`rash.deny`, the bookkeeping of a protected call, and callbacks themselves: programs over
the ports that decide whether a command runs.  Everything else a callback can touch (the
Lua heap, and through the other ports the rest of the process) is one state `σ`.
-/

namespace Rash

def rashDenyReasonMax : ℕ := 512

def rashHookMaxTicks : Int := 1000

/-- The arguments `execute_command_internal` is called with. -/
structure CommandCall (Cmd : Type) where
  command : Cmd
  asynchronous : Bool
  pipeIn : Int
  pipeOut : Int
  fdsToClose : List ℕ

/-- The `in_*_stage` flags. -/
structure StageFlags where
  inBeforeStage : Bool
  inDispatchStage : Bool
  inExpandStage : Bool
  inRedirectPolicyStage : Bool
  inRedirectStage : Bool
  inDownloadPipeStage : Bool
  inBeforePipelineStage : Bool
  inBuiltinStage : Bool
  inFunctionStage : Bool
  inExecStage : Bool
  deriving DecidableEq

namespace StageFlags

def clear : StageFlags :=
  ⟨false, false, false, false, false, false, false, false, false, false⟩

/-- The disjunction that `rash_lua_deny` tests. -/
def any (f : StageFlags) : Bool :=
  f.inBeforeStage || f.inDispatchStage || f.inExpandStage || f.inRedirectPolicyStage ||
    f.inRedirectStage || f.inDownloadPipeStage || f.inBeforePipelineStage ||
    f.inBuiltinStage || f.inFunctionStage || f.inExecStage

@[simp] theorem any_clear : clear.any = false := rfl

end StageFlags

/-- The part of `RASH_HOOK_CONTEXT` that outlives one call of `rash_invoke_hook`. -/
structure HookContext where
  active : Bool
  executed : Bool
  denied : Bool
  result : Status
  denyReason : String
  deriving DecidableEq

/-- The context `rash_hooks_execute` builds for a command. -/
def HookContext.fresh : HookContext :=
  ⟨true, false, false, executionFailure, ""⟩

/-- The instruction allowance: `rash_lua_call_depth`, `rash_lua_instruction_ticks` and
whether the counting hook is installed.  No ticks are left over outside a protected call. -/
@[ext] structure LuaCalls where
  depth : Int
  ticks : Int
  hooked : Bool
  idle : depth ≤ 0 → ticks = 0 ∧ hooked = false
  deriving DecidableEq

namespace LuaCalls

def none : LuaCalls := ⟨0, 0, false, fun _ => ⟨rfl, rfl⟩⟩

/-- The entry of `rash_lua_pcall`. -/
def enter (c : LuaCalls) : LuaCalls :=
  if c.depth = 0 then ⟨1, rashHookMaxTicks, true, by decide⟩
  else ⟨c.depth + 1, c.ticks, c.hooked, fun _ => c.idle (by omega)⟩

/-- The exit of `rash_lua_pcall`. -/
def leave (c : LuaCalls) : LuaCalls :=
  if h : c.depth - 1 = 0 then none
  else ⟨c.depth - 1, c.ticks, c.hooked, fun _ => c.idle (by omega)⟩

theorem leave_enter (c : LuaCalls) : c.enter.leave = c := by
  by_cases h : c.depth = 0
  · obtain ⟨hticks, hhooked⟩ := c.idle (by omega)
    ext <;> simp [enter, leave, none, h, hticks, hhooked]
  · ext <;> simp [enter, leave, h]

end LuaCalls

/-- The globals of hooks.c that callbacks and the ports they call read and write.  At most
one lifecycle context is alive at a time (`hook_execution_depth` keeps a second one from
being opened), so the pointer `active_hook_context` is kept as the context it points at and
the bit that says whether it is set. -/
structure HookGlobals where
  currentHookEnforcing : Bool
  stages : StageFlags
  stageDenied : Bool
  stageDenyReason : String
  rackDepth : ℕ
  rackDenied : Bool
  rackDenyReason : String
  activeHookContext : Bool
  context : HookContext
  hookExecutionDepth : ℕ
  luaCalls : LuaCalls

namespace HookGlobals

/-- `active_hook_context` is set and points at an active context. -/
def inLifecycle (g : HookGlobals) : Bool := g.activeHookContext && g.context.active

end HookGlobals

/-- The static initialisers. -/
def HookGlobals.initial : HookGlobals where
  currentHookEnforcing := false
  stages := .clear
  stageDenied := false
  stageDenyReason := ""
  rackDepth := 0
  rackDenied := false
  rackDenyReason := ""
  activeHookContext := false
  context := { HookContext.fresh with active := false }
  hookExecutionDepth := 0
  luaCalls := .none

/-- A denial reason as the `memcpy` into a `RASH_DENY_REASON_MAX` buffer keeps it. -/
def denyReasonText (reason : String) : String :=
  String.ofList (reason.toList.take (rashDenyReasonMax - 1))

def deniedLine (reason : String) : String := "rash: denied: " ++ denyReasonText reason

def rashHookWarning (text : String) (detail : String) : String :=
  "rash: warning: " ++ text ++ detail

/-- `rash_mark_denied`; the lines are what it prints. -/
def rashMarkDenied (context : HookContext) (reason : String) : HookContext × List String :=
  if context.denied then (context, [])
  else
    ({ context with
        denied := true, executed := true, result := executionFailure,
        denyReason := denyReasonText reason }, [deniedLine reason])

/-- `rash_lua_deny`: what the port answers to the callback (nothing, or a Lua error), the
globals after it and the lines it prints. -/
def rashLuaDeny (reason : String) (g : HookGlobals) :
    Except String Unit × HookGlobals × List String :=
  if g.currentHookEnforcing = false then
    (.ok (), g, [rashHookWarning
      "advisory hook called rash.deny; deny ignored (unowned hooks cannot enforce): " reason])
  else if g.stages.any then
    if g.stageDenied then (.ok (), g, [])
    else (.ok (), { g with stageDenied := true, stageDenyReason := denyReasonText reason },
      [deniedLine reason])
  else if 0 < g.rackDepth ∧ g.inLifecycle = false then
    if g.rackDenied then (.ok (), g, [])
    else (.ok (), { g with rackDenied := true, rackDenyReason := denyReasonText reason },
      [deniedLine reason])
  else if g.inLifecycle = false then
    (.error "rash.deny must run inside a lifecycle hook", g, [])
  else if g.context.executed ∧ g.context.denied = false then
    (.error "rash.deny cannot run after run()", g, [])
  else
    let marked := rashMarkDenied g.context reason
    (.ok (), { g with context := marked.1 }, marked.2)

/-! ## What a denial can change -/

theorem rashLuaDeny_advisory (reason : String) {g : HookGlobals}
    (hg : g.currentHookEnforcing = false) :
    (rashLuaDeny reason g).1 = .ok () ∧ (rashLuaDeny reason g).2.1 = g := by
  simp [rashLuaDeny, hg]

/-- An enforcing rack layer outside the stages and lifecycle hooks raises `rack_denied`. -/
theorem rashLuaDeny_rack (reason : String) {g : HookGlobals}
    (henf : g.currentHookEnforcing = true) (hstage : g.stages.any = false)
    (hdepth : 0 < g.rackDepth) (hlife : g.inLifecycle = false) :
    (rashLuaDeny reason g).1 = .ok () ∧ (rashLuaDeny reason g).2.1.rackDenied = true := by
  by_cases hden : g.rackDenied = true <;>
    simp [rashLuaDeny, henf, hstage, hdepth, hlife, hden]

/-- The fields `rash.deny` never writes, and the two flags it only raises. -/
structure DenyFrame (g g' : HookGlobals) : Prop where
  enforcing : g'.currentHookEnforcing = g.currentHookEnforcing
  stages : g'.stages = g.stages
  rackDepth : g'.rackDepth = g.rackDepth
  pointer : g'.activeHookContext = g.activeHookContext
  active : g'.context.active = g.context.active
  rackDenied : g.rackDenied = true → g'.rackDenied = true
  denied : g.context.denied = true → g'.context.denied = true
  executed : g.context.executed = true → g'.context.executed = true

theorem rashMarkDenied_active (context : HookContext) (reason : String) :
    (rashMarkDenied context reason).1.active = context.active := by
  unfold rashMarkDenied
  split <;> rfl

theorem rashLuaDeny_frame (reason : String) (g : HookGlobals) :
    DenyFrame g (rashLuaDeny reason g).2.1 := by
  unfold rashLuaDeny
  split_ifs with henf hstage hsd hrack hrd hlife hexec
  all_goals first
    | exact ⟨rfl, rfl, rfl, rfl, rfl, id, id, id⟩
    | exact ⟨rfl, rfl, rfl, rfl, rfl, fun _ => rfl, id, id⟩
    | skip
  refine ⟨rfl, rfl, rfl, rfl, rashMarkDenied_active _ _, id, ?_, ?_⟩ <;>
    intro h <;> unfold rashMarkDenied <;> split <;> simp_all

/-- The context a denial leaves: the one it found, or that one marked as denied. -/
theorem rashLuaDeny_context (reason : String) (g : HookGlobals) :
    (rashLuaDeny reason g).2.1.context = g.context ∨
      ((rashLuaDeny reason g).2.1.context = (rashMarkDenied g.context reason).1 ∧
        g.currentHookEnforcing = true ∧
        (g.context.executed = true → g.context.denied = true)) := by
  unfold rashLuaDeny
  split_ifs with henf hstage hsd hrack hrd hlife hexec
  all_goals first
    | exact Or.inl rfl
    | skip
  refine Or.inr ⟨rfl, by simpa using henf, fun hran => ?_⟩
  by_contra hden
  exact hexec ⟨hran, by simpa using hden⟩

/-- An enforcing lifecycle hook denies as long as nothing was executed. -/
theorem rashLuaDeny_lifecycle (reason : String) {g : HookGlobals}
    (henf : g.currentHookEnforcing = true) (hstage : g.stages.any = false)
    (hlife : g.inLifecycle = true) (hexec : g.context.executed = false) :
    (rashLuaDeny reason g).2.1.context.denied = true := by
  by_cases hden : g.context.denied = true <;>
    simp [rashLuaDeny, henf, hstage, hlife, hexec, rashMarkDenied, hden]

/-! ## The process around a callback -/

/-- What a callback and the executor share of the process. -/
structure Process (σ : Type) where
  lua : σ
  globals : HookGlobals
  lastCommandExitValue : Status
  pipestatus : List Status

/-- A process that has run no command. -/
def Process.initial {σ : Type} (lua : σ) : Process σ :=
  ⟨lua, .initial, executionSuccess, []⟩

/-- `last_command_exit_value = status; set_pipestatus_from_exit (status)`. -/
def Process.setStatus {σ : Type} (p : Process σ) (status : Status) : Process σ :=
  { p with lastCommandExitValue := status, pipestatus := [status] }

/-- `execute_command_internal`: it returns a status or leaves by `longjmp`, in either case
with the process changed by the command and by the callbacks that ran inside it. -/
abbrev Executor (σ Cmd : Type) :=
  CommandCall Cmd → Process σ → Except JumpCode Status × Process σ

/-- An executor under which every command succeeds and changes nothing. -/
def succeedingExecutor {σ Cmd : Type} : Executor σ Cmd := fun _ p => (.ok executionSuccess, p)

/-- A foreground command outside any pipeline. -/
def foregroundCall {Cmd : Type} (command : Cmd) : CommandCall Cmd :=
  ⟨command, false, -1, -1, []⟩

/-! ## Callbacks -/

/-- What a callback can ask for: the Lua state, `rash.deny`, its own `run()` or `next()`,
to keep that function in a variable, and to call the one a variable holds. -/
inductive LuaOp (σ : Type)
  | get
  | set (lua : σ)
  | deny (reason : String)
  | next
  | keep (slot : ℕ)
  | stored (slot : ℕ)

/-- A call into C answers with a status or raises a Lua error, which `pcall` can catch. -/
def LuaOp.Ans {σ : Type} : LuaOp σ → Type
  | .get => σ
  | .set _ => Unit
  | .deny _ => Except String Unit
  | .next => Except String Status
  | .keep _ => Unit
  | .stored _ => Except String Status

/-- How `lua_pcall` leaves a callback: a number on the stack, any other value, or an error
with the string `lua_tostring` finds in it. -/
inductive LuaResult
  | number (status : Status)
  | other
  | raised (message : Option String)
  deriving DecidableEq

def LuaResult.isRaised : LuaResult → Bool
  | .raised _ => true
  | _ => false

abbrev LuaProg (σ : Type) := Interaction.Prog (LuaOp σ) LuaOp.Ans LuaResult

/-- A registered callback with its bit of the enforcing array.  `Arg` is the table it is
called with. -/
structure Callback (σ Arg : Type) where
  enforcing : Bool
  body : Arg → LuaProg σ

/-- What the warnings print of the error a callback raised. -/
def errorText (message : Option String) : String := message.getD "(no error object)"

/-- The error of calling a variable that holds no function. -/
def nilCallError : String := "attempt to call a nil value"

/-- The error of a protected call with no stack left. -/
def stackOverflowError : String := "stack overflow"

end Rash
