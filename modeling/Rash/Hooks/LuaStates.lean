import Rash.Hooks.LoadedSet
import Rash.Lib.Machine

/-!
# Interpreters on the C stack

The entries of the hook system as steps over its globals and the frames that are on the C
stack: the begin and end of a command, rack layers, lifecycle hooks and their `run()`, the
stages, and the `reloadhooks` builtin.  An action begins with at most one call of
`rash_hooks_initialize`; a frame is left by a return or by a non-local jump.
-/

namespace Rash

variable {F : Type}

/-- A frame of the C stack; `lua` is the interpreter whose callback runs in it. -/
inductive HookFrame
  /-- `execute_command` -/
  | command
  /-- A rack layer, called by `rash_rack_execute` (which raised `rack_depth`) or `next()`. -/
  | layer (lua : ℕ) (raised : Bool)
  /-- `execute_command_internal`, called behind the last layer. -/
  | passedOn
  /-- `rash_hooks_execute`, with the depth that its unwind-protect restores. -/
  | lifecycle (lua : ℕ) (savedDepth : ℕ)
  /-- `rash_execute_original`, called by `run()`. -/
  | original
  /-- `rash_execute_original`, called for the `reloadhooks` command itself. -/
  | direct
  /-- A callback of one of the stages; it runs no shell command. -/
  | stage (lua : ℕ)
  deriving DecidableEq

namespace HookFrame

def lua : HookFrame → Option ℕ
  | .layer lua _ => some lua
  | .lifecycle lua _ => some lua
  | .stage lua => some lua
  | _ => none

end HookFrame

/-- Whether shell code runs on top of the frames, not a callback. -/
def shellRuns : List HookFrame → Bool
  | [] => true
  | .command :: _ | .passedOn :: _ | .original :: _ | .direct :: _ => true
  | .layer _ _ :: _ | .lifecycle _ _ :: _ | .stage _ :: _ => false

structure ReloadState (F : Type) where
  sys : HookSystem F
  frames : List HookFrame

def ReloadState.initial : ReloadState F := ⟨.initial, []⟩

/-- What a call of `rash_hooks_initialize` finds. -/
structure InitializeCall (F : Type) where
  newstate : Bool
  env : HookEnvironment
  disk : Disk F

inductive HookAction (F : Type)
  | executeCommand (call : InitializeCall F)
  | rackExecute (call : InitializeCall F)
  | nextLayer
  | passOn
  | lifecycle (call : InitializeCall F)
  | reloadDirect (call : InitializeCall F)
  | run
  | stage (kind : HookKind) (call : InitializeCall F)
  | reloadhooks (call : InitializeCall F)
  /-- The top frame returns, or a non-local jump leaves it. -/
  | leave (jumps : Bool)

/-- The call of `rash_hooks_initialize` an action begins with, and its argument. -/
def HookSystem.initializes (g : HookSystem F) : HookAction F → Option (Bool × InitializeCall F)
  | .executeCommand call | .stage _ call =>
      if g.hookCommandDepth = 0 then some (false, call) else none
  | .rackExecute call => if g.rackDepth = 0 then some (false, call) else none
  | .lifecycle call | .reloadDirect call =>
      if g.hookExecutionDepth = 0 ∧ g.hookCommandDepth = 0 then some (false, call) else none
  | .reloadhooks call => some (true, call)
  | .nextLayer | .passOn | .run | .leave _ => none

def HookSystem.initialized (g : HookSystem F) : Option (Bool × InitializeCall F) → HookSystem F
  | none => g
  | some (force, call) => (rashHooksInitialize force call.newstate call.env call.disk g).2

/-- The guard of a stage behind `rash_hooks_initialize`. -/
def HookSystem.stageOpens (g : HookSystem F) (kind : HookKind) : Bool :=
  decide (0 < (g.hooks.table kind).count) &&
    (g.hookState == 1 || kind == .dispatch || kind == .expandHook || kind == .redirectPolicy)

/-- The counters behind a frame that returns. -/
def HookSystem.afterReturn (g : HookSystem F) : HookFrame → HookSystem F
  | .command => { g with hookCommandDepth := g.hookCommandDepth - 1 }
  | .layer _ true => { g with rackDepth := g.rackDepth - 1 }
  | .original | .direct => { g with hookExecutionDepth := g.hookExecutionDepth - 1 }
  | .layer _ false | .passedOn | .lifecycle _ _ | .stage _ => g

/-- The counters behind a frame that a jump leaves: only `execute_command` and
`rash_hooks_execute` have an unwind-protect. -/
def HookSystem.afterJump (g : HookSystem F) : HookFrame → HookSystem F
  | .command => { g with hookCommandDepth := g.hookCommandDepth - 1 }
  | .lifecycle _ saved => { g with hookExecutionDepth := saved }
  | .layer _ _ | .passedOn | .original | .direct | .stage _ => g

def HookSystem.afterFrame (g : HookSystem F) (jumps : Bool) (f : HookFrame) : HookSystem F :=
  if jumps then g.afterJump f else g.afterReturn f

/-- `rash_hooks_close_retired_lua`. -/
def HookSystem.closeRetiredLua (g : HookSystem F) : HookSystem F :=
  { (g.close g.retiredLua) with retiredLua := none }

/-- Whether the end of a frame reaches `rash_hooks_close_retired_lua`. -/
def HookSystem.closesRetired (g : HookSystem F) (jumps : Bool) : HookFrame → Bool
  | .command => g.hookCommandDepth == 0
  | .direct => !jumps
  | .layer _ _ | .passedOn | .lifecycle _ _ | .original | .stage _ => false

/-- The interpreter a callback is called in, when the guard lets one be called. -/
def HookSystem.callee (g : HookSystem F) (opens : Bool) : Option ℕ :=
  if opens then g.hooks.rashLua.map (·.id) else none

namespace ReloadState

def push (s : ReloadState F) (f : HookFrame) : ReloadState F := { s with frames := f :: s.frames }

/-- Calls a callback in `lua`, or goes on without one. -/
def pushCallee (s : ReloadState F) (lua : Option ℕ) (f : ℕ → HookFrame)
    (raise : HookSystem F → HookSystem F) : ReloadState F :=
  match lua with
  | none => s
  | some id => ⟨raise s.sys, f id :: s.frames⟩

end ReloadState

/-- An action of shell code, behind its call of `rash_hooks_initialize`. -/
def shellStep (s : ReloadState F) : HookAction F → Option (ReloadState F)
  | .executeCommand _ =>
      some ⟨{ s.sys with hookCommandDepth := s.sys.hookCommandDepth + 1 }, .command :: s.frames⟩
  | .rackExecute _ =>
      some (s.pushCallee
        (s.sys.callee (s.sys.rackDepth == 0 && decide (0 < (s.sys.hooks.table .rack).count)))
        (.layer · true) fun g => { g with rackDepth := g.rackDepth + 1 })
  | .lifecycle _ =>
      some (s.pushCallee
        (s.sys.callee (s.sys.hookExecutionDepth == 0 && s.sys.hookState == 1))
        (.lifecycle · s.sys.hookExecutionDepth) id)
  | .reloadDirect _ =>
      if s.sys.hookExecutionDepth = 0 ∧ s.sys.hookState = 1 then
        some ⟨{ s.sys with hookExecutionDepth := s.sys.hookExecutionDepth + 1 },
          .direct :: s.frames⟩
      else some s
  | .stage kind _ =>
      some (s.pushCallee (s.sys.callee (s.sys.stageOpens kind)) .stage id)
  | .reloadhooks _ => some s
  | .nextLayer | .passOn | .run | .leave _ => none

/-- `next()` goes on to another layer, with whatever `rash_lua` is by then. -/
def nextLayerStep (s : ReloadState F) : Option (ReloadState F) :=
  match s.frames, s.sys.hooks.rashLua with
  | .layer _ _ :: _, some L => some (s.push (.layer L.id false))
  | _, _ => none

def passOnStep (s : ReloadState F) : Option (ReloadState F) :=
  match s.frames with
  | .layer _ _ :: _ => some (s.push .passedOn)
  | _ => none

def runStep (s : ReloadState F) : Option (ReloadState F) :=
  match s.frames with
  | .lifecycle _ _ :: _ =>
      some ⟨{ s.sys with hookExecutionDepth := s.sys.hookExecutionDepth + 1 },
        .original :: s.frames⟩
  | _ => none

def leaveStep (jumps : Bool) (s : ReloadState F) : Option (ReloadState F) :=
  match s.frames with
  | [] => none
  | f :: rest =>
      let g := s.sys.afterFrame jumps f
      some ⟨if g.closesRetired jumps f then g.closeRetiredLua else g, rest⟩

def reloadStep (s : ReloadState F) (a : HookAction F) : Option (ReloadState F) :=
  match a with
  | .nextLayer => nextLayerStep s
  | .passOn => passOnStep s
  | .run => runStep s
  | .leave jumps => leaveStep jumps s
  | a =>
      if shellRuns s.frames then
        shellStep { s with sys := s.sys.initialized (s.sys.initializes a) } a
      else none

/-! ## When a reload is safe -/

/-- The directory that `rash_hooks_initialize` comes to load. -/
def HookSystem.loadDirectory (g : HookSystem F) (force : Bool) (call : InitializeCall F) :
    Option String :=
  match call.env.rashHookDir with
  | none => none
  | some directory =>
      if directory = "" ∨ (force = false ∧ g.hookState = 1 ∧ call.env.reloadMode = false) ∨
          (force = false ∧ g.sameConfiguration call.env directory = true ∧
            (call.env.reloadMode = false ∨
              rashHookManifestMatches g.hookManifest (call.disk directory) = true)) then none
      else some directory

/-- All that `rash_load_hook` asks of a file. -/
def HookFile.loads (file : HookFile F) (allowUnowned : Bool) : Bool :=
  (file.refusal allowUnowned).isNone && file.reads && file.chunk.compiles && file.chunk.returns

/-- All that a load asks of a directory. -/
def HookDirectory.loads (dir : HookDirectory F) (allowUnowned : Bool) : Bool :=
  dir.opens && dir.luaEntries.all (fun e => e.2.loads allowUnowned) &&
    (rashHookManifestCollect dir).isSome

/-- The call replaces an active interpreter by a new one. -/
def HookSystem.Replaces (g : HookSystem F) (force : Bool) (call : InitializeCall F) : Prop :=
  ∃ directory, g.loadDirectory force call = some directory ∧ call.newstate = true ∧
    (call.disk directory).loads call.env.allowUnowned = true ∧ g.hooks.rashLua.isSome = true

/-- An interpreter may be given up: inside `run()` when none is pending, and outside when no
rack layer is being consulted. -/
def HookSystem.MayReplace (g : HookSystem F) : Prop :=
  (g.hookExecutionDepth = 0 → g.rackDepth = 0) ∧
    (g.hookExecutionDepth ≠ 0 → g.retiredLua = none)

/-- The pending interpreter may be closed. -/
def HookSystem.MayClose (g : HookSystem F) : Prop :=
  g.retiredLua.isSome = true → g.hookExecutionDepth = 0 ∧ g.rackDepth = 0

/-- The replacements and closings of an action find the depth counters lowered. -/
def ReloadGuard (s : ReloadState F) (a : HookAction F) : Prop :=
  (∀ force call, s.sys.initializes a = some (force, call) → s.sys.Replaces force call →
      s.sys.MayReplace) ∧
    ∀ jumps f rest, a = .leave jumps → s.frames = f :: rest →
      (s.sys.afterFrame jumps f).closesRetired jumps f = true →
      (s.sys.afterFrame jumps f).MayClose

end Rash
