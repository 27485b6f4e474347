import Rash.Hooks.LuaStates

/-!
# The instruction allowance on the C stack

`rash_lua_call_depth`, `rash_lua_instruction_ticks` and the counting hook, over the frames that
callbacks, shell code and unwind-protects leave on the C stack.  A non-local jump is one step: it
drops the frames above the one that catches it and runs their unwind-protects.  The chunk of a
file that is loaded is called and returns within the step that loads it.
-/

namespace Rash

variable {F : Type}

/-! ## The counters -/

/-- The two counters, and whether an interpreter has the counting hook. -/
structure Allowance where
  callDepth : Int
  instructionTicks : Int
  counts : ℕ → Bool

namespace Allowance

def initial : Allowance := ⟨0, 0, fun _ => false⟩

def sethook (a : Allowance) (lua : ℕ) (counts : Bool) : Allowance :=
  { a with counts := fun id => if id = lua then counts else a.counts id }

/-- `rash_lua_pcall` up to `lua_pcall`. -/
def enterPcall (a : Allowance) (lua : ℕ) : Allowance :=
  let entered := { a with callDepth := a.callDepth + 1 }
  if a.callDepth = 0 then { entered with instructionTicks := rashHookMaxTicks }.sethook lua true
  else entered

/-- `rash_lua_pcall` behind `lua_pcall`. -/
def leavePcall (a : Allowance) (lua : ℕ) : Allowance :=
  let left := { a with callDepth := a.callDepth - 1 }
  if left.callDepth = 0 then { left.sethook lua false with instructionTicks := 0 } else left

/-- `rash_unwind_hook_context` -/
def unwindHookContext (a : Allowance) (rashLua : Option ℕ) : Allowance :=
  let cleared :=
    match rashLua with
    | none => a
    | some lua => a.sethook lua false
  { cleared with callDepth := 0, instructionTicks := 0 }

end Allowance

/-! ## Frames -/

/-- A frame of the C stack; a callback is shown with its interpreter. -/
inductive AllowanceFrame
  /-- `execute_command` -/
  | command
  /-- The callback of a rack layer, called by `rash_rack_execute` (which raised `rack_depth`) or
  `next()`. -/
  | layer (lua : ℕ) (raised : Bool)
  /-- `execute_command_internal`, called behind the last layer. -/
  | passedOn
  /-- `execute_command_internal`, called in the place of an advisory layer that failed. -/
  | fellThrough (raised : Bool)
  /-- `rash_hooks_execute`, with the three counters that its unwind-protects save. -/
  | context (lua : ℕ) (executionDepth : ℕ) (callDepth instructionTicks : Int)
  /-- A callback that `rash_invoke_hook` calls. -/
  | hook (lua : ℕ)
  /-- `rash_execute_original`, called behind the last hook. -/
  | original
  /-- `rash_execute_original`, called for the `reloadhooks` command itself. -/
  | direct
  /-- A callback of one of the stages. -/
  | stage (lua : ℕ)
  deriving DecidableEq

namespace AllowanceFrame

def lua : AllowanceFrame → Option ℕ
  | .layer lua _ | .hook lua | .stage lua => some lua
  | .command | .passedOn | .fellThrough _ | .context _ _ _ _ | .original | .direct => none

def isContext : AllowanceFrame → Bool
  | .context _ _ _ _ => true
  | .command | .layer _ _ | .passedOn | .fellThrough _ | .hook _ | .original | .direct
  | .stage _ => false

end AllowanceFrame

/-- The interpreters of the callbacks on the stack, the outermost last. -/
def luaCallbacks (frames : List AllowanceFrame) : List ℕ := frames.filterMap AllowanceFrame.lua

/-- Whether shell code runs on top of the frames. -/
def shellOnTop : List AllowanceFrame → Bool
  | [] => true
  | .command :: _ | .passedOn :: _ | .fellThrough _ :: _ | .original :: _ | .direct :: _ => true
  | .layer _ _ :: _ | .context _ _ _ _ :: _ | .hook _ :: _ | .stage _ :: _ => false

structure AllowanceState (F : Type) where
  sys : HookSystem F
  calls : Allowance
  frames : List AllowanceFrame

namespace AllowanceState

def initial : AllowanceState F := ⟨.initial, .initial, []⟩

def callbacks (s : AllowanceState F) : List ℕ := luaCallbacks s.frames

/-- A callback is called through `rash_lua_pcall`. -/
def callLua (s : AllowanceState F) (lua : ℕ) (f : AllowanceFrame) : AllowanceState F :=
  { s with calls := s.calls.enterPcall lua, frames := f :: s.frames }

/-- Calls a callback in `lua`, or goes on without one. -/
def callCallee (s : AllowanceState F) (lua : Option ℕ) (f : ℕ → AllowanceFrame) :
    AllowanceState F :=
  match lua with
  | none => s
  | some id => s.callLua id (f id)

end AllowanceState

inductive AllowanceAction (F : Type)
  /-- Shell code comes to one of the entries of the hook system. -/
  | enter (a : HookAction F)
  | nextLayer
  | passOn
  | fallThrough
  /-- `rash_invoke_hook` calls a callback: for `rash_hooks_execute`, `run()` or a hook that fell
  through. -/
  | nextHook
  | original
  /-- The counting hook fires. -/
  | tick
  /-- The top frame returns. -/
  | leave
  /-- A non-local jump leaves the topmost frames. -/
  | jump (left : ℕ)

/-! ## Steps -/

/-- An entry behind its call of `rash_hooks_initialize`. -/
def enterStep (s : AllowanceState F) : HookAction F → Option (AllowanceState F)
  | .executeCommand _ =>
      some { s with
        sys := { s.sys with hookCommandDepth := s.sys.hookCommandDepth + 1 }
        frames := .command :: s.frames }
  | .rackExecute _ =>
      match s.sys.callee (s.sys.rackDepth == 0 && decide (0 < (s.sys.hooks.table .rack).count)) with
      | none => some s
      | some lua =>
          some ({ s with sys := { s.sys with rackDepth := s.sys.rackDepth + 1 } }.callLua lua
            (.layer lua true))
  | .lifecycle _ =>
      match s.sys.callee (s.sys.hookExecutionDepth == 0 && s.sys.hookState == 1) with
      | none => some s
      | some lua =>
          some { s with
            frames := .context lua s.sys.hookExecutionDepth s.calls.callDepth
              s.calls.instructionTicks :: s.frames }
  | .reloadDirect _ =>
      if s.sys.hookExecutionDepth = 0 ∧ s.sys.hookState = 1 then
        some { s with
          sys := { s.sys with hookExecutionDepth := s.sys.hookExecutionDepth + 1 }
          frames := .direct :: s.frames }
      else some s
  | .stage kind _ => some (s.callCallee (s.sys.callee (s.sys.stageOpens kind)) .stage)
  | .reloadhooks _ => some s
  | .nextLayer | .passOn | .run | .leave _ => none

def nextLayerCall (s : AllowanceState F) : Option (AllowanceState F) :=
  match s.frames, s.sys.hooks.rashLua with
  | .layer _ _ :: _, some L => some (s.callLua L.id (.layer L.id false))
  | _, _ => none

def passOnCall (s : AllowanceState F) : Option (AllowanceState F) :=
  match s.frames with
  | .layer _ _ :: _ => some { s with frames := .passedOn :: s.frames }
  | _ => none

/-- The branch of `rash_rack_invoke` for an advisory layer that failed. -/
def fallThroughCall (s : AllowanceState F) : Option (AllowanceState F) :=
  match s.frames with
  | .layer lua raised :: rest =>
      some { s with calls := s.calls.leavePcall lua, frames := .fellThrough raised :: rest }
  | _ => none

/-- The interpreter that `rash_invoke_hook` is called with. -/
def invokingLua : List AllowanceFrame → Option ℕ
  | .context lua _ _ _ :: _ | .hook lua :: _ => some lua
  | _ => none

def nextHookCall (s : AllowanceState F) : Option (AllowanceState F) :=
  (invokingLua s.frames).map fun lua => s.callLua lua (.hook lua)

def originalCall (s : AllowanceState F) : Option (AllowanceState F) :=
  (invokingLua s.frames).map fun _ => { s with
    sys := { s.sys with hookExecutionDepth := s.sys.hookExecutionDepth + 1 }
    frames := .original :: s.frames }

/-- `rash_lua_instruction_limit`, called for the callback on top. -/
def tickStep (s : AllowanceState F) : Option (AllowanceState F) :=
  match s.frames.head?.bind AllowanceFrame.lua with
  | none => none
  | some lua =>
      if s.calls.counts lua then
        some { s with calls := { s.calls with instructionTicks := s.calls.instructionTicks - 1 } }
      else none

/-- `rash_hooks_command_end` -/
def commandEnd (g : HookSystem F) : HookSystem F :=
  let ended := { g with hookCommandDepth := g.hookCommandDepth - 1 }
  if ended.hookCommandDepth = 0 then ended.closeRetiredLua else ended

/-- A frame returns; the frames are those below it. -/
def returnFrame (s : AllowanceState F) : AllowanceFrame → AllowanceState F
  | .command => { s with sys := commandEnd s.sys }
  | .layer lua raised =>
      { s with
        sys := { s.sys with rackDepth := if raised then s.sys.rackDepth - 1 else s.sys.rackDepth }
        calls := s.calls.leavePcall lua }
  | .fellThrough raised =>
      { s with
        sys := { s.sys with rackDepth := if raised then s.sys.rackDepth - 1 else s.sys.rackDepth } }
  | .passedOn | .context _ _ _ _ => s
  | .hook lua | .stage lua => { s with calls := s.calls.leavePcall lua }
  | .original =>
      { s with sys := { s.sys with hookExecutionDepth := s.sys.hookExecutionDepth - 1 } }
  | .direct =>
      { s with
        sys := { s.sys with hookExecutionDepth := s.sys.hookExecutionDepth - 1 }.closeRetiredLua }

/-- A jump leaves a frame: only `execute_command` and `rash_hooks_execute` have unwind-protects,
and those of the latter restore the counters before they clear them. -/
def unwindFrame (s : AllowanceState F) : AllowanceFrame → AllowanceState F
  | .command => { s with sys := commandEnd s.sys }
  | .context _ executionDepth callDepth instructionTicks =>
      let restored :=
        { s.calls with callDepth := callDepth, instructionTicks := instructionTicks }
      { s with
        sys := { s.sys with hookExecutionDepth := executionDepth }
        calls := restored.unwindHookContext (s.sys.hooks.rashLua.map (·.id)) }
  | .layer _ _ | .passedOn | .fellThrough _ | .hook _ | .original | .direct | .stage _ => s

/-- Shell code jumps to shell code. -/
def jumpStep (left : ℕ) (s : AllowanceState F) : Option (AllowanceState F) :=
  if shellOnTop s.frames ∧ left ≤ s.frames.length ∧ shellOnTop (s.frames.drop left) then
    some { (s.frames.take left).foldl unwindFrame s with frames := s.frames.drop left }
  else none

def allowanceStep (s : AllowanceState F) : AllowanceAction F → Option (AllowanceState F)
  | .enter a =>
      if shellOnTop s.frames then
        enterStep { s with sys := s.sys.initialized (s.sys.initializes a) } a
      else none
  | .nextLayer => nextLayerCall s
  | .passOn => passOnCall s
  | .fallThrough => fallThroughCall s
  | .nextHook => nextHookCall s
  | .original => originalCall s
  | .tick => tickStep s
  | .leave =>
      match s.frames with
      | [] => none
      | f :: rest => some (returnFrame { s with frames := rest } f)
  | .jump left => jumpStep left s

end Rash
