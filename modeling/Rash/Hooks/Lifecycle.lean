import Rash.Hooks.Callback

/-!
# Lifecycle hooks

`rash_invoke_hook`, `rash_hook_run` and `rash_execute_original`: the hooks registered with
`rash.hook`, each called with a `run()` that goes on with the next one, over one context
that lives as long as the command.  A hook that neither runs the command nor returns a
status is passed over.
-/

namespace Rash

open Interaction

variable {σ Cmd : Type}

/-- `RASH_HOOK_RUNNER`; the context it belongs to is known by its number. -/
structure HookRunner where
  context : ℕ
  nextHook : ℕ
  called : Bool

inductive HookEvent
  | consult (index : ℕ)
  | ran (outcome : Except JumpCode Status)
  | deny (index : ℕ) (enforcing : Bool)
  | failed (index : ℕ) (enforcing : Bool)
  | fellThrough (index : ℕ) (enforcing : Bool)
  | returned (status : Status)
  | marked
  | printed (line : String)

/-- The process, the runners made so far, those that callbacks keep in variables, the number
of the present context and its events. -/
structure LifecycleState (σ : Type) where
  proc : Process σ
  runners : List HookRunner
  kept : ℕ → Option ℕ
  serial : ℕ
  log : List HookEvent

abbrev HookOutcome (σ : Type) := Except JumpCode Status × LifecycleState σ

abbrev InvokeHook (σ : Type) := ℕ → LifecycleState σ → HookOutcome σ

namespace LifecycleState

def globals (s : LifecycleState σ) : HookGlobals := s.proc.globals

def context (s : LifecycleState σ) : HookContext := s.proc.globals.context

def setGlobals (s : LifecycleState σ) (g : HookGlobals) : LifecycleState σ :=
  { s with proc := { s.proc with globals := g } }

def setContext (s : LifecycleState σ) (c : HookContext) : LifecycleState σ :=
  s.setGlobals { s.globals with context := c }

def note (s : LifecycleState σ) (e : HookEvent) : LifecycleState σ :=
  { s with log := s.log ++ [e] }

def setRunner (s : LifecycleState σ) (id : ℕ) (r : HookRunner) : LifecycleState σ :=
  { s with runners := s.runners.set id r }

def keepRunner (s : LifecycleState σ) (slot id : ℕ) : LifecycleState σ :=
  { s with kept := fun n => if n = slot then some id else s.kept n }

end LifecycleState

/-- While the command runs, `hook_execution_depth` keeps the lifecycle away from its context
and nested `rash_rack_execute` calls leave a raised `rack_depth` alone. -/
def Process.afterOriginal (before after : Process σ) : Process σ :=
  { after with globals := { after.globals with
      context := before.globals.context
      activeHookContext := before.globals.activeHookContext
      hookExecutionDepth := before.globals.hookExecutionDepth
      rackDepth :=
        if 0 < before.globals.rackDepth then before.globals.rackDepth
        else after.globals.rackDepth } }

/-- The state in which `rash_execute_original` calls the executor. -/
def startOriginal (s : LifecycleState σ) : LifecycleState σ :=
  s.setGlobals { s.globals with
    context := { s.context with executed := true }
    hookExecutionDepth := s.globals.hookExecutionDepth + 1 }

def finishOriginal (status : Status) (s : LifecycleState σ) : LifecycleState σ :=
  s.setGlobals { s.globals with
    context := { s.context with result := status }
    hookExecutionDepth := s.globals.hookExecutionDepth - 1 }

def rashExecuteOriginal (exec : Executor σ Cmd) (call : CommandCall Cmd)
    (s : LifecycleState σ) : HookOutcome σ :=
  if s.context.executed then (.ok s.context.result, s)
  else
    let started := startOriginal s
    let r := exec call started.proc
    let ended := { started with
      proc := started.proc.afterOriginal r.2
      log := started.log ++ [.ran r.1] }
    match r.1 with
    | .ok status => (.ok status, finishOriginal status ended)
    | .error code => (.error code, ended)

def escapedRunError : String := "rash hook run() escaped its command lifecycle"

def repeatedRunError : String := "rash hook called run() more than once"

/-- `rash_hook_run` on the runner of the closure that is called. -/
def rashHookRun (invoke : InvokeHook σ) (target : Option ℕ) (s : LifecycleState σ) :
    Except JumpCode (Except String Status) × LifecycleState σ :=
  match target with
  | none => (.ok (.error nilCallError), s)
  | some id =>
      match s.runners[id]? with
      | none => (.ok (.error nilCallError), s)
      | some runner =>
          if runner.context ≠ s.serial ∨ s.context.active = false then
            (.ok (.error escapedRunError), s)
          else if runner.called then (.ok (.error repeatedRunError), s)
          else
            let r := invoke runner.nextHook (s.setRunner id { runner with called := true })
            (r.1.map .ok, r.2)

/-- `rash.deny` called by hook `index`. -/
def hookDeny (index : ℕ) (enforcing : Bool) (reason : String) (s : LifecycleState σ) :
    Except String Unit × LifecycleState σ :=
  let r := rashLuaDeny reason s.globals
  let marks : List HookEvent :=
    if s.context.denied = false ∧ r.2.1.context.denied = true then [.marked] else []
  (r.1, { s.setGlobals r.2.1 with
    log := s.log ++ (.deny index enforcing :: (marks ++ r.2.2.map .printed)) })

/-- The ports as hook `index` finds them; `own` is its runner. -/
def hookPort (invoke : InvokeHook σ) (index own : ℕ) (enforcing : Bool) :
    Handler (LuaOp σ) LuaOp.Ans JumpCode (LifecycleState σ)
  | .get, s => (.ok s.proc.lua, s)
  | .set lua, s => (.ok (), { s with proc := { s.proc with lua := lua } })
  | .deny reason, s =>
      (.ok (hookDeny index enforcing reason s).1, (hookDeny index enforcing reason s).2)
  | .next, s => rashHookRun invoke (some own) s
  | .keep slot, s => (.ok (), s.keepRunner slot own)
  | .stored slot, s => rashHookRun invoke (s.kept slot) s

/-- Up to the protected call: the bit and the context are installed and a runner is made. -/
def openHook (hook : Callback σ Cmd) (index : ℕ) (s : LifecycleState σ) : LifecycleState σ :=
  { s.setGlobals { s.globals with
      currentHookEnforcing := hook.enforcing
      activeHookContext := true
      luaCalls := s.globals.luaCalls.enter } with
    runners := s.runners ++ [⟨s.serial, index + 1, false⟩]
    log := s.log ++ [.consult index] }

/-- `rash_mark_denied` on the present context. -/
def markDenied (reason : String) (s : LifecycleState σ) : LifecycleState σ :=
  let m := rashMarkDenied s.context reason
  { s.setContext m.1 with
    log := s.log ++ ((if s.context.denied then [] else [.marked]) ++ m.2.map .printed) }

def enforcingHookFailed (message : Option String) : String :=
  rashHookWarning "enforcing hook failed; denying command: " (errorText message)

def advisoryHookFailed (message : Option String) : String :=
  rashHookWarning "advisory hook failed; continuing command execution: " (errorText message)

/-- The branches behind the protected call. -/
def settleHook (hook : Callback σ Cmd) (index : ℕ) (r : LuaResult) (s : LifecycleState σ) :
    LifecycleState σ :=
  match r with
  | .raised message =>
      if hook.enforcing then
        markDenied "enforcing lifecycle hook failed"
          ((s.note (.failed index true)).note (.printed (enforcingHookFailed message)))
      else (s.note (.failed index false)).note (.printed (advisoryHookFailed message))
  | .number status =>
      (s.setContext { s.context with executed := true, result := status }).note (.returned status)
  | .other => if s.context.executed then s else s.note (.fellThrough index hook.enforcing)

/-- Behind the branches: the context and the bit are taken down. -/
def closeHook (s : LifecycleState σ) : LifecycleState σ :=
  s.setGlobals { s.globals with activeHookContext := false, currentHookEnforcing := false }

def leaveLua (s : LifecycleState σ) : LifecycleState σ :=
  s.setGlobals { s.globals with luaCalls := s.globals.luaCalls.leave }

/-- The body of hook `index`; `invoke` is missing when the Lua stack has no room left. -/
def callHook (invoke : Option (InvokeHook σ)) (call : CommandCall Cmd) (hook : Callback σ Cmd)
    (index : ℕ) (s : LifecycleState σ) : Except JumpCode LuaResult × LifecycleState σ :=
  match invoke with
  | none => (.ok (.raised (some stackOverflowError)), openHook hook index s)
  | some invoke =>
      (hook.body call.command).run (hookPort invoke index s.runners.length hook.enforcing)
        (openHook hook index s)

/-- `rash_invoke_hook` on the hooks from `index` on. -/
def invokeFrom (exec : Executor σ Cmd) (call : CommandCall Cmd)
    (invoke : Option (InvokeHook σ)) :
    List (Callback σ Cmd) → ℕ → LifecycleState σ → HookOutcome σ
  | [], _, s => if s.context.denied then (.ok s.context.result, s) else
      rashExecuteOriginal exec call s
  | hook :: rest, index, s =>
      if s.context.denied then (.ok s.context.result, s)
      else
        match callHook invoke call hook index s with
        | (.error code, s') => (.error code, s')
        | (.ok r, s') =>
            let settled := closeHook (settleHook hook index r (leaveLua s'))
            if settled.context.denied then (.ok settled.context.result, settled)
            else if settled.context.executed = false then
              invokeFrom exec call invoke rest (index + 1) settled
            else (.ok settled.context.result, settled)

/-- `rash_invoke_hook`, with `room` protected calls left on the Lua stack. -/
def rashInvokeHook (exec : Executor σ Cmd) (call : CommandCall Cmd)
    (hooks : List (Callback σ Cmd)) : ℕ → InvokeHook σ
  | 0, index, s => invokeFrom exec call none (hooks.drop (index - 1)) index s
  | room + 1, index, s =>
      invokeFrom exec call (some (rashInvokeHook exec call hooks room)) (hooks.drop (index - 1))
        index s

end Rash
