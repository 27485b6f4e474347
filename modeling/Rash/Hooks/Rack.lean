import Rash.Hooks.Callback

/-!
# The rack chain

`rash_rack_execute`, `rash_rack_invoke` and `rash_rack_next`: the layers registered with
`rash.use`, each called with a `next()` that goes on with the layer after it, and the
command behind the last of them.  The chain nests Lua calls, so `room` counts how many
more protected calls the Lua stack has room for.
-/

namespace Rash

open Interaction

variable {σ Cmd : Type}

/-- `RASH_RACK_RUN`, with the number of the `rash_rack_execute` call that filled it in. -/
structure RackRun (Cmd : Type) where
  call : CommandCall Cmd
  serial : ℕ

/-- What an observer sees of a chain, with the value `rack_denied` has at that moment. -/
inductive RackEvent
  | consult (serial index : ℕ) (denied : Bool)
  | exec (serial : ℕ) (denied : Bool)
  | deny (serial index : ℕ) (enforcing : Bool)
  | printed (line : String)
  deriving DecidableEq

/-- The process, the `next()` functions that callbacks keep in variables, the number of
`rash_rack_execute` calls so far and the events of the present one. -/
structure RackState (σ Cmd : Type) where
  proc : Process σ
  kept : ℕ → Option (RackRun Cmd × ℕ)
  calls : ℕ
  log : List RackEvent

abbrev RackResult (σ Cmd : Type) := Except JumpCode Status × RackState σ Cmd

abbrev RackInvoke (σ Cmd : Type) := RackRun Cmd → ℕ → RackState σ Cmd → RackResult σ Cmd

namespace RackState

/-- A process that has opened no run and whose callbacks keep no `next()`. -/
def initial (lua : σ) : RackState σ Cmd := ⟨.initial lua, fun _ => none, 0, []⟩

def globals (s : RackState σ Cmd) : HookGlobals := s.proc.globals

def setGlobals (s : RackState σ Cmd) (g : HookGlobals) : RackState σ Cmd :=
  { s with proc := { s.proc with globals := g } }

def setLua (s : RackState σ Cmd) (lua : σ) : RackState σ Cmd :=
  { s with proc := { s.proc with lua := lua } }

def note (s : RackState σ Cmd) (e : RackEvent) : RackState σ Cmd :=
  { s with log := s.log ++ [e] }

def keepNext (s : RackState σ Cmd) (slot : ℕ) (next : RackRun Cmd × ℕ) : RackState σ Cmd :=
  { s with kept := fun n => if n = slot then some next else s.kept n }

def setStatus (s : RackState σ Cmd) (status : Status) : RackState σ Cmd :=
  { s with proc := s.proc.setStatus status }

def openRun (s : RackState σ Cmd) : RackState σ Cmd := { s with calls := s.calls + 1 }

def raiseDepth (s : RackState σ Cmd) : RackState σ Cmd :=
  s.setGlobals { s.globals with rackDepth := s.globals.rackDepth + 1 }

def lowerDepth (s : RackState σ Cmd) : RackState σ Cmd :=
  s.setGlobals { s.globals with rackDepth := s.globals.rackDepth - 1 }

end RackState

/-- The executor leaves `rack_depth` as it finds it once it is raised: a nested
`rash_rack_execute` then goes straight to the executor. -/
def Process.afterExecutor (before after : Process σ) : Process σ :=
  if 0 < before.globals.rackDepth then
    { after with globals := { after.globals with rackDepth := before.globals.rackDepth } }
  else after

/-- `execute_command_internal` on the command of a run. -/
def executeRun (exec : Executor σ Cmd) (run : RackRun Cmd) (s : RackState σ Cmd) :
    RackResult σ Cmd :=
  let r := exec run.call s.proc
  (r.1, { s with
    proc := s.proc.afterExecutor r.2
    log := s.log ++ [.exec run.serial s.globals.rackDenied] })

/-- `rash_rack_next` on the upvalues of the closure that is called. -/
def rashRackNext (invoke : RackInvoke σ Cmd) (target : Option (RackRun Cmd × ℕ))
    (s : RackState σ Cmd) : Except JumpCode (Except String Status) × RackState σ Cmd :=
  match target with
  | none => (.ok (.error nilCallError), s)
  | some (run, index) => ((invoke run index s).1.map .ok, (invoke run index s).2)

/-- `rash.deny` called by layer `index` of a run. -/
def rackDeny (run : RackRun Cmd) (index : ℕ) (enforcing : Bool) (reason : String)
    (s : RackState σ Cmd) : Except String Unit × RackState σ Cmd :=
  let r := rashLuaDeny reason s.globals
  (r.1, { s.setGlobals r.2.1 with
    log := s.log ++ .deny run.serial index enforcing :: r.2.2.map .printed })

/-- The ports as layer `index` of a run finds them. -/
def rackPort (invoke : RackInvoke σ Cmd) (run : RackRun Cmd) (index : ℕ)
    (enforcing : Bool) : Handler (LuaOp σ) LuaOp.Ans JumpCode (RackState σ Cmd)
  | .get, s => (.ok s.proc.lua, s)
  | .set lua, s => (.ok (), s.setLua lua)
  | .deny reason, s =>
      ((.ok (rackDeny run index enforcing reason s).1),
        (rackDeny run index enforcing reason s).2)
  | .next, s => rashRackNext invoke (some (run, index + 1)) s
  | .keep slot, s => (.ok (), s.keepNext slot (run, index + 1))
  | .stored slot, s => rashRackNext invoke (s.kept slot) s

/-- Up to the protected call: the layer's bit is installed and `rack_denied` is reset. -/
def openLayer (layer : Callback σ Cmd) (run : RackRun Cmd) (index : ℕ)
    (s : RackState σ Cmd) : RackState σ Cmd :=
  (s.setGlobals { s.globals with
    currentHookEnforcing := layer.enforcing
    rackDenied := false
    luaCalls := s.globals.luaCalls.enter }).note
      (.consult run.serial index s.globals.rackDenied)

/-- After the protected call, with the bit that was saved before it. -/
def closeLayer (savedEnforcing : Bool) (s : RackState σ Cmd) : RackState σ Cmd :=
  s.setGlobals { s.globals with
    currentHookEnforcing := savedEnforcing
    luaCalls := s.globals.luaCalls.leave }

def enforcingLayerFailed (message : Option String) : String :=
  rashHookWarning "enforcing rack layer failed; denying command: " (errorText message)

def advisoryLayerFailed (message : Option String) : String :=
  rashHookWarning "advisory rack layer failed; running command: " (errorText message)

def layerWithoutStatus : String :=
  rashHookWarning "rack layer did not return a status; denying" ""

/-- The branches behind the protected call. -/
def settleLayer (exec : Executor σ Cmd) (layer : Callback σ Cmd) (run : RackRun Cmd)
    (r : LuaResult) (s : RackState σ Cmd) : RackResult σ Cmd :=
  if s.globals.rackDenied then (.ok executionFailure, s.setStatus executionFailure)
  else
    match r with
    | .raised message =>
        if layer.enforcing then
          (.ok executionFailure, s.note (.printed (enforcingLayerFailed message)))
        else executeRun exec run (s.note (.printed (advisoryLayerFailed message)))
    | .number status => (.ok status, s)
    | .other => (.ok executionFailure, s.note (.printed layerWithoutStatus))

/-- Behind the body of a layer.  A jump out of it leaves everything as it is. -/
def finishLayer (exec : Executor σ Cmd) (layer : Callback σ Cmd) (run : RackRun Cmd)
    (savedEnforcing : Bool) : Except JumpCode LuaResult × RackState σ Cmd → RackResult σ Cmd
  | (.ok r, s) => settleLayer exec layer run r (closeLayer savedEnforcing s)
  | (.error code, s) => (.error code, s)

/-- `rash_rack_invoke`. -/
def rashRackInvoke (exec : Executor σ Cmd) (layers : List (Callback σ Cmd)) :
    ℕ → RackInvoke σ Cmd
  | room, run, index, s =>
      match layers[index - 1]? with
      | none => executeRun exec run s
      | some layer =>
          match room with
          | 0 =>
              finishLayer exec layer run s.globals.currentHookEnforcing
                (.ok (.raised (some stackOverflowError)), openLayer layer run index s)
          | room + 1 =>
              finishLayer exec layer run s.globals.currentHookEnforcing
                ((layer.body run.call.command).run
                  (rackPort (rashRackInvoke exec layers room) run index layer.enforcing)
                  (openLayer layer run index s))

/-- A layer that only goes on: `return next()`. -/
def passingLayer (enforcing : Bool) : Callback σ Cmd where
  enforcing := enforcing
  body _ := .op .next fun answer =>
    .ret (match answer with
      | .ok status => .number status
      | .error message => .raised (some message))

/-- `rash_rack_execute` with `mode` the value of `RASH_EXEC` and `layers` the rack of the
loaded hook set (empty when none is loaded).  Nothing restores `rack_depth` on a jump. -/
def rashRackExecute (exec : Executor σ Cmd) (layers : List (Callback σ Cmd)) (room : ℕ)
    (mode : Option String) (call : CommandCall Cmd) (s : RackState σ Cmd) :
    RackResult σ Cmd :=
  let run : RackRun Cmd := ⟨call, s.calls⟩
  if mode = some "c" then executeRun exec run s.openRun
  else if 0 < s.globals.rackDepth then executeRun exec run s.openRun
  else if layers = [] then executeRun exec run s.openRun
  else
    match rashRackInvoke exec layers room run 1 s.openRun.raiseDepth with
    | (.ok result, s') => (.ok result, s'.lowerDepth)
    | (.error code, s') => (.error code, s')

/-! ## What a chain leaves behind -/

section Steps

variable {exec : Executor σ Cmd} {layers : List (Callback σ Cmd)}

theorem rashRackInvoke_none {room index : ℕ} {run : RackRun Cmd} {s : RackState σ Cmd}
    (h : layers[index - 1]? = none) :
    rashRackInvoke exec layers room run index s = executeRun exec run s := by
  cases room <;> simp [rashRackInvoke, h]

theorem rashRackInvoke_zero {index : ℕ} {run : RackRun Cmd} {layer : Callback σ Cmd}
    {s : RackState σ Cmd} (h : layers[index - 1]? = some layer) :
    rashRackInvoke exec layers 0 run index s =
      finishLayer exec layer run s.globals.currentHookEnforcing
        (.ok (.raised (some stackOverflowError)), openLayer layer run index s) := by
  simp [rashRackInvoke, h]

theorem rashRackInvoke_succ {room index : ℕ} {run : RackRun Cmd} {layer : Callback σ Cmd}
    {s : RackState σ Cmd} (h : layers[index - 1]? = some layer) :
    rashRackInvoke exec layers (room + 1) run index s =
      finishLayer exec layer run s.globals.currentHookEnforcing
        ((layer.body run.call.command).run
          (rackPort (rashRackInvoke exec layers room) run index layer.enforcing)
          (openLayer layer run index s)) := by
  simp [rashRackInvoke, h]

/-- A relation from a state to the states after it that every step of a chain extends. -/
structure RackProgress (exec : Executor σ Cmd) (le : RackState σ Cmd → RackState σ Cmd → Prop) :
    Prop where
  refl : ∀ s, le s s
  trans : ∀ a b c, le a b → le b c → le a c
  lua : ∀ s lua, le s (s.setLua lua)
  deny : ∀ s run index enforcing reason, le s (rackDeny run index enforcing reason s).2
  keep : ∀ s slot next, le s (s.keepNext slot next)
  execute : ∀ s run, le s (executeRun exec run s).2
  enter : ∀ s layer run index, le s (openLayer layer run index s)
  leave : ∀ s saved, le s (closeLayer saved s)
  status : ∀ s status, le s (s.setStatus status)
  note : ∀ s line, le s (s.note (.printed line))

theorem settleLayer_progress {le : RackState σ Cmd → RackState σ Cmd → Prop}
    (h : RackProgress exec le) (layer : Callback σ Cmd) (run : RackRun Cmd) (r : LuaResult)
    (s : RackState σ Cmd) : le s (settleLayer exec layer run r s).2 := by
  unfold settleLayer
  split
  · exact h.status s _
  · cases r with
    | number status => exact h.refl s
    | other => exact h.note s _
    | raised message =>
        dsimp only
        split
        · exact h.note s _
        · exact h.trans _ _ _ (h.note s _) (h.execute _ run)

theorem finishLayer_progress {le : RackState σ Cmd → RackState σ Cmd → Prop}
    (h : RackProgress exec le) (layer : Callback σ Cmd) (run : RackRun Cmd) (saved : Bool)
    (x : Except JumpCode LuaResult × RackState σ Cmd) :
    le x.2 (finishLayer exec layer run saved x).2 := by
  rcases x with ⟨code | r, s⟩
  · exact h.refl s
  · exact h.trans _ _ _ (h.leave s saved) (settleLayer_progress h layer run r _)

theorem rackPort_progress {le : RackState σ Cmd → RackState σ Cmd → Prop}
    (h : RackProgress exec le) {invoke : RackInvoke σ Cmd}
    (hinvoke : ∀ run index s, le s (invoke run index s).2) (run : RackRun Cmd) (index : ℕ)
    (enforcing : Bool) (o : LuaOp σ) (s : RackState σ Cmd) :
    le s (rackPort invoke run index enforcing o s).2 := by
  cases o with
  | get => exact h.refl s
  | set lua => exact h.lua s lua
  | deny reason => exact h.deny s run index _ reason
  | next => exact hinvoke run (index + 1) s
  | keep slot => exact h.keep s slot _
  | stored slot =>
      simp only [rackPort]
      rcases s.kept slot with _ | ⟨run', index'⟩
      · exact h.refl s
      · exact hinvoke run' index' s

/-- What every step extends, a call of a layer extends from the state its body starts in. -/
theorem layer_progress {le : RackState σ Cmd → RackState σ Cmd → Prop}
    (h : RackProgress exec le) {room : ℕ}
    (hinvoke : ∀ room', room' < room → ∀ run index s,
      le s (rashRackInvoke exec layers room' run index s).2)
    (run : RackRun Cmd) {index : ℕ} {layer : Callback σ Cmd} (s : RackState σ Cmd)
    (hl : layers[index - 1]? = some layer) :
    le (openLayer layer run index s) (rashRackInvoke exec layers room run index s).2 := by
  cases room with
  | zero =>
      rw [rashRackInvoke_zero hl]
      exact finishLayer_progress h layer run s.globals.currentHookEnforcing
        (.ok (.raised (some stackOverflowError)), openLayer layer run index s)
  | succ room =>
      have hbody := Prog.run_progress h.refl h.trans
        (fun o u _ => rackPort_progress h (hinvoke room (Nat.lt_succ_self room)) run index
          layer.enforcing o u)
        (Prog.uses_true (layer.body run.call.command)) (openLayer layer run index s)
      rw [rashRackInvoke_succ hl]
      exact h.trans _ _ _ hbody (finishLayer_progress h layer run _ _)

/-- The rule for chains: what every step extends, `rash_rack_invoke` extends. -/
theorem rashRackInvoke_progress {le : RackState σ Cmd → RackState σ Cmd → Prop}
    (h : RackProgress exec le) (room : ℕ) (run : RackRun Cmd) (index : ℕ)
    (s : RackState σ Cmd) : le s (rashRackInvoke exec layers room run index s).2 := by
  induction room using Nat.strongRecOn generalizing run index s with
  | ind room ih =>
      cases hl : layers[index - 1]? with
      | none => rw [rashRackInvoke_none hl]; exact h.execute s run
      | some layer => exact h.trans _ _ _ (h.enter s layer run index) (layer_progress h ih run s hl)

/-- A chain only adds to the log, opens no run of its own and keeps a raised `rack_depth`. -/
structure RackFrame (s s' : RackState σ Cmd) : Prop where
  log : s.log <+: s'.log
  calls : s'.calls = s.calls
  depth : 0 < s.globals.rackDepth → s'.globals.rackDepth = s.globals.rackDepth

theorem executeRun_rackDepth (exec : Executor σ Cmd) (run : RackRun Cmd)
    {s : RackState σ Cmd} (h : 0 < s.globals.rackDepth) :
    (executeRun exec run s).2.globals.rackDepth = s.globals.rackDepth := by
  have h' : 0 < s.proc.globals.rackDepth := h
  simp [executeRun, RackState.globals, Process.afterExecutor, h']

theorem rackFrame_progress (exec : Executor σ Cmd) :
    RackProgress exec (@RackFrame σ Cmd) where
  refl s := ⟨List.prefix_refl _, rfl, fun _ => rfl⟩
  trans a b c hab hbc := by
    refine ⟨hab.log.trans hbc.log, hbc.calls.trans hab.calls, fun ha => ?_⟩
    have hb := hab.depth ha
    exact (hbc.depth (hb ▸ ha)).trans hb
  lua s lua := ⟨List.prefix_refl _, rfl, fun _ => rfl⟩
  deny s run index enforcing reason :=
    ⟨List.prefix_append _ _, rfl, fun _ => (rashLuaDeny_frame reason s.globals).rackDepth⟩
  keep s slot next := ⟨List.prefix_refl _, rfl, fun _ => rfl⟩
  execute s run := ⟨List.prefix_append _ _, rfl, executeRun_rackDepth exec run⟩
  enter s layer run index := ⟨List.prefix_append _ _, rfl, fun _ => rfl⟩
  leave s saved := ⟨List.prefix_refl _, rfl, fun _ => rfl⟩
  status s status := ⟨List.prefix_refl _, rfl, fun _ => rfl⟩
  note s line := ⟨List.prefix_append _ _, rfl, fun _ => rfl⟩

theorem rashRackInvoke_frame (exec : Executor σ Cmd) (layers : List (Callback σ Cmd))
    (room : ℕ) (run : RackRun Cmd) (index : ℕ) (s : RackState σ Cmd) :
    RackFrame s (rashRackInvoke exec layers room run index s).2 :=
  rashRackInvoke_progress (rackFrame_progress exec) room run index s

/-- A layer that is called is logged as consulted. -/
theorem consult_logged (exec : Executor σ Cmd) (room : ℕ) {index : ℕ} {layer : Callback σ Cmd}
    (run : RackRun Cmd) (s : RackState σ Cmd) (hl : layers[index - 1]? = some layer) :
    .consult run.serial index s.globals.rackDenied ∈
      (rashRackInvoke exec layers room run index s).2.log := by
  have hframe := layer_progress (rackFrame_progress exec)
    (fun room' (_ : room' < room) => rashRackInvoke_frame exec layers room') run s hl
  exact hframe.log.subset (List.mem_append_right _ (List.mem_singleton_self _))

end Steps

/-! ## Outermost and nested calls -/

section Call

variable (exec : Executor σ Cmd) {layers : List (Callback σ Cmd)} (room : ℕ)
  {mode : Option String} (call : CommandCall Cmd) {s : RackState σ Cmd}

theorem rashRackExecute_outermost (hmode : mode ≠ some "c") (hlayers : layers ≠ [])
    (hdepth : s.globals.rackDepth = 0) :
    rashRackExecute exec layers room mode call s =
      match rashRackInvoke exec layers room ⟨call, s.calls⟩ 1 s.openRun.raiseDepth with
      | (.ok result, s') => (.ok result, s'.lowerDepth)
      | (.error code, s') => (.error code, s') := by
  simp [rashRackExecute, hmode, hlayers, hdepth]

/-- Lowering `rack_depth` is all that `rash_rack_execute` does behind the chain. -/
theorem rashRackExecute_chain (hmode : mode ≠ some "c") (hlayers : layers ≠ [])
    (hdepth : s.globals.rackDepth = 0) :
    (rashRackExecute exec layers room mode call s).1 =
        (rashRackInvoke exec layers room ⟨call, s.calls⟩ 1 s.openRun.raiseDepth).1 ∧
      (rashRackExecute exec layers room mode call s).2.log =
        (rashRackInvoke exec layers room ⟨call, s.calls⟩ 1 s.openRun.raiseDepth).2.log := by
  rw [rashRackExecute_outermost exec room call hmode hlayers hdepth]
  split <;> next heq => rw [heq]; exact ⟨rfl, rfl⟩

theorem rashRackExecute_nested (hdepth : 0 < s.globals.rackDepth) :
    rashRackExecute exec layers room mode call s =
      executeRun exec ⟨call, s.calls⟩ s.openRun := by
  simp [rashRackExecute, hdepth]

theorem raiseDepth_outermost (hdepth : s.globals.rackDepth = 0) :
    s.openRun.raiseDepth.globals.rackDepth = 1 := by
  change s.globals.rackDepth + 1 = 1
  rw [hdepth]

/-- What an outermost command with this outcome leaves in `rack_depth`. -/
def depthLeft : Except JumpCode Status → ℕ
  | .ok _ => 0
  | .error _ => 1

/-- An outermost command that returns has lowered `rack_depth` again, one that is left by a
jump has not. -/
theorem rashRackExecute_depth (hmode : mode ≠ some "c") (hlayers : layers ≠ [])
    (hdepth : s.globals.rackDepth = 0) :
    (rashRackExecute exec layers room mode call s).2.globals.rackDepth =
      depthLeft (rashRackExecute exec layers room mode call s).1 := by
  have hraised := raiseDepth_outermost hdepth
  have hone := (rashRackInvoke_frame exec layers room ⟨call, s.calls⟩ 1
    s.openRun.raiseDepth).depth (by omega)
  rw [rashRackExecute_outermost exec room call hmode hlayers hdepth]
  rcases hinv : rashRackInvoke exec layers room ⟨call, s.calls⟩ 1 s.openRun.raiseDepth with
    ⟨outcome, s'⟩
  rw [hinv] at hone
  have hs' : s'.globals.rackDepth = 1 := hone.trans hraised
  cases outcome with
  | ok result =>
      change s'.globals.rackDepth - 1 = 0
      rw [hs']
  | error code => exact hs'

end Call

end Rash
