import Rash.Exec.CommandStages

/-!
# The stages with the interpreter's stack

The stage functions of a simple command with the height of the Lua stack, and
`rash_hooks_on_redirect`, whose two loops share one flag.
-/

namespace Rash

variable {σ Θ : Type}

/-- A state with `lua_gettop`. -/
structure Stacked (S : Type) where
  state : S
  top : ℕ

/-- The height behind one round.  `lua_rawgeti` pushes the table and the callback, `lua_remove`
takes the table out, and the argument is pushed; the call takes callback and argument and leaves
its results or an error, which is popped. -/
def roundTop (nresults : ℕ) (raised : Bool) (top : ℕ) : ℕ :=
  let top := top + 1 + 1 - 1 + 1
  if raised then top - 2 + 1 - 1 else top - 2 + nresults

def StageResult.isRaised : StageResult → Bool
  | .string _ | .table _ | .other => false
  | .raised _ => true

namespace CommandStage

/-- The results that the stage asks `rash_lua_pcall` for. -/
def nresults (stage : CommandStage) : ℕ :=
  match stage.kind with
  | .dispatch | .expandHook | .redirectPolicy => 1
  | _ => 0

/-- `consultEach` with the stack. -/
def consultEachStacked {α : Type} (stage : CommandStage) (table : StageTable)
    (take : α → StageResult → α) : List (ℕ × Option (StageFunction σ) × Bool) → α →
      Stacked (SimpleState σ Θ) → α × Stacked (SimpleState σ Θ)
  | [], a, s => (a, s)
  | callback :: rest, a, s =>
      let r := stage.consult table callback s.state
      let s' : Stacked (SimpleState σ Θ) :=
        ⟨r.2, roundTop stage.nresults r.1.isRaised s.top⟩
      if r.2.shell.hooks.stageDenied then (take a r.1, s')
      else stage.consultEachStacked table take rest (take a r.1) s'

/-- `consultAll` with the stack. -/
def consultAllStacked {α : Type} (stage : CommandStage) (table : StageTable)
    (take : α → StageResult → α) (a : α) (s : Stacked (SimpleState σ Θ)) :
    (Bool × α) × Stacked (SimpleState σ Θ) :=
  let base := s.top
  let r := stage.consultEachStacked table take (s.state.callbacks stage.kind) a
    ⟨stage.enter s.state, s.top⟩
  -- lua_settop (rash_lua, base)
  let s' := stage.exit r.2.state
  if s'.shell.hooks.stageDenied then ((true, r.1), ⟨s'.note (.denied stage.kind), base⟩)
  else ((false, r.1), ⟨s', base⟩)

/-- `run` with the stack. -/
def runStacked {α : Type} (stage : CommandStage) (files : HookFiles σ Θ) (table : StageTable)
    (take : α → StageResult → α) (a : α) (s : Stacked (SimpleState σ Θ)) :
    (Bool × α) × Stacked (SimpleState σ Θ) :=
  if stage.checksState = true ∧ s.state.shell.globals.runningTrap ≠ 0 then ((false, a), s)
  else
    let s' := stageInitialize files stage.kind s.state
    if (stage.checksState = true ∧ s'.shell.sys.hookState ≠ 1) ∨
        s'.registered stage.kind = false then ((false, a), ⟨s', s.top⟩)
    else stage.consultAllStacked table take a ⟨s', s.top⟩

theorem consultEachStacked_consultEach {α : Type} (stage : CommandStage) (table : StageTable)
    (take : α → StageResult → α) (callbacks : List (ℕ × Option (StageFunction σ) × Bool)) (a : α)
    (s : Stacked (SimpleState σ Θ)) :
    (stage.consultEachStacked table take callbacks a s).1 =
        (stage.consultEach table take callbacks a s.state).1 ∧
      (stage.consultEachStacked table take callbacks a s).2.state =
        (stage.consultEach table take callbacks a s.state).2 := by
  induction callbacks generalizing a s with
  | nil => exact ⟨rfl, rfl⟩
  | cons callback rest ih =>
      unfold consultEachStacked consultEach
      dsimp only
      split_ifs
      · exact ⟨rfl, rfl⟩
      · exact ih _ _

/-- The stack decides nothing. -/
theorem runStacked_run {α : Type} (stage : CommandStage) (files : HookFiles σ Θ)
    (table : StageTable) (take : α → StageResult → α) (a : α) (s : Stacked (SimpleState σ Θ)) :
    (stage.runStacked files table take a s).1 = (stage.run files table take a s.state).1 ∧
      (stage.runStacked files table take a s).2.state =
        (stage.run files table take a s.state).2 := by
  unfold runStacked run consultAllStacked consultAll
  dsimp only
  obtain ⟨htaken, hstate⟩ := stage.consultEachStacked_consultEach table take
    ((stageInitialize files stage.kind s.state).callbacks stage.kind) a
    ⟨stage.enter (stageInitialize files stage.kind s.state), s.top⟩
  dsimp only at htaken hstate
  rw [htaken, hstate]
  split_ifs <;> exact ⟨rfl, rfl⟩

end CommandStage

/-! ## Redirections -/

def redirectStage : CommandStage where
  kind := .redirect
  checksState := true
  keepsReason := false
  enforcingFailed := "enforcing on_redirect failed; denying redirect: "
  enforcingDenied := some "rash: denied: enforcing on_redirect failed"
  advisoryFailed := "advisory on_redirect failed; continuing: "
  setFlag b flags := { flags with inRedirectStage := b }

def clobberStage : CommandStage where
  kind := .clobber
  checksState := true
  keepsReason := false
  enforcingFailed := "enforcing on_clobber failed; denying redirect: "
  enforcingDenied := some "rash: denied: enforcing on_clobber failed"
  advisoryFailed := "advisory on_clobber failed; continuing: "
  setFlag b flags := { flags with inRedirectStage := b }

/-- `rash_redirect_kind` -/
def rashRedirectKind : RInstruction → String
  | .outputDirection => "output"
  | .outputForce => "force"
  | .appendingTo => "append"
  | .inputDirection => "input"
  | .inputaDirection => "inputa"
  | .errAndOut => "err_and_out"
  | .appendErrAndOut => "append_err_and_out"
  | .inputOutput => "input_output"
  | _ => "other"

/-- Neither `running_trap` nor a missing hook set or observer ends the stage. -/
def redirectOpens (files : HookFiles σ Θ) (s : SimpleState σ Θ) : Bool :=
  let s' := stageInitialize files .redirect s
  s.shell.globals.runningTrap == 0 && s'.shell.sys.hookState == 1 &&
    (s'.registered .redirect || s'.registered .clobber)

/-- `rash_hooks_on_redirect`; `lstat` says whether the file at a path is regular. -/
def rashHooksOnRedirect (files : HookFiles σ Θ) (lstat : Θ → String → Option Bool)
    (path : Option String) (ri : RInstruction) (redirectorFd : Int)
    (s : Stacked (SimpleState σ Θ)) : Bool × Stacked (SimpleState σ Θ) :=
  match path with
  | none => (false, s)
  | some path =>
      if s.state.shell.globals.runningTrap ≠ 0 then (false, s)
      else if redirectOpens files s.state = false then
        (false, ⟨stageInitialize files .redirect s.state, s.top⟩)
      else
        let state := stageInitialize files .redirect s.state
        let found := lstat state.shell.rest path
        let willClobber := rashRedirectWillClobber ri found.isSome (found.getD false)
        let table := StageTable.redirect path (rashRedirectKind ri) redirectorFd found.isSome
          willClobber
        let base := s.top
        let redirected := redirectStage.consultEachStacked table (fun u _ => u)
          (state.callbacks .redirect) () ⟨redirectStage.enter state, s.top⟩
        let clobbered :=
          if redirected.2.state.shell.hooks.stageDenied = false ∧ willClobber = true then
            clobberStage.consultEachStacked table (fun u _ => u) (state.callbacks .clobber) ()
              redirected.2
          else redirected
        let s' := redirectStage.exit clobbered.2.state
        if s'.shell.hooks.stageDenied then (true, ⟨s'.note (.denied .redirect), base⟩)
        else (false, ⟨s', base⟩)

/-! ## The calls of the executor -/

/-- A stage function with what it is called with. -/
inductive StageCall
  | before (words : List WordDesc)
  | dispatch (words : List WordDesc) (haveFunction haveBuiltin : Bool)
  | onBuiltin (words : List WordDesc)
  | onFunction (name : String) (words : List WordDesc)
  | onExec (path : String) (argv : List String)
  | onRedirect (path : Option String) (ri : RInstruction) (redirectorFd : Int)

/-- Whether the function denies, and the state behind it. -/
def StageCall.run (files : HookFiles σ Θ) (lstat : Θ → String → Option Bool) (call : StageCall)
    (s : Stacked (SimpleState σ Θ)) : Bool × Stacked (SimpleState σ Θ) :=
  match call with
  | .before words =>
      let r := beforeStage.runStacked files
        (.expanded (wordTexts words) (stringList words) 0 none none) (fun u _ => u) () s
      (r.1.1, r.2)
  | .dispatch words haveFunction haveBuiltin =>
      let resolved :=
        if haveFunction then "function" else if haveBuiltin then "builtin" else "command"
      let r := dispatchStage.runStacked files (.dispatch (wordTexts words) resolved)
        DispatchChoice.take .asResolved s
      (r.1.1, r.2)
  | .onBuiltin words =>
      let r := onBuiltinStage.runStacked files
        (.named ((wordTexts words).headD "") (wordTexts words)) (fun u _ => u) () s
      (r.1.1, r.2)
  | .onFunction name words =>
      let r := onFunctionStage.runStacked files (.named name (wordTexts words)) (fun u _ => u) () s
      (r.1.1, r.2)
  | .onExec path argv =>
      let r := onExecStage.runStacked files (.exec path argv) (fun u _ => u) () s
      (r.1.1, if r.1.1 then ⟨r.2.state.setLastCommandExitValue executionFailure, r.2.top⟩ else r.2)
  | .onRedirect path ri redirectorFd => rashHooksOnRedirect files lstat path ri redirectorFd s

/-! ## Pipelines -/

section

variable {ω E : Type}

/-- Whether the call of the callback in a round fails. -/
def pipeRaises (world : PipeWorld σ Θ ω E) (table : PipelineTable)
    (callback : Option (PipeFunction σ) × Bool) (s : PipeState σ Θ ω E) : Bool :=
  let called := { s with globals := { s.globals with currentHookEnforcing := callback.2 } }
  match callback.1 with
  | none => true
  | some f => ((f table).eval (pipePort world) called).1.isRaised

namespace PipeStage

/-- `consultEach` with the stack. -/
def consultEachStacked (stage : PipeStage) (world : PipeWorld σ Θ ω E) (table : PipelineTable) :
    List (Option (PipeFunction σ) × Bool) → Stacked (PipeState σ Θ ω E) →
      Stacked (PipeState σ Θ ω E)
  | [], s => s
  | callback :: rest, s =>
      let s' : Stacked (PipeState σ Θ ω E) :=
        ⟨stage.consult world table callback s.state,
          roundTop 0 (pipeRaises world table callback s.state) s.top⟩
      if stage.stops s'.state then s' else stage.consultEachStacked world table rest s'

/-- `run` with the stack. -/
def runStacked (stage : PipeStage) (world : PipeWorld σ Θ ω E) (table : PipelineTable)
    (s : Stacked (PipeState σ Θ ω E)) : Stacked (PipeState σ Θ ω E) :=
  let base := s.top
  let r := stage.consultEachStacked world table (s.state.callbacks stage.kind)
    ⟨stage.enter s.state, s.top⟩
  ⟨stage.exit r.state, base⟩

theorem consultEachStacked_state (stage : PipeStage) (world : PipeWorld σ Θ ω E)
    (table : PipelineTable) (callbacks : List (Option (PipeFunction σ) × Bool))
    (s : Stacked (PipeState σ Θ ω E)) :
    (stage.consultEachStacked world table callbacks s).state =
      stage.consultEach world table callbacks s.state := by
  induction callbacks generalizing s with
  | nil => rfl
  | cons callback rest ih =>
      unfold consultEachStacked consultEach
      dsimp only
      split_ifs
      · rfl
      · exact ih _

theorem runStacked_state (stage : PipeStage) (world : PipeWorld σ Θ ω E) (table : PipelineTable)
    (s : Stacked (PipeState σ Θ ω E)) :
    (stage.runStacked world table s).state = stage.run world table s.state :=
  congrArg stage.exit (stage.consultEachStacked_state world table _ _)

end PipeStage

/-- `rash_hooks_before_pipeline` behind its guards, with the stack. -/
def consultBeforePipelineStacked (world : PipeWorld σ Θ ω E) (left right : Command)
    (s : Stacked (PipeState σ Θ ω E)) : Except JumpCode Status × Stacked (PipeState σ Θ ω E) :=
  match rashCopyExpandSimple world 0 left s.state with
  | (.error jump, s') => (.error jump, ⟨s', s.top⟩)
  | (.ok leftWords, s') =>
      match rashCopyExpandSimple world 1 right s' with
      | (.error jump, s') => (.error jump, ⟨s', s.top⟩)
      | (.ok rightWords, s') =>
          let r := beforePipelineStage.runStacked world (.beforePipeline leftWords rightWords "|")
            ⟨s', s.top⟩
          (.ok (if r.state.globals.stageDenied then executionFailure else 0), r)

/-- `rash_hooks_before_pipeline` with the stack. -/
def rashHooksBeforePipelineStacked (world : PipeWorld σ Θ ω E) (command : Command)
    (s : Stacked (PipeState σ Θ ω E)) : Except JumpCode Status × Stacked (PipeState σ Θ ω E) :=
  if s.state.runningTrap ≠ 0 then (.ok 0, s)
  else
    let s' := s.state.hooksInitialize world .beforePipeline
    if s'.armed .beforePipeline = false then (.ok 0, ⟨s', s.top⟩)
    else
      match command with
      | .connection .pipe left right => consultBeforePipelineStacked world left right ⟨s', s.top⟩
      | _ => (.ok 0, ⟨s', s.top⟩)

end

end Rash
