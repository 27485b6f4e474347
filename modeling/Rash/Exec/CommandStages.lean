import Rash.Exec.RedirectTargets
import Rash.Lib.Path

/-!
# The stages of a simple command

The seven places of `execute_simple_command` and of what it calls at which callbacks can deny
the command, and the two at which they look at what it did: what each of them is called with,
and what its answer means.
-/

namespace Rash

open Interaction

/-! ## The process -/

/-- The shell globals on the path of a simple command.  `lastCommandSubst` is
`last_command_subst_status` when `last_command_subst_pid` is set. -/
structure ShellGlobals where
  runningTrap : ℕ
  lastCommandExitValue : Status
  lastCommandSubst : Option Status
  posixlyCorrect : Bool
  interactive : Bool
  interactiveShell : Bool
  restricted : Bool
  debuggingMode : Bool
  jobControl : Bool
  autocd : Bool
  noExitOnFailedExec : Bool
  tempenvAssignError : Bool
  specialBuiltinFailed : Bool
  returnCatchFlag : ℕ
  executingBuiltin : Int
  executingCommandBuiltin : Int
  evalnest : Int
  evalnestMax : Int
  sourcenest : Int
  sourcenestMax : Int
  funcnest : Int
  funcnestMax : Int

/-- A row of the table that `rash_push_redirects` builds; `path` has the target with
`exists` and `will_clobber`. -/
structure RedirectRow where
  isInput : Bool
  isClobber : Bool
  word : Option String
  path : Option (String × Bool × Bool)
  deriving DecidableEq

/-- The table a callback is called with. -/
inductive StageTable
  /-- `rash_push_expanded_ctx` -/
  | expanded (words : List String) (line : String) (status : Status)
      (stdout stderr : Option Bytes)
  | dispatch (words : List String) (resolved : String)
  | expand (words : List String) (mode : String)
  | redirects (rows : List RedirectRow)
  /-- `rash_push_named_words_ctx` -/
  | named (name : String) (words : List String)
  | exec (path : String) (argv : List String)
  /-- `rash_push_redirect_ctx` -/
  | redirect (path kind : String) (fd : Int) (fileExists willClobber : Bool)

/-- What a callback returns, as the stages tell it apart: what `lua_isstring` accepts, a table
with its entries from 1 on, anything else, or an error. -/
inductive StageResult
  | string (s : String)
  | table (entries : List (Option String))
  | other
  | raised (message : Option String)
  deriving DecidableEq

inductive StageOp (σ : Type)
  | get
  | set (lua : σ)
  | deny (reason : String)

def StageOp.Ans {σ : Type} : StageOp σ → Type
  | .get => σ
  | .set _ => Unit
  | .deny _ => Except String Unit

abbrev StageFunction (σ : Type) := StageTable → Prog (StageOp σ) StageOp.Ans StageResult

/-- A shell process: the hook system with its Lua heap, the globals, and everything else
(variables, descriptors, jobs, what the kernel keeps for it). -/
structure Shell (σ Θ : Type) where
  sys : HookSystem (StageFunction σ)
  lua : σ
  hooks : HookGlobals
  globals : ShellGlobals
  rest : Θ

/-- `subshell_environment`. -/
structure SubshellEnvironment where
  async : Bool
  paren : Bool
  comsub : Bool
  fork : Bool
  pipe : Bool
  procsub : Bool
  coproc : Bool
  resettrap : Bool
  igntrap : Bool
  deriving DecidableEq

def SubshellEnvironment.none : SubshellEnvironment :=
  ⟨false, false, false, false, false, false, false, false, false⟩

def SubshellEnvironment.isSet (e : SubshellEnvironment) : Bool :=
  e.async || e.paren || e.comsub || e.fork || e.pipe || e.procsub || e.coproc || e.resettrap ||
    e.igntrap

/-- The builtins that the executor knows by their function. -/
inductive Builtin
  | exec
  | returnBuiltin
  | eval
  | source
  | builtin
  | command
  | fg
  | bg
  | other (name : String)
  deriving DecidableEq

/-- What a command starts. -/
inductive Started
  | builtin (b : Builtin)
  | function (name : String)
  | program (path : String) (argv : List String)
  | job
  deriving DecidableEq

/-- What is seen of one simple command. -/
inductive SimpleEvent
  | consulted (kind : HookKind) (index : ℕ) (enforcing : Bool)
  | denied (kind : HookKind)
  | printed (line : String)
  /-- A redirection of the command opened, created or truncated a file. -/
  | opened (redirect : Redirect)
  | started (what : Started)
  /-- A signal that arrived takes the process out of the command. -/
  | signalled
  deriving DecidableEq

/-- The process with what is seen of the command, and the status of the last child that was
made for the command when there is one (`already_making_children`, `last_made_pid`). -/
structure SimpleState (σ Θ : Type) where
  shell : Shell σ Θ
  subshellEnvironment : SubshellEnvironment
  madeChild : Option Status
  events : List SimpleEvent

variable {σ Θ : Type}

namespace SimpleState

def note (s : SimpleState σ Θ) (e : SimpleEvent) : SimpleState σ Θ :=
  { s with events := s.events ++ [e] }

def setHooks (s : SimpleState σ Θ) (hooks : HookGlobals) : SimpleState σ Θ :=
  { s with shell := { s.shell with hooks := hooks } }

def setGlobals (s : SimpleState σ Θ) (globals : ShellGlobals) : SimpleState σ Θ :=
  { s with shell := { s.shell with globals := globals } }

def setLastCommandExitValue (s : SimpleState σ Θ) (status : Status) : SimpleState σ Θ :=
  s.setGlobals { s.shell.globals with lastCommandExitValue := status }

/-- The callbacks of a kind with their bits, as the loops index them. -/
def callbacks (s : SimpleState σ Θ) (kind : HookKind) :
    List (ℕ × Option (StageFunction σ) × Bool) :=
  let view := s.shell.sys.hooks.view kind
  (List.range view.2.1).map fun i =>
    (i, view.1.bind fun functions => functions[i]?, view.2.2[i]?.getD false)

/-- `*_count == 0 || rash_lua == 0` does not hold. -/
def registered (s : SimpleState σ Θ) (kind : HookKind) : Bool :=
  decide (0 < (s.shell.sys.hooks.table kind).count) && s.shell.sys.hooks.rashLua.isSome

end SimpleState

/-! ## One stage -/

/-- The files that `rash_hooks_initialize` reads when a stage calls it. -/
abbrev HookFiles (σ Θ : Type) := HookKind → Θ → InitializeCall (StageFunction σ)

/-- `if (hook_command_depth == 0) rash_hooks_initialize (0)`. -/
def stageInitialize (files : HookFiles σ Θ) (kind : HookKind) (s : SimpleState σ Θ) :
    SimpleState σ Θ :=
  if s.shell.sys.hookCommandDepth = 0 then
    let call := files kind s.shell.rest
    { s with shell := { s.shell with
        sys := (rashHooksInitialize false call.newstate call.env call.disk s.shell.sys).2 } }
  else s

/-- The ports as a callback of a stage finds them. -/
def stagePort : (o : StageOp σ) → SimpleState σ Θ → o.Ans × SimpleState σ Θ
  | .get, s => (s.shell.lua, s)
  | .set lua, s => ((), { s with shell := { s.shell with lua := lua } })
  | .deny reason, s =>
      let r := rashLuaDeny reason s.shell.hooks
      (r.1, { s.setHooks r.2.1 with events := s.events ++ r.2.2.map .printed })

/-- Where the loops over the callbacks that can deny differ: `checksState` says that nothing
is asked inside a trap or unless a set of hooks is loaded. -/
structure CommandStage where
  kind : HookKind
  checksState : Bool
  keepsReason : Bool
  enforcingFailed : String
  enforcingDenied : Option String
  advisoryFailed : String
  setFlag : Bool → StageFlags → StageFlags

namespace CommandStage

/-- The branch behind a failed `rash_lua_pcall`. -/
def failed (stage : CommandStage) (message : Option String) (s : SimpleState σ Θ) :
    SimpleState σ Θ :=
  if s.shell.hooks.currentHookEnforcing then
    let warned := s.note (.printed (rashHookWarning stage.enforcingFailed (errorText message)))
    let denied := warned.setHooks { warned.shell.hooks with stageDenied := true }
    match stage.enforcingDenied with
    | none => denied
    | some line => denied.note (.printed line)
  else s.note (.printed (rashHookWarning stage.advisoryFailed (errorText message)))

/-- One round of the loop: the bit of the callback is installed and the callback called. -/
def consult (stage : CommandStage) (table : StageTable)
    (callback : ℕ × Option (StageFunction σ) × Bool) (s : SimpleState σ Θ) :
    StageResult × SimpleState σ Θ :=
  let called := (s.setHooks
    { s.shell.hooks with currentHookEnforcing := callback.2.2 }).note
      (.consulted stage.kind callback.1 callback.2.2)
  match callback.2.1 with
  | none => (.raised (some nilCallError), stage.failed (some nilCallError) called)
  | some f =>
      match (f table).eval stagePort called with
      | (.raised message, s') => (.raised message, stage.failed message s')
      | (r, s') => (r, s')

/-- The loop; `take` says what a result adds to what the stage has so far. -/
def consultEach {α : Type} (stage : CommandStage) (table : StageTable)
    (take : α → StageResult → α) :
    List (ℕ × Option (StageFunction σ) × Bool) → α → SimpleState σ Θ → α × SimpleState σ Θ
  | [], a, s => (a, s)
  | callback :: rest, a, s =>
      let r := stage.consult table callback s
      if r.2.shell.hooks.stageDenied then (take a r.1, r.2)
      else stage.consultEach table take rest (take a r.1) r.2

/-- The globals before the loop. -/
def enter (stage : CommandStage) (s : SimpleState σ Θ) : SimpleState σ Θ :=
  s.setHooks { s.shell.hooks with
    stageDenied := false
    stageDenyReason := if stage.keepsReason then s.shell.hooks.stageDenyReason else ""
    stages := stage.setFlag true s.shell.hooks.stages }

/-- The globals behind the loop. -/
def exit (stage : CommandStage) (s : SimpleState σ Θ) : SimpleState σ Θ :=
  s.setHooks { s.shell.hooks with
    currentHookEnforcing := false
    stages := stage.setFlag false s.shell.hooks.stages }

/-- The stage behind its guard: whether it denies, and what its callbacks returned. -/
def consultAll {α : Type} (stage : CommandStage) (table : StageTable)
    (take : α → StageResult → α) (a : α) (s : SimpleState σ Θ) : (Bool × α) × SimpleState σ Θ :=
  let r := stage.consultEach table take (s.callbacks stage.kind) a (stage.enter s)
  let s' := stage.exit r.2
  if s'.shell.hooks.stageDenied then ((true, r.1), s'.note (.denied stage.kind))
  else ((false, r.1), s')

/-- The stage with its guard. -/
def run {α : Type} (stage : CommandStage) (files : HookFiles σ Θ) (table : StageTable)
    (take : α → StageResult → α) (a : α) (s : SimpleState σ Θ) : (Bool × α) × SimpleState σ Θ :=
  if stage.checksState = true ∧ s.shell.globals.runningTrap ≠ 0 then ((false, a), s)
  else
    let s := stageInitialize files stage.kind s
    if (stage.checksState = true ∧ s.shell.sys.hookState ≠ 1) ∨
        s.registered stage.kind = false then ((false, a), s)
    else stage.consultAll table take a s

end CommandStage

def wordTexts (words : List WordDesc) : List String := words.map (·.word)

/-- `string_list`. -/
def stringList (words : List WordDesc) : String := " ".intercalate (wordTexts words)

/-! ## The stages that can deny -/

def beforeStage : CommandStage where
  kind := .before
  checksState := true
  keepsReason := false
  enforcingFailed := "enforcing before-hook failed; denying command: "
  enforcingDenied := some "rash: denied: enforcing before-hook failed"
  advisoryFailed := "advisory before-hook failed; continuing: "
  setFlag b flags := { flags with inBeforeStage := b }

def dispatchStage : CommandStage where
  kind := .dispatch
  checksState := false
  keepsReason := false
  enforcingFailed := "enforcing dispatch hook failed; denying command: "
  enforcingDenied := some "rash: denied: enforcing dispatch hook failed"
  advisoryFailed := "advisory dispatch hook failed; continuing: "
  setFlag b flags := { flags with inDispatchStage := b }

def expandStage : CommandStage where
  kind := .expandHook
  checksState := false
  keepsReason := true
  enforcingFailed := "enforcing expand hook failed; denying command: "
  enforcingDenied := none
  advisoryFailed := "advisory expand hook failed; using C expand: "
  setFlag b flags := { flags with inExpandStage := b }

def redirectPolicyStage : CommandStage where
  kind := .redirectPolicy
  checksState := false
  keepsReason := false
  enforcingFailed := "enforcing redirect policy failed; denying redirect: "
  enforcingDenied := some "rash: denied: enforcing redirect policy failed"
  advisoryFailed := "advisory redirect policy failed; applying redirects: "
  setFlag b flags := { flags with inRedirectPolicyStage := b }

def onBuiltinStage : CommandStage where
  kind := .onBuiltin
  checksState := true
  keepsReason := false
  enforcingFailed := "enforcing on_builtin failed; denying builtin: "
  enforcingDenied := some "rash: denied: enforcing on_builtin failed"
  advisoryFailed := "advisory on_builtin failed; continuing: "
  setFlag b flags := { flags with inBuiltinStage := b }

def onFunctionStage : CommandStage where
  kind := .onFunction
  checksState := true
  keepsReason := false
  enforcingFailed := "enforcing on_function failed; denying function: "
  enforcingDenied := some "rash: denied: enforcing on_function failed"
  advisoryFailed := "advisory on_function failed; continuing: "
  setFlag b flags := { flags with inFunctionStage := b }

def onExecStage : CommandStage where
  kind := .onExec
  checksState := true
  keepsReason := false
  enforcingFailed := "enforcing on_exec failed; denying exec: "
  enforcingDenied := some "rash: denied: enforcing on_exec failed"
  advisoryFailed := "advisory on_exec failed; continuing: "
  setFlag b flags := { flags with inExecStage := b }

/-- A stage that takes nothing from what its callbacks return. -/
def CommandStage.ask (stage : CommandStage) (files : HookFiles σ Θ) (table : StageTable)
    (s : SimpleState σ Θ) : Bool × SimpleState σ Θ :=
  let r := stage.run files table (fun u _ => u) () s
  (r.1.1, r.2)

/-- `rash_hooks_before_simple`. -/
def rashHooksBeforeSimple (files : HookFiles σ Θ) (words : List WordDesc) :
    SimpleState σ Θ → Bool × SimpleState σ Θ :=
  beforeStage.ask files (.expanded (wordTexts words) (stringList words) 0 none none)

/-- `rash_hooks_on_builtin`, with words that are not empty. -/
def rashHooksOnBuiltin (files : HookFiles σ Θ) (words : List WordDesc) :
    SimpleState σ Θ → Bool × SimpleState σ Θ :=
  onBuiltinStage.ask files (.named ((wordTexts words).headD "") (wordTexts words))

/-- `rash_hooks_on_function`. -/
def rashHooksOnFunction (files : HookFiles σ Θ) (name : String) (words : List WordDesc) :
    SimpleState σ Θ → Bool × SimpleState σ Θ :=
  onFunctionStage.ask files (.named name (wordTexts words))

/-- `rash_hooks_on_exec`. -/
def rashHooksOnExec (files : HookFiles σ Θ) (path : String) (argv : List String)
    (s : SimpleState σ Θ) : Bool × SimpleState σ Θ :=
  let r := onExecStage.ask files (.exec path argv) s
  (r.1, if r.1 then r.2.setLastCommandExitValue executionFailure else r.2)

/-- `force_disk` and `prefer_builtin`. -/
inductive DispatchChoice
  | asResolved
  | forceDisk
  | preferBuiltin
  deriving DecidableEq

def DispatchChoice.take (choice : DispatchChoice) : StageResult → DispatchChoice
  | .string "disk" => .forceDisk
  | .string "builtin" => .preferBuiltin
  | _ => choice

/-- `rash_hooks_choose_dispatch`. -/
def rashHooksChooseDispatch (files : HookFiles σ Θ) (words : List WordDesc)
    (haveFunction haveBuiltin : Bool) (s : SimpleState σ Θ) :
    (Bool × DispatchChoice) × SimpleState σ Θ :=
  let resolved :=
    if haveFunction then "function" else if haveBuiltin then "builtin" else "command"
  dispatchStage.run files (.dispatch (wordTexts words) resolved) DispatchChoice.take .asResolved
    s

/-- `rash_words_from_lua_table`. -/
def rashWordsFromLuaTable (entries : List (Option String)) : Option (List WordDesc) :=
  match entries with
  | [] => none
  | entries => (entries.mapM id).map fun texts => texts.map makeBareWord

/-- What the loop of `rash_hooks_try_lua_expand` has built so far. -/
def takeWords (useLua : Bool) (built : Option (List WordDesc)) :
    StageResult → Option (List WordDesc)
  | .table entries => if useLua then (rashWordsFromLuaTable entries).or built else built
  | _ => built

/-- The return value of `rash_hooks_try_lua_expand` with the words it hands out. -/
inductive LuaExpansion
  | denied
  | cExpand
  | words (words : List WordDesc)
  deriving DecidableEq

/-- `rash_hooks_try_lua_expand`. -/
def rashHooksTryLuaExpand (files : HookFiles σ Θ) (unexpanded : List WordDesc)
    (s : SimpleState σ Θ) : LuaExpansion × SimpleState σ Θ :=
  let mode := rashExpandMode unexpanded
  let r := expandStage.run files (.expand (wordTexts unexpanded) mode)
    (takeWords (mode == "lua")) none s
  (if r.1.1 then .denied
    else match r.1.2 with
      | none => .cExpand
      | some built => .words built, r.2)

/-- `INPUT_REDIRECT`. -/
def RInstruction.isInput : RInstruction → Bool
  | .inputDirection | .inputaDirection | .inputOutput => true
  | _ => false

/-- `CLOBBERING_REDIRECT`, or `r_output_force`. -/
def RInstruction.isClobber : RInstruction → Bool
  | .outputDirection | .errAndOut | .outputForce => true
  | _ => false

/-- `rash_redirect_will_clobber`. -/
def rashRedirectWillClobber (ri : RInstruction) (fileExists isReg : Bool) : Bool :=
  fileExists && isReg && ri.isClobber

/-- A row of `rash_push_redirects`; `lstat` says whether the file at a path is regular. -/
def redirectRow (lstat : String → Option Bool) (r : Redirect) (path : Option String) :
    RedirectRow where
  isInput := r.instruction.isInput
  isClobber := r.instruction.isClobber
  word :=
    if rashRedirecteeIsWord r.instruction then
      match r.redirectee with
      | .filename word => some word.word
      | .dest _ => none
    else none
  path := path.map fun path =>
    (path, (lstat path).isSome,
      rashRedirectWillClobber r.instruction (lstat path).isSome ((lstat path).getD false))

/-- `rash_push_redirects`. -/
def rashPushRedirects (lstat : String → Option Bool) (redirects : List Redirect)
    (paths : Option (List (Option String))) : List RedirectRow :=
  match paths with
  | none => redirects.map fun r => redirectRow lstat r none
  | some paths => List.zipWith (redirectRow lstat) redirects paths

/-- `rash_hooks_redirect_policy`: whether the redirections are denied, and the list to apply
in their place. -/
def rashHooksRedirectPolicy (files : HookFiles σ Θ) (lstat : Θ → String → Option Bool)
    (vars : Θ → ShellVariables) (redirects : List Redirect) (s : SimpleState σ Θ) :
    (Bool × Option (List Redirect)) × SimpleState σ Θ :=
  if redirects = [] then ((false, none), s)
  else
    let s := stageInitialize files .redirectPolicy s
    if s.registered .redirectPolicy = false then ((false, none), s)
    else
      let preexpanded := rashRedirectsPreexpand (vars s.shell.rest) redirects
      let r := redirectPolicyStage.consultAll
        (.redirects (rashPushRedirects (lstat s.shell.rest) redirects preexpanded.1))
        (fun u _ => u) () s
      ((r.1.1, if r.1.1 then none else preexpanded.2), r.2)

/-! ## The stages that observe -/

/-- A stage whose callbacks cannot deny. -/
structure ObserverStage where
  kind : HookKind
  failed : String

namespace ObserverStage

def consult (stage : ObserverStage) (table : StageTable)
    (callback : ℕ × Option (StageFunction σ) × Bool) (s : SimpleState σ Θ) :
    StageResult × SimpleState σ Θ :=
  let called := (s.setHooks
    { s.shell.hooks with currentHookEnforcing := callback.2.2 }).note
      (.consulted stage.kind callback.1 callback.2.2)
  match callback.2.1 with
  | none =>
      (.raised (some nilCallError), called.note (.printed
        (rashHookWarning stage.failed (errorText (some nilCallError)))))
  | some f =>
      match (f table).eval stagePort called with
      | (.raised message, s') =>
          (.raised message, s'.note (.printed (rashHookWarning stage.failed (errorText message))))
      | (r, s') => (r, s')

def consultEach (stage : ObserverStage) (table : StageTable) :
    List (ℕ × Option (StageFunction σ) × Bool) → SimpleState σ Θ →
      List StageResult × SimpleState σ Θ
  | [], s => ([], s)
  | callback :: rest, s =>
      let r := stage.consult table callback s
      let rs := stage.consultEach table rest r.2
      (r.1 :: rs.1, rs.2)

/-- `hook_state != 1 || *_count == 0 || rash_lua == 0` does not hold. -/
def opens (stage : ObserverStage) (s : SimpleState σ Θ) : Bool :=
  s.shell.sys.hookState == 1 && s.registered stage.kind

/-- The guard of the stage with the state behind it. -/
def wanted (stage : ObserverStage) (files : HookFiles σ Θ) (s : SimpleState σ Θ) :
    Bool × SimpleState σ Θ :=
  if s.shell.globals.runningTrap ≠ 0 then (false, s)
  else (stage.opens (stageInitialize files stage.kind s), stageInitialize files stage.kind s)

/-- The stage behind its guard. -/
def consultAll (stage : ObserverStage) (table : StageTable) (s : SimpleState σ Θ) :
    List StageResult × SimpleState σ Θ :=
  let r := stage.consultEach table (s.callbacks stage.kind) s
  (r.1, r.2.setHooks { r.2.shell.hooks with currentHookEnforcing := false })

end ObserverStage

def afterStage : ObserverStage := ⟨.after, "after-hook failed: "⟩

def stdioBundleStage : ObserverStage := ⟨.stdioBundle, "on_stdio_bundle failed: "⟩

/-- `rash_hooks_after_simple`. -/
def rashHooksAfterSimple (files : HookFiles σ Θ) (words : List WordDesc) (status : Status)
    (stdout stderr : Option Bytes) (s : SimpleState σ Θ) : SimpleState σ Θ :=
  let guarded := afterStage.wanted files s
  if guarded.1 then
    (afterStage.consultAll
      (.expanded (wordTexts words) (stringList words) status stdout stderr) guarded.2).2
  else guarded.2

/-- `rash_hooks_want_stdio_bundle`; `captureFd` is `rash_capture_fd`. -/
def rashHooksWantStdioBundle (files : HookFiles σ Θ) (captureFd : Θ → Option ℕ)
    (s : SimpleState σ Θ) : Bool × SimpleState σ Θ :=
  let guarded := stdioBundleStage.wanted files s
  (guarded.1 && (captureFd guarded.2.shell.rest).isSome, guarded.2)

/-- `rash_hooks_stdio_bundle`, with the texts it writes to the descriptor of
`rash_capture_fd`. -/
def rashHooksStdioBundle (files : HookFiles σ Θ) (captureFd : Θ → Option ℕ)
    (words : List WordDesc) (status : Status) (stdout stderr : Option Bytes)
    (s : SimpleState σ Θ) : List String × SimpleState σ Θ :=
  let guarded := rashHooksWantStdioBundle files captureFd s
  if guarded.1 then
    let r := stdioBundleStage.consultAll
      (.expanded (wordTexts words) (stringList words) status stdout stderr) guarded.2
    (r.1.filterMap fun
      | .string payload => some payload
      | _ => none, r.2)
  else ([], guarded.2)

end Rash
