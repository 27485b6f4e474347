import Rash.Exec.CommandStages
import Rash.Hooks.ReloadAtomic

/-!
# `execute_simple_command`

The path of one process through the execution of a simple command, with the stages in their
places: the early fork, the expansion of the words, the null command, the dispatch to a
builtin, a function or a program in the shell or in a forked child, and the exits of each.
Word expansion, the redirections themselves, what a builtin or function does and what the
kernel answers are parameters.  A child that only one branch of the code sees, and that never
comes back from it, runs to its end before its parent goes on; the `EXIT` trap that may
replace the status of an exit is left out.
-/

namespace Rash

open Interaction

/-! ## Commands and exits -/

/-- The flags of a simple command that its execution looks at. -/
structure CommandFlags where
  ignoreReturn : Bool
  noFunctions : Bool
  inhibitExpansion : Bool
  noFork : Bool
  stdinRedir : Bool
  commandBuiltin : Bool
  stdpath : Bool
  deriving DecidableEq

def CommandFlags.none : CommandFlags := ⟨false, false, false, false, false, false, false⟩

/-- The arguments of `execute_simple_command`. -/
structure SimpleCall where
  command : SimpleCom
  flags : CommandFlags
  pipeIn : Int
  pipeOut : Int
  async : Bool
  deriving DecidableEq

/-- How a process leaves the executor for good, or for one of the loops at `top_level`. -/
inductive Departure
  | exit (status : Status)
  /-- `execve`, or the shell that `shell_execve` turns into to read a script. -/
  | exec
  | jump (code : JumpCode)
  deriving DecidableEq

inductive Leave
  | departs (d : Departure)
  /-- `longjmp` to the `return_catch` of the function or script around the command. -/
  | returnCatch (value : Status)
  /-- The retry loop of `autocd` prepends `cd` for ever. -/
  | endless
  deriving DecidableEq

/-! ## What is not modelled here -/

/-- What `do_redirections` does: the redirections that it carried out on files, and how it
ends. -/
structure RedirectionRun (σ Θ : Type) where
  opened : List Redirect
  outcome : Except Departure Status
  shell : Shell σ Θ

/-- The rest of the shell and the kernel. -/
structure SimpleWorld (σ Θ : Type) where
  hookFiles : HookFiles σ Θ
  lstat : Θ → String → Option Bool
  shellVariables : Θ → ShellVariables
  captureFd : Θ → Option ℕ
  /-- `QUIT`: what the signals that arrived do. -/
  quit : Shell σ Θ → Except Departure Unit × Shell σ Θ
  runDebugTrap : Shell σ Θ → Except Leave Status × Shell σ Θ
  /-- `make_child`, as the child or as the parent goes on from it. -/
  makeChild : (child async : Bool) → Shell σ Θ → Except Departure Unit × Shell σ Θ
  /-- What a parent goes on with once a child has run to its end. -/
  childRan : (parent child : Shell σ Θ) → Shell σ Θ
  /-- What the program of a child that called `execve` exits with. -/
  programStatus : Shell σ Θ → Status
  doPiping : (pipeIn pipeOut : Int) → Shell σ Θ → Shell σ Θ
  closePipes : (pipeIn pipeOut : Int) → Shell σ Θ → Shell σ Θ
  expandWords : List WordDesc → Shell σ Θ → Except Departure (List WordDesc) × Shell σ Θ
  fdIsBashInput : Int → Shell σ Θ → Bool
  doRedirections : List Redirect → (undoable : Bool) → Shell σ Θ → RedirectionRun σ Θ
  cleanupRedirects : Shell σ Θ → Shell σ Θ
  undoPartialRedirects : Shell σ Θ → Shell σ Θ
  /-- The undo lists are put aside for the builtin or function, or for `exec`. -/
  saveUndoLists : (exec : Bool) → Shell σ Θ → Shell σ Θ
  /-- The undo lists are taken up again behind it and undone. -/
  undoSavedLists : (exec : Bool) → Shell σ Θ → Shell σ Θ
  /-- `exec` without a program keeps the redirections. -/
  keepRedirects : Shell σ Θ → Shell σ Θ
  bindLastarg : String → Shell σ Θ → Shell σ Θ
  xtracePrintWordList : List WordDesc → Shell σ Θ → Shell σ Θ
  /-- The temporary files are opened and stand in for the descriptors 1 and 2. -/
  captureStdio : Shell σ Θ → Bool × Shell σ Θ
  restoreStdio : Shell σ Θ → (Option Bytes × Option Bytes) × Shell σ Θ
  writeFully : ℕ → String → Shell σ Θ → Shell σ Θ
  findSpecialBuiltin : String → Shell σ Θ → Option Builtin
  findShellBuiltin : String → Shell σ Θ → Option Builtin
  findFunction : String → Shell σ Θ → Option String
  runBuiltin : Builtin → List WordDesc → (subshell : Bool) → CommandFlags → Shell σ Θ →
    Except Leave Status × Shell σ Θ
  /-- `execute_function` behind its hook: the `return` of the body is caught there. -/
  runFunction : String → List WordDesc → (subshell : Bool) → CommandFlags → Shell σ Θ →
    Except Departure Status × Shell σ Θ
  autoResume : Shell σ Θ → Option String
  getJobByName : String → (mode : String) → Shell σ Θ → Option ℕ
  startJob : ℕ → Shell σ Θ → Status × Shell σ Θ
  unwindSimpleCommand : Shell σ Θ → Shell σ Θ
  isDirname : String → Shell σ Θ → Bool
  searchForCommand : String → (stdpath : Bool) → Shell σ Θ → Option String × Shell σ Θ
  fullPathname : String → Shell σ Θ → String
  /-- The operands that `internal_getopt` leaves to `exec`, or its status. -/
  execOperands : List WordDesc → Except Status (List String)
  /-- `get_exitstat`, or the status for `--help`. -/
  getExitstat : List WordDesc → Shell σ Θ → Except Status Status
  fileIsdir : String → Shell σ Θ → Bool
  /-- `execve` and what `shell_execve` does behind it: nothing when the process image is
  replaced or the shell starts again, else the status it returns. -/
  execve : String → List String → Shell σ Θ → Option Status × Shell σ Θ
  fifosPending : Shell σ Θ → Bool
  /-- The catch-all behind a failed `exec` finds the file not to be executable. -/
  failsAsNoexec : String → Shell σ Θ → Bool
  restoreTraps : Shell σ Θ → Shell σ Θ
  mergeTemporaryEnv : Shell σ Θ → Shell σ Θ
  /-- What a forked child does before its builtin or function (signals, job control). -/
  enterSubshell : (async : Bool) → Shell σ Θ → Shell σ Θ

variable {σ Θ : Type}

/-- The code on the path of a process. -/
abbrev Code (σ Θ A : Type) := Path Leave (SimpleState σ Θ) A

namespace Code

variable {A : Type}

/-- Code that changes nothing of what is seen of the command. -/
def call (f : Shell σ Θ → Except Leave A × Shell σ Θ) : Code σ Θ A := fun s =>
  ((f s.shell).1, { s with shell := (f s.shell).2 })

def callDeparts (f : Shell σ Θ → Except Departure A × Shell σ Θ) : Code σ Θ A :=
  call fun p => ((f p).1.mapError .departs, (f p).2)

def always (f : Shell σ Θ → A × Shell σ Θ) : Code σ Θ A := call fun p => (.ok (f p).1, (f p).2)

def update (f : Shell σ Θ → Shell σ Θ) : Code σ Θ Unit := always fun p => ((), f p)

def shell (f : Shell σ Θ → A) : Code σ Θ A := Path.reads fun s => f s.shell

def globals (f : ShellGlobals → A) : Code σ Θ A := shell fun p => f p.globals

def setGlobals (f : ShellGlobals → ShellGlobals) : Code σ Θ Unit :=
  update fun p => { p with globals := f p.globals }

def setLastCommandExitValue (status : Status) : Code σ Θ Unit :=
  setGlobals fun g => { g with lastCommandExitValue := status }

def note (e : SimpleEvent) : Code σ Θ Unit := Path.modify fun s => s.note e

def onlyIf (condition : Prop) [Decidable condition] (c : Code σ Θ Unit) : Code σ Θ Unit :=
  if condition then c else pure ()

def depart (d : Departure) : Code σ Θ A := Path.leave (.departs d)

def exit (status : Status) : Code σ Θ A := depart (.exit status)

def jumpToTopLevel (code : JumpCode) : Code σ Θ A := depart (.jump code)

/-- `QUIT`. -/
def quit (w : SimpleWorld σ Θ) : Code σ Θ Unit := fun s =>
  match w.quit s.shell with
  | (.ok _, p) => (.ok (), { s with shell := p })
  | (.error d, p) => (.error (.departs d), { s with shell := p, events := s.events ++ [.signalled] })

/-- `setjmp_nosigs (top_level)` in front of code. -/
def atTopLevel (h : JumpCode → Code σ Θ A) : Code σ Θ A → Code σ Θ A :=
  Path.catching fun
    | .departs (.jump code) => some (h code)
    | _ => none

end Code

open Code

/-! ## Children -/

/-- `WEXITSTATUS`. -/
def exitStatus (status : Status) : Status := status % 256

/-- The status of a process that leaves for good: a jump ends in the loops at `top_level`, with
`last_command_exit_value`. -/
def leaveStatus (w : SimpleWorld σ Θ) (p : Shell σ Θ) : Leave → Status
  | .departs (.exit status) => exitStatus status
  | .departs .exec => exitStatus (w.programStatus p)
  | .departs (.jump code) =>
      exitStatus (readerLoopCaught true code p.globals.lastCommandExitValue).2
  | .returnCatch value => exitStatus value
  | .endless => 0

/-- The status that the parent of a child waits for. -/
def childStatus (w : SimpleWorld σ Θ) (p : Shell σ Θ) : Except Leave Empty → Status
  | .error x => leaveStatus w p x

/-- `make_child` where the child never comes back: it runs to its end, and the parent goes
on. -/
def forkChild (w : SimpleWorld σ Θ) (async : Bool) (environment : SubshellEnvironment)
    (child : Code σ Θ Empty) : Code σ Θ Unit := fun s =>
  match w.makeChild false async s.shell with
  | (.error d, parent) => (.error (.departs d), { s with shell := parent })
  | (.ok _, parent) =>
      let started : SimpleState σ Θ :=
        { s with
          shell := (w.makeChild true async s.shell).2
          subshellEnvironment := environment
          madeChild := none }
      let ended := child started
      (.ok (), { s with
        shell := w.childRan parent ended.2.shell
        madeChild := some (childStatus w ended.2.shell ended.1)
        events := ended.2.events })

/-! ## Redirections -/

def exSherrbase : Status := 256
def exUsage : Status := 258
def exBadsyntax : Status := 257
def exRedirfail : Status := 259
def exBadassign : Status := 260
def exExpfail : Status := 261
def exDiskfallback : Status := 262
def exUtilerror : Status := 263
def exBadusage : Status := 2
def exNotfound : Status := 127
def exNoexec : Status := 126

/-- `do_redirections`, with the files it opened noted. -/
def doRedirections (w : SimpleWorld σ Θ) (redirects : List Redirect) (undoable : Bool) :
    Code σ Θ Status := fun s =>
  let r := w.doRedirections redirects undoable s.shell
  (r.outcome.mapError .departs, { s with
    shell := r.shell
    events := s.events ++ r.opened.map .opened })

/-- `rash_stage_apply_simple_redirects`. -/
def rashStageApplySimpleRedirects (w : SimpleWorld σ Θ) (redirects : List Redirect)
    (undoable : Bool) : Code σ Θ Status := do
  let failed := if undoable then exRedirfail else executionFailure
  let (denied, apply) ←
    Path.step (rashHooksRedirectPolicy w.hookFiles w.lstat w.shellVariables redirects)
  if denied then return failed
  else do
    let r ← doRedirections w (apply.getD redirects) undoable
    if r = 0 then return 0
    else if undoable then do
      update w.undoPartialRedirects
      return exRedirfail
    else return executionFailure

/-! ## The null command -/

def Redirectee.isDest (fd : Int) : Redirectee → Bool
  | .dest d => d == fd
  | .filename _ => false

/-- `forcefork`. -/
def forcefork (w : SimpleWorld σ Θ) (redirects : List Redirect) (p : Shell σ Θ) : Bool :=
  redirects.any fun rd =>
    rd.rflags &&& redirVarassign != 0 || rd.redirector.isDest 0 ||
      match rd.redirector with
      | .dest fd => w.fdIsBashInput fd p
      | .filename _ => false

/-- `execute_null_command`. -/
def executeNullCommand (w : SimpleWorld σ Θ) (redirects : List Redirect)
    (pipeIn pipeOut : Int) (async : Bool) : Code σ Θ Status := do
  let forks ← shell (forcefork w redirects)
  if forks ∨ pipeIn ≠ noPipe ∨ pipeOut ≠ noPipe ∨ async then do
    let piped := pipeIn ≠ noPipe ∨ pipeOut ≠ noPipe
    forkChild w async { SubshellEnvironment.none with async := async, pipe := decide piped } do
      update (w.doPiping pipeIn pipeOut)
      setGlobals fun g => { g with interactive := false }
      atTopLevel (fun _ => exit executionFailure) do
        let r ← doRedirections w redirects false
        if r = 0 then exit executionSuccess else exit executionFailure
    update (w.closePipes pipeIn pipeOut)
    return executionSuccess
  else do
    let r ← doRedirections w redirects true
    update w.cleanupRedirects
    let subst ← globals (·.lastCommandSubst)
    if r ≠ 0 then return executionFailure else return subst.getD executionSuccess

/-! ## Programs -/

/-- `shell_execve`. -/
def shellExecve (w : SimpleWorld σ Θ) (command : String) (args : List String) :
    Code σ Θ Status := do
  let denied ← Path.step (rashHooksOnExec w.hookFiles command args)
  if denied then do
    let last ← globals (·.lastCommandExitValue)
    return if last ≠ 0 then last else executionFailure
  else do
    note (.started (.program command args))
    let failed ← always (w.execve command args)
    match failed with
    | none => depart .exec
    | some status => return status

/-- `absolute_program`. -/
def absoluteProgram (name : String) : Bool := name.toList.contains '/'

/-- `exec_builtin`. -/
def execBuiltin (w : SimpleWorld σ Θ) (list : List WordDesc) : Code σ Θ Status := do
  match w.execOperands list with
  | .error status => return status
  | .ok [] => do
      update w.keepRedirects
      return executionSuccess
  | .ok (name :: args) => do
      let restricted ← globals (·.restricted)
      if restricted then return executionFailure
      else do
        let found ← (if absoluteProgram name then pure (some name) else always
          (w.searchForCommand name false))
        let exitValue ← (match found with
          | none => do
              let isDirectory ← shell (w.fileIsdir name)
              return if isDirectory then exNoexec else exNotfound
          | some command => do
              let command ← shell (w.fullPathname command)
              let status ← shellExecve w command (name :: args)
              let noexec ← shell (w.failsAsNoexec command)
              return if status = exNotfound ∨ status = exNoexec then status
                else if noexec then exNoexec else status)
        failedExec exitValue
where
  /-- The label `failed_exec`. -/
  failedExec (exitValue : Status) : Code σ Θ Status := do
    let environment ← Path.reads fun (s : SimpleState σ Θ) => s.subshellEnvironment
    let interactive ← globals (·.interactive)
    let execfail ← globals (·.noExitOnFailedExec)
    if environment.isSet ∨ (interactive = false ∧ execfail = false) then do
      setLastCommandExitValue exitValue
      exit exitValue
    else do
      update w.restoreTraps
      return exitValue

/-- `NOTFOUND_HOOK`. -/
def notfoundHook : String := "command_not_found_handle"

/-- `execute_function`. -/
def executeFunction (w : SimpleWorld σ Θ) (name : String) (words : List WordDesc)
    (flags : CommandFlags) (subshell : Bool) : Code σ Θ Status := do
  let nested ← globals fun g => decide (0 < g.funcnestMax ∧ g.funcnestMax ≤ g.funcnest)
  if nested then do
    setGlobals fun g => { g with funcnest := 0 }
    jumpToTopLevel .discard
  else do
    let denied ← Path.step (rashHooksOnFunction w.hookFiles name words)
    if denied then return executionFailure
    else do
      note (.started (.function name))
      callDeparts (w.runFunction name words subshell flags)

/-- The child's branch of `execute_disk_command`. -/
def diskCommandChild {A : Type} (w : SimpleWorld σ Θ) (words : List WordDesc)
    (redirects : List Redirect) (command : Option String) (pipeIn pipeOut : Int) :
    Code σ Θ A := do
  update (w.doPiping pipeIn pipeOut)
  let r ← rashStageApplySimpleRedirects w redirects false
  if r ≠ 0 then exit executionFailure
  else
    match command with
    | some command => do
        let status ← shellExecve w command (wordTexts words)
        exit status
    | none => do
        let hookf ← shell (w.findFunction notfoundHook)
        match hookf with
        | none => exit exNotfound
        | some hookf => do
            let status ← executeFunction w hookf (makeBareWord notfoundHook :: words) .none false
            exit status

/-- `execute_disk_command`, with words that are not empty. -/
def executeDiskCommand (w : SimpleWorld σ Θ) (words : List WordDesc)
    (redirects : List Redirect) (pipeIn pipeOut : Int) (async : Bool) (flags : CommandFlags) :
    Code σ Θ Status := do
  let pathname := (wordTexts words).headD ""
  let inPlace := flags.noFork = true ∧ pipeIn = noPipe ∧ pipeOut = noPipe
  let restricted ← globals (·.restricted)
  if restricted = true ∧ absoluteProgram pathname = true then do
    setLastCommandExitValue executionFailure
    if inPlace then exit executionFailure
    else do
      quit w
      update (w.closePipes pipeIn pipeOut)
      return executionFailure
  else do
    let command ← always (w.searchForCommand pathname flags.stdpath)
    quit w
    if inPlace then do
      Path.modify fun s => { s with subshellEnvironment :=
        { s.subshellEnvironment with igntrap := false, fork := true } }
      diskCommandChild w words redirects command pipeIn pipeOut
    else do
      let environment ← Path.reads fun (s : SimpleState σ Θ) => s.subshellEnvironment
      forkChild w async { environment with igntrap := false, fork := true }
        (diskCommandChild w words redirects command pipeIn pipeOut)
      quit w
      update (w.closePipes pipeIn pipeOut)
      return executionSuccess

/-! ## Builtins and functions -/

/-- `builtin_status`. -/
def builtinStatus (result : Status) : Status :=
  if result = exUsage ∨ result = exBadsyntax then exBadusage
  else if result = exRedirfail ∨ result = exBadassign ∨ result = exExpfail ∨
      result = exUtilerror then executionFailure
  else if exSherrbase < result then executionFailure
  else executionSuccess

/-- `return_builtin`. -/
def returnBuiltin (w : SimpleWorld σ Θ) (list : List WordDesc) : Code σ Θ Status := do
  let value ← shell (w.getExitstat list)
  let g ← globals id
  match value with
  | .error status => return status
  | .ok value =>
      if g.interactiveShell = false ∧ g.posixlyCorrect = true ∧
          g.executingCommandBuiltin = 0 ∧ exSherrbase < value then return value
      else if g.returnCatchFlag ≠ 0 then Path.leave (.returnCatch value)
      else return exUsage

/-- `(*builtin) (words->next)`: some builtins lead to other code of the executor. -/
def callBuiltin (w : SimpleWorld σ Θ) (flags : CommandFlags) (subshell : Bool) :
    Builtin → List WordDesc → Code σ Θ Status
  | .exec, list => execBuiltin w list
  | .returnBuiltin, list => returnBuiltin w list
  | .builtin, [] => pure executionSuccess
  | .builtin, command :: list => do
      let function ← shell (w.findShellBuiltin command.word)
      match function with
      | none => return executionFailure
      | some b => callBuiltin w flags subshell b list
  | b, list => call (w.runBuiltin b list subshell flags)

/-- `|= 1`. -/
def orOne (n : Int) : Int := if n % 2 = 0 then n + 1 else n

/-- The counters of nested `eval` and `source`, which the unwind frame of the builtin puts
back. -/
def enterNested (b : Builtin) (subshell : Bool) : Code σ Θ Unit := do
  if subshell then return ()
  else if b = .eval then do
    let nested ← globals fun g => decide (0 < g.evalnestMax ∧ g.evalnestMax ≤ g.evalnest)
    if nested then do
      setGlobals fun g => { g with evalnest := 0 }
      jumpToTopLevel .discard
    else setGlobals fun g => { g with evalnest := g.evalnest + 1 }
  else if b = .source then do
    let nested ← globals fun g =>
      decide (0 < g.sourcenestMax ∧ g.sourcenestMax ≤ g.sourcenest)
    if nested then do
      setGlobals fun g => { g with sourcenest := 0 }
      jumpToTopLevel .discard
    else setGlobals fun g => { g with sourcenest := g.sourcenest + 1 }
  else return ()

/-- `execute_builtin`. -/
def executeBuiltin (w : SimpleWorld σ Θ) (b : Builtin) (words : List WordDesc)
    (flags : CommandFlags) (subshell : Bool) : Code σ Θ Status := do
  let denied ← Path.step (rashHooksOnBuiltin w.hookFiles words)
  if denied then return executionFailure
  else do
    let saved ← globals id
    enterNested b subshell
    setGlobals fun g => { g with
      executingBuiltin := g.executingBuiltin + 1
      executingCommandBuiltin :=
        if b = .command then orOne g.executingCommandBuiltin else g.executingCommandBuiltin }
    note (.started (.builtin b))
    let result ← callBuiltin w flags subshell b words.tail
    setGlobals fun g => { g with
      evalnest := if subshell = false ∧ b = .eval then saved.evalnest else g.evalnest
      sourcenest := if subshell = false ∧ b = .source then saved.sourcenest else g.sourcenest }
    return result

/-- What a simple command runs in the shell. -/
inductive Target
  | builtin (b : Builtin)
  | function (name : String)
  deriving DecidableEq

/-- `execute_builtin_or_function`. -/
def executeBuiltinOrFunction (w : SimpleWorld σ Θ) (words : List WordDesc) (target : Target)
    (redirects : List Redirect) (flags : CommandFlags) : Code σ Θ Status := do
  let r ← rashStageApplySimpleRedirects w redirects true
  if r ≠ 0 then return exRedirfail
  else do
    update (w.saveUndoLists (decide (target = .builtin .exec)))
    let result ← (match target with
      | .builtin b => executeBuiltin w b words flags false
      | .function name => executeFunction w name words flags false)
    update (w.undoSavedLists (decide (target = .builtin .exec)))
    return result

/-- `subshell_exit`. -/
def subshellExit {A : Type} (status : Status) : Code σ Θ A := do
  setLastCommandExitValue status
  exit status

/-- What `execute_subshell_builtin_or_function` does with a builtin, between the places that
its `setjmp` calls note. -/
def subshellBuiltin {A : Type} (w : SimpleWorld σ Θ) (words : List WordDesc) (b : Builtin)
    (async : Bool) (flags : CommandFlags) : Code σ Θ A := do
  let r ← executeBuiltin w b words flags true
  if r = exUsage then subshellExit exBadusage
  else if r = exDiskfallback then do
    let r ← executeDiskCommand w words [] noPipe noPipe async { flags with noFork := true }
    subshellExit r
  else subshellExit r

/-- The switch behind `setjmp_nosigs (top_level)`. -/
def subshellCaught {A : Type} (code : JumpCode) : Code σ Θ A :=
  match code with
  | .exitProg | .exitBltin => do
      let last ← globals (·.lastCommandExitValue)
      subshellExit last
  | _ => subshellExit executionFailure

/-- `setjmp_nosigs (return_catch)` in front of code. -/
def atReturnCatch {A : Type} (h : Status → Code σ Θ A) : Code σ Θ A → Code σ Θ A :=
  Path.catching fun
    | .returnCatch value => some (h value)
    | _ => none

/-- The branch of `execute_subshell_builtin_or_function` for a builtin. -/
def builtinChild {A : Type} (w : SimpleWorld σ Θ) (words : List WordDesc) (b : Builtin)
    (async : Bool) (flags : CommandFlags) : Code σ Θ A := do
  let catchesReturn ← globals fun g => decide (g.returnCatchFlag ≠ 0 ∧ b = .returnBuiltin)
  let builtin := atTopLevel subshellCaught (subshellBuiltin w words b async flags)
  if catchesReturn then atReturnCatch subshellExit builtin else builtin

/-- `execute_subshell_builtin_or_function` up to the status of the redirections. -/
def enterSubshell (w : SimpleWorld σ Θ) (redirects : List Redirect) (target : Target)
    (pipeIn pipeOut : Int) (async : Bool) : Code σ Θ Status := do
  setGlobals fun g => { g with
    interactive := false
    evalnest := if target = .builtin .eval then 0 else g.evalnest
    sourcenest := if target = .builtin .source then 0 else g.sourcenest }
  Path.modify fun s => { s with subshellEnvironment :=
    { s.subshellEnvironment with
      async := s.subshellEnvironment.async || async
      pipe := s.subshellEnvironment.pipe || decide (pipeIn ≠ noPipe ∨ pipeOut ≠ noPipe) } }
  update (w.enterSubshell async)
  update (w.doPiping pipeIn pipeOut)
  rashStageApplySimpleRedirects w redirects false

/-- `execute_subshell_builtin_or_function`. -/
def executeSubshellBuiltinOrFunction {A : Type} (w : SimpleWorld σ Θ) (words : List WordDesc)
    (redirects : List Redirect) (target : Target) (pipeIn pipeOut : Int) (async : Bool)
    (flags : CommandFlags) : Code σ Θ A := do
  let r ← enterSubshell w redirects target pipeIn pipeOut async
  if r ≠ 0 then exit executionFailure
  else
    match target with
    | .builtin b => builtinChild w words b async flags
    | .function name => do
        let r ← executeFunction w name words flags true
        subshellExit r

/-! ## What the words name -/

/-- `ISOPTION`. -/
def isOption (w : WordDesc) (c : Char) : Bool := w.word.toList == ['-', c]

/-- `check_command_builtin` on the words behind `command`: whether `-p` was given, and the
words of the command itself. -/
def checkCommandBuiltin (restricted : Bool) (words : List WordDesc) :
    Option (Bool × List WordDesc) :=
  let behindP : Option (Bool × List WordDesc) :=
    match words with
    | w :: rest =>
        if isOption w 'p' then (if restricted then none else some (true, rest))
        else some (false, words)
    | [] => some (false, [])
  behindP.bind fun (stdpath, words) =>
    let behindOptions : Option (List WordDesc) :=
      match words with
      | w :: rest =>
          if isOption w '-' then some rest
          else if w.word.toList.head? = some '-' then none
          else some words
      | [] => some []
    behindOptions.bind fun words => if words = [] then none else some (stdpath, words)

/-- The loop that strips `command`; each round removes a word, so that there are at most as
many rounds as words. -/
def stripCommand (w : SimpleWorld σ Θ) (p : Shell σ Θ) :
    ℕ → List WordDesc → CommandFlags → List WordDesc × CommandFlags
  | 0, words, flags => (words, flags)
  | rounds + 1, words, flags =>
      match words with
      | [] => (words, flags)
      | name :: args =>
          if w.findShellBuiltin name.word p = some .command then
            match checkCommandBuiltin p.globals.restricted args with
            | none => (words, flags)
            | some (stdpath, words) =>
                stripCommand w p rounds words { flags with
                  commandBuiltin := true
                  noFunctions := true
                  stdpath := flags.stdpath || stdpath }
          else (words, flags)

/-- What `rash_stage_resolve_simple` finds. -/
structure Resolved where
  words : List WordDesc
  flags : CommandFlags
  target : Option Target
  isSpecial : Bool
  deriving DecidableEq

/-- `rash_stage_resolve_simple`. -/
def rashStageResolveSimple (w : SimpleWorld σ Θ) (words : List WordDesc) (flags : CommandFlags)
    (p : Shell σ Θ) : Resolved :=
  let name := (wordTexts words).headD ""
  let posix := p.globals.posixlyCorrect
  let special :=
    if flags.noFunctions = false ∧ posix = true then w.findSpecialBuiltin name p else none
  let function :=
    if flags.noFunctions = false ∧ (posix = false ∨ absoluteProgram name = false) then
      w.findFunction name p
    else none
  match special, function with
  | some b, _ => ⟨words, flags, some (.builtin b), true⟩
  | none, some f => ⟨words, flags, some (.function f), false⟩
  | none, none =>
      let stripped := stripCommand w p words.length words flags
      ⟨stripped.1, stripped.2, none, false⟩

/-! ## Dispatch -/

/-- `struct rash_simple_dispatch`, as far as it is read; `oldCommandBuiltin` is its `-1` or the
saved value. -/
structure SimpleDispatch where
  words : List WordDesc
  command : SimpleCom
  flags : CommandFlags
  alreadyForked : Bool
  pipeIn : Int
  pipeOut : Int
  async : Bool
  target : Option Target
  isSpecial : Bool
  forceDisk : Bool
  oldCommandBuiltin : Int

/-- What `rash_stage_dispatch_simple` hands back. -/
structure DispatchEnd where
  words : List WordDesc
  result : Status
  earlyReturn : Bool
  /-- Whether `builtin` is set, with the two marks to put back. -/
  builtin : Option (Int × Int)

def DispatchEnd.of (words : List WordDesc) (result : Status) : DispatchEnd :=
  ⟨words, result, false, none⟩

/-- What the unwind frame of the command puts back when `command` was stripped. -/
def putBackCommandMark (oldCommandBuiltin : Int) : Code σ Θ Unit :=
  setGlobals fun g => { g with
    executingCommandBuiltin :=
      if oldCommandBuiltin = -1 then g.executingCommandBuiltin else oldCommandBuiltin }

/-- `%job`, or a word that names a stopped job: `none` when the command is neither. -/
def dispatchJob (w : SimpleWorld σ Θ) (d : SimpleDispatch) :
    Code σ Θ (Option DispatchEnd) := do
  let name := (wordTexts d.words).headD ""
  if name.toList.head? = some '%' ∧ d.alreadyForked = false then do
    note (.started .job)
    let result ← call (w.runBuiltin (if d.async then .bg else .fg) d.words false d.flags)
    return some (.of d.words result)
  else do
    let jobControl ← globals (·.jobControl)
    let mode ← shell w.autoResume
    let firstWordQuoted := match d.command.words with
      | [] => false
      | w :: _ => w.flags &&& wQuoted != 0
    match mode with
    | none => return none
    | some mode =>
        if jobControl = true ∧ d.alreadyForked = false ∧ d.async = false ∧
            firstWordQuoted = false ∧ d.words.tail = [] ∧ name ≠ "" ∧
            d.command.redirects = [] ∧ d.pipeIn = noPipe ∧ d.pipeOut = noPipe then do
          let job ← shell (w.getJobByName name
            (if mode = "exact" then "exact"
              else if mode = "substring" then "substring" else "prefix"))
          match job with
          | none => return none
          | some job => do
              update w.unwindSimpleCommand
              putBackCommandMark d.oldCommandBuiltin
              note (.started .job)
              let status ← always (w.startJob job)
              return some ⟨d.words, if status < 0 then executionFailure else status, true, none⟩
        else return none

/-- Behind `execute_builtin_or_function` in the shell itself: `none` sends a builtin to the
disk command. -/
def settleResult (w : SimpleWorld σ Θ) (target : Target) (isSpecial : Bool) (result : Status) :
    Code σ Θ (Option Status) := do
  match target with
  | .function _ =>
      return some (if result = exUsage then exBadusage
        else if exSherrbase < result then builtinStatus result else result)
  | .builtin _ => do
      let g ← globals id
      if (result = exRedirfail ∨ result = exBadassign ∨ result = exExpfail) ∧
          g.posixlyCorrect = true ∧ isSpecial = true ∧ g.interactiveShell = false then do
        setLastCommandExitValue executionFailure
        jumpToTopLevel .errExit
      else if result = exDiskfallback then return none
      else do
        onlyIf (exSherrbase < result ∧ isSpecial = true)
          (setGlobals fun g => { g with specialBuiltinFailed := true })
        onlyIf (g.posixlyCorrect = true ∧ isSpecial = true) (update w.mergeTemporaryEnv)
        return some (if exSherrbase < result then builtinStatus result else result)

/-- `execute_disk_command` at the end of the dispatch. -/
def dispatchDisk (w : SimpleWorld σ Θ) (d : SimpleDispatch) (words : List WordDesc)
    (pipeIn pipeOut : Int) : Code σ Θ DispatchEnd := do
  let pending ← shell w.fifosPending
  let noFork := d.flags.noFork && !(decide (d.alreadyForked = false) && pending)
  let result ← executeDiskCommand w words d.command.redirects pipeIn pipeOut d.async
    { d.flags with noFork := noFork }
  return .of words result

/-- The traps that the child inherited are to be reset. -/
def SimpleState.resetTraps (s : SimpleState σ Θ) : SimpleState σ Θ :=
  { s with subshellEnvironment :=
      { s.subshellEnvironment with resettrap := true, igntrap := false } }

/-- A builtin or function: in the child that this process already is, or in the shell. -/
def dispatchTarget (w : SimpleWorld σ Θ) (d : SimpleDispatch) (words : List WordDesc)
    (target : Target) : Code σ Θ DispatchEnd := do
  let g ← globals id
  let marks : Int × Int :=
    (g.executingBuiltin,
      if d.oldCommandBuiltin = -1 then g.executingCommandBuiltin else d.oldCommandBuiltin)
  let builtin := match target with
    | .builtin _ => some marks
    | .function _ => none
  if d.alreadyForked then do
    Path.modify SimpleState.resetTraps
    executeSubshellBuiltinOrFunction w words d.command.redirects target d.pipeIn d.pipeOut
      d.async d.flags
  else do
    let result ← executeBuiltinOrFunction w words target d.command.redirects d.flags
    let settled ← settleResult w target d.isSpecial result
    match settled with
    | some result => return ⟨words, result, false, builtin⟩
    | none => do
        setGlobals fun g => { g with
          executingBuiltin := marks.1
          executingCommandBuiltin := marks.2 }
        dispatchDisk w d words noPipe noPipe

/-- What the loop of the dispatch runs for the first of `words`. -/
def findTarget (w : SimpleWorld σ Θ) (d : SimpleDispatch) (target : Option Target)
    (words : List WordDesc) (p : Shell σ Θ) : Option Target :=
  if d.forceDisk then none
  else
    match target with
    | some target => some target
    | none => (w.findShellBuiltin ((wordTexts words).headD "") p).map .builtin

/-- What the dispatch comes to run, or that it has ended. -/
inductive Selected
  | ended (result : DispatchEnd)
  | target (words : List WordDesc) (target : Target)
  | disk (words : List WordDesc)

/-- The second round of the loop, on the `cd` that `autocd` puts in front. -/
def selectAutocd (w : SimpleWorld σ Θ) (d : SimpleDispatch) (words : List WordDesc) :
    Code σ Θ Selected := do
  let words := makeBareWord "cd" :: makeBareWord "--" :: words
  update (w.xtracePrintWordList words)
  let function ← shell (w.findFunction "cd")
  quit w
  let target ← shell (findTarget w d (function.map .function) words)
  match target with
  | some target => return .target words target
  | none => do
      let again ← shell (w.isDirname "cd")
      if again then Path.leave .endless else return .disk words

/-- The loop of `rash_stage_dispatch_simple`, with the jobs in front of it. -/
def selectTarget (w : SimpleWorld σ Θ) (d : SimpleDispatch) : Code σ Θ Selected := do
  let job ← dispatchJob w d
  match job with
  | some ended => return .ended ended
  | none => do
      quit w
      let target ← shell (findTarget w d d.target d.words)
      match target with
      | some target => return .target d.words target
      | none => do
          let g ← globals id
          let isDirname ← shell (w.isDirname ((wordTexts d.words).headD ""))
          if g.autocd = true ∧ g.interactive = true ∧ isDirname = true then
            selectAutocd w d d.words
          else return .disk d.words

/-- `rash_stage_dispatch_simple`. -/
def rashStageDispatchSimple (w : SimpleWorld σ Θ) (d : SimpleDispatch) :
    Code σ Θ DispatchEnd := do
  let selected ← selectTarget w d
  match selected with
  | .ended result => return result
  | .target words target => dispatchTarget w d words target
  | .disk words => dispatchDisk w d words d.pipeIn d.pipeOut

/-! ## The command -/

/-- `rash_stage_expand_simple_words`. -/
def rashStageExpandSimpleWords (w : SimpleWorld σ Θ) (words : List WordDesc)
    (flags : CommandFlags) : Code σ Θ (List WordDesc) := do
  if flags.inhibitExpansion then return words
  else do
    let luaExpand ← Path.step (rashHooksTryLuaExpand w.hookFiles words)
    match luaExpand with
    | .words built => return built
    | .cExpand => callDeparts (w.expandWords words)
    | .denied => return []

/-- The stages that see what the command did. -/
def observe (w : SimpleWorld σ Θ) (words : List WordDesc) (result : Status)
    (stdout stderr : Option Bytes) : Code σ Θ Unit := do
  Path.modify (rashHooksAfterSimple w.hookFiles words result stdout stderr)
  let payloads ← Path.step
    (rashHooksStdioBundle w.hookFiles w.captureFd words result stdout stderr)
  let fd ← shell fun p => w.captureFd p.rest
  update fun p => payloads.foldl (fun p payload => w.writeFully (fd.getD 0) payload p) p

/-- Whether the descriptors 1 and 2 are to be captured. -/
def wantsStdio (w : SimpleWorld σ Θ) (s : SimpleState σ Θ) : Bool × SimpleState σ Θ :=
  let capture := afterStage.wanted w.hookFiles s
  if capture.1 then capture else rashHooksWantStdioBundle w.hookFiles w.captureFd capture.2

/-- The assignments in front of a special builtin failed in posix mode. -/
def checkTempenv (isSpecial : Bool) : Code σ Θ Unit := do
  let g ← globals id
  if g.posixlyCorrect = true ∧ g.tempenvAssignError = true then do
    setLastCommandExitValue executionFailure
    if g.interactiveShell = false ∧ isSpecial = true then jumpToTopLevel .forceEof
    else jumpToTopLevel .discard
  else setGlobals fun g => { g with tempenvAssignError := false }

/-- `execute_simple_command` up to the dispatch of its expanded words: what they resolve to,
and `old_command_builtin`. -/
def resolveWords (w : SimpleWorld σ Θ) (words : List WordDesc) (flags : CommandFlags) :
    Code σ Θ (Resolved × Int) := do
  onlyIf (flags.commandBuiltin = false) (update (w.xtracePrintWordList words))
  let resolved ← shell (rashStageResolveSimple w words flags)
  checkTempenv resolved.isSpecial
  let marked ← globals (·.executingCommandBuiltin)
  onlyIf (resolved.flags.commandBuiltin = true)
    (setGlobals fun g => { g with executingCommandBuiltin := orOne g.executingCommandBuiltin })
  quit w
  return (resolved, if resolved.flags.commandBuiltin then marked else -1)

def Resolved.isFunction (r : Resolved) : Bool :=
  match r.target with
  | some (.function _) => true
  | _ => false

def Resolved.isBuiltin (r : Resolved) : Bool :=
  match r.target with
  | some (.builtin _) => true
  | _ => false

/-- The dispatch of words behind the answer of `rash_hooks_choose_dispatch`. -/
def SimpleDispatch.of (call : SimpleCall) (alreadyForked : Bool) (resolved : Resolved)
    (oldCommandBuiltin : Int) (choice : DispatchChoice) : SimpleDispatch where
  words := resolved.words
  command := call.command
  flags := resolved.flags
  alreadyForked := alreadyForked
  pipeIn := if alreadyForked then noPipe else call.pipeIn
  pipeOut := if alreadyForked then noPipe else call.pipeOut
  async := call.async
  target :=
    match choice with
    | .forceDisk => none
    | .preferBuiltin => if resolved.isFunction then none else resolved.target
    | .asResolved => resolved.target
  isSpecial := resolved.isSpecial
  forceDisk := decide (choice = .forceDisk)
  oldCommandBuiltin := oldCommandBuiltin

/-- `rash_hooks_choose_dispatch` and `rash_stage_dispatch_simple`. -/
def dispatchResolved (w : SimpleWorld σ Θ) (call : SimpleCall) (alreadyForked : Bool)
    (resolved : Resolved) (oldCommandBuiltin : Int) : Code σ Θ DispatchEnd := do
  let (denied, choice) ← Path.step
    (rashHooksChooseDispatch w.hookFiles resolved.words resolved.isFunction resolved.isBuiltin)
  if denied then do
    setLastCommandExitValue executionFailure
    return ⟨resolved.words, executionFailure, false,
      if resolved.isBuiltin then some (0, oldCommandBuiltin) else none⟩
  else
    rashStageDispatchSimple w
      (.of call alreadyForked resolved oldCommandBuiltin choice)

/-- `execute_simple_command` behind the dispatch. -/
def finishCommand (w : SimpleWorld σ Θ) (alreadyForked captured : Bool) (lastarg : String)
    (ended : DispatchEnd) : Code σ Θ Status := do
  if ended.earlyReturn then return ended.result
  else do
    update (w.bindLastarg lastarg)
    let (stdout, stderr) ← (if captured then always w.restoreStdio else pure (none, none))
    onlyIf (alreadyForked = false) (observe w ended.words ended.result stdout stderr)
    setGlobals fun g =>
      match ended.builtin with
      | some (executing, command) =>
          { g with executingBuiltin := executing, executingCommandBuiltin := command }
      | none => g
    return ended.result

/-- A command that is ready to be dispatched, or that has ended before. -/
inductive Prepared
  | ended (result : Status)
  | ready (captured : Bool) (resolved : Resolved) (oldCommandBuiltin : Int)

/-- `execute_simple_command` on expanded words, from the stage `before` to the dispatch. -/
def prepareWords (w : SimpleWorld σ Θ) (call : SimpleCall) (alreadyForked : Bool)
    (flags : CommandFlags) (words : List WordDesc) : Code σ Θ Prepared := do
  let denied ← (if alreadyForked then pure false
    else Path.step (rashHooksBeforeSimple w.hookFiles words))
  if denied then do
    setLastCommandExitValue executionFailure
    return .ended executionFailure
  else do
    let wants ← (if alreadyForked = true ∨ call.async = true ∨ call.pipeIn ≠ noPipe ∨
        call.pipeOut ≠ noPipe then pure false else Path.step (wantsStdio w))
    let captured ← (if wants then always w.captureStdio else pure false)
    let (resolved, oldCommandBuiltin) ← resolveWords w words flags
    return .ready captured resolved oldCommandBuiltin

/-- How `execute_simple_command` begins. -/
inductive SimpleStart
  | returns (status : Status)
  | goesOn (alreadyForked : Bool)
  deriving DecidableEq

/-- The child of the early fork. -/
def startChild (w : SimpleWorld σ Θ) (call : SimpleCall) : Code σ Θ Unit := do
  callDeparts (w.makeChild true call.async)
  Path.modify fun s => { s with
    subshellEnvironment := { SubshellEnvironment.none with
      fork := true
      igntrap := true
      pipe := decide (call.pipeIn ≠ noPipe ∨ call.pipeOut ≠ noPipe)
      async := call.async }
    madeChild := none }
  update (w.doPiping call.pipeIn call.pipeOut)

/-- `execute_simple_command` up to the expansion of the words; `child` says which process is
followed behind the early fork. -/
def startSimple (w : SimpleWorld σ Θ) (child : Bool) (call : SimpleCall) :
    Code σ Θ SimpleStart := do
  setGlobals fun g => { g with specialBuiltinFailed := false }
  quit w
  let result ← Code.call w.runDebugTrap
  let debugging ← globals (·.debuggingMode)
  if debugging = true ∧ result ≠ executionSuccess then return .returns executionSuccess
  else do
    setGlobals fun g => { g with lastCommandSubst := none }
    let piped := call.pipeIn ≠ noPipe ∨ call.pipeOut ≠ noPipe
    let restarts := ((wordTexts call.command.words).headD "").toList.head? = some '%'
    if piped ∨ (call.async = true ∧ ¬ restarts) then
      if child then do
        startChild w call
        return .goesOn true
      else do
        callDeparts (w.makeChild false call.async)
        let last ← globals (·.lastCommandExitValue)
        update (w.closePipes call.pipeIn call.pipeOut)
        return .returns (if call.pipeOut ≠ noPipe then last else result)
    else return .goesOn false

/-- `execute_simple_command` from its early fork to the dispatch. -/
def prepareCommand (w : SimpleWorld σ Θ) (call : SimpleCall) (alreadyForked : Bool) :
    Code σ Θ Prepared := do
  quit w
  let flags := { call.flags with noFork := call.flags.noFork || alreadyForked }
  let words ← rashStageExpandSimpleWords w call.command.words flags
  if words = [] then do
    let result ← executeNullCommand w call.command.redirects
      (if alreadyForked then noPipe else call.pipeIn)
      (if alreadyForked then noPipe else call.pipeOut) (call.async && !alreadyForked)
    if alreadyForked then exit result
    else do
      update (w.bindLastarg "")
      return .ended result
  else prepareWords w call alreadyForked flags words

/-- `execute_simple_command` behind its early fork. -/
def executeForked (w : SimpleWorld σ Θ) (call : SimpleCall) (alreadyForked : Bool) :
    Code σ Θ Status := do
  let prepared ← prepareCommand w call alreadyForked
  match prepared with
  | .ended result => return result
  | .ready captured resolved oldCommandBuiltin => do
      let ended ← dispatchResolved w call alreadyForked resolved oldCommandBuiltin
      finishCommand w alreadyForked captured ((wordTexts resolved.words).getLastD "") ended

/-- `execute_simple_command`. -/
def executeSimpleCommand (w : SimpleWorld σ Θ) (child : Bool) (call : SimpleCall) :
    Code σ Θ Status := do
  let start ← startSimple w child call
  match start with
  | .returns status => return status
  | .goesOn alreadyForked => executeForked w call alreadyForked

/-! ## A machine on which little can go wrong -/

/-- Every call succeeds, words expand to themselves, every name but that of a builtin is a
program, and the one file of the hook directory makes these registrations. -/
def plainMachine (registers : List (HookKind × StageFunction Unit)) : SimpleWorld Unit Unit where
  hookFiles _ _ :=
    ⟨true, ⟨some "/hooks", none, none, none⟩, fun _ => oneHook ⟨true, registers, true⟩⟩
  lstat _ _ := none
  shellVariables _ _ := none
  captureFd _ := none
  quit p := (.ok (), p)
  runDebugTrap p := (.ok executionSuccess, p)
  makeChild _ _ p := (.ok (), p)
  childRan parent _ := parent
  programStatus _ := executionSuccess
  doPiping _ _ p := p
  closePipes _ _ p := p
  expandWords words p := (.ok words, p)
  fdIsBashInput _ _ := false
  doRedirections redirects _ p := ⟨redirects, .ok executionSuccess, p⟩
  cleanupRedirects p := p
  undoPartialRedirects p := p
  saveUndoLists _ p := p
  undoSavedLists _ p := p
  keepRedirects p := p
  bindLastarg _ p := p
  xtracePrintWordList _ p := p
  captureStdio p := (true, p)
  restoreStdio p := ((none, none), p)
  writeFully _ _ p := p
  findSpecialBuiltin name _ := if name = "return" then some .returnBuiltin else none
  findShellBuiltin name _ := if name = "return" then some .returnBuiltin
    else if name = "eval" then some .eval else none
  findFunction _ _ := none
  runBuiltin _ _ _ _ p := (.ok executionSuccess, p)
  runFunction _ _ _ _ p := (.ok executionSuccess, p)
  autoResume _ := none
  getJobByName _ _ _ := none
  startJob _ p := (executionSuccess, p)
  unwindSimpleCommand p := p
  isDirname _ _ := false
  searchForCommand name _ p := (some name, p)
  fullPathname name _ := name
  execOperands words := .ok (wordTexts words)
  getExitstat _ _ := .ok executionSuccess
  fileIsdir _ _ := false
  execve _ _ p := (none, p)
  fifosPending _ := false
  failsAsNoexec _ _ := false
  restoreTraps p := p
  mergeTemporaryEnv p := p
  enterSubshell _ p := p

/-- A shell that reads a script, before its first command. -/
def ShellGlobals.initial : ShellGlobals where
  runningTrap := 0
  lastCommandExitValue := executionSuccess
  lastCommandSubst := none
  posixlyCorrect := false
  interactive := false
  interactiveShell := false
  restricted := false
  debuggingMode := false
  jobControl := false
  autocd := false
  noExitOnFailedExec := false
  tempenvAssignError := false
  specialBuiltinFailed := false
  returnCatchFlag := 0
  executingBuiltin := 0
  executingCommandBuiltin := 0
  evalnest := 0
  evalnestMax := 0
  sourcenest := 0
  sourcenestMax := 0
  funcnest := 0
  funcnestMax := 0

def freshShell : SimpleState Unit Unit :=
  ⟨⟨.initial, (), .initial, .initial, ()⟩, .none, none, []⟩

/-- Words without redirections, in the foreground or in front of an `&`. -/
def plainCall (words : List String) (async : Bool) : SimpleCall :=
  ⟨⟨words.map fun word => ⟨word, 0⟩, []⟩, .none, noPipe, noPipe, async⟩

def denyingCallback : StageFunction Unit := fun _ => .op (.deny "no") fun _ => .ret .other

end Rash
