import Rash.Hooks.LuaStates
import Rash.Lib.Decimal

/-!
# Pipelines and the download seam

`execute_pipeline` as far as the hooks reach into it: `rash_hooks_before_pipeline` with its
expanded copies of the elements, `rash_hooks_try_download_pipe` with the ports
`rash.approve_bytes` and `rash.exec_with_stdin`, and the pipeline behind both.  The word
expansion of subst.c and what the kernel answers are parameters.
-/

namespace Rash

open Decimal Interaction

/-! ## Commands -/

structure WordDesc where
  word : String
  flags : ℕ
  deriving DecidableEq

/-- `enum r_instruction`. -/
inductive RInstruction
  | outputDirection
  | inputDirection
  | inputaDirection
  | appendingTo
  | readingUntil
  | readingString
  | duplicatingInput
  | duplicatingOutput
  | deblankReadingUntil
  | closeThis
  | errAndOut
  | inputOutput
  | outputForce
  | duplicatingInputWord
  | duplicatingOutputWord
  | moveInput
  | moveOutput
  | moveInputWord
  | moveOutputWord
  | appendErrAndOut
  deriving DecidableEq

inductive Redirectee
  | dest (fd : Int)
  | filename (word : WordDesc)
  deriving DecidableEq

structure Redirect where
  redirector : Redirectee
  rflags : ℕ
  flags : ℕ
  instruction : RInstruction
  redirectee : Redirectee
  deriving DecidableEq

/-- `words` begins with the assignments in front of the command. -/
structure SimpleCom where
  words : List WordDesc
  redirects : List Redirect
  deriving DecidableEq

inductive Connector
  | pipe
  | semicolon
  | ampersand
  | andAnd
  | orOr
  deriving DecidableEq

/-- A simple command, two commands with a connector between them, or any other command. -/
inductive Command
  | simple (com : SimpleCom)
  | connection (connector : Connector) (first second : Command)
  | compound
  deriving DecidableEq

/-- The commands between the bars, as the loop of `execute_pipeline` takes them. -/
def Command.elements : Command → List Command
  | .connection .pipe first second => first :: second.elements
  | c => [c]

/-- `NO_PIPE`. -/
def noPipe : Int := -1

/-! ## The download shape -/

/-- `rash_word_basename`. -/
def rashWordBasename (word : String) : Option String :=
  if word = "" then none
  else some (String.ofList (word.toList.reverse.takeWhile (· ≠ '/')).reverse)

def rashIsDownloadProducerName (base : Option String) : Bool :=
  base == some "curl" || base == some "wget"

def rashIsDownloadConsumerName (base : Option String) : Bool :=
  base == some "bash" || base == some "sh" || base == some "rash"

/-- `rash_download_shape_match`, with the two commands it matched. -/
def rashDownloadShapeMatch : Command → Option (SimpleCom × SimpleCom)
  | .connection .pipe (.simple left) (.simple right) =>
      match left.words, right.words with
      | lword :: _, rword :: _ =>
          if rashIsDownloadProducerName (rashWordBasename lword.word) &&
              rashIsDownloadConsumerName (rashWordBasename rword.word) then some (left, right)
          else none
      | _, _ => none
  | _ => none

def rashInstallerArgvMax : ℕ := 64

/-- `rash_word_list_to_argv`. -/
def rashWordListToArgv (words : List WordDesc) : Option (List String) :=
  if words.length ≤ rashInstallerArgvMax then some (words.map (·.word)) else none

def rashInstallerDefaultMaxBytes : ℕ := 2 * 1024 * 1024

/-- `rash_installer_max_bytes`: the variable counts when all of it is a number that fits and
is not 0. -/
def rashInstallerMaxBytes (raw : Option (List Char)) : ℕ :=
  match raw with
  | none => rashInstallerDefaultMaxBytes
  | some raw =>
      let unsigned :=
        match raw.dropWhile isSpace with
        | '-' :: t => t
        | '+' :: t => t
        | t => t
      if unsigned ≠ [] ∧ unsigned.all Char.isDigit ∧ number 10 unsigned ≤ ulongMax ∧
          strtoul 10 raw ≠ 0 then strtoul 10 raw
      else rashInstallerDefaultMaxBytes

/-! ## What the kernel answers -/

abbrev Bytes := List UInt8

/-- What `waitpid` says about a child: `WEXITSTATUS`, or that it did not exit. -/
inductive WaitStatus
  | exited (code : ℕ)
  | killed
  deriving DecidableEq

def WaitStatus.status : WaitStatus → Status
  | .exited code => code
  | .killed => executionFailure

/-- The calls of `rash_capture_argv_stdout`: `pipe`, `fork`, each `read` that returns more
than 0, and `waitpid`. -/
structure CaptureCalls where
  pipe : Bool
  fork : Bool
  reads : List Bytes
  waitpid : Option WaitStatus

/-- The calls of `rash.exec_with_stdin`, with the text `strerror` has for the failed one. -/
structure FeedCalls where
  pipe : Bool
  fork : Bool
  waitpid : Option WaitStatus
  strerror : String

/-- What `rash.approve_bytes` finds: `RASH_APPROVE_BYTES`, and `/dev/tty` with whether the
question can be written to it and the answer read from it. -/
structure ApprovalCalls where
  rashApproveBytes : Option String
  tty : Option (Bool × List Char)

inductive CaptureResult
  | failed
  | oversize
  | captured (bytes : Bytes) (status : Status)
  deriving DecidableEq

/-- The read loop; `none` when the output exceeds `cap`. -/
def captureReads (cap : ℕ) : Bytes → List Bytes → Option Bytes
  | buf, [] => some buf
  | buf, got :: rest =>
      if cap < buf.length + got.length then none else captureReads cap (buf ++ got) rest

def rashCaptureArgvStdout (cap : ℕ) (calls : CaptureCalls) : CaptureResult :=
  if calls.pipe = false ∨ calls.fork = false then .failed
  else
    match captureReads cap [] calls.reads, calls.waitpid with
    | none, _ => .oversize
    | some _, none => .failed
    | some buf, some status => .captured buf status.status

/-! ## The process -/

/-- A word list behind `expand_words`: the argument vector or the jump of a failed
expansion, the assignments in front of the command, the side effects carried out, in order,
and the shell behind them. -/
structure Expansion (Θ E : Type) where
  argv : Except JumpCode (List String)
  assignments : List String
  effects : List E
  shell : Θ

/-- What an element of a pipeline runs with. -/
structure Invocation where
  argv : List String
  assignments : List String
  redirects : List Redirect
  deriving DecidableEq

inductive PipeEvent (E : Type)
  /-- `rash_copy_expand_simple` on an element. -/
  | copied (index : ℕ) (effects : List E)
  /-- The seam takes the pipeline with the unexpanded words of its two commands. -/
  | intercepted (producer consumer : List String)
  /-- The child of `rash_capture_argv_stdout`. -/
  | producer (argv : List String)
  /-- A call of `rash.exec_with_stdin`. -/
  | execWithStdin
  /-- The child of `rash.exec_with_stdin`. -/
  | consumer (argv : List String) (bytes : Bytes)
  /-- The pipeline goes on as it does without the seam. -/
  | ordinary
  /-- A simple command of the pipeline expands its words and runs. -/
  | element (index : ℕ) (run : Except JumpCode Invocation) (effects : List E)
  | printed (line : String)

/-- The table a callback of the two stages is called with. -/
inductive PipelineTable
  | beforePipeline (leftWords rightWords : Option (List String)) (connector : String)
  | downloadPipe (bytes : Bytes) (producerArgv consumerArgv : List String)

/-- What a callback of the two stages can ask for.  An argument that is not of the type the
port checks for is `none`. -/
inductive PipeOp (σ : Type)
  | get
  | set (lua : σ)
  | deny (reason : String)
  | approveBytes (bytes : Option Bytes)
  | execWithStdin (argv : Option (List (Option String))) (bytes : Option Bytes)

def PipeOp.Ans {σ : Type} : PipeOp σ → Type
  | .get => σ
  | .set _ => Unit
  | .deny _ => Except String Unit
  | .approveBytes _ => Except String Bool
  | .execWithStdin _ _ => Except String Status

abbrev PipeFunction (σ : Type) := PipelineTable → Prog (PipeOp σ) PipeOp.Ans LuaResult

/-- The shell around the hooks: what `rash_hooks_initialize` finds when it is called for each
of the two stages, the variables read from the environment, the kernel, `expand_words`, and
`execute_pipeline` behind the seams. -/
structure PipeWorld (σ Θ ω E : Type) where
  hookFiles : HookKind → InitializeCall (PipeFunction σ)
  rashInstallerMaxBytes : ω → Option (List Char)
  capture : List String → ω → CaptureCalls × ω
  approval : ω → ApprovalCalls × ω
  feed : List String → Bytes → ω → FeedCalls × ω
  expandWords : List WordDesc → Θ → Expansion Θ E
  runPipeline : CommandCall Command → Θ → ω → Except JumpCode Status × Θ × ω

structure PipeState (σ Θ ω E : Type) where
  sys : HookSystem (PipeFunction σ)
  lua : σ
  globals : HookGlobals
  downloadPipeHandled : Bool
  downloadPipeExecStatus : Status
  runningTrap : ℕ
  shell : Θ
  world : ω
  events : List (PipeEvent E)

variable {σ Θ ω E : Type}

namespace PipeState

def note (s : PipeState σ Θ ω E) (e : PipeEvent E) : PipeState σ Θ ω E :=
  { s with events := s.events ++ [e] }

def print (s : PipeState σ Θ ω E) (line : String) : PipeState σ Θ ω E :=
  s.note (.printed line)

def setStageDenied (s : PipeState σ Θ ω E) (denied : Bool) : PipeState σ Θ ω E :=
  { s with globals := { s.globals with stageDenied := denied } }

/-- `if (hook_command_depth == 0) rash_hooks_initialize (0)`. -/
def hooksInitialize (world : PipeWorld σ Θ ω E) (kind : HookKind) (s : PipeState σ Θ ω E) :
    PipeState σ Θ ω E :=
  if s.sys.hookCommandDepth = 0 then
    let call := world.hookFiles kind
    { s with sys := (rashHooksInitialize false call.newstate call.env call.disk s.sys).2 }
  else s

/-- `hook_state != 1 || *_count == 0 || rash_lua == 0` does not hold. -/
def armed (s : PipeState σ Θ ω E) (kind : HookKind) : Bool :=
  s.sys.hookState == 1 && decide (0 < (s.sys.hooks.table kind).count) && s.sys.hooks.rashLua.isSome

/-- The callbacks of a kind with their bits, as the loops index them. -/
def callbacks (s : PipeState σ Θ ω E) (kind : HookKind) :
    List (Option (PipeFunction σ) × Bool) :=
  let view := s.sys.hooks.view kind
  (List.range view.2.1).map fun i =>
    (view.1.bind fun functions => functions[i]?, view.2.2[i]?.getD false)

end PipeState

/-! ## The ports -/

def luaArgError (n : ℕ) (expected : String) : String :=
  "bad argument #" ++ toString n ++ " (" ++ expected ++ " expected)"

/-- A byte as the review pane shows it. -/
def reviewedByte (c : UInt8) : String :=
  if c = 10 ∨ c = 9 ∨ (32 ≤ c ∧ c < 127) then String.singleton (Char.ofNat c.toNat)
  else if c = 0x1b then "^["
  else "?"

/-- What `rash.approve_bytes` prints before it asks. -/
def reviewedText (bytes : Bytes) : List String :=
  ["rash: download-to-shell script (" ++ toString bytes.length ++ " bytes):",
    "---- begin reviewed bytes ----",
    String.join (bytes.map reviewedByte),
    "---- end reviewed bytes ----"]

/-- `rash_lua_approve_bytes`, with the lines it prints. -/
def rashLuaApproveBytes (bytes : Bytes) (calls : ApprovalCalls) : Bool × List String :=
  if calls.rashApproveBytes = some "always" then
    (true, [rashHookWarning
      "RASH_APPROVE_BYTES=always (test/dev only): auto-approving buffered script" ""])
  else if calls.rashApproveBytes = some "never" then
    (false, [rashHookWarning
      "RASH_APPROVE_BYTES=never (test/dev only): auto-rejecting buffered script" ""])
  else
    match calls.tty with
    | none =>
        (false, reviewedText bytes ++
          ["rash: no controlling tty; refusing download-to-shell script"])
    | some (writes, response) =>
        (writes && (response.head? == some 'y' || response.head? == some 'Y'),
          reviewedText bytes)

/-- `rash_lua_exec_with_stdin` behind the checks of its arguments. -/
def startConsumer (world : PipeWorld σ Θ ω E) (argv : List String) (bytes : Bytes)
    (s : PipeState σ Θ ω E) : Except String Status × PipeState σ Θ ω E :=
  let calls := (world.feed argv bytes s.world).1
  let after := { s with world := (world.feed argv bytes s.world).2 }
  if calls.pipe = false then
    (.error ("rash.exec_with_stdin pipe failed: " ++ calls.strerror), after)
  else if calls.fork = false then
    (.error ("rash.exec_with_stdin fork failed: " ++ calls.strerror), after)
  else
    match calls.waitpid with
    | none =>
        (.error ("rash.exec_with_stdin waitpid failed: " ++ calls.strerror),
          after.note (.consumer argv bytes))
    | some status =>
        (.ok status.status,
          { after.note (.consumer argv bytes) with
            downloadPipeHandled := true
            downloadPipeExecStatus := status.status })

def rashLuaExecWithStdin (world : PipeWorld σ Θ ω E) (argv : Option (List (Option String)))
    (bytes : Option Bytes) (s : PipeState σ Θ ω E) :
    Except String Status × PipeState σ Θ ω E :=
  match argv, bytes with
  | none, _ => (.error (luaArgError 1 "table"), s)
  | some _, none => (.error (luaArgError 2 "string"), s)
  | some entries, some bytes =>
      if entries.length = 0 ∨ rashInstallerArgvMax < entries.length then
        (.error ("rash.exec_with_stdin expects 1.." ++ toString rashInstallerArgvMax ++
          " argv entries"), s)
      else
        match entries.mapM id with
        | none => (.error (luaArgError 1 "string"), s)
        | some argv => startConsumer world argv bytes s

/-- The ports as a callback of the two stages finds them. -/
def pipePort (world : PipeWorld σ Θ ω E) :
    (o : PipeOp σ) → PipeState σ Θ ω E → o.Ans × PipeState σ Θ ω E
  | .get, s => (s.lua, s)
  | .set lua, s => ((), { s with lua := lua })
  | .deny reason, s =>
      let r := rashLuaDeny reason s.globals
      (r.1, { s with globals := r.2.1, events := s.events ++ r.2.2.map .printed })
  | .approveBytes none, s => (.error (luaArgError 1 "string"), s)
  | .approveBytes (some bytes), s =>
      let r := rashLuaApproveBytes bytes (world.approval s.world).1
      (.ok r.1, { s with
        world := (world.approval s.world).2
        events := s.events ++ r.2.map .printed })
  | .execWithStdin argv bytes, s => rashLuaExecWithStdin world argv bytes (s.note .execWithStdin)

/-! ## The two stages -/

/-- Where the loops over the callbacks of the two stages differ. -/
structure PipeStage where
  kind : HookKind
  enforcingFailed : String
  enforcingDenied : String
  advisoryFailed : String
  advisoryDenies : Bool
  stopsWhenHandled : Bool
  setFlag : Bool → StageFlags → StageFlags

def beforePipelineStage : PipeStage where
  kind := .beforePipeline
  enforcingFailed := "enforcing before_pipeline failed; denying pipeline: "
  enforcingDenied := "rash: denied: enforcing before_pipeline failed"
  advisoryFailed := "advisory before_pipeline failed; continuing: "
  advisoryDenies := false
  stopsWhenHandled := false
  setFlag b flags := { flags with inBeforePipelineStage := b }

def downloadPipeStage : PipeStage where
  kind := .downloadPipe
  enforcingFailed := "enforcing on_download_pipe failed; denying: "
  enforcingDenied := "rash: denied: enforcing on_download_pipe failed"
  advisoryFailed := "advisory on_download_pipe failed; continuing deny: "
  advisoryDenies := true
  stopsWhenHandled := true
  setFlag b flags := { flags with inDownloadPipeStage := b }

/-- The branch behind a failed `rash_lua_pcall`. -/
def PipeStage.failed (stage : PipeStage) (message : Option String) (s : PipeState σ Θ ω E) :
    PipeState σ Θ ω E :=
  if s.globals.currentHookEnforcing then
    ((s.print (rashHookWarning stage.enforcingFailed (errorText message))).print
      stage.enforcingDenied).setStageDenied true
  else if stage.advisoryDenies then
    (s.print (rashHookWarning stage.advisoryFailed (errorText message))).setStageDenied true
  else s.print (rashHookWarning stage.advisoryFailed (errorText message))

/-- One round of the loop: the bit of the callback is installed and the callback called. -/
def PipeStage.consult (stage : PipeStage) (world : PipeWorld σ Θ ω E) (table : PipelineTable)
    (callback : Option (PipeFunction σ) × Bool) (s : PipeState σ Θ ω E) : PipeState σ Θ ω E :=
  let called := { s with globals := { s.globals with currentHookEnforcing := callback.2 } }
  match callback.1 with
  | none => stage.failed (some nilCallError) called
  | some f =>
      match (f table).eval (pipePort world) called with
      | (.raised message, s') => stage.failed message s'
      | (_, s') => s'

def PipeStage.stops (stage : PipeStage) (s : PipeState σ Θ ω E) : Bool :=
  s.globals.stageDenied || (stage.stopsWhenHandled && s.downloadPipeHandled)

def PipeStage.consultEach (stage : PipeStage) (world : PipeWorld σ Θ ω E)
    (table : PipelineTable) :
    List (Option (PipeFunction σ) × Bool) → PipeState σ Θ ω E → PipeState σ Θ ω E
  | [], s => s
  | callback :: rest, s =>
      let s' := stage.consult world table callback s
      if stage.stops s' then s' else stage.consultEach world table rest s'

/-- The globals before the loop. -/
def PipeStage.enter (stage : PipeStage) (s : PipeState σ Θ ω E) : PipeState σ Θ ω E :=
  { s with globals :=
      { s.globals with
        stageDenied := false
        stageDenyReason := ""
        stages := stage.setFlag true s.globals.stages } }

/-- The globals behind the loop. -/
def PipeStage.exit (stage : PipeStage) (s : PipeState σ Θ ω E) : PipeState σ Θ ω E :=
  { s with globals :=
      { s.globals with
        currentHookEnforcing := false
        stages := stage.setFlag false s.globals.stages } }

def PipeStage.run (stage : PipeStage) (world : PipeWorld σ Θ ω E) (table : PipelineTable)
    (s : PipeState σ Θ ω E) : PipeState σ Θ ω E :=
  stage.exit (stage.consultEach world table (s.callbacks stage.kind) (stage.enter s))

/-! ## The seams of `execute_pipeline` -/

/-- `rash_copy_expand_simple`. -/
def rashCopyExpandSimple (world : PipeWorld σ Θ ω E) (index : ℕ) (command : Command)
    (s : PipeState σ Θ ω E) : Except JumpCode (Option (List String)) × PipeState σ Θ ω E :=
  match command with
  | .simple com =>
      let expanded := world.expandWords com.words s.shell
      (expanded.argv.map some,
        { s.note (.copied index expanded.effects) with shell := expanded.shell })
  | _ => (.ok none, s)

/-- Copies of both elements are expanded and the callbacks called with them. -/
def consultBeforePipeline (world : PipeWorld σ Θ ω E) (left right : Command)
    (s : PipeState σ Θ ω E) : Except JumpCode Status × PipeState σ Θ ω E :=
  match rashCopyExpandSimple world 0 left s with
  | (.error jump, s) => (.error jump, s)
  | (.ok leftWords, s) =>
      match rashCopyExpandSimple world 1 right s with
      | (.error jump, s) => (.error jump, s)
      | (.ok rightWords, s) =>
          let s := beforePipelineStage.run world (.beforePipeline leftWords rightWords "|") s
          (.ok (if s.globals.stageDenied then executionFailure else 0), s)

def rashHooksBeforePipeline (world : PipeWorld σ Θ ω E) (command : Command)
    (s : PipeState σ Θ ω E) : Except JumpCode Status × PipeState σ Θ ω E :=
  if s.runningTrap ≠ 0 then (.ok 0, s)
  else if (s.hooksInitialize world .beforePipeline).armed .beforePipeline = false then
    (.ok 0, s.hooksInitialize world .beforePipeline)
  else
    match command with
    | .connection .pipe left right =>
        consultBeforePipeline world left right (s.hooksInitialize world .beforePipeline)
    | _ => (.ok 0, s.hooksInitialize world .beforePipeline)

/-- What `rash_hooks_try_download_pipe` makes of the stage. -/
def downloadVerdict (s : PipeState σ Θ ω E) : Status × PipeState σ Θ ω E :=
  if s.globals.stageDenied then (executionFailure, s)
  else if s.downloadPipeHandled = false then
    (executionFailure, s.print
      "rash: download-to-shell: handler did not exec_with_stdin; refusing fall-through")
  else (s.downloadPipeExecStatus, s)

/-- The handlers are called with what the producer wrote. -/
def consultDownloadPipe (world : PipeWorld σ Θ ω E) (table : PipelineTable)
    (s : PipeState σ Θ ω E) : Status × PipeState σ Θ ω E :=
  downloadVerdict (downloadPipeStage.run world table
    { s with downloadPipeHandled := false, downloadPipeExecStatus := executionFailure })

/-- The producer is run and captured. -/
def captureProducer (world : PipeWorld σ Θ ω E) (producerArgv consumerArgv : List String)
    (s : PipeState σ Θ ω E) : Status × PipeState σ Θ ω E :=
  let calls := (world.capture producerArgv s.world).1
  let ran :=
    { (if calls.pipe && calls.fork then s.note (.producer producerArgv) else s) with
      world := (world.capture producerArgv s.world).2 }
  match rashCaptureArgvStdout (rashInstallerMaxBytes (world.rashInstallerMaxBytes s.world))
      calls with
  | .oversize =>
      (executionFailure, ran.print
        "rash: download-to-shell: producer stdout exceeds RASH_INSTALLER_MAX_BYTES")
  | .failed => (executionFailure, ran.print "rash: download-to-shell: producer capture failed")
  | .captured bytes status =>
      if status ≠ 0 then
        (status, ran.print ("rash: download-to-shell: producer exited " ++ toString status))
      else consultDownloadPipe world (.downloadPipe bytes producerArgv consumerArgv) ran

/-- `rash_hooks_try_download_pipe` behind its guards. -/
def interceptDownload (world : PipeWorld σ Θ ω E) (left right : SimpleCom)
    (s : PipeState σ Θ ω E) : Status × PipeState σ Θ ω E :=
  let s := s.note (.intercepted (left.words.map (·.word)) (right.words.map (·.word)))
  match rashWordListToArgv left.words, rashWordListToArgv right.words with
  | none, _ =>
      (executionFailure, s.print "rash: download-to-shell: cannot build producer argv")
  | some _, none =>
      (executionFailure, s.print "rash: download-to-shell: cannot build consumer argv")
  | some producerArgv, some consumerArgv => captureProducer world producerArgv consumerArgv s

/-- `none` is the return value 0: the pipeline goes on. -/
def rashHooksTryDownloadPipe (world : PipeWorld σ Θ ω E) (call : CommandCall Command)
    (s : PipeState σ Θ ω E) : Option Status × PipeState σ Θ ω E :=
  if call.asynchronous = true ∨ call.pipeIn ≠ noPipe ∨ call.pipeOut ≠ noPipe then (none, s)
  else if s.runningTrap ≠ 0 then (none, s)
  else if (s.hooksInitialize world .downloadPipe).armed .downloadPipe = false then
    (none, s.hooksInitialize world .downloadPipe)
  else
    match rashDownloadShapeMatch call.command with
    | none => (none, s.hooksInitialize world .downloadPipe)
    | some (left, right) =>
        let r := interceptDownload world left right (s.hooksInitialize world .downloadPipe)
        (some r.1, r.2)

/-- What a simple command runs with in a shell of its own. -/
def simpleInvocation (world : PipeWorld σ Θ ω E) (com : SimpleCom) (shell : Θ) :
    Except JumpCode Invocation :=
  let expanded := world.expandWords com.words shell
  expanded.argv.map fun argv => ⟨argv, expanded.assignments, com.redirects⟩

/-- The simple commands of a pipeline expand their words, each in the shell as it was when
the pipeline began. -/
def elementEvents (world : PipeWorld σ Θ ω E) (shell : Θ) (command : Command) :
    List (PipeEvent E) :=
  command.elements.zipIdx.filterMap fun element =>
    match element.1 with
    | .simple com =>
        some (.element element.2 (simpleInvocation world com shell)
          (world.expandWords com.words shell).effects)
    | _ => none

/-- `execute_pipeline` behind the seams. -/
def ordinaryPipeline (world : PipeWorld σ Θ ω E) (call : CommandCall Command)
    (s : PipeState σ Θ ω E) : Except JumpCode Status × PipeState σ Θ ω E :=
  let r := world.runPipeline call s.shell s.world
  (r.1, { s with
    shell := r.2.1
    world := r.2.2
    events := s.events ++ .ordinary :: elementEvents world s.shell call.command })

/-- `execute_pipeline` behind `rash_hooks_before_pipeline`. -/
def pipelineBehindHook (world : PipeWorld σ Θ ω E) (call : CommandCall Command)
    (s : PipeState σ Θ ω E) : Except JumpCode Status × PipeState σ Θ ω E :=
  match rashHooksTryDownloadPipe world call s with
  | (some result, s) => (.ok result, s)
  | (none, s) => ordinaryPipeline world call s

def executePipeline (world : PipeWorld σ Θ ω E) (call : CommandCall Command)
    (s : PipeState σ Θ ω E) : Except JumpCode Status × PipeState σ Θ ω E :=
  match rashHooksBeforePipeline world call.command s with
  | (.error jump, s) => (.error jump, s)
  | (.ok status, s) =>
      if status ≠ 0 then (.ok executionFailure, s) else pipelineBehindHook world call s

end Rash
