import Rash.Exec.DownloadPipe

/-!
# The words of an intercepted pipeline

What an intercepted pipeline runs is what its two commands spell, before any expansion.
-/

namespace Rash

open Interaction

variable {σ Θ ω E : Type}

/-- The words of a command as they are written. -/
def SimpleCom.spelled (com : SimpleCom) : List String := com.words.map (·.word)

/-- The handler starts the consumer only with the `consumer_argv` it is called with. -/
def PassesOn (f : PipeFunction σ) : Prop :=
  ∀ bytes producerArgv consumerArgv,
    AsksFor (· = consumerArgv) (f (.downloadPipe bytes producerArgv consumerArgv))

/-- Both children run with what `execute_pipeline` runs the commands with: the seam gives
them an argument vector and nothing else. -/
structure RunsAsOrdinary (world : PipeWorld σ Θ ω E) (left right : SimpleCom) (shell : Θ)
    (added : List (PipeEvent E)) : Prop where
  producer : ∀ argv, .producer argv ∈ added →
    simpleInvocation world left shell = .ok ⟨argv, [], []⟩
  consumer : ∀ argv bytes, .consumer argv bytes ∈ added →
    simpleInvocation world right shell = .ok ⟨argv, [], []⟩

/-- Expansion leaves the words of the command as they are written. -/
def LeavesWords (world : PipeWorld σ Θ ω E) (com : SimpleCom) (shell : Θ) : Prop :=
  (world.expandWords com.words shell).argv = .ok com.spelled

/-- The command has neither assignments nor redirections. -/
structure Plain (world : PipeWorld σ Θ ω E) (com : SimpleCom) (shell : Θ) : Prop where
  assignments : (world.expandWords com.words shell).assignments = []
  redirects : com.redirects = []

theorem Plain.invocation_iff {world : PipeWorld σ Θ ω E} {com : SimpleCom} {shell : Θ}
    (h : Plain world com shell) (argv : List String) :
    simpleInvocation world com shell = .ok ⟨argv, [], []⟩ ↔
      (world.expandWords com.words shell).argv = .ok argv := by
  unfold simpleInvocation
  dsimp only
  rw [h.assignments, h.redirects]
  cases (world.expandWords com.words shell).argv with
  | error jump => simp [Except.map]
  | ok words => simp [Except.map]

theorem runsAsOrdinary_iff {world : PipeWorld σ Θ ω E} {left right : SimpleCom} {shell : Θ}
    {added : List (PipeEvent E)} (hleft : Plain world left shell) (hright : Plain world right shell)
    (hproducers : ∀ argv, .producer argv ∈ added → argv = left.spelled)
    (hconsumers : ∀ argv bytes, .consumer argv bytes ∈ added →
      argv = right.spelled ∧ .producer left.spelled ∈ added)
    (happroved : ∃ argv bytes, .consumer argv bytes ∈ added) :
    RunsAsOrdinary world left right shell added ↔
      LeavesWords world left shell ∧ LeavesWords world right shell := by
  obtain ⟨argv, bytes, hconsumer⟩ := happroved
  obtain ⟨rfl, hproducer⟩ := hconsumers argv bytes hconsumer
  constructor
  · intro h
    exact ⟨(hleft.invocation_iff _).mp (h.producer _ hproducer),
      (hright.invocation_iff _).mp (h.consumer _ _ hconsumer)⟩
  · rintro ⟨hleaves, hleaves'⟩
    constructor
    · intro argv hmem
      rw [hproducers argv hmem]
      exact (hleft.invocation_iff _).mpr hleaves
    · intro argv bytes hmem
      rw [(hconsumers argv bytes hmem).1]
      exact (hright.invocation_iff _).mpr hleaves'

/-- What an intercepted pipeline comes from. -/
theorem tryDownloadPipe_intercepts {world : PipeWorld σ Θ ω E} {call : CommandCall Command}
    {s s' : PipeState σ Θ ω E} {status : Status}
    (hcall : rashHooksTryDownloadPipe world call s = (some status, s')) :
    ∃ left right, rashDownloadShapeMatch call.command = some (left, right) ∧
      interceptDownload world left right (s.hooksInitialize world .downloadPipe) =
        (status, s') := by
  unfold rashHooksTryDownloadPipe at hcall
  split_ifs at hcall with hguard htrap harmed
  all_goals first
    | cases hcall
    | skip
  cases hshape : rashDownloadShapeMatch call.command with
  | none =>
      rw [hshape] at hcall
      cases hcall
  | some shape =>
      rw [hshape] at hcall
      refine ⟨shape.1, shape.2, rfl, ?_⟩
      cases hcall
      rfl

/-- An intercepted pipeline runs the words of its commands as they are written.  For commands
without assignments and redirections these are the argument vectors of the ordinary pipeline
exactly when expansion leaves the words of both as they are. -/
theorem tryDownloadPipe_spelled {world : PipeWorld σ Θ ω E} {call : CommandCall Command}
    {s s' : PipeState σ Θ ω E} {status : Status} {left right : SimpleCom}
    (hcall : rashHooksTryDownloadPipe world call s = (some status, s'))
    (hshape : rashDownloadShapeMatch call.command = some (left, right))
    (hpass : ∀ callback ∈ (s.hooksInitialize world .downloadPipe).callbacks .downloadPipe,
      ∀ f, callback.1 = some f → PassesOn f)
    (hleft : Plain world left s.shell) (hright : Plain world right s.shell) :
    ∃ added, s'.events = s.events ++ added ∧
      (∀ argv, .producer argv ∈ added → argv = left.spelled) ∧
      (∀ argv bytes, .consumer argv bytes ∈ added → argv = right.spelled) ∧
      ((∃ argv bytes, .consumer argv bytes ∈ added) →
        (RunsAsOrdinary world left right s.shell added ↔
          LeavesWords world left s.shell ∧ LeavesWords world right s.shell)) := by
  obtain ⟨left', right', hshape', hrun⟩ := tryDownloadPipe_intercepts hcall
  cases hshape.symm.trans hshape'
  obtain ⟨added, hadded⟩ := interceptDownload_run (P := (· = right.spelled)) world
    fun callback hcallback f hf bytes => hpass callback hcallback f hf bytes left.spelled
      right.spelled
  rw [hrun] at hadded
  have hevents : s'.events =
      s.events ++ .intercepted left.spelled right.spelled :: added := by
    rw [hadded.events, PipeState.note, (hooksInitialize_rest world .downloadPipe s).1,
      List.append_assoc]
    rfl
  have hproducers : ∀ argv, .producer argv ∈ .intercepted left.spelled right.spelled :: added →
      argv = left.spelled := by
    intro argv hmem
    exact hadded.captured argv ((List.mem_cons.mp hmem).resolve_left (by simp))
  have hconsumers : ∀ argv bytes,
      .consumer argv bytes ∈ .intercepted left.spelled right.spelled :: added →
      argv = right.spelled ∧
        .producer left.spelled ∈ .intercepted left.spelled right.spelled :: added := by
    intro argv bytes hmem
    obtain ⟨hargv, hproducer⟩ :=
      hadded.admitted argv bytes ((List.mem_cons.mp hmem).resolve_left (by simp))
    exact ⟨hargv, List.mem_cons_of_mem _ hproducer⟩
  exact ⟨_, hevents, hproducers, fun argv bytes hmem => (hconsumers argv bytes hmem).1,
    runsAsOrdinary_iff hleft hright hproducers hconsumers⟩

/-- A shell in which the only special characters are single quotes. -/
def quotesWorld : PipeWorld Unit Unit Unit Unit :=
  { quietWorld [(.downloadPipe, approvingHandler)] with
    expandWords := fun words _ =>
      ⟨.ok (words.map fun w => String.ofList (w.word.toList.filter (· ≠ Char.ofNat 39))), [], [],
        ()⟩ }

/-- The command with the quotes around its argument. -/
def quotedCurl : SimpleCom := ⟨[⟨"curl", 0⟩, ⟨"'u'", 0⟩], []⟩

def quotedInstaller : CommandCall Command :=
  { installerCall false with
    command := .connection .pipe (.simple quotedCurl) (.simple ⟨[⟨"bash", 0⟩], []⟩) }

/-- `curl` is run with the quotes. -/
theorem tryDownloadPipe_keeps_quotes :
    (rashHooksTryDownloadPipe quotesWorld quotedInstaller (startedShell .initial)).1 = some 0 ∧
      ¬ RunsAsOrdinary quotesWorld quotedCurl ⟨[⟨"bash", 0⟩], []⟩ ()
        (rashHooksTryDownloadPipe quotesWorld quotedInstaller (startedShell .initial)).2.events := by
  refine ⟨by decide, fun h => ?_⟩
  have hproducer : .producer ["curl", "'u'"] ∈
      (rashHooksTryDownloadPipe quotesWorld quotedInstaller (startedShell .initial)).2.events :=
    List.mem_cons_of_mem _ List.mem_cons_self
  exact absurd (h.producer _ hproducer) (by decide)

theorem mapM_id_map_some (argv : List String) : (argv.map some).mapM id = some argv := by
  induction argv with
  | nil => rfl
  | cons arg rest ih => simp [ih]

theorem approvingHandler_passesOn : PassesOn approvingHandler := by
  intro bytes producerArgv consumerArgv
  refine ⟨?_, fun _ => trivial⟩
  intro entries bytes' argv heq hargv
  cases heq
  exact Option.some.inj (hargv.symm.trans (mapM_id_map_some consumerArgv))

/-- `curl u | bash` has no quotes to keep. -/
theorem tryDownloadPipe_spelled_unquoted :
    ∃ added, (rashHooksTryDownloadPipe (quietWorld [(.downloadPipe, approvingHandler)])
        (installerCall false) (startedShell .initial)).2.events =
        (startedShell .initial).events ++ added ∧
      (∀ argv, .producer argv ∈ added → argv = ["curl", "u"]) ∧
      (∀ argv bytes, .consumer argv bytes ∈ added → argv = ["bash"]) ∧
      ((∃ argv bytes, .consumer argv bytes ∈ added) →
        (RunsAsOrdinary (quietWorld [(.downloadPipe, approvingHandler)])
            ⟨[⟨"curl", 0⟩, ⟨"u", 0⟩], []⟩ ⟨[⟨"bash", 0⟩], []⟩ () added ↔
          LeavesWords (quietWorld [(.downloadPipe, approvingHandler)])
              ⟨[⟨"curl", 0⟩, ⟨"u", 0⟩], []⟩ () ∧
            LeavesWords (quietWorld [(.downloadPipe, approvingHandler)])
              ⟨[⟨"bash", 0⟩], []⟩ ())) := by
  have hcall : rashHooksTryDownloadPipe (quietWorld [(.downloadPipe, approvingHandler)])
      (installerCall false) (startedShell .initial) =
    (some 0, (rashHooksTryDownloadPipe (quietWorld [(.downloadPipe, approvingHandler)])
      (installerCall false) (startedShell .initial)).2) := rfl
  refine tryDownloadPipe_spelled hcall rfl ?_ ⟨rfl, rfl⟩ ⟨rfl, rfl⟩
  intro callback hcallback f hf
  have hcallbacks : ((startedShell .initial).hooksInitialize
      (quietWorld [(.downloadPipe, approvingHandler)]) .downloadPipe).callbacks .downloadPipe =
    [(some approvingHandler, true)] := rfl
  rw [hcallbacks, List.mem_singleton] at hcallback
  cases hcallback
  cases hf
  exact approvingHandler_passesOn

end Rash
