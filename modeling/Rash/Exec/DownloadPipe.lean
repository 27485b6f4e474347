import Rash.Exec.PipelineCallbacks
import Rash.Hooks.OneShot

/-!
# The download seam fails closed

A foreground pipeline of the download shape is never run as an ordinary pipeline while a
handler is registered: its producer is run at most once, and it succeeds only behind a
child of `rash.exec_with_stdin`.  A pipeline that ends in `&` goes past the seam.
-/

namespace Rash

open Interaction Machine

variable {σ Θ ω E : Type}

/-! ## When a registered handler is armed -/

/-- A download handler is registered only in a hook set that `hook_state` 1 admits. -/
def Armed {F : Type} (g : HookSystem F) : Prop :=
  (g.hookState = 1 → g.hooks.rashLua.isSome = true) ∧
    (0 < (g.hooks.table .downloadPipe).count → g.hookState = 1)

/-- A callback registers a download handler only in a set that has `hook_state` 1. -/
def RegistersArmed {F : Type} (g : HookSystem F) : SessionAction F → Prop
  | .initializeHooks _ _ _ => True
  | .register r => r.1 = .downloadPipe → g.hookState = 1

theorem armed_load {F : Type} {newstate : Bool} {disk : Disk F} {directory : String}
    {allow enforce : Bool} {g : HookSystem F} (hg : Armed g) :
    Armed (rashHooksLoadConfiguration newstate disk directory allow enforce g).2 := by
  cases hload : (rashHooksLoadConfiguration newstate disk directory allow enforce g).1 with
  | true =>
      obtain ⟨hhooks, hstate, -⟩ := adopted_hooks hload
      obtain ⟨L, hlua, -⟩ := (adopted_ready hload).lua
      rw [← hhooks] at hstate
      constructor
      · intro _
        rw [hlua]
        rfl
      · intro hcount
        have hobserved := (haveAnyObservers_iff (rashHooksLoadConfiguration newstate disk
          directory allow enforce g).2.hooks).mpr ⟨.downloadPipe, by decide, hcount⟩
        rw [hstate, if_pos hobserved]
  | false =>
      obtain ⟨manifest, lines, heq⟩ := load_rejects hload
      have hlua : (rashHooksLoadConfiguration newstate disk directory allow enforce
          g).2.hooks.rashLua = g.hooks.rashLua := by rw [rejected_hooks hload]; rfl
      have hstate : (rashHooksLoadConfiguration newstate disk directory allow enforce
          g).2.hookState = if g.hooks.rashLua.isSome then g.hookState else -1 := by rw [heq]; rfl
      have htable : (rashHooksLoadConfiguration newstate disk directory allow enforce
          g).2.hooks.table .downloadPipe = g.hooks.table .downloadPipe := by
        rw [rejected_hooks hload]
        simp [HookSet.restore, savedKinds]
      constructor
      · intro hone
        rw [hlua]
        by_contra hnone
        rw [hstate, if_neg hnone] at hone
        exact absurd hone (by decide)
      · intro hcount
        rw [htable] at hcount
        have hone := hg.2 hcount
        rw [hstate, if_pos (hg.1 hone), hone]

theorem armed_initialize {F : Type} (newstate : Bool) (env : HookEnvironment) (disk : Disk F)
    {g : HookSystem F} (hg : Armed g) :
    Armed (rashHooksInitialize false newstate env disk g).2 := by
  unfold rashHooksInitialize
  cases env.rashHookDir with
  | none => exact hg
  | some directory =>
      dsimp only
      split_ifs
      all_goals first
        | exact hg
        | exact armed_load hg

theorem armed_register {F : Type} {r : HookKind × F} {g : HookSystem F} (hg : Armed g)
    (hr : r.1 = .downloadPipe → g.hookState = 1) : Armed (g.register r) := by
  constructor
  · intro hone
    have hsome := hg.1 hone
    simpa [HookSystem.register, HookSet.rashRegisterCallback] using hsome
  · intro hcount
    by_cases hkind : r.1 = .downloadPipe
    · exact hr hkind
    · apply hg.2
      have hne : HookKind.downloadPipe ≠ r.1 := fun heq => hkind heq.symm
      simpa [HookSystem.register, HookSet.rashRegisterCallback, HookSet.setTable, hne] using hcount

/-- Over a session: every set that is reached is armed. -/
theorem armed_session {F : Type} {path : List (SessionAction F)} {g : HookSystem F}
    (hmeets : PathMeets sessionStep RegistersArmed .initial path)
    (hrun : runPath sessionStep .initial path = some g) : Armed g := by
  apply path_invariant _ _ hmeets hrun
  · intro s a s' hs hcond hstep
    cases a with
    | initializeHooks newstate env disk =>
        cases hstep
        exact armed_initialize newstate env disk hs
    | register r =>
        cases hstep
        exact armed_register hs hcond
  · constructor
    · intro hone
      simp [HookSystem.initial] at hone
    · intro hcount
      simp [HookSystem.initial, HookSet.cleared, HookTable.cleared] at hcount

theorem armed_hooksInitialize (world : PipeWorld σ Θ ω E) (kind : HookKind)
    {s : PipeState σ Θ ω E} (hs : Armed s.sys) : Armed (s.hooksInitialize world kind).sys := by
  unfold PipeState.hooksInitialize
  split_ifs
  · exact armed_initialize _ _ _ hs
  · exact hs

theorem Armed.handlers {s : PipeState σ Θ ω E} (hs : Armed s.sys)
    (hcount : 0 < (s.sys.hooks.table .downloadPipe).count) : s.armed .downloadPipe = true := by
  have hone := hs.2 hcount
  simp [PipeState.armed, hone, hcount, hs.1 hone]

/-! ## The seam -/

/-- What is asked of the events of a pipeline of the download shape and of its result. -/
structure SeamFailsClosed (added : List (PipeEvent E)) (result : Except JumpCode Status) :
    Prop where
  producer : added.countP PipeEvent.isProducer ≤ 1
  ordinary : added.countP PipeEvent.isOrdinary = 0
  consumer : added.countP PipeEvent.isConsumer ≤ added.countP PipeEvent.isExecWithStdin
  status : result = .ok executionSuccess → ∃ before producerArgv consumerArgv after,
    added = before ++ .intercepted producerArgv consumerArgv :: after ∧
      ∃ e ∈ after, e.isConsumer = true

theorem failure_ne_success : executionFailure ≠ executionSuccess := by decide

/-- What the seam leaves behind. -/
def PipeEvent.ofSeam : PipeEvent E → Bool
  | .producer _ => true
  | e => e.ofCallback

/-- From `s` to `s'` the seam ran the producer at most once and came to `status`. -/
structure SeamRun (P : List String → Prop) (producerArgv : List String) (s s' : PipeState σ Θ ω E)
    (added : List (PipeEvent E)) (status : Status) : Prop where
  sys : s'.sys = s.sys
  events : s'.events = s.events ++ added
  ofSeam : ∀ e ∈ added, e.ofSeam = true
  producer : added.countP PipeEvent.isProducer ≤ 1
  asked : added.countP PipeEvent.isConsumer ≤ added.countP PipeEvent.isExecWithStdin
  captured : ∀ argv, .producer argv ∈ added → argv = producerArgv
  admitted : ∀ argv bytes, .consumer argv bytes ∈ added → P argv ∧ .producer producerArgv ∈ added
  started : status = executionSuccess → ∃ e ∈ added, e.isConsumer = true

namespace SeamRun

variable {P : List String → Prop} {producerArgv : List String} {s s₁ s₂ : PipeState σ Θ ω E}
  {status : Status}

/-- The seam gives up before the producer runs. -/
theorem of_line {line : String} (hsys : s₂.sys = s.sys)
    (hevents : s₂.events = s.events ++ [.printed line]) (hstatus : status ≠ executionSuccess) :
    SeamRun P producerArgv s s₂ [.printed line] status :=
  ⟨hsys, hevents, by simp [PipeEvent.ofSeam, PipeEvent.ofCallback],
    by simp [PipeEvent.isProducer], by simp [PipeEvent.isConsumer], by simp, by simp,
    fun h => absurd h hstatus⟩

theorem ordinary {added : List (PipeEvent E)} (h : SeamRun P producerArgv s s₁ added status) :
    added.countP PipeEvent.isOrdinary = 0 := by
  apply List.countP_eq_zero.mpr
  intro e he
  have hof := h.ofSeam e he
  cases e <;> simp_all [PipeEvent.ofSeam, PipeEvent.ofCallback, PipeEvent.isOrdinary]

/-- Callbacks run behind the producer. -/
theorem of_producer {added : List (PipeEvent E)} (h : Consulted P s₁ s₂ added)
    (hsys : s₁.sys = s.sys) (hevents : s₁.events = s.events ++ [.producer producerArgv])
    (hstarted : status = executionSuccess → ∃ e ∈ added, e.isConsumer = true) :
    SeamRun P producerArgv s s₂ (.producer producerArgv :: added) status := by
  have hproducer := (countP_ofCallback h.ofCallback).1
  have hasked := h.asked
  refine ⟨h.sys.trans hsys, ?_, ?_, ?_, ?_, ?_, ?_, ?_⟩
  · rw [h.events, hevents, List.append_assoc]
    rfl
  · intro e he
    rcases List.mem_cons.mp he with rfl | he
    · rfl
    · have hof := h.ofCallback e he
      cases e <;> simp_all [PipeEvent.ofSeam, PipeEvent.ofCallback]
  · rw [List.countP_cons, hproducer]
    simp [PipeEvent.isProducer]
  · rw [List.countP_cons, List.countP_cons]
    simpa [PipeEvent.isConsumer, PipeEvent.isExecWithStdin] using hasked
  · intro argv hmem
    rcases List.mem_cons.mp hmem with heq | hmem
    · cases heq
      rfl
    · cases h.ofCallback _ hmem
  · intro argv bytes hmem
    rcases List.mem_cons.mp hmem with heq | hmem
    · cases heq
    · exact ⟨h.admitted argv bytes hmem, List.mem_cons_self⟩
  · intro hstatus
    obtain ⟨e, he, hconsumer⟩ := hstarted hstatus
    exact ⟨e, List.mem_cons_of_mem _ he, hconsumer⟩

end SeamRun

section

variable {P : List String → Prop} (world : PipeWorld σ Θ ω E)

theorem consultDownloadPipe_consulted {table : PipelineTable} {s : PipeState σ Θ ω E}
    (hcallbacks : ∀ callback ∈ s.callbacks .downloadPipe, ∀ f, callback.1 = some f →
      AsksFor P (f table)) :
    ∃ added, Consulted P s (consultDownloadPipe world table s).2 added ∧
      ((consultDownloadPipe world table s).1 = executionSuccess →
        ∃ e ∈ added, e.isConsumer = true) := by
  obtain ⟨s₀, hs₀⟩ : ∃ s₀ : PipeState σ Θ ω E, s₀ =
      { s with downloadPipeHandled := false, downloadPipeExecStatus := executionFailure } :=
    ⟨_, rfl⟩
  have hcallbacks₀ : ∀ callback ∈ s₀.callbacks downloadPipeStage.kind, ∀ f,
      callback.1 = some f → AsksFor P (f table) := by
    rw [hs₀]
    exact hcallbacks
  obtain ⟨added, hadded⟩ := stage_consulted world downloadPipeStage hcallbacks₀
  -- the flag is down when the loop starts, so only a consumer of the loop raises it
  have hraised : (downloadPipeStage.run world table s₀).downloadPipeHandled = true →
      ∃ e ∈ added, e.isConsumer = true := by
    intro hhandled
    rcases hadded.handled hhandled with hbefore | hstarted
    · rw [hs₀] at hbefore
      cases hbefore
    · exact hstarted
  have hreset : Consulted P s s₀ [] ∨ s.downloadPipeHandled = true := by
    cases hhandled : s.downloadPipeHandled with
    | true => exact Or.inr rfl
    | false =>
        refine Or.inl ?_
        rw [hs₀]
        exact .of_silent rfl rfl rfl rfl hhandled.symm
  have hfrom : ∀ {s' more}, Consulted P s₀ s' more → Consulted P s s' more := by
    intro s' more hrun
    rcases hreset with hreset | hhandled
    · exact hreset.trans hrun
    · have hsys : s₀.sys = s.sys := by rw [hs₀]
      have hshell : s₀.shell = s.shell := by rw [hs₀]
      have htrap : s₀.runningTrap = s.runningTrap := by rw [hs₀]
      have hevents : s₀.events = s.events := by rw [hs₀]
      exact ⟨hrun.sys.trans hsys, hrun.shell.trans hshell, hrun.runningTrap.trans htrap,
        hevents ▸ hrun.events, hrun.ofCallback, hrun.asked, hrun.admitted,
        fun _ => Or.inl hhandled⟩
  unfold consultDownloadPipe
  rw [← hs₀]
  by_cases hdenied : (downloadPipeStage.run world table s₀).globals.stageDenied = true
  · rw [downloadVerdict, if_pos hdenied]
    exact ⟨added, hfrom hadded, fun h => absurd h failure_ne_success⟩
  · rw [downloadVerdict, if_neg hdenied]
    split_ifs with hhandled
    · obtain ⟨more, hmore⟩ := consulted_print (P := P) (downloadPipeStage.run world table s₀)
        "rash: download-to-shell: handler did not exec_with_stdin; refusing fall-through"
      exact ⟨_, hfrom (hadded.trans hmore), fun h => absurd h failure_ne_success⟩
    · exact ⟨added, hfrom hadded, fun _ => hraised (by simpa using hhandled)⟩

theorem rashCaptureArgvStdout_unforked {cap : ℕ} {calls : CaptureCalls}
    (h : (calls.pipe && calls.fork) = false) : rashCaptureArgvStdout cap calls = .failed := by
  rw [rashCaptureArgvStdout, if_pos]
  exact Bool.and_eq_false_iff.mp h

theorem captureProducer_run {producerArgv consumerArgv : List String} {s : PipeState σ Θ ω E}
    (hcallbacks : ∀ callback ∈ s.callbacks .downloadPipe, ∀ f, callback.1 = some f →
      ∀ bytes, AsksFor P (f (.downloadPipe bytes producerArgv consumerArgv))) :
    ∃ added, SeamRun P producerArgv s (captureProducer world producerArgv consumerArgv s).2 added
      (captureProducer world producerArgv consumerArgv s).1 := by
  unfold captureProducer
  dsimp only
  by_cases hforked : ((world.capture producerArgv s.world).1.pipe &&
      (world.capture producerArgv s.world).1.fork) = true
  · rw [if_pos hforked]
    obtain ⟨ran, hran⟩ : ∃ ran : PipeState σ Θ ω E, ran =
        { s.note (.producer producerArgv) with world := (world.capture producerArgv s.world).2 } :=
      ⟨_, rfl⟩
    have hsys : ran.sys = s.sys := by rw [hran]; rfl
    have hevents : ran.events = s.events ++ [.producer producerArgv] := by rw [hran]; rfl
    have hfails : ∀ (line : String) {status : Status}, status ≠ executionSuccess →
        ∃ added, SeamRun P producerArgv s (ran.print line) added status := by
      intro line status hstatus
      obtain ⟨added, hadded⟩ := consulted_print (P := P) ran line
      exact ⟨_, .of_producer hadded hsys hevents fun h => absurd h hstatus⟩
    rw [← hran]
    cases rashCaptureArgvStdout (rashInstallerMaxBytes (world.rashInstallerMaxBytes s.world))
        (world.capture producerArgv s.world).1 with
    | oversize => exact hfails _ failure_ne_success
    | failed => exact hfails _ failure_ne_success
    | captured bytes status =>
        dsimp only
        split_ifs with hstatus
        · exact hfails _ hstatus
        · have hran_callbacks : ∀ callback ∈ ran.callbacks .downloadPipe, ∀ f,
              callback.1 = some f → AsksFor P (f (.downloadPipe bytes producerArgv consumerArgv)) := by
            intro callback hcallback f hf
            rw [PipeState.callbacks, hsys] at hcallback
            exact hcallbacks callback hcallback f hf bytes
          obtain ⟨added, hadded, hstarted⟩ := consultDownloadPipe_consulted world hran_callbacks
          exact ⟨_, .of_producer hadded hsys hevents hstarted⟩
  · rw [if_neg hforked, rashCaptureArgvStdout_unforked (by simpa using hforked)]
    exact ⟨_, .of_line rfl rfl failure_ne_success⟩

theorem interceptDownload_run {left right : SimpleCom} {s : PipeState σ Θ ω E}
    (hcallbacks : ∀ callback ∈ s.callbacks .downloadPipe, ∀ f, callback.1 = some f →
      ∀ bytes, AsksFor P (f (.downloadPipe bytes (left.words.map (·.word))
        (right.words.map (·.word))))) :
    ∃ added, SeamRun P (left.words.map (·.word))
      (s.note (.intercepted (left.words.map (·.word)) (right.words.map (·.word))))
      (interceptDownload world left right s).2 added (interceptDownload world left right s).1 := by
  unfold interceptDownload rashWordListToArgv
  dsimp only
  by_cases hleft : left.words.length ≤ rashInstallerArgvMax
  · rw [if_pos hleft]
    by_cases hright : right.words.length ≤ rashInstallerArgvMax
    · rw [if_pos hright]
      exact captureProducer_run world hcallbacks
    · rw [if_neg hright]
      exact ⟨_, .of_line rfl rfl failure_ne_success⟩
  · rw [if_neg hleft]
    exact ⟨_, .of_line rfl rfl failure_ne_success⟩

end

/-! ## The hook in front of the seam -/

/-- From `s` to `s'` only callbacks and the expansion of their copies ran. -/
structure HookRun (s s' : PipeState σ Θ ω E) (added : List (PipeEvent E)) : Prop where
  armed : Armed s.sys → Armed s'.sys
  runningTrap : s'.runningTrap = s.runningTrap
  events : s'.events = s.events ++ added
  producer : added.countP PipeEvent.isProducer = 0
  ordinary : added.countP PipeEvent.isOrdinary = 0
  asked : added.countP PipeEvent.isConsumer ≤ added.countP PipeEvent.isExecWithStdin

namespace HookRun

theorem refl (s : PipeState σ Θ ω E) : HookRun s s [] :=
  ⟨id, rfl, (List.append_nil _).symm, rfl, rfl, le_rfl⟩

theorem trans {s₁ s₂ s₃ : PipeState σ Θ ω E} {added added' : List (PipeEvent E)}
    (h : HookRun s₁ s₂ added) (h' : HookRun s₂ s₃ added') :
    HookRun s₁ s₃ (added ++ added') := by
  have hleft := h.asked
  have hright := h'.asked
  refine ⟨fun hs => h'.armed (h.armed hs), h'.runningTrap.trans h.runningTrap, ?_, ?_, ?_, ?_⟩
  · rw [h'.events, h.events, List.append_assoc]
  · rw [List.countP_append, h.producer, h'.producer]
  · rw [List.countP_append, h.ordinary, h'.ordinary]
  · rw [List.countP_append, List.countP_append]
    omega

end HookRun

theorem Consulted.hookRun {P : List String → Prop} {s s' : PipeState σ Θ ω E}
    {added : List (PipeEvent E)} (h : Consulted P s s' added) : HookRun s s' added := by
  obtain ⟨hproducer, hordinary⟩ := countP_ofCallback h.ofCallback
  refine ⟨?_, h.runningTrap, h.events, hproducer, hordinary, h.asked⟩
  rw [h.sys]
  exact id

theorem hooksInitialize_rest (world : PipeWorld σ Θ ω E) (kind : HookKind)
    (s : PipeState σ Θ ω E) :
    (s.hooksInitialize world kind).events = s.events ∧
      (s.hooksInitialize world kind).runningTrap = s.runningTrap ∧
      (s.hooksInitialize world kind).shell = s.shell := by
  unfold PipeState.hooksInitialize
  split_ifs <;> exact ⟨rfl, rfl, rfl⟩

theorem hooksInitialize_run (world : PipeWorld σ Θ ω E) (kind : HookKind)
    (s : PipeState σ Θ ω E) : HookRun s (s.hooksInitialize world kind) [] := by
  obtain ⟨hevents, htrap, -⟩ := hooksInitialize_rest world kind s
  refine ⟨armed_hooksInitialize world kind, htrap, ?_, rfl, rfl, le_rfl⟩
  rw [hevents, List.append_nil]

theorem rashCopyExpandSimple_run (world : PipeWorld σ Θ ω E) (index : ℕ) (command : Command)
    (s : PipeState σ Θ ω E) :
    ∃ added, HookRun s (rashCopyExpandSimple world index command s).2 added := by
  cases command with
  | simple com =>
      exact ⟨_, id, rfl, rfl, by simp [PipeEvent.isProducer], by simp [PipeEvent.isOrdinary],
        by simp [PipeEvent.isConsumer]⟩
  | connection connector first second => exact ⟨_, .refl s⟩
  | compound => exact ⟨_, .refl s⟩

theorem consultBeforePipeline_run (world : PipeWorld σ Θ ω E) (left right : Command)
    (s : PipeState σ Θ ω E) :
    ∃ added, HookRun s (consultBeforePipeline world left right s).2 added := by
  obtain ⟨added, hadded⟩ := rashCopyExpandSimple_run world 0 left s
  unfold consultBeforePipeline
  cases hleft : rashCopyExpandSimple world 0 left s with
  | mk leftWords s₁ =>
      rw [hleft] at hadded
      cases leftWords with
      | error jump => exact ⟨_, hadded⟩
      | ok leftWords =>
          obtain ⟨more, hmore⟩ := rashCopyExpandSimple_run world 1 right s₁
          dsimp only
          cases hright : rashCopyExpandSimple world 1 right s₁ with
          | mk rightWords s₂ =>
              rw [hright] at hmore
              cases rightWords with
              | error jump => exact ⟨_, hadded.trans hmore⟩
              | ok rightWords =>
                  obtain ⟨last, hlast⟩ := stage_consulted (s := s₂) world beforePipelineStage
                    fun _ _ f _ => asksFor_true (f (.beforePipeline leftWords rightWords "|"))
                  exact ⟨_, (hadded.trans hmore).trans hlast.hookRun⟩

theorem rashHooksBeforePipeline_run (world : PipeWorld σ Θ ω E) (command : Command)
    (s : PipeState σ Θ ω E) :
    ∃ added, HookRun s (rashHooksBeforePipeline world command s).2 added := by
  have hinit := hooksInitialize_run world .beforePipeline s
  unfold rashHooksBeforePipeline
  split_ifs with htrap harmed
  · exact ⟨_, .refl s⟩
  · exact ⟨_, hinit⟩
  · cases command with
    | simple com => exact ⟨_, hinit⟩
    | compound => exact ⟨_, hinit⟩
    | connection connector left right =>
        cases connector
        case pipe =>
          obtain ⟨added, hadded⟩ :=
            consultBeforePipeline_run world left right (s.hooksInitialize world .beforePipeline)
          exact ⟨_, hinit.trans hadded⟩
        all_goals exact ⟨_, hinit⟩

/-! ## The contract -/

/-- What the hook did, in front of what the seam did. -/
theorem HookRun.failsClosed {P : List String → Prop} {s s₁ s₂ : PipeState σ Θ ω E}
    {before added : List (PipeEvent E)} {producerArgv consumerArgv : List String}
    {status : Status} (h : HookRun s s₁ before) (h' : SeamRun P producerArgv (s₁.note (.intercepted producerArgv consumerArgv)) s₂ added status) :
    s₂.events = s.events ++ (before ++ .intercepted producerArgv consumerArgv :: added) ∧
      SeamFailsClosed (before ++ .intercepted producerArgv consumerArgv :: added) (.ok status) := by
  have hproducer := h'.producer
  have hleft := h.asked
  have hright := h'.asked
  constructor
  · rw [h'.events, PipeState.note, h.events]
    simp only [List.append_assoc, List.singleton_append]
  · refine ⟨?_, ?_, ?_, ?_⟩
    · rw [List.countP_append, List.countP_cons, h.producer]
      simpa [PipeEvent.isProducer] using hproducer
    · rw [List.countP_append, List.countP_cons, h.ordinary, h'.ordinary]
      rfl
    · rw [List.countP_append, List.countP_append, List.countP_cons, List.countP_cons]
      simp only [PipeEvent.isConsumer, PipeEvent.isExecWithStdin, Bool.false_eq_true, if_false]
      omega
    · intro hresult
      cases hresult
      exact ⟨before, producerArgv, consumerArgv, added, rfl, h'.started rfl⟩

/-- A hook that ends the pipeline. -/
theorem HookRun.failsClosed_ended {s s' : PipeState σ Θ ω E} {added : List (PipeEvent E)}
    (h : HookRun s s' added) {result : Except JumpCode Status}
    (hresult : result ≠ .ok executionSuccess) : SeamFailsClosed added result :=
  ⟨by rw [h.producer]; exact Nat.zero_le 1, h.ordinary, h.asked, fun heq => absurd heq hresult⟩

/-- A foreground pipeline of the download shape never falls through while a handler is
registered in a set that `hook_state` admits. -/
theorem executePipeline_failsClosed {path : List (SessionAction (PipeFunction σ))}
    {sys : HookSystem (PipeFunction σ)}
    (hmeets : PathMeets sessionStep RegistersArmed .initial path)
    (hrun : runPath sessionStep .initial path = some sys)
    (world : PipeWorld σ Θ ω E) {call : CommandCall Command} {s : PipeState σ Θ ω E}
    (hsys : s.sys = sys) (hforeground : call.asynchronous = false)
    (hin : call.pipeIn = noPipe) (hout : call.pipeOut = noPipe) (htrap : s.runningTrap = 0)
    {left right : SimpleCom} (hshape : rashDownloadShapeMatch call.command = some (left, right))
    (hregistered :
      0 < ((executePipeline world call s).2.sys.hooks.table .downloadPipe).count) :
    ∃ added, (executePipeline world call s).2.events = s.events ++ added ∧
      SeamFailsClosed added (executePipeline world call s).1 := by
  have hs : Armed s.sys := hsys ▸ armed_session hmeets hrun
  obtain ⟨before, hbefore⟩ := rashHooksBeforePipeline_run world call.command s
  unfold executePipeline at hregistered ⊢
  cases hhook : rashHooksBeforePipeline world call.command s with
  | mk result s₁ =>
      rw [hhook] at hbefore hregistered
      cases result with
      | error jump => exact ⟨before, hbefore.events, hbefore.failsClosed_ended (by simp)⟩
      | ok status =>
          dsimp only at hregistered ⊢
          split_ifs at hregistered ⊢ with hstatus
          · exact ⟨before, hbefore.events,
              hbefore.failsClosed_ended (by simp [failure_ne_success])⟩
          · have hinit := hooksInitialize_run world .downloadPipe s₁
            have htrap₁ : s₁.runningTrap = 0 := hbefore.runningTrap.trans htrap
            have hguard : ¬ (call.asynchronous = true ∨ call.pipeIn ≠ noPipe ∨
                call.pipeOut ≠ noPipe) := by simp [hforeground, hin, hout]
            by_cases harmed : (s₁.hooksInitialize world .downloadPipe).armed .downloadPipe = false
            · -- then no handler is registered
              have htry : rashHooksTryDownloadPipe world call s₁ =
                  (none, s₁.hooksInitialize world .downloadPipe) := by
                rw [rashHooksTryDownloadPipe, if_neg hguard, if_neg (not_not.mpr htrap₁),
                  if_pos harmed]
              rw [pipelineBehindHook, htry] at hregistered
              have hhandlers := (hinit.armed (hbefore.armed hs)).handlers hregistered
              rw [hhandlers] at harmed
              cases harmed
            · have htry : rashHooksTryDownloadPipe world call s₁ =
                  (some (interceptDownload world left right (s₁.hooksInitialize world .downloadPipe)).1,
                    (interceptDownload world left right (s₁.hooksInitialize world .downloadPipe)).2) := by
                rw [rashHooksTryDownloadPipe, if_neg hguard, if_neg (not_not.mpr htrap₁),
                  if_neg harmed, hshape]
              obtain ⟨added, hadded⟩ := @interceptDownload_run _ _ _ _ _ world left right
                (s₁.hooksInitialize world .downloadPipe) fun _ _ f _ bytes => asksFor_true
                  (f (.downloadPipe bytes (left.words.map (·.word)) (right.words.map (·.word))))
              rw [pipelineBehindHook, htry]
              exact ⟨_, (hbefore.trans hinit).failsClosed hadded⟩

/-! ## Runs of one pipeline -/

/-- A handler that runs the consumer on the captured bytes. -/
def approvingHandler : PipeFunction Unit
  | .downloadPipe bytes _ consumerArgv =>
      .op (.execWithStdin (some (consumerArgv.map some)) (some bytes)) fun _ => .ret .other
  | .beforePipeline _ _ _ => .ret .other

/-- A machine on which every call succeeds and words expand to themselves, with these
registrations in the one file of the hook directory. -/
def quietWorld (registers : List (HookKind × PipeFunction Unit)) :
    PipeWorld Unit Unit Unit Unit where
  hookFiles _ :=
    ⟨true, ⟨some "/hooks", none, none, none⟩, fun _ => oneHook ⟨true, registers, true⟩⟩
  rashInstallerMaxBytes _ := none
  capture _ _ := (⟨true, true, [[58, 10]], some (.exited 0)⟩, ())
  approval _ := (⟨none, none⟩, ())
  feed _ _ _ := (⟨true, true, some (.exited 0), ""⟩, ())
  expandWords words _ := ⟨.ok (words.map (·.word)), [], [], ()⟩
  runPipeline _ _ _ := (.ok executionSuccess, (), ())

def startedShell {E : Type} (sys : HookSystem (PipeFunction Unit)) : PipeState Unit Unit Unit E :=
  ⟨sys, (), .initial, false, executionSuccess, 0, (), (), []⟩

/-- `curl u | bash`, or with an `&` behind it. -/
def installerCall (asynchronous : Bool) : CommandCall Command where
  command := .connection .pipe (.simple ⟨[⟨"curl", 0⟩, ⟨"u", 0⟩], []⟩) (.simple ⟨[⟨"bash", 0⟩], []⟩)
  asynchronous := asynchronous
  pipeIn := noPipe
  pipeOut := noPipe
  fdsToClose := []

/-- With an `&` the pipeline is executed although a handler is registered. -/
theorem executePipeline_asynchronous :
    rashDownloadShapeMatch (installerCall true).command ≠ none ∧
      0 < ((executePipeline (quietWorld [(.downloadPipe, approvingHandler)]) (installerCall true)
        (startedShell .initial)).2.sys.hooks.table .downloadPipe).count ∧
      ¬ ∃ added, (executePipeline (quietWorld [(.downloadPipe, approvingHandler)])
            (installerCall true) (startedShell .initial)).2.events =
          (startedShell .initial).events ++ added ∧
        SeamFailsClosed added (executePipeline (quietWorld [(.downloadPipe, approvingHandler)])
          (installerCall true) (startedShell .initial)).1 := by
  refine ⟨by decide, by decide, ?_⟩
  rintro ⟨added, hadded, hclosed⟩
  have hrun : (executePipeline (quietWorld [(.downloadPipe, approvingHandler)])
      (installerCall true) (startedShell .initial)).2.events.countP PipeEvent.isOrdinary = 1 := by
    decide
  have hnone := hclosed.ordinary
  have hevents : added = (executePipeline (quietWorld [(.downloadPipe, approvingHandler)])
      (installerCall true) (startedShell .initial)).2.events := hadded.symm
  rw [hevents, hrun] at hnone
  exact absurd hnone (by decide)

/-- In the foreground the handler starts the consumer. -/
theorem executePipeline_failsClosed_approved :
    ∃ added, (executePipeline (quietWorld [(.downloadPipe, approvingHandler)])
          (installerCall false) (startedShell .initial)).2.events =
        (startedShell .initial).events ++ added ∧
      SeamFailsClosed added (executePipeline (quietWorld [(.downloadPipe, approvingHandler)])
        (installerCall false) (startedShell .initial)).1 := by
  have hmeets : PathMeets sessionStep RegistersArmed (.initial : HookSystem (PipeFunction Unit))
    [] := trivial
  have hshape : rashDownloadShapeMatch (installerCall false).command =
    some (⟨[⟨"curl", 0⟩, ⟨"u", 0⟩], []⟩, ⟨[⟨"bash", 0⟩], []⟩) := by decide
  exact executePipeline_failsClosed hmeets rfl _ rfl rfl rfl rfl rfl hshape (by decide)

/-- A session whose one hook file registers a rack layer, after the layer registered a
download handler. -/
def lateRegistration : HookSystem (PipeFunction Unit) :=
  ((quietWorld [(.rack, approvingHandler)]).hookFiles .downloadPipe |> fun call =>
    (rashHooksInitialize false call.newstate call.env call.disk .initial).2).register
      (.downloadPipe, approvingHandler)

end Rash
