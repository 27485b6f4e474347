import Rash.Exec.PipelineWords

/-!
# The copies that `before_pipeline` expands

`rash_hooks_before_pipeline` expands copies of both elements in the shell itself, and each
element expands its words again.  A pipeline runs as without the hook exactly when the
expansions of the copies succeed and carry out no side effect.
-/

namespace Rash

variable {σ Θ ω E : Type}

/-- Where an expansion is carried out: on the copy for the hook or in the element. -/
inductive ExpansionSite
  | copy (index : ℕ)
  | element (index : ℕ)
  deriving DecidableEq

namespace PipeEvent

/-- The side effects of expansions, with their sites. -/
def expansions : PipeEvent E → List (ExpansionSite × E)
  | .copied index effects => effects.map (ExpansionSite.copy index, ·)
  | .element index _ effects => effects.map (ExpansionSite.element index, ·)
  | _ => []

/-- The argument vectors the elements run with; an element whose expansion fails has the
jump instead. -/
def argvs : PipeEvent E → List (Except JumpCode (List String))
  | .intercepted producerArgv consumerArgv => [.ok producerArgv, .ok consumerArgv]
  | .element _ run _ => [run.map (·.argv)]
  | _ => []

end PipeEvent

/-- Every side effect of an expansion happens as often, and every element runs with the same
words. -/
structure AsUnhooked (events unhooked : List (PipeEvent E)) : Prop where
  effects : (events.flatMap PipeEvent.expansions).Perm (unhooked.flatMap PipeEvent.expansions)
  argvs : events.flatMap PipeEvent.argvs = unhooked.flatMap PipeEvent.argvs

/-- `execute_pipeline` with `before_pipeline_count` 0. -/
def executePipelineUnhooked (world : PipeWorld σ Θ ω E) (call : CommandCall Command)
    (s : PipeState σ Θ ω E) : Except JumpCode Status × PipeState σ Θ ω E :=
  pipelineBehindHook world call
    (if s.runningTrap ≠ 0 then s else s.hooksInitialize world .beforePipeline)

/-- The hook is consulted for the pipeline. -/
def ConsultsBeforePipeline (world : PipeWorld σ Θ ω E) (s : PipeState σ Θ ω E) : Prop :=
  s.runningTrap = 0 ∧ (s.hooksInitialize world .beforePipeline).armed .beforePipeline = true

theorem executePipeline_unconsulted {world : PipeWorld σ Θ ω E} {s : PipeState σ Θ ω E}
    (h : ¬ ConsultsBeforePipeline world s) (call : CommandCall Command) :
    executePipeline world call s = executePipelineUnhooked world call s := by
  unfold executePipeline executePipelineUnhooked rashHooksBeforePipeline
  by_cases htrap : s.runningTrap ≠ 0
  · rw [if_pos htrap, if_pos htrap]
    rfl
  · have harmed : (s.hooksInitialize world .beforePipeline).armed .beforePipeline = false := by
      cases hcase : (s.hooksInitialize world .beforePipeline).armed .beforePipeline with
      | false => rfl
      | true => exact absurd ⟨not_not.mp htrap, hcase⟩ h
    rw [if_neg htrap, if_neg htrap, if_pos harmed]
    rfl

/-! ## What follows the hook -/

/-- Whether the seam takes a pipeline with these hooks. -/
def seamTakes (world : PipeWorld σ Θ ω E) (call : CommandCall Command) (s : PipeState σ Θ ω E) :
    Bool :=
  !call.asynchronous && call.pipeIn == noPipe && call.pipeOut == noPipe && s.runningTrap == 0 &&
    (s.hooksInitialize world .downloadPipe).armed .downloadPipe &&
    (rashDownloadShapeMatch call.command).isSome

theorem seamTakes_congr (world : PipeWorld σ Θ ω E) (call : CommandCall Command)
    {s t : PipeState σ Θ ω E} (hsys : s.sys = t.sys) (htrap : s.runningTrap = t.runningTrap) :
    seamTakes world call s = seamTakes world call t := by
  have hinit : (s.hooksInitialize world .downloadPipe).sys =
      (t.hooksInitialize world .downloadPipe).sys := by
    unfold PipeState.hooksInitialize
    rw [hsys]
    split_ifs <;> simp [hsys]
  unfold seamTakes PipeState.armed
  rw [hinit, htrap]

theorem ofSeam_of_ofCallback {e : PipeEvent E} (h : e.ofCallback = true) : e.ofSeam = true := by
  cases e <;> simp_all [PipeEvent.ofSeam, PipeEvent.ofCallback]

theorem flatMap_ofSeam {added : List (PipeEvent E)} (h : ∀ e ∈ added, e.ofSeam = true) :
    added.flatMap PipeEvent.expansions = [] ∧ added.flatMap PipeEvent.argvs = [] := by
  constructor <;>
  · apply List.flatMap_eq_nil_iff.mpr
    intro e he
    have hof := h e he
    cases e <;> simp_all [PipeEvent.ofSeam, PipeEvent.ofCallback, PipeEvent.expansions,
      PipeEvent.argvs]

theorem simpleInvocation_argv (world : PipeWorld σ Θ ω E) (com : SimpleCom) (shell : Θ) :
    (simpleInvocation world com shell).map (·.argv) = (world.expandWords com.words shell).argv := by
  unfold simpleInvocation
  dsimp only
  cases (world.expandWords com.words shell).argv <;> rfl

/-- A pipeline of two simple commands. -/
def twoElements (left right : SimpleCom) : Command :=
  .connection .pipe (.simple left) (.simple right)

/-- The expansions behind the hook. -/
def expansionsBehind (world : PipeWorld σ Θ ω E) (takes : Bool) (left right : SimpleCom)
    (shell : Θ) : List (ExpansionSite × E) :=
  if takes then []
  else
    (world.expandWords left.words shell).effects.map (.element 0, ·) ++
      (world.expandWords right.words shell).effects.map (.element 1, ·)

/-- The argument vectors behind the hook. -/
def argvsBehind (world : PipeWorld σ Θ ω E) (takes : Bool) (left right : SimpleCom) (shell : Θ) :
    List (Except JumpCode (List String)) :=
  if takes then [.ok left.spelled, .ok right.spelled]
  else [(world.expandWords left.words shell).argv, (world.expandWords right.words shell).argv]

theorem shapeMatch_twoElements {left right : SimpleCom}
    (h : (rashDownloadShapeMatch (twoElements left right)).isSome = true) :
    rashDownloadShapeMatch (twoElements left right) = some (left, right) := by
  obtain ⟨_ | ⟨lword, lwords⟩, lredirects⟩ := left
  · cases h
  obtain ⟨_ | ⟨rword, rwords⟩, rredirects⟩ := right
  · cases h
  simp only [twoElements, rashDownloadShapeMatch] at h ⊢
  split_ifs at h ⊢ with hnames
  · rfl
  · cases h

/-- The seam takes the pipeline. -/
theorem tryDownloadPipe_takes {world : PipeWorld σ Θ ω E} {call : CommandCall Command}
    {left right : SimpleCom} (hcommand : call.command = twoElements left right)
    {s : PipeState σ Θ ω E} (h : seamTakes world call s = true) :
    rashHooksTryDownloadPipe world call s =
      (some (interceptDownload world left right (s.hooksInitialize world .downloadPipe)).1,
        (interceptDownload world left right (s.hooksInitialize world .downloadPipe)).2) := by
  simp only [seamTakes, Bool.and_eq_true, Bool.not_eq_true', beq_iff_eq] at h
  obtain ⟨⟨⟨⟨⟨hasync, hin⟩, hout⟩, htrap⟩, harmed⟩, hshape⟩ := h
  rw [hcommand] at hshape
  have hguard : ¬ (call.asynchronous = true ∨ call.pipeIn ≠ noPipe ∨ call.pipeOut ≠ noPipe) := by
    simp [hasync, hin, hout]
  rw [rashHooksTryDownloadPipe, if_neg hguard, if_neg (not_not.mpr htrap),
    if_neg (by simp [harmed]), hcommand, shapeMatch_twoElements hshape]

/-- The seam lets the pipeline go on. -/
theorem tryDownloadPipe_passes {world : PipeWorld σ Θ ω E} {call : CommandCall Command}
    {s : PipeState σ Θ ω E} (h : seamTakes world call s = false) :
    (rashHooksTryDownloadPipe world call s).1 = none ∧
      (rashHooksTryDownloadPipe world call s).2.events = s.events ∧
      (rashHooksTryDownloadPipe world call s).2.shell = s.shell := by
  obtain ⟨hevents, -, hshell⟩ := hooksInitialize_rest world .downloadPipe s
  unfold rashHooksTryDownloadPipe
  split_ifs with hguard htrap harmed
  · exact ⟨rfl, rfl, rfl⟩
  · exact ⟨rfl, rfl, rfl⟩
  · exact ⟨rfl, hevents, hshell⟩
  · cases hshape : rashDownloadShapeMatch call.command with
    | none => exact ⟨rfl, hevents, hshell⟩
    | some shape =>
        simp only [not_or, not_not] at hguard htrap
        obtain ⟨hasync, hin, hout⟩ := hguard
        simp [seamTakes, hasync, hin, hout, htrap, hshape, harmed] at h

/-- What follows the hook depends on the hooks, on the trap and on the shell. -/
theorem pipelineBehindHook_observed (world : PipeWorld σ Θ ω E) {call : CommandCall Command}
    {left right : SimpleCom} (hcommand : call.command = twoElements left right)
    (s : PipeState σ Θ ω E) :
    ∃ added, (pipelineBehindHook world call s).2.events = s.events ++ added ∧
      added.flatMap PipeEvent.expansions =
        expansionsBehind world (seamTakes world call s) left right s.shell ∧
      added.flatMap PipeEvent.argvs =
        argvsBehind world (seamTakes world call s) left right s.shell := by
  unfold pipelineBehindHook
  cases htakes : seamTakes world call s with
  | true =>
      obtain ⟨added, hadded⟩ := @interceptDownload_run _ _ _ _ _ world left right
        (s.hooksInitialize world .downloadPipe) fun _ _ f _ bytes => asksFor_true
          (f (.downloadPipe bytes left.spelled right.spelled))
      obtain ⟨hexpansions, hargvs⟩ := flatMap_ofSeam hadded.ofSeam
      rw [tryDownloadPipe_takes hcommand htakes]
      refine ⟨.intercepted left.spelled right.spelled :: added, ?_, ?_, ?_⟩
      · rw [hadded.events, PipeState.note, (hooksInitialize_rest world .downloadPipe s).1,
          List.append_assoc]
        rfl
      · rw [List.flatMap_cons, hexpansions]
        rfl
      · rw [List.flatMap_cons, hargvs]
        rfl
  | false =>
      obtain ⟨hnone, hevents, hshell⟩ := tryDownloadPipe_passes htakes
      cases htry : rashHooksTryDownloadPipe world call s with
      | mk result s' =>
          rw [htry] at hnone hevents hshell
          cases hnone
          refine ⟨.ordinary :: elementEvents world s'.shell call.command, ?_, ?_, ?_⟩
          · rw [← hevents]
            rfl
          · rw [hcommand, ← hshell]
            simp [elementEvents, twoElements, Command.elements, PipeEvent.expansions,
              expansionsBehind]
          · rw [hcommand, ← hshell]
            simp [elementEvents, twoElements, Command.elements, PipeEvent.argvs,
              argvsBehind, simpleInvocation_argv]

/-! ## The copies -/

/-- The expansion of the words succeeds and carries out no side effect. -/
structure QuietExpansion (world : PipeWorld σ Θ ω E) (com : SimpleCom) (shell : Θ) : Prop where
  succeeds : ∃ argv, (world.expandWords com.words shell).argv = .ok argv
  effects : (world.expandWords com.words shell).effects = []

/-- An expansion without side effects leaves the shell as it was. -/
def PureExpansions (world : PipeWorld σ Θ ω E) : Prop :=
  ∀ words shell, (world.expandWords words shell).effects = [] →
    (world.expandWords words shell).shell = shell

/-- The side effects of the copies. -/
def copyExpansions (world : PipeWorld σ Θ ω E) (left right : SimpleCom) (shell : Θ) :
    List (ExpansionSite × E) :=
  (world.expandWords left.words shell).effects.map (.copy 0, ·) ++
    (world.expandWords right.words (world.expandWords left.words shell).shell).effects.map
      (.copy 1, ·)

/-- The shell behind the copies. -/
def copiesShell (world : PipeWorld σ Θ ω E) (left right : SimpleCom) (shell : Θ) : Θ :=
  (world.expandWords right.words (world.expandWords left.words shell).shell).shell

/-- The events of the copies. -/
def copyEvents (world : PipeWorld σ Θ ω E) (left right : SimpleCom) (shell : Θ) :
    List (PipeEvent E) :=
  [.copied 0 (world.expandWords left.words shell).effects,
    .copied 1 (world.expandWords right.words (world.expandWords left.words shell).shell).effects]

/-- An expansion of a copy fails. -/
def CopyFails (world : PipeWorld σ Θ ω E) (left right : SimpleCom) (shell : Θ) : Prop :=
  (∃ jump, (world.expandWords left.words shell).argv = .error jump) ∨
    ∃ jump, (world.expandWords right.words
      (world.expandWords left.words shell).shell).argv = .error jump

/-- Both copies are expanded and the callbacks called. -/
structure CopiesConsulted (world : PipeWorld σ Θ ω E) (left right : SimpleCom)
    (s s' : PipeState σ Θ ω E) (added : List (PipeEvent E)) : Prop where
  leftWords : ∃ argv, (world.expandWords left.words s.shell).argv = .ok argv
  rightWords : ∃ argv, (world.expandWords right.words
    (world.expandWords left.words s.shell).shell).argv = .ok argv
  expansions : added.flatMap PipeEvent.expansions = copyExpansions world left right s.shell
  shell : s'.shell = copiesShell world left right s.shell
  sys : s'.sys = s.sys
  runningTrap : s'.runningTrap = s.runningTrap

/-- How the hook ends for two simple commands: in the jump of a copy whose expansion fails, or
behind the callbacks. -/
theorem consultBeforePipeline_cases (world : PipeWorld σ Θ ω E) (left right : SimpleCom)
    (s : PipeState σ Θ ω E) :
    ∃ result s' added, consultBeforePipeline world (.simple left) (.simple right) s = (result, s') ∧
      s'.events = s.events ++ added ∧ added.flatMap PipeEvent.argvs = [] ∧
      ((∃ jump, result = .error jump ∧ CopyFails world left right s.shell) ∨
        ((result = .ok 0 ∨ result = .ok executionFailure) ∧
          CopiesConsulted world left right s s' added)) := by
  simp only [consultBeforePipeline, rashCopyExpandSimple, PipeState.note]
  cases hleft : (world.expandWords left.words s.shell).argv with
  | error jump => exact ⟨_, _, [.copied 0 _], rfl, rfl, rfl, Or.inl ⟨jump, rfl, Or.inl ⟨jump, hleft⟩⟩⟩
  | ok leftWords =>
      dsimp only [Except.map]
      cases hright : (world.expandWords right.words
          (world.expandWords left.words s.shell).shell).argv with
      | error jump =>
          exact ⟨_, _, [.copied 0 _, .copied 1 _], rfl, List.append_assoc _ _ _, rfl,
            Or.inl ⟨jump, rfl, Or.inr ⟨jump, hright⟩⟩⟩
      | ok rightWords =>
          dsimp only
          obtain ⟨s₀, hs₀⟩ : ∃ s₀ : PipeState σ Θ ω E, s₀ =
              { s with
                shell := copiesShell world left right s.shell
                events := s.events ++
                  [.copied 0 (world.expandWords left.words s.shell).effects] ++
                  [.copied 1 (world.expandWords right.words
                    (world.expandWords left.words s.shell).shell).effects] } := ⟨_, rfl⟩
          obtain ⟨added, hadded⟩ := stage_consulted (s := s₀) world beforePipelineStage
            fun _ _ f _ => asksFor_true (f (.beforePipeline (some leftWords) (some rightWords) "|"))
          obtain ⟨hexpansions, hargvs⟩ := flatMap_ofSeam fun e he =>
            ofSeam_of_ofCallback (hadded.ofCallback e he)
          refine ⟨_, _, copyEvents world left right s.shell ++ added, rfl, ?_, ?_, Or.inr ⟨?_, ?_⟩⟩
          · rw [hs₀] at hadded
            refine hadded.events.trans ?_
            simp [copyEvents]
          · rw [List.flatMap_append, hargvs]
            rfl
          · split_ifs
            · exact Or.inr rfl
            · exact Or.inl rfl
          · rw [hs₀] at hadded
            refine ⟨⟨_, hleft⟩, ⟨_, hright⟩, ?_, hadded.shell, hadded.sys, hadded.runningTrap⟩
            rw [List.flatMap_append, hexpansions]
            simp [copyEvents, PipeEvent.expansions, copyExpansions]

theorem copyExpansions_eq_nil_iff {world : PipeWorld σ Θ ω E} (hpure : PureExpansions world)
    {left right : SimpleCom} {shell : Θ}
    (hleft : ∃ argv, (world.expandWords left.words shell).argv = .ok argv)
    (hright : ∃ argv, (world.expandWords right.words
      (world.expandWords left.words shell).shell).argv = .ok argv) :
    copyExpansions world left right shell = [] ↔
      QuietExpansion world left shell ∧ QuietExpansion world right shell := by
  simp only [copyExpansions, List.append_eq_nil_iff, List.map_eq_nil_iff]
  constructor
  · rintro ⟨hquiet, hquiet'⟩
    rw [hpure _ _ hquiet] at hright hquiet'
    exact ⟨⟨hleft, hquiet⟩, ⟨hright, hquiet'⟩⟩
  · rintro ⟨hquiet, hquiet'⟩
    refine ⟨hquiet.effects, ?_⟩
    rw [hpure _ _ hquiet.effects]
    exact hquiet'.effects

theorem copiesShell_of_quiet {world : PipeWorld σ Θ ω E} (hpure : PureExpansions world)
    {left right : SimpleCom} {shell : Θ} (hleft : QuietExpansion world left shell)
    (hright : QuietExpansion world right shell) : copiesShell world left right shell = shell := by
  rw [copiesShell, hpure _ _ hleft.effects, hpure _ _ hright.effects]

theorem not_copyFails_of_quiet {world : PipeWorld σ Θ ω E} (hpure : PureExpansions world)
    {left right : SimpleCom} {shell : Θ} (hleft : QuietExpansion world left shell)
    (hright : QuietExpansion world right shell) : ¬ CopyFails world left right shell := by
  rintro (⟨jump, hjump⟩ | ⟨jump, hjump⟩)
  · obtain ⟨argv, hargv⟩ := hleft.succeeds
    cases hargv.symm.trans hjump
  · rw [hpure _ _ hleft.effects] at hjump
    obtain ⟨argv, hargv⟩ := hright.succeeds
    cases hargv.symm.trans hjump

/-- Nothing behind the hook is carried out at the site of a copy. -/
theorem expansionsBehind_sites {world : PipeWorld σ Θ ω E} {takes : Bool} {left right : SimpleCom}
    {shell : Θ} {index : ℕ} {e : E} :
    (ExpansionSite.copy index, e) ∉ expansionsBehind world takes left right shell := by
  unfold expansionsBehind
  split_ifs <;> simp

/-- The copies leave nothing to be carried out a second time. -/
theorem copyExpansions_eq_nil_of_perm {world : PipeWorld σ Θ ω E} {takes takes' : Bool}
    {left right : SimpleCom} {shell shell' : Θ}
    (h : (copyExpansions world left right shell ++
        expansionsBehind world takes left right shell').Perm
      (expansionsBehind world takes' left right shell)) :
    copyExpansions world left right shell = [] := by
  apply List.eq_nil_iff_forall_not_mem.mpr
  intro expansion hmem
  have hcopy : ∃ index e, expansion = (ExpansionSite.copy index, e) := by
    simp only [copyExpansions, List.mem_append, List.mem_map] at hmem
    rcases hmem with ⟨e, -, rfl⟩ | ⟨e, -, rfl⟩
    · exact ⟨0, e, rfl⟩
    · exact ⟨1, e, rfl⟩
  obtain ⟨index, e, rfl⟩ := hcopy
  exact expansionsBehind_sites (h.mem_iff.mp (List.mem_append_left _ hmem))

theorem argvsBehind_ne_nil (world : PipeWorld σ Θ ω E) (takes : Bool) (left right : SimpleCom)
    (shell : Θ) : argvsBehind world takes left right shell ≠ [] := by
  unfold argvsBehind
  split_ifs <;> simp

/-- A pipeline of two simple commands whose callbacks do not deny runs as without the hook
exactly when the hook is not consulted or the expansions of the copies are quiet. -/
theorem executePipeline_asUnhooked_iff {world : PipeWorld σ Θ ω E} (hpure : PureExpansions world)
    {call : CommandCall Command} {left right : SimpleCom}
    (hcommand : call.command = twoElements left right) {s : PipeState σ Θ ω E}
    (hallow : (rashHooksBeforePipeline world call.command s).1 ≠ .ok executionFailure) :
    AsUnhooked (executePipeline world call s).2.events
        (executePipelineUnhooked world call s).2.events ↔
      (ConsultsBeforePipeline world s →
        QuietExpansion world left s.shell ∧ QuietExpansion world right s.shell) := by
  by_cases hconsults : ConsultsBeforePipeline world s
  · obtain ⟨htrap, harmed⟩ := hconsults
    obtain ⟨s₀, hs₀⟩ : ∃ s₀, s₀ = s.hooksInitialize world .beforePipeline := ⟨_, rfl⟩
    obtain ⟨hevents₀, htrap₀, hshell₀⟩ := hooksInitialize_rest world .beforePipeline s
    rw [← hs₀] at harmed hevents₀ htrap₀ hshell₀
    -- without the hook
    obtain ⟨tail, htail, htailExpansions, htailArgvs⟩ :=
      pipelineBehindHook_observed world hcommand s₀
    have hunhooked : executePipelineUnhooked world call s = pipelineBehindHook world call s₀ := by
      rw [executePipelineUnhooked, if_neg (not_not.mpr htrap), ← hs₀]
    -- with the hook
    have hbefore : rashHooksBeforePipeline world call.command s =
        consultBeforePipeline world (.simple left) (.simple right) s₀ := by
      unfold rashHooksBeforePipeline
      rw [if_neg (not_not.mpr htrap), ← hs₀, if_neg (by simp [harmed]), hcommand]
      rfl
    obtain ⟨result, s₁, added, hrun, hadded, haddedArgvs, hend⟩ :=
      consultBeforePipeline_cases world left right s₀
    rw [hunhooked, executePipeline, hbefore, hrun, htail]
    rw [hbefore, hrun] at hallow
    rw [hshell₀] at hend htailExpansions htailArgvs
    rcases hend with ⟨jump, rfl, hfails⟩ | ⟨hok, hcopies⟩
    · constructor
      · intro h
        have hargvs := h.argvs
        dsimp only at hargvs
        rw [hadded, List.flatMap_append, List.flatMap_append, haddedArgvs, htailArgvs] at hargvs
        exact absurd (List.append_cancel_left hargvs).symm (argvsBehind_ne_nil _ _ _ _ _)
      · intro hquiet
        obtain ⟨hleft, hright⟩ := hquiet ⟨htrap, hs₀ ▸ harmed⟩
        exact absurd hfails (not_copyFails_of_quiet hpure hleft hright)
    · obtain rfl : result = .ok 0 := hok.resolve_right hallow
      obtain ⟨tail₁, htail₁, htail₁Expansions, htail₁Argvs⟩ :=
        pipelineBehindHook_observed world hcommand s₁
      have htakes : seamTakes world call s₁ = seamTakes world call s₀ :=
        seamTakes_congr world call hcopies.sys hcopies.runningTrap
      rw [hcopies.shell, hshell₀, htakes] at htail₁Expansions htail₁Argvs
      have hnil := copyExpansions_eq_nil_iff hpure (hshell₀ ▸ hcopies.leftWords)
        (hshell₀ ▸ hcopies.rightWords)
      have hexpansions := hcopies.expansions
      rw [hshell₀] at hexpansions
      dsimp only
      rw [if_neg (not_not.mpr rfl), htail₁, hadded]
      constructor
      · intro h
        have heffects := h.effects
        simp only [List.flatMap_append, hexpansions, htailExpansions, htail₁Expansions,
          List.append_assoc] at heffects
        intro _
        exact hnil.mp (copyExpansions_eq_nil_of_perm ((List.perm_append_left_iff _).mp heffects))
      · intro hquiet
        obtain ⟨hleft, hright⟩ := hquiet ⟨htrap, hs₀ ▸ harmed⟩
        have hshell := copiesShell_of_quiet hpure hleft hright
        constructor
        · simp only [List.flatMap_append, hexpansions, hnil.mpr ⟨hleft, hright⟩, htailExpansions,
            htail₁Expansions, hshell, List.append_nil]
          exact List.Perm.refl _
        · simp only [List.flatMap_append, haddedArgvs, htailArgvs, htail₁Argvs, hshell,
            List.append_nil]
  · rw [executePipeline_unconsulted hconsults]
    exact ⟨fun _ h => absurd h hconsults, fun _ => ⟨List.Perm.refl _, rfl⟩⟩

/-- A shell whose one special word is the command substitution `$(id)`, with a
`before_pipeline` callback that returns. -/
def substitutionWorld : PipeWorld Unit Unit Unit String where
  hookFiles := (quietWorld [(.beforePipeline, fun _ => .ret .other)]).hookFiles
  rashInstallerMaxBytes _ := none
  capture := (quietWorld []).capture
  approval := (quietWorld []).approval
  feed := (quietWorld []).feed
  expandWords words _ :=
    ⟨.ok (words.map fun w => if w.word = "$(id)" then "u" else w.word), [],
      words.filterMap fun w => if w.word = "$(id)" then some "id" else none, ()⟩
  runPipeline _ _ _ := (.ok executionSuccess, (), ())

/-- `echo` of one word, piped into `cat`. -/
def echoCall (word : String) : CommandCall Command :=
  foregroundCall (twoElements ⟨[⟨"echo", 0⟩, ⟨word, 0⟩], []⟩ ⟨[⟨"cat", 0⟩], []⟩)

/-- `id` is run for the copy and again for the element. -/
theorem executePipeline_substitutes_twice :
    (rashHooksBeforePipeline substitutionWorld (echoCall "$(id)").command
        (startedShell .initial)).1 = .ok 0 ∧
      ConsultsBeforePipeline substitutionWorld (startedShell .initial) ∧
      ¬ AsUnhooked (executePipeline substitutionWorld (echoCall "$(id)")
          (startedShell .initial)).2.events
        (executePipelineUnhooked substitutionWorld (echoCall "$(id)")
          (startedShell .initial)).2.events := by
  refine ⟨by decide, ⟨rfl, by decide⟩, fun h => ?_⟩
  have hcount := h.effects.length_eq
  exact absurd hcount (by decide)

/-- A word without a substitution. -/
theorem executePipeline_asUnhooked_echo :
    AsUnhooked (executePipeline substitutionWorld (echoCall "hi") (startedShell .initial)).2.events
        (executePipelineUnhooked substitutionWorld (echoCall "hi")
          (startedShell .initial)).2.events ↔
      (ConsultsBeforePipeline substitutionWorld (startedShell .initial) →
        QuietExpansion substitutionWorld ⟨[⟨"echo", 0⟩, ⟨"hi", 0⟩], []⟩ () ∧
          QuietExpansion substitutionWorld ⟨[⟨"cat", 0⟩], []⟩ ()) :=
  executePipeline_asUnhooked_iff (fun _ _ _ => rfl) rfl (by decide)

end Rash
