import Rash.Exec.CommandStages

/-!
# What a stage leaves alone

A stage consults callbacks and prints; of the process it changes the hook system only, and
its answer is the denial that is seen last.
-/

namespace Rash

open Interaction

variable {σ Θ : Type}

def SimpleEvent.isAsking : SimpleEvent → Bool
  | .consulted _ _ _ | .printed _ => true
  | .denied _ | .opened _ | .started _ | .signalled => false

/-- From `s` to `s'` callbacks were consulted, and `added` is what is seen of it. -/
structure Asked (s s' : SimpleState σ Θ) (added : List SimpleEvent) : Prop where
  globals : s'.shell.globals = s.shell.globals
  rest : s'.shell.rest = s.shell.rest
  subshellEnvironment : s'.subshellEnvironment = s.subshellEnvironment
  madeChild : s'.madeChild = s.madeChild
  events : s'.events = s.events ++ added
  asking : ∀ e ∈ added, e.isAsking = true

namespace Asked

theorem of_silent {s s' : SimpleState σ Θ} (hglobals : s'.shell.globals = s.shell.globals)
    (hrest : s'.shell.rest = s.shell.rest)
    (henvironment : s'.subshellEnvironment = s.subshellEnvironment)
    (hchild : s'.madeChild = s.madeChild) (hevents : s'.events = s.events) : Asked s s' [] :=
  ⟨hglobals, hrest, henvironment, hchild, by rw [hevents, List.append_nil], by simp⟩

theorem refl (s : SimpleState σ Θ) : Asked s s [] := of_silent rfl rfl rfl rfl rfl

theorem trans {s₁ s₂ s₃ : SimpleState σ Θ} {added added' : List SimpleEvent}
    (h : Asked s₁ s₂ added) (h' : Asked s₂ s₃ added') : Asked s₁ s₃ (added ++ added') := by
  refine ⟨h'.globals.trans h.globals, h'.rest.trans h.rest,
    h'.subshellEnvironment.trans h.subshellEnvironment, h'.madeChild.trans h.madeChild, ?_, ?_⟩
  · rw [h'.events, h.events, List.append_assoc]
  · intro e he
    rcases List.mem_append.mp he with he | he
    · exact h.asking e he
    · exact h'.asking e he

theorem setHooks (s : SimpleState σ Θ) (hooks : HookGlobals) : Asked s (s.setHooks hooks) [] :=
  of_silent rfl rfl rfl rfl rfl

theorem note (s : SimpleState σ Θ) {e : SimpleEvent} (he : e.isAsking = true) :
    Asked s (s.note e) [e] :=
  ⟨rfl, rfl, rfl, rfl, rfl, by simpa using he⟩

end Asked

theorem stageInitialize_asked (files : HookFiles σ Θ) (kind : HookKind) (s : SimpleState σ Θ) :
    Asked s (stageInitialize files kind s) [] := by
  unfold stageInitialize
  split
  · exact .of_silent rfl rfl rfl rfl rfl
  · exact .refl s

theorem stagePort_asked (o : StageOp σ) (s : SimpleState σ Θ) :
    ∃ added, Asked s (stagePort o s).2 added := by
  cases o with
  | get => exact ⟨[], .refl s⟩
  | set lua => exact ⟨[], .of_silent rfl rfl rfl rfl rfl⟩
  | deny reason =>
      refine ⟨(rashLuaDeny reason s.shell.hooks).2.2.map .printed, rfl, rfl, rfl, rfl, rfl, ?_⟩
      intro e he
      obtain ⟨line, -, rfl⟩ := List.mem_map.mp he
      rfl

theorem callback_asked (p : Prog (StageOp σ) StageOp.Ans StageResult) (s : SimpleState σ Θ) :
    ∃ added, Asked s (p.eval stagePort s).2 added := by
  refine Prog.eval_invariant (I := fun s' => ∃ added, Asked s s' added) ?_ p.uses_true
    ⟨[], .refl s⟩
  rintro o s' - ⟨added, hs'⟩
  obtain ⟨added', ho⟩ := stagePort_asked o s'
  exact ⟨added ++ added', hs'.trans ho⟩

namespace CommandStage

theorem failed_asked (stage : CommandStage) (message : Option String) (s : SimpleState σ Θ) :
    ∃ added, Asked s (stage.failed message s) added := by
  unfold failed
  split
  · cases stage.enforcingDenied with
    | none => exact ⟨_, (Asked.note s rfl).trans (.setHooks _ _)⟩
    | some line =>
        exact ⟨_, ((Asked.note s rfl).trans (.setHooks _ _)).trans (.note _ rfl)⟩
  · exact ⟨_, .note s rfl⟩

theorem consult_asked (stage : CommandStage) (table : StageTable)
    (callback : ℕ × Option (StageFunction σ) × Bool) (s : SimpleState σ Θ) :
    ∃ added, Asked s (stage.consult table callback s).2 added := by
  unfold consult
  obtain ⟨called, hcalled⟩ : ∃ called, called =
      (s.setHooks { s.shell.hooks with currentHookEnforcing := callback.2.2 }).note
        (.consulted stage.kind callback.1 callback.2.2) := ⟨_, rfl⟩
  have hopen : Asked s called [.consulted stage.kind callback.1 callback.2.2] := by
    rw [hcalled]
    exact (Asked.setHooks s _).trans (.note _ rfl)
  simp only [← hcalled]
  cases hf : callback.2.1 with
  | none =>
      obtain ⟨added, hfailed⟩ := stage.failed_asked (some nilCallError) called
      exact ⟨_, hopen.trans hfailed⟩
  | some f =>
      obtain ⟨added, hbody⟩ := callback_asked (f table) called
      cases hr : (f table).eval stagePort called with
      | mk r s' =>
          rw [hr] at hbody
          simp only [hr]
          cases r with
          | raised message =>
              obtain ⟨added', hfailed⟩ := stage.failed_asked message s'
              exact ⟨_, (hopen.trans hbody).trans hfailed⟩
          | string _ => exact ⟨_, hopen.trans hbody⟩
          | table _ => exact ⟨_, hopen.trans hbody⟩
          | other => exact ⟨_, hopen.trans hbody⟩

theorem consultEach_asked {α : Type} (stage : CommandStage) (table : StageTable)
    (take : α → StageResult → α) (callbacks : List (ℕ × Option (StageFunction σ) × Bool))
    (a : α) (s : SimpleState σ Θ) :
    ∃ added, Asked s (stage.consultEach table take callbacks a s).2 added := by
  induction callbacks generalizing a s with
  | nil => exact ⟨[], .refl s⟩
  | cons callback rest ih =>
      obtain ⟨added, hfirst⟩ := stage.consult_asked table callback s
      unfold consultEach
      simp only
      split
      · exact ⟨added, hfirst⟩
      · obtain ⟨added', hrest⟩ := ih (take a (stage.consult table callback s).1)
          (stage.consult table callback s).2
        exact ⟨added ++ added', hfirst.trans hrest⟩

end CommandStage

/-- Callbacks of a kind were consulted, and they deny if `denied` is set. -/
def Answered (kind : HookKind) (s : SimpleState σ Θ) (denied : Bool) (s' : SimpleState σ Θ) :
    Prop :=
  ∃ asked added, Asked s asked added ∧ s' = if denied then asked.note (.denied kind) else asked

theorem Answered.of_asked {kind : HookKind} {s s' : SimpleState σ Θ}
    {added : List SimpleEvent} (h : Asked s s' added) : Answered kind s false s' :=
  ⟨s', added, h, rfl⟩

theorem Answered.after {kind : HookKind} {s₁ s₂ s₃ : SimpleState σ Θ} {denied : Bool}
    {added : List SimpleEvent} (h : Asked s₁ s₂ added) (h' : Answered kind s₂ denied s₃) :
    Answered kind s₁ denied s₃ := by
  obtain ⟨asked, added', hasked, rfl⟩ := h'
  exact ⟨asked, added ++ added', h.trans hasked, rfl⟩

namespace CommandStage

theorem enter_asked (stage : CommandStage) (s : SimpleState σ Θ) :
    Asked s (stage.enter s) [] := .setHooks s _

theorem exit_asked (stage : CommandStage) (s : SimpleState σ Θ) :
    Asked s (stage.exit s) [] := .setHooks s _

theorem consultAll_answered {α : Type} (stage : CommandStage) (table : StageTable)
    (take : α → StageResult → α) (a : α) (s : SimpleState σ Θ) :
    Answered stage.kind s (stage.consultAll table take a s).1.1
      (stage.consultAll table take a s).2 := by
  obtain ⟨added, hloop⟩ := stage.consultEach_asked table take (s.callbacks stage.kind) a
    (stage.enter s)
  have hall := ((stage.enter_asked s).trans hloop).trans (stage.exit_asked _)
  unfold consultAll
  simp only
  split
  · exact ⟨_, _, hall, rfl⟩
  · exact ⟨_, _, hall, rfl⟩

theorem run_answered {α : Type} (stage : CommandStage) (files : HookFiles σ Θ)
    (table : StageTable) (take : α → StageResult → α) (a : α) (s : SimpleState σ Θ) :
    Answered stage.kind s (stage.run files table take a s).1.1
      (stage.run files table take a s).2 := by
  have hinit := stageInitialize_asked files stage.kind s
  unfold run
  split
  · exact .of_asked (.refl s)
  · simp only
    split
    · exact .of_asked hinit
    · exact .after hinit (stage.consultAll_answered table take a _)

theorem ask_answered (stage : CommandStage) (files : HookFiles σ Θ) (table : StageTable)
    (s : SimpleState σ Θ) :
    Answered stage.kind s (stage.ask files table s).1 (stage.ask files table s).2 :=
  stage.run_answered files table (fun u _ => u) () s

end CommandStage

theorem rashHooksBeforeSimple_answered (files : HookFiles σ Θ) (words : List WordDesc)
    (s : SimpleState σ Θ) :
    Answered .before s (rashHooksBeforeSimple files words s).1
      (rashHooksBeforeSimple files words s).2 :=
  beforeStage.ask_answered files (.expanded (wordTexts words) (stringList words) 0 none none) s

theorem rashHooksOnBuiltin_answered (files : HookFiles σ Θ) (words : List WordDesc)
    (s : SimpleState σ Θ) :
    Answered .onBuiltin s (rashHooksOnBuiltin files words s).1
      (rashHooksOnBuiltin files words s).2 :=
  onBuiltinStage.ask_answered files (.named ((wordTexts words).headD "") (wordTexts words)) s

theorem rashHooksOnFunction_answered (files : HookFiles σ Θ) (name : String)
    (words : List WordDesc) (s : SimpleState σ Θ) :
    Answered .onFunction s (rashHooksOnFunction files name words s).1
      (rashHooksOnFunction files name words s).2 :=
  onFunctionStage.ask_answered files (.named name (wordTexts words)) s

theorem rashHooksChooseDispatch_answered (files : HookFiles σ Θ) (words : List WordDesc)
    (haveFunction haveBuiltin : Bool) (s : SimpleState σ Θ) :
    Answered .dispatch s
      (rashHooksChooseDispatch files words haveFunction haveBuiltin s).1.1
      (rashHooksChooseDispatch files words haveFunction haveBuiltin s).2 := by
  unfold rashHooksChooseDispatch
  exact dispatchStage.run_answered files _ DispatchChoice.take .asResolved s

theorem rashHooksTryLuaExpand_answered (files : HookFiles σ Θ) (words : List WordDesc)
    (s : SimpleState σ Θ) :
    Answered .expandHook s (decide ((rashHooksTryLuaExpand files words s).1 = .denied))
      (rashHooksTryLuaExpand files words s).2 := by
  have hrun := expandStage.run_answered files (.expand (wordTexts words) (rashExpandMode words))
    (takeWords (rashExpandMode words == "lua")) none s
  unfold rashHooksTryLuaExpand
  simp only
  split
  · rename_i hdenied
    rw [hdenied] at hrun
    exact hrun
  · rename_i hdenied
    rw [Bool.not_eq_true] at hdenied
    rw [hdenied] at hrun
    split <;> exact hrun

theorem rashHooksRedirectPolicy_answered (files : HookFiles σ Θ)
    (lstat : Θ → String → Option Bool) (vars : Θ → ShellVariables) (redirects : List Redirect)
    (s : SimpleState σ Θ) :
    Answered .redirectPolicy s (rashHooksRedirectPolicy files lstat vars redirects s).1.1
      (rashHooksRedirectPolicy files lstat vars redirects s).2 := by
  have hinit := stageInitialize_asked files .redirectPolicy s
  unfold rashHooksRedirectPolicy
  split
  · exact .of_asked (.refl s)
  · simp only
    split
    · exact .of_asked hinit
    · have hstage := redirectPolicyStage.consultAll_answered
        (.redirects (rashPushRedirects
          (lstat (stageInitialize files .redirectPolicy s).shell.rest) redirects
          (rashRedirectsPreexpand
            (vars (stageInitialize files .redirectPolicy s).shell.rest) redirects).1))
        (fun u _ => u) () (stageInitialize files .redirectPolicy s)
      exact .after hinit hstage

/-! ## Observers -/

namespace ObserverStage

theorem consult_asked (stage : ObserverStage) (table : StageTable)
    (callback : ℕ × Option (StageFunction σ) × Bool) (s : SimpleState σ Θ) :
    ∃ added, Asked s (stage.consult table callback s).2 added := by
  unfold consult
  obtain ⟨called, hcalled⟩ : ∃ called, called =
      (s.setHooks { s.shell.hooks with currentHookEnforcing := callback.2.2 }).note
        (.consulted stage.kind callback.1 callback.2.2) := ⟨_, rfl⟩
  have hopen : Asked s called [.consulted stage.kind callback.1 callback.2.2] := by
    rw [hcalled]
    exact (Asked.setHooks s _).trans (.note _ rfl)
  simp only [← hcalled]
  cases hf : callback.2.1 with
  | none => exact ⟨_, hopen.trans (.note _ rfl)⟩
  | some f =>
      obtain ⟨added, hbody⟩ := callback_asked (f table) called
      cases hr : (f table).eval stagePort called with
      | mk r s' =>
          rw [hr] at hbody
          simp only [hr]
          cases r with
          | raised message => exact ⟨_, (hopen.trans hbody).trans (.note _ rfl)⟩
          | string _ => exact ⟨_, hopen.trans hbody⟩
          | table _ => exact ⟨_, hopen.trans hbody⟩
          | other => exact ⟨_, hopen.trans hbody⟩

theorem consultAll_asked (stage : ObserverStage) (table : StageTable) (s : SimpleState σ Θ) :
    ∃ added, Asked s (stage.consultAll table s).2 added := by
  have hloop : ∀ (callbacks : List (ℕ × Option (StageFunction σ) × Bool)) (s : SimpleState σ Θ),
      ∃ added, Asked s (stage.consultEach table callbacks s).2 added := by
    intro callbacks
    induction callbacks with
    | nil => exact fun s => ⟨[], .refl s⟩
    | cons callback rest ih =>
        intro s
        obtain ⟨added, hfirst⟩ := stage.consult_asked table callback s
        obtain ⟨added', hrest⟩ := ih (stage.consult table callback s).2
        exact ⟨added ++ added', hfirst.trans hrest⟩
  obtain ⟨added, hall⟩ := hloop (s.callbacks stage.kind) s
  exact ⟨_, hall.trans (.setHooks _ _)⟩

theorem wanted_asked (stage : ObserverStage) (files : HookFiles σ Θ) (s : SimpleState σ Θ) :
    Asked s (stage.wanted files s).2 [] := by
  unfold wanted
  split
  · exact .refl s
  · exact stageInitialize_asked files stage.kind s

end ObserverStage

theorem rashHooksAfterSimple_asked (files : HookFiles σ Θ) (words : List WordDesc)
    (status : Status) (stdout stderr : Option Bytes) (s : SimpleState σ Θ) :
    ∃ added, Asked s (rashHooksAfterSimple files words status stdout stderr s) added := by
  have hguard := afterStage.wanted_asked files s
  unfold rashHooksAfterSimple
  simp only
  split
  · obtain ⟨added, hall⟩ := afterStage.consultAll_asked
      (.expanded (wordTexts words) (stringList words) status stdout stderr)
      (afterStage.wanted files s).2
    exact ⟨_, hguard.trans hall⟩
  · exact ⟨_, hguard⟩

theorem rashHooksStdioBundle_asked (files : HookFiles σ Θ) (captureFd : Θ → Option ℕ)
    (words : List WordDesc) (status : Status) (stdout stderr : Option Bytes)
    (s : SimpleState σ Θ) :
    ∃ added, Asked s
      (rashHooksStdioBundle files captureFd words status stdout stderr s).2 added := by
  have hguard := stdioBundleStage.wanted_asked files s
  unfold rashHooksStdioBundle rashHooksWantStdioBundle
  simp only
  split
  · obtain ⟨added, hall⟩ := stdioBundleStage.consultAll_asked
      (.expanded (wordTexts words) (stringList words) status stdout stderr)
      (stdioBundleStage.wanted files s).2
    exact ⟨_, hguard.trans hall⟩
  · exact ⟨_, hguard⟩

end Rash
