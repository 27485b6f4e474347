import Rash.Exec.ForkedChild

/-!
# Whether the forked child is gone

The early fork of `execute_simple_command` makes a process that must not come back to the
callers of the command.  It comes back exactly when the stage `dispatch` denies in it, or when
a builtin other than `return` that it calls takes the `return_catch` of the function or script
around the command.
-/

namespace Rash

open Interaction Path Code

variable {σ Θ : Type}

/-! ## What the child comes to run -/

theorem dispatchJob_child (w : SimpleWorld σ Θ) {d : SimpleDispatch}
    (hd : d.alreadyForked = true) (s : SimpleState σ Θ) : dispatchJob w d s = (.ok none, s) := by
  unfold dispatchJob
  simp only [hd, Bool.true_eq_false, and_false, if_false, globals, shell, reads_bind]
  cases w.autoResume s.shell with
  | none => rfl
  | some mode =>
      simp only [false_and, and_false, if_false]
      rfl

theorem keeps_selectAutocd (w : SimpleWorld σ Θ) (d : SimpleDispatch) (words : List WordDesc) :
    Holds InChild (selectAutocd w d words) (fun selected s => InChild s ∧
      ∀ result, selected ≠ .ended result) LeftChild := by
  unfold selectAutocd
  refine (keeps_update _).bind_holds fun _ => (keeps_shell _).bind_holds fun function => ?_
  refine (keeps_quit w).bind_holds fun _ => (keeps_shell _).bind_holds fun target => ?_
  cases target with
  | some target => exact fun s hs => ⟨hs, fun _ h => by cases h⟩
  | none =>
      refine (keeps_shell _).bind_holds fun again => holds_ite (fun _ => ?_) fun _ => ?_
      · exact fun s hs => ⟨hs, fun _ h => by cases h⟩
      · exact fun s hs => ⟨hs, fun _ h => by cases h⟩

theorem keeps_selectTarget (w : SimpleWorld σ Θ) {d : SimpleDispatch}
    (hd : d.alreadyForked = true) :
    Holds InChild (selectTarget w d) (fun selected s => InChild s ∧
      ∀ result, selected ≠ .ended result) LeftChild := by
  intro s hs
  unfold selectTarget
  rw [bind_ok (dispatchJob_child w hd s)]
  refine (keeps_quit w).bind_holds (fun _ => ?_) s hs
  refine (keeps_shell _).bind_holds fun target => ?_
  cases target with
  | some target => exact fun s hs => ⟨hs, fun _ h => by cases h⟩
  | none =>
      refine (keeps_globals _).bind_holds fun g => (keeps_shell _).bind_holds fun isDirname => ?_
      refine holds_ite (fun _ => keeps_selectAutocd w d d.words) fun _ => ?_
      exact fun s hs => ⟨hs, fun _ h => by cases h⟩

theorem dies_dispatchDisk (w : SimpleWorld σ Θ) {d : SimpleDispatch} (words : List WordDesc)
    (hd : d.alreadyForked = true) (hnofork : d.flags.noFork = true) :
    Dies (dispatchDisk w d words noPipe noPipe) := by
  unfold dispatchDisk
  refine (keeps_shell _).bind_holds fun pending => ?_
  apply Dies.bind
  apply dies_executeDiskCommand
  simp [hd, hnofork]

theorem stripCommand_noFork (w : SimpleWorld σ Θ) (p : Shell σ Θ) (rounds : ℕ)
    (words : List WordDesc) (flags : CommandFlags) :
    (stripCommand w p rounds words flags).2.noFork = flags.noFork := by
  induction rounds generalizing words flags with
  | zero => rfl
  | succ rounds ih =>
      unfold stripCommand
      cases words with
      | nil => rfl
      | cons name args =>
          dsimp only
          split
          · split
            · rfl
            · exact ih _ _
          · rfl

theorem rashStageResolveSimple_noFork (w : SimpleWorld σ Θ) (words : List WordDesc)
    (flags : CommandFlags) (p : Shell σ Θ) :
    (rashStageResolveSimple w words flags p).flags.noFork = flags.noFork := by
  unfold rashStageResolveSimple
  dsimp only
  split
  · rfl
  · rfl
  · exact stripCommand_noFork w p _ words flags

/-- The child is ready to dispatch a command, in its own place. -/
def ReadyInChild (prepared : Prepared) (s : SimpleState σ Θ) : Prop :=
  InChild s ∧ ∃ captured resolved oldCommandBuiltin,
    prepared = .ready captured resolved oldCommandBuiltin ∧ resolved.flags.noFork = true

theorem keeps_checkTempenv (isSpecial : Bool) :
    Keeps (checkTempenv isSpecial : Code σ Θ Unit) := by
  unfold checkTempenv
  refine (keeps_globals _).bind fun g => preserves_ite ?_ (keeps_setGlobals _)
  refine (keeps_setGlobals _).bind fun _ => preserves_ite ?_ ?_
  · exact (dies_depart _).keeps
  · exact (dies_depart _).keeps

theorem keeps_resolveWords (w : SimpleWorld σ Θ) (words : List WordDesc) {flags : CommandFlags}
    (hnofork : flags.noFork = true) :
    Holds InChild (resolveWords w words flags)
      (fun found s => InChild s ∧ found.1.flags.noFork = true) LeftChild := by
  unfold resolveWords
  refine (keeps_onlyIf (keeps_update _)).bind_holds fun _ => ?_
  refine Holds.bind (p := fun resolved s => InChild s ∧ resolved.flags.noFork = true) ?_
    fun resolved => ?_
  · exact fun s hs => ⟨hs, (rashStageResolveSimple_noFork w words flags s.shell).trans hnofork⟩
  · intro s ⟨hs, hresolved⟩
    refine (keeps_checkTempenv _).bind_holds (fun _ => ?_) s hs
    refine (keeps_globals _).bind_holds fun marked => ?_
    refine (keeps_onlyIf (keeps_setGlobals _)).bind_holds fun _ => ?_
    refine (keeps_quit w).bind_holds fun _ => ?_
    exact fun s hs => ⟨hs, hresolved⟩

theorem keeps_prepareWords (w : SimpleWorld σ Θ) (call : SimpleCall) {flags : CommandFlags}
    (words : List WordDesc) (hnofork : flags.noFork = true) :
    Holds InChild (prepareWords w call true flags words) ReadyInChild LeftChild := by
  unfold prepareWords
  -- the guard of the stage `before` leaves the child out
  refine Holds.bind (p := fun denied s => InChild s ∧ denied = false)
    (fun s hs => ⟨hs, rfl⟩) fun denied => ?_
  rintro s ⟨hs, rfl⟩
  refine holds_ite (fun h => by cases h) (fun _ => ?_) s hs
  · refine Preserves.bind_holds (preserves_pure false) fun wants => ?_
    refine Preserves.bind_holds (preserves_ite (keeps_always _) (preserves_pure _))
      fun captured => ?_
    refine Holds.bind (keeps_resolveWords w words hnofork) fun found => ?_
    exact fun s hs => ⟨hs.1, captured, found.1, found.2, rfl, hs.2⟩

theorem keeps_rashStageExpandSimpleWords (w : SimpleWorld σ Θ) (words : List WordDesc)
    (flags : CommandFlags) : Keeps (rashStageExpandSimpleWords w words flags) := by
  unfold rashStageExpandSimpleWords
  refine preserves_ite (preserves_pure _) (Preserves.bind (preserves_step fun s hs =>
    (rashHooksTryLuaExpand_answered w.hookFiles words s).inChild hs) fun luaExpand => ?_)
  cases luaExpand with
  | words built => exact preserves_pure built
  | cExpand => exact keeps_callDeparts _
  | denied => exact preserves_pure []

theorem keeps_prepareCommand (w : SimpleWorld σ Θ) (call : SimpleCall) :
    Holds InChild (prepareCommand w call true) ReadyInChild LeftChild := by
  unfold prepareCommand
  refine (keeps_quit w).bind_holds fun _ => ?_
  refine (keeps_rashStageExpandSimpleWords w _ _).bind_holds fun words => ?_
  refine holds_ite (fun _ => ?_) fun _ => ?_
  · refine (keeps_executeNullCommand w _ _ _ _).bind_holds fun result => ?_
    exact Holds.mono (dies_exit result) (fun _ h => h) (fun _ _ h => h.elim) fun _ _ h => h
  · apply keeps_prepareWords
    simp

/-! ## The two ways back -/

/-- The stage `dispatch` denies the command in the child that `s` is. -/
def DispatchDenies (w : SimpleWorld σ Θ) (call : SimpleCall) (s : SimpleState σ Θ) : Prop :=
  ∃ captured resolved oldCommandBuiltin s',
    prepareCommand w call true s = (.ok (.ready captured resolved oldCommandBuiltin), s') ∧
    (rashHooksChooseDispatch w.hookFiles resolved.words resolved.isFunction resolved.isBuiltin
      s').1.1 = true

/-- The child comes to call the builtin `b` with `words`, in the state `s'`. -/
def CallsInChild (w : SimpleWorld σ Θ) (call : SimpleCall) (s : SimpleState σ Θ) (b : Builtin)
    (words : List WordDesc) (flags : CommandFlags) (s' : SimpleState σ Θ) : Prop :=
  ∃ captured resolved oldCommandBuiltin choice s₁ s₂ s₃,
    prepareCommand w call true s = (.ok (.ready captured resolved oldCommandBuiltin), s₁) ∧
    rashHooksChooseDispatch w.hookFiles resolved.words resolved.isFunction resolved.isBuiltin
      s₁ = ((false, choice), s₂) ∧
    selectTarget w (.of call true resolved oldCommandBuiltin choice) s₂ =
      (.ok (.target words (.builtin b)), s₃) ∧
    flags = resolved.flags ∧
    CallsBuiltin w call.command.redirects b call.async s₃.resetTraps s'

/-- A builtin other than `return` takes the `return_catch` that the child inherited. -/
def ReturnEscapes (w : SimpleWorld σ Θ) (call : SimpleCall) (s : SimpleState σ Θ) : Prop :=
  ∃ b words flags s', CallsInChild w call s b words flags s' ∧ b ≠ .returnBuiltin ∧
    JumpsToReturn w b words flags s'

theorem dispatchTarget_ends (w : SimpleWorld σ Θ) {d : SimpleDispatch} (words : List WordDesc)
    (target : Target) {s : SimpleState σ Θ} (hs : InChild s) (hd : d.alreadyForked = true)
    (hin : d.pipeIn = noPipe) (hout : d.pipeOut = noPipe)
    (hreturn : ∀ b s', target = .builtin b → b ≠ .returnBuiltin →
      CallsBuiltin w d.command.redirects b d.async s.resetTraps s' →
        ¬ JumpsToReturn w b words d.flags s') :
    Ends (fun _ _ => False) LeftChild (dispatchTarget w d words target s) := by
  unfold dispatchTarget
  simp only [hd, hin, hout, globals, shell, reads_bind, if_true, modify_bind]
  exact executeSubshellBuiltinOrFunction_ends w words d.command.redirects target d.async d.flags
    hs hreturn

theorem rashStageDispatchSimple_ends (w : SimpleWorld σ Θ) {d : SimpleDispatch}
    {s : SimpleState σ Θ} (hs : InChild s) (hd : d.alreadyForked = true)
    (hin : d.pipeIn = noPipe) (hout : d.pipeOut = noPipe) (hnofork : d.flags.noFork = true)
    (hreturn : ∀ b words s₁ s', selectTarget w d s = (.ok (.target words (.builtin b)), s₁) →
      b ≠ .returnBuiltin → CallsBuiltin w d.command.redirects b d.async s₁.resetTraps s' →
        ¬ JumpsToReturn w b words d.flags s') :
    Ends (fun _ _ => False) LeftChild (rashStageDispatchSimple w d s) := by
  have hselected := keeps_selectTarget w hd s hs
  unfold rashStageDispatchSimple
  cases hselect : selectTarget w d s with
  | mk answer s₁ =>
      rw [hselect] at hselected
      cases answer with
      | error x => rw [bind_error hselect]; exact hselected
      | ok selected =>
          rw [bind_ok hselect]
          cases selected with
          | ended result => exact absurd rfl (hselected.2 result)
          | disk words =>
              dsimp only
              rw [hin, hout]
              exact dies_dispatchDisk w words hd hnofork s₁ hselected.1
          | target words target =>
              apply dispatchTarget_ends w words target hselected.1 hd hin hout
              rintro b s' rfl hb hcalls
              exact hreturn b words s₁ s' hselect hb hcalls

theorem executeForked_ends (w : SimpleWorld σ Θ) (call : SimpleCall) {s : SimpleState σ Θ}
    (hs : InChild s) (hdispatch : ¬ DispatchDenies w call s)
    (hreturn : ¬ ReturnEscapes w call s) :
    Ends (fun _ _ => False) LeftChild (executeForked w call true s) := by
  have hprepared := keeps_prepareCommand w call s hs
  unfold executeForked
  cases hrun : prepareCommand w call true s with
  | mk answer s₁ =>
      rw [hrun] at hprepared
      cases answer with
      | error x => rw [bind_error hrun]; exact hprepared
      | ok prepared =>
          obtain ⟨hs₁, captured, resolved, oldCommandBuiltin, rfl, hnofork⟩ := hprepared
          rw [bind_ok hrun]
          dsimp only
          apply Ends.never_bind
          have hanswered := rashHooksChooseDispatch_answered w.hookFiles resolved.words
            resolved.isFunction resolved.isBuiltin s₁
          unfold dispatchResolved
          rw [step_bind]
          cases hstage : rashHooksChooseDispatch w.hookFiles resolved.words
              resolved.isFunction resolved.isBuiltin s₁ with
          | mk answer s₂ =>
              rw [hstage] at hanswered
              obtain ⟨denied, choice⟩ := answer
              cases denied with
              | true =>
                  exact absurd ⟨captured, resolved, oldCommandBuiltin, s₁, hrun, by rw [hstage]⟩
                    hdispatch
              | false =>
                  apply rashStageDispatchSimple_ends w (hanswered.inChild hs₁) rfl rfl rfl
                    hnofork
                  intro b words s₃ s' hselect hb hcalls hjumps
                  exact hreturn ⟨b, words, resolved.flags, s', ⟨captured, resolved,
                    oldCommandBuiltin, choice, s₁, s₂, s₃, hrun, hstage, hselect, rfl, hcalls⟩,
                    hb, hjumps⟩

/-- A denial of the stage `dispatch` is returned to the caller, in the child too. -/
theorem executeForked_denied (w : SimpleWorld σ Θ) (call : SimpleCall) {s : SimpleState σ Θ}
    (h : DispatchDenies w call s) :
    ∃ s', executeForked w call true s = (.ok executionFailure, s') := by
  obtain ⟨captured, resolved, oldCommandBuiltin, s₁, hrun, hdenied⟩ := h
  unfold executeForked
  rw [bind_ok hrun]
  have hdispatch : ∃ s₂ builtin, dispatchResolved w call true resolved oldCommandBuiltin s₁ =
      (.ok ⟨resolved.words, executionFailure, false, builtin⟩, s₂) := by
    unfold dispatchResolved
    simp only [step_bind, hdenied, if_true]
    exact ⟨_, _, rfl⟩
  obtain ⟨s₂, builtin, hdispatch⟩ := hdispatch
  dsimp only
  rw [bind_ok hdispatch]
  unfold finishCommand
  cases captured with
  | true => exact ⟨_, rfl⟩
  | false => exact ⟨_, rfl⟩

theorem builtinChild_escapes (w : SimpleWorld σ Θ) {A : Type} {words : List WordDesc}
    {b : Builtin} (async : Bool) {flags : CommandFlags} {s : SimpleState σ Θ}
    (hb : b ≠ .returnBuiltin) (h : JumpsToReturn w b words flags s) :
    ∃ value s', builtinChild (A := A) w words b async flags s =
      (.error (.returnCatch value), s') := by
  obtain ⟨value, s', hrun⟩ := h
  refine ⟨value, s', ?_⟩
  have hbuiltin : subshellBuiltin (A := A) w words b async flags s =
      (.error (.returnCatch value), s') := by
    unfold subshellBuiltin
    exact bind_error hrun
  unfold builtinChild
  simp only [globals, shell, reads_bind, hb, and_false, decide_false, Bool.false_eq_true,
    if_false]
  unfold atTopLevel catching
  rw [hbuiltin]

/-- The jump finds no `setjmp` of the child on its way. -/
theorem executeForked_escapes (w : SimpleWorld σ Θ) (call : SimpleCall) {s : SimpleState σ Θ}
    (h : ReturnEscapes w call s) :
    ∃ value s', executeForked w call true s = (.error (.returnCatch value), s') := by
  obtain ⟨b, words, flags, s', ⟨captured, resolved, oldCommandBuiltin, choice, s₁, s₂, s₃, hrun,
    hstage, hselect, rfl, hcalls⟩, hb, hjumps⟩ := h
  obtain ⟨value, s₄, hchild⟩ := builtinChild_escapes (A := DispatchEnd) w call.async hb hjumps
  have htarget : dispatchTarget w (.of call true resolved oldCommandBuiltin choice) words
      (.builtin b) s₃ = (.error (.returnCatch value), s₄) := by
    unfold dispatchTarget
    simp only [SimpleDispatch.of, globals, shell, reads_bind, if_true, modify_bind]
    unfold executeSubshellBuiltinOrFunction
    rw [bind_ok hcalls]
    exact hchild
  have hdispatch : dispatchResolved w call true resolved oldCommandBuiltin s₁ =
      (.error (.returnCatch value), s₄) := by
    unfold dispatchResolved
    rw [step_bind, hstage]
    simp only [Bool.false_eq_true, if_false]
    unfold rashStageDispatchSimple
    rw [bind_ok hselect]
    exact htarget
  refine ⟨value, s₄, ?_⟩
  unfold executeForked
  rw [bind_ok hrun]
  exact bind_error hdispatch

/-! ## The child of a command -/

/-- The process has ended, or it jumps to a loop that leaves because this is a subshell. -/
def Gone (x : Leave) (s : SimpleState σ Θ) : Prop :=
  match x with
  | .departs (.exit _) | .departs .exec | .endless => True
  | .departs (.jump code) =>
      s.subshellEnvironment.isSet = true ∧ ∀ last,
        (readerLoopCaught true code last).1 = .leave ∧
        (parseAndExecuteCaught true code last).1 = .leave
  | .returnCatch _ => False

theorem InChild.isSet {s : SimpleState σ Θ} (hs : InChild s) :
    s.subshellEnvironment.isSet = true := by
  unfold InChild at hs
  simp [SubshellEnvironment.isSet, hs]

theorem LeftChild.gone {x : Leave} {s : SimpleState σ Θ} (h : LeftChild x s) : Gone x s := by
  obtain ⟨hs, hreturn⟩ := h
  cases x with
  | returnCatch value => exact hreturn value rfl
  | endless => trivial
  | departs d =>
      cases d with
      | exit status => trivial
      | exec => trivial
      | jump code => exact ⟨hs.isSet, fun last => by cases code <;> exact ⟨rfl, rfl⟩⟩

theorem startSimple_inChild (w : SimpleWorld σ Θ) (call : SimpleCall) {s₀ s : SimpleState σ Θ}
    (hstart : startSimple w true call s₀ = (.ok (.goesOn true), s)) : InChild s := by
  have hholds : Holds (fun _ => True) (startSimple w true call)
      (fun start s => start = .goesOn true → InChild s) (fun _ _ => True) := by
    unfold startSimple
    refine (preserves_true _).bind_holds fun _ => (preserves_true _).bind_holds fun _ => ?_
    refine (preserves_true _).bind_holds fun result => ?_
    refine (preserves_true _).bind_holds fun debugging => holds_ite (fun _ => ?_) fun _ => ?_
    · exact fun s _ h => by cases h
    · refine (preserves_true _).bind_holds fun _ => holds_ite (fun _ => ?_) fun _ => ?_
      · refine Holds.bind (p := fun _ => InChild) ?_ fun _ s hs _ => hs
        refine (preserves_true _).bind_holds fun _ => ?_
        exact Holds.bind (p := fun _ => InChild) (fun _ _ => rfl) fun _ _ h => h
      · exact fun s _ h => by cases h
  have hends := hholds s₀ trivial
  rw [hstart] at hends
  exact hends rfl

/-- The forked child never comes back to the callers of the command, if and only if the stage
`dispatch` does not deny in it and no `return` escapes from a builtin that it calls. -/
theorem executeSimpleCommand_child_gone_iff (w : SimpleWorld σ Θ) (call : SimpleCall)
    {s₀ s : SimpleState σ Θ} (hstart : startSimple w true call s₀ = (.ok (.goesOn true), s)) :
    Ends (fun _ _ => False) Gone (executeSimpleCommand w true call s₀) ↔
      ¬ DispatchDenies w call s ∧ ¬ ReturnEscapes w call s := by
  have hrun : executeSimpleCommand w true call s₀ = executeForked w call true s := by
    unfold executeSimpleCommand
    rw [bind_ok hstart]
  rw [hrun]
  constructor
  · intro hends
    constructor
    · intro hdenies
      obtain ⟨s', hdenied⟩ := executeForked_denied w call hdenies
      rw [hdenied] at hends
      exact hends
    · intro hescapes
      obtain ⟨value, s', hescaped⟩ := executeForked_escapes w call hescapes
      rw [hescaped] at hends
      exact hends
  · rintro ⟨hdispatch, hreturn⟩
    exact Ends.mono (executeForked_ends w call (startSimple_inChild w call hstart) hdispatch
      hreturn) (fun _ _ h => h) fun _ _ h => h.gone

/-- `true &`, where the stage `dispatch` denies it: the child reports failure to the caller. -/
theorem executeSimpleCommand_child_returned :
    ∃ s, startSimple (plainMachine [(.dispatch, denyingCallback)]) true (plainCall ["true"] true)
        freshShell = (.ok (.goesOn true), s) ∧
      ¬ Ends (fun _ _ => False) Gone (executeSimpleCommand
        (plainMachine [(.dispatch, denyingCallback)]) true (plainCall ["true"] true)
          freshShell) := by
  refine ⟨_, rfl, fun h => ?_⟩
  exact h

/-- `true &` without callbacks. -/
theorem executeSimpleCommand_child_gone_background :
    Ends (fun _ _ => False) Gone (executeSimpleCommand (plainMachine []) true
        (plainCall ["true"] true) freshShell) ↔
      ¬ DispatchDenies (plainMachine []) (plainCall ["true"] true)
        (startSimple (plainMachine []) true (plainCall ["true"] true) freshShell).2 ∧
      ¬ ReturnEscapes (plainMachine []) (plainCall ["true"] true)
        (startSimple (plainMachine []) true (plainCall ["true"] true) freshShell).2 :=
  executeSimpleCommand_child_gone_iff (plainMachine []) (plainCall ["true"] true) rfl

end Rash
