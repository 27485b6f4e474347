import Rash.Hooks.Lifecycle

/-!
# What the lifecycle hooks guarantee

How often the command runs, what becomes of a refusal by an enforcing hook, and what a list
of advisory hooks without a status of their own does.
-/

namespace Rash

open Interaction

variable {σ Cmd : Type}

/-- How the executions of the command ended, in order. -/
def rans : List HookEvent → List (Except JumpCode Status) :=
  List.filterMap fun
    | .ran outcome => some outcome
    | _ => none

/-- The numbers that hooks returned. -/
def returnedStatuses : List HookEvent → List Status :=
  List.filterMap fun
    | .returned status => some status
    | _ => none

/-- What hooks wrote into the result of the context: the numbers they returned, and
`EXECUTION_FAILURE` for a denial. -/
def statusWrites : List HookEvent → List Status :=
  List.filterMap fun
    | .returned status => some status
    | .marked => some executionFailure
    | _ => none

/-- An enforcing hook called `rash.deny` or failed before the command ran. -/
def Refused : List HookEvent → Prop
  | [] => False
  | .deny _ enforcing :: rest => enforcing = true ∨ Refused rest
  | .failed _ enforcing :: rest => enforcing = true ∨ Refused rest
  | .ran _ :: _ => False
  | .consult _ :: rest => Refused rest
  | .fellThrough _ _ :: rest => Refused rest
  | .returned _ :: rest => Refused rest
  | .marked :: rest => Refused rest
  | .printed _ :: rest => Refused rest

/-- An enforcing hook returned no status and had not run the command. -/
def FellThrough (log : List HookEvent) : Prop := ∃ index, .fellThrough index true ∈ log

@[simp] theorem rans_append (a b : List HookEvent) : rans (a ++ b) = rans a ++ rans b :=
  List.filterMap_append

@[simp] theorem returnedStatuses_append (a b : List HookEvent) :
    returnedStatuses (a ++ b) = returnedStatuses a ++ returnedStatuses b :=
  List.filterMap_append

@[simp] theorem statusWrites_append (a b : List HookEvent) :
    statusWrites (a ++ b) = statusWrites a ++ statusWrites b :=
  List.filterMap_append

theorem refused_append (a b : List HookEvent) :
    Refused (a ++ b) ↔ Refused a ∨ (rans a = [] ∧ Refused b) := by
  induction a with
  | nil => simp [rans, Refused]
  | cons e rest ih =>
      cases e with
      | ran outcome => simp [Refused, rans]
      | deny index enforcing => simp only [List.cons_append, Refused, ih, or_assoc]; rfl
      | failed index enforcing => simp only [List.cons_append, Refused, ih, or_assoc]; rfl
      | consult index => exact ih
      | fellThrough index enforcing => exact ih
      | returned status => exact ih
      | marked => exact ih
      | printed line => exact ih

@[simp] theorem rans_printed (lines : List String) : rans (lines.map .printed) = [] := by
  simp [rans, List.filterMap_map]

@[simp] theorem returnedStatuses_printed (lines : List String) :
    returnedStatuses (lines.map .printed) = [] := by
  simp [returnedStatuses, List.filterMap_map]

@[simp] theorem statusWrites_printed (lines : List String) :
    statusWrites (lines.map .printed) = [] := by
  simp [statusWrites, List.filterMap_map]

theorem refused_printed (lines : List String) : ¬ Refused (lines.map .printed) := by
  induction lines with
  | nil => exact id
  | cons line rest ih => exact ih

/-- The context and the events of a command fit together. -/
structure Contract (hooks : List (Callback σ Cmd)) (s : LifecycleState σ) : Prop where
  active : s.context.active = true
  quiet : s.context.executed = false → s.globals.stages.any = false
  waiting : s.context.executed = false → rans s.log = []
  once : (rans s.log).length ≤ 1
  returned : ∀ outcome ∈ rans s.log, ∃ status, outcome = .ok status
  deniedExecuted : s.context.denied = true → s.context.executed = true
  result : rans s.log = [] →
    s.context.result = (statusWrites s.log).getLastD executionFailure
  refused : Refused s.log → s.context.executed = true ∧ rans s.log = []
  advisory : (∀ hook ∈ hooks, hook.enforcing = false) → returnedStatuses s.log = [] →
    s.context.denied = false ∧ (s.context.executed = true → rans s.log ≠ []) ∧
      ∀ status, rans s.log = [.ok status] → s.context.result = status

/-- The body of an enforcing hook can refuse as long as nothing was executed. -/
structure BodyContract (hooks : List (Callback σ Cmd)) (enforcing : Bool)
    (s : LifecycleState σ) : Prop where
  contract : Contract hooks s
  bit : s.context.executed = false →
    s.globals.currentHookEnforcing = enforcing ∧ s.globals.activeHookContext = true

/-- The command left by a jump, and nothing had refused it. -/
structure LeftByJump (code : JumpCode) (s : LifecycleState σ) : Prop where
  rans : rans s.log = [.error code]
  refused : ¬ Refused s.log

/-- How `rash_invoke_hook` ends. -/
def Invoked (hooks : List (Callback σ Cmd)) : HookOutcome σ → Prop
  | (.ok status, s) => Contract hooks s ∧ s.context.executed = true ∧ s.context.result = status
  | (.error code, s) => LeftByJump code s

/-- Events that neither run the command nor write a status, over an unchanged context. -/
theorem Contract.of_reports {hooks : List (Callback σ Cmd)} {s s' : LifecycleState σ}
    (h : Contract hooks s) (hcontext : s'.context = s.context)
    (hstages : s.context.executed = false → s'.globals.stages = s.globals.stages)
    {events : List HookEvent} (hlog : s'.log = s.log ++ events) (hrans : rans events = [])
    (hreturned : returnedStatuses events = []) (hwrites : statusWrites events = [])
    (hrefused : Refused events → rans s.log = [] → s.context.executed = true) :
    Contract hooks s' := by
  have hrans' : rans s'.log = rans s.log := by simp [hlog, hrans]
  constructor
  · rw [hcontext]; exact h.active
  · rw [hcontext]
    intro hexec
    rw [hstages hexec]
    exact h.quiet hexec
  · rw [hcontext, hrans']; exact h.waiting
  · rw [hrans']; exact h.once
  · rw [hrans']; exact h.returned
  · rw [hcontext]; exact h.deniedExecuted
  · rw [hcontext, hrans', hlog, statusWrites_append, hwrites, List.append_nil]; exact h.result
  · rw [hcontext, hrans', hlog, refused_append]
    rintro (hold | ⟨hnone, hnew⟩)
    · exact h.refused hold
    · exact ⟨hrefused hnew hnone, hnone⟩
  · rw [hcontext, hrans', hlog, returnedStatuses_append, hreturned, List.append_nil]
    exact h.advisory

/-- Events that end in a denial, as some enforcing hook makes it. -/
theorem Contract.of_mark {hooks : List (Callback σ Cmd)} {s s' : LifecycleState σ}
    (h : Contract hooks s) (reason : String) (hfirst : s.context.denied = false)
    (hcontext : s'.context = (rashMarkDenied s.context reason).1)
    {events : List HookEvent} (hlog : s'.log = s.log ++ events) (hrans : rans events = [])
    (hwrites : statusWrites events = [executionFailure])
    (henf : ∃ hook ∈ hooks, hook.enforcing = true) : Contract hooks s' := by
  have hrans' : rans s'.log = rans s.log := by simp [hlog, hrans]
  have hmarked : s'.context =
      { s.context with
        denied := true, executed := true, result := executionFailure,
        denyReason := denyReasonText reason } := by
    rw [hcontext, rashMarkDenied, hfirst]
    rfl
  constructor
  · rw [hmarked]; exact h.active
  · rw [hmarked]
    intro hnot
    cases hnot
  · rw [hmarked]
    intro hnot
    cases hnot
  · rw [hrans']; exact h.once
  · rw [hrans']; exact h.returned
  · rw [hmarked]; exact fun _ => rfl
  · rw [hmarked, hlog, statusWrites_append, hwrites]
    intro _
    simp
  · rw [hmarked, hrans', hlog, refused_append]
    rintro (hold | ⟨hnone, -⟩)
    · exact ⟨rfl, (h.refused hold).2⟩
    · exact ⟨rfl, hnone⟩
  · intro hadvisory
    obtain ⟨hook, hmem, henf⟩ := henf
    rw [hadvisory hook hmem] at henf
    cases henf

theorem Contract.not_refused_ran {hooks : List (Callback σ Cmd)} {s : LifecycleState σ}
    (h : Contract hooks s) (hwait : s.context.executed = false)
    (outcome : Except JumpCode Status) : ¬ Refused (s.log ++ [.ran outcome]) := by
  rw [refused_append]
  rintro (hold | ⟨-, hnew⟩)
  · rw [(h.refused hold).1] at hwait
    cases hwait
  · exact hnew

theorem Contract.rans_ran {hooks : List (Callback σ Cmd)} {s : LifecycleState σ}
    (h : Contract hooks s) (hwait : s.context.executed = false)
    (outcome : Except JumpCode Status) : rans (s.log ++ [.ran outcome]) = [outcome] := by
  rw [rans_append, h.waiting hwait]
  rfl

/-- The command runs and returns. -/
theorem Contract.of_run {hooks : List (Callback σ Cmd)} {s s' : LifecycleState σ}
    (h : Contract hooks s) (hwait : s.context.executed = false) {status : Status}
    (hcontext : s'.context = { s.context with executed := true, result := status })
    (hlog : s'.log = s.log ++ [.ran (.ok status)]) : Contract hooks s' := by
  have hran : rans s'.log = [.ok status] := by rw [hlog, h.rans_ran hwait]
  constructor
  · rw [hcontext]; exact h.active
  · rw [hcontext]; nofun
  · rw [hcontext]; nofun
  · rw [hran]; exact Nat.le_refl 1
  · rw [hran]
    intro outcome hmem
    exact ⟨status, List.mem_singleton.mp hmem⟩
  · rw [hcontext]; exact fun _ => rfl
  · rw [hran]; nofun
  · rw [hlog]; exact fun hnew => absurd hnew (h.not_refused_ran hwait _)
  · rw [hcontext, hran, hlog, returnedStatuses_append]
    intro hadvisory hreturned
    refine ⟨(h.advisory hadvisory (List.append_eq_nil_iff.mp hreturned).1).1, nofun, ?_⟩
    intro status' hstatus
    cases hstatus
    rfl

theorem rashExecuteOriginal_invoked {hooks : List (Callback σ Cmd)} {s : LifecycleState σ}
    (h : Contract hooks s) (exec : Executor σ Cmd) (call : CommandCall Cmd) :
    Invoked hooks (rashExecuteOriginal exec call s) := by
  unfold rashExecuteOriginal
  split
  · next hexec => exact ⟨h, hexec, rfl⟩
  · next hexec =>
      have hwait : s.context.executed = false := by simpa using hexec
      dsimp only
      split
      · next status hres =>
          rw [hres]
          exact ⟨h.of_run hwait rfl rfl, rfl, rfl⟩
      · next code hres =>
          rw [hres]
          exact ⟨h.rans_ran hwait _, h.not_refused_ran hwait _⟩

/-! ## Steps of a hook -/

section Steps

variable {hooks : List (Callback σ Cmd)} {hook : Callback σ Cmd} {s : LifecycleState σ}

theorem hookDeny_contract (hmem : hook ∈ hooks) (index : ℕ) (reason : String)
    (h : BodyContract hooks hook.enforcing s) :
    BodyContract hooks hook.enforcing (hookDeny index hook.enforcing reason s).2 := by
  have hframe := rashLuaDeny_frame reason s.globals
  have hbit : (hookDeny index hook.enforcing reason s).2.context.executed = false →
      (hookDeny index hook.enforcing reason s).2.globals.currentHookEnforcing = hook.enforcing ∧
        (hookDeny index hook.enforcing reason s).2.globals.activeHookContext = true := by
    intro hwait
    have hwait' : s.context.executed = false := by
      by_contra hran
      have hran' := hframe.executed (Bool.of_not_eq_false hran)
      rw [show (rashLuaDeny reason s.globals).2.1.context.executed = false from hwait] at hran'
      cases hran'
    obtain ⟨hold, hpointer⟩ := h.bit hwait'
    exact ⟨hframe.enforcing.trans hold, hframe.pointer.trans hpointer⟩
  refine ⟨?_, hbit⟩
  have hcontext : (hookDeny index hook.enforcing reason s).2.context =
      (rashLuaDeny reason s.globals).2.1.context := rfl
  by_cases hsame : (hookDeny index hook.enforcing reason s).2.context = s.context
  · have hmarks : (if s.context.denied = false ∧
        (rashLuaDeny reason s.globals).2.1.context.denied = true then [HookEvent.marked]
        else []) = [] := by
      rw [← hcontext, hsame]
      simp
    have hlog : (hookDeny index hook.enforcing reason s).2.log =
        s.log ++ (.deny index hook.enforcing ::
          (rashLuaDeny reason s.globals).2.2.map .printed) := by
      simp only [hookDeny, hmarks, List.nil_append]
    refine h.contract.of_reports hsame (fun _ => hframe.stages) hlog (rans_printed _)
      (returnedStatuses_printed _) (statusWrites_printed _) ?_
    rintro (henf | hlines) hnone
    · -- Had nothing been executed, the denial would have marked the context.
      by_contra hexec
      have hwait : s.context.executed = false := by simpa using hexec
      obtain ⟨hbit, hpointer⟩ := h.bit hwait
      have hlife : s.globals.inLifecycle = true := by
        simp [HookGlobals.inLifecycle, hpointer, show s.globals.context.active = true from
          h.contract.active]
      have hden := rashLuaDeny_lifecycle reason (hbit.trans henf) (h.contract.quiet hwait) hlife hwait
      rw [← hcontext, hsame] at hden
      exact hexec (h.contract.deniedExecuted hden)
    · exact absurd hlines (refused_printed _)
  · rcases rashLuaDeny_context reason s.globals with hkeep | ⟨hmark, henf, hexec⟩
    · exact absurd hkeep hsame
    · have hfirst : s.context.denied = false := by
        by_contra hden
        have hden' : s.globals.context.denied = true := Bool.of_not_eq_false hden
        rw [rashMarkDenied, if_pos hden'] at hmark
        exact hsame hmark
      have hwait : s.context.executed = false := by
        by_contra hran
        have hden := hexec (Bool.of_not_eq_false hran)
        rw [show s.globals.context.denied = false from hfirst] at hden
        cases hden
      have hdenied : (rashLuaDeny reason s.globals).2.1.context.denied = true := by
        rw [hmark, rashMarkDenied, show s.globals.context.denied = false from hfirst]
        rfl
      have hlog : (hookDeny index hook.enforcing reason s).2.log =
          s.log ++ (.deny index hook.enforcing :: .marked ::
            (rashLuaDeny reason s.globals).2.2.map .printed) := by
        simp only [hookDeny, hfirst, hdenied, and_self, if_true, List.cons_append,
          List.nil_append]
      refine h.contract.of_mark reason hfirst hmark hlog (rans_printed _) ?_ ⟨hook, hmem, ?_⟩
      · exact congrArg (executionFailure :: ·) (statusWrites_printed _)
      · rw [← (h.bit hwait).1]
        exact henf

/-- `rash_mark_denied` behind events that only report. -/
theorem markDenied_contract (hmem : hook ∈ hooks) (henf : hook.enforcing = true)
    (h : Contract hooks s) (reason : String) {s₁ : LifecycleState σ} (hproc : s₁.proc = s.proc)
    {events : List HookEvent} (hlog : s₁.log = s.log ++ events) (hrans : rans events = [])
    (hreturned : returnedStatuses events = []) (hwrites : statusWrites events = []) :
    Contract hooks (markDenied reason s₁) := by
  have hcontext : s₁.context = s.context := congrArg (fun p => p.globals.context) hproc
  by_cases hden : s.context.denied = true
  · have hmark : rashMarkDenied s₁.context reason = (s₁.context, []) := by
      rw [rashMarkDenied, hcontext, if_pos hden]
    have hden₁ : s₁.context.denied = true := by rw [hcontext, hden]
    have hsame : markDenied reason s₁ = s₁ := by
      simp only [markDenied, hmark, hden₁, if_true, List.map_nil, List.append_nil]
      rfl
    rw [hsame]
    exact h.of_reports hcontext
      (fun _ => congrArg (fun p => p.globals.stages) hproc) hlog hrans hreturned hwrites
      fun _ _ => h.deniedExecuted hden
  · have hfirst : s.context.denied = false := by simpa using hden
    have hlog' : (markDenied reason s₁).log = s.log ++
        (events ++ (.marked :: (rashMarkDenied s.context reason).2.map .printed)) := by
      simp [markDenied, hcontext, hfirst, hlog]
    refine h.of_mark reason hfirst ?_ hlog' ?_ ?_ ⟨hook, hmem, henf⟩
    · rw [← hcontext]
      rfl
    · rw [rans_append, hrans]
      exact rans_printed _
    · rw [statusWrites_append, hwrites]
      exact congrArg (executionFailure :: ·) (statusWrites_printed _)

/-- A hook returned a number. -/
theorem Contract.of_returned (h : Contract hooks s) {s' : LifecycleState σ} {status : Status}
    (hcontext : s'.context = { s.context with executed := true, result := status })
    (hlog : s'.log = s.log ++ [.returned status]) : Contract hooks s' := by
  have hrans : rans s'.log = rans s.log := by
    rw [hlog, rans_append]
    exact List.append_nil _
  constructor
  · rw [hcontext]; exact h.active
  · rw [hcontext]; nofun
  · rw [hcontext]; nofun
  · rw [hrans]; exact h.once
  · rw [hrans]; exact h.returned
  · rw [hcontext]; exact fun _ => rfl
  · rw [hcontext, hlog, statusWrites_append]
    intro _
    exact List.getLastD_concat.symm
  · rw [hcontext, hrans, hlog, refused_append]
    rintro (hold | ⟨-, hnew⟩)
    · exact ⟨rfl, (h.refused hold).2⟩
    · exact absurd hnew id
  · rw [hlog, returnedStatuses_append]
    intro _ hnil
    cases (List.append_eq_nil_iff.mp hnil).2

theorem openHook_contract (h : Contract hooks s) (hook : Callback σ Cmd) (index : ℕ) :
    BodyContract hooks hook.enforcing (openHook hook index s) :=
  ⟨h.of_reports rfl (fun _ => rfl) rfl rfl rfl rfl (fun hnew => absurd hnew id),
    fun _ => ⟨rfl, rfl⟩⟩

theorem settleHook_contract (hmem : hook ∈ hooks) (index : ℕ) (r : LuaResult)
    (h : Contract hooks s) : Contract hooks (settleHook hook index r s) := by
  cases r with
  | raised message =>
      simp only [settleHook]
      split
      · next henf =>
          exact markDenied_contract hmem henf h _ rfl (List.append_assoc ..) rfl rfl rfl
      · exact h.of_reports rfl (fun _ => rfl) (List.append_assoc ..) rfl rfl rfl
          (fun hnew => absurd hnew (by simp [Refused]))
  | number status => exact h.of_returned rfl rfl
  | other =>
      simp only [settleHook]
      split
      · exact h
      · exact h.of_reports rfl (fun _ => rfl) rfl rfl rfl rfl (fun hnew => absurd hnew id)

theorem closeHook_contract (h : Contract hooks s) : Contract hooks (closeHook s) :=
  h.of_reports rfl (fun _ => rfl) (List.append_nil _).symm rfl rfl rfl (fun hnew => absurd hnew id)

theorem leaveLua_contract (h : Contract hooks s) : Contract hooks (leaveLua s) :=
  h.of_reports rfl (fun _ => rfl) (List.append_nil _).symm rfl rfl rfl (fun hnew => absurd hnew id)

/-- What `run()` may rely on of the hooks below. -/
def InvokeKept (hooks : List (Callback σ Cmd)) (invoke : InvokeHook σ) : Prop :=
  ∀ index s, Contract hooks s → Invoked hooks (invoke index s)

/-- A runner either answers with an error or goes on with the hooks below. -/
theorem rashHookRun_cases (invoke : InvokeHook σ) (target : Option ℕ) (s : LifecycleState σ) :
    (∃ message, rashHookRun invoke target s = (.ok (.error message), s)) ∨
      ∃ index id runner, rashHookRun invoke target s =
        ((invoke index (s.setRunner id runner)).1.map .ok,
          (invoke index (s.setRunner id runner)).2) := by
  rcases target with _ | id
  · exact Or.inl ⟨_, rfl⟩
  · simp only [rashHookRun]
    rcases s.runners[id]? with _ | runner
    · exact Or.inl ⟨_, rfl⟩
    · dsimp only
      split_ifs
      · exact Or.inl ⟨_, rfl⟩
      · exact Or.inl ⟨_, rfl⟩
      · exact Or.inr ⟨_, _, _, rfl⟩

theorem rashHookRun_contract {invoke : InvokeHook σ} (hinvoke : InvokeKept hooks invoke)
    {enforcing : Bool} (h : BodyContract hooks enforcing s) (target : Option ℕ) :
    Ends (fun _ t => BodyContract hooks enforcing t) LeftByJump
      (rashHookRun invoke target s) := by
  rcases rashHookRun_cases invoke target s with ⟨message, heq⟩ | ⟨index, id, runner, heq⟩
  · rw [heq]
    exact h
  · have hkept := hinvoke index (s.setRunner id runner)
      (h.contract.of_reports rfl (fun _ => rfl) (List.append_nil _).symm rfl rfl rfl
        (fun hnew => absurd hnew (by simp [Refused])))
    rw [heq]
    rcases hres : invoke index (s.setRunner id runner) with ⟨code | status, t⟩
    · rw [hres] at hkept
      exact hkept
    · rw [hres] at hkept
      refine ⟨hkept.1, fun hwait => ?_⟩
      rw [hkept.2.1] at hwait
      cases hwait

theorem hookPort_contract (hmem : hook ∈ hooks) {invoke : InvokeHook σ}
    (hinvoke : InvokeKept hooks invoke) (index own : ℕ) (o : LuaOp σ)
    (h : BodyContract hooks hook.enforcing s) :
    Ends (fun _ t => BodyContract hooks hook.enforcing t) LeftByJump
      (hookPort invoke index own hook.enforcing o s) := by
  have hquiet : ∀ t : LifecycleState σ, t.globals = s.globals → t.log = s.log →
      BodyContract hooks hook.enforcing t := by
    intro t hglobals hlog
    have hcontext : t.context = s.context := congrArg HookGlobals.context hglobals
    refine ⟨h.contract.of_reports hcontext (fun _ => congrArg HookGlobals.stages hglobals)
      (hlog.trans (List.append_nil _).symm) rfl rfl rfl
      (fun hnew => absurd hnew (by simp [Refused])), ?_⟩
    rw [hcontext, hglobals]
    exact h.bit
  cases o with
  | get => exact h
  | set lua => exact hquiet _ rfl rfl
  | deny reason => exact hookDeny_contract hmem index reason h
  | next => exact rashHookRun_contract hinvoke h (some own)
  | keep slot => exact hquiet _ rfl rfl
  | stored slot => exact rashHookRun_contract hinvoke h (s.kept slot)

/-- The body of a hook ends in its contract, or leaves with the command. -/
theorem callHook_contract (hmem : hook ∈ hooks) {invoke : Option (InvokeHook σ)}
    (hinvoke : ∀ below, invoke = some below → InvokeKept hooks below) (call : CommandCall Cmd)
    (index : ℕ) (h : Contract hooks s) :
    Ends (fun _ t => BodyContract hooks hook.enforcing t) LeftByJump
      (callHook invoke call hook index s) := by
  rcases invoke with _ | below
  · exact openHook_contract h hook index
  · refine Prog.run_invariant_exit (fun o t a t' ht he => ?_) (fun o t x t' ht he => ?_) _
      (openHook_contract h hook index)
    · have hport := hookPort_contract hmem (hinvoke below rfl) index s.runners.length o ht
      rw [he] at hport
      exact hport
    · have hport := hookPort_contract hmem (hinvoke below rfl) index s.runners.length o ht
      rw [he] at hport
      exact hport

end Steps

/-! ## The whole chain -/

variable (exec : Executor σ Cmd) (call : CommandCall Cmd) {hooks : List (Callback σ Cmd)}

theorem invokeFrom_contract {invoke : Option (InvokeHook σ)}
    (hinvoke : ∀ below, invoke = some below → InvokeKept hooks below)
    {suffix : List (Callback σ Cmd)} (hsub : ∀ hook ∈ suffix, hook ∈ hooks) (index : ℕ)
    {s : LifecycleState σ} (h : Contract hooks s) :
    Invoked hooks (invokeFrom exec call invoke suffix index s) := by
  induction suffix generalizing index s with
  | nil =>
      simp only [invokeFrom]
      split
      · next hden => exact ⟨h, h.deniedExecuted hden, rfl⟩
      · exact rashExecuteOriginal_invoked h exec call
  | cons hook rest ih =>
      have hmem := hsub hook (List.mem_cons_self ..)
      have hbody := callHook_contract hmem hinvoke call index h
      simp only [invokeFrom]
      split
      · next hden => exact ⟨h, h.deniedExecuted hden, rfl⟩
      · rcases hcall : callHook invoke call hook index s with ⟨code | r, t⟩
        · rw [hcall] at hbody
          exact hbody
        · rw [hcall] at hbody
          have hsettled := closeHook_contract
            (settleHook_contract hmem index r (leaveLua_contract hbody.contract))
          dsimp only
          split
          · next hden => exact ⟨hsettled, hsettled.deniedExecuted hden, rfl⟩
          · split
            · exact ih (fun hook' hmem' => hsub hook' (List.mem_cons_of_mem hook hmem')) _ hsettled
            · next hran => exact ⟨hsettled, Bool.of_not_eq_false hran, rfl⟩

theorem rashInvokeHook_contract (room : ℕ) :
    InvokeKept hooks (rashInvokeHook exec call hooks room) := by
  induction room with
  | zero =>
      intro index s h
      exact invokeFrom_contract exec call (fun below heq => by cases heq) (fun hook => List.mem_of_mem_drop) index h
  | succ room ih =>
      intro index s h
      refine invokeFrom_contract exec call (fun below heq => ?_)
        (fun hook => List.mem_of_mem_drop) index h
      cases heq
      exact ih

/-- A hook chain is started on a fresh context, outside the stages. -/
structure StartsFresh (s : LifecycleState σ) : Prop where
  context : s.context = .fresh
  stages : s.globals.stages.any = false
  log : s.log = []

/-- After a refusal by an enforcing hook, or one that returns neither a status nor from
`run()`, the command does not run and the status is not zero. -/
def FailsClosed (x : HookOutcome σ) : Prop :=
  Refused x.2.log ∨ FellThrough x.2.log →
    rans x.2.log = [] ∧ ∃ status, x.1 = .ok status ∧ status ≠ 0

theorem StartsFresh.contract {s : LifecycleState σ} (h : StartsFresh s) : Contract hooks s := by
  have hnone : rans s.log = [] := by rw [h.log]; rfl
  constructor
  · rw [h.context]; rfl
  · exact fun _ => h.stages
  · exact fun _ => hnone
  · rw [hnone]; exact Nat.zero_le 1
  · rw [hnone]; nofun
  · rw [h.context]; nofun
  · rw [h.context, h.log]
    exact fun _ => rfl
  · rw [h.log]; exact fun hnew => absurd hnew id
  · rw [h.context, hnone]
    exact fun _ _ => ⟨rfl, nofun, nofun⟩

theorem FailsClosed.status {s : LifecycleState σ} {status : Status} (h : Contract hooks s)
    (hstatus : s.context.result = status) (hnone : rans s.log = []) :
    status ≠ 0 ↔ (statusWrites s.log).getLast? ≠ some 0 := by
  rw [← hstatus, h.result hnone, List.getLastD_eq_getLast?]
  cases (statusWrites s.log).getLast? with
  | none => simp [executionFailure]
  | some last => simp

/-- A fresh context over a process that has run nothing. -/
def LifecycleState.fresh (lua : σ) : LifecycleState σ where
  proc := { Process.initial lua with globals := { HookGlobals.initial with context := .fresh } }
  runners := []
  kept _ := none
  serial := 0
  log := []

/-- An enforcing hook that returns nothing and does not call `run()`. -/
def silentHook : Callback σ Cmd := ⟨true, fun _ => .ret .other⟩

def silentRun : HookOutcome Unit :=
  rashInvokeHook succeedingExecutor (foregroundCall ()) [silentHook] 1 1 (LifecycleState.fresh ())

end Rash
