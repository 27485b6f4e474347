import Rash.Exec.StageStack
import Rash.Lib.Refusal

/-!
# The verdict of a stage

Every stage calls its callbacks in the order of their registration up to the first one with its
enforcing bit set that calls `rash.deny` or fails, and denies exactly where there is one; behind
it the stack and the flags are as at rest.
-/

namespace Rash

open Interaction

variable {σ Θ : Type}

/-- What a callback that was called has done. -/
structure Report (C : Type) where
  callback : C
  enforcing : Bool
  denies : Bool
  raises : Bool

def Report.refuses {C : Type} (r : Report C) : Bool := r.enforcing && (r.denies || r.raises)

/-- The callbacks were called in order, up to and including the first that refuses. -/
structure Judged {C : Type} (registered : List C) (reports : List (Report C)) : Prop where
  inOrder : reports.map Report.callback <+: registered
  first : ∀ r ∈ reports.dropLast, r.refuses = false
  all : reports.any Report.refuses = false → reports.map Report.callback = registered

theorem judged_nil {C : Type} : Judged ([] : List C) [] :=
  ⟨List.prefix_rfl, fun _ h => absurd h List.not_mem_nil, fun _ => rfl⟩

/-- Rounds whose answers are reports. -/
theorem judged_rounds {B C S : Type} {ask : B → S → Report C × S} {name : B → C}
    (hname : ∀ b s, (ask b s).1.callback = name b) (bs : List B) (s : S) :
    Judged (bs.map name)
      ((Refusal.rounds ask (fun _ report => report.refuses) bs s).1.map Prod.snd) := by
  have hcallbacks : ((Refusal.rounds ask (fun _ report => report.refuses) bs s).1.map
      Prod.snd).map Report.callback =
      ((Refusal.rounds ask (fun _ report => report.refuses) bs s).1.map Prod.fst).map name := by
    rw [List.map_map, List.map_map]
    refine List.map_congr_left fun r hr => ?_
    obtain ⟨t, ht⟩ := Refusal.rounds_asked ask _ bs s r hr
    rw [Function.comp_apply, Function.comp_apply, ht, hname]
  refine ⟨?_, fun r hr => ?_, fun hnone => ?_⟩
  · rw [hcallbacks]
    exact (Refusal.rounds_prefix ask _ bs s).map name
  · rw [← List.map_dropLast] at hr
    obtain ⟨pair, hpair, rfl⟩ := List.mem_map.mp hr
    exact Refusal.rounds_dropLast ask _ bs s pair hpair
  · rw [hcallbacks, Refusal.rounds_all ask _ bs s]
    rw [List.any_map] at hnone
    exact hnone

def StageOp.isDeny : StageOp σ → Bool
  | .get | .set _ => false
  | .deny _ => true

/-! ## One callback -/

/-- The flags behind a `rash.deny` inside a stage. -/
theorem rashLuaDeny_stage (reason : String) {g : HookGlobals} (hstage : g.stages.any = true) :
    (rashLuaDeny reason g).2.1.stages = g.stages ∧
      (rashLuaDeny reason g).2.1.currentHookEnforcing = g.currentHookEnforcing ∧
      (rashLuaDeny reason g).2.1.stageDenied = (g.stageDenied || g.currentHookEnforcing) := by
  have hframe := rashLuaDeny_frame reason g
  refine ⟨hframe.stages, hframe.enforcing, ?_⟩
  unfold rashLuaDeny
  by_cases henf : g.currentHookEnforcing = false
  · rw [if_pos henf, henf, Bool.or_false]
  · rw [if_neg henf, if_pos hstage, Bool.eq_true_of_not_eq_false henf, Bool.or_true]
    by_cases hdenied : g.stageDenied = true
    · rw [if_pos hdenied]
      exact hdenied
    · rw [if_neg hdenied]

/-- What a callback does to the globals of a stage: its `rash.deny` raises the flag, and only
with its bit set. -/
structure Denies (denies : Bool) (g g' : HookGlobals) : Prop where
  stages : g'.stages = g.stages
  enforcing : g'.currentHookEnforcing = g.currentHookEnforcing
  stageDenied : g'.stageDenied = (g.stageDenied || g.currentHookEnforcing && denies)

theorem Denies.same {g g' : HookGlobals} (h : g' = g) : Denies false g g' := by
  subst h
  exact ⟨rfl, rfl, by rw [Bool.and_false, Bool.or_false]⟩

theorem rashLuaDeny_denies (reason : String) {g : HookGlobals} (hstage : g.stages.any = true) :
    Denies true g (rashLuaDeny reason g).2.1 := by
  obtain ⟨hstages, henforcing, hdenied⟩ := rashLuaDeny_stage reason hstage
  exact ⟨hstages, henforcing, by rw [hdenied, Bool.and_true]⟩

theorem eval_denies {Op : Type} {Ans : Op → Type} {R S : Type} {port : (o : Op) → S → Ans o × S}
    {globals : S → HookGlobals} {isDeny : Op → Bool}
    (hport : ∀ o s, (globals s).stages.any = true →
      Denies (isDeny o) (globals s) (globals (port o s).2))
    (p : Prog Op Ans R) (s : S) (hstage : (globals s).stages.any = true) :
    Denies (p.asks port isDeny s) (globals s) (globals (p.eval port s).2) := by
  induction p generalizing s with
  | ret r => exact Denies.same rfl
  | op o k ih =>
      have hasked := hport o s hstage
      have hlater := ih (port o s).1 (port o s).2 (by rw [hasked.stages]; exact hstage)
      refine ⟨hlater.stages.trans hasked.stages, hlater.enforcing.trans hasked.enforcing, ?_⟩
      refine hlater.stageDenied.trans ?_
      rw [hasked.stageDenied, hasked.enforcing, Prog.asks, Bool.and_or_distrib_left, Bool.or_assoc]

theorem stagePort_denies (o : StageOp σ) (s : SimpleState σ Θ)
    (hstage : s.shell.hooks.stages.any = true) :
    Denies o.isDeny s.shell.hooks (stagePort o s).2.shell.hooks := by
  cases o with
  | get => exact Denies.same rfl
  | set lua => exact Denies.same rfl
  | deny reason => exact rashLuaDeny_denies reason hstage

namespace CommandStage

variable (stage : CommandStage) (table : StageTable)

/-- One callback with the report of it. -/
def asked (callback : ℕ × Option (StageFunction σ) × Bool) (s : SimpleState σ Θ) :
    Report (HookKind × ℕ × Option (StageFunction σ) × Bool) × SimpleState σ Θ :=
  let called := (s.setHooks
    { s.shell.hooks with currentHookEnforcing := callback.2.2 }).note
      (.consulted stage.kind callback.1 callback.2.2)
  let denies := match callback.2.1 with
    | none => false
    | some f => (f table).asks stagePort StageOp.isDeny called
  let r := stage.consult table callback s
  (⟨(stage.kind, callback), callback.2.2, denies, r.1.isRaised⟩, r.2)

theorem failed_hooks (message : Option String) (s : SimpleState σ Θ) :
    (stage.failed message s).shell.hooks =
      { s.shell.hooks with
        stageDenied := s.shell.hooks.stageDenied || s.shell.hooks.currentHookEnforcing } := by
  unfold failed
  by_cases henf : s.shell.hooks.currentHookEnforcing = true
  · rw [if_pos henf, henf, Bool.or_true]
    cases stage.enforcingDenied <;> rfl
  · rw [if_neg henf, Bool.eq_false_iff.mpr henf, Bool.or_false]
    rfl

/-- In a stage that has not denied, the round leaves the flag as the report says. -/
theorem asked_stageDenied (callback : ℕ × Option (StageFunction σ) × Bool) (s : SimpleState σ Θ)
    (hstage : s.shell.hooks.stages.any = true) (hdenied : s.shell.hooks.stageDenied = false) :
    (stage.asked table callback s).2.shell.hooks.stages = s.shell.hooks.stages ∧
      (stage.asked table callback s).2.shell.hooks.stageDenied =
        (stage.asked table callback s).1.refuses := by
  unfold asked consult
  obtain ⟨called, hcalled⟩ : ∃ called, called =
      (s.setHooks { s.shell.hooks with currentHookEnforcing := callback.2.2 }).note
        (.consulted stage.kind callback.1 callback.2.2) := ⟨_, rfl⟩
  have hopen : called.shell.hooks.stages = s.shell.hooks.stages ∧
      called.shell.hooks.currentHookEnforcing = callback.2.2 ∧
      called.shell.hooks.stageDenied = false := by
    rw [hcalled]
    exact ⟨rfl, rfl, hdenied⟩
  dsimp only
  rw [← hcalled]
  cases callback.2.1 with
  | none =>
      dsimp only
      rw [stage.failed_hooks, hopen.2.1, hopen.2.2]
      exact ⟨hopen.1, by rw [Report.refuses, StageResult.isRaised, Bool.or_true, Bool.and_true]; rfl⟩
  | some f =>
      obtain ⟨hstages, henforcing, hflag⟩ := eval_denies stagePort_denies (f table) called
        (by rw [hopen.1]; exact hstage)
      rw [hopen.2.1, hopen.2.2, Bool.false_or] at hflag
      rw [hopen.2.1] at henforcing
      rw [hopen.1] at hstages
      dsimp only
      generalize (f table).eval stagePort called = r at hstages henforcing hflag
      obtain ⟨result, last⟩ := r
      cases result with
      | raised message =>
          dsimp only at hstages henforcing hflag ⊢
          rw [stage.failed_hooks, henforcing, hflag]
          refine ⟨hstages, ?_⟩
          rw [Report.refuses, StageResult.isRaised, Bool.or_true, Bool.and_true]
          cases callback.2.2 <;> simp
      | string _ | table _ | other =>
          refine ⟨hstages, hflag.trans ?_⟩
          rw [Report.refuses, StageResult.isRaised, Bool.or_false]

/-- The callbacks that are called, with the reports of them. -/
def rounds (callbacks : List (ℕ × Option (StageFunction σ) × Bool)) (s : SimpleState σ Θ) :
    List (Report (HookKind × ℕ × Option (StageFunction σ) × Bool)) × SimpleState σ Θ :=
  let r := Refusal.rounds (stage.asked table) (fun _ report => report.refuses) callbacks s
  (r.1.map Prod.snd, r.2)

/-- The loop calls the callbacks up to the first that refuses. -/
theorem consultEachStacked_rounds {α : Type} (take : α → StageResult → α)
    (callbacks : List (ℕ × Option (StageFunction σ) × Bool)) (a : α)
    (s : Stacked (SimpleState σ Θ)) (hstage : s.state.shell.hooks.stages.any = true)
    (hdenied : s.state.shell.hooks.stageDenied = false) :
    (stage.consultEachStacked table take callbacks a s).2.state =
        (stage.rounds table callbacks s.state).2 ∧
      (stage.rounds table callbacks s.state).2.shell.hooks.stages = s.state.shell.hooks.stages ∧
      (stage.rounds table callbacks s.state).2.shell.hooks.stageDenied =
        (stage.rounds table callbacks s.state).1.any Report.refuses := by
  have hloop : (stage.consultEachStacked table take callbacks a s).2.state =
      Refusal.untilFlag (fun callback s => (stage.consult table callback s).2)
        (fun s => s.shell.hooks.stageDenied) callbacks s.state := by
    clear hstage hdenied
    induction callbacks generalizing a s with
    | nil => rfl
    | cons callback rest ih =>
        unfold consultEachStacked Refusal.untilFlag
        dsimp only
        split_ifs with hflag
        · rfl
        · exact ih _ _
  have hstep (callback : ℕ × Option (StageFunction σ) × Bool) (t : SimpleState σ Θ)
      (ht : t.shell.hooks.stages = s.state.shell.hooks.stages)
      (hflag : t.shell.hooks.stageDenied = false) :
      (stage.consult table callback t).2 = (stage.asked table callback t).2 ∧
        (stage.asked table callback t).2.shell.hooks.stageDenied =
          (stage.asked table callback t).1.refuses ∧
        (stage.asked table callback t).2.shell.hooks.stages = s.state.shell.hooks.stages := by
    obtain ⟨hstages, hrefuses⟩ := stage.asked_stageDenied table callback t
      (by rw [ht]; exact hstage) hflag
    exact ⟨rfl, hrefuses, hstages.trans ht⟩
  obtain ⟨hlast, hflag, hstages⟩ := Refusal.untilFlag_rounds hstep callbacks rfl hdenied
  refine ⟨hloop.trans hlast, hstages, hflag.trans ?_⟩
  rw [rounds, List.any_map]
  rfl

/-- The stage as it is meant: the callbacks up to the first that refuses, and a denial if there
is one. -/
def judge (files : HookFiles σ Θ) (s : SimpleState σ Θ) :
    List (Report (HookKind × ℕ × Option (StageFunction σ) × Bool)) × SimpleState σ Θ :=
  if stage.checksState = true ∧ s.shell.globals.runningTrap ≠ 0 then ([], s)
  else
    let s := stageInitialize files stage.kind s
    if (stage.checksState = true ∧ s.shell.sys.hookState ≠ 1) ∨
        s.registered stage.kind = false then ([], s)
    else
      let r := stage.rounds table (s.callbacks stage.kind) (stage.enter s)
      let last := stage.exit r.2
      (r.1, if r.1.any Report.refuses then last.note (.denied stage.kind) else last)

/-- The guard of the stage. -/
def opens (files : HookFiles σ Θ) (s : SimpleState σ Θ) : Bool :=
  let s' := stageInitialize files stage.kind s
  (!stage.checksState || (s.shell.globals.runningTrap == 0 && s'.shell.sys.hookState == 1)) &&
    s'.registered stage.kind

/-- The callbacks that the stage has to call. -/
def registered (files : HookFiles σ Θ) (s : SimpleState σ Θ) :
    List (HookKind × ℕ × Option (StageFunction σ) × Bool) :=
  if stage.opens files s then
    ((stageInitialize files stage.kind s).callbacks stage.kind).map fun c => (stage.kind, c)
  else []

/-- The stage has a flag of its own. -/
structure Flagged : Prop where
  raised : ∀ flags, (stage.setFlag true flags).any = true
  lowered : ∀ flags, stage.setFlag false (stage.setFlag true flags) = stage.setFlag false flags

theorem stageInitialize_hooks (files : HookFiles σ Θ) (kind : HookKind) (s : SimpleState σ Θ) :
    (stageInitialize files kind s).shell.hooks = s.shell.hooks := by
  unfold stageInitialize
  split_ifs <;> rfl

variable {stage}

theorem runStacked_judge (hflag : stage.Flagged) {α : Type} (files : HookFiles σ Θ)
    (take : α → StageResult → α) (a : α) (s : Stacked (SimpleState σ Θ)) :
    (stage.runStacked files table take a s).1.1 =
        (stage.judge table files s.state).1.any Report.refuses ∧
      (stage.runStacked files table take a s).2 = ⟨(stage.judge table files s.state).2, s.top⟩ := by
  unfold runStacked judge
  by_cases htrap : stage.checksState = true ∧ s.state.shell.globals.runningTrap ≠ 0
  · rw [if_pos htrap, if_pos htrap]
    exact ⟨rfl, rfl⟩
  rw [if_neg htrap, if_neg htrap]
  dsimp only
  obtain ⟨s₀, hs₀⟩ : ∃ s₀, s₀ = stageInitialize files stage.kind s.state := ⟨_, rfl⟩
  rw [← hs₀]
  by_cases hclosed : (stage.checksState = true ∧ s₀.shell.sys.hookState ≠ 1) ∨
      s₀.registered stage.kind = false
  · rw [if_pos hclosed, if_pos hclosed]
    exact ⟨rfl, rfl⟩
  rw [if_neg hclosed, if_neg hclosed]
  obtain ⟨hloop, -, hdenied⟩ := stage.consultEachStacked_rounds table take
    (s₀.callbacks stage.kind) a ⟨stage.enter s₀, s.top⟩ (hflag.raised _) rfl
  unfold consultAllStacked
  dsimp only at hloop hdenied ⊢
  rw [hloop]
  have hexit : (stage.exit (stage.rounds table (s₀.callbacks stage.kind)
      (stage.enter s₀)).2).shell.hooks.stageDenied =
      (stage.rounds table (s₀.callbacks stage.kind) (stage.enter s₀)).1.any Report.refuses :=
    hdenied
  rw [hexit]
  cases (stage.rounds table (s₀.callbacks stage.kind) (stage.enter s₀)).1.any Report.refuses with
  | true =>
      rw [if_pos rfl, if_pos rfl]
      exact ⟨rfl, rfl⟩
  | false =>
      rw [if_neg Bool.false_ne_true, if_neg Bool.false_ne_true]
      exact ⟨rfl, rfl⟩

theorem opens_iff (files : HookFiles σ Θ) (s : SimpleState σ Θ) : stage.opens files s = true ↔
    ¬(stage.checksState = true ∧ s.shell.globals.runningTrap ≠ 0) ∧
      ¬((stage.checksState = true ∧
          (stageInitialize files stage.kind s).shell.sys.hookState ≠ 1) ∨
        (stageInitialize files stage.kind s).registered stage.kind = false) := by
  unfold opens
  cases stage.checksState <;> simp [and_assoc]

theorem judge_of_opens {files : HookFiles σ Θ} {s : SimpleState σ Θ}
    (h : stage.opens files s = true) :
    let s' := stageInitialize files stage.kind s
    let r := stage.rounds table (s'.callbacks stage.kind) (stage.enter s')
    stage.judge table files s =
      (r.1, if r.1.any Report.refuses then (stage.exit r.2).note (.denied stage.kind)
        else stage.exit r.2) := by
  obtain ⟨htrap, hclosed⟩ := (stage.opens_iff files s).mp h
  unfold judge
  rw [if_neg htrap]
  dsimp only
  rw [if_neg hclosed]

theorem judge_of_closed {files : HookFiles σ Θ} {s : SimpleState σ Θ}
    (h : ¬stage.opens files s = true) : (stage.judge table files s).1 = [] ∧
      (stage.judge table files s).2.shell.hooks = s.shell.hooks := by
  rw [opens_iff, not_and_or, not_not, not_not] at h
  unfold judge
  by_cases htrap : stage.checksState = true ∧ s.shell.globals.runningTrap ≠ 0
  · rw [if_pos htrap]
    exact ⟨rfl, rfl⟩
  · rw [if_neg htrap]
    dsimp only
    rw [if_pos (h.resolve_left htrap)]
    exact ⟨rfl, stageInitialize_hooks files stage.kind s⟩

theorem judge_judged (files : HookFiles σ Θ) (s : SimpleState σ Θ) :
    Judged (stage.registered files s) (stage.judge table files s).1 := by
  unfold registered
  by_cases hopen : stage.opens files s = true
  · rw [if_pos hopen, judge_of_opens table hopen]
    exact @judged_rounds _ _ _ (stage.asked table) _ (fun _ _ => rfl) _ _
  · rw [if_neg hopen, (judge_of_closed table hopen).1]
    exact judged_nil

/-- The flags behind the stage. -/
theorem judge_hooks (hflag : stage.Flagged) (files : HookFiles σ Θ) (s : SimpleState σ Θ) :
    if stage.opens files s then
      (stage.judge table files s).2.shell.hooks.currentHookEnforcing = false ∧
        (stage.judge table files s).2.shell.hooks.stages =
          stage.setFlag false s.shell.hooks.stages
    else (stage.judge table files s).2.shell.hooks = s.shell.hooks := by
  by_cases hopen : stage.opens files s = true
  · rw [if_pos hopen, judge_of_opens table hopen]
    dsimp only
    obtain ⟨s₀, hs₀⟩ : ∃ s₀, s₀ = stageInitialize files stage.kind s := ⟨_, rfl⟩
    rw [← hs₀]
    obtain ⟨-, hstages, -⟩ := stage.consultEachStacked_rounds table (fun u _ => u)
      (s₀.callbacks stage.kind) () ⟨stage.enter s₀, 0⟩ (hflag.raised _) rfl
    have hlowered : stage.setFlag false
        (stage.rounds table (s₀.callbacks stage.kind) (stage.enter s₀)).2.shell.hooks.stages =
        stage.setFlag false s.shell.hooks.stages := by
      rw [hstages, ← stageInitialize_hooks files stage.kind s, ← hs₀]
      exact hflag.lowered _
    split_ifs
    · exact ⟨rfl, hlowered⟩
    · exact ⟨rfl, hlowered⟩
  · rw [if_neg hopen]
    exact (judge_of_closed table hopen).2

end CommandStage

/-! ## Redirections -/

section

variable (files : HookFiles σ Θ) (lstat : Θ → String → Option Bool)

/-- What `rash_hooks_on_redirect` is meant to do: the observers of redirections, then, where none
of them refuses and a file will be lost, those of lost files. -/
def judgeRedirect (path : Option String) (ri : RInstruction) (redirectorFd : Int)
    (s : SimpleState σ Θ) :
    List (Report (HookKind × ℕ × Option (StageFunction σ) × Bool)) × SimpleState σ Θ :=
  match path with
  | none => ([], s)
  | some path =>
      if s.shell.globals.runningTrap ≠ 0 then ([], s)
      else if redirectOpens files s = false then ([], stageInitialize files .redirect s)
      else
        let s' := stageInitialize files .redirect s
        let found := lstat s'.shell.rest path
        let willClobber := rashRedirectWillClobber ri found.isSome (found.getD false)
        let table := StageTable.redirect path (rashRedirectKind ri) redirectorFd found.isSome
          willClobber
        let first := redirectStage.rounds table (s'.callbacks .redirect) (redirectStage.enter s')
        let second :=
          if first.1.any Report.refuses = false ∧ willClobber = true then
            clobberStage.rounds table (s'.callbacks .clobber) first.2
          else ([], first.2)
        let reports := first.1 ++ second.1
        let last := redirectStage.exit second.2
        (reports, if reports.any Report.refuses then last.note (.denied .redirect) else last)

/-- The callbacks that it has to call. -/
def registeredRedirect (path : Option String) (ri : RInstruction) (s : SimpleState σ Θ) :
    List (HookKind × ℕ × Option (StageFunction σ) × Bool) :=
  match path with
  | none => []
  | some path =>
      if redirectOpens files s then
        let s' := stageInitialize files .redirect s
        let found := lstat s'.shell.rest path
        ((s'.callbacks .redirect).map fun c => (.redirect, c)) ++
          if rashRedirectWillClobber ri found.isSome (found.getD false) then
            (s'.callbacks .clobber).map fun c => (.clobber, c)
          else []
      else []

theorem redirectStage_flagged : redirectStage.Flagged where
  raised flags := by simp [redirectStage, StageFlags.any]
  lowered _ := rfl

/-- One list and, where none of it refuses, another. -/
theorem Judged.append {C : Type} {registered registered' : List C}
    {reports reports' : List (Report C)}
    (h : Judged registered reports)
    (h' : reports.any Report.refuses = false → Judged registered' reports')
    (hnone : reports.any Report.refuses = true → reports' = []) :
    Judged (registered ++ registered') (reports ++ reports') := by
  by_cases hrefused : reports.any Report.refuses = true
  · rw [hnone hrefused, List.append_nil]
    refine ⟨h.inOrder.trans (List.prefix_append _ _), h.first, fun hall => ?_⟩
    rw [hrefused] at hall
    cases hall
  · have hrefused := Bool.eq_false_iff.mpr hrefused
    have h' := h' hrefused
    refine ⟨?_, fun r hr => ?_, fun hall => ?_⟩
    · rw [List.map_append, h.all hrefused]
      exact (List.prefix_append_right_inj _).mpr h'.inOrder
    · by_cases hempty : reports' = []
      · rw [hempty, List.append_nil] at hr
        exact h.first r hr
      · rw [List.dropLast_append_of_ne_nil hempty] at hr
        rcases List.mem_append.mp hr with hr | hr
        · exact Bool.eq_false_iff.mpr (List.any_eq_false.mp hrefused r hr)
        · exact h'.first r hr
    · rw [List.any_append, Bool.or_eq_false_iff] at hall
      rw [List.map_append, h.all hall.1, h'.all hall.2]

theorem onRedirect_judge (path : Option String) (ri : RInstruction) (redirectorFd : Int)
    (s : Stacked (SimpleState σ Θ)) :
    rashHooksOnRedirect files lstat path ri redirectorFd s =
      ((judgeRedirect files lstat path ri redirectorFd s.state).1.any Report.refuses,
        ⟨(judgeRedirect files lstat path ri redirectorFd s.state).2, s.top⟩) := by
  cases path with
  | none => rfl
  | some path =>
  unfold rashHooksOnRedirect judgeRedirect
  dsimp only
  by_cases htrap : s.state.shell.globals.runningTrap ≠ 0
  · rw [if_pos htrap, if_pos htrap]
    rfl
  rw [if_neg htrap, if_neg htrap]
  by_cases hclosed : redirectOpens files s.state = false
  · rw [if_pos hclosed, if_pos hclosed]
    rfl
  rw [if_neg hclosed, if_neg hclosed]
  obtain ⟨s₀, hs₀⟩ : ∃ s₀, s₀ = stageInitialize files .redirect s.state := ⟨_, rfl⟩
  rw [← hs₀]
  generalize rashRedirectWillClobber ri (lstat s₀.shell.rest path).isSome
    ((lstat s₀.shell.rest path).getD false) = willClobber
  generalize StageTable.redirect path (rashRedirectKind ri) redirectorFd
    (lstat s₀.shell.rest path).isSome willClobber = table
  obtain ⟨hloop, hstages, hdenied⟩ := redirectStage.consultEachStacked_rounds table
    (fun u _ => u) (s₀.callbacks .redirect) () ⟨redirectStage.enter s₀, s.top⟩
    (redirectStage_flagged.raised _) rfl
  generalize redirectStage.consultEachStacked table (fun u _ => u) (s₀.callbacks .redirect) ()
    ⟨redirectStage.enter s₀, s.top⟩ = redirected at hloop
  dsimp only at hloop hstages hdenied
  generalize redirectStage.rounds table (s₀.callbacks .redirect) (redirectStage.enter s₀) = first
    at hloop hstages hdenied
  -- the flag behind the second loop is what both loops report
  obtain ⟨second, hsecond⟩ : ∃ second, second =
      if first.1.any Report.refuses = false ∧ willClobber = true then
        clobberStage.rounds table (s₀.callbacks .clobber) first.2
      else ([], first.2) := ⟨_, rfl⟩
  obtain ⟨clobbered, hclobbered⟩ : ∃ clobbered, clobbered =
      if redirected.2.state.shell.hooks.stageDenied = false ∧ willClobber = true then
        clobberStage.consultEachStacked table (fun u _ => u) (s₀.callbacks .clobber) ()
          redirected.2
      else redirected := ⟨_, rfl⟩
  rw [← hsecond, ← hclobbered]
  have hboth : clobbered.2.state = second.2 ∧ second.2.shell.hooks.stageDenied =
      (first.1 ++ second.1).any Report.refuses := by
    rw [hloop, hdenied] at hclobbered
    by_cases hgoes : first.1.any Report.refuses = false ∧ willClobber = true
    · rw [if_pos hgoes] at hsecond hclobbered
      obtain ⟨hloop', -, hdenied'⟩ := clobberStage.consultEachStacked_rounds table
        (fun u _ => u) (s₀.callbacks .clobber) () redirected.2
        (by rw [hloop, hstages]; exact redirectStage_flagged.raised _)
        (by rw [hloop, hdenied]; exact hgoes.1)
      rw [hloop] at hloop' hdenied'
      rw [hsecond, hclobbered, List.any_append, hgoes.1, Bool.false_or]
      exact ⟨hloop', hdenied'⟩
    · rw [if_neg hgoes] at hsecond hclobbered
      rw [hsecond, hclobbered, List.append_nil]
      exact ⟨hloop, hdenied⟩
  have hexit : (redirectStage.exit second.2).shell.hooks.stageDenied =
      (first.1 ++ second.1).any Report.refuses := hboth.2
  rw [hboth.1, hexit]
  cases (first.1 ++ second.1).any Report.refuses with
  | true => rw [if_pos rfl, if_pos rfl]
  | false => rw [if_neg Bool.false_ne_true, if_neg Bool.false_ne_true]

theorem judgeRedirect_judged (path : Option String) (ri : RInstruction) (redirectorFd : Int)
    (s : SimpleState σ Θ) : Judged (registeredRedirect files lstat path ri s)
      (judgeRedirect files lstat path ri redirectorFd s).1 := by
  cases path with
  | none => exact judged_nil
  | some path =>
  unfold registeredRedirect judgeRedirect
  dsimp only
  by_cases htrap : s.shell.globals.runningTrap ≠ 0
  · have hclosed : redirectOpens files s = false := by
      unfold redirectOpens
      dsimp only
      rw [beq_false_of_ne htrap, Bool.false_and, Bool.false_and]
    rw [if_pos htrap, hclosed, if_neg Bool.false_ne_true]
    exact judged_nil
  rw [if_neg htrap]
  cases redirectOpens files s with
  | false =>
      rw [if_neg Bool.false_ne_true, if_pos rfl]
      exact judged_nil
  | true =>
      rw [if_pos rfl, if_neg Bool.true_eq_false.mp]
      dsimp only
      generalize stageInitialize files .redirect s = s₀
      generalize rashRedirectWillClobber ri (lstat s₀.shell.rest path).isSome
        ((lstat s₀.shell.rest path).getD false) = willClobber
      generalize StageTable.redirect path (rashRedirectKind ri) redirectorFd
        (lstat s₀.shell.rest path).isSome willClobber = table
      have hfirst : Judged ((s₀.callbacks .redirect).map fun c => (HookKind.redirect, c))
          (redirectStage.rounds table (s₀.callbacks .redirect) (redirectStage.enter s₀)).1 :=
        @judged_rounds _ _ _ (redirectStage.asked table) _ (fun _ _ => rfl) _ _
      generalize redirectStage.rounds table (s₀.callbacks .redirect) (redirectStage.enter s₀) =
        first at hfirst
      refine hfirst.append (fun hnone => ?_) fun hrefused => ?_
      · cases willClobber with
        | true =>
            rw [if_pos rfl, if_pos ⟨hnone, rfl⟩]
            exact @judged_rounds _ _ _ (clobberStage.asked table) _ (fun _ _ => rfl) _ _
        | false =>
            rw [if_neg Bool.false_ne_true, if_neg fun h => Bool.false_ne_true h.2]
            exact judged_nil
      · rw [if_neg fun h => Bool.false_ne_true (h.1.symm.trans hrefused)]

theorem judgeRedirect_hooks (path : Option String) (ri : RInstruction) (redirectorFd : Int)
    (s : SimpleState σ Θ) :
    if path.isSome && redirectOpens files s then
      (judgeRedirect files lstat path ri redirectorFd s).2.shell.hooks.currentHookEnforcing =
          false ∧
        (judgeRedirect files lstat path ri redirectorFd s).2.shell.hooks.stages =
          redirectStage.setFlag false s.shell.hooks.stages
    else (judgeRedirect files lstat path ri redirectorFd s).2.shell.hooks = s.shell.hooks := by
  cases path with
  | none => rfl
  | some path =>
  unfold judgeRedirect
  dsimp only
  rw [Option.isSome_some, Bool.true_and]
  by_cases htrap : s.shell.globals.runningTrap ≠ 0
  · have hclosed : redirectOpens files s = false := by
      unfold redirectOpens
      dsimp only
      rw [beq_false_of_ne htrap, Bool.false_and, Bool.false_and]
    rw [if_pos htrap, hclosed, if_neg Bool.false_ne_true]
  rw [if_neg htrap]
  cases redirectOpens files s with
  | false =>
      rw [if_neg Bool.false_ne_true, if_pos rfl]
      exact CommandStage.stageInitialize_hooks files .redirect s
  | true =>
      rw [if_pos rfl, if_neg Bool.true_eq_false.mp]
      have hinit := CommandStage.stageInitialize_hooks files .redirect s
      generalize stageInitialize files .redirect s = s₀ at hinit ⊢
      generalize rashRedirectWillClobber ri (lstat s₀.shell.rest path).isSome
        ((lstat s₀.shell.rest path).getD false) = willClobber
      generalize StageTable.redirect path (rashRedirectKind ri) redirectorFd
        (lstat s₀.shell.rest path).isSome willClobber = table
      obtain ⟨hloop, hstages, hdenied⟩ := redirectStage.consultEachStacked_rounds table
        (fun u _ => u) (s₀.callbacks .redirect) () ⟨redirectStage.enter s₀, 0⟩
        (redirectStage_flagged.raised _) rfl
      dsimp only at hstages hdenied
      generalize redirectStage.rounds table (s₀.callbacks .redirect) (redirectStage.enter s₀) =
        first at hstages hdenied
      obtain ⟨second, hsecond⟩ : ∃ second, second =
          if first.1.any Report.refuses = false ∧ willClobber = true then
            clobberStage.rounds table (s₀.callbacks .clobber) first.2
          else ([], first.2) := ⟨_, rfl⟩
      dsimp only
      rw [← hsecond]
      have hsame : second.2.shell.hooks.stages = first.2.shell.hooks.stages := by
        by_cases hgoes : first.1.any Report.refuses = false ∧ willClobber = true
        · rw [if_pos hgoes] at hsecond
          rw [hsecond]
          exact (clobberStage.consultEachStacked_rounds table (fun u _ => u)
            (s₀.callbacks .clobber) () ⟨first.2, 0⟩
            (by rw [hstages]; exact redirectStage_flagged.raised _)
            (by rw [hdenied]; exact hgoes.1)).2.1
        · rw [if_neg hgoes] at hsecond
          rw [hsecond]
      have hlowered : (redirectStage.exit second.2).shell.hooks.stages =
          redirectStage.setFlag false s.shell.hooks.stages := by
        change redirectStage.setFlag false second.2.shell.hooks.stages = _
        rw [hsame, hstages, ← hinit]
        exact redirectStage_flagged.lowered _
      split_ifs
      · exact ⟨rfl, hlowered⟩
      · exact ⟨rfl, hlowered⟩

end

/-! ## The calls of the executor -/

theorem beforeStage_flagged : beforeStage.Flagged where
  raised flags := by simp [beforeStage, StageFlags.any]
  lowered _ := rfl

theorem dispatchStage_flagged : dispatchStage.Flagged where
  raised flags := by simp [dispatchStage, StageFlags.any]
  lowered _ := rfl

theorem onBuiltinStage_flagged : onBuiltinStage.Flagged where
  raised flags := by simp [onBuiltinStage, StageFlags.any]
  lowered _ := rfl

theorem onFunctionStage_flagged : onFunctionStage.Flagged where
  raised flags := by simp [onFunctionStage, StageFlags.any]
  lowered _ := rfl

theorem onExecStage_flagged : onExecStage.Flagged where
  raised flags := by simp [onExecStage, StageFlags.any]
  lowered _ := rfl

namespace StageCall

/-- The stage whose flag is up while the callbacks run. -/
def stage : StageCall → CommandStage
  | .before _ => beforeStage
  | .dispatch _ _ _ => dispatchStage
  | .onBuiltin _ => onBuiltinStage
  | .onFunction _ _ => onFunctionStage
  | .onExec _ _ => onExecStage
  | .onRedirect _ _ _ => redirectStage

section

variable (files : HookFiles σ Θ) (lstat : Θ → String → Option Bool)

/-- The callbacks that are called, and the state that the call leaves. -/
def judge (call : StageCall) (s : SimpleState σ Θ) :
    List (Report (HookKind × ℕ × Option (StageFunction σ) × Bool)) × SimpleState σ Θ :=
  match call with
  | .before words =>
      beforeStage.judge (.expanded (wordTexts words) (stringList words) 0 none none) files s
  | .dispatch words haveFunction haveBuiltin =>
      let resolved :=
        if haveFunction then "function" else if haveBuiltin then "builtin" else "command"
      dispatchStage.judge (.dispatch (wordTexts words) resolved) files s
  | .onBuiltin words =>
      onBuiltinStage.judge (.named ((wordTexts words).headD "") (wordTexts words)) files s
  | .onFunction name words => onFunctionStage.judge (.named name (wordTexts words)) files s
  | .onExec path argv =>
      let r := onExecStage.judge (.exec path argv) files s
      (r.1, if r.1.any Report.refuses then r.2.setLastCommandExitValue executionFailure else r.2)
  | .onRedirect path ri redirectorFd => judgeRedirect files lstat path ri redirectorFd s

/-- The callbacks that there are to call, in the order of their registration. -/
def registered (call : StageCall) (s : SimpleState σ Θ) :
    List (HookKind × ℕ × Option (StageFunction σ) × Bool) :=
  match call with
  | .onRedirect path ri _ => registeredRedirect files lstat path ri s
  | call => call.stage.registered files s

/-- Whether there is a stage to run. -/
def opens (call : StageCall) (s : SimpleState σ Θ) : Bool :=
  match call with
  | .onRedirect path _ _ => path.isSome && redirectOpens files s
  | call => call.stage.opens files s

theorem run_judge (call : StageCall) (s : Stacked (SimpleState σ Θ)) :
    call.run files lstat s =
      ((call.judge files lstat s.state).1.any Report.refuses,
        ⟨(call.judge files lstat s.state).2, s.top⟩) := by
  cases call with
  | before words =>
      obtain ⟨hdenied, hstate⟩ := CommandStage.runStacked_judge
        (.expanded (wordTexts words) (stringList words) 0 none none) beforeStage_flagged files
        (fun u _ => u) () s
      exact Prod.ext hdenied hstate
  | dispatch words haveFunction haveBuiltin =>
      obtain ⟨hdenied, hstate⟩ := CommandStage.runStacked_judge
        (.dispatch (wordTexts words)
          (if haveFunction then "function" else if haveBuiltin then "builtin" else "command"))
        dispatchStage_flagged files DispatchChoice.take .asResolved s
      exact Prod.ext hdenied hstate
  | onBuiltin words =>
      obtain ⟨hdenied, hstate⟩ := CommandStage.runStacked_judge
        (.named ((wordTexts words).headD "") (wordTexts words)) onBuiltinStage_flagged files
        (fun u _ => u) () s
      exact Prod.ext hdenied hstate
  | onFunction name words =>
      obtain ⟨hdenied, hstate⟩ := CommandStage.runStacked_judge (.named name (wordTexts words))
        onFunctionStage_flagged files (fun u _ => u) () s
      exact Prod.ext hdenied hstate
  | onExec path argv =>
      obtain ⟨hdenied, hstate⟩ := CommandStage.runStacked_judge (.exec path argv)
        onExecStage_flagged files (fun u _ => u) () s
      unfold run judge
      dsimp only
      rw [hdenied, hstate]
      split_ifs <;> rfl
  | onRedirect path ri redirectorFd => exact onRedirect_judge files lstat path ri redirectorFd s

theorem judge_judged (call : StageCall) (s : SimpleState σ Θ) :
    Judged (call.registered files lstat s) (call.judge files lstat s).1 := by
  cases call with
  | before words => exact CommandStage.judge_judged _ files s
  | dispatch words haveFunction haveBuiltin => exact CommandStage.judge_judged _ files s
  | onBuiltin words => exact CommandStage.judge_judged _ files s
  | onFunction name words => exact CommandStage.judge_judged _ files s
  | onExec path argv => exact CommandStage.judge_judged _ files s
  | onRedirect path ri redirectorFd => exact judgeRedirect_judged files lstat path ri redirectorFd s

/-- At rest behind a call: the flag of the stage is down and no bit is installed. -/
theorem judge_hooks (call : StageCall) (s : SimpleState σ Θ) :
    if call.opens files s then
      (call.judge files lstat s).2.shell.hooks.currentHookEnforcing = false ∧
        (call.judge files lstat s).2.shell.hooks.stages =
          call.stage.setFlag false s.shell.hooks.stages
    else (call.judge files lstat s).2.shell.hooks = s.shell.hooks := by
  cases call with
  | before words => exact CommandStage.judge_hooks _ beforeStage_flagged files s
  | dispatch words haveFunction haveBuiltin =>
      exact CommandStage.judge_hooks _ dispatchStage_flagged files s
  | onBuiltin words => exact CommandStage.judge_hooks _ onBuiltinStage_flagged files s
  | onFunction name words => exact CommandStage.judge_hooks _ onFunctionStage_flagged files s
  | onExec path argv =>
      have hhooks : (StageCall.judge files lstat (.onExec path argv) s).2.shell.hooks =
          (onExecStage.judge (.exec path argv) files s).2.shell.hooks := by
        unfold judge
        dsimp only
        split_ifs <;> rfl
      rw [hhooks]
      exact CommandStage.judge_hooks _ onExecStage_flagged files s
  | onRedirect path ri redirectorFd => exact judgeRedirect_hooks files lstat path ri redirectorFd s

end

end StageCall

/-! ## Pipelines -/

def PipeOp.isDeny : PipeOp σ → Bool
  | .get | .set _ | .approveBytes _ | .execWithStdin _ _ => false
  | .deny _ => true

section

variable {ω E : Type} (world : PipeWorld σ Θ ω E)

theorem rashLuaExecWithStdin_globals (argv : Option (List (Option String)))
    (bytes : Option Bytes) (s : PipeState σ Θ ω E) :
    (rashLuaExecWithStdin world argv bytes s).2.globals = s.globals := by
  unfold rashLuaExecWithStdin startConsumer
  cases argv with
  | none => rfl
  | some entries =>
      cases bytes with
      | none => rfl
      | some bytes =>
          dsimp only
          split_ifs
          · rfl
          · cases entries.mapM id with
            | none => rfl
            | some argv =>
                dsimp only
                split_ifs
                · rfl
                · rfl
                · cases (world.feed argv bytes s.world).1.waitpid <;> rfl

theorem pipePort_denies (o : PipeOp σ) (s : PipeState σ Θ ω E)
    (hstage : s.globals.stages.any = true) :
    Denies o.isDeny s.globals (pipePort world o s).2.globals := by
  cases o with
  | get => exact Denies.same rfl
  | set lua => exact Denies.same rfl
  | deny reason => exact rashLuaDeny_denies reason hstage
  | approveBytes bytes => cases bytes <;> exact Denies.same rfl
  | execWithStdin argv bytes =>
      exact Denies.same (rashLuaExecWithStdin_globals world argv bytes _)

namespace PipeStage

variable (stage : PipeStage) (table : PipelineTable)

/-- One callback with the report of it. -/
def asked (callback : Option (PipeFunction σ) × Bool) (s : PipeState σ Θ ω E) :
    Report (Option (PipeFunction σ) × Bool) × PipeState σ Θ ω E :=
  let called := { s with globals := { s.globals with currentHookEnforcing := callback.2 } }
  let denies := match callback.1 with
    | none => false
    | some f => (f table).asks (pipePort world) PipeOp.isDeny called
  (⟨callback, callback.2, denies, pipeRaises world table callback s⟩,
    stage.consult world table callback s)

variable {stage}

theorem failed_globals (hadvisory : stage.advisoryDenies = false) (message : Option String)
    (s : PipeState σ Θ ω E) :
    (stage.failed message s).globals =
      { s.globals with stageDenied := s.globals.stageDenied || s.globals.currentHookEnforcing } := by
  unfold failed
  by_cases henf : s.globals.currentHookEnforcing = true
  · rw [if_pos henf, henf, Bool.or_true]
    rfl
  · rw [if_neg henf, hadvisory, if_neg Bool.false_ne_true, Bool.eq_false_iff.mpr henf,
      Bool.or_false]
    rfl

theorem asked_stageDenied (hadvisory : stage.advisoryDenies = false)
    (callback : Option (PipeFunction σ) × Bool) (s : PipeState σ Θ ω E)
    (hstage : s.globals.stages.any = true) (hdenied : s.globals.stageDenied = false) :
    (stage.asked world table callback s).2.globals.stages = s.globals.stages ∧
      (stage.asked world table callback s).2.globals.stageDenied =
        (stage.asked world table callback s).1.refuses := by
  unfold asked consult pipeRaises
  obtain ⟨called, hcalled⟩ : ∃ called, called =
      { s with globals := { s.globals with currentHookEnforcing := callback.2 } } := ⟨_, rfl⟩
  have hopen : called.globals.stages = s.globals.stages ∧
      called.globals.currentHookEnforcing = callback.2 ∧ called.globals.stageDenied = false := by
    rw [hcalled]
    exact ⟨rfl, rfl, hdenied⟩
  dsimp only
  rw [← hcalled]
  cases callback.1 with
  | none =>
      dsimp only
      rw [failed_globals hadvisory, hopen.2.1, hopen.2.2]
      exact ⟨hopen.1, by rw [Report.refuses, Bool.or_true, Bool.and_true]; rfl⟩
  | some f =>
      obtain ⟨hstages, henforcing, hflag⟩ := eval_denies (pipePort_denies world) (f table) called
        (by rw [hopen.1]; exact hstage)
      rw [hopen.2.1, hopen.2.2, Bool.false_or] at hflag
      rw [hopen.2.1] at henforcing
      rw [hopen.1] at hstages
      dsimp only
      generalize (f table).eval (pipePort world) called = r at hstages henforcing hflag
      obtain ⟨result, last⟩ := r
      cases result with
      | raised message =>
          dsimp only at hstages henforcing hflag ⊢
          rw [failed_globals hadvisory, henforcing, hflag]
          refine ⟨hstages, ?_⟩
          rw [Report.refuses, LuaResult.isRaised, Bool.or_true, Bool.and_true]
          cases callback.2 <;> simp
      | number _ | other =>
          exact ⟨hstages, hflag.trans (congrArg (callback.2 && ·) (Bool.or_false _).symm)⟩

variable (stage)

/-- The callbacks that are called, with the reports of them. -/
def rounds (callbacks : List (Option (PipeFunction σ) × Bool)) (s : PipeState σ Θ ω E) :
    List (Report (Option (PipeFunction σ) × Bool)) × PipeState σ Θ ω E :=
  let r := Refusal.rounds (stage.asked world table) (fun _ report => report.refuses) callbacks s
  (r.1.map Prod.snd, r.2)

/-- The stage as it is meant. -/
def judge (s : PipeState σ Θ ω E) :
    List (Report (Option (PipeFunction σ) × Bool)) × PipeState σ Θ ω E :=
  let r := stage.rounds world table (s.callbacks stage.kind) (stage.enter s)
  (r.1, stage.exit r.2)

variable {stage}

theorem consultEachStacked_rounds (hadvisory : stage.advisoryDenies = false)
    (hstops : stage.stopsWhenHandled = false) (callbacks : List (Option (PipeFunction σ) × Bool))
    (s : Stacked (PipeState σ Θ ω E)) (hstage : s.state.globals.stages.any = true)
    (hdenied : s.state.globals.stageDenied = false) :
    (stage.consultEachStacked world table callbacks s).state =
        (stage.rounds world table callbacks s.state).2 ∧
      (stage.rounds world table callbacks s.state).2.globals.stages = s.state.globals.stages ∧
      (stage.rounds world table callbacks s.state).2.globals.stageDenied =
        (stage.rounds world table callbacks s.state).1.any Report.refuses := by
  have hloop : (stage.consultEachStacked world table callbacks s).state =
      Refusal.untilFlag (fun callback s => stage.consult world table callback s)
        (fun s => s.globals.stageDenied) callbacks s.state := by
    clear hstage hdenied
    induction callbacks generalizing s with
    | nil => rfl
    | cons callback rest ih =>
        unfold consultEachStacked Refusal.untilFlag stops
        dsimp only
        rw [hstops, Bool.false_and, Bool.or_false]
        split_ifs with hflag
        · rfl
        · exact ih _
  have hstep (callback : Option (PipeFunction σ) × Bool) (t : PipeState σ Θ ω E)
      (ht : t.globals.stages = s.state.globals.stages) (hflag : t.globals.stageDenied = false) :
      stage.consult world table callback t = (stage.asked world table callback t).2 ∧
        (stage.asked world table callback t).2.globals.stageDenied =
          (stage.asked world table callback t).1.refuses ∧
        (stage.asked world table callback t).2.globals.stages = s.state.globals.stages := by
    obtain ⟨hstages, hrefuses⟩ := asked_stageDenied world table hadvisory callback t
      (by rw [ht]; exact hstage) hflag
    exact ⟨rfl, hrefuses, hstages.trans ht⟩
  obtain ⟨hlast, hflag, hstages⟩ := Refusal.untilFlag_rounds hstep callbacks rfl hdenied
  refine ⟨hloop.trans hlast, hstages, hflag.trans ?_⟩
  rw [rounds, List.any_map]
  rfl

end PipeStage

/-! ### `rash_hooks_before_pipeline` -/

theorem beforePipelineStage_raised (flags : StageFlags) :
    (beforePipelineStage.setFlag true flags).any = true := by
  simp [beforePipelineStage, StageFlags.any]

theorem runStacked_judge (table : PipelineTable) (s : Stacked (PipeState σ Θ ω E)) :
    beforePipelineStage.runStacked world table s =
        ⟨(beforePipelineStage.judge world table s.state).2, s.top⟩ ∧
      (beforePipelineStage.judge world table s.state).2.globals.stageDenied =
        (beforePipelineStage.judge world table s.state).1.any Report.refuses ∧
      (beforePipelineStage.judge world table s.state).2.globals.currentHookEnforcing = false ∧
      (beforePipelineStage.judge world table s.state).2.globals.stages =
        beforePipelineStage.setFlag false s.state.globals.stages := by
  obtain ⟨hloop, hstages, hdenied⟩ := @PipeStage.consultEachStacked_rounds _ _ _ _ world
    beforePipelineStage table rfl rfl (s.state.callbacks .beforePipeline)
    ⟨beforePipelineStage.enter s.state, s.top⟩ (beforePipelineStage_raised _) rfl
  refine ⟨?_, hdenied, rfl, ?_⟩
  · unfold PipeStage.runStacked PipeStage.judge
    dsimp only
    exact congrArg (fun state => Stacked.mk (beforePipelineStage.exit state) s.top) hloop
  · exact (congrArg (beforePipelineStage.setFlag false) hstages).trans rfl

theorem hooksInitialize_globals (kind : HookKind) (s : PipeState σ Θ ω E) :
    (s.hooksInitialize world kind).globals = s.globals := by
  unfold PipeState.hooksInitialize
  split_ifs <;> rfl

/-- A copy of an element is expanded beside the hooks. -/
theorem rashCopyExpandSimple_hooks (index : ℕ) (command : Command) (s : PipeState σ Θ ω E) :
    (rashCopyExpandSimple world index command s).2.globals = s.globals ∧
      (rashCopyExpandSimple world index command s).2.sys = s.sys := by
  unfold rashCopyExpandSimple
  split <;> exact ⟨rfl, rfl⟩

/-- The two sides of a pipeline. -/
def pipeElements : Command → Option (Command × Command)
  | .connection .pipe left right => some (left, right)
  | _ => none

/-- What `rash_hooks_before_pipeline` is meant to do: the callbacks that are called, unless the
expansion of an element leaves it. -/
def judgeBeforePipeline (command : Command) (s : PipeState σ Θ ω E) :
    Except JumpCode (List (Report (Option (PipeFunction σ) × Bool))) × PipeState σ Θ ω E :=
  if s.runningTrap ≠ 0 then (.ok [], s)
  else
    let s' := s.hooksInitialize world .beforePipeline
    if s'.armed .beforePipeline = false then (.ok [], s')
    else
      match pipeElements command with
      | none => (.ok [], s')
      | some (left, right) =>
          match rashCopyExpandSimple world 0 left s' with
          | (.error jump, s') => (.error jump, s')
          | (.ok leftWords, s') =>
              match rashCopyExpandSimple world 1 right s' with
              | (.error jump, s') => (.error jump, s')
              | (.ok rightWords, s') =>
                  let r := beforePipelineStage.judge world
                    (.beforePipeline leftWords rightWords "|") s'
                  (.ok r.1, r.2)

/-- Whether there is a stage to run. -/
def pipelineOpens (command : Command) (s : PipeState σ Θ ω E) : Bool :=
  s.runningTrap == 0 && (s.hooksInitialize world .beforePipeline).armed .beforePipeline &&
    (pipeElements command).isSome

/-- The callbacks that there are to call. -/
def registeredPipeline (command : Command) (s : PipeState σ Θ ω E) :
    List (Option (PipeFunction σ) × Bool) :=
  if pipelineOpens world command s then
    (s.hooksInitialize world .beforePipeline).callbacks .beforePipeline
  else []

/-- What is to be said of a call: its answer and its state, its callbacks, and the flags. -/
structure PipelineVerdict (command : Command) (s : Stacked (PipeState σ Θ ω E))
    (called : Except JumpCode Status × Stacked (PipeState σ Θ ω E))
    (judged : Except JumpCode (List (Report (Option (PipeFunction σ) × Bool))) ×
      PipeState σ Θ ω E) : Prop where
  denies : called = (judged.1.map fun reports =>
    if reports.any Report.refuses then executionFailure else 0, ⟨judged.2, s.top⟩)
  inOrder : ∀ reports, judged.1 = .ok reports →
    Judged (registeredPipeline world command s.state) reports
  rest : ∀ reports, judged.1 = .ok reports → pipelineOpens world command s.state = true →
    judged.2.globals.currentHookEnforcing = false ∧
      judged.2.globals.stages = beforePipelineStage.setFlag false s.state.globals.stages
  closed : (∀ reports, judged.1 = .ok reports → pipelineOpens world command s.state = false) →
    judged.2.globals = s.state.globals

variable {world}

theorem PipelineVerdict.of_closed {command : Command} {s : Stacked (PipeState σ Θ ω E)}
    (hclosed : pipelineOpens world command s.state = false) {last : PipeState σ Θ ω E}
    (hlast : last.globals = s.state.globals) :
    PipelineVerdict world command s (.ok 0, ⟨last, s.top⟩) (.ok [], last) where
  denies := rfl
  inOrder reports h := by
    cases h
    unfold registeredPipeline
    rw [hclosed, if_neg Bool.false_ne_true]
    exact judged_nil
  rest _ _ hopen := by rw [hclosed] at hopen; cases hopen
  closed _ := hlast

theorem PipelineVerdict.of_jump {command : Command} {s : Stacked (PipeState σ Θ ω E)}
    (jump : JumpCode) {last : PipeState σ Θ ω E} (hlast : last.globals = s.state.globals) :
    PipelineVerdict world command s (.error jump, ⟨last, s.top⟩) (.error jump, last) where
  denies := rfl
  inOrder _ h := by cases h
  rest _ h := by cases h
  closed _ := hlast

variable (world)

theorem beforePipeline_verdict (command : Command) (s : Stacked (PipeState σ Θ ω E)) :
    PipelineVerdict world command s (rashHooksBeforePipelineStacked world command s)
      (judgeBeforePipeline world command s.state) := by
  unfold rashHooksBeforePipelineStacked judgeBeforePipeline
  by_cases htrap : s.state.runningTrap ≠ 0
  · rw [if_pos htrap, if_pos htrap]
    refine PipelineVerdict.of_closed ?_ rfl
    unfold pipelineOpens
    rw [beq_false_of_ne htrap, Bool.false_and, Bool.false_and]
  rw [if_neg htrap, if_neg htrap]
  dsimp only
  have hinit := hooksInitialize_globals world .beforePipeline s.state
  by_cases harmed : (s.state.hooksInitialize world .beforePipeline).armed .beforePipeline = false
  · rw [if_pos harmed, if_pos harmed]
    refine PipelineVerdict.of_closed ?_ hinit
    unfold pipelineOpens
    rw [harmed, Bool.and_false, Bool.false_and]
  rw [if_neg harmed, if_neg harmed]
  split
  · rename_i left right
    have hopen : pipelineOpens world (.connection .pipe left right) s.state = true := by
      unfold pipelineOpens
      rw [Bool.eq_true_of_not_eq_false harmed, not_not.mp htrap]
      rfl
    have hpipe : pipeElements (.connection .pipe left right) = some (left, right) := rfl
    unfold consultBeforePipelineStacked
    rw [hpipe]
    dsimp only
    have hleft := rashCopyExpandSimple_hooks world 0 left
      (s.state.hooksInitialize world .beforePipeline)
    generalize rashCopyExpandSimple world 0 left
      (s.state.hooksInitialize world .beforePipeline) = expanded at hleft ⊢
    obtain ⟨_ | leftWords, s₁⟩ := expanded
    · exact PipelineVerdict.of_jump _ (hleft.1.trans hinit)
    dsimp only at hleft ⊢
    have hright := rashCopyExpandSimple_hooks world 1 right s₁
    generalize rashCopyExpandSimple world 1 right s₁ = expanded at hright ⊢
    obtain ⟨_ | rightWords, s₂⟩ := expanded
    · exact PipelineVerdict.of_jump _ (hright.1.trans (hleft.1.trans hinit))
    dsimp only at hright ⊢
    obtain ⟨hrun, hdenied, henforcing, hstages⟩ := runStacked_judge world
      (.beforePipeline leftWords rightWords "|") ⟨s₂, s.top⟩
    dsimp only at hrun hdenied henforcing hstages
    rw [hrun]
    refine ⟨?_, fun reports hreports => ?_, fun reports hreports _ => ⟨henforcing, ?_⟩,
      fun hnone => ?_⟩
    · dsimp only
      rw [hdenied]
      rfl
    · cases hreports
      unfold registeredPipeline
      rw [hopen, if_pos rfl]
      have hcallbacks : s₂.callbacks .beforePipeline =
          (s.state.hooksInitialize world .beforePipeline).callbacks .beforePipeline := by
        unfold PipeState.callbacks
        rw [hright.2, hleft.2]
      rw [← hcallbacks, ← List.map_id (s₂.callbacks .beforePipeline)]
      exact @judged_rounds _ _ _ (beforePipelineStage.asked world _) id (fun _ _ => rfl) _ _
    · rw [hstages, hright.1, hleft.1, hinit]
    · rw [hnone _ rfl] at hopen
      cases hopen
  · rename_i hother
    have hnone : pipeElements command = none := by
      unfold pipeElements
      split
      · exact absurd rfl (hother _ _)
      · rfl
    rw [hnone]
    refine PipelineVerdict.of_closed ?_ hinit
    unfold pipelineOpens
    rw [hnone]
    exact Bool.and_false _

end

/-! ## Both -/

/-- What is to be said of a call of the executor: its answer and its state, its callbacks, and
the flags. -/
structure StageVerdict (files : HookFiles σ Θ) (lstat : Θ → String → Option Bool)
    (call : StageCall) (s : Stacked (SimpleState σ Θ))
    (called : Bool × Stacked (SimpleState σ Θ))
    (judged : List (Report (HookKind × ℕ × Option (StageFunction σ) × Bool)) × SimpleState σ Θ) :
    Prop where
  denies : called = (judged.1.any Report.refuses, ⟨judged.2, s.top⟩)
  inOrder : Judged (call.registered files lstat s.state) judged.1
  rest : call.opens files s.state = true → judged.2.shell.hooks.currentHookEnforcing = false ∧
    judged.2.shell.hooks.stages = call.stage.setFlag false s.state.shell.hooks.stages
  closed : call.opens files s.state = false → judged.2.shell.hooks = s.state.shell.hooks

/-- A stage denies exactly where one of the callbacks that it called has its bit set and either
called `rash.deny` or failed; they are called in the order of their registration up to and
including the first such one, and the stack and the flags behind it are as at rest. -/
theorem stages_deny_exactly {ω E : Type} (files : HookFiles σ Θ)
    (lstat : Θ → String → Option Bool) (call : StageCall) (s : Stacked (SimpleState σ Θ))
    (world : PipeWorld σ Θ ω E) (command : Command) (t : Stacked (PipeState σ Θ ω E)) :
    StageVerdict files lstat call s (call.run files lstat s) (call.judge files lstat s.state) ∧
      PipelineVerdict world command t (rashHooksBeforePipelineStacked world command t)
        (judgeBeforePipeline world command t.state) := by
  have hhooks := call.judge_hooks files lstat s.state
  refine ⟨⟨call.run_judge files lstat s, call.judge_judged files lstat s.state, fun hopen => ?_,
    fun hclosed => ?_⟩, beforePipeline_verdict world command t⟩
  · rw [if_pos hopen] at hhooks
    exact hhooks
  · rw [hclosed, if_neg Bool.false_ne_true] at hhooks
    exact hhooks

end Rash
