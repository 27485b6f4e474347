import Rash.Hooks.RackOnce

/-!
# Denials in a chain

`rash_rack_invoke` resets `rack_denied` before every layer and does not look at it before it
runs the command, so a denial stands only as long as no `next()` is entered after it.
-/

namespace Rash

open Interaction

variable {σ Cmd : Type}

/-- An enforcing layer of the run called `rash.deny` before the run's command started. -/
def DeniedFirst (serial : ℕ) : List RackEvent → Prop
  | [] => False
  | .deny n _ enforcing :: rest => (n = serial ∧ enforcing = true) ∨ DeniedFirst serial rest
  | .exec n _ :: rest => n ≠ serial ∧ DeniedFirst serial rest
  | .consult .. :: rest => DeniedFirst serial rest
  | .printed _ :: rest => DeniedFirst serial rest

/-- The denial holds: the command does not run and the call returns `EXECUTION_FAILURE`. -/
def CallRecord.DenialFinal (r : CallRecord) : Prop :=
  DeniedFirst r.serial r.events →
    r.serial ∉ executed r.events ∧ r.outcome = .ok executionFailure

/-- The run whose layer or command an event enters. -/
def RackEvent.entered : RackEvent → Option ℕ
  | .consult serial _ _ => some serial
  | .exec serial _ => some serial
  | _ => none

/-- Whenever a layer or a command is entered, it is one of this run, and no denial of it
stands. -/
def EntersUndenied (serial : ℕ) (log : List RackEvent) : Prop :=
  ∀ before e after n, log = before ++ e :: after → e.entered = some n →
    n = serial ∧ ¬ DeniedFirst serial before

@[simp] theorem deniedFirst_nil (serial : ℕ) : ¬ DeniedFirst serial [] := id

theorem deniedFirst_append (serial : ℕ) (a b : List RackEvent) :
    DeniedFirst serial (a ++ b) ↔
      DeniedFirst serial a ∨ (serial ∉ executed a ∧ DeniedFirst serial b) := by
  induction a with
  | nil => simp
  | cons e rest ih =>
      cases e with
      | exec n denied =>
          have hran : executed (.exec n denied :: rest) = n :: executed rest := rfl
          simp only [List.cons_append, DeniedFirst, ih, hran, List.mem_cons, not_or]
          by_cases hn : n = serial
          · simp [hn]
          · simp [hn, Ne.symm hn]
      | consult n index denied => exact ih
      | deny n index enforcing => simp only [List.cons_append, DeniedFirst, ih, or_assoc]; rfl
      | printed line => exact ih

theorem deniedFirst_printed (serial : ℕ) (lines : List String) :
    ¬ DeniedFirst serial (lines.map .printed) := by
  induction lines with
  | nil => exact id
  | cons line rest ih => exact ih

theorem EntersUndenied.mono {serial : ℕ} {log log' : List RackEvent}
    (h : EntersUndenied serial log') (hle : log <+: log') : EntersUndenied serial log := by
  obtain ⟨rest, rfl⟩ := hle
  intro before e after n hlog
  exact h before e (after ++ rest) n (by rw [hlog]; simp)

theorem EntersUndenied.last {serial n : ℕ} {log : List RackEvent} {e : RackEvent}
    (h : EntersUndenied serial (log ++ [e])) (he : e.entered = some n) :
    n = serial ∧ ¬ DeniedFirst serial log :=
  h log e [] n rfl he

theorem EntersUndenied.mem {serial n : ℕ} {log : List RackEvent} {e : RackEvent}
    (h : EntersUndenied serial log) (he : e ∈ log) (hn : e.entered = some n) : n = serial := by
  obtain ⟨before, after, rfl⟩ := List.append_of_mem he
  exact (h before e after n rfl hn).1

/-! ## The invariant of a chain -/

/-- While the command of the run has not started, `rash.deny` reaches `rack_denied`, and a
denial is still recorded there. -/
structure DenialStands (serial : ℕ) (s : RackState σ Cmd) : Prop where
  depth : 0 < s.globals.rackDepth
  quiet : serial ∉ executed s.log →
    s.globals.stages.any = false ∧ s.globals.inLifecycle = false
  denied : DeniedFirst serial s.log → s.globals.rackDenied = true ∧ serial ∉ executed s.log

/-- What a chain of the run guarantees when no `next()` is entered under a denial. -/
structure DenialKept (serial : ℕ) (before : RackState σ Cmd) (x : RackResult σ Cmd) : Prop where
  stands : DenialStands serial x.2
  enforcing : serial ∉ executed x.2.log →
    x.2.globals.currentHookEnforcing = before.globals.currentHookEnforcing
  jumped : ∀ code, x.1 = .error code → serial ∈ executed x.2.log
  failed : DeniedFirst serial x.2.log → x.1 = .ok executionFailure

theorem denialStands_of_executed {serial : ℕ} {s : RackState σ Cmd}
    (hdepth : 0 < s.globals.rackDepth) (hran : serial ∈ executed s.log)
    (hnot : ¬ DeniedFirst serial s.log) : DenialStands serial s :=
  ⟨hdepth, fun h => absurd hran h, fun h => absurd h hnot⟩

/-- Entering the command when no denial stands. -/
theorem executeRun_denial (exec : Executor σ Cmd) {run : RackRun Cmd} {s : RackState σ Cmd}
    (before : RackState σ Cmd) (hdepth : 0 < s.globals.rackDepth)
    (hgood : EntersUndenied run.serial (executeRun exec run s).2.log) :
    DenialKept run.serial before (executeRun exec run s) := by
  have hnot : ¬ DeniedFirst run.serial (executeRun exec run s).2.log := by
    have hlast := (EntersUndenied.last (e := .exec run.serial s.globals.rackDenied) hgood rfl).2
    change ¬ DeniedFirst run.serial (s.log ++ [_])
    simp [deniedFirst_append, hlast, DeniedFirst]
  have hran : run.serial ∈ executed (executeRun exec run s).2.log := by
    simp [executed_executeRun]
  have hdepth' : 0 < (executeRun exec run s).2.globals.rackDepth := by
    rw [executeRun_rackDepth exec run hdepth]
    exact hdepth
  exact ⟨denialStands_of_executed hdepth' hran hnot, fun h => absurd hran h,
    fun _ _ => hran, fun h => absurd h hnot⟩

/-- The state of a layer's body while no `next()` was entered under a denial. -/
structure BodyStands (serial : ℕ) (enforcing : Bool) (s : RackState σ Cmd) : Prop where
  stands : DenialStands serial s
  bit : serial ∉ executed s.log → s.globals.currentHookEnforcing = enforcing

theorem rackDeny_deniedFirst (run : RackRun Cmd) (index : ℕ) (enforcing : Bool)
    (reason : String) (s : RackState σ Cmd) :
    DeniedFirst run.serial (rackDeny run index enforcing reason s).2.log ↔
      DeniedFirst run.serial s.log ∨ (run.serial ∉ executed s.log ∧ enforcing = true) := by
  have hlines := deniedFirst_printed run.serial (rashLuaDeny reason s.globals).2.2
  change DeniedFirst run.serial (s.log ++ _ :: _) ↔ _
  simp [deniedFirst_append, DeniedFirst, hlines]

/-- `rash.deny` keeps the invariant: an enforcing layer raises `rack_denied`, an advisory one
changes nothing. -/
theorem rackDeny_stands {run : RackRun Cmd} {index : ℕ} {enforcing : Bool} (reason : String)
    {s : RackState σ Cmd} (h : BodyStands run.serial enforcing s) :
    BodyStands run.serial enforcing (rackDeny run index enforcing reason s).2 := by
  have hran := executed_rackDeny run index enforcing reason s
  have hframe := rashLuaDeny_frame reason s.globals
  have hden := rackDeny_deniedFirst run index enforcing reason s
  refine ⟨⟨?_, ?_, ?_⟩, ?_⟩
  · change 0 < (rashLuaDeny reason s.globals).2.1.rackDepth
    rw [hframe.rackDepth]
    exact h.stands.depth
  · intro hnone
    rw [hran] at hnone
    obtain ⟨hstage, hlife⟩ := h.stands.quiet hnone
    refine ⟨(congrArg StageFlags.any hframe.stages).trans hstage, ?_⟩
    change (rashLuaDeny reason s.globals).2.1.inLifecycle = false
    rw [HookGlobals.inLifecycle, hframe.pointer, hframe.active]
    exact hlife
  · rw [hden, hran]
    rintro (hbefore | ⟨hnone, henf⟩)
    · obtain ⟨hdenied, hnone⟩ := h.stands.denied hbefore
      exact ⟨hframe.rackDenied hdenied, hnone⟩
    · obtain ⟨hstage, hlife⟩ := h.stands.quiet hnone
      have hbit := (h.bit hnone).trans henf
      exact ⟨(rashLuaDeny_rack reason hbit hstage h.stands.depth hlife).2, hnone⟩
  · rw [hran]
    intro hnone
    exact hframe.enforcing.trans (h.bit hnone)

/-- A layer is opened when no denial stands. -/
theorem openLayer_stands {layer : Callback σ Cmd} {run : RackRun Cmd} {index : ℕ}
    {s : RackState σ Cmd} (h : DenialStands run.serial s)
    (hgood : EntersUndenied run.serial (openLayer layer run index s).log) :
    BodyStands run.serial layer.enforcing (openLayer layer run index s) := by
  have hran : executed (openLayer layer run index s).log = executed s.log := by
    change executed (s.log ++ [_]) = _
    simp [executed]
  have hnot : ¬ DeniedFirst run.serial (openLayer layer run index s).log := by
    have hlast : ¬ DeniedFirst run.serial s.log :=
      (EntersUndenied.last (e := .consult run.serial index s.globals.rackDenied) hgood rfl).2
    change ¬ DeniedFirst run.serial (s.log ++ [_])
    simp [deniedFirst_append, hlast, DeniedFirst]
  refine ⟨⟨h.depth, ?_, fun hden => absurd hden hnot⟩, fun _ => rfl⟩
  rw [hran]
  exact h.quiet

/-- The branches behind a layer keep what the body left. -/
theorem settleLayer_denial (exec : Executor σ Cmd) (layer : Callback σ Cmd)
    {run : RackRun Cmd} (r : LuaResult) {s : RackState σ Cmd} (before : RackState σ Cmd)
    (h : BodyStands run.serial layer.enforcing s)
    (hgood : EntersUndenied run.serial
      (settleLayer exec layer run r
        (closeLayer before.globals.currentHookEnforcing s)).2.log) :
    DenialKept run.serial before
      (settleLayer exec layer run r (closeLayer before.globals.currentHookEnforcing s)) := by
  have hclosed : DenialStands run.serial (closeLayer before.globals.currentHookEnforcing s) :=
    ⟨h.stands.depth, h.stands.quiet, h.stands.denied⟩
  have hnote : ∀ line, DenialStands run.serial
      ((closeLayer before.globals.currentHookEnforcing s).note (.printed line)) := by
    intro line
    refine ⟨h.stands.depth, ?_, ?_⟩
    · rw [executed_note_printed]
      exact h.stands.quiet
    · rw [executed_note_printed]
      change DeniedFirst run.serial (s.log ++ [_]) → _
      rw [deniedFirst_append]
      rintro (hden | ⟨-, hden⟩)
      · exact h.stands.denied hden
      · exact absurd hden id
  revert hgood
  unfold settleLayer
  split
  · next hden =>
      intro _
      exact ⟨⟨h.stands.depth, h.stands.quiet, h.stands.denied⟩, fun _ => rfl, nofun,
        fun _ => rfl⟩
  · next hden =>
      have hnot : ¬ DeniedFirst run.serial s.log := fun h' => hden (h.stands.denied h').1
      cases r with
      | number status =>
          intro _
          exact ⟨hclosed, fun _ => rfl, nofun, fun h' => absurd h' hnot⟩
      | other =>
          intro _
          exact ⟨hnote _, fun _ => rfl, nofun, fun _ => rfl⟩
      | raised message =>
          dsimp only
          split
          · intro _
            exact ⟨hnote _, fun _ => rfl, nofun, fun _ => rfl⟩
          · intro hgood
            exact executeRun_denial exec before (hnote _).depth hgood

theorem entered_logged (exec : Executor σ Cmd) (layers : List (Callback σ Cmd)) (room : ℕ)
    (run : RackRun Cmd) (index : ℕ) (s : RackState σ Cmd) :
    ∃ e ∈ (rashRackInvoke exec layers room run index s).2.log, e.entered = some run.serial := by
  cases hl : layers[index - 1]? with
  | none =>
      rw [rashRackInvoke_none hl]
      exact ⟨.exec run.serial s.globals.rackDenied, by simp [executeRun], rfl⟩
  | some layer => exact ⟨_, consult_logged exec room run s hl, rfl⟩

/-- The chain of a run with `room` protected calls left keeps every denial as long as no
`next()` is entered under one. -/
def ChainKept (exec : Executor σ Cmd) (layers : List (Callback σ Cmd)) (room serial : ℕ) :
    Prop :=
  ∀ (run : RackRun Cmd) (index : ℕ) (s : RackState σ Cmd), run.serial = serial →
    DenialStands serial s →
    EntersUndenied serial (rashRackInvoke exec layers room run index s).2.log →
    DenialKept serial s (rashRackInvoke exec layers room run index s)

/-- Every `next()` that a body calls keeps its invariant; one that jumps has entered the
command. -/
theorem rashRackNext_stands {exec : Executor σ Cmd} {layers : List (Callback σ Cmd)} {room : ℕ}
    {serial : ℕ} {enforcing : Bool} {s : RackState σ Cmd}
    (ih : ChainKept exec layers room serial)
    (h : BodyStands serial enforcing s) (target : Option (RackRun Cmd × ℕ))
    (hgood : EntersUndenied serial
      (rashRackNext (rashRackInvoke exec layers room) target s).2.log) :
    BodyStands serial enforcing (rashRackNext (rashRackInvoke exec layers room) target s).2 ∧
      ∀ code, (rashRackNext (rashRackInvoke exec layers room) target s).1 = .error code →
        serial ∈ executed (rashRackNext (rashRackInvoke exec layers room) target s).2.log := by
  rcases target with _ | ⟨run, index⟩
  · exact ⟨h, nofun⟩
  · obtain ⟨e, he, hn⟩ := entered_logged exec layers room run index s
    have hkept := ih run index s (hgood.mem he hn) h.stands hgood
    have hframe := rashRackInvoke_frame exec layers room run index s
    refine ⟨⟨hkept.stands, fun hnone => (hkept.enforcing hnone).trans (h.bit fun hran => ?_)⟩,
      fun code hcode => ?_⟩
    · exact hnone ((executed_mono hframe.log).subset hran)
    · refine hkept.jumped code ?_
      simp only [rashRackNext] at hcode
      cases hres : (rashRackInvoke exec layers room run index s).1 with
      | ok status => rw [hres] at hcode; cases hcode
      | error code' => rw [hres] at hcode; cases hcode; rfl

theorem rackPort_stands {exec : Executor σ Cmd} {layers : List (Callback σ Cmd)} {room : ℕ}
    {run : RackRun Cmd} {enforcing : Bool} (ih : ChainKept exec layers room run.serial)
    (index : ℕ) (o : LuaOp σ) {s : RackState σ Cmd}
    (h : EntersUndenied run.serial s.log → BodyStands run.serial enforcing s)
    (hgood : EntersUndenied run.serial
      (rackPort (rashRackInvoke exec layers room) run index enforcing o s).2.log) :
    BodyStands run.serial enforcing
        (rackPort (rashRackInvoke exec layers room) run index enforcing o s).2 ∧
      ∀ code, (rackPort (rashRackInvoke exec layers room) run index enforcing o s).1 =
          .error code →
        run.serial ∈ executed
          (rackPort (rashRackInvoke exec layers room) run index enforcing o s).2.log := by
  have hframe := rackPort_progress (rackFrame_progress exec)
    (rashRackInvoke_frame exec layers room) run index enforcing o s
  have hs := h (hgood.mono hframe.log)
  cases o with
  | get => exact ⟨hs, nofun⟩
  | set lua => exact ⟨⟨⟨hs.stands.depth, hs.stands.quiet, hs.stands.denied⟩, hs.bit⟩, nofun⟩
  | deny reason => exact ⟨rackDeny_stands reason hs, nofun⟩
  | next => exact rashRackNext_stands ih hs (some (run, index + 1)) hgood
  | keep slot =>
      exact ⟨⟨⟨hs.stands.depth, hs.stands.quiet, hs.stands.denied⟩, hs.bit⟩, nofun⟩
  | stored slot => exact rashRackNext_stands ih hs (s.kept slot) hgood

/-- The body of a layer returns with its invariant, or jumps out of the command. -/
theorem layerBody_stands {exec : Executor σ Cmd} {layers : List (Callback σ Cmd)} {room : ℕ}
    {run : RackRun Cmd} {enforcing : Bool} (ih : ChainKept exec layers room run.serial)
    (index : ℕ) (p : LuaProg σ) {s : RackState σ Cmd}
    (h : BodyStands run.serial enforcing s) :
    Ends
      (fun _ t => EntersUndenied run.serial t.log → BodyStands run.serial enforcing t)
      (fun _ t => EntersUndenied run.serial t.log →
        BodyStands run.serial enforcing t ∧ run.serial ∈ executed t.log)
      (p.run (rackPort (rashRackInvoke exec layers room) run index enforcing) s) := by
  refine Prog.run_invariant_exit (fun o t a t' ht he hgood => ?_)
    (fun o t x t' ht he hgood => ?_) p (fun _ => h)
  · have hstands := rackPort_stands ih index o ht (by rw [he]; exact hgood)
    rw [he] at hstands
    exact hstands.1
  · have hstands := rackPort_stands ih index o ht (by rw [he]; exact hgood)
    rw [he] at hstands
    exact ⟨hstands.1, hstands.2 x rfl⟩

/-- A chain in which no `next()` is entered under a denial keeps every denial. -/
theorem rashRackInvoke_denial (exec : Executor σ Cmd) (layers : List (Callback σ Cmd))
    (room serial : ℕ) : ChainKept exec layers room serial := by
  have hp := rackFrame_progress exec
  induction room with
  | zero =>
      rintro run index s rfl h hgood
      cases hl : layers[index - 1]? with
      | none =>
          rw [rashRackInvoke_none hl] at hgood ⊢
          exact executeRun_denial exec s h.depth hgood
      | some layer =>
          rw [rashRackInvoke_zero hl] at hgood ⊢
          have hopen := openLayer_stands h (hgood.mono
            (finishLayer_progress hp layer run s.globals.currentHookEnforcing
              (.ok (.raised (some stackOverflowError)), openLayer layer run index s)).log)
          exact settleLayer_denial exec layer _ s hopen hgood
  | succ room ih =>
      rintro run index s rfl h hgood
      cases hl : layers[index - 1]? with
      | none =>
          rw [rashRackInvoke_none hl] at hgood ⊢
          exact executeRun_denial exec s h.depth hgood
      | some layer =>
          have hopened := layer_progress hp
            (fun room' (_ : room' < room + 1) => rashRackInvoke_frame exec layers room') run s hl
          have hopen := openLayer_stands h (hgood.mono hopened.log)
          have hbody := layerBody_stands ih index (layer.body run.call.command) hopen
          rw [rashRackInvoke_succ hl] at hgood ⊢
          rcases hend : (layer.body run.call.command).run
              (rackPort (rashRackInvoke exec layers room) run index layer.enforcing)
              (openLayer layer run index s) with ⟨code | r, s'⟩
          · rw [hend] at hbody hgood
            obtain ⟨hs', hran⟩ := hbody hgood
            have hnot : ¬ DeniedFirst run.serial s'.log :=
              fun h' => (hs'.stands.denied h').2 hran
            exact ⟨hs'.stands, fun h' => absurd hran h', fun _ _ => hran,
              fun h' => absurd h' hnot⟩
          · rw [hend] at hbody hgood
            have hs' := hbody (hgood.mono
              (finishLayer_progress hp layer run s.globals.currentHookEnforcing (.ok r, s')).log)
            exact settleLayer_denial exec layer r s hs' hgood

/-! ## One call -/

/-- `rash_rack_execute` is called outside the stages and outside any lifecycle hook. -/
def StartsQuiet (s : RackState σ Cmd) : Prop :=
  s.globals.stages.any = false ∧ s.globals.inLifecycle = false

/-- The command of the call is entered while a denial of it stands. -/
def CallRecord.RanDenied (r : CallRecord) : Prop :=
  ∃ before denied after, r.events = before ++ .exec r.serial denied :: after ∧
    DeniedFirst r.serial before

theorem CallRecord.RanDenied.not_final {r : CallRecord} (h : r.RanDenied) :
    ¬ r.DenialFinal := by
  obtain ⟨before, denied, after, hevents, hden⟩ := h
  intro hfinal
  have hfirst : DeniedFirst r.serial r.events := by
    rw [hevents, deniedFirst_append]
    exact Or.inl hden
  refine (hfinal hfirst).1 ?_
  rw [hevents, executed_append]
  exact List.mem_append_right _ (List.mem_cons_self ..)

theorem rackCall_direct {exec : Executor σ Cmd} {layers : List (Callback σ Cmd)} {room : ℕ}
    {mode : Option String} {call : CommandCall Cmd} {s : RackState σ Cmd}
    (h : rashRackExecute exec layers room mode call { s with log := [] } =
      executeRun exec ⟨call, s.calls⟩ (RackState.openRun { s with log := [] })) :
    (rackCall exec layers room mode call s).1.events =
      [.exec s.calls s.globals.rackDenied] := by
  simp only [rackCall, h]
  rfl

/-- An enforcing layer that denies and then goes on all the same. -/
def denyingLayer : Callback σ Cmd where
  enforcing := true
  body _ := .op (.deny "no") fun _ => .op .next fun _ => .ret (.number executionSuccess)

end Rash
