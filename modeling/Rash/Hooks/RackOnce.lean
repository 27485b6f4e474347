import Mathlib.Data.Set.Defs
import Rash.Hooks.RackSession

/-!
# Executions of one command

`rash_rack_next` keeps no mark of a `next()` that was called, and the error branch of an
advisory layer runs the command itself.  Which layers make a chain run its command at most
once, and no command of an earlier call, is therefore a condition on the layers.
-/

namespace Rash

open Interaction

variable {σ Cmd : Type}

/-- The runs whose command was handed to the executor, in order. -/
def executed : List RackEvent → List ℕ :=
  List.filterMap fun
    | .exec serial _ => some serial
    | _ => none

/-- The call ran its own command at most once and no other. -/
def CallRecord.OnceOnly (r : CallRecord) : Prop := executed r.events <+: [r.serial]

/-- What a layer's body sees of its call: whether it has run the command, the variables that
hold its own `next()`, and the process. -/
structure LayerView (σ : Type) where
  called : Bool
  own : ℕ → Bool
  lua : σ
  globals : HookGlobals

/-- The globals a layer's body starts in. -/
def layerGlobals (enforcing : Bool) (g : HookGlobals) : HookGlobals :=
  { g with
    currentHookEnforcing := enforcing
    rackDenied := false
    luaCalls := g.luaCalls.enter }

/-- The command comes back with any status and any process, `rack_depth` apart. -/
def CommandRan (v : LayerView σ) (answer : Except String Status) (v' : LayerView σ) : Prop :=
  v'.called = true ∧ v'.globals.rackDepth = v.globals.rackDepth ∧ ∃ status, answer = .ok status

/-- The environment of a layer that may call its own `next()` once and no other. -/
def onceSpec : Prog.Spec (LuaOp σ) LuaOp.Ans (LayerView σ) where
  pre
    | .next, v => v.called = false
    | .stored slot, v => v.called = false ∧ v.own slot = true
    | _, _ => True
  next
    | .get, v, answer, v' => answer = v.lua ∧ v' = v
    | .set lua, v, _, v' => v' = { v with lua := lua }
    | .deny reason, v, answer, v' =>
        answer = (rashLuaDeny reason v.globals).1 ∧
          v' = { v with globals := (rashLuaDeny reason v.globals).2.1 }
    | .next, v, answer, v' => CommandRan v answer v'
    | .keep slot, v, _, v' => v' = { v with own := fun n => if n = slot then true else v.own n }
    | .stored _, v, answer, v' => CommandRan v answer v'

/-- An advisory layer that raises after it ran the command must have been denied. -/
def oncePost (enforcing : Bool) (r : LuaResult) (v : LayerView σ) : Prop :=
  v.called = true → enforcing = false → r.isRaised = true → v.globals.rackDenied = true

/-- From whatever state the process is in, the layer calls only its own `next()`, at most
once, and, if it is advisory, does not raise an error after that call. -/
def RunsNextOnce (layer : Callback σ Cmd) : Prop :=
  ∀ command lua g, g.rackDepth = 1 →
    (layer.body command).Meets onceSpec (oncePost layer.enforcing)
      ⟨false, fun _ => false, lua, layerGlobals layer.enforcing g⟩

@[simp] theorem executed_nil : executed [] = [] := rfl

@[simp] theorem executed_append (a b : List RackEvent) :
    executed (a ++ b) = executed a ++ executed b :=
  List.filterMap_append

theorem executed_mono {a b : List RackEvent} (h : a <+: b) : executed a <+: executed b := by
  obtain ⟨rest, rfl⟩ := h
  exact executed_append a rest ▸ List.prefix_append _ _

@[simp] theorem executed_printed (lines : List String) :
    executed (lines.map .printed) = [] := by
  simp [executed, List.filterMap_map]

theorem executed_executeRun (exec : Executor σ Cmd) (run : RackRun Cmd) (s : RackState σ Cmd) :
    executed (executeRun exec run s).2.log = executed s.log ++ [run.serial] := by
  simp [executeRun, executed]

@[simp] theorem executed_note_printed (s : RackState σ Cmd) (line : String) :
    executed (s.note (.printed line)).log = executed s.log := by
  simp [RackState.note, executed]

theorem executed_rackDeny (run : RackRun Cmd) (index : ℕ) (enforcing : Bool)
    (reason : String) (s : RackState σ Cmd) :
    executed (rackDeny run index enforcing reason s).2.log = executed s.log := by
  have hdeny : executed [.deny run.serial index enforcing] = [] := rfl
  rw [rackDeny, List.append_cons, executed_append, executed_append, hdeny, executed_printed]
  simp

/-! ## Layers that keep to their own `next()` -/

/-- The view of a layer's body agrees with the state it runs in. -/
structure OnceView (run : RackRun Cmd) (index : ℕ) (s : RackState σ Cmd) (v : LayerView σ) :
    Prop where
  lua : v.lua = s.proc.lua
  globals : v.globals = s.globals
  depth : s.globals.rackDepth = 1
  fresh : v.called = false → executed s.log = []
  ran : executed s.log <+: [run.serial]
  own : v.called = false → ∀ slot, v.own slot = true → s.kept slot = some (run, index + 1)

/-- What the chain below a layer keeps to. -/
structure OnceBelow (invoke : RackInvoke σ Cmd) (run : RackRun Cmd) : Prop where
  depth : ∀ index s, s.globals.rackDepth = 1 → (invoke run index s).2.globals.rackDepth = 1
  ran : ∀ index s, s.globals.rackDepth = 1 → executed s.log = [] →
    executed (invoke run index s).2.log <+: [run.serial]

theorem onceView_next {invoke : RackInvoke σ Cmd} {run : RackRun Cmd} {index : ℕ}
    (hbelow : OnceBelow invoke run) {s s' : RackState σ Cmd} {v : LayerView σ}
    (hv : OnceView run index s v) (hfresh : v.called = false) {answer : Except String Status}
    (h : rashRackNext invoke (some (run, index + 1)) s = (.ok answer, s')) :
    ∃ v', CommandRan v answer v' ∧ OnceView run index s' v' := by
  have hdepth := hbelow.depth (index + 1) s hv.depth
  have hran := hbelow.ran (index + 1) s hv.depth (hv.fresh hfresh)
  simp only [rashRackNext, Prod.mk.injEq] at h
  obtain ⟨hanswer, rfl⟩ := h
  have hstatus : ∃ status, answer = .ok status := by
    cases hres : (invoke run (index + 1) s).1 with
    | error code => rw [hres] at hanswer; cases hanswer
    | ok status => rw [hres] at hanswer; cases hanswer; exact ⟨status, rfl⟩
  refine ⟨⟨true, v.own, (invoke run (index + 1) s).2.proc.lua,
    (invoke run (index + 1) s).2.globals⟩, ⟨rfl, ?_, hstatus⟩, rfl, rfl, hdepth, ?_, hran, ?_⟩
  · rw [hv.globals, hdepth, hv.depth]
  · intro h
    cases h
  · intro h
    cases h

theorem onceView_simulates {invoke : RackInvoke σ Cmd} {run : RackRun Cmd} {index : ℕ}
    (hbelow : OnceBelow invoke run) (enforcing : Bool) :
    Prog.Simulates onceSpec (rackPort invoke run index enforcing) (OnceView run index)
      (fun _ s => executed s.log <+: [run.serial]) where
  answer {o s v a s'} hv hpre h := by
    cases o with
    | get =>
        cases h
        exact ⟨v, ⟨hv.lua.symm, rfl⟩, hv⟩
    | set lua =>
        cases h
        exact ⟨_, rfl, rfl, hv.globals, hv.depth, hv.fresh, hv.ran, hv.own⟩
    | deny reason =>
        cases h
        have hlog := executed_rackDeny run index enforcing reason s
        refine ⟨_, ⟨?_, rfl⟩, hv.lua, ?_, ?_, ?_, ?_, hv.own⟩
        · rw [hv.globals]; rfl
        · simp only [hv.globals]; rfl
        · exact (rashLuaDeny_frame reason s.globals).rackDepth.trans hv.depth
        · intro hfresh
          rw [hlog, hv.fresh hfresh]
        · rw [hlog]
          exact hv.ran
    | next => exact onceView_next hbelow hv hpre h
    | keep slot =>
        cases h
        refine ⟨_, rfl, hv.lua, hv.globals, hv.depth, hv.fresh, hv.ran, fun hfresh n hn => ?_⟩
        by_cases hslot : n = slot
        · simp [RackState.keepNext, hslot]
        · simp only [hslot, if_false] at hn
          simpa [RackState.keepNext, hslot] using hv.own hfresh n hn
    | stored slot =>
        simp only [rackPort, hv.own hpre.1 slot hpre.2] at h
        exact onceView_next hbelow hv hpre.1 h
  leave {o s v x s'} hv hpre h := by
    have hnext : v.called = false →
        executed (invoke run (index + 1) s).2.log <+: [run.serial] :=
      fun hfresh => hbelow.ran (index + 1) s hv.depth (hv.fresh hfresh)
    cases o with
    | next =>
        obtain ⟨-, rfl⟩ := Prod.mk.inj h
        exact hnext hpre
    | stored slot =>
        simp only [rackPort, hv.own hpre.1 slot hpre.2] at h
        obtain ⟨-, rfl⟩ := Prod.mk.inj h
        exact hnext hpre.1
    | get => cases h
    | set lua => cases h
    | deny reason => cases h
    | keep slot => cases h

theorem settleLayer_once (exec : Executor σ Cmd) (layer : Callback σ Cmd) (run : RackRun Cmd)
    {r : LuaResult} {s : RackState σ Cmd} (hran : executed s.log <+: [run.serial])
    (hpost : executed s.log ≠ [] → layer.enforcing = false → r.isRaised = true →
      s.globals.rackDenied = true) :
    executed (settleLayer exec layer run r s).2.log <+: [run.serial] := by
  unfold settleLayer
  split
  · exact hran
  · next hden =>
      cases r with
      | number status => exact hran
      | other => simpa using hran
      | raised message =>
          dsimp only
          split
          · simpa using hran
          · next henf =>
              have hnone : executed s.log = [] := by
                by_contra hsome
                exact hden (hpost hsome (by simpa using henf) rfl)
              rw [executed_executeRun, executed_note_printed, hnone]
              exact List.prefix_refl _

/-- A chain of layers that keep to their own `next()` runs its command at most once. -/
theorem rashRackInvoke_once (exec : Executor σ Cmd) {layers : List (Callback σ Cmd)}
    (hlayers : ∀ layer ∈ layers, RunsNextOnce layer) (room : ℕ) (run : RackRun Cmd) :
    OnceBelow (rashRackInvoke exec layers room) run := by
  have hdepth : ∀ room index (s : RackState σ Cmd), s.globals.rackDepth = 1 →
      (rashRackInvoke exec layers room run index s).2.globals.rackDepth = 1 := by
    intro room index s hs
    have hframe := rashRackInvoke_frame exec layers room run index s
    exact (hframe.depth (by omega)).trans hs
  induction room with
  | zero =>
      refine ⟨hdepth 0, fun index s hs hfresh => ?_⟩
      cases hl : layers[index - 1]? with
      | none => rw [rashRackInvoke_none hl, executed_executeRun, hfresh]; simp
      | some layer =>
          have hnone : executed (closeLayer s.globals.currentHookEnforcing
              (openLayer layer run index s)).log = [] := by
            change executed (s.log ++ [_]) = []
            rw [executed_append, hfresh]
            rfl
          rw [rashRackInvoke_zero hl]
          exact settleLayer_once exec layer run (by rw [hnone]; simp) fun h => absurd hnone h
  | succ room ih =>
      refine ⟨hdepth (room + 1), fun index s hs hfresh => ?_⟩
      cases hl : layers[index - 1]? with
      | none => rw [rashRackInvoke_none hl, executed_executeRun, hfresh]; simp
      | some layer =>
          have hnone : executed (openLayer layer run index s).log = [] := by
            change executed (s.log ++ [_]) = []
            rw [executed_append, hfresh]
            rfl
          have hview : OnceView run index (openLayer layer run index s)
              ⟨false, fun _ => false, s.proc.lua, layerGlobals layer.enforcing s.globals⟩ :=
            ⟨rfl, rfl, hs, fun _ => hnone, by rw [hnone]; simp, fun _ _ h => by cases h⟩
          have hmeets := hlayers layer (List.mem_of_getElem? hl) run.call.command s.proc.lua
            s.globals hs
          have hrun := Prog.run_meets (onceView_simulates ih layer.enforcing) hmeets hview
          rw [rashRackInvoke_succ hl]
          rcases hend : (layer.body run.call.command).run
              (rackPort (rashRackInvoke exec layers room) run index layer.enforcing)
              (openLayer layer run index s) with ⟨code | r, s'⟩
          · rw [hend] at hrun
            exact hrun
          · rw [hend] at hrun
            obtain ⟨v', hpost, hv'⟩ := hrun
            refine settleLayer_once exec layer run hv'.ran fun hsome henf hraised => ?_
            have hcalled : v'.called = true := by
              by_contra hcalled
              exact hsome (hv'.fresh (by simpa using hcalled))
            have hden := hpost hcalled henf hraised
            rwa [hv'.globals] at hden

/-! ## Layers that do not -/

def LuaOp.isCall : LuaOp σ → Bool
  | .next => true
  | .stored _ => true
  | _ => false

/-- The state behind a view in a chain of one layer, where every variable holds a `next()`
that leads straight to the executor. -/
structure StrayView (s : RackState σ Cmd) (v : LayerView σ) : Prop where
  lua : v.lua = s.proc.lua
  globals : v.globals = s.globals
  depth : s.globals.rackDepth = 1
  kept : ∀ slot, ∃ run, s.kept slot = some (run, 2)

/-- The variables that are not the layer's own hold the `next()` of another run. -/
def OwnView (run : RackRun Cmd) (s : RackState σ Cmd) (v : LayerView σ) : Prop :=
  ∀ slot, (v.own slot = true → s.kept slot = some (run, 2)) ∧
    (v.own slot = false → ∃ other, s.kept slot = some (other, 2) ∧ other.serial ≠ run.serial)

/-- The layer has run a second command, or is about to by its error branch. -/
def Strays (enforcing : Bool) (serial : ℕ) (x : Except JumpCode LuaResult × RackState σ Cmd) :
    Prop :=
  ¬ executed x.2.log <+: [serial] ∨
    (executed x.2.log = [serial] ∧ enforcing = false ∧ x.2.globals.rackDenied = false ∧
      ∃ message, x.1 = .ok (.raised message))

section Stray

variable {exec : Executor σ Cmd} {invoke : RackInvoke σ Cmd} {run : RackRun Cmd}
  {enforcing : Bool} {s : RackState σ Cmd} {v v' : LayerView σ}

theorem onceSpec_quiet {o : LuaOp σ} (ho : o.isCall = false) {a : LuaOp.Ans o}
    (hnext : onceSpec.next o v a v') :
    v'.called = v.called ∧ v'.globals.rackDepth = v.globals.rackDepth := by
  cases o with
  | next => cases ho
  | stored slot => cases ho
  | get => exact hnext.2 ▸ ⟨rfl, rfl⟩
  | set lua => exact hnext ▸ ⟨rfl, rfl⟩
  | deny reason => exact hnext.2 ▸ ⟨rfl, (rashLuaDeny_frame reason v.globals).rackDepth⟩
  | keep slot => exact hnext ▸ ⟨rfl, rfl⟩

theorem quiet_not_meets {o : LuaOp σ} (ho : o.isCall = false) {k : LuaOp.Ans o → LuaProg σ}
    {post : LuaResult → LayerView σ → Prop} (hnot : ¬ (Prog.op o k).Meets onceSpec post v) :
    ∃ a v', onceSpec.next o v a v' ∧ ¬ (k a).Meets onceSpec post v' := by
  rcases Prog.not_meets_op hnot with hpre | ⟨-, hsome⟩
  · cases o <;> first | exact absurd trivial hpre | cases ho
  · exact hsome

theorem strayView_step (invoke : RackInvoke σ Cmd) (run : RackRun Cmd) (enforcing : Bool)
    {o : LuaOp σ} (ho : o.isCall = false) {a : LuaOp.Ans o}
    (hv : StrayView s v) (hnext : onceSpec.next o v a v') :
    ∃ s', rackPort invoke run 1 enforcing o s = (.ok a, s') ∧ StrayView s' v' ∧
      executed s'.log = executed s.log ∧ (OwnView run s v → OwnView run s' v') := by
  cases o with
  | next => cases ho
  | stored slot => cases ho
  | get =>
      obtain ⟨rfl, rfl⟩ := hnext
      exact ⟨s, by rw [hv.lua]; rfl, hv, rfl, id⟩
  | set lua =>
      obtain rfl := hnext
      exact ⟨s.setLua lua, rfl, ⟨rfl, hv.globals, hv.depth, hv.kept⟩, rfl, id⟩
  | deny reason =>
      obtain ⟨rfl, rfl⟩ := hnext
      refine ⟨(rackDeny run 1 enforcing reason s).2, ?_, ⟨hv.lua, ?_, ?_, hv.kept⟩,
        executed_rackDeny run 1 enforcing reason s, id⟩
      · rw [hv.globals]; rfl
      · simp only [hv.globals]; rfl
      · exact (rashLuaDeny_frame reason s.globals).rackDepth.trans hv.depth
  | keep slot =>
      obtain rfl := hnext
      refine ⟨s.keepNext slot (run, 2), rfl, ⟨hv.lua, hv.globals, hv.depth, fun n => ?_⟩,
        rfl, fun hown n => ?_⟩
      · by_cases hn : n = slot
        · exact ⟨run, by simp [RackState.keepNext, hn]⟩
        · simpa [RackState.keepNext, hn] using hv.kept n
      · by_cases hn : n = slot
        · simp [RackState.keepNext, hn]
        · simpa [RackState.keepNext, hn] using hown n

/-- The `next()` that an operation calls. -/
def callTarget (run : RackRun Cmd) (s : RackState σ Cmd) : LuaOp σ → Option (RackRun Cmd × ℕ)
  | .next => some (run, 2)
  | .stored slot => s.kept slot
  | _ => none

theorem callTarget_isSome {o : LuaOp σ} (run : RackRun Cmd) (ho : o.isCall = true)
    (hv : StrayView s v) : ∃ r, callTarget run s o = some (r, 2) := by
  cases o with
  | next => exact ⟨run, rfl⟩
  | stored slot => exact hv.kept slot
  | get => cases ho
  | set lua => cases ho
  | deny reason => cases ho
  | keep slot => cases ho

/-- A call goes straight to the executor, on the run whose `next()` it is. -/
theorem executed_call (hinvoke : ∀ r t, invoke r 2 t = executeRun exec r t) {o : LuaOp σ}
    {r : RackRun Cmd} (htarget : callTarget run s o = some (r, 2)) :
    executed (rackPort invoke run 1 enforcing o s).2.log = executed s.log ++ [r.serial] := by
  rw [← executed_executeRun exec r s, ← hinvoke]
  cases o with
  | next => cases htarget; rfl
  | stored slot =>
      have hkept : s.kept slot = some (r, 2) := htarget
      simp only [rackPort, hkept, rashRackNext]
  | get => cases htarget
  | set lua => cases htarget
  | deny reason => cases htarget
  | keep slot => cases htarget

/-- A second command in the log stays there. -/
theorem not_prefix_of_progress {serial : ℕ} {s' : RackState σ Cmd}
    (h : ¬ executed s.log <+: [serial]) (hframe : RackFrame s s') :
    ¬ executed s'.log <+: [serial] :=
  fun h' => h ((executed_mono hframe.log).trans h')

theorem call_progress (exec : Executor σ Cmd)
    (hframe : ∀ r i t, RackFrame t (invoke r i t).2) (o : LuaOp σ)
    (k : LuaOp.Ans o → LuaProg σ) (s : RackState σ Cmd) :
    RackFrame (rackPort invoke run 1 enforcing o s).2
      ((Prog.op o k).run (rackPort invoke run 1 enforcing) s).2 :=
  have hp := rackFrame_progress exec
  Prog.run_op_progress hp.refl hp.trans
    (fun o s => rackPort_progress hp hframe run 1 enforcing o s) o k s

/-- Once the command has run, a broken specification shows. -/
theorem strays_called (hinvoke : ∀ r t, invoke r 2 t = executeRun exec r t)
    (hframe : ∀ r i t, RackFrame t (invoke r i t).2) {p : LuaProg σ}
    (hcalled : v.called = true) (hv : StrayView s v) (hran : executed s.log = [run.serial])
    (hnot : ¬ p.Meets onceSpec (oncePost enforcing) v) :
    Strays enforcing run.serial (p.run (rackPort invoke run 1 enforcing) s) := by
  induction p generalizing s v with
  | ret r =>
      right
      simp only [Prog.Meets, oncePost, not_forall, Bool.not_eq_true] at hnot
      obtain ⟨-, henf, hraised, hden⟩ := hnot
      refine ⟨hran, henf, hv.globals ▸ hden, ?_⟩
      cases r with
      | raised message => exact ⟨message, rfl⟩
      | number status => cases hraised
      | other => cases hraised
  | op o k ih =>
      cases hcall : o.isCall with
      | true =>
          obtain ⟨r, htarget⟩ := callTarget_isSome run hcall hv
          left
          refine not_prefix_of_progress ?_ (call_progress exec hframe o k s)
          rw [executed_call hinvoke htarget, hran]
          simp
      | false =>
          obtain ⟨a, v', hnext, hrest⟩ := quiet_not_meets hcall hnot
          obtain ⟨s', hs', hv', hlog, -⟩ := strayView_step invoke run enforcing hcall hv hnext
          rw [Prog.run_op_ok hs']
          exact ih a ((onceSpec_quiet hcall hnext).1.trans hcalled) hv' (hlog.trans hran) hrest

/-- An executor that leaves the process as the view says. -/
def answeringExecutor (status : Status) (v : LayerView σ) : Executor σ Cmd := fun _ p =>
  (.ok status, { p with lua := v.lua, globals := v.globals })

theorem answering_view {status : Status} {answer : Except String Status} (hv : StrayView s v)
    (hran : CommandRan v answer v') :
    StrayView (executeRun (answeringExecutor status v') run s).2 v' := by
  have hdepth : v'.globals.rackDepth = s.proc.globals.rackDepth := by
    rw [hran.2.1, hv.globals]
    rfl
  have hpos : 0 < s.proc.globals.rackDepth := by
    have hone : s.proc.globals.rackDepth = 1 := hv.depth
    omega
  have hproc : (executeRun (answeringExecutor status v') run s).2.proc =
      { s.proc with lua := v'.lua, globals := v'.globals } := by
    simp only [executeRun, answeringExecutor, Process.afterExecutor, if_pos hpos]
    rw [← hdepth]
  refine ⟨by rw [hproc], by rw [RackState.globals, hproc], ?_, hv.kept⟩
  rw [RackState.globals, hproc]
  exact hdepth.trans hv.depth

theorem strays_answering {k : Except String Status → LuaProg σ}
    {answer : Except String Status} (run : RackRun Cmd) (hran : CommandRan v answer v')
    (hrest : ¬ (k answer).Meets onceSpec (oncePost enforcing) v') :
    ∃ exec : Executor σ Cmd, ∀ (invoke : RackInvoke σ Cmd) (s : RackState σ Cmd),
      (∀ r t, invoke r 2 t = executeRun exec r t) → (∀ r i t, RackFrame t (invoke r i t).2) →
      StrayView s v → executed s.log = [] →
      ∃ s', rashRackNext invoke (some (run, 2)) s = (.ok answer, s') ∧
        Strays enforcing run.serial ((k answer).run (rackPort invoke run 1 enforcing) s') := by
  obtain ⟨status, rfl⟩ := hran.2.2
  refine ⟨answeringExecutor status v', fun invoke s hinvoke hframe hv hnone =>
    ⟨(executeRun (answeringExecutor status v') run s).2, ?_, ?_⟩⟩
  · simp only [rashRackNext, hinvoke]
    rfl
  · have hlog : executed (executeRun (answeringExecutor status v') run s).2.log =
        [run.serial] := by
      rw [executed_executeRun, hnone]
      rfl
    exact strays_called hinvoke hframe hran.1 (answering_view hv hran) hlog hrest

/-- Before the command has run, some executor makes a broken specification show. -/
theorem strays_uncalled {p : LuaProg σ} (run : RackRun Cmd) (hcalled : v.called = false)
    (hnot : ¬ p.Meets onceSpec (oncePost enforcing) v) :
    ∃ exec : Executor σ Cmd, ∀ (invoke : RackInvoke σ Cmd) (s : RackState σ Cmd),
      (∀ r t, invoke r 2 t = executeRun exec r t) → (∀ r i t, RackFrame t (invoke r i t).2) →
      StrayView s v → OwnView run s v → executed s.log = [] →
      Strays enforcing run.serial (p.run (rackPort invoke run 1 enforcing) s) := by
  induction p generalizing v with
  | ret r => exact absurd (fun h => by rw [hcalled] at h; cases h) hnot
  | op o k ih =>
      cases hcall : o.isCall with
      | false =>
          obtain ⟨a, v', hnext, hrest⟩ := quiet_not_meets hcall hnot
          obtain ⟨exec, hexec⟩ := ih a ((onceSpec_quiet hcall hnext).1.trans hcalled) hrest
          refine ⟨exec, fun invoke s hinvoke hframe hv hown hnone => ?_⟩
          obtain ⟨s', hs', hv', hlog, hown'⟩ :=
            strayView_step invoke run enforcing hcall hv hnext
          rw [Prog.run_op_ok hs']
          exact hexec invoke s' hinvoke hframe hv' (hown' hown) (hlog.trans hnone)
      | true =>
          rcases Prog.not_meets_op hnot with hpre | ⟨hpre, a, v', hnext, hrest⟩
          · refine ⟨succeedingExecutor,
              fun invoke s hinvoke hframe hv hown hnone => ?_⟩
            obtain ⟨other, htarget, hother⟩ : ∃ other, callTarget run s o = some (other, 2) ∧
                other.serial ≠ run.serial := by
              cases o with
              | next => exact absurd hcalled hpre
              | stored slot =>
                  refine (hown slot).2 ?_
                  by_contra hslot
                  exact hpre ⟨hcalled, by simpa using hslot⟩
              | get => cases hcall
              | set lua => cases hcall
              | deny reason => cases hcall
              | keep slot => cases hcall
            left
            refine not_prefix_of_progress ?_ (call_progress succeedingExecutor hframe o k s)
            rw [executed_call hinvoke htarget, hnone]
            simpa using hother
          · cases o with
            | next =>
                obtain ⟨exec, hexec⟩ := strays_answering run hnext hrest
                refine ⟨exec, fun invoke s hinvoke hframe hv hown hnone => ?_⟩
                obtain ⟨s', hs', hstrays⟩ := hexec invoke s hinvoke hframe hv hnone
                rw [Prog.run_op_ok (show rackPort invoke run 1 enforcing .next s = _ from hs')]
                exact hstrays
            | stored slot =>
                obtain ⟨exec, hexec⟩ := strays_answering run hnext hrest
                refine ⟨exec, fun invoke s hinvoke hframe hv hown hnone => ?_⟩
                obtain ⟨s', hs', hstrays⟩ := hexec invoke s hinvoke hframe hv hnone
                rw [← (hown slot).1 hpre.2] at hs'
                rw [Prog.run_op_ok
                  (show rackPort invoke run 1 enforcing (.stored slot) s = _ from hs')]
                exact hstrays
            | get => cases hcall
            | set lua => cases hcall
            | deny reason => cases hcall
            | keep slot => cases hcall

end Stray

/-! ## Sessions -/

/-- The `next()` functions that callbacks keep come from earlier calls. -/
def KeptEarlier (s : RackState σ Cmd) : Prop :=
  ∀ slot run index, s.kept slot = some (run, index) → run.serial < s.calls

theorem rackCall_once (exec : Executor σ Cmd) {layers : List (Callback σ Cmd)}
    (hlayers : ∀ layer ∈ layers, RunsNextOnce layer) (room : ℕ) (mode : Option String)
    (call : CommandCall Cmd) (s : RackState σ Cmd) :
    (rackCall exec layers room mode call s).1.OnceOnly := by
  let s₀ : RackState σ Cmd := { s with log := [] }
  change executed (rashRackExecute exec layers room mode call s₀).2.log <+: [s₀.calls]
  have hdirect : executed (executeRun exec ⟨call, s₀.calls⟩ s₀.openRun).2.log <+: [s₀.calls] := by
    rw [executed_executeRun]
    exact List.prefix_refl _
  by_cases hdepth : s₀.globals.rackDepth = 0
  · by_cases hmode : mode = some "c"
    · simpa [rashRackExecute, hmode] using hdirect
    · by_cases hnil : layers = []
      · simpa [rashRackExecute, hmode, hnil] using hdirect
      · have hran := (rashRackInvoke_once exec hlayers room ⟨call, s₀.calls⟩).ran 1
          s₀.openRun.raiseDepth (raiseDepth_outermost hdepth) rfl
        rw [(rashRackExecute_chain exec room call hmode hnil hdepth).2]
        exact hran
  · rw [rashRackExecute_nested exec room call (Nat.pos_of_ne_zero hdepth)]
    exact hdirect

theorem settleLayer_strays {exec : Executor σ Cmd} {layer : Callback σ Cmd}
    {run : RackRun Cmd} {r : LuaResult} {s : RackState σ Cmd} (saved : Bool)
    (h : Strays layer.enforcing run.serial (.ok r, s)) :
    ¬ executed (settleLayer exec layer run r (closeLayer saved s)).2.log <+: [run.serial] := by
  have hp := rackFrame_progress exec
  rcases h with hran | ⟨hran, henf, hden, message, hr⟩
  · exact not_prefix_of_progress hran
      (hp.trans _ _ _ (hp.leave s saved) (settleLayer_progress hp layer run r _))
  · cases hr
    have hden' : (closeLayer saved s).globals.rackDenied = false := hden
    have hran' : executed (closeLayer saved s).log = [run.serial] := hran
    simp only [settleLayer, hden', henf, Bool.false_eq_true, if_false]
    rw [executed_executeRun, executed_note_printed, hran']
    simp

theorem rashRackInvoke_strays {exec : Executor σ Cmd} {layers : List (Callback σ Cmd)}
    {layer : Callback σ Cmd} {room index : ℕ} {run : RackRun Cmd} {s : RackState σ Cmd}
    (hl : layers[index - 1]? = some layer)
    (h : Strays layer.enforcing run.serial ((layer.body run.call.command).run
      (rackPort (rashRackInvoke exec layers room) run index layer.enforcing)
      (openLayer layer run index s))) :
    ¬ executed (rashRackInvoke exec layers (room + 1) run index s).2.log <+: [run.serial] := by
  rw [rashRackInvoke_succ hl]
  rcases hend : (layer.body run.call.command).run
      (rackPort (rashRackInvoke exec layers room) run index layer.enforcing)
      (openLayer layer run index s) with ⟨code | r, s'⟩
  · rw [hend] at h
    rcases h with hran | ⟨-, -, -, message, hr⟩
    · exact hran
    · cases hr
  · rw [hend] at h
    exact settleLayer_strays s.globals.currentHookEnforcing h

/-- A layer that can stray does so in a chain of its own, on a first command. -/
theorem exists_strayed_call {layer : Callback σ Cmd} (h : ¬ RunsNextOnce layer) :
    ∃ (exec : Executor σ Cmd) (call : CommandCall Cmd) (s : RackState σ Cmd), KeptEarlier s ∧
      s.globals.rackDepth = 0 ∧ ¬ (rackCall exec [layer] 1 none call s).1.OnceOnly := by
  simp only [RunsNextOnce, not_forall] at h
  obtain ⟨command, lua, g, hg, hnot⟩ := h
  let run : RackRun Cmd := ⟨foregroundCall command, 1⟩
  obtain ⟨exec, hexec⟩ := strays_uncalled run rfl hnot
  let s : RackState σ Cmd :=
    ⟨⟨lua, { g with rackDepth := 0 }, executionSuccess, []⟩,
      fun _ => some (⟨foregroundCall command, 0⟩, 2), 1, []⟩
  refine ⟨exec, foregroundCall command, s, ?_, rfl, ?_⟩
  · intro slot kept index hkept
    cases hkept
    exact Nat.one_pos
  have hglobals : s.openRun.raiseDepth.globals = g := by
    cases g
    cases hg
    rfl
  have hopened : (openLayer layer run 1 s.openRun.raiseDepth).globals =
      layerGlobals layer.enforcing g :=
    congrArg (layerGlobals layer.enforcing) hglobals
  have hstrays := hexec (rashRackInvoke exec [layer] 0)
    (openLayer layer run 1 s.openRun.raiseDepth) (fun r t => rashRackInvoke_none rfl)
    (fun r i t => rashRackInvoke_frame exec [layer] 0 r i t)
    ⟨rfl, hopened.symm, by rw [hopened]; exact hg, fun slot => ⟨_, rfl⟩⟩
    (fun slot => ⟨nofun, fun _ => ⟨_, rfl, Nat.zero_ne_one⟩⟩) rfl
  change ¬ executed (rashRackExecute exec [layer] 1 none (foregroundCall command) s).2.log <+: [1]
  rw [(rashRackExecute_chain exec 1 _ (by simp) (by simp) rfl).2]
  exact rashRackInvoke_strays (show [layer][1 - 1]? = some layer from rfl) hstrays

/-- An enforcing layer that calls `next()` twice. -/
def repeatingLayer : Callback σ Cmd where
  enforcing := true
  body _ := .op .next fun _ => .op .next fun _ => .ret (.number executionSuccess)

end Rash
