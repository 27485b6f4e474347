import Rash.Hooks.RackDenial

/-!
# Advisory layers that fail

The error branch of `rash_rack_invoke` runs the command of an advisory layer that fails
instead of going on with the layers behind it.  The chain with such a layer is compared
with the chain without it, at any position of the layer.
-/

namespace Rash

open Interaction

variable {σ Cmd : Type}

/-- The positions of the layers that were called, in order. -/
def consulted : List RackEvent → List ℕ :=
  List.filterMap fun
    | .consult _ index _ => some index
    | _ => none

/-- Positions in a chain, as the chain without its layer `p` numbers them. -/
def withoutLayer (p : ℕ) (positions : List ℕ) : List ℕ :=
  (positions.filter (· ≠ p)).map fun i => if p < i then i - 1 else i

/-- The body only looks at the Lua state or calls `rash.deny`, and then raises an error. -/
def ReadsThenRaises (p : LuaProg σ) : Prop :=
  p.Uses (fun
    | .get => True
    | .deny _ => True
    | _ => False) ∧ p.Returns (fun r => r.isRaised = true)

/-- What is compared of the chain with layer `p` and of the chain without it: the other
layers that were consulted, the denial, the executions and the outcome. -/
structure Transparent (p : ℕ) (x y : RackResult σ Cmd) : Prop where
  layers : ∀ i, i ∈ withoutLayer p (consulted x.2.log) ↔ i ∈ consulted y.2.log
  denied : x.2.globals.rackDenied = y.2.globals.rackDenied
  executions : executed x.2.log = executed y.2.log
  outcome : x.1 = y.1

@[simp] theorem consulted_append (a b : List RackEvent) :
    consulted (a ++ b) = consulted a ++ consulted b :=
  List.filterMap_append

@[simp] theorem consulted_note_printed (s : RackState σ Cmd) (line : String) :
    consulted (s.note (.printed line)).log = consulted s.log := by
  simp [RackState.note, consulted]

theorem consulted_printed (lines : List String) : consulted (lines.map .printed) = [] := by
  simp [consulted, List.filterMap_map]

theorem consulted_rackDeny (run : RackRun Cmd) (index : ℕ) (enforcing : Bool)
    (reason : String) (s : RackState σ Cmd) :
    consulted (rackDeny run index enforcing reason s).2.log = consulted s.log := by
  have hdeny : consulted [.deny run.serial index enforcing] = [] := rfl
  rw [rackDeny, List.append_cons, consulted_append, consulted_append, hdeny, consulted_printed]
  simp

theorem mem_consulted {log : List RackEvent} {index : ℕ} :
    index ∈ consulted log ↔ ∃ serial denied, .consult serial index denied ∈ log := by
  simp only [consulted, List.mem_filterMap]
  constructor
  · rintro ⟨e, he, hindex⟩
    cases e <;> cases hindex
    exact ⟨_, _, he⟩
  · rintro ⟨serial, denied, he⟩
    exact ⟨_, he, rfl⟩

/-- The chains with and without layer `p` have gone the same way so far: layer `p` is the
innermost one that can have been called. -/
structure SameWay (p : ℕ) (post : List (Callback σ Cmd)) (x y : RackState σ Cmd) : Prop where
  proc : x.proc = y.proc
  kept : x.kept = y.kept
  calls : x.calls = y.calls
  keptOuter : ∀ slot run index, x.kept slot = some (run, index) → 1 ≤ index ∧ index ≤ p
  executions : executed x.log = executed y.log
  layers : (consulted x.log).filter (· ≠ p) = consulted y.log
  outer : ∀ i ∈ consulted x.log, i ≤ p
  passed : post ≠ [] → p ∉ consulted x.log

/-- Layer `p` was called under a denial, or it was called where the shorter chain calls a
layer behind it. -/
def Parted (p : ℕ) (post : List (Callback σ Cmd)) (x y : RackState σ Cmd) : Prop :=
  (∃ serial, .consult serial p true ∈ x.log) ∨
    (post ≠ [] ∧ p ∈ consulted x.log ∧ p ∈ consulted y.log)

theorem Parted.mono {p : ℕ} {post : List (Callback σ Cmd)} {x x' y y' : RackState σ Cmd}
    (h : Parted p post x y) (hx : RackFrame x x') (hy : RackFrame y y') :
    Parted p post x' y' := by
  rcases h with ⟨serial, hmem⟩ | ⟨hpost, hmem, hmem'⟩
  · exact Or.inl ⟨serial, hx.log.subset hmem⟩
  · rw [mem_consulted] at hmem hmem'
    obtain ⟨n, d, hmem⟩ := hmem
    obtain ⟨n', d', hmem'⟩ := hmem'
    exact Or.inr ⟨hpost, mem_consulted.mpr ⟨n, d, hx.log.subset hmem⟩,
      mem_consulted.mpr ⟨n', d', hy.log.subset hmem'⟩⟩

/-! ## Steps of both chains -/

section Steps

variable {p : ℕ} {post : List (Callback σ Cmd)} {x y : RackState σ Cmd}

theorem SameWay.globals (h : SameWay p post x y) : x.globals = y.globals :=
  congrArg Process.globals h.proc

theorem SameWay.setGlobals (h : SameWay p post x y) (g : HookGlobals) :
    SameWay p post (x.setGlobals g) (y.setGlobals g) :=
  ⟨by simp only [RackState.setGlobals, h.proc], h.kept, h.calls, h.keptOuter, h.executions,
    h.layers, h.outer, h.passed⟩

theorem SameWay.noted (h : SameWay p post x y) (line : String) :
    SameWay p post (x.note (.printed line)) (y.note (.printed line)) := by
  refine ⟨h.proc, h.kept, h.calls, h.keptOuter, ?_, ?_, ?_, ?_⟩
  · simpa using h.executions
  · simpa using h.layers
  · simpa using h.outer
  · simpa using h.passed

theorem SameWay.ran (h : SameWay p post x y) (exec : Executor σ Cmd) (run : RackRun Cmd) :
    (executeRun exec run x).1 = (executeRun exec run y).1 ∧
      SameWay p post (executeRun exec run x).2 (executeRun exec run y).2 := by
  refine ⟨by simp only [executeRun, h.proc], by simp only [executeRun, h.proc], h.kept, h.calls,
    h.keptOuter, ?_, ?_, ?_, ?_⟩
  · rw [executed_executeRun, executed_executeRun, h.executions]
  · have hc : consulted [.exec run.serial x.globals.rackDenied] = [] := rfl
    have hc' : consulted [.exec run.serial y.globals.rackDenied] = [] := rfl
    simp only [executeRun, consulted_append, hc, hc', List.append_nil, h.layers]
  · have hc : consulted [.exec run.serial x.globals.rackDenied] = [] := rfl
    simpa only [executeRun, consulted_append, hc, List.append_nil] using h.outer
  · have hc : consulted [.exec run.serial x.globals.rackDenied] = [] := rfl
    simpa only [executeRun, consulted_append, hc, List.append_nil] using h.passed

theorem SameWay.denied (h : SameWay p post x y) (run : RackRun Cmd) (index : ℕ)
    (enforcing : Bool) (reason : String) :
    (rackDeny run index enforcing reason x).1 = (rackDeny run index enforcing reason y).1 ∧
      SameWay p post (rackDeny run index enforcing reason x).2
        (rackDeny run index enforcing reason y).2 := by
  have hg := h.globals
  refine ⟨by simp only [rackDeny, hg], ?_, h.kept, h.calls, h.keptOuter, ?_, ?_, ?_, ?_⟩
  · simp only [rackDeny, hg, RackState.setGlobals, h.proc]
  · rw [executed_rackDeny, executed_rackDeny, h.executions]
  · rw [consulted_rackDeny, consulted_rackDeny, h.layers]
  · rw [consulted_rackDeny]
    exact h.outer
  · rw [consulted_rackDeny]
    exact h.passed

theorem SameWay.opened (h : SameWay p post x y) (layer : Callback σ Cmd) (run : RackRun Cmd)
    {index : ℕ} (hindex : index < p) :
    SameWay p post (openLayer layer run index x) (openLayer layer run index y) := by
  have hg := h.globals
  have hx : consulted (openLayer layer run index x).log = consulted x.log ++ [index] :=
    consulted_append x.log _
  have hy : consulted (openLayer layer run index y).log = consulted y.log ++ [index] :=
    consulted_append y.log _
  have hxe : executed (openLayer layer run index x).log = executed x.log ++ [] :=
    executed_append x.log _
  have hye : executed (openLayer layer run index y).log = executed y.log ++ [] :=
    executed_append y.log _
  refine ⟨?_, h.kept, h.calls, h.keptOuter, ?_, ?_, ?_, ?_⟩
  · simp only [openLayer, RackState.note, RackState.setGlobals, hg, h.proc]
  · rw [hxe, hye, h.executions]
  · rw [hx, hy, List.filter_append, h.layers]
    simp [Nat.ne_of_lt hindex]
  · rw [hx]
    intro i hi
    rcases List.mem_append.mp hi with hi | hi
    · exact h.outer i hi
    · rw [List.mem_singleton.mp hi]
      exact Nat.le_of_lt hindex
  · rw [hx]
    intro hpost
    simp [h.passed hpost, Nat.ne_of_gt hindex]

theorem SameWay.closed (h : SameWay p post x y) (saved : Bool) :
    SameWay p post (closeLayer saved x) (closeLayer saved y) := by
  rw [closeLayer, closeLayer, h.globals]
  exact h.setGlobals _

theorem SameWay.settled (h : SameWay p post x y) (exec : Executor σ Cmd)
    (layer : Callback σ Cmd) (run : RackRun Cmd) (r : LuaResult) :
    (settleLayer exec layer run r x).1 = (settleLayer exec layer run r y).1 ∧
      SameWay p post (settleLayer exec layer run r x).2 (settleLayer exec layer run r y).2 := by
  unfold settleLayer
  rw [h.globals]
  split
  · exact ⟨rfl, by simp only [RackState.setStatus, h.proc], h.kept, h.calls, h.keptOuter,
      h.executions, h.layers, h.outer, h.passed⟩
  · cases r with
    | number status => exact ⟨rfl, h⟩
    | other => exact ⟨rfl, h.noted _⟩
    | raised message =>
        dsimp only
        split
        · exact ⟨rfl, h.noted _⟩
        · exact (h.noted _).ran exec run

end Steps

/-! ## The failing layer -/

/-- Nothing that the executor or another layer sees has changed. -/
structure Unnoticed (x x' : RackState σ Cmd) : Prop where
  proc : x'.proc = x.proc
  kept : x'.kept = x.kept
  calls : x'.calls = x.calls
  executions : executed x'.log = executed x.log
  layers : consulted x'.log = consulted x.log

theorem readsThenRaises_run (invoke : RackInvoke σ Cmd) (run : RackRun Cmd) (index : ℕ)
    {p : LuaProg σ} (h : ReadsThenRaises p) {s : RackState σ Cmd}
    (hbit : s.globals.currentHookEnforcing = false) :
    ∃ message s', p.run (rackPort invoke run index false) s = (.ok (.raised message), s') ∧
      Unnoticed s s' := by
  induction p generalizing s with
  | ret r =>
      cases r with
      | raised message => exact ⟨message, s, rfl, rfl, rfl, rfl, rfl, rfl⟩
      | number status => cases h.2
      | other => cases h.2
  | op o k ih =>
      obtain ⟨⟨ho, huses⟩, hreturns⟩ := h
      cases o with
      | get => exact ih s.proc.lua ⟨huses _, hreturns _⟩ hbit
      | deny reason =>
          obtain ⟨hanswer, hglobals⟩ := rashLuaDeny_advisory reason hbit
          have hproc : (rackDeny run index false reason s).2.proc = s.proc := by
            change { s.proc with globals := (rashLuaDeny reason s.globals).2.1 } = s.proc
            rw [hglobals]
            rfl
          obtain ⟨message, s', hrun, hs'⟩ := ih (.ok ()) ⟨huses _, hreturns _⟩
            (s := (rackDeny run index false reason s).2)
            ((congrArg (fun p => p.globals.currentHookEnforcing) hproc).trans hbit)
          refine ⟨message, s', ?_, hs'.proc.trans hproc, hs'.kept, hs'.calls,
            hs'.executions.trans (executed_rackDeny ..), hs'.layers.trans (consulted_rackDeny ..)⟩
          rw [Prog.run_op_ok (show rackPort invoke run index false (.deny reason) s =
            (.ok (.ok ()), (rackDeny run index false reason s).2) by rw [← hanswer]; rfl)]
          exact hrun
      | set lua => exact absurd ho id
      | next => exact absurd ho id
      | keep slot => exact absurd ho id
      | stored slot => exact absurd ho id

/-- Opening and closing a layer undo each other when `rack_denied` was clear. -/
theorem closeLayer_openLayer (layer : Callback σ Cmd) (run : RackRun Cmd) (index : ℕ)
    {x : RackState σ Cmd} (hden : x.globals.rackDenied = false) :
    (closeLayer x.globals.currentHookEnforcing (openLayer layer run index x)).proc = x.proc := by
  obtain ⟨⟨lua, g, last, pipes⟩, kept, calls, log⟩ := x
  obtain ⟨bit, stages, stageDenied, stageReason, depth, denied, reason, pointer, context,
    executionDepth, luaCalls⟩ := g
  cases hden
  simp [openLayer, closeLayer, RackState.note, RackState.setGlobals, RackState.globals,
    LuaCalls.leave_enter]

/-- The call of a failing advisory layer comes down to running the command. -/
theorem rashRackInvoke_failing (exec : Executor σ Cmd) {layers : List (Callback σ Cmd)}
    {layer : Callback σ Cmd} (hf : layer.enforcing = false)
    (hread : ∀ command, ReadsThenRaises (layer.body command)) (room : ℕ) (run : RackRun Cmd)
    {index : ℕ} (hl : layers[index - 1]? = some layer) {x : RackState σ Cmd}
    (hden : x.globals.rackDenied = false) :
    ∃ x', rashRackInvoke exec layers room run index x = executeRun exec run x' ∧
      x'.proc = x.proc ∧ x'.kept = x.kept ∧ x'.calls = x.calls ∧
      executed x'.log = executed x.log ∧ consulted x'.log = consulted x.log ++ [index] := by
  have hbody : ∃ message t, rashRackInvoke exec layers room run index x =
      finishLayer exec layer run x.globals.currentHookEnforcing (.ok (.raised message), t) ∧
      Unnoticed (openLayer layer run index x) t := by
    cases room with
    | zero => exact ⟨_, _, rashRackInvoke_zero hl, rfl, rfl, rfl, rfl, rfl⟩
    | succ room =>
        obtain ⟨message, t, hrun, ht⟩ := readsThenRaises_run (rashRackInvoke exec layers room) run
          index (hread run.call.command) (s := openLayer layer run index x) hf
        refine ⟨message, t, ?_, ht⟩
        rw [rashRackInvoke_succ hl, hf, hrun]
  obtain ⟨message, t, hinvoke, ht⟩ := hbody
  have hproc : (closeLayer x.globals.currentHookEnforcing t).proc = x.proc := by
    rw [← closeLayer_openLayer layer run index hden]
    simp only [closeLayer, RackState.setGlobals, RackState.globals, ht.proc]
  have hclear : (closeLayer x.globals.currentHookEnforcing t).globals.rackDenied = false :=
    (congrArg (fun p => p.globals.rackDenied) hproc).trans hden
  refine ⟨(closeLayer x.globals.currentHookEnforcing t).note
    (.printed (advisoryLayerFailed message)), ?_, hproc, ht.kept, ht.calls, ?_, ?_⟩
  · rw [hinvoke]
    simp [finishLayer, settleLayer, hclear, hf]
  · rw [executed_note_printed]
    refine ht.executions.trans ?_
    change executed (x.log ++ [_]) = _
    simp [executed]
  · rw [consulted_note_printed]
    exact ht.layers.trans (consulted_append x.log _)

/-! ## Both chains, call by call -/

section Chains

variable (exec : Executor σ Cmd) {pre post : List (Callback σ Cmd)} {f : Callback σ Cmd}

/-- Every position up to the failing layer's holds the same layer in both chains. -/
theorem layer_before (post : List (Callback σ Cmd)) (f : Callback σ Cmd) {index : ℕ} (hindex : 1 ≤ index) (hlt : index < pre.length + 1) :
    ∃ layer, (pre ++ f :: post)[index - 1]? = some layer ∧ (pre ++ post)[index - 1]? = some layer := by
  have hpre : index - 1 < pre.length := by omega
  have hsome : pre[index - 1]? = some pre[index - 1] := List.getElem?_eq_getElem hpre
  exact ⟨pre[index - 1], (List.getElem?_append_left hpre).trans hsome,
    (List.getElem?_append_left hpre).trans hsome⟩

theorem layer_at : (pre ++ f :: post)[pre.length + 1 - 1]? = some f := by simp

/-- The two chains at the failing layer. -/
theorem rashRackInvoke_at (hf : f.enforcing = false)
    (hread : ∀ command, ReadsThenRaises (f.body command)) (room : ℕ) (run : RackRun Cmd)
    {x y : RackState σ Cmd} (h : SameWay (pre.length + 1) post x y) :
    ((rashRackInvoke exec (pre ++ f :: post) room run (pre.length + 1) x).1 =
          (rashRackInvoke exec (pre ++ post) room run (pre.length + 1) y).1 ∧
        SameWay (pre.length + 1) post
          (rashRackInvoke exec (pre ++ f :: post) room run (pre.length + 1) x).2
          (rashRackInvoke exec (pre ++ post) room run (pre.length + 1) y).2) ∨
      Parted (pre.length + 1) post
        (rashRackInvoke exec (pre ++ f :: post) room run (pre.length + 1) x).2
        (rashRackInvoke exec (pre ++ post) room run (pre.length + 1) y).2 := by
  have hl : (pre ++ f :: post)[pre.length + 1 - 1]? = some f := layer_at
  have hlogged := consult_logged exec room run x hl
  by_cases hden : x.globals.rackDenied = true
  · right
    left
    rw [hden] at hlogged
    exact ⟨run.serial, hlogged⟩
  · cases post with
    | cons g post =>
        right
        right
        have hl' : (pre ++ g :: post)[pre.length + 1 - 1]? = some g := layer_at
        exact ⟨List.cons_ne_nil g post, mem_consulted.mpr ⟨_, _, hlogged⟩,
          mem_consulted.mpr ⟨_, _, consult_logged exec room run y hl'⟩⟩
    | nil =>
        left
        obtain ⟨x', hinvoke, hproc, hkept, hcalls, hran, hlayers⟩ :=
          rashRackInvoke_failing exec hf hread room run hl (by simpa using hden)
        have hnone : (pre ++ [])[pre.length + 1 - 1]? = none := by simp
        have h' : SameWay (pre.length + 1) [] x' y := by
          refine ⟨hproc.trans h.proc, hkept.trans h.kept, hcalls.trans h.calls, ?_,
            hran.trans h.executions, ?_, ?_, fun hpost => absurd rfl hpost⟩
          · rw [hkept]
            exact h.keptOuter
          · rw [hlayers, List.filter_append, h.layers]
            simp
          · rw [hlayers]
            intro i hi
            rcases List.mem_append.mp hi with hi | hi
            · exact h.outer i hi
            · exact Nat.le_of_eq (List.mem_singleton.mp hi)
        rw [hinvoke, rashRackInvoke_none hnone]
        exact h'.ran exec run

/-- The two chains called alike go the same way or part. -/
def GoAlike (exec : Executor σ Cmd) (pre post : List (Callback σ Cmd)) (f : Callback σ Cmd)
    (room : ℕ) : Prop :=
  ∀ (run : RackRun Cmd) (index : ℕ) (x y : RackState σ Cmd), 1 ≤ index →
    index ≤ pre.length + 1 → SameWay (pre.length + 1) post x y →
    ((rashRackInvoke exec (pre ++ f :: post) room run index x).1 =
          (rashRackInvoke exec (pre ++ post) room run index y).1 ∧
        SameWay (pre.length + 1) post
          (rashRackInvoke exec (pre ++ f :: post) room run index x).2
          (rashRackInvoke exec (pre ++ post) room run index y).2) ∨
      Parted (pre.length + 1) post (rashRackInvoke exec (pre ++ f :: post) room run index x).2
        (rashRackInvoke exec (pre ++ post) room run index y).2

theorem rashRackNext_alike {room : ℕ} (ih : GoAlike exec pre post f room)
    {target : Option (RackRun Cmd × ℕ)}
    (htarget : ∀ run index, target = some (run, index) → 1 ≤ index ∧ index ≤ pre.length + 1)
    {x y : RackState σ Cmd} (h : SameWay (pre.length + 1) post x y) :
    ((rashRackNext (rashRackInvoke exec (pre ++ f :: post) room) target x).1 =
          (rashRackNext (rashRackInvoke exec (pre ++ post) room) target y).1 ∧
        SameWay (pre.length + 1) post
          (rashRackNext (rashRackInvoke exec (pre ++ f :: post) room) target x).2
          (rashRackNext (rashRackInvoke exec (pre ++ post) room) target y).2) ∨
      Parted (pre.length + 1) post
        (rashRackNext (rashRackInvoke exec (pre ++ f :: post) room) target x).2
        (rashRackNext (rashRackInvoke exec (pre ++ post) room) target y).2 := by
  rcases target with _ | ⟨run, index⟩
  · exact Or.inl ⟨rfl, h⟩
  · obtain ⟨hone, hle⟩ := htarget run index rfl
    rcases ih run index x y hone hle h with ⟨hres, hsame⟩ | hpart
    · exact Or.inl ⟨by simp only [rashRackNext, hres], hsame⟩
    · exact Or.inr hpart

theorem rackPort_alike {room : ℕ} (ih : GoAlike exec pre post f room) (run : RackRun Cmd)
    {index : ℕ} (hindex : index < pre.length + 1) (enforcing : Bool) (o : LuaOp σ)
    {x y : RackState σ Cmd} (h : SameWay (pre.length + 1) post x y) :
    ((rackPort (rashRackInvoke exec (pre ++ f :: post) room) run index enforcing o x).1 =
          (rackPort (rashRackInvoke exec (pre ++ post) room) run index enforcing o y).1 ∧
        SameWay (pre.length + 1) post
          (rackPort (rashRackInvoke exec (pre ++ f :: post) room) run index enforcing o x).2
          (rackPort (rashRackInvoke exec (pre ++ post) room) run index enforcing o y).2) ∨
      Parted (pre.length + 1) post
        (rackPort (rashRackInvoke exec (pre ++ f :: post) room) run index enforcing o x).2
        (rackPort (rashRackInvoke exec (pre ++ post) room) run index enforcing o y).2 := by
  cases o with
  | get => exact Or.inl ⟨by simp only [rackPort, h.proc], h⟩
  | set lua =>
      exact Or.inl ⟨rfl, by simp only [rackPort, RackState.setLua, h.proc], h.kept, h.calls,
        h.keptOuter, h.executions, h.layers, h.outer, h.passed⟩
  | deny reason =>
      obtain ⟨hanswer, hsame⟩ := h.denied run index enforcing reason
      exact Or.inl ⟨congrArg Except.ok hanswer, hsame⟩
  | next =>
      exact rashRackNext_alike exec ih
        (fun run' index' heq => by cases heq; omega) h
  | keep slot =>
      refine Or.inl ⟨rfl, h.proc, ?_, h.calls, ?_, h.executions, h.layers, h.outer, h.passed⟩
      · simp only [rackPort, RackState.keepNext, h.kept]
      · intro n run' index' hn
        by_cases hslot : n = slot
        · simp only [rackPort, RackState.keepNext, hslot, if_true, Option.some.injEq,
            Prod.mk.injEq] at hn
          omega
        · simp only [rackPort, RackState.keepNext, hslot, if_false] at hn
          exact h.keptOuter n run' index' hn
  | stored slot =>
      have hx := rashRackNext_alike exec ih (h.keptOuter slot) h
      simp only [rackPort, ← h.kept]
      exact hx

/-- The chain with a failing advisory layer and the chain without it. -/
theorem rashRackInvoke_alike (pre post : List (Callback σ Cmd)) (hf : f.enforcing = false)
    (hread : ∀ command, ReadsThenRaises (f.body command)) (room : ℕ) :
    GoAlike exec pre post f room := by
  have hp := rackFrame_progress exec
  induction room with
  | zero =>
      intro run index x y hone hle h
      rcases Nat.lt_or_eq_of_le hle with hlt | rfl
      · obtain ⟨layer, hl, hl'⟩ := layer_before post f hone hlt
        rw [rashRackInvoke_zero hl, rashRackInvoke_zero hl', h.globals]
        exact Or.inl (((h.opened layer run hlt).closed _).settled exec layer run _)
      · exact rashRackInvoke_at exec hf hread 0 run h
  | succ room ih =>
      intro run index x y hone hle h
      rcases Nat.lt_or_eq_of_le hle with hlt | rfl
      · obtain ⟨layer, hl, hl'⟩ := layer_before post f hone hlt
        have hframe := fun layers =>
          rackPort_progress hp (rashRackInvoke_frame exec layers room) run index layer.enforcing
        have hbody := Prog.run_related_or
          (fun o s t hst => rackPort_alike exec ih run hlt layer.enforcing o hst)
          (fun {o k s t} hpart => hpart.mono
            (Prog.run_op_progress hp.refl hp.trans (hframe (pre ++ f :: post)) o k s)
            (Prog.run_op_progress hp.refl hp.trans (hframe (pre ++ post)) o k t))
          (layer.body run.call.command) (h.opened layer run hlt)
        rw [rashRackInvoke_succ hl, rashRackInvoke_succ hl', ← h.globals]
        rcases hbody with ⟨hres, hsame⟩ | hpart
        · left
          rcases hx : (layer.body run.call.command).run
              (rackPort (rashRackInvoke exec (pre ++ f :: post) room) run index layer.enforcing)
              (openLayer layer run index x) with ⟨res, x'⟩
          rcases hy : (layer.body run.call.command).run
              (rackPort (rashRackInvoke exec (pre ++ post) room) run index layer.enforcing)
              (openLayer layer run index y) with ⟨res', y'⟩
          rw [hx, hy] at hres hsame
          obtain rfl : res = res' := hres
          cases res with
          | ok r => exact (hsame.closed _).settled exec layer run r
          | error code => exact ⟨rfl, hsame⟩
        · exact Or.inr (hpart.mono (finishLayer_progress hp layer run _ _)
            (finishLayer_progress hp layer run _ _))
      · exact rashRackInvoke_at exec hf hread (room + 1) run h

/-! ## Nothing behind the failing layer is called -/

/-- No layer behind position `p` was called, and no `next()` that is kept leads to one. -/
structure OuterOnly (p : ℕ) (x : RackState σ Cmd) : Prop where
  consulted : ∀ i ∈ consulted x.log, i ≤ p
  kept : ∀ slot run index, x.kept slot = some (run, index) → 1 ≤ index ∧ index ≤ p

theorem OuterOnly.of_log {p : ℕ} {x x' : RackState σ Cmd} (h : OuterOnly p x)
    (hlog : Rash.consulted x'.log = Rash.consulted x.log) (hkept : x'.kept = x.kept) :
    OuterOnly p x' :=
  ⟨by rw [hlog]; exact h.consulted, by rw [hkept]; exact h.kept⟩

theorem executeRun_outer {p : ℕ} {x : RackState σ Cmd} (h : OuterOnly p x) (run : RackRun Cmd) :
    OuterOnly p (executeRun exec run x).2 :=
  h.of_log ((consulted_append x.log _).trans (List.append_nil _)) rfl

theorem finishLayer_outer {p : ℕ} (layer : Callback σ Cmd) (run : RackRun Cmd) (saved : Bool)
    {x : Except JumpCode LuaResult × RackState σ Cmd} (h : OuterOnly p x.2) :
    OuterOnly p (finishLayer exec layer run saved x).2 := by
  rcases x with ⟨code | r, x⟩
  · exact h
  · have hclosed : OuterOnly p (closeLayer saved x) := h.of_log rfl rfl
    have hnoted : ∀ line, OuterOnly p ((closeLayer saved x).note (.printed line)) :=
      fun line => hclosed.of_log (consulted_note_printed _ line) rfl
    simp only [finishLayer, settleLayer]
    split
    · exact hclosed.of_log rfl rfl
    · cases r with
      | number status => exact hclosed
      | other => exact hnoted _
      | raised message =>
          dsimp only
          split
          · exact hnoted _
          · exact executeRun_outer exec (hnoted _) run

theorem openLayer_outer {p : ℕ} {x : RackState σ Cmd} (h : OuterOnly p x)
    (layer : Callback σ Cmd) (run : RackRun Cmd) {index : ℕ} (hindex : index ≤ p) :
    OuterOnly p (openLayer layer run index x) := by
  refine ⟨?_, h.kept⟩
  rw [show Rash.consulted (openLayer layer run index x).log = Rash.consulted x.log ++ [index] from
    consulted_append x.log _]
  intro i hi
  rcases List.mem_append.mp hi with hi | hi
  · exact h.consulted i hi
  · rwa [List.mem_singleton.mp hi]

theorem rackPort_outer {p : ℕ} {invoke : RackInvoke σ Cmd}
    (hinvoke : ∀ run index x, 1 ≤ index → index ≤ p → OuterOnly p x →
      OuterOnly p (invoke run index x).2)
    (run : RackRun Cmd) {index : ℕ} (hlt : index < p) (enforcing : Bool) (o : LuaOp σ)
    {x : RackState σ Cmd} (h : OuterOnly p x) :
    OuterOnly p (rackPort invoke run index enforcing o x).2 := by
  cases o with
  | get => exact h
  | set lua => exact h.of_log rfl rfl
  | deny reason => exact h.of_log (consulted_rackDeny run index enforcing reason x) rfl
  | next => exact hinvoke run (index + 1) x (by omega) hlt h
  | keep slot =>
      refine ⟨h.consulted, fun n run' index' hn => ?_⟩
      by_cases hslot : n = slot
      · simp only [rackPort, RackState.keepNext, hslot, if_true, Option.some.injEq,
          Prod.mk.injEq] at hn
        omega
      · simp only [rackPort, RackState.keepNext, hslot, if_false] at hn
        exact h.kept n run' index' hn
  | stored slot =>
      simp only [rackPort]
      rcases hslot : x.kept slot with _ | ⟨run', index'⟩
      · exact h
      · obtain ⟨hone, hle⟩ := h.kept slot run' index' hslot
        exact hinvoke run' index' x hone hle h

theorem layer_upto (post : List (Callback σ Cmd)) (f : Callback σ Cmd) {index : ℕ} (hone : 1 ≤ index) (hle : index ≤ pre.length + 1) :
    ∃ layer, (pre ++ f :: post)[index - 1]? = some layer ∧
      (index = pre.length + 1 ∧ layer = f ∨ index < pre.length + 1) := by
  rcases Nat.lt_or_eq_of_le hle with hlt | rfl
  · obtain ⟨layer, hl, -⟩ := layer_before post f hone hlt
    exact ⟨layer, hl, Or.inr hlt⟩
  · exact ⟨f, layer_at, Or.inl ⟨rfl, rfl⟩⟩

/-- In the chain with the failing layer nothing behind it is ever called. -/
theorem rashRackInvoke_outer (post : List (Callback σ Cmd))
    (hread : ∀ command, ReadsThenRaises (f.body command)) (room : ℕ)
    (run : RackRun Cmd) (index : ℕ) (x : RackState σ Cmd) (hone : 1 ≤ index)
    (hle : index ≤ pre.length + 1) (h : OuterOnly (pre.length + 1) x) :
    OuterOnly (pre.length + 1)
      (rashRackInvoke exec (pre ++ f :: post) room run index x).2 := by
  induction room generalizing run index x with
  | zero =>
      obtain ⟨layer, hl, -⟩ := layer_upto post f hone hle
      rw [rashRackInvoke_zero hl]
      exact finishLayer_outer exec layer run _
        (x := (.ok (.raised (some stackOverflowError)), openLayer layer run index x))
        (openLayer_outer h layer run hle)
  | succ room ih =>
      obtain ⟨layer, hl, hwhere⟩ := layer_upto post f hone hle
      have hopen := openLayer_outer h layer run hle
      rw [rashRackInvoke_succ hl]
      refine finishLayer_outer exec layer run _ ?_
      rcases hwhere with ⟨rfl, rfl⟩ | hlt
      · -- The failing layer itself asks for nothing that leads on.
        refine Prog.run_invariant (fun o t ho ht => ?_) (hread run.call.command).1 hopen
        cases o with
        | get => exact ht
        | deny reason => exact ht.of_log (consulted_rackDeny ..) rfl
        | set lua => exact absurd ho id
        | next => exact absurd ho id
        | keep slot => exact absurd ho id
        | stored slot => exact absurd ho id
      · exact Prog.run_invariant
          (fun o t _ ht => rackPort_outer (fun run index x => ih run index x) run hlt _ o ht)
          (Prog.uses_true _) hopen

end Chains

theorem mem_withoutLayer {p i : ℕ} {positions : List ℕ} (h : ∀ j ∈ positions, j ≤ p) :
    i ∈ withoutLayer p positions ↔ i ∈ positions.filter (· ≠ p) := by
  have hkeep : ∀ j ∈ positions.filter (· ≠ p), (if p < j then j - 1 else j) = id j := by
    intro j hj
    have hle := h j (List.mem_filter.mp hj).1
    simp [Nat.not_lt.mpr hle]
  rw [withoutLayer, List.map_congr_left hkeep, List.map_id]

/-- An advisory layer that fails at once. -/
def brokenLayer : Callback σ Cmd where
  enforcing := false
  body _ := .ret (.raised (some "broken"))

end Rash
