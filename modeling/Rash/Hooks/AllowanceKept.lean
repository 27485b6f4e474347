import Rash.Hooks.Allowance
import Rash.Hooks.LuaStatesSafe

/-!
# The allowance of an outermost callback

`rash_lua_call_depth` counts the callbacks on the C stack as long as every non-local jump either
leaves no callback and no `rash_hooks_execute`, or leaves the latter and all callbacks.
-/

namespace Rash

open Machine

variable {F : Type}

namespace Allowance

/-- The depth is the number of callbacks, and the outermost has the counting hook. -/
structure Counts (a : Allowance) (callbacks : List ℕ) : Prop where
  depth : a.callDepth = (callbacks.length : Int)
  outermost : ∀ lua, callbacks.getLast? = some lua → a.counts lua = true

variable {a : Allowance} {callbacks : List ℕ}

theorem counts_initial : initial.Counts [] := ⟨rfl, fun _ h => by cases h⟩

theorem sethook_self (a : Allowance) (lua : ℕ) (counts : Bool) :
    (a.sethook lua counts).counts lua = counts := if_pos rfl

theorem Counts.enterPcall (h : a.Counts callbacks) (lua : ℕ) :
    (a.enterPcall lua).Counts (lua :: callbacks) := by
  unfold Allowance.enterPcall
  dsimp only
  by_cases hzero : a.callDepth = 0
  · have hnone : callbacks = [] := List.length_eq_zero_iff.mp (by have := h.depth; omega)
    rw [if_pos hzero, hnone]
    refine ⟨?_, fun outermost houter => ?_⟩
    · change a.callDepth + 1 = _
      rw [hzero]
      rfl
    · cases houter
      exact sethook_self _ _ _
  · have hsome : callbacks ≠ [] := fun hnone => hzero (by rw [h.depth, hnone]; rfl)
    rw [if_neg hzero]
    refine ⟨?_, fun outermost houter => h.outermost outermost ?_⟩
    · change a.callDepth + 1 = _
      rw [h.depth, List.length_cons]
      omega
    · rw [List.getLast?_cons_of_ne_nil hsome] at houter
      exact houter

theorem Counts.leavePcall {lua : ℕ} (h : a.Counts (lua :: callbacks)) :
    (a.leavePcall lua).Counts callbacks := by
  have hdepth := h.depth
  rw [List.length_cons] at hdepth
  unfold Allowance.leavePcall
  dsimp only
  by_cases hzero : a.callDepth - 1 = 0
  · have hnone : callbacks = [] := List.length_eq_zero_iff.mp (by omega)
    rw [if_pos hzero, hnone]
    exact ⟨hzero, fun _ h => by cases h⟩
  · have hsome : callbacks ≠ [] := fun hnone => hzero (by rw [hdepth, hnone]; rfl)
    rw [if_neg hzero]
    refine ⟨?_, fun outermost houter => h.outermost outermost ?_⟩
    · change a.callDepth - 1 = _
      omega
    · rw [List.getLast?_cons_of_ne_nil hsome]
      exact houter

theorem counts_unwindHookContext (a : Allowance) (rashLua : Option ℕ) :
    (a.unwindHookContext rashLua).Counts [] := ⟨rfl, fun _ h => by cases h⟩

/-- What a callback that is called first finds. -/
theorem enterPcall_first (h : a.Counts []) (lua : ℕ) :
    (a.enterPcall lua).instructionTicks = rashHookMaxTicks ∧
      (a.enterPcall lua).counts lua = true := by
  have hzero : a.callDepth = 0 := h.depth
  unfold Allowance.enterPcall
  rw [if_pos hzero]
  exact ⟨rfl, sethook_self _ _ _⟩

end Allowance

/-! ## What is claimed -/

namespace AllowanceState

/-- The depth is 0 exactly when no callback is on the stack, and the outermost callback has the
counting hook. -/
structure Allowed (s : AllowanceState F) : Prop where
  depth : s.calls.callDepth = 0 ↔ s.callbacks = []
  outermost : ∀ lua, s.callbacks.getLast? = some lua → s.calls.counts lua = true

/-- A callback that is called when none is on the stack starts with the full allowance and the
counting hook. -/
def StartsAllowed (s s' : AllowanceState F) : Prop :=
  s.callbacks = [] → ∀ lua, s'.callbacks = [lua] →
    s'.calls.instructionTicks = rashHookMaxTicks ∧ s'.calls.counts lua = true

/-- A jump that leaves `rash_hooks_execute` leaves all callbacks, and any other leaves none. -/
def JumpSafe (s : AllowanceState F) : AllowanceAction F → Prop
  | .jump left =>
      if (s.frames.take left).any AllowanceFrame.isContext then
        luaCallbacks (s.frames.drop left) = []
      else luaCallbacks (s.frames.take left) = []
  | .enter _ | .nextLayer | .passOn | .fallThrough | .nextHook | .original | .tick | .leave => True

instance (s : AllowanceState F) (a : AllowanceAction F) : Decidable (s.JumpSafe a) := by
  unfold JumpSafe
  split <;> infer_instance

end AllowanceState

open AllowanceState

theorem Allowance.Counts.allowed {s : AllowanceState F} (h : s.calls.Counts s.callbacks) :
    s.Allowed := by
  refine ⟨?_, h.outermost⟩
  rw [h.depth, ← List.length_eq_zero_iff]
  omega

/-! ## Steps -/

/-- `rash_lua_pcall` is entered. -/
def Calls (s s' : AllowanceState F) : Prop :=
  ∃ lua, s'.callbacks = lua :: s.callbacks ∧ s'.calls = s.calls.enterPcall lua

/-- `rash_lua_pcall` is left. -/
def Returns (s s' : AllowanceState F) : Prop :=
  ∃ lua, s.callbacks = lua :: s'.callbacks ∧ s'.calls = s.calls.leavePcall lua

/-- Nothing of the kind; at most a tick is counted. -/
def GoesOn (s s' : AllowanceState F) : Prop :=
  s'.callbacks = s.callbacks ∧ s'.calls.callDepth = s.calls.callDepth ∧
    s'.calls.counts = s.calls.counts

variable {s s' : AllowanceState F}

theorem callbacks_cons {f : AllowanceFrame} (hf : f.lua = none) (frames : List AllowanceFrame) :
    luaCallbacks (f :: frames) = luaCallbacks frames := List.filterMap_cons_none hf

theorem calls_callLua (s : AllowanceState F) {lua : ℕ} {f : AllowanceFrame}
    (hf : f.lua = some lua) : Calls s (s.callLua lua f) :=
  ⟨lua, List.filterMap_cons_some hf, rfl⟩

theorem enterStep_cases {a : HookAction F} (hstep : enterStep s a = some s') :
    Calls s s' ∨ GoesOn s s' := by
  cases a with
  | executeCommand call =>
      cases hstep
      exact Or.inr ⟨callbacks_cons rfl _, rfl, rfl⟩
  | rackExecute call =>
      unfold enterStep at hstep
      dsimp only at hstep
      split at hstep
      · cases hstep
        exact Or.inr ⟨rfl, rfl, rfl⟩
      · rename_i lua hlua
        cases hstep
        exact Or.inl ⟨lua, rfl, rfl⟩
  | lifecycle call =>
      unfold enterStep at hstep
      dsimp only at hstep
      split at hstep
      · cases hstep
        exact Or.inr ⟨rfl, rfl, rfl⟩
      · cases hstep
        exact Or.inr ⟨callbacks_cons rfl _, rfl, rfl⟩
  | reloadDirect call =>
      unfold enterStep at hstep
      dsimp only at hstep
      split at hstep
      · cases hstep
        exact Or.inr ⟨callbacks_cons rfl _, rfl, rfl⟩
      · cases hstep
        exact Or.inr ⟨rfl, rfl, rfl⟩
  | stage kind call =>
      cases hstep
      unfold callCallee
      split
      · exact Or.inr ⟨rfl, rfl, rfl⟩
      · exact Or.inl (calls_callLua s rfl)
  | reloadhooks call =>
      cases hstep
      exact Or.inr ⟨rfl, rfl, rfl⟩
  | nextLayer => cases hstep
  | passOn => cases hstep
  | run => cases hstep
  | leave jumps => cases hstep

/-- A frame returns; a callback leaves `rash_lua_pcall`. -/
theorem returnFrame_cases {f : AllowanceFrame} {rest : List AllowanceFrame}
    (hframes : s.frames = f :: rest) :
    Returns s (returnFrame { s with frames := rest } f) ∨
      GoesOn s (returnFrame { s with frames := rest } f) := by
  have hcallbacks : s.callbacks = luaCallbacks (f :: rest) := congrArg luaCallbacks hframes
  cases f with
  | layer lua raised => exact Or.inl ⟨lua, hcallbacks, rfl⟩
  | hook lua => exact Or.inl ⟨lua, hcallbacks, rfl⟩
  | stage lua => exact Or.inl ⟨lua, hcallbacks, rfl⟩
  | command => exact Or.inr ⟨hcallbacks.symm, rfl, rfl⟩
  | passedOn => exact Or.inr ⟨hcallbacks.symm, rfl, rfl⟩
  | fellThrough raised => exact Or.inr ⟨hcallbacks.symm, rfl, rfl⟩
  | context lua executionDepth callDepth ticks => exact Or.inr ⟨hcallbacks.symm, rfl, rfl⟩
  | original => exact Or.inr ⟨hcallbacks.symm, rfl, rfl⟩
  | direct => exact Or.inr ⟨hcallbacks.symm, rfl, rfl⟩

theorem allowanceStep_cases {a : AllowanceAction F} (hstep : allowanceStep s a = some s') :
    Calls s s' ∨ Returns s s' ∨ GoesOn s s' ∨ ∃ left, a = .jump left := by
  cases a with
  | enter a =>
      unfold allowanceStep at hstep
      dsimp only at hstep
      split at hstep
      · rcases enterStep_cases hstep with hcalls | hgoes
        · exact Or.inl hcalls
        · exact Or.inr (Or.inr (Or.inl hgoes))
      · cases hstep
  | nextLayer =>
      unfold allowanceStep nextLayerCall at hstep
      dsimp only at hstep
      split at hstep
      · cases hstep
        exact Or.inl (calls_callLua s rfl)
      · cases hstep
  | passOn =>
      unfold allowanceStep passOnCall at hstep
      dsimp only at hstep
      split at hstep
      · cases hstep
        exact Or.inr (Or.inr (Or.inl ⟨callbacks_cons rfl _, rfl, rfl⟩))
      · cases hstep
  | fallThrough =>
      unfold allowanceStep fallThroughCall at hstep
      dsimp only at hstep
      split at hstep
      · rename_i lua raised rest hframes
        cases hstep
        exact Or.inr (Or.inl ⟨lua, congrArg luaCallbacks hframes, rfl⟩)
      · cases hstep
  | nextHook =>
      obtain ⟨lua, -, rfl⟩ := Option.map_eq_some_iff.mp hstep
      exact Or.inl (calls_callLua s rfl)
  | original =>
      obtain ⟨lua, -, rfl⟩ := Option.map_eq_some_iff.mp hstep
      exact Or.inr (Or.inr (Or.inl ⟨callbacks_cons rfl _, rfl, rfl⟩))
  | tick =>
      unfold allowanceStep tickStep at hstep
      dsimp only at hstep
      split at hstep
      · cases hstep
      · split at hstep
        · cases hstep
          exact Or.inr (Or.inr (Or.inl ⟨rfl, rfl, rfl⟩))
        · cases hstep
  | leave =>
      unfold allowanceStep at hstep
      dsimp only at hstep
      split at hstep
      · cases hstep
      · rename_i f rest hframes
        cases hstep
        rcases returnFrame_cases hframes with hreturns | hgoes
        · exact Or.inr (Or.inl hreturns)
        · exact Or.inr (Or.inr (Or.inl hgoes))
  | jump left => exact Or.inr (Or.inr (Or.inr ⟨left, rfl⟩))

/-- What a step keeps. -/
def AllowanceState.Counted (s : AllowanceState F) : Prop := s.calls.Counts s.callbacks

/-! ### Jumps -/

theorem foldl_unwindFrame_calls (gone : List AllowanceFrame)
    (hgone : gone.any AllowanceFrame.isContext = false) (s : AllowanceState F) :
    (gone.foldl unwindFrame s).calls = s.calls := by
  induction gone generalizing s with
  | nil => rfl
  | cons f rest ih =>
      rw [List.any_cons, Bool.or_eq_false_iff] at hgone
      rw [List.foldl_cons, ih hgone.2]
      cases f with
      | context lua executionDepth callDepth ticks => cases hgone.1
      | _ => rfl

/-- Behind `rash_unwind_hook_context` the counters are as for no callback. -/
theorem foldl_unwindFrame_context (gone : List AllowanceFrame)
    (hgone : gone.any AllowanceFrame.isContext = true) (s : AllowanceState F) :
    (gone.foldl unwindFrame s).calls.Counts [] := by
  induction gone generalizing s with
  | nil => cases hgone
  | cons f rest ih =>
      rw [List.foldl_cons]
      by_cases hrest : rest.any AllowanceFrame.isContext = true
      · exact ih hrest _
      · have hrest := Bool.eq_false_iff.mpr hrest
        rw [foldl_unwindFrame_calls rest hrest]
        rw [List.any_cons, hrest, Bool.or_false] at hgone
        cases f with
        | context lua executionDepth callDepth ticks =>
            exact Allowance.counts_unwindHookContext _ _
        | _ => cases hgone

/-- A jump keeps the count exactly where it is safe. -/
theorem jump_counted_iff (h : s.Counted) {left : ℕ} (hstep : jumpStep left s = some s') :
    s'.Counted ↔ s.JumpSafe (.jump left) := by
  unfold jumpStep at hstep
  split at hstep
  · cases hstep
    unfold JumpSafe Counted AllowanceState.callbacks
    dsimp only
    by_cases hgone : (s.frames.take left).any AllowanceFrame.isContext = true
    · rw [if_pos hgone]
      have hzero := foldl_unwindFrame_context _ hgone s
      constructor
      · intro hcounts
        have hdepth := hcounts.depth
        rw [hzero.depth] at hdepth
        exact List.length_eq_zero_iff.mp (by simpa using hdepth.symm)
      · intro hnone
        rw [hnone]
        exact hzero
    · rw [if_neg hgone, foldl_unwindFrame_calls _ (Bool.eq_false_iff.mpr hgone)]
      have hsplit : s.callbacks =
          luaCallbacks (s.frames.take left) ++ luaCallbacks (s.frames.drop left) := by
        unfold AllowanceState.callbacks luaCallbacks
        rw [← List.filterMap_append, List.take_append_drop]
      have hcounts : s.calls.Counts s.callbacks := h
      rw [hsplit] at hcounts
      constructor
      · intro hafter
        have hdepth := hafter.depth
        rw [hcounts.depth, List.length_append] at hdepth
        exact List.length_eq_zero_iff.mp (by omega)
      · intro hnone
        rw [hnone, List.nil_append] at hcounts
        exact hcounts
  · cases hstep

theorem allowanceStep_counted (s : AllowanceState F) (a : AllowanceAction F)
    (s' : AllowanceState F) (h : s.Counted) (hsafe : s.JumpSafe a)
    (hstep : allowanceStep s a = some s') : s'.Counted := by
  have hcounts : s.calls.Counts s.callbacks := h
  unfold AllowanceState.Counted
  rcases allowanceStep_cases hstep with ⟨lua, hcallbacks, hcalls⟩ | ⟨lua, hcallbacks, hcalls⟩ |
    ⟨hcallbacks, hdepth, hhooks⟩ | ⟨left, rfl⟩
  · rw [hcallbacks, hcalls]
    exact hcounts.enterPcall lua
  · rw [hcallbacks] at hcounts
    rw [hcalls]
    exact hcounts.leavePcall
  · rw [hcallbacks]
    exact ⟨hdepth.trans hcounts.depth, fun lua hlua => by
      rw [hhooks]
      exact hcounts.outermost lua hlua⟩
  · exact (jump_counted_iff h hstep).mpr hsafe

/-- A callback that comes on an empty stack has just entered `rash_lua_pcall`. -/
theorem allowanceStep_starts {a : AllowanceAction F} (h : s.Counted)
    (hstep : allowanceStep s a = some s') : StartsAllowed s s' := by
  intro hempty lua hlua
  have hcounts : s.calls.Counts s.callbacks := h
  rcases allowanceStep_cases hstep with ⟨lua', hcallbacks, hcalls⟩ | ⟨lua', hcallbacks, -⟩ |
    ⟨hcallbacks, -, -⟩ | ⟨left, rfl⟩
  · rw [hempty] at hcallbacks hcounts
    obtain rfl : lua' = lua := by
      rw [hcallbacks] at hlua
      exact List.head_eq_of_cons_eq hlua
    rw [hcalls]
    exact Allowance.enterPcall_first hcounts lua'
  · rw [hempty] at hcallbacks
    cases hcallbacks
  · rw [hcallbacks, hempty] at hlua
    cases hlua
  · unfold allowanceStep jumpStep at hstep
    dsimp only at hstep
    split at hstep
    · cases hstep
      have hsub : luaCallbacks (s.frames.drop left) <:+ s.callbacks :=
        (List.drop_suffix left s.frames).filterMap AllowanceFrame.lua
      rw [hempty] at hsub
      have hnone := List.suffix_nil.mp hsub
      change luaCallbacks (s.frames.drop left) = [lua] at hlua
      rw [hnone] at hlua
      cases hlua
    · cases hstep

/-! ## Runs -/

/-- In every state that safe steps reach the depth tells whether a callback is on the stack and
the outermost has the counting hook, and every step from there that calls an outermost callback
gives it the full allowance. -/
theorem allowance_kept {path : List (AllowanceAction F)}
    (hsafe : PathMeets allowanceStep JumpSafe initial path)
    (hrun : runPath allowanceStep initial path = some s) :
    s.Allowed ∧ ∀ a s', allowanceStep s a = some s' → StartsAllowed s s' := by
  have hinitial : (initial : AllowanceState F).Counted := Allowance.counts_initial
  have h : s.Counted := path_invariant allowanceStep_counted hinitial hsafe hrun
  exact ⟨Allowance.Counts.allowed h, fun a s' hstep => allowanceStep_starts h hstep⟩

/-- A layer passes on a command that jumps to the loop that reads commands. -/
def abandonedLayer : List (AllowanceAction Unit) :=
  [.enter (.executeCommand oneLayerCall), .enter (.rackExecute oneLayerCall), .passOn, .jump 3]

/-- Behind the jump the depth stays at 1, and no callback is given an allowance any more. -/
theorem abandonedLayer_counted : ¬ ∀ (path : List (AllowanceAction Unit)) (s : AllowanceState Unit),
    runPath allowanceStep initial path = some s →
      s.Allowed ∧ ∀ a s', allowanceStep s a = some s' → StartsAllowed s s' := by
  intro h
  have hdepth := (h abandonedLayer _ rfl).1.depth.mpr rfl
  exact absurd hdepth (by decide)

/-- `RASH_HOOK_DIR` names a directory with a rack layer and a lifecycle hook. -/
def layerAndHookCall : InitializeCall Unit :=
  ⟨true, ⟨some "/hooks", none, none, none⟩, fun _ =>
    oneHook ⟨true, [(.rack, ()), (.hook, ())], true⟩⟩

/-- A layer passes on an `eval`, and the command in it, run by a hook, jumps back to it. -/
def abandonedHook : List (AllowanceAction Unit) :=
  [.enter (.executeCommand layerAndHookCall), .enter (.rackExecute layerAndHookCall), .passOn,
    .enter (.lifecycle layerAndHookCall), .nextHook, .original, .jump 3]

/-- The layer goes on without the counting hook; once it has returned the depth is -1, and the
next layer runs without an allowance. -/
theorem abandonedHook_uncounted :
    (∃ s, runPath allowanceStep initial abandonedHook = some s ∧ s.callbacks = [0] ∧
      s.calls.callDepth = 0 ∧ s.calls.counts 0 = false) ∧
    ∃ s, runPath allowanceStep initial (abandonedHook ++
        [.leave, .leave, .leave, .enter (.rackExecute layerAndHookCall)]) = some s ∧
      s.callbacks = [0] ∧ s.calls.callDepth = 0 ∧ s.calls.counts 0 = false :=
  ⟨⟨_, rfl, rfl, rfl, rfl⟩, _, rfl, rfl, rfl, rfl⟩

/-- A layer passes on a command that jumps no further than to itself, and returns. -/
def returningLayer : List (AllowanceAction Unit) :=
  [.enter (.executeCommand oneLayerCall), .enter (.rackExecute oneLayerCall), .passOn, .jump 0,
    .leave, .tick, .leave]

theorem allowance_kept_returning : ∃ s, runPath allowanceStep initial returningLayer = some s ∧
    (s.Allowed ∧ ∀ a s', allowanceStep s a = some s' → StartsAllowed s s') :=
  ⟨_, rfl, @allowance_kept _ _ returningLayer (by decide) rfl⟩

end Rash
