import Rash.Hooks.ReloadAtomic
import Rash.Lib.Machine

/-!
# One configuration for a process

Outside the mtime mode a loaded set is final when `hook_state` is 1.  A set whose only
callbacks are rack layers, dispatch hooks or expand hooks leaves `hook_state` at -1, and
the next change of the environment replaces it.
-/

namespace Rash

open Machine

variable {F : Type}

/-- The kinds that `rash_hooks_have_any_observers` does not ask for. -/
def unobservedKinds : List HookKind := [.rack, .dispatch, .expandHook]

theorem haveAnyObservers_iff (s : HookSet F) :
    s.haveAnyObservers = true ↔ ∃ kind, kind ∉ unobservedKinds ∧ 0 < (s.table kind).count := by
  constructor
  · intro h
    simp only [HookSet.haveAnyObservers, Bool.or_eq_true, decide_eq_true_eq] at h
    rcases h with ((((((((((h | h) | h) | h) | h) | h) | h) | h) | h) | h) | h) | h <;>
      exact ⟨_, by decide, h⟩
  · rintro ⟨kind, hkind, hcount⟩
    simp only [HookSet.haveAnyObservers, Bool.or_eq_true, decide_eq_true_eq]
    cases kind <;> first | exact absurd (by decide) hkind | simp [hcount]

/-- What can touch the configuration while commands run: `rash_hooks_initialize (0)` in the
environment of the moment, and a callback of the active set that registers another one. -/
inductive SessionAction (F : Type)
  | initializeHooks (newstate : Bool) (env : HookEnvironment) (disk : Disk F)
  | register (r : HookKind × F)

def sessionStep (g : HookSystem F) : SessionAction F → Option (HookSystem F)
  | .initializeHooks newstate env disk => some (rashHooksInitialize false newstate env disk g).2
  | .register r => some (g.register r)

/-- `RASH_HOOK_RELOAD` is never `mtime`, and callbacks register only what `late` holds of. -/
def OneShotAction (late : HookKind × F → Prop) (_ : HookSystem F) : SessionAction F → Prop
  | .initializeHooks _ env _ => env.reloadMode = false
  | .register r => late r

/-- The hook set is the same after every run. -/
def SetFinal (late : HookKind × F → Prop) (g : HookSystem F) : Prop :=
  ∀ path last, PathMeets sessionStep (OneShotAction late) g path →
    runPath sessionStep g path = some last → last.hooks = g.hooks

theorem initialize_settled {g : HookSystem F} (hstate : g.hookState = 1) (newstate : Bool)
    {env : HookEnvironment} (hmode : env.reloadMode = false) (disk : Disk F) :
    (rashHooksInitialize false newstate env disk g).2 = g := by
  unfold rashHooksInitialize
  cases env.rashHookDir with
  | none => rfl
  | some directory => by_cases hempty : directory = "" <;> simp [hempty, hstate, hmode]

theorem setFinal_of_settled {late : HookKind × F → Prop} (hlate : ∀ r, ¬ late r)
    {g : HookSystem F} (hstate : g.hookState = 1) : SetFinal late g := by
  intro path last hmeets hrun
  have hstep : ∀ s a s', s = g → OneShotAction late s a → sessionStep s a = some s' →
      s' = g := by
    rintro s a s' rfl hcond hs'
    cases a with
    | initializeHooks newstate env disk =>
        cases hs'
        exact initialize_settled hstate newstate hcond disk
    | register r => exact absurd hcond (hlate r)
  rw [path_invariant hstep rfl hmeets hrun]

theorem adopted_hooks {newstate : Bool} {disk : Disk F} {directory : String}
    {allow enforce : Bool} {g : HookSystem F}
    (h : (rashHooksLoadConfiguration newstate disk directory allow enforce g).1 = true) :
    (rashHooksLoadConfiguration newstate disk directory allow enforce g).2.hooks =
        (loadReplacement newstate directory (disk directory) allow enforce g).2.hooks ∧
      (rashHooksLoadConfiguration newstate disk directory allow enforce g).2.hookState =
        (if (loadReplacement newstate directory (disk directory) allow enforce
            g).2.hooks.haveAnyObservers then 1 else -1) ∧
      (rashHooksLoadConfiguration newstate disk directory allow enforce g).2.hookDirectory =
        some directory := by
  obtain ⟨-, manifest, heq⟩ := load_adopts h
  rw [heq, adoptConfiguration]
  cases g.hooks.rashLua with
  | none => exact ⟨rfl, rfl, rfl⟩
  | some L =>
      dsimp only
      split <;> exact ⟨rfl, rfl, rfl⟩

/-- A directory without hook files. -/
def emptyDirectory : HookDirectory F := ⟨some rootStat, true, []⟩

theorem emptyDirectory_bits (allow enforce : Bool) (kind : HookKind) :
    (emptyDirectory (F := F)).bits allow enforce kind = [] := rfl

theorem load_emptyDirectory (directory : String) (allow enforce : Bool) (g : HookSystem F) :
    (rashHooksLoadConfiguration true (fun _ => emptyDirectory) directory allow enforce g).1 =
        true ∧
      ∀ kind, ((rashHooksLoadConfiguration true (fun _ => emptyDirectory) directory allow enforce
        g).2.hooks.table kind).count = 0 := by
  have hloaded : (rashHooksLoadConfiguration true (fun _ => emptyDirectory) directory allow
      enforce g).1 = true := rfl
  refine ⟨hloaded, fun kind => ?_⟩
  rw [(adopted_hooks hloaded).1]
  have hbits := (loadReplacement_replaced directory emptyDirectory allow enforce g).enforcing kind
  rw [emptyDirectory_bits] at hbits
  rw [← ((loadReplacement true directory emptyDirectory allow enforce g).2.hooks.table kind).sized,
    hbits]
  rfl

/-- The environment after `RASH_HOOK_DIR` was set to another directory. -/
def movedTo (directory : String) : HookEnvironment := ⟨some directory, none, none, none⟩

theorem exists_other_directory (directory : Option String) :
    ∃ other : String, other ≠ "" ∧ directory ≠ some other := by
  by_cases h : directory = some "/a"
  · refine ⟨"/b", by decide, ?_⟩
    rw [h]
    decide
  · exact ⟨"/a", by decide, h⟩

/-- Without `hook_state` 1 a set with a callback is replaced after a change of directory. -/
theorem not_setFinal_of_unsettled {late : HookKind × F → Prop} {g : HookSystem F}
    (hstate : g.hookState ≠ 1) (hsome : ∃ kind, 0 < (g.hooks.table kind).count) :
    ¬ SetFinal late g := by
  intro hfinal
  obtain ⟨other, hother, hdir⟩ := exists_other_directory g.hookDirectory
  have hmoved : rashHooksInitialize false true (movedTo other) (fun _ => emptyDirectory) g =
      rashHooksLoadConfiguration true (fun _ => emptyDirectory) other false false g := by
    have hsame : g.sameConfiguration (movedTo other) other = false := by
      simp [HookSystem.sameConfiguration, hdir]
    simp only [rashHooksInitialize, movedTo, hother, hstate, if_false, and_false, false_and]
    rw [if_neg]
    · rfl
    · exact fun h => by cases h.2.1.symm.trans hsame
  obtain ⟨kind, hcount⟩ := hsome
  have hsame := hfinal [.initializeHooks true (movedTo other) fun _ => emptyDirectory] _
    ⟨rfl, fun _ _ => trivial⟩ rfl
  rw [hmoved] at hsame
  rw [← hsame, (load_emptyDirectory other false false g).2 kind] at hcount
  exact Nat.lt_irrefl 0 hcount

theorem not_setFinal_of_late {late : HookKind × F → Prop} {r : HookKind × F} (hlate : late r)
    (g : HookSystem F) : ¬ SetFinal late g := by
  intro hfinal
  have hsame := hfinal [.register r] _ ⟨hlate, fun _ _ => trivial⟩ rfl
  have hcount := congrArg (fun s => (s.table r.1).count) hsame
  simp [HookSystem.register, HookSet.rashRegisterCallback, HookSet.setTable,
    HookTable.register] at hcount

/-- A loaded set with a callback is final exactly when one of its callbacks is of a kind that
`rash_hooks_have_any_observers` asks for, and its callbacks register no further ones. -/
theorem rashHooksInitialize_oneShot_iff {newstate : Bool} {disk : Disk F} {directory : String}
    {allow enforce : Bool} {g : HookSystem F} (late : HookKind × F → Prop)
    (hload : (rashHooksLoadConfiguration newstate disk directory allow enforce g).1 = true)
    (hsome : ∃ kind, 0 < ((rashHooksLoadConfiguration newstate disk directory allow enforce
      g).2.hooks.table kind).count) :
    SetFinal late (rashHooksLoadConfiguration newstate disk directory allow enforce g).2 ↔
      (∃ kind, kind ∉ unobservedKinds ∧ 0 < ((rashHooksLoadConfiguration newstate disk directory
        allow enforce g).2.hooks.table kind).count) ∧ ∀ r, ¬ late r := by
  obtain ⟨hhooks, hstate, -⟩ := adopted_hooks hload
  rw [← hhooks] at hstate
  rw [← haveAnyObservers_iff]
  constructor
  · intro hfinal
    refine ⟨?_, fun r hlate => not_setFinal_of_late hlate _ hfinal⟩
    by_contra hobserved
    refine not_setFinal_of_unsettled ?_ hsome hfinal
    rw [hstate, if_neg hobserved]
    decide
  · rintro ⟨hobserved, hlate⟩
    refine setFinal_of_settled hlate ?_
    rw [hstate, if_pos hobserved]

/-- The rack layer that was loaded is gone after a change of directory. -/
theorem rackLoaded_replaced :
    rackLoaded.1 = true ∧ (rackLoaded.2.hooks.table .rack).count = 1 ∧
      ¬ SetFinal (fun _ => False) rackLoaded.2 :=
  ⟨rfl, rfl, not_setFinal_of_unsettled (by decide) ⟨.rack, by decide⟩⟩

/-- After a load of one file that registers a before hook. -/
theorem rashHooksInitialize_oneShot_before :
    SetFinal (fun _ => False) (rashHooksLoadConfiguration true
        (fun _ => oneHook ⟨true, [(.before, ())], true⟩) "/hooks" false false .initial).2 ↔
      (∃ kind, kind ∉ unobservedKinds ∧ 0 < ((rashHooksLoadConfiguration true
        (fun _ => oneHook ⟨true, [(.before, ())], true⟩) "/hooks" false false
        .initial).2.hooks.table kind).count) ∧ ∀ _ : HookKind × Unit, ¬ False :=
  rashHooksInitialize_oneShot_iff (fun _ => False) (by decide) ⟨.before, by decide⟩

end Rash
