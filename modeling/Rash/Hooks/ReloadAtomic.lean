import Rash.Hooks.LoadedSet

/-!
# A load that fails

`rash_hooks_load_configuration` saves eleven of the fifteen kinds before it empties the
globals.  After a failed load the other four keep the count and the bits that the rejected
directory registered, over the tables of the previous interpreter.
-/

namespace Rash

variable {F : Type}

theorem rejected_hooks {newstate : Bool} {disk : Disk F} {directory : String}
    {allow enforce : Bool} {g : HookSystem F}
    (hfail : (rashHooksLoadConfiguration newstate disk directory allow enforce g).1 = false) :
    (rashHooksLoadConfiguration newstate disk directory allow enforce g).2.hooks =
      g.hooks.restore
        (loadReplacement newstate directory (disk directory) allow enforce g).2.hooks := by
  obtain ⟨manifest, lines, heq⟩ := load_rejects hfail
  rw [heq]
  rfl

theorem adopted_ready {newstate : Bool} {disk : Disk F} {directory : String}
    {allow enforce : Bool} {g : HookSystem F}
    (h : (rashHooksLoadConfiguration newstate disk directory allow enforce g).1 = true) :
    (rashHooksLoadConfiguration newstate disk directory allow enforce g).2.hooks.Ready := by
  obtain ⟨hloaded, manifest, heq⟩ := load_adopts h
  obtain rfl := newstate_of_loaded hloaded
  have hready := (loadReplacement_replaced directory (disk directory) allow enforce g).ready
  rw [heq, adoptConfiguration]
  cases g.hooks.rashLua with
  | none => exact hready
  | some L =>
      dsimp only
      split <;> exact hready

theorem restore_view_saved (previous loaded : HookSet F) {kind : HookKind}
    (hsaved : kind ∈ savedKinds) : (previous.restore loaded).view kind = previous.view kind := by
  simp only [HookSet.view, HookSet.restore, hsaved, if_true]

theorem HookSet.Ready.callbacks_ne_none {s : HookSet F} (h : s.Ready) (kind : HookKind) :
    (s.view kind).1 ≠ none := by
  obtain ⟨L, hlua, hlength⟩ := h.lua
  have hlt : kind.ref < L.registry.length := by
    rw [hlength]
    exact kind.ref_lt
  simp [HookSet.view, hlua, h.ref kind, LuaState.rawGet, hlt]

/-- The view of a kind that is not saved is the previous one only if the rejected load left
the same table globals. -/
theorem restore_view_unsaved {previous loaded : HookSet F} (hready : previous.Ready)
    {kind : HookKind} (hunsaved : kind ∉ savedKinds)
    (href : (loaded.table kind).ref = none ∨ (loaded.table kind).ref = some kind.ref) :
    (previous.restore loaded).view kind = previous.view kind ↔
      loaded.table kind = previous.table kind := by
  constructor
  · intro hview
    have hnone := hready.callbacks_ne_none kind
    rw [← hview] at hnone
    have hbits : (loaded.table kind).enforcing = (previous.table kind).enforcing := by
      have h := congrArg (fun v => v.2.2) hview
      simpa only [HookSet.view, HookSet.restore, hunsaved, if_false] using h
    refine HookTable.eq_of ?_ hbits
    rcases href with href | href
    · refine absurd ?_ hnone
      simp only [HookSet.view, HookSet.restore, hunsaved, if_false, href, LuaState.rawGet,
        Option.bind_none, Option.bind_fun_none]
    · rw [href, hready.ref kind]
  · intro htable
    simp only [HookSet.view, HookSet.restore, hunsaved, if_false, htable]

/-- The tables of a load are the previous ones exactly when a state could be made and the
directory registered the same bits. -/
theorem loadReplacement_table_iff {newstate : Bool} {directory : String} {dir : HookDirectory F}
    {allow enforce : Bool} {g : HookSystem F} (hready : g.hooks.Ready) (kind : HookKind) :
    (loadReplacement newstate directory dir allow enforce g).2.hooks.table kind =
        g.hooks.table kind ↔
      newstate = true ∧ dir.bits allow enforce kind = (g.hooks.table kind).enforcing := by
  cases newstate with
  | false =>
      rw [(loadReplacement_no_state directory dir allow enforce g).2]
      refine ⟨fun h => ?_, fun h => absurd h.1 Bool.false_ne_true⟩
      have href := congrArg HookTable.ref h
      rw [hready.ref kind] at href
      cases href
  | true =>
      have hloaded := loadReplacement_replaced directory dir allow enforce g
      rw [← hloaded.enforcing kind]
      constructor
      · exact fun h => ⟨rfl, congrArg HookTable.enforcing h⟩
      · rintro ⟨-, hbits⟩
        exact HookTable.eq_of ((hloaded.ready.ref kind).trans (hready.ref kind).symm) hbits

theorem loadReplacement_ref {newstate : Bool} {directory : String} {dir : HookDirectory F}
    {allow enforce : Bool} {g : HookSystem F} (kind : HookKind) :
    ((loadReplacement newstate directory dir allow enforce g).2.hooks.table kind).ref = none ∨
      ((loadReplacement newstate directory dir allow enforce g).2.hooks.table kind).ref =
        some kind.ref := by
  cases newstate with
  | false =>
      rw [(loadReplacement_no_state directory dir allow enforce g).2]
      exact Or.inl rfl
  | true =>
      exact Or.inr ((loadReplacement_replaced directory dir allow enforce g).ready.ref kind)

/-- A failed load leaves every kind as it was exactly when, for each kind that is not saved,
the rejected directory registered the bits that the active set has. -/
theorem rashHooksLoadConfiguration_atomic_iff {newstate : Bool} {disk : Disk F}
    {directory : String} {allow enforce : Bool} {g : HookSystem F} (hactive : g.hooks.Ready)
    (hfail : (rashHooksLoadConfiguration newstate disk directory allow enforce g).1 = false) :
    (∀ kind, (rashHooksLoadConfiguration newstate disk directory allow enforce g).2.hooks.view
        kind = g.hooks.view kind) ↔
      newstate = true ∧ ∀ kind, kind ∉ savedKinds →
        (disk directory).bits allow enforce kind = (g.hooks.table kind).enforcing := by
  rw [rejected_hooks hfail]
  have hunsaved : ∀ kind, kind ∉ savedKinds → ((g.hooks.restore
      (loadReplacement newstate directory (disk directory) allow enforce g).2.hooks).view kind =
        g.hooks.view kind ↔
      newstate = true ∧
        (disk directory).bits allow enforce kind = (g.hooks.table kind).enforcing) :=
    fun kind hkind =>
      (restore_view_unsaved hactive hkind (loadReplacement_ref kind)).trans
        (loadReplacement_table_iff hactive kind)
  constructor
  · intro hview
    exact ⟨((hunsaved .rack (by decide)).mp (hview .rack)).1,
      fun kind hkind => ((hunsaved kind hkind).mp (hview kind)).2⟩
  · rintro ⟨hstate, hbits⟩ kind
    by_cases hsaved : kind ∈ savedKinds
    · exact restore_view_saved _ _ hsaved
    · exact (hunsaved kind hsaved).mpr ⟨hstate, hbits kind hsaved⟩

/-! ## A rack layer and a bad edit -/

/-- A regular file of root that others cannot write. -/
def rootStat : Stat := ⟨1, 1, 0o100644, 0, 64, 0, 0⟩

/-- A directory with one hook file of root that can be read. -/
def oneHook (chunk : Chunk F) : HookDirectory F :=
  ⟨some rootStat, true, [("a.lua", ⟨some rootStat, true, some rootStat, true, chunk⟩)]⟩

/-- After a load of one file that registers a rack layer. -/
def rackLoaded : Bool × HookSystem Unit :=
  rashHooksLoadConfiguration true (fun _ => oneHook ⟨true, [(.rack, ())], true⟩) "/hooks" false
    false .initial

/-- The file was edited and does not compile any more. -/
def rackBroken : Disk Unit := fun _ => oneHook ⟨false, [], false⟩

theorem reload_dropped_rack :
    (rashHooksLoadConfiguration true rackBroken "/hooks" false false rackLoaded.2).1 = false ∧
      ¬ ∀ kind, (rashHooksLoadConfiguration true rackBroken "/hooks" false false
        rackLoaded.2).2.hooks.view kind = rackLoaded.2.hooks.view kind := by
  refine ⟨rfl, fun hview => ?_⟩
  have hcount := congrArg (fun v => v.2.1) (hview .rack)
  revert hcount
  decide

/-- The edited file registers the same layer and raises an error behind it. -/
def rackRaises : Disk Unit := fun _ => oneHook ⟨true, [(.rack, ())], false⟩

theorem rashHooksLoadConfiguration_atomic_same_rack :
    (∀ kind, (rashHooksLoadConfiguration true rackRaises "/hooks" false false
        rackLoaded.2).2.hooks.view kind = rackLoaded.2.hooks.view kind) ↔
      true = true ∧ ∀ kind, kind ∉ savedKinds →
        (rackRaises "/hooks").bits false false kind = (rackLoaded.2.hooks.table kind).enforcing :=
  rashHooksLoadConfiguration_atomic_iff (adopted_ready (by decide)) (by decide)

end Rash
