import Mathlib.Data.List.Perm.Basic
import Rash.Hooks.LuaStates

/-!
# The ledger of interpreters

Every interpreter that was made is in exactly one place: closed, retired or active.  A load
keeps the ledger balanced when nothing is overwritten in `retired_lua`, and between the
frames of the C stack and the depth counters there is an invariant that keeps what is
closed off the stack.
-/

namespace Rash

open Machine

variable {F : Type}

/-! ## The ledger -/

structure Ledger where
  active : Option ℕ
  retired : Option ℕ
  closed : List ℕ
  made : ℕ

namespace Ledger

/-- Closed, retired and active together are all that was made, each once. -/
def Balanced (l : Ledger) : Prop :=
  (l.closed ++ l.retired.toList ++ l.active.toList).Perm (List.range l.made)

/-- A replacement was made and closed again. -/
def reject (l : Ledger) : Ledger := { l with closed := l.closed ++ [l.made], made := l.made + 1 }

/-- A replacement was made and the active interpreter was retired or closed. -/
def adopt (l : Ledger) (retires : Bool) : Ledger where
  active := some l.made
  retired := if retires then l.active.or l.retired else l.retired
  closed := if retires then l.closed else l.closed ++ l.active.toList
  made := l.made + 1

/-- The retired interpreter was closed. -/
def release (l : Ledger) : Ledger :=
  { l with retired := none, closed := l.closed ++ l.retired.toList }

theorem balanced_initial : Balanced ⟨none, none, [], 0⟩ := List.Perm.refl _

theorem Balanced.reject {l : Ledger} (h : l.Balanced) : l.reject.Balanced := by
  have hperm : (l.closed ++ ([l.made] ++ (l.retired.toList ++ l.active.toList))).Perm
      (l.closed ++ ((l.retired.toList ++ l.active.toList) ++ [l.made])) :=
    List.perm_append_comm.append_left _
  refine (List.Perm.of_eq ?_).trans (hperm.trans ?_)
  · simp [Ledger.reject]
  · rw [← List.append_assoc, ← List.append_assoc]
    simpa only [Ledger.reject, List.range_succ] using h.append_right [l.made]

theorem Balanced.adopt_retires {l : Ledger} (h : l.Balanced) (hfree : l.retired = none) :
    (l.adopt true).Balanced := by
  unfold Balanced at h
  simp only [hfree, Option.toList_none, List.append_nil] at h
  simpa only [Balanced, Ledger.adopt, hfree, if_true, Option.or_none, Option.toList_some,
    List.range_succ] using h.append_right [l.made]

theorem Balanced.adopt_closes {l : Ledger} (h : l.Balanced) : (l.adopt false).Balanced := by
  have hperm : (l.closed ++ l.active.toList ++ l.retired.toList).Perm
      (l.closed ++ l.retired.toList ++ l.active.toList) := by
    rw [List.append_assoc, List.append_assoc]
    exact List.perm_append_comm.append_left _
  simpa only [Balanced, Ledger.adopt, Bool.false_eq_true, if_false, Option.toList_some,
    List.range_succ] using (hperm.trans h).append_right [l.made]

theorem Balanced.release {l : Ledger} (h : l.Balanced) : l.release.Balanced := by
  simpa only [Balanced, Ledger.release, Option.toList_none, List.append_nil] using h

theorem Balanced.nodup {l : Ledger} (h : l.Balanced) :
    (l.closed ++ l.retired.toList ++ l.active.toList).Nodup :=
  h.nodup_iff.mpr List.nodup_range

theorem Balanced.mem_iff {l : Ledger} (h : l.Balanced) (id : ℕ) :
    (id ∈ l.closed ∨ l.retired = some id ∨ l.active = some id) ↔ id < l.made := by
  rw [← List.mem_range, ← List.Perm.mem_iff h]
  simp

theorem Balanced.active_open {l : Ledger} (h : l.Balanced) {id : ℕ} (hactive : l.active = some id) :
    id ∉ l.closed := by
  intro hclosed
  have hdisjoint := List.disjoint_of_nodup_append h.nodup
  exact hdisjoint (List.mem_append_left _ hclosed) (by simp [hactive])

end Ledger

/-- The ledger of the globals. -/
def HookSystem.ledger (g : HookSystem F) : Ledger where
  active := g.hooks.rashLua.map (·.id)
  retired := g.retiredLua.map (·.id)
  closed := g.closed
  made := g.made

/-! ## A load in the ledger -/

theorem rashLoadHook_loads (path : String) (file : HookFile F) (allow : Bool)
    (g : HookSystem F) : (rashLoadHook path file allow g).1 = file.loads allow := by
  unfold rashLoadHook HookFile.loads
  cases file.refusal allow with
  | some text => rfl
  | none =>
      cases file.reads with
      | false => rfl
      | true =>
          simp only [if_true, runChunk, Option.isNone_none, Bool.true_and]
          split
          · simp_all
          · simp_all

theorem loadEach_loads (directory : String) (allow : Bool) (files : List (String × HookFile F))
    (r : Bool × HookSystem F) :
    (loadEach directory allow files r).1 = (r.1 && files.all fun e => e.2.loads allow) := by
  induction files generalizing r with
  | nil => simp [loadEach]
  | cons e rest ih =>
      rw [loadEach, ih]
      simp [rashLoadHook_loads, Bool.and_assoc]

theorem load_result (newstate : Bool) (disk : Disk F) (directory : String)
    (allow enforce : Bool) (g : HookSystem F) :
    (rashHooksLoadConfiguration newstate disk directory allow enforce g).1 =
      (newstate && (disk directory).loads allow) := by
  have hloaded : (loadReplacement newstate directory (disk directory) allow enforce g).1 =
      (newstate && (disk directory).opens &&
        (disk directory).luaEntries.all fun e => e.2.loads allow) := by
    cases newstate with
    | false => rfl
    | true =>
        simp only [loadReplacement, rashLuaReady, if_true, rashLoadHooks, Bool.true_and]
        split
        · rw [loadEach_loads]
          simp_all
        · simp_all
  unfold rashHooksLoadConfiguration HookDirectory.loads
  rw [← Bool.and_assoc, ← Bool.and_assoc, ← hloaded]
  generalize loadReplacement newstate directory (disk directory) allow enforce g = r
  obtain ⟨loaded, g'⟩ := r
  cases rashHookManifestCollect (disk directory) <;> cases loaded <;> rfl

/-- The depth counters are the same. -/
structure SameDepths (g g' : HookSystem F) : Prop where
  execution : g'.hookExecutionDepth = g.hookExecutionDepth
  command : g'.hookCommandDepth = g.hookCommandDepth
  rack : g'.rackDepth = g.rackDepth

theorem loadReplacement_ledger (newstate : Bool) (directory : String) (dir : HookDirectory F)
    (allow enforce : Bool) (g : HookSystem F) :
    let g' := (loadReplacement newstate directory dir allow enforce g).2
    SameDepths g g' ∧ g'.ledger =
      { g.ledger with
        active := if newstate then some g.made else none
        made := if newstate then g.made + 1 else g.made } := by
  cases newstate with
  | false =>
      rw [(loadReplacement_no_state directory dir allow enforce g).2]
      exact ⟨⟨rfl, rfl, rfl⟩, rfl⟩
  | true =>
      have h := loadReplacement_replaced directory dir allow enforce g
      generalize (loadReplacement true directory dir allow enforce g).2 = g' at h
      have hactive := h.lua
      rw [h.rest]
      refine ⟨⟨rfl, rfl, rfl⟩, ?_⟩
      simp only [HookSystem.ledger, if_true, Ledger.mk.injEq, and_true]
      exact hactive

theorem adoptConfiguration_ledger (previous : HookSet F) (directory : String)
    (allow enforce : Bool) (manifest : HookManifest) (g : HookSystem F) :
    SameDepths g (adoptConfiguration previous directory allow enforce manifest g) ∧
      (adoptConfiguration previous directory allow enforce manifest g).ledger =
        { g.ledger with
          retired := if g.hookExecutionDepth != 0 then
            (previous.rashLua.map (·.id)).or g.ledger.retired else g.ledger.retired
          closed := if g.hookExecutionDepth != 0 then g.closed else
            g.closed ++ (previous.rashLua.map (·.id)).toList } := by
  unfold adoptConfiguration
  cases previous.rashLua with
  | none => exact ⟨⟨rfl, rfl, rfl⟩, by simp [HookSystem.ledger, HookSystem.saveConfiguration]⟩
  | some L =>
      by_cases hdepth : g.hookExecutionDepth = 0
      · refine ⟨⟨?_, ?_, ?_⟩, ?_⟩ <;>
          simp [HookSystem.ledger, HookSystem.saveConfiguration, HookSystem.close, hdepth]
      · refine ⟨⟨?_, ?_, ?_⟩, ?_⟩ <;>
          simp [HookSystem.ledger, HookSystem.saveConfiguration, hdepth]

theorem rejectConfiguration_ledger (previous : HookSet F) (state : Int) (directory : String)
    (allow enforce : Bool) (manifest : Option HookManifest) (g : HookSystem F) :
    SameDepths g (rejectConfiguration previous state directory allow enforce manifest g) ∧
      (rejectConfiguration previous state directory allow enforce manifest g).ledger =
        { g.ledger with
          active := previous.rashLua.map (·.id)
          closed := g.closed ++ g.ledger.active.toList } :=
  ⟨⟨rfl, rfl, rfl⟩, rfl⟩

theorem SameDepths.trans {g₁ g₂ g₃ : HookSystem F} (h : SameDepths g₁ g₂)
    (h' : SameDepths g₂ g₃) : SameDepths g₁ g₃ :=
  ⟨h'.execution.trans h.execution, h'.command.trans h.command, h'.rack.trans h.rack⟩

/-- What a load does to the ledger: nothing when no interpreter could be made, otherwise it
adopts or rejects the new one. -/
theorem load_ledger (newstate : Bool) (disk : Disk F) (directory : String)
    (allow enforce : Bool) (g : HookSystem F) :
    SameDepths g (rashHooksLoadConfiguration newstate disk directory allow enforce g).2 ∧
      (rashHooksLoadConfiguration newstate disk directory allow enforce g).2.ledger =
        if newstate && (disk directory).loads allow then
          g.ledger.adopt (g.hookExecutionDepth != 0)
        else if newstate then g.ledger.reject else g.ledger := by
  obtain ⟨hdepths, hledger⟩ :=
    loadReplacement_ledger newstate directory (disk directory) allow enforce g
  rw [← load_result newstate disk directory allow enforce g]
  cases hres : (rashHooksLoadConfiguration newstate disk directory allow enforce g).1 with
  | true =>
      obtain ⟨hloaded, manifest, heq⟩ := load_adopts hres
      obtain rfl := newstate_of_loaded hloaded
      rw [heq]
      generalize (loadReplacement true directory (disk directory) allow enforce g).2 = g' at *
      obtain ⟨hsame, hadopted⟩ :=
        adoptConfiguration_ledger g.hooks directory allow enforce manifest g'
      refine ⟨hdepths.trans hsame, ?_⟩
      have hclosed : g'.closed = g.closed := congrArg Ledger.closed hledger
      rw [hadopted, hledger, hdepths.execution, hclosed]
      rfl
  | false =>
      obtain ⟨manifest, lines, heq⟩ := load_rejects hres
      rw [heq]
      generalize (loadReplacement newstate directory (disk directory) allow enforce g).2 = g' at *
      obtain ⟨hsame, hrejected⟩ := rejectConfiguration_ledger g.hooks g.hookState directory allow
        enforce manifest { g' with printed := lines }
      refine ⟨hdepths.trans ⟨hsame.execution, hsame.command, hsame.rack⟩, ?_⟩
      have hclosed : g'.closed = g.closed := congrArg Ledger.closed hledger
      have hsame' : { g' with printed := lines }.ledger = g'.ledger := rfl
      rw [hrejected, hsame', hledger]
      cases newstate with
      | true => simp [HookSystem.ledger, Ledger.reject, hclosed]
      | false => simp [HookSystem.ledger, hclosed]

theorem initialize_eq (g : HookSystem F) (force : Bool) (call : InitializeCall F) :
    (∃ directory, g.loadDirectory force call = some directory ∧
        g.initialized (some (force, call)) =
          (rashHooksLoadConfiguration call.newstate call.disk directory call.env.allowUnowned
            call.env.enforceUnowned g).2) ∨
      (g.loadDirectory force call = none ∧
        ∃ lines, g.initialized (some (force, call)) = { g with printed := lines }) := by
  have hwarn : ∃ lines, (if force then
      g.warn "cannot reload hooks because RASH_HOOK_DIR is not set" "" else g) =
        { g with printed := lines } := by
    cases force <;> exact ⟨_, rfl⟩
  cases hdir : call.env.rashHookDir with
  | none =>
      simp only [HookSystem.initialized, HookSystem.loadDirectory, rashHooksInitialize, hdir]
      exact Or.inr ⟨trivial, hwarn⟩
  | some directory =>
      simp only [HookSystem.initialized, HookSystem.loadDirectory, rashHooksInitialize, hdir]
      by_cases hempty : directory = ""
      · rw [if_pos hempty, if_pos (Or.inl hempty)]
        exact Or.inr ⟨rfl, hwarn⟩
      rw [if_neg hempty]
      by_cases hsettled : force = false ∧ g.hookState = 1 ∧ call.env.reloadMode = false
      · rw [if_pos hsettled, if_pos (Or.inr (Or.inl hsettled))]
        exact Or.inr ⟨rfl, _, rfl⟩
      rw [if_neg hsettled]
      by_cases hsame : force = false ∧ g.sameConfiguration call.env directory = true ∧
          (call.env.reloadMode = false ∨
            rashHookManifestMatches g.hookManifest (call.disk directory) = true)
      · rw [if_pos hsame, if_pos (Or.inr (Or.inr hsame))]
        exact Or.inr ⟨rfl, _, rfl⟩
      · rw [if_neg hsame, if_neg (not_or_intro hempty (not_or_intro hsettled hsame))]
        exact Or.inl ⟨directory, rfl, rfl⟩

/-- What `rash_hooks_initialize` does to the ledger. -/
theorem initialized_ledger (g : HookSystem F) (force : Bool) (call : InitializeCall F) :
    SameDepths g (g.initialized (some (force, call))) ∧
      ((g.initialized (some (force, call))).ledger = g.ledger ∨
        (g.initialized (some (force, call))).ledger = g.ledger.reject ∨
        ((g.hooks.rashLua = none ∨ g.Replaces force call) ∧
          (g.initialized (some (force, call))).ledger =
            g.ledger.adopt (g.hookExecutionDepth != 0))) := by
  rcases initialize_eq g force call with ⟨directory, hdir, heq⟩ | ⟨-, lines, heq⟩
  · rw [heq]
    obtain ⟨hdepths, hledger⟩ := load_ledger call.newstate call.disk directory
      call.env.allowUnowned call.env.enforceUnowned g
    refine ⟨hdepths, ?_⟩
    rw [hledger]
    cases hnew : call.newstate with
    | false => exact Or.inl rfl
    | true =>
        cases hloads : (call.disk directory).loads call.env.allowUnowned with
        | false => exact Or.inr (Or.inl rfl)
        | true =>
            refine Or.inr (Or.inr ⟨?_, rfl⟩)
            cases hlua : g.hooks.rashLua with
            | none => exact Or.inl rfl
            | some L => exact Or.inr ⟨directory, hdir, hnew, hloads, by rw [hlua]; rfl⟩
  · rw [heq]
    exact ⟨⟨rfl, rfl, rfl⟩, Or.inl rfl⟩

end Rash
