import Rash.Hooks.Configuration

/-!
# What a load leaves behind

The tables that a chunk, a file and a whole directory fill, and the two ways in which
`rash_hooks_load_configuration` ends.
-/

namespace Rash

variable {F : Type}

theorem HookTable.eq_of {t t' : HookTable} (href : t.ref = t'.ref)
    (henf : t.enforcing = t'.enforcing) : t = t' := by
  obtain ⟨ref, count, enforcing, hsized⟩ := t
  obtain ⟨ref', count', enforcing', hsized'⟩ := t'
  obtain rfl : ref = ref' := href
  obtain rfl : enforcing = enforcing' := henf
  obtain rfl := hsized
  obtain rfl := hsized'
  rfl

/-- The reference that `rash_lua_ready` gives to the table of a kind. -/
def HookKind.ref (kind : HookKind) : ℕ := HookKind.all.idxOf kind

theorem HookKind.ref_lt (kind : HookKind) : kind.ref < HookKind.all.length :=
  List.idxOf_lt_length_of_mem kind.mem_all

/-! ## Registrations -/

/-- The bits that the chunk of a file adds for a kind: none when the file is refused, cannot
be read or does not compile, all equal otherwise. -/
def HookFile.bits (file : HookFile F) (allowUnowned enforceUnowned : Bool)
    (kind : HookKind) : List Bool :=
  if (file.refusal allowUnowned).isNone && file.reads && file.chunk.compiles then
    (file.chunk.registers.filter fun r => r.1 = kind).map fun _ => file.trusted || enforceUnowned
  else []

/-- The bits that a directory adds for a kind. -/
def HookDirectory.bits (dir : HookDirectory F) (allowUnowned enforceUnowned : Bool)
    (kind : HookKind) : List Bool :=
  if dir.opens then
    dir.luaEntries.flatMap fun e => e.2.bits allowUnowned enforceUnowned kind
  else []

/-- From `g` to `g'` callbacks were registered with these bits and nothing else happened. -/
structure Registers (g g' : HookSystem F) (bits : HookKind → List Bool) : Prop where
  rest : g' =
    { g with
      hooks := g'.hooks
      loadingFileEnforcing := g'.loadingFileEnforcing
      printed := g'.printed }
  lua : (g'.hooks.rashLua.map fun L => (L.id, L.registry.length)) =
    g.hooks.rashLua.map fun L => (L.id, L.registry.length)
  ref : ∀ kind, (g'.hooks.table kind).ref = (g.hooks.table kind).ref
  enforcing : ∀ kind, (g'.hooks.table kind).enforcing =
    (g.hooks.table kind).enforcing ++ bits kind

namespace Registers

theorem of_same_hooks {g g' : HookSystem F}
    (hrest : g' =
      { g with
        loadingFileEnforcing := g'.loadingFileEnforcing
        printed := g'.printed }) : Registers g g' fun _ => [] := by
  have hhooks : g'.hooks = g.hooks := by rw [hrest]
  refine ⟨?_, ?_, ?_, ?_⟩
  · rw [hhooks]
    exact hrest
  · rw [hhooks]
  · exact fun kind => by rw [hhooks]
  · exact fun kind => by rw [hhooks, List.append_nil]

theorem trans {g₁ g₂ g₃ : HookSystem F} {bits bits' : HookKind → List Bool}
    (h : Registers g₁ g₂ bits) (h' : Registers g₂ g₃ bits') :
    Registers g₁ g₃ fun kind => bits kind ++ bits' kind := by
  refine ⟨?_, h'.lua.trans h.lua, fun kind => (h'.ref kind).trans (h.ref kind), fun kind => ?_⟩
  · have hrest := h'.rest
    rw [h.rest] at hrest
    exact hrest
  · rw [h'.enforcing kind, h.enforcing kind, List.append_assoc]

/-- What happens to the tables of a kind does not depend on how its bits are written. -/
theorem congr {g g' : HookSystem F} {bits bits' : HookKind → List Bool}
    (h : Registers g g' bits) (heq : ∀ kind, bits kind = bits' kind) :
    Registers g g' bits' := by
  obtain rfl : bits = bits' := funext heq
  exact h

theorem enforceUnowned {g g' : HookSystem F} {bits : HookKind → List Bool}
    (h : Registers g g' bits) : g'.hookEnforceUnowned = g.hookEnforceUnowned := by
  rw [h.rest]

end Registers

theorem LuaState.length_append (L : LuaState F) (ref : Option ℕ) (f : F) :
    (L.append ref f).registry.length = L.registry.length := by
  cases ref with
  | none => rfl
  | some r => exact List.length_modify ..

theorem LuaState.id_append (L : LuaState F) (ref : Option ℕ) (f : F) :
    (L.append ref f).id = L.id := by
  cases ref <;> rfl

theorem register_registers (g : HookSystem F) (r : HookKind × F) :
    Registers g (g.register r) fun kind => if kind = r.1 then [g.loadingFileEnforcing] else [] := by
  refine ⟨rfl, ?_, fun kind => ?_, fun kind => ?_⟩
  · simp only [HookSystem.register, HookSet.rashRegisterCallback, Option.map_map,
      Function.comp_def, LuaState.length_append, LuaState.id_append]
  all_goals
    by_cases hkind : kind = r.1
    · subst hkind
      simp [HookSystem.register, HookSet.rashRegisterCallback, HookSet.setTable,
        HookTable.register]
    · simp [HookSystem.register, HookSet.rashRegisterCallback, HookSet.setTable, hkind]

theorem registerAll_registers (regs : List (HookKind × F)) (g : HookSystem F) :
    (regs.foldl HookSystem.register g).loadingFileEnforcing = g.loadingFileEnforcing ∧
      Registers g (regs.foldl HookSystem.register g) fun kind =>
        (regs.filter fun r => r.1 = kind).map fun _ => g.loadingFileEnforcing := by
  induction regs generalizing g with
  | nil => exact ⟨rfl, .of_same_hooks rfl⟩
  | cons r rest ih =>
      obtain ⟨hbit, hrest⟩ := ih (g.register r)
      refine ⟨hbit, ((register_registers g r).trans hrest).congr fun kind => ?_⟩
      by_cases hkind : kind = r.1
      · subst hkind
        simp [HookSystem.register]
      · simp [HookSystem.register, hkind, Ne.symm hkind]

theorem admitHook_registers (path : String) (file : HookFile F) (g : HookSystem F) :
    Registers g (admitHook path file g) fun _ => [] := by
  have hwarned : ∀ enforce, Registers g (unownedWarnings enforce path g) fun _ => [] := by
    intro enforce
    refine .of_same_hooks ?_
    cases enforce <;> rfl
  have hmarked : ∀ g' bit, Registers (F := F) g' { g' with loadingFileEnforcing := bit }
      fun _ => [] := fun _ _ => .of_same_hooks rfl
  unfold admitHook
  split
  · exact hmarked _ _
  · exact (hwarned _).trans (hmarked _ _)

theorem runChunk_registers (path : String) (chunk : Chunk F) (g : HookSystem F) :
    Registers g (runChunk path chunk g).2 fun kind =>
      if chunk.compiles then
        (chunk.registers.filter fun r => r.1 = kind).map fun _ => g.loadingFileEnforcing
      else [] := by
  have hended : ∀ ran : HookSystem F, Registers ran
      (if chunk.compiles && chunk.returns then (true, { ran with loadingFileEnforcing := false })
        else (false, { ran with loadingFileEnforcing := false }.warn "cannot load hook '" path)).2
      fun _ => [] := by
    intro ran
    refine .of_same_hooks ?_
    split <;> rfl
  cases hcomp : chunk.compiles with
  | true =>
      have hran := (registerAll_registers chunk.registers g).2
      have hrun := hran.trans (hended _)
      simp only [hcomp] at hrun
      simp only [runChunk, hcomp, if_true]
      exact hrun.congr fun kind => List.append_nil _
  | false =>
      have hrun := hended g
      simp only [hcomp] at hrun
      simp only [runChunk, hcomp]
      exact hrun

theorem rashLoadHook_registers (path : String) (file : HookFile F) (allow : Bool)
    (g : HookSystem F) :
    Registers g (rashLoadHook path file allow g).2 (file.bits allow g.hookEnforceUnowned) := by
  have hheader := admitHook_registers path file g
  cases href : file.refusal allow with
  | some text =>
      simp only [rashLoadHook, href]
      exact (Registers.of_same_hooks rfl).congr fun kind => by simp [HookFile.bits, href]
  | none =>
      cases hreads : file.reads with
      | true =>
          simp only [rashLoadHook, href, hreads, if_true]
          exact (hheader.trans (runChunk_registers path file.chunk _)).congr fun kind => by
            simp [HookFile.bits, href, hreads, admitHook]
      | false =>
          simp only [rashLoadHook, href, hreads]
          exact (hheader.trans (.of_same_hooks rfl)).congr fun kind => by
            simp [HookFile.bits, hreads]

theorem loadEach_registers (directory : String) (allow : Bool)
    (files : List (String × HookFile F)) (r : Bool × HookSystem F) :
    Registers r.2 (loadEach directory allow files r).2 fun kind =>
      files.flatMap fun e => e.2.bits allow r.2.hookEnforceUnowned kind := by
  induction files generalizing r with
  | nil => exact .of_same_hooks rfl
  | cons e rest ih =>
      obtain ⟨name, file⟩ := e
      have hone := rashLoadHook_registers (hookPath directory name) file allow r.2
      have hrest := ih (r.1 && (rashLoadHook (hookPath directory name) file allow r.2).1,
        (rashLoadHook (hookPath directory name) file allow r.2).2)
      refine (hone.trans hrest).congr fun kind => ?_
      rw [hone.enforceUnowned, List.flatMap_cons]

theorem rashLoadHooks_registers (directory : String) (dir : HookDirectory F) (allow : Bool)
    (g : HookSystem F) :
    Registers g (rashLoadHooks directory dir allow g).2 (dir.bits allow g.hookEnforceUnowned) := by
  unfold rashLoadHooks HookDirectory.bits
  split
  · exact loadEach_registers directory allow dir.luaEntries (true, g)
  · exact .of_same_hooks rfl

/-! ## The replacement -/

/-- A set whose tables were made by `rash_lua_ready`. -/
structure HookSet.Ready (s : HookSet F) : Prop where
  lua : ∃ L, s.rashLua = some L ∧ L.registry.length = HookKind.all.length
  ref : ∀ kind, (s.table kind).ref = some kind.ref

theorem makeTables_lua (kinds : List HookKind) (L : LuaState F) (s : HookSet F) :
    (s.makeTables L kinds).rashLua =
      some ⟨L.id, L.registry ++ List.replicate kinds.length []⟩ := by
  induction kinds generalizing L s with
  | nil => simp [HookSet.makeTables]
  | cons kind rest ih =>
      rw [HookSet.makeTables, ih]
      simp [LuaState.luaLRef, List.replicate_succ]

theorem makeTables_table {kinds : List HookKind} (hnodup : kinds.Nodup) (L : LuaState F)
    {s : HookSet F} (hnone : ∀ kind ∈ kinds, s.table kind = .cleared) (kind : HookKind) :
    (s.makeTables L kinds).table kind =
      if kind ∈ kinds then
        { HookTable.cleared with ref := some (L.registry.length + kinds.idxOf kind) }
      else s.table kind := by
  induction kinds generalizing L s with
  | nil => rfl
  | cons first rest ih =>
      obtain ⟨hfirst, hrest⟩ := List.nodup_cons.mp hnodup
      have hnew : ∀ t : HookTable, ∀ k ∈ rest, (s.setTable first t).table k = .cleared := by
        intro t k hk
        have hne : k ≠ first := fun heq => hfirst (heq ▸ hk)
        simp only [HookSet.setTable, hne, if_false]
        exact hnone k (List.mem_cons_of_mem _ hk)
      rw [HookSet.makeTables, ih hrest _ (hnew _), hnone first List.mem_cons_self]
      by_cases hsame : kind = first
      · subst hsame
        rw [if_neg hfirst, if_pos List.mem_cons_self, List.idxOf_cons_self]
        simp only [HookSet.setTable, if_true, LuaState.luaLRef, Nat.add_zero, ite_self]
      · simp only [List.mem_cons, hsame, false_or]
        split
        · rw [List.idxOf_cons_ne _ (Ne.symm hsame)]
          simp [LuaState.luaLRef, Nat.add_assoc, Nat.add_comm 1]
        · simp only [HookSet.setTable, hsame, if_false]

theorem makeTables_ready (id : ℕ) :
    ((HookSet.cleared (F := F)).makeTables ⟨id, []⟩ HookKind.all).Ready := by
  refine ⟨⟨_, makeTables_lua .., ?_⟩, fun kind => ?_⟩
  · simp
  · rw [makeTables_table (by decide) _ fun _ _ => rfl, if_pos kind.mem_all]
    simp [HookKind.ref]

theorem Registers.ready {g g' : HookSystem F} {bits : HookKind → List Bool}
    (h : Registers g g' bits) (hready : g.hooks.Ready) : g'.hooks.Ready := by
  obtain ⟨L, hlua, hlength⟩ := hready.lua
  have hmap := h.lua
  rw [hlua, Option.map_some, Option.map_eq_some_iff] at hmap
  obtain ⟨L', hlua', hpair⟩ := hmap
  exact ⟨⟨L', hlua', (congrArg Prod.snd hpair).trans hlength⟩,
    fun kind => (h.ref kind).trans (hready.ref kind)⟩

/-- The globals after a load into a new interpreter, before it is adopted or rejected. -/
structure Replaced (dir : HookDirectory F) (allow enforce : Bool) (g g' : HookSystem F) :
    Prop where
  rest : g' =
    { g with
      hooks := g'.hooks
      loadingFileEnforcing := g'.loadingFileEnforcing
      hookEnforceUnowned := enforce
      made := g.made + 1
      printed := g'.printed }
  ready : g'.hooks.Ready
  lua : g'.hooks.rashLua.map LuaState.id = some g.made
  enforcing : ∀ kind, (g'.hooks.table kind).enforcing = dir.bits allow enforce kind

theorem loadReplacement_replaced (directory : String) (dir : HookDirectory F)
    (allow enforce : Bool) (g : HookSystem F) :
    Replaced dir allow enforce g (loadReplacement true directory dir allow enforce g).2 := by
  let ready : HookSystem F :=
    { g with
      hooks := HookSet.cleared.makeTables ⟨g.made, []⟩ HookKind.all
      hookEnforceUnowned := enforce
      made := g.made + 1 }
  have hreg : Registers ready (loadReplacement true directory dir allow enforce g).2
      (dir.bits allow enforce) := rashLoadHooks_registers directory dir allow ready
  refine ⟨hreg.rest, hreg.ready (makeTables_ready g.made), ?_, fun kind => ?_⟩
  · have hlua := congrArg (Option.map Prod.fst) hreg.lua
    rw [Option.map_map, Option.map_map, makeTables_lua] at hlua
    exact hlua
  · rw [hreg.enforcing kind, makeTables_table (by decide) _ fun _ _ => rfl,
      if_pos kind.mem_all]
    rfl

theorem loadReplacement_no_state (directory : String) (dir : HookDirectory F)
    (allow enforce : Bool) (g : HookSystem F) :
    (loadReplacement false directory dir allow enforce g).1 = false ∧
      (loadReplacement false directory dir allow enforce g).2 =
        { g with
          hooks := .cleared
          hookEnforceUnowned := enforce
          printed := g.printed ++
            [rashHookWarning "cannot allocate LuaJIT state; hooks are disabled" ""] } :=
  ⟨rfl, rfl⟩

/-! ## The two ends of a load -/

/-- A load that succeeds adopts what it loaded. -/
theorem load_adopts {newstate : Bool} {disk : Disk F} {directory : String}
    {allow enforce : Bool} {g : HookSystem F}
    (h : (rashHooksLoadConfiguration newstate disk directory allow enforce g).1 = true) :
    (loadReplacement newstate directory (disk directory) allow enforce g).1 = true ∧
      ∃ manifest,
        (rashHooksLoadConfiguration newstate disk directory allow enforce g).2 =
          adoptConfiguration g.hooks directory allow enforce manifest
            (loadReplacement newstate directory (disk directory) allow enforce g).2 := by
  unfold rashHooksLoadConfiguration at h ⊢
  generalize loadReplacement newstate directory (disk directory) allow enforce g = r at h ⊢
  obtain ⟨loaded, g'⟩ := r
  cases hman : rashHookManifestCollect (disk directory) with
  | none => simp [hman] at h
  | some manifest =>
      cases loaded with
      | false => simp [hman] at h
      | true => exact ⟨rfl, manifest, rfl⟩

theorem newstate_of_loaded {newstate : Bool} {directory : String} {dir : HookDirectory F}
    {allow enforce : Bool} {g : HookSystem F}
    (h : (loadReplacement newstate directory dir allow enforce g).1 = true) :
    newstate = true := by
  cases newstate with
  | false => cases (loadReplacement_no_state directory dir allow enforce g).1.symm.trans h
  | true => rfl

/-- A load that fails puts the saved globals back. -/
theorem load_rejects {newstate : Bool} {disk : Disk F} {directory : String}
    {allow enforce : Bool} {g : HookSystem F}
    (h : (rashHooksLoadConfiguration newstate disk directory allow enforce g).1 = false) :
    ∃ manifest lines,
      (rashHooksLoadConfiguration newstate disk directory allow enforce g).2 =
        rejectConfiguration g.hooks g.hookState directory allow enforce manifest
          { (loadReplacement newstate directory (disk directory) allow enforce g).2 with
            printed := lines } := by
  unfold rashHooksLoadConfiguration at h ⊢
  generalize loadReplacement newstate directory (disk directory) allow enforce g = r at h ⊢
  obtain ⟨loaded, g'⟩ := r
  cases hman : rashHookManifestCollect (disk directory) with
  | none => exact ⟨_, _, by cases loaded <;> rfl⟩
  | some manifest =>
      cases loaded with
      | false => exact ⟨_, _, rfl⟩
      | true => simp [hman] at h

end Rash
