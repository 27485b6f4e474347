import Rash.Hooks.ReloadAtomic
import Rash.Lib.Machine

/-!
# The manifest and the files that were loaded

A load examines the hook directory call by call: it lists the names, reads each file, and
only then takes the manifest, by another listing and an `lstat` of each name.  The directory
may be changed between any two of these calls.
-/

namespace Rash

open Machine

variable {F : Type}

/-! ## A directory that changes -/

/-- A name that is not there. -/
def HookFile.absent : HookFile F := ⟨none, false, none, false, ⟨false, [], false⟩⟩

/-- What a path names. -/
def HookDirectory.file (dir : HookDirectory F) (name : String) : HookFile F :=
  ((dir.entries.find? fun e => e.1 == name).map Prod.snd).getD .absent

def HookDirectory.luaNames (dir : HookDirectory F) : List String := dir.luaEntries.map Prod.fst

/-- The state of every directory at each moment. -/
abbrev History (F : Type) := ℕ → Disk F

/-- The moments at which a load lists the directory and reads each file, and those at which
the manifest is taken after it. -/
structure LoadMoments where
  openLoad : ℕ
  read : String → ℕ
  statDirectory : ℕ
  openCollect : ℕ
  lstat : String → ℕ
  loads : ∀ name, openLoad < read name
  loaded : ∀ name, read name < statDirectory
  collects : statDirectory < openCollect
  examines : ∀ name, openCollect < lstat name

/-- The moments of the calls of `rash_hook_manifest_matches`. -/
structure MatchMoments where
  statDirectory : ℕ
  lstat : String → ℕ

/-- A listing with the file that is found under each of its names later. -/
def HookDirectory.withFiles (dir : HookDirectory F) (file : String → HookFile F) :
    HookDirectory F :=
  { dir with entries := dir.entries.map fun e => (e.1, file e.1) }

/-- The directory as the load finds it. -/
def loadSees (history : History F) (directory : String) (m : LoadMoments) : HookDirectory F :=
  (history m.openLoad directory).withFiles fun name => (history (m.read name) directory).file name

/-- The directory as the manifest is taken of it. -/
def collectSees (history : History F) (directory : String) (m : LoadMoments) : HookDirectory F :=
  { (history m.openCollect directory).withFiles
      (fun name => (history (m.lstat name) directory).file name) with
    stat := (history m.statDirectory directory).stat }

/-- The directory as a check against the manifest finds it. -/
def matchSees (history : History F) (directory : String) (u : MatchMoments) : HookDirectory F :=
  (history u.statDirectory directory).withFiles
    fun name => (history (u.lstat name) directory).file name

/-- `rash_hook_manifest_matches`, call by call. -/
def rashHookManifestMatchesAt (history : History F) (directory : String) (u : MatchMoments)
    (manifest : Option HookManifest) : Bool :=
  match manifest with
  | none => false
  | some m =>
      (history u.statDirectory directory).stat == some m.directory &&
        m.files.all fun file => (history (u.lstat file.1) directory).lstat file.1 == some file.2

/-- `rash_hooks_load_configuration`, call by call. -/
def rashHooksLoadConfigurationAt (newstate : Bool) (history : History F) (m : LoadMoments)
    (directory : String) (allowUnowned enforceUnowned : Bool) (g : HookSystem F) :
    Bool × HookSystem F :=
  let r := loadReplacement newstate directory (loadSees history directory m) allowUnowned
    enforceUnowned g
  match r.1, rashHookManifestCollect (collectSees history directory m) with
  | true, some manifest =>
      (true, adoptConfiguration g.hooks directory allowUnowned enforceUnowned manifest r.2)
  | false, some manifest =>
      (false, rejectConfiguration g.hooks g.hookState directory allowUnowned enforceUnowned
        (some manifest) r.2)
  | _, none =>
      (false, rejectConfiguration g.hooks g.hookState directory allowUnowned enforceUnowned none
        (r.2.warn "cannot snapshot hook directory '" directory))

/-- `rash_hooks_initialize`, call by call; a load is made at the moments `m` and a check
against the manifest at the moments `u`. -/
def rashHooksInitializeAt (force newstate : Bool) (env : HookEnvironment) (history : History F)
    (m : LoadMoments) (u : MatchMoments) (g : HookSystem F) : Bool × HookSystem F :=
  match env.rashHookDir with
  | none =>
      (false, if force then
        g.warn "cannot reload hooks because RASH_HOOK_DIR is not set" "" else g)
  | some directory =>
      if directory = "" then
        (false, if force then
          g.warn "cannot reload hooks because RASH_HOOK_DIR is not set" "" else g)
      else if force = false ∧ g.hookState = 1 ∧ env.reloadMode = false then (true, g)
      else if force = false ∧ g.sameConfiguration env directory = true ∧
          (env.reloadMode = false ∨
            rashHookManifestMatchesAt history directory u g.hookManifest = true) then (true, g)
      else
        rashHooksLoadConfigurationAt newstate history m directory env.allowUnowned
          env.enforceUnowned g

/-! ## A directory that does not change -/

theorem withFiles_file {dir : HookDirectory F} (h : (dir.entries.map Prod.fst).Nodup) :
    dir.withFiles dir.file = dir := by
  have hentry : ∀ e ∈ dir.entries, (e.1, dir.file e.1) = e := by
    intro e he
    have hfind : dir.entries.find? (fun e' => e'.1 == e.1) = some e := by
      have hsome : (dir.entries.find? fun e' => e'.1 == e.1).isSome :=
        List.find?_isSome.mpr ⟨e, he, beq_self_eq_true e.1⟩
      obtain ⟨e', he'⟩ := Option.isSome_iff_exists.mp hsome
      have hname : e'.1 = e.1 := by simpa using List.find?_some he'
      rw [he', List.inj_on_of_nodup_map h (List.mem_of_find?_eq_some he') he hname]
    unfold HookDirectory.file
    rw [hfind]
    rfl
  unfold HookDirectory.withFiles
  rw [List.map_congr_left hentry, List.map_id']

/-- Where nothing changes, the calls see what one look sees. -/
theorem rashHooksInitializeAt_still {disk : Disk F}
    (h : ∀ directory, ((disk directory).entries.map Prod.fst).Nodup) (force newstate : Bool)
    (env : HookEnvironment) (m : LoadMoments) (u : MatchMoments) (g : HookSystem F) :
    rashHooksInitializeAt force newstate env (fun _ => disk) m u g =
      rashHooksInitialize force newstate env disk g := by
  have hload : ∀ directory, loadSees (fun _ => disk) directory m = disk directory :=
    fun directory => withFiles_file (h directory)
  have hcollect : ∀ directory, collectSees (fun _ => disk) directory m = disk directory :=
    fun directory => by
      unfold collectSees
      rw [withFiles_file (h directory)]
  have hconfigure : ∀ directory allow enforce,
      rashHooksLoadConfigurationAt newstate (fun _ => disk) m directory allow enforce g =
        rashHooksLoadConfiguration newstate disk directory allow enforce g :=
    fun directory allow enforce => by
      unfold rashHooksLoadConfigurationAt rashHooksLoadConfiguration
      rw [hload, hcollect] <;> rfl
  unfold rashHooksInitializeAt rashHooksInitialize
  simp only [hconfigure] <;> rfl

/-! ## What a load registers -/

/-- The callbacks of a kind, as the consultation loops find them. -/
def HookSet.callbacks (s : HookSet F) (kind : HookKind) : Option (List F) := (s.view kind).1

/-- The callbacks of a kind that the chunk registers. -/
def Chunk.callbacks (chunk : Chunk F) (kind : HookKind) : List F :=
  (chunk.registers.filter fun r => r.1 = kind).map Prod.snd

/-- The callbacks of a kind that the files register, in the order of their names. -/
def callbacksOf (files : List (String × HookFile F)) (kind : HookKind) : List F :=
  files.flatMap fun e => e.2.chunk.callbacks kind

theorem HookKind.ref_inj {kind kind' : HookKind} (h : kind.ref = kind'.ref) : kind = kind' :=
  (List.idxOf_inj kind.mem_all).mp h

theorem register_callbacks {g : HookSystem F} (hready : g.hooks.Ready) (r : HookKind × F)
    (kind : HookKind) : (g.register r).hooks.callbacks kind =
      (g.hooks.callbacks kind).map (· ++ if r.1 = kind then [r.2] else []) := by
  obtain ⟨L, hlua, -⟩ := hready.lua
  have href : (g.register r).hooks.rashLua = some (L.append (some r.1.ref) r.2) := by
    simp only [HookSystem.register, HookSet.rashRegisterCallback, hlua, Option.map_some,
      hready.ref]
  have hkindRef : ((g.register r).hooks.table kind).ref = some kind.ref :=
    ((register_registers g r).ref kind).trans (hready.ref kind)
  simp only [HookSet.callbacks, HookSet.view, href, hlua, hkindRef, hready.ref,
    Option.bind_some, LuaState.rawGet, LuaState.append, List.getElem?_modify]
  by_cases hkind : r.1 = kind
  · subst hkind
    simp
  · have hne : r.1.ref ≠ kind.ref := fun heq => hkind (HookKind.ref_inj heq)
    simp [hkind, hne]

theorem registerAll_callbacks (regs : List (HookKind × F)) {g : HookSystem F}
    (hready : g.hooks.Ready) (kind : HookKind) :
    (regs.foldl HookSystem.register g).hooks.callbacks kind =
      (g.hooks.callbacks kind).map (· ++ (regs.filter fun r => r.1 = kind).map Prod.snd) := by
  induction regs generalizing g with
  | nil => simp
  | cons r rest ih =>
      rw [List.foldl_cons, ih ((register_registers g r).ready hready), register_callbacks hready]
      by_cases hkind : r.1 = kind
      · simp [hkind, Function.comp_def]
      · simp [hkind]

/-- A hook that loads is admitted, read and compiled, and all its callbacks are registered. -/
theorem rashLoadHook_callbacks {path : String} {file : HookFile F} {allow : Bool}
    {g : HookSystem F} (hready : g.hooks.Ready) (hloads : (rashLoadHook path file allow g).1 = true)
    (kind : HookKind) : (rashLoadHook path file allow g).2.hooks.callbacks kind =
      (g.hooks.callbacks kind).map (· ++ file.chunk.callbacks kind) := by
  have hadmitted : (admitHook path file g).hooks = g.hooks := by
    unfold admitHook unownedWarnings
    split
    · rfl
    · dsimp only
      split <;> rfl
  cases hrefusal : file.refusal allow with
  | some text => simp [rashLoadHook, hrefusal] at hloads
  | none =>
      cases hreads : file.reads with
      | false => simp [rashLoadHook, hrefusal, hreads] at hloads
      | true =>
          cases hends : file.chunk.compiles && file.chunk.returns with
          | false => simp [rashLoadHook, hrefusal, hreads, runChunk, hends] at hloads
          | true =>
              obtain ⟨hcompiles, hreturns⟩ := Bool.and_eq_true_iff.mp hends
              simp only [rashLoadHook, hrefusal, hreads, if_true, runChunk, hcompiles, hreturns,
                Bool.and_self]
              show (file.chunk.registers.foldl HookSystem.register
                (admitHook path file g)).hooks.callbacks kind = _
              rw [registerAll_callbacks _ (hadmitted.symm ▸ hready), hadmitted]
              rfl

theorem loadEach_callbacks {directory : String} {allow : Bool}
    {files : List (String × HookFile F)} {r : Bool × HookSystem F} (hready : r.2.hooks.Ready)
    (hloads : (loadEach directory allow files r).1 = true) (kind : HookKind) :
    r.1 = true ∧ (loadEach directory allow files r).2.hooks.callbacks kind =
      (r.2.hooks.callbacks kind).map (· ++ callbacksOf files kind) := by
  induction files generalizing r with
  | nil => exact ⟨hloads, by simp [loadEach, callbacksOf]⟩
  | cons e rest ih =>
      obtain ⟨name, file⟩ := e
      have hone := rashLoadHook_registers (hookPath directory name) file allow r.2
      obtain ⟨hboth, hrest⟩ :=
        @ih (r.1 && (rashLoadHook (hookPath directory name) file allow r.2).1,
          (rashLoadHook (hookPath directory name) file allow r.2).2) (hone.ready hready) hloads
      obtain ⟨hbefore, hloaded⟩ := Bool.and_eq_true_iff.mp hboth
      refine ⟨hbefore, ?_⟩
      rw [loadEach, hrest, rashLoadHook_callbacks hready hloaded, Option.map_map]
      simp [callbacksOf, Function.comp_def]

theorem loadReplacement_callbacks {newstate : Bool} {directory : String} {dir : HookDirectory F}
    {allow enforce : Bool} {g : HookSystem F}
    (hloads : (loadReplacement newstate directory dir allow enforce g).1 = true)
    (kind : HookKind) :
    (loadReplacement newstate directory dir allow enforce g).2.hooks.callbacks kind =
      some (callbacksOf dir.luaEntries kind) := by
  obtain rfl := newstate_of_loaded hloads
  let ready : HookSystem F :=
    { g with
      hooks := HookSet.cleared.makeTables ⟨g.made, []⟩ HookKind.all
      hookEnforceUnowned := enforce
      made := g.made + 1 }
  have hready : ready.hooks.Ready := makeTables_ready g.made
  have hempty : ready.hooks.callbacks kind = some [] := by
    obtain ⟨L, hlua, -⟩ := hready.lua
    have hregistry := makeTables_lua HookKind.all ⟨g.made, []⟩ (HookSet.cleared (F := F))
    simp only [HookSet.callbacks, HookSet.view, hready.ref, LuaState.rawGet, Option.bind_some]
    rw [show ready.hooks.rashLua = _ from hregistry]
    cases kind <;> rfl
  have hload : loadReplacement true directory dir allow enforce g =
      rashLoadHooks directory dir allow ready := rfl
  rw [hload] at hloads ⊢
  cases hopens : dir.opens with
  | false => simp [rashLoadHooks, hopens] at hloads
  | true =>
      simp only [rashLoadHooks, hopens, if_true] at hloads ⊢
      rw [(loadEach_callbacks hready hloads kind).2, hempty]
      simp

/-! ## Soundness -/

theorem luaEntries_withFiles (dir : HookDirectory F) (file : String → HookFile F) :
    (dir.withFiles file).luaEntries = dir.luaNames.map fun name => (name, file name) := by
  unfold HookDirectory.withFiles HookDirectory.luaNames HookDirectory.luaEntries
  dsimp only
  have hsort := List.map_insertionSort (r := fun a b : String × HookFile F => a.1 ≤ b.1)
    (s := fun a b : String × HookFile F => a.1 ≤ b.1) (fun e => (e.1, file e.1))
    (dir.entries.filter fun e => rashLuaName e.1) fun _ _ _ _ => Iff.rfl
  rw [List.filter_map, List.map_map]
  exact hsort.symm

theorem lstat_file (dir : HookDirectory F) (name : String) :
    dir.lstat name = (dir.file name).lstat := by
  unfold HookDirectory.lstat HookDirectory.file
  cases dir.entries.find? fun e => e.1 == name <;> rfl

theorem collectSees_luaEntries (history : History F) (directory : String) (m : LoadMoments) :
    (collectSees history directory m).luaEntries =
      (history m.openCollect directory).luaNames.map fun name =>
        (name, (history (m.lstat name) directory).file name) :=
  luaEntries_withFiles (history m.openCollect directory)
    fun name => (history (m.lstat name) directory).file name

theorem mem_of_mapM {α β : Type} {f : α → Option β} {xs : List α} {ys : List β}
    (h : xs.mapM f = some ys) {x : α} (hx : x ∈ xs) : ∃ y, f x = some y ∧ y ∈ ys := by
  induction xs generalizing ys with
  | nil => cases hx
  | cons first rest ih =>
      simp only [List.mapM_cons, Option.pure_def, Option.bind_eq_bind,
        Option.bind_eq_some_iff] at h
      obtain ⟨y, hy, later, hlater, hys⟩ := h
      cases hys
      rcases List.mem_cons.mp hx with rfl | hrest
      · exact ⟨y, hy, List.mem_cons_self⟩
      · obtain ⟨y', hy', hmem⟩ := ih hlater hrest
        exact ⟨y', hy', List.mem_cons_of_mem y hmem⟩

/-- What the manifest says of a name that was listed for it. -/
theorem collect_records {dir : HookDirectory F} {manifest : HookManifest}
    (h : rashHookManifestCollect dir = some manifest) :
    dir.stat = some manifest.directory ∧ ∀ e ∈ dir.luaEntries, ∃ st, e.2.lstat = some st ∧
      (e.1, st) ∈ manifest.files := by
  unfold rashHookManifestCollect at h
  split at h
  · cases h
  · rename_i st hst
    split at h
    · obtain ⟨files, hfiles, rfl⟩ := Option.map_eq_some_iff.mp h
      refine ⟨hst, fun e he => ?_⟩
      obtain ⟨recorded, hrecorded, hmem⟩ := mem_of_mapM hfiles he
      obtain ⟨file, hfile, rfl⟩ := Option.map_eq_some_iff.mp hrecorded
      exact ⟨file, hfile, hmem⟩
    · cases h

/-- The status of a directory tells its names, and that of a hook file tells the file: every
change alters what the manifest records. -/
structure Stamped (history : History F) : Prop where
  names : ∀ directory t t' st, (history t directory).stat = some st →
    (history t' directory).stat = some st →
      (history t directory).luaNames = (history t' directory).luaNames
  files : ∀ directory name t t' st, (history t directory).lstat name = some st →
    (history t' directory).lstat name = some st →
      (history t directory).file name = (history t' directory).file name

/-- No hook file comes or goes between the two listings of a load, and none changes from
when it is read to when it is examined for the manifest. -/
structure Undisturbed (history : History F) (directory : String) (m : LoadMoments) : Prop where
  names : ∀ t, m.openLoad ≤ t → t ≤ m.openCollect →
    (history t directory).luaNames = (history m.openLoad directory).luaNames
  files : ∀ name ∈ (history m.openLoad directory).luaNames, ∀ t, m.read name ≤ t →
    t ≤ m.lstat name →
      (history t directory).file name = (history (m.read name) directory).file name

/-- Whenever a check against the manifest matches, the callbacks in force are those that the
hook files register as they are then. -/
def ManifestSound (history : History F) (g : HookSystem F) : Prop :=
  ∀ directory u, g.hookDirectory = some directory →
    rashHookManifestMatchesAt history directory u g.hookManifest = true → ∀ kind,
      g.hooks.callbacks kind =
        some (callbacksOf (matchSees history directory u).luaEntries kind)

/-- A check that matches finds the files that the load found. -/
theorem matchSees_luaEntries {history : History F} (hstamped : Stamped history)
    {directory : String} {m : LoadMoments} (hquiet : Undisturbed history directory m)
    {manifest : HookManifest}
    (hcollect : rashHookManifestCollect (collectSees history directory m) = some manifest)
    {u : MatchMoments}
    (hmatch : rashHookManifestMatchesAt history directory u (some manifest) = true) :
    (matchSees history directory u).luaEntries = (loadSees history directory m).luaEntries := by
  obtain ⟨hdirectory, hfiles⟩ := collect_records hcollect
  obtain ⟨hstat, hall⟩ := Bool.and_eq_true_iff.mp hmatch
  rw [beq_iff_eq] at hstat
  have hloadStat := (m.loads "").trans (m.loaded "")
  have hloadCollect := hloadStat.trans m.collects
  have hnames : (history u.statDirectory directory).luaNames =
      (history m.openLoad directory).luaNames := by
    rw [hstamped.names directory _ _ _ hstat hdirectory]
    exact hquiet.names _ hloadStat.le m.collects.le
  rw [matchSees, loadSees, luaEntries_withFiles, luaEntries_withFiles, hnames]
  apply List.map_congr_left
  intro name hname
  have hlisted : (name, (history (m.lstat name) directory).file name) ∈
      (collectSees history directory m).luaEntries := by
    rw [collectSees_luaEntries, hquiet.names _ hloadCollect.le le_rfl]
    exact List.mem_map_of_mem hname
  obtain ⟨st, hlstat, hrecorded⟩ := hfiles _ hlisted
  have hnow := List.all_eq_true.mp hall _ hrecorded
  rw [beq_iff_eq] at hnow
  have hread : m.read name ≤ m.lstat name :=
    ((m.loaded name).trans (m.collects.trans (m.examines name))).le
  rw [hstamped.files directory name _ _ st hnow ((lstat_file _ _).trans hlstat),
    hquiet.files name hname _ hread le_rfl]

structure HooksInitializeCall where
  force : Bool
  newstate : Bool
  env : HookEnvironment
  moments : LoadMoments
  check : MatchMoments

def initializeStep (history : History F) (g : HookSystem F) (call : HooksInitializeCall) :
    Option (HookSystem F) :=
  some (rashHooksInitializeAt call.force call.newstate call.env history call.moments call.check
    g).2

/-- The call loads the directory. -/
def HooksInitializeCall.Loads (call : HooksInitializeCall) (history : History F) (g : HookSystem F)
    (directory : String) : Prop :=
  call.env.rashHookDir = some directory ∧ directory ≠ "" ∧
    ¬ (call.force = false ∧ g.hookState = 1 ∧ call.env.reloadMode = false) ∧
      ¬ (call.force = false ∧ g.sameConfiguration call.env directory = true ∧
        (call.env.reloadMode = false ∨
          rashHookManifestMatchesAt history directory call.check g.hookManifest = true))

/-- If the call loads, the load succeeds and is undisturbed. -/
def LoadsWell (history : History F) (g : HookSystem F) (call : HooksInitializeCall) : Prop :=
  ∀ directory, call.Loads history g directory →
    (rashHooksLoadConfigurationAt call.newstate history call.moments directory
        call.env.allowUnowned call.env.enforceUnowned g).1 = true ∧
      Undisturbed history directory call.moments

theorem initializeStep_loads {history : History F} {g : HookSystem F} {call : HooksInitializeCall}
    {directory : String} (h : call.Loads history g directory) :
    initializeStep history g call =
      some (rashHooksLoadConfigurationAt call.newstate history call.moments directory
        call.env.allowUnowned call.env.enforceUnowned g).2 := by
  obtain ⟨hdir, hempty, honce, hcheck⟩ := h
  unfold initializeStep rashHooksInitializeAt
  simp only [hdir]
  rw [if_neg hempty, if_neg honce, if_neg hcheck]

theorem initializeStep_keeps {history : History F} {g : HookSystem F} {call : HooksInitializeCall}
    (h : ∀ directory, ¬ call.Loads history g directory) :
    ∃ lines, initializeStep history g call = some { g with printed := lines } := by
  unfold initializeStep rashHooksInitializeAt
  cases hdir : call.env.rashHookDir with
  | none => cases call.force <;> exact ⟨_, rfl⟩
  | some directory =>
      dsimp only
      split
      · cases call.force <;> exact ⟨_, rfl⟩
      split
      · exact ⟨_, rfl⟩
      split
      · exact ⟨_, rfl⟩
      · rename_i hempty honce hcheck
        exact absurd ⟨hdir, hempty, honce, hcheck⟩ (h directory)

theorem loadConfigurationAt_adopts {newstate : Bool} {history : History F} {m : LoadMoments}
    {directory : String} {allow enforce : Bool} {g : HookSystem F}
    (h : (rashHooksLoadConfigurationAt newstate history m directory allow enforce g).1 = true) :
    ∃ manifest, rashHookManifestCollect (collectSees history directory m) = some manifest ∧
      (loadReplacement newstate directory (loadSees history directory m) allow enforce g).1 =
        true ∧
      (rashHooksLoadConfigurationAt newstate history m directory allow enforce g).2 =
        adoptConfiguration g.hooks directory allow enforce manifest
          (loadReplacement newstate directory (loadSees history directory m) allow enforce
            g).2 := by
  unfold rashHooksLoadConfigurationAt at h ⊢
  generalize loadReplacement newstate directory (loadSees history directory m) allow enforce g =
    r at h ⊢
  obtain ⟨loaded, g'⟩ := r
  cases hcollect : rashHookManifestCollect (collectSees history directory m) with
  | none => simp [hcollect] at h
  | some manifest =>
      cases loaded with
      | false => simp [hcollect] at h
      | true => exact ⟨manifest, rfl, rfl, rfl⟩

theorem adoptConfiguration_fields (previous : HookSet F) (directory : String)
    (allow enforce : Bool) (manifest : HookManifest) (g : HookSystem F) :
    (adoptConfiguration previous directory allow enforce manifest g).hooks = g.hooks ∧
      (adoptConfiguration previous directory allow enforce manifest g).hookDirectory =
        some directory ∧
      (adoptConfiguration previous directory allow enforce manifest g).hookManifest =
        some manifest := by
  unfold adoptConfiguration
  cases previous.rashLua with
  | none => exact ⟨rfl, rfl, rfl⟩
  | some L =>
      dsimp only
      split <;> exact ⟨rfl, rfl, rfl⟩

theorem loadConfiguration_sound {history : History F} (hstamped : Stamped history)
    {newstate : Bool} {m : LoadMoments} {directory : String} {allow enforce : Bool}
    {g : HookSystem F} (hquiet : Undisturbed history directory m)
    (hloaded : (rashHooksLoadConfigurationAt newstate history m directory allow enforce g).1 =
      true) :
    ManifestSound history
      (rashHooksLoadConfigurationAt newstate history m directory allow enforce g).2 := by
  obtain ⟨manifest, hcollect, hok, hadopted⟩ := loadConfigurationAt_adopts hloaded
  obtain ⟨hhooks, hdirectory, hmanifest⟩ := adoptConfiguration_fields g.hooks directory allow
    enforce manifest
      (loadReplacement newstate directory (loadSees history directory m) allow enforce g).2
  intro directory' u hsame hmatch kind
  rw [hadopted] at hsame hmatch ⊢
  rw [hdirectory, Option.some_inj] at hsame
  subst hsame
  rw [hmanifest] at hmatch
  rw [hhooks, matchSees_luaEntries hstamped hquiet hcollect hmatch]
  exact loadReplacement_callbacks hok kind

theorem initializeStep_sound {history : History F} (hstamped : Stamped history)
    {g g' : HookSystem F} {call : HooksInitializeCall} (hsound : ManifestSound history g)
    (hwell : LoadsWell history g call) (hstep : initializeStep history g call = some g') :
    ManifestSound history g' := by
  by_cases hloads : ∃ directory, call.Loads history g directory
  · obtain ⟨directory, hloads⟩ := hloads
    obtain ⟨hloaded, hquiet⟩ := hwell directory hloads
    rw [initializeStep_loads hloads, Option.some_inj] at hstep
    exact hstep ▸ loadConfiguration_sound hstamped hquiet hloaded
  · obtain ⟨lines, hkept⟩ := initializeStep_keeps fun directory h => hloads ⟨directory, h⟩
    rw [hkept, Option.some_inj] at hstep
    exact hstep ▸ hsound

/-- The status of a hook file after its `edit`th edit. -/
def editedStat (edit : ℕ) : Stat := { rootStat with modifiedSeconds := edit }

def hookText (edit : ℕ) (chunk : Chunk F) : HookDirectory F :=
  ⟨some rootStat, true,
    [("a.lua", ⟨some (editedStat edit), true, some (editedStat edit), true, chunk⟩)]⟩

def firstMoments : LoadMoments :=
  ⟨0, fun _ => 1, 2, 3, fun _ => 4, fun _ => by decide, fun _ => by decide, by decide,
    fun _ => by decide⟩

def laterMoments : LoadMoments :=
  ⟨10, fun _ => 11, 12, 13, fun _ => 14, fun _ => by decide, fun _ => by decide, by decide,
    fun _ => by decide⟩

def checkAt (t : ℕ) : MatchMoments := ⟨t, fun _ => t⟩

def developing : HookEnvironment := ⟨some "/hooks", none, none, some "mtime"⟩

/-- The file is edited once at the moment `t`. -/
def editedOnce (t : ℕ) (edit : Chunk ℕ) : History ℕ := fun now _ =>
  if now < t then hookText 0 ⟨true, [(.hook, 0)], true⟩ else hookText 1 edit

theorem luaNames_editedOnce (t : ℕ) (edit : Chunk ℕ) (now : ℕ) (directory : String) :
    (editedOnce t edit now directory).luaNames = ["a.lua"] := by
  have hlua : rashLuaName "a.lua" = true := by decide
  unfold editedOnce
  split <;> simp [HookDirectory.luaNames, HookDirectory.luaEntries, hookText, hlua]

theorem stamped_editedOnce (t : ℕ) (edit : Chunk ℕ) : Stamped (editedOnce t edit) := by
  refine ⟨fun directory t₁ t₂ st _ _ => by rw [luaNames_editedOnce, luaNames_editedOnce], ?_⟩
  intro directory name t₁ t₂ st h₁ h₂
  by_cases hname : "a.lua" = name
  · subst hname
    unfold editedOnce at h₁ h₂ ⊢
    split_ifs at h₁ h₂ ⊢
    · rfl
    · cases h₁
      cases h₂
    · cases h₁
      cases h₂
    · rfl
  · have hnone : ∀ now, (editedOnce t edit now directory).lstat name = none := by
      intro now
      unfold editedOnce HookDirectory.lstat
      split <;> simp [hookText, hname]
    rw [hnone] at h₁
    cases h₁

/-- The configuration after the calls, each in the development mode. -/
def afterCalls (history : History ℕ) (path : List (LoadMoments × MatchMoments)) : HookSystem ℕ :=
  path.foldl (fun g at_ => (rashHooksInitializeAt false true developing history at_.1 at_.2 g).2)
    .initial

end Rash
