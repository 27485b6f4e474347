import Mathlib.Data.List.Sort
import Rash.Hooks.Callback

/-!
# Loading the hook directory

The registration globals of hooks.c, `rash_load_hook` and `rash_load_hooks`, the manifest
of the directory, `rash_hooks_load_configuration`, which builds a replacement interpreter
before it gives up the active one, and `rash_hooks_initialize`, which decides whether to
load at all.  A hook file enters as the callbacks its chunk registers before it returns or
raises.
-/

namespace Rash

variable {F : Type}

/-- The registration functions, in the order in which `rash_lua_ready` makes their tables. -/
inductive HookKind
  | hook
  | before
  | after
  | redirect
  | clobber
  | downloadPipe
  | beforePipeline
  | onBuiltin
  | onFunction
  | onExec
  | stdioBundle
  | rack
  | dispatch
  | expandHook
  | redirectPolicy
  deriving DecidableEq

def HookKind.all : List HookKind :=
  [.hook, .before, .after, .redirect, .clobber, .downloadPipe, .beforePipeline, .onBuiltin,
    .onFunction, .onExec, .stdioBundle, .rack, .dispatch, .expandHook, .redirectPolicy]

theorem HookKind.mem_all (kind : HookKind) : kind ∈ HookKind.all := by
  cases kind <;> decide

/-! ## Interpreters and registration tables -/

/-- A `lua_State`: its number and the tables that its registry holds, by reference. -/
structure LuaState (F : Type) where
  id : ℕ
  registry : List (List F)

namespace LuaState

/-- `luaL_ref` of a new table. -/
def luaLRef (L : LuaState F) : ℕ × LuaState F :=
  (L.registry.length, { L with registry := L.registry ++ [[]] })

/-- `lua_rawgeti` on the registry; `none` is `LUA_NOREF`. -/
def rawGet (L : LuaState F) (ref : Option ℕ) : Option (List F) :=
  ref.bind fun r => L.registry[r]?

/-- `lua_rawseti` behind the last element of a table. -/
def append (L : LuaState F) (ref : Option ℕ) (f : F) : LuaState F :=
  match ref with
  | none => L
  | some r => { L with registry := L.registry.modify r (· ++ [f]) }

end LuaState

/-- The three globals of a kind: `*_table_ref`, `*_count` and `*_enforcing`, the last as far
as the count reaches. -/
structure HookTable where
  ref : Option ℕ
  count : ℕ
  enforcing : List Bool
  sized : enforcing.length = count

namespace HookTable

/-- `LUA_NOREF`, 0 and a null pointer. -/
def cleared : HookTable := ⟨none, 0, [], rfl⟩

/-- `xrealloc` by one element and the count that goes with it. -/
def register (t : HookTable) (bit : Bool) : HookTable :=
  ⟨t.ref, t.count + 1, t.enforcing ++ [bit], by simp [t.sized]⟩

end HookTable

/-- The interpreter and the registration globals. -/
structure HookSet (F : Type) where
  rashLua : Option (LuaState F)
  table : HookKind → HookTable

namespace HookSet

def setTable (s : HookSet F) (kind : HookKind) (t : HookTable) : HookSet F :=
  { s with table := fun k => if k = kind then t else s.table k }

/-- What a load starts from. -/
def cleared : HookSet F := ⟨none, fun _ => .cleared⟩

/-- `rash_register_callback`, called from a chunk of `rash_lua`. -/
def rashRegisterCallback (s : HookSet F) (loadingFileEnforcing : Bool) (kind : HookKind)
    (f : F) : HookSet F :=
  { (s.setTable kind ((s.table kind).register loadingFileEnforcing)) with
    rashLua := s.rashLua.map fun L => L.append (s.table kind).ref f }

/-- A new table for each kind in turn, the last four counts set to 0. -/
def makeTables (L : LuaState F) : List HookKind → HookSet F → HookSet F
  | [], s => { s with rashLua := some L }
  | kind :: rest, s =>
      let made := L.luaLRef
      let t := s.table kind
      makeTables made.2 rest (s.setTable kind
        (if kind ∈ [HookKind.rack, .dispatch, .expandHook, .redirectPolicy] then
          { HookTable.cleared with ref := some made.1 }
        else { t with ref := some made.1 }))

/-- The callbacks of a kind as the consultation loops find them, with count and bits. -/
def view (s : HookSet F) (kind : HookKind) : Option (List F) × ℕ × List Bool :=
  (s.rashLua.bind fun L => L.rawGet (s.table kind).ref,
    (s.table kind).count, (s.table kind).enforcing)

end HookSet

/-! ## The hook directory -/

/-- The fields of `struct stat` that are read. -/
structure Stat where
  device : ℕ
  inode : ℕ
  mode : ℕ
  owner : ℕ
  size : Int
  modifiedSeconds : Int
  modifiedNanoseconds : Int
  deriving DecidableEq

namespace Stat

/-- `S_ISREG`. -/
def isRegular (st : Stat) : Bool := st.mode &&& 0o170000 == 0o100000

/-- Owned by root and not writable for group or others. -/
def trusted (st : Stat) : Bool := st.owner == 0 && st.mode &&& 0o022 == 0

end Stat

/-- A chunk: whether it compiles, the callbacks it registers, and whether it returns. -/
structure Chunk (F : Type) where
  compiles : Bool
  registers : List (HookKind × F)
  returns : Bool

/-- A directory entry: `lstat` of it, whether `open` without following links succeeds, then
`fstat`, and whether all of it can be read. -/
structure HookFile (F : Type) where
  lstat : Option Stat
  opens : Bool
  fstat : Option Stat
  reads : Bool
  chunk : Chunk F

/-- What `stat`, `opendir` and `readdir` say about a path. -/
structure HookDirectory (F : Type) where
  stat : Option Stat
  opens : Bool
  entries : List (String × HookFile F)

abbrev Disk (F : Type) := String → HookDirectory F

def rashHookMaxBytes : Int := 1024 * 1024

def rashLuaName (name : String) : Bool :=
  decide (4 < name.utf8ByteSize) && ['.', 'l', 'u', 'a'].isSuffixOf name.toList

def hookPath (directory name : String) : String := directory ++ "/" ++ name

namespace HookDirectory

/-- The names that end in `.lua`, sorted as `strcmp` sorts them. -/
def luaEntries (dir : HookDirectory F) : List (String × HookFile F) :=
  (dir.entries.filter fun e => rashLuaName e.1).insertionSort fun a b => a.1 ≤ b.1

def lstat (dir : HookDirectory F) (name : String) : Option Stat :=
  (dir.entries.find? fun e => e.1 == name).bind fun e => e.2.lstat

end HookDirectory

structure HookManifest where
  directory : Stat
  files : List (String × Stat)
  deriving DecidableEq

/-- `rash_hook_manifest_collect`; `none` when something cannot be examined. -/
def rashHookManifestCollect (dir : HookDirectory F) : Option HookManifest :=
  match dir.stat with
  | none => none
  | some st =>
      if dir.opens then
        (dir.luaEntries.mapM fun e : String × HookFile F =>
          e.2.lstat.map fun file => (e.1, file)).map (⟨st, ·⟩)
      else none

def rashHookManifestMatches (manifest : Option HookManifest) (dir : HookDirectory F) : Bool :=
  match manifest with
  | none => false
  | some m =>
      dir.stat == some m.directory && m.files.all fun file => dir.lstat file.1 == some file.2

/-! ## Loading -/

/-- The globals that loading and reloading read and write.  Interpreters are numbered in the
order in which they are made; `closed` lists the calls of `lua_close`. -/
structure HookSystem (F : Type) where
  hooks : HookSet F
  retiredLua : Option (LuaState F)
  loadingFileEnforcing : Bool
  hookState : Int
  hookDirectory : Option String
  hookAllowUnowned : Bool
  hookEnforceUnowned : Bool
  hookManifest : Option HookManifest
  hookExecutionDepth : ℕ
  hookCommandDepth : ℕ
  rackDepth : ℕ
  made : ℕ
  closed : List ℕ
  printed : List String

namespace HookSystem

/-- The static initialisers. -/
def initial : HookSystem F where
  hooks := .cleared
  retiredLua := none
  loadingFileEnforcing := false
  hookState := 0
  hookDirectory := none
  hookAllowUnowned := false
  hookEnforceUnowned := false
  hookManifest := none
  hookExecutionDepth := 0
  hookCommandDepth := 0
  rackDepth := 0
  made := 0
  closed := []
  printed := []

def warn (g : HookSystem F) (text path : String) : HookSystem F :=
  { g with printed := g.printed ++ [rashHookWarning text path] }

/-- `lua_close`, when there is something to close. -/
def close (g : HookSystem F) (L : Option (LuaState F)) : HookSystem F :=
  { g with closed := g.closed ++ (L.map (·.id)).toList }

def register (g : HookSystem F) (r : HookKind × F) : HookSystem F :=
  { g with hooks := g.hooks.rashRegisterCallback g.loadingFileEnforcing r.1 r.2 }

end HookSystem

/-- `rash_lua_ready`, when `luaL_newstate` succeeds or fails. -/
def rashLuaReady (newstate : Bool) (g : HookSystem F) : Bool × HookSystem F :=
  if newstate then
    (true, { g with
      hooks := g.hooks.makeTables ⟨g.made, []⟩ HookKind.all
      made := g.made + 1 })
  else (false, g.warn "cannot allocate LuaJIT state; hooks are disabled" "")

/-- The checks of `rash_load_hook` up to the trusted bit. -/
def HookFile.refusal (file : HookFile F) (allowUnowned : Bool) : Option String :=
  if file.opens = false then some "cannot open hook '"
  else
    match file.fstat with
    | none => some "refusing non-regular hook '"
    | some st =>
        if st.isRegular = false then some "refusing non-regular hook '"
        else if st.size < 0 ∨ rashHookMaxBytes < st.size then some "refusing oversized hook '"
        else if st.trusted = false ∧ allowUnowned = false then
          some ("refusing unowned hook; set RASH_ALLOW_UNOWNED_HOOKS=1 to load mutable " ++
            "advisory code: ")
        else none

def HookFile.trusted (file : HookFile F) : Bool := file.fstat.any Stat.trusted

/-- The warnings about a hook that is loaded although root does not own it. -/
def unownedWarnings (enforceUnowned : Bool) (path : String) (g : HookSystem F) : HookSystem F :=
  let g' := g.warn
    "WARNING: RASH_ALLOW_UNOWNED_HOOKS=1 loads mutable hook as advisory code: " path
  if enforceUnowned then
    g'.warn ("WARNING: RASH_HOOK_ENFORCE_UNOWNED=1 treats unowned hooks as enforcing " ++
      "(test/dev only): ") path
  else g'

/-- The warnings about an admitted file, and `loading_file_enforcing` for its chunk. -/
def admitHook (path : String) (file : HookFile F) (g : HookSystem F) : HookSystem F :=
  { (if file.trusted then g else unownedWarnings g.hookEnforceUnowned path g) with
    loadingFileEnforcing := file.trusted || g.hookEnforceUnowned }

/-- `luaL_loadbuffer` and the protected call of the chunk. -/
def runChunk (path : String) (chunk : Chunk F) (g : HookSystem F) : Bool × HookSystem F :=
  let ran := if chunk.compiles then chunk.registers.foldl HookSystem.register g else g
  let ended := { ran with loadingFileEnforcing := false }
  if chunk.compiles && chunk.returns then (true, ended)
  else (false, ended.warn "cannot load hook '" path)

def rashLoadHook (path : String) (file : HookFile F) (allowUnowned : Bool)
    (g : HookSystem F) : Bool × HookSystem F :=
  match file.refusal allowUnowned with
  | some text => (false, g.warn text path)
  | none =>
      if file.reads then runChunk path file.chunk (admitHook path file g)
      else (false, (admitHook path file g).warn "cannot read hook '" path)

/-- The loop of `rash_load_hooks`: a file that fails does not keep the next from loading. -/
def loadEach (directory : String) (allowUnowned : Bool) :
    List (String × HookFile F) → Bool × HookSystem F → Bool × HookSystem F
  | [], r => r
  | (name, file) :: rest, r =>
      let one := rashLoadHook (hookPath directory name) file allowUnowned r.2
      loadEach directory allowUnowned rest (r.1 && one.1, one.2)

def rashLoadHooks (directory : String) (dir : HookDirectory F) (allowUnowned : Bool)
    (g : HookSystem F) : Bool × HookSystem F :=
  if dir.opens then loadEach directory allowUnowned dir.luaEntries (true, g)
  else (false, g.warn "cannot open hook directory '" directory)

/-! ## Replacing the configuration -/

/-- `rash_hooks_have_any_observers`. -/
def HookSet.haveAnyObservers (s : HookSet F) : Bool :=
  decide (0 < (s.table .hook).count) || decide (0 < (s.table .before).count) ||
    decide (0 < (s.table .after).count) || decide (0 < (s.table .redirect).count) ||
    decide (0 < (s.table .clobber).count) || decide (0 < (s.table .downloadPipe).count) ||
    decide (0 < (s.table .beforePipeline).count) || decide (0 < (s.table .onBuiltin).count) ||
    decide (0 < (s.table .onFunction).count) || decide (0 < (s.table .onExec).count) ||
    decide (0 < (s.table .stdioBundle).count) ||
    decide (0 < (s.table .redirectPolicy).count)

/-- `rash_hook_save_configuration`. -/
def HookSystem.saveConfiguration (g : HookSystem F) (directory : String)
    (allowUnowned enforceUnowned : Bool) : HookSystem F :=
  { g with
    hookDirectory := some directory
    hookAllowUnowned := allowUnowned
    hookEnforceUnowned := enforceUnowned }

/-- The kinds whose globals `rash_hooks_load_configuration` saves before a load. -/
def savedKinds : List HookKind :=
  [.hook, .before, .after, .redirect, .clobber, .downloadPipe, .beforePipeline, .onBuiltin,
    .onFunction, .onExec, .stdioBundle]

/-- The failure branch puts the saved globals back. -/
def HookSet.restore (previous loaded : HookSet F) : HookSet F where
  rashLua := previous.rashLua
  table kind := if kind ∈ savedKinds then previous.table kind else loaded.table kind

/-- The environment as `rash_hooks_initialize` reads it. -/
structure HookEnvironment where
  rashHookDir : Option String
  rashAllowUnownedHooks : Option String
  rashHookEnforceUnowned : Option String
  rashHookReload : Option String

/-- The load proper: `rash_lua_ready () && rash_load_hooks (...)` over emptied globals. -/
def loadReplacement (newstate : Bool) (directory : String) (dir : HookDirectory F)
    (allowUnowned enforceUnowned : Bool) (g : HookSystem F) : Bool × HookSystem F :=
  let cleared := { g with hooks := .cleared, hookEnforceUnowned := enforceUnowned }
  let ready := rashLuaReady newstate cleared
  if ready.1 then rashLoadHooks directory dir allowUnowned ready.2 else ready

/-- The success branch.  The interpreter of the previous set is closed, or retired when a
lifecycle hook is running. -/
def adoptConfiguration (previous : HookSet F) (directory : String)
    (allowUnowned enforceUnowned : Bool) (manifest : HookManifest) (g : HookSystem F) :
    HookSystem F :=
  let saved := { (g.saveConfiguration directory allowUnowned enforceUnowned) with
    hookState := if g.hooks.haveAnyObservers then 1 else -1
    hookManifest := some manifest }
  match previous.rashLua with
  | none => saved
  | some L =>
      if g.hookExecutionDepth ≠ 0 then { saved with retiredLua := some L }
      else saved.close (some L)

/-- The failure branch. -/
def rejectConfiguration (previous : HookSet F) (previousState : Int) (directory : String)
    (allowUnowned enforceUnowned : Bool) (manifest : Option HookManifest) (g : HookSystem F) :
    HookSystem F :=
  { ((g.close g.hooks.rashLua).saveConfiguration directory allowUnowned enforceUnowned) with
    hooks := previous.restore g.hooks
    hookState := if previous.rashLua.isSome then previousState else -1
    hookManifest := manifest.or g.hookManifest }

def rashHooksLoadConfiguration (newstate : Bool) (disk : Disk F) (directory : String)
    (allowUnowned enforceUnowned : Bool) (g : HookSystem F) : Bool × HookSystem F :=
  let r := loadReplacement newstate directory (disk directory) allowUnowned enforceUnowned g
  match r.1, rashHookManifestCollect (disk directory) with
  | true, some manifest =>
      (true, adoptConfiguration g.hooks directory allowUnowned enforceUnowned manifest r.2)
  | false, some manifest =>
      (false, rejectConfiguration g.hooks g.hookState directory allowUnowned enforceUnowned
        (some manifest) r.2)
  | _, none =>
      (false, rejectConfiguration g.hooks g.hookState directory allowUnowned enforceUnowned none
        (r.2.warn "cannot snapshot hook directory '" directory))

namespace HookEnvironment

def allowUnowned (env : HookEnvironment) : Bool := env.rashAllowUnownedHooks == some "1"

def enforceUnowned (env : HookEnvironment) : Bool := env.rashHookEnforceUnowned == some "1"

/-- `rash_hook_reload_mode_enabled`. -/
def reloadMode (env : HookEnvironment) : Bool := env.rashHookReload == some "mtime"

end HookEnvironment

/-- `same_configuration`. -/
def HookSystem.sameConfiguration (g : HookSystem F) (env : HookEnvironment)
    (directory : String) : Bool :=
  g.hookDirectory == some directory && g.hookAllowUnowned == env.allowUnowned &&
    g.hookEnforceUnowned == env.enforceUnowned

def rashHooksInitialize (force newstate : Bool) (env : HookEnvironment) (disk : Disk F)
    (g : HookSystem F) : Bool × HookSystem F :=
  match env.rashHookDir with
  | none =>
      (false, if force then
        g.warn "cannot reload hooks because RASH_HOOK_DIR is not set" "" else g)
  | some directory =>
      if directory = "" then
        (false, if force then
          g.warn "cannot reload hooks because RASH_HOOK_DIR is not set" "" else g)
      else if force = false ∧ g.hookState = 1 ∧ env.reloadMode = false then (true, g)
      else if force = false ∧ g.sameConfiguration env directory = true ∧
          (env.reloadMode = false ∨
            rashHookManifestMatches g.hookManifest (disk directory) = true) then (true, g)
      else
        rashHooksLoadConfiguration newstate disk directory env.allowUnowned env.enforceUnowned g

end Rash
