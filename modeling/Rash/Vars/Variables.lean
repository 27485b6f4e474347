import Mathlib.Data.Int.Notation
import Mathlib.Data.Nat.Notation
import Rash.Vars.HashTable

/-!
# Variables and their contexts

The variables of variables.c, the chain of contexts that holds them, and the functions that
look a variable up, follow namerefs, assign, make a local, unset, and open and close the context
of a function.  A table is the list of its variables in the order in which it is searched, and a
pointer to a variable is the level of its context, counted from the innermost, with its name.

There is no temporary environment here, and the variables are plain ones: what an assignment
does to arrays, to integers and to variables with functions of their own is left out, and so
are namerefs to elements of arrays.
-/

namespace Rash

/-- The `att_` bits that the functions below read. -/
structure VarAttributes where
  exported : Bool := false
  readonly : Bool := false
  array : Bool := false
  assoc : Bool := false
  function : Bool := false
  localVar : Bool := false
  nameref : Bool := false
  invisible : Bool := false
  noassign : Bool := false
  imported : Bool := false
  regenerate : Bool := false
  deriving DecidableEq

structure ShellVariable where
  name : CString
  /-- `value_cell`, or `nameref_cell`. -/
  value : Option CString := none
  exportstr : Option CString := none
  /-- What `dynamic_value`, if there is one, leaves in the cell. -/
  dynamicValue : Option (Option CString) := none
  attributes : VarAttributes := {}
  context : ℤ := 0
  deriving DecidableEq

abbrev VarTable := List ShellVariable

structure VarContext where
  scope : ℤ
  /-- `vc_isfuncenv` -/
  funcenv : Bool
  /-- `vc_isbltnenv` -/
  bltnenv : Bool
  table : Option VarTable
  deriving DecidableEq

structure VarStore where
  /-- The contexts above the global one, the innermost first. -/
  contexts : List VarContext
  globalTable : VarTable
  variableContext : ℤ
  markModifiedVars : Bool := false
  localvarInherit : Bool := false
  localvarUnset : Bool := false
  deriving DecidableEq

/-- A pointer to a variable, with what it points to. -/
structure Found where
  level : ℕ
  var : ShellVariable
  deriving DecidableEq

def Found.same (f g : Found) : Bool := f.level == g.level && f.var.name == g.var.name

/-- A pointer to a variable, `NULL`, or `&nameref_maxloop_value`. -/
inductive VarSearch
  | null
  | maxloop
  | found (f : Found)
  deriving DecidableEq

namespace VarStore

def globalLevel (s : VarStore) : ℕ := s.contexts.length

def tables (s : VarStore) : List (Option VarTable) :=
  s.contexts.map (·.table) ++ [some s.globalTable]

def mapTable (s : VarStore) (level : ℕ) (f : VarTable → VarTable) : VarStore :=
  if level < s.globalLevel then
    { s with contexts := s.contexts.modify level fun vc => { vc with table := vc.table.map f } }
  else { s with globalTable := f s.globalTable }

end VarStore

def hashLookup (name : CString) (table : Option VarTable) : Option ShellVariable :=
  (table.getD []).find? (·.name = name)

/-- Change the variable that a search for `name` finds. -/
def modifyFirst (name : CString) (f : ShellVariable → ShellVariable) : VarTable → VarTable
  | [] => []
  | v :: rest => if v.name = name then f v :: rest else v :: modifyFirst name f rest

namespace VarStore

def instanceAt (s : VarStore) (level : ℕ) (name : CString) : Option ShellVariable :=
  hashLookup name (s.tables[level]?.getD none)

def modifyVar (s : VarStore) (level : ℕ) (name : CString) (f : ShellVariable → ShellVariable) : VarStore :=
  s.mapTable level (modifyFirst name f)

/-- `var_lookup` from the tables of some levels on. -/
def lookupFrom (name : CString) : ℕ → List (Option VarTable) → Option Found
  | _, [] => none
  | level, table :: rest =>
      match hashLookup name table with
      | some v => some ⟨level, v⟩
      | none => lookupFrom name (level + 1) rest

/-- `var_lookup` over `shell_variables`, which `find_variable_noref` is without a temporary
environment. -/
def varLookup (s : VarStore) (name : CString) : Option Found := lookupFrom name 0 s.tables

def findGlobalVariableNoref (s : VarStore) (name : CString) : Option Found :=
  (s.instanceAt s.globalLevel name).map (⟨s.globalLevel, ·⟩)

/-! ## Following namerefs -/

def namerefMax : ℕ := 8

/-- The name that a nameref's cell holds, unless it is missing or empty. -/
def namerefTarget (v : ShellVariable) : Option CString := v.value.filter (· ≠ [])

/-- The loop of `find_variable_nameref`, with the number of levels that are left. -/
def followNameref (s : VarStore) (orig : Found) : ℕ → Found → VarSearch
  | left, v =>
      if v.var.attributes.nameref then
        match left with
        | 0 => .maxloop
        | left + 1 =>
            match namerefTarget v.var with
            | none => .null
            | some newname =>
                match s.varLookup newname with
                | none => .null
                | some w =>
                    if w.same orig || w.same v then
                      if s.variableContext ≠ 0 ∧ w.var.context ≠ 0 then
                        match s.findGlobalVariableNoref w.var.name with
                        | some g => .found g
                        | none => .null
                      else .null
                    else s.followNameref orig left w
      else .found v

def findVariableNameref (s : VarStore) (v : Found) : VarSearch := s.followNameref v namerefMax v

/-- What the callers that warn about a loop make of the search. -/
def VarSearch.orNull : VarSearch → Option Found
  | .found f => some f
  | .null | .maxloop => none

def findVariable (s : VarStore) (name : CString) : Option Found :=
  match s.varLookup name with
  | none => none
  | some v =>
      if v.var.attributes.nameref then VarSearch.orNull (s.findVariableNameref v) else some v

def findGlobalVariable (s : VarStore) (name : CString) : Option Found :=
  match s.findGlobalVariableNoref name with
  | none => none
  | some v =>
      if v.var.attributes.nameref then VarSearch.orNull (s.findVariableNameref v) else some v

/-- The loop of `find_variable_last_nameref`; `nv` is the last variable that it met. -/
def lastNameref (s : VarStore) (vflags : Bool) : ℕ → Found → Option Found → Option Found
  | _, nv, none => some nv
  | left, nv, some v =>
      if v.var.attributes.nameref then
        match left with
        | 0 => none
        | left + 1 =>
            match namerefTarget v.var with
            | none => if vflags && v.var.attributes.invisible then some v else none
            | some newname => s.lastNameref vflags left v (s.varLookup newname)
      else some nv

def findVariableLastNameref (s : VarStore) (name : CString) (vflags : Bool) : Option Found :=
  match s.varLookup name with
  | none => none
  | some v => s.lastNameref vflags namerefMax v (some v)

/-- The loop of `find_nameref_at_context`, which starts its count at one. -/
def namerefAt (table : Option VarTable) (level : ℕ) : ℕ → Found → VarSearch
  | left, nv =>
      if nv.var.attributes.nameref then
        match left with
        | 0 => .maxloop
        | left + 1 =>
            match namerefTarget nv.var with
            | none => .null
            | some newname =>
                match hashLookup newname table with
                | none => .found nv
                | some nv2 => namerefAt table level left ⟨level, nv2⟩
      else .found nv

def findNamerefAtContext (v : Found) (level : ℕ) (table : Option VarTable) : VarSearch :=
  namerefAt table level (namerefMax - 1) v

/-- The loop of `find_variable_nameref_context` over the tables from `level` on, with the
context that `*nvcp` points to. -/
def namerefContext : ℕ → List (Option VarTable) → Found → ℕ → VarSearch × ℕ
  | _, [], nv, nvc => (if nv.var.attributes.nameref then .null else .found nv, nvc)
  | level, table :: rest, nv, nvc =>
      match findNamerefAtContext nv level table with
      | .maxloop => (.maxloop, nvc)
      | .null => namerefContext (level + 1) rest nv nvc
      | .found nv2 =>
          if nv2.var.attributes.nameref then namerefContext (level + 1) rest nv2 level
          else (.found nv2, level)

def findVariableNamerefContext (s : VarStore) (v : Found) (nvc : ℕ) : VarSearch × ℕ :=
  namerefContext v.level (s.tables.drop v.level) v nvc

/-- The same loop in `find_variable_last_nameref_context`, which goes on where the other one
has found a variable. -/
def lastNamerefContext : ℕ → List (Option VarTable) → Found → ℕ → VarSearch × ℕ
  | _, [], nv, nvc => (if nv.var.attributes.nameref then .found nv else .null, nvc)
  | level, table :: rest, nv, nvc =>
      match findNamerefAtContext nv level table with
      | .maxloop => (.maxloop, nvc)
      | .null => lastNamerefContext (level + 1) rest nv nvc
      | .found nv2 => lastNamerefContext (level + 1) rest nv2 level

def findVariableLastNamerefContext (s : VarStore) (v : Found) (nvc : ℕ) : VarSearch × ℕ :=
  lastNamerefContext v.level (s.tables.drop v.level) v nvc

end VarStore

/-! ## Assigning -/

/-- `legal_variable_starter`; the letters are those of the C locale. -/
def legalVariableStarter (c : UInt8) : Bool :=
  (65 ≤ c && c ≤ 90) || (97 ≤ c && c ≤ 122) || c == 95

def legalVariableChar (c : UInt8) : Bool := legalVariableStarter c || (48 ≤ c && c ≤ 57)

def validIdentifier : CString → Bool
  | [] => false
  | c :: rest => legalVariableStarter c && rest.all legalVariableChar

/-- `valid_nameref_value`; `validArrayReference` is the parser of subscripts. -/
def validNamerefValue (validArrayReference : CString → Bool) : Option CString → Bool
  | none => false
  | some name => name ≠ [] && (validIdentifier name || validArrayReference name)

/-- `ASSIGN_DISALLOWED` without flags. -/
def assignDisallowed (v : ShellVariable) : Bool := v.attributes.readonly || v.attributes.noassign

namespace VarStore

/-- `make_new_variable` with a value; the entry for a table that is `NULL` is lost. -/
def makeNewVariable (s : VarStore) (level : ℕ) (entry : ShellVariable) : Found × VarStore :=
  (⟨level, entry⟩, s.mapTable level (entry :: ·))

/-- What the end of `bind_variable_internal` does to the entry. -/
def markModified (s : VarStore) (v : ShellVariable) : ShellVariable :=
  { v with
    attributes := { v.attributes with exported := v.attributes.exported || s.markModifiedVars } }

def assigned (s : VarStore) (value : CString) (v : ShellVariable) : ShellVariable :=
  s.markModified
    { v with
      value := some value
      exportstr := none
      attributes := { v.attributes with invisible := false } }

/-- The label `assign_value`. -/
def assignValue (s : VarStore) (entry : Found) (value : CString) : Option Found × VarStore :=
  if assignDisallowed entry.var then (some entry, s)
  else
    (some ⟨entry.level, s.assigned value entry.var⟩,
      s.modifyVar entry.level entry.var.name (s.assigned value))

def bindNew (s : VarStore) (level : ℕ) (name value : CString) : Option Found × VarStore :=
  let (entry, s) := s.makeNewVariable level (s.markModified { name := name, value := some value })
  (some entry, s)

section Binding

variable (validArrayReference : CString → Bool)

/-- `bind_variable_internal` for an entry that was looked up, without flags. -/
def bindEntry (s : VarStore) (level : ℕ) (value : CString) (entry : Found) :
    Option Found × VarStore :=
  if entry.var.attributes.nameref then
    if entry.var.attributes.invisible then
      if validNamerefValue validArrayReference (some value) then s.assignValue entry value
      else (none, s)
    else
      match entry.var.value with
      | none => (none, s)
      | some newval =>
          if validNamerefValue validArrayReference (some newval) then s.bindNew level newval value
          else (none, s)
  else s.assignValue entry value

/-- Only the global table has its namerefs followed here. -/
def bindVariableInternal (s : VarStore) (level : ℕ) (name value : CString) :
    Option Found × VarStore :=
  match s.instanceAt level name with
  | none => s.bindNew level name value
  | some v =>
      if v.attributes.nameref && !v.attributes.invisible && level == s.globalLevel then
        match (s.findGlobalVariable v.name).or (s.findVariableLastNameref v.name false) with
        | none => (none, s)
        | some entry => s.bindEntry validArrayReference level value entry
      else s.bindEntry validArrayReference level value ⟨level, v⟩

def bindGlobalVariable (s : VarStore) (name value : CString) : Option Found × VarStore :=
  s.bindVariableInternal validArrayReference s.globalLevel name value

/-- The body of the loop of `bind_variable` for a variable of a function's context; `none` is
to go on. -/
def bindFound (s : VarStore) (value : CString) (v : Found) :
    Option (Option Found × VarStore) :=
  if v.var.attributes.nameref then
    match s.findVariableNamerefContext v v.level with
    | (.found nv, nvc) => some (s.bindVariableInternal validArrayReference nvc nv.var.name value)
    | (.maxloop, _) => some (s.bindGlobalVariable validArrayReference v.var.name value)
    | (.null, nvc) =>
        match s.findVariableLastNamerefContext v nvc with
        | (.found nv, nvc) =>
            some (s.bindVariableInternal validArrayReference nvc
              (nv.var.value.getD nv.var.name) value)
        | (.maxloop, _) => some (s.bindGlobalVariable validArrayReference v.var.name value)
        | (.null, _) => none
  else some (s.bindVariableInternal validArrayReference v.level v.var.name value)

def bindFrom (s : VarStore) (name value : CString) :
    ℕ → List VarContext → Option Found × VarStore
  | _, [] => s.bindVariableInternal validArrayReference s.globalLevel name value
  | level, vc :: rest =>
      if vc.funcenv || vc.bltnenv then
        match (hashLookup name vc.table).bind fun v =>
          s.bindFound validArrayReference value ⟨level, v⟩ with
        | some result => result
        | none => s.bindFrom name value (level + 1) rest
      else s.bindFrom name value (level + 1) rest

def bindVariable (s : VarStore) (name value : CString) : Option Found × VarStore :=
  s.bindFrom validArrayReference name value 0 s.contexts

end Binding

/-! ## Locals, unsetting, and the contexts of functions -/

/-- `local_p` and at the current level. -/
def isLocalHere (s : VarStore) (v : Found) : Bool :=
  v.var.attributes.localVar && v.var.context == s.variableContext

/-- The level of the context of the function that is running. -/
def functionLevel (s : VarStore) : Option ℕ :=
  s.contexts.findIdx? fun vc => vc.funcenv && vc.scope == s.variableContext

def createTable (s : VarStore) (level : ℕ) : VarStore :=
  { s with
    contexts := s.contexts.modify level fun vc => { vc with table := some (vc.table.getD []) } }

/-- The new instance that hides `oldVar`. -/
def localInstance (s : VarStore) (name : CString) (oldVar : Option Found) : ShellVariable :=
  let old : ShellVariable := (oldVar.map (·.var)).getD { name := name }
  let value := if s.localvarInherit then old.value else none
  let attributes : VarAttributes :=
    if s.localvarInherit then { old.attributes with nameref := false }
    else { exported := old.attributes.exported }
  { name := name
    value := value
    dynamicValue := if s.localvarInherit then old.dynamicValue else none
    attributes :=
      { attributes with
        localVar := true
        invisible := attributes.invisible || value.isNone }
    context := s.variableContext }

/-- `make_local_variable` without flags. -/
def makeLocalVariable (s : VarStore) (name : CString) : Option Found × VarStore :=
  let oldRef := (s.varLookup name).filter (·.var.attributes.nameref)
  let oldVar := s.findVariable name
  if oldRef.isNone && oldVar.any s.isLocalHere then (oldVar, s)
  else if oldRef.any s.isLocalHere then (oldRef, s)
  else
    let oldVar := oldRef.or oldVar
    match s.functionLevel with
    | none => (none, s)
    | some level =>
        let s := s.createTable level
        if oldVar.any fun v =>
            v.var.attributes.noassign || v.var.attributes.readonly && v.var.context == 0 then
          (none, s)
        else
          let (new, s) := s.makeNewVariable level (s.localInstance name oldVar)
          (some new, s)

/-- The placeholder that an unset local leaves. -/
def hiddenLocal (v : ShellVariable) : ShellVariable :=
  { v with
    value := none
    exportstr := none
    attributes := { localVar := true, invisible := true } }

def removeFirst (name : CString) (table : VarTable) : VarTable := table.eraseP (·.name = name)

/-- `hash_insert` without flags, with what its caller stores in the item. -/
def putBack (v : ShellVariable) (table : VarTable) : VarTable :=
  if table.any (·.name = v.name) then modifyFirst v.name (fun _ => v) table else v :: table

/-- `makunbound` over `shell_variables`; `false` is that nothing was found. -/
def makunbound (s : VarStore) (name : CString) : Bool × VarStore :=
  match s.varLookup name with
  | none => (false, s)
  | some old =>
      let removed := s.mapTable old.level (removeFirst name)
      if old.var.attributes.localVar &&
          (old.var.context == s.variableContext ||
            s.localvarUnset && decide (old.var.context < s.variableContext)) then
        (true, removed.mapTable old.level (putBack (hiddenLocal old.var)))
      else (true, removed)

def unbindVariable (s : VarStore) (name : CString) : Bool × VarStore :=
  match s.varLookup name with
  | none => s.makunbound name
  | some v =>
      if v.var.attributes.nameref then
        match s.findVariableNameref v with
        | .found nv => s.makunbound nv.var.name
        | .null | .maxloop => s.makunbound name
      else s.makunbound name

/-- What `export` does to the instance that it finds. -/
def exportVariable (s : VarStore) (name : CString) : VarStore :=
  match s.findVariable name with
  | none => s
  | some v =>
      s.modifyVar v.level v.var.name fun v =>
        { v with attributes := { v.attributes with exported := true } }

def pushContext (s : VarStore) : VarStore :=
  let s := { s with variableContext := s.variableContext + 1 }
  { s with
    contexts :=
      { scope := s.variableContext, funcenv := true, bltnenv := false, table := none } ::
        s.contexts }

/-- `pop_var_context` complains where the innermost context is not a function's. -/
def popContext (s : VarStore) : VarStore :=
  let s := { s with variableContext := s.variableContext - 1 }
  match s.contexts with
  | [] => s
  | vc :: rest => if vc.funcenv then { s with contexts := rest } else s

end VarStore

end Rash
