import Mathlib.Data.List.Basic
import Mathlib.Tactic.SplitIfs
import Rash.Vars.Variables

/-!
# The exported environment

`maybe_make_export_env`: the tables from the innermost to the global one are flattened into the
list of the variables to export, which becomes the list of their assignments, and the exported
functions follow.  The filter comes before the test for names that are in the list already, so
an instance that the filter drops hides nothing.
-/

namespace Rash

/-- The bytes of `BASH_FUNC_`. -/
def bashfuncPrefix : CString := [66, 65, 83, 72, 95, 70, 85, 78, 67, 95]

/-- The bytes of `%%`. -/
def bashfuncSuffix : CString := [37, 37]

/-- The byte of `=`. -/
def equals : UInt8 := 61

namespace ShellVariable

/-- `export_environment_candidate` -/
def exportCandidate (v : ShellVariable) : Bool :=
  v.attributes.exported && (!v.attributes.invisible || v.attributes.imported)

/-- `visible_and_exported` -/
def visibleAndExported (v : ShellVariable) : Bool :=
  !v.attributes.invisible && v.attributes.exported

def isArray (v : ShellVariable) : Bool := v.attributes.array || v.attributes.assoc

/-- A value that is generated dynamically is generated here. -/
def regenerated (v : ShellVariable) : ShellVariable :=
  match v.dynamicValue with
  | some value =>
      if v.attributes.regenerate then { v with value := value, exportstr := none } else v
  | none => v

/-- `mk_env_string` -/
def mkEnvString (v : ShellVariable) (value : CString) : CString :=
  if v.attributes.function then
    bashfuncPrefix ++ v.name ++ bashfuncSuffix ++ equals :: value
  else v.name ++ equals :: value

/-- The element that `make_env_array_from_var_list` makes of a variable.  For a function the
value is the text that it prints as. -/
def envString (v : ShellVariable) : Option CString :=
  let v := v.regenerated
  match v.exportstr with
  | some str => some (if v.isArray then v.mkEnvString str else str)
  | none =>
      if v.attributes.function then v.value.map v.mkEnvString
      else if v.isArray then none
      else v.value.map v.mkEnvString

end ShellVariable

open ShellVariable

def vlistAdd (vlist : List ShellVariable) (var : ShellVariable) : List ShellVariable :=
  if vlist.any (·.name = var.name) then vlist else vlist ++ [var]

/-- `flatten` with a list to add to. -/
def flatten (func : ShellVariable → Bool) (vlist : List ShellVariable)
    (table : Option VarTable) : List ShellVariable :=
  ((table.getD []).filter func).foldl vlistAdd vlist

def mapOver (func : ShellVariable → Bool) (tables : List (Option VarTable)) :
    List ShellVariable :=
  tables.foldl (flatten func) []

/-- The tables that the environment is made from.  The variables of the scopes carry their own
names in their cached strings, and what was imported without being a variable carries a name
that is no identifier. -/
structure ExportState where
  store : VarStore
  temporaryEnv : Option VarTable
  invalidEnv : Option VarTable
  shellFunctions : Option VarTable
  restricted : Bool
  named : ∀ table ∈ temporaryEnv :: store.tables, ∀ v ∈ table.getD [],
    equals ∉ v.name ∧ v.attributes.function = false ∧
      ∀ str, v.exportstr = some str → ∃ value, str = v.name ++ equals :: value
  foreign : ∀ v ∈ invalidEnv.getD [], ∃ name value,
    v.envString = some (name ++ equals :: value) ∧ equals ∉ name ∧ validIdentifier name = false
  passedOn : ∀ v ∈ invalidEnv.getD [], v.exportCandidate = true

namespace ExportState

/-- The tables of the scopes, in the order of a lookup. -/
def scopes (st : ExportState) : List (Option VarTable) := st.temporaryEnv :: st.store.tables

/-- `make_var_export_array` over the dummy contexts and `shell_variables`. -/
def exportedVariables (st : ExportState) : List ShellVariable :=
  mapOver exportCandidate (st.invalidEnv :: st.scopes)

/-- `make_func_export_array` -/
def exportedFunctions (st : ExportState) : List ShellVariable :=
  if st.restricted then [] else mapOver visibleAndExported [st.shellFunctions]

/-- `export_env`, after `maybe_make_export_env` has made it again. -/
def exportEnv (st : ExportState) : List CString :=
  st.exportedVariables.filterMap envString ++ st.exportedFunctions.filterMap envString

/-- The instance of a name that a lookup finds first. -/
def innermost (st : ExportState) (name : CString) : Option ShellVariable :=
  (st.scopes.flatMap (·.getD [])).find? (·.name = name)

end ExportState

/-! ## Reading the environment -/

/-- The value that an element gives to a name. -/
def readEntry (name str : CString) : Option CString :=
  if name ++ [equals] <+: str then some (str.drop (name.length + 1)) else none

def entriesFor (name : CString) (env : List CString) : List CString :=
  env.filterMap (readEntry name)

theorem readEntry_own (name value : CString) :
    readEntry name (name ++ equals :: value) = some value := by
  have hprefix : name ++ [equals] <+: name ++ equals :: value := by
    simp
  unfold readEntry
  rw [if_pos hprefix]
  simp

theorem readEntry_eq_none {name other : CString} (hname : equals ∉ name) (hother : equals ∉ other)
    (hne : name ≠ other) (value : CString) :
    readEntry name (other ++ equals :: value) = none := by
  unfold readEntry
  apply if_neg
  rintro ⟨rest, heq⟩
  rw [List.append_assoc, List.singleton_append] at heq
  have htake (l m : CString) (hl : equals ∉ l) :
      (l ++ equals :: m).takeWhile (· ≠ equals) = l := by
    rw [List.takeWhile_append_of_pos, List.takeWhile_cons_of_neg (by simp), List.append_nil]
    intro c hc
    exact decide_eq_true fun hbad => hl (hbad ▸ hc)
  apply hne
  rw [← htake name rest hname, heq, htake other value hother]

theorem equals_notMem_of_validIdentifier {name : CString} (h : validIdentifier name = true) :
    equals ∉ name := by
  have hchar : legalVariableChar equals = false := by decide
  cases name with
  | nil => exact List.not_mem_nil
  | cons c rest =>
      obtain ⟨hc, hrest⟩ := Bool.and_eq_true_iff.mp h
      intro hmem
      rcases List.mem_cons.mp hmem with rfl | hmem
      · revert hc
        decide
      · rw [List.all_eq_true.mp hrest _ hmem] at hchar
        cases hchar

/-! ## The list of variables -/

theorem vlistAdd_mem {vlist : List ShellVariable} {var v : ShellVariable}
    (h : v ∈ vlistAdd vlist var) : v ∈ vlist ∨ v = var := by
  unfold vlistAdd at h
  split_ifs at h
  · exact .inl h
  · simpa using h

theorem vlistAdd_filter (vlist : List ShellVariable) (var : ShellVariable) (name : CString) :
    (vlistAdd vlist var).filter (·.name = name) =
      if vlist.filter (·.name = name) = [] ∧ var.name = name then [var]
      else vlist.filter (·.name = name) := by
  unfold vlistAdd
  by_cases hname : var.name = name
  · subst hname
    by_cases hany : vlist.any (·.name = var.name) = true
    · have hne : vlist.filter (·.name = var.name) ≠ [] := by
        rw [List.any_eq_true] at hany
        obtain ⟨v, hv, hvname⟩ := hany
        exact List.ne_nil_of_mem (List.mem_filter.mpr ⟨hv, hvname⟩)
      rw [if_pos hany, if_neg fun hand => hne hand.1]
    · have hnil : vlist.filter (·.name = var.name) = [] := by
        rw [List.filter_eq_nil_iff]
        intro v hv hvname
        exact hany (List.any_eq_true.mpr ⟨v, hv, hvname⟩)
      rw [if_neg hany, if_pos ⟨hnil, rfl⟩, List.filter_append, hnil]
      simp
  · have hrhs : ¬(vlist.filter (·.name = name) = [] ∧ var.name = name) := fun hand => hname hand.2
    rw [if_neg hrhs]
    split_ifs
    · rfl
    · simp [hname]

theorem foldl_vlistAdd_filter (l vlist : List ShellVariable) (name : CString) :
    (l.foldl vlistAdd vlist).filter (·.name = name) =
      if vlist.filter (·.name = name) = [] then (l.find? (·.name = name)).toList
      else vlist.filter (·.name = name) := by
  induction l generalizing vlist with
  | nil =>
      rw [List.foldl_nil]
      split_ifs with h
      · exact h
      · rfl
  | cons var l ih =>
      rw [List.foldl_cons, ih, vlistAdd_filter]
      by_cases hnil : vlist.filter (·.name = name) = []
      · by_cases hname : var.name = name
        · simp [hnil, hname]
        · simp [hnil, hname]
      · simp [hnil]

theorem mem_foldl_vlistAdd {l vlist : List ShellVariable} {v : ShellVariable}
    (h : v ∈ l.foldl vlistAdd vlist) : v ∈ vlist ∨ v ∈ l := by
  induction l generalizing vlist with
  | nil => exact .inl h
  | cons var l ih =>
      rcases ih h with hmem | hmem
      · rcases vlistAdd_mem hmem with hmem | rfl
        · exact .inl hmem
        · exact .inr List.mem_cons_self
      · exact .inr (List.mem_cons_of_mem _ hmem)

theorem mapOver_eq (func : ShellVariable → Bool) (tables : List (Option VarTable)) :
    mapOver func tables = ((tables.flatMap (·.getD [])).filter func).foldl vlistAdd [] := by
  have hfold (vlist : List ShellVariable) : tables.foldl (flatten func) vlist =
      ((tables.flatMap (·.getD [])).filter func).foldl vlistAdd vlist := by
    induction tables generalizing vlist with
    | nil => rfl
    | cons table tables ih =>
        rw [List.foldl_cons, ih, List.flatMap_cons, List.filter_append, List.foldl_append]
        rfl
  exact hfold []

theorem mapOver_filter (func : ShellVariable → Bool) (tables : List (Option VarTable))
    (name : CString) :
    (mapOver func tables).filter (·.name = name) =
      (((tables.flatMap (·.getD [])).filter func).find? (·.name = name)).toList := by
  rw [mapOver_eq, foldl_vlistAdd_filter, List.filter_nil, if_pos rfl]

theorem mem_mapOver {func : ShellVariable → Bool} {tables : List (Option VarTable)}
    {v : ShellVariable} (h : v ∈ mapOver func tables) : ∃ table ∈ tables, v ∈ table.getD [] := by
  rw [mapOver_eq] at h
  rcases mem_foldl_vlistAdd h with hmem | hmem
  · cases hmem
  · exact List.mem_flatMap.mp (List.mem_of_mem_filter hmem)

/-! ## What the environment says of a name -/

theorem regenerated_name (v : ShellVariable) : v.regenerated.name = v.name := by
  unfold regenerated
  split
  · split_ifs <;> rfl
  · rfl

theorem regenerated_attributes (v : ShellVariable) :
    v.regenerated.attributes = v.attributes := by
  unfold regenerated
  split
  · split_ifs <;> rfl
  · rfl

theorem regenerated_exportstr {v : ShellVariable} {str : CString}
    (h : v.regenerated.exportstr = some str) : v.exportstr = some str := by
  unfold regenerated at h
  split at h
  · split_ifs at h
    exact h
  · exact h

theorem ExportState.envString_named (st : ExportState) {table : Option VarTable}
    (htable : table ∈ st.scopes) {v : ShellVariable} (hv : v ∈ table.getD []) {str : CString}
    (h : v.envString = some str) : ∃ value, str = v.name ++ equals :: value := by
  obtain ⟨-, hfunction, hcached⟩ := st.named table htable v hv
  have hown (value : CString) :
      v.regenerated.mkEnvString value = v.name ++ equals :: value := by
    unfold mkEnvString
    rw [regenerated_attributes, hfunction, regenerated_name]
    rfl
  unfold envString at h
  dsimp only at h
  split at h
  · next cached hexport =>
      split_ifs at h
      · exact ⟨cached, (Option.some_inj.mp h).symm.trans (hown cached)⟩
      · exact Option.some_inj.mp h ▸ hcached cached (regenerated_exportstr hexport)
  · rw [regenerated_attributes, hfunction, if_neg Bool.false_ne_true] at h
    split_ifs at h
    obtain ⟨value, -, hvalue⟩ := Option.map_eq_some_iff.mp h
    exact ⟨value, hvalue.symm.trans (hown value)⟩

/-- What a listed variable says of a name. -/
def saysOf (name : CString) (v : ShellVariable) : Option CString :=
  v.envString.bind (readEntry name)

namespace ExportState

variable (st : ExportState)

/-- Something imported under a name that is no identifier bears the name in its table. -/
def importedAs (name : CString) : Bool := (st.invalidEnv.getD []).any (·.name = name)

/-- The first instance of a name that passes the filter. -/
def firstCandidate (name : CString) : Option ShellVariable :=
  ((st.scopes.flatMap (·.getD [])).filter exportCandidate).find? (·.name = name)

/-- What the exported functions say of a name that is a variable's. -/
def saidByFunctions (name : CString) : List CString :=
  st.exportedFunctions.filterMap (saysOf name)

variable {st}

theorem saysOf_foreign {v : ShellVariable} (hv : v ∈ st.invalidEnv.getD []) {name : CString}
    (hname : validIdentifier name = true) : saysOf name v = none := by
  obtain ⟨other, value, hstr, hother, hinvalid⟩ := st.foreign v hv
  unfold saysOf
  rw [hstr, Option.bind_some]
  apply readEntry_eq_none (equals_notMem_of_validIdentifier hname) hother
  rintro rfl
  rw [hname] at hinvalid
  cases hinvalid

theorem saysOf_of_ne {table : Option VarTable} (htable : table ∈ st.scopes) {v : ShellVariable}
    (hv : v ∈ table.getD []) {name : CString} (hname : validIdentifier name = true)
    (hne : v.name ≠ name) : saysOf name v = none := by
  unfold saysOf
  cases hstr : v.envString with
  | none => rfl
  | some str =>
      obtain ⟨value, rfl⟩ := st.envString_named htable hv hstr
      exact readEntry_eq_none (equals_notMem_of_validIdentifier hname)
        (st.named table htable v hv).1 hne.symm value

theorem exportedVariables_filter (name : CString) :
    st.exportedVariables.filter (·.name = name) =
      (((st.invalidEnv.getD []).find? (·.name = name)).or (st.firstCandidate name)).toList := by
  have hpassed : (st.invalidEnv.getD []).filter exportCandidate = st.invalidEnv.getD [] :=
    List.filter_eq_self.mpr st.passedOn
  unfold exportedVariables firstCandidate
  rw [mapOver_filter, List.flatMap_cons, List.filter_append, List.find?_append, hpassed]

/-- Only the variable that is listed under a name has a say. -/
theorem saidByVariables {name : CString} (hname : validIdentifier name = true) :
    st.exportedVariables.filterMap (saysOf name) =
      if st.importedAs name then []
      else ((st.firstCandidate name).bind (saysOf name)).toList := by
  have hfilter : st.exportedVariables.filterMap (saysOf name) =
      (st.exportedVariables.filter (·.name = name)).filterMap (saysOf name) := by
    rw [List.filterMap_filter]
    apply List.filterMap_congr
    intro v hv
    by_cases hsame : v.name = name
    · simp [hsame]
    · rw [if_neg (by simp [hsame])]
      obtain ⟨table, htable, hmem⟩ := mem_mapOver hv
      rcases List.mem_cons.mp htable with rfl | htable
      · exact saysOf_foreign hmem hname
      · exact saysOf_of_ne htable hmem hname hsame
  rw [hfilter, exportedVariables_filter]
  unfold importedAs
  cases hfind : (st.invalidEnv.getD []).find? (·.name = name) with
  | none =>
      have hnone : (st.invalidEnv.getD []).any (·.name = name) = false := by
        rw [List.any_eq_false]
        exact List.find?_eq_none.mp hfind
      rw [hnone, Option.none_or]
      cases st.firstCandidate name with
      | none => rfl
      | some v => cases hshows : saysOf name v <;> simp [hshows]
  | some v =>
      have hbears : decide (v.name = name) = true := by
        simpa using List.find?_some hfind
      have hsome : (st.invalidEnv.getD []).any (·.name = name) = true :=
        List.any_eq_true.mpr ⟨v, List.mem_of_find?_eq_some hfind, hbears⟩
      rw [hsome, Option.some_or, if_pos rfl]
      simp [saysOf_foreign (List.mem_of_find?_eq_some hfind) hname]

theorem entriesFor_exportEnv {name : CString} (hname : validIdentifier name = true) :
    entriesFor name st.exportEnv =
      (if st.importedAs name then [] else ((st.firstCandidate name).bind (saysOf name)).toList) ++
        st.saidByFunctions name := by
  have hsaid (l : List ShellVariable) :
      (l.filterMap envString).filterMap (readEntry name) = l.filterMap (saysOf name) := by
    rw [List.filterMap_filterMap]
    rfl
  unfold entriesFor exportEnv saidByFunctions
  rw [List.filterMap_append, hsaid, hsaid, saidByVariables hname]

/-! ## The innermost instance -/

/-- A visible exported variable that is no array. -/
def isShown (v : ShellVariable) : Bool := v.visibleAndExported && !v.isArray

/-- The environment has one entry for the name, with the value of the innermost instance, where
that instance is a visible exported variable and no array, and else none. -/
def ShowsInnermost (st : ExportState) (name : CString) : Prop :=
  match (st.innermost name).filter isShown with
  | some v => ∃ value, v.regenerated.value = some value ∧ entriesFor name st.exportEnv = [value]
  | none => entriesFor name st.exportEnv = []

/-- Where the innermost instance is to be shown, it has a value, what is cached for it is that
value, and nothing imported hides it; where it is not, nothing is the first to pass the filter
but what is imported, an array, or a variable without a value.  No exported function has a name
that reads as an assignment, but for one that says the hidden value. -/
def InnermostDecides (st : ExportState) (name : CString) : Prop :=
  match (st.innermost name).filter isShown with
  | some v => ∃ value, v.regenerated.value = some value ∧
      if st.importedAs name then st.saidByFunctions name = [value]
      else (∀ str, v.regenerated.exportstr = some str → str = name ++ equals :: value) ∧
        st.saidByFunctions name = []
  | none => st.saidByFunctions name = [] ∧ (st.importedAs name = true ∨
      ∀ v, st.firstCandidate name = some v →
        v.regenerated.exportstr = none ∧ (v.isArray = true ∨ v.regenerated.value = none))

theorem isArray_regenerated (v : ShellVariable) : v.regenerated.isArray = v.isArray := by
  unfold isArray
  rw [regenerated_attributes]

theorem mem_scopes {v : ShellVariable} (h : v ∈ st.scopes.flatMap (·.getD [])) :
    ∃ table ∈ st.scopes, v ∈ table.getD [] := List.mem_flatMap.mp h

theorem find?_filter_of_pos {l : List ShellVariable} {p q : ShellVariable → Bool}
    {v : ShellVariable} (h : l.find? p = some v) (hq : q v = true) :
    (l.filter q).find? p = some v := by
  induction l with
  | nil => cases h
  | cons w l ih =>
      by_cases hw : p w = true
      · rw [List.find?_cons_of_pos hw] at h
        cases h
        rw [List.filter_cons_of_pos hq, List.find?_cons_of_pos hw]
      · rw [List.find?_cons_of_neg hw] at h
        by_cases hqw : q w = true
        · rw [List.filter_cons_of_pos hqw, List.find?_cons_of_neg hw]
          exact ih h
        · rw [List.filter_cons_of_neg hqw]
          exact ih h

/-- What a scalar of the scopes says of its own name. -/
theorem saysOf_scalar {table : Option VarTable} (htable : table ∈ st.scopes)
    {v : ShellVariable} (hv : v ∈ table.getD []) (harray : v.isArray = false) {value : CString}
    (hvalue : v.regenerated.value = some value) :
    saysOf v.name v = some value ↔
      ∀ str, v.regenerated.exportstr = some str → str = v.name ++ equals :: value := by
  obtain ⟨-, hfunction, hcached⟩ := st.named table htable v hv
  unfold saysOf envString
  dsimp only
  rw [isArray_regenerated, harray, regenerated_attributes, hfunction]
  cases hexport : v.regenerated.exportstr with
  | some str =>
      obtain ⟨cached, rfl⟩ := hcached str (regenerated_exportstr hexport)
      simp [readEntry_own]
  | none =>
      have hown : v.regenerated.mkEnvString value = v.name ++ equals :: value := by
        unfold mkEnvString
        rw [regenerated_attributes, hfunction, regenerated_name]
        rfl
      simp [hvalue, hown, readEntry_own]

theorem saysOf_eq_none {table : Option VarTable} (htable : table ∈ st.scopes)
    {v : ShellVariable} (hv : v ∈ table.getD []) :
    saysOf v.name v = none ↔ v.regenerated.exportstr = none ∧
      (v.isArray = true ∨ v.regenerated.value = none) := by
  have hshows : saysOf v.name v = none ↔ v.envString = none := by
    unfold saysOf
    cases hstr : v.envString with
    | none => simp
    | some str =>
        obtain ⟨value, rfl⟩ := st.envString_named htable hv hstr
        simp [readEntry_own]
  obtain ⟨-, hfunction, -⟩ := st.named table htable v hv
  rw [hshows]
  unfold envString
  dsimp only
  rw [isArray_regenerated, regenerated_attributes, hfunction]
  cases v.regenerated.exportstr with
  | some str => simp
  | none =>
      cases harray : v.isArray <;> simp

theorem showsInnermost_iff {name : CString} (hname : validIdentifier name = true) :
    st.ShowsInnermost name ↔ st.InnermostDecides name := by
  unfold ShowsInnermost InnermostDecides
  rw [entriesFor_exportEnv hname]
  cases hseen : (st.innermost name).filter isShown with
  | some v =>
      obtain ⟨hfirst, hshown⟩ := Option.filter_eq_some_iff.mp hseen
      obtain ⟨hvisible, harray⟩ := Bool.and_eq_true_iff.mp hshown
      obtain ⟨hseen, hexported⟩ := Bool.and_eq_true_iff.mp hvisible
      have hcandidate : v.exportCandidate = true := by
        unfold exportCandidate
        rw [hexported, hseen]
        rfl
      have hvname : v.name = name := by
        simpa using List.find?_some hfirst
      have hfound : st.firstCandidate name = some v := find?_filter_of_pos hfirst hcandidate
      obtain ⟨table, htable, hv⟩ := mem_scopes (List.mem_of_find?_eq_some hfirst)
      rw [hfound, Option.bind_some]
      refine exists_congr fun value => and_congr_right fun hvalue => ?_
      have hshows := saysOf_scalar htable hv (by simpa using harray) hvalue
      rw [hvname] at hshows
      cases st.importedAs name with
      | true => simp
      | false =>
          rw [← hshows, if_neg Bool.false_ne_true, if_neg Bool.false_ne_true]
          cases hsaid : saysOf name v with
          | some said => simp
          | none =>
              rw [← hvname] at hsaid
              obtain ⟨-, hbad | hbad⟩ := (saysOf_eq_none htable hv).mp hsaid
              · rw [hbad] at harray
                cases harray
              · rw [hvalue] at hbad
                cases hbad
  | none =>
      rw [List.append_eq_nil_iff, and_comm]
      refine and_congr_right fun _ => ?_
      cases st.importedAs name with
      | true => simp
      | false =>
          rw [if_neg Bool.false_ne_true, Option.toList_eq_nil_iff]
          cases hfound : st.firstCandidate name with
          | none => simp
          | some v =>
              have hvname : v.name = name := by
                simpa using List.find?_some hfound
              obtain ⟨table, htable, hv⟩ :=
                mem_scopes (List.mem_of_mem_filter (List.mem_of_find?_eq_some hfound))
              rw [Option.bind_some, ← hvname, saysOf_eq_none htable hv]
              simp

theorem exportEnv_showsInnermost_iff (st : ExportState) :
    (∀ name, validIdentifier name = true → st.ShowsInnermost name) ↔
      ∀ name, validIdentifier name = true → st.InnermostDecides name :=
  forall₂_congr fun _ hname => showsInnermost_iff hname

end ExportState

/-- The shell has set and exported `A`, called a function, and run `local A` in it. -/
def unsetLocalStore : VarStore :=
  let start : VarStore := { contexts := [], globalTable := [], variableContext := 0 }
  let assigned := (start.bindVariable (fun _ => false) [65] [49]).2
  ((assigned.exportVariable [65]).pushContext.makeLocalVariable [65]).2

def unsetLocalState : ExportState where
  store := unsetLocalStore
  temporaryEnv := none
  invalidEnv := none
  shellFunctions := none
  restricted := false
  named := by
    have hplain : ∀ table ∈ none :: unsetLocalStore.tables, ∀ v ∈ table.getD [],
        equals ∉ v.name ∧ v.attributes.function = false ∧ v.exportstr = none := by decide +kernel
    intro table htable v hv
    obtain ⟨hname, hfunction, hexport⟩ := hplain table htable v hv
    refine ⟨hname, hfunction, fun str hstr => ?_⟩
    rw [hexport] at hstr
    cases hstr
  foreign := by
    intro v hv
    cases hv
  passedOn := by
    intro v hv
    cases hv

/-- The local is the innermost instance and has no value, and the environment has the outer
one. -/
theorem exportEnv_unset_local :
    entriesFor [65] unsetLocalState.exportEnv = [[49]] ∧
      ¬∀ name, validIdentifier name = true → unsetLocalState.ShowsInnermost name := by
  have hentries : entriesFor [65] unsetLocalState.exportEnv = [[49]] := by decide +kernel
  have hhidden : (unsetLocalState.innermost [65]).filter ExportState.isShown = none := by
    decide +kernel
  refine ⟨hentries, fun h => ?_⟩
  have hshows := h [65] (by decide)
  unfold ExportState.ShowsInnermost at hshows
  rw [hhidden, hentries] at hshows
  cases hshows

end Rash
