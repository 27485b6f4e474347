import Rash.Lib.ScopeStack
import Rash.Vars.Lookups

/-!
# Variable scopes are a stack of maps

Opening and closing contexts, declaring locals, assigning and unsetting, with variables that
are neither namerefs nor readonly: every run of these calls answers as the stack of maps of
the contexts does.
-/

namespace Rash

open VarStore ScopeStack

/-- The value that an instance shows; a placeholder shows none. -/
def shown (v : ShellVariable) : Option CString := if v.attributes.invisible then none else v.value

/-! ## Tables -/

structure TableHolds (table : Option VarTable) (m : FiniteMap CString (Option CString)) :
    Prop where
  distinct : ((table.getD []).map (·.name)).Nodup
  contents : ∀ name, m.lookup name = (hashLookup name table).map shown

namespace TableHolds

variable {t : VarTable} {m : FiniteMap CString (Option CString)}

theorem modifyFirst (h : TableHolds (some t) m) {name : CString}
    {f : ShellVariable → ShellVariable} (hf : ∀ v, (f v).name = v.name) {x : Option CString}
    (hx : ∀ v, shown (f v) = x) (hin : (hashLookup name (some t)).isSome = true) :
    TableHolds (some (modifyFirst name f t)) (m.insert name x) := by
  constructor
  · rw [Option.getD_some, modifyFirst_names hf]
    exact h.distinct
  · intro k
    rw [FiniteMap.lookup_insert_if, hashLookup_modifyFirst hf]
    split_ifs with hk
    · obtain ⟨v, hv⟩ := Option.isSome_iff_exists.mp hin
      rw [hk, hv, Option.map_some, Option.map_some, hx]
    · exact h.contents k

theorem cons (h : TableHolds (some t) m) {v : ShellVariable}
    (hnew : hashLookup v.name (some t) = none) :
    TableHolds (some (v :: t)) (m.insert v.name (shown v)) := by
  constructor
  · exact List.nodup_cons.mpr ⟨hashLookup_eq_none.mp hnew, h.distinct⟩
  · intro k
    rw [FiniteMap.lookup_insert_if, hashLookup_cons]
    by_cases hk : k = v.name
    · rw [if_pos hk, if_pos hk.symm, Option.map_some]
    · rw [if_neg hk, if_neg (Ne.symm hk)]
      exact h.contents k

theorem removeFirst (h : TableHolds (some t) m) (name : CString) :
    TableHolds (some (removeFirst name t)) (m.erase name) := by
  constructor
  · exact h.distinct.sublist ((List.eraseP_sublist).map _)
  · intro k
    rw [FiniteMap.lookup_erase_if, hashLookup_removeFirst (t := t) h.distinct]
    split_ifs
    · rfl
    · exact h.contents k

/-- The placeholder takes the place of the local that was unset. -/
theorem hide (h : TableHolds (some t) m) (v : ShellVariable) :
    TableHolds (some (VarStore.putBack (hiddenLocal v) (VarStore.removeFirst v.name t)))
      (m.insert v.name none) := by
  have hname : (hiddenLocal v).name = v.name := rfl
  have hgone : hashLookup v.name (some (VarStore.removeFirst v.name t)) = none := by
    rw [hashLookup_removeFirst (t := t) h.distinct, if_pos rfl]
  have hany : (VarStore.removeFirst v.name t).any (·.name = (hiddenLocal v).name) = false := by
    rw [List.any_eq_false]
    intro w hw hbad
    apply hashLookup_eq_none.mp hgone
    exact List.mem_map.mpr ⟨w, hw, (of_decide_eq_true hbad).trans hname⟩
  unfold VarStore.putBack
  rw [hany, if_neg Bool.false_ne_true]
  have hcons := (h.removeFirst v.name).cons (v := hiddenLocal v) hgone
  have hmap : (m.erase v.name).insert (hiddenLocal v).name (shown (hiddenLocal v)) =
      m.insert v.name none := by
    apply Finmap.ext_lookup
    intro k
    rw [FiniteMap.lookup_insert_if, FiniteMap.lookup_insert_if, FiniteMap.lookup_erase_if, hname]
    split_ifs <;> rfl
  rw [hmap] at hcons
  exact hcons

end TableHolds

/-! ## Looking up -/

theorem lookupFrom_position {name : CString} {n : ℕ} {l : List (Option VarTable)}
    {st : ScopeStack CString CString} (h : List.Forall₂ TableHolds l st) :
    (lookupFrom name n l).map (·.level) = (position name st).map (n + ·) := by
  induction h generalizing n with
  | nil => rfl
  | cons hhead _ ih =>
      have hlook := hhead.contents name
      unfold lookupFrom ScopeStack.position
      rw [List.findIdx?_cons]
      cases hvar : hashLookup name _ with
      | some v =>
          rw [hvar] at hlook
          rw [hlook]
          rfl
      | none =>
          rw [hvar] at hlook
          rw [hlook]
          dsimp only
          rw [ih]
          unfold ScopeStack.position
          rw [Option.map_none, Option.isSome_none, if_neg Bool.false_ne_true, Option.map_map]
          apply congrArg (fun g => Option.map g _)
          funext i
          simp only [Function.comp_apply]
          omega


/-- An instance that the calls make: neither a nameref nor protected, and local to the function
of its context. -/
structure PlainAt (s : VarStore) (i : ℕ) (v : ShellVariable) : Prop where
  notNameref : v.attributes.nameref = false
  notReadonly : v.attributes.readonly = false
  notNoassign : v.attributes.noassign = false
  isLocal : v.attributes.localVar = decide (i < s.globalLevel)
  here : i < s.globalLevel → v.context = s.variableContext - i

/-- The contexts are those of the functions that are running and their tables hold the maps. -/
structure Scoped (s : VarStore) (st : ScopeStack CString CString) : Prop where
  tables : List.Forall₂ TableHolds s.tables st
  vars : ∀ (i : ℕ) (t : VarTable), s.tables[i]? = some (some t) → ∀ v ∈ t, PlainAt s i v
  contexts : ∀ (i : ℕ) (vc : VarContext), s.contexts[i]? = some vc →
    vc.funcenv = true ∧ vc.scope = s.variableContext - i
  depth : s.variableContext = s.globalLevel
  noInherit : s.localvarInherit = false
  noUnset : s.localvarUnset = false

namespace Scoped

variable {s : VarStore} {st : ScopeStack CString CString}

theorem length_eq (h : Scoped s st) : st.length = s.globalLevel + 1 :=
  h.tables.length_eq.symm.trans s.length_tables

theorem varLookup_level (h : Scoped s st) (name : CString) :
    (s.varLookup name).map (·.level) = position name st := by
  unfold varLookup
  rw [lookupFrom_position h.tables]
  simp

theorem plain (h : Scoped s st) {name : CString} {f : Found} (hf : s.varLookup name = some f) :
    PlainAt s f.level f.var := by
  obtain ⟨-, t, ht, hv⟩ := varLookup_some hf
  exact h.vars _ t ht _ (hashLookup_mem hv)

theorem findVariable_eq (h : Scoped s st) (name : CString) :
    s.findVariable name = s.varLookup name := by
  unfold findVariable
  cases hf : s.varLookup name with
  | none => rfl
  | some f =>
      dsimp only
      rw [(h.plain hf).notNameref, if_neg Bool.false_ne_true]

/-- What a reader finds is what the stack of maps has. -/
theorem findVariable_shown (h : Scoped s st) (name : CString) :
    (s.findVariable name).map (fun f => shown f.var) = find name st := by
  rw [h.findVariable_eq]
  unfold varLookup
  have hlists {n : ℕ} {l : List (Option VarTable)} {st : ScopeStack CString CString}
      (hl : List.Forall₂ TableHolds l st) :
      (lookupFrom name n l).map (fun f => shown f.var) = find name st := by
    induction hl generalizing n with
    | nil => rfl
    | cons hhead _ ih =>
        have hlook := hhead.contents name
        unfold lookupFrom ScopeStack.find
        rw [List.findSome?_cons, hlook]
        cases hashLookup name _ with
        | some v => rfl
        | none => exact ih
  exact hlists h.tables

/-- Tables that change at one level, with a map that changes the same way. -/
theorem change (h : Scoped s st) {i : ℕ} {t : VarTable} (ht : s.tables[i]? = some (some t))
    {f : VarTable → VarTable}
    {g : FiniteMap CString (Option CString) → FiniteMap CString (Option CString)}
    (hholds : ∀ m, TableHolds (some t) m → TableHolds (some (f t)) (g m))
    (hvars : ∀ v ∈ f t, PlainAt s i v) : Scoped (s.mapTable i f) (st.modify i g) := by
  have hi : i ≤ s.globalLevel := by
    have hlt : i < s.tables.length := (List.getElem?_eq_some_iff.mp ht).1
    rw [s.length_tables] at hlt
    omega
  have hlevel := s.globalLevel_mapTable i f
  have hfields : (s.mapTable i f).variableContext = s.variableContext ∧
      (s.mapTable i f).localvarInherit = s.localvarInherit ∧
      (s.mapTable i f).localvarUnset = s.localvarUnset := by
    unfold mapTable
    split_ifs <;> exact ⟨rfl, rfl, rfl⟩
  refine ⟨?_, ?_, ?_, ?_, ?_, ?_⟩
  · rw [tables_mapTable hi]
    apply h.tables.modify
    intro table m htable hold
    obtain rfl := Option.some_inj.mp (ht.symm.trans htable)
    exact hholds m hold
  · intro j u hu v hv
    rw [tables_mapTable hi, List.getElem?_modify] at hu
    have hplain : PlainAt s j v := by
      by_cases hij : i = j
      · subst hij
        rw [ht] at hu
        simp only [if_true, Option.map_eq_map, Option.map_some, Option.some_inj] at hu
        exact hvars v (hu ▸ hv)
      · simp only [if_neg hij, Option.map_eq_map, Option.map_id'] at hu
        exact h.vars j u hu v hv
    obtain ⟨hnameref, hreadonly, hnoassign, hlocal, hhere⟩ := hplain
    refine ⟨hnameref, hreadonly, hnoassign, ?_, ?_⟩
    · rw [hlevel]
      exact hlocal
    · rw [hlevel, hfields.1]
      exact hhere
  · intro j vc hvc
    rw [hfields.1]
    unfold mapTable at hvc
    split_ifs at hvc
    · rw [List.getElem?_modify] at hvc
      obtain ⟨old, hold, rfl⟩ := Option.map_eq_some_iff.mp hvc
      have hkept := h.contexts j old hold
      split_ifs
      · exact hkept
      · exact hkept
    · exact h.contexts j vc hvc
  · rw [hfields.1, hlevel]
    exact h.depth
  · rw [hfields.2.1]
    exact h.noInherit
  · rw [hfields.2.2]
    exact h.noUnset

/-! ## Opening and closing contexts -/

theorem pushContext (h : Scoped s st) : Scoped s.pushContext st.push := by
  have hlevel : s.pushContext.globalLevel = s.globalLevel + 1 := rfl
  have hcontext : s.pushContext.variableContext = s.variableContext + 1 := rfl
  have htables : s.pushContext.tables = none :: s.tables := rfl
  refine ⟨?_, ?_, ?_, ?_, h.noInherit, h.noUnset⟩
  · rw [htables]
    refine .cons ⟨List.nodup_nil, fun name => ?_⟩ h.tables
    rw [Finmap.lookup_empty]
    rfl
  · intro i t ht v hv
    rw [htables] at ht
    cases i with
    | zero => cases ht
    | succ i =>
        obtain ⟨hnameref, hreadonly, hnoassign, hlocal, hhere⟩ := h.vars i t ht v hv
        refine ⟨hnameref, hreadonly, hnoassign, ?_, ?_⟩
        · rw [hlocal, hlevel]
          simp
        · intro hi
          rw [hhere (by omega), hcontext]
          push_cast
          omega
  · intro i vc hvc
    cases i with
    | zero =>
        cases hvc
        exact ⟨rfl, by simp [VarStore.pushContext]⟩
    | succ i =>
        obtain ⟨hfun, hscope⟩ := h.contexts i vc hvc
        refine ⟨hfun, ?_⟩
        rw [hscope, hcontext]
        push_cast
        omega
  · rw [hcontext, hlevel, h.depth]
    push_cast
    rfl

theorem popContext (h : Scoped s st) (hopen : 0 < s.globalLevel) : Scoped s.popContext st.pop := by
  have hlength := h.length_eq
  cases hcontexts : s.contexts with
  | nil =>
      unfold VarStore.globalLevel at hopen
      rw [hcontexts] at hopen
      cases hopen
  | cons vc rest =>
      have hfun : vc.funcenv = true := (h.contexts 0 vc (by rw [hcontexts]; rfl)).1
      have hpop : s.popContext =
          { s with contexts := rest, variableContext := s.variableContext - 1 } := by
        unfold VarStore.popContext
        dsimp only
        rw [hcontexts]
        dsimp only
        rw [if_pos hfun]
      have htables : s.tables = vc.table :: s.popContext.tables := by
        rw [hpop]
        unfold VarStore.tables
        rw [hcontexts]
        rfl
      have hlevel : s.globalLevel = s.popContext.globalLevel + 1 := by
        rw [hpop]
        unfold VarStore.globalLevel
        rw [hcontexts]
        rfl
      have hcontext : s.popContext.variableContext = s.variableContext - 1 := by rw [hpop]
      have hst : st.pop = st.tail := if_pos (by omega)
      rw [hst]
      refine ⟨?_, ?_, ?_, ?_, ?_, ?_⟩
      · have hall := h.tables
        rw [htables] at hall
        cases hall with
        | cons _ hrest => exact hrest
      · intro i t ht v hv
        have ht' : s.tables[i + 1]? = some (some t) := by
          rw [htables]
          exact ht
        obtain ⟨hnameref, hreadonly, hnoassign, hlocal, hhere⟩ := h.vars (i + 1) t ht' v hv
        refine ⟨hnameref, hreadonly, hnoassign, ?_, ?_⟩
        · rw [hlocal, hlevel]
          simp
        · intro hi
          rw [hhere (by omega), hcontext]
          push_cast
          omega
      · intro i vc' hvc'
        have hkept : s.contexts[i + 1]? = some vc' := by
          rw [hcontexts]
          rw [hpop] at hvc'
          exact hvc'
        obtain ⟨hfun', hscope⟩ := h.contexts (i + 1) vc' hkept
        refine ⟨hfun', ?_⟩
        rw [hscope, hcontext]
        push_cast
        omega
      · rw [hcontext, h.depth, hlevel]
        push_cast
        omega
      · rw [hpop]
        exact h.noInherit
      · rw [hpop]
        exact h.noUnset

/-! ## Assigning -/

variable (validArrayReference : CString → Bool)

theorem bindFrom_plain {name : CString} {contexts : List VarContext}
    (hfun : ∀ vc ∈ contexts, vc.funcenv = true)
    (hplain : ∀ vc ∈ contexts, ∀ v, hashLookup name vc.table = some v →
      v.attributes.nameref = false) (value : CString) (level : ℕ) :
    s.bindFrom validArrayReference name value level contexts =
      s.bindVariableInternal validArrayReference
        (((lookupFrom name level (contexts.map (·.table))).map (·.level)).getD s.globalLevel)
        name value := by
  induction contexts generalizing level with
  | nil => rfl
  | cons vc rest ih =>
      unfold bindFrom
      rw [hfun vc List.mem_cons_self, Bool.true_or, if_pos rfl, List.map_cons, lookupFrom]
      cases hv : hashLookup name vc.table with
      | none =>
          exact ih (fun vc hvc => hfun vc (List.mem_cons_of_mem _ hvc))
            (fun vc hvc => hplain vc (List.mem_cons_of_mem _ hvc)) (level + 1)
      | some v =>
          rw [Option.bind_some]
          unfold bindFound
          rw [hplain vc List.mem_cons_self v hv, hashLookup_name hv]
          rfl

theorem bindVariable_eq (h : Scoped s st) (name value : CString) :
    s.bindVariable validArrayReference name value =
      s.bindVariableInternal validArrayReference
        (((s.varLookup name).map (·.level)).getD s.globalLevel) name value := by
  have hlevel : ((lookupFrom name 0 (s.contexts.map (·.table))).map (·.level)).getD s.globalLevel =
      ((s.varLookup name).map (·.level)).getD s.globalLevel := by
    rw [varLookup_split]
    cases lookupFrom name 0 (s.contexts.map (·.table)) with
    | some f => rfl
    | none =>
        cases s.instanceAt s.globalLevel name with
        | none => rfl
        | some v => rfl
  unfold bindVariable
  rw [bindFrom_plain, hlevel]
  · intro vc hvc
    obtain ⟨i, hi⟩ := List.mem_iff_getElem?.mp hvc
    exact (h.contexts i vc hi).1
  · intro vc hvc v hv
    obtain ⟨i, hi⟩ := List.mem_iff_getElem?.mp hvc
    have hlt : i < s.globalLevel := (List.getElem?_eq_some_iff.mp hi).1
    cases ht : vc.table with
    | none =>
        rw [ht] at hv
        cases hv
    | some t =>
        rw [ht] at hv
        have htable : s.tables[i]? = some (some t) := by
          rw [tables_of_lt hlt, hi, Option.map_some, ht]
        exact (h.vars i t htable v (hashLookup_mem hv)).notNameref

theorem bindVariable (h : Scoped s st) (name value : CString) :
    (s.bindVariable validArrayReference name value).1.map (fun f => shown f.var) =
        some (some value) ∧
      Scoped (s.bindVariable validArrayReference name value).2 (st.assign name value) := by
  rw [h.bindVariable_eq]
  have hposition := h.varLookup_level name
  unfold ScopeStack.assign
  rw [← hposition]
  cases hf : s.varLookup name with
  | none =>
      have hnone : s.instanceAt s.globalLevel name = none := by
        rw [varLookup_split] at hf
        exact Option.map_eq_none_iff.mp (Option.or_eq_none_iff.mp hf).2
      have hlast : st.length - 1 = s.globalLevel := by
        rw [h.length_eq]
        rfl
      rw [Option.map_none, Option.getD_none, Option.getD_none, hlast]
      unfold bindVariableInternal
      rw [hnone]
      refine ⟨rfl, ?_⟩
      refine h.change s.tables_global ?_ ?_
      · intro m hm
        rw [instanceAt_of_tables s.tables_global] at hnone
        exact hm.cons hnone
      · intro v hv
        rcases List.mem_cons.mp hv with rfl | hv
        · exact ⟨rfl, rfl, rfl, by simp [markModified], fun hlt => absurd hlt (lt_irrefl _)⟩
        · exact h.vars _ _ s.tables_global v hv
  | some f =>
      obtain ⟨-, t, ht, hv⟩ := varLookup_some hf
      have hplain := h.plain hf
      have hallowed : assignDisallowed f.var = false := by
        unfold assignDisallowed
        rw [hplain.notReadonly, hplain.notNoassign]
        rfl
      have hname : f.var.name = name := hashLookup_name hv
      rw [Option.map_some, Option.getD_some, Option.getD_some]
      unfold bindVariableInternal bindEntry assignValue
      rw [instanceAt_varLookup hf]
      dsimp only
      rw [hplain.notNameref, Bool.false_and, Bool.false_and, if_neg Bool.false_ne_true,
        if_neg Bool.false_ne_true, hallowed, if_neg Bool.false_ne_true, hname]
      refine ⟨rfl, ?_⟩
      refine h.change ht ?_ ?_
      · intro m hm
        refine hm.modifyFirst (f := s.assigned value) (x := some value) ?_ ?_ ?_
        · exact fun _ => rfl
        · exact fun _ => rfl
        · rw [hv]
          rfl
      · intro v hv
        rcases mem_modifyFirst hv with hv | ⟨w, hw, rfl⟩
        · exact h.vars _ t ht v hv
        · obtain ⟨hnameref, hreadonly, hnoassign, hlocal, hhere⟩ := h.vars _ t ht w hw
          exact ⟨hnameref, hreadonly, hnoassign, hlocal, hhere⟩

/-! ## Unsetting -/

theorem makunbound (h : Scoped s st) (name : CString) :
    (s.makunbound name).1 = (position name st).isSome ∧
      Scoped (s.makunbound name).2 (st.unset name) := by
  have hposition := h.varLookup_level name
  unfold VarStore.makunbound ScopeStack.unset
  rw [← hposition]
  cases hf : s.varLookup name with
  | none => exact ⟨rfl, h⟩
  | some f =>
      obtain ⟨hle, t, ht, hv⟩ := varLookup_some hf
      have hplain := h.plain hf
      have hname : f.var.name = name := hashLookup_name hv
      have hhidden : (f.var.attributes.localVar && (f.var.context == s.variableContext ||
          s.localvarUnset && decide (f.var.context < s.variableContext))) = true ↔
          f.level = 0 ∧ 1 < st.length := by
        rw [h.noUnset, hplain.isLocal, h.length_eq]
        simp only [Bool.false_and, Bool.or_false, Bool.and_eq_true, decide_eq_true_eq, beq_iff_eq]
        constructor
        · rintro ⟨hlt, hcontext⟩
          rw [hplain.here hlt] at hcontext
          omega
        · rintro ⟨hzero, hlt⟩
          have hlt' : f.level < s.globalLevel := by omega
          rw [hplain.here hlt', hzero]
          exact ⟨by omega, by simp⟩
      dsimp only
      rw [Option.map_some]
      refine ⟨by split_ifs <;> rfl, ?_⟩
      dsimp only
      by_cases hlocal : f.level = 0 ∧ 1 < st.length
      · rw [if_pos (hhidden.mpr hlocal), if_pos hlocal, mapTable_mapTable, ← hlocal.1]
        refine h.change ht ?_ ?_
        · intro m hm
          have := hm.hide f.var
          rw [hname] at this
          exact this
        · intro v hv
          rcases mem_putBack hv with rfl | hv
          · refine ⟨rfl, rfl, rfl, ?_, hplain.here⟩
            rw [← hplain.isLocal]
            exact (Bool.and_eq_true_iff.mp (hhidden.mpr hlocal)).1.symm
          · exact h.vars _ t ht v (List.mem_of_mem_eraseP hv)
      · rw [if_neg fun hbad => hlocal (hhidden.mp hbad), if_neg hlocal]
        refine h.change ht ?_ ?_
        · intro m hm
          exact hm.removeFirst name
        · intro v hv
          exact h.vars _ t ht v (List.mem_of_mem_eraseP hv)

/-! ## Declaring locals -/

theorem functionLevel_eq (h : Scoped s st) :
    s.functionLevel = if s.globalLevel = 0 then none else some 0 := by
  unfold functionLevel
  cases hcontexts : s.contexts with
  | nil => rw [if_pos (by simp [VarStore.globalLevel, hcontexts]), List.findIdx?_nil]
  | cons vc rest =>
      obtain ⟨hfun, hscope⟩ := h.contexts 0 vc (by rw [hcontexts]; rfl)
      have hhere : (vc.funcenv && vc.scope == s.variableContext) = true := by
        rw [hfun, hscope]
        simp
      rw [if_neg (by simp [VarStore.globalLevel, hcontexts]), List.findIdx?_cons, hhere]
      rfl

theorem createTable (h : Scoped s st) (hopen : 0 < s.globalLevel) :
    Scoped (s.createTable 0) st ∧
      ∃ t, (s.createTable 0).tables[0]? = some (some t) := by
  have hlevel : (s.createTable 0).globalLevel = s.globalLevel := List.length_modify ..
  have htables : (s.createTable 0).tables = s.tables.modify 0 fun t => some (t.getD []) := by
    unfold VarStore.createTable VarStore.tables
    rw [List.modify_append_of_lt (by simpa [VarStore.globalLevel] using hopen)]
    apply congrArg (· ++ _)
    apply List.map_modify_comm
    intro vc
    rfl
  refine ⟨⟨?_, ?_, ?_, ?_, h.noInherit, h.noUnset⟩, ?_⟩
  · have hsame := h.tables.modify (i := 0) (f := fun t => some (t.getD [])) (g := id) ?_
    · rw [List.modify_id] at hsame
      rw [htables]
      exact hsame
    · intro table m _ hm
      exact ⟨hm.distinct, hm.contents⟩
  · intro i t ht v hv
    rw [htables, List.getElem?_modify] at ht
    obtain ⟨table, htable, hchanged⟩ := Option.map_eq_some_iff.mp ht
    have hold : ∃ u, s.tables[i]? = some (some u) ∧ v ∈ u := by
      cases table with
      | some u =>
          refine ⟨u, htable, ?_⟩
          split_ifs at hchanged
          · obtain rfl := Option.some_inj.mp hchanged
            exact hv
          · obtain rfl := Option.some_inj.mp hchanged
            exact hv
      | none =>
          split_ifs at hchanged
          obtain rfl := Option.some_inj.mp hchanged
          cases hv
    obtain ⟨u, hu, hvu⟩ := hold
    obtain ⟨hnameref, hreadonly, hnoassign, hlocal, hhere⟩ := h.vars i u hu v hvu
    refine ⟨hnameref, hreadonly, hnoassign, ?_, ?_⟩
    · rw [hlevel]
      exact hlocal
    · rw [hlevel]
      exact hhere
  · intro i vc hvc
    unfold VarStore.createTable at hvc
    rw [List.getElem?_modify] at hvc
    obtain ⟨old, hold, rfl⟩ := Option.map_eq_some_iff.mp hvc
    have hkept := h.contexts i old hold
    split_ifs
    · exact hkept
    · exact hkept
  · rw [hlevel]
    exact h.depth
  · rw [htables, List.getElem?_modify_eq]
    have hlt : 0 < s.tables.length := by
      rw [s.length_tables]
      omega
    rw [List.getElem?_eq_getElem hlt]
    exact ⟨_, rfl⟩

/-- The instance in the innermost scope, if it has the name already. -/
theorem isLocalHere_iff (h : Scoped s st) (hopen : 0 < s.globalLevel) (name : CString) :
    (s.varLookup name).any s.isLocalHere = true ↔ position name st = some 0 := by
  rw [← h.varLookup_level]
  cases hf : s.varLookup name with
  | none => simp
  | some f =>
      have hplain := h.plain hf
      obtain ⟨hle, -⟩ := varLookup_some hf
      unfold isLocalHere
      rw [Option.any_some, Option.map_some, Option.some_inj, hplain.isLocal,
        Bool.and_eq_true, decide_eq_true_eq, beq_iff_eq]
      constructor
      · rintro ⟨hlt, hcontext⟩
        rw [hplain.here hlt] at hcontext
        omega
      · intro hzero
        have hlt : f.level < s.globalLevel := by omega
        rw [hplain.here hlt, hzero]
        exact ⟨by omega, by simp⟩

theorem head_lookup (h : Scoped s st) (name : CString) :
    st.head?.bind (·.lookup name) =
      (hashLookup name (s.tables[0]?.getD none)).map shown := by
  have hall := h.tables
  cases hst : st with
  | nil =>
      rw [hst] at hall
      have := hall.length_eq
      rw [s.length_tables] at this
      cases this
  | cons m rest =>
      rw [hst] at hall
      cases htables : s.tables with
      | nil =>
          rw [htables] at hall
          cases hall
      | cons table tables =>
          rw [htables] at hall
          cases hall with
          | cons hhead _ => exact hhead.contents name

theorem position_eq_zero (name : CString) :
    position name st = some 0 ↔ (st.head?.bind (·.lookup name)).isSome = true := by
  cases st with
  | nil => simp [ScopeStack.position]
  | cons m rest =>
      unfold ScopeStack.position
      rw [List.findIdx?_cons, List.head?_cons, Option.bind_some]
      cases (m.lookup name).isSome <;> simp

/-- A plain name is declared by itself. -/
theorem makeLocalVariable_eq (h : Scoped s st) (name : CString) :
    s.makeLocalVariable name =
      if (s.varLookup name).any s.isLocalHere then (s.varLookup name, s)
      else if s.globalLevel = 0 then (none, s)
      else
        let entry := (s.createTable 0).localInstance name (s.varLookup name)
        (some ⟨0, entry⟩, (s.createTable 0).mapTable 0 (entry :: ·)) := by
  have hnoref : (s.varLookup name).filter (·.var.attributes.nameref) = none := by
    rw [Option.filter_eq_none_iff]
    intro f hf
    rw [(h.plain hf).notNameref]
    exact Bool.false_ne_true
  have hallowed : ((s.varLookup name).any fun f =>
      f.var.attributes.noassign || f.var.attributes.readonly && f.var.context == 0) = false := by
    cases hf : s.varLookup name with
    | none => rfl
    | some f =>
        rw [Option.any_some, (h.plain hf).notNoassign, (h.plain hf).notReadonly]
        rfl
  unfold VarStore.makeLocalVariable
  rw [hnoref, h.findVariable_eq, h.functionLevel_eq]
  dsimp only
  rw [Option.isNone_none, Bool.true_and, Option.any_none, if_neg Bool.false_ne_true,
    Option.none_or]
  by_cases hhere : (s.varLookup name).any s.isLocalHere = true
  · rw [if_pos hhere, if_pos hhere]
  · rw [if_neg hhere, if_neg hhere]
    by_cases hzero : s.globalLevel = 0
    · rw [if_pos hzero, if_pos hzero]
    · rw [if_neg hzero, if_neg hzero]
      dsimp only
      rw [hallowed, if_neg Bool.false_ne_true]
      rfl

theorem localInstance_plain (h : Scoped s st) (name : CString) (old : Option Found) :
    (s.localInstance name old).attributes.nameref = false ∧
      (s.localInstance name old).attributes.readonly = false ∧
      (s.localInstance name old).attributes.noassign = false ∧
      (s.localInstance name old).attributes.localVar = true ∧
      shown (s.localInstance name old) = none := by
  unfold localInstance
  rw [h.noInherit]
  exact ⟨rfl, rfl, rfl, rfl, rfl⟩

theorem makeLocalVariable (h : Scoped s st) (name : CString) :
    (s.makeLocalVariable name).1.map (fun f => shown f.var) =
        (if 1 < st.length then some ((st.head?.bind (·.lookup name)).getD none) else none) ∧
      Scoped (s.makeLocalVariable name).2 (st.declare name) := by
  have hlength := h.length_eq
  have hhead := h.head_lookup name
  rw [h.makeLocalVariable_eq]
  unfold ScopeStack.declare
  by_cases hopen : 0 < s.globalLevel
  · have hmany : 1 < st.length := by omega
    rw [if_pos hmany]
    by_cases hhere : position name st = some 0
    · have hlevel := h.varLookup_level name
      rw [hhere] at hlevel
      obtain ⟨f, hf, hzero⟩ := Option.map_eq_some_iff.mp hlevel
      obtain ⟨-, t, ht, hv⟩ := varLookup_some hf
      rw [if_pos ((h.isLocalHere_iff hopen name).mpr hhere), if_neg fun hbad => hbad.2 hhere]
      refine ⟨?_, h⟩
      rw [hzero] at ht
      rw [hhead, ht, Option.getD_some, hv, hf]
      rfl
    · rw [if_neg (mt (h.isLocalHere_iff hopen name).mp hhere), if_neg (by omega),
        if_pos ⟨hmany, hhere⟩]
      obtain ⟨hcreated, t, ht⟩ := h.createTable hopen
      obtain ⟨hnameref, hreadonly, hnoassign, hlocal, hshown⟩ :=
        hcreated.localInstance_plain name (s.varLookup name)
      have hnew := mt (position_eq_zero name).mpr hhere
      have hold := hcreated.head_lookup name
      rw [ht, Option.getD_some] at hold
      rw [Bool.not_eq_true, Option.isSome_eq_false_iff, Option.isNone_iff_eq_none] at hnew
      dsimp only
      refine ⟨?_, ?_⟩
      · rw [hnew, Option.map_some, hshown]
        rfl
      · refine hcreated.change ht ?_ ?_
        · intro m hm
          have hcons := hm.cons (v := (s.createTable 0).localInstance name (s.varLookup name))
            (Option.map_eq_none_iff.mp (hold.symm.trans hnew))
          rw [hshown] at hcons
          exact hcons
        · intro v hv
          rcases List.mem_cons.mp hv with rfl | hv
          · have hlevel : (s.createTable 0).globalLevel = s.globalLevel := List.length_modify ..
            refine ⟨hnameref, hreadonly, hnoassign, ?_, ?_⟩
            · rw [hlocal, hlevel]
              simpa using hopen
            · intro _
              simp [localInstance]
          · exact hcreated.vars 0 t ht v hv
  · have hone : ¬1 < st.length := by omega
    have hnone : (s.varLookup name).any s.isLocalHere = false := by
      cases hf : s.varLookup name with
      | none => rfl
      | some f =>
          rw [Option.any_some]
          unfold isLocalHere
          rw [(h.plain hf).isLocal]
          simp only [Bool.and_eq_false_imp, decide_eq_true_eq]
          intro hlt
          omega
    rw [hnone, if_neg Bool.false_ne_true, if_pos (by omega), if_neg hone,
      if_neg fun hbad => hone hbad.1]
    exact ⟨rfl, h⟩

/-- What the map at a level holds is what the table at the level shows. -/
theorem slot_eq (h : Scoped s st) {level : ℕ} (hlevel : level ≤ s.globalLevel)
    (name : CString) :
    slot st level name = (s.instanceAt (s.globalLevel - level) name).map shown := by
  have hlength := h.length_eq
  rw [ScopeCall.slot_eq (by omega), hlength, Nat.add_sub_cancel]
  have hlt : s.globalLevel - level < s.tables.length := by
    rw [s.length_tables]
    omega
  have hlt' : s.globalLevel - level < st.length := by omega
  unfold instanceAt
  rw [List.getElem?_eq_getElem hlt, List.getElem?_eq_getElem hlt', Option.getD_some,
    Option.bind_some]
  exact (h.tables.get hlt hlt').contents name

end Scoped

/-! ## Runs -/

/-- What a call returns: nothing, a variable with what it shows, or whether one was found. -/
inductive ScopeAnswer
  | done
  | variable (value : Option (Option CString))
  | found (b : Bool)
  deriving DecidableEq

section Runs

variable (validArrayReference : CString → Bool)

def scopeCall (s : VarStore) : ScopeCall CString CString → ScopeAnswer × VarStore
  | .push => (.done, s.pushContext)
  | .pop => (.done, s.popContext)
  | .declare name =>
      let (v, s) := s.makeLocalVariable name
      (.variable (v.map fun f => shown f.var), s)
  | .assign name value =>
      let (v, s) := s.bindVariable validArrayReference name value
      (.variable (v.map fun f => shown f.var), s)
  | .unset name =>
      let (b, s) := s.unbindVariable name
      (.found b, s)

/-- What the stack of maps answers. -/
def stackAnswer (st : ScopeStack CString CString) : ScopeCall CString CString → ScopeAnswer
  | .push => .done
  | .pop => .done
  | .declare name =>
      .variable (if 1 < st.length then some ((st.head?.bind (·.lookup name)).getD none) else none)
  | .assign _ value => .variable (some (some value))
  | .unset name => .found (position name st).isSome

def runStore (s : VarStore) : List (ScopeCall CString CString) → List ScopeAnswer × VarStore
  | [] => ([], s)
  | call :: rest =>
      let (answer, s) := scopeCall validArrayReference s call
      let (answers, s) := runStore s rest
      (answer :: answers, s)

def stackAnswers (st : ScopeStack CString CString) :
    List (ScopeCall CString CString) → List ScopeAnswer
  | [] => []
  | call :: rest => stackAnswer st call :: stackAnswers (call.run st) rest

/-- The instance that an assignment or an unset resolves to; levels count from the global
context. -/
def resolvedTo (s : VarStore) : ScopeCall CString CString → Option (ℕ × CString)
  | .assign name _ =>
      some (s.globalLevel - ((s.varLookup name).map (·.level)).getD s.globalLevel, name)
  | .unset name => (s.varLookup name).map fun f => (s.globalLevel - f.level, name)
  | _ => none

def resolvedIn (s : VarStore) : List (ScopeCall CString CString) → List (ℕ × CString)
  | [] => []
  | call :: rest =>
      (resolvedTo s call).toList ++ resolvedIn (scopeCall validArrayReference s call).2 rest

variable {s : VarStore} {st : ScopeStack CString CString}

theorem Scoped.unbindVariable_eq (h : Scoped s st) (name : CString) :
    s.unbindVariable name = s.makunbound name := by
  unfold unbindVariable
  cases hf : s.varLookup name with
  | none => rfl
  | some f =>
      dsimp only
      rw [(h.plain hf).notNameref, if_neg Bool.false_ne_true]

theorem Scoped.resolvedTo_eq (h : Scoped s st) (call : ScopeCall CString CString) :
    resolvedTo s call = call.resolved st := by
  have hlast : st.length - 1 = s.globalLevel := by
    rw [h.length_eq]
    rfl
  cases call with
  | push => rfl
  | pop => rfl
  | declare name => rfl
  | assign name value =>
      simp only [resolvedTo, ScopeCall.resolved]
      rw [h.varLookup_level, hlast]
  | unset name =>
      simp only [resolvedTo, ScopeCall.resolved]
      rw [← h.varLookup_level, hlast, Option.map_map]
      rfl

theorem Scoped.call (h : Scoped s st) (call : ScopeCall CString CString)
    (hopen : call = .pop → 0 < s.globalLevel) :
    (scopeCall validArrayReference s call).1 = stackAnswer st call ∧
      Scoped (scopeCall validArrayReference s call).2 (call.run st) := by
  cases call with
  | push => exact ⟨rfl, h.pushContext⟩
  | pop => exact ⟨rfl, h.popContext (hopen rfl)⟩
  | declare name =>
      obtain ⟨hanswer, hnext⟩ := h.makeLocalVariable name
      exact ⟨congrArg ScopeAnswer.variable hanswer, hnext⟩
  | assign name value =>
      obtain ⟨hanswer, hnext⟩ := h.bindVariable validArrayReference name value
      exact ⟨congrArg ScopeAnswer.variable hanswer, hnext⟩
  | unset name =>
      obtain ⟨hanswer, hnext⟩ := h.makunbound name
      simp only [scopeCall]
      rw [h.unbindVariable_eq]
      exact ⟨congrArg ScopeAnswer.found hanswer, hnext⟩

theorem Scoped.runStore (h : Scoped s st) {calls : List (ScopeCall CString CString)} {n n' : ℕ}
    (hcalls : ScopeCall.depthAfter n calls = some n') (hn : n ≤ s.globalLevel) :
    (runStore validArrayReference s calls).1 = stackAnswers st calls ∧
      Scoped (runStore validArrayReference s calls).2 (ScopeCall.runAll st calls) ∧
      resolvedIn validArrayReference s calls = ScopeCall.touched st calls := by
  induction calls generalizing n s st with
  | nil => exact ⟨rfl, h, rfl⟩
  | cons call rest ih =>
      have hopen : call = .pop → 0 < s.globalLevel := by
        rintro rfl
        cases n with
        | zero => cases hcalls
        | succ n => omega
      obtain ⟨hanswer, hnext⟩ := h.call validArrayReference call hopen
      have hlength : st.length = s.globalLevel - n + 1 + n := by
        rw [h.length_eq]
        omega
      obtain ⟨m, hm, hnextLength⟩ := ScopeCall.depthAfter_cons hcalls hlength
      have hle : m ≤ (scopeCall validArrayReference s call).2.globalLevel := by
        rw [hnext.length_eq] at hnextLength
        omega
      obtain ⟨hanswers, hlast, hresolved⟩ := ih hnext hm hle
      refine ⟨?_, hlast, ?_⟩
      · simp only [Rash.runStore, stackAnswers]
        rw [hanswer, hanswers]
      · unfold resolvedIn ScopeCall.touched
        rw [h.resolvedTo_eq, hresolved]

/-- A function that closes what it opens leaves the contexts below as they were, but for what
its assignments and unsets resolved to. -/
theorem Scoped.body_restores (h : Scoped s st) {body : List (ScopeCall CString CString)}
    (hbody : ScopeCall.depthAfter 0 body = some 0) :
    (Rash.runStore validArrayReference s.pushContext body).2.popContext.globalLevel =
        s.globalLevel ∧
      ∀ level name, level ≤ s.globalLevel →
        (level, name) ∉ resolvedIn validArrayReference s.pushContext body →
        ((Rash.runStore validArrayReference s.pushContext body).2.popContext.instanceAt
          ((Rash.runStore validArrayReference s.pushContext body).2.popContext.globalLevel - level)
          name).map shown =
          (s.instanceAt (s.globalLevel - level) name).map shown := by
  have hlength := h.length_eq
  have hpushed : st.push.length = st.length + 1 + 0 := rfl
  obtain ⟨-, hinner, hresolved⟩ := h.pushContext.runStore validArrayReference hbody (Nat.zero_le _)
  have hlast := ScopeCall.length_runAll hbody hpushed
  have hinnerLevel := hinner.length_eq
  have hpopped := hinner.popContext (by omega)
  have hlevel := hpopped.length_eq
  have hpop : (ScopeCall.runAll st.push body).pop.length = st.length := by
    unfold ScopeStack.pop
    rw [if_pos (by omega), List.length_tail]
    omega
  refine ⟨by omega, fun level name hle hnot => ?_⟩
  rw [hresolved] at hnot
  rw [← hpopped.slot_eq (by omega), ← h.slot_eq hle]
  exact (ScopeCall.pop_restores hbody (by omega) hnot).2

/-- A table of global variables, each once, neither namerefs nor protected nor local. -/
structure PlainGlobals where
  vars : VarTable
  distinct : (vars.map (·.name)).Nodup
  plain : ∀ v ∈ vars, v.attributes.nameref = false ∧ v.attributes.readonly = false ∧
    v.attributes.noassign = false ∧ v.attributes.localVar = false

/-- The shell before it calls a function. -/
def startStore (globals : PlainGlobals) (markModifiedVars : Bool) : VarStore where
  contexts := []
  globalTable := globals.vars
  variableContext := 0
  markModifiedVars := markModifiedVars

def startStack (globals : PlainGlobals) : ScopeStack CString CString :=
  [FiniteMap.tabulate (globals.vars.map (·.name)).toFinset fun name =>
    (hashLookup name (some globals.vars)).map shown]

theorem startStore_scoped (globals : PlainGlobals) (markModifiedVars : Bool) :
    Scoped (startStore globals markModifiedVars) (startStack globals) := by
  refine ⟨?_, ?_, ?_, rfl, rfl, rfl⟩
  · refine .cons ⟨globals.distinct, fun name => ?_⟩ .nil
    rw [FiniteMap.lookup_tabulate]
    split_ifs with hmem
    · rfl
    · have hnone : hashLookup name (some globals.vars) = none :=
        hashLookup_eq_none.mpr (by simpa using hmem)
      exact (congrArg (Option.map shown) hnone).symm
  · intro i t ht v hv
    cases i with
    | zero =>
        obtain rfl : globals.vars = t := Option.some_inj.mp (Option.some_inj.mp ht)
        obtain ⟨hnameref, hreadonly, hnoassign, hlocal⟩ := globals.plain v hv
        exact ⟨hnameref, hreadonly, hnoassign, by rw [hlocal]; rfl, fun hlt => by cases hlt⟩
    | succ i => cases ht
  · intro i vc hvc
    cases hvc

/-- Every well-bracketed run answers as the stack of maps does and leaves what it has, each name
at most once in each table; and from every state of such a run, a call of a function, with a
body that closes what it opens, leaves every instance of the contexts below as it was that no
assignment or unset of the body resolved to. -/
theorem scopes_refine_stack (globals : PlainGlobals) (markModifiedVars : Bool)
    (calls : List (ScopeCall CString CString)) (hcalls : (ScopeCall.depthAfter 0 calls).isSome) :
    (Rash.runStore validArrayReference (startStore globals markModifiedVars) calls).1 =
        stackAnswers (startStack globals) calls ∧
      Scoped (Rash.runStore validArrayReference (startStore globals markModifiedVars) calls).2
        (ScopeCall.runAll (startStack globals) calls) ∧
      (∀ name, ((Rash.runStore validArrayReference (startStore globals markModifiedVars)
        calls).2.findVariable name).map (fun f => shown f.var) =
          find name (ScopeCall.runAll (startStack globals) calls)) ∧
      ∀ s, s = (Rash.runStore validArrayReference (startStore globals markModifiedVars) calls).2 →
        ∀ body, ScopeCall.depthAfter 0 body = some 0 →
        ∀ s', s' = (Rash.runStore validArrayReference s.pushContext body).2.popContext →
          s'.globalLevel = s.globalLevel ∧
          ∀ level name, level ≤ s.globalLevel →
            (level, name) ∉ resolvedIn validArrayReference s.pushContext body →
            (s'.instanceAt (s'.globalLevel - level) name).map shown =
              (s.instanceAt (s.globalLevel - level) name).map shown := by
  obtain ⟨n, hn⟩ := Option.isSome_iff_exists.mp hcalls
  obtain ⟨hanswers, hscoped, -⟩ :=
    (startStore_scoped globals markModifiedVars).runStore validArrayReference hn (Nat.zero_le _)
  refine ⟨hanswers, hscoped, hscoped.findVariable_shown, ?_⟩
  rintro s rfl body hbody s' rfl
  exact hscoped.body_restores validArrayReference hbody

end Runs

/-- The global `x` has the value `1`. -/
def oneGlobal : PlainGlobals where
  vars := [{ name := [120], value := some [49] }]
  distinct := by decide
  plain := by decide

theorem scopes_refine_stack_call :
    (runStore (fun _ => false) (startStore oneGlobal false)
        [.push, .declare [120], .assign [120] [51], .unset [120], .pop]).1 =
      stackAnswers (startStack oneGlobal)
        [.push, .declare [120], .assign [120] [51], .unset [120], .pop] :=
  (scopes_refine_stack (fun _ => false) oneGlobal false
    [.push, .declare [120], .assign [120] [51], .unset [120], .pop] rfl).1

end Rash
