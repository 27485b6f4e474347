import Mathlib.Data.List.Nodup
import Mathlib.Tactic.SplitIfs
import Rash.Lib.ListModify
import Rash.Vars.Variables

/-!
# Lookups in tables and in the chain of contexts

What the searches of a table and of the chain find, and what they find after a table has
changed.
-/

namespace Rash

open VarStore

/-! ## Tables -/

theorem hashLookup_name {name : CString} {table : Option VarTable} {v : ShellVariable}
    (h : hashLookup name table = some v) : v.name = name := by
  simpa using List.find?_some h

theorem hashLookup_mem {name : CString} {table : Option VarTable} {v : ShellVariable}
    (h : hashLookup name table = some v) : v ∈ table.getD [] := List.mem_of_find?_eq_some h

theorem hashLookup_cons (name : CString) (v : ShellVariable) (t : VarTable) :
    hashLookup name (some (v :: t)) =
      if v.name = name then some v else hashLookup name (some t) := by
  unfold hashLookup
  rw [Option.getD_some, Option.getD_some, List.find?_cons]
  by_cases h : v.name = name <;> simp [h]

theorem hashLookup_eq_none {name : CString} {t : VarTable} :
    hashLookup name (some t) = none ↔ name ∉ t.map (·.name) := by
  simp [hashLookup]

theorem modifyFirst_names {name : CString} {f : ShellVariable → ShellVariable}
    (hf : ∀ v, (f v).name = v.name) (t : VarTable) :
    (modifyFirst name f t).map (·.name) = t.map (·.name) := by
  induction t with
  | nil => rfl
  | cons v t ih =>
      unfold modifyFirst
      split_ifs
      · rw [List.map_cons, List.map_cons, hf]
      · rw [List.map_cons, List.map_cons, ih]

theorem hashLookup_modifyFirst {name : CString} {f : ShellVariable → ShellVariable}
    (hf : ∀ v, (f v).name = v.name) (t : VarTable) (k : CString) :
    hashLookup k (some (modifyFirst name f t)) =
      if k = name then (hashLookup k (some t)).map f else hashLookup k (some t) := by
  induction t with
  | nil => simp [modifyFirst, hashLookup]
  | cons v t ih =>
      unfold modifyFirst
      by_cases hv : v.name = name
      · rw [if_pos hv, hashLookup_cons, hashLookup_cons, hf]
        by_cases hk : k = name
        · simp [hk, hv]
        · have hne : v.name ≠ k := fun hbad => hk (hbad.symm.trans hv)
          simp [hk, hne]
      · rw [if_neg hv, hashLookup_cons, hashLookup_cons, ih]
        by_cases hk : k = name
        · have hne : v.name ≠ k := fun hbad => hv (hbad.trans hk)
          simp [hne]
        · simp [hk]

theorem mem_modifyFirst {name : CString} {f : ShellVariable → ShellVariable} {t : VarTable}
    {v : ShellVariable} (h : v ∈ modifyFirst name f t) : v ∈ t ∨ ∃ w ∈ t, v = f w := by
  induction t with
  | nil => cases h
  | cons w t ih =>
      unfold modifyFirst at h
      split_ifs at h
      · rcases List.mem_cons.mp h with rfl | hmem
        · exact .inr ⟨w, List.mem_cons_self, rfl⟩
        · exact .inl (List.mem_cons_of_mem _ hmem)
      · rcases List.mem_cons.mp h with rfl | hmem
        · exact .inl List.mem_cons_self
        · rcases ih hmem with hold | ⟨x, hx, rfl⟩
          · exact .inl (List.mem_cons_of_mem _ hold)
          · exact .inr ⟨x, List.mem_cons_of_mem _ hx, rfl⟩

theorem mem_putBack {w v : ShellVariable} {t : VarTable} (h : v ∈ VarStore.putBack w t) :
    v = w ∨ v ∈ t := by
  unfold VarStore.putBack at h
  split_ifs at h
  · rcases mem_modifyFirst h with hmem | ⟨x, -, rfl⟩
    · exact .inr hmem
    · exact .inl rfl
  · exact List.mem_cons.mp h

theorem hashLookup_removeFirst {name : CString} {t : VarTable} (h : (t.map (·.name)).Nodup)
    (k : CString) :
    hashLookup k (some (removeFirst name t)) = if k = name then none else hashLookup k (some t) := by
  induction t with
  | nil => simp [removeFirst, hashLookup]
  | cons v t ih =>
      obtain ⟨hnot, hnodup⟩ := List.nodup_cons.mp h
      unfold removeFirst at ih ⊢
      by_cases hv : v.name = name
      · rw [List.eraseP_cons_of_pos (by simp [hv]), hashLookup_cons]
        by_cases hk : k = name
        · rw [if_pos hk, hk, ← hv]
          exact hashLookup_eq_none.mpr hnot
        · have hne : v.name ≠ k := fun hbad => hk (hbad.symm.trans hv)
          rw [if_neg hk, if_neg hne]
      · rw [List.eraseP_cons_of_neg (by simp [hv]), hashLookup_cons, hashLookup_cons, ih hnodup]
        by_cases hk : k = name
        · have hne : v.name ≠ k := fun hbad => hv (hbad.trans hk)
          rw [if_pos hk, if_neg hne, if_pos hk]
        · simp [hk]

/-! ## The chain of contexts -/

theorem lookupFrom_append (name : CString) (n : ℕ) (l m : List (Option VarTable)) :
    lookupFrom name n (l ++ m) = (lookupFrom name n l).or (lookupFrom name (n + l.length) m) := by
  induction l generalizing n with
  | nil => simp [lookupFrom]
  | cons t l ih =>
      simp only [List.cons_append, lookupFrom]
      cases hashLookup name t with
      | some v => rfl
      | none =>
          dsimp only
          rw [ih, List.length_cons]
          congr 2
          omega

theorem lookupFrom_eq_some {name : CString} {n : ℕ} {l : List (Option VarTable)} {f : Found}
    (h : lookupFrom name n l = some f) :
    ∃ i t, f.level = n + i ∧ l[i]? = some (some t) ∧ hashLookup name (some t) = some f.var := by
  induction l generalizing n with
  | nil => cases h
  | cons table l ih =>
      unfold lookupFrom at h
      cases hlook : hashLookup name table with
      | some v =>
          rw [hlook] at h
          obtain rfl := Option.some_inj.mp h
          cases table with
          | none => cases hlook
          | some t => exact ⟨0, t, rfl, rfl, hlook⟩
      | none =>
          rw [hlook] at h
          obtain ⟨i, t, hlevel, ht, hv⟩ := ih h
          exact ⟨i + 1, t, by omega, ht, hv⟩

namespace VarStore

theorem length_tables (s : VarStore) : s.tables.length = s.globalLevel + 1 := by
  simp [tables, globalLevel]

theorem tables_global (s : VarStore) : s.tables[s.globalLevel]? = some (some s.globalTable) := by
  simp [tables, globalLevel]

theorem tables_of_lt {s : VarStore} {i : ℕ} (h : i < s.globalLevel) :
    s.tables[i]? = s.contexts[i]?.map (·.table) := by
  unfold tables
  rw [List.getElem?_append_left (by simpa [globalLevel] using h), List.getElem?_map]

theorem globalLevel_mapTable (s : VarStore) (i : ℕ) (f : VarTable → VarTable) :
    (s.mapTable i f).globalLevel = s.globalLevel := by
  unfold mapTable
  split_ifs
  · exact List.length_modify ..
  · rfl

theorem tables_mapTable {s : VarStore} {i : ℕ} (h : i ≤ s.globalLevel) (f : VarTable → VarTable) :
    (s.mapTable i f).tables = s.tables.modify i (Option.map f) := by
  unfold mapTable tables
  split_ifs with hlt
  · rw [List.modify_append_of_lt (by simpa [globalLevel] using hlt)]
    apply congrArg (· ++ _)
    apply List.map_modify_comm
    intro vc
    rfl
  · have hlength : i = (s.contexts.map (·.table)).length := by
      rw [List.length_map]
      unfold globalLevel at h hlt
      omega
    rw [hlength, List.modify_append_length]
    rfl

theorem mapTable_mapTable (s : VarStore) (i : ℕ) (f g : VarTable → VarTable) :
    (s.mapTable i f).mapTable i g = s.mapTable i (g ∘ f) := by
  have hlevel := s.globalLevel_mapTable i f
  unfold mapTable at hlevel ⊢
  by_cases hi : i < s.globalLevel
  · rw [if_pos hi] at hlevel
    rw [if_pos hi, if_pos hi, hlevel, if_pos hi, List.modify_modify_eq]
    apply congrArg (fun l => ({ s with contexts := l } : VarStore))
    apply congrArg (s.contexts.modify i ·)
    funext vc
    simp
  · rw [if_neg hi] at hlevel
    rw [if_neg hi, if_neg hi, hlevel, if_neg hi]
    rfl

variable {s : VarStore}

theorem varLookup_some {name : CString} {f : Found} (hf : s.varLookup name = some f) :
    f.level ≤ s.globalLevel ∧
      ∃ t, s.tables[f.level]? = some (some t) ∧ hashLookup name (some t) = some f.var := by
  obtain ⟨i, t, hlevel, ht, hv⟩ := lookupFrom_eq_some hf
  rw [Nat.zero_add] at hlevel
  rw [hlevel]
  have hlt : i < s.tables.length := (List.getElem?_eq_some_iff.mp ht).1
  rw [s.length_tables] at hlt
  exact ⟨by omega, t, ht, hv⟩

theorem instanceAt_of_tables {i : ℕ} {t : VarTable} (ht : s.tables[i]? = some (some t))
    (name : CString) : s.instanceAt i name = hashLookup name (some t) := by
  unfold instanceAt
  rw [ht, Option.getD_some]

theorem instanceAt_varLookup {name : CString} {f : Found} (hf : s.varLookup name = some f) :
    s.instanceAt f.level name = some f.var := by
  obtain ⟨-, t, ht, hv⟩ := varLookup_some hf
  rw [instanceAt_of_tables ht, hv]

/-- The search in the functions' contexts and then in the global table. -/
theorem varLookup_split (s : VarStore) (name : CString) :
    s.varLookup name = (lookupFrom name 0 (s.contexts.map (·.table))).or
      ((s.instanceAt s.globalLevel name).map (⟨s.globalLevel, ·⟩)) := by
  rw [instanceAt_of_tables s.tables_global]
  unfold varLookup VarStore.tables
  rw [lookupFrom_append, List.length_map, Nat.zero_add]
  apply congrArg
  unfold lookupFrom
  cases hashLookup name (some s.globalTable) <;> rfl

theorem lookupFrom_eq_some_iff {name : CString} {n : ℕ} {l : List (Option VarTable)}
    {f : Found} :
    lookupFrom name n l = some f ↔ ∃ i, f.level = n + i ∧
      hashLookup name (l[i]?.getD none) = some f.var ∧
      ∀ j < i, hashLookup name (l[j]?.getD none) = none := by
  induction l generalizing n with
  | nil => simp [lookupFrom, hashLookup]
  | cons table l ih =>
      unfold lookupFrom
      cases hlook : hashLookup name table with
      | some v =>
          constructor
          · intro h
            obtain rfl := Option.some_inj.mp h
            exact ⟨0, rfl, hlook, fun j hj => absurd hj (Nat.not_lt_zero j)⟩
          · rintro ⟨i, hlevel, hv, hbefore⟩
            cases i with
            | zero =>
                obtain rfl : v = f.var := Option.some_inj.mp (hlook.symm.trans hv)
                rw [← Nat.add_zero n, ← hlevel]
            | succ i =>
                have hbad := hbefore 0 (Nat.succ_pos i)
                rw [List.getElem?_cons_zero, Option.getD_some, hlook] at hbad
                cases hbad
      | none =>
          dsimp only
          rw [ih]
          constructor
          · rintro ⟨i, hlevel, hv, hbefore⟩
            refine ⟨i + 1, by omega, hv, fun j hj => ?_⟩
            cases j with
            | zero => exact hlook
            | succ j => exact hbefore j (Nat.lt_of_succ_lt_succ hj)
          · rintro ⟨i, hlevel, hv, hbefore⟩
            cases i with
            | zero =>
                rw [List.getElem?_cons_zero, Option.getD_some, hlook] at hv
                cases hv
            | succ i =>
                exact ⟨i, by omega, hv, fun j hj => hbefore (j + 1) (Nat.succ_lt_succ hj)⟩

theorem lookupFrom_eq_none_iff {name : CString} {n : ℕ} {l : List (Option VarTable)} :
    lookupFrom name n l = none ↔ ∀ i : ℕ, hashLookup name (l[i]?.getD none) = none := by
  induction l generalizing n with
  | nil => simp [lookupFrom, hashLookup]
  | cons table l ih =>
      unfold lookupFrom
      cases hlook : hashLookup name table with
      | some v =>
          constructor
          · intro h
            cases h
          · intro h
            have hbad := h 0
            rw [List.getElem?_cons_zero, Option.getD_some, hlook] at hbad
            cases hbad
      | none =>
          dsimp only
          rw [ih]
          constructor
          · intro h i
            cases i with
            | zero => exact hlook
            | succ i => exact h i
          · intro h i
            exact h (i + 1)

/-- The search finds the instance of the first level that has one. -/
theorem varLookup_eq_some_iff {name : CString} {f : Found} :
    s.varLookup name = some f ↔
      s.instanceAt f.level name = some f.var ∧ ∀ j < f.level, s.instanceAt j name = none := by
  unfold varLookup
  rw [lookupFrom_eq_some_iff]
  constructor
  · rintro ⟨i, hlevel, hv, hbefore⟩
    obtain rfl : f.level = i := by omega
    exact ⟨hv, hbefore⟩
  · rintro ⟨hv, hbefore⟩
    exact ⟨f.level, by omega, hv, hbefore⟩

theorem varLookup_eq_none_iff {name : CString} :
    s.varLookup name = none ↔ ∀ j, s.instanceAt j name = none := lookupFrom_eq_none_iff

theorem varLookup_level_le {name : CString} {f : Found} (hf : s.varLookup name = some f) :
    f.level ≤ s.globalLevel := (varLookup_some hf).1

theorem varLookup_name {name : CString} {f : Found} (hf : s.varLookup name = some f) :
    f.var.name = name := by
  obtain ⟨-, t, -, hv⟩ := varLookup_some hf
  exact hashLookup_name hv

/-! ## Changed stores -/

theorem instanceAt_mapTable {i : ℕ} (hi : i ≤ s.globalLevel) (f : VarTable → VarTable) (j : ℕ)
    (name : CString) :
    (s.mapTable i f).instanceAt j name =
      if i = j then hashLookup name ((s.tables[i]?.getD none).map f) else s.instanceAt j name := by
  unfold instanceAt
  rw [tables_mapTable hi, List.getElem?_modify]
  split_ifs with hij
  · subst hij
    cases s.tables[i]? with
    | none => rfl
    | some table => rfl
  · rw [Option.map_eq_map, Option.map_id']

theorem instanceAt_modifyVar {i : ℕ} (hi : i ≤ s.globalLevel) {name : CString}
    {f : ShellVariable → ShellVariable} (hf : ∀ v, (f v).name = v.name) (j : ℕ) (k : CString) :
    (s.modifyVar i name f).instanceAt j k =
      if j = i ∧ k = name then (s.instanceAt j k).map f else s.instanceAt j k := by
  unfold modifyVar
  rw [instanceAt_mapTable hi]
  by_cases hij : i = j
  · subst hij
    rw [if_pos rfl]
    unfold instanceAt
    cases s.tables[i]?.getD none with
    | none => simp [hashLookup]
    | some t =>
        rw [Option.map_some, hashLookup_modifyFirst hf]
        simp
  · have hne : ¬(j = i ∧ k = name) := fun hand => hij hand.1.symm
    rw [if_neg hij, if_neg hne]

theorem instanceAt_makeNew (entry : ShellVariable) (j : ℕ) (k : CString) :
    (s.makeNewVariable s.globalLevel entry).2.instanceAt j k =
      if j = s.globalLevel ∧ k = entry.name then some entry else s.instanceAt j k := by
  unfold makeNewVariable
  rw [instanceAt_mapTable (Nat.le_refl _)]
  by_cases hij : s.globalLevel = j
  · subst hij
    rw [if_pos rfl, s.tables_global, Option.getD_some, Option.map_some, hashLookup_cons,
      instanceAt_of_tables s.tables_global]
    by_cases hk : entry.name = k
    · rw [if_pos hk, if_pos ⟨rfl, hk.symm⟩]
    · have hne : ¬(s.globalLevel = s.globalLevel ∧ k = entry.name) := fun hand => hk hand.2.symm
      rw [if_neg hk, if_neg hne]
  · have hne : ¬(j = s.globalLevel ∧ k = entry.name) := fun hand => hij hand.1.symm
    rw [if_neg hij, if_neg hne]

end VarStore

end Rash
