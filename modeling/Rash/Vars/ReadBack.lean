import Rash.Vars.Namerefs

/-!
# Assignments are read back

An assignment changes the instance that it returns and no other one, and changes nothing where
it returns none.  A reader of the name then finds the value, if the namerefs lead outwards from
the function that has the name.
-/

namespace Rash

open VarStore

namespace VarStore

variable {s : VarStore}

/-! ## What an assignment leaves alone -/

/-- Only the variable that an assignment returns may have changed. -/
def OthersKept (s : VarStore) (result : Option Found × VarStore) : Prop :=
  match result.1 with
  | none => result.2 = s
  | some f => ∀ j k, ¬(j = f.level ∧ k = f.var.name) → result.2.instanceAt j k = s.instanceAt j k

theorem assignValue_kept {entry : Found} (hentry : entry.level ≤ s.globalLevel) (value : CString) :
    OthersKept s (s.assignValue entry value) := by
  unfold assignValue
  split_ifs
  · intro j k _
    rfl
  · intro j k hne
    dsimp only at hne ⊢
    rw [instanceAt_modifyVar hentry (by intro v; rfl)]
    exact if_neg hne

theorem bindNew_kept {level : ℕ} (hlevel : level ≤ s.globalLevel) (name value : CString) :
    OthersKept s (s.bindNew level name value) := by
  unfold bindNew makeNewVariable
  intro j k hne
  dsimp only at hne ⊢
  rw [instanceAt_mapTable hlevel]
  split_ifs with hj
  · unfold instanceAt
    rw [hj]
    cases s.tables[j]?.getD none with
    | none => rfl
    | some t =>
        rw [Option.map_some, hashLookup_cons, if_neg]
        intro hk
        exact hne ⟨hj.symm, hk.symm⟩
  · rfl

variable {validArrayReference : CString → Bool}

theorem bindEntry_kept {level : ℕ} (hlevel : level ≤ s.globalLevel) {entry : Found}
    (hentry : entry.level ≤ s.globalLevel) (value : CString) :
    OthersKept s (s.bindEntry validArrayReference level value entry) := by
  unfold bindEntry
  by_cases href : entry.var.attributes.nameref = true
  · rw [if_pos href]
    by_cases hinvisible : entry.var.attributes.invisible = true
    · rw [if_pos hinvisible]
      split_ifs
      · exact assignValue_kept hentry value
      · rfl
    · rw [if_neg hinvisible]
      cases entry.var.value with
      | none => rfl
      | some newval =>
          dsimp only
          split_ifs
          · exact bindNew_kept hlevel newval value
          · rfl
  · rw [if_neg href]
    exact assignValue_kept hentry value

theorem findGlobalVariableNoref_level {name : CString} {g : Found}
    (h : s.findGlobalVariableNoref name = some g) : g.level ≤ s.globalLevel := by
  obtain ⟨v, -, rfl⟩ := Option.map_eq_some_iff.mp h
  exact Nat.le_refl _

theorem followNameref_level {orig v g : Found} {left : ℕ} (hv : v.level ≤ s.globalLevel)
    (h : s.followNameref orig left v = .found g) : g.level ≤ s.globalLevel := by
  induction left generalizing v with
  | zero =>
      unfold followNameref at h
      split_ifs at h
      cases h
      exact hv
  | succ left ih =>
      unfold followNameref at h
      by_cases href : v.var.attributes.nameref = true
      · rw [if_pos href] at h
        dsimp only at h
        split at h
        · cases h
        · split at h
          · cases h
          · next hsome =>
            split_ifs at h
            · split at h
              · next hglobal =>
                cases h
                exact findGlobalVariableNoref_level hglobal
              · cases h
            · exact ih (varLookup_level_le hsome) h
      · rw [if_neg href] at h
        cases h
        exact hv

theorem findGlobalVariable_level {name : CString} {g : Found}
    (h : s.findGlobalVariable name = some g) : g.level ≤ s.globalLevel := by
  unfold findGlobalVariable at h
  split at h
  · cases h
  · next v hv =>
    have hlevel := findGlobalVariableNoref_level hv
    split_ifs at h
    · unfold findVariableNameref at h
      cases hsearch : s.followNameref v namerefMax v with
      | found f =>
          rw [hsearch] at h
          obtain rfl := Option.some_inj.mp h
          exact followNameref_level hlevel hsearch
      | null =>
          rw [hsearch] at h
          cases h
      | maxloop =>
          rw [hsearch] at h
          cases h
    · obtain rfl := Option.some_inj.mp h
      exact hlevel

theorem lastNameref_level {vflags : Bool} {left : ℕ} {nv g : Found} {v : Option Found}
    (hnv : nv.level ≤ s.globalLevel) (hv : ∀ f, v = some f → f.level ≤ s.globalLevel)
    (h : s.lastNameref vflags left nv v = some g) : g.level ≤ s.globalLevel := by
  induction left generalizing nv v with
  | zero =>
      unfold lastNameref at h
      split at h
      · cases h
        exact hnv
      · split_ifs at h
        cases h
        exact hnv
  | succ left ih =>
      unfold lastNameref at h
      split at h
      · cases h
        exact hnv
      · next v =>
        have hlevel := hv v rfl
        by_cases href : v.var.attributes.nameref = true
        · rw [if_pos href] at h
          dsimp only at h
          split at h
          · split_ifs at h
            cases h
            exact hlevel
          · exact ih hlevel (fun f hf => varLookup_level_le hf) h
        · rw [if_neg href] at h
          cases h
          exact hnv

theorem findVariableLastNameref_level {name : CString} {vflags : Bool} {g : Found}
    (h : s.findVariableLastNameref name vflags = some g) : g.level ≤ s.globalLevel := by
  unfold findVariableLastNameref at h
  split at h
  · cases h
  · next v hv =>
    have hlevel := varLookup_level_le hv
    apply lastNameref_level hlevel _ h
    intro f hf
    cases hf
    exact hlevel

theorem bindVariableInternal_kept {level : ℕ} (hlevel : level ≤ s.globalLevel)
    (name value : CString) :
    OthersKept s (s.bindVariableInternal validArrayReference level name value) := by
  unfold bindVariableInternal
  split
  · exact bindNew_kept hlevel name value
  · split_ifs
    · split
      · rfl
      · next entry hentry =>
        apply bindEntry_kept hlevel
        rcases Option.or_eq_some_iff.mp hentry with hglobal | ⟨-, hlast⟩
        · exact findGlobalVariable_level hglobal
        · exact findVariableLastNameref_level hlast
    · exact bindEntry_kept hlevel hlevel value

/-! ## The contexts that the assignment's search leaves -/

theorem namerefContext_level {tables : List (Option VarTable)} {level nvc nvc' : ℕ} {nv : Found}
    {found : VarSearch} (hlevel : level + tables.length ≤ s.globalLevel + 1)
    (hnvc : nvc ≤ s.globalLevel) (h : namerefContext level tables nv nvc = (found, nvc')) :
    nvc' ≤ s.globalLevel := by
  induction tables generalizing level nvc nv with
  | nil =>
      cases h
      exact hnvc
  | cons table rest ih =>
      rw [List.length_cons] at hlevel
      unfold namerefContext at h
      split at h
      · cases h
        exact hnvc
      · exact ih (by omega) hnvc h
      · split_ifs at h
        · exact ih (by omega) (by omega) h
        · cases h
          omega

theorem lastNamerefContext_level {tables : List (Option VarTable)} {level nvc nvc' : ℕ}
    {nv : Found} {found : VarSearch} (hlevel : level + tables.length ≤ s.globalLevel + 1)
    (hnvc : nvc ≤ s.globalLevel) (h : lastNamerefContext level tables nv nvc = (found, nvc')) :
    nvc' ≤ s.globalLevel := by
  induction tables generalizing level nvc nv with
  | nil =>
      cases h
      exact hnvc
  | cons table rest ih =>
      rw [List.length_cons] at hlevel
      unfold lastNamerefContext at h
      split at h
      · cases h
        exact hnvc
      · exact ih (by omega) hnvc h
      · exact ih (by omega) (by omega) h

theorem length_drop_tables {level : ℕ} (h : level ≤ s.globalLevel) :
    level + (s.tables.drop level).length ≤ s.globalLevel + 1 := by
  rw [List.length_drop, s.length_tables]
  omega

theorem bindFound_kept {v : Found} (hv : v.level ≤ s.globalLevel) {value : CString}
    {result : Option Found × VarStore}
    (h : s.bindFound validArrayReference value v = some result) : OthersKept s result := by
  unfold bindFound at h
  by_cases href : v.var.attributes.nameref = true
  · rw [if_pos href] at h
    have hlength := length_drop_tables hv
    split at h
    · next nv nvc hsearch =>
      obtain rfl := Option.some_inj.mp h
      exact bindVariableInternal_kept (namerefContext_level hlength hv hsearch) nv.var.name value
    · obtain rfl := Option.some_inj.mp h
      exact bindVariableInternal_kept (Nat.le_refl _) v.var.name value
    · next nvc hsearch =>
      have hnvc := namerefContext_level hlength hv hsearch
      split at h
      · next last nvc' hlast =>
        obtain rfl := Option.some_inj.mp h
        exact bindVariableInternal_kept (lastNamerefContext_level hlength hnvc hlast) _ value
      · obtain rfl := Option.some_inj.mp h
        exact bindVariableInternal_kept (Nat.le_refl _) v.var.name value
      · cases h
  · rw [if_neg href] at h
    obtain rfl := Option.some_inj.mp h
    exact bindVariableInternal_kept hv v.var.name value

theorem bindFrom_kept {contexts : List VarContext} {level : ℕ}
    (hlevel : level + contexts.length ≤ s.globalLevel) (name value : CString) :
    OthersKept s (s.bindFrom validArrayReference name value level contexts) := by
  induction contexts generalizing level with
  | nil => exact bindVariableInternal_kept (Nat.le_refl _) name value
  | cons vc rest ih =>
      rw [List.length_cons] at hlevel
      unfold bindFrom
      split_ifs
      · split
        · next result hresult =>
          obtain ⟨v, -, hfound⟩ := Option.bind_eq_some_iff.mp hresult
          apply bindFound_kept _ hfound
          dsimp only
          omega
        · exact ih (by omega)
      · exact ih (by omega)

theorem bindVariable_kept (s : VarStore) (validArrayReference : CString → Bool)
    (name value : CString) : OthersKept s (s.bindVariable validArrayReference name value) :=
  bindFrom_kept (by rw [Nat.zero_add]; exact Nat.le_refl _) name value

/-! ## What an assignment writes -/

/-- The write at the end of a way: a variable that does not exist is made a global one. -/
def writeEnd (s : VarStore) (value : CString) : Found ⊕ CString → Option Found × VarStore
  | .inl g => s.assignValue g value
  | .inr t => s.bindNew s.globalLevel t value

theorem bindVariableInternal_plain {g : Found} (hg : Genuine s g)
    (hplain : g.var.attributes.nameref = false) (value : CString) :
    s.bindVariableInternal validArrayReference g.level g.var.name value = s.assignValue g value := by
  unfold bindVariableInternal
  rw [hg]
  dsimp only
  rw [hplain, Bool.false_and, Bool.false_and, if_neg Bool.false_ne_true]
  unfold bindEntry
  rw [hplain, if_neg Bool.false_ne_true]

theorem bindVariableInternal_new {level : ℕ} {name : CString}
    (h : s.instanceAt level name = none) (value : CString) :
    s.bindVariableInternal validArrayReference level name value = s.bindNew level name value := by
  unfold bindVariableInternal
  rw [h]

theorem bindFound_leads {v : Found} {ns : List ℕ} {e : Found ⊕ CString} (hv : Genuine s v)
    (hlevel : v.level ≤ s.globalLevel) (h : Leads s True v ns e)
    (hcount : ∀ j, ns.tail.count j < namerefMax - 1) (value : CString) :
    s.bindFound validArrayReference value v = some (s.writeEnd value e) := by
  unfold bindFound
  by_cases href : v.var.attributes.nameref = true
  · rw [if_pos href]
    cases e with
    | inl g =>
        have hsearch : s.findVariableNamerefContext v v.level = (.found g, g.level) :=
          namerefContext_leads rfl h href h.nextFrom hcount
        obtain ⟨hg, hplain⟩ := h.genuine hv
        rw [hsearch]
        dsimp only
        rw [bindVariableInternal_plain hg hplain]
        rfl
    | inr t =>
        obtain ⟨nvc, hsearch⟩ : ∃ nvc, s.findVariableNamerefContext v v.level = (.null, nvc) :=
          namerefContext_unset rfl h h.nextFrom hcount
        obtain ⟨last, hlast, hfound⟩ : ∃ last, IsNameref last t ∧
            s.findVariableLastNamerefContext v nvc = (.found last, s.globalLevel) :=
          lastNamerefContext_leads rfl h h.nextFrom hcount (by omega)
        have hnone := varLookup_eq_none_iff.mp h.unset_lookup.1 s.globalLevel
        rw [hsearch]
        dsimp only
        rw [hfound]
        dsimp only
        rw [hlast.cell, Option.getD_some, bindVariableInternal_new hnone]
        rfl
  · rw [if_neg href]
    cases h with
    | stop hplain =>
        rw [bindVariableInternal_plain hv hplain]
        rfl
    | unset hname _ => exact absurd hname.nameref href
    | hop hname _ _ _ => exact absurd hname.nameref href

theorem bindEntry_unset {last : Found} {t : CString} (hlast : IsNameref last t) (level : ℕ)
    (value : CString) :
    s.bindEntry validArrayReference level value last = s.bindNew level t value := by
  have hne : t ≠ [] := by
    rintro rfl
    cases hlast.valid
  have hvalid : validNamerefValue validArrayReference (some t) = true := by
    unfold validNamerefValue
    dsimp only
    rw [hlast.valid, Bool.true_or, Bool.and_true]
    exact decide_eq_true hne
  unfold bindEntry
  rw [hlast.nameref, if_pos rfl, hlast.visible, if_neg Bool.false_ne_true, hlast.cell]
  dsimp only
  rw [hvalid, if_pos rfl]

/-- The global table's own way of following namerefs. -/
theorem bindVariableInternal_leads {outward : Prop} {f : Found} {ns : List ℕ}
    {e : Found ⊕ CString} (hf : s.varLookup f.var.name = some f) (hlevel : f.level = s.globalLevel)
    (h : Leads s outward f ns e) (hlength : ns.length ≤ namerefMax) (value : CString) :
    s.bindVariableInternal validArrayReference s.globalLevel f.var.name value =
      s.writeEnd value e := by
  have hgenuine := genuine_of_varLookup hf
  have hinstance : s.instanceAt s.globalLevel f.var.name = some f.var := by
    rw [← hlevel]
    exact hgenuine
  have hglobal : s.findGlobalVariableNoref f.var.name = some f := by
    unfold findGlobalVariableNoref
    rw [hinstance, Option.map_some, ← hlevel]
  by_cases href : f.var.attributes.nameref = true
  · have hvisible : f.var.attributes.invisible = false := by
      cases h with
      | stop hplain =>
          rw [href] at hplain
          cases hplain
      | unset hname _ => exact hname.visible
      | hop hname _ _ _ => exact hname.visible
    have hfind : s.findGlobalVariable f.var.name = e.getLeft? := by
      unfold findGlobalVariable
      rw [hglobal]
      dsimp only
      rw [if_pos href, findVariableNameref_leads h hgenuine hlength]
      cases e <;> rfl
    unfold bindVariableInternal
    rw [hinstance]
    dsimp only
    rw [href, hvisible, hfind]
    rw [Bool.not_false, Bool.true_and, Bool.true_and, beq_self_eq_true, if_pos rfl]
    cases e with
    | inl g =>
        obtain ⟨-, hplain⟩ := h.genuine hgenuine
        rw [Sum.getLeft?_inl, Option.some_or]
        dsimp only
        unfold bindEntry
        rw [hplain, if_neg Bool.false_ne_true]
        rfl
    | inr t =>
        obtain ⟨last, hlast, hfound⟩ :
            ∃ last, IsNameref last t ∧ s.findVariableLastNameref f.var.name false = some last := by
          unfold findVariableLastNameref
          rw [hf]
          exact lastNameref_leads h f hlength
        rw [Sum.getLeft?_inr, Option.none_or, hfound]
        exact bindEntry_unset hlast _ value
  · cases h with
    | stop hplain =>
        rw [← hlevel, bindVariableInternal_plain hgenuine hplain]
        rfl
    | unset hname _ => exact absurd hname.nameref href
    | hop hname _ _ _ => exact absurd hname.nameref href

/-! ## The instance that an assignment starts at -/

theorem bindFrom_found {contexts : List VarContext} (hfun : ∀ vc ∈ contexts, vc.funcenv = true)
    {name value : CString} {level : ℕ} {f : Found} {result : Option Found × VarStore}
    (hlook : lookupFrom name level (contexts.map (·.table)) = some f)
    (hbind : s.bindFound validArrayReference value f = some result) :
    s.bindFrom validArrayReference name value level contexts = result := by
  induction contexts generalizing level with
  | nil => cases hlook
  | cons vc rest ih =>
      rw [List.map_cons, lookupFrom] at hlook
      unfold bindFrom
      rw [hfun vc List.mem_cons_self, Bool.true_or, if_pos rfl]
      cases hv : hashLookup name vc.table with
      | some v =>
          rw [hv] at hlook
          obtain rfl := Option.some_inj.mp hlook
          rw [Option.bind_some, hbind]
      | none =>
          rw [hv] at hlook
          exact ih (fun vc hvc => hfun vc (List.mem_cons_of_mem _ hvc)) hlook

theorem bindFrom_global {contexts : List VarContext} {name : CString} {level : ℕ}
    (hlook : lookupFrom name level (contexts.map (·.table)) = none) (value : CString) :
    s.bindFrom validArrayReference name value level contexts =
      s.bindVariableInternal validArrayReference s.globalLevel name value := by
  induction contexts generalizing level with
  | nil => rfl
  | cons vc rest ih =>
      rw [List.map_cons, lookupFrom] at hlook
      cases hv : hashLookup name vc.table with
      | some v =>
          rw [hv] at hlook
          cases hlook
      | none =>
          rw [hv] at hlook
          unfold bindFrom
          rw [hv, Option.bind_none, ih hlook]
          split_ifs <;> rfl

theorem lookupFrom_contexts {name : CString} {f : Found} (hf : s.varLookup name = some f) :
    if f.level < s.globalLevel then lookupFrom name 0 (s.contexts.map (·.table)) = some f
    else lookupFrom name 0 (s.contexts.map (·.table)) = none := by
  rw [varLookup_split] at hf
  cases hlook : lookupFrom name 0 (s.contexts.map (·.table)) with
  | some g =>
      rw [hlook, Option.some_or] at hf
      obtain rfl := Option.some_inj.mp hf
      obtain ⟨i, t, hlevel, ht, -⟩ := lookupFrom_eq_some hlook
      have hlt := (List.getElem?_eq_some_iff.mp ht).1
      rw [List.length_map] at hlt
      rw [if_pos]
      unfold globalLevel
      omega
  | none =>
      rw [hlook, Option.none_or] at hf
      obtain ⟨v, -, rfl⟩ := Option.map_eq_some_iff.mp hf
      rw [if_neg (Nat.lt_irrefl _)]

/-! ## The store after the write -/

theorem varLookup_modifyVar {i : ℕ} (hi : i ≤ s.globalLevel) {name : CString}
    {change : ShellVariable → ShellVariable} (hname : ∀ v, (change v).name = v.name)
    (k : CString) :
    (s.modifyVar i name change).varLookup k =
      (s.varLookup k).map fun f =>
        if f.level = i ∧ k = name then ⟨f.level, change f.var⟩ else f := by
  have hinstance := @instanceAt_modifyVar s i hi name change hname
  cases hlook : s.varLookup k with
  | none =>
      rw [Option.map_none, varLookup_eq_none_iff]
      intro j
      rw [hinstance, varLookup_eq_none_iff.mp hlook j]
      split_ifs <;> rfl
  | some f =>
      obtain ⟨hv, hbefore⟩ := varLookup_eq_some_iff.mp hlook
      rw [Option.map_some, varLookup_eq_some_iff]
      by_cases hhere : f.level = i ∧ k = name
      · rw [if_pos hhere]
        refine ⟨?_, fun j hj => ?_⟩
        · rw [hinstance, if_pos hhere, hv]
          rfl
        · rw [hinstance, hbefore j hj]
          split_ifs <;> rfl
      · rw [if_neg hhere]
        refine ⟨?_, fun j hj => ?_⟩
        · rw [hinstance, if_neg hhere, hv]
        · rw [hinstance, hbefore j hj]
          split_ifs <;> rfl

theorem varLookup_makeNew {entry : ShellVariable} (hnew : s.varLookup entry.name = none)
    (k : CString) :
    (s.makeNewVariable s.globalLevel entry).2.varLookup k =
      if k = entry.name then some ⟨s.globalLevel, entry⟩ else s.varLookup k := by
  have hinstance := s.instanceAt_makeNew entry
  have hnone := varLookup_eq_none_iff.mp hnew
  split_ifs with hk
  · subst hk
    rw [varLookup_eq_some_iff]
    refine ⟨?_, fun j hj => ?_⟩
    · rw [hinstance, if_pos ⟨rfl, rfl⟩]
    · rw [hinstance, if_neg (fun hbad => Nat.ne_of_lt hj hbad.1), hnone]
  · have hsame : ∀ j, (s.makeNewVariable s.globalLevel entry).2.instanceAt j k =
        s.instanceAt j k := by
      intro j
      rw [hinstance, if_neg (fun hbad => hk hbad.2)]
    cases hlook : s.varLookup k with
    | none =>
        rw [varLookup_eq_none_iff]
        intro j
        rw [hsame, varLookup_eq_none_iff.mp hlook]
    | some f =>
        rw [varLookup_eq_some_iff] at hlook ⊢
        refine ⟨?_, fun j hj => ?_⟩
        · rw [hsame, hlook.1]
        · rw [hsame, hlook.2 j hj]

end VarStore

/-- A store in which the namerefs are the same ones and the end of the way has become a variable
that is none. -/
theorem Leads.rewritten {s s' : VarStore} {outward : Prop} {f g' : Found} {ns : List ℕ}
    {e : Found ⊕ CString} (h : Leads s outward f ns e) {name : CString}
    (hf : s.varLookup name = some f)
    (hnames : ∀ t v, s.varLookup t = some v → v.var.attributes.nameref = true →
      s'.varLookup t = some v)
    (hfound : ∀ t g, e = .inl g → s.varLookup t = some g → s'.varLookup t = some g')
    (hmade : ∀ t, e = .inr t → s'.varLookup t = some g')
    (hplain : g'.var.attributes.nameref = false) :
    ∃ f', s'.varLookup name = some f' ∧ Leads s' False f' ns (.inl g') := by
  induction h generalizing name with
  | @stop f _ => exact ⟨g', hfound name f rfl hf, .stop hplain⟩
  | @unset f t href _ =>
      refine ⟨f, hnames name f hf href.nameref, ?_⟩
      exact .hop href (hmade t rfl) (fun hbad => hbad.elim) (.stop hplain)
  | @hop f g t n e href hsome _ _ ih =>
      obtain ⟨v, hv, hleads⟩ := ih hsome hfound hmade
      refine ⟨f, hnames name f hf href.nameref, ?_⟩
      exact .hop href hv (fun hbad => hbad.elim) hleads

namespace VarStore

variable {s : VarStore} {validArrayReference : CString → Bool}

/-- The variable that a write at the end of a way leaves there. -/
def writtenTo (s : VarStore) (value : CString) : Found ⊕ CString → Found
  | .inl g => ⟨g.level, s.assigned value g.var⟩
  | .inr t => ⟨s.globalLevel, s.markModified { name := t, value := some value }⟩

theorem writeEnd_readBack {outward : Prop} {name value : CString} {f : Found} {ns : List ℕ}
    {e : Found ⊕ CString} (hf : s.varLookup name = some f) (h : Leads s outward f ns e)
    (hlength : ns.length ≤ namerefMax) (hassign : ∀ g, e = .inl g → assignDisallowed g.var = false) :
    (s.writeEnd value e).1 = some (s.writtenTo value e) ∧
      (s.writeEnd value e).2.findVariable name = some (s.writtenTo value e) := by
  cases e with
  | inl g =>
      obtain ⟨hg, hplain⟩ := h.genuine (genuine_of_varLookup hf)
      have hlook := @varLookup_modifyVar s g.level (h.end_level hf) g.var.name (s.assigned value)
        (fun _ => rfl)
      unfold writeEnd assignValue
      dsimp only
      rw [hassign g rfl, if_neg Bool.false_ne_true]
      refine ⟨rfl, ?_⟩
      have hnames : ∀ t v, s.varLookup t = some v → v.var.attributes.nameref = true →
          (s.modifyVar g.level g.var.name (s.assigned value)).varLookup t = some v := by
        intro t v ht href
        rw [hlook, ht, Option.map_some, if_neg]
        rintro ⟨hlevel, hname⟩
        have hv := (varLookup_eq_some_iff.mp ht).1
        rw [hlevel, hname, hg] at hv
        rw [← Option.some_inj.mp hv, hplain] at href
        cases href
      have hfound : ∀ t g', (.inl g : Found ⊕ CString) = .inl g' → s.varLookup t = some g' →
          (s.modifyVar g.level g.var.name (s.assigned value)).varLookup t =
            some (s.writtenTo value (.inl g)) := by
        intro t g' hg' ht
        cases hg'
        rw [hlook, ht, Option.map_some, if_pos ⟨rfl, (varLookup_name ht).symm⟩]
        rfl
      obtain ⟨f', hf', hleads⟩ := h.rewritten hf hnames hfound (fun t ht => by cases ht) hplain
      rw [findVariable_leads hf' hleads hlength]
      rfl
  | inr t =>
      have hnone := h.unset_lookup.1
      have hlook := @varLookup_makeNew s (s.markModified { name := t, value := some value }) hnone
      refine ⟨rfl, ?_⟩
      unfold writeEnd bindNew
      dsimp only
      have hnames : ∀ t' v, s.varLookup t' = some v → v.var.attributes.nameref = true →
          (s.makeNewVariable s.globalLevel
            (s.markModified { name := t, value := some value })).2.varLookup t' = some v := by
        intro t' v ht' _
        rw [hlook, if_neg, ht']
        rintro rfl
        rw [ht'] at hnone
        cases hnone
      have hmade : ∀ t', (.inr t : Found ⊕ CString) = .inr t' →
          (s.makeNewVariable s.globalLevel
            (s.markModified { name := t, value := some value })).2.varLookup t' =
              some (s.writtenTo value (.inr t)) := by
        intro t' ht'
        cases ht'
        exact (hlook t).trans (if_pos rfl)
      obtain ⟨f', hf', hleads⟩ := h.rewritten hf hnames (fun t' g hg => by cases hg) hmade rfl
      rw [findVariable_leads hf' hleads hlength]
      rfl

/-- The way from a name's innermost instance, if it has one, ends within the limit; from a
function's instance it goes outwards, and the count that each context starts anew stays within
the limit as well. -/
def LeadsOutward (s : VarStore) (name : CString) : Prop :=
  ∀ f, s.varLookup name = some f → ∃ ns e,
    Leads s (f.level < s.globalLevel) f ns e ∧ ns.length ≤ namerefMax ∧
      (f.level < s.globalLevel → ∀ j, ns.tail.count j < namerefMax - 1)

end VarStore

/-- The contexts are those of functions, every variable can be assigned, and no nameref names an
element of an array. -/
structure PlainStore (validArrayReference : CString → Bool) (s : VarStore) : Prop where
  functions : ∀ vc ∈ s.contexts, vc.funcenv = true
  assignable : ∀ table ∈ s.tables, ∀ v ∈ table.getD [], assignDisallowed v = false
  noElements : ∀ table ∈ s.tables, ∀ v ∈ table.getD [], v.attributes.nameref = true →
    ∀ t ∈ v.value, validArrayReference t = false

namespace PlainStore

variable {s : VarStore} {validArrayReference : CString → Bool}

theorem assignable_of_genuine (hs : PlainStore validArrayReference s) {g : Found}
    (hg : Genuine s g) : assignDisallowed g.var = false := by
  unfold Genuine instanceAt at hg
  cases htable : s.tables[g.level]? with
  | none =>
      rw [htable] at hg
      cases hg
  | some table =>
      rw [htable, Option.getD_some] at hg
      exact hs.assignable table (List.mem_of_getElem? htable) g.var (hashLookup_mem hg)

theorem bindVariable_leads (hs : PlainStore validArrayReference s) {name : CString} {f : Found}
    {ns : List ℕ} {e : Found ⊕ CString} (hf : s.varLookup name = some f)
    (h : Leads s (f.level < s.globalLevel) f ns e) (hlength : ns.length ≤ namerefMax)
    (hcount : f.level < s.globalLevel → ∀ j, ns.tail.count j < namerefMax - 1) (value : CString) :
    s.bindVariable validArrayReference name value = s.writeEnd value e := by
  have hlook := lookupFrom_contexts hf
  unfold bindVariable
  by_cases hlocal : f.level < s.globalLevel
  · rw [if_pos hlocal] at hlook
    apply bindFrom_found hs.functions hlook
    exact bindFound_leads (genuine_of_varLookup hf) (Nat.le_of_lt hlocal)
      (h.weaken fun _ => hlocal) (hcount hlocal) value
  · rw [if_neg hlocal] at hlook
    have hglobal : f.level = s.globalLevel :=
      Nat.le_antisymm (varLookup_level_le hf) (Nat.le_of_not_lt hlocal)
    have hname := varLookup_name hf
    rw [bindFrom_global hlook, ← hname]
    rw [← hname] at hf
    exact bindVariableInternal_leads hf hglobal h hlength value

theorem bindVariable_new {name : CString} (hnone : s.varLookup name = none) (value : CString) :
    s.bindVariable validArrayReference name value = s.bindNew s.globalLevel name value := by
  have hlook : lookupFrom name 0 (s.contexts.map (·.table)) = none := by
    rw [varLookup_split, Option.or_eq_none_iff] at hnone
    exact hnone.1
  unfold bindVariable
  rw [bindFrom_global hlook, bindVariableInternal_new (varLookup_eq_none_iff.mp hnone _)]

theorem bindNew_readBack {name : CString} (hnone : s.varLookup name = none) (value : CString) :
    (s.bindNew s.globalLevel name value).1 = some (s.writtenTo value (.inr name)) ∧
      (s.bindNew s.globalLevel name value).2.findVariable name =
        some (s.writtenTo value (.inr name)) := by
  have hlook := (@varLookup_makeNew s (s.markModified { name := name, value := some value })
    hnone name).trans (if_pos rfl)
  refine ⟨rfl, ?_⟩
  unfold bindNew findVariable
  dsimp only
  rw [hlook]
  rfl

end PlainStore

/-- An assignment that returns no variable changes nothing, one that returns a variable changes
no other instance, and from a name that leads outwards the variable that it returns is the one
that a reader of the name finds, with the value. -/
theorem bindVariable_readBack {validArrayReference : CString → Bool} {s : VarStore}
    (hs : PlainStore validArrayReference s) (name value : CString) :
    ((s.bindVariable validArrayReference name value).1 = none →
        (s.bindVariable validArrayReference name value).2 = s) ∧
      (∀ f, (s.bindVariable validArrayReference name value).1 = some f →
        ∀ j k, ¬(j = f.level ∧ k = f.var.name) →
          (s.bindVariable validArrayReference name value).2.instanceAt j k = s.instanceAt j k) ∧
      (s.LeadsOutward name →
        ∃ f, (s.bindVariable validArrayReference name value).1 = some f ∧
          (s.bindVariable validArrayReference name value).2.findVariable name = some f ∧
          f.var.attributes.invisible = false ∧ f.var.value = some value) := by
  have hkept := s.bindVariable_kept validArrayReference name value
  unfold OthersKept at hkept
  refine ⟨fun hnone => ?_, fun f hf => ?_, fun hleads => ?_⟩
  · rw [hnone] at hkept
    exact hkept
  · rw [hf] at hkept
    exact hkept
  · cases hlook : s.varLookup name with
    | none =>
        obtain ⟨hbound, hread⟩ := PlainStore.bindNew_readBack hlook value
        rw [PlainStore.bindVariable_new hlook]
        exact ⟨_, hbound, hread, rfl, rfl⟩
    | some f =>
        obtain ⟨ns, e, hway, hlength, hcount⟩ := hleads f hlook
        have hgenuine := genuine_of_varLookup hlook
        obtain ⟨hbound, hread⟩ := writeEnd_readBack hlook hway hlength
          fun g hg => hs.assignable_of_genuine (hg ▸ hway |>.genuine hgenuine).1
        rw [hs.bindVariable_leads hlook hway hlength hcount]
        refine ⟨_, hbound, hread, ?_⟩
        cases e <;> exact ⟨rfl, rfl⟩

def localOf (context : ℤ) (name value : CString) (nameref : Bool) : ShellVariable :=
  { name := name
    value := some value
    attributes := { localVar := true, nameref := nameref }
    context := context }

/-- A function's nameref `r` to the global `x`. -/
def outwardNameref : VarStore where
  contexts :=
    [{ scope := 1, funcenv := true, bltnenv := false, table := some [localOf 1 [114] [120] true] }]
  globalTable := [{ name := [120], value := some [48] }]
  variableContext := 1

theorem bindVariable_readBack_outward :
    ∃ f, (outwardNameref.bindVariable (fun _ => false) [114] [53]).1 = some f ∧
      (outwardNameref.bindVariable (fun _ => false) [114] [53]).2.findVariable [114] = some f ∧
      f.var.attributes.invisible = false ∧ f.var.value = some [53] := by
  refine (bindVariable_readBack ⟨by decide, by decide, by decide⟩ [114] [53]).2.2 ?_
  intro f hf
  obtain rfl : ⟨0, localOf 1 [114] [120] true⟩ = f := Option.some_inj.mp hf
  refine ⟨[0], .inl ⟨1, { name := [120], value := some [48] }⟩, ?_, by decide, fun _ _ => Nat.succ_pos 6⟩
  exact .hop ⟨rfl, rfl, rfl, rfl⟩ rfl (fun _ => Nat.zero_le _) (.stop rfl)

/-- The assignment returns a variable and a reader of the name does not find the value. -/
def misread (s : VarStore) (name value : CString) : Bool :=
  let (bound, s) := s.bindVariable (fun _ => false) name value
  bound.isSome && (s.findVariable name).bind (·.var.value) != some value

/-- The caller of the function that runs has the nameref `r` to `x`, and the function a local
`x`. -/
def shadowedTarget : VarStore where
  contexts :=
    [{ scope := 2, funcenv := true, bltnenv := false, table := some [localOf 2 [120] [49] false] },
     { scope := 1, funcenv := true, bltnenv := false, table := some [localOf 1 [114] [120] true] }]
  globalTable := [{ name := [120], value := some [48] }]
  variableContext := 2

/-- A function's nameref `r` to its nameref `s`, which names itself. -/
def circularNamerefs : VarStore where
  contexts :=
    [{ scope := 1, funcenv := true, bltnenv := false,
       table := some [localOf 1 [114] [115] true, localOf 1 [115] [115] true] }]
  globalTable := []
  variableContext := 1

/-- A function's chain of eight namerefs from `a` to `i`. -/
def longChain : VarStore where
  contexts :=
    [{ scope := 1, funcenv := true, bltnenv := false,
       table := some (localOf 1 [105] [48] false ::
        ([97, 98, 99, 100, 101, 102, 103, 104] : CString).map
          fun c => localOf 1 [c] [c + 1] true) }]
  globalTable := []
  variableContext := 1

/-- The nameref `r` has been declared without a value. -/
def valuelessNameref : VarStore where
  contexts := []
  globalTable := [{ name := [114], attributes := { nameref := true, invisible := true } }]
  variableContext := 0

theorem bindVariable_misread :
    (∀ s ∈ [shadowedTarget, circularNamerefs, longChain, valuelessNameref],
        PlainStore (fun _ => false) s) ∧
      misread shadowedTarget [114] [53] = true ∧ misread circularNamerefs [114] [53] = true ∧
      misread longChain [97] [53] = true ∧ misread valuelessNameref [114] [120] = true := by
  refine ⟨?_, by decide +kernel, by decide +kernel, by decide +kernel, by decide +kernel⟩
  intro s hs
  simp only [List.mem_cons, List.not_mem_nil, or_false] at hs
  rcases hs with rfl | rfl | rfl | rfl <;> exact ⟨by decide, by decide, by decide⟩

end Rash
