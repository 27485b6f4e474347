import Rash.Vars.Lookups

/-!
# Where namerefs lead

The instances that a reader passes from a nameref on: at each hop the innermost instance of the
name in the cell.  Both ways of following namerefs, the reader's and the assignment's, end where
this way ends; the assignment's search goes outwards only, and so needs a way that does.
-/

namespace Rash

open VarStore

/-- A nameref that names a variable. -/
structure IsNameref (f : Found) (target : CString) : Prop where
  nameref : f.var.attributes.nameref = true
  visible : f.var.attributes.invisible = false
  cell : f.var.value = some target
  valid : validIdentifier target = true

theorem IsNameref.target_eq {f : Found} {target : CString} (h : IsNameref f target) :
    namerefTarget f.var = some target := by
  have hne : target ≠ [] := by
    rintro rfl
    cases h.valid
  unfold namerefTarget
  rw [h.cell, Option.filter_some]
  simp [hne]

theorem IsNameref.unique {f : Found} {t t' : CString} (h : IsNameref f t) (h' : IsNameref f t') :
    t = t' := Option.some_inj.mp (h.cell.symm.trans h'.cell)

/-- The way from an instance, with the levels of the namerefs on it, to the variable at its end
or to the name of a variable that does not exist.  An outward way meets no instance that is
inside the nameref that names it. -/
inductive Leads (s : VarStore) (outward : Prop) : Found → List ℕ → Found ⊕ CString → Prop
  | stop {f : Found} (h : f.var.attributes.nameref = false) : Leads s outward f [] (.inl f)
  | unset {f : Found} {t : CString} (h : IsNameref f t) (ht : s.varLookup t = none) :
      Leads s outward f [f.level] (.inr t)
  | hop {f g : Found} {t : CString} {n : List ℕ} {e : Found ⊕ CString} (h : IsNameref f t)
      (ht : s.varLookup t = some g) (hout : outward → f.level ≤ g.level)
      (hrest : Leads s outward g n e) : Leads s outward f (f.level :: n) e

namespace Leads

variable {s : VarStore} {outward : Prop} {f g : Found} {n n' : List ℕ} {e e' : Found ⊕ CString}

theorem unique (h : Leads s outward f n e) (h' : Leads s outward f n' e') : n = n' ∧ e = e' := by
  induction h generalizing n' with
  | stop hplain =>
      cases h' with
      | stop _ => exact ⟨rfl, rfl⟩
      | unset h _ =>
          rw [h.nameref] at hplain
          cases hplain
      | hop h _ _ _ =>
          rw [h.nameref] at hplain
          cases hplain
  | unset href hnone =>
      cases h' with
      | stop hplain =>
          rw [href.nameref] at hplain
          cases hplain
      | unset h _ =>
          exact ⟨rfl, by rw [href.unique h]⟩
      | hop h ht _ _ =>
          rw [href.unique h, ht] at hnone
          cases hnone
  | hop href hsome _ _ ih =>
      cases h' with
      | stop hplain =>
          rw [href.nameref] at hplain
          cases hplain
      | unset h hnone =>
          rw [href.unique h, hnone] at hsome
          cases hsome
      | hop h ht _ hrest =>
          rw [href.unique h, ht] at hsome
          obtain rfl := Option.some_inj.mp hsome
          obtain ⟨hn, he⟩ := ih hrest
          exact ⟨by rw [hn], he⟩

theorem weaken {inward : Prop} (h : Leads s outward f n e) (himp : inward → outward) :
    Leads s inward f n e := by
  induction h with
  | stop hplain => exact .stop hplain
  | unset href hnone => exact .unset href hnone
  | hop href hsome hout _ ih => exact .hop href hsome (fun h => hout (himp h)) ih

end Leads

/-- The pointer points to what the store has there. -/
def Genuine (s : VarStore) (f : Found) : Prop := s.instanceAt f.level f.var.name = some f.var

theorem genuine_of_varLookup {s : VarStore} {name : CString} {f : Found}
    (h : s.varLookup name = some f) : Genuine s f := by
  unfold Genuine
  rw [varLookup_name h]
  exact (varLookup_eq_some_iff.mp h).1

theorem Genuine.eq_of_same {s : VarStore} {f g : Found} (hf : Genuine s f) (hg : Genuine s g)
    (h : f.same g = true) : f = g := by
  obtain ⟨hlevel, hname⟩ := Bool.and_eq_true_iff.mp h
  rw [beq_iff_eq] at hlevel hname
  unfold Genuine at hf hg
  rw [hlevel, hname, hg] at hf
  obtain ⟨_, _⟩ := f
  obtain ⟨_, _⟩ := g
  cases hlevel
  cases Option.some_inj.mp hf
  rfl

variable {s : VarStore} {outward : Prop}

theorem Leads.genuine {f g : Found} {ns : List ℕ}
    (h : Leads s outward f ns (.inl g)) (hf : Genuine s f) :
    Genuine s g ∧ g.var.attributes.nameref = false := by
  generalize he : (Sum.inl g : Found ⊕ CString) = e at h
  induction h with
  | stop hplain =>
      cases he
      exact ⟨hf, hplain⟩
  | unset _ _ => cases he
  | hop _ hsome _ _ ih => exact ih (genuine_of_varLookup hsome) he

theorem Leads.end_level {name : CString} {f g : Found} {ns : List ℕ}
    (h : Leads s outward f ns (.inl g)) (hf : s.varLookup name = some f) :
    g.level ≤ s.globalLevel := by
  generalize he : (Sum.inl g : Found ⊕ CString) = e at h
  induction h generalizing name with
  | stop _ =>
      cases he
      exact varLookup_level_le hf
  | unset _ _ => cases he
  | hop _ hsome _ _ ih => exact ih hsome he

theorem Leads.unset_lookup {f : Found} {ns : List ℕ} {t : CString}
    (h : Leads s outward f ns (.inr t)) :
    s.varLookup t = none ∧ validIdentifier t = true := by
  generalize he : (Sum.inr t : Found ⊕ CString) = e at h
  induction h with
  | stop _ => cases he
  | unset href hnone =>
      cases he
      exact ⟨hnone, href.valid⟩
  | hop _ _ _ _ ih => exact ih he

/-! ## The reader -/

/-- What the search makes of the end of a way. -/
def endOf : Found ⊕ CString → VarSearch
  | .inl g => .found g
  | .inr _ => .null

theorem followNameref_leads {orig v : Found} {n : List ℕ} {left : ℕ} {e : Found ⊕ CString}
    (h : Leads s outward v n e) (before : List ℕ) (horig : Leads s outward orig (before ++ n) e)
    (hgenuine : Genuine s orig) (hv : Genuine s v) (hn : n.length ≤ left) :
    s.followNameref orig left v = endOf e := by
  induction h generalizing before left with
  | stop hplain =>
      unfold followNameref
      rw [hplain, if_neg Bool.false_ne_true]
      rfl
  | unset href hnone =>
      obtain ⟨left, rfl⟩ : ∃ k, left = k + 1 := Nat.exists_eq_add_of_le' hn
      unfold followNameref
      rw [href.nameref, if_pos rfl]
      dsimp only
      rw [href.target_eq]
      dsimp only
      rw [hnone]
      rfl
  | @hop f g t n e href hsome hout hrest ih =>
      obtain ⟨left, rfl⟩ : ∃ k, left = k + 1 :=
        Nat.exists_eq_add_of_le' (Nat.lt_of_lt_of_le (Nat.succ_pos _) hn)
      have hg := genuine_of_varLookup hsome
      have horig' : g.same orig = false := by
        rw [Bool.eq_false_iff]
        intro hsame
        obtain rfl := hg.eq_of_same hgenuine hsame
        have hcount := congrArg List.length (hrest.unique horig).1
        simp only [List.length_append, List.length_cons] at hcount
        omega
      have hself : g.same f = false := by
        rw [Bool.eq_false_iff]
        intro hsame
        obtain rfl := hg.eq_of_same hv hsame
        have hcount := congrArg List.length (hrest.unique (.hop href hsome hout hrest)).1
        simp only [List.length_cons] at hcount
        omega
      unfold followNameref
      rw [href.nameref, if_pos rfl]
      dsimp only
      rw [href.target_eq]
      dsimp only
      rw [hsome]
      dsimp only
      rw [horig', hself, Bool.or_false, if_neg Bool.false_ne_true]
      apply ih (before ++ [f.level]) (by simpa using horig) hg
      exact Nat.le_of_succ_le_succ hn

theorem findVariableNameref_leads {f : Found} {n : List ℕ} {e : Found ⊕ CString}
    (h : Leads s outward f n e) (hf : Genuine s f) (hn : n.length ≤ namerefMax) :
    s.findVariableNameref f = endOf e := followNameref_leads h [] h hf hf hn

/-- A reader of a name finds the end of the way from its innermost instance. -/
theorem findVariable_leads {name : CString} {f : Found} {n : List ℕ} {e : Found ⊕ CString}
    (hf : s.varLookup name = some f) (h : Leads s outward f n e) (hn : n.length ≤ namerefMax) :
    s.findVariable name = e.getLeft? := by
  unfold findVariable
  rw [hf]
  dsimp only
  rw [findVariableNameref_leads h (genuine_of_varLookup hf) hn]
  cases h with
  | stop hplain =>
      rw [hplain, if_neg Bool.false_ne_true]
      rfl
  | unset href _ =>
      rw [href.nameref, if_pos rfl]
      rfl
  | hop href _ _ _ =>
      rw [href.nameref, if_pos rfl]
      cases e <;> rfl

/-- The last nameref of a way to a variable that does not exist. -/
theorem lastNameref_leads {v : Found} {n : List ℕ} {left : ℕ} {t : CString} {vflags : Bool}
    (h : Leads s outward v n (.inr t)) (nv : Found) (hn : n.length ≤ left) :
    ∃ f, IsNameref f t ∧ s.lastNameref vflags left nv (some v) = some f := by
  generalize he : (Sum.inr t : Found ⊕ CString) = e at h
  induction h generalizing left nv with
  | stop _ => cases he
  | @unset f t' href hnone =>
      cases he
      obtain ⟨left, rfl⟩ : ∃ k, left = k + 1 := Nat.exists_eq_add_of_le' hn
      refine ⟨f, href, ?_⟩
      unfold lastNameref
      rw [href.nameref, if_pos rfl]
      dsimp only
      rw [href.target_eq]
      dsimp only
      rw [hnone]
      unfold lastNameref
      rfl
  | @hop f g t' n e href hsome _ _ ih =>
      obtain ⟨left, rfl⟩ : ∃ k, left = k + 1 :=
        Nat.exists_eq_add_of_le' (Nat.lt_of_lt_of_le (Nat.succ_pos _) hn)
      obtain ⟨last, hlast, hfound⟩ := ih f (Nat.le_of_succ_le_succ hn) he
      refine ⟨last, hlast, ?_⟩
      unfold lastNameref
      rw [href.nameref, if_pos rfl]
      dsimp only
      rw [href.target_eq]
      dsimp only
      rw [hsome]
      exact hfound

/-! ## The assignment's search -/

/-- Whatever the nameref names is at the level or further out. -/
def NextFrom (s : VarStore) (level : ℕ) (f : Found) : Prop :=
  ∀ t g, IsNameref f t → s.varLookup t = some g → level ≤ g.level

theorem Leads.nextFrom {f : Found} {ns : List ℕ} {e : Found ⊕ CString}
    (h : Leads s True f ns e) : NextFrom s f.level f := by
  intro t g href hsome
  cases h with
  | stop hplain =>
      rw [href.nameref] at hplain
      cases hplain
  | unset href' hnone =>
      obtain rfl := href.unique href'
      rw [hnone] at hsome
      cases hsome
  | hop href' ht hout _ =>
      obtain rfl := href.unique href'
      rw [ht] at hsome
      obtain rfl := Option.some_inj.mp hsome
      exact hout trivial

theorem hashLookup_of_varLookup {t : CString} {g : Found} (h : s.varLookup t = some g) :
    hashLookup t (s.tables[g.level]?.getD none) = some g.var := (varLookup_eq_some_iff.mp h).1

theorem hashLookup_before {t : CString} {g : Found} {level : ℕ} (h : s.varLookup t = some g)
    (hlevel : level < g.level) : hashLookup t (s.tables[level]?.getD none) = none :=
  (varLookup_eq_some_iff.mp h).2 level hlevel

/-- In one context the search goes on to the last instance of the way in this context. -/
theorem namerefAt_leads {level left : ℕ} {nv : Found} {ns : List ℕ} {e : Found ⊕ CString}
    (h : Leads s True nv ns e) (hnext : NextFrom s level nv)
    (hleft : ns ≠ [] → ns.tail.count level < left) :
    ∃ nv' ns', namerefAt (s.tables[level]?.getD none) level left nv = .found nv' ∧
      Leads s True nv' ns' e ∧ NextFrom s (level + 1) nv' ∧ ns'.tail <:+ ns.tail ∧
      (nv' = nv ∨ nv'.level = level) := by
  induction h generalizing left with
  | @stop f hplain =>
      refine ⟨f, [], ?_, .stop hplain, ?_, List.suffix_refl _, .inl rfl⟩
      · unfold namerefAt
        rw [hplain, if_neg Bool.false_ne_true]
      · intro t g href
        rw [href.nameref] at hplain
        cases hplain
  | @unset f t href hnone =>
      obtain ⟨left, rfl⟩ := Nat.exists_eq_succ_of_ne_zero
        (Nat.ne_of_gt (Nat.lt_of_le_of_lt (Nat.zero_le _) (hleft (List.cons_ne_nil _ _))))
      refine ⟨f, [f.level], ?_, .unset href hnone, ?_, List.suffix_refl _, .inl rfl⟩
      · unfold namerefAt
        rw [href.nameref, if_pos rfl]
        dsimp only
        rw [href.target_eq]
        dsimp only
        have hlook : hashLookup t (s.tables[level]?.getD none) = none :=
          varLookup_eq_none_iff.mp hnone level
        rw [hlook]
      · intro t' g href' ht'
        obtain rfl := href.unique href'
        rw [hnone] at ht'
        cases ht'
  | @hop f g t n e href hsome hout hrest ih =>
      obtain ⟨left, rfl⟩ := Nat.exists_eq_succ_of_ne_zero
        (Nat.ne_of_gt (Nat.lt_of_le_of_lt (Nat.zero_le _) (hleft (List.cons_ne_nil _ _))))
      unfold namerefAt
      rw [href.nameref, if_pos rfl]
      dsimp only
      rw [href.target_eq]
      dsimp only
      rcases Nat.eq_or_lt_of_le (hnext t g href hsome) with hhere | hbeyond
      · have hlook := hashLookup_of_varLookup hsome
        rw [← hhere] at hlook
        rw [hlook]
        have hg : (⟨level, g.var⟩ : Found) = g := by rw [hhere]
        dsimp only
        rw [hg]
        have hgnext : NextFrom s level g := by
          rw [hhere]
          exact hrest.nextFrom
        have hgleft : n ≠ [] → n.tail.count level < left := by
          intro hne
          have hcount := hleft (List.cons_ne_nil _ _)
          rw [List.tail_cons] at hcount
          cases hrest with
          | stop _ => exact absurd rfl hne
          | unset _ _ =>
              rw [← hhere, List.count_cons_self] at hcount
              exact Nat.lt_of_succ_lt_succ hcount
          | hop _ _ _ _ =>
              rw [← hhere, List.count_cons_self] at hcount
              exact Nat.lt_of_succ_lt_succ hcount
        obtain ⟨nv', ns', hfound, hleads, hnext', hsuffix, hwhere⟩ := ih hgnext hgleft
        refine ⟨nv', ns', hfound, hleads, hnext', hsuffix.trans (List.tail_suffix _), .inr ?_⟩
        rcases hwhere with rfl | hwhere
        · exact hhere.symm
        · exact hwhere
      · rw [hashLookup_before hsome hbeyond]
        refine ⟨f, f.level :: n, rfl, .hop href hsome hout hrest, ?_, List.suffix_refl _, .inl rfl⟩
        intro t' g' href' hsome'
        obtain rfl := href.unique href'
        rw [hsome] at hsome'
        obtain rfl := Option.some_inj.mp hsome'
        exact hbeyond

theorem drop_tail {tables rest : List (Option VarTable)} {table : Option VarTable} {level : ℕ}
    (h : tables.drop level = table :: rest) :
    tables[level]?.getD none = table ∧ tables.drop (level + 1) = rest := by
  rw [← List.head?_drop, ← List.tail_drop, h]
  exact ⟨rfl, rfl⟩

/-- The plain variable at the end of an outward way, with its context. -/
theorem namerefContext_leads {g : Found} {tables : List (Option VarTable)} {level nvc : ℕ}
    {nv : Found} {ns : List ℕ} (htables : s.tables.drop level = tables)
    (h : Leads s True nv ns (.inl g)) (href : nv.var.attributes.nameref = true)
    (hnext : NextFrom s level nv) (hcount : ∀ j, ns.tail.count j < namerefMax - 1) :
    namerefContext level tables nv nvc = (.found g, g.level) := by
  induction tables generalizing level nvc nv ns with
  | nil =>
      cases h with
      | stop hplain =>
          rw [href] at hplain
          cases hplain
      | hop hname hsome _ _ =>
          have hbeyond := hnext _ _ hname hsome
          have hwithin := varLookup_level_le hsome
          have hlength := List.drop_eq_nil_iff.mp htables
          rw [s.length_tables] at hlength
          omega
  | cons table rest ih =>
      obtain ⟨nv', ns', hfound, hleads, hnext', hsuffix, hwhere⟩ :=
        namerefAt_leads h hnext (fun _ => hcount level)
      obtain ⟨htable, hrest⟩ := drop_tail htables
      rw [htable] at hfound
      unfold namerefContext findNamerefAtContext
      rw [hfound]
      dsimp only
      by_cases hplain : nv'.var.attributes.nameref = true
      · rw [if_pos hplain]
        exact ih hrest hleads hplain hnext'
          (fun j => Nat.lt_of_le_of_lt (hsuffix.count_le j) (hcount j))
      · rw [if_neg hplain]
        cases hleads with
        | hop hname _ _ _ => exact absurd hname.nameref hplain
        | stop _ =>
            rcases hwhere with rfl | hwhere
            · exact absurd href hplain
            · rw [hwhere]

theorem Leads.nameref_of_unset {f : Found} {ns : List ℕ} {t : CString}
    (h : Leads s outward f ns (.inr t)) : f.var.attributes.nameref = true := by
  cases h with
  | unset href _ => exact href.nameref
  | hop href _ _ _ => exact href.nameref

/-- Past the global context only the last nameref is left. -/
theorem Leads.last_of_beyond {f : Found} {ns : List ℕ} {t : CString} {level : ℕ}
    (h : Leads s outward f ns (.inr t)) (hnext : NextFrom s level f) (hlevel : s.globalLevel < level) :
    IsNameref f t := by
  cases h with
  | unset href _ => exact href
  | hop href hsome _ _ =>
      have hbeyond := hnext _ _ href hsome
      have hwithin := varLookup_level_le hsome
      omega

theorem namerefContext_unset {t : CString} {tables : List (Option VarTable)} {level nvc : ℕ}
    {nv : Found} {ns : List ℕ} (htables : s.tables.drop level = tables)
    (h : Leads s True nv ns (.inr t)) (hnext : NextFrom s level nv)
    (hcount : ∀ j, ns.tail.count j < namerefMax - 1) :
    ∃ nvc', namerefContext level tables nv nvc = (.null, nvc') := by
  induction tables generalizing level nvc nv ns with
  | nil =>
      refine ⟨nvc, ?_⟩
      unfold namerefContext
      rw [h.nameref_of_unset, if_pos rfl]
  | cons table rest ih =>
      obtain ⟨nv', ns', hfound, hleads, hnext', hsuffix, -⟩ :=
        namerefAt_leads h hnext (fun _ => hcount level)
      obtain ⟨htable, hrest⟩ := drop_tail htables
      rw [htable] at hfound
      unfold namerefContext findNamerefAtContext
      rw [hfound]
      dsimp only
      rw [hleads.nameref_of_unset, if_pos rfl]
      exact ih hrest hleads hnext'
        (fun j => Nat.lt_of_le_of_lt (hsuffix.count_le j) (hcount j))

/-- The last nameref of an outward way, with the global context. -/
theorem lastNamerefContext_leads {t : CString} {tables : List (Option VarTable)} {level nvc : ℕ}
    {nv : Found} {ns : List ℕ} (htables : s.tables.drop level = tables)
    (h : Leads s True nv ns (.inr t)) (hnext : NextFrom s level nv)
    (hcount : ∀ j, ns.tail.count j < namerefMax - 1)
    (hnvc : s.globalLevel < level → nvc = s.globalLevel) :
    ∃ last, IsNameref last t ∧
      lastNamerefContext level tables nv nvc = (.found last, s.globalLevel) := by
  induction tables generalizing level nvc nv ns with
  | nil =>
      have hlength := List.drop_eq_nil_iff.mp htables
      rw [s.length_tables] at hlength
      refine ⟨nv, h.last_of_beyond hnext hlength, ?_⟩
      unfold lastNamerefContext
      rw [h.nameref_of_unset, if_pos rfl, hnvc hlength]
  | cons table rest ih =>
      obtain ⟨nv', ns', hfound, hleads, hnext', hsuffix, -⟩ :=
        namerefAt_leads h hnext (fun _ => hcount level)
      obtain ⟨htable, hrest⟩ := drop_tail htables
      rw [htable] at hfound
      unfold lastNamerefContext findNamerefAtContext
      rw [hfound]
      dsimp only
      apply ih hrest hleads hnext' (fun j => Nat.lt_of_le_of_lt (hsuffix.count_le j) (hcount j))
      intro hlast
      have hlength := congrArg List.length htables
      rw [List.length_drop, s.length_tables, List.length_cons] at hlength
      omega

end Rash
