import Rash.Redir.UndoList

/-!
# Redirections one at a time

For each instruction, the entries that it puts on the undo list lead back to the descriptors
before it, whether it succeeds or fails on the way.  The conditions are those that the code
itself does not look at.
-/

namespace Rash

open DescriptorTable

namespace RedirWorld

variable {Θ F : Type} {w : RedirWorld Θ F} {s s' s₀ : RedirState Θ F} {flags : ℕ}

/-- A descriptor that is in use can be duplicated onto. -/
def InLimit (w : RedirWorld Θ F) (t : DescriptorTable F) (d : Int) : Prop :=
  t.isOpen d = true → d < w.limit

instance (w : RedirWorld Θ F) (t : DescriptorTable F) (d : Int) : Decidable (w.InLimit t d) :=
  inferInstanceAs (Decidable (_ → _))

/-! ## The redirector -/

/-- The redirector is remembered; `tmp` is a descriptor that is closed at the end. -/
theorem rememberRedirector_plain {ri : RInstruction} {d src fdbase : Int} (tmp : Int)
    (hundoable : hasFlag flags rxUndoable = true)
    (h : w.rememberRedirector s flags ri false d src fdbase = some s')
    (hlimit : src ≠ d → w.InLimit s.table d) (hsame : src = d → tmp = d)
    (htmp : tmp < 0 ∨ tmp = src ∧ ∃ f, s.table.file tmp = some f) :
    ∃ entries ops, Remembered w.limit d ops (s.table.close tmp) (s'.table.close tmp) ∧
      List.Forall₂ Undoes entries ops ∧ s'.undo = entries ++ s.undo ∧ s'.kept = s.kept := by
  have hclosed : (s.table.close tmp).file d = none → s' = s.addUndoCloseRedirect d →
      ∃ entries ops, Remembered w.limit d ops (s.table.close tmp) (s'.table.close tmp) ∧
        List.Forall₂ Undoes entries ops ∧ s'.undo = entries ++ s.undo ∧ s'.kept = s.kept := by
    rintro hd rfl
    exact ⟨[_], _, .closed hd, undoes_addUndoClose d, rfl, rfl⟩
  simp only [rememberRedirector, hundoable, Bool.not_false, Bool.true_or, Bool.and_true,
    if_true, Bool.and_false, Bool.false_and, Bool.false_eq_true, if_false] at h
  split at h
  · next hcond =>
      obtain ⟨hsrc, hopen⟩ : src ≠ d ∧ s.table.isOpen d = true := by simpa using hcond
      obtain ⟨f, n, entries, hf, hnone, htable, hundo, hentries, hkept, _⟩ :=
        addUndoRedirect_spec h
      have hdtmp : d ≠ tmp := by
        rcases htmp with htmp | ⟨rfl, _⟩
        · have hd := s.table.nonneg d f hf
          omega
        · exact hsrc.symm
      have hntmp : (n : Int) ≠ tmp := by
        rcases htmp with htmp | ⟨_, g, hg⟩
        · omega
        · rintro rfl
          rw [hg] at hnone
          cases hnone
      refine ⟨entries, _, ?_, hentries, hundo, hkept⟩
      rw [htable, put_close_of_ne hntmp]
      exact .saved (by simp [hdtmp, hf]) (hlimit hsrc hopen) _ (by simp [hnone])
  · next hcond =>
      refine hclosed ?_ (Option.some.inj h).symm
      by_cases hsrc : src = d
      · simp [hsame hsrc]
      · have hd : s.table.isOpen d = false := by simpa [hsrc] using hcond
        simp [not_isOpen_iff.mp hd]

/-- Only a descriptor that is in use is saved. -/
theorem rememberRedirector_closed {ri : RInstruction} {varassign : Bool} {d src fdbase : Int}
    (h : w.rememberRedirector s flags ri varassign d src fdbase = some s')
    (hclosed : s.table.isOpen d = false) : s'.table = s.table := by
  simp only [rememberRedirector, hclosed, Bool.and_false, Bool.false_eq_true, if_false] at h
  split_ifs at h <;> cases h <;> rfl

/-- A descriptor stays in use while another one is saved. -/
theorem rememberRedirector_isOpen {ri : RInstruction} {varassign : Bool} {d src fdbase q : Int}
    (h : w.rememberRedirector s flags ri varassign d src fdbase = some s')
    (hopen : s.table.isOpen q = true) : s'.table.isOpen q = true := by
  unfold rememberRedirector at h
  split_ifs at h
  · cases h
    exact hopen
  · obtain ⟨f, n, _, _, _, htable, _⟩ := addUndoRedirect_spec h
    rw [htable]
    by_cases hq : q = n
    · simp [DescriptorTable.isOpen, hq]
    · simpa [DescriptorTable.isOpen, hq] using hopen
  · cases h
    exact hopen
  · cases h
    exact hopen

theorem addUndoRedirect_inLimit {ri : RInstruction} {fd fdbase d : Int}
    (h : w.addUndoRedirect s fd ri fdbase = some s') (hlimit : w.InLimit s.table d) :
    w.InLimit s'.table d := by
  obtain ⟨⟨n, low, u⟩, hsave, rfl⟩ := Option.map_eq_some_iff.mp h
  obtain ⟨base, hdup⟩ := saveFd_spec hsave
  obtain ⟨f, _, _, hn, rfl⟩ := dupfd_spec hdup
  intro hopen
  by_cases hd : d = n
  · omega
  · exact hlimit (by simpa [DescriptorTable.isOpen, hd] using hopen)

theorem rememberRedirector_inLimit {ri : RInstruction} {varassign : Bool}
    {d src fdbase q : Int} (h : w.rememberRedirector s flags ri varassign d src fdbase = some s')
    (hlimit : w.InLimit s.table q) : w.InLimit s'.table q := by
  unfold rememberRedirector at h
  split_ifs at h
  · cases h
    exact hlimit
  · exact addUndoRedirect_inLimit h hlimit
  · cases h
    exact hlimit
  · cases h
    exact hlimit

theorem rememberRedirector_var {ri : RInstruction} {d src fdbase : Int}
    (hundoable : hasFlag flags rxUndoable = true) (hne : src ≠ d) :
    w.rememberRedirector s flags ri true d src fdbase =
      some (if w.varassignRedirAutoclose s.rest then s.addUndoCloseRedirect d else s) := by
  cases hauto : w.varassignRedirAutoclose s.rest <;>
    simp [rememberRedirector, hundoable, hauto, hne]

theorem assignRedirector_plain {var : Redirectee} {d src errFd : Int}
    {r : Except RedirectError Unit}
    (h : w.assignRedirector s false var d src errFd = (r, s')) :
    (∃ e, r = .error e ∧ s' = s.closeFd errFd) ∨
      (r = .ok () ∧ src = d ∧ s' = s) ∨
      (r = .ok () ∧ src ≠ d ∧ s'.undo = s.undo ∧ s'.kept = s.kept ∧
        ∃ f, ∃ hd : 0 ≤ d, s.table.file src = some f ∧ d < w.limit ∧
          s'.table = s.table.put d hd f) := by
  simp only [assignRedirector, Bool.false_eq_true, if_false] at h
  split at h
  · next hne =>
      have hsrc : src ≠ d := by simpa using hne
      cases hdup : w.dup2 s src d with
      | none =>
          rw [hdup] at h
          cases h
          exact .inl ⟨_, rfl, s.closeOnError_eq errFd⟩
      | some u =>
          rw [hdup] at h
          cases h
          obtain ⟨t, ht, rfl⟩ := Option.map_eq_some_iff.mp hdup
          obtain ⟨f, hf, hd, rfl⟩ := dup2_eq_some.mp ht
          exact .inr (.inr ⟨rfl, hsrc, rfl, rfl, f, hd.1, hf, hd.2, rfl⟩)
  · next heq =>
      cases h
      exact .inr (.inl ⟨rfl, by simpa using heq, rfl⟩)

/-- The variable is assigned, or its descriptor is closed. -/
theorem assignRedirector_var {var : Redirectee} {d src errFd : Int}
    {r : Except RedirectError Unit}
    (h : w.assignRedirector s true var d src errFd = (r, s')) :
    (∃ e, r = .error e ∧ s'.undo = s.undo ∧ s'.kept = s.kept ∧
        s'.table = (s.table.close d).close errFd) ∨
      (r = .ok () ∧ s'.undo = s.undo ∧ s'.table = s.table ∧ s'.kept =
        if w.varassignRedirAutoclose s.rest then s.kept else .assigned d :: s.kept) := by
  simp only [assignRedirector, if_true] at h
  split at h
  · cases h
    exact .inr ⟨rfl, rfl, rfl, rfl⟩
  · cases h
    rw [RedirState.closeOnError_eq]
    exact .inl ⟨_, rfl, rfl, rfl, rfl⟩

/-! ## Files and here-documents -/

/-- `s` is `s₀` with a file opened at a number that was not in use. -/
structure OpenedFrom (s₀ s : RedirState Θ F) (fd : ℕ) (f : F) : Prop where
  unused : s₀.table.file fd = none
  table : s.table = s₀.table.put fd (Int.natCast_nonneg fd) f
  undo : s.undo = s₀.undo
  kept : s.kept = s₀.kept

namespace OpenedFrom

variable {fd : ℕ} {f : F}

theorem close (h : OpenedFrom s₀ s fd f) : s.table.close fd = s₀.table := by
  rw [h.table, put_close h.unused]

theorem isOpen (h : OpenedFrom s₀ s fd f) : s.table.file fd = some f := by
  rw [h.table]
  simp

theorem inLimit (h : OpenedFrom s₀ s fd f) {d : Int} (hlimit : w.InLimit s₀.table d)
    (hne : d ≠ fd) : w.InLimit s.table d := by
  intro hopen
  rw [h.table] at hopen
  exact hlimit (by simpa [DescriptorTable.isOpen, hne] using hopen)

/-- Closing the file undoes the opening. -/
theorem closed (h : OpenedFrom s₀ s fd f) : Undone w s₀ (s.closeFd fd) :=
  .of_eq h.undo h.kept h.close

/-- A redirector that was remembered may change until the file is closed. -/
theorem undone (h : OpenedFrom s₀ s fd f) {d : Int} {u : RedirState Θ F}
    {entries : List Redirect} {ops : List Op} {t : DescriptorTable F}
    (hrem : Remembered w.limit d ops (s.table.close fd) t)
    (hentries : List.Forall₂ Undoes entries ops) (hundo : u.undo = entries ++ s.undo)
    (hkept : s.kept <:+ u.kept) (hchanges : ChangesAt d u.keptFds t u.table) :
    Undone w s₀ u := by
  rw [h.close] at hrem
  rw [h.undo] at hundo
  rw [h.kept] at hkept
  exact hrem.undone hentries hundo hkept hchanges

end OpenedFrom

theorem closeUnless_undo (s : RedirState Θ F) (fd d : Int) : (closeUnless s fd d).undo = s.undo := by
  unfold closeUnless
  split <;> rfl

theorem closeUnless_kept (s : RedirState Θ F) (fd d : Int) : (closeUnless s fd d).kept = s.kept := by
  unfold closeUnless
  split <;> rfl

theorem closeUnless_table (s : RedirState Θ F) {fd d : Int} (hne : fd ≠ d) :
    (closeUnless s fd d).table = s.table.close fd := by
  simp [closeUnless, hne, RedirState.closeFd]

theorem closeUnless_congr (h : SameFds s s') (fd d : Int) :
    SameFds (closeUnless s fd d) (closeUnless s' fd d) := by
  refine ⟨?_, ?_, ?_⟩
  · unfold closeUnless
    split
    · simp [RedirState.closeFd, h.table]
    · exact h.table
  · rw [closeUnless_undo, closeUnless_undo, h.undo]
  · rw [closeUnless_kept, closeUnless_kept, h.kept]

theorem setCloseOnExec_if {p : Prop} [Decidable p] (s : RedirState Θ F) (fd : Int)
    (value : Bool) : SameFds s (if p then s.setCloseOnExec fd value else s) := by
  split <;> exact ⟨rfl, rfl, rfl⟩

/-- `check_bash_input` as the steps call it. -/
theorem checkBashInput_if (hundoable : hasFlag flags rxUndoable = true) (s : RedirState Θ F)
    (d : Int) :
    (if hasFlag flags rxUndoable = true then w.checkBashInput s d else s) =
      w.checkBashInput s d := by
  simp [hundoable]

/-- The file is installed at a descriptor that is not the one of a variable. -/
theorem installFd_plain {t : Translated} {var : Redirectee} {d : Int} {fd : ℕ} {f : F}
    {r : Except RedirectError Unit} (hundoable : hasFlag flags rxUndoable = true)
    (hvar : t.isVarassign = false) (hopened : OpenedFrom s₀ s fd f)
    (hlimit : w.InLimit s₀.table d) (h : w.installFd s flags t var d fd = (r, s')) :
    (∀ e, r = .error e → Undone w s₀ s') ∧ (r = .ok () → Undone w s₀ (closeUnless s' fd d)) := by
  unfold installFd at h
  simp only [hvar, checkBashInput_if hundoable] at h
  split at h
  · cases h
    rw [RedirState.closeOnError_eq]
    exact ⟨fun _ _ => hopened.closed, fun hr => by cases hr⟩
  · next s₁ hremember =>
      obtain ⟨entries, ops, hrem, hentries, hundo, hkept⟩ :=
        rememberRedirector_plain fd hundoable hremember
          (fun hne => hopened.inLimit hlimit hne.symm) id (.inr ⟨rfl, f, hopened.isOpen⟩)
      obtain ⟨hkept₂, hundo₂, _, hchanges⟩ := checkBashInput_spec (w := w) s₁ d
      rw [hkept] at hkept₂
      rw [hundo] at hundo₂
      split at h
      · next e u hassign =>
          cases h
          rcases assignRedirector_plain hassign with ⟨_, _, rfl⟩ | ⟨hr, _⟩ | ⟨hr, _⟩
          · exact ⟨fun _ _ => hopened.undone hrem hentries hundo₂ hkept₂ (hchanges.close _),
              fun hr => by cases hr⟩
          · cases hr
          · cases hr
      · next u hassign =>
          cases h
          refine ⟨fun _ hr => (by cases hr), fun _ => ?_⟩
          refine Undone.congr ?_ (closeUnless_congr (setCloseOnExec_if u d true) fd d)
          rcases assignRedirector_plain hassign with ⟨_, hr, _⟩ | ⟨_, hfd, hu⟩ |
            ⟨_, hne, hundo₃, hkept₃, g, hd, _, _, htable⟩
          · cases hr
          · subst hfd
            have hsame : closeUnless u fd fd = w.checkBashInput s₁ fd := by
              rw [hu]
              simp [closeUnless]
            rw [hsame]
            exact hopened.undone hrem hentries hundo₂ hkept₂
              ((ChangesAt.of_close _).trans hchanges)
          · refine hopened.undone hrem hentries ?_ ?_ ?_
            · rw [closeUnless_undo, hundo₃, hundo₂]
            · rw [closeUnless_kept, hkept₃]
              exact hkept₂
            · rw [closeUnless_table _ hne, htable]
              have hfds : (closeUnless u fd d).keptFds = (w.checkBashInput s₁ d).keptFds := by
                rw [RedirState.keptFds, closeUnless_kept, hkept₃, RedirState.keptFds]
              rw [hfds]
              exact (hchanges.trans (ChangesAt.put_self hd g _)).close _

/-- The new descriptor of a variable is closed when the list is taken back, if the option is
set; else it stays. -/
theorem rememberedVar_undone {d : Int} {autoclose : Bool} {u : RedirState Θ F}
    (hd : s₀.table.file d = none)
    (hundo : u.undo =
      if autoclose = true then (s₀.addUndoCloseRedirect d).undo else s₀.undo)
    (hkept : s₀.kept <:+ u.kept) (hchanges : ChangesAt d u.keptFds s₀.table u.table)
    (hcase : autoclose = true ∨ d ∈ u.keptFds ∨ u.table.file d = none) : Undone w s₀ u := by
  cases autoclose with
  | true => exact (Remembered.closed hd).undone (undoes_addUndoClose d) hundo hkept hchanges
  | false =>
      refine .of_extends hundo hkept (hchanges.extends_of ?_)
      rcases hcase with hauto | hmem | hnone
      · cases hauto
      · exact .inr ⟨hmem, hd⟩
      · exact .inl (by rw [hnone, hd])

/-- The file is installed at a new descriptor, for a variable. -/
theorem installFd_var {t : Translated} {var : Redirectee} {s₁ : RedirState Θ F} {n fd : ℕ}
    {f g : F} {r : Except RedirectError Unit} (hundoable : hasFlag flags rxUndoable = true)
    (hvar : t.isVarassign = true) (hopened : OpenedFrom s₀ s₁ fd f)
    (halloc : OpenedFrom s₁ s n g) (h : w.installFd s flags t var n fd = (r, s')) :
    (∀ e, r = .error e → Undone w s₀ s') ∧ (r = .ok () → Undone w s₀ (closeUnless s' fd n)) := by
  have hne : (fd : Int) ≠ n := by
    intro heq
    have hnone := halloc.unused
    rw [← heq, hopened.isOpen] at hnone
    cases hnone
  unfold installFd at h
  simp only [hvar, checkBashInput_if hundoable, rememberRedirector_var hundoable hne] at h
  have hs : s.table.close fd = s₀.table.put n (Int.natCast_nonneg n) g := by
    rw [halloc.table, put_close_of_ne hne.symm, hopened.close]
  have hn : s₀.table.file n = none := by
    have hnone := halloc.unused
    rw [hopened.table] at hnone
    simpa [hne.symm] using hnone
  generalize hs₂ : (if w.varassignRedirAutoclose s.rest = true then s.addUndoCloseRedirect n
    else s) = s₂ at h
  obtain ⟨hkept₃, hundo₃, hrest₃, hchanges⟩ := checkBashInput_spec (w := w) s₂ n
  generalize hs₃ : w.checkBashInput s₂ n = s₃ at h hkept₃ hundo₃ hrest₃ hchanges
  have htable₂ : s₂.table = s.table := by
    rw [← hs₂]
    split <;> rfl
  have hkept₂ : s₂.kept = s₀.kept := by
    rw [← hs₂, ← hopened.kept, ← halloc.kept]
    split <;> rfl
  have hrest₂ : s₂.rest = s.rest := by
    rw [← hs₂]
    split <;> rfl
  rw [hkept₂] at hkept₃
  rw [htable₂] at hchanges
  have hbase : ChangesAt n s₃.keptFds s₀.table (s₃.table.close fd) := by
    refine (ChangesAt.put_self (Int.natCast_nonneg n) g _).trans ?_
    rw [← hs]
    exact hchanges.close fd
  have hs₂undo : s₂.undo = if w.varassignRedirAutoclose s.rest = true then
      (s₀.addUndoCloseRedirect n).undo else s₀.undo := by
    rw [← hs₂]
    split <;> simp [RedirState.addUndoCloseRedirect, halloc.undo, hopened.undo]
  have hfinish : ∀ u : RedirState Θ F, u.undo = s₃.undo → s₃.kept <:+ u.kept →
      ChangesAt n s₃.keptFds s₀.table u.table →
      w.varassignRedirAutoclose s.rest = true ∨ (n : Int) ∈ u.keptFds ∨ u.table.file n = none →
      Undone w s₀ u := fun u hundo hkept hchanges =>
    rememberedVar_undone hn (hundo.trans (hundo₃.trans hs₂undo)) (hkept₃.trans hkept)
      (hchanges.mono (Undone.keptFds_subset hkept))
  split at h
  · next e u hassign =>
      cases h
      refine ⟨fun _ _ => ?_, fun hr => by cases hr⟩
      rcases assignRedirector_var hassign with ⟨_, _, hundo, hkept, htable⟩ | ⟨hr, _⟩
      · refine hfinish _ hundo (hkept ▸ List.suffix_refl _) ?_ (.inr (.inr ?_))
        · rw [htable, close_comm]
          exact hbase.trans (ChangesAt.close_self _)
        · simp [htable]
      · cases hr
  · next u hassign =>
      cases h
      refine ⟨fun _ hr => (by cases hr), fun _ => ?_⟩
      refine Undone.congr ?_ (closeUnless_congr (setCloseOnExec_if u n true) fd n)
      rcases assignRedirector_var hassign with ⟨_, hr, _⟩ | ⟨_, hundo, htable, hkept⟩
      · cases hr
      · refine hfinish _ (by rw [closeUnless_undo, hundo]) ?_ ?_ ?_
        · rw [closeUnless_kept, hkept]
          split
          · exact List.suffix_refl _
          · exact List.suffix_cons ..
        · rw [closeUnless_table _ hne, htable]
          exact hbase
        · cases hauto : w.varassignRedirAutoclose s.rest with
          | true => exact .inl rfl
          | false =>
              refine .inr (.inl ?_)
              rw [RedirState.keptFds, closeUnless_kept, hkept, hrest₃, hrest₂, hauto]
              exact List.mem_cons_self

/-- A step that only opens descriptors that stay open. -/
structure Widened (w : RedirWorld Θ F) (s s' : RedirState Θ F) : Prop where
  undone : Undone w s s'
  inLimit : ∀ d, w.InLimit s.table d → w.InLimit s'.table d

theorem Widened.refl (s : RedirState Θ F) : Widened w s s := ⟨.refl s, fun _ => id⟩

theorem Widened.trans {s'' : RedirState Θ F} (h : Widened w s s') (h' : Widened w s' s'') :
    Widened w s s'' :=
  ⟨h.undone.trans h'.undone, fun d hd => h'.inLimit d (h.inLimit d hd)⟩

theorem Widened.of_rest (s : RedirState Θ F) (rest : Θ) :
    Widened w s { s with rest := rest } := ⟨.of_eq rfl rfl rfl, fun _ => id⟩

theorem leaveOpen_inLimit (l : List (ℕ × F)) (s : RedirState Θ F) {d : Int}
    (h : w.InLimit s.table d) : w.InLimit (w.leaveOpen s l).table d := by
  induction l generalizing s with
  | nil => exact h
  | cons p l ih =>
      obtain ⟨n, f⟩ := p
      rw [leaveOpen]
      split
      · exact ih s h
      · next hcond =>
          refine ih _ fun hopen => ?_
          by_cases hd : d = n
          · have hn : n < w.limit := by simp_all
            omega
          · exact h (by simpa [DescriptorTable.isOpen, hd] using hopen)

theorem leaveOpen_widened (s : RedirState Θ F) (rest : Θ) (l : List (ℕ × F)) :
    Widened w s (w.leaveOpen { s with rest := rest } l) :=
  (Widened.of_rest s rest).trans
    ⟨leaveOpen_undone l _, fun _ => leaveOpen_inLimit l _⟩

theorem expand_widened (s : RedirState Θ F) (word : WordDesc) :
    Widened w s (w.expand s word).2 :=
  leaveOpen_widened s _ _

theorem openFile_spec {t : Translated} {name : String} {r : Except RedirectError ℕ}
    (h : w.openFile s t name = (r, s')) :
    (∀ e, r = .error e → Widened w s s') ∧
      ∀ fd, r = .ok fd → ∃ s₀ f, Widened w s s₀ ∧ OpenedFrom s₀ s' fd f := by
  unfold openFile at h
  split at h
  · next e rest _ =>
      cases h
      exact ⟨fun _ _ => .of_rest s rest, fun _ hr => by cases hr⟩
  · next o rest _ =>
      cases h
      refine ⟨fun _ hr => (by cases hr), fun fd hr => ?_⟩
      cases hr
      exact ⟨{ s with rest := rest }, o.file, .of_rest s rest, o.unused, rfl, rfl, rfl⟩

theorem openRedirectee_spec {t : Translated} {r : Except RedirectError ℕ}
    (h : w.openRedirectee s t = (r, s')) :
    (∀ e, r = .error e → Widened w s s') ∧
      ∀ fd, r = .ok fd → ∃ s₀ f, Widened w s s₀ ∧ OpenedFrom s₀ s' fd f := by
  unfold openRedirectee at h
  dsimp only at h
  generalize hword : (if (w.posixlyCorrect s.rest && !w.interactiveShell) = true then
    { t.redirectee with flags := t.redirectee.flags ||| wordNoglob } else t.redirectee) = word at h
  have hexpand : Widened w s (if hasFlag t.rflags rxExpanded then (some t.redirectee.word, s)
      else w.expand s word).2 := by
    split
    · exact .refl s
    · exact expand_widened s word
  generalize (if hasFlag t.rflags rxExpanded then (some t.redirectee.word, s)
    else w.expand s word) = named at h hexpand
  obtain ⟨name, s₁⟩ := named
  dsimp only at h hexpand
  split at h
  · cases h
    exact ⟨fun _ _ => hexpand, fun _ hr => by cases hr⟩
  · next name =>
      split at h
      · cases h
        exact ⟨fun _ _ => hexpand, fun _ hr => by cases hr⟩
      · have hhook := hexpand.trans (leaveOpen_widened (w := w) s₁
          (w.onRedirect s₁.rest name t.instruction t.redirector).2.2
          (w.onRedirect s₁.rest name t.instruction t.redirector).2.1)
        split at h
        · cases h
          exact ⟨fun _ _ => hhook, fun _ hr => by cases hr⟩
        · obtain ⟨herror, hok⟩ := openFile_spec h
          refine ⟨fun e hr => hhook.trans (herror e hr), fun fd hr => ?_⟩
          obtain ⟨s₀, f, hwidened, hopened⟩ := hok fd hr
          exact ⟨s₀, f, hhook.trans hwidened, hopened⟩

theorem allocateRedirector_plain (s : RedirState Θ F) (redirector src errFd : Int) :
    w.allocateRedirector s false redirector src errFd = (.ok redirector, s) := rfl

theorem allocateRedirector_var {redirector src errFd : Int} {r : Except RedirectError Int}
    (h : w.allocateRedirector s true redirector src errFd = (r, s')) :
    (∃ e, r = .error e ∧ s' = s.closeFd errFd) ∨
      ∃ (n : ℕ) (g : F), r = .ok (n : Int) ∧ OpenedFrom s s' n g ∧
        w.dupfd s src shellFdBase = some (n, s') := by
  simp only [allocateRedirector, if_true] at h
  split at h
  · cases h
    exact .inl ⟨_, rfl, s.closeOnError_eq errFd⟩
  · next n u hdup =>
      cases h
      obtain ⟨g, _, hnone, _, rfl⟩ := dupfd_spec hdup
      exact .inr ⟨n, g, rfl, ⟨hnone, rfl, rfl, rfl⟩, hdup⟩

/-- A file that was opened is given to the redirector. -/
theorem install_undone {t : Translated} {var : Redirectee} {fd : ℕ} {f : F}
    {r : Except RedirectError Unit} (hundoable : hasFlag flags rxUndoable = true)
    (hopened : OpenedFrom s₀ s fd f)
    (hlimit : t.isVarassign = false → w.InLimit s₀.table t.redirector)
    (h : (match w.allocateRedirector s t.isVarassign t.redirector fd fd with
      | (.error e, s) => (.error e, s)
      | (.ok redirector, s) =>
          match w.installFd s flags t var redirector fd with
          | (.error e, s) => (.error e, s)
          | (.ok (), s) => (.ok (), closeUnless s fd redirector)) = (r, s')) :
    Undone w s₀ s' := by
  cases hvar : t.isVarassign with
  | false =>
      rw [hvar, allocateRedirector_plain] at h
      dsimp only at h
      split at h
      · next e u hinstall =>
          cases h
          exact (installFd_plain hundoable hvar hopened (hlimit hvar) hinstall).1 e rfl
      · next u hinstall =>
          cases h
          exact (installFd_plain hundoable hvar hopened (hlimit hvar) hinstall).2 rfl
  | true =>
      rw [hvar] at h
      split at h
      · next e u halloc =>
          cases h
          rcases allocateRedirector_var halloc with ⟨_, _, rfl⟩ | ⟨_, _, hr, _⟩
          · exact hopened.closed
          · cases hr
      · next redirector u halloc =>
          rcases allocateRedirector_var halloc with ⟨_, hr, _⟩ | ⟨n, g, hr, hu, _⟩
          · cases hr
          · cases hr
            split at h
            · next e v hinstall =>
                cases h
                exact (installFd_var hundoable hvar hopened hu hinstall).1 e rfl
            · next v hinstall =>
                cases h
                exact (installFd_var hundoable hvar hopened hu hinstall).2 rfl

theorem redirectToFile_undone {t : Translated} {var : Redirectee}
    {r : Except RedirectError Unit} (hactive : hasFlag flags rxActive = true)
    (hundoable : hasFlag flags rxUndoable = true)
    (hlimit : t.isVarassign = false → w.InLimit s.table t.redirector)
    (h : w.redirectToFile s flags t var = (r, s')) : Undone w s s' := by
  unfold redirectToFile at h
  split at h
  · next e u hopen =>
      cases h
      exact ((openRedirectee_spec hopen).1 e rfl).undone
  · next fd u hopen =>
      obtain ⟨s₀, f, hwidened, hopened⟩ := (openRedirectee_spec hopen).2 fd rfl
      rw [if_pos hactive] at h
      exact hwidened.undone.trans (install_undone hundoable hopened
        (fun hvar => hwidened.inLimit _ (hlimit hvar)) h)

theorem redirectToDocument_undone {t : Translated} {var : Redirectee}
    {r : Except RedirectError Unit} (hactive : hasFlag flags rxActive = true)
    (hundoable : hasFlag flags rxUndoable = true)
    (hlimit : t.isVarassign = false → w.InLimit s.table t.redirector)
    (h : w.redirectToDocument s flags t var = (r, s')) : Undone w s s' := by
  unfold redirectToDocument at h
  split at h
  · cases h
    exact .of_eq rfl rfl rfl
  · next o rest _ =>
      simp only [hactive, if_true] at h
      have hopened : OpenedFrom s
          { s with rest := rest, table := s.table.put o.fd (Int.natCast_nonneg _) o.file }
          o.fd o.file := ⟨o.unused, rfl, rfl, rfl⟩
      exact install_undone hundoable hopened hlimit h

/-- `&>` saves the standard error, which must be open for that. -/
theorem redirectStderr_undone {ri : RInstruction} {r : Except RedirectError Unit}
    (hactive : hasFlag flags rxActive = true) (hundoable : hasFlag flags rxUndoable = true)
    (hlimit : w.InLimit s.table 2)
    (hsaved : s.table.isOpen 1 = true →
      s.table.isOpen 2 = true ∧ (s.table.lowest w.limit 0).isSome)
    (h : w.redirectStderr s flags ri = (r, s')) : Undone w s s' := by
  simp only [redirectStderr, hactive, hundoable, if_true] at h
  cases hadd : w.addUndoRedirect s 2 ri (-1) with
  | none =>
      have hclosed : s.table.isOpen 1 = false := by
        by_contra hopen
        obtain ⟨hopen₂, hroom⟩ := hsaved (by simpa using hopen)
        obtain ⟨f, hf⟩ := isOpen_iff.mp hopen₂
        have hsome := addUndoRedirect_isSome ri (-1) hf hroom
        rw [hadd] at hsome
        cases hsome
      have hdup : w.dup2 s 1 2 = none := by
        simp [dup2, DescriptorTable.dup2, not_isOpen_iff.mp hclosed]
      rw [hadd, Option.getD_none, hdup] at h
      cases h
      exact .refl s
  | some u =>
      obtain ⟨f, n, entries, hf, hnone, htable, hundo, hentries, hkept, _⟩ :=
        addUndoRedirect_spec hadd
      have hrem := Remembered.saved hf (hlimit (isOpen_iff.mpr ⟨f, hf⟩))
        (Int.natCast_nonneg n) hnone
      rw [hadd, Option.getD_some] at h
      split at h
      · cases h
        refine hrem.undone hentries hundo (hkept ▸ List.suffix_refl _) ?_
        rw [htable]
        exact (Extends.refl _).changesAt
      · next v hdup =>
          cases h
          obtain ⟨t, ht, rfl⟩ := Option.map_eq_some_iff.mp hdup
          obtain ⟨g, _, hd, rfl⟩ := dup2_eq_some.mp ht
          refine hrem.undone hentries hundo (hkept ▸ List.suffix_refl _) ?_
          dsimp only
          rw [htable]
          exact ChangesAt.put_self hd.1 g _

/-! ## Descriptors -/

/-- The entries that put `src` back lead to a table that differs from the one before them at
`d` only, when the calls have changed no other descriptor. -/
theorem movedFrom_undone {s₁ s₂ u : RedirState Θ F} {src d : Int} (hne : src ≠ d)
    (hopen : s₁.table.isOpen d = true) (hlimit : w.InLimit s₁.table src)
    (hadd : w.addUndoRedirect s₁ src .closeThis (-1) = some s₂) (hundo : u.undo = s₂.undo)
    (hchanges : ∀ q, q ≠ src → q ≠ d →
      u.table.file q = s₂.table.file q ∨ q ∈ u.keptFds ∧ s₂.table.file q = none) :
    ∃ v : RedirState Θ F, v.undo = s₁.undo ∧ v.kept = u.kept ∧
      v.table.file d = u.table.file d ∧ ChangesAt d u.keptFds s₁.table v.table ∧
      Undone w v u := by
  obtain ⟨g, n, entries, hg, hnone, htable, hundo₂, hentries, hkept₂, _⟩ :=
    addUndoRedirect_spec hadd
  obtain ⟨x, hx⟩ := isOpen_iff.mp hopen
  have hnd : (n : Int) ≠ d := by
    rintro rfl
    rw [hx] at hnone
    cases hnone
  have hnsrc : (n : Int) ≠ src := by
    rintro rfl
    rw [hg] at hnone
    cases hnone
  have hun : u.table.file n = some g := by
    rcases hchanges n hnsrc hnd with h | ⟨_, h⟩
    · rw [h, htable]
      simp
    · rw [htable] at h
      simp at h
  have hsrc := s₁.table.nonneg src g hg
  refine ⟨{ u with
    table := (u.table.put src hsrc g).close n
    undo := s₁.undo }, rfl, rfl, ?_, ?_, ?_⟩
  · simp [hnd.symm, hne.symm]
  · intro q hq
    by_cases hqn : q = n
    · exact .inl (by simp [hqn, hnone])
    · by_cases hqsrc : q = src
      · exact .inl (by simp [hqsrc, hnsrc.symm, hg])
      · have h := hchanges q hqsrc hq
        rw [htable] at h
        simpa [hqn, hqsrc] using h
  · refine (Remembered.saved (t := (u.table.put src hsrc g).close n) (n := n) (f := g) ?_
      (hlimit (isOpen_iff.mpr ⟨g, hg⟩)) (Int.natCast_nonneg n) ?_).undone hentries
      (hundo.trans hundo₂) (List.suffix_refl _) ?_
    · simp [hnsrc.symm]
    · simp
    · intro q hq
      by_cases hqn : q = n
      · exact .inl (by simp [hqn, hun])
      · exact .inl (by simp [hqn, hq])

theorem rememberMove_spec {ri : RInstruction} {d src : Int} {s₁ s₂ : RedirState Θ F}
    (hundoable : hasFlag flags rxUndoable = true)
    (h : w.rememberMove s₁ flags ri d src = some s₂) :
    (ri.isMove = true ∧ s₁.table.isOpen d = true ∧
        w.addUndoRedirect s₁ src .closeThis (-1) = some s₂) ∨
      ((ri.isMove = true → s₁.table.isOpen d = false) ∧ s₂ = s₁) := by
  simp only [rememberMove, hundoable, Bool.true_and] at h
  split at h
  · next hcond =>
      obtain ⟨hmove, hopen⟩ : ri.isMove = true ∧ s₁.table.isOpen d = true := by simpa using hcond
      exact .inl ⟨hmove, hopen, h⟩
  · next hcond =>
      cases h
      exact .inr ⟨fun hmove => by simpa [hmove] using hcond, rfl⟩

theorem rememberMove_none {ri : RInstruction} {d src : Int} {s₁ : RedirState Θ F}
    (h : w.rememberMove s₁ flags ri d src = none) :
    ri.isMove = true ∧ w.addUndoRedirect s₁ src .closeThis (-1) = none := by
  unfold rememberMove at h
  split at h
  · next hcond =>
      simp only [Bool.and_eq_true] at hcond
      exact ⟨hcond.1.2, h⟩
  · cases h

theorem duplicateCloseOnExec_same (s : RedirState Θ F) (flags rflags : ℕ) (d src : Int) :
    SameFds s (duplicateCloseOnExec s flags rflags d src) := by
  unfold duplicateCloseOnExec
  dsimp only
  split_ifs <;> exact ⟨rfl, rfl, rfl⟩

/-- When is a move onto `d` taken back: the test for the close of `src` is made on `d`. -/
def MoveUndoable (w : RedirWorld Θ F) (t : DescriptorTable F) (d src : Int) : Prop :=
  w.InLimit t src ∧
    (t.isOpen d = false → src ≠ d → t.isOpen src = true → ¬ (0 ≤ d ∧ d < w.limit))

/-- The entries for a move, or for a duplication, when the descriptors have changed. -/
theorem rememberMove_undone {ri : RInstruction} {d src : Int} {s₁ s₂ u : RedirState Θ F}
    (hundoable : hasFlag flags rxUndoable = true) (hne : src ≠ d)
    (h : w.rememberMove s₁ flags ri d src = some s₂)
    (hlimit : ri.isMove = true → w.InLimit s₁.table src) (hundo : u.undo = s₂.undo) (hkept : s₁.kept <:+ u.kept)
    (hchanges : ∀ q, q ≠ src → q ≠ d →
      u.table.file q = s₂.table.file q ∨ q ∈ u.keptFds ∧ s₂.table.file q = none)
    (hsrc : ri.isMove = true ∧ s₁.table.isOpen d = true ∨
      u.table.file src = s₂.table.file src ∨ src ∈ u.keptFds ∧ s₂.table.file src = none) :
    ∃ v : RedirState Θ F, v.undo = s₁.undo ∧ v.kept = u.kept ∧
      v.table.file d = u.table.file d ∧ ChangesAt d u.keptFds s₁.table v.table ∧
      Undone w v u := by
  rcases rememberMove_spec hundoable h with ⟨hmove, hopen, hadd⟩ | ⟨hclosed, rfl⟩
  · exact movedFrom_undone hne hopen (hlimit hmove) hadd hundo hchanges
  · refine ⟨u, hundo, rfl, rfl, fun q hq => ?_, .refl u⟩
    by_cases hqsrc : q = src
    · subst hqsrc
      rcases hsrc with ⟨hmove, hopen⟩ | hsame
      · rw [hclosed hmove] at hopen
        cases hopen
      · exact hsame
    · exact hchanges q hqsrc hq

theorem rememberMove_kept {ri : RInstruction} {d src : Int} {s₁ s₂ : RedirState Θ F}
    (hundoable : hasFlag flags rxUndoable = true)
    (h : w.rememberMove s₁ flags ri d src = some s₂) : s₂.kept = s₁.kept ∧ s₂.rest = s₁.rest := by
  rcases rememberMove_spec hundoable h with ⟨_, _, hadd⟩ | ⟨_, rfl⟩
  · obtain ⟨_, _, _, _, _, _, _, _, hkept, hrest⟩ := addUndoRedirect_spec hadd
    exact ⟨hkept, hrest⟩
  · exact ⟨rfl, rfl⟩

/-- A move that goes through finds the descriptor that it moves to in use. -/
theorem move_onto_open {ri : RInstruction} {d src fdbase : Int} {s₁ s₂ : RedirState Θ F} {g : F}
    (hundoable : hasFlag flags rxUndoable = true)
    (hremember : w.rememberRedirector s flags ri false d src fdbase = some s₁)
    (hrmove : w.rememberMove s₁ flags ri d src = some s₂)
    (hmove : s.table.isOpen d = false → src ≠ d → s.table.isOpen src = true →
      ¬ (0 ≤ d ∧ d < w.limit)) (hne : src ≠ d)
    (hg : (w.checkBashInput s₂ d).table.file src = some g) (hd : 0 ≤ d) (hdlimit : d < w.limit) :
    s₁.table.isOpen d = true := by
  by_contra hclosed₁
  have hclosed : s.table.isOpen d = false := by
    by_contra hopen
    exact hclosed₁ (rememberRedirector_isOpen hremember (by simpa using hopen))
  have htable := rememberRedirector_closed hremember hclosed
  obtain rfl : s₂ = s₁ := by
    rcases rememberMove_spec hundoable hrmove with ⟨_, hopen, _⟩ | ⟨_, heq⟩
    · exact absurd hopen hclosed₁
    · exact heq
  rw [checkBashInput_closed (by simpa using not_isOpen_iff.mp (by simpa using hclosed₁)),
    htable] at hg
  exact hmove hclosed hne (isOpen_iff.mpr ⟨g, hg⟩) ⟨hd, hdlimit⟩

theorem redirectToDescriptor_plain {t : Translated} {var : Redirectee}
    {r : Except RedirectError Unit} (hactive : hasFlag flags rxActive = true)
    (hundoable : hasFlag flags rxUndoable = true) (hvar : t.isVarassign = false)
    (hlimit : w.InLimit s.table t.redirector)
    (hmove : t.instruction.isMove = true → w.MoveUndoable s.table t.redirector t.redirFd)
    (h : w.redirectToDescriptor s flags t var = (r, s')) : Undone w s s' := by
  simp only [redirectToDescriptor, hactive, if_true, hvar, allocateRedirector_plain,
    checkBashInput_if hundoable] at h
  split at h
  · cases h
    exact .refl s
  · next hne =>
      split at h
      · cases h
        exact .refl s
      · next s₁ hremember =>
          obtain ⟨entries, ops, hrem, hentries, hundo, hkept⟩ :=
            rememberRedirector_plain (-1) hundoable hremember (fun _ => hlimit)
              (fun heq => absurd heq hne) (.inl (by omega))
          rw [close_of_none (s.table.file_neg (by omega)),
            close_of_none (s₁.table.file_neg (by omega))] at hrem
          split at h
          · cases h
            exact hrem.undone hentries hundo (hkept ▸ List.suffix_refl _)
              (Extends.refl _).changesAt
          · next s₂ hrmove =>
              obtain ⟨hkept₂, _⟩ := rememberMove_kept hundoable hrmove
              obtain ⟨hkept₃, hundo₃, _, hchanges⟩ :=
                checkBashInput_spec (w := w) s₂ t.redirector
              have hlimit₁ (hm : t.instruction.isMove = true) : w.InLimit s₁.table t.redirFd :=
                rememberRedirector_inLimit hremember (hmove hm).1
              rw [hkept₂] at hkept₃
              have hfinish : ∀ u : RedirState Θ F,
                  (∃ v : RedirState Θ F, v.undo = s₁.undo ∧ v.kept = u.kept ∧
                    v.table.file t.redirector = u.table.file t.redirector ∧
                    ChangesAt t.redirector u.keptFds s₁.table v.table ∧ Undone w v u) →
                  s₁.kept <:+ u.kept → Undone w s u := by
                rintro u ⟨v, hvundo, hvkept, _, hvchanges, hvu⟩ hukept
                refine Undone.trans (hrem.undone hentries (hvundo.trans hundo) ?_ ?_) hvu
                · rw [hvkept, ← hkept]
                  exact hukept
                · rwa [RedirState.keptFds, hvkept]
              split at h
              · next e u hassign =>
                  cases h
                  rcases assignRedirector_plain hassign with ⟨_, _, rfl⟩ | ⟨hr, _⟩ | ⟨hr, _⟩
                  · have htable : ((w.checkBashInput s₂ t.redirector).closeFd (-1)).table =
                        (w.checkBashInput s₂ t.redirector).table :=
                      close_of_none (DescriptorTable.file_neg _ (by omega))
                    refine hfinish _ (rememberMove_undone hundoable hne hrmove hlimit₁ hundo₃
                      hkept₃ ?_ (.inr ?_)) hkept₃
                    · rw [htable]
                      exact fun q _ hq => hchanges q hq
                    · rw [htable]
                      exact hchanges _ hne
                  · cases hr
                  · cases hr
              · next u hassign =>
                  cases h
                  rcases assignRedirector_plain hassign with ⟨_, hr, _⟩ | ⟨_, heq, _⟩ |
                    ⟨_, _, hundo₄, hkept₄, g, hd, hg, hdlimit, htable⟩
                  · cases hr
                  · exact absurd heq hne
                  · have hsame := duplicateCloseOnExec_same u flags t.rflags t.redirector
                      t.redirFd
                    generalize duplicateCloseOnExec u flags t.rflags t.redirector t.redirFd = v
                      at hsame
                    have hvtable := hsame.table.trans htable
                    have hvundo := hsame.undo.trans (hundo₄.trans hundo₃)
                    have hvkept : v.kept = (w.checkBashInput s₂ t.redirector).kept :=
                      hsame.kept.trans hkept₄
                    have hvfds : v.keptFds = (w.checkBashInput s₂ t.redirector).keptFds :=
                      congrArg (List.map KeptDescriptor.fd) hvkept
                    have hother : ∀ q, q ≠ t.redirector →
                        v.table.file q = s₂.table.file q ∨
                          q ∈ v.keptFds ∧ s₂.table.file q = none := by
                      intro q hq
                      rw [hvtable, hvfds]
                      simpa [hq] using hchanges q hq
                    rw [← hvkept] at hkept₃
                    cases hm : t.instruction.isMove with
                    | false =>
                        rw [if_neg (by simp)]
                        exact hfinish v (rememberMove_undone hundoable hne hrmove hlimit₁ hvundo
                          hkept₃ (fun q _ hq => hother q hq) (.inr (hother _ hne))) hkept₃
                    | true =>
                        rw [if_pos rfl]
                        have hopen : s₁.table.isOpen t.redirector = true :=
                          move_onto_open hundoable hremember hrmove (hmove hm).2 hne hg hd hdlimit
                        refine hfinish _ (rememberMove_undone hundoable hne hrmove hlimit₁ hvundo
                          hkept₃ (fun q hqsrc hq => ?_) (.inl ⟨hm, hopen⟩)) hkept₃
                        have hq' : (v.closeFd t.redirFd).table.file q = v.table.file q := by
                          simp [RedirState.closeFd, hqsrc]
                        rw [hq']
                        exact hother q hq

/-- A move for a variable needs a number at which the descriptor can be saved. -/
def MoveRoom (w : RedirWorld Θ F) (s : RedirState Θ F) (src : Int) : Prop :=
  w.varassignRedirAutoclose s.rest = false →
    ∀ n u, w.dupfd s src shellFdBase = some (n, u) → (u.table.lowest w.limit 0).isSome

theorem redirectToDescriptor_var {t : Translated} {var : Redirectee}
    {r : Except RedirectError Unit} (hactive : hasFlag flags rxActive = true)
    (hundoable : hasFlag flags rxUndoable = true) (hvar : t.isVarassign = true)
    (hmove : t.instruction.isMove = true →
      w.InLimit s.table t.redirFd ∧ w.MoveRoom s t.redirFd)
    (h : w.redirectToDescriptor s flags t var = (r, s')) : Undone w s s' := by
  simp only [redirectToDescriptor, hactive, if_true, hvar, checkBashInput_if hundoable] at h
  split at h
  · next e u halloc =>
      cases h
      rcases allocateRedirector_var halloc with ⟨_, _, rfl⟩ | ⟨_, _, hr, _⟩
      · exact .of_eq rfl rfl (close_of_none (s.table.file_neg (by omega)))
      · cases hr
  · next redirector u halloc =>
      rcases allocateRedirector_var halloc with ⟨_, hr, _⟩ | ⟨n, g, hr, hu, hdup⟩
      · cases hr
      · cases hr
        have hne : t.redirFd ≠ n := by
          obtain ⟨f, hf, hnone, _⟩ := dupfd_spec hdup
          intro heq
          rw [← heq, hf] at hnone
          cases hnone
        have hrest : u.rest = s.rest := by
          obtain ⟨_, _, _, _, rfl⟩ := dupfd_spec hdup
          rfl
        rw [if_neg hne, rememberRedirector_var hundoable hne, hrest] at h
        dsimp only at h
        generalize hs₁ : (if w.varassignRedirAutoclose s.rest = true then u.addUndoCloseRedirect n
          else u) = s₁ at h
        have htable₁ : s₁.table = s.table.put n (Int.natCast_nonneg n) g := by
          rw [← hs₁, ← hu.table]
          split <;> rfl
        have hundo₁ : s₁.undo = if w.varassignRedirAutoclose s.rest = true then
            (s.addUndoCloseRedirect n).undo else s.undo := by
          rw [← hs₁]
          split <;> simp [RedirState.addUndoCloseRedirect, hu.undo]
        have hkept₁ : s₁.kept = s.kept := by
          rw [← hs₁, ← hu.kept]
          split <;> rfl
        have hrest₁ : s₁.rest = s.rest := by
          rw [← hs₁, ← hrest]
          split <;> rfl
        have hopen₁ : s₁.table.isOpen n = true := by
          rw [htable₁]
          simp [DescriptorTable.isOpen]
        have hput {K : List Int} : ChangesAt n K s.table s₁.table := by
          rw [htable₁]
          exact ChangesAt.put_self (Int.natCast_nonneg n) g _
        obtain ⟨x, hx, _⟩ := dupfd_spec hdup
        have hsrc₁ : s₁.table.file t.redirFd = some x := by
          rw [htable₁]
          simp [hne, hx]
        split at h
        · next hfail =>
            cases h
            refine rememberedVar_undone hu.unused hundo₁ (hkept₁ ▸ List.suffix_refl _) hput ?_
            cases hauto : w.varassignRedirAutoclose s.rest with
            | true => exact .inl rfl
            | false =>
                obtain ⟨hm, hnone⟩ := rememberMove_none hfail
                have hsu : s' = u := by rw [← hs₁, hauto, if_neg (by simp)]
                have hroom := (hmove hm).2 hauto n u hdup
                rw [← hsu] at hroom
                have hsome := addUndoRedirect_isSome .closeThis (-1) hsrc₁ hroom
                rw [hnone] at hsome
                cases hsome
        · next s₂ hrmove =>
            obtain ⟨hkept₂, hrest₂⟩ := rememberMove_kept hundoable hrmove
            obtain ⟨hkept₃, hundo₃, hrest₃, hchanges⟩ := checkBashInput_spec (w := w) s₂ n
            generalize w.checkBashInput s₂ n = s₃ at h hkept₃ hundo₃ hrest₃ hchanges
            rw [hkept₂] at hkept₃
            have hlimit₁ (hm : t.instruction.isMove = true) : w.InLimit s₁.table t.redirFd :=
              fun _ => (hmove hm).1 (isOpen_iff.mpr ⟨x, hx⟩)
            have hfinish : ∀ v : RedirState Θ F, v.undo = s₂.undo → s₁.kept <:+ v.kept →
                (∀ q, q ≠ t.redirFd → q ≠ n → v.table.file q = s₂.table.file q ∨
                  q ∈ v.keptFds ∧ s₂.table.file q = none) →
                (t.instruction.isMove = true ∨ v.table.file t.redirFd = s₂.table.file t.redirFd ∨
                  t.redirFd ∈ v.keptFds ∧ s₂.table.file t.redirFd = none) →
                w.varassignRedirAutoclose s.rest = true ∨ (n : Int) ∈ v.keptFds ∨
                  v.table.file n = none →
                Undone w s v := by
              intro v hvundo hvkept hvchanges hvsrc hcase
              obtain ⟨x, hxundo, hxkept, hxn, hxchanges, hxv⟩ :=
                rememberMove_undone hundoable hne hrmove hlimit₁ hvundo hvkept hvchanges
                  (hvsrc.imp_left fun hm => ⟨hm, hopen₁⟩)
              have hxfds : x.keptFds = v.keptFds := congrArg (List.map KeptDescriptor.fd) hxkept
              refine Undone.trans (rememberedVar_undone hu.unused (hxundo.trans hundo₁) ?_ ?_ ?_)
                hxv
              · rw [hxkept, ← hkept₁]
                exact hvkept
              · rw [hxfds]
                exact hput.trans hxchanges
              · rw [hxn, hxfds]
                exact hcase
            split at h
            · next e v hassign =>
                cases h
                rcases assignRedirector_var hassign with ⟨_, _, hundo, hkept, htable⟩ | ⟨hr, _⟩
                · rw [close_of_none (DescriptorTable.file_neg _ (by omega))] at htable
                  have hfds : s'.keptFds = s₃.keptFds := congrArg (List.map KeptDescriptor.fd) hkept
                  have hother : ∀ q, q ≠ (n : Int) → s'.table.file q = s₂.table.file q ∨
                      q ∈ s'.keptFds ∧ s₂.table.file q = none := by
                    intro q hq
                    rw [htable, hfds]
                    simpa [hq] using hchanges q hq
                  refine hfinish s' (hundo.trans hundo₃) (hkept ▸ hkept₃) (fun q _ => hother q)
                    (.inr (hother _ hne)) (.inr (.inr ?_))
                  simp [htable]
                · cases hr
            · next v hassign =>
                cases h
                rcases assignRedirector_var hassign with ⟨_, hr, _⟩ | ⟨_, hundo, htable, hkept⟩
                · cases hr
                · have hsame := duplicateCloseOnExec_same v flags t.rflags n t.redirFd
                  generalize duplicateCloseOnExec v flags t.rflags n t.redirFd = y at hsame
                  have hytable := hsame.table.trans htable
                  have hykept := hsame.kept.trans hkept
                  have hsuffix : s₃.kept <:+ y.kept := by
                    rw [hykept]
                    split
                    · exact List.suffix_refl _
                    · exact List.suffix_cons ..
                  have hfds : s₃.keptFds ⊆ y.keptFds := Undone.keptFds_subset hsuffix
                  have hother : ∀ q, q ≠ (n : Int) → y.table.file q = s₂.table.file q ∨
                      q ∈ y.keptFds ∧ s₂.table.file q = none := by
                    intro q hq
                    rw [hytable]
                    exact (hchanges q hq).imp_right (And.imp_left fun hmem => hfds hmem)
                  have hcase : w.varassignRedirAutoclose s.rest = true ∨ (n : Int) ∈ y.keptFds := by
                    cases hauto : w.varassignRedirAutoclose s.rest with
                    | true => exact .inl rfl
                    | false =>
                        refine .inr ?_
                        rw [RedirState.keptFds, hykept, hrest₃, hrest₂, hrest₁, hauto]
                        exact List.mem_cons_self
                  have hyundo := hsame.undo.trans (hundo.trans hundo₃)
                  cases hm : t.instruction.isMove with
                  | false =>
                      rw [if_neg (by simp)]
                      exact hfinish y hyundo (hkept₃.trans hsuffix) (fun q _ => hother q)
                        (.inr (hother _ hne)) (hcase.imp_right .inl)
                  | true =>
                      rw [if_pos rfl]
                      refine hfinish (y.closeFd t.redirFd) hyundo (hkept₃.trans hsuffix)
                        (fun q hqsrc hq => ?_) (.inl hm) (hcase.imp_right .inl)
                      have hq' : (y.closeFd t.redirFd).table.file q = y.table.file q := by
                        simp [RedirState.closeFd, hqsrc]
                      rw [hq']
                      exact hother q hq

end RedirWorld

end Rash
