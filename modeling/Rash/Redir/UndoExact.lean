import Rash.Redir.UndoSteps

/-!
# Taking redirections back

A list of redirections, whether it is done or fails on the way, followed by its undo list leaves
every descriptor as it was, but for those that are kept by design.
-/

namespace Rash

open DescriptorTable

namespace RedirWorld

variable {Θ F : Type} {w : RedirWorld Θ F} {s s' : RedirState Θ F} {flags : ℕ}

/-! ## What the code does not look at -/

/-- A close that is undone needs a number at which the descriptor can be saved. -/
def CloseUndoable (w : RedirWorld Θ F) (t : DescriptorTable F) (d : Int) : Prop :=
  w.InLimit t d ∧ (t.isOpen d = true → (t.lowest w.limit 0).isSome)

instance (w : RedirWorld Θ F) (t : DescriptorTable F) (d : Int) :
    Decidable (w.CloseUndoable t d) :=
  inferInstanceAs (Decidable (_ ∧ _))

/-- `&>` saves the standard error once the file is the standard output. -/
def StderrUndoable (w : RedirWorld Θ F) (t : DescriptorTable F) : Prop :=
  w.InLimit t 2 ∧
    (t.isOpen 1 = true → t.isOpen 2 = true ∧ (t.lowest w.limit 0).isSome)

def PerformUndoable (w : RedirWorld Θ F) (s : RedirState Θ F) (flags : ℕ) (t : Translated)
    (var : Redirectee) : Prop :=
  match t.instruction with
  | .outputDirection | .appendingTo | .inputDirection | .inputaDirection | .inputOutput
  | .outputForce | .readingUntil | .deblankReadingUntil | .readingString =>
      t.isVarassign = false → w.InLimit s.table t.redirector
  | .errAndOut | .appendErrAndOut =>
      (t.isVarassign = false → w.InLimit s.table t.redirector) ∧
        ∀ u, w.redirectToFile s flags t var = (.ok (), u) → w.StderrUndoable u.table
  | .duplicatingInput | .duplicatingOutput =>
      t.isVarassign = false → w.InLimit s.table t.redirector
  | .moveInput | .moveOutput =>
      if t.isVarassign then w.InLimit s.table t.redirFd ∧ w.MoveRoom s t.redirFd
      else w.InLimit s.table t.redirector ∧ w.MoveUndoable s.table t.redirector t.redirFd
  | .closeThis =>
      w.CloseUndoable s.table
        (if t.isVarassign then w.varvalue s.rest var else t.redirector)
  | .duplicatingInputWord | .duplicatingOutputWord | .moveInputWord | .moveOutputWord => True

def StepUndoable (w : RedirWorld Θ F) (s : RedirState Θ F) (flags : ℕ) (r : Redirect) : Prop :=
  ∀ t u, w.translate s r = (.ok t, u) → w.PerformUndoable u flags t r.redirector

/-- Each redirection that the list comes to can be undone from the state that it finds. -/
def EachUndoable (w : RedirWorld Θ F) (flags : ℕ) : RedirState Θ F → List Redirect → Prop
  | _, [] => True
  | s, r :: rs =>
      w.StepUndoable s flags r ∧
        ∀ u, w.doRedirectionInternal s r flags = (.ok (), u) → w.EachUndoable flags u rs

/-- No close that the undo list makes reports an error of the device. -/
def UndoCloses (w : RedirWorld Θ F) : RedirState Θ F → List Redirect → Prop
  | _, [] => True
  | s, r :: rs =>
      (r.instruction = .closeThis → ∀ e, w.closeFdError s r.redirector.dest? = some e →
        e ≠ errnoIo ∧ e ≠ errnoNospc) ∧
      w.UndoCloses (w.doRedirectionInternal s r rxActive).2 rs

/-! ## One redirection -/

theorem redirectClose_undone {t : Translated} {var : Redirectee}
    {r : Except RedirectError Unit} (hactive : hasFlag flags rxActive = true)
    (hundoable : hasFlag flags rxUndoable = true)
    (hclose : w.CloseUndoable s.table
      (if t.isVarassign then w.varvalue s.rest var else t.redirector))
    (h : w.redirectClose s flags t var = (r, s')) : Undone w s s' := by
  simp only [redirectClose, hactive, if_true, checkBashInput_if hundoable] at h
  generalize (if t.isVarassign = true then w.varvalue s.rest var else t.redirector) = d
    at h hclose
  split at h
  · cases h
    exact .refl s
  · obtain ⟨s₁, entries, ops, hs₁, hrem, hentries, hundo, hkept⟩ :
        ∃ s₁ entries ops, w.rememberClose s flags d = some s₁ ∧
          Remembered w.limit d ops s.table s₁.table ∧ List.Forall₂ Undoes entries ops ∧
          s₁.undo = entries ++ s.undo ∧ s₁.kept = s.kept := by
      simp only [rememberClose, hundoable, if_true]
      cases hopen : s.table.isOpen d with
      | true =>
          obtain ⟨f, hf⟩ := isOpen_iff.mp hopen
          obtain ⟨s₁, hs₁⟩ := Option.isSome_iff_exists.mp
            (addUndoRedirect_isSome .closeThis (-1) hf (hclose.2 hopen))
          obtain ⟨f, n, entries, hf, hnone, htable, hundo, hentries, hkept, _⟩ :=
            addUndoRedirect_spec hs₁
          refine ⟨s₁, entries, _, hs₁, ?_, hentries, hundo, hkept⟩
          rw [htable]
          exact .saved hf (hclose.1 hopen) _ hnone
      | false =>
          exact ⟨_, _, _, rfl, .closed (not_isOpen_iff.mp hopen), undoes_addUndoClose d, rfl,
            rfl⟩
    rw [hs₁] at h
    dsimp only at h
    obtain ⟨hkept₂, hundo₂, _, hchanges⟩ := checkBashInput_spec (w := w) s₁ d
    have hclosed : Undone w s ((w.checkBashInput s₁ d).closeFd d) :=
      hrem.undone hentries (hundo₂.trans hundo) (hkept ▸ hkept₂)
        (hchanges.trans (ChangesAt.close_self _))
    split at h
    · split at h <;> cases h <;> exact hclosed
    · cases h
      exact hclosed

theorem errAndOut_undone {t : Translated} {var : Redirectee} {ri : RInstruction}
    {r : Except RedirectError Unit} (hactive : hasFlag flags rxActive = true)
    (hundoable : hasFlag flags rxUndoable = true)
    (hhalf : (t.isVarassign = false → w.InLimit s.table t.redirector) ∧
      ∀ u, w.redirectToFile s flags t var = (.ok (), u) → w.StderrUndoable u.table)
    (h : (match w.redirectToFile s flags t var with
      | (.error e, s) => (.error e, s)
      | (.ok (), s) => w.redirectStderr s flags ri) = (r, s')) : Undone w s s' := by
  split at h
  · next e u hfile =>
      cases h
      exact redirectToFile_undone hactive hundoable hhalf.1 hfile
  · next u hfile =>
      obtain ⟨hlimit, hsaved⟩ := hhalf.2 u hfile
      exact (redirectToFile_undone hactive hundoable hhalf.1 hfile).trans
        (redirectStderr_undone hactive hundoable hlimit hsaved h)

theorem perform_undone {t : Translated} {var : Redirectee} {r : Except RedirectError Unit}
    (hactive : hasFlag flags rxActive = true) (hundoable : hasFlag flags rxUndoable = true)
    (hperform : w.PerformUndoable s flags t var) (h : w.perform s flags t var = (r, s')) :
    Undone w s s' := by
  have hdup (hnot : t.instruction.isMove = false)
      (hlimit : t.isVarassign = false → w.InLimit s.table t.redirector)
      (h : w.redirectToDescriptor s flags t var = (r, s')) : Undone w s s' := by
    cases hvar : t.isVarassign with
    | false =>
        exact redirectToDescriptor_plain hactive hundoable hvar (hlimit hvar)
          (fun hm => by simp [hnot] at hm) h
    | true =>
        exact redirectToDescriptor_var hactive hundoable hvar (fun hm => by simp [hnot] at hm) h
  have hmove (hcond : if t.isVarassign then w.InLimit s.table t.redirFd ∧ w.MoveRoom s t.redirFd
      else w.InLimit s.table t.redirector ∧ w.MoveUndoable s.table t.redirector t.redirFd)
      (h : w.redirectToDescriptor s flags t var = (r, s')) : Undone w s s' := by
    cases hvar : t.isVarassign with
    | false =>
        rw [hvar, if_neg (by simp)] at hcond
        exact redirectToDescriptor_plain hactive hundoable hvar hcond.1 (fun _ => hcond.2) h
    | true =>
        rw [hvar, if_pos rfl] at hcond
        exact redirectToDescriptor_var hactive hundoable hvar (fun _ => hcond) h
  unfold perform at h
  unfold PerformUndoable at hperform
  cases hri : t.instruction <;> rw [hri] at h hperform <;> dsimp only at h hperform
  case errAndOut | appendErrAndOut => exact errAndOut_undone hactive hundoable hperform h
  case readingUntil | deblankReadingUntil | readingString =>
    exact redirectToDocument_undone hactive hundoable hperform h
  case duplicatingInput | duplicatingOutput => exact hdup (by rw [hri]; rfl) hperform h
  case moveInput | moveOutput => exact hmove hperform h
  case closeThis => exact redirectClose_undone hactive hundoable hperform h
  case duplicatingInputWord | duplicatingOutputWord | moveInputWord | moveOutputWord =>
    cases h
    exact .refl s
  all_goals exact redirectToFile_undone hactive hundoable hperform h

theorem translate_undone {r : Redirect} {t : Except RedirectError Translated}
    (h : w.translate s r = (t, s')) : Undone w s s' := by
  unfold translate at h
  split at h
  · have hexpand := (expand_widened (w := w) s r.redirectee.word).undone
    dsimp only at h
    split at h <;> cases h <;> exact hexpand
  · cases h
    exact .refl s

theorem doRedirectionInternal_undone {r : Redirect} {o : Except RedirectError Unit}
    (hactive : hasFlag flags rxActive = true) (hundoable : hasFlag flags rxUndoable = true)
    (hstep : w.StepUndoable s flags r) (h : w.doRedirectionInternal s r flags = (o, s')) :
    Undone w s s' := by
  unfold doRedirectionInternal at h
  split at h
  · next e u htranslate =>
      cases h
      exact translate_undone htranslate
  · next t u htranslate =>
      exact (translate_undone htranslate).trans
        (perform_undone hactive hundoable (hstep t u htranslate) h)

/-! ## Lists -/

theorem doRedirectionList_undone {list : List Redirect}
    (hactive : hasFlag flags rxActive = true) (hundoable : hasFlag flags rxUndoable = true)
    (hsteps : w.EachUndoable flags s list) :
    Undone w s (w.doRedirectionList s flags list).2 := by
  induction list generalizing s with
  | nil => exact .refl s
  | cons r rs ih =>
      obtain ⟨hstep, hrest⟩ := hsteps
      rw [doRedirectionList]
      split
      · next e u hdo =>
          exact (doRedirectionInternal_undone hactive hundoable hstep hdo).congr ⟨rfl, rfl, rfl⟩
      · next u hdo =>
          exact (doRedirectionInternal_undone hactive hundoable hstep hdo).trans
            (ih (hrest u hdo))

/-- An entry of the undo list makes its call. -/
theorem doRedirectionInternal_undoes {r : Redirect} {op : Op} {t : DescriptorTable F}
    (hop : Undoes r op) (hrun : op.run w.limit s.table = some t)
    (hclose : r.instruction = .closeThis → ∀ e, w.closeFdError s r.redirector.dest? = some e →
      e ≠ errnoIo ∧ e ≠ errnoNospc) :
    ∃ u, w.doRedirectionInternal s r rxActive = (.ok (), u) ∧ u.table = t := by
  have hactive : hasFlag rxActive rxActive = true := by decide
  have hundoable : hasFlag rxActive rxUndoable = false := by decide
  cases hop with
  | @close d hri hd hvar =>
      obtain rfl : s.table.close d = t := by simpa [Op.run] using hrun
      have hvar' : r.translated.isVarassign = false := hvar
      have hreport := hclose hri
      have hperform : w.doRedirectionInternal s r rxActive =
          w.redirectClose s rxActive r.translated r.redirector := by
        simp [doRedirectionInternal, translate, perform, hri, RInstruction.isTranslated,
          Redirect.translated]
      rw [hperform]
      simp only [redirectClose, hactive, hundoable, if_true, hvar', Bool.false_eq_true, if_false,
        Bool.false_and, rememberClose]
      have htranslated : r.translated.redirector = d := by simp [Redirect.translated, hd, Redirectee.dest?]
      rw [htranslated]
      rw [hd] at hreport
      split
      · next e he =>
          obtain ⟨hio, hnospc⟩ := hreport e he
          rw [if_neg (by simp [hio, hnospc])]
          exact ⟨_, rfl, rfl⟩
      · exact ⟨_, rfl, rfl⟩
  | @dup2 n d hri hd hn hvar =>
      have hdup : s.table.dup2 w.limit n d = some t := hrun
      have hvar' : r.translated.isVarassign = false := hvar
      have hperform : w.doRedirectionInternal s r rxActive =
          w.redirectToDescriptor s rxActive r.translated r.redirector := by
        rcases hri with hri | hri <;>
          simp [doRedirectionInternal, translate, perform, hri, RInstruction.isTranslated,
            Redirect.translated]
      have hmove : r.translated.instruction.isMove = false := by
        rcases hri with hri | hri <;> simp [Redirect.translated, hri, RInstruction.isMove]
      have hfd : r.translated.redirFd = n := by simp [Redirect.translated, hn, Redirectee.dest?]
      have htranslated : r.translated.redirector = d := by simp [Redirect.translated, hd, Redirectee.dest?]
      rw [hperform]
      simp only [redirectToDescriptor, hactive, hundoable, if_true, hvar',
        allocateRedirector_plain, Bool.false_eq_true, if_false, rememberRedirector,
        Bool.false_and, rememberMove, hmove, hfd, htranslated, assignRedirector]
      split
      · next heq =>
          subst heq
          obtain ⟨f, hf, hrange, rfl⟩ := dup2_eq_some.mp hdup
          refine ⟨_, rfl, ?_⟩
          ext1 q
          by_cases hq : q = n
          · simp [hq, hf]
          · simp [hq]
      · next hne =>
          have hcall : w.dup2 s n d = some { s with
              table := t, closeOnExec := Function.update s.closeOnExec d false } := by
            simp [dup2, hdup]
          rw [if_pos (by simpa using hne), hcall]
          exact ⟨_, rfl, (duplicateCloseOnExec_same ..).table⟩

/-- The undo list makes its calls one after the other. -/
theorem doRedirectionList_undoes {entries : List Redirect} {ops : List Op}
    {t : DescriptorTable F} (hentries : List.Forall₂ Undoes entries ops)
    (hrun : run w.limit ops s.table = some t) (hcloses : w.UndoCloses s entries) :
    (w.doRedirectionList s rxActive entries).2.table = t := by
  induction hentries generalizing s with
  | nil => simpa [doRedirectionList, run] using hrun
  | @cons r op entries ops hop _ ih =>
      obtain ⟨u, hu, hops⟩ := Option.bind_eq_some_iff.mp hrun
      obtain ⟨s₁, hs₁, htable⟩ := doRedirectionInternal_undoes hop hu hcloses.1
      rw [doRedirectionList, hs₁]
      have hcloses₁ := hcloses.2
      rw [hs₁] at hcloses₁
      exact ih (htable ▸ hops) hcloses₁

theorem undoCloses_of_closeError (hclose : ∀ rest f, w.closeError rest f = none)
    (s : RedirState Θ F) (list : List Redirect) : w.UndoCloses s list := by
  induction list generalizing s with
  | nil => trivial
  | cons r rs ih =>
      refine ⟨fun _ e he => ?_, ih _⟩
      unfold closeFdError at he
      split at he
      · cases he
        decide
      · rw [hclose] at he
        cases he

/-- A file opened at the lowest number that is not in use. -/
def openedLowest (limit : ℕ) (t : DescriptorTable ℕ) (file : ℕ) : Option (Opened t) :=
  match h : t.lowest limit 0 with
  | none => none
  | some n => some ⟨n, file, (lowest_spec h).1⟩

/-- A shell that opens the file 7 whatever the name is, and has no option set. -/
def plainWorld : RedirWorld Unit ℕ where
  limit := 16
  interactiveShell := false
  posixlyCorrect _ := false
  restricted _ := false
  varassignRedirAutoclose _ := false
  redirectionExpand _ word := (some word.word, [], ())
  onRedirect _ _ _ _ := (false, [], ())
  redirOpen _ t _ _ _ :=
    (match openedLowest 16 t 7 with
      | none => .error (.errno errnoMfile)
      | some o => .ok o, ())
  hereDocumentToFd _ t _ _ := (openedLowest 16 t 7, ())
  varassign _ _ _ := (true, ())
  varvalue _ _ := -1
  closeError _ _ := none
  redirectionError _ _ _ := ()

def standardTable : DescriptorTable ℕ where
  file fd := if 0 ≤ fd ∧ fd ≤ 2 then some fd.toNat else none
  nonneg fd f h := by
    split at h
    · next hfd => exact hfd.1
    · cases h

def standardState : RedirState Unit ℕ where
  table := standardTable
  closeOnExec _ := false
  bashInput := none
  defaultBufferedInput := -1
  undo := []
  execUndo := []
  kept := []
  rest := ()

/-- `{v}>out` -/
def varOutput : Redirect :=
  { makeRedirection (.filename ⟨"v", 0⟩) .outputDirection (.filename ⟨"out", 0⟩) 0 with
    rflags := redirVarassign }

/-- `>out` -/
def standardOutput : Redirect :=
  makeRedirection (.dest 1) .outputDirection (.filename ⟨"out", 0⟩) 0

/-- `<&-` -/
def closeInput : Redirect :=
  makeRedirection (.dest 0) .closeThis (.dest 0) 0

end RedirWorld

end Rash
