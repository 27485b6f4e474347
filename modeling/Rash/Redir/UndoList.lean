import Mathlib.Data.List.Forall2
import Rash.Redir.Redirections

/-!
# The undo list

What each step of a redirection puts on the undo list, and why the list takes the descriptors
back: a descriptor that is about to change is saved at an unused number, or noted as closed,
before it changes.
-/

namespace Rash

open DescriptorTable

/-! ## Entries of the undo list -/

/-- A redirection of the undo list, with the call that it makes. -/
inductive Undoes : Redirect → Op → Prop
  | close {r : Redirect} {d : Int} (hri : r.instruction = .closeThis)
      (hd : r.redirector = .dest d) (hvar : r.isVarassign = false) : Undoes r (.close d)
  | dup2 {r : Redirect} {n d : Int}
      (hri : r.instruction = .duplicatingInput ∨ r.instruction = .duplicatingOutput)
      (hd : r.redirector = .dest d) (hn : r.redirectee = .dest n)
      (hvar : r.isVarassign = false) : Undoes r (.dup2 n d)

theorem undoes_addUndoClose (d : Int) :
    List.Forall₂ Undoes [makeRedirection (.dest d) .closeThis (.dest 0) rxInternal]
      [.close d] := by
  refine .cons (.close rfl rfl ?_) .nil
  simp only [Redirect.isVarassign, makeRedirection]
  decide

namespace RedirState

variable {Θ F : Type}

/-- The numbers that may be in use when the redirections are taken back. -/
def keptFds (s : RedirState Θ F) : List Int := s.kept.map KeptDescriptor.fd

theorem closeOnError_eq (s : RedirState Θ F) (fd : Int) : s.closeOnError fd = s.closeFd fd := by
  unfold closeOnError
  split
  · rfl
  · next h =>
      rw [closeFd, close_of_none (s.table.file_neg (by omega))]

end RedirState

/-- The entries that `s'` has on its undo list before those of `s` lead back to the descriptors
of `s`. -/
structure Undone {Θ F : Type} (w : RedirWorld Θ F) (s s' : RedirState Θ F) : Prop where
  kept : s.kept <:+ s'.kept
  undo : ∃ entries ops, s'.undo = entries ++ s.undo ∧ List.Forall₂ Undoes entries ops ∧
    Reverts w.limit s'.keptFds ops s'.table s.table

namespace Undone

variable {Θ F : Type} {w : RedirWorld Θ F} {s s' s'' : RedirState Θ F}

theorem keptFds_subset (h : s.kept <:+ s'.kept) : s.keptFds ⊆ s'.keptFds :=
  List.map_subset _ h.subset

theorem of_extends (hundo : s'.undo = s.undo) (hkept : s.kept <:+ s'.kept)
    (htable : Extends s'.keptFds s.table s'.table) : Undone w s s' :=
  ⟨hkept, [], [], hundo, .nil, .nil htable⟩

theorem of_eq (hundo : s'.undo = s.undo) (hkept : s'.kept = s.kept) (htable : s'.table = s.table) :
    Undone w s s' :=
  of_extends hundo (hkept ▸ List.suffix_refl _) (htable ▸ Extends.refl _)

theorem refl (s : RedirState Θ F) : Undone w s s := of_eq rfl rfl rfl

theorem trans (h : Undone w s s') (h' : Undone w s' s'') : Undone w s s'' := by
  obtain ⟨hkept, entries, ops, hundo, hentries, hrev⟩ := h
  obtain ⟨hkept', entries', ops', hundo', hentries', hrev'⟩ := h'
  refine ⟨hkept.trans hkept', entries' ++ entries, ops' ++ ops, ?_,
    List.rel_append hentries' hentries, hrev'.trans (hrev.mono (keptFds_subset hkept'))⟩
  rw [hundo', hundo, List.append_assoc]

end Undone

/-- States that differ in no descriptor and in no entry of the undo list. -/
structure SameFds {Θ F : Type} (s s' : RedirState Θ F) : Prop where
  table : s'.table = s.table
  undo : s'.undo = s.undo
  kept : s'.kept = s.kept

theorem Undone.congr {Θ F : Type} {w : RedirWorld Θ F} {s s' s'' : RedirState Θ F}
    (h : Undone w s s') (hsame : SameFds s' s'') : Undone w s s'' :=
  h.trans (.of_eq hsame.undo hsame.kept hsame.table)

/-- The calls lead back to `t`, whatever has changed at the descriptor `d` since the table was
`u`. -/
def Remembered {F : Type} (limit : ℕ) (d : Int) (ops : List Op) (t u : DescriptorTable F) :
    Prop :=
  ∀ K v, ChangesAt d K u v → Reverts limit K ops v t

namespace Remembered

variable {F : Type} {limit : ℕ} {d n : Int} {t : DescriptorTable F}

theorem closed (hd : t.file d = none) : Remembered limit d [.close d] t t := fun _ _ h =>
  Reverts.closed hd h

theorem saved {f : F} (hd : t.file d = some f) (hlimit : d < limit) (hn : 0 ≤ n)
    (hnone : t.file n = none) :
    Remembered limit d [.dup2 n d, .close n] t (t.put n hn f) := fun _ _ h =>
  Reverts.saved hd hlimit hn hnone h

end Remembered

theorem Remembered.undone {Θ F : Type} {w : RedirWorld Θ F} {s s' : RedirState Θ F} {d : Int}
    {entries : List Redirect} {ops : List Op} {u : DescriptorTable F}
    (h : Remembered w.limit d ops s.table u) (hentries : List.Forall₂ Undoes entries ops)
    (hundo : s'.undo = entries ++ s.undo) (hkept : s.kept <:+ s'.kept)
    (hchanges : ChangesAt d s'.keptFds u s'.table) : Undone w s s' :=
  ⟨hkept, entries, ops, hundo, hentries, h _ _ hchanges⟩

namespace RedirWorld

variable {Θ F : Type} {w : RedirWorld Θ F} {s s' : RedirState Θ F}

/-! ## Calls on the table -/

theorem leaveOpen_undone (l : List (ℕ × F)) (s : RedirState Θ F) :
    Undone w s (w.leaveOpen s l) := by
  induction l generalizing s with
  | nil => exact .refl s
  | cons p l ih =>
      obtain ⟨n, f⟩ := p
      rw [leaveOpen]
      split
      · exact ih s
      · next h =>
          have hclosed : s.table.file n = none := by
            have hopen : s.table.isOpen n = false := by simp_all
            exact not_isOpen_iff.mp hopen
          refine Undone.trans ?_ (ih _)
          refine .of_extends rfl (List.suffix_cons ..) fun q => ?_
          by_cases hq : q = n
          · subst hq
            exact .inr ⟨List.mem_cons_self, hclosed⟩
          · exact .inl (by simp [hq])

theorem dupfd_spec {fd : Int} {base n : ℕ} (h : w.dupfd s fd base = some (n, s')) :
    ∃ f, s.table.file fd = some f ∧ s.table.file n = none ∧ n < w.limit ∧
      s' = { s with
        table := s.table.put n (Int.natCast_nonneg n) f
        closeOnExec := Function.update s.closeOnExec n false } := by
  unfold dupfd at h
  split at h
  · next f m hf hm =>
      cases h
      obtain ⟨hnone, _, hlimit⟩ := lowest_spec hm
      exact ⟨f, hf, hnone, hlimit, rfl⟩
  · cases h

theorem dupfd_isSome {fd : Int} {base : ℕ} {f : F} (hf : s.table.file fd = some f)
    (hroom : (s.table.lowest w.limit base).isSome) : (w.dupfd s fd base).isSome := by
  obtain ⟨n, hn⟩ := Option.isSome_iff_exists.mp hroom
  simp [dupfd, hf, hn]

theorem saveFd_spec {fd fdbase : Int} {n : ℕ} {low : Bool}
    (h : w.saveFd s fd fdbase = some (n, low, s')) :
    ∃ base, w.dupfd s fd base = some (n, s') := by
  unfold saveFd at h
  split at h
  · next m u hm =>
      cases h
      exact ⟨_, hm⟩
  · split at h
    · next m u hm =>
        cases h
        exact ⟨_, hm⟩
    · obtain ⟨⟨m, u⟩, hm, heq⟩ := Option.map_eq_some_iff.mp h
      cases heq
      exact ⟨_, hm⟩

/-- `add_undo_redirect` copies the descriptor to an unused number, and notes how it is put
back. -/
theorem addUndoRedirect_spec {fd fdbase : Int} {ri : RInstruction}
    (h : w.addUndoRedirect s fd ri fdbase = some s') :
    ∃ (f : F) (n : ℕ) (entries : List Redirect), s.table.file fd = some f ∧
      s.table.file n = none ∧ s'.table = s.table.put n (Int.natCast_nonneg n) f ∧
      s'.undo = entries ++ s.undo ∧
      List.Forall₂ Undoes entries [.dup2 n fd, .close n] ∧
      s'.kept = s.kept ∧ s'.rest = s.rest := by
  unfold addUndoRedirect at h
  obtain ⟨⟨n, low, u⟩, hsave, heq⟩ := Option.map_eq_some_iff.mp h
  obtain ⟨base, hdup⟩ := saveFd_spec hsave
  obtain ⟨f, hf, hnone, _, rfl⟩ := dupfd_spec hdup
  subst heq
  refine ⟨f, n, [_, _], hf, hnone, rfl, rfl, .cons (.dup2 ?_ rfl rfl ?_)
    (.cons (.close rfl rfl ?_) .nil), rfl, rfl⟩
  · by_cases hfd : fd = 0 <;> simp [makeRedirection, hfd]
  · simp only [Redirect.isVarassign, makeRedirection]
    split_ifs <;> decide
  · simp only [Redirect.isVarassign, makeRedirection]
    decide

theorem addUndoRedirect_isSome (ri : RInstruction) (fdbase : Int) {fd : Int} {f : F}
    (hf : s.table.file fd = some f) (hroom : (s.table.lowest w.limit 0).isSome) :
    (w.addUndoRedirect s fd ri fdbase).isSome := by
  have hlast := dupfd_isSome hf hroom
  rw [addUndoRedirect, Option.isSome_map, saveFd]
  split
  · rfl
  · split
    · rfl
    · simpa using hlast

theorem checkBashInput_closed {fd : Int} (h : s.table.file fd = none) :
    w.checkBashInput s fd = s := by
  unfold checkBashInput
  split
  · simp [dupfd, h]
  · rfl

/-- The script is read from another descriptor when its own is about to change. -/
theorem checkBashInput_spec (s : RedirState Θ F) (fd : Int) :
    s.kept <:+ (w.checkBashInput s fd).kept ∧ (w.checkBashInput s fd).undo = s.undo ∧
      (w.checkBashInput s fd).rest = s.rest ∧
      ChangesAt fd (w.checkBashInput s fd).keptFds s.table (w.checkBashInput s fd).table := by
  unfold checkBashInput
  split
  · split
    · exact ⟨List.suffix_refl _, rfl, rfl, (Extends.refl _).changesAt⟩
    · next n u hdup =>
        obtain ⟨f, _, hnone, _, rfl⟩ := dupfd_spec hdup
        have hput : ∀ K : List Int, (n : Int) ∈ K →
            ChangesAt fd K s.table (s.table.put n (Int.natCast_nonneg n) f) := by
          intro K hn q _
          by_cases hq : q = n
          · subst hq
            exact .inr ⟨hn, hnone⟩
          · exact .inl (by simp [hq])
        dsimp only
        split
        · exact ⟨List.suffix_cons .., rfl, rfl,
            (hput _ List.mem_cons_self).trans (ChangesAt.close_self _)⟩
        · exact ⟨List.suffix_cons .., rfl, rfl, hput _ List.mem_cons_self⟩
  · exact ⟨List.suffix_refl _, rfl, rfl, (Extends.refl _).changesAt⟩

end RedirWorld

end Rash
