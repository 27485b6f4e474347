import Rash.Undo.Calls
import Rash.Undo.StackRefinement

/-!
# A port alone is its calls

Where no other process comes in between, the calls of a port do to a store that holds a
stack what the port as a whole does.
-/

namespace Rash

open Decimal FlatFiles Interaction

theorem ensureDirCalls_eval (dir : Text) (fs : Files) :
    ensureDirCalls.eval (perform dir) fs =
      match rashUndoEnsureDir dir fs with
      | .ok fs' => (.ok (), fs')
      | .error text => (.error text, fs) := by
  unfold ensureDirCalls rashUndoEnsureDir
  cases hdir : fs dir with
  | none => simp [performAct, mkdirCall, hdir]
  | some node => cases node <;> simp [performAct, mkdirCall, performLook, hdir]

theorem nextSeqCalls_eval (dir : Text) (fs : Files) :
    nextSeqCalls.eval (perform dir) fs =
      match rashUndoNextSeq dir fs with
      | .ok (seq, fs') => (.ok seq, fs')
      | .error text => (.error text, fs) := by
  unfold nextSeqCalls rashUndoNextSeq
  cases hopen : openCreate fs (join dir seqName) privateMode with
  | none => simp [performAct, createCall, hopen, Errno.text]
  | some file =>
      simp [performAct, performFetch, createCall, readCall, hopen, Except.map, nextSeq]

/-! ## The copy of a preimage -/

/-- From `total` bytes on the rounds copy the rest. -/
theorem copyRounds_eval {dir source : Text} {seq : ℕ} {fs : Files} {file : RegularFile}
    (hsource : fs source = some (.regular file)) (hne : source ≠ entryFile dir seq dataName)
    (rounds : ℕ) {total : ℕ} (htotal : total ≤ file.content.length)
    (hrounds : file.content.length < total + rounds) :
    (copyRounds seq source file.content.length rounds total).eval (perform dir)
        (fs.set (entryFile dir seq dataName)
          (some (.regular ⟨privateMode, file.content.take total⟩))) =
      (.ok file.content.length, fs.set (entryFile dir seq dataName)
        (some (.regular ⟨privateMode, file.content⟩))) := by
  induction rounds generalizing total with
  | zero => omega
  | succ rounds ih =>
      obtain ⟨chunk, hchunk⟩ : ∃ chunk, chunk = (file.content.drop total).take 8192 := ⟨_, rfl⟩
      have hread : performFetch dir (fs.set (entryFile dir seq dataName)
          (some (.regular ⟨privateMode, file.content.take total⟩))) (.readSource source total) =
          .ok chunk := by
        simp only [performFetch, readCall, Files.set_of_ne _ _ hne, hsource, Except.map, hchunk]
      have hlength : chunk.length = min 8192 (file.content.length - total) := by
        rw [hchunk, List.length_take, List.length_drop]
      rw [copyRounds, Prog.eval_bind, eval_fetch, hread]
      by_cases hnil : chunk = []
      · have hdone : total = file.content.length := by
          rw [hnil, List.length_nil] at hlength
          omega
        simp only [hnil, if_true, Prog.eval_pure, hdone, List.take_length]
      · have hpos := List.length_pos_iff.mpr hnil
        have htake : file.content.take total ++ chunk =
            file.content.take (total + chunk.length) := by
          have hstart : chunk <+: file.content.drop total := hchunk ▸ List.take_prefix _ _
          rw [List.take_add, ← List.prefix_iff_eq_take.mp hstart]
        have hfits : ¬ file.content.length < total + chunk.length := by omega
        simp only [hnil, if_false, Prog.eval_bind, eval_act, performAct, writeCall_set, htake,
          hfits]
        apply ih <;> omega

theorem copyFileCalls_eval {dir source : Text} {seq : ℕ} {fs : Files} {file : RegularFile}
    (hsource : fs source = some (.regular file)) (hne : source ≠ entryFile dir seq dataName)
    (hdata : fs (entryFile dir seq dataName) = none) :
    (copyFileCalls seq source file.content.length).eval (perform dir) fs =
      (.ok (), fs.set (entryFile dir seq dataName)
        (some (.regular ⟨privateMode, file.content⟩))) := by
  have hrounds := copyRounds_eval hsource hne (file.content.length + 2) (Nat.zero_le _) (by omega)
  rw [List.take_zero] at hrounds
  simp [copyFileCalls, performAct, readCall, createNewCall, hsource, hdata, Except.map, hrounds]

/-! ## Snapshots -/

theorem writeEntryCalls_eval {dir abspath : Text} {seq : ℕ} {fs : Files}
    {preimage : Option RegularFile} (habsent : EntryAbsent dir fs seq)
    (hout : ¬ Inside (entryDir dir seq) abspath)
    (hsource : ∀ file, preimage = some file → fs abspath = some (.regular file)) :
    (writeEntryCalls seq abspath preimage).eval (perform dir) fs =
      writeEntry dir seq abspath preimage fs := by
  have hdir : fs (entryDir dir seq) = none := habsent _ (Or.inl rfl)
  have hfile : ∀ name, fs (entryFile dir seq name) = none :=
    fun name => habsent _ (entryFile_inside dir seq name)
  have hmp : entryFile dir seq metaName ≠ entryFile dir seq pathName := entryFile_ne (by decide)
  have hdp : entryFile dir seq dataName ≠ entryFile dir seq pathName := entryFile_ne (by decide)
  have hdm : entryFile dir seq dataName ≠ entryFile dir seq metaName := entryFile_ne (by decide)
  have hfd := entryFile_ne_dir dir seq
  have hsf : ∀ name, abspath ≠ entryFile dir seq name := fun name heq =>
    hout (heq ▸ entryFile_inside dir seq name)
  have hsd : abspath ≠ entryDir dir seq := fun heq => hout (Or.inl heq)
  cases preimage with
  | none =>
      simp [writeEntryCalls, writeEntry, performAct, mkdirCall, createNewCall, createEmptyCall,
        openCreate, hdir, hfile, hfd, hmp]
  | some file =>
      obtain ⟨emptied, hemptied⟩ : ∃ emptied, emptied = ((fs.set (entryDir dir seq)
          (some .directory)).set (entryFile dir seq pathName)
            (some (.regular ⟨privateMode, abspath⟩))).set (entryFile dir seq metaName)
              (some (.regular ⟨privateMode, []⟩)) := ⟨_, rfl⟩
      have hpreimage : emptied abspath = some (.regular file) := by
        rw [hemptied, Files.set_of_ne _ _ (hsf _), Files.set_of_ne _ _ (hsf _),
          Files.set_of_ne _ _ hsd, hsource file rfl]
      have hdata : emptied (entryFile dir seq dataName) = none := by
        rw [hemptied, Files.set_of_ne _ _ hdm, Files.set_of_ne _ _ hdp,
          Files.set_of_ne _ _ (hfd _), hfile]
      have hmeta : emptied (entryFile dir seq metaName) = some (.regular ⟨privateMode, []⟩) := by
        rw [hemptied, Files.set_self]
      have hcopy : rashUndoCopyFile file.content file.content.length = some file.content := by
        rw [rashUndoCopyFile, copyBytes_eq, if_pos rfl]
      have hcalls := copyFileCalls_eval hpreimage (hsf _) hdata
      simp [writeEntryCalls, writeEntry, performAct, mkdirCall, createNewCall, createEmptyCall,
        openCreate, hdir, hfile, hfd, hmp, ← hemptied, hcalls, hdata, hcopy, writeCall,
        changeFile, hdm.symm, hmeta]

/-- The entry that the next number names is free. -/
theorem Refines.nextSeq {dir : Text} {s : UndoState} {t : UndoStack} (h : Refines dir s t) :
    ∃ seq mode, rashUndoNextSeq dir s.files = .ok (seq,
        s.files.set (join dir seqName) (some (.regular ⟨mode, seqText seq⟩))) ∧
      (seq ≠ 0 → EntryAbsent dir (s.files.set (join dir seqName)
        (some (.regular ⟨mode, seqText seq⟩))) seq) := by
  obtain ⟨mode, hnext⟩ := rashUndoNextSeq_eq h.seq h.bound
  refine ⟨_, mode, hnext, fun hnonzero p hp => ?_⟩
  have hseqfile : p ≠ join dir seqName := fun heq => seq_not_entry dir _ (heq ▸ hp)
  rw [Files.set_of_ne _ _ hseqfile]
  refine h.absent _ ?_ p hp
  have hbound := h.bound
  unfold ulongMax at hbound
  omega

theorem takeSnapshotCalls_eval {dir : Text} {s : UndoState} {t : UndoStack}
    (h : Refines dir s t) {abspath : Text} {preimage : Option RegularFile}
    (hout : ¬ Inside dir abspath) (hnode : s.files abspath = preimage.map .regular) :
    (takeSnapshotCalls abspath preimage).eval (perform dir) s.files =
      ((takeSnapshot dir abspath preimage s).1,
        (takeSnapshot dir abspath preimage s).2.files) := by
  obtain ⟨seq, mode, hnext, habsent⟩ := h.nextSeq
  unfold takeSnapshotCalls takeSnapshot
  rw [Prog.eval_bind, nextSeqCalls_eval]
  simp only [hnext]
  by_cases hzero : seq = 0
  · simp only [hzero, if_true, Prog.eval_pure]
  · simp only [hzero, if_false]
    rw [writeEntryCalls_eval (habsent hzero) fun hp => hout (inside_of_entry hp)]
    · split
      · rw [applyWindowAdd_files]
      · rfl
    · rintro file rfl
      rw [Files.set_of_ne _ _ (ne_of_outside (inside_join dir seqName) hout).symm, hnode,
        Option.map_some]

theorem snapshotFileCalls_eval {dir : Text} {s : UndoState} {t : UndoStack}
    (h : Refines dir s t) (maxBytes cwd : Option Text) (path : Text)
    (hout : ¬ Inside dir (rashUndoAbspath cwd path)) :
    (snapshotFileCalls maxBytes (rashUndoAbspath cwd path)
        (s.applyWindowHas (rashUndoAbspath cwd path))).eval (perform dir) s.files =
      ((rashLuaSnapshotFile dir maxBytes cwd path s).1,
        (rashLuaSnapshotFile dir maxBytes cwd path s).2.files) := by
  have hensured := h.ensured
  unfold snapshotFileCalls rashLuaSnapshotFile
  rw [Prog.eval_bind, ensureDirCalls_eval, rashUndoEnsureDir_eq h.directory]
  obtain ⟨abspath, habspath⟩ : ∃ abspath, abspath = rashUndoAbspath cwd path := ⟨_, rfl⟩
  rw [← habspath] at hout ⊢
  obtain ⟨s', hs'⟩ : ∃ s', s' = { s with files := s.files.set dir (some .directory) } := ⟨_, rfl⟩
  have hhas : s.applyWindowHas abspath = s'.applyWindowHas abspath := by rw [hs']; rfl
  have hfiles : s.files.set dir (some .directory) = s'.files := by rw [hs']
  rw [← hs'] at hensured
  simp only [← hs', hhas]
  rw [hfiles]
  by_cases htaken : s'.applyWindowHas abspath = true
  · simp only [htaken, if_true, Prog.eval_pure]
  · simp only [htaken, Bool.false_eq_true, if_false, Prog.eval_bind, eval_look, performLook]
    cases hnode : s'.files abspath with
    | none => exact takeSnapshotCalls_eval hensured hout hnode
    | some node =>
        cases node with
        | regular file =>
            by_cases hsize : rashUndoMaxBytes maxBytes < file.content.length
            · simp only [hsize, if_true, Prog.eval_pure]
            · simp only [hsize, if_false]
              exact takeSnapshotCalls_eval hensured hout hnode
        | directory => rfl
        | other => rfl

/-! ## Undos -/

theorem latestSeqCalls_eval (dir : Text) (fs : Files) :
    latestSeqCalls.eval (perform dir) fs = (rashUndoLatestSeq dir fs, fs) := by
  unfold latestSeqCalls rashUndoLatestSeq
  rw [Prog.eval_bind, eval_fetch]
  cases hseq : fs (join dir seqName) with
  | none => simp [performFetch, readCall, hseq, Except.map]
  | some node =>
      cases node with
      | regular file =>
          have hempty : file.content.take 31 = [] ↔ file.content = [] := by
            simp [List.take_eq_nil_iff]
          simp only [performFetch, readCall, hseq, Except.map, hempty]
          rfl
      | directory => simp [performFetch, readCall, hseq, Except.map]
      | other => simp [performFetch, readCall, hseq, Except.map]

theorem latestEntryCalls_eval (dir : Text) (fs : Files) (seq : ℕ) :
    (latestEntryCalls seq).eval (perform dir) fs = (latestEntry dir fs seq, fs) := by
  induction seq with
  | zero => rfl
  | succ seq ih =>
      rw [latestEntryCalls, latestEntry, Prog.eval_bind, eval_look, performLook]
      dsimp only
      split
      · rfl
      · exact ih

theorem unlinkCall_files {path : Text} {fs : Files} (h : fs path ≠ some .directory) :
    (unlinkCall path fs).2 = fs.set path none := by
  cases hnode : fs path with
  | none => simp only [unlinkCall, hnode, Files.set_same hnode]
  | some node =>
      cases node with
      | regular file => simp only [unlinkCall, hnode]
      | directory => exact absurd hnode h
      | other => simp only [unlinkCall, hnode]

theorem unlinkEntry_eval (dir : Text) (seq : ℕ) (m : UndoMeta) (target : Text) (fs : Files)
    (h : m.existed = 0) :
    (restoreEntryCalls seq m target).eval (perform dir) fs =
      restoreEntry dir seq m target fs := by
  unfold restoreEntryCalls restoreEntry
  rw [if_pos h, if_pos h]
  cases hnode : fs target with
  | none => simp [performAct, unlinkCall, unlinkTarget, hnode, Files.set_same hnode]
  | some node =>
      cases node <;> simp [performAct, unlinkCall, unlinkTarget, hnode, failure, Errno.text]

theorem rewriteEntry_eval (dir : Text) (seq : ℕ) (m : UndoMeta) (target : Text) (fs : Files)
    (h : ¬ m.existed = 0) :
    (restoreEntryCalls seq m target).eval (perform dir) fs =
      restoreEntry dir seq m target fs := by
  unfold restoreEntryCalls restoreEntry
  rw [if_neg h, if_neg h, restoreTarget, Prog.eval_bind, eval_act, performAct, createEmptyCall]
  cases hopen : openCreate fs target (Fin.ofNat 4096 m.mode) with
  | none => rfl
  | some opened =>
      simp only [Prog.eval_bind, eval_act, performAct, readCall]
      cases hdata : fs.set target (some (.regular ⟨opened.mode, []⟩))
          (entryFile dir seq dataName) with
      | none => simp [Except.map, failure]
      | some node => cases node <;> simp [Except.map, failure, performAct, readCall, hdata]

theorem storeSeqCalls_eval (dir : Text) (seq : ℕ) (fs : Files) :
    (storeSeqCalls seq).eval (perform dir) fs = ((), writeSeq dir seq fs) := by
  unfold storeSeqCalls writeSeq
  cases hopen : openCreate fs (join dir seqName) privateMode with
  | none => simp [performAct, createEmptyCall, hopen]
  | some file => simp [performAct, createEmptyCall, hopen]

theorem entryFiles_dir (dir : Text) (seq : ℕ) (r : UndoRecord) :
    entryFiles dir seq r (entryDir dir seq) = some .directory := by
  have hne := fun name => (entryFile_ne_dir dir seq name).symm
  rw [entryFiles, Files.set_of_ne _ _ (hne _), Files.set_of_ne _ _ (hne _),
    Files.set_of_ne _ _ (hne _), Files.set_self]

theorem removeEntryCalls_eval {dir : Text} {seq : ℕ} {fs : Files} {r : UndoRecord}
    (h : EntryHolds dir fs seq r) :
    (removeEntryCalls seq).eval (perform dir) fs = ((), rashUndoRemoveEntry dir seq fs) := by
  have hdata : fs (entryFile dir seq dataName) ≠ some .directory := by
    rw [h _ (entryFile_inside dir seq dataName), entryFiles_data]
    cases r.preimage <;> simp
  have hmeta : fs (entryFile dir seq metaName) ≠ some .directory := by
    rw [h _ (entryFile_inside dir seq metaName), entryFiles_meta]
    simp
  have hpath : fs (entryFile dir seq pathName) ≠ some .directory := by
    rw [h _ (entryFile_inside dir seq pathName), entryFiles_path]
    simp
  have hdir : fs (entryDir dir seq) = some .directory := by
    rw [h _ (Or.inl rfl), entryFiles_dir]
  have hmp : entryFile dir seq metaName ≠ entryFile dir seq pathName := entryFile_ne (by decide)
  have hdp : entryFile dir seq dataName ≠ entryFile dir seq pathName := entryFile_ne (by decide)
  have hdm : entryFile dir seq dataName ≠ entryFile dir seq metaName := entryFile_ne (by decide)
  have hfd := fun name => (entryFile_ne_dir dir seq name).symm
  simp only [removeEntryCalls, Prog.eval_bind, eval_act, performAct, Prog.eval_pure]
  rw [← Files.set_of_ne fs none hdm.symm] at hmeta
  rw [← Files.set_of_ne fs none hdp.symm,
    ← Files.set_of_ne (fs.set (entryFile dir seq dataName) none) none hmp.symm] at hpath
  rw [unlinkCall_files hdata, unlinkCall_files hmeta, unlinkCall_files hpath,
    Files.set_of_ne _ _ (hfd _), Files.set_of_ne _ _ (hfd _), Files.set_of_ne _ _ (hfd _), hdir]
  rfl

theorem undoEntryCalls_eval {dir : Text} {seq : ℕ} {fs : Files} {r : UndoRecord}
    (h : EntryHolds dir fs seq r) (hout : ¬ Inside dir r.path)
    (htarget : Replaceable (fs r.path)) :
    (undoEntryCalls seq).eval (perform dir) fs = undoEntry dir seq fs := by
  have hpath := h _ (entryFile_inside dir seq pathName)
  have hmeta := h _ (entryFile_inside dir seq metaName)
  rw [entryFiles_path] at hpath
  rw [entryFiles_meta] at hmeta
  have hrestore : ∀ m : UndoMeta, (restoreEntryCalls seq m r.path).eval (perform dir) fs =
      restoreEntry dir seq m r.path fs := fun m => by
    by_cases hexisted : m.existed = 0
    · exact unlinkEntry_eval dir seq m r.path fs hexisted
    · exact rewriteEntry_eval dir seq m r.path fs hexisted
  have hstill : EntryHolds dir (fs.set r.path (r.preimage.map .regular)) seq r := fun p hp => by
    rw [Files.set_of_ne _ _ (ne_of_outside (inside_of_entry hp) hout), h p hp]
  simp only [undoEntryCalls, undoEntry, Prog.eval_bind, eval_fetch, performFetch, readCall, hpath,
    hmeta, hrestore, restoreEntry_eq h hout htarget, if_true, removeEntryCalls_eval hstill,
    storeSeqCalls_eval, Prog.eval_pure]

theorem undoLastCalls_eval {dir : Text} {s : UndoState} {t : UndoStack} (h : Refines dir s t) :
    undoLastCalls.eval (perform dir) s.files =
      ((rashLuaUndoLast dir s).1, (rashLuaUndoLast dir s).2.files) := by
  have hensured := h.ensured
  have hlatest := latestEntry_eq hensured
  unfold undoLastCalls rashLuaUndoLast
  rw [Prog.eval_bind, ensureDirCalls_eval, rashUndoEnsureDir_eq h.directory]
  simp only [Prog.eval_bind, latestSeqCalls_eval, latestEntryCalls_eval] at hlatest ⊢
  rw [hlatest]
  cases hstack : t.stack with
  | nil => rfl
  | cons r rest =>
      obtain ⟨-, -, houtside, -, -, hentries, -, htargets, -⟩ := hensured
      rw [hstack] at hentries htargets
      obtain ⟨hout, htarget⟩ := htargets r List.mem_cons_self
      rw [← houtside _ hout] at htarget
      rw [List.length_cons]
      exact undoEntryCalls_eval hentries.1 hout htarget

end Rash
