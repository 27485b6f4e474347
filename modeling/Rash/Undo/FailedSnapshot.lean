import Rash.Undo.SnapshotFaults

/-!
# What a failed snapshot leaves

The early returns of `rash.snapshot_file`, each with the seq file and the entry that it
leaves behind: an entry directory with no `meta` file, or, where the preimage could not be
copied, an entry with an empty one.
-/

namespace Rash

open Decimal FlatFiles Interaction

/-- The number that the call takes for its entry. -/
def entryNumber (dir : Text) (fs : Files) : ℕ :=
  if rashUndoLatestSeq dir fs = 0 then 1 else (rashUndoLatestSeq dir fs + 1) % 2 ^ 64

/-- `rash_undo_ensure_dir` succeeds. -/
def EnsuresDir (faults : SnapshotFaults) (dir : Text) (fs : Files) : Prop :=
  match faults.act .makeDir with
  | none => fs dir = none ∨ fs dir = some .directory
  | some (_, e) => e = .eexist ∧ fs dir = some .directory

/-- A file that is not there, or a regular one that is not too large. -/
def Snapshottable (maxBytes : Option Text) : Option Node → Prop
  | none => True
  | some (.regular file) => file.content.length ≤ rashUndoMaxBytes maxBytes
  | some _ => False

/-- `rash_undo_next_seq` gets as far as the new number. -/
def OpensSeq (faults : SnapshotFaults) (dir : Text) (fs : Files) : Prop :=
  faults.act .openSeq = none ∧ Replaceable (fs (join dir seqName)) ∧ faults.readSeq = none ∧
    faults.act .resetSeq = none

/-- The call empties the seq file. -/
def EmptiesSeq (faults : SnapshotFaults) (maxBytes : Option Text) (dir abspath : Text)
    (taken : Bool) (fs : Files) : Prop :=
  EnsuresDir faults dir fs ∧ taken = false ∧ Snapshottable maxBytes (fs abspath) ∧
    OpensSeq faults dir fs

/-- From `mkdir` on the call creates the `meta` file of entry `seq`. -/
def CreatesMeta (faults : SnapshotFaults) (dir abspath : Text) (seq : ℕ) (fs : Files) : Prop :=
  faults.act (.makeEntry seq) = none ∧ fs (entryDir dir seq) = none ∧
    faults.act (.openPath seq) = none ∧ faults.act (.writePath seq abspath) = none ∧
      faults.act (.openMeta seq) = none

/-- The call gets to the copy of the preimage, with the empty `meta` file created. -/
def CopiesPreimage (faults : SnapshotFaults) (maxBytes : Option Text) (dir abspath : Text)
    (taken : Bool) (fs : Files) : Prop :=
  EmptiesSeq faults maxBytes dir abspath taken fs ∧
    faults.act (.writeSeq (entryNumber dir fs)) = none ∧ entryNumber dir fs ≠ 0 ∧
      CreatesMeta faults dir abspath (entryNumber dir fs) fs ∧
        ∃ file, fs abspath = some (.regular file)

/-- The number in a seq file that the call has emptied and written, or has begun to write. -/
def seqWritten (faults : SnapshotFaults) (dir : Text) (fs : Files) : ℕ :=
  match faults.act (.writeSeq (entryNumber dir fs)) with
  | none => entryNumber dir fs
  | some (written, _) => strtoul 10 ((seqText (entryNumber dir fs)).take written)

/-- An entry whose directory is not there holds nothing. -/
def Rooted (dir : Text) (fs : Files) : Prop :=
  ∀ seq, fs (entryDir dir seq) = none → EntryAbsent dir fs seq

/-! ## The entry -/

theorem writeEntryCalls_spares {dir p abspath : Text} {seq : ℕ} {preimage : Option RegularFile}
    (h : ¬ Inside (entryDir dir seq) p) :
    (writeEntryCalls seq abspath preimage).Uses (UndoCall.Spares dir p) := by
  have hfile : ∀ name, p ≠ entryFile dir seq name := by
    rintro name rfl
    exact h (entryFile_inside dir seq name)
  have hdir : p ≠ entryDir dir seq := by
    rintro rfl
    exact h (Or.inl rfl)
  refine Prog.Uses.bind (uses_act hdir) fun answer => ?_
  rcases answer with e | _
  · trivial
  refine Prog.Uses.bind (uses_act (hfile _)) fun answer => ?_
  rcases answer with e | _
  · trivial
  refine Prog.Uses.bind (uses_act (hfile _)) fun answer => ?_
  rcases answer with e | _
  · trivial
  refine Prog.Uses.bind (uses_act (hfile _)) fun answer => ?_
  rcases answer with e | _
  · trivial
  cases preimage with
  | none => exact Prog.Uses.bind (uses_act (hfile _)) fun _ => trivial
  | some file =>
      refine Prog.Uses.bind (copyFileCalls_spares (hfile _)) fun answer => ?_
      rcases answer with e | _
      · refine Prog.Uses.bind (uses_act (hfile _)) fun _ => ?_
        exact Prog.Uses.bind (uses_act (hfile _)) fun _ => trivial
      · exact Prog.Uses.bind (uses_act (hfile _)) fun _ => trivial

/-- The entry is given up before its `meta` file; it has not changed, or its directory is
new. -/
def GivesUp (dir : Text) (seq : ℕ) (fs fs' : Files) : Prop :=
  fs' (entryFile dir seq metaName) = fs (entryFile dir seq metaName) ∧
    ((∀ p, Inside (entryDir dir seq) p → fs' p = fs p) ∨
      fs (entryDir dir seq) = none ∧ (fs' (entryDir dir seq)).isSome)

/-- The `meta` file is empty, and the `path` file names the path. -/
def LeavesEmptyMeta (dir abspath : Text) (seq : ℕ) (fs' : Files) : Prop :=
  (fs' (entryDir dir seq)).isSome ∧
    fs' (entryFile dir seq metaName) = some (.regular ⟨privateMode, []⟩) ∧
      fs' (entryFile dir seq pathName) = some (.regular ⟨privateMode, abspath⟩)

theorem copyFileCalls_keeps (faults : SnapshotFaults) {dir abspath : Text} {seq : ℕ} {fs : Files}
    (source : Text) (expected : ℕ) (h : LeavesEmptyMeta dir abspath seq fs) :
    LeavesEmptyMeta dir abspath seq
      ((copyFileCalls seq source expected).eval (performFaulty faults dir) fs).2 := by
  have hmd : entryFile dir seq metaName ≠ entryFile dir seq dataName := entryFile_ne (by decide)
  have hpd : entryFile dir seq pathName ≠ entryFile dir seq dataName := entryFile_ne (by decide)
  refine ⟨?_, (eval_frame faults (copyFileCalls_spares hmd) fs).trans h.2.1,
    (eval_frame faults (copyFileCalls_spares hpd) fs).trans h.2.2⟩
  rw [eval_frame faults (copyFileCalls_spares (entryFile_ne_dir dir seq dataName).symm) fs]
  exact h.1

theorem unlinkData_keeps (faults : SnapshotFaults) {dir abspath : Text} {seq : ℕ} {fs : Files}
    (h : LeavesEmptyMeta dir abspath seq fs) :
    LeavesEmptyMeta dir abspath seq
      ((act (.unlinkData seq)).eval (performFaulty faults dir) fs).2 := by
  have hmd : entryFile dir seq metaName ≠ entryFile dir seq dataName := entryFile_ne (by decide)
  have hpd : entryFile dir seq pathName ≠ entryFile dir seq dataName := entryFile_ne (by decide)
  have hspares : ∀ {p}, p ≠ entryFile dir seq dataName →
      (act (.unlinkData seq)).Uses (UndoCall.Spares dir p) := fun hp => uses_act hp
  refine ⟨?_, (eval_frame faults (hspares hmd) fs).trans h.2.1,
    (eval_frame faults (hspares hpd) fs).trans h.2.2⟩
  rw [eval_frame faults (hspares (entryFile_ne_dir dir seq dataName).symm) fs]
  exact h.1

/-- Nothing is in the buffer of the `meta` file when it is closed after a failed copy. -/
theorem closeMeta_keeps (faults : SnapshotFaults) {dir abspath : Text} {seq : ℕ} {fs : Files}
    (h : LeavesEmptyMeta dir abspath seq fs) :
    LeavesEmptyMeta dir abspath seq
      ((act (.closeMeta seq [])).eval (performFaulty faults dir) fs).2 := by
  have hwrite : (writeCall (entryFile dir seq metaName) [] fs).2 = fs := by
    simp only [writeCall, changeFile, h.2.1, List.append_nil]
    exact Files.set_same h.2.1
  cases hfault : faults.act (.closeMeta seq []) with
  | none =>
      rw [eval_act_works hfault]
      exact hwrite.symm ▸ h
  | some fault =>
      rw [eval_act_fails hfault]
      simp only [performPart, List.take_nil]
      exact hwrite.symm ▸ h

theorem writeEntryCalls_outcome (faults : SnapshotFaults) {dir abspath : Text} {seq : ℕ}
    {fs : Files} {preimage : Option RegularFile} (hrooted : Rooted dir fs)
    (hfailed : ((writeEntryCalls seq abspath preimage).eval (performFaulty faults dir) fs).1.1 =
      false) :
    let fs' := ((writeEntryCalls seq abspath preimage).eval (performFaulty faults dir) fs).2
    (CreatesMeta faults dir abspath seq fs ∧ preimage ≠ none ∧
        LeavesEmptyMeta dir abspath seq fs') ∨
      (¬ (CreatesMeta faults dir abspath seq fs ∧ preimage ≠ none) ∧ GivesUp dir seq fs fs') := by
  have hmp : entryFile dir seq metaName ≠ entryFile dir seq pathName := entryFile_ne (by decide)
  have hfd := entryFile_ne_dir dir seq
  unfold writeEntryCalls at hfailed ⊢
  rw [Prog.eval_bind] at hfailed ⊢
  cases hmake : faults.act (.makeEntry seq) with
  | some fault =>
      rw [eval_act_fails hmake]
      exact Or.inr ⟨fun h => by simp [CreatesMeta, hmake] at h, rfl, Or.inl fun _ _ => rfl⟩
  | none =>
      rw [eval_act_works hmake] at hfailed ⊢
      cases hdir : fs (entryDir dir seq) with
      | some node =>
          simp only [performAct, mkdirCall, hdir] at hfailed ⊢
          exact Or.inr ⟨fun h => by simp [CreatesMeta, hdir] at h, rfl, Or.inl fun _ _ => rfl⟩
      | none =>
          have hfile : ∀ name, fs (entryFile dir seq name) = none := fun name =>
            hrooted seq hdir _ (entryFile_inside dir seq name)
          have hgivesUp : ∀ {fs' : Files}, fs' (entryDir dir seq) = some .directory →
              fs' (entryFile dir seq metaName) = none → GivesUp dir seq fs fs' :=
            fun hnew hmeta => ⟨hmeta.trans (hfile _).symm, Or.inr ⟨hdir, by rw [hnew]; rfl⟩⟩
          obtain ⟨made, hmade⟩ : ∃ made, made = fs.set (entryDir dir seq) (some .directory) :=
            ⟨_, rfl⟩
          have hmadeDir : made (entryDir dir seq) = some .directory := by
            rw [hmade, Files.set_self]
          have hmadeFile : ∀ name, made (entryFile dir seq name) = none := fun name => by
            rw [hmade, Files.set_of_ne _ _ (hfd name), hfile]
          simp only [performAct, mkdirCall, hdir, ← hmade] at hfailed ⊢
          rw [Prog.eval_bind] at hfailed ⊢
          cases hopen : faults.act (.openPath seq) with
          | some fault =>
              rw [eval_act_fails hopen]
              exact Or.inr ⟨fun h => by simp [CreatesMeta, hopen] at h,
                hgivesUp hmadeDir (hmadeFile _)⟩
          | none =>
              rw [eval_act_works hopen] at hfailed ⊢
              simp only [performAct, createNewCall, hmadeFile] at hfailed ⊢
              rw [Prog.eval_bind] at hfailed ⊢
              cases hwrite : faults.act (.writePath seq abspath) with
              | some fault =>
                  rw [eval_act_fails hwrite]
                  simp only [performPart, writeCall_set, Prog.eval_pure]
                  refine Or.inr ⟨fun h => by simp [CreatesMeta, hwrite] at h, hgivesUp ?_ ?_⟩
                  · rw [Files.set_of_ne _ _ (hfd _).symm, hmadeDir]
                  · rw [Files.set_of_ne _ _ hmp, hmadeFile]
              | none =>
                  rw [eval_act_works hwrite] at hfailed ⊢
                  simp only [performAct, writeCall_set, List.nil_append] at hfailed ⊢
                  obtain ⟨named, hnamed⟩ : ∃ named, named = made.set
                      (entryFile dir seq pathName) (some (.regular ⟨privateMode, abspath⟩)) :=
                    ⟨_, rfl⟩
                  have hnamedDir : named (entryDir dir seq) = some .directory := by
                    rw [hnamed, Files.set_of_ne _ _ (hfd _).symm, hmadeDir]
                  have hnamedMeta : named (entryFile dir seq metaName) = none := by
                    rw [hnamed, Files.set_of_ne _ _ hmp, hmadeFile]
                  rw [← hnamed, Prog.eval_bind] at hfailed ⊢
                  cases hmeta : faults.act (.openMeta seq) with
                  | some fault =>
                      rw [eval_act_fails hmeta]
                      exact Or.inr ⟨fun h => by simp [CreatesMeta, hmeta] at h,
                        hgivesUp hnamedDir hnamedMeta⟩
                  | none =>
                      have hcreates : CreatesMeta faults dir abspath seq fs :=
                        ⟨hmake, hdir, hopen, hwrite, hmeta⟩
                      rw [eval_act_works hmeta] at hfailed ⊢
                      simp only [performAct, createEmptyCall, openCreate, hnamedMeta]
                        at hfailed ⊢
                      cases preimage with
                      | none => simp at hfailed
                      | some file =>
                          refine Or.inl ⟨hcreates, Option.some_ne_none file, ?_⟩
                          have hopened : LeavesEmptyMeta dir abspath seq
                              (named.set (entryFile dir seq metaName)
                                (some (.regular ⟨privateMode, []⟩))) := by
                            refine ⟨?_, Files.set_self .., ?_⟩
                            · rw [Files.set_of_ne _ _ (hfd _).symm, hnamedDir]
                              rfl
                            · rw [Files.set_of_ne _ _ hmp.symm, hnamed, Files.set_self]
                          have hcopied := copyFileCalls_keeps faults abspath
                            file.content.length hopened
                          dsimp only at hfailed ⊢
                          rw [Prog.eval_bind] at hfailed ⊢
                          cases hcopy : ((copyFileCalls seq abspath
                              file.content.length).eval (performFaulty faults dir)
                                (named.set (entryFile dir seq metaName)
                                  (some (.regular ⟨privateMode, []⟩)))).1 with
                          | ok done =>
                              rw [hcopy] at hfailed
                              simp at hfailed
                          | error e =>
                              exact unlinkData_keeps faults (closeMeta_keeps faults hcopied)

/-! ## The undo directory and the seq file -/

theorem ensureDirCalls_outcome (faults : SnapshotFaults) (dir : Text) (fs : Files) :
    (EnsuresDir faults dir fs ∧ ensureDirCalls.eval (performFaulty faults dir) fs =
        (.ok (), fs.set dir (some .directory))) ∨
      ¬ EnsuresDir faults dir fs ∧
        ∃ text, ensureDirCalls.eval (performFaulty faults dir) fs = (.error text, fs) := by
  unfold ensureDirCalls EnsuresDir
  rw [Prog.eval_bind]
  cases hmake : faults.act .makeDir with
  | none =>
      rw [eval_act_works hmake]
      cases hdir : fs dir with
      | none => simp [performAct, mkdirCall, hdir]
      | some node =>
          cases node <;>
            simp [performAct, mkdirCall, hdir, eval_look_faulty, performLook, Files.set_same hdir]
  | some fault =>
      obtain ⟨written, e⟩ := fault
      rw [eval_act_fails hmake]
      dsimp only [performPart]
      cases e with
      | eexist =>
          cases hdir : fs dir with
          | none => simp [hdir, eval_look_faulty, performLook]
          | some node =>
              cases node <;>
                simp [hdir, eval_look_faulty, performLook, Files.set_same hdir]
      | enoent => simp
      | eisdir => simp
      | other text => simp

/-- A seq file that counts as empty reads as 0 either way. -/
theorem nextSeq_eq {dir : Text} {fs : Files} {file : RegularFile}
    (h : fs (join dir seqName) = some (.regular file)) :
    nextSeq (file.content.take 31) = entryNumber dir fs := by
  unfold nextSeq entryNumber rashUndoLatestSeq
  rw [h]
  by_cases hempty : file.content = []
  · simp only [hempty, if_true]
    rfl
  · simp only [hempty, if_false]

theorem entryNumber_none {dir : Text} {fs : Files} (h : fs (join dir seqName) = none) :
    entryNumber dir fs = 1 := by
  simp only [entryNumber, rashUndoLatestSeq, h, if_true]

/-- The seq file gets as much of its new text as is written. -/
theorem nextSeqCalls_opened {faults : SnapshotFaults} {dir : Text} {fs : Files}
    (h : OpensSeq faults dir fs) : ∃ mode,
      match faults.act (.writeSeq (entryNumber dir fs)) with
      | none => nextSeqCalls.eval (performFaulty faults dir) fs = (.ok (entryNumber dir fs),
          fs.set (join dir seqName) (some (.regular ⟨mode, seqText (entryNumber dir fs)⟩)))
      | some (written, e) => nextSeqCalls.eval (performFaulty faults dir) fs =
          (.error ("cannot write undo seq: " ++ e.text), fs.set (join dir seqName)
            (some (.regular ⟨mode, (seqText (entryNumber dir fs)).take written⟩))) := by
  obtain ⟨hopen, ⟨file, hfile⟩, hread, hreset⟩ := h
  obtain ⟨mode, content, hopened, hnumber⟩ : ∃ mode content,
      openCreate fs (join dir seqName) privateMode = some ⟨mode, content⟩ ∧
        nextSeq (content.take 31) = entryNumber dir fs := by
    cases file with
    | none =>
        refine ⟨privateMode, [], by simp only [openCreate, hfile, Option.map_none], ?_⟩
        rw [entryNumber_none hfile]
        rfl
    | some file =>
        exact ⟨file.mode, file.content, by simp only [openCreate, hfile, Option.map_some],
          nextSeq_eq hfile⟩
  refine ⟨mode, ?_⟩
  unfold nextSeqCalls
  rw [Prog.eval_bind, eval_act_works hopen]
  simp only [performAct, createCall, hopened]
  rw [Prog.eval_bind, eval_readSeq_faulty, hread]
  simp only [performFetch, readCall, Files.set_self, Except.map, hnumber]
  rw [Prog.eval_bind, eval_act_works hreset]
  simp only [performAct, changeFile_set]
  rw [Prog.eval_bind]
  cases hwrite : faults.act (.writeSeq (entryNumber dir fs)) with
  | none =>
      rw [eval_act_works hwrite]
      simp only [performAct, writeCall_set, List.nil_append, Prog.eval_pure]
  | some fault =>
      obtain ⟨written, e⟩ := fault
      rw [eval_act_fails hwrite]
      simp only [performPart, writeCall_set, List.nil_append, Prog.eval_pure]

/-- The seq file is not touched, or only created. -/
theorem nextSeqCalls_refused {faults : SnapshotFaults} {dir : Text} {fs : Files}
    (h : ¬ OpensSeq faults dir fs) : ∃ text fs',
      nextSeqCalls.eval (performFaulty faults dir) fs = (.error text, fs') ∧
        (fs' = fs ∨ fs (join dir seqName) = none ∧
          fs' = fs.set (join dir seqName) (some (.regular ⟨privateMode, []⟩))) := by
  unfold nextSeqCalls
  rw [Prog.eval_bind]
  cases hopen : faults.act .openSeq with
  | some fault =>
      rw [eval_act_fails hopen]
      exact ⟨_, _, rfl, Or.inl rfl⟩
  | none =>
      rw [eval_act_works hopen]
      simp only [performAct, createCall]
      cases hopened : openCreate fs (join dir seqName) privateMode with
      | none => exact ⟨_, _, rfl, Or.inl rfl⟩
      | some file =>
          have hnode : fs (join dir seqName) = some (.regular file) ∨
              fs (join dir seqName) = none ∧ file = ⟨privateMode, []⟩ := by
            unfold openCreate at hopened
            split at hopened
            · rename_i hnone
              exact Or.inr ⟨hnone, (Option.some.inj hopened).symm⟩
            · rename_i found hfound
              exact Or.inl (Option.some.inj hopened ▸ hfound)
            · cases hopened
          have hleft : fs.set (join dir seqName) (some (.regular file)) = fs ∨
              fs (join dir seqName) = none ∧ fs.set (join dir seqName) (some (.regular file)) =
                fs.set (join dir seqName) (some (.regular ⟨privateMode, []⟩)) := by
            rcases hnode with hsome | ⟨hnone, rfl⟩
            · exact Or.inl (Files.set_same hsome)
            · exact Or.inr ⟨hnone, rfl⟩
          have hreplaceable : Replaceable (fs (join dir seqName)) := by
            rcases hnode with hsome | ⟨hnone, -⟩
            · exact ⟨some file, hsome⟩
            · exact ⟨none, hnone⟩
          dsimp only
          rw [Prog.eval_bind]
          cases hread : faults.readSeq with
          | some e =>
              rw [eval_readSeq_faulty, hread]
              exact ⟨_, _, rfl, hleft⟩
          | none =>
              rw [eval_readSeq_faulty, hread]
              simp only [performFetch, readCall, Files.set_self, Except.map]
              rw [Prog.eval_bind]
              cases hreset : faults.act .resetSeq with
              | none => exact absurd ⟨hopen, hreplaceable, hread, hreset⟩ h
              | some fault =>
                  rw [eval_act_fails hreset]
                  exact ⟨_, _, rfl, hleft⟩

/-! ## The whole call -/

/-- What every failed call leaves alone. -/
structure Leftover (dir : Text) (fs fs' : Files) : Prop where
  outside : ∀ p, ¬ Inside dir p → fs' p = fs p
  directory : fs' dir = fs dir ∨ fs dir = none ∧ fs' dir = some .directory
  entries : ∀ seq, seq ≠ entryNumber dir fs → ∀ p, Inside (entryDir dir seq) p → fs' p = fs p
  seqFile : Replaceable (fs (join dir seqName)) → Replaceable (fs' (join dir seqName))

theorem Leftover.refl (dir : Text) (fs : Files) : Leftover dir fs fs :=
  ⟨fun _ _ => rfl, Or.inl rfl, fun _ _ _ _ => rfl, id⟩

/-- The undo directory is there, the seq file may be new, and nothing in an entry changes. -/
theorem Leftover.of_seq {dir : Text} {fs fs' : Files} {file : RegularFile}
    (hdir : fs dir = none ∨ fs dir = some .directory)
    (h : fs' = (fs.set dir (some .directory)).set (join dir seqName) (some (.regular file))) :
    Leftover dir fs fs' := by
  have hne := join_ne_self dir seqName
  have hsame : ∀ p, p ≠ dir → p ≠ join dir seqName → fs' p = fs p := fun p hp hp' => by
    rw [h, Files.set_of_ne _ _ hp', Files.set_of_ne _ _ hp]
  refine ⟨fun p hp => hsame p (fun heq => hp (Or.inl heq))
    (ne_of_outside (inside_join dir seqName) hp).symm, ?_, fun seq _ p hp => ?_, fun _ => ?_⟩
  · rw [h, Files.set_of_ne _ _ hne.symm, Files.set_self]
    exact hdir.elim (fun hnone => Or.inr ⟨hnone, rfl⟩) fun hsome => Or.inl hsome.symm
  · exact hsame p (fun heq => dir_not_entry dir seq (heq ▸ hp)) fun heq =>
      seq_not_entry dir seq (heq ▸ hp)
  · rw [h, Files.set_self]
    exact ⟨some file, rfl⟩

theorem rashUndoLatestSeq_set {dir : Text} {fs : Files} {mode : Fin 4096} {text : Text}
    (h : text.length ≤ 31) :
    rashUndoLatestSeq dir (fs.set (join dir seqName) (some (.regular ⟨mode, text⟩))) =
      strtoul 10 text := by
  unfold rashUndoLatestSeq
  rw [Files.set_self]
  by_cases hempty : text = []
  · simp only [hempty, if_true]
    rfl
  · simp only [hempty, if_false, List.take_of_length_le h]

theorem rashUndoLatestSeq_congr {dir : Text} {fs fs' : Files}
    (h : fs' (join dir seqName) = fs (join dir seqName)) :
    rashUndoLatestSeq dir fs' = rashUndoLatestSeq dir fs := by
  rw [rashUndoLatestSeq, rashUndoLatestSeq, h]

theorem entryNumber_le (dir : Text) (fs : Files) : entryNumber dir fs ≤ ulongMax := by
  unfold entryNumber ulongMax
  split
  · decide
  · have hlt := Nat.mod_lt (rashUndoLatestSeq dir fs + 1) (show 0 < 2 ^ 64 by decide)
    omega

theorem seqText_length {seq : ℕ} (h : seq ≤ ulongMax) : (seqText seq).length ≤ 31 := by
  have hdigits : (decimal seq).length ≤ 20 := by
    rw [decimal, Nat.length_toDigits_le_iff (by decide) (by decide)]
    exact Nat.lt_of_le_of_lt h (by decide)
  rw [seqText, List.length_append, List.length_singleton]
  omega

theorem strtoul_seqText {seq : ℕ} (h : seq ≤ ulongMax) : strtoul 10 (seqText seq) = seq := by
  have hread := seqText_read h
  rwa [List.take_of_length_le (seqText_length h)] at hread

/-- The call behind the checks, on files in which the undo directory is there. -/
theorem takeSnapshotCalls_outcome (faults : SnapshotFaults) {dir abspath : Text} {fs : Files}
    {preimage : Option RegularFile} (hrooted : Rooted dir fs)
    (hfailed : ((takeSnapshotCalls abspath preimage).eval (performFaulty faults dir) fs).1.1 =
      false) :
    let seq := entryNumber dir fs
    let fs' := ((takeSnapshotCalls abspath preimage).eval (performFaulty faults dir) fs).2
    (¬ OpensSeq faults dir fs ∧ (fs' = fs ∨ fs (join dir seqName) = none ∧
        fs' = fs.set (join dir seqName) (some (.regular ⟨privateMode, []⟩)))) ∨
      OpensSeq faults dir fs ∧ (∀ p, ¬ Inside (entryDir dir seq) p → p ≠ join dir seqName →
          fs' p = fs p) ∧ (∃ file, fs' (join dir seqName) = some (.regular file)) ∧
        rashUndoLatestSeq dir fs' = seqWritten faults dir fs ∧
          let copies := faults.act (.writeSeq seq) = none ∧ seq ≠ 0 ∧
            CreatesMeta faults dir abspath seq fs ∧ preimage ≠ none
          (copies ∧ LeavesEmptyMeta dir abspath seq fs') ∨ (¬ copies ∧ GivesUp dir seq fs fs') := by
  obtain ⟨seq, hseq⟩ : ∃ seq, seq = entryNumber dir fs := ⟨_, rfl⟩
  have hbound : seq ≤ ulongMax := hseq ▸ entryNumber_le dir fs
  unfold takeSnapshotCalls at hfailed ⊢
  rw [Prog.eval_bind] at hfailed ⊢
  rw [← hseq]
  by_cases hopens : OpensSeq faults dir fs
  · refine Or.inr ⟨hopens, ?_⟩
    obtain ⟨mode, hnext⟩ := nextSeqCalls_opened hopens
    rw [← hseq] at hnext
    have hentry : ∀ {file : RegularFile} p, p ≠ join dir seqName →
        fs.set (join dir seqName) (some (.regular file)) p = fs p := fun p hp =>
      Files.set_of_ne _ _ hp
    cases hwrite : faults.act (.writeSeq seq) with
    | some fault =>
        obtain ⟨written, e⟩ := fault
        simp only [hwrite] at hnext
        rw [hnext]
        have hlength : ((seqText seq).take written).length ≤ 31 :=
          (List.length_take_le' written _).trans (seqText_length hbound)
        refine ⟨fun p _ hp => hentry p hp, ⟨_, Files.set_self ..⟩, ?_, Or.inr ⟨?_, ?_, ?_⟩⟩
        · rw [seqWritten, ← hseq, hwrite]
          exact rashUndoLatestSeq_set hlength
        · rintro ⟨hnone, -⟩
          cases hnone
        · exact hentry _ fun heq =>
            seq_not_entry dir seq (heq ▸ entryFile_inside dir seq metaName)
        · exact Or.inl fun p hp => hentry p fun heq => seq_not_entry dir seq (heq ▸ hp)
    | none =>
        simp only [hwrite] at hnext
        obtain ⟨fs₁, hfs₁⟩ : ∃ fs₁, fs₁ = fs.set (join dir seqName)
            (some (.regular ⟨mode, seqText seq⟩)) := ⟨_, rfl⟩
        have hsame : ∀ p, p ≠ join dir seqName → fs₁ p = fs p := fun p hp => hfs₁ ▸ hentry p hp
        have hinside : ∀ p, Inside (entryDir dir seq) p → fs₁ p = fs p := fun p hp =>
          hsame p fun heq => seq_not_entry dir seq (heq ▸ hp)
        have hlatest : rashUndoLatestSeq dir fs₁ = seqWritten faults dir fs := by
          rw [seqWritten, ← hseq, hwrite, hfs₁, rashUndoLatestSeq_set (seqText_length hbound),
            strtoul_seqText hbound]
        rw [hnext, ← hfs₁] at hfailed ⊢
        by_cases hzero : seq = 0
        · simp only [hzero, if_true, Prog.eval_pure]
          refine ⟨fun p _ hp => hsame p hp, ⟨_, hfs₁ ▸ Files.set_self ..⟩, hlatest, Or.inr ⟨?_, ?_⟩⟩
          · rintro ⟨-, hne, -⟩
            exact hne rfl
          · rw [← hzero]
            exact ⟨hinside _ (entryFile_inside dir seq metaName), Or.inl hinside⟩
        · simp only [hzero, if_false] at hfailed ⊢
          have hrooted₁ : Rooted dir fs₁ := fun seq' hnone p hp => by
            rw [hsame _ fun heq => seq_not_entry dir seq' (heq ▸ Or.inl rfl)] at hnone
            rw [hsame p fun heq => seq_not_entry dir seq' (heq ▸ hp)]
            exact hrooted seq' hnone p hp
          have hframe : ∀ p, ¬ Inside (entryDir dir seq) p →
              ((writeEntryCalls seq abspath preimage).eval (performFaulty faults dir) fs₁).2 p =
                fs₁ p := fun p hp => eval_frame faults (writeEntryCalls_spares hp) fs₁
          refine ⟨fun p hp hp' => (hframe p hp).trans (hsame p hp'),
            ⟨⟨mode, seqText seq⟩, ?_⟩, ?_, ?_⟩
          · rw [hframe _ (seq_not_entry dir seq), hfs₁, Files.set_self]
          · rw [rashUndoLatestSeq_congr (hframe _ (seq_not_entry dir seq)), hlatest]
          · have hcreates : CreatesMeta faults dir abspath seq fs₁ ↔
                CreatesMeta faults dir abspath seq fs := by
              rw [CreatesMeta, CreatesMeta, hinside _ (Or.inl rfl)]
            rcases writeEntryCalls_outcome faults hrooted₁ hfailed with
              ⟨hmeta, hpreimage, hleft⟩ | ⟨hmeta, hnode, hleft⟩
            · exact Or.inl ⟨⟨trivial, hzero, hcreates.mp hmeta, hpreimage⟩, hleft⟩
            · refine Or.inr ⟨fun hcopies => hmeta ⟨hcreates.mpr hcopies.2.2.1, hcopies.2.2.2⟩,
                hnode.trans (hinside _ (entryFile_inside dir seq metaName)), ?_⟩
              rcases hleft with hkept | ⟨hnone, hnew⟩
              · exact Or.inl fun p hp => (hkept p hp).trans (hinside p hp)
              · exact Or.inr ⟨(hinside _ (Or.inl rfl)).symm.trans hnone, hnew⟩
  · obtain ⟨text, fs', hnext, hleft⟩ := nextSeqCalls_refused hopens
    rw [hnext]
    exact Or.inl ⟨hopens, hleft⟩

theorem EnsuresDir.node {faults : SnapshotFaults} {dir : Text} {fs : Files}
    (h : EnsuresDir faults dir fs) : fs dir = none ∨ fs dir = some .directory := by
  unfold EnsuresDir at h
  split at h
  · exact h
  · exact Or.inr h.2

theorem Rooted.ensured {dir : Text} {fs : Files} (h : Rooted dir fs) (node : Option Node) :
    Rooted dir (fs.set dir node) := by
  intro seq hnone p hp
  have hentry : ∀ q, Inside (entryDir dir seq) q → fs.set dir node q = fs q := fun q hq =>
    Files.set_of_ne _ _ fun heq => dir_not_entry dir seq (heq ▸ hq)
  rw [hentry _ (Or.inl rfl)] at hnone
  rw [hentry p hp, h seq hnone p hp]

theorem Leftover.ensured {dir : Text} {fs : Files} (h : fs dir = none ∨ fs dir = some .directory) :
    Leftover dir fs (fs.set dir (some .directory)) := by
  have hsame : ∀ p, p ≠ dir → fs.set dir (some .directory) p = fs p := fun p hp =>
    Files.set_of_ne _ _ hp
  refine ⟨fun p hp => hsame p fun heq => hp (Or.inl heq), ?_, fun seq _ p hp =>
    hsame p fun heq => dir_not_entry dir seq (heq ▸ hp), fun hseq => ?_⟩
  · rw [Files.set_self]
    exact h.elim (fun hnone => Or.inr ⟨hnone, rfl⟩) fun hsome => Or.inl hsome.symm
  · rwa [hsame _ (join_ne_self dir seqName)]

/-- How a failed call may have left the store. -/
structure SnapshotLeft (faults : SnapshotFaults) (maxBytes : Option Text) (dir abspath : Text)
    (taken : Bool) (fs fs' : Files) : Prop where
  leftover : Leftover dir fs fs'
  kept : ¬ EmptiesSeq faults maxBytes dir abspath taken fs →
    rashUndoLatestSeq dir fs' = rashUndoLatestSeq dir fs ∧
      ∀ p, Inside (entryDir dir (entryNumber dir fs)) p → fs' p = fs p
  emptied : EmptiesSeq faults maxBytes dir abspath taken fs →
    rashUndoLatestSeq dir fs' = seqWritten faults dir fs
  copied : CopiesPreimage faults maxBytes dir abspath taken fs →
    LeavesEmptyMeta dir abspath (entryNumber dir fs) fs'
  notCopied : ¬ CopiesPreimage faults maxBytes dir abspath taken fs →
    GivesUp dir (entryNumber dir fs) fs fs'

/-- The seq file is not written. -/
theorem SnapshotLeft.of_kept {faults : SnapshotFaults} {maxBytes : Option Text}
    {dir abspath : Text} {taken : Bool} {fs fs' : Files} (hleft : Leftover dir fs fs')
    (hempties : ¬ EmptiesSeq faults maxBytes dir abspath taken fs)
    (hlatest : rashUndoLatestSeq dir fs' = rashUndoLatestSeq dir fs)
    (hsame : ∀ p, Inside (entryDir dir (entryNumber dir fs)) p → fs' p = fs p) :
    SnapshotLeft faults maxBytes dir abspath taken fs fs' :=
  ⟨hleft, fun _ => ⟨hlatest, hsame⟩, fun h => absurd h hempties, fun h => absurd h.1 hempties,
    fun _ => ⟨hsame _ (entryFile_inside dir _ metaName), Or.inl hsame⟩⟩

theorem entryNumber_congr {dir : Text} {fs fs' : Files}
    (h : fs' (join dir seqName) = fs (join dir seqName)) :
    entryNumber dir fs' = entryNumber dir fs := by
  rw [entryNumber, entryNumber, rashUndoLatestSeq_congr h]

/-- Behind the checks, with the undo directory made. -/
theorem snapshotLeft_of_taken {faults : SnapshotFaults} {maxBytes : Option Text}
    {dir abspath : Text} {fs : Files} (hrooted : Rooted dir fs)
    (hensures : EnsuresDir faults dir fs) {preimage : Option RegularFile}
    (hnode : fs abspath = preimage.map .regular) (hfits : Snapshottable maxBytes (fs abspath))
    (hfailed : ((takeSnapshotCalls abspath preimage).eval (performFaulty faults dir)
      (fs.set dir (some .directory))).1.1 = false) :
    SnapshotLeft faults maxBytes dir abspath false fs
      ((takeSnapshotCalls abspath preimage).eval (performFaulty faults dir)
        (fs.set dir (some .directory))).2 := by
  obtain ⟨fs₁, hfs₁⟩ : ∃ fs₁, fs₁ = fs.set dir (some .directory) := ⟨_, rfl⟩
  have hsame : ∀ p, p ≠ dir → fs₁ p = fs p := fun p hp => hfs₁ ▸ Files.set_of_ne _ _ hp
  have hseqFile : fs₁ (join dir seqName) = fs (join dir seqName) :=
    hsame _ (join_ne_self dir seqName)
  have hentry : ∀ seq p, Inside (entryDir dir seq) p → fs₁ p = fs p := fun seq p hp =>
    hsame p fun heq => dir_not_entry dir seq (heq ▸ hp)
  have hopens : OpensSeq faults dir fs₁ ↔ OpensSeq faults dir fs := by
    rw [OpensSeq, OpensSeq, hseqFile]
  have hmade : Leftover dir fs fs₁ := hfs₁ ▸ Leftover.ensured hensures.node
  have houtcome := takeSnapshotCalls_outcome faults (hfs₁ ▸ hrooted.ensured _) (hfs₁ ▸ hfailed)
  rw [← hfs₁]
  obtain ⟨fs', hfs'⟩ : ∃ fs', fs' =
      ((takeSnapshotCalls abspath preimage).eval (performFaulty faults dir) fs₁).2 := ⟨_, rfl⟩
  simp only [← hfs', entryNumber_congr hseqFile] at houtcome ⊢
  have hwritten : seqWritten faults dir fs₁ = seqWritten faults dir fs := by
    rw [seqWritten, seqWritten, entryNumber_congr hseqFile]
  rcases houtcome with ⟨hrefused, hleft⟩ | ⟨hopened, hrest, ⟨file, hfile⟩, hlatest, hmeta⟩
  · have hempties : ¬ EmptiesSeq faults maxBytes dir abspath false fs := fun h =>
      hrefused (hopens.mpr h.2.2.2)
    rcases hleft with rfl | ⟨hnone, hnew⟩
    · exact .of_kept hmade hempties (rashUndoLatestSeq_congr hseqFile) (hentry _)
    · have hnone' : fs (join dir seqName) = none := hseqFile.symm.trans hnone
      refine .of_kept (Leftover.of_seq hensures.node (hfs₁ ▸ hnew)) hempties ?_ fun p hp => ?_
      · rw [hnew, rashUndoLatestSeq_set (by decide)]
        simp only [rashUndoLatestSeq, hnone']
        rfl
      · rw [hnew, Files.set_of_ne _ _ fun heq => seq_not_entry dir _ (heq ▸ hp), hentry _ p hp]
  · have hempties : EmptiesSeq faults maxBytes dir abspath false fs :=
      ⟨hensures, rfl, hfits, hopens.mp hopened⟩
    have hcreates : CreatesMeta faults dir abspath (entryNumber dir fs) fs₁ ↔
        CreatesMeta faults dir abspath (entryNumber dir fs) fs := by
      rw [CreatesMeta, CreatesMeta, hentry _ _ (Or.inl rfl)]
    have hregular : preimage ≠ none ↔ ∃ file, fs abspath = some (.regular file) := by
      rw [hnode]
      cases preimage <;> simp
    have hcopies : (faults.act (.writeSeq (entryNumber dir fs)) = none ∧
        entryNumber dir fs ≠ 0 ∧ CreatesMeta faults dir abspath (entryNumber dir fs) fs₁ ∧
          preimage ≠ none) ↔ CopiesPreimage faults maxBytes dir abspath false fs := by
      rw [hcreates, hregular]
      exact ⟨fun h => ⟨hempties, h⟩, fun h => h.2⟩
    rw [hwritten] at hlatest
    refine ⟨⟨fun p hp => ?_, ?_, fun seq hne p hp => ?_, fun _ => ?_⟩, fun h => absurd hempties h,
      fun _ => hlatest, fun h => ?_, fun h => ?_⟩
    · rw [hrest p (fun hp' => hp (inside_of_entry hp'))
        (ne_of_outside (inside_join dir seqName) hp).symm, hmade.outside p hp]
    · rw [hrest dir (dir_not_entry dir _) (join_ne_self dir seqName).symm]
      exact hmade.directory
    · rw [hrest p (fun hp' => hne (entry_disjoint hp hp'))
        fun heq => seq_not_entry dir seq (heq ▸ hp), hentry seq p hp]
    · rw [hfile]
      exact ⟨some file, rfl⟩
    · exact hmeta.elim And.right fun hnot =>
        absurd (hcopies.mpr h) hnot.1
    · obtain ⟨hnode', hgave⟩ := hmeta.elim
        (fun hcopied => absurd (hcopies.mp hcopied.1) h) And.right
      refine ⟨hnode'.trans (hentry _ _ (entryFile_inside dir _ metaName)), ?_⟩
      rcases hgave with hkept | ⟨hnone, hnew⟩
      · exact Or.inl fun p hp => (hkept p hp).trans (hentry _ p hp)
      · exact Or.inr ⟨(hentry _ _ (Or.inl rfl)).symm.trans hnone, hnew⟩

theorem snapshotWith_left (faults : SnapshotFaults) {dir : Text} {maxBytes cwd : Option Text}
    {path : Text} {s : UndoState} (hrooted : Rooted dir s.files)
    (hout : ¬ Inside dir (rashUndoAbspath cwd path))
    (hfailed : (snapshotWith faults dir maxBytes cwd path s).1.1 = false) :
    ∃ fs', (snapshotWith faults dir maxBytes cwd path s).2 = { s with files := fs' } ∧
      SnapshotLeft faults maxBytes dir (rashUndoAbspath cwd path)
        (s.applyWindowHas (rashUndoAbspath cwd path)) s.files fs' := by
  obtain ⟨abspath, habspath⟩ : ∃ abspath, abspath = rashUndoAbspath cwd path := ⟨_, rfl⟩
  obtain ⟨taken, htaken⟩ : ∃ taken, taken = s.applyWindowHas abspath := ⟨_, rfl⟩
  unfold snapshotWith at hfailed ⊢
  dsimp only at hfailed ⊢
  rw [← habspath, ← htaken] at hfailed ⊢
  rw [← habspath] at hout
  have hreply : ((snapshotFileCalls maxBytes abspath taken).eval (performFaulty faults dir)
      s.files).1 ≠ (true, none) := fun heq => by simp [heq] at hfailed
  rw [if_neg hreply]
  refine ⟨_, rfl, ?_⟩
  have hmade : s.files.set dir (some .directory) abspath = s.files abspath :=
    Files.set_of_ne _ _ fun heq => hout (Or.inl heq)
  have hseqFile : s.files.set dir (some .directory) (join dir seqName) =
      s.files (join dir seqName) := Files.set_of_ne _ _ (join_ne_self dir seqName)
  have hentry : ∀ p, Inside (entryDir dir (entryNumber dir s.files)) p →
      s.files.set dir (some .directory) p = s.files p := fun p hp =>
    Files.set_of_ne _ _ fun heq => dir_not_entry dir _ (heq ▸ hp)
  unfold snapshotFileCalls at hfailed ⊢
  rw [Prog.eval_bind] at hfailed ⊢
  rcases ensureDirCalls_outcome faults dir s.files with ⟨hensures, hok⟩ | ⟨hnot, text, herror⟩
  · rw [hok] at hfailed ⊢
    have hrefused : ¬ Snapshottable maxBytes (s.files abspath) →
        SnapshotLeft faults maxBytes dir abspath taken s.files
          (s.files.set dir (some .directory)) := fun hnot =>
      .of_kept (Leftover.ensured hensures.node) (fun h => hnot h.2.2.1)
        (rashUndoLatestSeq_congr hseqFile) hentry
    cases taken with
    | true => simp [already] at hfailed
    | false =>
        simp only [Bool.false_eq_true, if_false] at hfailed ⊢
        rw [Prog.eval_bind, eval_look_faulty] at hfailed ⊢
        simp only [performLook, hmade] at hfailed ⊢
        cases hnode : s.files abspath with
        | none =>
            simp only [hnode] at hfailed
            exact snapshotLeft_of_taken hrooted hensures hnode (hnode ▸ trivial) hfailed
        | some node =>
            cases node with
            | regular file =>
                simp only [hnode] at hfailed
                by_cases hsize : rashUndoMaxBytes maxBytes < file.content.length
                · simp only [hsize, if_true]
                  refine hrefused fun h => absurd hsize ?_
                  rw [hnode] at h
                  exact Nat.not_lt.mpr h
                · simp only [hsize, if_false] at hfailed ⊢
                  exact snapshotLeft_of_taken hrooted hensures hnode
                    (hnode ▸ Nat.not_lt.mp hsize) hfailed
            | directory => exact hrefused fun h => by simp [hnode, Snapshottable] at h
            | other => exact hrefused fun h => by simp [hnode, Snapshottable] at h
  · rw [herror]
    exact .of_kept (.refl dir s.files) (fun h => hnot h.1) rfl fun _ _ => rfl

end Rash
