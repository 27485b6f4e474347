import Rash.Lib.Machine
import Rash.Undo.Stack

/-!
# The store refines the stack

The seq file and the entry directories follow the stack through every snapshot and every
undo, whatever happens to the files outside the undo directory in between.
-/

namespace Rash

open Decimal FlatFiles Machine

/-! ## Paths of the store -/

theorem padded_no_slash (width n : ℕ) : '/' ∉ padded width n := by
  intro h
  cases isDigit_of_mem_padded h

theorem entryDir_inside (dir : Text) (seq : ℕ) : Inside dir (entryDir dir seq) := inside_join _ _

theorem inside_of_entry {dir p : Text} {seq : ℕ} (h : Inside (entryDir dir seq) p) :
    Inside dir p := (entryDir_inside dir seq).trans h

/-- The paths of different entries differ. -/
theorem entry_disjoint {dir p : Text} {seq seq' : ℕ} (h : Inside (entryDir dir seq) p)
    (h' : Inside (entryDir dir seq') p) : seq = seq' :=
  padded_injective 6 (name_eq_of_inside (padded_no_slash 6 seq) (padded_no_slash 6 seq') h h')

/-- The seq file lies in no entry. -/
theorem seq_not_entry (dir : Text) (seq : ℕ) : ¬ Inside (entryDir dir seq) (join dir seqName) := by
  intro h
  have hname := name_eq_of_inside (padded_no_slash 6 seq) (by decide) h (Or.inl rfl)
  have hmem : 's' ∈ padded 6 seq := by
    rw [hname]
    exact List.mem_cons_self
  cases isDigit_of_mem_padded hmem

theorem dir_not_entry (dir : Text) (seq : ℕ) : ¬ Inside (entryDir dir seq) dir := by
  rintro (h | ⟨name, h⟩)
  · exact join_ne_self dir _ h.symm
  · have hlength := congrArg List.length h
    simp [entryDir, join] at hlength

theorem entryFile_inside (dir : Text) (seq : ℕ) (name : Text) :
    Inside (entryDir dir seq) (entryFile dir seq name) := inside_join _ _

theorem entryFile_ne {dir : Text} {seq : ℕ} {a b : Text} (h : a ≠ b) :
    entryFile dir seq a ≠ entryFile dir seq b :=
  fun heq => h (join_injective _ heq)

theorem entryFile_ne_dir (dir : Text) (seq : ℕ) (name : Text) :
    entryFile dir seq name ≠ entryDir dir seq := join_ne_self _ _

/-! ## Texts of the store -/

theorem seqText_read {count : ℕ} (h : count ≤ ulongMax) :
    strtoul 10 ((seqText count).take 31) = count := by
  have hlength : (decimal count).length ≤ 20 := by
    rw [decimal, Nat.length_toDigits_le_iff (by decide) (by decide)]
    exact Nat.lt_of_le_of_lt h (by decide)
  rw [List.take_of_length_le (by simp [seqText]; omega)]
  refine strtoul_ten_decimal h fun c hc => ?_
  cases hc
  decide

theorem metaText_absent_read : (rashUndoReadMeta (metaText none)).existed = 0 := by decide

theorem keyLine_no_newline {key : Text} (hkey : ∀ c ∈ key, (c == '\n') = false) (n : ℕ) :
    ∀ c ∈ key ++ decimal n, (c == '\n') = false := by
  intro c hc
  rcases List.mem_append.mp hc with hmem | hdigit
  · exact hkey c hmem
  · rw [beq_eq_false_iff_ne]
    rintro rfl
    cases isDigit_of_mem_decimal hdigit

theorem metaText_lines (file : RegularFile) :
    (metaText (some file)).splitOn '\n' =
      [existedKey ++ ['1'], modeKey ++ decimal file.mode,
        sizeKey ++ decimal file.content.length, []] := by
  have htext : metaText (some file) = (existedKey ++ ['1']) ++ '\n' ::
      ((modeKey ++ decimal file.mode) ++ '\n' ::
        ((sizeKey ++ decimal file.content.length) ++ '\n' :: [])) := by simp [metaText]
  rw [htext, List.splitOn_append_cons_of_forall_mem_beq_eq_false (by simp [existedKey]) _ rfl,
    List.splitOn_append_cons_of_forall_mem_beq_eq_false
      (keyLine_no_newline (by simp [modeKey]) _) _ rfl,
    List.splitOn_append_cons_of_forall_mem_beq_eq_false
      (keyLine_no_newline (by simp [sizeKey]) _) _ rfl,
    List.splitOn_nil]

theorem read_existed (m : UndoMeta) (t : Text) :
    m.read (existedKey ++ t) = { m with existed := strtoul 10 t } := rfl

theorem read_mode (m : UndoMeta) (t : Text) :
    m.read (modeKey ++ t) = { m with mode := strtoul 0 t } := rfl

theorem read_size (m : UndoMeta) (t : Text) :
    m.read (sizeKey ++ t) = { m with size := strtoul 10 t } := rfl

theorem read_nil (m : UndoMeta) : m.read [] = m := rfl

theorem metaText_read (file : RegularFile) :
    (rashUndoReadMeta (metaText (some file))).existed = 1 ∧
      (rashUndoReadMeta (metaText (some file))).mode = file.mode := by
  have hfits : (file.mode : ℕ) ≤ ulongMax :=
    Nat.le_trans (Nat.le_of_lt file.mode.isLt) (by decide)
  rw [rashUndoReadMeta, metaText_lines]
  simp only [List.foldl_cons, List.foldl_nil, read_existed, read_mode, read_size, read_nil,
    strtoul_zero_decimal hfits]
  exact ⟨by decide, trivial⟩

theorem copyLoop_eq {rounds : ℕ} {source copied : Text} (h : source.length < rounds) :
    copyLoop rounds source copied = copied ++ source := by
  induction rounds generalizing source copied with
  | zero => omega
  | succ rounds ih =>
      rw [copyLoop]
      split
      · rename_i hnil
        rw [hnil, List.append_nil]
      · rename_i hne
        have hpos := List.length_pos_iff.mpr hne
        rw [ih (by rw [List.length_drop]; omega), List.append_assoc, List.take_append_drop]

theorem copyBytes_eq (source : Text) : copyBytes source = source :=
  copyLoop_eq (Nat.lt_succ_self _)

/-! ## Snapshots -/

theorem rashUndoLatestSeq_eq {dir : Text} {fs : Files} {count : ℕ} (h : SeqHolds dir fs count)
    (hbound : count ≤ ulongMax) : rashUndoLatestSeq dir fs = count := by
  rcases h with ⟨hnone, rfl⟩ | ⟨mode, hsome⟩
  · simp only [rashUndoLatestSeq, hnone]
  · have hne : seqText count ≠ [] := by simp [seqText]
    simp only [rashUndoLatestSeq, hsome, hne, if_false, seqText_read hbound]

/-- The seq file is advanced by one, up to the largest number. -/
theorem rashUndoNextSeq_eq {dir : Text} {fs : Files} {count : ℕ} (h : SeqHolds dir fs count)
    (hbound : count ≤ ulongMax) :
    ∃ mode, rashUndoNextSeq dir fs = .ok ((count + 1) % 2 ^ 64,
      fs.set (join dir seqName)
        (some (.regular ⟨mode, seqText ((count + 1) % 2 ^ 64)⟩))) := by
  rcases h with ⟨hnone, rfl⟩ | ⟨mode, hsome⟩
  · refine ⟨privateMode, ?_⟩
    simp only [rashUndoNextSeq, openCreate, hnone]
    rfl
  · refine ⟨mode, ?_⟩
    have hnext : (if count = 0 then 1 else (count + 1) % 2 ^ 64) = (count + 1) % 2 ^ 64 := by
      split
      · rename_i hzero
        rw [hzero]
        rfl
      · rfl
    simp only [rashUndoNextSeq, openCreate, hsome, seqText_read hbound, hnext]

theorem rashUndoEnsureDir_eq {dir : Text} {fs : Files}
    (h : fs dir = none ∨ fs dir = some .directory) :
    rashUndoEnsureDir dir fs = .ok (fs.set dir (some .directory)) := by
  rcases h with hnone | hdir
  · simp only [rashUndoEnsureDir, hnone]
  · simp only [rashUndoEnsureDir, hdir, Files.set_same hdir]

/-- The nodes that a snapshot sets, over any files. -/
theorem entryFiles_of_set {dir : Text} {seq : ℕ} {fs : Files} (habsent : EntryAbsent dir fs seq)
    {abspath : Text} {preimage : Option RegularFile} {fs' : Files}
    (hset : ∀ p, fs' p =
      if p = entryFile dir seq metaName then some (.regular ⟨privateMode, metaText preimage⟩)
      else if p = entryFile dir seq dataName then
        preimage.map fun file => .regular ⟨privateMode, file.content⟩
      else if p = entryFile dir seq pathName then some (.regular ⟨privateMode, abspath⟩)
      else if p = entryDir dir seq then some .directory
      else fs p) :
    EntryHolds dir fs' seq ⟨abspath, preimage⟩ ∧
      ∀ p, ¬ Inside (entryDir dir seq) p → fs' p = fs p := by
  constructor
  · intro p hp
    rw [hset p, habsent p hp]
    rfl
  · intro p hp
    have hfile : ∀ name, p ≠ entryFile dir seq name := by
      rintro name rfl
      exact hp (entryFile_inside dir seq name)
    have hdir : p ≠ entryDir dir seq := by
      rintro rfl
      exact hp (Or.inl rfl)
    rw [hset p, if_neg (hfile _), if_neg (hfile _), if_neg (hfile _), if_neg hdir]

/-- Into an absent entry a snapshot is written as it is, and nothing else changes. -/
theorem writeEntry_eq {dir : Text} {seq : ℕ} {fs : Files} (habsent : EntryAbsent dir fs seq)
    (abspath : Text) (preimage : Option RegularFile) :
    ∃ fs', writeEntry dir seq abspath preimage fs = ((true, none), fs') ∧
      EntryHolds dir fs' seq ⟨abspath, preimage⟩ ∧
      ∀ p, ¬ Inside (entryDir dir seq) p → fs' p = fs p := by
  have hdir : fs (entryDir dir seq) = none := habsent _ (Or.inl rfl)
  have hfile : ∀ name, fs (entryFile dir seq name) = none :=
    fun name => habsent _ (entryFile_inside dir seq name)
  have hmp : entryFile dir seq metaName ≠ entryFile dir seq pathName := entryFile_ne (by decide)
  have hdp : entryFile dir seq dataName ≠ entryFile dir seq pathName := entryFile_ne (by decide)
  have hdm : entryFile dir seq dataName ≠ entryFile dir seq metaName := entryFile_ne (by decide)
  have hne := entryFile_ne_dir dir seq
  obtain ⟨named, hnamed⟩ : ∃ named, named = (fs.set (entryDir dir seq) (some .directory)).set
      (entryFile dir seq pathName) (some (.regular ⟨privateMode, abspath⟩)) := ⟨_, rfl⟩
  have hpath : (fs.set (entryDir dir seq) (some .directory)) (entryFile dir seq pathName) =
      none := by
    rw [Files.set_of_ne _ _ (hne _), hfile]
  have hmeta : named (entryFile dir seq metaName) = none := by
    rw [hnamed, Files.set_of_ne _ _ hmp, Files.set_of_ne _ _ (hne _), hfile]
  have hopen : openCreate named (entryFile dir seq metaName) privateMode =
      some ⟨privateMode, []⟩ := by
    simp only [openCreate, hmeta]
  have hdata : ∀ node, (named.set (entryFile dir seq metaName) node)
      (entryFile dir seq dataName) = none := by
    intro node
    rw [Files.set_of_ne _ _ hdm, hnamed, Files.set_of_ne _ _ hdp, Files.set_of_ne _ _ (hne _),
      hfile]
  cases preimage with
  | none =>
      refine ⟨named.set (entryFile dir seq metaName)
        (some (.regular ⟨privateMode, metaText none⟩)), ?_, entryFiles_of_set habsent fun p => ?_⟩
      · simp only [writeEntry, hdir, hpath, Option.isSome_none, Bool.false_eq_true, if_false]
        rw [← hnamed, hopen]
      · by_cases hp : p = entryFile dir seq dataName
        · rw [hp, hdata, if_neg hdm, if_pos rfl]
          rfl
        · simp only [hnamed, Files.set, hp, if_false]
  | some file =>
      refine ⟨((named.set (entryFile dir seq metaName) (some (.regular ⟨privateMode, []⟩))).set
        (entryFile dir seq dataName) (some (.regular ⟨privateMode, file.content⟩))).set
          (entryFile dir seq metaName) (some (.regular ⟨privateMode, metaText (some file)⟩)),
        ?_, entryFiles_of_set habsent fun p => ?_⟩
      · have hcopy : rashUndoCopyFile file.content file.content.length = some file.content := by
          rw [rashUndoCopyFile, copyBytes_eq, if_pos rfl]
        simp only [writeEntry, hdir, hpath, Option.isSome_none, Bool.false_eq_true, if_false]
        rw [← hnamed, hopen]
        simp only [hdata, hcopy]
      · by_cases hp : p = entryFile dir seq metaName
        · rw [hp, Files.set_self, if_pos rfl]
        · simp only [hnamed, Files.set, hp, if_false]
          rfl

/-! ## Undo -/

theorem entryFiles_path (dir : Text) (seq : ℕ) (r : UndoRecord) :
    entryFiles dir seq r (entryFile dir seq pathName) =
      some (.regular ⟨privateMode, r.path⟩) := by
  have hpm : entryFile dir seq pathName ≠ entryFile dir seq metaName := entryFile_ne (by decide)
  have hpd : entryFile dir seq pathName ≠ entryFile dir seq dataName := entryFile_ne (by decide)
  rw [entryFiles, Files.set_of_ne _ _ hpm, Files.set_of_ne _ _ hpd, Files.set_self]

theorem entryFiles_meta (dir : Text) (seq : ℕ) (r : UndoRecord) :
    entryFiles dir seq r (entryFile dir seq metaName) =
      some (.regular ⟨privateMode, metaText r.preimage⟩) := by
  rw [entryFiles, Files.set_self]

theorem entryFiles_data (dir : Text) (seq : ℕ) (r : UndoRecord) :
    entryFiles dir seq r (entryFile dir seq dataName) =
      r.preimage.map fun file => .regular ⟨privateMode, file.content⟩ := by
  have hdm : entryFile dir seq dataName ≠ entryFile dir seq metaName := entryFile_ne (by decide)
  rw [entryFiles, Files.set_of_ne _ _ hdm, Files.set_self]

theorem openCreate_replaceable {fs : Files} {path : Text} (h : Replaceable (fs path))
    (mode : Fin 4096) : ∃ file, openCreate fs path mode = some file := by
  obtain ⟨file, hfile⟩ := h
  cases file with
  | none => exact ⟨⟨mode, []⟩, by simp only [openCreate, hfile, Option.map_none]⟩
  | some file => exact ⟨file, by simp only [openCreate, hfile, Option.map_some]⟩

theorem unlinkTarget_eq {fs : Files} {target : Text} (h : Replaceable (fs target)) :
    unlinkTarget target fs = .ok (fs.set target none) := by
  obtain ⟨file, hfile⟩ := h
  cases file with
  | none => simp only [unlinkTarget, hfile, Option.map_none]
  | some file => simp only [unlinkTarget, hfile, Option.map_some]

theorem restoreTarget_eq {fs : Files} {target dataPath : Text} (h : Replaceable (fs target))
    (hne : dataPath ≠ target) {mode : Fin 4096} {stored : RegularFile}
    (hdata : fs dataPath = some (.regular stored)) :
    restoreTarget target dataPath mode fs =
      ((true, none), fs.set target (some (.regular ⟨mode, stored.content⟩))) := by
  have hmode : Fin.ofNat 4096 (mode : ℕ) = mode := Fin.ext (Nat.mod_eq_of_lt mode.isLt)
  obtain ⟨opened, hopened⟩ := openCreate_replaceable h mode
  rw [restoreTarget, hmode, hopened]
  simp only [Files.set_of_ne _ _ hne, hdata, copyBytes_eq, Files.set_set]

/-- The seq file is set back by one. -/
theorem writeSeq_eq {dir : Text} {fs : Files} {count : ℕ} (h : SeqHolds dir fs count)
    (seq : ℕ) : ∃ mode, writeSeq dir seq fs =
      fs.set (join dir seqName) (some (.regular ⟨mode, seqText seq⟩)) := by
  rcases h with ⟨hnone, -⟩ | ⟨mode, hsome⟩
  · exact ⟨privateMode, by simp only [writeSeq, openCreate, hnone]⟩
  · exact ⟨mode, by simp only [writeSeq, openCreate, hsome]⟩

theorem removeEntry_inside {dir : Text} {seq : ℕ} {fs : Files} {r : UndoRecord}
    (h : ∀ p, Inside (entryDir dir seq) p → fs p = entryFiles dir seq r p) :
    EntryAbsent dir (rashUndoRemoveEntry dir seq fs) seq := by
  intro p hp
  have hfs := h p hp
  simp only [entryFiles, Files.set] at hfs
  simp only [rashUndoRemoveEntry, Files.set]
  split_ifs at hfs ⊢ <;> first | rfl | exact hfs

theorem removeEntry_outside {dir p : Text} {seq : ℕ} (fs : Files)
    (hp : ¬ Inside (entryDir dir seq) p) : rashUndoRemoveEntry dir seq fs p = fs p := by
  have hfile : ∀ name, p ≠ entryFile dir seq name := by
    rintro name rfl
    exact hp (entryFile_inside dir seq name)
  have hdir : p ≠ entryDir dir seq := by
    rintro rfl
    exact hp (Or.inl rfl)
  rw [rashUndoRemoveEntry, Files.set_of_ne _ _ hdir, Files.set_of_ne _ _ (hfile _),
    Files.set_of_ne _ _ (hfile _), Files.set_of_ne _ _ (hfile _)]

theorem restoreEntry_eq {dir : Text} {seq : ℕ} {fs : Files} {r : UndoRecord}
    (hentry : EntryHolds dir fs seq r) (hout : ¬ Inside dir r.path)
    (htarget : Replaceable (fs r.path)) :
    restoreEntry dir seq (rashUndoReadMeta (metaText r.preimage)) r.path fs =
      ((true, none), fs.set r.path (r.preimage.map .regular)) := by
  have hdata := hentry _ (entryFile_inside dir seq dataName)
  rw [entryFiles_data] at hdata
  cases hpre : r.preimage with
  | none =>
      rw [restoreEntry, if_pos metaText_absent_read, unlinkTarget_eq htarget]
      rfl
  | some file =>
      have hne : entryFile dir seq dataName ≠ r.path := by
        intro heq
        exact hout (heq ▸ inside_of_entry (entryFile_inside dir seq dataName))
      rw [hpre, Option.map_some] at hdata
      have hexisted : ¬ (rashUndoReadMeta (metaText (some file))).existed = 0 := by
        rw [(metaText_read file).1]
        exact Nat.one_ne_zero
      rw [restoreEntry, if_neg hexisted, (metaText_read file).2,
        restoreTarget_eq htarget hne hdata]
      rfl

/-- An entry is put back as it was taken, removed and taken off the count. -/
theorem undoEntry_eq {dir : Text} {seq : ℕ} {fs : Files} {r : UndoRecord}
    (hentry : EntryHolds dir fs seq r) (hout : ¬ Inside dir r.path)
    (htarget : Replaceable (fs r.path)) (hseq : SeqHolds dir fs seq) :
    ∃ mode, undoEntry dir seq fs = ((true, none),
      (rashUndoRemoveEntry dir seq (fs.set r.path (r.preimage.map .regular))).set
        (join dir seqName) (some (.regular ⟨mode, seqText (seq - 1)⟩))) := by
  have hpath := hentry _ (entryFile_inside dir seq pathName)
  have hmeta := hentry _ (entryFile_inside dir seq metaName)
  rw [entryFiles_path] at hpath
  rw [entryFiles_meta] at hmeta
  have hseq' : SeqHolds dir (rashUndoRemoveEntry dir seq
      (fs.set r.path (r.preimage.map .regular))) seq := by
    have hsame : rashUndoRemoveEntry dir seq (fs.set r.path (r.preimage.map .regular))
        (join dir seqName) = fs (join dir seqName) := by
      rw [removeEntry_outside _ (seq_not_entry dir seq), Files.set_of_ne]
      rintro heq
      exact hout (heq ▸ inside_join dir seqName)
    rw [SeqHolds, hsame]
    exact hseq
  obtain ⟨mode, hwrite⟩ := writeSeq_eq hseq' (seq - 1)
  refine ⟨mode, ?_⟩
  simp only [undoEntry, hpath, hmeta, restoreEntry_eq hentry hout htarget, if_true, hwrite]

/-! ## Steps -/

theorem EntriesHold.congr {dir : Text} {fs fs' : Files} {stack : List UndoRecord}
    (h : EntriesHold dir fs stack)
    (hsame : ∀ seq ≤ stack.length, ∀ p, Inside (entryDir dir seq) p → fs' p = fs p) :
    EntriesHold dir fs' stack := by
  induction stack with
  | nil => trivial
  | cons r rest ih =>
      refine ⟨fun p hp => ?_, ih h.2 fun seq hseq => hsame seq (Nat.le_succ_of_le hseq)⟩
      rw [hsame _ (Nat.le_refl _) p hp]
      exact h.1 p hp

theorem SeqHolds.congr {dir : Text} {fs fs' : Files} {count : ℕ} (h : SeqHolds dir fs count)
    (hsame : fs' (join dir seqName) = fs (join dir seqName)) : SeqHolds dir fs' count := by
  rw [SeqHolds, hsame]
  exact h

/-- The store does not see what changes outside its directory. -/
theorem Refines.of_outside {dir : Text} {s s' : UndoState} {t t' : UndoStack}
    (h : Refines dir s t) (hstack : t'.stack = t.stack)
    (hactive : s'.applyWindowActive = t'.world.applyWindowActive)
    (hwindow : s'.applyWindowPaths = t'.world.applyWindowPaths)
    (hinside : ∀ p, Inside dir p → s'.files p = s.files p)
    (houtside : ∀ p, ¬ Inside dir p → s'.files p = t'.world.files p)
    (htargets : ∀ p, Replaceable (t.world.files p) → Replaceable (t'.world.files p)) :
    Refines dir s' t' := by
  refine ⟨hactive, hwindow, houtside, ?_, ?_, ?_, ?_, ?_, ?_⟩
  · rw [hinside dir (Or.inl rfl)]
    exact h.directory
  · rw [hstack]
    exact h.seq.congr (hinside _ (inside_join _ _))
  · rw [hstack]
    exact h.entries.congr fun seq _ p hp => hinside p (inside_of_entry hp)
  · intro seq hseq p hp
    rw [hinside p (inside_of_entry hp)]
    exact h.absent seq (hstack ▸ hseq) p hp
  · intro r hr
    obtain ⟨hout, htarget⟩ := h.targets r (hstack ▸ hr)
    exact ⟨hout, htargets _ htarget⟩
  · rw [hstack]
    exact h.bound

theorem ne_of_outside {dir p q : Text} (hp : Inside dir p) (hq : ¬ Inside dir q) : p ≠ q :=
  fun heq => hq (heq ▸ hp)

/-- The undo directory is made where it does not exist. -/
theorem Refines.ensured {dir : Text} {s : UndoState} {t : UndoStack} (h : Refines dir s t) :
    Refines dir { s with files := s.files.set dir (some .directory) } t := by
  have hentry : ∀ seq, ∀ p, Inside (entryDir dir seq) p →
      s.files.set dir (some .directory) p = s.files p := fun seq p hp =>
    Files.set_of_ne _ _ fun heq => dir_not_entry dir seq (heq ▸ hp)
  refine ⟨h.active, h.window, fun p hp => ?_, Or.inr (Files.set_self ..), ?_, ?_, ?_, h.targets,
    h.bound⟩
  · rw [← h.outside p hp]
    exact Files.set_of_ne _ _ (ne_of_outside (Or.inl rfl) hp).symm
  · exact h.seq.congr (Files.set_of_ne _ _ (join_ne_self dir seqName))
  · exact h.entries.congr fun seq _ => hentry seq
  · exact fun seq hseq p hp => (hentry seq p hp).trans (h.absent seq hseq p hp)

theorem applyWindowAdd_files (s : UndoState) (abspath : Text) :
    (s.applyWindowAdd abspath).files = s.files := by
  unfold UndoState.applyWindowAdd
  split <;> rfl

/-- The store after a snapshot: a new entry on top of the old ones. -/
theorem Refines.pushed {dir : Text} {s s' : UndoState} {t : UndoStack} {r : UndoRecord}
    (h : Refines dir s t)
    (hactive : s'.applyWindowActive = (t.push r).world.applyWindowActive)
    (hwindow : s'.applyWindowPaths = (t.push r).world.applyWindowPaths)
    (houtside : ∀ p, ¬ Inside dir p → s'.files p = s.files p)
    (hdir : s'.files dir = s.files dir)
    (hseq : SeqHolds dir s'.files (t.stack.length + 1))
    (hholds : EntryHolds dir s'.files (t.stack.length + 1) r)
    (hother : ∀ seq, seq ≠ t.stack.length + 1 → ∀ p, Inside (entryDir dir seq) p →
      s'.files p = s.files p)
    (htarget : ¬ Inside dir r.path ∧ Replaceable (t.world.files r.path))
    (hbound : t.stack.length + 1 ≤ ulongMax) : Refines dir s' (t.push r) := by
  have hworld : (t.push r).world.files = t.world.files := applyWindowAdd_files _ _
  refine ⟨hactive, hwindow, fun p hp => ?_, ?_, hseq, ⟨hholds, ?_⟩, fun seq hlt p hp => ?_, ?_,
    hbound⟩
  · rw [hworld, houtside p hp, h.outside p hp]
  · rw [hdir]
    exact h.directory
  · exact h.entries.congr fun seq hle => hother seq (by omega)
  · have hlt' : t.stack.length + 1 < seq := hlt
    rw [hother seq (by omega) p hp]
    exact h.absent seq (by omega) p hp
  · rw [hworld]
    intro r' hr'
    rcases List.mem_cons.mp hr' with rfl | hmem
    · exact htarget
    · exact h.targets r' hmem

/-- A snapshot is pushed, unless the counter is at its largest value. -/
theorem takeSnapshot_pushes {dir : Text} {s : UndoState} {t : UndoStack} (h : Refines dir s t)
    {abspath : Text} {preimage : Option RegularFile} (hout : ¬ Inside dir abspath)
    (hnode : t.world.files abspath = preimage.map .regular)
    (hnonzero : ¬ (t.stack.length + 1) % 2 ^ 64 = 0) :
    (takeSnapshot dir abspath preimage s).1 = (true, none) ∧
      Refines dir (takeSnapshot dir abspath preimage s).2 (t.push ⟨abspath, preimage⟩) := by
  obtain ⟨mode, hnext⟩ := rashUndoNextSeq_eq h.seq h.bound
  have hbound : t.stack.length + 1 ≤ ulongMax := by
    have hle := h.bound
    unfold ulongMax at hle ⊢
    omega
  have hfits : (t.stack.length + 1) % 2 ^ 64 = t.stack.length + 1 :=
    Nat.mod_eq_of_lt (Nat.lt_of_le_of_lt hbound (by decide))
  rw [hfits] at hnext hnonzero
  obtain ⟨fs, hfs⟩ : ∃ fs, fs = s.files.set (join dir seqName)
      (some (.regular ⟨mode, seqText (t.stack.length + 1)⟩)) := ⟨_, rfl⟩
  rw [← hfs] at hnext
  have hseqfile : ∀ p, p ≠ join dir seqName → fs p = s.files p := fun p hp => by
    rw [hfs, Files.set_of_ne _ _ hp]
  have hentry : ∀ seq, ∀ p, Inside (entryDir dir seq) p → fs p = s.files p := fun seq p hp =>
    hseqfile p fun heq => seq_not_entry dir seq (heq ▸ hp)
  have habsent : EntryAbsent dir fs (t.stack.length + 1) := fun p hp =>
    (hentry _ p hp).trans (h.absent _ (Nat.lt_succ_self _) p hp)
  obtain ⟨fs', hwrite, hholds, hrest⟩ := writeEntry_eq habsent abspath preimage
  have htaken : takeSnapshot dir abspath preimage s =
      ((true, none), { s with files := fs' }.applyWindowAdd abspath) := by
    simp only [takeSnapshot, hnext, hnonzero, hwrite, if_true, if_false]
  have hfiles := applyWindowAdd_files { s with files := fs' } abspath
  rw [htaken]
  refine ⟨rfl, h.pushed ?_ ?_ ?_ ?_ ?_ ?_ ?_ ⟨hout, preimage, hnode⟩ hbound⟩
  · simp only [UndoStack.push, UndoState.applyWindowAdd, h.active]
    split <;> rfl
  · simp only [UndoStack.push, UndoState.applyWindowAdd, h.active]
    split <;> simp only [h.window]
  · intro p hp
    rw [hfiles]
    exact (hrest p fun hp' => hp (inside_of_entry hp')).trans
      (hseqfile p (ne_of_outside (inside_join dir seqName) hp).symm)
  · rw [hfiles]
    exact (hrest dir (dir_not_entry dir _)).trans
      (hseqfile dir (join_ne_self dir seqName).symm)
  · refine Or.inr ⟨mode, ?_⟩
    rw [hfiles]
    exact (hrest _ (seq_not_entry dir _)).trans (hfs ▸ Files.set_self ..)
  · rw [hfiles]
    exact hholds
  · intro seq hne p hp
    rw [hfiles]
    exact (hrest p fun hp' => hne (entry_disjoint hp hp')).trans (hentry seq p hp)

theorem takeSnapshot_refines {dir : Text} {s : UndoState} {t : UndoStack} (h : Refines dir s t)
    {abspath : Text} {preimage : Option RegularFile} (hout : ¬ Inside dir abspath)
    (hnode : t.world.files abspath = preimage.map .regular)
    (hgood : (t.stack.length + 1) % 2 ^ 64 = 0 →
      (takeSnapshot dir abspath preimage s).1 ≠ seqWrapped) :
    (takeSnapshot dir abspath preimage s).1 = (true, none) ∧
      Refines dir (takeSnapshot dir abspath preimage s).2 (t.push ⟨abspath, preimage⟩) := by
  obtain ⟨mode, hnext⟩ := rashUndoNextSeq_eq h.seq h.bound
  refine takeSnapshot_pushes h hout hnode fun hzero => hgood hzero ?_
  simp only [takeSnapshot, hnext, hzero, if_true]

theorem applyWindowHas_eq {dir : Text} {s : UndoState} {t : UndoStack} (h : Refines dir s t)
    (abspath : Text) : s.applyWindowHas abspath = t.world.applyWindowHas abspath := by
  simp only [UndoState.applyWindowHas, h.active, h.window]

theorem snapshotFile_refines {dir : Text} {s : UndoState} {t : UndoStack} (h : Refines dir s t)
    (maxBytes cwd : Option Text) (path : Text)
    (hout : ¬ Inside dir (rashUndoAbspath cwd path))
    (hgood : (t.stack.length + 1) % 2 ^ 64 = 0 →
      (rashLuaSnapshotFile dir maxBytes cwd path s).1 ≠ seqWrapped) :
    (rashLuaSnapshotFile dir maxBytes cwd path s).1 = (t.snapshot true maxBytes cwd path).1 ∧
      Refines dir (rashLuaSnapshotFile dir maxBytes cwd path s).2
        (t.snapshot true maxBytes cwd path).2 := by
  have hensured := h.ensured
  unfold rashLuaSnapshotFile UndoStack.snapshot at *
  rw [rashUndoEnsureDir_eq h.directory] at hgood ⊢
  obtain ⟨s', hs'⟩ : ∃ s', s' = { s with files := s.files.set dir (some .directory) } := ⟨_, rfl⟩
  obtain ⟨abspath, habspath⟩ : ∃ abspath, abspath = rashUndoAbspath cwd path := ⟨_, rfl⟩
  have hnode : s.files.set dir (some .directory) abspath = t.world.files abspath := by
    have hnode' := hensured.outside abspath (habspath ▸ hout)
    exact hnode'
  simp only [← hs', ← habspath, hnode, Bool.true_and] at hgood ⊢
  rw [← hs'] at hensured
  rw [← habspath] at hout
  rw [applyWindowHas_eq hensured] at hgood ⊢
  by_cases hhas : t.world.applyWindowHas abspath = true
  · simp only [hhas, if_true]
    exact ⟨trivial, hensured⟩
  · simp only [hhas, Bool.false_eq_true, if_false] at hgood ⊢
    cases hfile : t.world.files abspath with
    | none =>
        simp only [hfile] at hgood
        exact takeSnapshot_refines hensured hout hfile hgood
    | some node =>
        cases node with
        | regular file =>
            simp only [hfile] at hgood
            by_cases hsize : rashUndoMaxBytes maxBytes < file.content.length
            · simp only [hsize, if_true]
              exact ⟨trivial, hensured⟩
            · simp only [hsize, if_false] at hgood ⊢
              exact takeSnapshot_refines hensured hout hfile hgood
        | directory => exact ⟨rfl, hensured⟩
        | other => exact ⟨rfl, hensured⟩

/-! ## The top of the stack -/

/-- The scan starts at the top entry and stays there. -/
theorem latestEntry_eq {dir : Text} {s : UndoState} {t : UndoStack} (h : Refines dir s t) :
    latestEntry dir s.files (rashUndoLatestSeq dir s.files) = t.stack.length := by
  rw [rashUndoLatestSeq_eq h.seq h.bound]
  have hentries := h.entries
  cases hstack : t.stack with
  | nil => rfl
  | cons r rest =>
      rw [hstack] at hentries
      have hmeta := hentries.1 _ (entryFile_inside dir _ metaName)
      rw [entryFiles_meta] at hmeta
      rw [List.length_cons, latestEntry, hmeta, Option.isSome_some, if_pos rfl]

theorem undoEntry_refines {dir : Text} {s : UndoState} {t : UndoStack} {r : UndoRecord}
    {rest : List UndoRecord} (h : Refines dir s t) (hstack : t.stack = r :: rest) :
    (undoEntry dir (rest.length + 1) s.files).1 = (true, none) ∧
      Refines dir { s with files := (undoEntry dir (rest.length + 1) s.files).2 }
        ⟨{ t.world with files := t.world.files.set r.path (r.preimage.map .regular) }, rest⟩ := by
  obtain ⟨hactive, hwindow, houtside, hdirectory, hseq, hentries, habsent, htargets, hbound⟩ := h
  rw [hstack] at hseq hentries habsent htargets hbound
  obtain ⟨hout, htarget⟩ := htargets r List.mem_cons_self
  rw [← houtside _ hout] at htarget
  obtain ⟨mode, hundone⟩ := undoEntry_eq hentries.1 hout htarget hseq
  obtain ⟨fs', hfs'⟩ : ∃ fs', fs' = (rashUndoRemoveEntry dir (rest.length + 1)
      (s.files.set r.path (r.preimage.map .regular))).set (join dir seqName)
        (some (.regular ⟨mode, seqText rest.length⟩)) := ⟨_, rfl⟩
  rw [Nat.add_sub_cancel, ← hfs'] at hundone
  rw [hundone]
  have hsame : ∀ p, Inside dir p → p ≠ join dir seqName →
      ¬ Inside (entryDir dir (rest.length + 1)) p → fs' p = s.files p := fun p hp hne hp' => by
    rw [hfs', Files.set_of_ne _ _ hne, removeEntry_outside _ hp',
      Files.set_of_ne _ _ (ne_of_outside hp hout)]
  have hother : ∀ seq, seq ≠ rest.length + 1 → ∀ p, Inside (entryDir dir seq) p →
      fs' p = s.files p := fun seq hne p hp =>
    hsame p (inside_of_entry hp) (fun heq => seq_not_entry dir seq (heq ▸ hp))
      fun hp' => hne (entry_disjoint hp hp')
  refine ⟨rfl, hactive, hwindow, fun p hp => ?_, ?_, Or.inr ⟨mode, ?_⟩, ?_, fun seq hlt p hp => ?_,
    fun r' hr' => ?_, Nat.le_of_succ_le hbound⟩
  · have hne : p ≠ join dir seqName := (ne_of_outside (inside_join dir seqName) hp).symm
    have hentry : ¬ Inside (entryDir dir (rest.length + 1)) p := fun hp' =>
      hp (inside_of_entry hp')
    show fs' p = t.world.files.set r.path (r.preimage.map .regular) p
    rw [hfs', Files.set_of_ne _ _ hne, removeEntry_outside _ hentry]
    by_cases hpath : p = r.path
    · rw [hpath, Files.set_self, Files.set_self]
    · rw [Files.set_of_ne _ _ hpath, Files.set_of_ne _ _ hpath, houtside p hp]
  · show fs' dir = none ∨ fs' dir = _
    rw [hsame dir (Or.inl rfl) (join_ne_self dir seqName).symm (dir_not_entry dir _)]
    exact hdirectory
  · show fs' (join dir seqName) = _
    rw [hfs', Files.set_self]
  · exact hentries.2.congr fun seq hle => hother seq (Nat.ne_of_lt (Nat.lt_succ_of_le hle))
  · show fs' p = none
    by_cases htop : seq = rest.length + 1
    · subst htop
      have hseqfile : p ≠ join dir seqName := fun heq => seq_not_entry dir _ (heq ▸ hp)
      rw [hfs', Files.set_of_ne _ _ hseqfile]
      refine removeEntry_inside (r := r) (fun q hq => ?_) p hp
      rw [Files.set_of_ne _ _ (ne_of_outside (inside_of_entry hq) hout)]
      exact hentries.1 q hq
    · have hlt' : rest.length < seq := hlt
      rw [hother seq htop p hp]
      exact habsent seq (by rw [List.length_cons]; omega) p hp
  · obtain ⟨hout', htarget'⟩ := htargets r' (List.mem_cons_of_mem r hr')
    refine ⟨hout', ?_⟩
    show Replaceable (t.world.files.set r.path _ r'.path)
    by_cases hpath : r'.path = r.path
    · rw [hpath, Files.set_self]
      exact ⟨r.preimage, rfl⟩
    · rw [Files.set_of_ne _ _ hpath]
      exact htarget'

theorem undoLast_refines {dir : Text} {s : UndoState} {t : UndoStack} (h : Refines dir s t) :
    (rashLuaUndoLast dir s).1 = t.undo.1 ∧ Refines dir (rashLuaUndoLast dir s).2 t.undo.2 := by
  have hensured := h.ensured
  have hlatest := latestEntry_eq hensured
  unfold rashLuaUndoLast UndoStack.undo
  rw [rashUndoEnsureDir_eq h.directory]
  dsimp only at hlatest ⊢
  rw [hlatest]
  cases hstack : t.stack with
  | nil => exact ⟨rfl, hensured⟩
  | cons r rest => exact undoEntry_refines hensured hstack

/-! ## Runs -/

theorem external_refines {dir : Text} {s : UndoState} {t : UndoStack} (h : Refines dir s t)
    {path : Text} (hout : ¬ Inside dir path) (file : Option RegularFile) :
    Refines dir { s with files := s.files.set path (file.map .regular) }
      { t with world := { t.world with
        files := t.world.files.set path (file.map .regular) } } := by
  refine h.of_outside rfl h.active h.window (fun p hp => ?_) (fun p hp => ?_) fun p hp => ?_
  · exact Files.set_of_ne _ _ (ne_of_outside hp hout)
  · by_cases hpath : p = path
    · simp only [hpath, Files.set_self]
    · simp only [Files.set_of_ne _ _ hpath, h.outside p hp]
  · by_cases hpath : p = path
    · simp only [hpath, Files.set_self]
      exact ⟨file, rfl⟩
    · simp only [Files.set_of_ne _ _ hpath]
      exact hp

/-- Every action keeps the store and the stack together and gives the same reply. -/
theorem undoStep_refines {dir : Text} {s : UndoState} {t : UndoStack} {a : UndoAction}
    (ha : a.Outside dir) (h : Refines dir s t) (hgood : (undoStep dir s a).1 ≠ some seqWrapped) :
    (undoStep dir s a).1 = (t.step true a).1 ∧
      Refines dir (undoStep dir s a).2 (t.step true a).2 := by
  cases a with
  | snapshotFile maxBytes cwd path =>
      have hstep := snapshotFile_refines h maxBytes cwd path ha fun _ heq =>
        hgood (congrArg some heq)
      exact ⟨congrArg some hstep.1, hstep.2⟩
  | undoLast =>
      have hstep := undoLast_refines h
      exact ⟨congrArg some hstep.1, hstep.2⟩
  | applyBegin => exact ⟨rfl, h.of_outside rfl rfl rfl (fun _ _ => rfl) h.outside fun _ hp => hp⟩
  | applyEnd => exact ⟨rfl, h.of_outside rfl rfl rfl (fun _ _ => rfl) h.outside fun _ hp => hp⟩
  | external path file => exact ⟨rfl, external_refines h ha file⟩

theorem FreshStore.refines {dir : Text} {fs : Files} (h : FreshStore dir fs) :
    Refines dir (.start fs) (.start fs) := by
  refine ⟨rfl, rfl, fun _ _ => rfl, h.directory, Or.inl ⟨h.empty seqName, rfl⟩, trivial,
    fun seq _ p hp => ?_, fun r hr => absurd hr List.not_mem_nil, Nat.zero_le _⟩
  rcases hp with rfl | ⟨name, rfl⟩
  · exact h.empty (padded 6 seq)
  · have hname : join (entryDir dir seq) name = join dir (padded 6 seq ++ '/' :: name) := by
      simp [entryDir, join]
    rw [hname]
    exact h.empty _

/-- Every run on an undo directory that is fresh, or that holds a stack already, replies as
the stack does and leaves the store holding the stack. -/
theorem undoStore_refines_stack (dir : Text) :
    (∀ fs, FreshStore dir fs → Refines dir (.start fs) (.start fs)) ∧
      ∀ s t actions, Refines dir s t → (∀ a ∈ actions, UndoAction.Outside dir a) →
        (∀ reply ∈ (outputs (undoStep dir) s actions).1, reply ≠ some seqWrapped) →
          (outputs (undoStep dir) s actions).1 = (outputs (UndoStack.step true) t actions).1 ∧
            Refines dir (outputs (undoStep dir) s actions).2
              (outputs (UndoStack.step true) t actions).2 :=
  ⟨fun _ h => h.refines, fun _ _ _ h hactions hgood =>
    outputs_refines (fun _ _ _ => undoStep_refines) hactions h hgood⟩

def undoRoot : Text := ['/', 'u']

def editedPath : Text := ['/', 'f']

def edited (c : Char) : Option RegularFile := some ⟨0o644, [c]⟩

theorem freshStore_none : FreshStore undoRoot fun _ => none := ⟨Or.inl rfl, fun _ => rfl⟩

/-- Two snapshots of a file that is created, edited and removed, then three undos. -/
theorem undoStore_refines_stack_created :
    (outputs (undoStep undoRoot) (.start fun _ => none)
      [.snapshotFile none none editedPath, .external editedPath (edited 'a'),
        .snapshotFile none none editedPath, .external editedPath none,
        .undoLast, .undoLast, .undoLast]).1 =
      [some (true, none), none, some (true, none), none, some (true, none), some (true, none),
        some stackEmpty] := by
  refine ((undoStore_refines_stack undoRoot).2 _ (.start fun _ => none) _
    ((undoStore_refines_stack undoRoot).1 _ freshStore_none) ?_ ?_).1.trans ?_
  · decide
  · decide
  · decide

/-- In a window the second snapshot of a path is not pushed, and the file put back is the
older one; the seq file, once snapshotted, is written again by the undo that removes it. -/
theorem undoStore_not_stack :
    ((outputs (undoStep undoRoot) (.start (Files.set (fun _ => none) editedPath
        ((edited 'a').map .regular)))
      [.applyBegin, .snapshotFile none none editedPath, .external editedPath (edited 'b'),
        .snapshotFile none none editedPath, .external editedPath (edited 'c'),
        .undoLast]).2.files editedPath = (edited 'a').map .regular ∧
    (outputs (UndoStack.step false) (.start (Files.set (fun _ => none) editedPath
        ((edited 'a').map .regular)))
      [.applyBegin, .snapshotFile none none editedPath, .external editedPath (edited 'b'),
        .snapshotFile none none editedPath, .external editedPath (edited 'c'),
        .undoLast]).2.world.files editedPath = (edited 'b').map .regular) ∧
    (outputs (undoStep undoRoot) (.start fun _ => none)
      [.snapshotFile none none (join undoRoot seqName), .undoLast]).2.files
        (join undoRoot seqName) = some (.regular ⟨privateMode, seqText 0⟩) ∧
    (outputs (UndoStack.step false) (.start fun _ => none)
      [.snapshotFile none none (join undoRoot seqName), .undoLast]).2.world.files
        (join undoRoot seqName) = none := by
  decide

end Rash
