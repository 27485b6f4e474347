import Mathlib.Data.Nat.Count
import Rash.Lib.Machine
import Rash.Undo.FailedSnapshot

/-!
# When a failed snapshot leaves the stack as it was

Later undos see an entry by its `meta` file and by the number in the seq file.  They go on
as if a failed snapshot had not been made unless its preimage was being copied, or the number
it leaves lets them see other entries.
-/

namespace Rash

open Decimal FlatFiles Machine

/-- An undo can come to the entry. -/
def Visible (dir : Text) (fs : Files) (seq : ℕ) : Prop :=
  0 < seq ∧ seq ≤ rashUndoLatestSeq dir fs ∧ (fs (entryFile dir seq metaName)).isSome

/-- No entry that an undo can come to names a path in the undo directory. -/
def TargetsOutside (dir : Text) (fs : Files) : Prop :=
  ∀ seq file, Visible dir fs seq → fs (entryFile dir seq pathName) = some (.regular file) →
    ¬ Inside dir file.content

/-- Undos see the same in both stores. -/
structure Alike (dir : Text) (fs fs' : Files) : Prop where
  outside : ∀ p, ¬ Inside dir p → fs' p = fs p
  directory : fs' dir = fs dir ∨ fs dir = none ∧ fs' dir = some .directory
  visible : ∀ seq, Visible dir fs' seq ↔ Visible dir fs seq
  entries : ∀ seq, Visible dir fs seq → ∀ p, Inside (entryDir dir seq) p → fs' p = fs p
  targets : TargetsOutside dir fs

/-! ## The entry that an undo comes to -/

theorem latestEntry_cases (dir : Text) (fs : Files) (count : ℕ) :
    (latestEntry dir fs count = 0 ∧
        ∀ seq, 0 < seq → seq ≤ count → fs (entryFile dir seq metaName) = none) ∨
      (0 < latestEntry dir fs count ∧ latestEntry dir fs count ≤ count ∧
        (fs (entryFile dir (latestEntry dir fs count) metaName)).isSome ∧
          ∀ seq, latestEntry dir fs count < seq → seq ≤ count →
            fs (entryFile dir seq metaName) = none) := by
  induction count with
  | zero => exact Or.inl ⟨rfl, fun seq hpos hle => by omega⟩
  | succ count ih =>
      rw [latestEntry]
      by_cases hmeta : (fs (entryFile dir (count + 1) metaName)).isSome
      · rw [if_pos hmeta]
        exact Or.inr ⟨Nat.succ_pos _, le_rfl, hmeta, fun seq hlt hle => by omega⟩
      · rw [if_neg hmeta]
        have hnone : fs (entryFile dir (count + 1) metaName) = none :=
          Option.not_isSome_iff_eq_none.mp hmeta
        have hextend : ∀ {first}, (∀ seq, first < seq → seq ≤ count →
            fs (entryFile dir seq metaName) = none) → ∀ seq, first < seq → seq ≤ count + 1 →
              fs (entryFile dir seq metaName) = none := fun h seq hlt hle => by
          rcases Nat.lt_or_ge seq (count + 1) with hlt' | hge
          · exact h seq hlt (Nat.le_of_lt_succ hlt')
          · rw [Nat.le_antisymm hle hge, hnone]
        rcases ih with ⟨hzero, hall⟩ | ⟨hpos, hle, hsome, hall⟩
        · exact Or.inl ⟨hzero, hextend hall⟩
        · exact Or.inr ⟨hpos, Nat.le_succ_of_le hle, hsome, hextend hall⟩

/-- The scan of `rash_lua_undo_last`. -/
def topEntry (dir : Text) (fs : Files) : ℕ := latestEntry dir fs (rashUndoLatestSeq dir fs)

theorem topEntry_cases (dir : Text) (fs : Files) :
    (topEntry dir fs = 0 ∧ ∀ seq, ¬ Visible dir fs seq) ∨
      (Visible dir fs (topEntry dir fs) ∧
        ∀ seq, Visible dir fs seq → seq ≤ topEntry dir fs) := by
  rcases latestEntry_cases dir fs (rashUndoLatestSeq dir fs) with
    ⟨hzero, hall⟩ | ⟨hpos, hle, hsome, hall⟩
  · refine Or.inl ⟨hzero, fun seq ⟨hpos, hle, hmeta⟩ => ?_⟩
    rw [hall seq hpos hle] at hmeta
    cases hmeta
  · refine Or.inr ⟨⟨hpos, hle, hsome⟩, fun seq ⟨_, hle', hmeta⟩ => ?_⟩
    by_contra hlt
    rw [hall seq (Nat.lt_of_not_le hlt) hle'] at hmeta
    cases hmeta

theorem Alike.topEntry {dir : Text} {fs fs' : Files} (h : Alike dir fs fs') :
    topEntry dir fs' = topEntry dir fs := by
  rcases topEntry_cases dir fs with ⟨hzero, hall⟩ | ⟨htop, hmax⟩
  · rcases topEntry_cases dir fs' with ⟨hzero', -⟩ | ⟨htop', -⟩
    · rw [hzero, hzero']
    · exact absurd ((h.visible _).mp htop') (hall _)
  · rcases topEntry_cases dir fs' with ⟨-, hall'⟩ | ⟨htop', hmax'⟩
    · exact absurd ((h.visible _).mpr htop) (hall' _)
    · exact Nat.le_antisymm (hmax _ ((h.visible _).mp htop')) (hmax' _ ((h.visible _).mpr htop))

theorem Visible.seqFile {dir : Text} {fs : Files} {seq : ℕ} (h : Visible dir fs seq) :
    ∃ file, fs (join dir seqName) = some (.regular file) := by
  have hpos : 0 < rashUndoLatestSeq dir fs := Nat.lt_of_lt_of_le h.1 h.2.1
  unfold rashUndoLatestSeq at hpos
  split at hpos
  · rename_i file hfile
    exact ⟨file, hfile⟩
  · cases hpos

theorem rashUndoLatestSeq_le (dir : Text) (fs : Files) : rashUndoLatestSeq dir fs ≤ ulongMax := by
  unfold rashUndoLatestSeq
  split
  · split
    · exact Nat.zero_le _
    · apply strtoul_le
  · exact Nat.zero_le _

/-! ## What an undo does -/

/-- The entry is removed and the seq file set back. -/
def popEntry (dir : Text) (seq : ℕ) (mode : Fin 4096) (fs : Files) : Files :=
  (rashUndoRemoveEntry dir seq fs).set (join dir seqName)
    (some (.regular ⟨mode, seqText (seq - 1)⟩))

theorem popEntry_other (dir : Text) {seq : ℕ} (mode : Fin 4096) (fs : Files) {p : Text}
    (hseq : p ≠ join dir seqName) (hentry : ¬ Inside (entryDir dir seq) p) :
    popEntry dir seq mode fs p = fs p := by
  rw [popEntry, Files.set_of_ne _ _ hseq, removeEntry_outside fs hentry]

theorem popEntry_otherEntry (dir : Text) {seq seq' : ℕ} (mode : Fin 4096) (fs : Files) {p : Text}
    (hne : seq' ≠ seq) (hp : Inside (entryDir dir seq') p) :
    popEntry dir seq mode fs p = fs p :=
  popEntry_other dir mode fs (fun heq => seq_not_entry dir seq' (heq ▸ hp))
    fun hp' => hne (entry_disjoint hp hp')

theorem popEntry_file (dir : Text) (seq : ℕ) (mode : Fin 4096) (fs : Files) {name : Text}
    (h : name = pathName ∨ name = metaName) :
    popEntry dir seq mode fs (entryFile dir seq name) = none := by
  have hseq : entryFile dir seq name ≠ join dir seqName := fun heq =>
    seq_not_entry dir seq (heq ▸ entryFile_inside dir seq name)
  have hpm : entryFile dir seq metaName ≠ entryFile dir seq pathName := entryFile_ne (by decide)
  rw [popEntry, Files.set_of_ne _ _ hseq, rashUndoRemoveEntry,
    Files.set_of_ne _ _ (entryFile_ne_dir dir seq name)]
  rcases h with rfl | rfl
  · rw [Files.set_self]
  · rw [Files.set_of_ne _ _ hpm, Files.set_self]

theorem popEntry_latest (dir : Text) {seq : ℕ} (h : seq ≤ ulongMax) (mode : Fin 4096)
    (fs : Files) : rashUndoLatestSeq dir (popEntry dir seq mode fs) = seq - 1 := by
  have hle : seq - 1 ≤ ulongMax := (Nat.sub_le seq 1).trans h
  rw [popEntry, rashUndoLatestSeq_set (seqText_length hle), strtoul_seqText hle]

/-- The restore changes the target alone, by what it finds there and in the entry. -/
theorem restoreEntry_target {dir target : Text} {seq : ℕ} (m : UndoMeta) {fs fs' : Files}
    (htarget : fs' target = fs target)
    (hdata : fs' (entryFile dir seq dataName) = fs (entryFile dir seq dataName))
    (hne : entryFile dir seq dataName ≠ target) :
    ∃ node reply, restoreEntry dir seq m target fs = (reply, fs.set target node) ∧
      restoreEntry dir seq m target fs' = (reply, fs'.set target node) := by
  have hkeep : ∀ {reply : Reply}, restoreEntry dir seq m target fs = (reply, fs) →
      restoreEntry dir seq m target fs' = (reply, fs') →
        ∃ node reply, restoreEntry dir seq m target fs = (reply, fs.set target node) ∧
          restoreEntry dir seq m target fs' = (reply, fs'.set target node) :=
    fun {reply} h h' => by
      refine ⟨fs target, reply, ?_, ?_⟩
      · rw [h, Files.set_same rfl]
      · rw [h', Files.set_same htarget]
  by_cases hexisted : m.existed = 0
  · by_cases hdir : fs target = some .directory
    · refine @hkeep (false, some "cannot unlink: Is a directory") ?_ ?_
      · simp only [restoreEntry, hexisted, if_true, unlinkTarget, hdir]
      · simp only [restoreEntry, hexisted, if_true, unlinkTarget, htarget, hdir]
    · refine ⟨none, (true, none), ?_, ?_⟩
      · simp only [restoreEntry, hexisted, if_true, unlinkTarget]
      · simp only [restoreEntry, hexisted, if_true, unlinkTarget, htarget]
  · have hopen : openCreate fs' target (Fin.ofNat 4096 m.mode) =
        openCreate fs target (Fin.ofNat 4096 m.mode) := by
      simp only [openCreate, htarget]
    cases hopened : openCreate fs target (Fin.ofNat 4096 m.mode) with
    | none =>
        rw [hopened] at hopen
        refine @hkeep (false, some "cannot restore: Is a directory") ?_ ?_
        · simp only [restoreEntry, hexisted, if_false, restoreTarget, hopened]
        · simp only [restoreEntry, hexisted, if_false, restoreTarget, hopen]
    | some opened =>
        rw [hopened] at hopen
        simp only [restoreEntry, hexisted, if_false, restoreTarget, hopened, hopen,
          Files.set_of_ne _ _ hne, hdata, Files.set_set]
        cases hnode : fs (entryFile dir seq dataName) with
        | none => exact ⟨_, _, rfl, rfl⟩
        | some node =>
            cases node with
            | regular file => exact ⟨_, _, rfl, rfl⟩
            | directory => exact ⟨_, _, rfl, rfl⟩
            | other => exact ⟨_, _, rfl, rfl⟩

/-- An undo that comes to entry `seq` fails as it finds it, after it has changed at most the
target, or puts the target back and pops the entry. -/
inductive UndoEffect (dir : Text) (seq : ℕ) (fs fs' : Files) : Reply × Files → Reply × Files → Prop
  | corrupt (reply : Reply) : UndoEffect dir seq fs fs' (reply, fs) (reply, fs')
  | failed {target : Text} (node : Option Node) (reply : Reply) (hout : ¬ Inside dir target) :
      UndoEffect dir seq fs fs' (reply, fs.set target node) (reply, fs'.set target node)
  | popped {target : Text} (node : Option Node) (mode mode' : Fin 4096)
      (hout : ¬ Inside dir target) :
      UndoEffect dir seq fs fs' ((true, none), popEntry dir seq mode (fs.set target node))
        ((true, none), popEntry dir seq mode' (fs'.set target node))

theorem writeSeq_of_regular {dir : Text} {fs : Files} {file : RegularFile}
    (h : fs (join dir seqName) = some (.regular file)) (seq : ℕ) :
    writeSeq dir seq fs =
      fs.set (join dir seqName) (some (.regular ⟨file.mode, seqText seq⟩)) := by
  simp only [writeSeq, openCreate, h]

theorem undoEntry_effect {dir : Text} {seq : ℕ} {fs fs' : Files} (h : Alike dir fs fs')
    (hvisible : Visible dir fs seq) :
    UndoEffect dir seq fs fs' (undoEntry dir seq fs) (undoEntry dir seq fs') := by
  have hentry := h.entries seq hvisible
  have hsame : ∀ name, fs' (entryFile dir seq name) = fs (entryFile dir seq name) := fun name =>
    hentry _ (entryFile_inside dir seq name)
  obtain ⟨seqFile, hseqFile⟩ := hvisible.seqFile
  obtain ⟨seqFile', hseqFile'⟩ := ((h.visible seq).mpr hvisible).seqFile
  unfold undoEntry
  rw [hsame, hsame]
  split
  · rename_i pathFile metaFile hpath hmeta
    have hout := h.targets seq pathFile hvisible hpath
    obtain ⟨node, reply, hrestore, hrestore'⟩ :=
      restoreEntry_target (rashUndoReadMeta metaFile.content) (h.outside _ hout) (hsame dataName)
        (ne_of_outside (inside_of_entry (entryFile_inside dir seq dataName)) hout)
    simp only [hrestore, hrestore']
    have hkept : ∀ {fs : Files} {file : RegularFile},
        fs (join dir seqName) = some (.regular file) → rashUndoRemoveEntry dir seq
          (fs.set pathFile.content node) (join dir seqName) = some (.regular file) :=
      fun hfile => by
        rw [removeEntry_outside _ (seq_not_entry dir seq),
          Files.set_of_ne _ _ (ne_of_outside (inside_join dir seqName) hout), hfile]
    by_cases hok : reply.1 = true
    · simp only [hok, if_true, writeSeq_of_regular (hkept hseqFile),
        writeSeq_of_regular (hkept hseqFile')]
      exact .popped node seqFile.mode seqFile'.mode hout
    · simp only [hok, Bool.false_eq_true, if_false]
      exact .failed node reply hout
  · exact .corrupt _

/-! ## Alike stores stay alike -/

theorem Alike.set_outside {dir target : Text} {fs fs' : Files} (h : Alike dir fs fs')
    (hout : ¬ Inside dir target) (node : Option Node) :
    Alike dir (fs.set target node) (fs'.set target node) := by
  have hinside : ∀ {fs : Files} p, Inside dir p → fs.set target node p = fs p := fun p hp =>
    Files.set_of_ne _ _ (ne_of_outside hp hout)
  have hvisible : ∀ {fs : Files} seq, Visible dir (fs.set target node) seq ↔ Visible dir fs seq :=
    fun seq => by
      rw [Visible, Visible, rashUndoLatestSeq_congr (hinside _ (inside_join dir seqName)),
        hinside _ (inside_of_entry (entryFile_inside dir seq metaName))]
  refine ⟨fun p hp => ?_, ?_, fun seq => ?_, fun seq hseq p hp => ?_,
    fun seq file hseq hfile => ?_⟩
  · by_cases hp' : p = target
    · rw [hp', Files.set_self, Files.set_self]
    · rw [Files.set_of_ne _ _ hp', Files.set_of_ne _ _ hp', h.outside p hp]
  · rw [hinside dir (Or.inl rfl), hinside dir (Or.inl rfl)]
    exact h.directory
  · rw [hvisible, hvisible, h.visible]
  · rw [hinside p (inside_of_entry hp), hinside p (inside_of_entry hp)]
    exact h.entries seq ((hvisible seq).mp hseq) p hp
  · rw [hinside _ (inside_of_entry (entryFile_inside dir seq pathName))] at hfile
    exact h.targets seq file ((hvisible seq).mp hseq) hfile

theorem visible_pop {dir : Text} {seq : ℕ} {fs : Files} (hvisible : Visible dir fs seq)
    (mode : Fin 4096) (seq' : ℕ) :
    Visible dir (popEntry dir seq mode fs) seq' ↔ Visible dir fs seq' ∧ seq' < seq := by
  have hbound : seq ≤ ulongMax := hvisible.2.1.trans (rashUndoLatestSeq_le dir fs)
  rw [Visible, Visible, popEntry_latest dir hbound]
  by_cases hne : seq' = seq
  · rw [hne, popEntry_file dir seq mode fs (Or.inr rfl)]
    simp
  · rw [popEntry_otherEntry dir mode fs hne (entryFile_inside dir seq' metaName)]
    have hlatest := hvisible.2.1
    have hpos := hvisible.1
    constructor
    · rintro ⟨hpos', hle, hmeta⟩
      exact ⟨⟨hpos', by omega, hmeta⟩, by omega⟩
    · rintro ⟨⟨hpos', hle, hmeta⟩, hlt⟩
      exact ⟨hpos', by omega, hmeta⟩

theorem Alike.pop {dir : Text} {seq : ℕ} {fs fs' : Files} (h : Alike dir fs fs')
    (hvisible : Visible dir fs seq) (mode mode' : Fin 4096) :
    Alike dir (popEntry dir seq mode fs) (popEntry dir seq mode' fs') := by
  have hout : ∀ {fs : Files} {mode : Fin 4096} p, ¬ Inside dir p →
      popEntry dir seq mode fs p = fs p := fun p hp =>
    popEntry_other dir _ _ (ne_of_outside (inside_join dir seqName) hp).symm fun hp' =>
      hp (inside_of_entry hp')
  have hdir : ∀ {fs : Files} {mode : Fin 4096}, popEntry dir seq mode fs dir = fs dir :=
    popEntry_other dir _ _ (join_ne_self dir seqName).symm (dir_not_entry dir seq)
  have hvisible' := (h.visible seq).mpr hvisible
  refine ⟨fun p hp => ?_, ?_, fun seq' => ?_, fun seq' hseq' p hp => ?_,
    fun seq' file hseq' hfile => ?_⟩
  · rw [hout p hp, hout p hp, h.outside p hp]
  · rw [hdir, hdir]
    exact h.directory
  · rw [visible_pop hvisible, visible_pop hvisible', h.visible]
  · obtain ⟨hseen, hlt⟩ := (visible_pop hvisible mode seq').mp hseq'
    have hne : seq' ≠ seq := Nat.ne_of_lt hlt
    rw [popEntry_otherEntry dir _ _ hne hp, popEntry_otherEntry dir _ _ hne hp,
      h.entries seq' hseen p hp]
  · obtain ⟨hseen, hlt⟩ := (visible_pop hvisible mode seq').mp hseq'
    rw [popEntry_otherEntry dir _ _ (Nat.ne_of_lt hlt) (entryFile_inside dir seq' pathName)]
      at hfile
    exact h.targets seq' file hseen hfile

theorem Alike.ensured {dir : Text} {fs fs' : Files} (h : Alike dir fs fs') :
    Alike dir (fs.set dir (some .directory)) (fs'.set dir (some .directory)) := by
  have hne : ∀ {fs : Files} p, p ≠ dir → fs.set dir (some .directory) p = fs p := fun p hp =>
    Files.set_of_ne _ _ hp
  have hentry : ∀ {fs : Files} seq p, Inside (entryDir dir seq) p →
      fs.set dir (some .directory) p = fs p := fun seq p hp =>
    hne p fun heq => dir_not_entry dir seq (heq ▸ hp)
  have hvisible : ∀ {fs : Files} seq,
      Visible dir (fs.set dir (some .directory)) seq ↔ Visible dir fs seq := fun seq => by
    rw [Visible, Visible, rashUndoLatestSeq_congr (hne _ (join_ne_self dir seqName)),
      hentry seq _ (entryFile_inside dir seq metaName)]
  refine ⟨fun p hp => ?_, Or.inl ?_, fun seq => ?_, fun seq hseq p hp => ?_,
    fun seq file hseq hfile => ?_⟩
  · have hp' : p ≠ dir := fun heq => hp (Or.inl heq)
    rw [hne p hp', hne p hp', h.outside p hp]
  · rw [Files.set_self, Files.set_self]
  · rw [hvisible, hvisible, h.visible]
  · rw [hentry seq p hp, hentry seq p hp]
    exact h.entries seq ((hvisible seq).mp hseq) p hp
  · rw [hentry seq _ (entryFile_inside dir seq pathName)] at hfile
    exact h.targets seq file ((hvisible seq).mp hseq) hfile

theorem UndoEffect.alike {dir : Text} {seq : ℕ} {fs fs' : Files} {r r' : Reply × Files}
    (heffect : UndoEffect dir seq fs fs' r r') (h : Alike dir fs fs')
    (hvisible : Visible dir fs seq) : r'.1 = r.1 ∧ Alike dir r.2 r'.2 := by
  cases heffect with
  | corrupt reply => exact ⟨rfl, h⟩
  | failed node reply hout => exact ⟨rfl, h.set_outside hout node⟩
  | popped node mode mode' hout =>
      refine ⟨rfl, (h.set_outside hout node).pop ?_ mode mode'⟩
      rwa [Visible, rashUndoLatestSeq_congr
          (Files.set_of_ne _ _ (ne_of_outside (inside_join dir seqName) hout)),
        Files.set_of_ne _ _
          (ne_of_outside (inside_of_entry (entryFile_inside dir seq metaName)) hout)]

theorem rashLuaUndoLast_ensured {dir : Text} {s : UndoState}
    (h : s.files dir = none ∨ s.files dir = some .directory) :
    rashLuaUndoLast dir s =
      let fs := s.files.set dir (some .directory)
      if topEntry dir fs = 0 then (stackEmpty, { s with files := fs })
      else ((undoEntry dir (topEntry dir fs) fs).1,
        { s with files := (undoEntry dir (topEntry dir fs) fs).2 }) := by
  unfold rashLuaUndoLast topEntry
  rw [rashUndoEnsureDir_eq h]
  dsimp only
  split
  · rename_i hzero
    rw [if_pos hzero]
  · rename_i seq hseq
    rw [hseq, if_neg (Nat.succ_ne_zero seq)]

/-- Same window, and undos see the same. -/
structure AlikeState (dir : Text) (s s' : UndoState) : Prop where
  active : s'.applyWindowActive = s.applyWindowActive
  window : s'.applyWindowPaths = s.applyWindowPaths
  files : Alike dir s.files s'.files

theorem undoLast_alike {dir : Text} {s s' : UndoState} (h : AlikeState dir s s') :
    (rashLuaUndoLast dir s').1 = (rashLuaUndoLast dir s).1 ∧
      AlikeState dir (rashLuaUndoLast dir s).2 (rashLuaUndoLast dir s').2 := by
  by_cases hdir : s.files dir = none ∨ s.files dir = some .directory
  · have hdir' : s'.files dir = none ∨ s'.files dir = some .directory := by
      rcases h.files.directory with hsame | ⟨-, hnew⟩
      · rwa [hsame]
      · exact Or.inr hnew
    have hfiles := h.files.ensured
    rw [rashLuaUndoLast_ensured hdir, rashLuaUndoLast_ensured hdir']
    dsimp only
    rw [hfiles.topEntry]
    by_cases hzero : topEntry dir (s.files.set dir (some .directory)) = 0
    · rw [if_pos hzero, if_pos hzero]
      exact ⟨rfl, h.active, h.window, hfiles⟩
    · rw [if_neg hzero, if_neg hzero]
      have hvisible := (topEntry_cases dir (s.files.set dir (some .directory))).elim
        (fun hnone => absurd hnone.1 hzero) And.left
      obtain ⟨hreply, halike⟩ := (undoEntry_effect hfiles hvisible).alike hfiles hvisible
      exact ⟨hreply, h.active, h.window, halike⟩
  · obtain ⟨node, hnode, hnotDir⟩ : ∃ node, s.files dir = some node ∧ node ≠ .directory := by
      cases hnode : s.files dir with
      | none => exact absurd (Or.inl hnode) hdir
      | some node => exact ⟨node, rfl, fun heq => hdir (Or.inr (heq ▸ hnode))⟩
    have hnode' : s'.files dir = some node := by
      rcases h.files.directory with hsame | ⟨hnone, -⟩
      · rw [hsame, hnode]
      · exact absurd (Or.inl hnone) hdir
    have hrefused : ∀ {s : UndoState}, s.files dir = some node →
        rashLuaUndoLast dir s = ((false, some "RASH_UNDO_DIR is not a directory"), s) :=
      fun hs => by
        cases node with
        | regular file => simp only [rashLuaUndoLast, rashUndoEnsureDir, hs]
        | directory => exact absurd rfl hnotDir
        | other => simp only [rashLuaUndoLast, rashUndoEnsureDir, hs]
    rw [hrefused hnode, hrefused hnode']
    exact ⟨rfl, h⟩

/-! ## Later runs -/

/-- Something other than a snapshot, outside the undo directory. -/
def UndoAction.Later (dir : Text) : UndoAction → Prop
  | .snapshotFile _ _ _ => False
  | .external path _ => ¬ Inside dir path
  | .undoLast | .applyBegin | .applyEnd => True

theorem undoStep_alike {dir : Text} {s s' : UndoState} {a : UndoAction} (ha : a.Later dir)
    (h : AlikeState dir s s') :
    (undoStep dir s a).1 = (undoStep dir s' a).1 ∧
      AlikeState dir (undoStep dir s a).2 (undoStep dir s' a).2 := by
  cases a with
  | snapshotFile maxBytes cwd path => cases ha
  | undoLast =>
      obtain ⟨hreply, hafter⟩ := undoLast_alike h
      exact ⟨congrArg some hreply.symm, hafter⟩
  | applyBegin => exact ⟨rfl, rfl, rfl, h.files⟩
  | applyEnd => exact ⟨rfl, rfl, rfl, h.files⟩
  | external path file => exact ⟨rfl, h.active, h.window, h.files.set_outside ha _⟩

theorem later_alike {dir : Text} {s s' : UndoState} (h : AlikeState dir s s')
    {later : List UndoAction} (hlater : ∀ a ∈ later, UndoAction.Later dir a) :
    (outputs (undoStep dir) s later).1 = (outputs (undoStep dir) s' later).1 ∧
      AlikeState dir (outputs (undoStep dir) s later).2 (outputs (undoStep dir) s' later).2 :=
  @outputs_refines _ _ _ _ (undoStep dir) (undoStep dir) (AlikeState dir) (UndoAction.Later dir)
    (fun _ => True) (fun _ _ _ ha hst _ => undoStep_alike ha hst) _ hlater _ _ h fun _ _ => trivial

/-! ## Room for later snapshots -/

/-- A number up to the largest is free, and the seq file can be written. -/
structure Room (dir : Text) (fs : Files) (free : ℕ) : Prop where
  directory : fs dir = none ∨ fs dir = some .directory
  seqFile : Replaceable (fs (join dir seqName))
  pos : 0 < free
  bound : free ≤ ulongMax
  absent : EntryAbsent dir fs free

theorem Room.of_same {dir : Text} {fs fs' : Files} {free : ℕ} (h : Room dir fs free)
    (hdir : fs' dir = fs dir) (hseq : Replaceable (fs' (join dir seqName)))
    (hentry : ∀ p, Inside (entryDir dir free) p → fs' p = fs p) : Room dir fs' free :=
  ⟨hdir ▸ h.directory, hseq, h.pos, h.bound, fun p hp => (hentry p hp).trans (h.absent p hp)⟩

theorem Room.set_outside {dir target : Text} {fs : Files} {free : ℕ} (h : Room dir fs free)
    (hout : ¬ Inside dir target) (node : Option Node) : Room dir (fs.set target node) free := by
  have hinside : ∀ p, Inside dir p → fs.set target node p = fs p := fun p hp =>
    Files.set_of_ne _ _ (ne_of_outside hp hout)
  refine h.of_same (hinside dir (Or.inl rfl)) ?_ fun p hp => hinside p (inside_of_entry hp)
  rw [hinside _ (inside_join dir seqName)]
  exact h.seqFile

theorem Room.ensured {dir : Text} {fs : Files} {free : ℕ} (h : Room dir fs free) :
    Room dir (fs.set dir (some .directory)) free := by
  refine ⟨Or.inr (Files.set_self ..), ?_, h.pos, h.bound, fun p hp => ?_⟩
  · rw [Files.set_of_ne _ _ (join_ne_self dir seqName)]
    exact h.seqFile
  · have hne : p ≠ dir := fun heq => dir_not_entry dir free (heq ▸ hp)
    rw [Files.set_of_ne _ _ hne, h.absent p hp]

theorem Room.pop {dir : Text} {fs : Files} {free seq : ℕ} (h : Room dir fs free)
    (hne : free ≠ seq) (mode : Fin 4096) : Room dir (popEntry dir seq mode fs) free := by
  refine h.of_same (popEntry_other dir mode fs (join_ne_self dir seqName).symm
    (dir_not_entry dir seq)) ?_ fun p hp => popEntry_otherEntry dir mode fs hne hp
  rw [popEntry, Files.set_self]
  exact ⟨some _, rfl⟩

theorem Room.undoEntry {dir : Text} {fs fs' : Files} {free seq : ℕ} {r r' : Reply × Files}
    (h : Room dir fs free) (heffect : UndoEffect dir seq fs fs' r r') (hne : free ≠ seq) :
    Room dir r.2 free := by
  cases heffect with
  | corrupt reply => exact h
  | failed node reply hout => exact h.set_outside hout node
  | popped node mode mode' hout => exact (h.set_outside hout node).pop hne mode

theorem Alike.rfl_of {dir : Text} {fs : Files} (h : TargetsOutside dir fs) : Alike dir fs fs :=
  ⟨fun _ _ => rfl, Or.inl rfl, fun _ => Iff.rfl, fun _ _ _ _ => rfl, h⟩

/-- The targets stay outside, and there is room, through everything but snapshots. -/
structure Roomy (dir : Text) (free : ℕ) (s : UndoState) : Prop where
  targets : TargetsOutside dir s.files
  room : Room dir s.files free

theorem undoStep_roomy {dir : Text} {free : ℕ} {s : UndoState} {a : UndoAction}
    (ha : a.Later dir) (h : Roomy dir free s) : Roomy dir free (undoStep dir s a).2 := by
  have halike : AlikeState dir s s := ⟨rfl, rfl, .rfl_of h.targets⟩
  refine ⟨(undoStep_alike ha halike).2.files.targets, ?_⟩
  cases a with
  | snapshotFile maxBytes cwd path => cases ha
  | undoLast =>
      show Room dir (rashLuaUndoLast dir s).2.files free
      rw [rashLuaUndoLast_ensured h.room.directory]
      have hfiles := halike.files.ensured
      dsimp only
      split
      · exact h.room.ensured
      · rename_i htop
        have hvisible := (topEntry_cases dir (s.files.set dir (some .directory))).elim
          (fun hnone => absurd hnone.1 htop) And.left
        refine h.room.ensured.undoEntry (undoEntry_effect hfiles hvisible) fun heq => ?_
        have hmeta := hvisible.2.2
        rw [← heq, h.room.ensured.absent _ (entryFile_inside dir free metaName)] at hmeta
        cases hmeta
  | applyBegin => exact h.room
  | applyEnd => exact h.room
  | external path file => exact h.room.set_outside ha _

theorem later_roomy {dir : Text} {free : ℕ} {s : UndoState} (h : Roomy dir free s)
    {later : List UndoAction} (hlater : ∀ a ∈ later, UndoAction.Later dir a) :
    Roomy dir free (outputs (undoStep dir) s later).2 := by
  induction later generalizing s with
  | nil => exact h
  | cons a rest ih =>
      exact ih (undoStep_roomy (hlater a List.mem_cons_self) h) fun b hb =>
        hlater b (List.mem_cons_of_mem a hb)

/-! ## Snapshots that are tried again -/

/-- How many numbers come before `free` after `latest`, counted around. -/
def stepsTo (free latest : ℕ) : ℕ := (free + 2 ^ 64 - 1 - latest) % 2 ^ 64

theorem stepsTo_next {free latest : ℕ} (hfree : free ≤ ulongMax) (hlatest : latest ≤ ulongMax)
    (hne : (latest + 1) % 2 ^ 64 ≠ free) :
    stepsTo free ((latest + 1) % 2 ^ 64) < stepsTo free latest := by
  unfold stepsTo
  unfold ulongMax at hfree hlatest
  omega

theorem entryNumber_eq (dir : Text) (fs : Files) :
    entryNumber dir fs = (rashUndoLatestSeq dir fs + 1) % 2 ^ 64 := by
  unfold entryNumber
  split
  · rename_i hzero
    rw [hzero]
    rfl
  · rfl

theorem rashUndoNextSeq_number {dir : Text} {fs : Files}
    (h : Replaceable (fs (join dir seqName))) :
    ∃ mode, rashUndoNextSeq dir fs = .ok (entryNumber dir fs, fs.set (join dir seqName)
      (some (.regular ⟨mode, seqText (entryNumber dir fs)⟩))) := by
  obtain ⟨file, hfile⟩ := h
  cases file with
  | none =>
      refine ⟨privateMode, ?_⟩
      rw [entryNumber_none hfile]
      simp only [rashUndoNextSeq, openCreate, hfile, Option.map_none]
      rfl
  | some file =>
      refine ⟨file.mode, ?_⟩
      have hnumber := nextSeq_eq hfile
      simp only [nextSeq] at hnumber
      simp only [rashUndoNextSeq, openCreate, hfile, Option.map_some, hnumber]

theorem writeEntry_frame {dir p : Text} {seq : ℕ} (hp : ¬ Inside (entryDir dir seq) p)
    (abspath : Text) (preimage : Option RegularFile) (fs : Files) :
    (writeEntry dir seq abspath preimage fs).2 p = fs p := by
  have hfile : ∀ name, p ≠ entryFile dir seq name := by
    rintro name rfl
    exact hp (entryFile_inside dir seq name)
  have hdir : p ≠ entryDir dir seq := by
    rintro rfl
    exact hp (Or.inl rfl)
  unfold writeEntry
  dsimp only
  split
  · rfl
  split
  · exact Files.set_of_ne _ _ hdir
  split
  · simp only [Files.set, hfile, hdir, if_false]
  · simp only [Files.set, hfile, hdir, if_false]
  split
  · simp only [Files.set, hfile, hdir, if_false]
  · simp only [Files.set, hfile, hdir, if_false]

/-- The path can be snapshotted now. -/
structure CanTake (dir : Text) (maxBytes cwd : Option Text) (path : Text) (s : UndoState) :
    Prop where
  outside : ¬ Inside dir (rashUndoAbspath cwd path)
  fits : Snapshottable maxBytes (s.files (rashUndoAbspath cwd path))
  free : s.applyWindowHas (rashUndoAbspath cwd path) = false

theorem rashLuaSnapshotFile_taking {dir : Text} {maxBytes cwd : Option Text} {path : Text}
    {s : UndoState} (h : CanTake dir maxBytes cwd path s)
    (hdir : s.files dir = none ∨ s.files dir = some .directory) :
    ∃ preimage, rashLuaSnapshotFile dir maxBytes cwd path s =
      takeSnapshot dir (rashUndoAbspath cwd path) preimage
        { s with files := s.files.set dir (some .directory) } := by
  have hmade : s.files.set dir (some .directory) (rashUndoAbspath cwd path) =
      s.files (rashUndoAbspath cwd path) :=
    Files.set_of_ne _ _ fun heq => h.outside (Or.inl heq)
  have hfree : ({ s with files := s.files.set dir (some .directory) } : UndoState).applyWindowHas
      (rashUndoAbspath cwd path) = false := h.free
  have hfits := h.fits
  unfold rashLuaSnapshotFile
  rw [rashUndoEnsureDir_eq hdir]
  simp only [hfree, Bool.false_eq_true, if_false, hmade]
  cases hnode : s.files (rashUndoAbspath cwd path) with
  | none => exact ⟨none, rfl⟩
  | some node =>
      rw [hnode] at hfits
      cases node with
      | regular file =>
          have hsize : ¬ rashUndoMaxBytes maxBytes < file.content.length := Nat.not_lt.mpr hfits
          exact ⟨some file, by simp only [hsize, if_false]⟩
      | directory => exact absurd hfits id
      | other => exact absurd hfits id

/-- A try succeeds, or comes one number closer to the free one. -/
theorem snapshotFile_try {dir : Text} {maxBytes cwd : Option Text} {path : Text} {s : UndoState}
    {free : ℕ} (htake : CanTake dir maxBytes cwd path s) (hroom : Room dir s.files free) :
    let r := rashLuaSnapshotFile dir maxBytes cwd path s
    r.1 = (true, none) ∨ (CanTake dir maxBytes cwd path r.2 ∧ Room dir r.2.files free ∧
      stepsTo free (rashUndoLatestSeq dir r.2.files) <
        stepsTo free (rashUndoLatestSeq dir s.files)) := by
  obtain ⟨preimage, htaken⟩ := rashLuaSnapshotFile_taking htake hroom.directory
  obtain ⟨abspath, habspath⟩ : ∃ abspath, abspath = rashUndoAbspath cwd path := ⟨_, rfl⟩
  have hmade := hroom.ensured
  obtain ⟨mode, hnext⟩ := rashUndoNextSeq_number hmade.seqFile
  have hseqFile : s.files.set dir (some .directory) (join dir seqName) =
      s.files (join dir seqName) := Files.set_of_ne _ _ (join_ne_self dir seqName)
  rw [entryNumber_congr hseqFile] at hnext
  obtain ⟨seq, hseq⟩ : ∃ seq, seq = entryNumber dir s.files := ⟨_, rfl⟩
  have hbound : seq ≤ ulongMax := hseq ▸ entryNumber_le dir s.files
  obtain ⟨fs, hfs⟩ : ∃ fs, fs = (s.files.set dir (some .directory)).set (join dir seqName)
      (some (.regular ⟨mode, seqText seq⟩)) := ⟨_, rfl⟩
  rw [← hseq, ← hfs] at hnext
  rw [htaken, ← habspath]
  have hfsRoom : Room dir fs free := by
    refine hmade.of_same ?_ ?_ fun p hp => ?_
    · rw [hfs, Files.set_of_ne _ _ (join_ne_self dir seqName).symm]
    · rw [hfs, Files.set_self]
      exact ⟨some _, rfl⟩
    · have hne : p ≠ join dir seqName := fun heq => seq_not_entry dir free (heq ▸ hp)
      rw [hfs, Files.set_of_ne _ _ hne]
  have hfsLatest : rashUndoLatestSeq dir fs = seq := by
    rw [hfs, rashUndoLatestSeq_set (seqText_length hbound), strtoul_seqText hbound]
  have hcloser : seq ≠ free → stepsTo free seq < stepsTo free (rashUndoLatestSeq dir s.files) := by
    rw [hseq, entryNumber_eq]
    exact stepsTo_next hroom.bound (rashUndoLatestSeq_le dir s.files)
  have hfsTake : CanTake dir maxBytes cwd path { s with files := fs } := by
    refine ⟨htake.outside, ?_, htake.free⟩
    show Snapshottable maxBytes (fs (rashUndoAbspath cwd path))
    have hne : rashUndoAbspath cwd path ≠ dir := fun heq => htake.outside (Or.inl heq)
    rw [hfs, Files.set_of_ne _ _ (ne_of_outside (inside_join dir seqName) htake.outside).symm,
      Files.set_of_ne _ _ hne]
    exact htake.fits
  simp only [takeSnapshot, hnext]
  by_cases hzero : seq = 0
  · rw [if_pos hzero]
    have hpos := hroom.pos
    exact Or.inr ⟨hfsTake, hfsRoom, hfsLatest.symm ▸ hcloser (by omega)⟩
  · rw [if_neg hzero]
    dsimp only
    cases hfailed : (writeEntry dir seq abspath preimage fs).1.1 with
    | true => exact Or.inl (writeEntry_reply hfailed)
    | false =>
      have hne : seq ≠ free := by
        intro heq
        obtain ⟨fs', hwritten, -⟩ := writeEntry_eq (heq ▸ hfsRoom.absent) abspath preimage
        rw [hwritten] at hfailed
        cases hfailed
      have hframe := fun p hp => @writeEntry_frame dir p seq hp abspath preimage fs
      simp only [Bool.false_eq_true, if_false]
      refine Or.inr ⟨⟨htake.outside, ?_, htake.free⟩, ?_, ?_⟩
      · dsimp only
        rw [hframe _ fun hp => htake.outside (inside_of_entry hp)]
        exact hfsTake.fits
      · refine hfsRoom.of_same (hframe dir (dir_not_entry dir seq)) ?_ fun p hp =>
          hframe p fun hp' => hne (entry_disjoint hp' hp)
        rw [hframe _ (seq_not_entry dir seq)]
        exact hfsRoom.seqFile
      · rw [rashUndoLatestSeq_congr (hframe _ (seq_not_entry dir seq)), hfsLatest]
        exact hcloser hne

/-- Tried often enough, a snapshot succeeds. -/
theorem snapshotFile_succeeds {dir : Text} {maxBytes cwd : Option Text} {path : Text}
    {s : UndoState} {free : ℕ} (htake : CanTake dir maxBytes cwd path s)
    (hroom : Room dir s.files free) :
    ∃ tries, some (true, none) ∈ (outputs (undoStep dir) s
      (List.replicate tries (.snapshotFile maxBytes cwd path))).1 := by
  obtain ⟨steps, hsteps⟩ : ∃ steps, steps = stepsTo free (rashUndoLatestSeq dir s.files) :=
    ⟨_, rfl⟩
  induction steps using Nat.strong_induction_on generalizing s with
  | _ steps ih =>
      rcases snapshotFile_try htake hroom with hok | ⟨htake', hroom', hcloser⟩
      · refine ⟨1, ?_⟩
        show _ ∈ [some (rashLuaSnapshotFile dir maxBytes cwd path s).1]
        rw [hok]
        exact List.mem_singleton_self _
      · obtain ⟨tries, htries⟩ := ih _ (hsteps ▸ hcloser) htake' hroom' rfl
        exact ⟨tries + 1, List.mem_cons_of_mem _ htries⟩

/-! ## Entries that can all be undone -/

/-- Every entry with a `meta` file can be put back. -/
structure Undoable (dir : Text) (fs : Files) : Prop where
  directory : fs dir = none ∨ fs dir = some .directory
  entries : ∀ seq, 0 < seq → (fs (entryFile dir seq metaName)).isSome →
    ∃ pathFile metaFile, fs (entryFile dir seq pathName) = some (.regular pathFile) ∧
      fs (entryFile dir seq metaName) = some (.regular metaFile) ∧
        ¬ Inside dir pathFile.content ∧ Replaceable (fs pathFile.content) ∧
          ((rashUndoReadMeta metaFile.content).existed ≠ 0 →
            ∃ file, fs (entryFile dir seq dataName) = some (.regular file))

/-- How many of the entries up to `latest` have a `meta` file. -/
def metaCount (dir : Text) (fs : Files) (latest : ℕ) : ℕ :=
  Nat.count (fun seq => (fs (entryFile dir (seq + 1) metaName)).isSome) latest

/-- How many entries an undo can come to. -/
def entryCount (dir : Text) (fs : Files) : ℕ := metaCount dir fs (rashUndoLatestSeq dir fs)

theorem metaCount_congr {dir : Text} {fs fs' : Files} {latest : ℕ}
    (h : ∀ seq, 0 < seq → seq ≤ latest →
      fs' (entryFile dir seq metaName) = fs (entryFile dir seq metaName)) :
    metaCount dir fs' latest = metaCount dir fs latest := by
  unfold metaCount
  apply Nat.le_antisymm
  · exact Nat.count_mono_left fun seq hlt hmeta => by rwa [← h _ (Nat.succ_pos seq) hlt]
  · exact Nat.count_mono_left fun seq hlt hmeta => by rwa [h _ (Nat.succ_pos seq) hlt]

theorem metaCount_latestEntry (dir : Text) (fs : Files) (latest : ℕ) :
    (latestEntry dir fs latest = 0 ∧ metaCount dir fs latest = 0) ∨
      ∃ seq, latestEntry dir fs latest = seq + 1 ∧
        metaCount dir fs latest = metaCount dir fs seq + 1 := by
  induction latest with
  | zero => exact Or.inl ⟨rfl, rfl⟩
  | succ latest ih =>
      rw [metaCount, Nat.count_succ, latestEntry]
      by_cases hmeta : (fs (entryFile dir (latest + 1) metaName)).isSome
      · rw [if_pos hmeta, if_pos hmeta]
        exact Or.inr ⟨latest, rfl, rfl⟩
      · rw [if_neg hmeta, if_neg hmeta]
        exact ih

theorem restoreEntry_ok {dir target : Text} {seq : ℕ} {m : UndoMeta} {fs : Files}
    (htarget : Replaceable (fs target)) (hne : entryFile dir seq dataName ≠ target)
    (hdata : m.existed ≠ 0 → ∃ file, fs (entryFile dir seq dataName) = some (.regular file)) :
    ∃ file : Option RegularFile, restoreEntry dir seq m target fs =
      ((true, none), fs.set target (file.map .regular)) := by
  by_cases hexisted : m.existed = 0
  · refine ⟨none, ?_⟩
    rw [restoreEntry, if_pos hexisted, unlinkTarget_eq htarget]
    rfl
  · obtain ⟨file, hfile⟩ := hdata hexisted
    obtain ⟨opened, hopened⟩ := openCreate_replaceable htarget (Fin.ofNat 4096 m.mode)
    refine ⟨some ⟨Fin.ofNat 4096 m.mode, copyBytes file.content⟩, ?_⟩
    rw [restoreEntry, if_neg hexisted, restoreTarget, hopened]
    simp only [Files.set_of_ne _ _ hne, hfile, Files.set_set, Option.map_some]

theorem Undoable.of_kept {dir : Text} {fs fs' : Files} (h : Undoable dir fs)
    (hdir : fs' dir = none ∨ fs' dir = some .directory)
    (hentry : ∀ seq, 0 < seq → (fs' (entryFile dir seq metaName)).isSome →
      ∀ p, Inside (entryDir dir seq) p → fs' p = fs p)
    (houtside : ∀ p, ¬ Inside dir p → Replaceable (fs p) → Replaceable (fs' p)) :
    Undoable dir fs' := by
  refine ⟨hdir, fun seq hpos hmeta => ?_⟩
  have hsame : ∀ name, fs' (entryFile dir seq name) = fs (entryFile dir seq name) := fun name =>
    hentry seq hpos hmeta _ (entryFile_inside dir seq name)
  rw [hsame] at hmeta
  obtain ⟨pathFile, metaFile, hpath, hmeta, hout, htarget, hdata⟩ := h.entries seq hpos hmeta
  simp only [hsame]
  exact ⟨pathFile, metaFile, hpath, hmeta, hout, houtside _ hout htarget, hdata⟩

/-- In such a store an undo pops an entry as long as there is one. -/
theorem undoLast_counts {dir : Text} {s : UndoState} (h : Undoable dir s.files) :
    (entryCount dir s.files = 0 → (rashLuaUndoLast dir s).1 = stackEmpty) ∧
      ∀ count, entryCount dir s.files = count + 1 → (rashLuaUndoLast dir s).1 = (true, none) ∧
        Undoable dir (rashLuaUndoLast dir s).2.files ∧
          entryCount dir (rashLuaUndoLast dir s).2.files = count := by
  obtain ⟨fs, hfs⟩ : ∃ fs, fs = s.files.set dir (some .directory) := ⟨_, rfl⟩
  have hentry : ∀ seq p, Inside (entryDir dir seq) p → fs p = s.files p := fun seq p hp => by
    have hne : p ≠ dir := fun heq => dir_not_entry dir seq (heq ▸ hp)
    rw [hfs, Files.set_of_ne _ _ hne]
  have hseqFile : fs (join dir seqName) = s.files (join dir seqName) := by
    rw [hfs, Files.set_of_ne _ _ (join_ne_self dir seqName)]
  have hundoable : Undoable dir fs := by
    refine h.of_kept (Or.inr (hfs ▸ Files.set_self ..)) (fun seq _ _ => hentry seq) fun p hp hr => ?_
    have hne : p ≠ dir := fun heq => hp (Or.inl heq)
    rwa [hfs, Files.set_of_ne _ _ hne]
  have hcount : entryCount dir s.files = entryCount dir fs := by
    rw [entryCount, entryCount, rashUndoLatestSeq_congr hseqFile]
    exact (metaCount_congr fun seq _ _ => hentry seq _ (entryFile_inside dir seq metaName)).symm
  rw [rashLuaUndoLast_ensured h.directory, ← hfs, hcount]
  dsimp only
  rcases metaCount_latestEntry dir fs (rashUndoLatestSeq dir fs) with
    ⟨hzero, hnone⟩ | ⟨seq, htop, hsome⟩
  · rw [topEntry, hzero, if_pos rfl]
    refine ⟨fun _ => rfl, fun count hcount' => ?_⟩
    rw [entryCount, hnone] at hcount'
    cases hcount'
  · have hvisible : Visible dir fs (seq + 1) := by
      have hcases := topEntry_cases dir fs
      rw [topEntry, htop] at hcases
      exact hcases.elim (fun hzero => absurd hzero.1 (Nat.succ_ne_zero seq)) And.left
    rw [topEntry, htop, if_neg (Nat.succ_ne_zero seq)]
    refine ⟨fun hcount' => ?_, fun count hcount' => ?_⟩
    · rw [entryCount, hsome] at hcount'
      cases hcount'
    · rw [entryCount, hsome] at hcount'
      obtain ⟨pathFile, metaFile, hpath, hmeta, hout, htarget, hdata⟩ :=
        hundoable.entries _ hvisible.1 hvisible.2.2
      obtain ⟨file, hrestored⟩ := restoreEntry_ok htarget
        (ne_of_outside (inside_of_entry (entryFile_inside dir (seq + 1) dataName)) hout) hdata
      obtain ⟨seqFile, hseqNode⟩ := hvisible.seqFile
      have hkept : rashUndoRemoveEntry dir (seq + 1)
          (fs.set pathFile.content (file.map .regular)) (join dir seqName) =
            some (.regular seqFile) := by
        rw [removeEntry_outside _ (seq_not_entry dir _),
          Files.set_of_ne _ _ (ne_of_outside (inside_join dir seqName) hout), hseqNode]
      have hundone : undoEntry dir (seq + 1) fs = ((true, none), popEntry dir (seq + 1)
          seqFile.mode (fs.set pathFile.content (file.map .regular))) := by
        simp only [undoEntry, hpath, hmeta, hrestored, if_true, writeSeq_of_regular hkept]
        rfl
      have hother : ∀ seq', seq' ≠ seq + 1 → ∀ p, Inside (entryDir dir seq') p →
          popEntry dir (seq + 1) seqFile.mode (fs.set pathFile.content (file.map .regular)) p =
            fs p := fun seq' hne p hp => by
        rw [popEntry_otherEntry dir _ _ hne hp,
          Files.set_of_ne _ _ (ne_of_outside (inside_of_entry hp) hout)]
      rw [hundone]
      refine ⟨rfl, hundoable.of_kept ?_ (fun seq' _ hmeta' => ?_) (fun p hp hr => ?_), ?_⟩
      · dsimp only
        rw [popEntry_other dir _ _ (join_ne_self dir seqName).symm (dir_not_entry dir _),
          Files.set_of_ne _ _ (ne_of_outside (Or.inl rfl) hout)]
        exact hundoable.directory
      · refine hother seq' fun heq => ?_
        dsimp only at hmeta'
        rw [heq, popEntry_file dir (seq + 1) _ _ (Or.inr rfl)] at hmeta'
        cases hmeta'
      · dsimp only
        rw [popEntry_other dir _ _ (ne_of_outside (inside_join dir seqName) hp).symm fun hp' =>
          hp (inside_of_entry hp')]
        by_cases heq : p = pathFile.content
        · rw [heq, Files.set_self]
          exact ⟨file, rfl⟩
        · rwa [Files.set_of_ne _ _ heq]
      · have hbound : seq + 1 ≤ ulongMax := hvisible.2.1.trans (rashUndoLatestSeq_le dir fs)
        rw [entryCount, popEntry_latest dir hbound, Nat.add_sub_cancel,
          metaCount_congr fun seq' _ hle =>
            hother seq' (by omega) _ (entryFile_inside dir seq' metaName)]
        exact Nat.succ.inj hcount'

/-- Undos tell stores apart that hold different numbers of entries. -/
theorem undos_tell {dir : Text} {s s' : UndoState} {count : ℕ} (h : Undoable dir s.files)
    (h' : Undoable dir s'.files) (hcount : entryCount dir s.files = count)
    (hmore : count < entryCount dir s'.files) :
    (outputs (undoStep dir) s (List.replicate (count + 1) .undoLast)).1 ≠
      (outputs (undoStep dir) s' (List.replicate (count + 1) .undoLast)).1 := by
  induction count generalizing s s' with
  | zero =>
      obtain ⟨more, hmore'⟩ := Nat.exists_eq_succ_of_ne_zero (Nat.pos_iff_ne_zero.mp hmore)
      have hempty := (undoLast_counts h).1 hcount
      have hok := ((undoLast_counts h').2 more hmore').1
      show [some (rashLuaUndoLast dir s).1] ≠ [some (rashLuaUndoLast dir s').1]
      rw [hempty, hok]
      simp [stackEmpty]
  | succ count ih =>
      obtain ⟨more, hmore'⟩ := Nat.exists_eq_succ_of_ne_zero
        (Nat.pos_iff_ne_zero.mp (Nat.zero_lt_of_lt hmore))
      obtain ⟨-, hundoable, hleft⟩ := (undoLast_counts h).2 count hcount
      obtain ⟨-, hundoable', hleft'⟩ := (undoLast_counts h').2 more hmore'
      intro heq
      exact ih hundoable hundoable' hleft (by omega) (List.tail_eq_of_cons_eq heq)

/-! ## Failed snapshots -/

/-- The later undos go as if the failed call had not been made, and snapshots can succeed. -/
structure Unharmed (dir : Text) (s s' : UndoState) : Prop where
  undos : ∀ later, (∀ a ∈ later, UndoAction.Later dir a) →
    (outputs (undoStep dir) s' later).1 = (outputs (undoStep dir) s later).1 ∧
      ∀ p, ¬ Inside dir p → (outputs (undoStep dir) s' later).2.files p =
        (outputs (undoStep dir) s later).2.files p
  snapshots : ∀ later, (∀ a ∈ later, UndoAction.Later dir a) → ∀ maxBytes cwd path,
    CanTake dir maxBytes cwd path (outputs (undoStep dir) s' later).2 →
      ∃ tries, some (true, none) ∈ (outputs (undoStep dir) (outputs (undoStep dir) s' later).2
        (List.replicate tries (.snapshotFile maxBytes cwd path))).1

/-- The preimage is not being copied when the call fails, and between the numbers that the seq
file holds before and after it there is no entry with a `meta` file. -/
def StackKept (faults : SnapshotFaults) (maxBytes : Option Text) (dir abspath : Text)
    (taken : Bool) (fs : Files) : Prop :=
  ¬ CopiesPreimage faults maxBytes dir abspath taken fs ∧
    (EmptiesSeq faults maxBytes dir abspath taken fs → ∀ seq, 0 < seq →
      (fs (entryFile dir seq metaName)).isSome →
        (seq ≤ seqWritten faults dir fs ↔ seq ≤ rashUndoLatestSeq dir fs))

section

variable {faults : SnapshotFaults} {maxBytes : Option Text} {dir abspath : Text} {taken : Bool}
  {fs fs' : Files}

/-- An entry with a `meta` file keeps all its files. -/
theorem SnapshotLeft.entry_kept (h : SnapshotLeft faults maxBytes dir abspath taken fs fs')
    (hrooted : Rooted dir fs) (hcopies : ¬ CopiesPreimage faults maxBytes dir abspath taken fs)
    {seq : ℕ} (hmeta : (fs (entryFile dir seq metaName)).isSome) :
    ∀ p, Inside (entryDir dir seq) p → fs' p = fs p := by
  by_cases hne : seq = entryNumber dir fs
  · rcases (h.notCopied hcopies).2 with hkept | ⟨hnone, -⟩
    · exact hne ▸ hkept
    · rw [hne, hrooted _ hnone _ (entryFile_inside dir _ metaName)] at hmeta
      cases hmeta
  · exact h.leftover.entries seq hne

/-- The `meta` files are those that were there. -/
theorem SnapshotLeft.meta_kept (h : SnapshotLeft faults maxBytes dir abspath taken fs fs')
    (hcopies : ¬ CopiesPreimage faults maxBytes dir abspath taken fs) (seq : ℕ) :
    fs' (entryFile dir seq metaName) = fs (entryFile dir seq metaName) := by
  by_cases hne : seq = entryNumber dir fs
  · rw [hne]
    exact (h.notCopied hcopies).1
  · exact h.leftover.entries seq hne _ (entryFile_inside dir seq metaName)

theorem SnapshotLeft.alike (h : SnapshotLeft faults maxBytes dir abspath taken fs fs')
    (hrooted : Rooted dir fs) (htargets : TargetsOutside dir fs)
    (hkept : StackKept faults maxBytes dir abspath taken fs) : Alike dir fs fs' := by
  refine ⟨h.leftover.outside, h.leftover.directory, fun seq => ?_, fun seq hseq =>
    h.entry_kept hrooted hkept.1 hseq.2.2, htargets⟩
  rw [Visible, Visible, h.meta_kept hkept.1]
  by_cases hempties : EmptiesSeq faults maxBytes dir abspath taken fs
  · rw [h.emptied hempties]
    constructor
    · rintro ⟨hpos, hle, hmeta⟩
      exact ⟨hpos, (hkept.2 hempties seq hpos hmeta).mp hle, hmeta⟩
    · rintro ⟨hpos, hle, hmeta⟩
      exact ⟨hpos, (hkept.2 hempties seq hpos hmeta).mpr hle, hmeta⟩
  · rw [(h.kept hempties).1]

theorem SnapshotLeft.room (h : SnapshotLeft faults maxBytes dir abspath taken fs fs') {free : ℕ}
    (hroom : Room dir fs free) (hne : free ≠ entryNumber dir fs) : Room dir fs' free := by
  refine ⟨?_, h.leftover.seqFile hroom.seqFile, hroom.pos, hroom.bound, fun p hp => ?_⟩
  · rcases h.leftover.directory with hsame | ⟨-, hnew⟩
    · exact hsame ▸ hroom.directory
    · exact Or.inr hnew
  · rw [h.leftover.entries free hne p hp, hroom.absent p hp]

/-- The entry that a failed copy leaves can be undone: an undo removes the file. -/
theorem SnapshotLeft.undoable (h : SnapshotLeft faults maxBytes dir abspath taken fs fs')
    (hrooted : Rooted dir fs) (hundoable : Undoable dir fs) (hout : ¬ Inside dir abspath) :
    Undoable dir fs' := by
  have hdir : fs' dir = none ∨ fs' dir = some .directory := by
    rcases h.leftover.directory with hsame | ⟨-, hnew⟩
    · exact hsame ▸ hundoable.directory
    · exact Or.inr hnew
  have houtside : ∀ p, ¬ Inside dir p → Replaceable (fs p) → Replaceable (fs' p) :=
    fun p hp hr => (h.leftover.outside p hp).symm ▸ hr
  by_cases hcopies : CopiesPreimage faults maxBytes dir abspath taken fs
  · refine ⟨hdir, fun seq hpos hmeta => ?_⟩
    by_cases hne : seq = entryNumber dir fs
    · obtain ⟨-, hmetaFile, hpathFile⟩ := h.copied hcopies
      obtain ⟨-, -, -, -, file, hfile⟩ := hcopies
      refine ⟨_, _, hne ▸ hpathFile, hne ▸ hmetaFile, hout, houtside _ hout ⟨some file, hfile⟩,
        fun hexisted => absurd ?_ hexisted⟩
      decide
    · have hsame : ∀ name, fs' (entryFile dir seq name) = fs (entryFile dir seq name) :=
        fun name => h.leftover.entries seq hne _ (entryFile_inside dir seq name)
      rw [hsame] at hmeta
      obtain ⟨pathFile, metaFile, hpath, hmeta, hout', htarget, hdata⟩ :=
        hundoable.entries seq hpos hmeta
      simp only [hsame]
      exact ⟨pathFile, metaFile, hpath, hmeta, hout', houtside _ hout' htarget, hdata⟩
  · exact hundoable.of_kept hdir
      (fun seq _ hmeta => h.entry_kept hrooted hcopies (h.meta_kept hcopies seq ▸ hmeta)) houtside

/-- Where the number of entries that undos see has not changed, the stack is kept. -/
theorem SnapshotLeft.stackKept (h : SnapshotLeft faults maxBytes dir abspath taken fs fs')
    (hcount : entryCount dir fs' = entryCount dir fs) :
    StackKept faults maxBytes dir abspath taken fs := by
  by_cases hcopies : CopiesPreimage faults maxBytes dir abspath taken fs
  · exfalso
    obtain ⟨hempties, hwrite, hzero, -⟩ := id hcopies
    have hlatest := h.emptied hempties
    rw [seqWritten, hwrite] at hlatest
    have hnumber : entryNumber dir fs = rashUndoLatestSeq dir fs + 1 := by
      have hle := rashUndoLatestSeq_le dir fs
      rw [entryNumber_eq] at hzero ⊢
      unfold ulongMax at hle
      omega
    have hmeta : (fs' (entryFile dir (rashUndoLatestSeq dir fs + 1) metaName)).isSome := by
      rw [← hnumber, (h.copied hcopies).2.1]
      rfl
    have hmore : metaCount dir fs' (rashUndoLatestSeq dir fs + 1) =
        metaCount dir fs' (rashUndoLatestSeq dir fs) + 1 := by
      rw [metaCount, Nat.count_succ, if_pos hmeta]
      rfl
    have hsame : metaCount dir fs' (rashUndoLatestSeq dir fs) =
        metaCount dir fs (rashUndoLatestSeq dir fs) :=
      metaCount_congr fun seq _ hle =>
        h.leftover.entries seq (by omega) _ (entryFile_inside dir seq metaName)
    rw [entryCount, entryCount, hlatest, hnumber, hmore, hsame] at hcount
    omega
  · refine ⟨hcopies, fun hempties seq hpos hmeta => ?_⟩
    have hsame := fun latest => @metaCount_congr dir fs fs' latest fun seq _ _ =>
      h.meta_kept hcopies seq
    rw [entryCount, entryCount, h.emptied hempties, hsame] at hcount
    obtain ⟨prev, rfl⟩ := Nat.exists_eq_succ_of_ne_zero (Nat.pos_iff_ne_zero.mp hpos)
    have hbetween : ∀ {low high : ℕ}, metaCount dir fs low = metaCount dir fs high →
        prev + 1 ≤ high → prev + 1 ≤ low := fun {low high} heq hle => by
      by_contra hlt
      have hfew : metaCount dir fs low ≤ metaCount dir fs prev :=
        Nat.count_monotone _ (by omega)
      have hmany : metaCount dir fs prev < metaCount dir fs high :=
        Nat.count_strict_mono hmeta hle
      omega
    exact ⟨hbetween hcount.symm, hbetween hcount⟩

end

/-- No entry can be made for lack of space. -/
def noSpace : SnapshotFaults :=
  { noFaults with act := fun a =>
      match a with
      | .makeEntry _ => some (0, .other "No space left on device")
      | _ => none }

/-- The copied file has grown after its `lstat`. -/
def growing : SnapshotFaults := { noFaults with readSource := fun _ => some (.ok ['a', 'b']) }

def storeWithFile : UndoState := .start (Files.set (fun _ => none) editedPath
  ((edited 'a').map .regular))

end Rash
