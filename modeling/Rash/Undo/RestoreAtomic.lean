import Rash.Undo.RestoreFaults

/-!
# What a failed undo leaves

`rash.undo_last` empties its target before it has opened the preimage.  Where it fails behind
that, the target holds what had been written back by then, and nothing else has changed.
-/

namespace Rash

open FlatFiles Interaction Machine

/-! ## Bytes -/

namespace ByteStream

variable {b : ByteStream} {offset most : ℕ}

theorem move_error {e : Errno} (h : b.move offset most = .error e) :
    ∀ n, b.reach n ≤ offset := by
  unfold move at h
  unfold reach
  cases hlimit : b.limit with
  | none =>
      rw [hlimit] at h
      cases h
  | some fault =>
      rw [hlimit] at h
      dsimp only at h ⊢
      by_cases hreached : fault.1 ≤ offset
      · exact fun n => (Nat.min_le_right _ _).trans hreached
      · rw [if_neg hreached] at h
        cases h

theorem move_ok {n : ℕ} (h : b.move offset most = .ok n) (hmost : 0 < most) :
    0 < n ∧ n ≤ most ∧ b.reach (offset + n) = offset + n := by
  unfold move at h
  unfold reach
  cases hlimit : b.limit with
  | none =>
      rw [hlimit] at h
      dsimp only at h ⊢
      obtain rfl := Except.ok.inj h
      omega
  | some fault =>
      rw [hlimit] at h
      dsimp only at h ⊢
      by_cases hreached : fault.1 ≤ offset
      · rw [if_pos hreached] at h
        cases h
      · rw [if_neg hreached] at h
        obtain rfl := Except.ok.inj h
        omega

theorem reach_le {n : ℕ} : b.reach n ≤ n := by
  unfold reach
  cases b.limit with
  | none => exact le_rfl
  | some fault => exact Nat.min_le_left _ _

theorem reach_mono {n m : ℕ} (h : n ≤ m) : b.reach n ≤ b.reach m := by
  unfold reach
  cases b.limit with
  | none => exact h
  | some fault => exact min_le_min_right _ h

/-- What is reached on the way to `m` is reached on the way to less. -/
theorem reach_of_le {n m : ℕ} (hm : n ≤ b.reach m) : b.reach n = n := by
  unfold reach at hm ⊢
  cases hlimit : b.limit with
  | none => rfl
  | some fault =>
      rw [hlimit] at hm
      exact Nat.min_eq_left (hm.trans (Nat.min_le_right _ _))

end ByteStream

section

variable (faults : UndoFaults) {target : Text} {base : Files} {mode : Fin 4096}

/-- The inner loop appends what the stream takes. -/
theorem writeBack_spec (rounds : ℕ) {p content : Text} {written : ℕ} (hrounds : p.length ≤ rounds)
    (hwritten : faults.writes.reach written = written) :
    (writeBack faults target rounds p written
        (base.set target (some (.regular ⟨mode, content⟩)))).2 =
        base.set target (some (.regular ⟨mode,
          content ++ p.take (faults.writes.reach (written + p.length) - written)⟩)) ∧
      ((writeBack faults target rounds p written
          (base.set target (some (.regular ⟨mode, content⟩)))).1 = .ok () →
        faults.writes.reach (written + p.length) = written + p.length) ∧
      ((writeBack faults target rounds p written
          (base.set target (some (.regular ⟨mode, content⟩)))).1 ≠ .ok () →
        ∀ n, written + p.length ≤ n →
          faults.writes.reach n = faults.writes.reach (written + p.length)) := by
  induction rounds generalizing p content written with
  | zero =>
      obtain rfl := List.length_eq_zero_iff.mp (Nat.le_zero.mp hrounds)
      rw [List.take_nil, List.append_nil]
      exact ⟨rfl, fun _ => hwritten, fun h => absurd rfl h⟩
  | succ rounds ih =>
      unfold writeBack
      by_cases hnil : p = []
      · rw [if_pos hnil, hnil, List.take_nil, List.append_nil]
        exact ⟨rfl, fun _ => hwritten, fun h => absurd rfl h⟩
      rw [if_neg hnil]
      have hpos := List.length_pos_iff.mpr hnil
      cases hmove : faults.writes.move written p.length with
      | error e =>
          have hstops (n : ℕ) (hn : written ≤ n) : faults.writes.reach n = written :=
            le_antisymm (ByteStream.move_error hmove n)
              (hwritten.symm.le.trans (ByteStream.reach_mono hn))
          have hhere := hstops (written + p.length) (by omega)
          rw [hhere, Nat.sub_self, List.take_zero, List.append_nil]
          exact ⟨rfl, fun h => (by cases h), fun _ n hn => hstops n (by omega)⟩
      | ok nwrite =>
          obtain ⟨hnwrite, hmost, hreach⟩ := ByteStream.move_ok hmove hpos
          dsimp only
          rw [writeCall_set]
          have hlength : (p.drop nwrite).length = p.length - nwrite := List.length_drop
          have htotal : written + nwrite + (p.drop nwrite).length = written + p.length := by omega
          obtain ⟨hfiles, hdone, hstopped⟩ := @ih (p.drop nwrite) (content ++ p.take nwrite)
            (written + nwrite) (by omega) hreach
          rw [htotal] at hfiles hdone hstopped
          refine ⟨hfiles.trans ?_, hdone, hstopped⟩
          have hpast : written + nwrite ≤ faults.writes.reach (written + p.length) := by
            rw [← hreach]
            exact ByteStream.reach_mono (by omega)
          have hsplit : faults.writes.reach (written + p.length) - written =
              nwrite + (faults.writes.reach (written + p.length) - (written + nwrite)) := by omega
          rw [List.append_assoc, hsplit, List.take_add]

/-- How much of a preimage is written back. -/
def UndoFaults.carried (content : Text) : Text :=
  content.take (faults.writes.reach (faults.reads.reach content.length))

/-- The outer loop writes back what the streams carry. -/
theorem copyBack_spec {dataPath : Text} (hne : dataPath ≠ target) {data : RegularFile}
    (hdata : base dataPath = some (.regular data)) (rounds : ℕ) {total : ℕ}
    (hrounds : data.content.length < total + rounds) (htotal : total ≤ data.content.length)
    (hread : faults.reads.reach total = total) (hwritten : faults.writes.reach total = total) :
    (copyBack faults dataPath target rounds total
        (base.set target (some (.regular ⟨mode, data.content.take total⟩)))).2 =
      base.set target (some (.regular ⟨mode, faults.carried data.content⟩)) := by
  induction rounds generalizing total with
  | zero => omega
  | succ rounds ih =>
      have hcontent : readCall dataPath
          (base.set target (some (.regular ⟨mode, data.content.take total⟩))) =
          .ok data.content := by
        unfold readCall
        rw [Files.set_of_ne _ _ hne, hdata]
      unfold copyBack
      rw [hcontent]
      have hpast : total ≤ faults.reads.reach data.content.length := by
        rw [← hread]
        exact ByteStream.reach_mono htotal
      have hpast' : total ≤ faults.writes.reach (faults.reads.reach data.content.length) := by
        rw [← hwritten]
        exact ByteStream.reach_mono hpast
      have hmost := @ByteStream.reach_le faults.writes (faults.reads.reach data.content.length)
      have hmost' := @ByteStream.reach_le faults.reads data.content.length
      unfold UndoFaults.carried at ih ⊢
      cases hmove : faults.reads.move total 8192 with
      | error e =>
          have hstops := ByteStream.move_error hmove data.content.length
          have hend : faults.writes.reach (faults.reads.reach data.content.length) = total := by
            omega
          rw [hend]
      | ok nread =>
          obtain ⟨hnread, -, hreach⟩ := ByteStream.move_ok hmove (by omega)
          dsimp only
          have hlength : ((data.content.drop total).take nread).length =
              min nread (data.content.length - total) := by
            rw [List.length_take, List.length_drop]
          by_cases hnil : (data.content.drop total).take nread = []
          · rw [if_pos hnil]
            rw [hnil, List.length_nil] at hlength
            have hend : faults.writes.reach (faults.reads.reach data.content.length) = total := by
              omega
            rw [hend]
          rw [if_neg hnil]
          obtain ⟨chunk, hchunk⟩ : ∃ chunk, chunk = (data.content.drop total).take nread := ⟨_, rfl⟩
          rw [← hchunk] at hnil hlength ⊢
          have hpos := List.length_pos_iff.mpr hnil
          have hjoined (k : ℕ) (hk : k ≤ chunk.length) :
              data.content.take total ++ chunk.take k = data.content.take (total + k) := by
            rw [hchunk, List.take_take, List.take_add, Nat.min_eq_left (by omega)]
          have hread' : faults.reads.reach (total + chunk.length) = total + chunk.length :=
            @ByteStream.reach_of_le _ _ (total + nread) (by rw [hreach]; omega)
          have hchunkread : total + chunk.length ≤ faults.reads.reach data.content.length := by
            rw [← hread']
            exact ByteStream.reach_mono (by omega)
          obtain ⟨hfiles, hdone, hstopped⟩ := @writeBack_spec faults target base mode chunk.length
            chunk (data.content.take total) total le_rfl hwritten
          have hend := @ByteStream.reach_le faults.writes (total + chunk.length)
          have hstart : total ≤ faults.writes.reach (total + chunk.length) := by
            rw [← hwritten]
            exact ByteStream.reach_mono (by omega)
          rw [hjoined _ (by omega), Nat.add_sub_cancel' hstart] at hfiles
          generalize writeBack faults target chunk.length chunk total
            (base.set target (some (.regular ⟨mode, data.content.take total⟩))) = back
            at hfiles hdone hstopped
          obtain ⟨e | done, fs'⟩ := back
          · -- a write has stopped inside the chunk
            rw [hstopped (fun h => by cases h) _ hchunkread]
            exact hfiles
          · have hwritten' := hdone rfl
            dsimp only at hfiles ⊢
            rw [hwritten'] at hfiles
            rw [hfiles]
            exact ih (by omega) (by omega) hread' hwritten'

/-! ## The target -/

/-- What a restore that fails behind the opening of its target leaves in it: nothing without the
preimage, or the part of the preimage that the streams carry. -/
def UndoFaults.leftBehind (dir : Text) (seq : ℕ) (target : Text) (fs : Files) : Text :=
  match faults.act (.openPreimage seq), fs (entryFile dir seq dataName) with
  | none, some (.regular data) =>
      if entryFile dir seq dataName = target then [] else faults.carried data.content
  | _, _ => []

theorem performUndo_unlink (dir : Text) (fs : Files) :
    (performUndo faults dir (.act (.unlinkTarget target)) fs).1 ≠ .ok () →
      (performUndo faults dir (.act (.unlinkTarget target)) fs).2 = fs := by
  unfold performUndo
  dsimp only
  cases faults.act (.unlinkTarget target) with
  | some fault => exact fun _ => rfl
  | none =>
      intro h
      dsimp only [performAct] at h ⊢
      unfold unlinkCall at h ⊢
      split at h
      · rfl
      · rfl
      · exact absurd rfl h

/-- The target opens, and is empty, or nothing has happened. -/
theorem performUndo_open (dir : Text) (m : ℕ) (fs : Files) :
    (∃ e, performUndo faults dir (.act (.openTarget target m)) fs = (.error e, fs)) ∨
      ∃ file, openCreate fs target (Fin.ofNat 4096 m) = some file ∧
        performUndo faults dir (.act (.openTarget target m)) fs =
          (.ok (), fs.set target (some (.regular ⟨file.mode, []⟩))) := by
  unfold performUndo
  dsimp only
  cases faults.act (.openTarget target m) with
  | some fault => exact Or.inl ⟨fault.2, rfl⟩
  | none =>
      dsimp only [performAct, createEmptyCall]
      cases openCreate fs target (Fin.ofNat 4096 m) with
      | none => exact Or.inl ⟨.eisdir, rfl⟩
      | some file => exact Or.inr ⟨file, rfl, rfl⟩

/-- An empty preimage leaves the target empty. -/
theorem copyBack_nil {dataPath : Text} {fs : Files} {data : RegularFile}
    (hdata : fs dataPath = some (.regular data)) (hnil : data.content = []) (rounds total : ℕ) :
    (copyBack faults dataPath target rounds total fs).2 = fs := by
  have hcontent : readCall dataPath fs = .ok [] := by
    unfold readCall
    rw [hdata, ← hnil]
  cases rounds with
  | zero => rfl
  | succ rounds =>
      unfold copyBack
      rw [hcontent]
      cases faults.reads.move total 8192 with
      | error e => rfl
      | ok nread =>
          dsimp only
          rw [List.drop_nil, List.take_nil, if_pos rfl]

/-- The preimage opens where it is a file. -/
theorem performUndo_preimage (dir : Text) (seq : ℕ) (fs : Files) :
    (∃ e, performUndo faults dir (.act (.openPreimage seq)) fs = (.error e, fs) ∧
        ∀ data, faults.act (.openPreimage seq) = none →
          fs (entryFile dir seq dataName) ≠ some (.regular data)) ∨
      ∃ data, faults.act (.openPreimage seq) = none ∧
        fs (entryFile dir seq dataName) = some (.regular data) ∧
        performUndo faults dir (.act (.openPreimage seq)) fs = (.ok (), fs) := by
  unfold performUndo
  dsimp only
  cases hact : faults.act (.openPreimage seq) with
  | some fault => exact Or.inl ⟨fault.2, rfl, fun _ h => by cases h⟩
  | none =>
      dsimp only [performAct, readCall]
      cases hdata : fs (entryFile dir seq dataName) with
      | none => exact Or.inl ⟨.enoent, rfl, fun _ _ h => by cases h⟩
      | some node =>
          cases node with
          | regular data => exact Or.inr ⟨data, rfl, rfl, rfl⟩
          | directory => exact Or.inl ⟨.eisdir, rfl, fun _ _ h => by cases h⟩
          | other => exact Or.inl ⟨.eisdir, rfl, fun _ _ h => by cases h⟩

/-- The preimage goes into a target that was emptied. -/
theorem copyBack_leftBehind (dir : Text) (seq : ℕ) {fs : Files} {data : RegularFile}
    (hact : faults.act (.openPreimage seq) = none)
    (hdata : fs.set target (some (.regular ⟨mode, []⟩)) (entryFile dir seq dataName) =
      some (.regular data)) :
    (copyBack faults (entryFile dir seq dataName) target (data.content.length + 1) 0
        (fs.set target (some (.regular ⟨mode, []⟩)))).2 =
      fs.set target (some (.regular ⟨mode, faults.leftBehind dir seq target fs⟩)) := by
  unfold UndoFaults.leftBehind
  rw [hact]
  by_cases hsame : entryFile dir seq dataName = target
  · have hempty : data.content = [] := by
      rw [hsame, Files.set_self] at hdata
      cases hdata
      rfl
    rw [copyBack_nil faults hdata hempty]
    cases fs (entryFile dir seq dataName) with
    | none => rfl
    | some node =>
        cases node with
        | regular held =>
            dsimp only
            rw [if_pos hsame]
        | directory => rfl
        | other => rfl
  · rw [Files.set_of_ne _ _ hsame] at hdata
    rw [hdata]
    dsimp only
    rw [if_neg hsame]
    have hzero (b : ByteStream) : b.reach 0 = 0 := Nat.le_zero.mp ByteStream.reach_le
    have hcopied := @copyBack_spec faults target fs mode _ hsame data hdata
      (data.content.length + 1) 0 (by omega) (Nat.zero_le _) (hzero _) (hzero _)
    rw [List.take_zero] at hcopied
    exact hcopied

/-- The target behind a restore that fails. -/
theorem restoreWith_fails (dir : Text) (seq : ℕ) (m : UndoMeta) (fs : Files)
    (hfails : (restoreWith faults dir seq m target fs).1.1 = false) :
    (restoreWith faults dir seq m target fs).2 = fs ∧
        (m.existed = 0 ∨
          (performUndo faults dir (.act (.openTarget target m.mode)) fs).1 ≠ .ok ()) ∨
      ∃ file, m.existed ≠ 0 ∧ openCreate fs target (Fin.ofNat 4096 m.mode) = some file ∧
        (performUndo faults dir (.act (.openTarget target m.mode)) fs).1 = .ok () ∧
        (restoreWith faults dir seq m target fs).2 = fs.set target
          (some (.regular ⟨file.mode, faults.leftBehind dir seq target fs⟩)) := by
  unfold restoreWith at hfails ⊢
  by_cases hexisted : m.existed = 0
  · rw [if_pos hexisted] at hfails ⊢
    refine Or.inl ⟨?_, Or.inl hexisted⟩
    have hunlink := @performUndo_unlink faults target dir fs
    generalize performUndo faults dir (.act (.unlinkTarget target)) fs = unlinked
      at hfails hunlink ⊢
    obtain ⟨e | done, fs'⟩ := unlinked
    · have hsame : fs' = fs := hunlink fun h => by cases h
      cases e <;> exact hsame
    · cases hfails
  rw [if_neg hexisted] at hfails ⊢
  rcases @performUndo_open faults target dir m.mode fs with ⟨e, hopen⟩ | ⟨file, hfile, hopen⟩
  · rw [hopen]
    exact Or.inl ⟨rfl, Or.inr fun h => by cases h⟩
  refine Or.inr ⟨file, hexisted, hfile, by rw [hopen], ?_⟩
  rw [hopen] at hfails ⊢
  dsimp only at hfails ⊢
  obtain ⟨truncated, htruncated⟩ : ∃ truncated, truncated =
      fs.set target (some (.regular ⟨file.mode, []⟩)) := ⟨_, rfl⟩
  rw [← htruncated] at hfails ⊢
  rcases performUndo_preimage faults dir seq truncated with ⟨e, hpreimage, hnone⟩ |
    ⟨data, hact, hdata, hpreimage⟩
  · rw [hpreimage, htruncated]
    have hleft : faults.leftBehind dir seq target fs = [] := by
      unfold UndoFaults.leftBehind
      split
      · rename_i data hact hdata
        by_cases hsame : entryFile dir seq dataName = target
        · rw [if_pos hsame]
        · refine absurd ?_ (hnone data hact)
          rw [htruncated, Files.set_of_ne _ _ hsame]
          exact hdata
      · rfl
    rw [hleft]
  · rw [hpreimage] at hfails ⊢
    have hlength : fileLength (entryFile dir seq dataName) truncated = data.content.length := by
      unfold fileLength
      rw [hdata]
    rw [htruncated] at hdata
    have hcopied := copyBack_leftBehind faults dir seq hact hdata
    rw [← htruncated] at hcopied
    dsimp only at hfails ⊢
    rw [hlength] at hfails ⊢
    generalize copyBack faults (entryFile dir seq dataName) target (data.content.length + 1) 0
      truncated = copied at hfails hcopied ⊢
    obtain ⟨text | done, fs'⟩ := copied
    · exact hcopied
    · dsimp only at hfails hcopied ⊢
      unfold performUndo at hfails ⊢
      dsimp only at hfails ⊢
      cases hchmod : faults.act (.chmodTarget target m.mode) with
      | some fault => exact hcopied
      | none =>
          rw [hchmod] at hfails
          cases hfails

/-! ## The whole call -/

/-- No file has changed, and neither has the stack; the undo directory itself may be new. -/
def Untouched (dir : Text) (fs fs' : Files) : Prop := ∀ path, path ≠ dir → fs' path = fs path

/-- Nothing is removed, or the target cannot be opened, or it has held all along what a restore
that fails leaves in it. -/
def UndoFaults.Harmless (dir : Text) (fs : Files) : Prop :=
  match findEntry faults dir fs with
  | (.error _, _) => True
  | (.ok (seq, m, target), fs') =>
      m.existed = 0 ∨ (performUndo faults dir (.act (.openTarget target m.mode)) fs').1 ≠ .ok () ∨
        ∃ held, fs target = some (.regular held) ∧
          held.content = faults.leftBehind dir seq target fs'

theorem Untouched.refl (dir : Text) (fs : Files) : Untouched dir fs fs := fun _ _ => rfl

/-- Where the directory is there in the end, at most its own node is new. -/
theorem ensureDirCalls_untouched (dir : Text) (fs : Files) :
    Untouched dir fs (ensureDirCalls.eval (performUndo faults dir) fs).2 ∧
      ((ensureDirCalls.eval (performUndo faults dir) fs).1 = .ok () →
        (ensureDirCalls.eval (performUndo faults dir) fs).2 dir = some .directory) := by
  obtain ⟨made, hmade⟩ : ∃ made, made = performUndo faults dir (.act .makeDir) fs := ⟨_, rfl⟩
  have hmkdir : Untouched dir fs made.2 ∧ (made.1 = .ok () → made.2 dir = some .directory) := by
    rw [hmade]
    unfold performUndo
    dsimp only
    cases faults.act .makeDir with
    | some fault => exact ⟨Untouched.refl dir fs, fun h => by cases h⟩
    | none =>
        dsimp only [performAct, mkdirCall]
        cases fs dir with
        | none => exact ⟨fun _ hpath => Files.set_of_ne _ _ hpath, fun _ => Files.set_self _ _ _⟩
        | some node => exact ⟨Untouched.refl dir fs, fun h => by cases h⟩
  have hact : (act .makeDir).eval (performUndo faults dir) fs = made := hmade.symm
  unfold ensureDirCalls
  rw [Prog.eval_bind, hact]
  obtain ⟨e | done, fs'⟩ := made
  · cases e with
    | eexist =>
        have hlook : (look .statDir).eval (performUndo faults dir) fs' =
            (if faults.look .statDir then none else fs' dir, fs') := rfl
        dsimp only
        rw [Prog.eval_bind, hlook]
        by_cases hfails : faults.look .statDir = true
        · rw [if_pos hfails]
          exact ⟨hmkdir.1, fun h => by cases h⟩
        · rw [if_neg hfails]
          cases hnode : fs' dir with
          | none => exact ⟨hmkdir.1, fun h => by cases h⟩
          | some node =>
              cases node with
              | regular file => exact ⟨hmkdir.1, fun h => by cases h⟩
              | directory => exact ⟨hmkdir.1, fun _ => hnode⟩
              | other => exact ⟨hmkdir.1, fun h => by cases h⟩
    | enoent => exact ⟨hmkdir.1, fun h => by cases h⟩
    | eisdir => exact ⟨hmkdir.1, fun h => by cases h⟩
    | other text => exact ⟨hmkdir.1, fun h => by cases h⟩
  · exact ⟨hmkdir.1, fun _ => hmkdir.2 rfl⟩

theorem findEntry_untouched (dir : Text) (fs : Files) :
    Untouched dir fs (findEntry faults dir fs).2 ∧
      ∀ found, (findEntry faults dir fs).1 = .ok found →
        (findEntry faults dir fs).2 dir = some .directory := by
  have hensured := ensureDirCalls_untouched faults dir fs
  unfold findEntry
  generalize ensureDirCalls.eval (performUndo faults dir) fs = ensured at hensured ⊢
  obtain ⟨text | done, fs'⟩ := ensured
  · exact ⟨hensured.1, fun found h => by cases h⟩
  · dsimp only at hensured ⊢
    cases ((latestEntryCalls (latestSeqCalls.eval (performUndo faults dir) fs').1).eval
        (performUndo faults dir) fs').1 with
    | zero => exact ⟨hensured.1, fun found h => by cases h⟩
    | succ seq => exact ⟨hensured.1, fun _ _ => hensured.2 rfl⟩

/-- An undo that fails has changed nothing exactly where it does no harm. -/
theorem undoLast_keeps_iff (dir : Text) (fs : Files)
    (hfails : (undoLastWith faults dir fs).1.1 = false) :
    Untouched dir fs (undoLastWith faults dir fs).2 ↔ faults.Harmless dir fs := by
  obtain ⟨hkept, hdir⟩ := findEntry_untouched faults dir fs
  unfold undoLastWith at hfails ⊢
  unfold UndoFaults.Harmless
  generalize findEntry faults dir fs = found at hfails hkept hdir ⊢
  obtain ⟨reply | ⟨seq, m, target⟩, fs'⟩ := found
  · exact iff_of_true hkept trivial
  dsimp only at hfails hkept hdir ⊢
  cases hreply : (restoreWith faults dir seq m target fs').1.1 with
  | true =>
      rw [hreply, if_pos rfl] at hfails
      cases hfails
  | false =>
      rw [if_neg Bool.false_ne_true]
      rcases restoreWith_fails faults dir seq m fs' hreply with ⟨hsame, hclosed⟩ |
        ⟨file, hexisted, hfile, hopen, hleft⟩
      · rw [hsame]
        exact iff_of_true hkept (or_assoc.mp (Or.inl hclosed))
      · have hne : target ≠ dir := by
          rintro rfl
          unfold openCreate at hfile
          rw [hdir _ rfl] at hfile
          cases hfile
        rw [hleft]
        constructor
        · intro huntouched
          have htarget := huntouched target hne
          rw [Files.set_self] at htarget
          exact Or.inr (Or.inr ⟨_, htarget.symm, rfl⟩)
        · rintro (hzero | hfailed | ⟨held, hheld, hcontent⟩)
          · exact absurd hzero hexisted
          · exact absurd hopen hfailed
          · have hmode : file.mode = held.mode := by
              unfold openCreate at hfile
              rw [hkept target hne, hheld] at hfile
              cases hfile
              rfl
            intro path hpath
            by_cases hthis : path = target
            · rw [hthis, Files.set_self, hheld, hmode, ← hcontent]
            · rw [Files.set_of_ne _ _ hthis]
              exact hkept path hpath

end

/-! ## Without faults -/

theorem performUndo_noUndoFaults (dir : Text) : performUndo noUndoFaults dir = perform dir := by
  funext call fs
  rcases call with a | q | q <;> rfl

theorem writeBack_works (target : Text) (rounds : ℕ) (p : Text) (written : ℕ) (fs : Files) :
    (writeBack noUndoFaults target rounds p written fs).1 = .ok () := by
  induction rounds generalizing p written fs with
  | zero => rfl
  | succ rounds ih =>
      unfold writeBack
      split
      · rfl
      · exact ih _ _ _

theorem copyBack_works {dataPath target : Text} {base : Files} {mode : Fin 4096}
    (hne : dataPath ≠ target) {data : RegularFile}
    (hdata : base dataPath = some (.regular data)) (rounds total : ℕ) (content : Text) :
    (copyBack noUndoFaults dataPath target rounds total
      (base.set target (some (.regular ⟨mode, content⟩)))).1 = .ok () := by
  induction rounds generalizing total content with
  | zero => rfl
  | succ rounds ih =>
      have hread : readCall dataPath (base.set target (some (.regular ⟨mode, content⟩))) =
          .ok data.content := by
        unfold readCall
        rw [Files.set_of_ne _ _ hne, hdata]
      unfold copyBack
      rw [hread]
      obtain ⟨nread, hmove⟩ : ∃ nread, noUndoFaults.reads.move total 8192 = .ok nread := ⟨_, rfl⟩
      rw [hmove]
      dsimp only
      generalize (data.content.drop total).take nread = chunk
      split
      · rfl
      · have hworks := writeBack_works target chunk.length chunk total
          (base.set target (some (.regular ⟨mode, content⟩)))
        obtain ⟨hfiles, -, -⟩ := @writeBack_spec noUndoFaults target base mode chunk.length chunk
          content total le_rfl rfl
        generalize writeBack noUndoFaults target chunk.length chunk total
          (base.set target (some (.regular ⟨mode, content⟩))) = back at hworks hfiles
        obtain ⟨e | done, fs'⟩ := back
        · cases hworks
        · dsimp only at hfiles ⊢
          rw [hfiles]
          exact ih _ _

/-- The loops together are the one call that copies a preimage back. -/
theorem copyBack_perform (dir : Text) (seq : ℕ) {target : Text} {mode : Fin 4096} {fs : Files}
    {data : RegularFile}
    (hdata : fs.set target (some (.regular ⟨mode, []⟩)) (entryFile dir seq dataName) =
      some (.regular data)) :
    copyBack noUndoFaults (entryFile dir seq dataName) target (data.content.length + 1) 0
        (fs.set target (some (.regular ⟨mode, []⟩))) =
      (.ok (), (performAct dir (.copyPreimage seq target)
        (fs.set target (some (.regular ⟨mode, []⟩)))).2) ∧
      (performAct dir (.copyPreimage seq target)
        (fs.set target (some (.regular ⟨mode, []⟩)))).1 = .ok () := by
  have hread : readCall (entryFile dir seq dataName)
      (fs.set target (some (.regular ⟨mode, []⟩))) = .ok data.content := by
    unfold readCall
    rw [hdata]
  dsimp only [performAct]
  rw [hread]
  dsimp only
  rw [writeCall_set, copyBytes_eq, List.nil_append]
  refine ⟨?_, rfl⟩
  by_cases hsame : entryFile dir seq dataName = target
  · have hempty : data.content = [] := by
      rw [hsame, Files.set_self] at hdata
      cases hdata
      rfl
    rw [hempty] at hread ⊢
    unfold copyBack
    rw [hread]
    rfl
  · rw [Files.set_of_ne _ _ hsame] at hdata
    have hfiles := @copyBack_spec noUndoFaults target fs mode _ hsame data hdata
      (data.content.length + 1) 0 (by omega) (Nat.zero_le _) rfl rfl
    have hcarried : noUndoFaults.carried data.content = data.content := List.take_length
    rw [List.take_zero, hcarried] at hfiles
    exact Prod.ext (copyBack_works hsame hdata _ _ _) hfiles

theorem restoreWith_noUndoFaults (dir : Text) (seq : ℕ) (m : UndoMeta) (target : Text)
    (fs : Files) : restoreWith noUndoFaults dir seq m target fs =
      (restoreEntryCalls seq m target).eval (perform dir) fs := by
  unfold restoreWith restoreEntryCalls
  rw [performUndo_noUndoFaults]
  by_cases hexisted : m.existed = 0
  · rw [if_pos hexisted, if_pos hexisted, Prog.eval_bind, eval_act]
    have hperform : perform dir (.act (.unlinkTarget target)) fs =
        performAct dir (.unlinkTarget target) fs := rfl
    rw [hperform]
    generalize performAct dir (.unlinkTarget target) fs = unlinked
    obtain ⟨e | done, fs'⟩ := unlinked
    · cases e <;> rfl
    · rfl
  rw [if_neg hexisted, if_neg hexisted, Prog.eval_bind, eval_act]
  dsimp only [perform, performAct, createEmptyCall]
  cases openCreate fs target (Fin.ofNat 4096 m.mode) with
  | none => rfl
  | some file =>
      dsimp only
      rw [Prog.eval_bind, eval_act]
      dsimp only [performAct, readCall]
      cases hdata : fs.set target (some (.regular ⟨file.mode, []⟩)) (entryFile dir seq dataName) with
      | none => rfl
      | some node =>
          cases node with
          | directory => rfl
          | other => rfl
          | regular data =>
              obtain ⟨hcopied, hok⟩ := copyBack_perform dir seq hdata
              have hlength : fileLength (entryFile dir seq dataName)
                  (fs.set target (some (.regular ⟨file.mode, []⟩))) = data.content.length := by
                unfold fileLength
                rw [hdata]
              dsimp only [Except.map]
              rw [hlength, hcopied, Prog.eval_bind, eval_act, hok]
              rfl

theorem undoLastWith_noUndoFaults (dir : Text) (fs : Files) :
    undoLastWith noUndoFaults dir fs = undoLastCalls.eval (perform dir) fs := by
  unfold undoLastWith findEntry undoLastCalls
  rw [performUndo_noUndoFaults, Prog.eval_bind]
  generalize ensureDirCalls.eval (perform dir) fs = ensured
  obtain ⟨text | done, fs'⟩ := ensured
  · rfl
  dsimp only
  rw [Prog.eval_bind, latestSeqCalls_eval, Prog.eval_bind, latestEntryCalls_eval]
  dsimp only
  cases latestEntry dir fs' (rashUndoLatestSeq dir fs') with
  | zero => rfl
  | succ seq =>
      dsimp only
      unfold readUndoEntry undoEntryCalls
      rw [performUndo_noUndoFaults, Prog.eval_bind, eval_fetch]
      dsimp only [perform]
      cases performFetch dir fs' (.readPath (seq + 1)) with
      | error e => rfl
      | ok target =>
          dsimp only
          rw [Prog.eval_bind, eval_fetch]
          dsimp only
          cases performFetch dir fs' (.readMeta (seq + 1)) with
          | error e => rfl
          | ok content =>
              dsimp only
              rw [Prog.eval_bind, ← restoreWith_noUndoFaults]
              cases (restoreWith noUndoFaults dir (seq + 1) (rashUndoReadMeta content) target
                fs').1.1 with
              | false => rfl
              | true =>
                  rw [if_pos rfl, if_pos rfl, Prog.eval_bind, Prog.eval_bind]
                  rfl

/-! ## A preimage that is gone -/

/-- A file is snapshotted and edited, and the data of the snapshot is removed. -/
def lostPreimage : Files :=
  (outputs (undoStep undoRoot) (.start (Files.set (fun _ => none) editedPath
      ((edited 'a').map .regular)))
    [.snapshotFile none none editedPath, .external editedPath (edited 'b'),
      .external (entryFile undoRoot 1 dataName) none]).2.files

/-- The undo says that the data is missing, and has emptied the file. -/
theorem undoLast_empties : ¬ ∀ (faults : UndoFaults) (dir : Text) (fs : Files),
    (undoLastWith faults dir fs).1.1 = false →
      Untouched dir fs (undoLastWith faults dir fs).2 := by
  intro h
  have hkept := h noUndoFaults undoRoot lostPreimage (by decide) editedPath (by decide)
  have hheld : lostPreimage editedPath = (edited 'b').map .regular := by decide
  have hleft : (undoLastWith noUndoFaults undoRoot lostPreimage).2 editedPath =
      (edited 'b').map fun file => .regular ⟨file.mode, []⟩ := by decide
  rw [hheld, hleft] at hkept
  exact absurd hkept (by decide)

/-- Where the target of an undo has become a directory nothing happens. -/
theorem undoLast_keeps_iff_directory :
    let fs := lostPreimage.set editedPath (some .directory)
    Untouched undoRoot fs (undoLastWith noUndoFaults undoRoot fs).2 ↔
      noUndoFaults.Harmless undoRoot fs :=
  undoLast_keeps_iff noUndoFaults undoRoot _ (by decide)

end Rash
