import Mathlib
import Rash.Hooks.Spawn

/-!
# A spawned child is read to its end

Whatever the order of the steps: what the call returns is the beginning of what the child has
written to each stream, no step ever has to wait for ever, and only finitely many are taken.
-/

namespace Rash

open Machine

namespace Spawn

/-! ## What every step keeps -/

/-- The shell has read a part of what was written, and the rest is in the pipe. -/
def Captured (s : State) (stream : Stream) : Prop :=
  ∃ taken, s.written stream = taken ++ (s.pipes stream).contents ∧
    s.buffers stream = taken.take outputMax

/-- The end of the stream has been read. -/
def Finished (s : State) (stream : Stream) : Prop :=
  (s.pipes stream).contents = [] ∧ (s.pipes stream).writable = false

/-- What the shell knows of the pipes where it stands -/
def PhaseHolds (s : State) : Prop :=
  match s.phase with
  | .reading stream thenErr => s.ready stream = true ∧
      (thenErr = true → stream = .out ∧ s.ready .err = true)
  | .waiting => ∀ stream, s.isOpen stream = false
  | .returned rc => (∀ stream, s.isOpen stream = false) ∧ ∃ ended, s.ended = some ended ∧ rc = ended.rc
  | _ => True

structure Sound (s : State) : Prop where
  captured : ∀ stream, Captured s stream
  finished : ∀ stream, s.isOpen stream = false → Finished s stream
  ended : s.ended.isSome = true → ∀ stream, (s.pipes stream).writable = false
  phase : PhaseHolds s

theorem sound_initial (script : List ChildAct) : Sound (initial script) where
  captured _ := ⟨[], rfl, rfl⟩
  finished _ h := by cases h
  ended h := by cases h
  phase := trivial

theorem ready_iff (s : State) (stream : Stream) :
    s.ready stream = true ↔ s.isOpen stream = true ∧
      ((s.pipes stream).contents ≠ [] ∨ (s.pipes stream).writable = false) := by
  simp [State.ready]

/-- A step of the child: it adds to what is in the pipes, or takes the right to write away. -/
structure Childs (s s' : State) : Prop where
  isOpen : s'.isOpen = s.isOpen
  buffers : s'.buffers = s.buffers
  phase : s'.phase = s.phase
  appended : ∀ stream, ∃ bytes, s'.written stream = s.written stream ++ bytes ∧
    (s'.pipes stream).contents = (s.pipes stream).contents ++ bytes ∧
    ((s.pipes stream).writable = false → bytes = [])
  writable : ∀ stream, (s.pipes stream).writable = false → (s'.pipes stream).writable = false

theorem Childs.ready {s s' : State} (h : Childs s s') {stream : Stream}
    (hready : s.ready stream = true) : s'.ready stream = true := by
  rw [ready_iff] at hready ⊢
  obtain ⟨bytes, -, hcontents, -⟩ := h.appended stream
  refine ⟨by rw [h.isOpen]; exact hready.1, ?_⟩
  rcases hready.2 with hfull | hclosed
  · left
    rw [hcontents]
    exact List.append_ne_nil_of_left_ne_nil hfull bytes
  · exact Or.inr (h.writable stream hclosed)

theorem Sound.childs {s s' : State} (h : Sound s) (hchild : Childs s s')
    (hended : s'.ended.isSome = true → ∀ stream, (s'.pipes stream).writable = false)
    (hkept : ∀ ended, s.ended = some ended → s'.ended = some ended) : Sound s' where
  captured stream := by
    obtain ⟨taken, hwritten, hbuffer⟩ := h.captured stream
    obtain ⟨bytes, hwritten', hcontents, -⟩ := hchild.appended stream
    exact ⟨taken, by rw [hwritten', hwritten, hcontents, List.append_assoc],
      by rw [hchild.buffers, hbuffer]⟩
  finished stream hclosed := by
    rw [hchild.isOpen] at hclosed
    obtain ⟨hempty, hwritable⟩ := h.finished stream hclosed
    obtain ⟨bytes, -, hcontents, hnone⟩ := hchild.appended stream
    exact ⟨by rw [hcontents, hempty, hnone hwritable]; rfl, hchild.writable stream hwritable⟩
  ended := hended
  phase := by
    have hphase := h.phase
    unfold PhaseHolds at hphase ⊢
    rw [hchild.phase]
    cases hs : s.phase with
    | poll => trivial
    | reading stream thenErr =>
        rw [hs] at hphase
        exact ⟨hchild.ready hphase.1, fun hthen =>
          ⟨(hphase.2 hthen).1, hchild.ready (hphase.2 hthen).2⟩⟩
    | waiting =>
        rw [hs] at hphase
        intro stream
        rw [hchild.isOpen]
        exact hphase stream
    | returned rc =>
        rw [hs] at hphase
        obtain ⟨hopen, ended, hended', hrc⟩ := hphase
        exact ⟨fun stream => by rw [hchild.isOpen]; exact hopen stream, ended, hkept ended hended', hrc⟩
    | failed => trivial

/-! ## The steps of the child -/

theorem childWrite_spec {capacity n : ℕ} {s s' : State} (h : childWrite capacity n s = some s') :
    ∃ stream bytes rest, s.script = .write stream bytes :: rest ∧
      (s.pipes stream).writable = true ∧ 0 < n ∧ n ≤ bytes.length ∧
      s' = { s with
        script := if n = bytes.length then rest else .write stream (bytes.drop n) :: rest
        pipes := Function.update s.pipes stream
          { s.pipes stream with contents := (s.pipes stream).contents ++ bytes.take n }
        written := Function.update s.written stream (s.written stream ++ bytes.take n) } := by
  unfold childWrite at h
  split at h
  · next stream bytes rest hscript =>
    dsimp only at h
    split at h
    · next hroom => exact ⟨stream, bytes, rest, hscript, hroom.1, hroom.2.1, hroom.2.2.1,
        (Option.some.inj h).symm⟩
    · cases h
  · cases h

theorem childIdle_spec {s s' : State} (h : childIdle s = some s') :
    ∃ stream bytes rest, s.script = .write stream bytes :: rest ∧
      (bytes = [] ∨ (s.pipes stream).writable = false) ∧ s' = { s with script := rest } := by
  unfold childIdle at h
  split at h
  · next stream bytes rest hscript =>
    split at h
    · next hidle => exact ⟨stream, bytes, rest, hscript, hidle, (Option.some.inj h).symm⟩
    · cases h
  · cases h

theorem childClose_spec {s s' : State} (h : childClose s = some s') :
    ∃ stream rest, s.script = .close stream :: rest ∧ s' = { s with
      script := rest
      pipes := Function.update s.pipes stream { s.pipes stream with writable := false } } := by
  unfold childClose at h
  split at h
  · next stream rest hscript => exact ⟨stream, rest, hscript, (Option.some.inj h).symm⟩
  · cases h

theorem childs_write {s : State} {stream : Stream} {bytes : List UInt8} {script : List ChildAct}
    (hwritable : (s.pipes stream).writable = true) :
    Childs s { s with
      script := script
      pipes := Function.update s.pipes stream
        { s.pipes stream with contents := (s.pipes stream).contents ++ bytes }
      written := Function.update s.written stream (s.written stream ++ bytes) } where
  isOpen := rfl
  buffers := rfl
  phase := rfl
  appended other := by
    by_cases h : other = stream
    · subst h
      refine ⟨bytes, by simp, by simp, fun hclosed => ?_⟩
      rw [hwritable] at hclosed
      cases hclosed
    · exact ⟨[], by simp [h], by simp [h], fun _ => rfl⟩
  writable other hclosed := by
    by_cases h : other = stream
    · subst h
      rw [hwritable] at hclosed
      cases hclosed
    · simpa [h] using hclosed

theorem childs_idle (s : State) (script : List ChildAct) : Childs s { s with script := script } where
  isOpen := rfl
  buffers := rfl
  phase := rfl
  appended _ := ⟨[], by simp, by simp, fun _ => rfl⟩
  writable _ h := h

theorem childs_close (s : State) (stream : Stream) (script : List ChildAct) :
    Childs s { s with
      script := script
      pipes := Function.update s.pipes stream { s.pipes stream with writable := false } } where
  isOpen := rfl
  buffers := rfl
  phase := rfl
  appended other := by
    by_cases h : other = stream
    · subst h
      exact ⟨[], by simp, by simp, fun _ => rfl⟩
    · exact ⟨[], by simp, by simp [h], fun _ => rfl⟩
  writable other hclosed := by
    by_cases h : other = stream
    · subst h
      simp
    · simpa [h] using hclosed

theorem childs_end (s : State) (ended : Ended) : Childs s (s.endChild ended) where
  isOpen := rfl
  buffers := rfl
  phase := rfl
  appended _ := ⟨[], by simp [State.endChild], by simp [State.endChild], fun _ => rfl⟩
  writable _ _ := rfl

/-! ## The steps of the shell -/

theorem Sound.rephase {s : State} (h : Sound s) {phase : Phase}
    (hphase : PhaseHolds { s with phase := phase }) : Sound { s with phase := phase } :=
  ⟨h.captured, h.finished, h.ended, hphase⟩

theorem shellPoll_spec {s s' : State} (h : shellPoll s = some s') :
    ∃ phase, s' = { s with phase := phase } ∧
      ((phase = .waiting ∧ ∀ stream, s.isOpen stream = false) ∨
        ∃ stream thenErr, phase = .reading stream thenErr ∧ s.ready stream = true ∧
          (thenErr = true → stream = .out ∧ s.ready .err = true)) := by
  unfold shellPoll at h
  split at h
  · next hclosed =>
    refine ⟨.waiting, (Option.some.inj h).symm, Or.inl ⟨rfl, fun stream => ?_⟩⟩
    cases stream
    · exact hclosed.1
    · exact hclosed.2
  · split at h
    · next hready => exact ⟨_, (Option.some.inj h).symm, Or.inr ⟨_, _, rfl, hready, fun h => ⟨rfl, h⟩⟩⟩
    · split at h
      · next hready =>
        exact ⟨_, (Option.some.inj h).symm, Or.inr ⟨_, _, rfl, hready, fun h => by cases h⟩⟩
      · cases h

theorem shellPoll_sound {s s' : State} (h : Sound s) (hpoll : shellPoll s = some s') : Sound s' := by
  obtain ⟨phase, rfl, ⟨rfl, hclosed⟩ | ⟨stream, thenErr, rfl, hready, hthen⟩⟩ := shellPoll_spec hpoll
  · exact h.rephase hclosed
  · exact h.rephase ⟨hready, hthen⟩

/-- A read takes bytes from its pipe, or finds the end of the stream. -/
theorem shellRead_spec {n : ℕ} {s s' : State} (h : shellRead n s = some s') :
    ∃ stream thenErr, s.phase = .reading stream thenErr ∧
      ((Finished s stream ∧ s' = { s with
          isOpen := Function.update s.isOpen stream false, phase := nextPhase thenErr }) ∨
        (0 < n ∧ n ≤ (s.pipes stream).contents.length ∧ s' = { s with
          pipes := Function.update s.pipes stream
            { s.pipes stream with contents := (s.pipes stream).contents.drop n }
          buffers := Function.update s.buffers stream (s.buffers stream ++
            ((s.pipes stream).contents.take n).take
              (min n (outputMax - (s.buffers stream).length)))
          phase := nextPhase thenErr })) := by
  unfold shellRead at h
  split at h
  · next stream thenErr hphase =>
    refine ⟨stream, thenErr, hphase, ?_⟩
    dsimp only at h
    split at h
    · next hempty =>
      split at h
      · next hclosed => exact Or.inl ⟨⟨hempty, hclosed.1⟩, (Option.some.inj h).symm⟩
      · cases h
    · split at h
      · next hn => exact Or.inr ⟨hn.1, hn.2.2, (Option.some.inj h).symm⟩
      · cases h
  · cases h

/-- What is kept of a read is what still fits into the beginning. -/
theorem take_kept (taken got : List UInt8) {n : ℕ} (hn : got.length = n) :
    taken.take outputMax ++ got.take (min n (outputMax - (taken.take outputMax).length)) =
      (taken ++ got).take outputMax := by
  rw [List.take_append, List.length_take]
  congr 1
  rcases Nat.le_total taken.length outputMax with hle | hle
  · rw [Nat.min_eq_right hle, ← hn, Nat.min_comm, ← List.take_take, List.take_length]
  · have hnone : outputMax - min outputMax taken.length = 0 := by
      rw [Nat.min_eq_left hle, Nat.sub_self]
    rw [hnone, Nat.sub_eq_zero_of_le hle, Nat.min_zero]

/-- Behind a read of the standard output the standard error is still ready. -/
theorem phaseHolds_next {s s' : State} {stream : Stream} {thenErr : Bool} (h : PhaseHolds s)
    (hphase : s.phase = .reading stream thenErr) (hphase' : s'.phase = nextPhase thenErr)
    (hready : stream = .out → s'.ready .err = s.ready .err) : PhaseHolds s' := by
  unfold PhaseHolds at h ⊢
  rw [hphase] at h
  rw [hphase']
  cases thenErr with
  | false => trivial
  | true =>
      obtain ⟨hout, herr⟩ := h.2 rfl
      exact ⟨(hready hout).trans herr, fun h => by cases h⟩

theorem shellRead_sound {n : ℕ} {s s' : State} (h : Sound s) (hread : shellRead n s = some s') :
    Sound s' := by
  obtain ⟨stream, thenErr, hphase, ⟨hend, rfl⟩ | ⟨hn, hlen, rfl⟩⟩ := shellRead_spec hread
  · refine ⟨h.captured, fun other hclosed => ?_, h.ended, ?_⟩
    · by_cases hother : other = stream
      · rw [hother]
        exact hend
      · exact h.finished other (by simpa [hother] using hclosed)
    · refine phaseHolds_next h.phase hphase rfl fun hout => ?_
      subst hout
      simp [State.ready]
  · have hready : s.ready stream = true := by
      have hholds := h.phase
      unfold PhaseHolds at hholds
      rw [hphase] at hholds
      exact hholds.1
    have hopen := ((ready_iff s stream).mp hready).1
    refine ⟨fun other => ?_, fun other hclosed => ?_, fun hended other => ?_, ?_⟩
    · by_cases hother : other = stream
      · subst hother
        obtain ⟨taken, hwritten, hbuffer⟩ := h.captured other
        refine ⟨taken ++ (s.pipes other).contents.take n, ?_, ?_⟩
        · simp [hwritten]
        · simp only [Function.update_self]
          rw [hbuffer]
          exact take_kept taken _ (by rw [List.length_take, Nat.min_eq_left hlen])
      · obtain ⟨taken, hwritten, hbuffer⟩ := h.captured other
        exact ⟨taken, by simpa [hother] using hwritten, by simpa [hother] using hbuffer⟩
    · have hother : other ≠ stream := by
        rintro rfl
        rw [hopen] at hclosed
        cases hclosed
      simpa [Finished, hother] using h.finished other hclosed
    · by_cases hother : other = stream
      · subst hother
        simpa using h.ended hended other
      · simpa [hother] using h.ended hended other
    · refine phaseHolds_next h.phase hphase rfl fun hout => ?_
      subst hout
      simp [State.ready]

/-- Any step of the child or of the shell -/
theorem step_sound {capacity : ℕ} {s s' : State} {e : Event} (h : Sound s)
    (hstep : step capacity s e = some s') : Sound s' := by
  have hrunning : ∀ {t : State}, s.ended = none → t.ended = s.ended → Childs s t → Sound t := by
    intro t hnone hended hchilds
    refine h.childs hchilds (fun hsome => ?_) fun ended hsome => ?_
    · rw [hended, hnone] at hsome
      cases hsome
    · rw [hnone] at hsome
      cases hsome
  cases e with
  | write n =>
      simp only [step] at hstep
      split at hstep
      · next hnone =>
        obtain ⟨stream, bytes, rest, -, hwritable, -, -, rfl⟩ := childWrite_spec hstep
        exact hrunning hnone rfl (childs_write hwritable)
      · cases hstep
  | idle =>
      simp only [step] at hstep
      split at hstep
      · next hnone =>
        obtain ⟨stream, bytes, rest, -, -, rfl⟩ := childIdle_spec hstep
        exact hrunning hnone rfl (childs_idle s rest)
      · cases hstep
  | close =>
      simp only [step] at hstep
      split at hstep
      · next hnone =>
        obtain ⟨stream, rest, -, rfl⟩ := childClose_spec hstep
        exact hrunning hnone rfl (childs_close s stream rest)
      · cases hstep
  | exit code =>
      simp only [step] at hstep
      split at hstep
      · next hnone =>
        cases hstep
        refine h.childs (childs_end s _) (fun _ _ => rfl) fun ended hsome => ?_
        rw [hnone.1] at hsome
        cases hsome
      · cases hstep
  | killed signal =>
      simp only [step] at hstep
      split at hstep
      · next hnone =>
        cases hstep
        refine h.childs (childs_end s _) (fun _ _ => rfl) fun ended hsome => ?_
        rw [hnone] at hsome
        cases hsome
      · cases hstep
  | poll =>
      simp only [step] at hstep
      split at hstep
      · exact shellPoll_sound h hstep
      · cases hstep
  | pollFails =>
      simp only [step] at hstep
      split at hstep
      · cases hstep
        split
        · next hnone =>
          refine Sound.rephase (h.childs (childs_end s _) (fun _ _ => rfl) fun ended hsome => ?_) trivial
          rw [hnone] at hsome
          cases hsome
        · exact h.rephase trivial
      · cases hstep
  | read n => exact shellRead_sound h hstep
  | reap =>
      simp only [step] at hstep
      split at hstep
      · next ended hphase hended =>
        cases hstep
        have hclosed := h.phase
        unfold PhaseHolds at hclosed
        rw [hphase] at hclosed
        exact h.rephase ⟨hclosed, ended, hended, rfl⟩
      · cases hstep

theorem path_sound {capacity : ℕ} {script : List ChildAct} {path : List Event} {last : State}
    (hrun : runPath (step capacity) (initial script) path = some last) : Sound last :=
  path_keeps (fun _ _ _ h hstep => step_sound h hstep) (sound_initial script) hrun

/-! ## What is captured -/

/-- What a child that runs to its end writes to a stream -/
def output (stream : Stream) : List ChildAct → List UInt8
  | [] => []
  | .write other bytes :: rest =>
      if other = stream then bytes ++ output stream rest else output stream rest
  | .close other :: rest => if other = stream then [] else output stream rest

/-- What the child has still to write -/
def State.pending (s : State) (stream : Stream) : List UInt8 :=
  if (s.pipes stream).writable then output stream s.script else []

/-- How what is written stands to what the child means to write -/
def Emits (script : List ChildAct) (s : State) : Prop :=
  ∀ stream, match s.ended with
    | none => s.written stream ++ s.pending stream = output stream script
    | some (.exited _) => s.written stream = output stream script
    | some (.signaled _) => s.written stream <+: output stream script

theorem emits_initial (script : List ChildAct) : Emits script (initial script) :=
  fun _ => rfl

theorem Emits.running {script : List ChildAct} {s : State} (h : Emits script s) (hnone : s.ended = none)
    (stream : Stream) : s.written stream ++ s.pending stream = output stream script := by
  have hstream := h stream
  rw [hnone] at hstream
  exact hstream

/-- A step of the running child that leaves it running -/
theorem Emits.childs {script : List ChildAct} {s s' : State} (h : Emits script s)
    (hnone : s.ended = none) (hended : s'.ended = s.ended)
    (hsame : ∀ stream, s'.written stream ++ s'.pending stream =
      s.written stream ++ s.pending stream) : Emits script s' := by
  intro stream
  rw [hended, hnone]
  exact (hsame stream).trans (h.running hnone stream)

/-- A step of the shell -/
theorem Emits.shell {script : List ChildAct} {s s' : State} (h : Emits script s)
    (hended : s'.ended = s.ended) (hwritten : s'.written = s.written) (hscript : s'.script = s.script)
    (hwritable : ∀ stream, (s'.pipes stream).writable = (s.pipes stream).writable) :
    Emits script s' := by
  intro stream
  have hstream := h stream
  rw [hended, hwritten]
  have hpending : s'.pending stream = s.pending stream := by
    rw [State.pending, State.pending, hwritable, hscript]
  rw [hpending]
  exact hstream

theorem Emits.killed {script : List ChildAct} {s : State} (h : Emits script s)
    (hnone : s.ended = none) (signal : ℕ) : Emits script (s.endChild (.signaled signal)) :=
  fun stream => ⟨s.pending stream, h.running hnone stream⟩

theorem pending_write {s : State} {stream : Stream} {bytes : List UInt8} {rest : List ChildAct} (n : ℕ)
    (hscript : s.script = .write stream bytes :: rest) (hwritable : (s.pipes stream).writable = true) :
    s.pending stream = bytes.take n ++
      output stream (if n = bytes.length then rest else .write stream (bytes.drop n) :: rest) := by
  rw [State.pending, if_pos hwritable, hscript]
  split
  · next hall => simp [output, hall]
  · simp only [output, if_true]
    rw [← List.append_assoc, List.take_append_drop]

theorem childWrite_emits {script : List ChildAct} {capacity n : ℕ} {s s' : State}
    (h : Emits script s) (hnone : s.ended = none) (hwrite : childWrite capacity n s = some s') :
    Emits script s' := by
  obtain ⟨stream, bytes, rest, hscript, hwritable, -, -, rfl⟩ := childWrite_spec hwrite
  refine h.childs hnone rfl fun other => ?_
  by_cases hother : other = stream
  · subst hother
    rw [pending_write n hscript hwritable]
    simp [State.pending, hwritable]
  · have hne : ¬stream = other := fun heq => hother heq.symm
    simp only [State.pending, Function.update_of_ne hother, hscript]
    split
    · split <;> simp [output, hne]
    · rfl

theorem childIdle_emits {script : List ChildAct} {s s' : State} (h : Emits script s)
    (hnone : s.ended = none) (hidle : childIdle s = some s') : Emits script s' := by
  obtain ⟨stream, bytes, rest, hscript, hnothing, rfl⟩ := childIdle_spec hidle
  refine h.childs hnone rfl fun other => ?_
  congr 1
  simp only [State.pending, hscript, output]
  split
  · next hwritable =>
    split
    · next heq =>
      subst heq
      rcases hnothing with rfl | hclosed
      · rfl
      · rw [hwritable] at hclosed
        cases hclosed
    · rfl
  · rfl

theorem childClose_emits {script : List ChildAct} {s s' : State} (h : Emits script s)
    (hnone : s.ended = none) (hclose : childClose s = some s') : Emits script s' := by
  obtain ⟨stream, rest, hscript, rfl⟩ := childClose_spec hclose
  refine h.childs hnone rfl fun other => ?_
  congr 1
  by_cases hother : other = stream
  · subst hother
    simp [State.pending, hscript, output]
  · have hne : ¬stream = other := fun heq => hother heq.symm
    simp [State.pending, hscript, output, hother, hne]

theorem step_emits {script : List ChildAct} {capacity : ℕ} {s s' : State} {e : Event}
    (h : Emits script s) (hstep : step capacity s e = some s') : Emits script s' := by
  cases e with
  | write n =>
      simp only [step] at hstep
      split at hstep
      · next hnone => exact childWrite_emits h hnone hstep
      · cases hstep
  | idle =>
      simp only [step] at hstep
      split at hstep
      · next hnone => exact childIdle_emits h hnone hstep
      · cases hstep
  | close =>
      simp only [step] at hstep
      split at hstep
      · next hnone => exact childClose_emits h hnone hstep
      · cases hstep
  | exit code =>
      simp only [step] at hstep
      split at hstep
      · next hdone =>
        cases hstep
        intro stream
        have hall := h.running hdone.1 stream
        have hpending : s.pending stream = [] := by simp [State.pending, hdone.2, output]
        rw [hpending, List.append_nil] at hall
        exact hall
      · cases hstep
  | killed signal =>
      simp only [step] at hstep
      split at hstep
      · next hnone =>
        cases hstep
        exact h.killed hnone signal
      · cases hstep
  | poll =>
      simp only [step] at hstep
      split at hstep
      · obtain ⟨phase, rfl, -⟩ := shellPoll_spec hstep
        exact h.shell rfl rfl rfl fun _ => rfl
      · cases hstep
  | pollFails =>
      simp only [step] at hstep
      split at hstep
      · cases hstep
        split
        · next hnone => exact (h.killed hnone sigkill).shell rfl rfl rfl fun _ => rfl
        · exact h.shell rfl rfl rfl fun _ => rfl
      · cases hstep
  | read n =>
      obtain ⟨stream, thenErr, -, ⟨-, rfl⟩ | ⟨-, -, rfl⟩⟩ := shellRead_spec hstep
      · exact h.shell rfl rfl rfl fun _ => rfl
      · refine h.shell rfl rfl rfl fun other => ?_
        by_cases hother : other = stream
        · subst hother
          simp
        · simp [hother]
  | reap =>
      simp only [step] at hstep
      split at hstep
      · cases hstep
        exact h.shell rfl rfl rfl fun _ => rfl
      · cases hstep

/-- What a stream's buffer holds when the call returns: the beginning of all that the child wrote,
which is all that it meant to write unless a signal ended it. -/
theorem spawn_captures {capacity : ℕ} {script : List ChildAct} {path : List Event} {last : State}
    {rc : ℕ} (hrun : runPath (step capacity) (initial script) path = some last)
    (hreturned : last.phase = .returned rc) :
    ∃ ended, last.ended = some ended ∧ rc = ended.rc ∧ ∀ stream,
      last.buffers stream = (last.written stream).take outputMax ∧
      last.written stream <+: output stream script ∧
      (∀ code, ended = .exited code → last.written stream = output stream script) := by
  have hsound := path_sound hrun
  have hemits : Emits script last :=
    path_keeps (fun _ _ _ h hstep => step_emits h hstep) (emits_initial script) hrun
  have hphase := hsound.phase
  unfold PhaseHolds at hphase
  rw [hreturned] at hphase
  obtain ⟨hclosed, ended, hended, hrc⟩ := hphase
  refine ⟨ended, hended, hrc, fun stream => ⟨?_, ?_, ?_⟩⟩
  · obtain ⟨taken, hwritten, hbuffer⟩ := hsound.captured stream
    rw [(hsound.finished stream (hclosed stream)).1, List.append_nil] at hwritten
    rw [hbuffer, hwritten]
  · have hstream := hemits stream
    rw [hended] at hstream
    cases ended with
    | exited code => exact hstream ▸ List.prefix_rfl
    | signaled signal => exact hstream
  · rintro code rfl
    have hstream := hemits stream
    rw [hended] at hstream
    exact hstream

def errFirst : List ChildAct := [.write .err [104, 105], .write .out [33]]

/-- A child that writes to its standard error first and keeps its standard output open -/
theorem spawn_captures_small :
    ∃ last, runPath (step 2) (initial errFirst) [.write 2, .poll, .read 2, .write 1, .exit 3, .poll,
        .read 1, .read 0, .poll, .read 0, .poll, .reap] = some last ∧
      ∃ ended, last.ended = some ended ∧ 3 = ended.rc ∧ ∀ stream,
        last.buffers stream = (last.written stream).take outputMax ∧
        last.written stream <+: output stream errFirst ∧
        (∀ code, ended = .exited code → last.written stream = output stream errFirst) := by
  obtain ⟨last, hrun, hphase⟩ : ∃ last, runPath (step 2) (initial errFirst) [.write 2, .poll,
      .read 2, .write 1, .exit 3, .poll, .read 1, .read 0, .poll, .read 0, .poll, .reap] = some last ∧
      last.phase = .returned 3 := ⟨_, rfl, rfl⟩
  exact ⟨last, hrun, spawn_captures hrun hphase⟩

/-! ## No step waits for ever -/

/-- A step that needs neither a signal nor a failure -/
def Moves (capacity : ℕ) (s : State) : Prop :=
  ∃ e, (∀ signal, e ≠ .killed signal) ∧ e ≠ .pollFails ∧ (step capacity s e).isSome = true

/-- A child whose pipes have been emptied can go on. -/
theorem child_moves {capacity : ℕ} {s : State} (hcapacity : 0 < capacity) (hnone : s.ended = none)
    (hempty : ∀ stream, (s.pipes stream).writable = true → (s.pipes stream).contents = []) :
    Moves capacity s := by
  cases hscript : s.script with
  | nil =>
      refine ⟨.exit 0, nofun, nofun, ?_⟩
      simp [step, hnone, hscript]
  | cons act rest =>
      cases act with
      | close stream =>
          refine ⟨.close, nofun, nofun, ?_⟩
          simp only [step, if_pos hnone, childClose, hscript, Option.isSome_some]
      | write stream bytes =>
          by_cases hidle : bytes = [] ∨ (s.pipes stream).writable = false
          · refine ⟨.idle, nofun, nofun, ?_⟩
            simp only [step, if_pos hnone, childIdle, hscript, if_pos hidle, Option.isSome_some]
          · rw [not_or, Bool.not_eq_false] at hidle
            have hroom : (s.pipes stream).writable = true ∧ 0 < 1 ∧ 1 ≤ bytes.length ∧
                (s.pipes stream).contents.length + 1 ≤ capacity := by
              refine ⟨hidle.2, Nat.one_pos, List.length_pos_iff.mpr hidle.1, ?_⟩
              rw [hempty stream hidle.2]
              exact hcapacity
            refine ⟨.write 1, nofun, nofun, ?_⟩
            simp only [step, if_pos hnone, childWrite, hscript, if_pos hroom, Option.isSome_some]

/-- A read from a stream that is ready -/
theorem reading_moves {capacity : ℕ} {s : State} {stream : Stream} {thenErr : Bool}
    (hphase : s.phase = .reading stream thenErr) (hready : s.ready stream = true) :
    Moves capacity s := by
  obtain ⟨-, hwhich⟩ := (ready_iff s stream).mp hready
  by_cases hempty : (s.pipes stream).contents = []
  · have hclosed := hwhich.resolve_left fun h => h hempty
    refine ⟨.read 0, nofun, nofun, ?_⟩
    simp only [step, shellRead, hphase, if_pos hempty, hclosed, and_self, if_true,
      Option.isSome_some]
  · have hone : 0 < 1 ∧ 1 ≤ scratchSize ∧ 1 ≤ (s.pipes stream).contents.length :=
      ⟨Nat.one_pos, by decide, List.length_pos_iff.mpr hempty⟩
    refine ⟨.read 1, nofun, nofun, ?_⟩
    simp only [step, shellRead, hphase, if_neg hempty, if_pos hone, Option.isSome_some]

theorem polling_moves {capacity : ℕ} {s : State} (hsound : Sound s) (hcapacity : 0 < capacity)
    (hphase : s.phase = .poll) : Moves capacity s := by
  by_cases hpolls : ∃ next, shellPoll s = some next
  · obtain ⟨next, hnext⟩ := hpolls
    exact ⟨.poll, nofun, nofun, by simp only [step, if_pos hphase, hnext, Option.isSome_some]⟩
  · -- the shell waits in `poll`, so some stream is open and every open stream is empty
    have hblocked : ¬(s.isOpen .out = false ∧ s.isOpen .err = false) ∧
        ∀ stream, ¬s.ready stream = true := by
      refine ⟨fun hclosed => hpolls ⟨_, if_pos hclosed⟩, fun stream hready => hpolls ?_⟩
      unfold shellPoll
      split
      · exact ⟨_, rfl⟩
      · split
        · exact ⟨_, rfl⟩
        · next hout =>
          cases stream with
          | out => exact absurd hready hout
          | err => exact ⟨_, if_pos hready⟩
    have hquiet : ∀ stream, s.isOpen stream = true →
        (s.pipes stream).contents = [] ∧ (s.pipes stream).writable = true := by
      intro stream hopen
      have hnot := hblocked.2 stream
      rw [ready_iff, not_and] at hnot
      simpa using hnot hopen
    have hnone : s.ended = none := by
      by_contra hsome
      have hclosed := hsound.ended (Option.isSome_iff_ne_none.mpr hsome)
      refine hblocked.1 ⟨?_, ?_⟩ <;>
      · by_contra hopen
        rw [Bool.not_eq_false] at hopen
        have hwritable := (hquiet _ hopen).2
        rw [hclosed] at hwritable
        cases hwritable
    refine child_moves hcapacity hnone fun stream hwritable => ?_
    cases hopen : s.isOpen stream with
    | true => exact (hquiet stream hopen).1
    | false => exact (hsound.finished stream hopen).1

theorem waiting_moves {capacity : ℕ} {s : State} (hsound : Sound s) (hcapacity : 0 < capacity)
    (hphase : s.phase = .waiting) : Moves capacity s := by
  cases hended : s.ended with
  | some ended =>
      exact ⟨.reap, nofun, nofun, by simp only [step, hphase, hended, Option.isSome_some]⟩
  | none =>
      have hclosed := hsound.phase
      unfold PhaseHolds at hclosed
      rw [hphase] at hclosed
      exact child_moves hcapacity hended fun stream _ => (hsound.finished stream (hclosed stream)).1

theorem sound_moves {capacity : ℕ} {s : State} (hsound : Sound s) (hcapacity : 0 < capacity)
    (hreturned : ∀ rc, s.phase ≠ .returned rc) (hfailed : s.phase ≠ .failed) : Moves capacity s := by
  cases hphase : s.phase with
  | poll => exact polling_moves hsound hcapacity hphase
  | reading stream thenErr =>
      have hready := hsound.phase
      unfold PhaseHolds at hready
      rw [hphase] at hready
      exact reading_moves hphase hready.1
  | waiting => exact waiting_moves hsound hcapacity hphase
  | returned rc => exact absurd hphase (hreturned rc)
  | failed => exact absurd hphase hfailed

/-! ## Only finitely many steps are taken -/

def ChildAct.size : ChildAct → ℕ
  | .write _ bytes => 3 * bytes.length + 2
  | .close _ => 1

def scriptSize (script : List ChildAct) : ℕ := (script.map ChildAct.size).sum

def Phase.size : Phase → ℕ
  | .poll => 2
  | .reading _ _ => 1
  | .waiting => 1
  | _ => 0

def State.streamSize (s : State) (stream : Stream) : ℕ :=
  2 * (s.pipes stream).contents.length + if s.isOpen stream then 2 else 0

/-- A byte counts more before it is written than while it is in its pipe. -/
def State.size (s : State) : ℕ :=
  scriptSize s.script + (s.streamSize .out + s.streamSize .err) +
    (if s.ended = none then 1 else 0) + s.phase.size

theorem nextPhase_size (thenErr : Bool) : (nextPhase thenErr).size ≤ 2 := by
  cases thenErr <;> decide

theorem endChild_size {s : State} (hnone : s.ended = none) (ended : Ended) :
    (s.endChild ended).size < s.size := by
  have hrunning : s.size = scriptSize s.script + (s.streamSize .out + s.streamSize .err) + 1 +
      s.phase.size := by rw [State.size, if_pos hnone]
  have hended : (s.endChild ended).size = scriptSize s.script +
      (s.streamSize .out + s.streamSize .err) + 0 + s.phase.size := rfl
  omega

theorem rephase_size (s : State) : ({ s with phase := .failed } : State).size ≤ s.size :=
  Nat.add_le_add_left (Nat.zero_le _) _

theorem childWrite_size {capacity n : ℕ} {s s' : State} (h : childWrite capacity n s = some s') :
    s'.size < s.size := by
  obtain ⟨stream, bytes, rest, hscript, -, hpos, hn, rfl⟩ := childWrite_spec h
  have hscripts : scriptSize (if n = bytes.length then rest else
      .write stream (bytes.drop n) :: rest) + 3 * n ≤ scriptSize s.script := by
    rw [hscript]
    split
    · next hall =>
      simp only [scriptSize, List.map_cons, List.sum_cons, ChildAct.size]
      omega
    · simp only [scriptSize, List.map_cons, List.sum_cons, ChildAct.size, List.length_drop]
      omega
  cases stream <;>
  · simp [State.size, State.streamSize, Nat.min_eq_left hn]
    omega

theorem childIdle_size {s s' : State} (h : childIdle s = some s') : s'.size < s.size := by
  obtain ⟨stream, bytes, rest, hscript, -, rfl⟩ := childIdle_spec h
  simp only [State.size, State.streamSize, hscript, scriptSize, List.map_cons, List.sum_cons,
    ChildAct.size]
  omega

theorem childClose_size {s s' : State} (h : childClose s = some s') : s'.size < s.size := by
  obtain ⟨stream, rest, hscript, rfl⟩ := childClose_spec h
  cases stream <;>
  · simp [State.size, State.streamSize, hscript, scriptSize, ChildAct.size]

theorem shellRead_size {n : ℕ} {s s' : State} (h : Sound s) (hread : shellRead n s = some s') :
    s'.size < s.size := by
  obtain ⟨stream, thenErr, hphase, hwhich⟩ := shellRead_spec hread
  have hopen : s.isOpen stream = true := by
    have hready := h.phase
    unfold PhaseHolds at hready
    rw [hphase] at hready
    exact ((ready_iff s stream).mp hready.1).1
  have hnext := nextPhase_size thenErr
  have hsize : s.phase.size = 1 := by rw [hphase, Phase.size]
  rcases hwhich with ⟨-, rfl⟩ | ⟨hpos, hlen, rfl⟩
  · cases stream <;>
    · simp [State.size, State.streamSize, hopen]
      omega
  · cases stream <;>
    · simp [State.size, State.streamSize]
      omega

theorem step_size {capacity : ℕ} {s s' : State} {e : Event} (h : Sound s)
    (hstep : step capacity s e = some s') : s'.size < s.size := by
  cases e with
  | write n =>
      simp only [step] at hstep
      split at hstep
      · exact childWrite_size hstep
      · cases hstep
  | idle =>
      simp only [step] at hstep
      split at hstep
      · exact childIdle_size hstep
      · cases hstep
  | close =>
      simp only [step] at hstep
      split at hstep
      · exact childClose_size hstep
      · cases hstep
  | exit code =>
      simp only [step] at hstep
      split at hstep
      · next hdone =>
        cases hstep
        exact endChild_size hdone.1 _
      · cases hstep
  | killed signal =>
      simp only [step] at hstep
      split at hstep
      · next hnone =>
        cases hstep
        exact endChild_size hnone _
      · cases hstep
  | poll =>
      simp only [step] at hstep
      split at hstep
      · next hphase =>
        obtain ⟨phase, rfl, hwhich⟩ := shellPoll_spec hstep
        have hsize : phase.size = 1 := by
          obtain ⟨rfl, -⟩ | ⟨stream, thenErr, rfl, -⟩ := hwhich <;> rfl
        have hpoll : s.phase.size = 2 := by rw [hphase, Phase.size]
        simp only [State.size, State.streamSize, hsize, hpoll]
        omega
      · cases hstep
  | pollFails =>
      simp only [step] at hstep
      split at hstep
      · next hpoll =>
        cases hstep
        split
        · next hnone => exact Nat.lt_of_le_of_lt (rephase_size _) (endChild_size hnone _)
        · simp only [State.size, State.streamSize, hpoll.1, Phase.size]
          omega
      · cases hstep
  | read n => exact shellRead_size h hstep
  | reap =>
      simp only [step] at hstep
      split at hstep
      · next ended hphase hended =>
        cases hstep
        simp [State.size, State.streamSize, hphase, Phase.size]
      · cases hstep

/-- However small the pipes, a child that fills one while the shell reads the other cannot stop
both: some step is enabled until the call is over, and the call is over after finitely many. -/
theorem spawn_ends {capacity : ℕ} {script : List ChildAct} {path : List Event} {last : State}
    (hcapacity : 0 < capacity) (hrun : runPath (step capacity) (initial script) path = some last) :
    path.length ≤ scriptSize script + 7 ∧
      ((∃ rc, last.phase = .returned rc) ∨ last.phase = .failed ∨ Moves capacity last) := by
  refine ⟨?_, ?_⟩
  · have hbound := path_length_le (fun s e s' h hstep => ⟨step_sound h hstep, step_size h hstep⟩)
      (sound_initial script) hrun
    have hinitial : (initial script).size = scriptSize script + 7 := rfl
    rw [hinitial] at hbound
    exact Nat.le_trans (Nat.le_add_right _ _) hbound
  · by_cases hreturned : ∃ rc, last.phase = .returned rc
    · exact Or.inl hreturned
    · by_cases hfailed : last.phase = .failed
      · exact Or.inr (Or.inl hfailed)
      · exact Or.inr (Or.inr (sound_moves (path_sound hrun) hcapacity
          (fun rc hrc => hreturned ⟨rc, hrc⟩) hfailed))

/-- Each write waits for room in a pipe of one byte. -/
theorem spawn_ends_narrow :
    ∃ last, runPath (step 1) (initial errFirst) [.write 1, .poll, .read 1, .write 1] = some last ∧
      [Event.write 1, .poll, .read 1, .write 1].length ≤ scriptSize errFirst + 7 ∧
      ((∃ rc, last.phase = .returned rc) ∨ last.phase = .failed ∨ Moves 1 last) := by
  obtain ⟨last, hrun⟩ : ∃ last, runPath (step 1) (initial errFirst)
      [.write 1, .poll, .read 1, .write 1] = some last := ⟨_, rfl⟩
  exact ⟨last, hrun, spawn_ends Nat.one_pos hrun⟩

end Spawn

end Rash
