import Rash.Exec.StdioCapture
import Rash.Exec.DenialStops

/-!
# When an observed command writes where it would have written

The capture is taken away again, but what was written into it goes nowhere.  Which commands do
not notice is told from what they do with descriptors: a `Trail` of the numbers that refer to
what 1 and 2 were, and of the numbers that were changed.
-/

namespace Rash

variable {F : Type}

/-! ## The trail of a command -/

structure Trail where
  /-- The number refers to what 1 or 2 referred to when the command began. -/
  standing : Int → Bool
  touched : Int → Bool

namespace Trail

def start : Trail := ⟨fun fd => fd == 1 || fd == 2, fun _ => false⟩

/-- The number `fd` is changed. -/
def change (tr : Trail) (fd : Int) (standing : Bool) : Trail where
  standing q := if q = fd then standing else tr.standing q
  touched q := q == fd || tr.touched q

end Trail

def FdAction.trail (tr : Trail) : FdAction F → Trail
  | .write _ _ => tr
  | .openOn fd _ => tr.change fd false
  | .dup2 src dst => tr.change dst (tr.standing src)
  | .close fd => tr.change fd false

def trailBehind : List (FdAction F) → Trail → Trail
  | [], tr => tr
  | a :: rest, tr => trailBehind rest (a.trail tr)

/-- No byte is written through 1 or 2 as the command found them. -/
def FdAction.WritesOwn (tr : Trail) : FdAction F → Prop
  | .write fd _ => fd = 1 ∨ fd = 2 → tr.standing fd = false
  | .openOn _ _ | .dup2 _ _ | .close _ => True

def WritesOwn : List (FdAction F) → Trail → Prop
  | [], _ => True
  | a :: rest, tr => a.WritesOwn tr ∧ WritesOwn rest (a.trail tr)

/-- What the end of the capture puts back at `fd` is what the command leaves there: it has left
`fd` as it found it, or it has put the same file at the number of the saved copy, or it has
closed that number and `fd` is its own. -/
def PutsBack (before left : CaptureTable F) (tr : Trail) (fd saved : Int) : Prop :=
  if tr.touched saved then
    tr.standing saved = false ∧
      if left.file saved = none then tr.standing fd = false else left.file saved = left.file fd
  else left.file fd = before.file fd

/-- The command leaves 1 and 2 so that the end of the capture does not change them; `before`
and `left` are the tables in front of it and behind it when nothing observes it. -/
def LeavesStdio (c : Capture) (ending : CommandEnding) (before left : CaptureTable F)
    (tr : Trail) : Prop :=
  match ending with
  | .returns =>
      (if before.file 1 = none then left.file 1 = none
        else PutsBack before left tr 1 c.savedStdout) ∧
      (if before.file 2 = none then
        if c.savedStdout = 2 then
          tr.touched c.savedStderr = true ∧ tr.standing c.savedStderr = false ∧
            left.file c.savedStderr = left.file 2
        else left.file 2 = none
      else PutsBack before left tr 2 c.savedStderr)
  | .earlyReturn | .leaves => tr.standing 1 = false ∧ tr.standing 2 = false

/-! ## With and without the capture -/

/-- What was written through 1 and 2. -/
def Descriptors.toStdio (d : Descriptors F) : List (Written F) :=
  d.written.filter fun b => decide (b.fd = 1 ∨ b.fd = 2)

/-- The bytes written through 1 and 2 reach the same files in the same order, and 1 and 2 refer
to the same files. -/
def SameStdio (observed unobserved : Descriptors F) : Prop :=
  observed.toStdio = unobserved.toStdio ∧
    observed.table.file 1 = unobserved.table.file 1 ∧
    observed.table.file 2 = unobserved.table.file 2

/-- Two tables under the same actions, one of them below a capture that was set up over `before`
as `captured`. -/
structure Shadows (before captured : CaptureTable F) (tr : Trail)
    (plain hooked : CaptureTable F) : Prop where
  shell : ∀ fd f, plain.file fd = some f → f.isCapture = false
  standing : ∀ fd, tr.standing fd = true → ∃ f, hooked.file fd = some f ∧ f.isCapture = true
  own : ∀ fd, tr.standing fd = false → tr.touched fd = true → hooked.file fd = plain.file fd
  untouched : ∀ fd, tr.touched fd = false → tr.standing fd = Trail.start.standing fd ∧
    plain.file fd = before.file fd ∧ hooked.file fd = captured.file fd

namespace Shadows

variable {limit : ℕ} {c : Capture} {before captured plain hooked : CaptureTable F} {tr : Trail}

theorem start (hset : SetUp limit c before captured)
    (hshell : ∀ fd f, before.file fd = some f → f.isCapture = false) :
    Shadows before captured .start before captured := by
  refine ⟨hshell, ?_, fun fd _ htouched => (by cases htouched), fun fd _ => ⟨rfl, rfl, rfl⟩⟩
  intro fd hstanding
  simp only [Trail.start, Bool.or_eq_true, beq_iff_eq] at hstanding
  rcases hstanding with rfl | rfl
  · exact hset.stdout
  · exact hset.stderr

/-- A number that is open is open below the capture too, and what the command put there is the
same. -/
theorem file (h : Shadows before captured tr plain hooked) (hset : SetUp limit c before captured)
    {fd : Int} {f : CaptureFile F} (hfile : plain.file fd = some f) :
    ∃ g, hooked.file fd = some g ∧ (tr.standing fd = false → g = f) := by
  cases hstanding : tr.standing fd with
  | true =>
      obtain ⟨g, hg, -⟩ := h.standing fd hstanding
      exact ⟨g, hg, fun hfalse => by cases hfalse⟩
  | false =>
      cases htouched : tr.touched fd with
      | true => exact ⟨f, (h.own fd hstanding htouched).trans hfile, fun _ => rfl⟩
      | false =>
          obtain ⟨hstart, hplain, hhooked⟩ := h.untouched fd htouched
          rw [hstanding] at hstart
          simp only [Trail.start, Bool.false_eq, Bool.or_eq_false_iff, beq_eq_false_iff_ne]
            at hstart
          have hopen : before.file fd ≠ none := by
            rw [← hplain, hfile]
            exact Option.some_ne_none f
          have hother := hset.other fd hstart.1 hstart.2
            (fun heq => hopen (hset.free fd (.inl heq)))
            (fun heq => hopen (hset.free fd (.inr (.inl heq))))
            (fun heq => hopen (hset.free fd (.inr (.inr (.inl heq)))))
            (fun heq => hopen (hset.free fd (.inr (.inr (.inr heq)))))
          exact ⟨f, by rw [hhooked, hother, ← hplain, hfile], fun _ => rfl⟩

/-- A number is changed on both tables. -/
theorem change (h : Shadows before captured tr plain hooked) {fd : Int} {standing : Bool}
    {plain' hooked' : CaptureTable F}
    (hplain : ∀ q, q ≠ fd → plain'.file q = plain.file q)
    (hhooked : ∀ q, q ≠ fd → hooked'.file q = hooked.file q)
    (hshell : ∀ f, plain'.file fd = some f → f.isCapture = false)
    (hstanding : standing = true → ∃ f, hooked'.file fd = some f ∧ f.isCapture = true)
    (hown : standing = false → hooked'.file fd = plain'.file fd) :
    Shadows before captured (tr.change fd standing) plain' hooked' := by
  refine ⟨fun q f hq => ?_, fun q hq => ?_, fun q hq htouched => ?_, fun q htouched => ?_⟩
  · by_cases hne : q = fd
    · subst hne
      exact hshell f hq
    · rw [hplain q hne] at hq
      exact h.shell q f hq
  · by_cases hne : q = fd
    · subst hne
      simp only [Trail.change, if_true] at hq
      exact hstanding hq
    · simp only [Trail.change, hne, if_false] at hq
      rw [hhooked q hne]
      exact h.standing q hq
  · by_cases hne : q = fd
    · subst hne
      simp only [Trail.change, if_true] at hq
      exact hown hq
    · simp only [Trail.change, hne, if_false, beq_iff_eq, Bool.or_eq_true, false_or]
        at hq htouched
      rw [hhooked q hne, hplain q hne]
      exact h.own q hq htouched
  · simp only [Trail.change, Bool.or_eq_false_iff, beq_eq_false_iff_ne] at htouched
    simp only [Trail.change, htouched.1, if_false]
    rw [hhooked q htouched.1, hplain q htouched.1]
    exact h.untouched q htouched.2

end Shadows

/-- What actions add to what was written through 1 and 2, below the capture and without it: the
same bytes, if the command wrote them to files of its own, or a byte that went into the
capture. -/
def Adds (own : Prop) (hooked hooked' plain plain' : Descriptors F) : Prop :=
  ∃ x y, hooked'.toStdio = hooked.toStdio ++ x ∧ plain'.toStdio = plain.toStdio ++ y ∧
    (own → x = y) ∧ (¬ own → ∃ b ∈ x, b.file.isCapture = true) ∧
    ∀ b ∈ y, b.file.isCapture = false

theorem Adds.nothing {own : Prop} (hown : own) {hooked hooked' plain plain' : Descriptors F}
    (h : hooked'.written = hooked.written) (h' : plain'.written = plain.written) :
    Adds own hooked hooked' plain plain' := by
  refine ⟨[], [], ?_, ?_, fun _ => rfl, fun hnot => absurd hown hnot, by simp⟩
  · rw [Descriptors.toStdio, h, List.append_nil, Descriptors.toStdio]
  · rw [Descriptors.toStdio, h', List.append_nil, Descriptors.toStdio]

theorem Adds.trans {own own' : Prop} {h₁ h₂ h₃ p₁ p₂ p₃ : Descriptors F}
    (h : Adds own h₁ h₂ p₁ p₂) (h' : Adds own' h₂ h₃ p₂ p₃) : Adds (own ∧ own') h₁ h₃ p₁ p₃ := by
  obtain ⟨x, y, hx, hy, hown, hinto, hshell⟩ := h
  obtain ⟨x', y', hx', hy', hown', hinto', hshell'⟩ := h'
  refine ⟨x ++ x', y ++ y', ?_, ?_, fun ⟨ho, ho'⟩ => ?_, fun hnot => ?_, fun b hb => ?_⟩
  · rw [hx', hx, List.append_assoc]
  · rw [hy', hy, List.append_assoc]
  · rw [hown ho, hown' ho']
  · by_cases ho : own
    · obtain ⟨b, hb, hcapture⟩ := hinto' fun ho' => hnot ⟨ho, ho'⟩
      exact ⟨b, List.mem_append_right x hb, hcapture⟩
    · obtain ⟨b, hb, hcapture⟩ := hinto ho
      exact ⟨b, List.mem_append_left x' hb, hcapture⟩
  · rcases List.mem_append.mp hb with hb | hb
    · exact hshell b hb
    · exact hshell' b hb

/-- A byte that is written through a descriptor is seen if the descriptor is 1 or 2. -/
theorem run_write (limit : ℕ) (d : Descriptors F) (fd : Int) (byte : UInt8) :
    ∃ d', (FdAction.write fd byte : FdAction F).run limit d = some d' ∧ d'.table = d.table ∧
      d'.toStdio = d.toStdio ++
        if fd = 1 ∨ fd = 2 then ((d.table.file fd).map fun f => ⟨fd, f, byte⟩).toList else [] := by
  simp only [FdAction.run]
  cases hfile : d.table.file fd with
  | none =>
      refine ⟨d, rfl, rfl, ?_⟩
      split_ifs
      · rw [Option.map_none, Option.toList_none, List.append_nil]
      · rw [List.append_nil]
  | some f =>
      refine ⟨_, rfl, rfl, ?_⟩
      unfold Descriptors.toStdio
      rw [List.filter_append]
      split_ifs with hstd
      · simp [hstd]
      · simp [hstd]

section Runs

variable {limit : ℕ} {c : Capture} {before captured : CaptureTable F} {tr : Trail}
  {plain plain' hooked : Descriptors F}

theorem Shadows.write (h : Shadows before captured tr plain.table hooked.table) (fd : Int)
    (byte : UInt8) {hooked' : Descriptors F}
    (hhooked : (FdAction.write fd byte : FdAction F).run limit hooked = some hooked')
    (hplain : (FdAction.write fd byte : FdAction F).run limit plain = some plain') :
    Adds ((FdAction.write fd byte : FdAction F).WritesOwn tr) hooked hooked' plain plain' := by
  obtain ⟨d, hd, -, hadded⟩ := run_write limit hooked fd byte
  obtain ⟨e, he, -, hadded'⟩ := run_write limit plain fd byte
  rw [hhooked] at hd
  rw [hplain] at he
  cases hd
  cases he
  refine ⟨_, _, hadded, hadded', fun hown => ?_, fun hnot => ?_, fun b hb => ?_⟩
  · split_ifs with hstd
    · -- 1 and 2 are not the capture's any more only when the command has changed them
      have htouched : tr.touched fd = true := by
        by_contra huntouched
        rw [Bool.not_eq_true] at huntouched
        have hstart := (h.untouched fd huntouched).1
        rw [hown hstd] at hstart
        rcases hstd with rfl | rfl
        · cases hstart
        · cases hstart
      rw [h.own fd (hown hstd) htouched]
    · rfl
  · unfold FdAction.WritesOwn at hnot
    push Not at hnot
    obtain ⟨hstd, hstanding⟩ := hnot
    rw [ne_eq, Bool.not_eq_false] at hstanding
    obtain ⟨f, hf, hcapture⟩ := h.standing fd hstanding
    refine ⟨⟨fd, f, byte⟩, ?_, hcapture⟩
    rw [if_pos hstd, hf]
    simp
  · split_ifs at hb with hstd
    · cases hfile : plain.table.file fd with
      | none => simp [hfile] at hb
      | some f =>
          simp only [hfile, Option.map_some, Option.toList_some, List.mem_singleton] at hb
          rw [hb]
          exact h.shell fd f hfile
    · cases hb

/-- One action on both tables. -/
theorem FdAction.run_shadows {a : FdAction F} (hset : SetUp limit c before captured)
    (h : Shadows before captured tr plain.table hooked.table)
    (hrun : a.run limit plain = some plain') :
    ∃ hooked', a.run limit hooked = some hooked' ∧
      Shadows before captured (a.trail tr) plain'.table hooked'.table ∧
      Adds (a.WritesOwn tr) hooked hooked' plain plain' := by
  cases a with
  | write fd byte =>
      obtain ⟨hooked', hhooked, htable, -⟩ := run_write limit hooked fd byte
      obtain ⟨e, he, htable', -⟩ := run_write limit plain fd byte
      have hadds := h.write fd byte hhooked hrun
      rw [hrun] at he
      cases he
      refine ⟨hooked', hhooked, ?_, hadds⟩
      rw [htable, htable']
      exact h
  | openOn fd file =>
      simp only [FdAction.run] at hrun ⊢
      split_ifs at hrun with hrange
      cases hrun
      rw [dif_pos hrange]
      refine ⟨_, rfl, ?_, .nothing trivial rfl rfl⟩
      apply h.change
      · intro q hq
        simp [hq]
      · intro q hq
        simp [hq]
      · rintro f hf
        simp only [DescriptorTable.put_file, if_true, Option.some.injEq] at hf
        rw [← hf]
        rfl
      · intro hfalse
        cases hfalse
      · intro _
        simp
  | dup2 src dst =>
      simp only [FdAction.run] at hrun ⊢
      obtain ⟨u, hdup, rfl⟩ := Option.map_eq_some_iff.mp hrun
      obtain ⟨f, hf, hrange, rfl⟩ := DescriptorTable.dup2_eq_some.mp hdup
      obtain ⟨g, hg, hsame⟩ := h.file hset hf
      rw [DescriptorTable.dup2_eq_some.mpr ⟨g, hg, hrange, rfl⟩]
      refine ⟨_, rfl, ?_, .nothing trivial rfl rfl⟩
      apply h.change
      · intro q hq
        simp [hq]
      · intro q hq
        simp [hq]
      · rintro f' hf'
        simp only [DescriptorTable.put_file, if_true, Option.some.injEq] at hf'
        rw [← hf']
        exact h.shell src f hf
      · intro hstanding
        obtain ⟨f', hf', hcapture⟩ := h.standing src hstanding
        rw [hg] at hf'
        cases hf'
        exact ⟨g, by simp, hcapture⟩
      · intro hstanding
        simp [hsame hstanding]
  | close fd =>
      simp only [FdAction.run] at hrun ⊢
      cases hrun
      refine ⟨_, rfl, ?_, .nothing trivial rfl rfl⟩
      apply h.change
      · intro q hq
        simp [hq]
      · intro q hq
        simp [hq]
      · rintro f hf
        simp at hf
      · intro hfalse
        cases hfalse
      · intro _
        simp

theorem runActions_shadows {actions : List (FdAction F)} (hset : SetUp limit c before captured)
    (h : Shadows before captured tr plain.table hooked.table)
    (hrun : runActions limit actions plain = some plain') :
    ∃ hooked', runActions limit actions hooked = some hooked' ∧
      Shadows before captured (trailBehind actions tr) plain'.table hooked'.table ∧
      Adds (WritesOwn actions tr) hooked hooked' plain plain' := by
  induction actions generalizing tr plain hooked with
  | nil =>
      cases hrun
      exact ⟨hooked, rfl, h, .nothing trivial rfl rfl⟩
  | cons a rest ih =>
      obtain ⟨plain₁, hfirst, hrest⟩ := Option.bind_eq_some_iff.mp hrun
      obtain ⟨hooked₁, hfirst', h₁, hadds⟩ := a.run_shadows hset h hfirst
      obtain ⟨hooked', hrest', h', hadds'⟩ := ih h₁ hrest
      refine ⟨hooked', ?_, h', hadds.trans hadds'⟩
      rw [runActions, hfirst']
      exact hrest'

end Runs

/-! ## The end of the capture -/

section Ends

variable {limit : ℕ} {c : Capture} {before captured plain hooked : CaptureTable F} {tr : Trail}

theorem Shadows.ne_of_capture (h : Shadows before captured tr plain hooked) {fd : Int}
    {f : CaptureFile F} (hf : f.isCapture = true) : some f ≠ plain.file fd := by
  intro heq
  have hshell := h.shell fd f heq.symm
  rw [hf] at hshell
  cases hshell

/-- 1 and 2 are the command's own once it has changed them. -/
theorem Shadows.stdio_iff (h : Shadows before captured tr plain hooked) {fd : Int}
    (hfd : fd = 1 ∨ fd = 2) : hooked.file fd = plain.file fd ↔ tr.standing fd = false := by
  cases hstanding : tr.standing fd with
  | true =>
      obtain ⟨f, hf, hcapture⟩ := h.standing fd hstanding
      rw [hf]
      exact ⟨fun heq => absurd heq (h.ne_of_capture hcapture), fun hfalse => by cases hfalse⟩
  | false =>
      have htouched : tr.touched fd = true := by
        by_contra huntouched
        rw [Bool.not_eq_true] at huntouched
        have hstart := (h.untouched fd huntouched).1
        rw [hstanding] at hstart
        rcases hfd with rfl | rfl
        · cases hstart
        · cases hstart
      exact ⟨fun _ => rfl, fun _ => h.own fd hstanding htouched⟩

/-- What is put back at a descriptor that was open from its saved copy. -/
theorem Shadows.putsBack_iff (h : Shadows before captured tr plain hooked) {fd saved : Int}
    (hfd : fd = 1 ∨ fd = 2) (hopen : before.file fd ≠ none)
    (hsaved : captured.file saved = before.file fd) :
    (hooked.file saved).or (hooked.file fd) = plain.file fd ↔
      PutsBack before plain tr fd saved := by
  unfold PutsBack
  cases htouched : tr.touched saved with
  | false =>
      rw [if_neg (by decide), (h.untouched saved htouched).2.2, hsaved,
        Option.or_of_isSome (Option.isSome_iff_ne_none.mpr hopen), eq_comm]
  | true =>
      rw [if_pos rfl]
      cases hstanding : tr.standing saved with
      | true =>
          obtain ⟨f, hf, hcapture⟩ := h.standing saved hstanding
          rw [hf, Option.some_or]
          constructor
          · exact fun heq => absurd heq (h.ne_of_capture hcapture)
          · rintro ⟨hfalse, -⟩
            cases hfalse
      | false =>
          rw [h.own saved hstanding htouched]
          cases hfile : plain.file saved with
          | none =>
              rw [Option.none_or, if_pos rfl, h.stdio_iff hfd]
              exact ⟨fun heq => ⟨rfl, heq⟩, fun heq => heq.2⟩
          | some f =>
              rw [Option.some_or, if_neg (Option.some_ne_none f)]
              exact ⟨fun heq => ⟨rfl, heq⟩, fun heq => heq.2⟩

theorem Shadows.release_iff (hset : SetUp limit c before captured)
    (h : Shadows before captured tr plain hooked) :
    ((c.release limit hooked).file 1 = plain.file 1 ∧
      (c.release limit hooked).file 2 = plain.file 2) ↔
        LeavesStdio c .returns before plain tr := by
  rw [hset.release_stdout, hset.release_stderr]
  unfold LeavesStdio
  dsimp only
  apply and_congr
  · by_cases hopen : before.file 1 = none
    · rw [if_pos hopen, if_pos ((hset.closedStdout hopen).imp Eq.symm Eq.symm), eq_comm]
    · rw [if_neg hopen, if_neg]
      · exact h.putsBack_iff (.inl rfl) hopen (hset.savedStdout hopen)
      · rintro (heq | heq)
        · exact hopen (hset.free 1 (.inr (.inr (.inl heq))))
        · exact hopen (hset.free 1 (.inr (.inr (.inr heq))))
  · by_cases hopen : before.file 2 = none
    · rw [if_pos hopen]
      by_cases htwo : c.savedStdout = 2
      · -- 0, 1 and 2 are closed: the copy of the temporary file at 1 has the number 2
        have hout : ¬ (2 = c.capOutFd ∨ 2 = c.capErrFd) := by
          rintro (heq | heq)
          · exact hset.distinct.2.1 (htwo.trans heq)
          · exact hset.distinct.2.2.1 (htwo.trans heq)
        rw [if_pos htwo, if_neg hout, if_pos htwo.symm, Option.or_none]
        cases htouched : tr.touched c.savedStderr with
        | false =>
            obtain ⟨f, hf, hcapture⟩ := hset.savedCapture htwo
            rw [(h.untouched _ htouched).2.2, hf]
            constructor
            · exact fun heq => absurd heq (h.ne_of_capture hcapture)
            · rintro ⟨hfalse, -⟩
              cases hfalse
        | true =>
            cases hstanding : tr.standing c.savedStderr with
            | true =>
                obtain ⟨f, hf, hcapture⟩ := h.standing _ hstanding
                rw [hf]
                constructor
                · exact fun heq => absurd heq (h.ne_of_capture hcapture)
                · rintro ⟨-, hfalse, -⟩
                  cases hfalse
            | false =>
                rw [h.own _ hstanding htouched]
                exact ⟨fun heq => ⟨rfl, rfl, heq⟩, fun heq => heq.2.2⟩
      · have hout : 2 = c.capOutFd ∨ 2 = c.capErrFd := by
          rcases hset.closedStderr hopen with heq | heq | heq
          · exact .inl heq.symm
          · exact .inr heq.symm
          · exact absurd heq htwo
        rw [if_neg htwo, if_pos hout, eq_comm]
    · rw [if_neg hopen, if_neg, if_neg]
      · exact h.putsBack_iff (.inr rfl) hopen (hset.savedStderr hopen)
      · exact fun heq => hopen (hset.free 2 (.inl heq))
      · rintro (heq | heq)
        · exact hopen (hset.free 2 (.inr (.inr (.inl heq))))
        · exact hopen (hset.free 2 (.inr (.inr (.inr heq))))

end Ends

/-! ## Observed commands -/

theorem shellTable_shell (t : DescriptorTable F) (fd : Int) (f : CaptureFile F)
    (h : (shellTable t).file fd = some f) : f.isCapture = false := by
  obtain ⟨g, -, rfl⟩ := Option.map_eq_some_iff.mp h
  rfl

theorem FdCommand.run_unobserved {limit : ℕ} {t : DescriptorTable F}
    (command : FdCommand limit t) :
    runActions limit command.actions ⟨shellTable t, []⟩ = some command.unobserved :=
  (Option.some_get command.succeed).symm

/-- Whether the descriptors of a command are to be captured. -/
def capturesStdio {σ Θ : Type} (world : SimpleWorld σ Θ) (call : SimpleCall)
    (alreadyForked : Bool) (s : SimpleState σ Θ) : Bool :=
  captureWanted alreadyForked (wantsStdio world s).1 call

/-- An observed command is not told apart from one that nothing observes. -/
def StdioUnnoticed (w : CaptureWorld F) {t : DescriptorTable F} (command : FdCommand w.limit t)
    (capture : Option Capture × CaptureTable F) : Prop :=
  ∃ observed, executeCaptured w command capture = some observed ∧
    SameStdio observed command.unobserved

theorem stdioUnnoticed_none (w : CaptureWorld F) {t : DescriptorTable F}
    (command : FdCommand w.limit t) : StdioUnnoticed w command (none, shellTable t) := by
  refine ⟨command.unobserved, ?_, rfl, rfl, rfl⟩
  unfold executeCaptured
  rw [command.run_unobserved]
  rfl

theorem stdioUnnoticed_some {w : CaptureWorld F} {t : DescriptorTable F}
    (command : FdCommand w.limit t) {c : Capture} {captured : CaptureTable F}
    (hset : SetUp w.limit c (shellTable t) captured) :
    StdioUnnoticed w command (some c, captured) ↔ WritesOwn command.actions .start ∧
      LeavesStdio c command.ending (shellTable t) command.unobserved.table
        (trailBehind command.actions .start) := by
  have hstart : Shadows (shellTable t) captured .start (shellTable t)
      (⟨captured, []⟩ : Descriptors F).table :=
    .start hset (shellTable_shell t)
  obtain ⟨hooked, hrun, hshadows, x, y, hx, hy, hown, hinto, hshell⟩ :=
    runActions_shadows hset hstart command.run_unobserved
  have hbytes : hooked.toStdio = command.unobserved.toStdio ↔ WritesOwn command.actions .start := by
    rw [hx, hy]
    constructor
    · intro heq
      by_contra hnot
      obtain ⟨b, hb, hcapture⟩ := hinto hnot
      have hxy : x = y := heq
      rw [hxy] at hb
      rw [hshell b hb] at hcapture
      cases hcapture
    · exact fun h => congrArg _ (hown h)
  have hexecuted : ∀ observed : Descriptors F,
      executeCaptured w command (some c, captured) = some observed ↔
        observed = match command.ending with
          | .returns => { hooked with table := c.release w.limit hooked.table }
          | .earlyReturn | .leaves => hooked := by
    intro observed
    unfold executeCaptured
    rw [hrun, Option.map_some, Option.some.injEq]
    cases command.ending with
    | returns => exact eq_comm
    | earlyReturn => exact eq_comm
    | leaves => exact eq_comm
  unfold StdioUnnoticed SameStdio
  simp only [hexecuted, exists_eq_left]
  cases command.ending with
  | returns => exact and_congr hbytes (hshadows.release_iff hset)
  | earlyReturn =>
      exact and_congr hbytes (and_congr (hshadows.stdio_iff (.inl rfl))
        (hshadows.stdio_iff (.inr rfl)))
  | leaves =>
      exact and_congr hbytes (and_congr (hshadows.stdio_iff (.inl rfl))
        (hshadows.stdio_iff (.inr rfl)))

/-- A command that is observed writes the same bytes to the same files through 1 and 2 and
leaves 1 and 2 as it would, if and only if no capture is set up for it, or it writes only
through a 1 or 2 that it has made its own and leaves both so that the end of the capture does not
change them. -/
theorem executeCaptured_sameStdio_iff {σ Θ : Type} (world : SimpleWorld σ Θ) (call : SimpleCall)
    (alreadyForked : Bool) (s : SimpleState σ Θ) (w : CaptureWorld F) {t : DescriptorTable F}
    (command : FdCommand w.limit t) :
    StdioUnnoticed w command (captureFor w (capturesStdio world call alreadyForked s) t) ↔
      ∀ c captured, captureFor w (capturesStdio world call alreadyForked s) t =
          (some c, captured) →
        WritesOwn command.actions .start ∧
          LeavesStdio c command.ending (shellTable t) command.unobserved.table
            (trailBehind command.actions .start) := by
  cases hcapture : captureFor w (capturesStdio world call alreadyForked s) t with
  | mk capture captured =>
      cases capture with
      | none =>
          have hsame : captured = shellTable t := by
            unfold captureFor at hcapture
            split_ifs at hcapture
            · exact captureStdio_none hcapture
            · cases hcapture
              rfl
          subst hsame
          exact ⟨fun _ c u h => (by cases h), fun _ => stdioUnnoticed_none w command⟩
      | some c =>
          have hset : SetUp w.limit c (shellTable t) captured := by
            unfold captureFor at hcapture
            split_ifs at hcapture
            · exact captureStdio_setUp hcapture
            · cases hcapture
          rw [stdioUnnoticed_some command hset]
          constructor
          · rintro hholds c' u heq
            cases heq
            exact hholds
          · exact fun hholds => hholds c captured rfl

/-- 0, 1 and 2 are the terminal, and there is room for more. -/
def terminalWorld : CaptureWorld String := ⟨16, true, true, fun _ => none⟩

def terminalTable : DescriptorTable String where
  file fd := if fd = 0 ∨ fd = 1 ∨ fd = 2 then some "tty" else none
  nonneg fd f h := by
    split_ifs at h with hfd
    omega

/-- `echo` of one letter. -/
def echoLetter : FdCommand terminalWorld.limit terminalTable :=
  ⟨[.write 1 104], .returns, rfl⟩

/-- `exec 5>log` -/
def execFive : FdCommand terminalWorld.limit terminalTable :=
  ⟨[.openOn 5 "log"], .returns, rfl⟩

def observingCallback : StageFunction Unit := fun _ => .ret .other

/-- With one callback at the stage `after`, the letter that `echo` writes goes into the capture
and not to the terminal, and after `exec 5>log` descriptor 1 is the log. -/
theorem executeCaptured_swallows :
    let capture := captureFor terminalWorld (capturesStdio
      (plainMachine [(.after, observingCallback)]) (plainCall ["echo", "h"] false) false
        freshShell.atCommand) terminalTable
    (executeCaptured terminalWorld echoLetter capture).map Descriptors.toStdio =
        some [⟨1, .out, 104⟩] ∧
      echoLetter.unobserved.toStdio = [⟨1, .shell "tty", 104⟩] ∧
      ¬ StdioUnnoticed terminalWorld echoLetter capture ∧
      (executeCaptured terminalWorld execFive capture).map (·.table.file 1) =
        some (some (.shell "log")) ∧
      execFive.unobserved.table.file 1 = some (.shell "tty") := by
  intro capture
  have hletter : (executeCaptured terminalWorld echoLetter capture).map Descriptors.toStdio =
      some [⟨1, .out, 104⟩] := rfl
  refine ⟨hletter, rfl, ?_, rfl, rfl⟩
  rintro ⟨observed, hobserved, hsame, -⟩
  rw [hobserved, Option.map_some, hsame] at hletter
  cases hletter

end Rash
