import Rash.Exec.SimpleCommand
import Rash.Lib.Descriptors

/-!
# The capture of the descriptors 1 and 2

How `execute_simple_command` stands two temporary files in for the descriptors 1 and 2 of a
command that is observed, and takes them away again.  The command itself is what it does with
descriptors, and how it comes to an end; the commands nested in a function or an `eval` are
commands of their own.
-/

namespace Rash

/-- An open file: one that the shell has, or one of the two temporary files. -/
inductive CaptureFile (F : Type)
  | shell (f : F)
  | out
  | err
  deriving DecidableEq

def CaptureFile.isCapture {F : Type} : CaptureFile F → Bool
  | .shell _ => false
  | .out | .err => true

abbrev CaptureTable (F : Type) := DescriptorTable (CaptureFile F)

/-- The kernel around the capture. -/
structure CaptureWorld (F : Type) where
  limit : ℕ
  mkstempOut : Bool
  mkstempErr : Bool
  /-- What `lseek` and `read` get of a file of the shell at the place of a temporary file. -/
  readBack : F → Option Bytes

variable {F : Type}

/-! ## Setting the capture up -/

/-- The number and the table behind a call that may fail with -1. -/
def newDescriptor (limit : ℕ) (t : CaptureTable F) (file : Option (CaptureFile F)) :
    Int × CaptureTable F :=
  match file, t.lowest limit 0 with
  | some f, some n => (n, t.put n (Int.natCast_nonneg n) f)
  | _, _ => (-1, t)

def mkstemp (limit : ℕ) (created : Bool) (file : CaptureFile F) (t : CaptureTable F) :
    Int × CaptureTable F :=
  newDescriptor limit t (if created then some file else none)

/-- `dup`. -/
def dupDescriptor (limit : ℕ) (t : CaptureTable F) (fd : Int) : Int × CaptureTable F :=
  newDescriptor limit t (t.file fd)

/-- The descriptors of a capture, -1 when there is none. -/
structure Capture where
  savedStdout : Int
  savedStderr : Int
  capOutFd : Int
  capErrFd : Int
  deriving DecidableEq

/-- `dup2 (saved, fd); close (saved);` -/
def putBack (limit : ℕ) (saved fd : Int) (t : CaptureTable F) : CaptureTable F :=
  if 0 ≤ saved then ((t.dup2 limit saved fd).getD t).close saved else t

/-- The descriptors of a capture are given up, in front of the command or behind it. -/
def Capture.release (c : Capture) (limit : ℕ) (t : CaptureTable F) : CaptureTable F :=
  let t := putBack limit c.savedStderr 2 (putBack limit c.savedStdout 1 t)
  let t := if 0 ≤ c.capOutFd then t.close c.capOutFd else t
  if 0 ≤ c.capErrFd then t.close c.capErrFd else t

/-- The capture in front of a command; without one the table is as it was. -/
def captureStdio (w : CaptureWorld F) (t : CaptureTable F) : Option Capture × CaptureTable F :=
  let (capOutFd, t) := mkstemp w.limit w.mkstempOut .out t
  let (capErrFd, t) := mkstemp w.limit w.mkstempErr .err t
  if 0 ≤ capOutFd ∧ 0 ≤ capErrFd then
    let (savedStdout, t) := dupDescriptor w.limit t 1
    let (savedStderr, t) := dupDescriptor w.limit t 2
    let c : Capture := ⟨savedStdout, savedStderr, capOutFd, capErrFd⟩
    if 0 ≤ savedStdout ∧ 0 ≤ savedStderr then
      match t.dup2 w.limit capOutFd 1 with
      | none => (none, c.release w.limit t)
      | some t =>
          match t.dup2 w.limit capErrFd 2 with
          | none => (none, c.release w.limit t)
          | some t => (some c, t)
    else (none, c.release w.limit t)
  else
    let c : Capture := ⟨-1, -1, capOutFd, capErrFd⟩
    (none, c.release w.limit t)

/-! ## The command -/

/-- What a command does with a descriptor. -/
inductive FdAction (F : Type)
  | write (fd : Int) (byte : UInt8)
  /-- A file is opened, and it ends up at this number. -/
  | openOn (fd : Int) (file : F)
  | dup2 (src dst : Int)
  | close (fd : Int)

/-- A byte that reached an open file through a descriptor. -/
structure Written (F : Type) where
  fd : Int
  file : CaptureFile F
  byte : UInt8
  deriving DecidableEq

/-- The descriptors, and what was written through them. -/
structure Descriptors (F : Type) where
  table : CaptureTable F
  written : List (Written F)

/-- A number that a descriptor can have. -/
def InRange (limit : ℕ) (fd : Int) : Prop := 0 ≤ fd ∧ fd < limit

instance (limit : ℕ) (fd : Int) : Decidable (InRange limit fd) :=
  inferInstanceAs (Decidable (_ ∧ _))

/-- An action that succeeds; a byte that is written to a closed descriptor reaches nothing. -/
def FdAction.run (limit : ℕ) (d : Descriptors F) : FdAction F → Option (Descriptors F)
  | .write fd byte =>
      match d.table.file fd with
      | none => some d
      | some file => some { d with written := d.written ++ [⟨fd, file, byte⟩] }
  | .openOn fd file =>
      if h : InRange limit fd then some { d with table := d.table.put fd h.1 (.shell file) }
      else none
  | .dup2 src dst => (d.table.dup2 limit src dst).map fun t => { d with table := t }
  | .close fd => some { d with table := d.table.close fd }

def runActions (limit : ℕ) : List (FdAction F) → Descriptors F → Option (Descriptors F)
  | [], d => some d
  | a :: rest, d => (a.run limit d).bind (runActions limit rest)

/-- How a command comes to an end. -/
inductive CommandEnding
  /-- It comes back to the end of `execute_simple_command`. -/
  | returns
  /-- `early_return`. -/
  | earlyReturn
  /-- It jumps over the end, exits, or is replaced by a program. -/
  | leaves
  deriving DecidableEq

/-- The table of a shell that captures nothing. -/
def shellTable (t : DescriptorTable F) : CaptureTable F where
  file fd := (t.file fd).map .shell
  nonneg fd f h := by
    obtain ⟨g, hg, -⟩ := Option.map_eq_some_iff.mp h
    exact t.nonneg fd g hg

/-- What a command does, when nothing observes it, with the descriptors of `t`; the actions are
those of its calls that succeed. -/
structure FdCommand (limit : ℕ) (t : DescriptorTable F) where
  actions : List (FdAction F)
  ending : CommandEnding
  succeed : (runActions limit actions ⟨shellTable t, []⟩).isSome

/-- The descriptors behind a command that nothing observes. -/
def FdCommand.unobserved {limit : ℕ} {t : DescriptorTable F} (command : FdCommand limit t) :
    Descriptors F :=
  (runActions limit command.actions ⟨shellTable t, []⟩).get command.succeed

/-! ## The command between the capture and its end -/

/-- At most 64 KiB of what was captured. -/
def captureCap : ℕ := 64 * 1024

/-- Both are the same temporary file. -/
def CaptureFile.sameCapture : CaptureFile F → CaptureFile F → Bool
  | .out, .out | .err, .err => true
  | _, _ => false

/-- What is read back through a capture descriptor; an empty text is no text. -/
def capturedText (w : CaptureWorld F) (d : Descriptors F) (fd : Int) : Option Bytes :=
  let text : Option Bytes :=
    match d.table.file fd with
    | none => none
    | some (.shell f) => w.readBack f
    | some file => some ((d.written.filter fun b => b.file.sameCapture file).map (·.byte))
  (text.map (·.take captureCap)).filter (· ≠ [])

/-- What the end of `execute_simple_command` does with a capture. -/
def Capture.teardown (c : Capture) (w : CaptureWorld F) (d : Descriptors F) :
    (Option Bytes × Option Bytes) × Descriptors F :=
  let restored := putBack w.limit c.savedStderr 2 (putBack w.limit c.savedStdout 1 d.table)
  let stdout := capturedText w { d with table := restored } c.capOutFd
  let stderr := capturedText w { d with table := restored.close c.capOutFd } c.capErrFd
  ((stdout, stderr), { d with table := c.release w.limit d.table })

/-- A command behind `capture_stdio`; `none` when it would be another command on the table of
the capture. -/
def executeCaptured (w : CaptureWorld F) {t : DescriptorTable F}
    (command : FdCommand w.limit t) (capture : Option Capture × CaptureTable F) :
    Option (Descriptors F) :=
  (runActions w.limit command.actions ⟨capture.2, []⟩).map fun d =>
    match capture.1, command.ending with
    | some c, .returns => (c.teardown w d).2
    | _, _ => d

/-- `capture_stdio` as it is first set: whether the descriptors are to be captured. -/
def captureWanted (alreadyForked wanted : Bool) (call : SimpleCall) : Bool :=
  !alreadyForked && !call.async && decide (call.pipeIn = noPipe) &&
    decide (call.pipeOut = noPipe) && wanted

/-- The capture of a command, or the table as it was. -/
def captureFor (w : CaptureWorld F) (captures : Bool) (t : DescriptorTable F) :
    Option Capture × CaptureTable F :=
  if captures then captureStdio w (shellTable t) else (none, shellTable t)

/-! ## What a capture sets up -/

theorem newDescriptor_nonneg {limit : ℕ} {t : CaptureTable F} {file : Option (CaptureFile F)}
    (h : 0 ≤ (newDescriptor limit t file).1) :
    ∃ f n, file = some f ∧ t.lowest limit 0 = some n ∧
      newDescriptor limit t file = ((n : Int), t.put n (Int.natCast_nonneg n) f) := by
  unfold newDescriptor at h ⊢
  cases file with
  | none => simp at h
  | some f =>
      cases hn : t.lowest limit 0 with
      | none => simp [hn] at h
      | some n => exact ⟨f, n, rfl, rfl, by simp⟩

theorem newDescriptor_neg {limit : ℕ} {t : CaptureTable F} {file : Option (CaptureFile F)}
    (h : ¬ 0 ≤ (newDescriptor limit t file).1) : (newDescriptor limit t file).2 = t := by
  unfold newDescriptor at h ⊢
  split
  · rename_i f n hn
    simp [hn] at h
  · rfl

/-- A capture `c` is set up over the table `t`, which makes it `u`. -/
structure SetUp (limit : ℕ) (c : Capture) (t u : CaptureTable F) : Prop where
  nonneg : 0 ≤ c.savedStdout ∧ 0 ≤ c.savedStderr ∧ 0 ≤ c.capOutFd ∧ 0 ≤ c.capErrFd
  /-- The descriptors of the capture were not in use. -/
  free : ∀ fd, fd = c.savedStdout ∨ fd = c.savedStderr ∨ fd = c.capOutFd ∨ fd = c.capErrFd →
    t.file fd = none
  distinct : c.savedStdout ≠ c.savedStderr ∧ c.savedStdout ≠ c.capOutFd ∧
    c.savedStdout ≠ c.capErrFd ∧ c.savedStderr ≠ c.capOutFd ∧ c.savedStderr ≠ c.capErrFd ∧
    c.capOutFd ≠ c.capErrFd
  inRange : InRange limit 1 ∧ InRange limit 2
  /-- A closed descriptor 1 or 2 is the number of one of the capture's own. -/
  closedStdout : t.file 1 = none → c.capOutFd = 1 ∨ c.capErrFd = 1
  closedStderr : t.file 2 = none → c.capOutFd = 2 ∨ c.capErrFd = 2 ∨ c.savedStdout = 2
  savedNotStd : c.savedStdout ≠ 1 ∧ c.savedStderr ≠ 1 ∧ c.savedStderr ≠ 2
  stdout : ∃ f, u.file 1 = some f ∧ f.isCapture = true
  stderr : ∃ f, u.file 2 = some f ∧ f.isCapture = true
  savedStdout : t.file 1 ≠ none → u.file c.savedStdout = t.file 1
  savedStderr : t.file 2 ≠ none → u.file c.savedStderr = t.file 2
  savedCapture : c.savedStdout = 2 → ∃ f, u.file c.savedStderr = some f ∧ f.isCapture = true
  other : ∀ fd, fd ≠ 1 → fd ≠ 2 → fd ≠ c.savedStdout → fd ≠ c.savedStderr → fd ≠ c.capOutFd →
    fd ≠ c.capErrFd → u.file fd = t.file fd

/-- The four descriptors of a capture have been found, from the table `t` to the table `v`. -/
structure Allocated (limit : ℕ) (c : Capture) (t v : CaptureTable F) where
  n₁ : ℕ
  n₂ : ℕ
  n₃ : ℕ
  n₄ : ℕ
  stdout : CaptureFile F
  stderr : CaptureFile F
  t₁ : CaptureTable F
  t₂ : CaptureTable F
  t₃ : CaptureTable F
  capture : c = ⟨n₃, n₄, n₁, n₂⟩
  mkstempOut : t.lowest limit 0 = some n₁ ∧ t₁ = t.put n₁ (Int.natCast_nonneg n₁) .out
  mkstempErr : t₁.lowest limit 0 = some n₂ ∧ t₂ = t₁.put n₂ (Int.natCast_nonneg n₂) .err
  dupStdout : t₂.file 1 = some stdout ∧ t₂.lowest limit 0 = some n₃ ∧
    t₃ = t₂.put n₃ (Int.natCast_nonneg n₃) stdout
  dupStderr : t₃.file 2 = some stderr ∧ t₃.lowest limit 0 = some n₄ ∧
    v = t₃.put n₄ (Int.natCast_nonneg n₄) stderr

theorem free_of_put {t : CaptureTable F} {f : CaptureFile F} {n m : ℕ}
    (h : (t.put n (Int.natCast_nonneg n) f).file m = none) : m ≠ n ∧ t.file m = none := by
  simp only [DescriptorTable.put_file] at h
  split_ifs at h with hmn
  exact ⟨fun heq => hmn (congrArg _ heq), h⟩

theorem allocated {w : CaptureWorld F} {t : CaptureTable F}
    (hcap : 0 ≤ (mkstemp w.limit w.mkstempOut .out t).1 ∧
      0 ≤ (mkstemp w.limit w.mkstempErr .err (mkstemp w.limit w.mkstempOut .out t).2).1)
    {t₂ : CaptureTable F}
    (ht₂ : t₂ = (mkstemp w.limit w.mkstempErr .err (mkstemp w.limit w.mkstempOut .out t).2).2)
    (hsaved : 0 ≤ (dupDescriptor w.limit t₂ 1).1 ∧
      0 ≤ (dupDescriptor w.limit (dupDescriptor w.limit t₂ 1).2 2).1) :
    Nonempty (Allocated w.limit
      ⟨(dupDescriptor w.limit t₂ 1).1, (dupDescriptor w.limit (dupDescriptor w.limit t₂ 1).2 2).1,
        (mkstemp w.limit w.mkstempOut .out t).1,
        (mkstemp w.limit w.mkstempErr .err (mkstemp w.limit w.mkstempOut .out t).2).1⟩
      t (dupDescriptor w.limit (dupDescriptor w.limit t₂ 1).2 2).2) := by
  subst ht₂
  unfold mkstemp dupDescriptor at *
  obtain ⟨f₁, n₁, hf₁, hn₁, hnew₁⟩ := newDescriptor_nonneg hcap.1
  simp only [hnew₁] at hcap hsaved ⊢
  obtain ⟨f₂, n₂, hf₂, hn₂, hnew₂⟩ := newDescriptor_nonneg hcap.2
  simp only [hnew₂] at hsaved ⊢
  obtain ⟨stdout, n₃, hf₃, hn₃, hnew₃⟩ := newDescriptor_nonneg hsaved.1
  simp only [hnew₃] at hsaved ⊢
  obtain ⟨stderr, n₄, hf₄, hn₄, hnew₄⟩ := newDescriptor_nonneg hsaved.2
  simp only [hnew₄]
  simp only [Option.ite_none_right_eq_some, Option.some.injEq] at hf₁ hf₂
  obtain ⟨-, rfl⟩ := hf₁
  obtain ⟨-, rfl⟩ := hf₂
  exact ⟨⟨n₁, n₂, n₃, n₄, stdout, stderr, _, _, _, rfl, ⟨hn₁, rfl⟩, ⟨hn₂, rfl⟩,
    ⟨hf₃, hn₃, rfl⟩, ⟨hf₄, hn₄, rfl⟩⟩⟩

namespace Allocated

variable {limit : ℕ} {c : Capture} {t v : CaptureTable F}

/-- The numbers were free and are different, and the limit lets all four be. -/
theorem numbers (a : Allocated limit c t v) :
    (t.file a.n₁ = none ∧ t.file a.n₂ = none ∧ t.file a.n₃ = none ∧ t.file a.n₄ = none) ∧
      (a.n₁ ≠ a.n₂ ∧ a.n₁ ≠ a.n₃ ∧ a.n₁ ≠ a.n₄ ∧ a.n₂ ≠ a.n₃ ∧ a.n₂ ≠ a.n₄ ∧ a.n₃ ≠ a.n₄) ∧
      a.n₁ < limit ∧ a.n₂ < limit ∧ a.n₃ < limit ∧ a.n₄ < limit := by
  obtain ⟨h₁, ht₁⟩ := a.mkstempOut
  obtain ⟨h₂, ht₂⟩ := a.mkstempErr
  obtain ⟨-, h₃, ht₃⟩ := a.dupStdout
  obtain ⟨-, h₄, -⟩ := a.dupStderr
  obtain ⟨free₁, -, lt₁⟩ := DescriptorTable.lowest_spec h₁
  obtain ⟨free₂, -, lt₂⟩ := DescriptorTable.lowest_spec h₂
  obtain ⟨free₃, -, lt₃⟩ := DescriptorTable.lowest_spec h₃
  obtain ⟨free₄, -, lt₄⟩ := DescriptorTable.lowest_spec h₄
  rw [ht₁] at free₂
  obtain ⟨ne₂₁, free₂⟩ := free_of_put free₂
  rw [ht₂] at free₃
  obtain ⟨ne₃₂, free₃⟩ := free_of_put free₃
  rw [ht₁] at free₃
  obtain ⟨ne₃₁, free₃⟩ := free_of_put free₃
  rw [ht₃] at free₄
  obtain ⟨ne₄₃, free₄⟩ := free_of_put free₄
  rw [ht₂] at free₄
  obtain ⟨ne₄₂, free₄⟩ := free_of_put free₄
  rw [ht₁] at free₄
  obtain ⟨ne₄₁, free₄⟩ := free_of_put free₄
  exact ⟨⟨free₁, free₂, free₃, free₄⟩, ⟨ne₂₁.symm, ne₃₁.symm, ne₄₁.symm, ne₃₂.symm, ne₄₂.symm,
    ne₄₃.symm⟩, lt₁, lt₂, lt₃, lt₄⟩

theorem inRange (a : Allocated limit c t v) : InRange limit 1 ∧ InRange limit 2 := by
  obtain ⟨-, hne, hlt⟩ := a.numbers
  unfold InRange
  omega

/-- What the table holds once the descriptors have been found. -/
theorem file (a : Allocated limit c t v) (fd : Int) :
    v.file fd = if fd = a.n₄ then some a.stderr else if fd = a.n₃ then some a.stdout
      else if fd = a.n₂ then some .err else if fd = a.n₁ then some .out else t.file fd := by
  have hv : v.file fd = (a.t₃.put a.n₄ (Int.natCast_nonneg a.n₄) a.stderr).file fd := by
    rw [← a.dupStderr.2.2]
  rw [hv, DescriptorTable.put_file, a.dupStdout.2.2, DescriptorTable.put_file, a.mkstempErr.2,
    DescriptorTable.put_file, a.mkstempOut.2, DescriptorTable.put_file]

theorem stdout_file (a : Allocated limit c t v) :
    some a.stdout = if (1 : Int) = a.n₂ then some .err else if (1 : Int) = a.n₁ then some .out
      else t.file 1 := by
  rw [← a.dupStdout.1, a.mkstempErr.2, DescriptorTable.put_file, a.mkstempOut.2,
    DescriptorTable.put_file]

theorem stderr_file (a : Allocated limit c t v) :
    some a.stderr = if (2 : Int) = a.n₃ then some a.stdout else if (2 : Int) = a.n₂ then some .err
      else if (2 : Int) = a.n₁ then some .out else t.file 2 := by
  rw [← a.dupStderr.1, a.dupStdout.2.2, DescriptorTable.put_file, a.mkstempErr.2,
    DescriptorTable.put_file, a.mkstempOut.2, DescriptorTable.put_file]

/-- Neither `dup2` of the capture can fail. -/
theorem dup2 (a : Allocated limit c t v) :
    ∃ g u, v.dup2 limit c.capOutFd 1 = some (v.put 1 (by decide) .out) ∧
      (v.put 1 (by decide) (.out : CaptureFile F)).file c.capErrFd = some g ∧
      g.isCapture = true ∧
      (v.put 1 (by decide) (.out : CaptureFile F)).dup2 limit c.capErrFd 2 = some u ∧
      u = (v.put 1 (by decide) (.out : CaptureFile F)).put 2 (by decide) g := by
  obtain ⟨-, hne, -⟩ := a.numbers
  obtain ⟨hone, htwo⟩ := a.inRange
  have hout : v.file c.capOutFd = some .out := by
    rw [a.capture, a.file]
    simp only [Nat.cast_inj, hne.1, hne.2.1, hne.2.2.1, if_false, if_true]
  have herr : ∃ g, (v.put 1 (by decide) (.out : CaptureFile F)).file c.capErrFd = some g ∧
      g.isCapture = true := by
    rw [a.capture, DescriptorTable.put_file, a.file]
    simp only [Nat.cast_inj, hne.2.2.2.1, hne.2.2.2.2.1, if_false, if_true]
    split_ifs
    · exact ⟨_, rfl, rfl⟩
    · exact ⟨_, rfl, rfl⟩
  obtain ⟨g, hg, hcapture⟩ := herr
  exact ⟨g, _, DescriptorTable.dup2_eq_some.mpr ⟨_, hout, hone, rfl⟩, hg, hcapture,
    DescriptorTable.dup2_eq_some.mpr ⟨g, hg, htwo, rfl⟩, rfl⟩

end Allocated

/-- A descriptor that was only duplicated is as it was. -/
theorem putBack_dup {limit : ℕ} {t : CaptureTable F} {fd n : Int} {f : CaptureFile F}
    (hn : 0 ≤ n) (hfile : t.file fd = some f) (hfree : t.file n = none) :
    putBack limit n fd (t.put n hn f) = t := by
  have hne : fd ≠ n := by
    rintro rfl
    rw [hfile] at hfree
    cases hfree
  unfold putBack
  rw [if_pos hn]
  ext1 q
  cases hdup : (t.put n hn f).dup2 limit n fd with
  | none =>
      simp only [Option.getD_none, DescriptorTable.close_file, DescriptorTable.put_file]
      split_ifs with hq
      · rw [hq, hfree]
      · rfl
  | some u =>
      obtain ⟨g, hg, hrange, rfl⟩ := DescriptorTable.dup2_eq_some.mp hdup
      simp only [DescriptorTable.put_file, if_true, Option.some.injEq] at hg
      subst hg
      simp only [Option.getD_some, DescriptorTable.close_file, DescriptorTable.put_file]
      split_ifs with hq hqfd
      · rw [hq, hfree]
      · rw [hqfd, hfile]
      · rfl

/-- The descriptors of a call that succeeded or failed are closed again. -/
theorem newDescriptor_close {limit : ℕ} {t : CaptureTable F} {file : Option (CaptureFile F)} :
    (if 0 ≤ (newDescriptor limit t file).1 then
      (newDescriptor limit t file).2.close (newDescriptor limit t file).1
      else (newDescriptor limit t file).2) = t := by
  split_ifs with h
  · obtain ⟨f, n, -, hn, hnew⟩ := newDescriptor_nonneg h
    rw [hnew]
    exact DescriptorTable.put_close (DescriptorTable.lowest_spec hn).1 (Int.natCast_nonneg n) f
  · exact newDescriptor_neg h

/-- The two temporary files are closed again, whichever of them there are. -/
theorem mkstemp_close (w : CaptureWorld F) (t : CaptureTable F) :
    let first := mkstemp w.limit w.mkstempOut .out t
    let second := mkstemp w.limit w.mkstempErr .err first.2
    let closed := if 0 ≤ first.1 then second.2.close first.1 else second.2
    (if 0 ≤ second.1 then closed.close second.1 else closed) = t := by
  intro first second closed
  have hsecond : (if 0 ≤ second.1 then second.2.close second.1 else second.2) = first.2 :=
    newDescriptor_close
  have hfirst : (if 0 ≤ first.1 then first.2.close first.1 else first.2) = t :=
    newDescriptor_close
  simp only [closed]
  by_cases hopen : 0 ≤ first.1
  · rw [if_pos hopen] at hfirst ⊢
    by_cases hopen' : 0 ≤ second.1
    · rw [if_pos hopen'] at hsecond ⊢
      rw [DescriptorTable.close_comm, hsecond, hfirst]
    · rw [if_neg hopen'] at hsecond ⊢
      rw [hsecond, hfirst]
  · rw [if_neg hopen] at hfirst ⊢
    rw [hsecond, hfirst]

theorem putBack_neg {limit : ℕ} {t : CaptureTable F} {saved fd : Int} (h : ¬ 0 ≤ saved) :
    putBack limit saved fd t = t := if_neg h

theorem dupDescriptor_putBack (limit : ℕ) (t : CaptureTable F) (fd : Int) :
    putBack limit (dupDescriptor limit t fd).1 fd (dupDescriptor limit t fd).2 = t := by
  unfold dupDescriptor
  by_cases hnew : 0 ≤ (newDescriptor limit t (t.file fd)).1
  · obtain ⟨f, n, hf, hn, heq⟩ := newDescriptor_nonneg hnew
    rw [heq]
    exact putBack_dup (Int.natCast_nonneg n) hf (DescriptorTable.lowest_spec hn).1
  · rw [newDescriptor_neg hnew]
    exact putBack_neg hnew

/-- One of the two duplicates at most was made, and it is closed again. -/
theorem dupDescriptor_failed (limit : ℕ) (t : CaptureTable F)
    (hfailed : ¬ (0 ≤ (dupDescriptor limit t 1).1 ∧
      0 ≤ (dupDescriptor limit (dupDescriptor limit t 1).2 2).1)) :
    putBack limit (dupDescriptor limit (dupDescriptor limit t 1).2 2).1 2
      (putBack limit (dupDescriptor limit t 1).1 1
        (dupDescriptor limit (dupDescriptor limit t 1).2 2).2) = t := by
  have hout := dupDescriptor_putBack limit t 1
  have herr := dupDescriptor_putBack limit (dupDescriptor limit t 1).2 2
  by_cases hsaved : 0 ≤ (dupDescriptor limit t 1).1
  · have hnone : ¬ 0 ≤ (dupDescriptor limit (dupDescriptor limit t 1).2 2).1 :=
      fun h => hfailed ⟨hsaved, h⟩
    rw [putBack_neg hnone] at herr ⊢
    rw [herr, hout]
  · rw [putBack_neg hsaved] at hout ⊢
    rw [herr, hout]

theorem captureStdio_none {w : CaptureWorld F} {t u : CaptureTable F}
    (h : captureStdio w t = (none, u)) : u = t := by
  have hclosed := mkstemp_close w t
  unfold captureStdio at h
  dsimp only at h hclosed
  split_ifs at h with hcap hsaved
  · obtain ⟨a⟩ := allocated hcap rfl hsaved
    obtain ⟨g, v, hout, -, -, herr, -⟩ := a.dup2
    dsimp only at hout herr
    simp only [hout, herr, Prod.mk.injEq, reduceCtorEq, false_and] at h
  · simp only [Prod.mk.injEq, true_and] at h
    rw [← h]
    unfold Capture.release
    dsimp only
    rw [dupDescriptor_failed _ _ hsaved]
    exact hclosed
  · simp only [Prod.mk.injEq, true_and] at h
    rw [← h]
    exact hclosed

theorem captureStdio_some {w : CaptureWorld F} {t u : CaptureTable F} {c : Capture}
    (h : captureStdio w t = (some c, u)) :
    ∃ v g, Nonempty (Allocated w.limit c t v) ∧
      (v.put 1 (by decide) (.out : CaptureFile F)).file c.capErrFd = some g ∧
      g.isCapture = true ∧
      u = (v.put 1 (by decide) (.out : CaptureFile F)).put 2 (by decide) g := by
  unfold captureStdio at h
  dsimp only at h
  split_ifs at h with hcap hsaved
  · obtain ⟨a⟩ := allocated hcap rfl hsaved
    obtain ⟨g, v, hout, hg, hcapture, herr, hv⟩ := a.dup2
    dsimp only at hout herr
    simp only [hout, herr, Prod.mk.injEq, Option.some.injEq] at h
    obtain ⟨rfl, rfl⟩ := h
    exact ⟨_, g, ⟨a⟩, hg, hcapture, hv⟩
  · cases h
  · cases h

namespace Allocated

variable {limit : ℕ} {c : Capture} {t v : CaptureTable F}

/-- The saved descriptors are not the ones that they save. -/
theorem saved_ne (a : Allocated limit c t v) :
    (a.n₃ : Int) ≠ 1 ∧ (a.n₄ : Int) ≠ 1 ∧ (a.n₄ : Int) ≠ 2 := by
  obtain ⟨hstdout, hn₃, ht₃⟩ := a.dupStdout
  obtain ⟨hstderr, hn₄, -⟩ := a.dupStderr
  have hfree₃ := (DescriptorTable.lowest_spec hn₃).1
  have hfree₄ := (DescriptorTable.lowest_spec hn₄).1
  have hne₃ : (a.n₃ : Int) ≠ 1 := by
    intro h
    rw [h, hstdout] at hfree₃
    cases hfree₃
  refine ⟨hne₃, ?_, ?_⟩
  · intro h
    rw [h, ht₃, DescriptorTable.put_file, if_neg hne₃.symm, hstdout] at hfree₄
    cases hfree₄
  · intro h
    rw [h, hstderr] at hfree₄
    cases hfree₄

/-- The copy of descriptor 1 gets the number 2 only when the temporary files got 0 and 1. -/
theorem stdout_capture (a : Allocated limit c t v) (h : (a.n₃ : Int) = 2) :
    a.stdout.isCapture = true ∧ t.file 1 = none := by
  obtain ⟨⟨hfree₁, hfree₂, hfree₃, -⟩, ⟨hne₁₂, hne₁₃, -, hne₂₃, -⟩, -⟩ := a.numbers
  have hle₁ : ¬ a.n₃ < a.n₁ := fun hlt =>
    DescriptorTable.lowest_min a.mkstempOut.1 (Nat.zero_le _) hlt hfree₃
  have hle₂ : ¬ a.n₃ < a.n₂ := by
    intro hlt
    refine DescriptorTable.lowest_min a.mkstempErr.1 (Nat.zero_le _) hlt ?_
    rw [a.mkstempOut.2, DescriptorTable.put_file, if_neg (by omega)]
    exact hfree₃
  have hstdout := a.stdout_file
  split_ifs at hstdout with h₂ h₁
  · rw [Option.some.inj hstdout, h₂]
    exact ⟨rfl, hfree₂⟩
  · rw [Option.some.inj hstdout, h₁]
    exact ⟨rfl, hfree₁⟩
  · omega

theorem fds (a : Allocated limit c t v) :
    c.savedStdout = a.n₃ ∧ c.savedStderr = a.n₄ ∧ c.capOutFd = a.n₁ ∧ c.capErrFd = a.n₂ :=
  ⟨congrArg Capture.savedStdout a.capture, congrArg Capture.savedStderr a.capture,
    congrArg Capture.capOutFd a.capture, congrArg Capture.capErrFd a.capture⟩

end Allocated

theorem captureStdio_setUp {w : CaptureWorld F} {t u : CaptureTable F} {c : Capture}
    (h : captureStdio w t = (some c, u)) : SetUp w.limit c t u := by
  obtain ⟨v, g, ⟨a⟩, -, hg, rfl⟩ := captureStdio_some h
  obtain ⟨⟨hfree₁, hfree₂, hfree₃, hfree₄⟩, hne, -⟩ := a.numbers
  obtain ⟨hne₃, hne₄, hne₄'⟩ := a.saved_ne
  have hstdout := a.stdout_file
  have hstderr := a.stderr_file
  obtain ⟨hso, hse, hco, hce⟩ := a.fds
  constructor
  · rw [hso, hse, hco, hce]
    exact ⟨Int.natCast_nonneg _, Int.natCast_nonneg _, Int.natCast_nonneg _, Int.natCast_nonneg _⟩
  · rw [hso, hse, hco, hce]
    rintro fd (rfl | rfl | rfl | rfl)
    · exact hfree₃
    · exact hfree₄
    · exact hfree₁
    · exact hfree₂
  · rw [hso, hse, hco, hce]
    omega
  · exact a.inRange
  · intro hclosed
    rw [hco, hce]
    split_ifs at hstdout with h₂ h₁
    · exact .inr h₂.symm
    · exact .inl h₁.symm
    · rw [hclosed] at hstdout
      cases hstdout
  · intro hclosed
    rw [hso, hco, hce]
    split_ifs at hstderr with h₃ h₂ h₁
    · exact .inr (.inr h₃.symm)
    · exact .inr (.inl h₂.symm)
    · exact .inl h₁.symm
    · rw [hclosed] at hstderr
      cases hstderr
  · rw [hso, hse]
    exact ⟨hne₃, hne₄, hne₄'⟩
  · exact ⟨.out, by simp, rfl⟩
  · exact ⟨g, by simp, hg⟩
  · rw [hso]
    intro hopen
    have htwo : (a.n₃ : Int) ≠ 2 := fun h => hopen (a.stdout_capture h).2
    rw [DescriptorTable.put_file, if_neg htwo, DescriptorTable.put_file, if_neg hne₃, a.file,
      if_neg (by omega), if_pos rfl, hstdout, if_neg, if_neg]
    · intro h₁
      rw [h₁] at hopen
      exact hopen hfree₁
    · intro h₂
      rw [h₂] at hopen
      exact hopen hfree₂
  · rw [hse]
    intro hopen
    rw [DescriptorTable.put_file, if_neg hne₄', DescriptorTable.put_file, if_neg hne₄, a.file,
      if_pos rfl, hstderr, if_neg, if_neg, if_neg]
    · intro h₁
      rw [h₁] at hopen
      exact hopen hfree₁
    · intro h₂
      rw [h₂] at hopen
      exact hopen hfree₂
    · intro h₃
      rw [h₃] at hopen
      exact hopen hfree₃
  · rw [hso, hse]
    intro htwo
    refine ⟨a.stdout, ?_, (a.stdout_capture htwo).1⟩
    rw [DescriptorTable.put_file, if_neg hne₄', DescriptorTable.put_file, if_neg hne₄, a.file,
      if_pos rfl, hstderr, if_pos htwo.symm]
  · rw [hso, hse, hco, hce]
    intro fd h1 h2 h₃ h₄ h₁ h₂
    rw [DescriptorTable.put_file, if_neg h2, DescriptorTable.put_file, if_neg h1, a.file,
      if_neg h₄, if_neg h₃, if_neg h₂, if_neg h₁]

/-! ## What the end of a capture leaves -/

theorem putBack_file {limit : ℕ} {v : CaptureTable F} {saved fd : Int} (hsaved : 0 ≤ saved)
    (hrange : InRange limit fd) (q : Int) :
    (putBack limit saved fd v).file q =
      if q = saved then none
      else if q = fd then (v.file saved).or (v.file fd)
      else v.file q := by
  have hdup : ((v.dup2 limit saved fd).getD v).file q =
      if q = fd then (v.file saved).or (v.file fd) else v.file q := by
    unfold DescriptorTable.dup2
    cases hfile : v.file saved with
    | none =>
        rw [Option.getD_none, Option.none_or]
        split_ifs with hqfd
        · rw [hqfd]
        · rfl
    | some f =>
        dsimp only
        rw [dif_pos (show 0 ≤ fd ∧ fd < (limit : Int) from hrange), Option.getD_some,
          DescriptorTable.put_file]
        rfl
  unfold putBack
  rw [if_pos hsaved, DescriptorTable.close_file, hdup]

theorem Capture.release_file {limit : ℕ} {c : Capture} {v : CaptureTable F}
    (hout : 0 ≤ c.capOutFd) (herr : 0 ≤ c.capErrFd) (q : Int) :
    (c.release limit v).file q =
      if q = c.capOutFd ∨ q = c.capErrFd then none
      else (putBack limit c.savedStderr 2 (putBack limit c.savedStdout 1 v)).file q := by
  unfold Capture.release
  dsimp only
  rw [if_pos hout, if_pos herr, DescriptorTable.close_file, DescriptorTable.close_file]
  by_cases herr' : q = c.capErrFd
  · rw [if_pos herr', if_pos (.inr herr')]
  · rw [if_neg herr']
    by_cases hout' : q = c.capOutFd
    · rw [if_pos hout', if_pos (.inl hout')]
    · rw [if_neg hout', if_neg fun h => h.elim hout' herr']

namespace SetUp

variable {limit : ℕ} {c : Capture} {t u : CaptureTable F}

theorem release_stdout (h : SetUp limit c t u) (v : CaptureTable F) :
    (c.release limit v).file 1 =
      if 1 = c.capOutFd ∨ 1 = c.capErrFd then none
      else (v.file c.savedStdout).or (v.file 1) := by
  obtain ⟨hso, hse, hco, hce⟩ := h.nonneg
  obtain ⟨hso₁, hse₁, -⟩ := h.savedNotStd
  rw [Capture.release_file hco hce, putBack_file hse h.inRange.2, if_neg hse₁.symm,
    if_neg (show (1 : Int) ≠ 2 by decide), putBack_file hso h.inRange.1, if_neg hso₁.symm,
    if_pos rfl]

theorem release_stderr (h : SetUp limit c t u) (v : CaptureTable F) :
    (c.release limit v).file 2 =
      if 2 = c.capOutFd ∨ 2 = c.capErrFd then none
      else (v.file c.savedStderr).or (if 2 = c.savedStdout then none else v.file 2) := by
  obtain ⟨hso, hse, hco, hce⟩ := h.nonneg
  obtain ⟨-, hse₁, hse₂⟩ := h.savedNotStd
  rw [Capture.release_file hco hce, putBack_file hse h.inRange.2, if_neg hse₂.symm, if_pos rfl,
    putBack_file hso h.inRange.1, putBack_file hso h.inRange.1, if_neg h.distinct.1.symm,
    if_neg hse₁, if_neg (show (2 : Int) ≠ 1 by decide)]

end SetUp

end Rash
