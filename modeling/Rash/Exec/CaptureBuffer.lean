import Rash.Exec.Pipeline
import Rash.Lib.ByteMemory

/-!
# The buffer of the captured output

`rash_capture_argv_stdout` reads into a buffer of `cap + 1` bytes.  The size, the length so far and
the test against the cap are arithmetic of a machine word.
-/

namespace Rash

open Regions ByteMemory Decimal

namespace CaptureBuffer

/-- `size_t` -/
def word (n : ℕ) : ℕ := n % 2 ^ 64

def scratchSize : ℕ := 8192

/-- The buffer while it is filled: what has been stored into it, and `len`. -/
structure Filling where
  contents : Memory
  stores : List Region
  len : ℕ

/-- `memcpy (buf + len, scratch, got)` -/
def Filling.store (s : Filling) (bytes : Bytes) : Filling :=
  { s with contents := write s.contents s.len bytes, stores := s.stores ++ [⟨s.len, bytes.length⟩] }

/-- The loop of the reads, and whether it has stopped because the output is too long. -/
def fill (cap : ℕ) : Filling → List Bytes → Filling × Bool
  | s, [] => (s, false)
  | s, got :: reads =>
      if word (s.len + got.length) > cap then (s, true)
      else fill cap { s.store got with len := word (s.len + got.length) } reads

inductive Outcome
  /-- `xmalloc` ends the shell. -/
  | exited
  | failed
  | oversize
  | returned (len : ℕ) (status : Status)
  deriving DecidableEq

structure Capture where
  allocated : ℕ
  contents : Memory
  stores : List Region
  outcome : Outcome

/-- The shell behind `while`: `waitpid`, and the NUL. -/
def finish (allocated : ℕ) (waitpid : Option WaitStatus) : Filling × Bool → Capture
  | (s, true) => ⟨allocated, s.contents, s.stores, .oversize⟩
  | (s, false) =>
      match waitpid with
      | none => ⟨allocated, s.contents, s.stores, .failed⟩
      | some status =>
          ⟨allocated, (s.store [0]).contents, (s.store [0]).stores,
            .returned s.len status.status⟩

/-- `rash_capture_argv_stdout` with its buffer; `xmalloc` says what lies in a buffer of a size. -/
def rashCaptureArgvStdout (xmalloc : ℕ → Option Memory) (cap : ℕ) (calls : CaptureCalls) :
    Capture :=
  if calls.pipe = false ∨ calls.fork = false then ⟨0, fun _ => 0, [], .failed⟩
  else
    match xmalloc (word (cap + 1)) with
    | none => ⟨0, fun _ => 0, [], .exited⟩
    | some garbage =>
        finish (word (cap + 1)) calls.waitpid (fill cap ⟨garbage, [], 0⟩ calls.reads)

def Capture.InBuffer (c : Capture) : Prop :=
  ∀ r ∈ c.stores, r.start + r.length ≤ c.allocated

/-- Nothing is stored beyond the buffer, the capture is oversize exactly when the output exceeds the
cap, and else the output is returned with a NUL behind it. -/
structure Capture.Meets (c : Capture) (cap : ℕ) (output : Bytes) (status : Status) : Prop where
  inBuffer : c.InBuffer
  oversize : c.outcome = .oversize ↔ cap < output.length
  returned : output.length ≤ cap → c.outcome = .returned output.length status ∧
    bytesAt c.contents 0 (output.length + 1) = output ++ [0]

/-- No sum goes round the machine word: not the size of the buffer, nor the length with the read
that takes it beyond the cap. -/
def InWord (cap : ℕ) (reads : List Bytes) : Prop :=
  cap + 1 < 2 ^ 64 ∧ ∀ before got after, reads = before ++ got :: after →
    before.flatten.length ≤ cap → before.flatten.length + got.length < 2 ^ 64

variable {cap : ℕ} {s : Filling} {reads : List Bytes} {output got : Bytes}
  {calls : CaptureCalls} {garbage : Memory} {xmalloc : ℕ → Option Memory} {status : WaitStatus}

theorem word_of_lt {n : ℕ} (h : n < 2 ^ 64) : word n = n := Nat.mod_eq_of_lt h

theorem word_lt (n : ℕ) : word n < 2 ^ 64 := Nat.mod_lt n (by decide)

theorem inWord_of_lt (hcap : cap + 1 < 2 ^ 64) (hreads : reads.flatten.length < 2 ^ 64) :
    InWord cap reads := by
  refine ⟨hcap, fun before got after heq _ => ?_⟩
  rw [heq, List.flatten_append, List.flatten_cons, List.length_append, List.length_append] at hreads
  omega

/-! ## The loop -/

/-- The buffer holds the output so far. -/
structure Holds (s : Filling) (cap : ℕ) (output : Bytes) : Prop where
  len : s.len = output.length
  contents : bytesAt s.contents 0 output.length = output
  stores : ∀ r ∈ s.stores, r.start + r.length ≤ cap

theorem Holds.empty (garbage : Memory) (cap : ℕ) : Holds ⟨garbage, [], 0⟩ cap [] where
  len := rfl
  contents := rfl
  stores _ hr := absurd hr List.not_mem_nil

/-- What is stored at the end of the output stands behind it. -/
theorem Holds.contents_store (h : Holds s cap output) (got : Bytes) :
    bytesAt (s.store got).contents 0 (output.length + got.length) = output ++ got := by
  have hkept : Kept s.contents (s.store got).contents ⟨0, output.length⟩ := by
    refine (changedIn_write s.contents s.len got).kept fun r hr => ?_
    rw [List.mem_singleton.mp hr, h.len]
    exact .inl (Nat.zero_add _).le
  rw [bytesAt_append, hkept.bytesAt, h.contents, Nat.zero_add, ← h.len]
  exact congrArg (output ++ ·) (bytesAt_write s.contents s.len got)

theorem mem_store {r : Region} :
    r ∈ (s.store got).stores ↔ r ∈ s.stores ∨ r = ⟨s.len, got.length⟩ := by
  rw [Filling.store, List.mem_append, List.mem_singleton]

theorem Holds.store (h : Holds s cap output) (hbound : output.length + got.length ≤ cap)
    (hcap : cap < 2 ^ 64) :
    Holds { s.store got with len := word (s.len + got.length) } cap (output ++ got) where
  len := by
    rw [List.length_append, ← h.len]
    rw [← h.len] at hbound
    exact word_of_lt (hbound.trans_lt hcap)
  contents := by
    rw [List.length_append]
    exact h.contents_store got
  stores r hr := by
    rcases mem_store.mp hr with hr | rfl
    · exact h.stores r hr
    · rw [h.len]
      exact hbound

/-- While no length goes round, the loop stops exactly when the cap is exceeded, and else holds the
output. -/
theorem fill_spec (hcap : cap < 2 ^ 64) (h : Holds s cap output) (hoff : output.length ≤ cap)
    (hreads : ∀ before got after, reads = before ++ got :: after →
      (output ++ before.flatten).length ≤ cap →
        (output ++ before.flatten).length + got.length < 2 ^ 64) :
    (∀ r ∈ (fill cap s reads).1.stores, r.start + r.length ≤ cap) ∧
      (cap < (output ++ reads.flatten).length → (fill cap s reads).2 = true) ∧
      ((output ++ reads.flatten).length ≤ cap →
        (fill cap s reads).2 = false ∧
          Holds (fill cap s reads).1 cap (output ++ reads.flatten)) := by
  induction reads generalizing s output with
  | nil =>
      rw [List.flatten_nil, List.append_nil]
      exact ⟨h.stores, fun hover => absurd hoff hover.not_ge, fun _ => ⟨rfl, h⟩⟩
  | cons got reads ih =>
      have hword : word (s.len + got.length) = output.length + got.length := by
        have hlt := hreads [] got reads rfl
        rw [List.flatten_nil, List.append_nil] at hlt
        rw [h.len, word_of_lt (hlt hoff)]
      have htotal : (output ++ (got :: reads).flatten).length =
          output.length + got.length + reads.flatten.length := by
        rw [List.flatten_cons, List.length_append, List.length_append, Nat.add_assoc]
      rw [fill, hword]
      by_cases hover : output.length + got.length > cap
      · rw [if_pos hover]
        exact ⟨h.stores, fun _ => rfl, fun hin => absurd (hin.trans' (by omega)) hover.not_ge⟩
      · rw [if_neg hover, ← hword, List.flatten_cons, ← List.append_assoc]
        refine ih (h.store (not_lt.mp hover) hcap) ?_ fun before next after heq hbefore => ?_
        · rw [List.length_append]
          exact not_lt.mp hover
        · have hlater := hreads (got :: before) next after (by rw [heq, List.cons_append])
          rw [List.flatten_cons, ← List.append_assoc] at hlater
          exact hlater hbefore

/-- What has been stored stays stored. -/
theorem subset_fill (cap : ℕ) (s : Filling) (reads : List Bytes) :
    s.stores ⊆ (fill cap s reads).1.stores := by
  induction reads generalizing s with
  | nil => exact List.Subset.refl _
  | cons got reads ih =>
      rw [fill]
      split_ifs with hover
      · exact List.Subset.refl _
      · have hrest := ih { s.store got with len := word (s.len + got.length) }
        exact List.Subset.trans (List.subset_append_left s.stores _) hrest

/-- A length that goes round is taken for one below the cap, and the read is stored beyond it. -/
theorem fill_wraps {before after : List Bytes} (hcap : cap + 1 < 2 ^ 64)
    (h : Holds s cap output) (hgot : got.length ≤ scratchSize)
    (hbefore : (output ++ before.flatten).length ≤ cap)
    (hwraps : 2 ^ 64 ≤ (output ++ before.flatten).length + got.length) :
    ∃ r ∈ (fill cap s (before ++ got :: after)).1.stores, cap + 1 < r.start + r.length := by
  have hscratch : scratchSize = 8192 := rfl
  induction before generalizing s output with
  | nil =>
      rw [List.flatten_nil, List.append_nil] at hbefore hwraps
      have hin : ¬ word (s.len + got.length) > cap := by
        rw [h.len, word]
        omega
      refine ⟨⟨s.len, got.length⟩, ?_, ?_⟩
      · rw [List.nil_append, fill, if_neg hin]
        exact subset_fill cap _ after (mem_store.mpr (.inr rfl))
      · rw [h.len]
        exact hcap.trans_le hwraps
  | cons first before ih =>
      rw [List.flatten_cons, ← List.append_assoc] at hbefore hwraps
      have hbound : output.length + first.length ≤ cap := by
        rw [List.length_append, List.length_append] at hbefore
        omega
      have hin : ¬ word (s.len + first.length) > cap := by
        rw [h.len, word]
        omega
      rw [List.cons_append, fill, if_neg hin]
      exact ih (h.store hbound (by omega)) hbefore hwraps

/-- With the highest number for the cap nothing is too long. -/
theorem fill_unbounded (hcap : 2 ^ 64 ≤ cap + 1) (s : Filling) (reads : List Bytes) :
    (fill cap s reads).2 = false := by
  induction reads generalizing s with
  | nil => rfl
  | cons got reads ih =>
      have hin : ¬ word (s.len + got.length) > cap := by
        have hlt := word_lt (s.len + got.length)
        omega
      rw [fill, if_neg hin]
      exact ih _

/-! ## The capture -/

theorem rashCaptureArgvStdout_ran (hpipe : calls.pipe = true) (hfork : calls.fork = true)
    (hxmalloc : xmalloc (word (cap + 1)) = some garbage) :
    rashCaptureArgvStdout xmalloc cap calls =
      finish (word (cap + 1)) calls.waitpid (fill cap ⟨garbage, [], 0⟩ calls.reads) := by
  rw [rashCaptureArgvStdout, hpipe, hfork, if_neg (by decide), hxmalloc]

theorem rashInstallerMaxBytes_lt (raw : Option (List Char)) :
    rashInstallerMaxBytes raw < 2 ^ 64 := by
  have hdefault : rashInstallerDefaultMaxBytes < 2 ^ 64 := by decide
  rcases raw with _ | raw
  · exact hdefault
  · dsimp only [rashInstallerMaxBytes]
    split_ifs
    · exact Nat.lt_of_le_of_lt (strtoul_le 10 raw) (by decide)
    · exact hdefault

/-- Behind the loop, in a word. -/
theorem finish_meets (hcap : cap + 1 < 2 ^ 64) (h : InWord cap reads) (garbage : Memory) :
    (finish (word (cap + 1)) (some status) (fill cap ⟨garbage, [], 0⟩ reads)).Meets cap
      reads.flatten status.status := by
  obtain ⟨hstores, hover, hin⟩ := @fill_spec _ _ reads _ (by omega) (Holds.empty garbage cap)
    cap.zero_le fun before got after heq => h.2 before got after heq
  rw [List.nil_append] at hover hin
  rw [word_of_lt hcap]
  rcases hfill : fill cap ⟨garbage, [], 0⟩ reads with ⟨s, tooLong⟩
  rw [hfill] at hstores hover hin
  rcases lt_or_ge cap reads.flatten.length with hlong | hshort
  · rw [show tooLong = true from hover hlong]
    exact ⟨fun r hr => (hstores r hr).trans cap.le_succ, ⟨fun _ => hlong, fun _ => rfl⟩,
      fun hshort => absurd hlong hshort.not_gt⟩
  · obtain ⟨htooLong, hholds⟩ := hin hshort
    rw [show tooLong = false from htooLong]
    refine ⟨fun r hr => ?_, ⟨nofun, fun hlong => absurd hlong hshort.not_gt⟩,
      fun _ => ⟨?_, hholds.contents_store [0]⟩⟩
    · rcases mem_store.mp hr with hr | rfl
      · exact (hstores r hr).trans cap.le_succ
      · rw [hholds.len]
        exact Nat.succ_le_succ hshort
    · rw [finish, hholds.len]

/-- A buffer of no bytes gets the NUL. -/
theorem finish_unbounded (hcap : cap + 1 = 2 ^ 64) (garbage : Memory) :
    ¬ (finish (word (cap + 1)) (some status) (fill cap ⟨garbage, [], 0⟩ reads)).InBuffer := by
  intro h
  have hnever := fill_unbounded hcap.ge ⟨garbage, [], 0⟩ reads
  rcases hfill : fill cap ⟨garbage, [], 0⟩ reads with ⟨s, tooLong⟩
  rw [hfill] at h hnever
  rw [show tooLong = false from hnever, hcap] at h
  have hnul : s.len + 1 ≤ 0 := h ⟨s.len, 1⟩ (mem_store.mpr (.inr rfl))
  exact Nat.not_succ_le_zero _ hnul

theorem finish_keeps (allocated : ℕ) (waitpid : Option WaitStatus) (s : Filling × Bool) :
    (finish allocated waitpid s).allocated = allocated ∧
      s.1.stores ⊆ (finish allocated waitpid s).stores := by
  obtain ⟨s, _ | _⟩ := s
  · rcases waitpid with _ | status
    · exact ⟨rfl, List.Subset.refl _⟩
    · exact ⟨rfl, List.subset_append_left s.stores _⟩
  · exact ⟨rfl, List.Subset.refl _⟩

theorem finish_wraps (hcap : cap + 1 < 2 ^ 64) (hreads : ∀ got ∈ reads, got.length ≤ scratchSize)
    (h : ¬ InWord cap reads) (garbage : Memory) (waitpid : Option WaitStatus) :
    ¬ (finish (word (cap + 1)) waitpid (fill cap ⟨garbage, [], 0⟩ reads)).InBuffer := by
  intro hmeets
  obtain ⟨before, got, after, heq, hbefore, hwraps⟩ : ∃ before got after,
      reads = before ++ got :: after ∧ before.flatten.length ≤ cap ∧
        2 ^ 64 ≤ before.flatten.length + got.length := by
    by_contra hnone
    refine h ⟨hcap, fun before got after heq hbefore => ?_⟩
    by_contra hlt
    exact hnone ⟨before, got, after, heq, hbefore, not_lt.mp hlt⟩
  have hgot : got.length ≤ scratchSize :=
    hreads got (by rw [heq]; exact List.mem_append_right before List.mem_cons_self)
  obtain ⟨r, hr, hbeyond⟩ := @fill_wraps _ _ _ _ _ after hcap (Holds.empty garbage cap) hgot
    (by rwa [List.nil_append]) (by rwa [List.nil_append])
  rw [← heq] at hr
  obtain ⟨hallocated, hsubset⟩ :=
    finish_keeps (word (cap + 1)) waitpid (fill cap ⟨garbage, [], 0⟩ reads)
  have hin := hmeets r (hsubset hr)
  rw [hallocated, word_of_lt hcap] at hin
  exact absurd hin hbeyond.not_ge

/-! ## The captured output -/

/-- What the installer sees of the buffer -/
def Capture.result (c : Capture) : CaptureResult :=
  match c.outcome with
  | .returned len status => .captured (bytesAt c.contents 0 len) status
  | .oversize => .oversize
  | .exited | .failed => .failed

theorem captureReads_eq {buf : Bytes} (hbuf : buf.length ≤ cap) (reads : List Bytes) :
    captureReads cap buf reads =
      if cap < (buf ++ reads.flatten).length then none else some (buf ++ reads.flatten) := by
  induction reads generalizing buf with
  | nil => rw [captureReads, List.flatten_nil, List.append_nil, if_neg hbuf.not_gt]
  | cons got reads ih =>
      rw [captureReads, List.flatten_cons, ← List.append_assoc]
      by_cases hover : cap < buf.length + got.length
      · have htotal : cap < (buf ++ got ++ reads.flatten).length := by
          rw [List.length_append, List.length_append]
          omega
        rw [if_pos hover, if_pos htotal]
      · rw [if_neg hover]
        exact ih (by rw [List.length_append]; exact not_lt.mp hover)

/-- In a word the buffer is the list of the bytes read. -/
theorem result_rashCaptureArgvStdout (h : InWord cap calls.reads)
    (hxmalloc : xmalloc (word (cap + 1)) = some garbage) :
    (rashCaptureArgvStdout xmalloc cap calls).result = Rash.rashCaptureArgvStdout cap calls := by
  rw [rashCaptureArgvStdout, Rash.rashCaptureArgvStdout]
  split_ifs
  · rfl
  rw [hxmalloc, captureReads_eq cap.zero_le, List.nil_append]
  change (finish _ calls.waitpid (fill cap ⟨garbage, [], 0⟩ calls.reads)).result = _
  obtain ⟨-, hover, hin⟩ := @fill_spec _ _ calls.reads _ (by have := h.1; omega)
    (Holds.empty garbage cap) cap.zero_le fun before got after heq => h.2 before got after heq
  rw [List.nil_append] at hover hin
  rcases hfill : fill cap ⟨garbage, [], 0⟩ calls.reads with ⟨s, tooLong⟩
  rw [hfill] at hover hin
  rcases lt_or_ge cap calls.reads.flatten.length with hlong | hshort
  · rw [show tooLong = true from hover hlong, if_pos hlong]
    rfl
  · obtain ⟨htooLong, hholds⟩ := hin hshort
    rw [show tooLong = false from htooLong, if_neg hshort.not_gt]
    rcases calls.waitpid with _ | status
    · rfl
    · have hkept : bytesAt (s.store [0]).contents 0 s.len = calls.reads.flatten := by
        have hstored := hholds.contents_store [0]
        rw [bytesAt_append] at hstored
        rw [hholds.len]
        exact (List.append_inj hstored (length_bytesAt _ _ _)).1
      exact congrArg (CaptureResult.captured · status.status) hkept

end CaptureBuffer

end Rash
