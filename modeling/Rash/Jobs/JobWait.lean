import Rash.Jobs.BgpidsCells
import Rash.Jobs.JobRuns

/-!
# The answer of `wait`

`wait_for_single_pid` takes the status of a job from the job table, or from the table of saved
statuses when the job is deleted.
-/

namespace Rash

namespace Jobs

/-- `WSTOPSIG` -/
def wstopsig : WaitStatus → ℕ
  | .exited code => code
  | .signaled _ => 0
  | .stopped sig => sig

def wifstopped : WaitStatus → Bool
  | .stopped _ => true
  | _ => false

namespace Job

/-- The job has the process. -/
def mentions (job : Job) (pid : ℤ) : Bool := job.pipe.any (·.pid = pid)

/-- The answer of `wait_for` for a process of the job; none while it waits for more children.
The child that it looks at is the first of the pipeline. -/
def waitFor (job : Job) : Option ℕ :=
  let child := job.pipe.head job.pipe_ne
  if child.running = .running ∨ job.state = .running then none
  else if job.state = .stopped ∨ wifstopped child.status then some (128 + wstopsig child.status)
  else some job.jobExitStatus

end Job

namespace JobTable

/-- `find_job`, where no pid is recycled. -/
def findJob (t : JobTable) (pid : ℤ) : Option ℕ := t.jobs.findIdx? (·.any (·.mentions pid))

/-- `wait_for_single_pid`, for a pid that is in no pipeline under construction and is no process
substitution, without posix mode.  The search for a saved status has a round for each cell. -/
def waitForSinglePid (t : JobTable) (pid : ℤ) : Option ℤ :=
  match (t.findJob pid).bind t.slot with
  | some job => job.waitFor.map fun r => (r : ℤ)
  | none =>
      (t.bgpids.bgpSearch pid (t.bgpids.nalloc + 1)).map fun r => if r ≥ 0 then r else 257

variable (fresh : ℕ → Bgpids.Pidstat) (m : Mode) (pid : ℤ)

/-! ## Evictions -/

/-- The deletion of the job in the slot does not take the cell of the pid. -/
def DeleteKeeps (t : JobTable) (i : ℕ) : Prop :=
  (t.slot i).any (fun job => job.flags.async && !job.flags.foreground) = true →
    ¬ t.bgpids.Evicts fresh pid

/-- The same of all deletions of a clean-up. -/
def CleanupKeeps (t : JobTable) : List ℕ → Prop
  | [] => True
  | i :: rest =>
      if (t.slot i).any candidate then
        t.DeleteKeeps fresh pid i ∧
          ∀ u ∈ t.deleteJob fresh m i false, CleanupKeeps u rest
      else t.CleanupKeeps rest

def CleanupDeadKeeps (t : JobTable) : Prop :=
  m.jobsListFrozen = false → t.CleanupKeeps fresh m pid (List.range t.jobslots)

/-- The same of the clean-up before a compaction. -/
def CompactKeepsPid (t : JobTable) : Prop :=
  m.jobsListFrozen = false → (t.markDeadJobsAsNotified m).CleanupDeadKeeps fresh m pid

/-- The same of both clean-ups before a new job. -/
def StopKeeps (t : JobTable) : Prop :=
  t.CleanupDeadKeeps fresh m pid ∧ ∀ u ∈ t.cleanupDeadJobs fresh m,
    (!m.interactiveShell || m.subshellEnvironment) ∧
      u.firstSlots.searchSlot m = u.firstSlots.jobslots ∧
      u.firstSlots.jobslots ≥ maxJobsInArray → u.firstSlots.CompactKeepsPid fresh m pid

end JobTable

/-- No status of the pid is evicted by the operation. -/
def NoEviction (fresh : ℕ → Bgpids.Pidstat) (pid : ℤ) (t : JobTable) (op : Mode × JobOp) : Prop :=
  match op.2 with
  | .stopPipeline _ _ _ _ => t.StopKeeps fresh op.1 pid
  | .deleteJob i noBgpid =>
      op.1.jobsListFrozen = false → noBgpid = false → t.DeleteKeeps fresh pid i
  | .cleanupDeadJobs => t.CleanupDeadKeeps fresh op.1 pid
  | .compactJobsList => t.CompactKeepsPid fresh op.1 pid
  | _ => True

/-- The processes have process IDs. -/
def Job.HasPids (job : Job) : Prop := ∀ p ∈ job.pipe, p.pid ≠ Bgpids.noPid

/-- The operation is called as its callers do, for processes, and some child may run. -/
def Valid (t : JobTable) (op : Mode × JobOp) : Prop :=
  Conforms t op ∧ Bgpids.toPsIndex op.1.lmaxchild ≠ 0 ∧
    match op.2 with
    | .stopPipeline _ addr thePipeline pgrp =>
        ∀ job ∈ pipelineJob op.1 addr thePipeline pgrp, job.HasPids
    | .changed _ job => job.HasPids
    | _ => True

/-- What an operation may do while the job of the pid is waited for: the job itself may only be
notified, and reaped by a clean-up, and no other job gets the pid. -/
def Harmless (pid : ℤ) (t : JobTable) (op : Mode × JobOp) : Prop :=
  match op.2 with
  | .stopPipeline _ addr thePipeline pgrp =>
      ∀ job ∈ pipelineJob op.1 addr thePipeline pgrp, job.mentions pid = false
  | .deleteJob i _ => (t.slot i).any (·.mentions pid) = false
  | .changed i job =>
      ∀ old ∈ t.slot i,
        if old.mentions pid then job.notify = old.notify else job.mentions pid = false
  | _ => True

/-- An operation of a run that does not disturb a wait for the pid. -/
def Waits (fresh : ℕ → Bgpids.Pidstat) (pid : ℤ) (t : JobTable) (op : Mode × JobOp) : Prop :=
  Valid t op ∧ Harmless pid t op ∧ NoEviction fresh pid t op

end Jobs

end Rash
