import Rash.Jobs.Bgpids
import Mathlib.Data.List.Basic

/-!
# The job table

The array of jobs and the counters of `js` in jobs.c.  A free slot is none, and an index that is
`NO_JOB` is none.  Of a job only what the functions here read is kept; the memory it is in stands
for its identity.
-/

namespace Rash

namespace Jobs

/-- There are codes, so that a literal can be one. -/
scoped instance neZero_256 : NeZero 256 := ⟨Nat.succ_ne_zero _⟩

/-- What `wait` reports of a process. -/
inductive WaitStatus
  | exited (code : Fin 256)
  | signaled (sig : Fin 128)
  | stopped (sig : Fin 256)
  deriving DecidableEq

/-- The field `running` of a process. -/
inductive ProcessState
  | done
  | running
  | stopped
  deriving DecidableEq

structure Process where
  pid : ℤ
  status : WaitStatus
  running : ProcessState
  deriving DecidableEq

inductive JobState
  | running
  | stopped
  | dead
  deriving DecidableEq

structure JobFlags where
  foreground : Bool
  notified : Bool
  jobControl : Bool
  async : Bool
  pipefail : Bool
  deriving DecidableEq

structure Job where
  /-- where the job is in memory -/
  addr : ℕ
  /-- the ring of processes, from the first one of the pipeline -/
  pipe : List Process
  pgrp : ℤ
  state : JobState
  flags : JobFlags
  pipe_ne : pipe ≠ []
  deriving DecidableEq

/-- The variables of the shell that the functions look at. -/
structure Mode where
  interactive : Bool
  interactiveShell : Bool
  subshellEnvironment : Bool
  jobsListFrozen : Bool
  pipefailOpt : Bool
  jobControl : Bool
  lastAsynchronousPid : ℤ
  /-- what `set_maxchild (0)` sets -/
  lmaxchild : ℤ
  deriving DecidableEq

/-- `jobs`, `js` and the saved statuses.  `js.j_jobslots` is the length of `jobs`. -/
structure JobTable where
  jobs : List (Option Job)
  firstj : ℕ
  lastj : ℕ
  njobs : ℕ
  ndead : ℤ
  creaped : ℤ
  cinjobs : ℤ
  current : Option ℕ
  previous : Option ℕ
  lastmade : Option ℕ
  lastasync : Option ℕ
  bgpids : Bgpids.BgpState

/-- `JOB_SLOTS` -/
def jobSlots : ℕ := 8

/-- `MAX_JOBS_IN_ARRAY` -/
def maxJobsInArray : ℕ := 4096

/-- `SIGINT` -/
def sigint : ℕ := 2

/-- `SIGPIPE` -/
def sigpipe : ℕ := 13

def processExitSignal : WaitStatus → ℕ
  | .signaled sig => sig
  | _ => 0

def processExitStatus : WaitStatus → ℕ
  | .signaled sig => 128 + sig
  | .stopped _ => 0
  | .exited code => code

namespace Job

/-- `find_last_proc` -/
def findLastProc (job : Job) : Process := job.pipe.getLast job.pipe_ne

def processesInJob (job : Job) : ℕ := job.pipe.length

/-- With `J_PIPEFAIL` the last status that is not `EXECUTION_SUCCESS`. -/
def rawJobExitStatus (job : Job) : WaitStatus :=
  if job.flags.pipefail then
    job.pipe.foldl (fun fail p => if p.status ≠ .exited 0 then p.status else fail) (.exited 0)
  else job.findLastProc.status

def jobExitStatus (job : Job) : ℕ := processExitStatus job.rawJobExitStatus

def jobKilledBySignal (job : Job) : Bool :=
  let termsig := processExitSignal job.rawJobExitStatus
  termsig ≠ 0 && termsig ≠ sigint && termsig ≠ sigpipe

def notify (job : Job) : Job := { job with flags := { job.flags with notified := true } }

end Job

namespace JobTable

variable (fresh : ℕ → Bgpids.Pidstat) (m : Mode)

def jobslots (t : JobTable) : ℕ := t.jobs.length

/-- `jobs[i]` -/
def slot (t : JobTable) (i : ℕ) : Option Job := t.jobs[i]?.join

def setSlot (t : JobTable) (i : ℕ) (j : Option Job) : JobTable := { t with jobs := t.jobs.set i j }

/-! ## Indices -/

/-- The first loop of `reset_job_indices`, for at most `fuel` rounds. -/
def seekFirst (t : JobTable) (old : ℕ) : ℕ → ℕ → Option ℕ
  | 0, _ => none
  | fuel + 1, i =>
      if i = old then some i
      else
        let i := if i ≥ t.jobslots then 0 else i
        if (t.slot i).isSome ∨ i = old then some i else seekFirst t old fuel (i + 1)

/-- The second loop, over an index that runs below 0. -/
def seekLast (t : JobTable) (old : ℕ) : ℕ → ℤ → Option ℕ
  | 0, _ => none
  | fuel + 1, i =>
      if i = old then some old
      else
        let i := if i < 0 then (t.jobslots : ℤ) - 1 else i
        if (t.slot i.toNat).isSome ∨ i = old then some i.toNat else seekLast t old fuel (i - 1)

def resetFirst (t : JobTable) : Option JobTable :=
  if (t.slot t.firstj).isSome then some t
  else
    let old := if t.firstj ≥ t.jobslots then t.jobslots - 1 else t.firstj
    (t.seekFirst old (t.jobslots + 2) (t.firstj + 1)).map fun i =>
      if i = old then { t with firstj := 0, lastj := 0, njobs := 0 } else { t with firstj := i }

def resetLast (t : JobTable) : Option JobTable :=
  if (t.slot t.lastj).isSome then some t
  else
    (t.seekLast t.lastj (t.jobslots + 2) ((t.lastj : ℤ) - 1)).map fun i =>
      if i = t.lastj then { t with firstj := 0, lastj := 0, njobs := 0 } else { t with lastj := i }

def resetJobIndices (t : JobTable) : Option JobTable := t.resetFirst.bind resetLast

/-! ## The current job -/

def mostRecentJobInState (t : JobTable) (state : JobState) : ℕ → Option ℕ
  | 0 => none
  | i + 1 =>
      if (t.slot i).any (·.state = state) then some i else mostRecentJobInState t state i

def jobLastStopped (t : JobTable) (job : ℕ) : Option ℕ := t.mostRecentJobInState .stopped job

def jobLastRunning (t : JobTable) (job : ℕ) : Option ℕ := t.mostRecentJobInState .running job

/-- The slot holds a job in the state. -/
def inState (t : JobTable) (state : JobState) (i : ℕ) : Bool := (t.slot i).any (·.state = state)

def setCurrentJob (t : JobTable) (job : ℕ) : JobTable :=
  let t := if t.current ≠ some job then { t with previous := t.current, current := some job } else t
  -- first choice: the old current job
  if t.previous ≠ t.current ∧ t.previous.any (t.inState .stopped) then t
  else
    match if t.inState .stopped job then t.jobLastStopped job else none with
    | some candidate => { t with previous := some candidate }
    | none =>
        match if t.inState .running job then t.jobLastRunning job else t.jobLastRunning t.jobslots with
        | some candidate => { t with previous := some candidate }
        | none => { t with previous := t.current }

def resetCandidate (t : JobTable) : Option ℕ :=
  if t.jobslots ≠ 0 ∧ t.current.any (t.inState .stopped) then t.current
  else if t.previous.any (t.inState .stopped) then t.previous
  else (t.jobLastStopped t.jobslots).or (t.jobLastRunning t.jobslots)

def resetCurrent (t : JobTable) : JobTable :=
  match t.resetCandidate with
  | some candidate => t.setCurrentJob candidate
  | none => { t with current := none, previous := none }

/-! ## Deletion -/

/-- The status of an asynchronous job is saved, unless `DEL_NOBGPID` is given. -/
def saveStatus (t : JobTable) (job : Job) (noBgpid : Bool) : JobTable :=
  if !noBgpid && job.flags.async && !job.flags.foreground then
    let proc := job.findLastProc
    { t with bgpids := t.bgpids.bgpAdd proc.pid (processExitStatus proc.status) fresh }
  else t

/-- The counters of `delete_job`, but for `js.j_njobs`. -/
def uncount (t : JobTable) (job : Job) : JobTable :=
  let t := if some job.addr = t.lastmade then { t with lastmade := none }
    else if some job.addr = t.lastasync then { t with lastasync := none } else t
  let t := { t with cinjobs := t.cinjobs - job.processesInJob }
  if job.state = .dead then
    { t with creaped := max 0 (t.creaped - job.processesInJob), ndead := t.ndead - 1 }
  else t

/-- `js.j_njobs` and the indices after a deletion. -/
def dropJob (t : JobTable) : Option JobTable :=
  let t := { t with njobs := t.njobs - 1 }
  if t.njobs = 0 then some { t with firstj := 0, lastj := 0 }
  else if t.slot t.firstj = none ∨ t.slot t.lastj = none then t.resetJobIndices
  else some t

/-- `delete_job`; the only flag that changes the tables is `DEL_NOBGPID`. -/
def deleteJob (t : JobTable) (i : ℕ) (noBgpid : Bool) : Option JobTable :=
  if t.jobslots = 0 ∨ m.jobsListFrozen then some t
  else
    match t.slot i with
    | none => some t
    | some job =>
        ((((t.saveStatus fresh job noBgpid).setSlot i none).uncount job).dropJob).map fun t =>
          if some i = t.current ∨ some i = t.previous then t.resetCurrent else t

/-- Whether `cleanup_dead_jobs` deletes the job. -/
def candidate (job : Job) : Bool :=
  job.state = .dead && (job.flags.notified || (job.flags.foreground && !job.jobKilledBySignal))

def cleanupSlots (t : JobTable) : List ℕ → Option JobTable
  | [] => some t
  | i :: rest =>
      if (t.slot i).any candidate then (t.deleteJob fresh m i false).bind (cleanupSlots · rest)
      else t.cleanupSlots rest

/-- `cleanup_dead_jobs`, as far as it is about jobs. -/
def cleanupDeadJobs (t : JobTable) : Option JobTable :=
  if t.jobslots = 0 ∨ m.jobsListFrozen then some t
  else t.cleanupSlots fresh m (List.range t.jobslots)

/-! ## Compaction -/

/-- The loop of `mark_dead_jobs_as_notified` that marks, with `ndeadproc` dead processes left. -/
def markSlots (childmax : ℤ) : ℤ → List (Option Job) → List (Option Job)
  | _, [] => []
  | ndeadproc, none :: rest => none :: markSlots childmax ndeadproc rest
  | ndeadproc, some job :: rest =>
      if job.state = .dead ∧
          (m.interactiveShell ∨ job.findLastProc.pid ≠ m.lastAsynchronousPid) then
        if ndeadproc - job.processesInJob ≤ childmax then some job :: rest
        else some job.notify :: markSlots childmax (ndeadproc - job.processesInJob) rest
      else some job :: markSlots childmax ndeadproc rest

def deadProcesses (t : JobTable) : ℤ :=
  ((t.jobs.reduceOption.filter (·.state = .dead)).map fun job => (job.processesInJob : ℤ)).sum

/-- `mark_dead_jobs_as_notified (0)` -/
def markDeadJobsAsNotified (t : JobTable) : JobTable :=
  if t.jobslots = 0 then t
  else
    let t := if t.bgpids.childmax < 0 then
      { t with bgpids := { t.bgpids with childmax := m.lmaxchild } } else t
    if t.deadProcesses ≤ t.bgpids.childmax then t
    else { t with jobs := markSlots m t.bgpids.childmax t.deadProcesses t.jobs }

def reapDeadJobs (t : JobTable) : Option JobTable :=
  (t.markDeadJobsAsNotified m).cleanupDeadJobs fresh m

/-- What the loop of `realloc_jobs_list` finds. -/
structure Compacted where
  nlist : List Job
  ncur : Option ℕ
  nprev : Option ℕ
  ndead : ℤ
  creaped : ℤ

/-- The loop, with the indices in the old and in the new list. -/
def compactSlots (current previous : Option ℕ) : ℕ → ℕ → List (Option Job) → Compacted
  | _, _, [] => ⟨[], none, none, 0, 0⟩
  | i, j, none :: rest => compactSlots current previous (i + 1) j rest
  | i, j, some job :: rest =>
      let c := compactSlots current previous (i + 1) (j + 1) rest
      { nlist := job :: c.nlist
        ncur := if some i = current then some j else c.ncur
        nprev := if some i = previous then some j else c.nprev
        ndead := if job.state = .dead then c.ndead + 1 else c.ndead
        creaped := if job.state = .dead then c.creaped + job.processesInJob else c.creaped }

/-- `nsize` of `realloc_jobs_list` -/
def newSize (njobs : ℕ) : ℕ :=
  let nsize := (njobs + jobSlots - 1) / jobSlots * jobSlots
  let i := njobs % jobSlots
  if i = 0 ∨ i > jobSlots / 2 then nsize + jobSlots else nsize

def reallocJobsList (t : JobTable) : JobTable :=
  let nsize := newSize t.njobs
  let c := compactSlots t.current t.previous 0 0 t.jobs
  let j := c.nlist.length
  let t := { t with
    jobs := c.nlist.map some ++ List.replicate (nsize - j) none
    ndead := c.ndead
    creaped := c.creaped
    firstj := 0
    lastj := if j > 0 then j - 1 else 0
    njobs := j
    current := c.ncur.or t.current
    previous := c.nprev.or t.previous }
  if t.current = none ∨ t.previous = none ∨ t.current.any (· > t.lastj) ∨
      t.previous.any (· > t.lastj) then t.resetCurrent
  else t

/-- `compact_jobs_list`, with the slot it returns. -/
def compactJobsList (t : JobTable) : Option (ℕ × JobTable) :=
  if t.jobslots = 0 ∨ m.jobsListFrozen then some (t.jobslots, t)
  else
    (t.reapDeadJobs fresh m).map fun t =>
      let t := t.reallocJobsList
      (if t.lastj ≠ 0 ∨ (t.slot t.lastj).isSome then t.lastj + 1 else 0, t)

/-! ## New jobs -/

/-- The search of an interactive shell: behind the last job. -/
def behindLast (t : JobTable) : ℕ → ℕ
  | 0 => 0
  | i + 1 => if (t.slot i).isSome then i + 1 else behindLast t i

/-- The search of other shells, for at most `fuel` slots. -/
def nextFree (t : JobTable) : ℕ → ℕ → ℕ
  | 0, i => i
  | fuel + 1, i =>
      if i < t.jobslots ∧ (t.slot i).isSome then nextFree t fuel (i + 1) else i

/-- The slot that `stop_pipeline` finds. -/
def searchSlot (t : JobTable) : ℕ :=
  if m.interactive then t.behindLast t.jobslots
  else
    let i := if t.lastj ≠ 0 then t.lastj + 1 else t.lastj
    -- the loop does not run from an index behind the array
    t.nextFree (t.jobslots - i) i

/-- The job made of `the_pipeline`, whose last process comes first. -/
def newJob (addr : ℕ) (thePipeline : List Process) (pgrp : ℤ) (hpipe : thePipeline ≠ []) :
    Job where
  addr := addr
  pipe := thePipeline.reverse
  pgrp := pgrp
  state :=
    if thePipeline.any (·.running = .running) then .running
    else if thePipeline.any fun p => match p.status with | .stopped _ => true | _ => false then .stopped
    else .dead
  flags :=
    { foreground := false, notified := false, jobControl := m.jobControl, async := false,
      pipefail := m.pipefailOpt }
  pipe_ne := List.reverse_ne_nil_iff.mpr hpipe

/-- The job is put into the slot. -/
def install (t : JobTable) (i : ℕ) (job : Job) : JobTable :=
  let t := t.setSlot i (some job)
  let t := if job.state = .dead then
    { t with creaped := t.creaped + job.processesInJob, ndead := t.ndead + 1 } else t
  { t with cinjobs := t.cinjobs + job.processesInJob, lastj := i, njobs := t.njobs + 1,
           lastmade := some job.addr }

/-- The array of a shell that has none. -/
def firstSlots (t : JobTable) : JobTable :=
  if t.jobslots = 0 then
    { t with jobs := List.replicate jobSlots none, firstj := 0, lastj := 0, njobs := 0 }
  else t

/-- More room, if the slot is behind the array. -/
def moreSlots (t : JobTable) (i : ℕ) : JobTable :=
  if i = t.jobslots then { t with jobs := t.jobs ++ List.replicate jobSlots none } else t

/-- The slot for a new job, after a compaction where the array is large. -/
def findSlot (t : JobTable) : Option (ℕ × JobTable) :=
  let i := t.searchSlot m
  if (!m.interactiveShell || m.subshellEnvironment) ∧ i = t.jobslots ∧
      t.jobslots ≥ maxJobsInArray then
    t.compactJobsList fresh m
  else some (i, t)

/-- `stop_pipeline`, with the new job if there is a pipeline; it gets its flag last. -/
def stopPipeline (t : JobTable) (async : Bool) (newjob : Option Job) : Option JobTable :=
  (t.cleanupDeadJobs fresh m).bind fun t => (t.firstSlots.findSlot fresh m).map fun (i, t) =>
    let t := t.moreSlots i
    match newjob with
    | none => if async then t.resetCurrent else t
    | some job =>
        let flags := if async then { job.flags with foreground := false, async := true }
          else { job.flags with foreground := true }
        let t := t.install i { job with flags := flags }
        if async then { t with lastasync := some job.addr }.resetCurrent else t

end JobTable

end Jobs

end Rash
