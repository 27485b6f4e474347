import Rash.Jobs.BgpidsIntact
import Rash.Jobs.JobMoves

/-!
# Runs of the job table

Any operations on the table, in any order and in any mode of the shell, with changes of the
jobs' states between them.
-/

namespace Rash

namespace Jobs

inductive JobOp
  | stopPipeline (async : Bool) (addr : ℕ) (thePipeline : List Process) (pgrp : ℤ)
  | deleteJob (i : ℕ) (noBgpid : Bool)
  | cleanupDeadJobs
  | reallocJobsList
  | compactJobsList
  | resetCurrent
  | setCurrentJob (i : ℕ)
  /-- a job changes its state, its flags or the statuses of its processes -/
  | changed (i : ℕ) (job : Job)
  deriving DecidableEq

/-- The job of `the_pipeline`, if there is one. -/
def pipelineJob (m : Mode) (addr : ℕ) (thePipeline : List Process) (pgrp : ℤ) : Option Job :=
  if h : thePipeline = [] then none else some (JobTable.newJob m addr thePipeline pgrp h)

/-- One operation, in a mode of the shell. -/
def step (fresh : ℕ → Bgpids.Pidstat) (t : JobTable) (op : Mode × JobOp) : Option JobTable :=
  match op.2 with
  | .stopPipeline async addr thePipeline pgrp =>
      t.stopPipeline fresh op.1 async (pipelineJob op.1 addr thePipeline pgrp)
  | .deleteJob i noBgpid => t.deleteJob fresh op.1 i noBgpid
  | .cleanupDeadJobs => t.cleanupDeadJobs fresh op.1
  | .reallocJobsList => some t.reallocJobsList
  | .compactJobsList => (t.compactJobsList fresh op.1).map Prod.snd
  | .resetCurrent => some t.resetCurrent
  | .setCurrentJob i => some (t.setCurrentJob i)
  | .changed i job => some (t.setSlot i (some job))

/-- `set_current_job` is called with the slot of a job, and a job that changes stays itself. -/
def Conforms (t : JobTable) (op : Mode × JobOp) : Prop :=
  match op.2 with
  | .setCurrentJob i => t.Live i
  | .changed i job => (t.slot i).any (·.addr = job.addr) = true
  | _ => True

/-- `zerojs`, without an array. -/
def emptyTable : JobTable where
  jobs := []
  firstj := 0
  lastj := 0
  njobs := 0
  ndead := 0
  creaped := 0
  cinjobs := 0
  current := none
  previous := none
  lastmade := none
  lastasync := none
  bgpids := Bgpids.start

namespace JobTable

variable {t : JobTable} {fresh : ℕ → Bgpids.Pidstat}

theorem sound_emptyTable : emptyTable.Sound := by
  refine ⟨indexed_compacted (l := []) (n := 0) rfl rfl rfl rfl, fun i hi => ?_, fun i hi => ?_,
    Iff.rfl⟩
  · cases hi
  · cases hi

theorem sound_changed {i : ℕ} {job : Job} (h : t.Sound) (hi : t.Live i) :
    (t.setSlot i (some job)).Sound := by
  obtain ⟨old, hold⟩ := live_iff.mp hi
  refine h.of_isSome ?_ rfl rfl rfl rfl rfl
  have hsame : (t.jobs.map Option.isSome)[i]? = some true := by rw [List.getElem?_map, hold]; rfl
  change (t.jobs.set i (some job)).map Option.isSome = _
  obtain ⟨hlt, hget⟩ := List.getElem?_eq_some_iff.mp hsame
  rw [List.map_set, Option.isSome_some, ← hget]
  exact List.set_getElem_self hlt

theorem sound_step {op : Mode × JobOp} (h : t.Sound) (hop : Conforms t op) :
    ∃ u, step fresh t op = some u ∧ u.Sound := by
  obtain ⟨m, op⟩ := op
  cases op with
  | stopPipeline async addr thePipeline pgrp =>
      obtain ⟨u, hu, hsound, -⟩ := stopPipeline_spec fresh m h async
        (pipelineJob m addr thePipeline pgrp)
      exact ⟨u, hu, hsound⟩
  | deleteJob i noBgpid =>
      obtain ⟨u, hu, hsound, -⟩ := deleteJob_spec fresh m h i noBgpid
      exact ⟨u, hu, hsound⟩
  | cleanupDeadJobs =>
      obtain ⟨u, hu, hsound, -⟩ := cleanupDeadJobs_spec fresh m h
      exact ⟨u, hu, hsound⟩
  | reallocJobsList => exact ⟨_, rfl, (reallocJobsList_spec h).1⟩
  | compactJobsList =>
      obtain ⟨i, u, hu, hsound, -⟩ := compactJobsList_spec fresh m h
      exact ⟨u, by rw [step, hu]; rfl, hsound⟩
  | resetCurrent => exact ⟨_, rfl, sound_resetCurrent h.indexed⟩
  | setCurrentJob i => exact ⟨_, rfl, sound_setCurrentJob h hop⟩
  | changed i job => exact ⟨_, rfl, sound_changed h (Option.isSome_of_any hop)⟩

theorem sound_run (h : t.Sound) (ops : List (Mode × JobOp))
    (hops : Machine.PathMeets (step fresh) Conforms t ops) :
    ∃ u, Machine.runPath (step fresh) t ops = some u ∧ u.Sound := by
  induction ops generalizing t with
  | nil => exact ⟨t, rfl, h⟩
  | cons op ops ih =>
      obtain ⟨u, hu, hsound⟩ := sound_step h hops.1
      obtain ⟨v, hv, hvsound⟩ := ih hsound (hops.2 u hu)
      exact ⟨v, by rw [Machine.runPath, hu]; exact hv, hvsound⟩

/-- What `realloc_jobs_list` keeps: the jobs in their order, the current and the previous. -/
structure ReallocKeeps (t : JobTable) : Prop where
  jobs : t.reallocJobsList.liveJobs = t.liveJobs
  current : ∀ c, t.current = some c → ∃ k, t.reallocJobsList.current = some k ∧
    t.reallocJobsList.slot k = t.slot c
  previous : ∀ p, t.previous = some p → ∃ k, t.reallocJobsList.previous = some k ∧
    t.reallocJobsList.slot k = t.slot p

theorem reallocKeeps (h : t.Sound) : t.ReallocKeeps := by
  obtain ⟨-, hjobs, hcur, hprev⟩ := reallocJobsList_spec h
  exact ⟨liveJobs_compacted hjobs, hcur, hprev⟩

/-- What `compact_jobs_list` does: with the list frozen nothing; else dead jobs are reaped, and
the array of the others is compacted. -/
structure CompactKeeps (fresh : ℕ → Bgpids.Pidstat) (m : Mode) (t : JobTable) : Prop where
  ends : ∃ i u, t.compactJobsList fresh m = some (i, u)
  kept : ∀ i u, t.compactJobsList fresh m = some (i, u) → Kept t.liveJobs u.liveJobs
  compacts : ∀ i u, t.compactJobsList fresh m = some (i, u) → u = t ∨
    ∃ v, t.reapDeadJobs fresh m = some v ∧ t.Reaped v ∧ u = v.reallocJobsList ∧ v.ReallocKeeps

theorem compactKeeps (m : Mode) (h : t.Sound) : t.CompactKeeps fresh m := by
  obtain ⟨i, u, hu, -, hkept, hcases⟩ := compactJobsList_spec fresh m h
  have hsame : ∀ i' u', t.compactJobsList fresh m = some (i', u') → u' = u := fun i' u' h' => by
    rw [hu] at h'
    cases h'
    rfl
  refine ⟨⟨i, u, hu⟩, fun i' u' h' => hsame i' u' h' ▸ hkept, fun i' u' h' => ?_⟩
  rw [hsame i' u' h']
  rcases hcases with ⟨-, heq⟩ | ⟨-, v, hv, hsound, hreaped, hrealloc⟩
  · exact .inl heq
  · exact .inr ⟨v, hv, hreaped, hrealloc, reallocKeeps hsound⟩

/-- A new job goes behind the jobs of the table, of which only dead ones may have gone. -/
def InstallKeeps (fresh : ℕ → Bgpids.Pidstat) (m : Mode) (t : JobTable) : Prop :=
  ∀ async newjob, ∃ u, t.stopPipeline fresh m async newjob = some u ∧
    ∃ kept, Kept t.liveJobs kept ∧ u.liveJobs = kept ++ (newjob.map (installed async)).toList

end JobTable

open JobTable

/-- After any operations the counters and indices are those of the jobs in the array, a new job
overwrites none, and compaction keeps the jobs, the current and the previous one. -/
theorem jobTable_sound (fresh : ℕ → Bgpids.Pidstat) (ops : List (Mode × JobOp))
    (hops : Machine.PathMeets (step fresh) Conforms emptyTable ops) :
    ∃ t, Machine.runPath (step fresh) emptyTable ops = some t ∧ t.Sound ∧ t.ReallocKeeps ∧
      ∀ m, t.InstallKeeps fresh m ∧ t.CompactKeeps fresh m := by
  obtain ⟨t, ht, hsound⟩ := sound_run sound_emptyTable ops hops
  refine ⟨t, ht, hsound, reallocKeeps hsound, fun m => ⟨fun async newjob => ?_, compactKeeps m hsound⟩⟩
  obtain ⟨u, hu, -, hkept⟩ := stopPipeline_spec fresh m hsound async newjob
  exact ⟨u, hu, hkept⟩

instance (t : JobTable) : (op : Mode × JobOp) → Decidable (Conforms t op)
  | (_, .setCurrentJob i) => inferInstanceAs (Decidable (t.Live i))
  | (_, .changed i job) => inferInstanceAs (Decidable ((t.slot i).any (·.addr = job.addr) = true))
  | (_, .stopPipeline _ _ _ _) => isTrue trivial
  | (_, .deleteJob _ _) => isTrue trivial
  | (_, .cleanupDeadJobs) => isTrue trivial
  | (_, .reallocJobsList) => isTrue trivial
  | (_, .compactJobsList) => isTrue trivial
  | (_, .resetCurrent) => isTrue trivial

/-- A shell that runs a script. -/
def scriptMode : Mode where
  interactive := false
  interactiveShell := false
  subshellEnvironment := false
  jobsListFrozen := false
  pipefailOpt := false
  jobControl := false
  lastAsynchronousPid := 0
  lmaxchild := 4096

def sleeper (pid : ℤ) (state : ProcessState) : Process := ⟨pid, .exited 0, state⟩

/-- The job of one such process, once it is done and the user knows. -/
def finished (addr : ℕ) (pid : ℤ) : Job where
  addr := addr
  pipe := [sleeper pid .done]
  pgrp := pid
  state := .dead
  flags := ⟨false, true, false, true, false⟩
  pipe_ne := List.cons_ne_nil _ _

/-- Three jobs, of which the second is done and reaped by the next compaction. -/
def threeJobs : List (Mode × JobOp) :=
  [(scriptMode, .stopPipeline true 1 [sleeper 11 .running] 11),
    (scriptMode, .stopPipeline true 2 [sleeper 12 .running] 12),
    (scriptMode, .stopPipeline true 3 [sleeper 13 .running] 13),
    (scriptMode, .changed 1 (finished 2 12)), (scriptMode, .compactJobsList),
    (scriptMode, .setCurrentJob 1), (scriptMode, .deleteJob 0 false)]

theorem jobTable_sound_threeJobs : ∃ t,
    Machine.runPath (step Bgpids.zeroed) emptyTable threeJobs = some t ∧ t.Sound ∧ t.ReallocKeeps ∧
      ∀ m, t.InstallKeeps Bgpids.zeroed m ∧ t.CompactKeeps Bgpids.zeroed m :=
  jobTable_sound Bgpids.zeroed threeJobs (by decide +kernel)

/-- A job that is done while it is the current one. -/
def currentDone : List (Mode × JobOp) :=
  [(scriptMode, .stopPipeline true 1 [sleeper 11 .running] 11), (scriptMode, .changed 0 (finished 1 11))]

/-- The current job, once it is done, is reaped by `compact_jobs_list`. -/
theorem compactJobsList_reaps :
    ¬ ∀ (ops : List (Mode × JobOp)) t,
      Machine.PathMeets (step Bgpids.zeroed) Conforms emptyTable ops →
      Machine.runPath (step Bgpids.zeroed) emptyTable ops = some t →
      ∀ i u, t.compactJobsList Bgpids.zeroed scriptMode = some (i, u) →
        u.liveJobs.map Job.addr = t.liveJobs.map Job.addr ∧
          ∀ c, t.current = some c → ∃ k, u.current = some k ∧ u.slot k = t.slot c := by
  intro h
  have hmeets : Machine.PathMeets (step Bgpids.zeroed) Conforms emptyTable currentDone := by
    decide +kernel
  have hbefore : (Machine.runPath (step Bgpids.zeroed) emptyTable currentDone).map
      (·.current) = some (some 0) := by decide +kernel
  have hafter : ((Machine.runPath (step Bgpids.zeroed) emptyTable currentDone).bind
      (compactJobsList Bgpids.zeroed scriptMode)).map (·.2.current) = some none := by decide +kernel
  cases ht : Machine.runPath (step Bgpids.zeroed) emptyTable currentDone with
  | none => rw [ht] at hbefore; cases hbefore
  | some t =>
      rw [ht] at hbefore hafter
      rw [Option.bind_some] at hafter
      cases hu : t.compactJobsList Bgpids.zeroed scriptMode with
      | none => rw [hu] at hafter; cases hafter
      | some iu =>
          rw [hu] at hafter
          obtain ⟨k, hk, -⟩ := (h currentDone t hmeets ht iu.1 iu.2 hu).2 0 (Option.some.inj hbefore)
          cases hk.symm.trans (Option.some.inj hafter)

end Jobs

end Rash
