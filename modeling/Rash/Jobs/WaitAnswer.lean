import Rash.Jobs.JobWait

/-!
# When `wait` has one answer

A job that is done is either in its slot or, with the status of its last process, in the table
of saved statuses, whatever is done to other jobs; the two answers of `wait` are the same unless
the job has `J_PIPEFAIL` and only processes before the last one failed.
-/

namespace Rash

namespace Jobs

open Bgpids (noPid toPsIndex)

namespace Job

/-- An asynchronous job whose processes are all reaped. -/
structure Finished (job : Job) : Prop where
  reaped : ∀ p ∈ job.pipe, p.running = .done ∧ wifstopped p.status = false
  dead : job.state = .dead
  async : job.flags.async = true
  background : job.flags.foreground = false
  hasPids : job.HasPids

def lastPid (job : Job) : ℤ := job.findLastProc.pid

variable {job other : Job}

theorem findLastProc_mem (job : Job) : job.findLastProc ∈ job.pipe := List.getLast_mem _

theorem mentions_lastPid (job : Job) : job.mentions job.lastPid = true :=
  List.any_eq_true.mpr ⟨_, job.findLastProc_mem, decide_eq_true rfl⟩

theorem lastPid_ne {pid : ℤ} (h : job.mentions pid = false) : job.lastPid ≠ pid := by
  intro heq
  rw [← heq, mentions_lastPid] at h
  cases h

/-- Of a job that is notified nothing but the flag is new. -/
theorem notify_eq_iff : job.notify = other.notify ↔
    job = { other with flags := { other.flags with notified := job.flags.notified } } := by
  obtain ⟨addr, pipe, pgrp, state, ⟨foreground, notified, jobControl, async, pipefail⟩, hpipe⟩ := job
  obtain ⟨addr', pipe', pgrp', state', ⟨foreground', notified', jobControl', async', pipefail'⟩,
    hpipe'⟩ := other
  simp [notify]

@[simp] theorem mentions_notify (pid : ℤ) : job.notify.mentions pid = job.mentions pid := rfl

theorem waitFor_notify : job.notify.waitFor = job.waitFor := rfl

theorem lastPid_notify : job.notify.lastPid = job.lastPid := rfl

theorem Finished.notify (h : job.Finished) : job.notify.Finished :=
  ⟨h.reaped, h.dead, h.async, h.background, h.hasPids⟩

/-- What the live job answers. -/
theorem Finished.waitFor (h : job.Finished) : job.waitFor = some job.jobExitStatus := by
  obtain ⟨hdone, hstatus⟩ := h.reaped _ (List.head_mem job.pipe_ne)
  have hrunning : ¬ ((job.pipe.head job.pipe_ne).running = .running ∨ job.state = .running) := by
    rw [hdone, h.dead]
    simp
  have hstopped : ¬ (job.state = .stopped ∨ wifstopped (job.pipe.head job.pipe_ne).status = true) := by
    rw [hstatus, h.dead]
    simp
  rw [Job.waitFor]
  simp only [if_neg hrunning, if_neg hstopped]

end Job

/-! ## Slots and the list of jobs -/

/-- A job of the array is in the list, and an empty or another slot there takes it out of the
list or changes it. -/
theorem reduceOption_at {job : Job} : ∀ {l : List (Option Job)} {i : ℕ}, l[i]? = some (some job) →
    ∃ a b, l.reduceOption = a ++ job :: b ∧
      ∀ new : Option Job, (l.set i new).reduceOption = a ++ (new.toList ++ b)
  | _ :: l, 0, h => by
      cases h
      refine ⟨[], l.reduceOption, rfl, fun new => ?_⟩
      cases new <;> rfl
  | none :: l, i + 1, h => by
      obtain ⟨a, b, hl, hset⟩ := reduceOption_at (l := l) (i := i) h
      exact ⟨a, b, hl, hset⟩
  | some first :: l, i + 1, h => by
      obtain ⟨a, b, hl, hset⟩ := reduceOption_at (l := l) (i := i) h
      refine ⟨first :: a, b, ?_, fun new => ?_⟩
      · rw [List.reduceOption_cons_of_some, hl]
        rfl
      · rw [List.set_cons_succ, List.reduceOption_cons_of_some, hset]
        rfl

namespace JobTable

variable {t u : JobTable} {J job : Job} {pid : ℤ} {fresh : ℕ → Bgpids.Pidstat} {m : Mode} {i : ℕ}

/-- The jobs that have the pid. -/
def withPid (t : JobTable) (pid : ℤ) : List Job := t.liveJobs.filter (·.mentions pid)

/-- `find_job` finds the first of them. -/
theorem findJob_bind : (t.findJob pid).bind t.slot = (t.withPid pid).head? := by
  have hlist : ∀ l : List (Option Job), (l.findIdx? (·.any (·.mentions pid))).bind (fun i => l[i]?.join) =
      (l.reduceOption.filter (·.mentions pid)).head? := by
    intro l
    induction l with
    | nil => rfl
    | cons a l ih =>
        rw [List.findIdx?_cons]
        cases a with
        | none =>
            rw [List.reduceOption_cons_of_none, ← ih]
            simp [Option.bind_map, Function.comp_def]
        | some job =>
            rw [List.reduceOption_cons_of_some, List.filter_cons]
            by_cases hjob : job.mentions pid = true
            · simp [hjob]
            · simp only [Option.any_some, hjob, if_false, ← ih, Option.bind_map, Function.comp_def,
                List.getElem?_cons_succ, Bool.false_eq_true]
  exact hlist t.jobs

/-- What holds of the table and of the saved statuses between any operations. -/
structure Tidy (t : JobTable) : Prop where
  sound : t.Sound
  intact : t.bgpids.Intact
  childmax : toPsIndex t.bgpids.childmax ≠ 0
  npid : 0 ≤ t.bgpids.npid
  pids : ∀ job ∈ t.liveJobs, job.lastPid ≠ noPid

/-- The job is in a slot, notified or not, and no other job has its pid. -/
def Held (J : Job) (t : JobTable) : Prop :=
  (t.withPid J.lastPid).map Job.notify = [J.notify] ∧ t.bgpids.Forgets J.lastPid

/-- The job is deleted, and the status of its last process is saved. -/
def Saved (J : Job) (t : JobTable) : Prop :=
  (t.withPid J.lastPid).map Job.notify = [] ∧
    t.bgpids.Remembers J.lastPid (processExitStatus J.findLastProc.status) ∧ 0 < t.bgpids.npid

def Placed (J : Job) (t : JobTable) : Prop := Held J t ∨ Saved J t

/-- Two tables with the same jobs, notified or not, and the same saved statuses. -/
structure Alike (t u : JobTable) : Prop where
  jobs : u.liveJobs.map Job.notify = t.liveJobs.map Job.notify
  bgpids : ∃ c, u.bgpids = { t.bgpids with childmax := c } ∧ toPsIndex c ≠ 0

theorem withPid_notify (t : JobTable) (pid : ℤ) :
    (t.withPid pid).map Job.notify = (t.liveJobs.map Job.notify).filter (·.mentions pid) := by
  rw [List.filter_map]
  rfl

theorem Placed.alike (h : Placed J t) (hu : Alike t u) : Placed J u := by
  obtain ⟨c, hb, -⟩ := hu.bgpids
  rw [Placed, Held, Saved, withPid_notify, hu.jobs, hb, ← withPid_notify]
  rcases h with ⟨hjobs, hforgets⟩ | ⟨hjobs, hremembers, hnpid⟩
  · exact .inl ⟨hjobs, hforgets⟩
  · exact .inr ⟨hjobs, ⟨hremembers.remembered, hremembers.status⟩, hnpid⟩

theorem Tidy.alike (h : t.Tidy) (hsound : u.Sound) (hu : Alike t u) : u.Tidy := by
  obtain ⟨c, hb, hc⟩ := hu.bgpids
  refine ⟨hsound, ?_, ?_, ?_, fun job hjob => ?_⟩
  · rw [hb]
    exact ⟨h.intact.head, h.intact.nalloc, fun hne =>
      Bgpids.BgpState.chained_of_same (h.intact.chained hne) rfl rfl rfl⟩
  · rw [hb]
    exact hc
  · rw [hb]
    exact h.npid
  · have hmem : job.notify ∈ t.liveJobs.map Job.notify := hu.jobs ▸ List.mem_map_of_mem hjob
    obtain ⟨old, hold, heq⟩ := List.mem_map.mp hmem
    rw [← Job.lastPid_notify, ← heq]
    exact h.pids old hold

/-! ## Deletion -/

theorem processExitStatus_lt (w : WaitStatus) : processExitStatus w < 2 ^ 16 := by
  cases w with
  | exited code =>
      have := code.isLt
      simp only [processExitStatus]
      omega
  | signaled sig =>
      have := sig.isLt
      simp only [processExitStatus]
      omega
  | stopped sig => exact Nat.two_pow_pos 16

/-- `delete_job` saves the status of the job. -/
def saves (job : Job) (noBgpid : Bool) : Bool :=
  !noBgpid && job.flags.async && !job.flags.foreground

variable (fresh) in
theorem saveStatus_bgpids (h : t.Tidy) (hjob : job.lastPid ≠ noPid) (noBgpid : Bool) :
    if saves job noBgpid = true then
      t.bgpids.Added (t.saveStatus fresh job noBgpid).bgpids (t.bgpids.resized fresh).head job.lastPid
        (processExitStatus job.findLastProc.status)
    else (t.saveStatus fresh job noBgpid).bgpids = t.bgpids := by
  have hadded := Bgpids.BgpState.added_bgpAdd h.intact
    (processExitStatus job.findLastProc.status : ℤ) fresh hjob h.childmax
  rw [saveStatus, saves]
  split_ifs
  · exact hadded
  · rfl

/-- A deleted job is out of the list. -/
theorem Deleted.liveJobs {noBgpid : Bool} (h : Deleted fresh t u i job noBgpid) :
    ∃ a b, t.liveJobs = a ++ job :: b ∧ u.liveJobs = a ++ b := by
  obtain ⟨a, b, hl, hset⟩ := reduceOption_at (slot_eq_some.mp h.slot)
  refine ⟨a, b, hl, ?_⟩
  rw [JobTable.liveJobs, h.jobs]
  exact hset none

theorem Deleted.tidy {noBgpid : Bool} (h : Deleted fresh t u i job noBgpid) (ht : t.Tidy)
    (hsound : u.Sound) : u.Tidy := by
  obtain ⟨a, b, hl, hl'⟩ := h.liveJobs
  have hpid : job.lastPid ≠ noPid := ht.pids job (by simp [hl])
  have hpids : ∀ job ∈ u.liveJobs, job.lastPid ≠ noPid := fun other hother => by
    rw [hl', List.mem_append] at hother
    exact ht.pids other (by rw [hl, List.mem_append, List.mem_cons]; tauto)
  have hsave := saveStatus_bgpids fresh ht hpid noBgpid
  rw [← h.bgpids] at hsave
  split at hsave
  · refine ⟨hsound, hsave.intact, hsave.childmax ▸ ht.childmax, ?_, hpids⟩
    rw [hsave.npid]
    exact Int.le_add_one ht.npid
  · refine ⟨hsound, hsave ▸ ht.intact, hsave ▸ ht.childmax, hsave ▸ ht.npid, hpids⟩

theorem Deleted.withPid {noBgpid : Bool} (h : Deleted fresh t u i job noBgpid) (pid : ℤ) :
    ∃ a b, t.withPid pid = a ++ ((if job.mentions pid = true then [job] else []) ++ b) ∧
      u.withPid pid = a ++ b := by
  obtain ⟨a, b, hl, hl'⟩ := h.liveJobs
  refine ⟨a.filter (·.mentions pid), b.filter (·.mentions pid), ?_, ?_⟩
  · rw [JobTable.withPid, hl, List.filter_append, List.filter_cons]
    split_ifs <;> rfl
  · rw [JobTable.withPid, hl', List.filter_append]

/-- The job that is waited for is deleted, and its status saved. -/
theorem Deleted.saved (h : Deleted fresh t u i job false) (ht : t.Tidy) (hJ : J.Finished)
    (hheld : Held J t) (hmentions : job.mentions J.lastPid = true) : Saved J u := by
  obtain ⟨a, b, hwith, hwith'⟩ := h.withPid J.lastPid
  obtain ⟨hjobs, hforgets⟩ := hheld
  rw [if_pos hmentions] at hwith
  rw [hwith] at hjobs
  have hlength := congrArg List.length hjobs
  simp only [List.length_map, List.length_append, List.length_singleton] at hlength
  have ha : a = [] := List.eq_nil_of_length_eq_zero (by omega)
  have hb : b = [] := List.eq_nil_of_length_eq_zero (by omega)
  rw [ha, hb] at hjobs
  have hjob := Job.notify_eq_iff.mp (show job.notify = J.notify by simpa using hjobs)
  have hsaves : saves job false = true := by
    rw [saves, hjob, hJ.async, hJ.background]
    rfl
  have hsame : job.lastPid = J.lastPid ∧ job.findLastProc = J.findLastProc := by
    rw [hjob]
    exact ⟨rfl, rfl⟩
  have hpid : job.lastPid ≠ noPid := hsame.1 ▸ hJ.hasPids _ J.findLastProc_mem
  have hsave := saveStatus_bgpids fresh ht hpid false
  rw [if_pos hsaves, ← h.bgpids, hsame.1, hsame.2] at hsave
  have hremembers := hsave.remembers_new hforgets
  have hstatus : ((processExitStatus J.findLastProc.status : ℤ) % 2 ^ 16).toNat =
      processExitStatus J.findLastProc.status := by
    have := processExitStatus_lt J.findLastProc.status
    omega
  rw [hstatus] at hremembers
  refine ⟨by rw [hwith', ha, hb]; rfl, hremembers, ?_⟩
  rw [hsave.npid]
  exact Int.lt_add_one_of_le ht.npid

/-- Another job is deleted, without an eviction. -/
theorem Deleted.placed_other {noBgpid : Bool} (h : Deleted fresh t u i job noBgpid) (ht : t.Tidy)
    (hplaced : Placed J t) (hmentions : job.mentions J.lastPid = false)
    (hkeeps : saves job noBgpid = true → ¬ t.bgpids.Evicts fresh J.lastPid) : Placed J u := by
  obtain ⟨a, b, hwith, hwith'⟩ := h.withPid J.lastPid
  obtain ⟨a', b', hl, -⟩ := h.liveJobs
  have hsave := saveStatus_bgpids fresh ht (ht.pids job (by simp [hl])) noBgpid
  rw [hmentions, if_neg Bool.false_ne_true, List.nil_append, ← hwith'] at hwith
  rw [← h.bgpids] at hsave
  have hother : job.lastPid ≠ J.lastPid := Job.lastPid_ne hmentions
  rw [Placed, Held, Saved, ← hwith]
  split at hsave
  · next hsaves =>
      have hkept := Bgpids.BgpState.not_evicts ht.intact ht.childmax (hkeeps hsaves)
      rcases hplaced with ⟨hjobs, hforgets⟩ | ⟨hjobs, hremembers, hnpid⟩
      · exact .inl ⟨hjobs, hsave.forgets hother hforgets⟩
      · refine .inr ⟨hjobs, hsave.remembers hother hkept hremembers, ?_⟩
        rw [hsave.npid]
        exact Int.lt_add_one_of_le ht.npid
  · rw [hsave]
    exact hplaced

theorem Deleted.placed {noBgpid : Bool} (h : Deleted fresh t u i job noBgpid) (ht : t.Tidy)
    (hJ : J.Finished) (hplaced : Placed J t)
    (hharmless : noBgpid = true → job.mentions J.lastPid = false)
    (hkeeps : saves job noBgpid = true → ¬ t.bgpids.Evicts fresh J.lastPid) : Placed J u := by
  by_cases hmentions : job.mentions J.lastPid = true
  · cases noBgpid with
    | true =>
        rw [hharmless rfl] at hmentions
        cases hmentions
    | false =>
        rcases hplaced with hheld | ⟨hjobs, -, -⟩
        · exact .inr (h.saved ht hJ hheld hmentions)
        · obtain ⟨a, b, hwith, -⟩ := h.withPid J.lastPid
          rw [List.map_eq_nil_iff.mp hjobs, if_pos hmentions] at hwith
          simp at hwith
  · exact h.placed_other ht hplaced (Bool.eq_false_iff.mpr hmentions) hkeeps

/-- What an operation does to a tidy table, and under the condition to the job waited for. -/
structure Serves (J : Job) (t u : JobTable) (keeps : Prop) : Prop where
  tidy : u.Tidy
  placed : keeps → Placed J t → Placed J u

theorem Serves.same (h : t.Tidy) (keeps : Prop) : Serves J t t keeps := ⟨h, fun _ hplaced => hplaced⟩

theorem Serves.alike (h : t.Tidy) (hsound : u.Sound) (hu : Alike t u) (keeps : Prop) :
    Serves J t u keeps :=
  ⟨h.alike hsound hu, fun _ hplaced => hplaced.alike hu⟩

theorem Serves.trans {v : JobTable} {p q : Prop} (h : Serves J t u p) (h' : Serves J u v q) :
    Serves J t v (p ∧ q) :=
  ⟨h'.tidy, fun hkeeps hplaced => h'.placed hkeeps.2 (h.placed hkeeps.1 hplaced)⟩

theorem Serves.imp {p q : Prop} (h : Serves J t u p) (hpq : q → p) : Serves J t u q :=
  ⟨h.tidy, fun hkeeps => h.placed (hpq hkeeps)⟩

variable (fresh m) in
theorem deleteJob_serves (h : t.Tidy) (hJ : J.Finished) (i : ℕ) (noBgpid : Bool) :
    ∃ u, t.deleteJob fresh m i noBgpid = some u ∧
      Serves J t u ((noBgpid = true → (t.slot i).any (·.mentions J.lastPid) = false) ∧
        (m.jobsListFrozen = false → noBgpid = false → t.DeleteKeeps fresh J.lastPid i)) := by
  by_cases hnothing : t.jobslots = 0 ∨ m.jobsListFrozen = true
  · exact ⟨t, if_pos hnothing, Serves.same h _⟩
  · obtain ⟨u, hu, hsound, ⟨rfl, -⟩ | ⟨job, hdeleted⟩⟩ := deleteJob_spec fresh m h.sound i noBgpid
    · exact ⟨u, hu, Serves.same h _⟩
    · refine ⟨u, hu, hdeleted.tidy h hsound, fun ⟨hharmless, hkeeps⟩ hplaced => ?_⟩
      have hthawed : m.jobsListFrozen = false := by
        rw [not_or] at hnothing
        exact Bool.eq_false_iff.mpr hnothing.2
      refine hdeleted.placed h hJ hplaced (fun hno => ?_) fun hsaves => ?_
      · have hslot := hharmless hno
        rwa [hdeleted.slot] at hslot
      · rw [saves, Bool.and_assoc, Bool.and_eq_true, Bool.not_eq_true'] at hsaves
        refine hkeeps hthawed hsaves.1 ?_
        rw [hdeleted.slot]
        exact hsaves.2

variable (fresh m) in
theorem cleanupSlots_serves (h : t.Tidy) (hJ : J.Finished) (is : List ℕ) :
    ∃ u, t.cleanupSlots fresh m is = some u ∧ Serves J t u (t.CleanupKeeps fresh m J.lastPid is) := by
  induction is generalizing t with
  | nil => exact ⟨t, rfl, Serves.same h _⟩
  | cons i is ih =>
      rw [cleanupSlots, CleanupKeeps]
      split
      · obtain ⟨u, hu, hserves⟩ := deleteJob_serves fresh m h hJ i false
        obtain ⟨v, hv, hrest⟩ := ih hserves.tidy
        refine ⟨v, by rw [hu]; exact hv, (hserves.trans hrest).imp fun hkeeps => ?_⟩
        exact ⟨⟨fun hno => (by cases hno), fun _ _ => hkeeps.1⟩, hkeeps.2 u hu⟩
      · exact ih h

variable (fresh m) in
theorem cleanupDeadJobs_serves (h : t.Tidy) (hJ : J.Finished) :
    ∃ u, t.cleanupDeadJobs fresh m = some u ∧
      Serves J t u (t.CleanupDeadKeeps fresh m J.lastPid) := by
  rw [cleanupDeadJobs]
  split
  · exact ⟨t, rfl, Serves.same h _⟩
  · next hthawed =>
      rw [not_or, Bool.not_eq_true] at hthawed
      obtain ⟨u, hu, hserves⟩ := cleanupSlots_serves fresh m h hJ (List.range t.jobslots)
      exact ⟨u, hu, hserves.imp fun hkeeps => hkeeps hthawed.2⟩

/-! ## Compaction -/

theorem markSlots_notify (childmax : ℤ) : ∀ (l : List (Option Job)) (n : ℤ),
    (markSlots m childmax n l).map (Option.map Job.notify) = l.map (Option.map Job.notify)
  | [], _ => rfl
  | none :: l, n => by rw [markSlots, List.map_cons, markSlots_notify childmax l n, List.map_cons]
  | some job :: l, n => by
      rw [markSlots]
      split_ifs
      · rfl
      · rw [List.map_cons, markSlots_notify childmax l, List.map_cons]
        rfl
      · rw [List.map_cons, markSlots_notify childmax l, List.map_cons]

theorem alike_of_map {c : ℤ}
    (hjobs : u.jobs.map (Option.map Job.notify) = t.jobs.map (Option.map Job.notify))
    (hb : u.bgpids = { t.bgpids with childmax := c }) (hc : toPsIndex c ≠ 0) : Alike t u :=
  ⟨by rw [liveJobs, liveJobs, ← List.reduceOption_map, hjobs, List.reduceOption_map], c, hb, hc⟩

theorem alike_of_jobs (hjobs : u.jobs = t.jobs) (hb : u.bgpids = t.bgpids)
    (hc : toPsIndex t.bgpids.childmax ≠ 0) : Alike t u :=
  alike_of_map (by rw [hjobs]) hb hc

/-- Dead jobs are notified, and `js.c_childmax` gets a value. -/
theorem markDeadJobsAsNotified_alike (h : t.Tidy) (hm : toPsIndex m.lmaxchild ≠ 0) :
    Alike t (t.markDeadJobsAsNotified m) := by
  obtain ⟨c, hc, hset⟩ : ∃ c, toPsIndex c ≠ 0 ∧ (if t.bgpids.childmax < 0 then
      { t with bgpids := { t.bgpids with childmax := m.lmaxchild } } else t) =
      ({ t with bgpids := { t.bgpids with childmax := c } } : JobTable) := by
    split
    · exact ⟨_, hm, rfl⟩
    · exact ⟨_, h.childmax, rfl⟩
  rw [markDeadJobsAsNotified]
  split
  · exact alike_of_jobs rfl rfl h.childmax
  · simp only [hset]
    split
    · exact alike_of_map rfl rfl hc
    · exact alike_of_map (markSlots_notify _ _ _) rfl hc

theorem resetCurrent_alike (h : t.Tidy) : Alike t t.resetCurrent := by
  obtain ⟨c, p, hreset, -⟩ := resetCurrent_spec t
  rw [hreset]
  exact alike_of_jobs rfl rfl h.childmax

theorem reallocJobsList_alike (h : t.Tidy) : Alike t t.reallocJobsList := by
  obtain ⟨-, hjobs, -⟩ := reallocJobsList_spec h.sound
  refine ⟨by rw [liveJobs_compacted hjobs], _, ?_, h.childmax⟩
  rw [reallocJobsList_eq]
  split
  · obtain ⟨c, p, hreset, -⟩ := resetCurrent_spec t.compacted
    rw [hreset]
    rfl
  · rfl

variable (fresh m) in
theorem compactJobsList_serves (h : t.Tidy) (hJ : J.Finished) (hm : toPsIndex m.lmaxchild ≠ 0) :
    ∃ i u, t.compactJobsList fresh m = some (i, u) ∧
      Serves J t u (t.CompactKeepsPid fresh m J.lastPid) := by
  rw [compactJobsList]
  split
  · exact ⟨_, t, rfl, Serves.same h _⟩
  · next hthawed =>
      rw [not_or, Bool.not_eq_true] at hthawed
      have hmarked := Serves.alike (J := J) h (markDeadJobsAsNotified_spec h.sound).1
        (markDeadJobsAsNotified_alike h hm) True
      obtain ⟨v, hv, hreaped⟩ := cleanupDeadJobs_serves fresh m hmarked.tidy hJ
      have hrealloc := Serves.alike (J := J) hreaped.tidy (reallocJobsList_spec hreaped.tidy.sound).1
        (reallocJobsList_alike hreaped.tidy) True
      rw [reapDeadJobs, hv]
      refine ⟨_, _, rfl, ((hmarked.trans hreaped).trans hrealloc).imp fun hkeeps => ?_⟩
      exact ⟨⟨trivial, hkeeps hthawed.2⟩, trivial⟩

/-! ## New jobs -/

theorem firstSlots_alike (h : t.Tidy) : Alike t t.firstSlots := by
  refine ⟨by rw [(firstSlots_spec h.sound).2], _, ?_, h.childmax⟩
  rw [firstSlots]
  split <;> rfl

theorem moreSlots_alike (h : t.Tidy) (hi : t.Behind i) : Alike t (t.moreSlots i) := by
  refine ⟨by rw [(moreSlots_spec h.sound hi).2.2.2], _, ?_, h.childmax⟩
  rw [moreSlots]
  split <;> rfl

variable (fresh m) in
theorem findSlot_serves (h : t.Tidy) (hJ : J.Finished) (hm : toPsIndex m.lmaxchild ≠ 0) :
    ∃ i u, t.findSlot fresh m = some (i, u) ∧ u.Behind i ∧
      Serves J t u ((!m.interactiveShell || m.subshellEnvironment) ∧
        t.searchSlot m = t.jobslots ∧ t.jobslots ≥ maxJobsInArray →
        t.CompactKeepsPid fresh m J.lastPid) := by
  obtain ⟨i, u, hu, -, hbehind, -⟩ := findSlot_spec fresh m h.sound
  refine ⟨i, u, hu, hbehind, ?_⟩
  rw [findSlot] at hu
  split at hu
  · next hfull =>
      obtain ⟨i', u', hu', hserves⟩ := compactJobsList_serves fresh m h hJ hm
      obtain ⟨-, rfl⟩ := Prod.mk.inj (Option.some.inj (hu.symm.trans hu'))
      exact hserves.imp fun hkeeps => hkeeps hfull
  · obtain ⟨-, rfl⟩ := Prod.mk.inj (Option.some.inj hu)
    exact Serves.same h _

theorem install_bgpids (t : JobTable) (i : ℕ) (job : Job) : (t.install i job).bgpids = t.bgpids := by
  simp only [install]
  split <;> rfl

/-- A new job with pids of its own. -/
theorem install_serves (h : t.Tidy) (hi : t.Behind i) (hlt : i < t.jobslots) (hpids : job.HasPids) :
    Serves J t (t.install i job) (job.mentions J.lastPid = false) := by
  obtain ⟨hsound, hjobs⟩ := install_spec job h.sound hi hlt
  have hb := install_bgpids t i job
  refine ⟨⟨hsound, hb ▸ h.intact, hb ▸ h.childmax, hb ▸ h.npid, fun other hother => ?_⟩,
    fun hapart hplaced => ?_⟩
  · rw [hjobs, List.mem_append, List.mem_singleton] at hother
    rcases hother with hother | rfl
    · exact h.pids other hother
    · exact hpids _ other.findLastProc_mem
  · have hwith : (t.install i job).withPid J.lastPid = t.withPid J.lastPid := by
      rw [withPid, hjobs, List.filter_append, List.filter_cons_of_neg (by simp [hapart])]
      exact List.append_nil _
    rw [Placed, Held, Saved, hwith, hb]
    exact hplaced

theorem installed_hasPids {async : Bool} (h : job.HasPids) : (installed async job).HasPids := h

variable (fresh m) in
theorem stopPipeline_serves (h : t.Tidy) (hJ : J.Finished) (hm : toPsIndex m.lmaxchild ≠ 0)
    (async : Bool) (newjob : Option Job) (hpids : ∀ job ∈ newjob, job.HasPids) :
    ∃ u, t.stopPipeline fresh m async newjob = some u ∧
      Serves J t u ((∀ job ∈ newjob, job.mentions J.lastPid = false) ∧
        t.StopKeeps fresh m J.lastPid) := by
  obtain ⟨t₁, h₁, hserves₁⟩ := cleanupDeadJobs_serves fresh m h hJ
  have hserves₂ := Serves.alike (J := J) hserves₁.tidy (firstSlots_spec hserves₁.tidy.sound).1
    (firstSlots_alike hserves₁.tidy) True
  obtain ⟨i, t₃, h₃, hbehind, hserves₃⟩ := findSlot_serves fresh m hserves₂.tidy hJ hm
  obtain ⟨hsound₄, hbehind₄, hlt, -⟩ := moreSlots_spec hserves₃.tidy.sound hbehind
  have hserves₄ := Serves.alike (J := J) hserves₃.tidy hsound₄ (moreSlots_alike hserves₃.tidy hbehind) True
  have hall : Serves J t (t₃.moreSlots i) (t.StopKeeps fresh m J.lastPid) :=
    (((hserves₁.trans hserves₂).trans hserves₃).trans hserves₄).imp fun hkeeps =>
      ⟨⟨⟨hkeeps.1, trivial⟩, hkeeps.2 t₁ h₁⟩, trivial⟩
  have hreset : ∀ {u : JobTable} {p : Prop}, Serves J t u p → Serves J t u.resetCurrent p :=
    fun hu => (hu.trans (Serves.alike hu.tidy (sound_resetCurrent hu.tidy.sound.indexed)
      (resetCurrent_alike hu.tidy) True)).imp fun hp => ⟨hp, trivial⟩
  rw [stopPipeline, h₁]
  simp only [Option.bind_some, h₃, Option.map_some]
  cases newjob with
  | none =>
      refine ⟨_, rfl, ?_⟩
      cases async with
      | true => exact hreset (hall.imp And.right)
      | false => exact hall.imp And.right
  | some job =>
      have hinst : Serves J t ((t₃.moreSlots i).install i (installed async job))
          ((∀ new ∈ (some job : Option Job), Job.mentions new J.lastPid = false) ∧ t.StopKeeps fresh m J.lastPid) :=
        (hall.trans (install_serves hall.tidy hbehind₄ hlt
          (installed_hasPids (hpids job rfl)))).imp fun hkeeps => ⟨hkeeps.2, hkeeps.1 job rfl⟩
      refine ⟨_, rfl, ?_⟩
      cases async with
      | true =>
          -- `js.j_lastasync` is set in between
          have hlast := hinst.tidy.sound.of_isSome (u := { (t₃.moreSlots i).install i
            (installed true job) with lastasync := some job.addr }) rfl rfl rfl rfl rfl rfl
          have hserves := hinst.trans (Serves.alike hinst.tidy hlast
            (alike_of_jobs rfl rfl hinst.tidy.childmax) True)
          exact hreset (hserves.imp fun hkeeps => ⟨hkeeps, trivial⟩)
      | false => exact hinst

/-! ## Runs -/

/-- A job that changes: the one waited for is notified, another gets no new pid of its. -/
theorem changed_serves (h : t.Tidy) (hi : t.Live i) (hpids : job.HasPids) :
    Serves J t (t.setSlot i (some job)) (∀ old ∈ t.slot i,
      if old.mentions J.lastPid then job.notify = old.notify
      else job.mentions J.lastPid = false) := by
  have hsound : (t.setSlot i (some job)).Sound := sound_changed h.sound hi
  obtain ⟨old, hold⟩ := live_iff.mp hi
  obtain ⟨a, b, hl, hset⟩ := reduceOption_at hold
  have hlive : (t.setSlot i (some job)).liveJobs = a ++ job :: b := hset (some job)
  refine ⟨⟨hsound, h.intact, h.childmax, h.npid, fun other hother => ?_⟩,
    fun hkeeps hplaced => ?_⟩
  · rw [hlive, List.mem_append, List.mem_cons] at hother
    have hmem : ∀ x, x ∈ a ∨ x ∈ b → x.lastPid ≠ noPid := fun x hx => by
      refine h.pids x ?_
      rw [liveJobs, hl, List.mem_append, List.mem_cons]
      tauto
    rcases hother with hother | rfl | hother
    · exact hmem other (.inl hother)
    · exact hpids _ other.findLastProc_mem
    · exact hmem other (.inr hother)
  · have hkeep := hkeeps old (slot_eq_some.mpr hold)
    have hwith : ((t.setSlot i (some job)).withPid J.lastPid).map Job.notify =
        (t.withPid J.lastPid).map Job.notify := by
      rw [withPid, withPid, hlive, liveJobs, hl, List.filter_append, List.filter_append,
        List.filter_cons, List.filter_cons]
      split at hkeep
      · next hmentions =>
          have hmentions' : job.mentions J.lastPid = true := by
            rw [← Job.mentions_notify, hkeep, Job.mentions_notify, hmentions]
          rw [if_pos hmentions, if_pos hmentions', List.map_append, List.map_append, List.map_cons,
            List.map_cons, hkeep]
      · next hmentions =>
          rw [if_neg hmentions, if_neg (by simp [hkeep])]
    rw [Placed, Held, Saved, hwith]
    exact hplaced

variable (fresh) in
theorem step_serves (h : t.Tidy) (hJ : J.Finished) {op : Mode × JobOp} (hop : Valid t op) :
    ∃ u, step fresh t op = some u ∧
      Serves J t u (Harmless J.lastPid t op ∧ NoEviction fresh J.lastPid t op) := by
  obtain ⟨m, op⟩ := op
  obtain ⟨hconf, hm, hpids⟩ := hop
  cases op with
  | stopPipeline async addr thePipeline pgrp =>
      exact stopPipeline_serves fresh m h hJ hm async _ hpids
  | deleteJob i noBgpid =>
      obtain ⟨u, hu, hserves⟩ := deleteJob_serves fresh m h hJ i noBgpid
      exact ⟨u, hu, hserves.imp fun hkeeps => ⟨fun _ => hkeeps.1, hkeeps.2⟩⟩
  | cleanupDeadJobs =>
      obtain ⟨u, hu, hserves⟩ := cleanupDeadJobs_serves fresh m h hJ
      exact ⟨u, hu, hserves.imp And.right⟩
  | reallocJobsList =>
      exact ⟨_, rfl, Serves.alike h (reallocJobsList_spec h.sound).1 (reallocJobsList_alike h) _⟩
  | compactJobsList =>
      obtain ⟨i, u, hu, hserves⟩ := compactJobsList_serves fresh m h hJ hm
      exact ⟨u, by rw [step, hu]; rfl, hserves.imp And.right⟩
  | resetCurrent =>
      exact ⟨_, rfl, Serves.alike h (sound_resetCurrent h.sound.indexed) (resetCurrent_alike h) _⟩
  | setCurrentJob i =>
      obtain ⟨p, hset, -⟩ := setCurrentJob_spec (t := t) hconf
      refine ⟨_, rfl, Serves.alike h (sound_setCurrentJob h.sound hconf) ?_ _⟩
      rw [hset]
      exact alike_of_jobs rfl rfl h.childmax
  | changed i job =>
      exact ⟨_, rfl, (changed_serves h (Option.isSome_of_any hconf) hpids).imp And.left⟩

end JobTable

end Jobs

end Rash
