import Rash.Jobs.WaitAnswer

/-!
# `wait` and the time of the clean-up

In every run the answer for a job that is done is the same before and after its deletion, exactly
where the status of the last process is that of the job.
-/

namespace Rash

namespace Jobs

open Bgpids (noPid toPsIndex)

/-! ## The status of a job -/

/-- The fold of `raw_job_exit_status` ends with success if nothing failed. -/
theorem foldl_failed_eq (l : List Process) (d : WaitStatus) :
    l.foldl (fun fail p => if p.status ≠ .exited 0 then p.status else fail) d = .exited 0 ↔
      d = .exited 0 ∧ ∀ p ∈ l, p.status = .exited 0 := by
  induction l generalizing d with
  | nil => simp
  | cons p l ih =>
      rw [List.foldl_cons, ih, List.forall_mem_cons, ← and_assoc]
      refine and_congr_left' ?_
      by_cases hp : p.status = .exited 0
      · simp [hp]
      · simp [hp]

theorem foldl_failed_mem (l : List Process) (d : WaitStatus) :
    l.foldl (fun fail p => if p.status ≠ .exited 0 then p.status else fail) d ∈
      d :: l.map Process.status := by
  induction l generalizing d with
  | nil => exact List.mem_cons_self
  | cons p l ih =>
      rw [List.foldl_cons]
      have hmem := ih (if p.status ≠ .exited 0 then p.status else d)
      rw [List.mem_cons] at hmem
      rcases hmem with hmem | hmem
      · rw [hmem]
        split <;> simp
      · exact List.mem_cons_of_mem _ (List.mem_cons_of_mem _ hmem)

theorem processExitStatus_eq_zero {w : WaitStatus} (hw : wifstopped w = false) :
    processExitStatus w = 0 ↔ w = .exited 0 := by
  cases w with
  | exited code => simp [processExitStatus]
  | signaled sig => simp [processExitStatus]
  | stopped sig => cases hw

namespace Job

variable {J : Job}

/-- Without `J_PIPEFAIL` the last process counts; with it, it must have failed, or all processes
must have succeeded. -/
def LastCounts (J : Job) : Prop :=
  J.flags.pipefail = true → J.findLastProc.status ≠ .exited 0 ∨ ∀ p ∈ J.pipe, p.status = .exited 0

instance : Decidable J.LastCounts := inferInstanceAs (Decidable (_ → _))

theorem Finished.jobExitStatus_eq_iff (h : J.Finished) :
    J.jobExitStatus = processExitStatus J.findLastProc.status ↔ J.LastCounts := by
  rw [jobExitStatus, rawJobExitStatus, LastCounts]
  by_cases hfail : J.flags.pipefail = true
  · rw [if_pos hfail]
    have hsplit : J.pipe = J.pipe.dropLast ++ [J.findLastProc] :=
      (List.dropLast_append_getLast J.pipe_ne).symm
    by_cases hlast : J.findLastProc.status = .exited 0
    · rw [hlast]
      have hraw := foldl_failed_mem J.pipe (.exited 0)
      have hzero := foldl_failed_eq J.pipe (.exited 0)
      generalize J.pipe.foldl _ _ = raw at hraw hzero ⊢
      have hstopped : wifstopped raw = false := by
        rcases List.mem_cons.mp hraw with rfl | hraw
        · rfl
        · obtain ⟨p, hp, rfl⟩ := List.mem_map.mp hraw
          exact (h.reaped p hp).2
      change processExitStatus raw = 0 ↔ _
      rw [processExitStatus_eq_zero hstopped, hzero]
      simp [hfail]
    · have hfold : J.pipe.foldl (fun fail p => if p.status ≠ .exited 0 then p.status else fail)
          (.exited 0) = J.findLastProc.status := by
        rw [hsplit, List.foldl_append, List.foldl_cons, List.foldl_nil, if_pos hlast]
      rw [hfold]
      simp [hlast]
  · simp [hfail]

end Job

namespace JobTable

variable {t : JobTable} {J : Job} {fresh : ℕ → Bgpids.Pidstat}

/-! ## Answers -/

theorem Held.answer (h : Held J t) (hJ : J.Finished) :
    t.waitForSinglePid J.lastPid = some (J.jobExitStatus : ℤ) := by
  obtain ⟨job, hjob, heq⟩ : ∃ job, t.withPid J.lastPid = [job] ∧ job.notify = J.notify := by
    obtain ⟨job, hjob⟩ := List.length_eq_one_iff.mp (by simpa using congrArg List.length h.1)
    have hnotify := h.1
    rw [hjob] at hnotify
    exact ⟨job, hjob, by simpa using hnotify⟩
  have hwait : job.waitFor = some J.jobExitStatus := by
    rw [← Job.waitFor_notify, heq, Job.waitFor_notify, hJ.waitFor]
  rw [waitForSinglePid, findJob_bind, hjob]
  simp [hwait]

theorem Saved.answer (h : Saved J t) (ht : t.Tidy) :
    t.waitForSinglePid J.lastPid = some (processExitStatus J.findLastProc.status : ℤ) := by
  obtain ⟨hjobs, hremembers, hnpid⟩ := h
  rw [waitForSinglePid, findJob_bind, List.map_eq_nil_iff.mp hjobs]
  simp [Bgpids.BgpState.bgpSearch_remembers ht.intact hremembers hnpid]

/-! ## Runs -/

theorem run_serves (h : t.Tidy) (hJ : J.Finished) (hplaced : Placed J t) (ops : List (Mode × JobOp))
    (hops : Machine.PathMeets (step fresh) (Waits fresh J.lastPid) t ops) :
    ∃ u, Machine.runPath (step fresh) t ops = some u ∧ u.Tidy ∧ Placed J u := by
  induction ops generalizing t with
  | nil => exact ⟨t, rfl, h, hplaced⟩
  | cons op ops ih =>
      obtain ⟨⟨hvalid, hharmless, hkeeps⟩, hrest⟩ := hops
      obtain ⟨u, hu, hserves⟩ := step_serves fresh h hJ hvalid
      obtain ⟨v, hv, hvtidy, hvplaced⟩ :=
        ih hserves.tidy (hserves.placed ⟨hharmless, hkeeps⟩ hplaced) (hrest u hu)
      exact ⟨v, by rw [Machine.runPath, hu]; exact hv, hvtidy, hvplaced⟩

/-! ## A job that is reaped -/

/-- A table with one job. -/
def oneJob (J : Job) : JobTable :=
  { emptyTable with jobs := some J :: List.replicate 7 none, njobs := 1 }

theorem tidy_oneJob (hJ : J.Finished) : (oneJob J).Tidy := by
  refine ⟨⟨indexed_compacted (l := [J]) (n := 7) rfl rfl rfl rfl, fun i hi => ?_, fun i hi => ?_,
    Iff.rfl⟩, Bgpids.intact_start, (by decide : toPsIndex (-1) ≠ 0), Int.le_refl 0, fun job hjob => ?_⟩
  · cases hi
  · cases hi
  · rw [List.mem_singleton.mp hjob]
    exact hJ.hasPids _ J.findLastProc_mem

theorem held_oneJob (J : Job) : Held J (oneJob J) := by
  have hwith : (oneJob J).withPid J.lastPid = [J] :=
    List.filter_cons_of_pos J.mentions_lastPid
  rw [Held, hwith]
  exact ⟨rfl, fun psi hlive => absurd hlive.1 (Nat.not_lt_zero psi)⟩

/-- The job is notified, and the dead jobs are reaped. -/
def reaping (J : Job) : List (Mode × JobOp) :=
  [(scriptMode, .changed 0 J.notify), (scriptMode, .cleanupDeadJobs)]

theorem cleanupKeeps_of_free {m : Mode} {pid : ℤ} (is : List ℕ) (hfree : ∀ i ∈ is, t.slot i = none) :
    t.CleanupKeeps fresh m pid is := by
  induction is with
  | nil => trivial
  | cons i is ih =>
      rw [List.forall_mem_cons] at hfree
      rw [CleanupKeeps, hfree.1]
      exact ih hfree.2

theorem cleanupSlots_of_free {m : Mode} (is : List ℕ) (hfree : ∀ i ∈ is, t.slot i = none) :
    t.cleanupSlots fresh m is = some t := by
  induction is with
  | nil => rfl
  | cons i is ih =>
      rw [List.forall_mem_cons] at hfree
      rw [cleanupSlots, hfree.1]
      exact ih hfree.2

variable (fresh) in
/-- The clean-up deletes the job, and leaves all slots free. -/
theorem deleteJob_oneJob (hJ : J.Finished) : ∃ u,
    (oneJob J.notify).deleteJob fresh scriptMode 0 false = some u ∧ ∀ i, u.slot i = none := by
  obtain ⟨u, hu, -, ⟨-, hnot⟩ | ⟨job, hdeleted⟩⟩ :=
    deleteJob_spec fresh scriptMode (tidy_oneJob (J := J.notify) hJ.notify).sound 0 false
  · rcases hnot with hfrozen | hfree
    · cases hfrozen
    · exact absurd rfl hfree
  · refine ⟨u, hu, fun i => ?_⟩
    rw [slot, hdeleted.jobs]
    change (List.replicate 8 (none : Option Job))[i]?.join = none
    rw [List.getElem?_replicate]
    split <;> rfl

variable (fresh) in
theorem waits_reaping (hJ : J.Finished) :
    Machine.PathMeets (step fresh) (Waits fresh J.lastPid) (oneJob J) (reaping J) := by
  have hmax : toPsIndex scriptMode.lmaxchild ≠ 0 := by decide
  refine ⟨⟨⟨by simp [Conforms, oneJob, slot, Job.notify], hmax, hJ.hasPids⟩, fun old hold => ?_,
    trivial⟩, fun t ht => ?_⟩
  · obtain rfl : J = old := Option.some.inj hold
    rw [if_pos J.mentions_lastPid]
    rfl
  · obtain rfl : oneJob J.notify = t := Option.some.inj ht
    refine ⟨⟨⟨trivial, hmax, trivial⟩, trivial, fun _ => ?_⟩, fun _ _ => trivial⟩
    have hlist : List.range (oneJob J.notify).jobslots = 0 :: List.range' 1 7 := rfl
    rw [hlist, CleanupKeeps]
    split
    · refine ⟨fun _ => ?_, fun u hu => ?_⟩
      · exact Bgpids.BgpState.not_evicts_of_free Bgpids.intact_start fresh (by decide)
          (fun psi hlive => Nat.not_lt_zero psi hlive.1) (hJ.hasPids _ J.findLastProc_mem)
      · obtain ⟨v, hv, hfree⟩ := deleteJob_oneJob fresh hJ
        obtain rfl := Option.some.inj (hv.symm.trans hu)
        exact cleanupKeeps_of_free _ fun i _ => hfree i
    · refine cleanupKeeps_of_free _ fun i hi => ?_
      obtain ⟨k, hk, rfl⟩ := List.mem_range'.mp hi
      rw [Nat.one_mul, Nat.add_comm]
      change (List.replicate 7 (none : Option Job))[k]?.join = none
      rw [List.getElem?_replicate]
      split <;> rfl

variable (fresh) in
/-- Once the job is reaped, its last process answers for it. -/
theorem reaping_answer (hJ : J.Finished) : ∃ u,
    Machine.runPath (step fresh) (oneJob J) (reaping J) = some u ∧
      u.waitForSinglePid J.lastPid = some (processExitStatus J.findLastProc.status : ℤ) := by
  obtain ⟨u, hu, htidy, hplaced⟩ := run_serves (tidy_oneJob hJ) hJ (.inl (held_oneJob J)) (reaping J)
    (waits_reaping fresh hJ)
  obtain ⟨v, hv, hfree⟩ := deleteJob_oneJob fresh hJ
  have hcleanup : (oneJob J.notify).cleanupDeadJobs fresh scriptMode = some v := by
    have hlist : List.range (oneJob J.notify).jobslots = 0 :: List.range' 1 7 := rfl
    have hcandidate : ((oneJob J.notify).slot 0).any candidate = true := by
      change candidate J.notify = true
      rw [candidate, hJ.notify.dead]
      rfl
    rw [cleanupDeadJobs, if_neg (by simp [oneJob, jobslots, scriptMode]), hlist, cleanupSlots,
      if_pos hcandidate, hv]
    exact cleanupSlots_of_free _ fun i _ => hfree i
  have hrun : Machine.runPath (step fresh) (oneJob J) (reaping J) = some v :=
    congrArg (Option.bind · fun t => some t) hcleanup
  obtain rfl := Option.some.inj (hu.symm.trans hrun)
  refine ⟨u, hu, ?_⟩
  rcases hplaced with hheld | hsaved
  · have hnone : u.liveJobs = [] := by
      refine List.eq_nil_iff_forall_not_mem.mpr fun job hjob => ?_
      obtain ⟨i, hi⟩ := List.getElem?_of_mem (List.reduceOption_mem_iff.mp hjob)
      have hslot := hfree i
      rw [slot, hi] at hslot
      cases hslot
    have hone := hheld.1
    rw [withPid, hnone] at hone
    cases hone
  · exact hsaved.answer htidy

end JobTable

open JobTable

/-- The answer of `wait` for a job that is done is the same in every run, however its deletion
falls, exactly where the status of its last process is the status of the job. -/
theorem wait_sameAnswer_iff (J : Job) (hJ : J.Finished) (fresh : ℕ → Bgpids.Pidstat) :
    (∀ t ops, t.Tidy → Held J t →
      Machine.PathMeets (step fresh) (Waits fresh J.lastPid) t ops →
        ∃ u r, Machine.runPath (step fresh) t ops = some u ∧
          t.waitForSinglePid J.lastPid = some r ∧ u.waitForSinglePid J.lastPid = some r) ↔
      J.LastCounts := by
  constructor
  · intro h
    obtain ⟨u, r, hu, hbefore, hafter⟩ :=
      h (oneJob J) (reaping J) (tidy_oneJob hJ) (held_oneJob J) (waits_reaping _ hJ)
    obtain ⟨v, hv, hsaved⟩ := reaping_answer fresh hJ
    obtain rfl := Option.some.inj (hu.symm.trans hv)
    have hsame := (hbefore.trans hafter.symm).symm.trans ((held_oneJob J).answer hJ)
    rw [hsaved] at hsame
    exact hJ.jobExitStatus_eq_iff.mp (Int.ofNat.inj (Option.some.inj hsame).symm)
  · intro hcounts t ops htidy hheld hops
    have hstatus := hJ.jobExitStatus_eq_iff.mpr hcounts
    obtain ⟨u, hu, hutidy, hplaced⟩ := run_serves htidy hJ (.inl hheld) ops hops
    refine ⟨u, J.jobExitStatus, hu, hheld.answer hJ, ?_⟩
    rcases hplaced with hheld' | hsaved
    · exact hheld'.answer hJ
    · rw [hsaved.answer hutidy, hstatus]

/-- A pipeline of two processes in the background, with `pipefail`, once both are reaped. -/
def pipeJob (first last : Fin 256) : Job where
  addr := 1
  pipe := [⟨11, .exited first, .done⟩, ⟨12, .exited last, .done⟩]
  pgrp := 11
  state := .dead
  flags := ⟨false, false, false, true, true⟩
  pipe_ne := List.cons_ne_nil _ _

theorem pipeJob_finished (first last : Fin 256) : (pipeJob first last).Finished := by
  refine ⟨fun p hp => ?_, rfl, rfl, rfl, fun p hp => ?_⟩
  all_goals
    simp only [pipeJob, List.mem_cons, List.not_mem_nil, or_false] at hp
    rcases hp with rfl | rfl
  · exact ⟨rfl, rfl⟩
  · exact ⟨rfl, rfl⟩
  · exact (by decide : (11 : ℤ) ≠ noPid)
  · exact (by decide : (12 : ℤ) ≠ noPid)

/-- `true | false &` -/
theorem wait_sameAnswer_trueFalse :
    (∀ t ops, t.Tidy → Held (pipeJob 0 1) t →
      Machine.PathMeets (step Bgpids.zeroed) (Waits Bgpids.zeroed (pipeJob 0 1).lastPid) t ops →
        ∃ u r, Machine.runPath (step Bgpids.zeroed) t ops = some u ∧
          t.waitForSinglePid (pipeJob 0 1).lastPid = some r ∧
          u.waitForSinglePid (pipeJob 0 1).lastPid = some r) ↔ (pipeJob 0 1).LastCounts :=
  wait_sameAnswer_iff (pipeJob 0 1) (pipeJob_finished 0 1) Bgpids.zeroed

/-- `false | true &` fails while the job is in the table, and succeeds when it is reaped. -/
theorem wait_pipefail :
    (¬ ∀ J t ops u, J.Finished → t.Tidy → Held J t →
      Machine.PathMeets (step Bgpids.zeroed) (Waits Bgpids.zeroed J.lastPid) t ops →
      Machine.runPath (step Bgpids.zeroed) t ops = some u →
      u.waitForSinglePid J.lastPid = t.waitForSinglePid J.lastPid) ∧
    (oneJob (pipeJob 1 0)).waitForSinglePid 12 = some 1 ∧
      ∃ u, Machine.runPath (step Bgpids.zeroed) (oneJob (pipeJob 1 0)) (reaping (pipeJob 1 0)) =
        some u ∧ u.waitForSinglePid 12 = some 0 := by
  have hJ := pipeJob_finished 1 0
  have hlive := (held_oneJob (pipeJob 1 0)).answer hJ
  obtain ⟨u, hu, hsaved⟩ := reaping_answer Bgpids.zeroed hJ
  refine ⟨fun h => ?_, hlive, u, hu, hsaved⟩
  have hsame := h _ _ _ u hJ (tidy_oneJob hJ) (held_oneJob _) (waits_reaping _ hJ) hu
  rw [hlive, hsaved] at hsame
  revert hsame
  decide

end Jobs

end Rash
