import Rash.Jobs.JobTable
import Mathlib.Data.List.ReduceOption
import Mathlib.Data.Nat.Find

/-!
# The indices of the job table

The counters and indices of `js`: what they say of the array of jobs, and that the operations
keep them so.
-/

namespace Rash

namespace Jobs

namespace JobTable

variable {t : JobTable} {i k : ℕ} {fresh : ℕ → Bgpids.Pidstat} {m : Mode}

/-- The slot holds a job. -/
def Live (t : JobTable) (i : ℕ) : Prop := (t.slot i).isSome = true

instance : Decidable (t.Live i) := inferInstanceAs (Decidable (_ = true))

/-- `js.j_njobs`, `js.j_firstj` and `js.j_lastj` are the number of jobs, the least and the
greatest slot of one. -/
structure Indexed (t : JobTable) : Prop where
  njobs : t.njobs = t.jobs.countP Option.isSome
  bounds : ∀ i, t.Live i → t.firstj ≤ i ∧ i ≤ t.lastj
  ends : t.njobs ≠ 0 → t.Live t.firstj ∧ t.Live t.lastj
  empty : t.njobs = 0 → t.firstj = 0 ∧ t.lastj = 0

/-- `js.j_current` and `js.j_previous` are slots of jobs, or both `NO_JOB`. -/
structure Marked (t : JobTable) : Prop where
  current : ∀ i, t.current = some i → t.Live i
  previous : ∀ i, t.previous = some i → t.Live i
  both : t.current = none ↔ t.previous = none

structure Sound (t : JobTable) : Prop where
  indexed : t.Indexed
  marked : t.Marked

/-! ## Slots -/

theorem live_iff : t.Live i ↔ ∃ job, t.jobs[i]? = some (some job) := by
  simp only [Live, slot, Option.isSome_iff_exists, Option.join_eq_some_iff]

theorem Live.lt (h : t.Live i) : i < t.jobslots := by
  obtain ⟨job, hjob⟩ := live_iff.mp h
  exact (List.getElem?_eq_some_iff.mp hjob).1

theorem slot_eq_some {job : Job} : t.slot i = some job ↔ t.jobs[i]? = some (some job) :=
  Option.join_eq_some_iff

theorem slot_setSlot (j : Option Job) :
    (t.setSlot i j).slot k = if k = i ∧ i < t.jobslots then j else t.slot k := by
  change ((t.jobs.set i j)[k]?).join = _
  rw [List.getElem?_set]
  by_cases hk : i = k
  · subst hk
    by_cases hlt : i < t.jobs.length
    · simp [hlt, jobslots]
    · simp [hlt, jobslots, slot]
  · have hk' : ¬ (k = i ∧ i < t.jobslots) := fun h => hk h.1.symm
    rw [if_neg hk, if_neg hk', slot]

/-- There is a job where the number of jobs is not 0. -/
theorem countP_ne_zero_iff : t.jobs.countP Option.isSome ≠ 0 ↔ ∃ i, t.Live i := by
  rw [← Nat.pos_iff_ne_zero, List.countP_pos_iff]
  constructor
  · rintro ⟨slot, hmem, hsome⟩
    obtain ⟨i, hi⟩ := List.getElem?_of_mem hmem
    obtain ⟨job, rfl⟩ := Option.isSome_iff_exists.mp hsome
    exact ⟨i, live_iff.mpr ⟨job, hi⟩⟩
  · rintro ⟨i, hi⟩
    obtain ⟨job, hjob⟩ := live_iff.mp hi
    exact ⟨some job, List.mem_of_getElem? hjob, rfl⟩

/-- The tables have the same jobs and indices. -/
structure SameIndices (t u : JobTable) : Prop where
  jobs : u.jobs = t.jobs
  firstj : u.firstj = t.firstj
  lastj : u.lastj = t.lastj
  njobs : u.njobs = t.njobs

theorem Live.congr {u : JobTable} (h : u.jobs = t.jobs) : u.Live i ↔ t.Live i := by
  rw [Live, Live, slot, slot, h]

theorem Indexed.congr {u : JobTable} (h : t.Indexed) (hu : t.SameIndices u) : u.Indexed where
  njobs := by rw [hu.njobs, hu.jobs, h.njobs]
  bounds i hi := by
    rw [hu.firstj, hu.lastj]
    exact h.bounds i ((Live.congr hu.jobs).mp hi)
  ends hne := by
    rw [hu.firstj, hu.lastj, Live.congr hu.jobs, Live.congr hu.jobs]
    exact h.ends (hu.njobs ▸ hne)
  empty hzero := by
    rw [hu.firstj, hu.lastj]
    exact h.empty (hu.njobs ▸ hzero)

/-! ## The current job -/

theorem mostRecentJobInState_live {state : JobState} {n : ℕ}
    (h : t.mostRecentJobInState state n = some i) : t.Live i := by
  induction n with
  | zero => cases h
  | succ n ih =>
      rw [mostRecentJobInState] at h
      split at h
      · next hany =>
          cases h
          exact Option.isSome_of_any hany
      · exact ih h

theorem live_of_inState {state : JobState} (h : t.inState state i = true) : t.Live i :=
  Option.isSome_of_any h

/-- `set_current_job` changes nothing but the two indices. -/
theorem setCurrentJob_spec {job : ℕ} (hjob : t.Live job) :
    ∃ p, t.setCurrentJob job = { t with current := some job, previous := some p } ∧ t.Live p := by
  obtain ⟨q, hq⟩ : ∃ q, (if t.current ≠ some job then
      { t with previous := t.current, current := some job } else t) =
      ({ t with current := some job, previous := q } : JobTable) := by
    by_cases hcur : t.current = some job
    · exact ⟨t.previous, by rw [if_neg (not_not.mpr hcur), ← hcur]⟩
    · exact ⟨t.current, if_pos hcur⟩
  rw [setCurrentJob, hq]
  simp only
  split
  · next hfirst =>
      cases q with
      | none => cases hfirst.2
      | some p => exact ⟨p, rfl, (Live.congr rfl).mp (live_of_inState hfirst.2)⟩
  · split
    · next candidate hsecond =>
        split at hsecond
        · have hcandidate := mostRecentJobInState_live hsecond
          exact ⟨candidate, rfl, hcandidate⟩
        · cases hsecond
    · split
      · next candidate hthird =>
          have hcandidate : t.Live candidate := by
            split at hthird
            · have holder := mostRecentJobInState_live hthird
              exact holder
            · have hnewest := mostRecentJobInState_live hthird
              exact hnewest
          exact ⟨candidate, rfl, hcandidate⟩
      · exact ⟨job, rfl, hjob⟩

theorem resetCandidate_live (h : t.resetCandidate = some i) : t.Live i := by
  rw [resetCandidate] at h
  split at h
  · next hcur =>
      rw [h] at hcur
      exact live_of_inState hcur.2
  · split at h
    · next hprev =>
        rw [h] at hprev
        exact live_of_inState hprev
    · rcases Option.or_eq_some_iff.mp h with hstopped | ⟨-, hrunning⟩
      · exact mostRecentJobInState_live hstopped
      · exact mostRecentJobInState_live hrunning

theorem resetCurrent_spec (t : JobTable) :
    ∃ c p, t.resetCurrent = { t with current := c, previous := p } ∧
      ({ t with current := c, previous := p } : JobTable).Marked := by
  rw [resetCurrent]
  cases hcand : t.resetCandidate with
  | none =>
      refine ⟨none, none, rfl, fun i hi => ?_, fun i hi => ?_, Iff.rfl⟩
      · cases hi
      · cases hi
  | some candidate =>
      have hlive := resetCandidate_live hcand
      obtain ⟨p, hset, hp⟩ := setCurrentJob_spec hlive
      refine ⟨some candidate, some p, hset, fun i hi => ?_, fun i hi => ?_, by simp⟩
      · cases hi
        exact hlive
      · cases hi
        exact hp

theorem sound_resetCurrent (h : t.Indexed) : t.resetCurrent.Sound := by
  obtain ⟨c, p, hreset, hmarked⟩ := resetCurrent_spec t
  rw [hreset]
  exact ⟨h.congr ⟨rfl, rfl, rfl, rfl⟩, hmarked⟩

theorem sound_setCurrentJob (h : t.Sound) (hi : t.Live i) : (t.setCurrentJob i).Sound := by
  obtain ⟨p, hset, hp⟩ := setCurrentJob_spec hi
  rw [hset]
  refine ⟨h.indexed.congr ⟨rfl, rfl, rfl, rfl⟩, fun k hk => ?_, fun k hk => ?_, by simp⟩
  · cases hk
    exact hi
  · cases hk
    exact hp

/-! ## The searches of `reset_job_indices` -/

/-- The first search ends at the least job, if the slots before it are free. -/
theorem seekFirst_eq {old F : ℕ} (hF : t.Live F) : ∀ {fuel i : ℕ}, old < i → i ≤ F →
    (∀ k, i ≤ k → k < F → ¬ t.Live k) → F - i < fuel → t.seekFirst old fuel i = some F
  | 0, i, _, _, _, hfuel => absurd hfuel (Nat.not_lt_zero _)
  | fuel + 1, i, hold, hle, hfree, hfuel => by
      have hlt : i < t.jobslots := Nat.lt_of_le_of_lt hle hF.lt
      have hwrap : (if i ≥ t.jobslots then 0 else i) = i := if_neg (Nat.not_le.mpr hlt)
      rw [seekFirst, if_neg (by omega)]
      simp only [hwrap]
      by_cases hi : t.Live i
      · have heq : i = F := by
          by_contra hne
          exact hfree i (Nat.le_refl i) (by omega) hi
        rw [if_pos (.inl hi), heq]
      · rw [if_neg (by rintro (h | h); exacts [hi h, by omega])]
        have hne : i ≠ F := fun heq => hi (heq ▸ hF)
        exact seekFirst_eq hF (by omega) (by omega) (fun k hk => hfree k (by omega)) (by omega)

/-- The second search ends at the greatest job, if the slots behind it are free. -/
theorem seekLast_eq {old L : ℕ} (hL : t.Live L) : ∀ (fuel : ℕ) (i : ℤ), i < old → (L : ℤ) ≤ i →
    (∀ k : ℕ, L < k → (k : ℤ) ≤ i → ¬ t.Live k) → i - L < fuel → t.seekLast old fuel i = some L
  | 0, i, _, _, _, hfuel => by omega
  | fuel + 1, i, hold, hle, hfree, hfuel => by
      have hwrap : (if i < 0 then (t.jobslots : ℤ) - 1 else i) = i := if_neg (by omega)
      rw [seekLast, if_neg (by omega)]
      simp only [hwrap]
      by_cases hi : t.Live i.toNat
      · have heq : i.toNat = L := by
          by_contra hne
          exact hfree i.toNat (by omega) (by omega) hi
        rw [if_pos (.inl hi), heq]
      · rw [if_neg (by rintro (h | h); exacts [hi h, by omega])]
        have hne : i.toNat ≠ L := fun heq => hi (heq ▸ hL)
        exact seekLast_eq hL fuel (i - 1) (by omega) (by omega) (fun k hk hki => hfree k hk (by omega)) (by omega)

/-! ## Deletion -/

/-- The least and the greatest job of a table that has one. -/
theorem exists_bounds (hlive : ∃ i, t.Live i) : ∃ F L, t.Live F ∧ t.Live L ∧
    ∀ i, t.Live i → F ≤ i ∧ i ≤ L := by
  obtain ⟨i, hi⟩ := hlive
  have hex : ∃ i, t.Live i := ⟨i, hi⟩
  refine ⟨Nat.find hex, Nat.findGreatest t.Live t.jobslots, Nat.find_spec hex,
    Nat.findGreatest_spec (Nat.le_of_lt hi.lt) hi, fun k hk => ⟨Nat.find_min' hex hk, ?_⟩⟩
  exact Nat.le_findGreatest (Nat.le_of_lt hk.lt) hk

/-- From indices that are no further in than the jobs, `reset_job_indices` finds the jobs at
the ends. -/
theorem resetJobIndices_spec (hlive : ∃ i, t.Live i)
    (hbounds : ∀ i, t.Live i → t.firstj ≤ i ∧ i ≤ t.lastj) (hlast : t.lastj < t.jobslots) :
    ∃ F L, t.resetJobIndices = some { t with firstj := F, lastj := L } ∧ t.Live F ∧ t.Live L ∧
      ∀ i, t.Live i → F ≤ i ∧ i ≤ L := by
  obtain ⟨F, L, hF, hL, hall⟩ := exists_bounds hlive
  refine ⟨F, L, ?_, hF, hL, hall⟩
  have hFL := (hall F hF).2
  have hfirst : t.resetFirst = some { t with firstj := F } := by
    rw [resetFirst]
    by_cases hsome : (t.slot t.firstj).isSome = true
    · have heq : t.firstj = F := Nat.le_antisymm (hbounds F hF).1 (hall _ hsome).1
      rw [if_pos hsome, ← heq]
    · have hne : t.firstj ≠ F := fun heq => hsome (heq ▸ hF)
      have hlt : t.firstj < F := Nat.lt_of_le_of_ne (hbounds F hF).1 hne
      have hF' := hF.lt
      have hold : ¬ t.firstj ≥ t.jobslots := by omega
      rw [if_neg hsome]
      simp only [if_neg hold]
      rw [seekFirst_eq hF (Nat.lt_succ_self _) hlt
        (fun k _ hk hlivek => absurd (hall k hlivek).1 (Nat.not_le.mpr hk)) (by omega)]
      simp only [Option.map_some, if_neg (Nat.ne_of_gt hlt)]
  have hlastj : ({ t with firstj := F } : JobTable).resetLast =
      some { t with firstj := F, lastj := L } := by
    rw [resetLast]
    change (if (t.slot t.lastj).isSome = true then _ else _) = _
    by_cases hsome : (t.slot t.lastj).isSome = true
    · have heq : t.lastj = L := Nat.le_antisymm (hall _ hsome).2 (hbounds L hL).2
      rw [if_pos hsome, ← heq]
    · have hne : t.lastj ≠ L := fun heq => hsome (heq ▸ hL)
      have hlt : L < t.lastj := Nat.lt_of_le_of_ne (hbounds L hL).2 (Ne.symm hne)
      have hL' : ({ t with firstj := F } : JobTable).Live L := hL
      have hseek : ({ t with firstj := F } : JobTable).seekLast t.lastj (t.jobslots + 2)
          ((t.lastj : ℤ) - 1) = some L :=
        seekLast_eq hL' _ _ (by omega) (by omega)
          (fun k hk _ hlivek => absurd (hall k hlivek).2 (Nat.not_le.mpr hk)) (by omega)
      rw [if_neg hsome]
      exact (congrArg _ hseek).trans (by simp only [Option.map_some, if_neg (Nat.ne_of_lt hlt)])
  rw [resetJobIndices, hfirst]
  exact hlastj

theorem countP_set_none {α : Type} {a : α} : ∀ {l : List (Option α)} {i : ℕ},
    l[i]? = some (some a) →
      (l.set i none).countP Option.isSome + 1 = l.countP Option.isSome
  | _ :: _, 0, h => by
      cases h
      simp
  | x :: l, i + 1, h => by
      have ih := countP_set_none (l := l) (i := i) h
      rw [List.set_cons_succ, List.countP_cons, List.countP_cons]
      omega

/-- After a deletion the counter and the indices are those of the jobs left. -/
theorem dropJob_spec {u : JobTable} {job : Job} (h : t.Indexed) (hi : t.slot i = some job)
    (hjobs : u.jobs = t.jobs.set i none) (hfirst : u.firstj = t.firstj)
    (hlast : u.lastj = t.lastj) (hnjobs : u.njobs = t.njobs) :
    ∃ F L, u.dropJob = some { u with firstj := F, lastj := L, njobs := t.njobs - 1 } ∧
      ({ u with firstj := F, lastj := L, njobs := t.njobs - 1 } : JobTable).Indexed := by
  have hlive : t.Live i := by rw [Live, hi]; rfl
  have hcount : (u.jobs.countP Option.isSome) = t.njobs - 1 := by
    have := countP_set_none (slot_eq_some.mp hi)
    have hn := h.njobs
    rw [hjobs]
    omega
  have hother : ∀ k, u.Live k → t.Live k ∧ k ≠ i := by
    intro k hk
    have hslot : u.slot k = (t.setSlot i none).slot k := by rw [slot, hjobs]; rfl
    rw [Live, hslot, slot_setSlot] at hk
    split at hk
    · cases hk
    · next hne => exact ⟨hk, fun heq => hne ⟨heq, heq ▸ hlive.lt⟩⟩
  have hbounds : ∀ k, u.Live k → u.firstj ≤ k ∧ k ≤ u.lastj := fun k hk => by
    rw [hfirst, hlast]
    exact h.bounds k (hother k hk).1
  rw [dropJob]
  simp only [hnjobs]
  by_cases hzero : t.njobs - 1 = 0
  · rw [if_pos hzero]
    refine ⟨0, 0, rfl, hcount.symm, fun k hk => ?_, fun hne => absurd hzero hne, fun _ => ⟨rfl, rfl⟩⟩
    exact absurd (hcount.trans hzero) (countP_ne_zero_iff.mpr ⟨k, hk⟩)
  · rw [if_neg hzero]
    have hexists : ∃ k, u.Live k := countP_ne_zero_iff.mp (by rw [hcount]; exact hzero)
    have hlastlt : u.lastj < u.jobslots := by
      have hends := h.ends (by omega)
      have := hends.2.lt
      rw [hlast]
      simpa [jobslots, hjobs] using this
    split
    · next hnone =>
        obtain ⟨F, L, hreset, hF, hL, hall⟩ := resetJobIndices_spec
          (t := { u with njobs := t.njobs - 1 }) hexists hbounds hlastlt
        exact ⟨F, L, hreset, hcount.symm, hall, fun _ => ⟨hF, hL⟩, fun heq => absurd heq hzero⟩
    · next hnone =>
        have hlives : u.Live u.firstj ∧ u.Live u.lastj := by
          rw [not_or] at hnone
          exact ⟨Option.isSome_iff_ne_none.mpr hnone.1, Option.isSome_iff_ne_none.mpr hnone.2⟩
        exact ⟨u.firstj, u.lastj, rfl, hcount.symm, hbounds, fun _ => hlives,
          fun heq => absurd heq hzero⟩

/-- What a deletion does: it empties the slot, and saves the status. -/
structure Deleted (fresh : ℕ → Bgpids.Pidstat) (t u : JobTable) (i : ℕ) (job : Job)
    (noBgpid : Bool) : Prop where
  slot : t.slot i = some job
  jobs : u.jobs = t.jobs.set i none
  bgpids : u.bgpids = (t.saveStatus fresh job noBgpid).bgpids
  marked : some i ≠ t.current → some i ≠ t.previous →
    u.current = t.current ∧ u.previous = t.previous

theorem uncount_kept (t : JobTable) (job : Job) : (t.uncount job).jobs = t.jobs ∧
    (t.uncount job).firstj = t.firstj ∧ (t.uncount job).lastj = t.lastj ∧
    (t.uncount job).njobs = t.njobs ∧ (t.uncount job).current = t.current ∧
    (t.uncount job).previous = t.previous ∧ (t.uncount job).bgpids = t.bgpids := by
  rw [uncount]
  simp only
  split <;> split <;> try split
  all_goals exact ⟨rfl, rfl, rfl, rfl, rfl, rfl, rfl⟩

/-- The table while the job is out of its slot and the indices are not yet set. -/
def emptied (fresh : ℕ → Bgpids.Pidstat) (t : JobTable) (i : ℕ) (job : Job) (noBgpid : Bool) :
    JobTable :=
  ((t.saveStatus fresh job noBgpid).setSlot i none).uncount job

theorem emptied_kept (fresh : ℕ → Bgpids.Pidstat) (t : JobTable) (i : ℕ) (job : Job) (noBgpid : Bool) :
    (t.emptied fresh i job noBgpid).jobs = t.jobs.set i none ∧
      (t.emptied fresh i job noBgpid).firstj = t.firstj ∧
      (t.emptied fresh i job noBgpid).lastj = t.lastj ∧
      (t.emptied fresh i job noBgpid).njobs = t.njobs ∧
      (t.emptied fresh i job noBgpid).current = t.current ∧
      (t.emptied fresh i job noBgpid).previous = t.previous ∧
      (t.emptied fresh i job noBgpid).bgpids = (t.saveStatus fresh job noBgpid).bgpids := by
  obtain ⟨hjobs, hfirst, hlast, hnjobs, hcur, hprev, hbgpids⟩ :=
    uncount_kept ((t.saveStatus fresh job noBgpid).setSlot i none) job
  have hsave : ∃ bgpids, t.saveStatus fresh job noBgpid = { t with bgpids := bgpids } := by
    rw [saveStatus]
    split
    · exact ⟨_, rfl⟩
    · exact ⟨t.bgpids, rfl⟩
  obtain ⟨bgpids, hsave⟩ := hsave
  refine ⟨hjobs.trans ?_, hfirst.trans ?_, hlast.trans ?_, hnjobs.trans ?_, hcur.trans ?_,
    hprev.trans ?_, hbgpids⟩
  all_goals
    rw [hsave]
    rfl

variable (fresh m) in
/-- `delete_job` ends, and keeps the counters and indices. -/
theorem deleteJob_spec (h : t.Sound) (i : ℕ) (noBgpid : Bool) :
    ∃ u, t.deleteJob fresh m i noBgpid = some u ∧ u.Sound ∧
      (u = t ∧ (m.jobsListFrozen = true ∨ ¬ t.Live i) ∨ ∃ job, Deleted fresh t u i job noBgpid) := by
  rw [deleteJob]
  split
  · next hnothing =>
      refine ⟨t, rfl, h, .inl ⟨rfl, hnothing.symm.imp_right fun hzero hlive => ?_⟩⟩
      exact absurd (hzero ▸ hlive.lt) (Nat.not_lt_zero i)
  · cases hslot : t.slot i with
    | none => exact ⟨t, rfl, h, .inl ⟨rfl, .inr fun hlive => by rw [Live, hslot] at hlive; cases hlive⟩⟩
    | some job =>
        obtain ⟨hjobs, hfirst, hlast, hnjobs, hcur, hprev, hbgpids⟩ :=
          emptied_kept fresh t i job noBgpid
        obtain ⟨F, L, hdrop, hindexed⟩ :=
          dropJob_spec h.indexed hslot hjobs hfirst hlast hnjobs
        change ∃ u, ((t.emptied fresh i job noBgpid).dropJob).map _ = some u ∧ _
        rw [hdrop, Option.map_some]
        generalize t.emptied fresh i job noBgpid = e at *
        generalize hv : ({ e with firstj := F, lastj := L, njobs := t.njobs - 1 } : JobTable) = v
          at hindexed
        have hvcur : v.current = t.current := by rw [← hv]; exact hcur
        have hvprev : v.previous = t.previous := by rw [← hv]; exact hprev
        have hvjobs : v.jobs = t.jobs.set i none := by rw [← hv]; exact hjobs
        have hvbgpids : v.bgpids = (t.saveStatus fresh job noBgpid).bgpids := by
          rw [← hv]
          exact hbgpids
        refine ⟨_, rfl, ?_⟩
        simp only [hvcur, hvprev]
        by_cases hgone : some i = t.current ∨ some i = t.previous
        · rw [if_pos hgone]
          obtain ⟨c, p, hreset, hmarked⟩ := resetCurrent_spec v
          refine ⟨sound_resetCurrent hindexed, .inr ⟨job, hslot, ?_, ?_, fun hc hp => ?_⟩⟩
          · rw [hreset, hvjobs]
          · rw [hreset, hvbgpids]
          · exact (hgone.elim hc hp).elim
        · rw [if_neg hgone]
          rw [not_or] at hgone
          have hlives : ∀ k, t.Live k → some i ≠ some k → v.Live k := by
            intro k hk hne
            have hslotk : v.slot k = (t.setSlot i none).slot k := by rw [slot, hvjobs]; rfl
            rw [Live, hslotk, slot_setSlot, if_neg fun h => hne (by rw [h.1])]
            exact hk
          refine ⟨⟨hindexed, fun k hk => ?_, fun k hk => ?_, ?_⟩, .inr ⟨job, hslot, hvjobs,
            hvbgpids, fun _ _ => ⟨hvcur, hvprev⟩⟩⟩
          · rw [hvcur] at hk
            exact hlives k (h.marked.current k hk) (hk ▸ hgone.1)
          · rw [hvprev] at hk
            exact hlives k (h.marked.previous k hk) (hk ▸ hgone.2)
          · rw [hvcur, hvprev]
            exact h.marked.both

end JobTable

end Jobs

end Rash
