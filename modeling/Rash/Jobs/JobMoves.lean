import Rash.Jobs.JobIndices
import Mathlib.Data.List.Forall2

/-!
# Reaping, compaction and new jobs

What the operations that move or remove several jobs do to the array: reaped jobs leave it, the
others keep their slots; a compaction keeps the jobs in their order; a new job goes behind all.
-/

namespace Rash

namespace Jobs

/-- A slot before and after dead jobs are reaped. -/
inductive SlotReaped : Option Job → Option Job → Prop
  | same (a : Option Job) : SlotReaped a a
  | notified (job : Job) (hdead : job.state = .dead) : SlotReaped (some job) (some job.notify)
  | gone (job : Job) (hdead : job.state = .dead) : SlotReaped (some job) none

theorem SlotReaped.trans {a b c : Option Job} (hab : SlotReaped a b) (hbc : SlotReaped b c) :
    SlotReaped a c := by
  cases hab with
  | same => exact hbc
  | notified job hdead =>
      cases hbc with
      | same => exact .notified job hdead
      | notified _ _ => exact .notified job hdead
      | gone _ _ => exact .gone job hdead
  | gone job hdead =>
      cases hbc
      exact .gone job hdead

theorem SlotReaped.isSome {a b : Option Job} (h : SlotReaped a b) (hb : b.isSome = true) :
    a.isSome = true := by
  cases h with
  | same => exact hb
  | notified job _ => rfl
  | gone _ _ => cases hb

/-- The slots of an array before and after. -/
abbrev SlotsReaped : List (Option Job) → List (Option Job) → Prop := List.Forall₂ SlotReaped

theorem SlotsReaped.refl : ∀ l : List (Option Job), SlotsReaped l l
  | [] => .nil
  | a :: l => .cons (.same a) (SlotsReaped.refl l)

theorem SlotsReaped.trans {l₁ l₂ l₃ : List (Option Job)} (h : SlotsReaped l₁ l₂)
    (h' : SlotsReaped l₂ l₃) : SlotsReaped l₁ l₃ := by
  induction h generalizing l₃ with
  | nil => exact h'
  | cons hab _ ih =>
      cases h' with
      | cons hbc hrest => exact .cons (hab.trans hbc) (ih hrest)

theorem SlotsReaped.slot {l l' : List (Option Job)} (h : SlotsReaped l l') (i : ℕ) :
    SlotReaped l[i]?.join l'[i]?.join := by
  induction h generalizing i with
  | nil => exact .same none
  | cons hab _ ih =>
      cases i with
      | zero => exact hab
      | succ i => exact ih i

theorem slotsReaped_set {job : Job} (hdead : job.state = .dead) :
    ∀ {l : List (Option Job)} {i : ℕ}, l[i]? = some (some job) → SlotsReaped l (l.set i none)
  | _ :: l, 0, h => by
      cases h
      exact .cons (.gone job hdead) (SlotsReaped.refl l)
  | a :: _, i + 1, h => .cons (.same a) (slotsReaped_set hdead (i := i) h)

/-- What reaping and compaction keep of a list of jobs: the jobs left are jobs of the list in
its order, and all that are not dead are left. -/
structure Kept (l l' : List Job) : Prop where
  order : List.Sublist (l'.map Job.addr) (l.map Job.addr)
  alive : List.Sublist (l.filter (·.state ≠ .dead)) l'

theorem Kept.refl (l : List Job) : Kept l l :=
  ⟨List.Sublist.refl _, List.filter_sublist⟩

theorem Kept.trans {l₁ l₂ l₃ : List Job} (h : Kept l₁ l₂) (h' : Kept l₂ l₃) : Kept l₁ l₃ where
  order := h'.order.trans h.order
  alive := by
    have hfilter := h.alive.filter (·.state ≠ .dead)
    rw [List.filter_filter] at hfilter
    simp only [Bool.and_self] at hfilter
    exact hfilter.trans h'.alive

theorem SlotsReaped.kept {l l' : List (Option Job)} (h : SlotsReaped l l') :
    Kept l.reduceOption l'.reduceOption := by
  induction h with
  | nil => exact Kept.refl []
  | @cons a b _ _ hab _ ih =>
      cases hab with
      | same =>
          cases a with
          | none => simpa only [List.reduceOption_cons_of_none] using ih
          | some job =>
              simp only [List.reduceOption_cons_of_some]
              refine ⟨ih.order.cons_cons _, ?_⟩
              rw [List.filter_cons]
              split
              · exact ih.alive.cons_cons _
              · exact ih.alive.cons _
      | notified job hdead =>
          simp only [List.reduceOption_cons_of_some]
          refine ⟨ih.order.cons_cons _, ?_⟩
          rw [List.filter_cons_of_neg (by simp [hdead])]
          exact ih.alive.cons _
      | gone job hdead =>
          simp only [List.reduceOption_cons_of_some, List.reduceOption_cons_of_none]
          refine ⟨ih.order.cons _, ?_⟩
          rw [List.filter_cons_of_neg (by simp [hdead])]
          exact ih.alive

namespace JobTable

variable {t u : JobTable} {i k : ℕ} {fresh : ℕ → Bgpids.Pidstat} {m : Mode}

/-- The jobs in the order of their slots. -/
def liveJobs (t : JobTable) : List Job := t.jobs.reduceOption

/-! ## Reaping -/

/-- What reaping does to the table: dead jobs leave their slots, and the current and the
previous job are the same unless one of them leaves. -/
structure Reaped (t u : JobTable) : Prop where
  slots : SlotsReaped t.jobs u.jobs
  marked : (∀ i, t.current = some i ∨ t.previous = some i → u.Live i) →
    u.current = t.current ∧ u.previous = t.previous

theorem Reaped.refl (t : JobTable) : t.Reaped t := ⟨SlotsReaped.refl _, fun _ => ⟨rfl, rfl⟩⟩

theorem Reaped.live (h : t.Reaped u) (hi : u.Live i) : t.Live i := (h.slots.slot i).isSome hi

theorem Reaped.trans {v : JobTable} (h : t.Reaped u) (h' : u.Reaped v) : t.Reaped v where
  slots := h.slots.trans h'.slots
  marked hlive := by
    obtain ⟨hcur, hprev⟩ := h.marked fun i hi => h'.live (hlive i hi)
    obtain ⟨hcur', hprev'⟩ := h'.marked fun i hi => hlive i (by rwa [hcur, hprev] at hi)
    exact ⟨hcur'.trans hcur, hprev'.trans hprev⟩

theorem Deleted.reaped {job : Job} {noBgpid : Bool} (h : Deleted fresh t u i job noBgpid)
    (hdead : job.state = .dead) : t.Reaped u where
  slots := h.jobs ▸ slotsReaped_set hdead (slot_eq_some.mp h.slot)
  marked hlive := by
    have hgone : ¬ u.Live i := by
      have hslot : u.slot i = (t.setSlot i none).slot i := by rw [JobTable.slot, h.jobs]; rfl
      have hlt : i < t.jobslots := Live.lt (by rw [Live, h.slot]; rfl)
      rw [Live, hslot, slot_setSlot, if_pos ⟨rfl, hlt⟩]
      exact Bool.false_ne_true
    exact h.marked (fun hcur => hgone (hlive i (.inl hcur.symm)))
      fun hprev => hgone (hlive i (.inr hprev.symm))

variable (fresh m) in
theorem cleanupSlots_spec (h : t.Sound) (is : List ℕ) :
    ∃ u, t.cleanupSlots fresh m is = some u ∧ u.Sound ∧ t.Reaped u := by
  induction is generalizing t with
  | nil => exact ⟨t, rfl, h, Reaped.refl t⟩
  | cons i is ih =>
      rw [cleanupSlots]
      split
      · next hcand =>
          obtain ⟨u, hu, hsound, hdeleted⟩ := deleteJob_spec fresh m h i false
          have hreaped : t.Reaped u := by
            rcases hdeleted with ⟨rfl, -⟩ | ⟨job, hjob⟩
            · exact Reaped.refl _
            · refine hjob.reaped ?_
              rw [hjob.slot, Option.any_some, candidate, Bool.and_eq_true, decide_eq_true_eq] at hcand
              exact hcand.1
          obtain ⟨v, hv, hvsound, hvreaped⟩ := ih hsound
          exact ⟨v, by rw [hu]; exact hv, hvsound, hreaped.trans hvreaped⟩
      · exact ih h

variable (fresh m) in
theorem cleanupDeadJobs_spec (h : t.Sound) :
    ∃ u, t.cleanupDeadJobs fresh m = some u ∧ u.Sound ∧ t.Reaped u := by
  rw [cleanupDeadJobs]
  split
  · exact ⟨t, rfl, h, Reaped.refl t⟩
  · exact cleanupSlots_spec fresh m h _

theorem slotsReaped_markSlots (childmax : ℤ) : ∀ (l : List (Option Job)) (n : ℤ),
    SlotsReaped l (markSlots m childmax n l) ∧
      (markSlots m childmax n l).map Option.isSome = l.map Option.isSome
  | [], _ => ⟨.nil, rfl⟩
  | none :: l, n => by
      obtain ⟨hslots, hsome⟩ := slotsReaped_markSlots childmax l n
      exact ⟨.cons (.same none) hslots, by simp [markSlots, hsome]⟩
  | some job :: l, n => by
      rw [markSlots]
      split
      · next hcond =>
          split
          · exact ⟨SlotsReaped.refl _, rfl⟩
          · obtain ⟨hslots, hsome⟩ := slotsReaped_markSlots childmax l (n - job.processesInJob)
            exact ⟨.cons (.notified job hcond.1) hslots, by simp [hsome]⟩
      · obtain ⟨hslots, hsome⟩ := slotsReaped_markSlots childmax l n
        exact ⟨.cons (.same _) hslots, by simp [hsome]⟩

/-- Only which slots hold jobs counts for the indices. -/
theorem Sound.of_isSome (h : t.Sound) (hjobs : u.jobs.map Option.isSome = t.jobs.map Option.isSome)
    (hfirst : u.firstj = t.firstj) (hlast : u.lastj = t.lastj) (hnjobs : u.njobs = t.njobs)
    (hcur : u.current = t.current) (hprev : u.previous = t.previous) : u.Sound := by
  have hlive : ∀ i, u.Live i ↔ t.Live i := by
    intro i
    have hget := congrArg (·[i]?) hjobs
    simp only [List.getElem?_map] at hget
    rw [Live, Live, slot, slot]
    cases hu : u.jobs[i]? <;> cases ht : t.jobs[i]? <;> simp_all
  have hcount : u.jobs.countP Option.isSome = t.jobs.countP Option.isSome := by
    have := congrArg (List.countP id) hjobs
    simpa only [List.countP_map, Function.id_comp] using this
  refine ⟨⟨?_, fun i hi => ?_, fun hne => ?_, fun hzero => ?_⟩, fun i hi => ?_, fun i hi => ?_, ?_⟩
  · rw [hnjobs, hcount, h.indexed.njobs]
  · rw [hfirst, hlast]
    exact h.indexed.bounds i ((hlive i).mp hi)
  · rw [hfirst, hlast, hlive, hlive]
    exact h.indexed.ends (hnjobs ▸ hne)
  · rw [hfirst, hlast]
    exact h.indexed.empty (hnjobs ▸ hzero)
  · exact (hlive i).mpr (h.marked.current i (hcur ▸ hi))
  · exact (hlive i).mpr (h.marked.previous i (hprev ▸ hi))
  · rw [hcur, hprev]
    exact h.marked.both

theorem markDeadJobsAsNotified_spec (h : t.Sound) :
    (t.markDeadJobsAsNotified m).Sound ∧ t.Reaped (t.markDeadJobsAsNotified m) := by
  have hkept : ∀ bgpids, ({ t with bgpids := bgpids } : JobTable).Sound ∧
      t.Reaped { t with bgpids := bgpids } := fun bgpids =>
    ⟨h.of_isSome rfl rfl rfl rfl rfl rfl, SlotsReaped.refl _, fun _ => ⟨rfl, rfl⟩⟩
  have hmarked : ∀ bgpids childmax n,
      ({ t with jobs := markSlots m childmax n t.jobs, bgpids := bgpids } : JobTable).Sound ∧
        t.Reaped { t with jobs := markSlots m childmax n t.jobs, bgpids := bgpids } := by
    intro bgpids childmax n
    obtain ⟨hslots, hsome⟩ := slotsReaped_markSlots (m := m) childmax t.jobs n
    exact ⟨h.of_isSome hsome rfl rfl rfl rfl rfl, hslots, fun _ => ⟨rfl, rfl⟩⟩
  rw [markDeadJobsAsNotified]
  split
  · exact ⟨h, Reaped.refl t⟩
  · obtain ⟨bgpids, hset⟩ : ∃ bgpids, (if t.bgpids.childmax < 0 then
        { t with bgpids := { t.bgpids with childmax := m.lmaxchild } } else t) =
        ({ t with bgpids := bgpids } : JobTable) := by
      split
      · exact ⟨_, rfl⟩
      · exact ⟨t.bgpids, rfl⟩
    simp only [hset]
    split
    · exact hkept bgpids
    · exact hmarked bgpids _ _

variable (fresh m) in
theorem reapDeadJobs_spec (h : t.Sound) :
    ∃ u, t.reapDeadJobs fresh m = some u ∧ u.Sound ∧ t.Reaped u := by
  obtain ⟨hsound, hreaped⟩ := markDeadJobsAsNotified_spec (m := m) h
  obtain ⟨u, hu, husound, hureaped⟩ := cleanupDeadJobs_spec fresh m hsound
  exact ⟨u, hu, husound, hreaped.trans hureaped⟩

/-! ## Compaction -/

theorem compactSlots_nlist (current previous : Option ℕ) : ∀ (l : List (Option Job)) (i j : ℕ),
    (compactSlots current previous i j l).nlist = l.reduceOption
  | [], _, _ => rfl
  | none :: l, i, j => by
      rw [compactSlots, List.reduceOption_cons_of_none]
      exact compactSlots_nlist current previous l (i + 1) j
  | some job :: l, i, j => by
      rw [compactSlots, List.reduceOption_cons_of_some]
      simp only [compactSlots_nlist current previous l]

/-- How many jobs are before the slot. -/
def rank (l : List (Option Job)) (i : ℕ) : ℕ := (l.take i).countP Option.isSome

/-- Where the loop finds an index that it looks for. -/
def renumbered (index : Option ℕ) (i j : ℕ) (l : List (Option Job)) : Option ℕ :=
  index.bind fun c => if i ≤ c ∧ l[c - i]?.join.isSome then some (j + rank l (c - i)) else none

theorem renumbered_none (index : Option ℕ) (i j : ℕ) (l : List (Option Job)) :
    renumbered index i j (none :: l) = renumbered index (i + 1) j l := by
  cases index with
  | none => rfl
  | some c =>
      simp only [renumbered, Option.bind_some]
      by_cases hc : i + 1 ≤ c
      · obtain ⟨d, rfl⟩ := Nat.exists_eq_add_of_le hc
        have hd : i + 1 + d - i = d + 1 := by omega
        have hd' : i + 1 + d - (i + 1) = d := by omega
        have hle : i ≤ i + 1 + d := by omega
        have hrank : rank (none :: l) (d + 1) = rank l d := by simp [rank]
        simp only [hd, hd', hle, hc, true_and, List.getElem?_cons_succ, hrank]
      · have hfree : ¬ (i ≤ c ∧ (none :: l)[c - i]?.join.isSome = true) := by
          rintro ⟨hle, hsome⟩
          rw [show c - i = 0 by omega] at hsome
          cases hsome
        rw [if_neg hfree, if_neg fun h => hc h.1]

theorem renumbered_some (index : Option ℕ) (i j : ℕ) (job : Job) (l : List (Option Job)) :
    renumbered index i j (some job :: l) =
      if some i = index then some j else renumbered index (i + 1) (j + 1) l := by
  cases index with
  | none => rfl
  | some c =>
      simp only [renumbered, Option.bind_some, Option.some.injEq]
      by_cases hci : i = c
      · subst hci
        simp [rank]
      · rw [if_neg hci]
        by_cases hc : i + 1 ≤ c
        · obtain ⟨d, rfl⟩ := Nat.exists_eq_add_of_le hc
          have hd : i + 1 + d - i = d + 1 := by omega
          have hd' : i + 1 + d - (i + 1) = d := by omega
          have hle : i ≤ i + 1 + d := by omega
          have hrank : rank (some job :: l) (d + 1) = rank l d + 1 := by simp [rank]
          simp only [hd, hd', hle, hc, true_and, List.getElem?_cons_succ, hrank]
          congr 2
          omega
        · rw [if_neg fun h => hc (by omega), if_neg fun h => hc h.1]

theorem compactSlots_indices (current previous : Option ℕ) : ∀ (l : List (Option Job)) (i j : ℕ),
    (compactSlots current previous i j l).ncur = renumbered current i j l ∧
      (compactSlots current previous i j l).nprev = renumbered previous i j l
  | [], _, _ => by cases current <;> cases previous <;> simp [compactSlots, renumbered]
  | none :: l, i, j => by
      rw [compactSlots, renumbered_none, renumbered_none]
      exact compactSlots_indices current previous l (i + 1) j
  | some job :: l, i, j => by
      obtain ⟨hcur, hprev⟩ := compactSlots_indices current previous l (i + 1) (j + 1)
      rw [compactSlots, renumbered_some, renumbered_some]
      simp only [hcur, hprev, and_self]

/-- A job is as far in the new list as there are jobs before it. -/
theorem reduceOption_rank {job : Job} : ∀ {l : List (Option Job)} {i : ℕ},
    l[i]? = some (some job) → l.reduceOption[rank l i]? = some job
  | a :: l, 0, h => by
      cases h
      rfl
  | none :: l, i + 1, h => by
      have ih := reduceOption_rank (l := l) (i := i) h
      simpa [rank] using ih
  | some a :: l, i + 1, h => by
      have ih := reduceOption_rank (l := l) (i := i) h
      simpa [rank] using ih

theorem rank_lt {job : Job} {l : List (Option Job)} (h : l[i]? = some (some job)) :
    rank l i < l.reduceOption.length :=
  (List.getElem?_eq_some_iff.mp (reduceOption_rank h)).1

/-- The index of a job is renumbered to the place of that job. -/
theorem renumbered_live {c : ℕ} (hc : t.Live c) :
    renumbered (some c) 0 0 t.jobs = some (rank t.jobs c) := by
  have hsome : t.jobs[c]?.join.isSome = true := hc
  simp only [renumbered, Option.bind_some, Nat.sub_zero, Nat.zero_le, hsome, and_self, if_true,
    Nat.zero_add]

theorem countP_map_some (l : List Job) : (l.map some).countP Option.isSome = l.length := by
  simp [List.countP_map]

/-- The slots of a compacted array. -/
theorem slot_compacted {l : List Job} {n : ℕ} (ht : t.jobs = l.map some ++ List.replicate n none) :
    t.slot i = l[i]? := by
  rw [slot, ht, List.getElem?_append]
  split
  · next hlt =>
      rw [List.getElem?_map]
      cases l[i]? <;> rfl
  · next hge =>
      rw [List.getElem?_replicate, List.getElem?_eq_none (by simpa using hge)]
      split <;> rfl

theorem indexed_compacted {l : List Job} {n : ℕ} (ht : t.jobs = l.map some ++ List.replicate n none)
    (hfirst : t.firstj = 0) (hlast : t.lastj = if l.length > 0 then l.length - 1 else 0)
    (hnjobs : t.njobs = l.length) : t.Indexed := by
  have hlive : ∀ i, t.Live i ↔ i < l.length := fun i => by
    rw [Live, slot_compacted ht]
    simp
  refine ⟨?_, fun i hi => ?_, fun hne => ?_, fun hzero => ?_⟩
  · rw [ht, List.countP_append, countP_map_some, hnjobs, List.countP_replicate]
    simp
  · rw [hlive] at hi
    rw [hfirst, hlast, if_pos (by omega)]
    omega
  · rw [hlive, hlive, hfirst, hlast, if_pos (by omega)]
    omega
  · rw [hfirst, hlast, if_neg (by omega)]
    exact ⟨rfl, rfl⟩

theorem liveJobs_compacted {l : List Job} {n : ℕ}
    (ht : t.jobs = l.map some ++ List.replicate n none) : t.liveJobs = l := by
  rw [liveJobs, ht, List.reduceOption_append, List.reduceOption_replicate_none, List.append_nil]
  clear ht
  induction l with
  | nil => rfl
  | cons a l ih => rw [List.map_cons, List.reduceOption_cons_of_some, ih]

/-- The table that the loop of `realloc_jobs_list` leaves. -/
def compacted (t : JobTable) : JobTable :=
  let nsize := newSize t.njobs
  let c := compactSlots t.current t.previous 0 0 t.jobs
  let j := c.nlist.length
  { t with
    jobs := c.nlist.map some ++ List.replicate (nsize - j) none
    ndead := c.ndead
    creaped := c.creaped
    firstj := 0
    lastj := if j > 0 then j - 1 else 0
    njobs := j
    current := c.ncur.or t.current
    previous := c.nprev.or t.previous }

theorem reallocJobsList_eq : t.reallocJobsList =
    if t.compacted.current = none ∨ t.compacted.previous = none ∨
        t.compacted.current.any (· > t.compacted.lastj) ∨
        t.compacted.previous.any (· > t.compacted.lastj) then
      t.compacted.resetCurrent
    else t.compacted := rfl

theorem compacted_jobs : t.compacted.jobs =
    t.liveJobs.map some ++ List.replicate (newSize t.njobs - t.liveJobs.length) none := by
  rw [compacted, compactSlots_nlist]
  rfl

theorem indexed_compacted_self : t.compacted.Indexed := by
  refine indexed_compacted compacted_jobs rfl ?_ ?_
  · rw [compacted, compactSlots_nlist]
    rfl
  · rw [compacted, compactSlots_nlist]
    rfl

/-- An index of a job is renumbered, and stays that of the job. -/
theorem renumbered_slot {c : ℕ} (hc : t.Live c) :
    renumbered (some c) 0 0 t.jobs = some (rank t.jobs c) ∧
      t.compacted.slot (rank t.jobs c) = t.slot c ∧
      rank t.jobs c ≤ t.compacted.lastj := by
  obtain ⟨job, hjob⟩ := live_iff.mp hc
  have hlt := rank_lt hjob
  refine ⟨renumbered_live hc, ?_, ?_⟩
  · rw [slot_compacted compacted_jobs, slot_eq_some.mpr hjob]
    exact reduceOption_rank hjob
  · rw [compacted, compactSlots_nlist]
    simp only
    rw [if_pos (by omega)]
    omega

/-- `realloc_jobs_list` keeps the jobs in their order, and the current and the previous job. -/
theorem reallocJobsList_spec (h : t.Sound) :
    t.reallocJobsList.Sound ∧
      t.reallocJobsList.jobs =
        t.liveJobs.map some ++ List.replicate (newSize t.njobs - t.liveJobs.length) none ∧
      (∀ c, t.current = some c → ∃ k, t.reallocJobsList.current = some k ∧
        t.reallocJobsList.slot k = t.slot c) ∧
      (∀ p, t.previous = some p → ∃ k, t.reallocJobsList.previous = some k ∧
        t.reallocJobsList.slot k = t.slot p) := by
  obtain ⟨hncur, hnprev⟩ := compactSlots_indices t.current t.previous t.jobs 0 0
  have hcurrent : t.compacted.current = (renumbered t.current 0 0 t.jobs).or t.current := by
    rw [← hncur]
    rfl
  have hprevious : t.compacted.previous = (renumbered t.previous 0 0 t.jobs).or t.previous := by
    rw [← hnprev]
    rfl
  rw [reallocJobsList_eq]
  cases hcur : t.current with
  | none =>
      have hprev := h.marked.both.mp hcur
      have hnone : t.compacted.current = none := by rw [hcurrent, hcur]; rfl
      rw [if_pos (.inl hnone)]
      obtain ⟨c, p, hreset, -⟩ := resetCurrent_spec t.compacted
      refine ⟨sound_resetCurrent indexed_compacted_self, ?_, fun c hc => ?_, fun p hp => ?_⟩
      · rw [hreset]
        exact compacted_jobs
      · cases hc
      · cases hprev.symm.trans hp
  | some c =>
      obtain ⟨p, hprev⟩ : ∃ p, t.previous = some p :=
        Option.ne_none_iff_exists'.mp fun hnone => by
          cases hcur.symm.trans (h.marked.both.mpr hnone)
      have hc := h.marked.current c hcur
      have hp := h.marked.previous p hprev
      obtain ⟨hcnum, hcslot, hcle⟩ := renumbered_slot hc
      obtain ⟨hpnum, hpslot, hple⟩ := renumbered_slot hp
      have hcurrent' : t.compacted.current = some (rank t.jobs c) := by
        rw [hcurrent, hcur, hcnum]
        rfl
      have hprevious' : t.compacted.previous = some (rank t.jobs p) := by
        rw [hprevious, hprev, hpnum]
        rfl
      have hkeep : ¬ (t.compacted.current = none ∨ t.compacted.previous = none ∨
          t.compacted.current.any (· > t.compacted.lastj) ∨
          t.compacted.previous.any (· > t.compacted.lastj)) := by
        rw [hcurrent', hprevious']
        simp only [Option.any_some, decide_eq_true_eq, not_or]
        exact ⟨by simp, by simp, by omega, by omega⟩
      rw [if_neg hkeep]
      refine ⟨⟨indexed_compacted_self, fun i hi => ?_, fun i hi => ?_, ?_⟩, compacted_jobs,
        fun c' hc' => ?_, fun p' hp' => ?_⟩
      · cases hcurrent'.symm.trans hi
        rw [Live, hcslot]
        exact hc
      · cases hprevious'.symm.trans hi
        rw [Live, hpslot]
        exact hp
      · rw [hcurrent', hprevious']
        simp
      · cases hc'
        exact ⟨_, hcurrent', hcslot⟩
      · cases hprev.symm.trans hp'
        exact ⟨_, hprevious', hpslot⟩

/-- The slot is right behind the last job. -/
def Behind (t : JobTable) (i : ℕ) : Prop := i = if t.njobs = 0 then 0 else t.lastj + 1

theorem Behind.le (hi : t.Behind i) (h : t.Indexed) : i ≤ t.jobslots := by
  rw [hi]
  split
  · exact Nat.zero_le _
  · next hne => exact (h.ends hne).2.lt

theorem Behind.not_live (hi : t.Behind i) (h : t.Indexed) (hk : i ≤ k) : ¬ t.Live k := by
  intro hlive
  have hne : t.njobs ≠ 0 := by
    rw [h.njobs]
    exact countP_ne_zero_iff.mpr ⟨k, hlive⟩
  have hle := (h.bounds k hlive).2
  rw [Behind, if_neg hne] at hi
  omega

variable (fresh m) in
/-- `compact_jobs_list` reaps dead jobs and compacts the array; it returns the slot behind the
last job, or one behind the array. -/
theorem compactJobsList_spec (h : t.Sound) :
    ∃ i u, t.compactJobsList fresh m = some (i, u) ∧ u.Sound ∧ Kept t.liveJobs u.liveJobs ∧
      ((i = t.jobslots ∧ u = t) ∨ u.Behind i ∧ ∃ v, t.reapDeadJobs fresh m = some v ∧
        v.Sound ∧ t.Reaped v ∧ u = v.reallocJobsList) := by
  rw [compactJobsList]
  split
  · exact ⟨_, _, rfl, h, Kept.refl _, .inl ⟨rfl, rfl⟩⟩
  · obtain ⟨v, hv, hsound, hreaped⟩ := reapDeadJobs_spec fresh m h
    obtain ⟨hrsound, hjobs, -⟩ := reallocJobsList_spec hsound
    rw [hv]
    refine ⟨_, _, rfl, hrsound, ?_, .inr ⟨?_, v, rfl, hsound, hreaped, rfl⟩⟩
    · rw [liveJobs_compacted hjobs]
      exact hreaped.slots.kept
    · rw [Behind]
      by_cases hzero : v.reallocJobsList.njobs = 0
      · have hlast := (hrsound.indexed.empty hzero).2
        have hfree : ¬ v.reallocJobsList.Live v.reallocJobsList.lastj := fun hlive =>
          countP_ne_zero_iff.mpr ⟨_, hlive⟩ (hrsound.indexed.njobs.symm.trans hzero)
        rw [if_pos hzero]
        exact if_neg (by rintro (hne | hlive); exacts [hne hlast, hfree hlive])
      · rw [if_neg hzero]
        exact if_pos (.inr (hrsound.indexed.ends hzero).2)

/-! ## New jobs -/

theorem behindLast_eq (h : t.Indexed) : ∀ n, (∀ k, t.Live k → k < n) →
    t.Behind (t.behindLast n)
  | 0, hn => by
      rw [Behind, if_pos ?_]
      · rfl
      · by_contra hne
        exact absurd (hn _ (h.ends hne).2) (Nat.not_lt_zero _)
  | n + 1, hn => by
      rw [behindLast]
      split
      · next hlive =>
          have hne : t.njobs ≠ 0 := by
            rw [h.njobs]
            exact countP_ne_zero_iff.mpr ⟨n, hlive⟩
          have hle := (h.bounds n hlive).2
          have hlt := hn _ (h.ends hne).2
          rw [Behind, if_neg hne]
          omega
      · next hfree =>
          refine behindLast_eq h n fun k hk => ?_
          have hne : k ≠ n := fun heq => hfree (heq ▸ hk)
          have hlt := hn k hk
          omega

theorem nextFree_of_free (fuel : ℕ) (hfree : ¬ t.Live i) : t.nextFree fuel i = i := by
  cases fuel with
  | zero => rfl
  | succ fuel => exact if_neg fun h => hfree h.2

/-- Both searches find the slot behind the last job. -/
theorem searchSlot_behind (h : t.Indexed) : t.Behind (t.searchSlot m) := by
  rw [searchSlot]
  split
  · exact behindLast_eq h _ fun k hk => hk.lt
  · simp only
    by_cases hzero : t.njobs = 0
    · have hlast := (h.empty hzero).2
      have hfree : ¬ t.Live 0 := fun hlive =>
        countP_ne_zero_iff.mpr ⟨_, hlive⟩ (h.njobs.symm.trans hzero)
      rw [Behind, if_pos hzero, if_neg (not_not.mpr hlast), hlast]
      exact nextFree_of_free _ hfree
    · have hends := h.ends hzero
      have hfree : ¬ t.Live (t.lastj + 1) := fun hlive => by
        have := (h.bounds _ hlive).2
        omega
      rw [Behind, if_neg hzero]
      by_cases hlast : t.lastj = 0
      · obtain ⟨n, hn⟩ : ∃ n, t.jobslots = n + 1 :=
          Nat.exists_eq_add_one_of_ne_zero fun h0 => by
            have := hends.2.lt
            omega
        have hlive := hends.2
        rw [hlast] at hlive hfree
        rw [if_neg (not_not.mpr hlast), hlast, hn, Nat.sub_zero, nextFree,
          if_pos ⟨by omega, hlive⟩]
        exact nextFree_of_free n hfree
      · rw [if_pos hlast]
        exact nextFree_of_free _ hfree

variable (fresh m) in
theorem findSlot_spec (h : t.Sound) :
    ∃ i u, t.findSlot fresh m = some (i, u) ∧ u.Sound ∧ u.Behind i ∧
      Kept t.liveJobs u.liveJobs := by
  have hbehind := searchSlot_behind (m := m) h.indexed
  rw [findSlot]
  split
  · next hfull =>
      obtain ⟨i, u, hcompact, hsound, hkept, hcases⟩ :=
        compactJobsList_spec fresh m h
      refine ⟨i, u, hcompact, hsound, ?_, hkept⟩
      rcases hcases with ⟨rfl, rfl⟩ | ⟨hu, -⟩
      · rw [← hfull.2.1]
        exact hbehind
      · exact hu
  · exact ⟨_, t, rfl, h, hbehind, Kept.refl _⟩

theorem firstSlots_spec (h : t.Sound) : t.firstSlots.Sound ∧ t.firstSlots.liveJobs = t.liveJobs := by
  rw [firstSlots]
  split
  · next hzero =>
      have hnil : t.jobs = [] := List.length_eq_zero_iff.mp hzero
      have hdead : ∀ i, ¬ t.Live i := fun i hi => by
        have := hi.lt
        omega
      refine ⟨⟨?_, fun i hi => ?_, fun i hi => ?_, h.marked.both⟩, ?_⟩
      · refine indexed_compacted (l := []) (n := jobSlots) rfl rfl rfl rfl
      · exact absurd (h.marked.current i hi) (hdead i)
      · exact absurd (h.marked.previous i hi) (hdead i)
      · rw [liveJobs, liveJobs, hnil]
        exact List.reduceOption_replicate_none
  · exact ⟨h, rfl⟩

theorem slot_append_none {n : ℕ} : ((t.jobs ++ List.replicate n none)[i]?).join = t.slot i := by
  rw [slot, List.getElem?_append]
  split
  · rfl
  · next hge =>
      rw [List.getElem?_replicate, List.getElem?_eq_none (Nat.le_of_not_lt hge)]
      split <;> rfl

/-- There is room for the slot behind the last job. -/
theorem moreSlots_spec (h : t.Sound) (hi : t.Behind i) :
    (t.moreSlots i).Sound ∧ (t.moreSlots i).Behind i ∧ i < (t.moreSlots i).jobslots ∧
      (t.moreSlots i).liveJobs = t.liveJobs := by
  have hle := hi.le h.indexed
  rw [moreSlots]
  split
  · next heq =>
      have hslot : ∀ k, ({ t with jobs := t.jobs ++ List.replicate jobSlots none } : JobTable).Live k ↔
          t.Live k := fun k => by
        change ((t.jobs ++ List.replicate jobSlots none)[k]?).join.isSome = true ↔ _
        rw [slot_append_none]
        rfl
      refine ⟨⟨⟨?_, fun k hk => ?_, fun hne => ?_, h.indexed.empty⟩, fun k hk => ?_, fun k hk => ?_,
        h.marked.both⟩, hi, ?_, ?_⟩
      · simp [h.indexed.njobs, List.countP_append, List.countP_replicate]
      · exact h.indexed.bounds k ((hslot k).mp hk)
      · exact ⟨(hslot _).mpr (h.indexed.ends hne).1, (hslot _).mpr (h.indexed.ends hne).2⟩
      · exact (hslot k).mpr (h.marked.current k hk)
      · exact (hslot k).mpr (h.marked.previous k hk)
      · simp only [jobslots, List.length_append, List.length_replicate, jobSlots] at heq ⊢
        omega
      · simp only [liveJobs, List.reduceOption_append, List.reduceOption_replicate_none,
          List.append_nil]
  · next hne => exact ⟨h, hi, by omega, rfl⟩

theorem reduceOption_set (job : Job) : ∀ {l : List (Option Job)} {i : ℕ}, i < l.length →
    (∀ k, i ≤ k → l[k]?.join.isSome = false) →
      (l.set i (some job)).reduceOption = l.reduceOption ++ [job]
  | a :: l, 0, _, hfree => by
      have ha : a = none := by simpa using hfree 0 (Nat.le_refl 0)
      have hl : l.reduceOption = [] := by
        rw [List.eq_nil_iff_forall_not_mem]
        intro x hx
        obtain ⟨k, hk⟩ := List.getElem?_of_mem (List.reduceOption_mem_iff.mp hx)
        have := hfree (k + 1) (Nat.zero_le _)
        rw [List.getElem?_cons_succ, hk] at this
        cases this
      rw [List.set_cons_zero, List.reduceOption_cons_of_some, ha, List.reduceOption_cons_of_none, hl]
      rfl
  | a :: l, i + 1, hlt, hfree => by
      have ih := reduceOption_set job (l := l) (i := i) (Nat.lt_of_succ_lt_succ hlt)
        fun k hk => hfree (k + 1) (Nat.succ_le_succ hk)
      rw [List.set_cons_succ]
      cases a with
      | none => simpa only [List.reduceOption_cons_of_none] using ih
      | some a => simp only [List.reduceOption_cons_of_some, ih, List.cons_append]

theorem countP_set_some (job : Job) : ∀ {l : List (Option Job)} {i : ℕ}, i < l.length →
    l[i]?.join.isSome = false →
      (l.set i (some job)).countP Option.isSome = l.countP Option.isSome + 1
  | a :: l, 0, _, hfree => by
      have ha : a = none := by simpa using hfree
      simp [ha]
  | a :: l, i + 1, hlt, hfree => by
      have ih := countP_set_some job (l := l) (i := i) (Nat.lt_of_succ_lt_succ hlt) hfree
      rw [List.set_cons_succ, List.countP_cons, List.countP_cons]
      omega

/-- What `install` does to the array and to the indices. -/
theorem install_kept (t : JobTable) (i : ℕ) (job : Job) :
    (t.install i job).jobs = t.jobs.set i (some job) ∧ (t.install i job).firstj = t.firstj ∧
      (t.install i job).lastj = i ∧ (t.install i job).njobs = t.njobs + 1 ∧
      (t.install i job).current = t.current ∧ (t.install i job).previous = t.previous := by
  by_cases hdead : job.state = .dead
  · simp [install, hdead, setSlot]
  · simp [install, hdead, setSlot]

/-- A new job overwrites none. -/
theorem install_spec (job : Job) (h : t.Sound) (hi : t.Behind i) (hlt : i < t.jobslots) :
    (t.install i job).Sound ∧ (t.install i job).liveJobs = t.liveJobs ++ [job] := by
  obtain ⟨hjobs, hfirst, hlast, hnjobs, hcur, hprev⟩ := install_kept t i job
  have hfree : ∀ k, i ≤ k → t.jobs[k]?.join.isSome = false := fun k hk =>
    Bool.eq_false_iff.mpr (hi.not_live h.indexed hk)
  have hslot : ∀ k, (t.install i job).slot k = if k = i ∧ i < t.jobslots then some job else t.slot k :=
    fun k => by
      rw [← slot_setSlot, slot, hjobs]
      rfl
  have hself : (t.install i job).Live i := by
    rw [Live, hslot, if_pos ⟨rfl, hlt⟩]
    rfl
  have hlive : ∀ k, t.Live k → (t.install i job).Live k := fun k hk => by
    rw [Live, hslot]
    split
    · rfl
    · exact hk
  have hlive' : ∀ k, (t.install i job).Live k → k ≠ i → t.Live k := fun k hk hne => by
    rwa [Live, hslot, if_neg fun h => hne h.1] at hk
  refine ⟨⟨⟨?_, fun k hk => ?_, fun _ => ?_, fun hzero => ?_⟩, fun k hk => ?_, fun k hk => ?_, ?_⟩, ?_⟩
  · rw [hnjobs, hjobs, countP_set_some job hlt (hfree i (Nat.le_refl i)), h.indexed.njobs]
  · rw [hfirst, hlast]
    by_cases hzero : t.njobs = 0
    · have hk0 : k = i := by
        by_contra hne
        exact countP_ne_zero_iff.mpr ⟨k, hlive' k hk hne⟩ (h.indexed.njobs.symm.trans hzero)
      have := (h.indexed.empty hzero).1
      omega
    · rw [Behind, if_neg hzero] at hi
      by_cases hne : k = i
      · have := (h.indexed.bounds _ (h.indexed.ends hzero).1).2
        omega
      · have := h.indexed.bounds k (hlive' k hk hne)
        omega
  · rw [hlast, hfirst]
    refine ⟨?_, hself⟩
    by_cases hzero : t.njobs = 0
    · rw [Behind, if_pos hzero] at hi
      rw [(h.indexed.empty hzero).1, ← hi]
      exact hself
    · exact hlive _ (h.indexed.ends hzero).1
  · omega
  · exact hlive k (h.marked.current k (hcur ▸ hk))
  · exact hlive k (h.marked.previous k (hprev ▸ hk))
  · rw [hcur, hprev]
    exact h.marked.both
  · rw [liveJobs, hjobs]
    exact reduceOption_set job hlt hfree

/-- The job that `stop_pipeline` puts into the table. -/
def installed (async : Bool) (job : Job) : Job :=
  { job with
    flags := if async then { job.flags with foreground := false, async := true }
      else { job.flags with foreground := true } }

theorem liveJobs_resetCurrent : t.resetCurrent.liveJobs = t.liveJobs := by
  obtain ⟨c, p, hreset, -⟩ := resetCurrent_spec t
  rw [hreset]
  rfl

variable (fresh m) in
theorem stopPipeline_spec (h : t.Sound) (async : Bool) (newjob : Option Job) :
    ∃ u, t.stopPipeline fresh m async newjob = some u ∧ u.Sound ∧
      ∃ kept, Kept t.liveJobs kept ∧
        u.liveJobs = kept ++ (newjob.map (installed async)).toList := by
  obtain ⟨t₁, h₁, hsound₁, hreaped⟩ := cleanupDeadJobs_spec fresh m h
  obtain ⟨hsound₂, hlive₂⟩ := firstSlots_spec hsound₁
  obtain ⟨i, t₃, h₃, hsound₃, hbehind, hkept⟩ := findSlot_spec fresh m hsound₂
  obtain ⟨hsound₄, hbehind₄, hlt, hlive₄⟩ := moreSlots_spec hsound₃ hbehind
  have hkept₄ : Kept t.liveJobs (t₃.moreSlots i).liveJobs := by
    rw [hlive₄]
    rw [hlive₂] at hkept
    exact hreaped.slots.kept.trans hkept
  rw [stopPipeline, h₁]
  simp only [Option.bind_some, h₃, Option.map_some]
  cases newjob with
  | none =>
      cases async with
      | true =>
          exact ⟨_, rfl, sound_resetCurrent hsound₄.indexed, _, hkept₄, by
            simpa using liveJobs_resetCurrent⟩
      | false => exact ⟨_, rfl, hsound₄, _, hkept₄, by simp⟩
  | some job =>
      obtain ⟨hinst, hlive⟩ := install_spec (installed async job) hsound₄ hbehind₄ hlt
      cases async with
      | true =>
          refine ⟨_, rfl, sound_resetCurrent (hinst.indexed.congr ⟨rfl, rfl, rfl, rfl⟩), _, hkept₄, ?_⟩
          exact liveJobs_resetCurrent.trans hlive
      | false => exact ⟨_, rfl, hinst, _, hkept₄, hlive⟩

end JobTable

end Jobs

end Rash
