import Rash.Jobs.BgpidsIntact

/-!
# What the table of saved statuses remembers

One `bgp_add` gives a pid a cell, and takes the cell from at most one other pid; the pids of the
other cells keep their statuses.  A search answers with the status of a live cell.
-/

namespace Rash

namespace Bgpids

namespace BgpState

variable {s : BgpState} {psi : ℕ} {pid : ℤ}

def statusOf (s : BgpState) (psi : ℕ) : ℕ := (s.storage psi).status

/-- The table when `bgp_getindex` looks for a cell. -/
def resized (s : BgpState) (fresh : ℕ → Pidstat) : BgpState :=
  if s.nalloc < toPsIndex s.childmax ∨ s.head ≥ s.nalloc then s.bgpResize fresh else s

/-- The cell that the next `bgp_add` takes holds a status of the pid, which is lost. -/
def Evicts (s : BgpState) (fresh : ℕ → Pidstat) (pid : ℤ) : Prop :=
  (s.resized fresh).pidOf (s.resized fresh).head = pid

instance (fresh : ℕ → Pidstat) : Decidable (s.Evicts fresh pid) :=
  inferInstanceAs (Decidable (_ = _))

theorem bgpGetindex_eq (fresh : ℕ → Pidstat) : s.bgpGetindex fresh =
    ((s.resized fresh).head, { (s.resized fresh).pshashDelindex (s.resized fresh).head with
      head := (s.resized fresh).head + 1 }) := rfl

/-! ## The statuses of the cells -/

theorem statusOf_setNext (i : ℕ) (q : Option ℕ) : (s.setNext psi q).statusOf i = s.statusOf i := by
  simp only [setNext, statusOf, storage_setCell]
  split_ifs with h
  · rw [h]
  · rfl

theorem statusOf_setPrev (i : ℕ) (q : Option ℕ) : (s.setPrev psi q).statusOf i = s.statusOf i := by
  simp only [setPrev, statusOf, storage_setCell]
  split_ifs with h
  · rw [h]
  · rfl

theorem statusOf_relinkNext (i : ℕ) : (s.relinkNext psi).statusOf i = s.statusOf i := by
  rw [relinkNext]
  split
  · exact statusOf_setPrev ..
  · rfl

theorem statusOf_relinkPrev (i : ℕ) : (s.relinkPrev psi).statusOf i = s.statusOf i := by
  rw [relinkPrev]
  split
  · exact statusOf_setNext ..
  · rfl

theorem statusOf_linkHead (i : ℕ) : (s.linkHead psi).statusOf i = s.statusOf i := by
  rw [linkHead]
  split
  · exact statusOf_setPrev ..
  · rfl

theorem statusOf_pshashDelindex (i : ℕ) : (s.pshashDelindex psi).statusOf i = s.statusOf i := by
  rw [pshashDelindex]
  split
  · rfl
  · have hkept : ((s.relinkNext psi).relinkPrev psi).statusOf i = s.statusOf i :=
      (statusOf_relinkPrev i).trans (statusOf_relinkNext i)
    rw [clearCell, statusOf, storage_setCell]
    split_ifs with h
    · rw [← hkept, h]
      rfl
    · exact hkept

theorem pidOf_pshashDelindex (i : ℕ) :
    (s.pshashDelindex psi).pidOf i = if i = psi then noPid else s.pidOf i := by
  rw [pshashDelindex]
  split
  · next hfree =>
      split_ifs with h
      · rw [h]
        exact hfree
      · rfl
  · rw [clearCell, pidOf, storage_setCell]
    split_ifs
    · rfl
    · exact (pidOf_relinkPrev i).trans (pidOf_relinkNext i)

/-! ## Growth -/

/-- The live cells of two states are the same, and hold the same pids and statuses. -/
structure SameCells (s t : BgpState) : Prop where
  live : ∀ i, t.Live i ↔ s.Live i
  pid : ∀ i, s.Live i → t.pidOf i = s.pidOf i
  status : ∀ i, s.Live i → t.statusOf i = s.statusOf i
  npid : t.npid = s.npid
  childmax : t.childmax = s.childmax

theorem SameCells.refl (s : BgpState) : s.SameCells s :=
  ⟨fun _ => Iff.rfl, fun _ _ => rfl, fun _ _ => rfl, rfl, rfl⟩

theorem sameCells_bgpResize (h : s.Intact) (fresh : ℕ → Pidstat) :
    s.SameCells (s.bgpResize fresh) := by
  have hmax := h.nalloc
  have hpos := s.sizes_pos
  generalize hstart : (if s.nalloc = 0 then
    { s with pidstatTable := fun _ => none, head := 0 } else s : BgpState) = t
  have ht : t.nalloc = s.nalloc ∧ t.storage = s.storage ∧ t.npid = s.npid ∧
      t.childmax = s.childmax := by
    rw [← hstart]
    split_ifs <;> exact ⟨rfl, rfl, rfl, rfl⟩
  obtain ⟨hnalloc, hstorage, hnpid, hchildmax⟩ := ht
  have hsame : ∀ u : BgpState, u.nalloc = s.nalloc → u.storage = s.storage → u.npid = s.npid →
      u.childmax = s.childmax → s.SameCells u := fun u hu hu' hunpid huchildmax =>
    ⟨fun i => by rw [Live, Live, pidOf, pidOf, hu, hu'], fun i _ => by rw [pidOf, pidOf, hu'],
      fun i _ => by rw [statusOf, statusOf, hu'], hunpid, huchildmax⟩
  rw [bgpResize, hstart]
  simp only
  split_ifs with hgrow hwrap
  · have hle : s.nalloc ≤ s.sizes.1.toNat := by
      by_cases hzero : s.nalloc = 0
      · omega
      · have := lt_sizes hmax (hnalloc ▸ hgrow.1) (hnalloc ▸ hgrow.2)
        omega
    -- only free cells are new
    have hold : ∀ i < s.nalloc, (if i < t.nalloc then t.storage i else { fresh i with pid := noPid }) =
        s.storage i := fun i hi => by rw [if_pos (hnalloc ▸ hi), hstorage]
    refine ⟨fun i => ?_, fun i hi => ?_, fun i hi => ?_, hnpid, hchildmax⟩
    · by_cases hi : i < s.nalloc
      · simp only [Live, pidOf, hold i hi, hi, Nat.lt_of_lt_of_le hi hle]
      · have hfree : ¬ i < t.nalloc := hnalloc ▸ hi
        simp only [Live, pidOf, if_neg hfree, hi, ne_eq, not_true_eq_false, and_false, false_and]
    · exact congrArg Pidstat.pid (hold i hi.1)
    · exact congrArg Pidstat.status (hold i hi.1)
  · exact hsame _ hnalloc hstorage hnpid hchildmax
  · exact hsame _ hnalloc hstorage hnpid hchildmax

theorem resized_spec (h : s.Intact) (fresh : ℕ → Pidstat) (hchildmax : toPsIndex s.childmax ≠ 0) :
    (s.resized fresh).Intact ∧ (s.resized fresh).head < (s.resized fresh).nalloc ∧
      s.SameCells (s.resized fresh) := by
  rw [resized]
  split_ifs with hresize
  · obtain ⟨hintact, hlt⟩ := intact_bgpResize h fresh
    exact ⟨hintact, hlt hchildmax, sameCells_bgpResize h fresh⟩
  · exact ⟨h, Nat.lt_of_not_le fun hle => hresize (.inr hle), SameCells.refl s⟩

/-! ## One more status -/

/-- What `bgp_add` does to the cells: `psi` gets the pid and the status. -/
structure Added (s t : BgpState) (psi : ℕ) (pid status : ℤ) : Prop where
  intact : t.Intact
  self : t.Live psi ∧ t.pidOf psi = pid ∧ t.statusOf psi = (status % 2 ^ 16).toNat
  live : ∀ i ≠ psi, t.Live i ↔ s.Live i
  pids : ∀ i ≠ psi, s.Live i → t.pidOf i = s.pidOf i
  status : ∀ i ≠ psi, s.Live i → t.statusOf i = s.statusOf i
  npid : t.npid = s.npid + 1
  childmax : t.childmax = s.childmax

theorem statusOf_writeStatus (status : ℤ) (i : ℕ) : (s.writeStatus psi pid status).statusOf i =
    if i = psi then (status % 2 ^ 16).toNat else s.statusOf i := by
  rw [writeStatus]
  refine (statusOf_linkHead i).trans ?_
  rw [statusOf]
  refine (congrArg Pidstat.status (storage_setCell s psi i _)).trans ?_
  split_ifs <;> rfl

/-- The ring's head is the cell. -/
theorem added_bgpAdd (h : s.Intact) (status : ℤ) (fresh : ℕ → Pidstat) (hpid : pid ≠ noPid)
    (hchildmax : toPsIndex s.childmax ≠ 0) :
    s.Added (s.bgpAdd pid status fresh) (s.resized fresh).head pid status := by
  obtain ⟨hgot, hlt, hfree⟩ := bgpGetindex_spec h fresh hchildmax
  obtain ⟨-, -, hsame⟩ := resized_spec h fresh hchildmax
  have hintact := intact_bgpAdd h pid status fresh hpid hchildmax
  have hpushed := pushed_writeStatus pid status (hgot.start_ne hlt hfree (pshashGetbucket pid))
  rw [bgpAdd_eq h pid status fresh hchildmax] at hintact ⊢
  rw [bgpGetindex_eq] at hpushed hlt hintact ⊢
  generalize s.resized fresh = r at *
  have hcounters := (sameCounters_pshashDelindex : r.SameCounters (r.pshashDelindex r.head))
  have hpids : ∀ i ≠ r.head, (({ r.pshashDelindex r.head with head := r.head + 1 } : BgpState)).pidOf i
      = r.pidOf i := fun i hi => (pidOf_pshashDelindex i).trans (if_neg hi)
  refine ⟨hintact, ⟨⟨?_, ?_⟩, ?_, ?_⟩, fun i hi => ?_, fun i hi hlive => ?_, fun i hi hlive => ?_, ?_, ?_⟩
  · rw [hpushed.nalloc]
    exact hlt
  · rw [hpushed.pids, if_pos rfl]
    exact hpid
  · rw [hpushed.pids, if_pos rfl]
  · rw [statusOf_writeStatus, if_pos rfl]
  · rw [Live, hpushed.nalloc, hpushed.pids, if_neg hi, hpids i hi, ← hsame.live]
    exact and_congr_left' (by rw [← hcounters.nalloc])
  · rw [hpushed.pids, if_neg hi, hpids i hi, hsame.pid i hlive]
  · rw [statusOf_writeStatus, if_neg hi]
    exact (statusOf_pshashDelindex i).trans (hsame.status i hlive)
  · refine Eq.trans (sameCounters_linkHead.npid) ?_
    exact congrArg (· + 1) (hcounters.npid.trans hsame.npid)
  · refine Eq.trans (sameCounters_linkHead.childmax) ?_
    exact hcounters.childmax.trans hsame.childmax

theorem not_evicts (h : s.Intact) {fresh : ℕ → Pidstat} (hchildmax : toPsIndex s.childmax ≠ 0)
    (hkept : ¬ s.Evicts fresh pid) :
    s.Live (s.resized fresh).head → s.pidOf (s.resized fresh).head ≠ pid := fun hlive hpid =>
  hkept (((resized_spec h fresh hchildmax).2.2.pid _ hlive).trans hpid)

/-- In a ring without statuses there is none to evict. -/
theorem not_evicts_of_free (h : s.Intact) (fresh : ℕ → Pidstat) (hchildmax : toPsIndex s.childmax ≠ 0)
    (hfree : ∀ psi, ¬ s.Live psi) (hpid : pid ≠ noPid) : ¬ s.Evicts fresh pid := by
  obtain ⟨-, hlt, hsame⟩ := resized_spec h fresh hchildmax
  intro hevicts
  exact hfree _ ((hsame.live _).mp ⟨hlt, fun hno => hpid (hevicts.symm.trans hno)⟩)

/-! ## The answer of a search -/

/-- Each live cell of the pid has the status, and there is one. -/
structure Remembers (s : BgpState) (pid : ℤ) (status : ℕ) : Prop where
  remembered : ∃ psi, s.Live psi ∧ s.pidOf psi = pid
  status : ∀ psi, s.Live psi → s.pidOf psi = pid → s.statusOf psi = status

def Forgets (s : BgpState) (pid : ℤ) : Prop := ∀ psi, s.Live psi → s.pidOf psi ≠ pid

theorem bgpSearch_remembers {status : ℕ} (h : s.Intact) (hs : s.Remembers pid status)
    (hnpid : 0 < s.npid) : s.bgpSearch pid (s.nalloc + 1) = some (status : ℤ) := by
  obtain ⟨psi, hlive, hpid⟩ := hs.remembered
  have hne : s.nalloc ≠ 0 := Nat.ne_of_gt (Nat.zero_lt_of_lt hlive.1)
  obtain ⟨l, hl⟩ := h.chained hne (pshashGetbucket pid)
  have hmem : psi ∈ l := (hl.mem psi).mpr ⟨hlive, by rw [hpid]⟩
  have hguard : ¬ (s.nalloc = 0 ∨ s.npid = 0) := by omega
  rw [bgpSearch, if_neg hguard,
    searchBucket_chain hl.linked hl.nodup (Nat.lt_succ_of_le hl.length_le)]
  obtain ⟨first, hfirst⟩ : ∃ first, l.find? (fun psi => s.pidOf psi = pid) = some first :=
    Option.isSome_iff_exists.mp (List.find?_isSome.mpr ⟨psi, hmem, decide_eq_true hpid⟩)
  have hfound : s.pidOf first = pid := by simpa using List.find?_some hfirst
  have hflive := ((hl.mem first).mp (List.mem_of_find?_eq_some hfirst)).1
  rw [hfirst, ← hs.status first hflive hfound]
  rfl

section Added

variable {t : BgpState} {other status : ℤ}

/-- The status of another pid is saved, and this one is not evicted. -/
theorem Added.remembers {saved : ℕ} (h : s.Added t psi other status) (hother : other ≠ pid)
    (hkept : s.Live psi → s.pidOf psi ≠ pid) (hs : s.Remembers pid saved) : t.Remembers pid saved where
  remembered := by
    obtain ⟨i, hlive, hpid⟩ := hs.remembered
    have hi : i ≠ psi := fun heq => hkept (heq ▸ hlive) (heq ▸ hpid)
    exact ⟨i, (h.live i hi).mpr hlive, (h.pids i hi hlive).trans hpid⟩
  status i hlive hpid := by
    have hi : i ≠ psi := fun heq => hother (h.self.2.1.symm.trans (heq ▸ hpid))
    have hslive := (h.live i hi).mp hlive
    rw [h.status i hi hslive]
    exact hs.status i hslive ((h.pids i hi hslive).symm.trans hpid)

theorem Added.forgets (h : s.Added t psi other status) (hother : other ≠ pid)
    (hs : s.Forgets pid) : t.Forgets pid := by
  intro i hlive hpid
  have hi : i ≠ psi := fun heq => hother (h.self.2.1.symm.trans (heq ▸ hpid))
  have hslive := (h.live i hi).mp hlive
  exact hs i hslive ((h.pids i hi hslive).symm.trans hpid)

/-- The pid gets its first status. -/
theorem Added.remembers_new (h : s.Added t psi pid status) (hs : s.Forgets pid) :
    t.Remembers pid (status % 2 ^ 16).toNat where
  remembered := ⟨psi, h.self.1, h.self.2.1⟩
  status i hlive hpid := by
    by_cases hi : i = psi
    · rw [hi]
      exact h.self.2.2
    · have hslive := (h.live i hi).mp hlive
      exact absurd ((h.pids i hi hslive).symm.trans hpid) (hs i hslive)

end Added

end BgpState

end Bgpids

end Rash
