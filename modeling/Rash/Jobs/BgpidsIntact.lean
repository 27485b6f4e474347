import Rash.Jobs.Bgpids
import Mathlib.Data.List.Find
import Mathlib.Data.List.Perm.Subperm
import Mathlib.Tactic.SplitIfs

/-!
# The chains of saved statuses

The invariant of the table: every chain is linked through exactly the live cells whose pid
hashes to it.
-/

namespace Rash

namespace Bgpids

open LinkedChain

namespace BgpState

def nextOf (s : BgpState) (psi : ℕ) : Option ℕ := (s.storage psi).bucketNext

def prevOf (s : BgpState) (psi : ℕ) : Option ℕ := (s.storage psi).bucketPrev

def pidOf (s : BgpState) (psi : ℕ) : ℤ := (s.storage psi).pid

/-- The cell is allocated and holds a status. -/
def Live (s : BgpState) (psi : ℕ) : Prop := psi < s.nalloc ∧ s.pidOf psi ≠ noPid

/-- `l` is the chain of the bucket: it is linked, and holds the live cells of its hash value. -/
structure Chain (s : BgpState) (b : Fin pidstatTableSz) (l : List ℕ) : Prop where
  nodup : l.Nodup
  linked : Linked s.nextOf s.prevOf none (s.pidstatTable b) l
  mem : ∀ psi, psi ∈ l ↔ s.Live psi ∧ pshashGetbucket (s.pidOf psi) = b

def Chained (s : BgpState) : Prop := ∀ b, ∃ l, s.Chain b l

variable {s : BgpState} {psi : ℕ} {q : Option ℕ}

section Fields

variable (s : BgpState) (psi i : ℕ) (q : Option ℕ) (ps : Pidstat) (b : Fin pidstatTableSz)

@[simp] theorem storage_setCell :
    (s.setCell psi ps).storage i = if i = psi then ps else s.storage i := by
  simp only [setCell, Function.update_apply]

@[simp] theorem nextOf_setNext :
    (s.setNext psi q).nextOf i = if i = psi then q else s.nextOf i := by
  simp only [setNext, nextOf, storage_setCell]
  split_ifs <;> rfl

@[simp] theorem prevOf_setNext : (s.setNext psi q).prevOf i = s.prevOf i := by
  simp only [setNext, prevOf, storage_setCell]
  split_ifs with h
  · rw [h]
  · rfl

@[simp] theorem pidOf_setNext : (s.setNext psi q).pidOf i = s.pidOf i := by
  simp only [setNext, pidOf, storage_setCell]
  split_ifs with h
  · rw [h]
  · rfl

@[simp] theorem nextOf_setPrev : (s.setPrev psi q).nextOf i = s.nextOf i := by
  simp only [setPrev, nextOf, storage_setCell]
  split_ifs with h
  · rw [h]
  · rfl

@[simp] theorem prevOf_setPrev :
    (s.setPrev psi q).prevOf i = if i = psi then q else s.prevOf i := by
  simp only [setPrev, prevOf, storage_setCell]
  split_ifs <;> rfl

@[simp] theorem pidOf_setPrev : (s.setPrev psi q).pidOf i = s.pidOf i := by
  simp only [setPrev, pidOf, storage_setCell]
  split_ifs with h
  · rw [h]
  · rfl

@[simp] theorem pidstatTable_setBucket (b' : Fin pidstatTableSz) :
    (s.setBucket b q).pidstatTable b' = if b' = b then q else s.pidstatTable b' := by
  simp only [setBucket, Function.update_apply]

end Fields

/-- What the removal of a cell changes. -/
structure Removed (s t : BgpState) (psi : ℕ) : Prop where
  pid : ∀ i, t.pidOf i = if i = psi then noPid else s.pidOf i
  next : ∀ i ≠ psi, t.nextOf i = if s.prevOf psi = some i then s.nextOf psi else s.nextOf i
  prev : ∀ i ≠ psi, t.prevOf i = if s.nextOf psi = some i then s.prevOf psi else s.prevOf i
  table : ∀ b, t.pidstatTable b =
    if s.prevOf psi = none ∧ pshashGetbucket (s.pidOf psi) = b then s.nextOf psi
    else s.pidstatTable b

theorem prevOf_relinkNext (i : ℕ) : (s.relinkNext psi).prevOf i =
    if s.nextOf psi = some i then s.prevOf psi else s.prevOf i := by
  rw [relinkNext]
  cases hn : (s.storage psi).bucketNext with
  | none => simp [nextOf, hn]
  | some n =>
      rw [prevOf_setPrev]
      exact ite_congr (propext (by rw [nextOf, hn, Option.some.injEq]; exact eq_comm))
        (fun _ => rfl) fun _ => rfl

theorem nextOf_relinkNext (i : ℕ) : (s.relinkNext psi).nextOf i = s.nextOf i := by
  rw [relinkNext]
  split
  · exact nextOf_setPrev ..
  · rfl

theorem pidOf_relinkNext (i : ℕ) : (s.relinkNext psi).pidOf i = s.pidOf i := by
  rw [relinkNext]
  split
  · exact pidOf_setPrev ..
  · rfl

theorem pidstatTable_relinkNext : (s.relinkNext psi).pidstatTable = s.pidstatTable := by
  rw [relinkNext]
  split <;> rfl

theorem pidOf_relinkPrev (i : ℕ) : (s.relinkPrev psi).pidOf i = s.pidOf i := by
  rw [relinkPrev]
  split
  · exact pidOf_setNext ..
  · rfl

theorem prevOf_relinkPrev (i : ℕ) : (s.relinkPrev psi).prevOf i = s.prevOf i := by
  rw [relinkPrev]
  split
  · exact prevOf_setNext ..
  · rfl

theorem nextOf_relinkPrev (i : ℕ) : (s.relinkPrev psi).nextOf i =
    if s.prevOf psi = some i then s.nextOf psi else s.nextOf i := by
  rw [relinkPrev]
  cases hp : (s.storage psi).bucketPrev with
  | none => simp [nextOf, prevOf, hp, setBucket]
  | some p =>
      rw [nextOf_setNext]
      exact ite_congr (propext (by rw [prevOf, hp, Option.some.injEq]; exact eq_comm))
        (fun _ => rfl) fun _ => rfl

theorem pidstatTable_relinkPrev (b : Fin pidstatTableSz) : (s.relinkPrev psi).pidstatTable b =
    if s.prevOf psi = none ∧ pshashGetbucket (s.pidOf psi) = b then s.nextOf psi
    else s.pidstatTable b := by
  rw [relinkPrev]
  cases hp : (s.storage psi).bucketPrev with
  | none =>
      rw [pidstatTable_setBucket]
      exact ite_congr (propext ⟨fun h => ⟨hp, h.symm⟩, fun h => h.2.symm⟩) (fun _ => rfl)
        fun _ => rfl
  | some p =>
      have hsome : s.prevOf psi = some p := hp
      rw [hsome, if_neg (by simp)]
      rfl

/-- The counters of two states are the same. -/
structure SameCounters (s t : BgpState) : Prop where
  nalloc : t.nalloc = s.nalloc
  head : t.head = s.head
  npid : t.npid = s.npid
  childmax : t.childmax = s.childmax

theorem sameCounters_pshashDelindex : s.SameCounters (s.pshashDelindex psi) := by
  rw [pshashDelindex]
  split
  · exact ⟨rfl, rfl, rfl, rfl⟩
  · have hnext : s.SameCounters (s.relinkNext psi) := by
      rw [relinkNext]
      split <;> exact ⟨rfl, rfl, rfl, rfl⟩
    have hprev : (s.relinkNext psi).SameCounters ((s.relinkNext psi).relinkPrev psi) := by
      rw [relinkPrev]
      split <;> exact ⟨rfl, rfl, rfl, rfl⟩
    exact ⟨hprev.nalloc.trans hnext.nalloc, hprev.head.trans hnext.head,
      hprev.npid.trans hnext.npid, hprev.childmax.trans hnext.childmax⟩

theorem removed_pshashDelindex (hlive : s.pidOf psi ≠ noPid) (hloop : s.nextOf psi ≠ some psi) :
    s.Removed (s.pshashDelindex psi) psi := by
  have hdel : s.pshashDelindex psi = ((s.relinkNext psi).relinkPrev psi).clearCell psi :=
    if_neg hlive
  have hprev : (s.relinkNext psi).prevOf psi = s.prevOf psi := by
    rw [prevOf_relinkNext, if_neg hloop]
  refine ⟨fun i => ?_, fun i hi => ?_, fun i hi => ?_, fun b => ?_⟩
  · rw [hdel, clearCell, pidOf, storage_setCell]
    split_ifs
    · rfl
    · exact (pidOf_relinkPrev i).trans (pidOf_relinkNext i)
  · rw [hdel, clearCell, nextOf, storage_setCell, if_neg hi]
    refine (nextOf_relinkPrev i).trans ?_
    rw [hprev, nextOf_relinkNext, nextOf_relinkNext]
  · rw [hdel, clearCell, prevOf, storage_setCell, if_neg hi]
    exact (prevOf_relinkPrev i).trans (prevOf_relinkNext i)
  · rw [hdel]
    refine (pidstatTable_relinkPrev b).trans ?_
    rw [hprev, pidOf_relinkNext, nextOf_relinkNext, pidstatTable_relinkNext]

/-! ## Chains -/

/-- The removed cell leaves its own chain, and every other chain is as it was. -/
theorem Chain.erase {t : BgpState} {l own : List ℕ} {b : Fin pidstatTableSz} (h : s.Chain b l)
    (hown : s.Chain (pshashGetbucket (s.pidOf psi)) own) (hlive : s.Live psi)
    (ht : s.Removed t psi) (hnalloc : t.nalloc = s.nalloc) : t.Chain b (l.erase psi) := by
  have hpsi : psi ∈ own := (hown.mem psi).mpr ⟨hlive, rfl⟩
  refine ⟨h.nodup.erase psi, ?_, fun i => ?_⟩
  · by_cases hb : pshashGetbucket (s.pidOf psi) = b
    · have hmem : psi ∈ l := (h.mem psi).mpr ⟨hlive, hb⟩
      have hstart := h.linked.start_iff (fun _ _ => by simp) h.nodup hmem
      have htable : t.pidstatTable b =
          if s.pidstatTable b = some psi then s.nextOf psi else s.pidstatTable b := by
        rw [ht.table]
        exact ite_congr (propext (by rw [hstart]; exact and_iff_left hb)) (fun _ => rfl)
          fun _ => rfl
      rw [htable]
      exact h.linked.erase (fun _ _ => by simp) h.nodup hmem (fun i _ => ht.next i)
        fun i _ => ht.prev i
    · have hmem : psi ∉ l := fun hmem => hb ((h.mem psi).mp hmem).2
      have hapart : ∀ i ∈ l, i ∉ own := fun i hi hi' =>
        hb (((hown.mem i).mp hi').2.symm.trans ((h.mem i).mp hi).2)
      rw [List.erase_of_not_mem hmem, ht.table, if_neg fun hhead => hb hhead.2]
      refine h.linked.congr fun i hi => ?_
      have hne : i ≠ psi := fun heq => hmem (heq ▸ hi)
      constructor
      · rw [ht.next i hne, if_neg fun hprev => ?_]
        rcases hown.linked.prev_mem hpsi hprev with hnone | hi'
        · cases hnone
        · exact hapart i hi hi'
      · rw [ht.prev i hne, if_neg fun hnext => ?_]
        exact hapart i hi (List.mem_of_mem_tail (hown.linked.next_mem hpsi hnext))
  · rw [h.nodup.mem_erase_iff, h.mem, Live, Live, ht.pid, hnalloc]
    by_cases heq : i = psi
    · simp [heq]
    · simp [heq]

theorem Chain.nextOf_ne {l : List ℕ} {b : Fin pidstatTableSz} (h : s.Chain b l) (hpsi : psi ∈ l) :
    s.nextOf psi ≠ some psi :=
  h.linked.next_ne_self h.nodup hpsi

/-- The removal of an allocated cell takes it out of its chain. -/
theorem chain_pshashDelindex {f : Fin pidstatTableSz → List ℕ} (h : ∀ b, s.Chain b (f b))
    (hpsi : psi < s.nalloc) (b : Fin pidstatTableSz) :
    (s.pshashDelindex psi).Chain b ((f b).erase psi) := by
  by_cases hfree : s.pidOf psi = noPid
  · have hdel : s.pshashDelindex psi = s := if_pos hfree
    rw [hdel, List.erase_of_not_mem fun hmem => (((h b).mem psi).mp hmem).1.2 hfree]
    exact h b
  · have hown := h (pshashGetbucket (s.pidOf psi))
    have hremoved := removed_pshashDelindex hfree
      (hown.nextOf_ne ((hown.mem psi).mpr ⟨⟨hpsi, hfree⟩, rfl⟩))
    exact (h b).erase hown ⟨hpsi, hfree⟩ hremoved sameCounters_pshashDelindex.nalloc

theorem free_pshashDelindex (h : s.Chained) (hpsi : psi < s.nalloc) :
    (s.pshashDelindex psi).pidOf psi = noPid := by
  by_cases hfree : s.pidOf psi = noPid
  · have hdel : s.pshashDelindex psi = s := if_pos hfree
    rw [hdel]
    exact hfree
  · obtain ⟨own, hown⟩ := h (pshashGetbucket (s.pidOf psi))
    have hmem : psi ∈ own := (hown.mem psi).mpr ⟨⟨hpsi, hfree⟩, rfl⟩
    rw [(removed_pshashDelindex hfree (hown.nextOf_ne hmem)).pid, if_pos rfl]

theorem chained_pshashDelindex (h : s.Chained) (hpsi : psi < s.nalloc) :
    (s.pshashDelindex psi).Chained := by
  choose f hf using h
  exact fun b => ⟨_, chain_pshashDelindex hf hpsi b⟩

/-- A free cell becomes the head of the chain of its pid. -/
structure Pushed (s t : BgpState) (psi : ℕ) (pid : ℤ) : Prop where
  nalloc : t.nalloc = s.nalloc
  pids : ∀ i, t.pidOf i = if i = psi then pid else s.pidOf i
  nextSelf : t.nextOf psi = s.pidstatTable (pshashGetbucket pid)
  prevSelf : t.prevOf psi = none
  next : ∀ i ≠ psi, t.nextOf i = s.nextOf i
  prev : ∀ i ≠ psi, t.prevOf i =
    if s.pidstatTable (pshashGetbucket pid) = some i then some psi else s.prevOf i
  table : ∀ b, t.pidstatTable b = if b = pshashGetbucket pid then some psi else s.pidstatTable b

theorem Pushed.chain {t : BgpState} {pid : ℤ} (ht : s.Pushed t psi pid)
    {f : Fin pidstatTableSz → List ℕ} (h : ∀ b, s.Chain b (f b)) (hpsi : psi < s.nalloc)
    (hfree : s.pidOf psi = noPid) (hpid : pid ≠ noPid) (b : Fin pidstatTableSz) :
    t.Chain b (if b = pshashGetbucket pid then psi :: f b else f b) := by
  have hl := h b
  have hmem : psi ∉ f b := fun hmem => ((hl.mem psi).mp hmem).1.2 hfree
  have hother : ∀ i, i ≠ psi → (t.Live i ↔ s.Live i) := fun i hi => by
    rw [Live, Live, ht.nalloc, ht.pids, if_neg hi]
  by_cases hb : b = pshashGetbucket pid
  · rw [if_pos hb]
    refine ⟨List.nodup_cons.mpr ⟨hmem, hl.nodup⟩, ?_, fun i => ?_⟩
    · rw [ht.table, if_pos hb]
      refine hl.linked.push hmem ⟨by rw [ht.nextSelf, hb], ht.prevSelf⟩ hl.nodup
        (fun i hi => ht.next i fun heq => hmem (heq ▸ hi)) fun i hi => ?_
      rw [ht.prev i fun heq => hmem (heq ▸ hi), hb]
    · by_cases hi : i = psi
      · subst hi
        simp only [List.mem_cons, true_or, true_iff, Live, ht.nalloc, ht.pids, if_true]
        exact ⟨⟨hpsi, hpid⟩, hb.symm⟩
      · rw [List.mem_cons, hother i hi, ht.pids, if_neg hi, ← hl.mem]
        exact or_iff_right hi
  · rw [if_neg hb]
    refine ⟨hl.nodup, ?_, fun i => ?_⟩
    · rw [ht.table, if_neg hb]
      refine hl.linked.congr fun i hi => ?_
      have hne : i ≠ psi := fun heq => hmem (heq ▸ hi)
      refine ⟨ht.next i hne, ?_⟩
      rw [ht.prev i hne, if_neg fun hstart => ?_]
      -- the head of the other chain is not in this one
      have hl' := h (pshashGetbucket pid)
      exact hb (((hl.mem i).mp hi).2.symm.trans ((hl'.mem i).mp (hl'.linked.start_mem hstart)).2)
    · by_cases hi : i = psi
      · subst hi
        refine ⟨fun hi => absurd hi hmem, fun hi => absurd ?_ hb⟩
        rw [← hi.2, ht.pids, if_pos rfl]
      · rw [hother i hi, ht.pids, if_neg hi]
        exact hl.mem i

theorem Pushed.chained {t : BgpState} {pid : ℤ} (ht : s.Pushed t psi pid) (h : s.Chained)
    (hpsi : psi < s.nalloc) (hfree : s.pidOf psi = noPid) (hpid : pid ≠ noPid) : t.Chained := by
  choose f hf using h
  exact fun b => ⟨_, ht.chain hf hpsi hfree hpid b⟩

/-! ## The size of the ring -/

/-- The doubling ends at the size asked for, or with an overflow. -/
theorem doubled_ends (cur : ℤ) : ∀ (fuel : ℕ) (n : ℤ), 0 < n → n < 2 ^ 31 →
    2 ^ 31 ≤ n * 2 ^ fuel → doubled cur fuel n ≤ 0 ∨ (cur ≤ doubled cur fuel n ∧ n ≤ doubled cur fuel n)
  | 0, n, _, hlt, hge => by omega
  | fuel + 1, n, hpos, hlt, hge => by
      rw [doubled]
      split_ifs with hcond
      · by_cases hover : 2 * n < 2 ^ 31
        · have hdouble : toPsIndex (2 * n) = 2 * n := by
            rw [toPsIndex, Int.bmod_def]
            split_ifs <;> omega
          have hge' : 2 ^ 31 ≤ 2 * n * 2 ^ fuel := by
            have hpow : n * 2 ^ (fuel + 1) = 2 * n * 2 ^ fuel := by
              rw [Int.pow_succ]
              grind
            exact hpow ▸ hge
          rw [hdouble]
          rcases doubled_ends cur fuel (2 * n) (by omega) hover hge' with h | h
          · exact .inl h
          · exact .inr ⟨h.1, by omega⟩
        · have hneg : toPsIndex (2 * n) < 0 := by
            rw [toPsIndex, Int.bmod_def]
            split_ifs <;> omega
          have hstop : doubled cur fuel (toPsIndex (2 * n)) = toPsIndex (2 * n) := by
            cases fuel with
            | zero => rfl
            | succ fuel => exact if_neg fun h => by omega
          exact .inl (by omega)
      · exact .inr ⟨by omega, Int.le_refl n⟩

/-- `nsize` is positive, and at most the hard cap. -/
theorem sizes_pos : 0 < s.sizes.1 ∧ s.sizes.1 ≤ maxChildMax := by
  simp only [sizes, maxChildMax]
  split_ifs <;> constructor <;> omega

/-- A ring that is to grow, and may, does. -/
theorem lt_sizes (hmax : s.nalloc ≤ maxChildMax) (hcur : (s.nalloc : ℤ) < s.nsizeCur)
    (hnsize : (s.nalloc : ℤ) < s.sizes.2) : (s.nalloc : ℤ) < s.sizes.1 := by
  simp only [maxChildMax] at hmax
  have hbase : 0 < (if s.nalloc = 0 then (bgpidsTableSz : ℤ) else s.nalloc) ∧
      (if s.nalloc = 0 then (bgpidsTableSz : ℤ) else s.nalloc) < 2 ^ 31 := by
    simp only [bgpidsTableSz]
    split_ifs <;> constructor <;> omega
  have hends := doubled_ends s.nsizeCur 32 _ hbase.1 hbase.2 (by omega)
  simp only [sizes] at hnsize ⊢
  generalize doubled s.nsizeCur 32 _ = nsize at hends hnsize ⊢
  split_ifs at hnsize ⊢ <;> simp only at hnsize ⊢ <;> omega

/-! ## The operations -/

/-- What every operation keeps. -/
structure Intact (s : BgpState) : Prop where
  head : s.head ≤ s.nalloc
  nalloc : s.nalloc ≤ maxChildMax
  chained : s.nalloc ≠ 0 → s.Chained

/-- The table of an arena with no live cell. -/
theorem chain_of_free (htable : ∀ b, s.pidstatTable b = none)
    (hfree : ∀ psi < s.nalloc, s.pidOf psi = noPid) (b : Fin pidstatTableSz) : s.Chain b [] :=
  ⟨List.nodup_nil, htable b, fun psi => by
    simp only [List.not_mem_nil, false_iff]
    exact fun h => h.1.2 (hfree psi h.1.1)⟩

/-- A ring grows by cells that are free. -/
theorem Chain.grown {t : BgpState} {b : Fin pidstatTableSz} {l : List ℕ} (hl : s.Chain b l)
    (hnalloc : s.nalloc ≤ t.nalloc) (htable : t.pidstatTable = s.pidstatTable)
    (hold : ∀ psi < s.nalloc, t.storage psi = s.storage psi)
    (hnew : ∀ psi, s.nalloc ≤ psi → psi < t.nalloc → t.pidOf psi = noPid) : t.Chain b l := by
  refine ⟨hl.nodup, ?_, fun psi => ?_⟩
  · rw [htable]
    refine hl.linked.congr fun psi hpsi => ?_
    have hstorage := hold psi ((hl.mem psi).mp hpsi).1.1
    exact ⟨congrArg Pidstat.bucketNext hstorage, congrArg Pidstat.bucketPrev hstorage⟩
  · rw [hl.mem]
    by_cases hpsi : psi < s.nalloc
    · have hpid : t.pidOf psi = s.pidOf psi := congrArg Pidstat.pid (hold psi hpsi)
      simp only [Live, hpid, hpsi, Nat.lt_of_lt_of_le hpsi hnalloc]
    · have hfree := hnew psi (Nat.le_of_not_lt hpsi)
      simp only [Live, hpsi, false_and, false_iff]
      exact fun hlive => hlive.1.2 (hfree hlive.1.1)

/-- The ring's head and the counts are no part of the chains. -/
theorem Chain.same {t : BgpState} {b : Fin pidstatTableSz} {l : List ℕ} (hl : s.Chain b l)
    (hnalloc : t.nalloc = s.nalloc) (htable : t.pidstatTable = s.pidstatTable)
    (hstorage : t.storage = s.storage) : t.Chain b l :=
  hl.grown (by omega) htable (fun _ _ => by rw [hstorage]) fun _ _ _ => by omega

theorem chained_of_same {t : BgpState} (h : s.Chained) (hnalloc : t.nalloc = s.nalloc)
    (htable : t.pidstatTable = s.pidstatTable) (hstorage : t.storage = s.storage) : t.Chained :=
  fun b => (h b).imp fun _ hl => hl.same hnalloc htable hstorage

theorem intact_bgpResize (h : s.Intact) (fresh : ℕ → Pidstat) :
    (s.bgpResize fresh).Intact ∧
      (toPsIndex s.childmax ≠ 0 → (s.bgpResize fresh).head < (s.bgpResize fresh).nalloc) := by
  have hpos := s.sizes_pos
  have hmax := h.nalloc
  have hhead := h.head
  have hcur : s.nsizeCur = 0 ↔ toPsIndex s.childmax = 0 := by
    rw [nsizeCur]
    split_ifs
    · simp only [maxChildMax]
      omega
    · rfl
  by_cases hzero : s.nalloc = 0
  · -- the table is emptied first
    rw [bgpResize, if_pos hzero]
    have hwrap : (0 : ℕ) ≥ s.nalloc := Nat.le_of_eq hzero
    simp only
    rw [if_pos hwrap]
    split_ifs with hgrow
    · refine ⟨⟨Nat.zero_le _, by simp only; omega, fun _ => ?_⟩, fun _ => by simp only; omega⟩
      refine fun b => ⟨[], chain_of_free (fun _ => rfl) (fun psi _ => ?_) b⟩
      simp only [pidOf, hzero, Nat.not_lt_zero, if_false]
    · refine ⟨⟨Nat.zero_le _, hmax, fun hne => absurd hzero hne⟩, fun hne => ?_⟩
      have hlt : (s.nalloc : ℤ) < s.nsizeCur := by
        have := mt hcur.mp hne
        have hnonneg : 0 ≤ s.nsizeCur := by
          rw [nsizeCur]
          split_ifs <;> omega
        omega
      refine absurd ⟨hlt, ?_⟩ hgrow
      have : 0 < s.sizes.2 := by
        simp only [sizes, maxChildMax]
        split_ifs <;> simp only <;> omega
      omega
  · rw [bgpResize, if_neg hzero]
    split_ifs with hgrow hwrap
    · have hlt := lt_sizes hmax hgrow.1 hgrow.2
      refine ⟨⟨by simp only; omega, by simp only; omega, fun _ => ?_⟩, fun _ => by simp only; omega⟩
      refine fun b => (h.chained hzero b).imp fun l hl =>
        hl.grown (by simp only; omega) rfl (fun psi hpsi => ?_) fun psi hpsi _ => ?_
      · exact if_pos hpsi
      · simp only [pidOf, Nat.not_lt.mpr hpsi, if_false]
    · exact ⟨⟨Nat.zero_le _, hmax, fun _ => chained_of_same (h.chained hzero) rfl rfl rfl⟩,
        fun _ => Nat.pos_of_ne_zero hzero⟩
    · exact ⟨h, fun _ => Nat.lt_of_not_le hwrap⟩

/-- The cell that the ring gives out is allocated and free. -/
theorem bgpGetindex_spec (h : s.Intact) (fresh : ℕ → Pidstat)
    (hchildmax : toPsIndex s.childmax ≠ 0) :
    (s.bgpGetindex fresh).2.Intact ∧
      (s.bgpGetindex fresh).1 < (s.bgpGetindex fresh).2.nalloc ∧
      (s.bgpGetindex fresh).2.pidOf (s.bgpGetindex fresh).1 = noPid := by
  obtain ⟨t, ht, htIntact, hlt⟩ : ∃ t,
      t = (if s.nalloc < toPsIndex s.childmax ∨ s.head ≥ s.nalloc then s.bgpResize fresh else s) ∧
      t.Intact ∧ t.head < t.nalloc := by
    refine ⟨_, rfl, ?_⟩
    split_ifs with hresize
    · have hspec := intact_bgpResize h fresh
      exact ⟨hspec.1, hspec.2 hchildmax⟩
    · exact ⟨h, Nat.lt_of_not_le fun hle => hresize (.inr hle)⟩
  have hget : s.bgpGetindex fresh =
      (t.head, { t.pshashDelindex t.head with head := t.head + 1 }) := by rw [ht]; rfl
  have hsame := (sameCounters_pshashDelindex : t.SameCounters (t.pshashDelindex t.head))
  have hchained := chained_pshashDelindex (htIntact.chained (by omega)) hlt
  have hfree := free_pshashDelindex (htIntact.chained (by omega)) hlt
  rw [hget]
  refine ⟨⟨?_, ?_, fun _ => chained_of_same hchained rfl rfl rfl⟩, ?_, hfree⟩
  · simp only [hsame.nalloc]
    exact hlt
  · simp only [hsame.nalloc]
    exact htIntact.nalloc
  · simp only [hsame.nalloc]
    exact hlt

theorem sameCounters_linkHead : s.SameCounters (s.linkHead psi) := by
  rw [linkHead]
  split <;> exact ⟨rfl, rfl, rfl, rfl⟩

theorem pidOf_linkHead (i : ℕ) : (s.linkHead psi).pidOf i = s.pidOf i := by
  rw [linkHead]
  split
  · exact pidOf_setPrev ..
  · rfl

theorem nextOf_linkHead (i : ℕ) : (s.linkHead psi).nextOf i = s.nextOf i := by
  rw [linkHead]
  split
  · exact nextOf_setPrev ..
  · rfl

theorem prevOf_linkHead (i : ℕ) :
    (s.linkHead psi).prevOf i = if s.nextOf psi = some i then some psi else s.prevOf i := by
  rw [linkHead]
  cases hn : (s.storage psi).bucketNext with
  | none => simp [nextOf, hn]
  | some n =>
      rw [prevOf_setPrev]
      exact ite_congr (propext (by rw [nextOf, hn, Option.some.injEq]; exact eq_comm))
        (fun _ => rfl) fun _ => rfl

theorem pidstatTable_linkHead : (s.linkHead psi).pidstatTable = s.pidstatTable := by
  rw [linkHead]
  split <;> rfl

theorem pushed_writeStatus (pid status : ℤ)
    (hhead : s.pidstatTable (pshashGetbucket pid) ≠ some psi) :
    s.Pushed (s.writeStatus psi pid status) psi pid := by
  rw [writeStatus]
  generalize hcell : (Pidstat.mk _ _ _ _) = ps
  generalize ht : ({ s.setCell psi ps with npid := (s.setCell psi ps).npid + 1 } : BgpState) = t
  have hstorage : ∀ i, t.storage i = if i = psi then ps else s.storage i := fun i => by
    rw [← ht]
    exact storage_setCell s psi i ps
  have hnext : t.nextOf psi = s.pidstatTable (pshashGetbucket pid) := by
    rw [nextOf, hstorage, if_pos rfl, ← hcell]
  have htable : t.pidstatTable = s.pidstatTable := by rw [← ht]; rfl
  refine ⟨?_, fun i => ?_, ?_, ?_, fun i hi => ?_, fun i hi => ?_, fun b => ?_⟩
  · exact sameCounters_linkHead.nalloc.trans (by rw [← ht]; rfl)
  · refine (pidOf_linkHead i).trans ?_
    rw [pidOf, hstorage]
    split_ifs
    · rw [← hcell]
    · rfl
  · exact (nextOf_linkHead psi).trans hnext
  · refine (prevOf_linkHead psi).trans ?_
    rw [hnext, if_neg hhead, prevOf, hstorage, if_pos rfl, ← hcell]
  · refine (nextOf_linkHead i).trans ?_
    rw [nextOf, hstorage, if_neg hi]
    rfl
  · refine (prevOf_linkHead i).trans ?_
    rw [hnext, prevOf, hstorage, if_neg hi]
    rfl
  · rw [pidstatTable_setBucket, pidstatTable_linkHead, htable]

theorem head_writeStatus (pid status : ℤ) : (s.writeStatus psi pid status).head = s.head := by
  exact sameCounters_linkHead.head

/-- A free cell heads no chain. -/
theorem Intact.start_ne (h : s.Intact) (hpsi : psi < s.nalloc) (hfree : s.pidOf psi = noPid)
    (b : Fin pidstatTableSz) : s.pidstatTable b ≠ some psi := by
  intro heq
  obtain ⟨l, hl⟩ := h.chained (Nat.ne_of_gt (Nat.zero_lt_of_lt hpsi)) b
  exact ((hl.mem _).mp (hl.linked.start_mem heq)).1.2 hfree

/-- The first cell that the ring gives out is taken. -/
theorem bgpAdd_eq (h : s.Intact) (pid status : ℤ) (fresh : ℕ → Pidstat)
    (hchildmax : toPsIndex s.childmax ≠ 0) : s.bgpAdd pid status fresh =
      (s.bgpGetindex fresh).2.writeStatus (s.bgpGetindex fresh).1 pid status := by
  obtain ⟨hintact, hlt, hfree⟩ := bgpGetindex_spec h fresh hchildmax
  simp only [bgpAdd, if_neg (hintact.start_ne hlt hfree _).symm]

theorem intact_bgpAdd (h : s.Intact) (pid status : ℤ) (fresh : ℕ → Pidstat) (hpid : pid ≠ noPid)
    (hchildmax : toPsIndex s.childmax ≠ 0) : (s.bgpAdd pid status fresh).Intact := by
  obtain ⟨hintact, hlt, hfree⟩ := bgpGetindex_spec h fresh hchildmax
  have hchained := hintact.chained (by omega)
  have hpushed := pushed_writeStatus pid status (hintact.start_ne hlt hfree _)
  rw [bgpAdd_eq h pid status fresh hchildmax]
  refine ⟨?_, ?_, fun _ => hpushed.chained hchained hlt hfree hpid⟩
  · rw [head_writeStatus, hpushed.nalloc]
    exact hintact.head
  · rw [hpushed.nalloc]
    exact hintact.nalloc

/-! ## Searches -/

/-- A search answers with the first cell of the chain that has the pid. -/
theorem searchChain_linked {l : List ℕ} {before start : Option ℕ} {orig fuel : ℕ} (pid : ℤ)
    (h : Linked s.nextOf s.prevOf before start l) (horig : orig ∉ l.tail) (hfuel : l.length < fuel) :
    s.searchChain pid (some orig) fuel start = some
      (match l.find? (fun psi => s.pidOf psi = pid) with
        | some psi => .cell psi
        | none => .missing) := by
  induction l generalizing before start fuel with
  | nil =>
      obtain ⟨fuel, rfl⟩ := Nat.exists_eq_add_one_of_ne_zero (Nat.ne_of_gt hfuel)
      rw [show start = none from h]
      rfl
  | cons psi l ih =>
      obtain ⟨fuel, rfl⟩ := Nat.exists_eq_add_one_of_ne_zero (Nat.ne_of_gt (Nat.zero_lt_of_lt hfuel))
      rw [h.1, searchChain]
      by_cases hpid : (s.storage psi).pid = pid
      · have hfirst : decide (s.pidOf psi = pid) = true := decide_eq_true hpid
        simp only [if_pos hpid, List.find?_cons, hfirst]
      · have hnext : some orig ≠ s.nextOf psi := fun heq => horig (h.2.2.start_mem heq.symm)
        have hfirst : decide (s.pidOf psi = pid) = false := decide_eq_false hpid
        simp only [if_neg hpid, List.find?_cons, hfirst]
        refine (if_neg hnext).trans ?_
        exact ih h.2.2 (fun hmem => horig (List.mem_of_mem_tail hmem)) (Nat.lt_of_succ_lt_succ hfuel)

theorem Chain.length_le {l : List ℕ} {b : Fin pidstatTableSz} (h : s.Chain b l) :
    l.length ≤ s.nalloc := by
  have hsub : l ⊆ List.range s.nalloc := fun psi hpsi =>
    List.mem_range.mpr ((h.mem psi).mp hpsi).1.1
  simpa using (h.nodup.subperm hsub).length_le

theorem searchBucket_chain {l : List ℕ} {pid : ℤ} {fuel : ℕ}
    (h : Linked s.nextOf s.prevOf none (s.pidstatTable (pshashGetbucket pid)) l)
    (hnodup : l.Nodup) (hfuel : l.length < fuel) :
    s.searchBucket pid fuel = some
      (match l.find? (fun psi => s.pidOf psi = pid) with
        | some psi => .cell psi
        | none => .missing) := by
  rw [searchBucket]
  cases l with
  | nil =>
      obtain ⟨fuel, rfl⟩ := Nat.exists_eq_add_one_of_ne_zero (Nat.ne_of_gt hfuel)
      rw [show s.pidstatTable (pshashGetbucket pid) = none from h]
      rfl
  | cons psi l =>
      have hlinked := h
      rw [h.1] at hlinked ⊢
      exact searchChain_linked pid hlinked (List.nodup_cons.mp hnodup).1 hfuel

/-- Two states with the same chains that may differ in the cells that are not live. -/
structure SameLive (s t : BgpState) : Prop where
  nalloc : t.nalloc = s.nalloc
  npid : t.npid = s.npid
  table : t.pidstatTable = s.pidstatTable
  live : ∀ psi, s.Live psi → t.storage psi = s.storage psi

/-- The search for a pid and its deletion end, and follow live cells only. -/
structure SearchesLive (s : BgpState) (pid : ℤ) (fuel : ℕ) : Prop where
  searched : ∃ r, s.bgpSearch pid fuel = some r
  deleted : ∃ t, s.bgpDelete pid fuel = some t
  live : ∀ t, s.SameLive t → t.bgpSearch pid fuel = s.bgpSearch pid fuel ∧
    (s.nalloc ≠ 0 → t.searchBucket pid fuel = s.searchBucket pid fuel)

theorem searchBucket_found (h : s.Chained) (pid : ℤ) {fuel : ℕ} (hfuel : s.nalloc < fuel) :
    ∃ found, s.searchBucket pid fuel = some found ∧ (∀ psi, found = .cell psi → s.Live psi) ∧
      ∀ t, s.SameLive t → t.searchBucket pid fuel = some found := by
  obtain ⟨l, hl⟩ := h (pshashGetbucket pid)
  have hlength := hl.length_le
  refine ⟨_, searchBucket_chain hl.linked hl.nodup (by omega), fun psi hpsi => ?_, fun t ht => ?_⟩
  · split at hpsi
    · next psi' hfind =>
        cases hpsi
        exact ((hl.mem psi).mp (List.mem_of_find?_eq_some hfind)).1
    · cases hpsi
  · have hstorage : ∀ psi ∈ l, t.storage psi = s.storage psi := fun psi hpsi =>
      ht.live psi ((hl.mem psi).mp hpsi).1
    have hlinked : Linked t.nextOf t.prevOf none (t.pidstatTable (pshashGetbucket pid)) l := by
      rw [ht.table]
      exact hl.linked.congr fun psi hpsi => ⟨congrArg Pidstat.bucketNext (hstorage psi hpsi),
        congrArg Pidstat.bucketPrev (hstorage psi hpsi)⟩
    rw [searchBucket_chain hlinked hl.nodup (by omega)]
    have hfind : l.find? (fun psi => t.pidOf psi = pid) = l.find? (fun psi => s.pidOf psi = pid) :=
      List.find?_congr fun psi hpsi => by rw [pidOf, hstorage psi hpsi, pidOf]
    rw [hfind]

theorem searchesLive (h : s.nalloc ≠ 0 → s.Chained) (pid : ℤ) {fuel : ℕ}
    (hfuel : s.nalloc < fuel) : s.SearchesLive pid fuel := by
  by_cases hzero : s.nalloc = 0
  · have hnone : ∀ t : BgpState, t.nalloc = 0 → t.bgpSearch pid fuel = some (-1) := fun t ht =>
      if_pos (.inl ht)
    refine ⟨⟨-1, hnone s hzero⟩, ⟨s, if_pos (.inl hzero)⟩, fun t ht => ⟨?_, (absurd hzero ·)⟩⟩
    rw [hnone s hzero, hnone t (ht.nalloc.trans hzero)]
  · obtain ⟨found, hfound, hcell, hsame⟩ := searchBucket_found (h hzero) pid hfuel
    refine ⟨?_, ?_, fun t ht => ⟨?_, fun _ => (hsame t ht).trans hfound.symm⟩⟩
    · rw [bgpSearch, hfound]
      split <;> exact ⟨_, rfl⟩
    · rw [bgpDelete, hfound]
      split <;> exact ⟨_, rfl⟩
    · rw [bgpSearch, bgpSearch, hsame t ht, hfound, ht.nalloc, ht.npid]
      refine if_congr Iff.rfl rfl ?_
      cases found with
      | cell psi => simp only [Option.map_some, ht.live psi (hcell psi rfl)]
      | missing => rfl
      | loop => rfl

theorem intact_bgpDelete (h : s.Intact) {pid : ℤ} {fuel : ℕ} (hfuel : s.nalloc < fuel) :
    ∃ t, s.bgpDelete pid fuel = some t ∧ t.Intact := by
  rw [bgpDelete]
  split_ifs with hguard
  · exact ⟨s, rfl, h⟩
  · have hne : s.nalloc ≠ 0 := fun hzero => hguard (.inl hzero)
    obtain ⟨found, hfound, hcell, -⟩ := searchBucket_found (h.chained hne) pid hfuel
    refine ⟨_, by rw [hfound]; rfl, ?_⟩
    cases found with
    | cell psi =>
        have hsame := (sameCounters_pshashDelindex : s.SameCounters (s.pshashDelindex psi))
        have hchained := chained_pshashDelindex (h.chained hne) (hcell psi rfl).1
        refine ⟨?_, ?_, fun _ => chained_of_same hchained rfl rfl rfl⟩
        · simp only [hsame.head, hsame.nalloc]
          exact h.head
        · simp only [hsame.nalloc]
          exact h.nalloc
    | missing => exact h
    | loop => exact h

theorem intact_bgpClear (h : s.Intact) : s.bgpClear.Intact := by
  rw [bgpClear]
  split
  · exact h
  · exact ⟨Nat.le_refl 0, Nat.zero_le _, fun hne => absurd rfl hne⟩

end BgpState

/-! ## Runs -/

/-- A process ID is added, and the number of children that may run is not 0. -/
def Conforms (s : BgpState) : BgpOp → Prop
  | .add pid _ _ => pid ≠ noPid ∧ toPsIndex s.childmax ≠ 0
  | _ => True

theorem intact_step {s : BgpState} {op : BgpOp} (h : s.Intact) (hop : Conforms s op) :
    ∃ t, step s op = some t ∧ t.Intact := by
  cases op with
  | add pid status fresh => exact ⟨_, rfl, BgpState.intact_bgpAdd h pid status fresh hop.1 hop.2⟩
  | delete pid => exact BgpState.intact_bgpDelete h (Nat.lt_succ_self _)
  | search pid =>
      obtain ⟨r, hr⟩ :=
        (BgpState.searchesLive h.chained pid (Nat.lt_succ_self s.nalloc)).searched
      exact ⟨s, by rw [step, hr]; rfl, h⟩
  | clear => exact ⟨_, rfl, BgpState.intact_bgpClear h⟩
  | resize fresh => exact ⟨_, rfl, (BgpState.intact_bgpResize h fresh).1⟩
  | childmax n =>
      exact ⟨_, rfl, h.head, h.nalloc, fun hne => BgpState.chained_of_same (h.chained hne) rfl rfl rfl⟩

theorem intact_start : start.Intact := ⟨Nat.le_refl 0, Nat.zero_le _, fun hne => absurd rfl hne⟩

theorem intact_run {s : BgpState} (ops : List BgpOp) (h : s.Intact)
    (hops : Machine.PathMeets step Conforms s ops) :
    ∃ t, Machine.runPath step s ops = some t ∧ t.Intact := by
  induction ops generalizing s with
  | nil => exact ⟨s, rfl, h⟩
  | cons op ops ih =>
      obtain ⟨t, ht, htIntact⟩ := intact_step h hops.1
      obtain ⟨last, hlast, hIntact⟩ := ih htIntact (hops.2 t ht)
      exact ⟨last, by rw [Machine.runPath, ht]; exact hlast, hIntact⟩

/-- After any operations on the table, while it has cells, its chains are intact; and the
searches end, on live cells. -/
theorem bgpids_chained (ops : List BgpOp) (hops : Machine.PathMeets step Conforms start ops) :
    ∃ s, Machine.runPath step start ops = some s ∧ (s.nalloc ≠ 0 → s.Chained) ∧
      ∀ pid fuel, s.nalloc < fuel → s.SearchesLive pid fuel := by
  obtain ⟨s, hs, hintact⟩ := intact_run ops intact_start hops
  exact ⟨s, hs, hintact.chained, fun pid _ hfuel => BgpState.searchesLive hintact.chained pid hfuel⟩

instance (s : BgpState) : (op : BgpOp) → Decidable (Conforms s op)
  | .add _ _ _ => inferInstanceAs (Decidable (_ ∧ _))
  | .delete _ => isTrue trivial
  | .search _ => isTrue trivial
  | .clear => isTrue trivial
  | .resize _ => isTrue trivial
  | .childmax _ => isTrue trivial

/-- What the memory of new cells may hold. -/
def zeroed (_ : ℕ) : Pidstat := ⟨some 0, some 0, 0, 0⟩

/-- Two pids of one hash value are added, and the first deleted. -/
theorem bgpids_chained_samePids :
    ∃ s, Machine.runPath step start
        [.childmax 4, .add 7 0 zeroed, .add 4103 1 zeroed, .delete 7] = some s ∧
      (s.nalloc ≠ 0 → s.Chained) ∧ ∀ pid fuel, s.nalloc < fuel → s.SearchesLive pid fuel :=
  bgpids_chained _ (by decide +kernel)

/-- The chains are not intact while the table has no cells, after `bgp_add` of what cannot be a
process ID, and where no child may run. -/
theorem bgpids_not_chained :
    (¬ ∀ ops s, Machine.runPath step start ops = some s → s.Chained) ∧
      (∃ s, Machine.runPath step start [.add 7 0 zeroed, .clear] = some s ∧ ¬ s.Chained) ∧
      (∃ s, Machine.runPath step start [.add noPid 0 zeroed] = some s ∧ s.nalloc ≠ 0 ∧
        ¬ s.Chained) ∧
      ∃ s, Machine.runPath step start [.childmax 0, .add 7 0 zeroed] = some s ∧ s.nalloc = 0 ∧
        s.storage 0 ≠ start.storage 0 := by
  -- a bucket that names a cell which is not live has no chain
  have hnot : ∀ (s : BgpState) b, s.pidstatTable b = some 0 → ¬ s.Live 0 → ¬ s.Chained := by
    intro s b hb hdead h
    obtain ⟨l, hl⟩ := h b
    exact hdead ((hl.mem 0).mp (hl.linked.start_mem hb)).1
  have hempty : ¬ start.Chained := hnot start ⟨0, by decide⟩ rfl fun h => absurd h.1 (by decide)
  refine ⟨fun h => hempty (h [] start rfl), ⟨_, rfl, ?_⟩, ⟨_, rfl, ?_, ?_⟩, _, rfl, ?_, ?_⟩
  · exact hnot _ (pshashGetbucket 7) (by decide +kernel) fun h => absurd h.1 (by decide +kernel)
  · decide +kernel
  · exact hnot _ (pshashGetbucket noPid) (by decide +kernel) fun h => absurd h.2 (by decide +kernel)
  · decide +kernel
  · decide +kernel

end Bgpids

end Rash
