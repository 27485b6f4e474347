import Rash.Jobs.BgpidsCells

/-!
# The latest status of a pid

The table against the list of what it holds, the latest first: a `bgp_add` puts an entry before
the others and loses the one that the ring has come round to, `bgp_delete` takes out the first
entry of the pid.  From it, what a search answers after any adds and deletes.
-/

namespace Rash

namespace Bgpids

open BgpState

/-! ## The list of what is saved -/

/-- What one `bgp_add` saved; the adds are counted from 0. -/
structure Saved where
  number : ℕ
  pid : ℤ
  status : ℤ

def addEntry (cap n : ℕ) (pid status : ℤ) (es : List Saved) : List Saved :=
  ⟨n, pid, status⟩ :: es.filter fun e => n < e.number + cap

def findEntry (pid : ℤ) (es : List Saved) : Option Saved := es.find? fun e => e.pid = pid

def deleteEntry (pid : ℤ) (es : List Saved) : List Saved :=
  match findEntry pid es with
  | none => es
  | some e => es.filter fun e' => e'.number ≠ e.number

/-- How many adds there were, and what is held, behind operations with the latest first. -/
def saved (cap : ℕ) : List BgpOp → ℕ × List Saved
  | [] => (0, [])
  | .add pid status _ :: ops =>
      ((saved cap ops).1 + 1, addEntry cap (saved cap ops).1 pid status (saved cap ops).2)
  | .delete pid :: ops => ((saved cap ops).1, deleteEntry pid (saved cap ops).2)
  | _ :: ops => saved cap ops

/-! ## The size of the ring -/

namespace BgpState

variable {s : BgpState} {psi n : ℕ} {pid c : ℤ} {es : List Saved}

theorem sizes_enough (hmax : s.nalloc ≤ maxChildMax) :
    s.nsizeCur ≤ s.sizes.1 ∨ s.sizes.1 = maxChildMax := by
  simp only [maxChildMax] at hmax ⊢
  have hbase : 0 < (if s.nalloc = 0 then (bgpidsTableSz : ℤ) else s.nalloc) ∧
      (if s.nalloc = 0 then (bgpidsTableSz : ℤ) else s.nalloc) < 2 ^ 31 := by
    simp only [bgpidsTableSz]
    split_ifs <;> constructor <;> omega
  have hends := doubled_ends s.nsizeCur 32 _ hbase.1 hbase.2 (by omega)
  simp only [sizes, maxChildMax]
  generalize doubled s.nsizeCur 32 _ = nsize at hends ⊢
  split_ifs <;> simp only <;> first | exact .inr trivial | omega

/-- The table before the first add. -/
def started (c : ℤ) : BgpState := { start with childmax := c }

/-- The number of cells, from the first add on. -/
def capacity (c : ℤ) : ℕ := (started c).sizes.1.toNat

theorem capacity_pos (c : ℤ) : 0 < capacity c := by
  have := (started c).sizes_pos
  rw [capacity]
  omega

theorem sizes_eq (hnalloc : s.nalloc = 0) (hchildmax : s.childmax = c) :
    s.sizes = (started c).sizes := by
  unfold sizes nsizeCur
  rw [hnalloc, hchildmax]
  rfl

/-- The first add allocates the ring. -/
theorem resized_first (hnalloc : s.nalloc = 0) (hchildmax : s.childmax = c)
    (hc : toPsIndex c ≠ 0) (h : s.Intact) (fresh : ℕ → Pidstat) :
    (s.resized fresh).nalloc = capacity c ∧ (s.resized fresh).head = 0 ∧
      ∀ b, (s.resized fresh).Chain b [] := by
  have hhead := h.head
  have hresized : s.resized fresh = s.bgpResize fresh := if_pos (.inr (by omega))
  have hlt := (intact_bgpResize h fresh).2 (by rwa [hchildmax])
  rw [hresized]
  rw [bgpResize, if_pos hnalloc] at hlt ⊢
  dsimp only at hlt ⊢
  by_cases hgrow : (s.nalloc : ℤ) < s.nsizeCur ∧ (s.nalloc : ℤ) < s.sizes.2
  · rw [if_pos hgrow]
    refine ⟨congrArg (fun p : ℤ × ℤ => p.1.toNat) (sizes_eq hnalloc hchildmax), rfl, ?_⟩
    refine chain_of_free (fun _ => rfl) fun psi _ => ?_
    simp only [pidOf, hnalloc, Nat.not_lt_zero, if_false]
  · rw [if_neg hgrow, if_pos (by omega)] at hlt
    exact absurd hlt (by dsimp only; omega)

/-- From then on it is as large as it gets. -/
theorem resized_later (hnalloc : s.nalloc = capacity c) (hchildmax : s.childmax = c) (h : s.Intact)
    (fresh : ℕ → Pidstat) :
    (s.resized fresh).nalloc = s.nalloc ∧
      (s.resized fresh).head = (if s.head ≥ s.nalloc then 0 else s.head) ∧
      (s.resized fresh).pidstatTable = s.pidstatTable ∧
      (s.resized fresh).storage = s.storage := by
  have hpos := capacity_pos c
  have hmax := h.nalloc
  have hfirst := (started c).sizes_pos
  have hcap : (s.nalloc : ℤ) = (started c).sizes.1 := by
    rw [hnalloc, capacity]
    omega
  have hcur : s.nsizeCur = (started c).nsizeCur := by
    unfold nsizeCur
    rw [hchildmax]
    rfl
  have hstop : ¬((s.nalloc : ℤ) < s.nsizeCur ∧ (s.nalloc : ℤ) < s.sizes.2) := by
    rintro ⟨hlt, hlt'⟩
    have hgrown := lt_sizes hmax hlt hlt'
    have hhard := s.sizes_pos
    obtain henough | hfull := (started c).sizes_enough (Nat.zero_le _)
    · omega
    · omega
  unfold resized bgpResize
  dsimp only
  rw [if_neg (show ¬s.nalloc = 0 by omega), if_neg hstop]
  split_ifs <;> first | exact ⟨rfl, rfl, rfl, rfl⟩ | omega

/-! ## The table holds the list -/

/-- The cell of an entry. -/
def cell (c : ℤ) (e : Saved) : ℕ := e.number % capacity c

def cellsOf (c : ℤ) (es : List Saved) (b : Fin pidstatTableSz) : List ℕ :=
  (es.filter fun e => pshashGetbucket e.pid = b).map (cell c)

/-- The entries are those of the last adds, as many as the ring has cells. -/
def Recent (c : ℤ) (n : ℕ) (es : List Saved) : Prop :=
  ∀ e ∈ es, e.number < n ∧ n ≤ e.number + capacity c

structure Holds (c : ℤ) (n : ℕ) (es : List Saved) (s : BgpState) : Prop where
  intact : s.Intact
  childmax : s.childmax = c
  ring : s.nalloc = 0 ∧ n = 0 ∧ es = [] ∨
    s.nalloc = capacity c ∧ s.head % capacity c = n % capacity c
  recent : Recent c n es
  npid : (es.length : ℤ) ≤ s.npid
  chains : s.nalloc ≠ 0 → ∀ b, s.Chain b (cellsOf c es b)
  held : ∀ e ∈ es, s.pidOf (cell c e) = e.pid ∧ s.statusOf (cell c e) = (e.status % 2 ^ 16).toNat

theorem holds_started (c : ℤ) : Holds c 0 [] (started c) where
  intact := ⟨Nat.le_refl 0, Nat.zero_le _, fun hne => absurd rfl hne⟩
  childmax := rfl
  ring := .inl ⟨rfl, rfl, rfl⟩
  recent _ he := by cases he
  npid := Int.le_refl 0
  chains hne := absurd rfl hne
  held _ he := by cases he

/-- Two adds that are no further apart than the ring is long have different cells. -/
theorem cell_inj {cap i j : ℕ} (hij : i ≤ j) (hwindow : j < i + cap) (h : i % cap = j % cap) :
    i = j := by
  have hmod : (j - i) % cap = 0 := Nat.sub_mod_eq_zero_of_mod_eq h.symm
  have hzero : j - i = 0 := Nat.eq_zero_of_dvd_of_lt (Nat.dvd_of_mod_eq_zero hmod) (by omega)
  omega

theorem Recent.inj (h : Recent c n es) {e e' : Saved} (he : e ∈ es) (he' : e' ∈ es)
    (hcell : cell c e = cell c e') : e.number = e'.number := by
  have hrecent := h e he
  have hrecent' := h e' he'
  rcases Nat.le_total e.number e'.number with hle | hle
  · exact cell_inj hle (by omega) hcell
  · exact (cell_inj hle (by omega) hcell.symm).symm

theorem findEntry_some {e : Saved} (h : findEntry pid es = some e) : e ∈ es ∧ e.pid = pid :=
  ⟨List.mem_of_find?_eq_some h, 
    of_decide_eq_true (List.find?_some (p := fun e : Saved => decide (e.pid = pid)) h)⟩

theorem cellsOf_filter {q : Saved → Bool} {b : Fin pidstatTableSz} (hnodup : (cellsOf c es b).Nodup)
    (hq : ∀ e ∈ es, q e = true ↔ cell c e ≠ psi) :
    cellsOf c (es.filter q) b = (cellsOf c es b).erase psi := by
  rw [hnodup.erase_eq_filter, cellsOf, cellsOf, List.filter_map, List.filter_filter,
    List.filter_filter]
  refine congrArg (List.map (cell c)) (List.filter_congr fun e he => ?_)
  rw [Bool.and_comm]
  congr 1
  rw [Bool.eq_iff_iff, hq e he, Function.comp_apply, bne_iff_ne]

theorem cellsOf_cons (e : Saved) (es : List Saved) (b : Fin pidstatTableSz) :
    cellsOf c (e :: es) b =
      if b = pshashGetbucket e.pid then cell c e :: cellsOf c es b else cellsOf c es b := by
  rw [cellsOf, List.filter_cons]
  by_cases hb : pshashGetbucket e.pid = b
  · rw [if_pos (decide_eq_true hb), if_pos hb.symm]
    rfl
  · rw [if_neg (by simpa using hb), if_neg fun h => hb h.symm]
    rfl

/-- The cell that the ring has come round to is that of the entry that is lost. -/
theorem lost_iff {e : Saved} (hrecent : e.number < n ∧ n ≤ e.number + capacity c) :
    decide (n < e.number + capacity c) = true ↔ cell c e ≠ n % capacity c := by
  rw [decide_eq_true_iff, cell]
  constructor
  · intro hlt heq
    have := cell_inj hrecent.1.le hlt heq
    omega
  · intro hne
    refine lt_of_le_of_ne hrecent.2 fun heq => hne ?_
    rw [heq, Nat.add_mod_right]

/-- The ring before an add: the next cell is that of the number of the add. -/
theorem Holds.resized (h : Holds c n es s) (hc : toPsIndex c ≠ 0) (fresh : ℕ → Pidstat) :
    (s.resized fresh).nalloc = capacity c ∧ (s.resized fresh).head = n % capacity c ∧
      ∀ b, (s.resized fresh).Chain b (cellsOf c es b) := by
  obtain ⟨hnalloc, rfl, rfl⟩ | ⟨hnalloc, hhead⟩ := h.ring
  · obtain ⟨hnalloc', hhead', hchain⟩ := resized_first hnalloc h.childmax hc h.intact fresh
    exact ⟨hnalloc', hhead'.trans (Nat.zero_mod _).symm, hchain⟩
  · have hpos := capacity_pos c
    have hle := h.intact.head
    obtain ⟨hnalloc', hhead', htable, hstorage⟩ := resized_later hnalloc h.childmax h.intact fresh
    refine ⟨hnalloc'.trans hnalloc, hhead'.trans ?_,
      fun b => (h.chains (by omega) b).same hnalloc' htable hstorage⟩
    rw [← hhead]
    by_cases hwrap : s.head ≥ s.nalloc
    · rw [if_pos hwrap, show s.head = capacity c by omega, Nat.mod_self]
    · rw [if_neg hwrap, Nat.mod_eq_of_lt (by omega)]

theorem Holds.live (h : Holds c n es s) {e : Saved} (he : e ∈ es) : s.Live (cell c e) := by
  have hne : s.nalloc ≠ 0 := by
    obtain ⟨-, -, rfl⟩ | ⟨hnalloc, -⟩ := h.ring
    · cases he
    · have := capacity_pos c
      omega
  refine (((h.chains hne (pshashGetbucket e.pid)).mem _).mp (List.mem_map_of_mem ?_)).1
  exact List.mem_filter.mpr ⟨he, decide_eq_true rfl⟩

theorem holds_add (h : Holds c n es s) (hc : toPsIndex c ≠ 0) (hpid : pid ≠ noPid) (status : ℤ)
    (fresh : ℕ → Pidstat) :
    Holds c (n + 1) (addEntry (capacity c) n pid status es) (s.bgpAdd pid status fresh) := by
  have hcs : toPsIndex s.childmax ≠ 0 := by rwa [h.childmax]
  have hadded := added_bgpAdd h.intact status fresh hpid hcs
  obtain ⟨hnalloc, hhead, hchain⟩ := h.resized hc fresh
  have hpos := capacity_pos c
  have hlt : n % capacity c < capacity c := Nat.mod_lt _ hpos
  have hlost : ∀ e ∈ es, decide (n < e.number + capacity c) = true ↔ cell c e ≠ n % capacity c :=
    fun e he => lost_iff (h.recent e he)
  have hfinal : s.bgpAdd pid status fresh = _ := bgpAdd_eq h.intact pid status fresh hcs
  rw [bgpGetindex_eq, hhead] at hfinal
  rw [hhead] at hadded
  -- the chains behind the removal of the old cell and behind the new one
  have hinside : n % capacity c < (s.resized fresh).nalloc := hnalloc ▸ hlt
  have hremoved := fun b => (chain_pshashDelindex hchain hinside b).same
    (t := { (s.resized fresh).pshashDelindex (n % capacity c) with head := n % capacity c + 1 })
    rfl rfl rfl
  have hfree : BgpState.pidOf { (s.resized fresh).pshashDelindex (n % capacity c) with
      head := n % capacity c + 1 } (n % capacity c) = noPid :=
    (pidOf_pshashDelindex _).trans (if_pos rfl)
  have hcount : ((s.resized fresh).pshashDelindex (n % capacity c)).nalloc = capacity c :=
    sameCounters_pshashDelindex.nalloc.trans hnalloc
  have hstart : ∀ b, BgpState.pidstatTable { (s.resized fresh).pshashDelindex (n % capacity c) with
      head := n % capacity c + 1 } b ≠ some (n % capacity c) := fun b hb =>
    (((hremoved b).mem _).mp ((hremoved b).linked.start_mem hb)).1.2 hfree
  have hpushed := pushed_writeStatus pid status (hstart (pshashGetbucket pid))
  rw [← hfinal] at hpushed
  have hnew := hpushed.chain hremoved (lt_of_lt_of_eq hlt hcount.symm) hfree hpid
  refine ⟨hadded.intact, hadded.childmax.trans h.childmax, .inr ⟨?_, ?_⟩, ?_, ?_, fun _ b => ?_, ?_⟩
  · exact hpushed.nalloc.trans hcount
  · rw [hfinal, head_writeStatus, Nat.add_mod, Nat.mod_mod, ← Nat.add_mod]
  · intro e he
    rcases List.mem_cons.mp he with rfl | he
    · exact ⟨Nat.lt_succ_self n, by dsimp only; omega⟩
    · obtain ⟨he, hkept⟩ := List.mem_filter.mp he
      have := h.recent e he
      have := of_decide_eq_true hkept
      omega
  · have hle : (es.filter fun e => n < e.number + capacity c).length ≤ es.length :=
      List.length_filter_le _ _
    have hnpid := h.npid
    rw [hadded.npid, addEntry, List.length_cons]
    omega
  · rw [addEntry, cellsOf_cons, cellsOf_filter (hchain b).nodup hlost]
    exact hnew b
  · intro e he
    rcases List.mem_cons.mp he with rfl | he
    · exact hadded.self.2
    · obtain ⟨he, hkept⟩ := List.mem_filter.mp he
      have hne := (hlost e he).mp hkept
      have hlive := h.live he
      exact ⟨(hadded.pids _ hne hlive).trans (h.held e he).1,
        (hadded.status _ hne hlive).trans (h.held e he).2⟩

/-- The search of the table finds the cell of the first entry. -/
theorem Holds.searchBucket (h : Holds c n es s) (hne : s.nalloc ≠ 0) :
    s.searchBucket pid (s.nalloc + 1) = some
      (match findEntry pid es with
        | some e => .cell (cell c e)
        | none => .missing) := by
  have hchain := h.chains hne (pshashGetbucket pid)
  rw [searchBucket_chain hchain.linked hchain.nodup (Nat.lt_succ_of_le hchain.length_le)]
  have hfind : (cellsOf c es (pshashGetbucket pid)).find? (fun psi => s.pidOf psi = pid) =
      (findEntry pid es).map (cell c) := by
    rw [cellsOf, List.find?_map, List.find?_filter, findEntry]
    refine congrArg (Option.map (cell c)) (List.find?_congr fun e he => ?_)
    rw [Function.comp_apply, (h.held e he).1, Bool.eq_iff_iff]
    simp only [decide_eq_true_eq]
    exact ⟨And.right, fun heq => ⟨by rw [heq], heq⟩⟩
  rw [hfind]
  cases findEntry pid es <;> rfl

/-- Where a search returns at once there is nothing. -/
theorem Holds.eq_nil (h : Holds c n es s) (hnone : s.nalloc = 0 ∨ s.npid = 0) : es = [] := by
  rcases hnone with hnalloc | hnpid
  · obtain ⟨-, -, rfl⟩ | ⟨hcap, -⟩ := h.ring
    · rfl
    · have := capacity_pos c
      omega
  · have := h.npid
    exact List.length_eq_zero_iff.mp (by omega)

theorem holds_delete (h : Holds c n es s) (pid : ℤ) :
    ∃ t, s.bgpDelete pid (s.nalloc + 1) = some t ∧ Holds c n (deleteEntry pid es) t := by
  rw [bgpDelete]
  by_cases hnone : s.nalloc = 0 ∨ s.npid = 0
  · rw [if_pos hnone]
    obtain rfl := h.eq_nil hnone
    exact ⟨s, rfl, h⟩
  · have hne : s.nalloc ≠ 0 := fun hzero => hnone (.inl hzero)
    rw [if_neg hnone, h.searchBucket hne, deleteEntry]
    cases hfind : findEntry pid es with
    | none => exact ⟨s, rfl, h⟩
    | some e =>
        refine ⟨_, rfl, ?_⟩
        have he : e ∈ es := List.mem_of_find?_eq_some hfind
        obtain ⟨t, ht, hintact⟩ := @intact_bgpDelete _ h.intact pid _ (Nat.lt_succ_self s.nalloc)
        rw [bgpDelete, if_neg hnone, h.searchBucket hne, hfind] at ht
        cases ht
        have hcounters : s.SameCounters (s.pshashDelindex (cell c e)) :=
          sameCounters_pshashDelindex
        have hother : ∀ e' ∈ es, decide (e'.number ≠ e.number) = true ↔ cell c e' ≠ cell c e := by
          intro e' he'
          rw [decide_eq_true_iff, not_iff_not]
          exact ⟨fun heq => by rw [cell, cell, heq], h.recent.inj he' he⟩
        refine ⟨hintact, hcounters.childmax.trans h.childmax, ?_, fun e' he' => ?_, ?_,
          fun _ b => ?_, fun e' he' => ?_⟩
        · obtain ⟨-, -, rfl⟩ | ⟨hcap, hhead⟩ := h.ring
          · cases he
          · refine .inr ⟨hcounters.nalloc.trans hcap, ?_⟩
            rw [← hhead]
            exact congrArg (· % _) hcounters.head
        · exact h.recent e' (List.mem_filter.mp he').1
        · have hlt : (es.filter fun e' => e'.number ≠ e.number).length < es.length :=
            List.length_filter_lt_length_iff_exists.mpr ⟨e, he, by simp⟩
          have := h.npid
          dsimp only
          omega
        · rw [cellsOf_filter (h.chains hne b).nodup hother]
          exact (chain_pshashDelindex (h.chains hne) (h.live he).1 b).same rfl rfl rfl
        · obtain ⟨he', hkept⟩ := List.mem_filter.mp he'
          have hcell := (hother e' he').mp hkept
          exact ⟨((pidOf_pshashDelindex _).trans (if_neg hcell)).trans (h.held e' he').1,
            (statusOf_pshashDelindex _).trans (h.held e' he').2⟩

theorem holds_search (h : Holds c n es s) (pid : ℤ) : s.bgpSearch pid (s.nalloc + 1) = some
    (match findEntry pid es with
      | some e => e.status % 2 ^ 16
      | none => -1) := by
  rw [bgpSearch]
  by_cases hnone : s.nalloc = 0 ∨ s.npid = 0
  · rw [if_pos hnone]
    obtain rfl := h.eq_nil hnone
    rfl
  · rw [if_neg hnone, h.searchBucket fun hzero => hnone (.inl hzero)]
    cases hfind : findEntry pid es with
    | none => rfl
    | some e =>
        have hstatus := (h.held e (List.mem_of_find?_eq_some hfind)).2
        refine congrArg some ?_
        change ((s.statusOf (cell c e) : ℕ) : ℤ) = _
        rw [hstatus]
        exact Int.toNat_of_nonneg (Int.emod_nonneg _ (by decide))

end BgpState

/-! ## What a search should answer -/

/-- The status of the latest add of the pid that is neither deleted nor lost, with the adds that
the ring has room for, in operations with the latest first. -/
def latest (pid : ℤ) : ℕ → List BgpOp → ℤ
  | _, [] => -1
  | 0, .add _ _ _ :: _ => -1
  | room + 1, .add pid' status _ :: ops => if pid' = pid then status else latest pid room ops
  | room, .delete pid' :: ops => if pid' = pid then -1 else latest pid room ops
  | room, _ :: ops => latest pid room ops

/-- An operation of these runs, as the shell makes it: a process ID and an exit status. -/
def BgpOp.Saves : BgpOp → Prop
  | .add pid status _ => pid ≠ noPid ∧ 0 ≤ status ∧ status < 2 ^ 16
  | .delete _ => True
  | _ => False

/-- No two cells hold the pid that is deleted. -/
def DeletesOne (s : BgpState) : BgpOp → Prop
  | .delete pid => ∀ i j, s.Live i → s.Live j → s.pidOf i = pid → s.pidOf j = pid → i = j
  | _ => True

section

variable {c : ℤ} {n : ℕ} {es : List Saved} {s : BgpState} {pid : ℤ} {ops : List BgpOp}

/-- What a search answers, with the entry that it finds. -/
def answerOf : Option Saved → ℤ
  | some e => e.status
  | none => -1

/-- The list gives the answers, also when its earlier entries are left out. -/
def Answers (cap : ℕ) (ops : List BgpOp) : Prop :=
  ∀ pid room, room ≤ cap → answerOf (findEntry pid
    ((saved cap ops).2.filter fun e => (saved cap ops).1 ≤ e.number + room)) = latest pid room ops

theorem mem_deleteEntry {e : Saved} (h : e ∈ deleteEntry pid es) : e ∈ es := by
  unfold deleteEntry at h
  cases hfind : findEntry pid es with
  | none =>
      rw [hfind] at h
      exact h
  | some found =>
      rw [hfind] at h
      exact (List.mem_filter.mp h).1

theorem saved_statuses {cap : ℕ} (hops : ∀ op ∈ ops, op.Saves) :
    ∀ e ∈ (saved cap ops).2, 0 ≤ e.status ∧ e.status < 2 ^ 16 := by
  induction ops with
  | nil => exact fun e he => by cases he
  | cons op ops ih =>
      have hop := hops op List.mem_cons_self
      have hrest := ih fun op h => hops op (List.mem_cons_of_mem _ h)
      intro e he
      cases op with
      | add pid status fresh =>
          rcases List.mem_cons.mp he with rfl | he
          · exact hop.2
          · exact hrest e (List.mem_filter.mp he).1
      | delete pid => exact hrest e (mem_deleteEntry he)
      | search pid => exact hop.elim
      | clear => exact hop.elim
      | resize fresh => exact hop.elim
      | childmax m => exact hop.elim

theorem answers_search (h : Holds c (saved (capacity c) ops).1 (saved (capacity c) ops).2 s)
    (hops : ∀ op ∈ ops, op.Saves) (pid : ℤ) : s.bgpSearch pid (s.nalloc + 1) =
      some (answerOf (findEntry pid (saved (capacity c) ops).2)) := by
  rw [holds_search h pid]
  cases hfind : findEntry pid (saved (capacity c) ops).2 with
  | none => rfl
  | some e =>
      obtain ⟨hnonneg, hlt⟩ := saved_statuses hops e (List.mem_of_find?_eq_some hfind)
      exact congrArg some (Int.emod_eq_of_lt hnonneg hlt)

theorem latest_search (h : Holds c (saved (capacity c) ops).1 (saved (capacity c) ops).2 s)
    (hops : ∀ op ∈ ops, op.Saves) (hanswers : Answers (capacity c) ops) (pid : ℤ) :
    s.bgpSearch pid (s.nalloc + 1) = some (latest pid (capacity c) ops) := by
  have hall : (saved (capacity c) ops).2.filter
      (fun e => (saved (capacity c) ops).1 ≤ e.number + capacity c) = (saved (capacity c) ops).2 :=
    List.filter_eq_self.mpr fun e he => decide_eq_true (h.recent e he).2
  rw [answers_search h hops, ← hanswers pid _ le_rfl, hall]

theorem answers_add (hrecent : Recent c (saved (capacity c) ops).1 (saved (capacity c) ops).2)
    (h : Answers (capacity c) ops) (pid' status : ℤ) (fresh : ℕ → Pidstat) :
    Answers (capacity c) (.add pid' status fresh :: ops) := by
  intro pid room hroom
  change answerOf (findEntry pid (List.filter _ (_ :: List.filter _ _))) = _
  cases room with
  | zero =>
      refine congrArg answerOf (List.find?_eq_none.mpr fun e he => ?_)
      obtain ⟨he, hkept⟩ := List.mem_filter.mp he
      have hle := of_decide_eq_true hkept
      change (saved (capacity c) ops).1 + 1 ≤ e.number + 0 at hle
      rcases List.mem_cons.mp he with rfl | he
      · dsimp only at hle
        omega
      · have := (hrecent e (List.mem_filter.mp he).1).1
        omega
  | succ room =>
      have hrest : ((saved (capacity c) ops).2.filter
            fun e => (saved (capacity c) ops).1 < e.number + capacity c).filter
            (fun e => (saved (capacity c) ops).1 + 1 ≤ e.number + (room + 1)) =
          (saved (capacity c) ops).2.filter
            fun e => (saved (capacity c) ops).1 ≤ e.number + room := by
        rw [List.filter_filter]
        refine List.filter_congr fun e _ => ?_
        rw [Bool.eq_iff_iff]
        simp only [Bool.and_eq_true, decide_eq_true_eq]
        omega
      rw [List.filter_cons, if_pos (decide_eq_true (by dsimp only [saved]; omega))]
      change answerOf (findEntry pid (_ :: List.filter _ (List.filter _ _))) = _
      rw [findEntry, List.find?_cons, latest]
      by_cases hpid : pid' = pid
      · rw [if_pos hpid]
        dsimp only
        rw [decide_eq_true hpid]
        rfl
      · rw [if_neg hpid]
        dsimp only
        rw [decide_eq_false hpid]
        dsimp only
        rw [← h pid room (by omega), ← hrest]
        rfl

/-- A cell that holds the pid is that of an entry. -/
theorem BgpState.Holds.entry (h : Holds c n es s) {i : ℕ} (hlive : s.Live i)
    (hpid : s.pidOf i = pid) : ∃ e ∈ es, cell c e = i ∧ e.pid = pid := by
  have hne : s.nalloc ≠ 0 := Nat.ne_of_gt (Nat.zero_lt_of_lt hlive.1)
  have hmem := ((h.chains hne (pshashGetbucket (s.pidOf i))).mem i).mpr ⟨hlive, rfl⟩
  obtain ⟨e, he, rfl⟩ := List.mem_map.mp hmem
  have he := (List.mem_filter.mp he).1
  exact ⟨e, he, rfl, (h.held e he).1.symm.trans hpid⟩

/-- The entries that a delete takes out are of the pid. -/
theorem BgpState.Holds.deleted (h : Holds c n es s) {e : Saved} (he : e ∈ es) (hpid : e.pid ≠ pid) :
    e ∈ deleteEntry pid es := by
  unfold deleteEntry
  cases hfind : findEntry pid es with
  | none => exact he
  | some found =>
      refine List.mem_filter.mpr ⟨he, decide_eq_true fun heq => hpid ?_⟩
      have hcell : cell c e = cell c found := by rw [cell, cell, heq]
      obtain ⟨hfound, hpid'⟩ := findEntry_some hfind
      rw [← (h.held e he).1, hcell, (h.held found hfound).1, hpid']

/-- A delete leaves no entry of the pid exactly where there was at most one. -/
theorem BgpState.Holds.deletesOne_iff (h : Holds c n es s) :
    DeletesOne s (.delete pid) ↔ findEntry pid (deleteEntry pid es) = none := by
  rw [findEntry, List.find?_eq_none]
  constructor
  · intro hone e he hpid
    have hpid : e.pid = pid := of_decide_eq_true hpid
    unfold deleteEntry at he
    cases hfind : findEntry pid es with
    | none =>
        rw [hfind] at he
        exact List.find?_eq_none.mp hfind e he (decide_eq_true hpid)
    | some found =>
        rw [hfind] at he
        obtain ⟨he, hne⟩ := List.mem_filter.mp he
        obtain ⟨hfound, hpid'⟩ := findEntry_some hfind
        have hcell := hone _ _ (h.live he) (h.live hfound) ((h.held e he).1.trans hpid)
          ((h.held found hfound).1.trans hpid')
        exact of_decide_eq_true hne (h.recent.inj he hfound hcell)
  · intro hnone i j hi hj hpidi hpidj
    -- an entry of the pid is the one that is found
    have hfirst {k : ℕ} (hk : s.Live k) (hpidk : s.pidOf k = pid) :
        ∃ found, findEntry pid es = some found ∧ cell c found = k := by
      obtain ⟨e, he, rfl, hpid⟩ := h.entry hk hpidk
      cases hfind : findEntry pid es with
      | none => exact absurd (decide_eq_true hpid) (List.find?_eq_none.mp hfind e he)
      | some found =>
          refine ⟨found, rfl, ?_⟩
          by_contra hne
          refine hnone e ?_ (decide_eq_true hpid)
          rw [deleteEntry, hfind]
          exact List.mem_filter.mpr ⟨he, decide_eq_true fun heq => hne (by rw [cell, cell, heq])⟩
    obtain ⟨found, hfind, rfl⟩ := hfirst hi hpidi
    obtain ⟨found', hfind', rfl⟩ := hfirst hj hpidj
    rw [hfind] at hfind'
    cases hfind'
    rfl

theorem answers_delete (hholds : Holds c (saved (capacity c) ops).1 (saved (capacity c) ops).2 s)
    (h : Answers (capacity c) ops) {pid' : ℤ} (hone : DeletesOne s (.delete pid')) :
    Answers (capacity c) (.delete pid' :: ops) := by
  intro pid room hroom
  have hlatest : latest pid room (.delete pid' :: ops) =
      if pid' = pid then -1 else latest pid room ops := by
    cases room <;> rfl
  rw [hlatest]
  change answerOf (findEntry pid (List.filter _ (deleteEntry pid' _))) = _
  by_cases hpid : pid' = pid
  · rw [if_pos hpid]
    subst hpid
    have hnone := List.find?_eq_none.mp (hholds.deletesOne_iff.mp hone)
    exact congrArg answerOf (List.find?_eq_none.mpr fun e he => hnone e (List.mem_filter.mp he).1)
  · rw [if_neg hpid, ← h pid room hroom]
    refine congrArg answerOf ?_
    change findEntry pid (List.filter (fun e => (saved (capacity c) ops).1 ≤ e.number + room) _) = _
    unfold deleteEntry
    cases hfind : findEntry pid' (saved (capacity c) ops).2 with
    | none => rfl
    | some found =>
        dsimp only
        rw [List.filter_filter, findEntry, findEntry, List.find?_filter, List.find?_filter]
        refine List.find?_congr fun e he => ?_
        rw [Bool.eq_iff_iff]
        simp only [Bool.and_eq_true, decide_eq_true_eq]
        refine ⟨fun hboth => ⟨hboth.1.1, hboth.2⟩, fun hboth => ⟨⟨hboth.1, fun heq => ?_⟩, hboth.2⟩⟩
        -- the entry that is taken out has the other pid
        have hkept := hholds.deleted he fun h => hpid (h.symm.trans hboth.2)
        rw [deleteEntry, hfind] at hkept
        exact of_decide_eq_true (List.mem_filter.mp hkept).2 heq

end

/-! ## Runs -/

section

variable {c : ℤ} {s : BgpState} {ops before : List BgpOp}

theorem holds_step (hc : toPsIndex c ≠ 0) {op : BgpOp} (hop : op.Saves)
    (h : Holds c (saved (capacity c) ops).1 (saved (capacity c) ops).2 s) :
    ∃ t, step s op = some t ∧
      Holds c (saved (capacity c) (op :: ops)).1 (saved (capacity c) (op :: ops)).2 t := by
  cases op with
  | add pid status fresh => exact ⟨_, rfl, holds_add h hc hop.1 status fresh⟩
  | delete pid => exact holds_delete h pid
  | search pid => exact hop.elim
  | clear => exact hop.elim
  | resize fresh => exact hop.elim
  | childmax m => exact hop.elim

/-- From a state that holds what the operations before it saved. -/
theorem search_latest_iff (hc : toPsIndex c ≠ 0) (hops : ∀ op ∈ ops, op.Saves)
    (hbefore : ∀ op ∈ before, op.Saves)
    (h : Holds c (saved (capacity c) before).1 (saved (capacity c) before).2 s)
    (hanswers : Answers (capacity c) before) :
    (∀ done rest, ops = done ++ rest → ∃ t, Machine.runPath step s done = some t ∧
      ∀ pid, t.bgpSearch pid (t.nalloc + 1) =
        some (latest pid (capacity c) (done.reverse ++ before))) ↔
    Machine.PathMeets step DeletesOne s ops := by
  induction ops generalizing s before with
  | nil =>
      refine iff_of_true (fun done rest hdone => ?_) trivial
      obtain ⟨rfl, -⟩ := List.append_eq_nil_iff.mp hdone.symm
      exact ⟨s, rfl, latest_search h hbefore hanswers⟩
  | cons op ops ih =>
      have hop := hops op List.mem_cons_self
      obtain ⟨t, ht, hholds⟩ := holds_step hc hop h
      have hsaves : ∀ op' ∈ op :: before, op'.Saves := fun op' hmem =>
        (List.mem_cons.mp hmem).elim (fun heq => heq ▸ hop) (hbefore op')
      have hrest : DeletesOne s op → Answers (capacity c) (op :: before) := by
        intro hone
        cases op with
        | add pid status fresh => exact answers_add h.recent hanswers pid status fresh
        | delete pid => exact answers_delete h hanswers hone
        | search pid => exact hop.elim
        | clear => exact hop.elim
        | resize fresh => exact hop.elim
        | childmax m => exact hop.elim
      have hih := fun hone => ih (fun op' hmem => hops op' (List.mem_cons_of_mem _ hmem)) hsaves
        hholds (hrest hone)
      have hcons (done : List BgpOp) :
          Machine.runPath step s (op :: done) = Machine.runPath step t done := by
        rw [Machine.runPath, ht]
        rfl
      constructor
      · intro hall
        have hone : DeletesOne s op := by
          cases op with
          | delete pid =>
              -- the search behind the delete finds nothing
              obtain ⟨t', ht', hsearch⟩ := hall [.delete pid] ops rfl
              rw [hcons] at ht'
              cases ht'
              have hfound := (answers_search hholds hsaves pid).symm.trans (hsearch pid)
              have hlatest : latest pid (capacity c) (.delete pid :: before) = -1 := by
                have hpos := capacity_pos c
                cases hcap : capacity c with
                | zero => omega
                | succ room => exact if_pos rfl
              rw [h.deletesOne_iff]
              change some (answerOf (findEntry pid (deleteEntry pid _))) =
                some (latest pid (capacity c) (.delete pid :: before)) at hfound
              rw [hlatest] at hfound
              cases hfind : findEntry pid (deleteEntry pid (saved (capacity c) before).2) with
              | none => rfl
              | some e =>
                  rw [hfind] at hfound
                  have hstatus := saved_statuses hbefore e
                    (mem_deleteEntry (List.mem_of_find?_eq_some hfind))
                  have := Option.some.inj hfound
                  change e.status = -1 at this
                  omega
          | _ => trivial
        refine ⟨hone, fun t' ht' => ?_⟩
        cases ht.symm.trans ht'
        refine (hih hone).mp fun done rest hdone => ?_
        have := hall (op :: done) rest (by rw [hdone]; rfl)
        rwa [hcons, List.reverse_cons, List.append_assoc] at this
      · rintro ⟨hone, hmeets⟩ done rest hdone
        cases done with
        | nil => exact ⟨s, rfl, latest_search h hbefore hanswers⟩
        | cons op' done =>
            obtain ⟨rfl, rfl⟩ := List.cons.inj hdone
            obtain ⟨last, hlast, hsearch⟩ := (hih hone).mpr (hmeets t ht) done rest rfl
            rw [hcons, List.reverse_cons, List.append_assoc]
            exact ⟨last, hlast, hsearch⟩

end

/-- In a run of adds and deletes every search answers with the latest status that is neither
deleted nor evicted exactly where every pid that is deleted has one cell at most. -/
theorem bgpSearch_latest_iff (c : ℤ) (hc : toPsIndex c ≠ 0) (ops : List BgpOp)
    (hops : ∀ op ∈ ops, op.Saves) :
    (∀ done rest, ops = done ++ rest → ∃ s, Machine.runPath step (started c) done = some s ∧
      ∀ pid, s.bgpSearch pid (s.nalloc + 1) = some (latest pid (capacity c) done.reverse)) ↔
    Machine.PathMeets step DeletesOne (started c) ops := by
  have hanswers : Answers (capacity c) [] := fun _ room _ => by
    cases room <;> rfl
  have := @search_latest_iff c (started c) ops [] hc hops (fun _ h => by cases h)
    (holds_started c) hanswers
  simpa only [List.append_nil] using this

/-- A pid that is saved twice. -/
def savedTwice : List BgpOp := [.add 7 1 zeroed, .add 8 0 zeroed, .add 7 2 zeroed]

theorem savedTwice_saves : ∀ op ∈ savedTwice, op.Saves := by
  intro op hop
  rcases List.mem_cons.mp hop with rfl | hop
  · exact ⟨by decide, by decide, by decide⟩
  rcases List.mem_cons.mp hop with rfl | hop
  · exact ⟨by decide, by decide, by decide⟩
  rcases List.mem_cons.mp hop with rfl | hop
  · exact ⟨by decide, by decide, by decide⟩
  · cases hop

theorem bgpSearch_latest_adds :
    (∀ done rest, savedTwice = done ++ rest →
      ∃ s, Machine.runPath step (started 4) done = some s ∧
        ∀ pid, s.bgpSearch pid (s.nalloc + 1) = some (latest pid (capacity 4) done.reverse)) ↔
    Machine.PathMeets step DeletesOne (started 4) savedTwice :=
  bgpSearch_latest_iff 4 (by decide) savedTwice savedTwice_saves

/-- A pid is saved twice and deleted: the earlier status comes back. -/
theorem bgpSearch_stale : ∃ s, Machine.runPath step (started 4)
      [.add 7 1 zeroed, .add 7 2 zeroed, .delete 7] = some s ∧
    s.bgpSearch 7 (s.nalloc + 1) = some 1 ∧
    latest 7 (capacity 4) [.delete 7, .add 7 2 zeroed, .add 7 1 zeroed] = -1 :=
  ⟨_, rfl, by decide +kernel, by decide +kernel⟩

end Bgpids

end Rash
