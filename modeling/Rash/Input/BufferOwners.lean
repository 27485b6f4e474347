import Rash.Input.SharedBuffers

/-!
# The owner of a buffer

A buffer is freed with the one stream that is not marked as sharing it.  The marks are right as
long as only the shell's input and its copies are duplicated, and no stream goes while a copy
of it remains.
-/

namespace Rash

namespace SharedBuffers

namespace State

variable {s : State}

/-- What the calls keep. -/
structure Owned (s : State) : Prop extends OneOwner s where
  within : ∀ i, s.nbuffers ≤ i → s.buffers i = none
  allocated : ∀ i bp, s.buffers i = some bp → ∃ b, bp.buffer = some b ∧ b < s.next
  freed_lt : ∀ b ∈ s.freed, b < s.next

theorem NoStreams.owned (h : s.NoStreams) : s.Owned where
  live i bp b hbp := by rw [h.buffers i] at hbp; cases hbp
  fd i bp hbp := by rw [h.buffers i] at hbp; cases hbp
  apart i j bp bq b _ hbp := by rw [h.buffers i] at hbp; cases hbp
  once := by rw [h.freed]; exact List.nodup_nil
  within i _ := h.buffers i
  allocated i bp hbp := by rw [h.buffers i] at hbp; cases hbp
  freed_lt b hb := by rw [h.freed] at hb; cases hb

/-! ## Changes of the table -/

@[simp] theorem setSlot_self (s : State) (fd : ℕ) (bp : Option Stream) :
    (s.setSlot fd bp).buffers fd = bp := Function.update_self ..

theorem setSlot_of_ne (s : State) {fd k : ℕ} (hk : k ≠ fd) (bp : Option Stream) :
    (s.setSlot fd bp).buffers k = s.buffers k := Function.update_of_ne hk ..

theorem Owned.of_eq (h : s.Owned) {s' : State} (hbuffers : s'.buffers = s.buffers)
    (hnbuffers : s.nbuffers ≤ s'.nbuffers) (hnext : s'.next = s.next) (hfreed : s'.freed = s.freed) :
    s'.Owned where
  live := by rw [hbuffers, hfreed]; exact h.live
  fd := by rw [hbuffers]; exact h.fd
  apart := by rw [hbuffers]; exact h.apart
  once := by rw [hfreed]; exact h.once
  within i hi := by rw [hbuffers]; exact h.within i (Nat.le_trans hnbuffers hi)
  allocated := by rw [hbuffers, hnext]; exact h.allocated
  freed_lt := by rw [hfreed, hnext]; exact h.freed_lt

@[simp] theorem allocateBuffers_buffers (s : State) (n : ℕ) :
    (s.allocateBuffers n).buffers = s.buffers := by
  unfold allocateBuffers
  split_ifs <;> rfl

@[simp] theorem allocateBuffers_next (s : State) (n : ℕ) :
    (s.allocateBuffers n).next = s.next := by
  unfold allocateBuffers
  split_ifs <;> rfl

@[simp] theorem allocateBuffers_freed (s : State) (n : ℕ) :
    (s.allocateBuffers n).freed = s.freed := by
  unfold allocateBuffers
  split_ifs <;> rfl

theorem lt_allocateBuffers (s : State) (n : ℕ) : n < (s.allocateBuffers n).nbuffers := by
  unfold allocateBuffers
  split_ifs with hn
  · exact Nat.lt_add_of_pos_right (by decide)
  · exact Nat.not_le.mp hn

theorem Owned.allocateBuffers (h : s.Owned) (n : ℕ) : (s.allocateBuffers n).Owned := by
  unfold State.allocateBuffers
  split_ifs with hn
  · exact h.of_eq rfl (show s.nbuffers ≤ n + 20 by omega) rfl rfl
  · exact h

theorem Owned.setSlot_none (h : s.Owned) (fd : ℕ) : (s.setSlot fd none).Owned := by
  have hold {k : ℕ} {bp : Stream} (hbp : (s.setSlot fd none).buffers k = some bp) :
      s.buffers k = some bp := by
    by_cases hk : k = fd
    · rw [hk, setSlot_self] at hbp
      cases hbp
    · rwa [setSlot_of_ne s hk] at hbp
  exact
    { live := fun i bp b hbp => h.live i bp b (hold hbp)
      fd := fun i bp hbp => h.fd i bp (hold hbp)
      apart := fun i j bp bq b hij hbp hbq => h.apart i j bp bq b hij (hold hbp) (hold hbq)
      once := h.once
      within := fun i hi => by
        by_contra hne
        obtain ⟨bp, hbp⟩ := Option.ne_none_iff_exists'.mp hne
        have hbp' := hold hbp
        rw [h.within i hi] at hbp'
        cases hbp'
      allocated := fun i bp hbp => h.allocated i bp (hold hbp)
      freed_lt := h.freed_lt }

/-- A block that no stream uses is freed. -/
theorem Owned.addFreed (h : s.Owned) {b : Block} (hlt : b < s.next) (hfreed : b ∉ s.freed)
    (hunused : ∀ k bp, s.buffers k = some bp → bp.buffer ≠ some b) :
    ({ s with freed := b :: s.freed } : State).Owned where
  live i bp c hbp hc hmem := by
    rcases List.mem_cons.mp hmem with rfl | hmem
    · exact hunused i bp hbp hc
    · exact h.live i bp c hbp hc hmem
  fd := h.fd
  apart := h.apart
  once := List.nodup_cons.mpr ⟨hfreed, h.once⟩
  within := h.within
  allocated := h.allocated
  freed_lt c hc := by
    rcases List.mem_cons.mp hc with rfl | hc
    · exact hlt
    · exact h.freed_lt c hc

theorem Owned.put (h : s.Owned) {fd : ℕ} {st : Stream} {b : Block} (hfd : st.fd = fd)
    (hinside : fd < s.nbuffers) (hb : st.buffer = some b) (hlt : b < s.next) (hfreed : b ∉ s.freed)
    (hshared : ∀ k bp, k ≠ fd → s.buffers k = some bp → bp.buffer = some b →
      st.sharedBuf = true ∨ bp.sharedBuf = true) : (s.setSlot fd (some st)).Owned := by
  have hcases {k : ℕ} {bp : Stream} (hbp : (s.setSlot fd (some st)).buffers k = some bp) :
      k = fd ∧ bp = st ∨ k ≠ fd ∧ s.buffers k = some bp := by
    by_cases hk : k = fd
    · rw [hk, setSlot_self] at hbp
      exact .inl ⟨hk, (Option.some.inj hbp).symm⟩
    · rw [setSlot_of_ne s hk] at hbp
      exact .inr ⟨hk, hbp⟩
  exact
    { live := fun i bp c hbp hc => by
        rcases hcases hbp with ⟨-, rfl⟩ | ⟨-, hbp⟩
        · rw [hb] at hc
          cases hc
          exact hfreed
        · exact h.live i bp c hbp hc
      fd := fun i bp hbp => by
        rcases hcases hbp with ⟨rfl, rfl⟩ | ⟨-, hbp⟩
        · exact hfd
        · exact h.fd i bp hbp
      apart := fun i j bp bq c hij hbp hbq hc hc' => by
        rcases hcases hbp with ⟨rfl, rfl⟩ | ⟨hi, hbp'⟩
        · rcases hcases hbq with ⟨rfl, -⟩ | ⟨hj, hbq'⟩
          · exact absurd rfl hij
          · rw [hb] at hc
            cases hc
            exact hshared j bq hj hbq' hc'
        · rcases hcases hbq with ⟨rfl, rfl⟩ | ⟨hj, hbq'⟩
          · rw [hb] at hc'
            cases hc'
            exact (hshared i bp hi hbp' hc).symm
          · exact h.apart i j bp bq c hij hbp' hbq' hc hc'
      once := h.once
      within := fun i hi => by
        have hne : i ≠ fd := by
          rintro rfl
          exact absurd hinside (Nat.not_lt.mpr hi)
        rw [setSlot_of_ne s hne]
        exact h.within i hi
      allocated := fun i bp hbp => by
        rcases hcases hbp with ⟨-, rfl⟩ | ⟨-, hbp⟩
        · exact ⟨b, hb, hlt⟩
        · exact h.allocated i bp hbp
      freed_lt := h.freed_lt }

/-- The flags and the positions of a stream change, and the mark is not taken away. -/
theorem Owned.modify (h : s.Owned) {fd : ℕ} {bp st : Stream} (hbp : s.buffers fd = some bp)
    (hfd : st.fd = bp.fd) (hbuffer : st.buffer = bp.buffer)
    (hshared : bp.sharedBuf = true → st.sharedBuf = true) : (s.setSlot fd (some st)).Owned := by
  obtain ⟨b, hb, hlt⟩ := h.allocated fd bp hbp
  have hinside : fd < s.nbuffers := by
    by_contra hge
    rw [h.within fd (Nat.not_lt.mp hge)] at hbp
    cases hbp
  refine h.put (hfd.trans (h.fd fd bp hbp)) hinside (hbuffer.trans hb) hlt (h.live fd bp b hbp hb) ?_
  intro k bq hk hbq hb'
  exact (h.apart fd k bp bq b hk.symm hbp hbq hb hb').imp_left hshared

/-! ## Streams that go -/

/-- The stream at `fd` goes, and its buffer unless it is marked. -/
def remove (s : State) (fd : ℕ) : State :=
  { s with freed := (s.released fd).toList ++ s.freed, buffers := Function.update s.buffers fd none }

theorem released_eq {fd : ℕ} {b : Block} (h : b ∈ s.released fd) :
    ∃ bp, s.buffers fd = some bp ∧ bp.buffer = some b ∧ bp.sharedBuf = false := by
  obtain ⟨bp, hbp, hb⟩ := Option.bind_eq_some_iff.mp h
  refine ⟨bp, hbp, ?_⟩
  unfold Stream.detach at hb
  cases hshared : bp.sharedBuf with
  | true =>
      rw [hshared, if_pos rfl] at hb
      cases hb
  | false =>
      rw [hshared, if_neg Bool.false_ne_true] at hb
      exact ⟨hb, rfl⟩

theorem Owned.released_live (h : s.Owned) {fd : ℕ} {b : Block} (hb : b ∈ s.released fd) :
    b < s.next ∧ b ∉ s.freed := by
  obtain ⟨bp, hbp, hbuffer, -⟩ := released_eq hb
  obtain ⟨c, hc, hlt⟩ := h.allocated fd bp hbp
  rw [hbuffer] at hc
  cases hc
  exact ⟨hlt, h.live fd bp b hbp hbuffer⟩

theorem Owned.remove (h : s.Owned) {fd : ℕ} (hlast : s.LastUse fd (· ≠ fd)) :
    (s.remove fd).Owned := by
  have hnone := h.setSlot_none fd
  cases hreleased : s.released fd with
  | none => exact hnone.of_eq rfl (Nat.le_refl _) rfl (by rw [State.remove, hreleased]; rfl)
  | some b =>
      obtain ⟨hlt, hfreed⟩ := h.released_live hreleased
      refine (hnone.addFreed (b := b) hlt hfreed fun k bp hbp => ?_).of_eq rfl (Nat.le_refl _) rfl
        (by rw [State.remove, hreleased]; rfl)
      have hk : k ≠ fd := by
        rintro rfl
        rw [setSlot_self] at hbp
        cases hbp
      rw [setSlot_of_ne s hk] at hbp
      exact hlast b hreleased k bp hk hbp

theorem remove_of_ne (s : State) {fd k : ℕ} (hk : k ≠ fd) : (s.remove fd).buffers k = s.buffers k :=
  Function.update_of_ne hk ..

@[simp] theorem remove_self (s : State) (fd : ℕ) : (s.remove fd).buffers fd = none :=
  Function.update_self ..

theorem released_remove {fd nfd : ℕ} (hne : fd ≠ nfd) : (s.remove nfd).released fd = s.released fd := by
  rw [released, remove_of_ne s hne]
  rfl

/-- Two streams go together. -/
theorem Owned.remove_two (h : s.Owned) {fd nfd : ℕ} (hne : fd ≠ nfd)
    (hstray : s.LastUse nfd fun k => k ≠ nfd ∧ k ≠ fd)
    (hinput : s.LastUse fd fun k => k ≠ fd ∧ k ≠ nfd) : ((s.remove nfd).remove fd).Owned := by
  -- first without the stream at `fd`, which may share the buffer of the other one
  have hnone : ((s.setSlot fd none).remove nfd).Owned := by
    refine (h.setSlot_none fd).remove fun b hb k bp hk hbp => ?_
    have hkfd : k ≠ fd := by
      rintro rfl
      rw [setSlot_self] at hbp
      cases hbp
    rw [setSlot_of_ne s hkfd] at hbp
    have hb' : b ∈ s.released nfd := by
      rwa [released, setSlot_of_ne s hne.symm] at hb
    exact hstray b hb' k bp ⟨hk, hkfd⟩ hbp
  have hbuffers : ((s.remove nfd).remove fd).buffers = ((s.setSlot fd none).remove nfd).buffers :=
    Function.update_comm hne.symm _ _ _
  have hreleased : (s.setSlot fd none).released nfd = s.released nfd := by
    rw [released, setSlot_of_ne s hne.symm]
    rfl
  have hfreed : ((s.setSlot fd none).remove nfd).freed = (s.released nfd).toList ++ s.freed := by
    rw [State.remove, hreleased]
    rfl
  cases hfd : s.released fd with
  | none =>
      refine hnone.of_eq hbuffers (Nat.le_refl _) rfl ?_
      rw [hfreed, State.remove, released_remove hne, hfd]
      rfl
  | some b =>
      obtain ⟨hlt, hnot⟩ := h.released_live hfd
      obtain ⟨bp, hbp, hb, hshared⟩ := released_eq hfd
      have hnot' : b ∉ ((s.setSlot fd none).remove nfd).freed := by
        rw [hfreed, List.mem_append]
        rintro (hmem | hmem)
        · obtain ⟨bq, hbq, hb', hshared'⟩ := released_eq (Option.mem_toList.mp hmem)
          rcases h.apart fd nfd bp bq b hne hbp hbq hb hb' with hbad | hbad
          · rw [hshared] at hbad
            cases hbad
          · rw [hshared'] at hbad
            cases hbad
        · exact hnot hmem
      have hunused : ∀ k bq, ((s.setSlot fd none).remove nfd).buffers k = some bq →
          bq.buffer ≠ some b := by
        intro k bq hbq
        rw [← hbuffers] at hbq
        have hkfd : k ≠ fd := by
          rintro rfl
          rw [remove_self] at hbq
          cases hbq
        rw [remove_of_ne _ hkfd] at hbq
        have hknfd : k ≠ nfd := by
          rintro rfl
          rw [remove_self] at hbq
          cases hbq
        rw [remove_of_ne _ hknfd] at hbq
        exact hinput b hfd k bq ⟨hkfd, hknfd⟩ hbq
      refine (hnone.addFreed hlt hnot' hunused).of_eq hbuffers (Nat.le_refl _) rfl ?_
      rw [hfreed, State.remove, released_remove hne, hfd]
      rfl

theorem closeBufferedFd_eq {fd : ℕ} (hwithin : s.nbuffers ≤ fd → s.buffers fd = none)
    (hfd : ∀ bp, s.buffers fd = some bp → bp.fd = fd) : s.closeBufferedFd fd = s.remove fd := by
  have hnone (h : s.buffers fd = none) : s.remove fd = s := by
    have hupdate : Function.update s.buffers fd none = s.buffers := by
      rw [← h, Function.update_eq_self]
    unfold State.remove released
    rw [h, hupdate]
    rfl
  unfold closeBufferedFd
  split_ifs with hin
  · exact (hnone (hwithin hin)).symm
  · cases hbp : s.buffers fd with
    | none => exact (hnone hbp).symm
    | some bp =>
        have hdetach : bp.detach.fd = fd := by
          rw [← hfd bp hbp]
          unfold Stream.detach
          split_ifs <;> rfl
        simp only [closeBufferedStream, freeBufferedStream, State.remove, released, hbp, hdetach,
          Option.bind_some]

theorem Owned.closeBufferedFd_eq (h : s.Owned) (fd : ℕ) : s.closeBufferedFd fd = s.remove fd :=
  State.closeBufferedFd_eq (h.within fd) (h.fd fd)

theorem Owned.closeStray_eq (h : s.Owned) (nfd : ℕ) : s.closeStray nfd = s.remove nfd := by
  rw [← h.closeBufferedFd_eq nfd]
  unfold closeStray closeBufferedFd
  by_cases hin : nfd < s.nbuffers
  · rw [if_pos hin, if_neg (Nat.not_le.mpr hin)]
    rfl
  · rw [if_neg hin, if_pos (Nat.not_lt.mp hin)]

/-! ## The calls -/

theorem Owned.fdToBufferedStream (h : s.Owned) (fd : ℕ) (file : Option OpenFile) :
    (s.fdToBufferedStream fd file).2.Owned := by
  cases file with
  | none => exact h
  | some file =>
      have hnext : ({ s with next := s.next + 1 } : State).Owned :=
        { live := h.live
          fd := h.fd
          apart := h.apart
          once := h.once
          within := h.within
          allocated := fun i bp hbp => by
            obtain ⟨b, hb, hlt⟩ := h.allocated i bp hbp
            exact ⟨b, hb, Nat.lt_succ_of_lt hlt⟩
          freed_lt := fun b hb => Nat.lt_succ_of_lt (h.freed_lt b hb) }
      refine (hnext.allocateBuffers fd).put (b := s.next) rfl (lt_allocateBuffers _ fd) rfl ?_ ?_ ?_
      · rw [allocateBuffers_next]
        exact Nat.lt_succ_self _
      · rw [allocateBuffers_freed]
        exact fun hmem => Nat.lt_irrefl _ (h.freed_lt _ hmem)
      · intro k bp _ hbp hb
        rw [allocateBuffers_buffers] at hbp
        obtain ⟨c, hc, hlt⟩ := h.allocated k bp hbp
        rw [hb] at hc
        cases hc
        exact absurd hlt (Nat.lt_irrefl _)

theorem fdToBufferedStream_of_ne (s : State) {fd k : ℕ} (hk : k ≠ fd) (file : Option OpenFile) :
    (s.fdToBufferedStream fd file).2.buffers k = s.buffers k := by
  cases file with
  | none => rfl
  | some file =>
      refine (setSlot_of_ne _ hk _).trans ?_
      rw [allocateBuffers_buffers]

theorem Owned.syncBufferedStream (h : s.Owned) {bfd : ℕ} (hinside : s.nbuffers = 0 ∨ bfd < s.nbuffers) :
    ∃ synced s', s.syncBufferedStream bfd = .ok (synced, s') ∧ s'.Owned ∧
      s'.nbuffers = s.nbuffers ∧ s'.bashInput = s.bashInput ∧
      ∀ k, (s'.buffers k).map (fun bp => (bp.buffer, bp.sharedBuf)) =
        (s.buffers k).map fun bp => (bp.buffer, bp.sharedBuf) := by
  unfold State.syncBufferedStream
  split_ifs with hzero
  · exact ⟨false, s, rfl, h, rfl, rfl, fun _ => rfl⟩
  · have hslot : s.slot bfd = .ok (s.buffers bfd) := if_pos (hinside.resolve_left hzero)
    rw [hslot]
    cases hbp : s.buffers bfd with
    | none => exact ⟨false, s, rfl, h, rfl, rfl, fun _ => rfl⟩
    | some bp =>
        refine ⟨true, _, rfl, h.modify hbp rfl rfl id, rfl, rfl, fun k => ?_⟩
        by_cases hk : k = bfd
        · rw [hk, setSlot_self, hbp]
          rfl
        · rw [setSlot_of_ne s hk]

/-- Which buffers go, and whether they are used elsewhere, depends on the pointers and the marks
only. -/
theorem LastUse.congr {s' : State} {fd : ℕ} {elsewhere : ℕ → Prop}
    (hsame : ∀ k, (s'.buffers k).map (fun bp => (bp.buffer, bp.sharedBuf)) =
      (s.buffers k).map fun bp => (bp.buffer, bp.sharedBuf)) (h : s.LastUse fd elsewhere) :
    s'.LastUse fd elsewhere := by
  have hcell {k : ℕ} {bp : Stream} (hbp : s'.buffers k = some bp) : ∃ bq, s.buffers k = some bq ∧
      bq.buffer = bp.buffer ∧ bq.sharedBuf = bp.sharedBuf := by
    have hk := hsame k
    rw [hbp] at hk
    obtain ⟨bq, hbq, heq⟩ := Option.map_eq_some_iff.mp hk.symm
    exact ⟨bq, hbq, congrArg Prod.fst heq, congrArg Prod.snd heq⟩
  intro b hb k bp hk hbp
  obtain ⟨bo, hbo, hbuffer, hshared⟩ := released_eq hb
  obtain ⟨bo', hbo', hbuffer', hshared'⟩ := hcell hbo
  obtain ⟨bq, hbq, heq, -⟩ := hcell hbp
  rw [← heq]
  refine h b ?_ k bq hk hbq
  rw [released, hbo', Option.bind_some, Stream.detach, hshared', hshared,
    if_neg Bool.false_ne_true, hbuffer', hbuffer]
  rfl

/-- The buffer of a stream that has just been made is used by no other one. -/
theorem Owned.lastUse_fresh (h : s.Owned) {fd : ℕ} (hempty : s.buffers fd = none)
    (file : Option OpenFile) : (s.fdToBufferedStream fd file).2.LastUse fd (· ≠ fd) := by
  intro b hb k bp hk hbp hbuffer
  rw [fdToBufferedStream_of_ne s hk] at hbp
  obtain ⟨c, hc, hlt⟩ := h.allocated k bp hbp
  obtain ⟨bo, hbo, hbuffer', -⟩ := released_eq hb
  cases file with
  | none =>
      rw [show (s.fdToBufferedStream fd none).2.buffers fd = s.buffers fd from rfl, hempty] at hbo
      cases hbo
  | some file =>
      obtain rfl := Option.some.inj ((setSlot_self _ _ _).symm.trans hbo)
      cases hbuffer'
      rw [hbuffer] at hc
      cases hc
      exact Nat.lt_irrefl _ hlt

theorem remove_fdToBufferedStream {fd nfd : ℕ} (hne : fd ≠ nfd) (file : Option OpenFile) :
    (s.fdToBufferedStream nfd file).2.remove fd = ((s.remove fd).fdToBufferedStream nfd file).2 := by
  cases file with
  | none => rfl
  | some file =>
      have hreleased : (s.fdToBufferedStream nfd (some file)).2.released fd = s.released fd := by
        rw [released, fdToBufferedStream_of_ne s hne]
        rfl
      rw [State.remove, hreleased]
      by_cases hn : s.nbuffers ≤ nfd
      · simp only [State.fdToBufferedStream, makeBufferedStream, State.allocateBuffers, setSlot,
          State.remove, hn, if_true, Function.update_comm hne]
      · simp only [State.fdToBufferedStream, makeBufferedStream, State.allocateBuffers, setSlot,
          State.remove, hn, if_false, Function.update_comm hne]

theorem nbuffers_fdToBufferedStream (s : State) (fd : ℕ) (file : Option OpenFile) :
    s.nbuffers ≤ (s.fdToBufferedStream fd file).2.nbuffers := by
  cases file with
  | none => exact Nat.le_refl _
  | some file =>
      change s.nbuffers ≤ (State.allocateBuffers _ fd).nbuffers
      unfold State.allocateBuffers
      split_ifs with hn
      · exact Nat.le_trans hn (Nat.le_add_right _ _)
      · exact Nat.le_refl _

/-- The input moves to a descriptor of its own. -/
theorem Owned.moveInput (h : s.Owned) {fd nfd : ℕ} (hinside : fd < s.nbuffers)
    (hstray : s.LastUse nfd fun k => k ≠ nfd ∧ (s.bashInput ≠ none → k ≠ fd))
    (hinput : s.bashInput ≠ none → s.LastUse fd fun k => k ≠ fd ∧ k ≠ nfd)
    (file : Option OpenFile) : ((s.closeStray nfd).moveInput fd nfd file).Owned := by
  rw [h.closeStray_eq]
  have hsame : (s.remove nfd).bashInput = s.bashInput := rfl
  unfold State.moveInput
  rw [hsame]
  cases hbash : s.bashInput with
  | none =>
      have hlast : s.LastUse nfd (· ≠ nfd) := fun b hb k bp hk hbp =>
        hstray b hb k bp ⟨hk, fun hne => absurd hbash hne⟩ hbp
      exact (h.remove hlast).of_eq rfl (Nat.le_refl _) rfl rfl
  | some old =>
      have hne : s.bashInput ≠ none := by rw [hbash]; exact Option.some_ne_none old
      dsimp only
      by_cases hfd : fd = nfd
      · subst hfd
        have hlast : s.LastUse fd (· ≠ fd) := fun b hb k bp hk hbp =>
          hstray b hb k bp ⟨hk, fun _ => hk⟩ hbp
        have hmoved : ({ s.remove fd with bashInput := some fd } : State).Owned :=
          (h.remove hlast).of_eq rfl (Nat.le_refl _) rfl rfl
        have hopened := hmoved.fdToBufferedStream fd file
        rw [hopened.closeBufferedFd_eq]
        exact hopened.remove (hmoved.lastUse_fresh (remove_self s fd) file)
      · have hgone := h.remove_two hfd (fun b hb k bp hk => hstray b hb k bp ⟨hk.1, fun _ => hk.2⟩)
          (hinput hne)
        have hmoved : ({ (s.remove nfd).remove fd with bashInput := some nfd } : State).Owned :=
          hgone.of_eq rfl (Nat.le_refl _) rfl rfl
        have hslot : (({ s.remove nfd with bashInput := some nfd } : State).fdToBufferedStream
            nfd file).2.buffers fd = s.buffers fd :=
          (fdToBufferedStream_of_ne _ hfd file).trans (remove_of_ne s hfd)
        rw [State.closeBufferedFd_eq, remove_fdToBufferedStream hfd]
        · exact hmoved.fdToBufferedStream nfd file
        · intro hout
          exact absurd (Nat.lt_of_lt_of_le hinside
            (nbuffers_fdToBufferedStream ({ s.remove nfd with bashInput := some nfd }) nfd file))
            (Nat.not_lt.mpr hout)
        · intro bp hbp
          rw [hslot] at hbp
          exact h.fd fd bp hbp

theorem Owned.saveBashInput (h : s.Owned) {fd : ℕ} {newFd dupfd : Option ℕ}
    (hmove : s.MoveAllowed fd newFd dupfd) (file : Option OpenFile) :
    ∃ nfd s', s.saveBashInput fd newFd dupfd file = .ok (nfd, s') ∧ s'.Owned := by
  have hslot : s.slot fd = .ok (s.buffers fd) := if_pos hmove.inside
  obtain ⟨s', hsync, hs', hnbuffers, hbash, hsame⟩ : ∃ s',
      s.syncIfStream (s.buffers fd) fd = .ok s' ∧ s'.Owned ∧ s'.nbuffers = s.nbuffers ∧ s'.bashInput = s.bashInput ∧
      ∀ k, (s'.buffers k).map (fun bp => (bp.buffer, bp.sharedBuf)) =
        (s.buffers k).map fun bp => (bp.buffer, bp.sharedBuf) := by
    unfold syncIfStream
    split_ifs
    · obtain ⟨synced, s', hrun, hrest⟩ := h.syncBufferedStream (.inr hmove.inside)
      exact ⟨s', by rw [hrun]; rfl, hrest⟩
    · exact ⟨s, rfl, h, rfl, rfl, fun _ => rfl⟩
  unfold State.saveBashInput
  rw [hslot]
  change ∃ nfd t, (s.syncIfStream (s.buffers fd) fd >>= _) = Except.ok (nfd, t) ∧ _
  rw [hsync]
  cases hnew : newFd.or dupfd with
  | none => exact ⟨none, s', rfl, hs'⟩
  | some nfd =>
      refine ⟨some nfd, _, rfl, ?_⟩
      have hstray := LastUse.congr hsame (hmove.stray nfd hnew)
      have hinput := fun hne => LastUse.congr hsame (hmove.input nfd hnew hne)
      rw [← hbash] at hstray hinput
      have hmoved := hs'.moveInput (hnbuffers ▸ hmove.inside) hstray hinput file
      unfold moveDefault
      split_ifs
      · exact hmoved.of_eq rfl (Nat.le_refl _) rfl rfl
      · exact hmoved

/-- The stream that is overwritten goes, and the others stay as they are. -/
structure Dropped (s s' : State) (fd : ℕ) : Prop where
  owned : s'.Owned
  slot : s'.buffers fd = none
  others : ∀ k, k ≠ fd → s'.buffers k = s.buffers k
  nbuffers : s'.nbuffers = s.nbuffers
  bashInput : s'.bashInput = s.bashInput
  isInput : ∀ k, s'.fdIsBashInput k = s.fdIsBashInput k

theorem Owned.dropTarget (h : s.Owned) {fd1 fd2 : ℕ}
    (hgone : s.SameBuffer fd1 fd2 ∨ s.LastUse fd2 (· ≠ fd2)) :
    s.Dropped (s.dropTarget fd1 fd2) fd2 := by
  unfold State.dropTarget
  cases hold : s.buffers fd2 with
  | none => exact ⟨h, hold, fun _ _ => rfl, rfl, rfl, fun _ => rfl⟩
  | some old =>
      dsimp only
      split_ifs with hsame
      · exact ⟨h.setSlot_none fd2, setSlot_self .., fun _ hk => setSlot_of_ne s hk _, rfl, rfl,
          fun _ => rfl⟩
      · have hlast : s.LastUse fd2 (· ≠ fd2) := by
          refine hgone.resolve_left ?_
          rintro ⟨bp, bq, hbp, hbq, heq⟩
          obtain ⟨b, hb, -⟩ := h.allocated fd1 bp hbp
          rw [hold] at hbq
          cases hbq
          simp [hbp, ← heq, hb] at hsame
        have hremove : s.freeBufferedStream old.detach = s.remove fd2 := by
          have hdetach : old.detach.fd = fd2 := by
            rw [← h.fd fd2 old hold]
            unfold Stream.detach
            split_ifs <;> rfl
          simp only [freeBufferedStream, State.remove, released, hold, hdetach, Option.bind_some]
        rw [hremove]
        exact ⟨h.remove hlast, remove_self s fd2, fun _ hk => remove_of_ne s hk, rfl, rfl,
          fun _ => rfl⟩

theorem Owned.markShared (h : s.Owned) (fd1 fd2 : ℕ) : (s.markShared fd1 fd2).Owned := by
  unfold State.markShared
  cases hbp : s.buffers fd2 with
  | none => exact h
  | some bp =>
      dsimp only
      split_ifs
      · exact h.modify hbp rfl rfl fun _ => rfl
      · exact h

/-- Without a stream to copy, there is none, or a new one for the shell's input. -/
theorem Owned.markInput (h : s.Owned) {isBashInput : Bool} {fd2 : ℕ} {file : Option OpenFile}
    (hempty : s.buffers fd2 = none) (hfile : isBashInput = true → file ≠ none) :
    ∃ s', s.markInput isBashInput fd2 file = .ok s' ∧ s'.Owned := by
  unfold State.markInput
  cases isBashInput with
  | false => exact ⟨s, rfl, h⟩
  | true =>
      obtain ⟨file, rfl⟩ := Option.ne_none_iff_exists'.mp (hfile rfl)
      have hopened := h.fdToBufferedStream fd2 (some file)
      have hslot : ∃ bp, (s.fdToBufferedStream fd2 (some file)).2.buffers fd2 = some bp :=
        ⟨_, setSlot_self ..⟩
      obtain ⟨bp, hbp⟩ := hslot
      rw [if_pos rfl, hempty, if_neg (by simp)]
      dsimp only
      rw [hbp]
      exact ⟨_, rfl, hopened.modify hbp rfl rfl id⟩

/-- A copy that is marked at once. -/
theorem Owned.markCopy (h : s.Owned) {fd1 fd2 : ℕ} {bp : Stream} (hne : fd1 ≠ fd2)
    (hbp : s.buffers fd1 = some bp) (hinside : fd2 < s.nbuffers)
    (hmark : s.fdIsBashInput fd1 = true ∨ bp.sharedBuf = true) (isBashInput : Bool)
    (file : Option OpenFile) :
    ∃ s', (s.setSlot fd2 (some { bp with fd := fd2 })).markInput isBashInput fd2 file = .ok s' ∧
      (s'.markShared fd1 fd2).Owned := by
  obtain ⟨st, hst, hfd, hbuffer⟩ : ∃ st : Stream,
      (s.setSlot fd2 (some { bp with fd := fd2 })).markInput isBashInput fd2 file =
        .ok (s.setSlot fd2 (some st)) ∧ st.fd = fd2 ∧ st.buffer = bp.buffer := by
    unfold State.markInput
    cases isBashInput with
    | false => exact ⟨_, rfl, rfl, rfl⟩
    | true =>
        refine ⟨{ bp with fd := fd2, wasBashInput := true }, ?_, rfl, rfl⟩
        rw [if_pos rfl, setSlot_self, Option.isSome_some, if_pos rfl]
        dsimp only
        rw [setSlot_self]
        simp only [setSlot, Function.update_idem]
  refine ⟨_, hst, ?_⟩
  have hmarked : (s.setSlot fd2 (some st)).markShared fd1 fd2 =
      s.setSlot fd2 (some { st with sharedBuf := true }) := by
    have htest : ((s.setSlot fd2 (some st)).fdIsBashInput fd1 ||
        ((s.setSlot fd2 (some st)).buffers fd1).any Stream.sharedBuf) = true := by
      rw [setSlot_of_ne s hne, hbp, Option.any_some, Bool.or_eq_true]
      exact hmark
    unfold State.markShared
    rw [setSlot_self]
    dsimp only
    rw [if_pos htest]
    simp only [setSlot, Function.update_idem]
  rw [hmarked]
  obtain ⟨b, hb, hlt⟩ := h.allocated fd1 bp hbp
  exact h.put hfd hinside (hbuffer.trans hb) hlt (h.live fd1 bp b hbp hb) fun _ _ _ _ _ => .inl rfl

theorem Owned.duplicateBufferedStream (h : s.Owned) {fd1 fd2 : ℕ} {file : Option OpenFile}
    (hallowed : s.Allowed (.duplicateBufferedStream fd1 fd2 file)) :
    ∃ fd s', s.duplicateBufferedStream fd1 fd2 file = .ok (fd, s') ∧ s'.Owned := by
  by_cases hne : fd1 = fd2
  · exact ⟨0, s, if_pos hne, h⟩
  obtain ⟨hgone, hmark, hfile⟩ := hallowed hne
  have hgrown := h.allocateBuffers (max fd1 fd2)
  have hbuffers := allocateBuffers_buffers s (max fd1 fd2)
  have hinside := lt_allocateBuffers s (max fd1 fd2)
  have hbash : (s.allocateBuffers (max fd1 fd2)).bashInput = s.bashInput := by
    unfold State.allocateBuffers
    split_ifs <;> rfl
  have hinput (k : ℕ) : (s.allocateBuffers (max fd1 fd2)).fdIsBashInput k = s.fdIsBashInput k := by
    unfold State.allocateBuffers
    split_ifs <;> rfl
  have hdropped := @Owned.dropTarget _ hgrown fd1 fd2 (by
    unfold SameBuffer LastUse released at hgone ⊢
    rwa [hbuffers])
  have hrun : s.duplicateBufferedStream fd1 fd2 file =
      (((s.allocateBuffers (max fd1 fd2)).dropTarget fd1 fd2).setSlot fd2
        ((((s.allocateBuffers (max fd1 fd2)).dropTarget fd1 fd2).buffers fd1).map
          fun bp => { bp with fd := fd2 })).markInput
        (((s.allocateBuffers (max fd1 fd2)).dropTarget fd1 fd2).bashInput == some fd2) fd2 file >>=
        fun s' => .ok (fd2, s'.markShared fd1 fd2) := if_neg hne
  rw [hrun]
  generalize (s.allocateBuffers (max fd1 fd2)).dropTarget fd1 fd2 = t at hdropped
  have hslot : t.buffers fd1 = s.buffers fd1 := by rw [hdropped.others fd1 hne, hbuffers]
  rw [hslot]
  cases hbp : s.buffers fd1 with
  | none =>
      obtain ⟨s', hmarked, hs'⟩ := @Owned.markInput _
        (hdropped.owned.setSlot_none fd2) (t.bashInput == some fd2) _ file (setSlot_self ..) (fun hin => hfile hbp (by
          rw [← hbash, ← hdropped.bashInput]
          exact eq_of_beq hin))
      exact ⟨fd2, _, by rw [Option.map_none, hmarked]; rfl, hs'.markShared fd1 fd2⟩
  | some bp =>
      obtain ⟨s', hmarked, hs'⟩ := hdropped.owned.markCopy hne (hslot.trans hbp)
        (by rw [hdropped.nbuffers]; omega) (by rw [hdropped.isInput, hinput]; exact hmark bp hbp)
        (t.bashInput == some fd2) file
      exact ⟨fd2, _, by rw [Option.map_some, hmarked]; rfl, hs'⟩

/-- A call that is allowed is carried out, and keeps the owners. -/
theorem Owned.step (h : s.Owned) {op : Op} (hallowed : s.Allowed op) :
    ∃ s', s.step op = .ok s' ∧ s'.Owned := by
  cases op with
  | fdToBufferedStream fd file => exact ⟨_, rfl, h.fdToBufferedStream fd file⟩
  | duplicateBufferedStream fd1 fd2 file =>
      obtain ⟨fd, s', hrun, hs'⟩ := h.duplicateBufferedStream hallowed
      exact ⟨s', by rw [State.step, hrun]; rfl, hs'⟩
  | closeBufferedFd fd =>
      refine ⟨_, rfl, ?_⟩
      rw [h.closeBufferedFd_eq]
      exact h.remove hallowed
  | checkBashInput fd dupfd file =>
      rw [State.step, checkBashInput]
      split_ifs with hinput hpos
      · obtain ⟨nfd, s', hrun, hs'⟩ := h.saveBashInput (hallowed hinput hpos) file
        exact ⟨s', by rw [hrun]; rfl, hs'⟩
      · obtain ⟨synced, s', hrun, hs', -⟩ := @Owned.syncBufferedStream _ h fd (by omega)
        exact ⟨s', by rw [hrun]; rfl, hs'⟩
      · exact ⟨s, rfl, h⟩
  | saveBashInput fd newFd dupfd file =>
      obtain ⟨nfd, s', hrun, hs'⟩ := h.saveBashInput hallowed file
      exact ⟨s', by rw [State.step, hrun]; rfl, hs'⟩

theorem Owned.run (ops : List Op) : ∀ {s : State}, s.Owned → s.AllAllowed ops →
    ∃ s', s.run ops = .ok s' ∧ s'.Owned := by
  induction ops with
  | nil => exact fun h _ => ⟨_, rfl, h⟩
  | cons op ops ih =>
      intro s h hallowed
      obtain ⟨s', hstep, hs'⟩ := h.step hallowed.1
      obtain ⟨s'', hrun, hs''⟩ := ih hs' (hallowed.2 s' hstep)
      exact ⟨s'', by rw [State.run, List.foldlM_cons, hstep]; exact hrun, hs''⟩

/-- In every run whose calls are allowed no call fails, and every buffer that is in use has one
owner and has not been freed. -/
theorem oneOwner_run (hs : s.NoStreams) (ops : List Op) (hallowed : s.AllAllowed ops) :
    ∃ s', s.run ops = .ok s' ∧ s'.OneOwner := by
  obtain ⟨s', hrun, hs'⟩ := hs.owned.run ops hallowed
  exact ⟨s', hrun, hs'.toOneOwner⟩

/-- A script that is read from descriptor 255. -/
def scriptInput : State where
  buffers _             := none
  nbuffers              := 0
  bashInput             := some 255
  defaultBufferedInput  := some 255
  interactiveShell      := false
  bashInputFdChanged    := 0
  usingBashMalloc       := false
  next                  := 0
  freed                 := []

def scriptFile : OpenFile := ⟨[], 0, true, 100⟩

theorem scriptInput_noStreams : scriptInput.NoStreams := ⟨rfl, fun _ => rfl, rfl⟩

/-- `exec 4<&255 4<&-`. -/
theorem oneOwner_copy : ∃ s', scriptInput.run [.fdToBufferedStream 255 (some scriptFile),
    .duplicateBufferedStream 255 4 (some scriptFile), .closeBufferedFd 4] = .ok s' ∧ s'.OneOwner := by
  refine oneOwner_run scriptInput_noStreams _ ⟨trivial, ?_⟩
  rintro _ ⟨⟩
  refine ⟨fun _ => ⟨.inr ?_, fun _ _ => .inl rfl, fun h => nomatch h⟩, ?_⟩
  · intro b hb
    cases hb
  · rintro _ ⟨⟩
    refine ⟨?_, fun _ _ => trivial⟩
    intro b hb
    cases hb

/-- `exec 4<&255 255<&-`: the input moves to descriptor 10, and the buffer is freed while the copy
remains. -/
theorem oneOwner_fails : scriptInput.NoStreams ∧ ∃ s', scriptInput.run
    [.fdToBufferedStream 255 (some scriptFile), .duplicateBufferedStream 255 4 (some scriptFile),
      .checkBashInput 255 (some 10) (some scriptFile)] = .ok s' ∧ ¬ s'.OneOwner := by
  refine ⟨scriptInput_noStreams, _, rfl, fun h => ?_⟩
  exact h.live 4 _ 0 rfl rfl List.mem_cons_self

end State

end SharedBuffers

end Rash
