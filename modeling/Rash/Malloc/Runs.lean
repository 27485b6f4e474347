import Rash.Lib.Machine
import Rash.Malloc.Resizing

/-!
# Runs of the allocator

A program calls the allocator with pointers that it was given, and writes to the bytes that it
asked for.  A ledger keeps what was handed out and not freed yet.
-/

namespace Rash

open Regions ByteMemory NullList Machine

namespace Malloc

/-! ## The ledger -/

/-- What a pointer was handed out for, by the headers before it -/
def LiveBlock.handedOut (m : Memory) (q n : ℕ) : LiveBlock where
  bin := (m (trueStart m q - 15)).toNat
  base := trueStart m q - 16
  pointer := q
  requested := n
  nbytes := load m (trueStart m q - 12) 4

/-- `n` bytes from the pointer on end before the guard, and the guard ends in the block. -/
def HasRoom (m : Memory) (q n : ℕ) : Prop :=
  q + n ≤ trueStart m q + load m (trueStart m q - 12) 4 ∧
    trueStart m q + load m (trueStart m q - 12) 4 + 4 ≤
      trueStart m q - 16 + binsize (m (trueStart m q - 15)).toNat

instance (m : Memory) (q n : ℕ) : Decidable (HasRoom m q n) := inferInstanceAs (Decidable (_ ∧ _))

structure World where
  heap : Heap
  live : List LiveBlock
  /-- What the last call returned -/
  result : ℕ
  stopped : Option Stop

def World.initial (sys : System) (m : Memory) : World := ⟨Heap.initial sys m, [], 0, none⟩

inductive Call
  | malloc (n : UInt64)
  | calloc (n s : UInt64)
  | realloc (mem : ℕ) (n : UInt64)
  | memalign (alignment size : UInt64)
  | posixMemalign (alignment size : UInt64)
  | valloc (size : UInt64)
  | free (mem : ℕ)
  /-- The program writes one of the bytes that it asked for. -/
  | write (mem i : ℕ) (c : UInt8)

namespace Call

def perform (sys : System) (ans : Answers) (h : Heap) : Call → Except Stop (ℕ × Heap)
  | malloc n => internalMalloc sys ans h n.toNat
  | calloc n s => internalCalloc sys ans h n.toNat s.toNat
  | realloc mem n => internalRealloc sys ans h mem n.toNat
  | memalign alignment size => internalMemalign sys ans h alignment.toNat size.toNat
  | posixMemalign alignment size =>
      (Malloc.posixMemalign sys ans h alignment.toNat size.toNat).map Prod.snd
  | valloc size => internalValloc sys ans h size.toNat
  | free mem => (internalFree sys h mem).map fun h => (0, h)
  | write mem i c => .ok (0, { h with mem := fill h.mem (mem + i) 1 c })

/-- The number of bytes that the caller means -/
def requested : Call → ℕ
  | malloc n => n.toNat
  | calloc n s => n.toNat * s.toNat
  | realloc _ n => n.toNat
  | memalign _ size => size.toNat
  | posixMemalign _ size => size.toNat
  | valloc size => size.toNat
  | free _ => 0
  | write _ _ _ => 0

/-- The program has the pointer, or it is null. -/
def Has (live : List LiveBlock) (mem : ℕ) : Prop := mem = 0 ∨ ∃ b ∈ live, b.pointer = mem

instance (live : List LiveBlock) (mem : ℕ) : Decidable (Has live mem) :=
  inferInstanceAs (Decidable (_ ∨ _))

def Enabled (live : List LiveBlock) : Call → Prop
  | realloc mem _ => Has live mem
  | free mem => Has live mem
  | write mem i _ => ∃ b ∈ live, b.pointer = mem ∧ i < b.requested
  | _ => True

instance (live : List LiveBlock) : (call : Call) → Decidable (call.Enabled live)
  | malloc _ => inferInstanceAs (Decidable True)
  | calloc _ _ => inferInstanceAs (Decidable True)
  | realloc mem _ => inferInstanceAs (Decidable (Has live mem))
  | memalign _ _ => inferInstanceAs (Decidable True)
  | posixMemalign _ _ => inferInstanceAs (Decidable True)
  | valloc _ => inferInstanceAs (Decidable True)
  | free mem => inferInstanceAs (Decidable (Has live mem))
  | write mem i _ => inferInstanceAs (Decidable (∃ b ∈ live, b.pointer = mem ∧ i < b.requested))

/-- The ledger without a pointer -/
def drop (live : List LiveBlock) (mem : ℕ) : List LiveBlock :=
  live.eraseP fun b => b.pointer == mem

/-- The ledger with what was handed out for `n` bytes, unless it is null -/
def enter (live : List LiveBlock) (m : Memory) (q n : ℕ) : List LiveBlock :=
  if q = 0 then live else LiveBlock.handedOut m q n :: live

/-- The ledger after a call that returned `q` -/
def settle (live : List LiveBlock) (q : ℕ) (m : Memory) : Call → List LiveBlock
  | realloc mem n =>
      if n = 0 then drop live mem
      else if q = 0 then live
      else enter (drop live mem) m q n.toNat
  | free mem => drop live mem
  | write _ _ _ => live
  | call => enter live m q call.requested

end Call

def step (sys : System) (w : World) (a : Call × Answers) : Option World :=
  if w.stopped = none ∧ a.1.Enabled w.live then
    match a.1.perform sys a.2 w.heap with
    | .error e => some { w with stopped := some e }
    | .ok (q, h) => some ⟨h, a.1.settle w.live q h.mem, q, none⟩
  else none

/-! ## The steps that are considered -/

/-- `free` scrambles nothing outside the block. -/
def FreesInside (sys : System) (h : Heap) (mem : ℕ) : Prop := mem = 0 ∨ ScrambleFits sys h mem

instance (sys : System) (h : Heap) (mem : ℕ) : Decidable (FreesInside sys h mem) :=
  inferInstanceAs (Decidable (_ ∨ _))

/-- A pointer that is not displaced, in a block that the system moves if it is asked to -/
def Resizable (sys : System) (ans : Answers) (h : Heap) (mem n : ℕ) : Prop :=
  mem = 0 ∨ h.mem (mem - 16) ≠ isMemalign ∧ RemapServed sys ans h mem n

instance (sys : System) (ans : Answers) (h : Heap) (mem n : ℕ) :
    Decidable (Resizable sys ans h mem n) := inferInstanceAs (Decidable (_ ∨ _))

def Call.Sound (sys : System) (ans : Answers) (h : Heap) : Call → Prop
  | malloc n => Fits n.toNat
  | calloc n s => Fits (n.toNat * s.toNat)
  | realloc mem n =>
      if n = 0 then FreesInside sys h mem else Fits n.toNat ∧ Resizable sys ans h mem n.toNat
  | memalign alignment size => 0 < alignment ∧ Fits (size.toNat + alignment.toNat)
  | posixMemalign alignment size =>
      PosixRefuses alignment.toNat ∨ Fits (size.toNat + alignment.toNat)
  | valloc size => Fits (size.toNat + sys.getpagesize)
  | free mem => FreesInside sys h mem
  | write _ _ _ => True

instance (sys : System) (ans : Answers) (h : Heap) : (call : Call) → Decidable (call.Sound sys ans h)
  | .malloc n => inferInstanceAs (Decidable (Fits n.toNat))
  | .calloc n s => inferInstanceAs (Decidable (Fits (n.toNat * s.toNat)))
  | .realloc mem n => inferInstanceAs (Decidable (if n = 0 then FreesInside sys h mem
      else Fits n.toNat ∧ Resizable sys ans h mem n.toNat))
  | .memalign alignment size =>
      inferInstanceAs (Decidable (0 < alignment ∧ Fits (size.toNat + alignment.toNat)))
  | .posixMemalign alignment size =>
      inferInstanceAs (Decidable (PosixRefuses alignment.toNat ∨
        Fits (size.toNat + alignment.toNat)))
  | .valloc size => inferInstanceAs (Decidable (Fits (size.toNat + sys.getpagesize)))
  | .free mem => inferInstanceAs (Decidable (FreesInside sys h mem))
  | .write _ _ _ => inferInstanceAs (Decidable True)

/-- The step is one of those that the allocator is made for. -/
def Sound (sys : System) (w : World) (a : Call × Answers) : Prop :=
  StartsEven sys w.heap a.2 ∧ a.1.Sound sys a.2 w.heap

instance (sys : System) (w : World) (a : Call × Answers) : Decidable (Sound sys w a) :=
  inferInstanceAs (Decidable (_ ∧ _))

/-! ## A small system -/

def smallSystem : System where
  pageShift := 12
  initialBreak := 69504
  memscramble := true
  pageShift_ge := by decide
  pageShift_le := by decide
  initialBreak_pos := by decide
  initialBreak_le := by decide

def smallAnswers : Answers where
  alignGranted := true
  sbrkGranted := true
  mmapAt := some 1048576
  mremapAt := some 2097152
  contents := fun _ => 0

def smallWorld : World := World.initial smallSystem fun _ => 0

/-! ## What one step keeps -/

variable {sys : System} {m m' : Memory} {h h' : Heap} {live rest : List LiveBlock} {b : LiveBlock}
  {w w' : World} {call : Call} {ans : Answers} {n q mem : ℕ}

namespace LiveBlock.Intact

theorem trueStart_sub (hb : b.Intact m) : trueStart m b.pointer - 16 = b.base ∧
    (m (trueStart m b.pointer - 15)).toNat = b.bin ∧
    load m (trueStart m b.pointer - 12) 4 = b.nbytes := by
  rw [hb.trueStart_eq, Nat.add_sub_cancel, show b.base + 16 - 15 = b.base + 1 by omega,
    show b.base + 16 - 12 = b.base + 4 by omega]
  exact ⟨rfl, hb.index, hb.size⟩

theorem handedOut_eq (hb : b.Intact m) : LiveBlock.handedOut m b.pointer b.requested = b := by
  obtain ⟨hbase, hbin, hsize⟩ := hb.trueStart_sub
  rw [LiveBlock.handedOut, hbase, hbin, hsize]

theorem hasRoom (hb : b.Intact m) : HasRoom m b.pointer b.requested := by
  obtain ⟨hbase, hbin, hsize⟩ := hb.trueStart_sub
  have hroom := hb.room
  have hinside := hb.inside
  rw [HasRoom, hbase, hbin, hsize, hb.trueStart_eq]
  omega

theorem pointer_pos (hb : b.Intact m) : b.pointer ≠ 0 := by
  have := hb.inside
  omega

/-- A pointer is displaced where the mark of `memalign` is before it. -/
theorem plain_iff (hb : b.Intact m) :
    b.pointer = b.base + 16 ↔ m (b.pointer - 16) ≠ isMemalign := by
  constructor
  · intro hplain
    rw [hplain, Nat.add_sub_cancel, hb.alloc]
    decide
  · intro hmark
    by_contra hne
    exact hmark (hb.displaced hne).2.1

end LiveBlock.Intact

theorem perm_drop (hhas : ∃ b ∈ live, b.pointer = mem) :
    ∃ b ∈ live, b.pointer = mem ∧ live.Perm (b :: Call.drop live mem) := by
  obtain ⟨c, hc, hpointer⟩ := hhas
  obtain ⟨b, before, after, _, hb, hlive, hdrop⟩ :=
    List.exists_of_eraseP (p := fun b => b.pointer == mem) hc (beq_iff_eq.mpr hpointer)
  refine ⟨b, hlive ▸ List.mem_append_right _ List.mem_cons_self, beq_iff_eq.mp hb, ?_⟩
  rw [Call.drop, hdrop, hlive]
  exact List.perm_middle

theorem drop_null (hw : WellFormed sys h live) : Call.drop live 0 = live :=
  List.eraseP_of_forall_not fun _ hb hzero =>
    (hw.intact hb).pointer_pos (beq_iff_eq.mp hzero)

theorem grants_enter {outcome : Except Stop (ℕ × Heap)} {good : LiveBlock → Heap → Prop}
    (hgrants : Grants sys h live n outcome good) :
    ∃ q h', outcome = .ok (q, h') ∧ WellFormed sys h' (Call.enter live h'.mem q n) ∧
      Undisturbed live h.mem h'.mem ∧
      (q ≠ 0 → HasRoom h'.mem q n ∧ ∃ b : LiveBlock, b.pointer = q ∧ good b h') := by
  rcases hgrants with ⟨h', hok, hw, hkept⟩ | ⟨h', b, hok, hn, hw, hkept, hgood⟩
  · exact ⟨0, h', hok, by rwa [Call.enter, if_pos rfl], hkept, fun hne => absurd rfl hne⟩
  · have hb := hw.intact List.mem_cons_self
    refine ⟨b.pointer, h', hok, ?_, hkept, fun _ => ⟨hn ▸ hb.hasRoom, b, rfl, hgood⟩⟩
    rwa [Call.enter, if_neg hb.pointer_pos, ← hn, hb.handedOut_eq]

theorem WellFormed.apart {c : LiveBlock} (hw : WellFormed sys h live) (hb : b ∈ live)
    (hc : c ∈ live) (hne : b ≠ c) : Apart b.region c.region := by
  rcases hw.heap with ⟨rfl, _⟩ | ⟨free, hcon, _⟩
  · cases hb
  · have hsep := hcon.layout.separated
    rw [blocks, List.nil_append, List.map_append, separated_append, List.map_map] at hsep
    have : Std.Symm fun x y : LiveBlock =>
        Apart ((Block.region ∘ LiveBlock.toBlock) x) ((Block.region ∘ LiveBlock.toBlock) y) :=
      ⟨fun _ _ hxy => hxy.symm⟩
    exact (List.pairwise_map.mp hsep.2.1).forall hb hc hne

/-- A pointer is handed out once. -/
theorem WellFormed.eq_of_pointer {c : LiveBlock} (hw : WellFormed sys h live) (hb : b ∈ live)
    (hc : c ∈ live) (heq : b.pointer = c.pointer) : b = c := by
  have hbi := hw.intact hb
  have hci := hw.intact hc
  by_contra hne
  have hapart := hw.apart hb hc hne
  have hinside := hbi.inside
  have hinside' := hci.inside
  have hroom := hbi.room
  have hroom' := hci.room
  simp only [Apart, Block.region] at hapart
  omega

structure Good (sys : System) (w : World) : Prop where
  running : w.stopped = none
  heap : WellFormed sys w.heap w.live

theorem good_initial (sys : System) (m : Memory) : Good sys (World.initial sys m) :=
  ⟨rfl, rfl, .inl ⟨rfl, m, rfl⟩⟩

namespace Call

/-- The call asks for memory. -/
def Requests : Call → Prop
  | realloc _ n => n ≠ 0
  | free _ => False
  | write _ _ _ => False
  | _ => True

/-- The alignment that is asked for -/
def alignment (sys : System) : Call → ℕ
  | memalign alignment _ => alignment.toNat
  | posixMemalign alignment _ => alignment.toNat
  | valloc _ => sys.getpagesize
  | _ => 1

/-- The blocks that the call is not about; a write has its own rule. -/
def others (live : List LiveBlock) : Call → List LiveBlock
  | realloc mem _ => drop live mem
  | free mem => drop live mem
  | write _ _ _ => []
  | _ => live

end Call

/-- What a call does: null leaves all blocks as they are, and what is handed out has room and
leaves the others. -/
structure Handled (sys : System) (m : Memory) (live : List LiveBlock) (call : Call) (q : ℕ)
    (m' : Memory) : Prop where
  null : call.Requests → q = 0 → Undisturbed live m m'
  others : Undisturbed (call.others live) m m'
  room : q ≠ 0 → HasRoom m' q call.requested
  aligned : q ≠ 0 → ∀ k, call.alignment sys = 2 ^ k → call.alignment sys ∣ q
  zeroed : q ≠ 0 → ∀ n s, call = .calloc n s → ∀ i < call.requested, m' (q + i) = 0
  carries : ∀ mem n, call = .realloc mem n → q ≠ 0 →
    ∀ b ∈ live, b.pointer = mem → Carries m m' mem q (min b.requested n.toNat)
  written : ∀ mem i c, call = .write mem i c → m' = fill m (mem + i) 1 c

theorem ne_zero_toNat {n : UInt64} (hn : n ≠ 0) : n.toNat ≠ 0 := fun hzero =>
  hn (UInt64.toNat_inj.mp hzero)

theorem Grants.mono {outcome : Except Stop (ℕ × Heap)} {good good' : LiveBlock → Heap → Prop}
    (hgrants : Grants sys h live n outcome good) (himp : ∀ b h', good b h' → good' b h') :
    Grants sys h live n outcome good' := by
  rcases hgrants with hnull | ⟨h', b, hok, hn, hw, hkept, hgood⟩
  · exact .inl hnull
  · exact .inr ⟨h', b, hok, hn, hw, hkept, himp b h' hgood⟩

theorem grants_plain (hw : WellFormed sys h live) (hstart : StartsEven sys h ans) (hn : n < 2 ^ 64)
    (hfits : Fits n) : Grants sys h live n (internalMalloc sys ans h n) fun _ _ => True := by
  have hgrants := grants_malloc hw hstart hfits
  rw [Nat.mod_eq_of_lt hn] at hgrants
  exact hgrants.mono fun _ _ _ => trivial

/-- The calls that allocate and resize nothing -/
theorem grants_call (hw : WellFormed sys h live) (hstart : StartsEven sys h ans)
    (hsound : call.Sound sys ans h) (hrequests : call.Requests)
    (hnew : ∀ mem n, call = .realloc mem n → mem = 0) :
    Grants sys h live call.requested (call.perform sys ans h)
      fun b h' => (∀ k, call.alignment sys = 2 ^ k → call.alignment sys ∣ b.pointer) ∧
        ∀ n s, call = .calloc n s → ∀ i < call.requested, h'.mem (b.pointer + i) = 0 := by
  have hzeroed : (∀ n s, call ≠ .calloc n s) → ∀ (b : LiveBlock) (h' : Heap),
      (∀ k, call.alignment sys = 2 ^ k → call.alignment sys ∣ b.pointer) →
      (∀ k, call.alignment sys = 2 ^ k → call.alignment sys ∣ b.pointer) ∧
        ∀ n s, call = .calloc n s → ∀ i < call.requested, h'.mem (b.pointer + i) = 0 :=
    fun hne _ _ haligned => ⟨haligned, fun n s hcall => absurd hcall (hne n s)⟩
  cases call with
  | malloc n =>
      exact (grants_plain hw hstart n.toNat_lt hsound).mono fun b h' _ =>
        hzeroed (fun _ _ => Call.noConfusion) b h' fun _ _ => Nat.one_dvd _
  | calloc n s =>
      exact (grants_calloc hw hstart hsound).mono fun b _ hbytes =>
        ⟨fun _ _ => Nat.one_dvd _, fun _ _ _ => hbytes⟩
  | realloc mem n =>
      obtain rfl := hnew mem n rfl
      have hfits : Fits n.toNat := by
        rw [Call.Sound, if_neg hrequests] at hsound
        exact hsound.1
      rw [Call.perform, internalRealloc, if_neg (ne_zero_toNat hrequests), if_pos rfl]
      exact (grants_plain hw hstart n.toNat_lt hfits).mono fun b h' _ =>
        hzeroed (fun _ _ => Call.noConfusion) b h' fun _ _ => Nat.one_dvd _
  | memalign alignment size =>
      exact (grants_memalign hw hstart (UInt64.lt_iff_toNat_lt.mp hsound.1) hsound.2).mono
        (hzeroed fun _ _ => Call.noConfusion)
  | posixMemalign alignment size =>
      exact (grants_posixMemalign hw hstart hsound).mono (hzeroed fun _ _ => Call.noConfusion)
  | valloc size =>
      exact (grants_memalign hw hstart (getpagesize_pos sys) hsound).mono
        (hzeroed fun _ _ => Call.noConfusion)
  | free mem => cases hrequests
  | write mem i c => cases hrequests

theorem WellFormed.perm {live' : List LiveBlock} (hw : WellFormed sys h live)
    (hperm : live.Perm live') : WellFormed sys h live' := by
  refine ⟨hw.idle, ?_⟩
  rcases hw.heap with ⟨rfl, hinitial⟩ | ⟨free, hc, hsmall⟩
  · exact .inl ⟨List.nil_perm.mp hperm, hinitial⟩
  · exact .inr ⟨free, ⟨hc.layout.of_perm (hperm.map _) fun b hb =>
      hc.layout.intact b (hperm.mem_iff.mpr hb), hc.kernel, hc.memtop, hc.aligned, hc.pagesz,
      hc.maxbuck⟩, hsmall⟩

theorem free_spec (hw : WellFormed sys h live) (hhas : Call.Has live mem)
    (hinside : FreesInside sys h mem) :
    ∃ h', internalFree sys h mem = .ok h' ∧ WellFormed sys h' (Call.drop live mem) ∧
      Undisturbed (Call.drop live mem) h.mem h'.mem := by
  rcases Nat.eq_zero_or_pos mem with rfl | hpos
  · rw [drop_null hw, internalFree, if_pos rfl]
    exact ⟨h, rfl, hw, Undisturbed.refl live h.mem⟩
  · obtain ⟨b, _, rfl, hperm⟩ := perm_drop (hhas.resolve_left hpos.ne')
    exact internalFree_spec hw hperm (hinside.resolve_left hpos.ne')

theorem write_spec {i : ℕ} (hw : WellFormed sys h live)
    (henabled : ∃ b ∈ live, b.pointer = mem ∧ i < b.requested) (c : UInt8) :
    WellFormed sys { h with mem := fill h.mem (mem + i) 1 c } live := by
  obtain ⟨b, hmem, rfl, hi⟩ := henabled
  have hb := hw.intact hmem
  have hroom := hb.room
  have hinside := hb.inside
  have hperm := List.perm_cons_erase hmem
  refine (hw.rewrite hperm (by rfl) ?_ (hb.written fun x _ => fill_apart (by omega))).1.perm
    hperm.symm
  refine (ChangedIn.refl _ h.mem).fill List.mem_cons_self ?_
  simp only [Within, Block.region]
  omega

/-- `realloc` of a pointer that the program has -/
theorem realloc_spec {n : UInt64} (hw : WellFormed sys h live) (hstart : StartsEven sys h ans)
    (hn : n ≠ 0) (hhas : ∃ b ∈ live, b.pointer = mem) (hfits : Fits n.toNat)
    (hresizable : Resizable sys ans h mem n.toNat) :
    ∃ q h', internalRealloc sys ans h mem n.toNat = .ok (q, h') ∧
      WellFormed sys h' (Call.settle live q h'.mem (.realloc mem n)) ∧
      Handled sys h.mem live (.realloc mem n) q h'.mem := by
  obtain ⟨b, hmem, rfl, hperm⟩ := perm_drop hhas
  have hb := hw.intact hmem
  obtain ⟨hmark, hserved⟩ := hresizable.resolve_left hb.pointer_pos
  have hwrap : n.toNat + 35 < 2 ^ 64 := by
    have hlt := n.toNat_lt
    rcases hfits with hwrap | hlarge
    · exact hwrap
    · simp only [allocatedBytes, maxallocSize, show binsize (nbuckets - 1) = 2 ^ 32 - 1 from rfl]
        at hlarge
      omega
  simp only [Call.settle, if_neg hn]
  rcases reallocates hw hperm (hb.plain_iff.mpr hmark) hstart (ne_zero_toNat hn) hwrap hserved with
    ⟨h', hok, hw', hkept⟩ | ⟨q, h', hok, b', rfl, hreq, hplain, hw', hkept, hcarries⟩
  · exact ⟨0, h', hok, hw', fun _ _ => hkept,
      fun c hc => hkept c (List.mem_of_mem_eraseP hc), fun hne => absurd rfl hne,
      fun hne => absurd rfl hne, fun hne => absurd rfl hne, fun _ _ _ hne => absurd rfl hne,
      fun _ _ _ hcall => (by cases hcall)⟩
  · have hb' := hw'.intact List.mem_cons_self
    have hroom : HasRoom h'.mem b'.pointer n.toNat := hreq ▸ hb'.hasRoom
    refine ⟨_, h', hok, ?_, fun _ hzero => absurd hzero hb'.pointer_pos, hkept,
      fun _ => hroom, fun _ _ _ => Nat.one_dvd _, fun _ _ _ hcall => (by cases hcall),
      fun mem n' hcall _ c hc hpointer => ?_, fun _ _ _ hcall => (by cases hcall)⟩
    · rwa [if_neg hb'.pointer_pos, Call.enter, if_neg hb'.pointer_pos, ← hreq, hb'.handedOut_eq]
    · cases hcall
      rwa [hw.eq_of_pointer hc hmem hpointer]

theorem handled_freed (hcall : call = .free mem ∨ call = .realloc mem 0)
    (hkept : Undisturbed (Call.drop live mem) m m') : Handled sys m live call 0 m' := by
  have hothers : call.others live = Call.drop live mem := by
    rcases hcall with rfl | rfl
    · rfl
    · rfl
  refine ⟨fun hrequests => ?_, hothers ▸ hkept, fun hne => absurd rfl hne,
    fun hne => absurd rfl hne, fun hne => absurd rfl hne, fun _ _ _ hne => absurd rfl hne,
    fun _ _ _ hwrite => ?_⟩
  · rcases hcall with rfl | rfl
    · exact hrequests.elim
    · exact absurd rfl hrequests
  · rcases hcall with rfl | rfl
    · cases hwrite
    · cases hwrite

theorem handled_written (sys : System) (m : Memory) (live : List LiveBlock) (mem i : ℕ) (c : UInt8) :
    Handled sys m live (.write mem i c) 0 (fill m (mem + i) 1 c) := by
  refine ⟨fun hrequests => hrequests.elim, fun _ hb => (by cases hb), fun hne => absurd rfl hne,
    fun hne => absurd rfl hne, fun hne => absurd rfl hne, fun _ _ _ hne => absurd rfl hne,
    fun _ _ _ hcall => ?_⟩
  cases hcall
  rfl

/-- The calls that allocate -/
theorem perform_new (hw : WellFormed sys h live) (hstart : StartsEven sys h ans)
    (hsound : call.Sound sys ans h) (hrequests : call.Requests)
    (hnew : ∀ mem n, call = .realloc mem n → mem = 0)
    (hothers : call.others live = live) (hwrite : ∀ mem i c, call ≠ .write mem i c)
    (hsettle : ∀ q m, call.settle live q m = Call.enter live m q call.requested) :
    ∃ q h', call.perform sys ans h = .ok (q, h') ∧ WellFormed sys h' (call.settle live q h'.mem) ∧
      Handled sys h.mem live call q h'.mem := by
  obtain ⟨q, h', hok, hw', hkept, hroom⟩ :=
    grants_enter (grants_call hw hstart hsound hrequests hnew)
  refine ⟨q, h', hok, (hsettle q h'.mem).symm ▸ hw', fun _ _ => hkept,
    hothers.symm ▸ hkept, fun hne => (hroom hne).1, fun hne => ?_, fun hne => ?_,
    fun mem n hcall _ b hb hpointer => ?_, fun mem i c hcall => absurd hcall (hwrite mem i c)⟩
  · obtain ⟨b, rfl, haligned, -⟩ := (hroom hne).2
    exact haligned
  · obtain ⟨b, rfl, -, hzeroed⟩ := (hroom hne).2
    exact hzeroed
  · exact absurd (hpointer.trans (hnew mem n hcall)) (hw.intact hb).pointer_pos

theorem settle_realloc_null (hw : WellFormed sys h live) {n : UInt64} (hn : n ≠ 0) (q : ℕ)
    (m : Memory) : Call.settle live q m (.realloc 0 n) = Call.enter live m q n.toNat := by
  rw [Call.settle, if_neg hn, drop_null hw]
  split_ifs with hzero
  · rw [hzero, Call.enter, if_pos rfl]
  · rfl

theorem perform_spec (hw : WellFormed sys h live) (hstart : StartsEven sys h ans)
    (hsound : call.Sound sys ans h) (henabled : call.Enabled live) :
    ∃ q h', call.perform sys ans h = .ok (q, h') ∧ WellFormed sys h' (call.settle live q h'.mem) ∧
      Handled sys h.mem live call q h'.mem := by
  cases call with
  | malloc n =>
      exact perform_new hw hstart hsound trivial (fun _ _ => Call.noConfusion) rfl
        (fun _ _ _ => Call.noConfusion) fun _ _ => rfl
  | calloc n s =>
      exact perform_new hw hstart hsound trivial (fun _ _ => Call.noConfusion) rfl
        (fun _ _ _ => Call.noConfusion) fun _ _ => rfl
  | memalign alignment size =>
      exact perform_new hw hstart hsound trivial (fun _ _ => Call.noConfusion) rfl
        (fun _ _ _ => Call.noConfusion) fun _ _ => rfl
  | posixMemalign alignment size =>
      exact perform_new hw hstart hsound trivial (fun _ _ => Call.noConfusion) rfl
        (fun _ _ _ => Call.noConfusion) fun _ _ => rfl
  | valloc size =>
      exact perform_new hw hstart hsound trivial (fun _ _ => Call.noConfusion) rfl
        (fun _ _ _ => Call.noConfusion) fun _ _ => rfl
  | free mem =>
      obtain ⟨h', hok, hw', hkept⟩ := free_spec hw henabled hsound
      refine ⟨0, h', ?_, hw', handled_freed (.inl rfl) hkept⟩
      rw [Call.perform, hok]
      rfl
  | write mem i c => exact ⟨0, _, rfl, write_spec hw henabled c, handled_written _ _ _ _ _ _⟩
  | realloc mem n =>
      by_cases hn : n = 0
      · subst hn
        obtain ⟨h', hok, hw', hkept⟩ := free_spec hw henabled hsound
        refine ⟨0, h', ?_, hw', handled_freed (.inr rfl) hkept⟩
        rw [Call.perform, internalRealloc, if_pos (show UInt64.toNat 0 = 0 from rfl), hok]
        rfl
      · rcases Nat.eq_zero_or_pos mem with rfl | hpos
        · refine perform_new hw hstart hsound hn (fun _ _ hcall => ?_) (drop_null hw)
            (fun _ _ _ => Call.noConfusion) (settle_realloc_null hw hn)
          cases hcall
          rfl
        · rw [Call.Sound, if_neg hn] at hsound
          exact realloc_spec hw hstart hn (henabled.resolve_left hpos.ne') hsound.1 hsound.2

theorem step_spec (hgood : Good sys w) (hsound : Sound sys w (call, ans))
    (hstep : step sys w (call, ans) = some w') :
    Good sys w' ∧ Handled sys w.heap.mem w.live call w'.result w'.heap.mem ∧
      w'.live = call.settle w.live w'.result w'.heap.mem := by
  rw [step] at hstep
  split_ifs at hstep with henabled
  obtain ⟨q, h', hok, hw', hhandled⟩ :=
    perform_spec hgood.heap hsound.1 hsound.2 henabled.2
  rw [hok] at hstep
  obtain rfl := Option.some.inj hstep
  exact ⟨⟨rfl, hw'⟩, hhandled, rfl⟩

theorem step_enabled (hstep : step sys w (call, ans) = some w') : call.Enabled w.live := by
  rw [step] at hstep
  split_ifs at hstep with henabled
  exact henabled.2

/-- Every state that is reached by such steps is good. -/
theorem good_run {path : List (Call × Answers)}
    (hmeets : PathMeets (step sys) (Sound sys) (World.initial sys m) path)
    (hrun : runPath (step sys) (World.initial sys m) path = some w) : Good sys w :=
  path_invariant (fun _ _ _ hgood hsound hstep => (step_spec hgood hsound hstep).1)
    (good_initial sys m) hmeets hrun

end Malloc

end Rash
