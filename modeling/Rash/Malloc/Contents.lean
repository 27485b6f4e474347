import Rash.Malloc.Separation

/-!
# Independent arrays

To the program the heap is a list of arrays that share no address.  A call for memory adds one, of
any contents but zeros from `calloc`; `realloc` exchanges one for another with its first bytes;
`free` removes one, and a write changes one byte of one.  The allocator refines this.
-/

namespace Rash

open Regions ByteMemory Machine

namespace Malloc

structure ArrayCell where
  pointer : ℕ
  contents : List UInt8

namespace ArrayCell

def region (x : ArrayCell) : Region := ⟨x.pointer, x.contents.length⟩

/-- The arrays without the one at a pointer -/
def without (cells : List ArrayCell) (mem : ℕ) : List ArrayCell :=
  cells.eraseP fun x => x.pointer == mem

/-- An array is added where no other is. -/
def AddsCell (cells : List ArrayCell) (x : ArrayCell) (cells' : List ArrayCell) : Prop :=
  (x.pointer ≠ 0 ∧ ∀ y ∈ cells, y.pointer ≠ x.pointer ∧ Apart x.region y.region) ∧
    cells' = x :: cells

def set (mem i : ℕ) (c : UInt8) (x : ArrayCell) : ArrayCell :=
  if x.pointer = mem then { x with contents := x.contents.set i c } else x

end ArrayCell

open ArrayCell

/-- What a call that returns `q` means -/
def Call.Means (sys : System) (cells : List ArrayCell) : Call × ℕ → List ArrayCell → Prop
  | (free mem, _), cells' => cells' = without cells mem
  | (write mem i c, _), cells' => cells' = cells.map (ArrayCell.set mem i c)
  | (realloc mem n, q), cells' =>
      if n = 0 then cells' = without cells mem
      else q = 0 ∧ cells' = cells ∨ ∃ contents, contents.length = n.toNat ∧
        (∀ x ∈ cells, x.pointer = mem → ∀ i < min x.contents.length n.toNat,
          contents[i]? = x.contents[i]?) ∧
        AddsCell (without cells mem) ⟨q, contents⟩ cells'
  | (calloc n s, q), cells' =>
      q = 0 ∧ cells' = cells ∨ AddsCell cells ⟨q, List.replicate (n.toNat * s.toNat) 0⟩ cells'
  | (call, q), cells' =>
      q = 0 ∧ cells' = cells ∨ ∃ contents, contents.length = call.requested ∧
        (∀ k, call.alignment sys = 2 ^ k → call.alignment sys ∣ q) ∧ AddsCell cells ⟨q, contents⟩ cells'

variable {sys : System} {m m' : Memory} {h h' : Heap} {live rest : List LiveBlock} {b c : LiveBlock}
  {w w' : World} {call : Call} {ans : Answers} {n q mem : ℕ} {path : List (Call × Answers)}

/-- What a block holds for its caller -/
def LiveBlock.cell (m : Memory) (b : LiveBlock) : ArrayCell :=
  ⟨b.pointer, bytesAt m b.pointer b.requested⟩

def World.cells (w : World) : List ArrayCell := w.live.map (LiveBlock.cell w.heap.mem)

/-! ## Arrays of the blocks that are handed out -/

theorem LiveBlock.Intact.within (hb : b.Intact m) (m' : Memory) :
    Within (b.cell m').region b.region := by
  have hinside := hb.inside
  have hroom := hb.room
  simp only [Within, LiveBlock.cell, ArrayCell.region, Block.region, length_bytesAt]
  omega

theorem cell_eq (hb : b.Intact m) (hkept : Kept m m' b.region) : b.cell m' = b.cell m := by
  have hwithin := hb.within m
  refine congrArg (ArrayCell.mk b.pointer) (Kept.bytesAt fun x hx => hkept x (hwithin.mem ?_))
  rwa [LiveBlock.cell, ArrayCell.region, length_bytesAt]

theorem map_cell_eq (hw : WellFormed sys h live) (hsub : ∀ b ∈ rest, b ∈ live)
    (hkept : Undisturbed rest h.mem m') :
    rest.map (LiveBlock.cell m') = rest.map (LiveBlock.cell h.mem) :=
  List.map_congr_left fun b hb => cell_eq (hw.intact (hsub b hb)) (hkept b hb)

theorem without_map (m : Memory) (live : List LiveBlock) (mem : ℕ) :
    without (live.map (LiveBlock.cell m)) mem = (Call.drop live mem).map (LiveBlock.cell m) := by
  rw [without, List.eraseP_map]
  rfl

theorem WellFormed.apart_head (hw : WellFormed sys h (b :: rest)) (hc : c ∈ rest) :
    Apart b.region c.region := by
  rcases hw.heap with ⟨hnil, _⟩ | ⟨free, hcon, _⟩
  · cases hnil
  · have hsep := hcon.layout.separated
    rw [blocks, List.nil_append, List.map_append, separated_append, List.map_cons, List.map_cons,
      separated_cons] at hsep
    exact hsep.2.1.1 _ (List.mem_map_of_mem (List.mem_map_of_mem hc))

/-- What was handed out is an array apart from the others. -/
theorem adds_head (hw : WellFormed sys h (b :: rest)) :
    AddsCell (rest.map (LiveBlock.cell h.mem)) (b.cell h.mem)
      ((b :: rest).map (LiveBlock.cell h.mem)) := by
  have hb := hw.intact List.mem_cons_self
  refine ⟨⟨hb.pointer_pos, fun y hy => ?_⟩, rfl⟩
  obtain ⟨c, hc, rfl⟩ := List.mem_map.mp hy
  have hci := hw.intact (List.mem_cons_of_mem b hc)
  have hapart := hw.apart_head hc
  refine ⟨fun heq => ?_, hapart.mono (hb.within _) (hci.within _)⟩
  have hinside := hb.inside
  have hinside' := hci.inside
  have hroom := hb.room
  have hroom' := hci.room
  simp only [LiveBlock.cell] at heq
  simp only [Apart, Block.region] at hapart
  omega

/-! ## Calls -/

/-- What is entered in the ledger, beside blocks that keep what they hold -/
theorem enter_adds (hw : WellFormed sys h live) (hsub : ∀ b ∈ rest, b ∈ live)
    (hw' : WellFormed sys h' (Call.enter rest h'.mem q n)) (hne : q ≠ 0)
    (hkept : Undisturbed rest h.mem h'.mem) :
    AddsCell (rest.map (LiveBlock.cell h.mem)) ⟨q, bytesAt h'.mem q n⟩
      ((Call.enter rest h'.mem q n).map (LiveBlock.cell h'.mem)) := by
  rw [Call.enter, if_neg hne] at hw' ⊢
  rw [← map_cell_eq hw hsub hkept]
  exact adds_head hw'

theorem enter_means (hw : WellFormed sys h live)
    (hw' : WellFormed sys h' (Call.enter live h'.mem q n))
    (hkept : Undisturbed live h.mem h'.mem) :
    q = 0 ∧ (Call.enter live h'.mem q n).map (LiveBlock.cell h'.mem) =
        live.map (LiveBlock.cell h.mem) ∨
      q ≠ 0 ∧ AddsCell (live.map (LiveBlock.cell h.mem)) ⟨q, bytesAt h'.mem q n⟩
        ((Call.enter live h'.mem q n).map (LiveBlock.cell h'.mem)) := by
  by_cases hne : q = 0
  · refine .inl ⟨hne, ?_⟩
    rw [Call.enter, if_pos hne, map_cell_eq hw (fun _ hb => hb) hkept]
  · exact .inr ⟨hne, enter_adds hw (fun _ hb => hb) hw' hne hkept⟩

theorem drop_means (hw : WellFormed sys h live)
    (hkept : Undisturbed (Call.drop live mem) h.mem h'.mem) :
    (Call.drop live mem).map (LiveBlock.cell h'.mem) =
      without (live.map (LiveBlock.cell h.mem)) mem := by
  have hsub : ∀ b ∈ Call.drop live mem, b ∈ live := fun _ hb => List.mem_of_mem_eraseP hb
  rw [without_map, map_cell_eq hw hsub hkept]

/-- Only the block that is written to has another byte. -/
theorem write_means {i : ℕ} (hw : WellFormed sys h live)
    (henabled : ∃ b ∈ live, b.pointer = mem ∧ i < b.requested) (c : UInt8) :
    live.map (LiveBlock.cell (fill h.mem (mem + i) 1 c)) =
      (live.map (LiveBlock.cell h.mem)).map (ArrayCell.set mem i c) := by
  obtain ⟨b, hb, rfl, hi⟩ := henabled
  rw [List.map_map]
  refine List.map_congr_left fun d hd => ?_
  rw [Function.comp_apply, ArrayCell.set]
  by_cases heq : d.pointer = b.pointer
  · rw [if_pos (show (d.cell h.mem).pointer = b.pointer from heq), LiveBlock.cell, ← heq,
      bytesAt_fill_one]
    rfl
  · rw [if_neg (show ¬(d.cell h.mem).pointer = b.pointer from heq)]
    refine cell_eq (hw.intact hd) fun x hx => fill_apart ?_
    have hapart := hw.apart hb hd fun hbd => heq (hbd ▸ rfl)
    have hintact := hw.intact hb
    have hinside := hintact.inside
    have hroom := hintact.room
    simp only [Apart, Block.region, Region.mem_def] at hapart hx
    omega

theorem realloc_means {n : UInt64} (hw : WellFormed sys h live)
    (hw' : WellFormed sys h' (Call.settle live q h'.mem (.realloc mem n)))
    (hhandled : Handled sys h.mem live (.realloc mem n) q h'.mem) :
    Call.Means sys (live.map (LiveBlock.cell h.mem)) (.realloc mem n, q)
      ((Call.settle live q h'.mem (.realloc mem n)).map (LiveBlock.cell h'.mem)) := by
  have hothers : Undisturbed (Call.drop live mem) h.mem h'.mem := hhandled.others
  rw [Call.settle] at hw' ⊢
  rw [Call.Means]
  by_cases hn : n = 0
  · rw [if_pos hn, if_pos hn]
    exact drop_means hw hothers
  · rw [if_neg hn] at hw' ⊢
    rw [if_neg hn]
    by_cases hne : q = 0
    · rw [if_pos hne]
      exact .inl ⟨hne, map_cell_eq hw (fun _ hb => hb) (hhandled.null hn hne)⟩
    · rw [if_neg hne] at hw' ⊢
      refine .inr ⟨bytesAt h'.mem q n.toNat, length_bytesAt _ _ _, fun x hx hpointer i hi => ?_, ?_⟩
      · obtain ⟨b, hb, rfl⟩ := List.mem_map.mp hx
        have hi' : i < min b.requested n.toNat := by
          rwa [LiveBlock.cell, length_bytesAt] at hi
        have hcarries := hhandled.carries mem n rfl hne b hb hpointer i hi'
        rw [getElem?_bytesAt (by omega), hcarries, ← hpointer, LiveBlock.cell,
          getElem?_bytesAt (by omega)]
      · rw [without_map]
        exact enter_adds hw (fun _ hb => List.mem_of_mem_eraseP hb) hw' hne hothers

/-- Every step means what the call does to the arrays. -/
theorem step_means (hgood : Good sys w) (hsound : Sound sys w (call, ans))
    (hstep : step sys w (call, ans) = some w') :
    Call.Means sys w.cells (call, w'.result) w'.cells := by
  have hw := hgood.heap
  obtain ⟨hgood', hhandled, hlive⟩ := step_spec hgood hsound hstep
  have henabled := step_enabled hstep
  have hw' := hgood'.heap
  rw [World.cells, World.cells, hlive]
  rw [hlive] at hw'
  -- The calls that hand out an array with any contents
  have hnew : Undisturbed w.live w.heap.mem w'.heap.mem →
      WellFormed sys w'.heap (Call.enter w.live w'.heap.mem w'.result call.requested) →
      w'.result = 0 ∧ (Call.enter w.live w'.heap.mem w'.result call.requested).map
          (LiveBlock.cell w'.heap.mem) = w.live.map (LiveBlock.cell w.heap.mem) ∨
        ∃ contents, contents.length = call.requested ∧
          (∀ k, call.alignment sys = 2 ^ k → call.alignment sys ∣ w'.result) ∧
          AddsCell (w.live.map (LiveBlock.cell w.heap.mem)) ⟨w'.result, contents⟩
            ((Call.enter w.live w'.heap.mem w'.result call.requested).map
              (LiveBlock.cell w'.heap.mem)) := by
    intro hkept hentered
    rcases enter_means hw hentered hkept with hnull | ⟨hne, hadds⟩
    · exact .inl hnull
    · exact .inr ⟨_, length_bytesAt _ _ _, hhandled.aligned hne, hadds⟩
  cases call with
  | malloc n => exact hnew hhandled.others hw'
  | memalign alignment size => exact hnew hhandled.others hw'
  | posixMemalign alignment size => exact hnew hhandled.others hw'
  | valloc size => exact hnew hhandled.others hw'
  | calloc n s =>
      rcases enter_means hw hw' hhandled.others with hnull | ⟨hne, hadds⟩
      · exact .inl hnull
      · refine .inr ?_
        have hzero : bytesAt w'.heap.mem w'.result (Call.calloc n s).requested =
            List.replicate (n.toNat * s.toNat) 0 := by
          refine List.eq_replicate_iff.mpr ⟨length_bytesAt _ _ _, fun x hx => ?_⟩
          obtain ⟨i, hi, rfl⟩ := List.mem_map.mp hx
          exact hhandled.zeroed hne n s rfl i (List.mem_range.mp hi)
        rw [hzero] at hadds
        exact hadds
  | realloc mem n => exact realloc_means hw hw' hhandled
  | free mem => exact drop_means hw hhandled.others
  | write mem i c =>
      rw [hhandled.written mem i c rfl]
      exact write_means hw henabled c

end Malloc

end Rash
