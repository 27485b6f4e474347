import Rash.Malloc.Runs

/-!
# What the allocator keeps

In every run blocks stay apart and in memory that the process holds, what is handed out has room,
and a call that fails leaves the block that it was about.  The exceptions are a mapping that the
system does not move and the pointers that `memalign` displaces.
-/

namespace Rash

open Regions ByteMemory NullList Machine

namespace Malloc

variable {sys : System} {m : Memory} {h h' : Heap} {live rest : List LiveBlock} {b : LiveBlock}
  {w w' : World} {call : Call} {ans : Answers} {n : ℕ} {path : List (Call × Answers)}

/-! ## Separation -/

/-- The free lists and the blocks that are handed out share the memory that the process holds,
and what the caller asked for ends before the guard in its block. -/
structure Apportioned (sys : System) (h : Heap) (live : List LiveBlock) : Prop where
  layout : ∃ free, Layout sys h.mem h.nextf h.kernel free [] live
  inside : ∀ b ∈ live, 16 ∣ b.pointer ∧ b.base + 16 ≤ b.pointer ∧
    b.pointer + b.requested ≤ b.base + 16 + b.nbytes ∧
    b.base + 16 + b.nbytes + 4 ≤ b.base + binsize b.bin

theorem WellFormed.apportioned (hw : WellFormed sys h live) : Apportioned sys h live := by
  refine ⟨?_, fun b hb => ?_⟩
  · rcases hw.heap with ⟨rfl, m, rfl⟩ | ⟨free, hc, -⟩
    · exact ⟨_, layout_initial sys m⟩
    · exact ⟨free, hc.layout⟩
  · have hintact := hw.intact hb
    have hroom := hintact.room
    exact ⟨hintact.aligned, hintact.inside.1, hintact.inside.2, by omega⟩

/-- With any size, null leaves the blocks unless the mapping was to be moved: then the guard is
erased. -/
theorem failedRealloc_cases (hw : WellFormed sys h live) (hb : b ∈ live)
    (hplain : b.pointer = b.base + 16) (hstart : StartsEven sys h ans) (hn : n ≠ 0)
    (hfailed : internalRealloc sys ans h b.pointer n = .ok (0, h')) :
    (¬Remaps h b.pointer n ∧ Undisturbed live h.mem h'.mem) ∨
    Remaps h b.pointer n ∧ h'.mem = store h.mem (b.pointer + b.nbytes) 4 0 := by
  have hintact := hw.intact hb
  have hbin := (hw.held hb).1.bin
  have hpos := hintact.pointer_pos
  rw [internalRealloc_eq hintact hplain hbin hn] at hfailed
  rw [remaps_iff hintact hplain]
  split_ifs at hfailed with hsame hlarge hright hmap
  · exact absurd (Prod.mk.inj (Except.ok.inj hfailed)).1 hpos
  · obtain ⟨-, rfl⟩ := Prod.mk.inj (Except.ok.inj hfailed)
    exact .inl ⟨fun hremaps => Nat.not_le_of_lt hlarge hremaps.1.2.1, Undisturbed.refl live h.mem⟩
  · exact absurd (Prod.mk.inj (Except.ok.inj hfailed)).1 hpos
  · by_cases hnone : newBin h b.bin (allocatedBytes n) b.nbytes < nbuckets
    · rw [internalRemap_eq hintact hplain hnone] at hfailed
      split at hfailed
      · obtain ⟨-, rfl⟩ := Prod.mk.inj (Except.ok.inj hfailed)
        exact .inr ⟨⟨⟨hsame, Nat.le_of_not_lt hlarge, hright⟩, hmap.1, hmap.2, hnone⟩, rfl⟩
      · exact absurd (Prod.mk.inj (Except.ok.inj hfailed)).1 (by omega)
    · rw [internalRemap, if_pos (Nat.le_of_not_lt hnone)] at hfailed
      obtain ⟨-, rfl⟩ := Prod.mk.inj (Except.ok.inj hfailed)
      exact .inl ⟨fun hremaps => hnone hremaps.2.2.2, Undisturbed.refl live h.mem⟩
  · refine .inl ⟨fun hremaps => hmap ⟨hremaps.2.1, hremaps.2.2.1⟩, ?_⟩
    rcases internalMalloc_cases hw hstart n with
      ⟨h₁, hnull, -, hkept⟩ | ⟨filled, nu, htake, -, -, -⟩
    · rw [hnull] at hfailed
      obtain ⟨-, rfl⟩ := Prod.mk.inj (Except.ok.inj hfailed)
      exact hkept
    · rw [htake, takeBlock] at hfailed
      -- A block that is taken has a pointer behind its header.
      split_ifs at hfailed
      all_goals first
        | cases hfailed
        | (simp only [Except.bind, if_neg (show ¬filled.nextf nu + 16 = 0 by omega)] at hfailed
           split at hfailed
           · cases hfailed
           · exact absurd (Prod.mk.inj (Except.ok.inj hfailed)).1 (by omega))

/-- The bytes from a pointer to the guard of its block -/
def bytesToGuard (m : Memory) (q : ℕ) : ℕ :=
  trueStart m q + load m (trueStart m q - 12) 4 - q

end Malloc

end Rash
