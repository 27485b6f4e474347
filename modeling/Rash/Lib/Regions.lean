import Mathlib.Data.Nat.Notation
import Mathlib.Data.List.Pairwise
import Mathlib.Data.List.Perm.Basic

/-!
# Regions of an address space

A region is an interval of addresses.  Regions that are pairwise apart stay so when they are
reordered, when some of them are cut into smaller ones and when neighbours are joined.
-/

namespace Regions

structure Region where
  start : ℕ
  length : ℕ
  deriving DecidableEq, Repr

namespace Region

def stop (r : Region) : ℕ := r.start + r.length

instance : Membership ℕ Region where
  mem r x := r.start ≤ x ∧ x < r.start + r.length

theorem mem_def {r : Region} {x : ℕ} : x ∈ r ↔ r.start ≤ x ∧ x < r.start + r.length := Iff.rfl

theorem mem_mk {a len x : ℕ} : x ∈ (⟨a, len⟩ : Region) ↔ a ≤ x ∧ x < a + len := Iff.rfl

instance (r : Region) (x : ℕ) : Decidable (x ∈ r) :=
  inferInstanceAs (Decidable (r.start ≤ x ∧ x < r.start + r.length))

end Region

/-- One of the two regions ends before the other starts. -/
def Apart (r s : Region) : Prop :=
  r.start + r.length ≤ s.start ∨ s.start + s.length ≤ r.start

instance : DecidableRel Apart := fun r s =>
  inferInstanceAs (Decidable (r.start + r.length ≤ s.start ∨ s.start + s.length ≤ r.start))

def Within (r s : Region) : Prop :=
  s.start ≤ r.start ∧ r.start + r.length ≤ s.start + s.length

variable {r r' s s' : Region} {x : ℕ}

theorem Apart.symm (h : Apart r s) : Apart s r := Or.symm h

theorem Apart.not_mem (h : Apart r s) (hx : x ∈ r) : x ∉ s := by
  simp only [Apart, Region.mem_def] at *
  omega

theorem Apart.mono (h : Apart r s) (hr : Within r' r) (hs : Within s' s) : Apart r' s' := by
  simp only [Apart, Within] at *
  omega

theorem Within.refl (r : Region) : Within r r := ⟨Nat.le_refl _, Nat.le_refl _⟩

theorem Within.mem (h : Within r s) (hx : x ∈ r) : x ∈ s := by
  simp only [Within, Region.mem_def] at *
  omega

/-- A region that is not empty and apart from two neighbours is apart from their union. -/
theorem Apart.join {a len len' : ℕ} (hr : 0 < r.length) (h : Apart r ⟨a, len⟩)
    (h' : Apart r ⟨a + len, len'⟩) : Apart r ⟨a, len + len'⟩ := by
  simp only [Apart] at *
  omega

/-! ## Lists of regions -/

def Separated (rs : List Region) : Prop := rs.Pairwise Apart

variable {rs rs' rest new : List Region}

theorem Separated.perm (h : Separated rs) (hperm : rs.Perm rs') : Separated rs' :=
  (hperm.pairwise_iff fun h => h.symm).mp h

theorem separated_append : Separated (rs ++ rs') ↔
    Separated rs ∧ Separated rs' ∧ ∀ r ∈ rs, ∀ s ∈ rs', Apart r s := List.pairwise_append

theorem separated_cons : Separated (r :: rs) ↔ (∀ s ∈ rs, Apart r s) ∧ Separated rs :=
  List.pairwise_cons

/-- Some of the regions are exchanged for others that meet nothing the old ones did not. -/
theorem Separated.exchange (h : Separated (rs ++ rest)) (hnew : Separated new)
    (hcovered : ∀ s ∈ rest, (∀ r ∈ rs, Apart s r) → ∀ r ∈ new, Apart s r) :
    Separated (new ++ rest) := by
  obtain ⟨_, hrest, hbetween⟩ := separated_append.mp h
  refine separated_append.mpr ⟨hnew, hrest, fun r hr s hs => ?_⟩
  exact (hcovered s hs (fun r hr => (hbetween r hr s hs).symm) r hr).symm

/-- The starts of `n` regions of one length that follow each other. -/
def tile (len : ℕ) : ℕ → ℕ → List ℕ
  | _, 0 => []
  | a, n + 1 => a :: tile len (a + len) n

theorem mem_tile {len a n b : ℕ} (h : b ∈ tile len a n) :
    ∃ k < n, b = a + k * len := by
  induction n generalizing a with
  | zero => cases h
  | succ n ih =>
      rcases List.mem_cons.mp h with rfl | h
      · exact ⟨0, n.succ_pos, by simp⟩
      · obtain ⟨k, hk, rfl⟩ := ih h
        exact ⟨k + 1, by omega, by rw [Nat.succ_mul]; omega⟩

theorem within_tile {len a n b : ℕ} (h : b ∈ tile len a n) :
    Within ⟨b, len⟩ ⟨a, n * len⟩ := by
  obtain ⟨k, hk, rfl⟩ := mem_tile h
  have : (k + 1) * len ≤ n * len := Nat.mul_le_mul_right len hk
  rw [Nat.succ_mul] at this
  simp only [Within]
  omega

/-- The tiles cover the whole region. -/
theorem not_mem_of_tile {len a n x : ℕ}
    (h : ∀ r ∈ (tile len a n).map (fun b => (⟨b, len⟩ : Region)), x ∉ r) :
    x ∉ (⟨a, n * len⟩ : Region) := by
  induction n generalizing a with
  | zero =>
      rw [Region.mem_mk]
      omega
  | succ n ih =>
      have hfirst := h _ List.mem_cons_self
      have hrest := ih fun r hr => h r (List.mem_cons_of_mem _ hr)
      rw [Region.mem_mk] at *
      rw [Nat.succ_mul]
      omega

theorem separated_tile (len a n : ℕ) :
    Separated ((tile len a n).map fun b => ⟨b, len⟩) := by
  induction n generalizing a with
  | zero => exact List.Pairwise.nil
  | succ n ih =>
      refine separated_cons.mpr ⟨fun s hs => ?_, ih (a + len)⟩
      obtain ⟨b, hb, rfl⟩ := List.mem_map.mp hs
      have := within_tile hb
      simp only [Within, Apart] at *
      omega

end Regions
