import Mathlib.Data.List.GetD
import Rash.Lib.Regions
import Mathlib.Tactic.Ring

/-!
# Memory as bytes

Numbers are stored with their lowest byte first.  Every write is a `patch` of a region, and what
is read apart from the region is what was there.
-/

namespace ByteMemory

open Regions

abbrev Memory := ℕ → UInt8

/-- The region's bytes are exchanged for those of `f`. -/
def patch (m : Memory) (a len : ℕ) (f : ℕ → UInt8) : Memory :=
  fun x => if a ≤ x ∧ x < a + len then f (x - a) else m x

def fill (m : Memory) (a len : ℕ) (c : UInt8) : Memory := patch m a len fun _ => c

def copy (m : Memory) (src dst len : ℕ) : Memory := patch m dst len fun i => m (src + i)

def store (m : Memory) (a k v : ℕ) : Memory :=
  patch m a k fun i => UInt8.ofNat (v / 256 ^ i)

/-- The bytes of a text from `a` on -/
def write (m : Memory) (a : ℕ) (bytes : List UInt8) : Memory :=
  patch m a bytes.length fun i => bytes.getD i 0

def bytesAt (m : Memory) (a len : ℕ) : List UInt8 := (List.range len).map fun i => m (a + i)

def load (m : Memory) : ℕ → ℕ → ℕ
  | _, 0 => 0
  | a, k + 1 => (m a).toNat + 256 * load m (a + 1) k

variable {m m' : Memory} {a b k len v x : ℕ} {f : ℕ → UInt8} {c : UInt8}

/-! ## Bytes -/

theorem patch_apart (h : x < a ∨ a + len ≤ x) : patch m a len f x = m x :=
  if_neg (by omega)

theorem patch_inside (h : a ≤ x) (h' : x < a + len) : patch m a len f x = f (x - a) :=
  if_pos ⟨h, h'⟩

theorem fill_apart (h : x < a ∨ a + len ≤ x) : fill m a len c x = m x := patch_apart h

theorem fill_inside (h : a ≤ x) (h' : x < a + len) : fill m a len c x = c := patch_inside h h'

theorem store_apart (h : x < a ∨ a + k ≤ x) : store m a k v x = m x := patch_apart h

theorem copy_apart (h : x < b ∨ b + len ≤ x) : copy m a b len x = m x := patch_apart h

theorem copy_inside (h : b ≤ x) (h' : x < b + len) : copy m a b len x = m (a + (x - b)) :=
  patch_inside h h'

/-! ## Numbers -/

theorem load_congr (h : ∀ x, a ≤ x → x < a + k → m' x = m x) : load m' a k = load m a k := by
  induction k generalizing a with
  | zero => rfl
  | succ k ih =>
      rw [load, load, h a le_rfl (by omega), ih fun x hx hx' => h x (by omega) (by omega)]

theorem load_patch_apart (h : a + k ≤ b ∨ b + len ≤ a) :
    load (patch m b len f) a k = load m a k :=
  load_congr fun _ _ _ => patch_apart (by omega)

theorem load_fill_apart (h : a + k ≤ b ∨ b + len ≤ a) :
    load (fill m b len c) a k = load m a k := load_patch_apart h

theorem load_store_apart (h : a + k ≤ b ∨ b + len ≤ a) :
    load (store m b len v) a k = load m a k := load_patch_apart h

theorem load_lt (m : Memory) (a k : ℕ) : load m a k < 256 ^ k := by
  induction k generalizing a with
  | zero => exact Nat.one_pos
  | succ k ih =>
      have hbyte : (m a).toNat < 256 := (m a).toNat_lt
      have hrest := ih (a + 1)
      rw [load, pow_succ]
      omega

/-- The digits of a number, from the one at `i` on. -/
theorem load_digits (h : ∀ i < k, m (a + i) = UInt8.ofNat (v / 256 ^ i)) :
    load m a k = v % 256 ^ k := by
  induction k generalizing a v with
  | zero => rw [load, pow_zero, Nat.mod_one]
  | succ k ih =>
      have hrest : load m (a + 1) k = v / 256 % 256 ^ k := by
        refine ih fun i hi => ?_
        rw [show a + 1 + i = a + (i + 1) by ring, h (i + 1) (by omega), pow_succ',
          Nat.div_div_eq_div_mul]
      have hfirst := h 0 k.succ_pos
      rw [Nat.add_zero, pow_zero, Nat.div_one] at hfirst
      rw [load, hrest, hfirst, UInt8.toNat_ofNat', show 2 ^ 8 = 256 from rfl, pow_succ',
        Nat.mod_mul]

theorem load_store_self (m : Memory) (a k v : ℕ) : load (store m a k v) a k = v % 256 ^ k :=
  load_digits fun i hi => (patch_inside (by omega) (by omega)).trans (by simp)

theorem eq_zero_of_load (h : load m a k = 0) (hx : a ≤ x) (hx' : x < a + k) : m x = 0 := by
  induction k generalizing a with
  | zero => omega
  | succ k ih =>
      rw [load, Nat.add_eq_zero_iff, Nat.mul_eq_zero] at h
      rcases Nat.eq_or_lt_of_le hx with rfl | hlt
      · exact UInt8.toNat_inj.mp h.1
      · exact ih (h.2.resolve_left (by decide)) hlt (by omega)

/-- A 0 stored where a 0 is -/
theorem store_zero (h : load m a k = 0) : store m a k 0 = m := by
  funext x
  by_cases hx : a ≤ x ∧ x < a + k
  · rw [eq_zero_of_load h hx.1 hx.2, store, patch_inside hx.1 hx.2, Nat.zero_div]
    rfl
  · exact store_apart (by omega)

/-! ## Frames -/

/-- Only bytes of the regions differ. -/
def ChangedIn (rs : List Region) (m m' : Memory) : Prop :=
  ∀ x, (∀ r ∈ rs, x ∉ r) → m' x = m x

/-- The region's bytes are the same. -/
def Kept (m m' : Memory) (r : Region) : Prop := ∀ x ∈ r, m' x = m x

theorem ChangedIn.refl (rs : List Region) (m : Memory) : ChangedIn rs m m := fun _ _ => rfl

theorem ChangedIn.trans {rs : List Region} {m'' : Memory} (h : ChangedIn rs m m')
    (h' : ChangedIn rs m' m'') : ChangedIn rs m m'' :=
  fun x hx => (h' x hx).trans (h x hx)

theorem ChangedIn.mono {rs rs' : List Region} (h : ChangedIn rs m m')
    (hsub : ∀ r ∈ rs, ∃ r' ∈ rs', Within r r') : ChangedIn rs' m m' := by
  refine fun x hx => h x fun r hr hmem => ?_
  obtain ⟨r', hr', hwithin⟩ := hsub r hr
  exact hx r' hr' (hwithin.mem hmem)

theorem changedIn_patch (m : Memory) (a len : ℕ) (f : ℕ → UInt8) :
    ChangedIn [⟨a, len⟩] m (patch m a len f) := by
  intro x hx
  have hout := hx _ List.mem_cons_self
  rw [Region.mem_mk] at hout
  exact patch_apart (by omega)

/-- A patch within one of the regions. -/
theorem ChangedIn.patch {rs : List Region} {r : Region} (h : ChangedIn rs m m') (hr : r ∈ rs)
    (hwithin : Within ⟨a, len⟩ r) : ChangedIn rs m (patch m' a len f) :=
  h.trans ((changedIn_patch m' a len f).mono fun _ hs =>
    ⟨r, hr, by rwa [List.mem_singleton.mp hs]⟩)

theorem ChangedIn.store {rs : List Region} {r : Region} (h : ChangedIn rs m m') (hr : r ∈ rs)
    (hwithin : Within ⟨a, k⟩ r) : ChangedIn rs m (store m' a k v) := h.patch hr hwithin

theorem ChangedIn.fill {rs : List Region} {r : Region} (h : ChangedIn rs m m') (hr : r ∈ rs)
    (hwithin : Within ⟨a, len⟩ r) : ChangedIn rs m (fill m' a len c) := h.patch hr hwithin

theorem ChangedIn.copy {rs : List Region} {r : Region} {src : ℕ} (h : ChangedIn rs m m')
    (hr : r ∈ rs) (hwithin : Within ⟨a, len⟩ r) : ChangedIn rs m (copy m' src a len) :=
  h.patch hr hwithin

theorem ChangedIn.kept {rs : List Region} {r : Region} (h : ChangedIn rs m m')
    (hapart : ∀ s ∈ rs, Apart r s) : Kept m m' r :=
  fun x hx => h x fun s hs => (hapart s hs).not_mem hx

theorem Kept.refl (m : Memory) (r : Region) : Kept m m r := fun _ _ => rfl

theorem Kept.trans {m'' : Memory} {r : Region} (h : Kept m m' r) (h' : Kept m' m'' r) :
    Kept m m'' r := fun x hx => (h' x hx).trans (h x hx)

theorem Kept.load {r : Region} (h : Kept m m' r) (ha : Within ⟨a, k⟩ r) :
    load m' a k = load m a k :=
  load_congr fun x hx hx' => h x (ha.mem ⟨hx, hx'⟩)

/-! ## Texts -/

@[simp] theorem length_bytesAt (m : Memory) (a len : ℕ) : (bytesAt m a len).length = len := by
  rw [bytesAt, List.length_map, List.length_range]

theorem changedIn_write (m : Memory) (a : ℕ) (bytes : List UInt8) :
    ChangedIn [⟨a, bytes.length⟩] m (write m a bytes) := changedIn_patch m a bytes.length _

theorem Kept.bytesAt (h : Kept m m' ⟨a, len⟩) : bytesAt m' a len = bytesAt m a len := by
  refine List.map_congr_left fun i hi => h _ ⟨Nat.le_add_right a i, ?_⟩
  exact Nat.add_lt_add_left (List.mem_range.mp hi) a

theorem getElem?_bytesAt {i : ℕ} (h : i < len) : (bytesAt m a len)[i]? = some (m (a + i)) := by
  rw [bytesAt, List.getElem?_map, List.getElem?_range h]
  rfl

/-- One byte of the text is written. -/
theorem bytesAt_fill_one (m : Memory) (a len i : ℕ) (c : UInt8) :
    bytesAt (fill m (a + i) 1 c) a len = (bytesAt m a len).set i c := by
  refine List.ext_getElem? fun j => ?_
  by_cases hj : j < len
  · rw [getElem?_bytesAt hj, List.getElem?_set, length_bytesAt]
    by_cases hij : i = j
    · rw [if_pos hij, if_pos (hij ▸ hj), hij, fill_inside le_rfl (Nat.lt_succ_self _)]
    · rw [if_neg hij, fill_apart (by omega), getElem?_bytesAt hj]
  · rw [List.getElem?_eq_none (by rw [length_bytesAt]; omega),
      List.getElem?_eq_none (by rw [List.length_set, length_bytesAt]; omega)]

theorem bytesAt_append (m : Memory) (a k len : ℕ) :
    bytesAt m a (k + len) = bytesAt m a k ++ bytesAt m (a + k) len := by
  rw [bytesAt, List.range_add, List.map_append, List.map_map]
  refine congrArg (bytesAt m a k ++ ·) (List.map_congr_left fun i _ => ?_)
  rw [Function.comp_apply, Nat.add_assoc]

theorem bytesAt_write (m : Memory) (a : ℕ) (bytes : List UInt8) :
    bytesAt (write m a bytes) a bytes.length = bytes := by
  refine List.ext_getElem (length_bytesAt _ _ _) fun i _ hi => ?_
  rw [List.getElem_of_eq (bytesAt.eq_def _ a _), List.getElem_map, List.getElem_range, write,
    patch_inside (Nat.le_add_right a i) (Nat.add_lt_add_left hi a), Nat.add_sub_cancel_left,
    List.getD_eq_getElem _ _ hi]

/-- The bytes of another memory written where they were -/
theorem kept_write_bytesAt (m m' : Memory) (a len : ℕ) :
    Kept m (write m' a (bytesAt m a len)) ⟨a, len⟩ := by
  intro x hx
  obtain ⟨hlow, hhigh⟩ : a ≤ x ∧ x < a + len := hx
  have hindex : x - a < (bytesAt m a len).length := by
    rw [length_bytesAt]
    omega
  rw [write, patch_inside hlow (by rwa [length_bytesAt]), List.getD_eq_getElem _ _ hindex,
    List.getElem_of_eq (bytesAt.eq_def m a len), List.getElem_map, List.getElem_range,
    Nat.add_sub_cancel' hlow]

end ByteMemory
