import Mathlib.Data.List.Basic
import Mathlib.Tactic.Cases
import Mathlib.Tactic.SplitIfs

/-!
# Tables of descriptors

Tables that map numbers to open files, with the calls that change them, and records that take
the changes back.  What a record of calls restores is stated up to a list of numbers on which
the table may have gained a file.
-/

structure DescriptorTable (F : Type*) where
  file : Int → Option F
  nonneg : ∀ fd f, file fd = some f → 0 ≤ fd

namespace DescriptorTable

variable {F : Type*}

@[ext] theorem ext {t u : DescriptorTable F} (h : ∀ fd, t.file fd = u.file fd) : t = u := by
  obtain ⟨f, hf⟩ := t
  obtain ⟨g, hg⟩ := u
  obtain rfl : f = g := funext h
  rfl

def isOpen (t : DescriptorTable F) (fd : Int) : Bool := (t.file fd).isSome

theorem isOpen_iff {t : DescriptorTable F} {fd : Int} :
    t.isOpen fd = true ↔ ∃ f, t.file fd = some f := Option.isSome_iff_exists

theorem not_isOpen_iff {t : DescriptorTable F} {fd : Int} :
    t.isOpen fd = false ↔ t.file fd = none := by
  simp [isOpen]

def put (t : DescriptorTable F) (fd : Int) (hfd : 0 ≤ fd) (f : F) : DescriptorTable F where
  file q := if q = fd then some f else t.file q
  nonneg q g h := by
    split at h
    · next hq => exact hq ▸ hfd
    · exact t.nonneg q g h

def close (t : DescriptorTable F) (fd : Int) : DescriptorTable F where
  file q := if q = fd then none else t.file q
  nonneg q g h := by
    split at h
    · cases h
    · exact t.nonneg q g h

@[simp] theorem put_file (t : DescriptorTable F) {fd : Int} (hfd : 0 ≤ fd) (f : F) (q : Int) :
    (t.put fd hfd f).file q = if q = fd then some f else t.file q := rfl

@[simp] theorem close_file (t : DescriptorTable F) (fd q : Int) :
    (t.close fd).file q = if q = fd then none else t.file q := rfl

theorem close_of_none {t : DescriptorTable F} {fd : Int} (h : t.file fd = none) :
    t.close fd = t := by
  ext1 q
  by_cases hq : q = fd
  · simp [hq, h]
  · simp [hq]

theorem close_comm (t : DescriptorTable F) (fd n : Int) :
    (t.close n).close fd = (t.close fd).close n := by
  ext1 q
  simp only [close_file]
  split_ifs <;> rfl

theorem put_close {t : DescriptorTable F} {fd : Int} (h : t.file fd = none) (hfd : 0 ≤ fd)
    (f : F) : (t.put fd hfd f).close fd = t := by
  ext1 q
  by_cases hq : q = fd
  · simp [hq, h]
  · simp [hq]

theorem put_close_of_ne {t : DescriptorTable F} {fd n : Int} (hne : n ≠ fd) (hn : 0 ≤ n)
    (f : F) : (t.put n hn f).close fd = (t.close fd).put n hn f := by
  ext1 q
  by_cases hq : q = n
  · simp [hq, hne]
  · simp [hq]

theorem file_neg (t : DescriptorTable F) {fd : Int} (hfd : fd < 0) : t.file fd = none := by
  rw [Option.eq_none_iff_forall_ne_some]
  intro f hf
  exact absurd (t.nonneg fd f hf) (by omega)

/-- `dup2 (src, dst)`. -/
def dup2 (limit : ℕ) (t : DescriptorTable F) (src dst : Int) : Option (DescriptorTable F) :=
  match t.file src with
  | none => none
  | some f => if h : 0 ≤ dst ∧ dst < limit then some (t.put dst h.1 f) else none

theorem dup2_eq_some {limit : ℕ} {t u : DescriptorTable F} {src dst : Int} :
    t.dup2 limit src dst = some u ↔
      ∃ f, t.file src = some f ∧ ∃ h : 0 ≤ dst ∧ dst < limit, u = t.put dst h.1 f := by
  unfold dup2
  cases t.file src with
  | none => simp
  | some f =>
      by_cases h : 0 ≤ dst ∧ dst < limit
      · simp [h, eq_comm]
      · simp [h]

/-- The number that `F_DUPFD` finds: the lowest one from `base` on that is not in use. -/
def lowest (limit : ℕ) (t : DescriptorTable F) (base : ℕ) : Option ℕ :=
  (List.range' base (limit - base)).find? fun n => !t.isOpen n

theorem lowest_spec {limit : ℕ} {t : DescriptorTable F} {base n : ℕ}
    (h : t.lowest limit base = some n) : t.file n = none ∧ base ≤ n ∧ n < limit := by
  have hmem := List.mem_of_find?_eq_some h
  have hclosed := List.find?_some h
  rw [List.mem_range'_1] at hmem
  refine ⟨?_, hmem.1, by omega⟩
  simpa [isOpen] using hclosed

theorem lowest_min {limit : ℕ} {t : DescriptorTable F} {base n m : ℕ}
    (h : t.lowest limit base = some n) (hbase : base ≤ m) (hmn : m < n) :
    t.file m ≠ none := by
  have hsmaller := (List.find?_range'_eq_some.mp h).2.2 m hbase hmn
  simpa [isOpen, Option.isSome_iff_ne_none] using hsmaller

/-! ## Tables that gain files -/

/-- `u` is `t`, but for files at some of the numbers of `K` that were not in use. -/
def Extends (K : List Int) (t u : DescriptorTable F) : Prop :=
  ∀ q, u.file q = t.file q ∨ q ∈ K ∧ t.file q = none

/-- The same off the number `d`. -/
def ChangesAt (d : Int) (K : List Int) (t u : DescriptorTable F) : Prop :=
  ∀ q, q ≠ d → u.file q = t.file q ∨ q ∈ K ∧ t.file q = none

variable {K L : List Int} {t u v : DescriptorTable F} {limit : ℕ} {d n : Int}

namespace Extends

theorem refl (t : DescriptorTable F) : Extends K t t := fun _ => .inl rfl

theorem mono (h : Extends K t u) (hKL : K ⊆ L) : Extends L t u := fun q =>
  (h q).imp_right fun ⟨hq, hnone⟩ => ⟨hKL hq, hnone⟩

theorem trans (h : Extends K t u) (h' : Extends K u v) : Extends K t v := by
  intro q
  rcases h' q with hv | ⟨hq, hv⟩
  · rw [hv]
    exact h q
  · rcases h q with hu | hu
    · exact .inr ⟨hq, hu ▸ hv⟩
    · exact .inr hu

theorem file_eq (h : Extends K t u) {q : Int} {f : F} (hq : t.file q = some f) :
    u.file q = some f := by
  rcases h q with hu | ⟨_, hu⟩
  · rw [hu, hq]
  · rw [hq] at hu
    cases hu

theorem close (h : Extends K t u) (fd : Int) : Extends K (t.close fd) (u.close fd) := by
  intro q
  by_cases hq : q = fd
  · exact .inl (by simp [hq])
  · simpa [hq] using h q

theorem put (h : Extends K t u) (hd : 0 ≤ d) (f : F) : Extends K (t.put d hd f) (u.put d hd f) := by
  intro q
  by_cases hq : q = d
  · exact .inl (by simp [hq])
  · simpa [hq] using h q

theorem changesAt (h : Extends K t u) : ChangesAt d K t u := fun q _ => h q

end Extends

namespace ChangesAt

theorem mono (h : ChangesAt d K t u) (hKL : K ⊆ L) : ChangesAt d L t u := fun q hq =>
  (h q hq).imp_right fun ⟨hk, hnone⟩ => ⟨hKL hk, hnone⟩

theorem trans (h : ChangesAt d K t u) (h' : ChangesAt d K u v) : ChangesAt d K t v := by
  intro q hqd
  rcases h' q hqd with hv | ⟨hq, hv⟩
  · rw [hv]
    exact h q hqd
  · rcases h q hqd with hu | hu
    · exact .inr ⟨hq, hu ▸ hv⟩
    · exact .inr hu

theorem close (h : ChangesAt d K t u) (fd : Int) : ChangesAt d K (t.close fd) (u.close fd) := by
  intro q hqd
  by_cases hq : q = fd
  · exact .inl (by simp [hq])
  · simpa [hq] using h q hqd

theorem file_eq (h : ChangesAt d K t u) {q : Int} {f : F} (hqd : q ≠ d) (hq : t.file q = some f) :
    u.file q = some f := by
  rcases h q hqd with hu | ⟨_, hu⟩
  · rw [hu, hq]
  · rw [hq] at hu
    cases hu

theorem extends_of (h : ChangesAt d K t u) (hd : u.file d = t.file d ∨ d ∈ K ∧ t.file d = none) :
    Extends K t u := by
  intro q
  by_cases hq : q = d
  · exact hq ▸ hd
  · exact h q hq

theorem put_self (hd : 0 ≤ d) (f : F) (t : DescriptorTable F) : ChangesAt d K t (t.put d hd f) :=
  fun q hq => .inl (by simp [hq])

theorem close_self (t : DescriptorTable F) : ChangesAt d K t (t.close d) :=
  fun q hq => .inl (by simp [hq])

theorem of_close (t : DescriptorTable F) : ChangesAt d K (t.close d) t :=
  fun q hq => .inl (by simp [hq])

end ChangesAt

/-! ## Taking changes back -/

inductive Op
  | dup2 (src dst : Int)
  | close (fd : Int)
  deriving DecidableEq

def Op.run (limit : ℕ) (t : DescriptorTable F) : Op → Option (DescriptorTable F)
  | .dup2 src dst => t.dup2 limit src dst
  | .close fd => some (t.close fd)

def run (limit : ℕ) : List Op → DescriptorTable F → Option (DescriptorTable F)
  | [], t => some t
  | op :: ops, t => (op.run limit t).bind (run limit ops)

theorem Op.run_extends {op : Op} (hrun : op.run limit t = some u) (h : Extends K t v) :
    ∃ w, op.run limit v = some w ∧ Extends K u w := by
  cases op with
  | dup2 src dst =>
      obtain ⟨f, hf, hdst, rfl⟩ := dup2_eq_some.mp hrun
      exact ⟨_, dup2_eq_some.mpr ⟨f, h.file_eq hf, hdst, rfl⟩, h.put hdst.1 f⟩
  | close fd =>
      obtain rfl : t.close fd = u := by simpa [Op.run] using hrun
      exact ⟨_, rfl, h.close fd⟩

theorem run_extends {ops : List Op} (hrun : run limit ops t = some u) (h : Extends K t v) :
    ∃ w, run limit ops v = some w ∧ Extends K u w := by
  induction ops generalizing t v with
  | nil =>
      obtain rfl : t = u := by simpa [run] using hrun
      exact ⟨v, rfl, h⟩
  | cons op ops ih =>
      obtain ⟨t', hop, hops⟩ := Option.bind_eq_some_iff.mp hrun
      obtain ⟨v', hop', hext⟩ := Op.run_extends hop h
      obtain ⟨w, hw, hext'⟩ := ih hops hext
      exact ⟨w, by simp [run, hop', hw], hext'⟩

theorem run_append (ops ops' : List Op) (t : DescriptorTable F) :
    run limit (ops ++ ops') t = (run limit ops t).bind (run limit ops') := by
  induction ops generalizing t with
  | nil => rfl
  | cons op ops ih =>
      simp only [List.cons_append, run]
      cases op.run limit t with
      | none => rfl
      | some u => exact ih u

/-- The calls lead from `u` back to `t`, but for files gained at the numbers of `K`. -/
def Reverts (limit : ℕ) (K : List Int) (ops : List Op) (u t : DescriptorTable F) : Prop :=
  ∃ v, run limit ops u = some v ∧ Extends K t v

namespace Reverts

variable {ops ops' : List Op}

theorem nil (h : Extends K t u) : Reverts limit K [] u t := ⟨u, rfl, h⟩

theorem mono (h : Reverts limit K ops u t) (hKL : K ⊆ L) : Reverts limit L ops u t := by
  obtain ⟨v, hv, hext⟩ := h
  exact ⟨v, hv, hext.mono hKL⟩

theorem trans (h : Reverts limit K ops' v u) (h' : Reverts limit K ops u t) :
    Reverts limit K (ops' ++ ops) v t := by
  obtain ⟨u', hu', hext⟩ := h
  obtain ⟨t', ht', hext'⟩ := h'
  obtain ⟨w, hw, hwt⟩ := run_extends ht' hext
  exact ⟨w, by rw [run_append, hu']; exact hw, hext'.trans hwt⟩

/-- A descriptor that was closed is closed again. -/
theorem closed (hd : t.file d = none) (h : ChangesAt d K t u) :
    Reverts limit K [.close d] u t := by
  refine ⟨u.close d, rfl, fun q => ?_⟩
  by_cases hq : q = d
  · exact .inl (by simp [hq, hd])
  · simpa [hq] using h q hq

/-- A descriptor that was saved at an unused number is put back from it. -/
theorem saved {f : F} (hd : t.file d = some f) (hlimit : d < limit) (hn : 0 ≤ n)
    (hnone : t.file n = none) (h : ChangesAt d K (t.put n hn f) u) :
    Reverts limit K [.dup2 n d, .close n] u t := by
  have hnd : n ≠ d := by
    rintro rfl
    rw [hd] at hnone
    cases hnone
  have hun : u.file n = some f := by
    rcases h n hnd with hu | ⟨_, hu⟩
    · simpa using hu
    · simp at hu
  have hdup : u.dup2 limit n d = some (u.put d (t.nonneg d f hd) f) :=
    dup2_eq_some.mpr ⟨f, hun, ⟨t.nonneg d f hd, hlimit⟩, rfl⟩
  refine ⟨(u.put d (t.nonneg d f hd) f).close n, by simp [run, Op.run, hdup], fun q => ?_⟩
  by_cases hqn : q = n
  · exact .inl (by simp [hqn, hnone])
  · by_cases hqd : q = d
    · exact .inl (by simp [hqd, hd, hnd.symm])
    · simpa [hqn, hqd] using h q hqd

end Reverts

end DescriptorTable
