import Mathlib.Data.Finmap

/-!
# Finite maps

The finite map that a function is on a finite set of keys, and the map whose values another
function replaces.
-/

/-- The finite maps from `K` to `V`. -/
abbrev FiniteMap (K V : Type*) := Finmap fun _ : K => V

namespace FiniteMap

variable {K V W : Type*} [DecidableEq K]

def tabulate (s : Finset K) (f : K → Option V) : FiniteMap K V :=
  Finmap.keysLookupEquiv.symm
    ⟨(s.filter fun k => (f k).isSome, fun k => if k ∈ s then f k else none), by
      intro k
      by_cases hk : k ∈ s <;> simp [hk]⟩

@[simp] theorem lookup_tabulate (s : Finset K) (f : K → Option V) (k : K) :
    (tabulate s f).lookup k = if k ∈ s then f k else none := by
  simp [tabulate]

@[simp] theorem keys_tabulate (s : Finset K) (f : K → Option V) :
    (tabulate s f).keys = s.filter fun k => (f k).isSome := by
  simp [tabulate]

def mapValues (f : V → W) (m : FiniteMap K V) : FiniteMap K W :=
  tabulate m.keys fun k => (m.lookup k).map f

@[simp] theorem lookup_mapValues (f : V → W) (m : FiniteMap K V) (k : K) :
    (mapValues f m).lookup k = (m.lookup k).map f := by
  unfold mapValues
  rw [lookup_tabulate, ite_eq_left_iff]
  intro hk
  rw [Finmap.lookup_eq_none.mpr (mt Finmap.mem_keys.mpr hk)]
  rfl

@[simp] theorem keys_mapValues (f : V → W) (m : FiniteMap K V) :
    (mapValues f m).keys = m.keys := by
  ext k
  rw [Finmap.mem_keys, Finmap.mem_keys, ← Finmap.lookup_isSome, ← Finmap.lookup_isSome,
    lookup_mapValues, Option.isSome_map]

theorem card_insert_of_lookup_none {m : FiniteMap K V} {k : K} (hk : m.lookup k = none) (v : V) :
    (m.insert k v).keys.card = m.keys.card + 1 := by
  have hkeys : (m.insert k v).keys = insert k m.keys := by
    ext x
    simp [Finmap.mem_keys]
  have hnew : k ∉ m.keys := by
    rw [Finmap.mem_keys]
    exact Finmap.lookup_eq_none.mp hk
  rw [hkeys, Finset.card_insert_of_notMem hnew]

theorem keys_insert_of_lookup {m : FiniteMap K V} {k : K} {v : V} (hk : m.lookup k = some v)
    (w : V) : (m.insert k w).keys = m.keys := by
  have hold : k ∈ m := Finmap.mem_of_lookup_eq_some hk
  ext x
  simp only [Finmap.mem_keys, Finmap.mem_insert]
  constructor
  · rintro (rfl | hx)
    · exact hold
    · exact hx
  · exact .inr

theorem card_erase_of_lookup {m : FiniteMap K V} {k : K} {v : V} (hk : m.lookup k = some v) :
    (m.erase k).keys.card + 1 = m.keys.card := by
  have hold : k ∈ m.keys := Finmap.mem_keys.mpr (Finmap.mem_of_lookup_eq_some hk)
  rw [Finmap.keys_erase, Finset.card_erase_add_one hold]

theorem lookup_insert_if (m : FiniteMap K V) (k x : K) (v : V) :
    (m.insert k v).lookup x = if x = k then some v else m.lookup x := by
  split_ifs with h
  · rw [h, Finmap.lookup_insert]
  · exact Finmap.lookup_insert_of_ne _ h

theorem lookup_erase_if (m : FiniteMap K V) (k x : K) :
    (m.erase k).lookup x = if x = k then none else m.lookup x := by
  split_ifs with h
  · rw [h, Finmap.lookup_erase]
  · exact Finmap.lookup_erase_ne h

end FiniteMap
