import Mathlib

/-!
# Files by path

A file system as a map from path strings to nodes, with the path algebra that keeps the
files of different directories apart.
-/

namespace FlatFiles

/-- A path or a text; a byte is the character with its code. -/
abbrev Text := List Char

/-- There are permissions, so that a literal can be one. -/
instance neZero_4096 : NeZero 4096 := ⟨Nat.succ_ne_zero _⟩

/-- Permission bits and content. -/
structure RegularFile where
  mode : Fin 4096
  content : Text
  deriving DecidableEq

inductive Node
  | regular (file : RegularFile)
  | directory
  | other
  deriving DecidableEq

abbrev Files := Text → Option Node

def Files.set (fs : Files) (path : Text) (node : Option Node) : Files :=
  fun p => if p = path then node else fs p

@[simp] theorem Files.set_self (fs : Files) (path : Text) (node : Option Node) :
    fs.set path node path = node := if_pos rfl

@[simp] theorem Files.set_of_ne (fs : Files) {path p : Text} (node : Option Node)
    (h : p ≠ path) : fs.set path node p = fs p := if_neg h

theorem Files.set_same {fs : Files} {path : Text} {node : Option Node} (h : fs path = node) :
    fs.set path node = fs := by
  funext p
  by_cases hp : p = path
  · rw [hp, Files.set_self, h]
  · rw [Files.set_of_ne _ _ hp]

@[simp] theorem Files.set_set (fs : Files) (path : Text) (node node' : Option Node) :
    (fs.set path node).set path node' = fs.set path node' := by
  funext p
  by_cases hp : p = path
  · rw [hp, Files.set_self, Files.set_self]
  · rw [Files.set_of_ne _ _ hp, Files.set_of_ne _ _ hp, Files.set_of_ne _ _ hp]

/-- `directory/name`. -/
def join (directory name : Text) : Text := directory ++ '/' :: name

/-- The path lies in the directory or is the directory itself. -/
def Inside (directory path : Text) : Prop := path = directory ∨ ∃ name, path = join directory name

instance (directory path : Text) : Decidable (Inside directory path) :=
  decidable_of_iff (path = directory ∨ directory ++ ['/'] <+: path) <| by
    have hstarts : directory ++ ['/'] <+: path ↔ ∃ name, path = join directory name := by
      constructor
      · rintro ⟨name, rfl⟩
        exact ⟨name, by simp [join]⟩
      · rintro ⟨name, rfl⟩
        exact ⟨name, by simp [join]⟩
    rw [hstarts, Inside]

theorem inside_join (directory name : Text) : Inside directory (join directory name) :=
  Or.inr ⟨name, rfl⟩

theorem Inside.trans {directory middle path : Text} (h : Inside directory middle)
    (h' : Inside middle path) : Inside directory path := by
  rcases h' with rfl | ⟨name, rfl⟩
  · exact h
  · rcases h with rfl | ⟨name', rfl⟩
    · exact inside_join _ name
    · exact Or.inr ⟨name' ++ '/' :: name, by simp [join]⟩

theorem join_injective (directory : Text) : Function.Injective (join directory) := by
  intro a b h
  simpa [join] using h

theorem join_ne_self (directory name : Text) : join directory name ≠ directory := by
  intro h
  have hlength := congrArg List.length h
  simp [join] at hlength

/-- A path in a directory determines the directory by its name, when names have no slash. -/
theorem name_eq_of_inside {directory a b path : Text} (ha : '/' ∉ a) (hb : '/' ∉ b)
    (hpa : Inside (join directory a) path) (hpb : Inside (join directory b) path) : a = b := by
  have htake : ∀ {c : Text} {p : Text}, '/' ∉ c → Inside (join directory c) p →
      (p.drop (directory.length + 1)).takeWhile (· != '/') = c := by
    intro c p hc hp
    have hall : ∀ x ∈ c, (x != '/') = true := fun x hx => by
      simp only [bne_iff_ne]
      exact fun heq => hc (heq ▸ hx)
    rcases hp with rfl | ⟨name, rfl⟩
    · have hdrop : (join directory c).drop (directory.length + 1) = c := by simp [join]
      rw [hdrop, List.takeWhile_eq_self_iff.mpr hall]
    · have hdrop : (join (join directory c) name).drop (directory.length + 1) =
          c ++ '/' :: name := by simp [join]
      rw [hdrop, List.takeWhile_append_of_pos hall, List.takeWhile_cons_of_neg (by simp),
        List.append_nil]
  rw [← htake ha hpa, htake hb hpb]

end FlatFiles
