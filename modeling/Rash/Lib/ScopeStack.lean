import Mathlib.Data.List.Basic
import Mathlib.Tactic.SplitIfs
import Rash.Lib.FiniteMaps

/-!
# Stacks of maps with dynamic scoping

A stack of finite maps, the innermost first and the outermost of all runs last.  A name that is
bound to `none` is declared and has no value.  Levels are counted from the outermost map, so
that they stay what they are while scopes are opened and closed above them.
-/

abbrev ScopeStack (K V : Type*) := List (FiniteMap K (Option V))

namespace ScopeStack

variable {K V : Type*} [DecidableEq K]

/-- The place of the innermost instance, counted from the innermost map. -/
def position (k : K) (st : ScopeStack K V) : Option ℕ :=
  st.findIdx? fun m => (m.lookup k).isSome

def find (k : K) (st : ScopeStack K V) : Option (Option V) :=
  st.findSome? (·.lookup k)

/-- The innermost instance has the value afterwards; without one the outermost map gets it. -/
def assign (k : K) (v : V) (st : ScopeStack K V) : ScopeStack K V :=
  st.modify ((position k st).getD (st.length - 1)) (·.insert k (some v))

/-- A new name of the innermost scope, unless that is the outermost map or has it. -/
def declare (k : K) (st : ScopeStack K V) : ScopeStack K V :=
  if 1 < st.length ∧ position k st ≠ some 0 then st.modify 0 (·.insert k none) else st

/-- A name of the innermost scope keeps hiding the others; any other instance is gone. -/
def unset (k : K) (st : ScopeStack K V) : ScopeStack K V :=
  match position k st with
  | none => st
  | some i =>
      if i = 0 ∧ 1 < st.length then st.modify 0 (·.insert k none) else st.modify i (·.erase k)

def push (st : ScopeStack K V) : ScopeStack K V := ∅ :: st

def pop (st : ScopeStack K V) : ScopeStack K V := if 1 < st.length then st.tail else st

/-- What the map at a level holds for a name. -/
def slot (st : ScopeStack K V) (level : ℕ) (k : K) : Option (Option V) :=
  st.reverse[level]?.bind (·.lookup k)

end ScopeStack

/-- The calls on a stack of maps. -/
inductive ScopeCall (K V : Type*)
  | push
  | pop
  | declare (k : K)
  | assign (k : K) (v : V)
  | unset (k : K)

namespace ScopeCall

open ScopeStack

variable {K V : Type*} [DecidableEq K]

def run (st : ScopeStack K V) : ScopeCall K V → ScopeStack K V
  | .push => st.push
  | .pop => st.pop
  | .declare k => st.declare k
  | .assign k v => st.assign k v
  | .unset k => st.unset k

/-- The instance that an assignment or an unset resolves to, by its level. -/
def resolved (st : ScopeStack K V) : ScopeCall K V → Option (ℕ × K)
  | .assign k _ => some (st.length - 1 - (position k st).getD (st.length - 1), k)
  | .unset k => (position k st).map fun i => (st.length - 1 - i, k)
  | _ => none

/-- The number of open scopes after the calls, if every scope that is closed was open. -/
def depthAfter : ℕ → List (ScopeCall K V) → Option ℕ
  | n, [] => some n
  | n, .push :: rest => depthAfter (n + 1) rest
  | 0, .pop :: _ => none
  | n + 1, .pop :: rest => depthAfter n rest
  | n, _ :: rest => depthAfter n rest

def runAll (st : ScopeStack K V) (calls : List (ScopeCall K V)) : ScopeStack K V :=
  calls.foldl run st

/-- The instances that the assignments and unsets of a run resolve to. -/
def touched : ScopeStack K V → List (ScopeCall K V) → List (ℕ × K)
  | _, [] => []
  | st, call :: rest => (call.resolved st).toList ++ touched (call.run st) rest

/-- By how much a call changes the number of scopes. -/
theorem length_run (st : ScopeStack K V) (call : ScopeCall K V) :
    (call.run st).length =
      match call with
      | .push => st.length + 1
      | .pop => if 1 < st.length then st.length - 1 else st.length
      | _ => st.length := by
  cases call with
  | push => rfl
  | pop =>
      simp only [run, ScopeStack.pop]
      split_ifs
      · exact List.length_tail
      · rfl
  | declare k =>
      simp only [run, ScopeStack.declare]
      split_ifs
      · exact List.length_modify ..
      · rfl
  | assign k v => exact List.length_modify ..
  | unset k =>
      simp only [run, ScopeStack.unset]
      split
      · rfl
      · split_ifs
        · exact List.length_modify ..
        · exact List.length_modify ..

theorem slot_eq {st : ScopeStack K V} {level : ℕ} (h : level < st.length) (k : K) :
    st.slot level k = st[st.length - 1 - level]?.bind (·.lookup k) := by
  unfold slot
  rw [List.getElem?_reverse h]

/-- A change of one map is not seen where the level or the name is another one. -/
theorem slot_modify {st : ScopeStack K V} {level i : ℕ} {k : K}
    {f : FiniteMap K (Option V) → FiniteMap K (Option V)} (h : level < st.length)
    (hf : level = st.length - 1 - i → ∀ m, (f m).lookup k = m.lookup k) :
    slot (st.modify i f) level k = slot st level k := by
  have hlength : (st.modify i f).length = st.length := List.length_modify ..
  rw [slot_eq (hlength ▸ h), slot_eq h, hlength, List.getElem?_modify]
  cases st[st.length - 1 - level]? with
  | none => rfl
  | some m =>
      by_cases hi : i = st.length - 1 - level
      · have hlevel : level = st.length - 1 - i := by omega
        simpa [hi] using hf hlevel m
      · simp [hi]

theorem lookup_insert_ne {k x : K} (h : k ≠ x) (v : Option V) (m : FiniteMap K (Option V)) :
    (m.insert x v).lookup k = m.lookup k := Finmap.lookup_insert_of_ne m h

/-- A call leaves every instance alone that it does not resolve to, below the innermost map. -/
theorem slot_run {st : ScopeStack K V} {level : ℕ} {k : K} (call : ScopeCall K V)
    (h : level + 1 < st.length) (hnot : call.resolved st ≠ some (level, k)) :
    (call.run st).slot level k = st.slot level k := by
  have hlt : level < st.length := by omega
  cases call with
  | push =>
      unfold slot run ScopeStack.push
      rw [List.reverse_cons, List.getElem?_append_left (by simpa using hlt)]
  | pop =>
      cases st with
      | nil => rfl
      | cons m rest =>
          have hrest : level < rest.length := by simpa using h
          simp only [run, ScopeStack.pop]
          rw [if_pos (by simp only [List.length_cons]; omega)]
          unfold slot
          rw [List.tail_cons, List.reverse_cons,
            List.getElem?_append_left (by simpa using hrest)]
  | declare x =>
      simp only [run, ScopeStack.declare]
      split_ifs
      · apply slot_modify hlt
        intro hlevel
        omega
      · rfl
  | assign x v =>
      apply slot_modify hlt
      intro hlevel m
      apply lookup_insert_ne
      rintro rfl
      apply hnot
      simp only [resolved]
      rw [← hlevel]
  | unset x =>
      simp only [run, ScopeStack.unset]
      cases hpos : position x st with
      | none => rfl
      | some i =>
          have hname : level = st.length - 1 - i → k ≠ x := by
            rintro hlevel rfl
            apply hnot
            simp only [resolved]
            rw [hpos, Option.map_some, ← hlevel]
          dsimp only
          split_ifs with hinner
          · apply slot_modify hlt
            intro hlevel m
            omega
          · apply slot_modify hlt
            intro hlevel m
            exact Finmap.lookup_erase_ne (hname hlevel)

/-- The first of some calls leaves the others as many open scopes as they count on. -/
theorem depthAfter_cons {call : ScopeCall K V} {rest : List (ScopeCall K V)} {base n n' : ℕ}
    (hcalls : depthAfter n (call :: rest) = some n') {st : ScopeStack K V}
    (hst : st.length = base + 1 + n) :
    ∃ m, depthAfter m rest = some n' ∧ (call.run st).length = base + 1 + m := by
  have hlength := length_run st call
  cases call with
  | push => exact ⟨n + 1, hcalls, by rw [hlength]; dsimp only; omega⟩
  | pop =>
      cases n with
      | zero => cases hcalls
      | succ n =>
          refine ⟨n, hcalls, ?_⟩
          rw [hlength]
          dsimp only
          rw [if_pos (by omega)]
          omega
  | declare x => exact ⟨n, hcalls, hlength.trans hst⟩
  | assign x v => exact ⟨n, hcalls, hlength.trans hst⟩
  | unset x => exact ⟨n, hcalls, hlength.trans hst⟩

theorem length_runAll {calls : List (ScopeCall K V)} {base n n' : ℕ}
    (hcalls : depthAfter n calls = some n') {st : ScopeStack K V}
    (hst : st.length = base + 1 + n) : (runAll st calls).length = base + 1 + n' := by
  induction calls generalizing n st with
  | nil =>
      cases hcalls
      exact hst
  | cons call rest ih =>
      obtain ⟨m, hm, hlength⟩ := depthAfter_cons hcalls hst
      exact ih hm hlength

/-- Calls that close no more scopes than they open leave every instance alone below the
innermost map that they started with, unless they resolve to it. -/
theorem runAll_frame {calls : List (ScopeCall K V)} {base n n' level : ℕ} {k : K}
    (hcalls : depthAfter n calls = some n') (hlevel : level < base) {st : ScopeStack K V}
    (hst : st.length = base + 1 + n) (hnot : (level, k) ∉ touched st calls) :
    (runAll st calls).slot level k = st.slot level k := by
  induction calls generalizing n st with
  | nil => rfl
  | cons call rest ih =>
      have hfirst : call.resolved st ≠ some (level, k) := by
        intro hbad
        apply hnot
        unfold touched
        rw [hbad]
        exact List.mem_cons_self
      have hrest : (level, k) ∉ touched (call.run st) rest := fun hbad =>
        hnot (List.mem_append_right _ hbad)
      obtain ⟨m, hm, hlength⟩ := depthAfter_cons hcalls hst
      have hslot := slot_run call (by omega) hfirst
      exact (ih hm hlength hrest).trans hslot

/-- Closing a scope restores the stack as it was when the scope was opened, but for the
instances that were resolved to in between. -/
theorem pop_restores {body : List (ScopeCall K V)} (hbody : depthAfter 0 body = some 0)
    {st : ScopeStack K V} {level : ℕ} {k : K} (hlevel : level < st.length)
    (hnot : (level, k) ∉ touched st.push body) :
    (runAll st.push body).pop.length = st.length ∧
      (runAll st.push body).pop.slot level k = st.slot level k := by
  have hpush : st.push.length = st.length + 1 + 0 := rfl
  have hlength := length_runAll hbody hpush
  have hslot := runAll_frame hbody hlevel hpush hnot
  have hopen : st.push.slot level k = st.slot level k := by
    unfold slot ScopeStack.push
    rw [List.reverse_cons, List.getElem?_append_left (by simpa using hlevel)]
  have hpop : slot (runAll st.push body).pop level k = slot (runAll st.push body) level k :=
    slot_run (.pop : ScopeCall K V) (by omega) (by simp [resolved])
  refine ⟨?_, hpop.trans (hslot.trans hopen)⟩
  have hlen := length_run (runAll st.push body) (.pop : ScopeCall K V)
  dsimp only at hlen
  rw [if_pos (by omega)] at hlen
  have hrun : (ScopeCall.pop.run (runAll st.push body)) = (runAll st.push body).pop := rfl
  rw [hrun] at hlen
  omega

end ScopeCall
