import Rash.Vars.ArrayShift

/-!
# Runs of calls on an indexed array

Every run of calls from an empty array answers as the finite map does, and leaves an array whose
list, counters and cache are in order.
-/

namespace Rash

open ArrayMemory

inductive ArrayCall
  | insert (i : ℤ) (v : Option CString)
  | remove (i : ℤ)
  | reference (i : ℤ)
  | shift (n : ℤ) (dispose : Bool)
  | rshift (n : ℤ) (s : Option CString)
  /-- The calls that follow are on the copy or on the array that was copied. -/
  | copy (onCopy : Bool)
  | flush

inductive ArrayAnswer
  | status (z : ℤ)
  | element (e : Option ArrayElement)
  | value (v : Option CString)
  | chain (es : List ArrayElement)
  | count (z : ℤ)
  | done
  deriving DecidableEq

def arrayCall (a : IndexedArray) (mem : ArrayMemory) :
    ArrayCall → Option (ArrayAnswer × IndexedArray × ArrayMemory)
  | .insert i v => (a.insert mem i v).map fun (z, a, mem) => (.status z, a, mem)
  | .remove i => (a.remove mem i).map fun (ae, a, mem) => (.element (mem.elementAt ae), a, mem)
  | .reference i => (a.reference mem i).map fun (v, a) => (.value v, a, mem)
  | .shift n dispose =>
      (a.shift mem n dispose).bind fun (ret, a, mem) =>
        (mem.chainFrom mem.fresh ret).map fun es => (.chain es, a, mem)
  | .rshift n s => (a.rshift mem n s).map fun (z, a, mem) => (.count z, a, mem)
  | .copy onCopy => (a.copy mem).map fun (a1, mem) => (.done, if onCopy then a1 else a, mem)
  | .flush => some (.done, a.flush mem)

def runArray (a : IndexedArray) (mem : ArrayMemory) :
    List ArrayCall → Option (List ArrayAnswer × IndexedArray × ArrayMemory)
  | [] => some ([], a, mem)
  | call :: calls =>
      match arrayCall a mem call with
      | none => none
      | some (answer, a, mem) =>
          match runArray a mem calls with
          | none => none
          | some (answers, a, mem) => some (answer :: answers, a, mem)

namespace SparseMap

/-- What a call on the map is. -/
def call (m : SparseMap) : ArrayCall → ArrayAnswer × SparseMap
  | .insert i v => (.status 0, m.insert i v)
  | .remove i => (.element ((m.lookup i).map (⟨i, ·⟩)), m.erase i)
  | .reference i => (.value (m.lookup i).join, m)
  | .shift n dispose => (.chain (if dispose then [] else m.entries.take n.toNat), m.shifted n)
  | .rshift n s => (.count (wrapInt (m.rshifted n s).keys.card), m.rshifted n s)
  | .copy _ => (.done, m)
  | .flush => (.done, ∅)

def answers (m : SparseMap) : List ArrayCall → List ArrayAnswer
  | [] => []
  | c :: calls => (m.call c).1 :: (m.call c).2.answers calls

def after (m : SparseMap) : List ArrayCall → SparseMap
  | [] => m
  | c :: calls => (m.call c).2.after calls

/-- New indices are not negative, and no index is shifted past the greatest one. -/
def Allows (m : SparseMap) : ArrayCall → Prop
  | .insert i _ => 0 ≤ i ∧ i ≤ arrayindMax
  | .rshift n _ => 0 < n → m.Fits n
  | _ => True

def AllowsAll (m : SparseMap) : List ArrayCall → Prop
  | [] => True
  | c :: calls => m.Allows c ∧ (m.call c).2.AllowsAll calls

end SparseMap

variable {mem : ArrayMemory} {a : IndexedArray} {m : SparseMap}

theorem arrayCall_spec (h : Becomes m a mem) {c : ArrayCall} (hc : m.Allows c) :
    ∃ a' mem', arrayCall a mem c = some ((m.call c).1, a', mem') ∧ Becomes (m.call c).2 a' mem' := by
  obtain ⟨l, hholds, hm⟩ := h
  cases c with
  | insert i v =>
      obtain ⟨a', mem', hcall, hbecomes⟩ := insert_spec hholds hm hc v
      exact ⟨a', mem', by rw [arrayCall, hcall]; rfl, hbecomes⟩
  | remove i =>
      obtain ⟨ae, a', mem', hcall, hbecomes, helement⟩ := remove_spec hholds hm i
      refine ⟨a', mem', ?_, hbecomes⟩
      rw [arrayCall, hcall, Option.map_some]
      dsimp only
      rw [helement]
      rfl
  | reference i =>
      obtain ⟨v, a', hcall, hbecomes, rfl⟩ := reference_spec hholds hm i
      exact ⟨a', mem, by rw [arrayCall, hcall]; rfl, hbecomes⟩
  | shift n dispose =>
      obtain ⟨ret, a', mem', hcall, hbecomes, hchain⟩ := shift_spec hholds hm n dispose
      refine ⟨a', mem', ?_, hbecomes⟩
      rw [arrayCall, hcall, Option.bind_some]
      dsimp only
      rw [hchain]
      rfl
  | rshift n s =>
      obtain ⟨a', mem', hcall, hbecomes⟩ := rshift_spec hholds hm hc s
      exact ⟨a', mem', by rw [arrayCall, hcall]; rfl, hbecomes⟩
  | copy onCopy =>
      obtain ⟨a1, mem', hcall, hcopy, hold⟩ := copy_spec hholds hm
      refine ⟨if onCopy then a1 else a, mem', by rw [arrayCall, hcall]; rfl, ?_⟩
      cases onCopy
      · exact hold
      · exact hcopy
  | flush => exact ⟨_, _, rfl, flush_spec hholds⟩

theorem runArray_spec (h : Becomes m a mem) {calls : List ArrayCall} (hcalls : m.AllowsAll calls) :
    ∃ a' mem', runArray a mem calls = some (m.answers calls, a', mem') ∧
      Becomes (m.after calls) a' mem' := by
  induction calls generalizing m a mem with
  | nil => exact ⟨a, mem, rfl, h⟩
  | cons c calls ih =>
      obtain ⟨a₁, mem₁, hcall, h₁⟩ := arrayCall_spec h hcalls.1
      obtain ⟨a₂, mem₂, hrun, h₂⟩ := ih h₁ hcalls.2
      refine ⟨a₂, mem₂, ?_, h₂⟩
      rw [runArray, hcall]
      dsimp only
      rw [hrun]
      rfl

theorem arrays_refine_map (hmem : 0 < mem.fresh) (calls : List ArrayCall)
    (hcalls : (∅ : SparseMap).AllowsAll calls) :
    ∃ a mem' l,
      runArray (arrayCreate mem).1 (arrayCreate mem).2 calls =
          some ((∅ : SparseMap).answers calls, a, mem') ∧
        ArrayHolds mem' a l ∧ Contents mem' l ((∅ : SparseMap).after calls) := by
  have hstart : Becomes ∅ (arrayCreate mem).1 (arrayCreate mem).2 :=
    ⟨[], arrayCreate_holds hmem, contents_nil fun _ => Finmap.lookup_empty _⟩
  obtain ⟨a, mem', hrun, l, hholds, hm⟩ := runArray_spec hstart hcalls
  exact ⟨a, mem', l, hrun, hholds, hm⟩

def emptyMemory : ArrayMemory where
  cells := fun _ => { next := 0, prev := 0, data := ⟨0, none⟩ }
  fresh := 1

theorem arrays_refine_map_moved :
    ∃ a mem' l,
      runArray (arrayCreate emptyMemory).1 (arrayCreate emptyMemory).2
          [.insert 3 (some [97]), .rshift 2 (some [98]), .copy true, .remove 5] =
          some ((∅ : SparseMap).answers
            [.insert 3 (some [97]), .rshift 2 (some [98]), .copy true, .remove 5], a, mem') ∧
        ArrayHolds mem' a l ∧ Contents mem' l ((∅ : SparseMap).after
          [.insert 3 (some [97]), .rshift 2 (some [98]), .copy true, .remove 5]) := by
  have hindex : 0 ≤ (3 : ℤ) ∧ 3 ≤ arrayindMax := by decide
  refine arrays_refine_map (Nat.succ_pos 0) _ ⟨hindex, fun _ i hi => ?_, trivial, trivial, trivial⟩
  have hi' : i = 3 := by
    simpa [SparseMap.call, Finmap.mem_keys, Finmap.notMem_empty] using hi
  rw [hi']
  decide

/-- What a run shows of the list: its first index and `max_index`. -/
def firstAndMax (calls : List ArrayCall) : Option (List ArrayAnswer × ℤ × ℤ) :=
  (runArray (arrayCreate emptyMemory).1 (arrayCreate emptyMemory).2 calls).map
    fun (answers, a, mem) => (answers, mem.elementIndex (mem.elementForw a.head), a.maxIndex)

/-- The only index is `-2` and `max_index` stays `-1`; the index `-1` is refused; a shift past the
greatest index wraps. -/
theorem arrays_other_indices :
    firstAndMax [.insert (-2) none] = some ([.status 0], -2, -1) ∧
      firstAndMax [.insert (-1) none] = some ([.status (-1)], -1, -1) ∧
      firstAndMax [.insert arrayindMax none, .rshift 1 none] =
        some ([.status 0, .count 1], -arrayindMax - 1, -arrayindMax - 1) := by
  refine ⟨?_, ?_, ?_⟩ <;> decide +kernel

end Rash
