import Mathlib.Data.Int.Notation
import Rash.Lib.CircularList
import Rash.Vars.HashTable

/-!
# Indexed arrays

The sparse arrays of array.c: a circular doubly linked list of elements with its head, the two
counters, and the element that was referenced last.  A pointer is an address and `NULL` is zero.
An address is never used twice, so that disposing of an element, and the loops that do nothing
else, do not show.  `num_elements` counts elements that all lie in memory, and is a number here.
Each loop has a bound that a walk around a list of the memory's elements does not reach.
-/

namespace Rash

open Cells

structure ArrayElement where
  ind : ℤ
  value : Option CString
  deriving DecidableEq

/-- An `ARRAY`. -/
structure IndexedArray where
  maxIndex : ℤ
  numElements : ℤ
  head : ℕ
  lastref : ℕ

structure ArrayMemory where
  cells : Cells ArrayElement
  /-- No address from here on is in use. -/
  fresh : ℕ

/-- A result of `intmax_t` arithmetic. -/
def wrapArrayind (z : ℤ) : ℤ := z.bmod (2 ^ 64)

namespace ArrayMemory

def elementForw (mem : ArrayMemory) (ae : ℕ) : ℕ := (mem.cells ae).next

def elementBack (mem : ArrayMemory) (ae : ℕ) : ℕ := (mem.cells ae).prev

def elementIndex (mem : ArrayMemory) (ae : ℕ) : ℤ := (mem.cells ae).data.ind

def elementValue (mem : ArrayMemory) (ae : ℕ) : Option CString := (mem.cells ae).data.value

def setNext (mem : ArrayMemory) (p q : ℕ) : ArrayMemory :=
  { mem with cells := mem.cells.setNext p q }

def setPrev (mem : ArrayMemory) (p q : ℕ) : ArrayMemory :=
  { mem with cells := mem.cells.setPrev p q }

def setIndex (mem : ArrayMemory) (ae : ℕ) (i : ℤ) : ArrayMemory :=
  { mem with cells := mem.cells.setData ae ⟨i, mem.elementValue ae⟩ }

def setValue (mem : ArrayMemory) (ae : ℕ) (v : Option CString) : ArrayMemory :=
  { mem with cells := mem.cells.setData ae ⟨mem.elementIndex ae, v⟩ }

@[simp] theorem cells_setNext (mem : ArrayMemory) (p q : ℕ) :
    (mem.setNext p q).cells = mem.cells.setNext p q := rfl

@[simp] theorem cells_setPrev (mem : ArrayMemory) (p q : ℕ) :
    (mem.setPrev p q).cells = mem.cells.setPrev p q := rfl

/-- `ADD_BEFORE` -/
def addBefore (mem : ArrayMemory) (ae new : ℕ) : ArrayMemory :=
  let mem := mem.setNext (mem.elementBack ae) new
  let mem := mem.setPrev new (mem.elementBack ae)
  let mem := mem.setPrev ae new
  mem.setNext new ae

/-- `ADD_AFTER` -/
def addAfter (mem : ArrayMemory) (ae new : ℕ) : ArrayMemory :=
  let mem := mem.setPrev (mem.elementForw ae) new
  let mem := mem.setNext new (mem.elementForw ae)
  let mem := mem.setPrev new ae
  mem.setNext ae new

def createElement (mem : ArrayMemory) (ind : ℤ) (value : Option CString) : ℕ × ArrayMemory :=
  (mem.fresh,
    { cells := Function.update mem.cells mem.fresh { next := 0, prev := 0, data := ⟨ind, value⟩ }
      fresh := mem.fresh + 1 })

end ArrayMemory

open ArrayMemory

def arrayCreate (mem : ArrayMemory) : IndexedArray × ArrayMemory :=
  let (head, mem) := mem.createElement (-1) none
  ({ maxIndex := -1, numElements := 0, head := head, lastref := 0 },
    (mem.setNext head head).setPrev head head)

namespace IndexedArray

def empty (a : IndexedArray) : Bool := a.numElements == 0

/-- `LASTREF` -/
def lastrefOr (a : IndexedArray) (mem : ArrayMemory) : ℕ :=
  if a.lastref ≠ 0 then a.lastref else mem.elementForw a.head

/-- The head in a list of its own, and the counters of an empty array. -/
def cleared (a : IndexedArray) (mem : ArrayMemory) : IndexedArray × ArrayMemory :=
  ({ a with maxIndex := -1, numElements := 0 },
    (mem.setPrev a.head a.head).setNext a.head a.head)

def flush (a : IndexedArray) (mem : ArrayMemory) : IndexedArray × ArrayMemory :=
  let (a, mem) := a.cleared mem
  ({ a with lastref := 0 }, mem)

def copyLoop (a : IndexedArray) :
    ℕ → ℕ → IndexedArray → ArrayMemory → Option (IndexedArray × ArrayMemory)
  | 0, _, _, _ => none
  | fuel + 1, ae, a1, mem =>
      if ae = a.head then some (a1, mem)
      else
        let (new, mem) := mem.createElement (mem.elementIndex ae) (mem.elementValue ae)
        let mem := mem.addBefore a1.head new
        let a1 := if ae = a.lastrefOr mem then { a1 with lastref := new } else a1
        a.copyLoop fuel (mem.elementForw ae) a1 mem

/-- `array_copy` -/
def copy (a : IndexedArray) (mem : ArrayMemory) : Option (IndexedArray × ArrayMemory) :=
  let (a1, mem) := arrayCreate mem
  let a1 := { a1 with maxIndex := a.maxIndex, numElements := a.numElements }
  a.copyLoop mem.fresh (mem.elementForw a.head) a1 mem

/-! ## Shifting -/

/-- The element that the first loop of `array_shift` ends at. -/
def skipLoop (a : IndexedArray) (mem : ArrayMemory) (n : ℤ) : ℕ → ℕ → ℤ → Option ℕ
  | 0, _, _ => none
  | fuel + 1, ae, i =>
      if ae ≠ a.head ∧ i < n then a.skipLoop mem n fuel (mem.elementForw ae) (i + 1) else some ae

def lastLoop (a : IndexedArray) (mem : ArrayMemory) : ℕ → ℕ → Option ℕ
  | 0, _ => none
  | fuel + 1, ae =>
      if mem.elementForw ae ≠ a.head then a.lastLoop mem fuel (mem.elementForw ae) else some ae

/-- Add to the indices from an element on. -/
def renumberLoop (a : IndexedArray) (n : ℤ) : ℕ → ℕ → ArrayMemory → Option ArrayMemory
  | 0, _, _ => none
  | fuel + 1, ae, mem =>
      if ae ≠ a.head then
        let mem := mem.setIndex ae (wrapArrayind (mem.elementIndex ae + n))
        a.renumberLoop n fuel (mem.elementForw ae) mem
      else some mem

/-- `array_shift`; `dispose` is `AS_DISPOSE`. -/
def shift (a : IndexedArray) (mem : ArrayMemory) (n : ℤ) (dispose : Bool) :
    Option (ℕ × IndexedArray × ArrayMemory) :=
  if a.empty ∨ n ≤ 0 then some (0, a, mem)
  else
    let a := { a with lastref := 0 }
    let ret := mem.elementForw a.head
    match a.skipLoop mem n mem.fresh ret 0 with
    | none => none
    | some ae =>
        if ae = a.head then
          if dispose then some (0, a.flush mem)
          else
            match a.lastLoop mem mem.fresh ret with
            | none => none
            | some ae => some (ret, a.cleared (mem.setNext ae 0))
        else
          let mem := mem.setNext (mem.elementBack ae) 0
          let mem := (mem.setNext a.head ae).setPrev ae a.head
          match a.renumberLoop (-n) mem.fresh ae mem with
          | none => none
          | some mem =>
              let a :=
                { a with
                  numElements := a.numElements - n
                  maxIndex := mem.elementIndex (mem.elementBack a.head) }
              some (if dispose then 0 else ret, a, mem)

/-- `array_rshift`; its result is an `int`. -/
def rshift (a : IndexedArray) (mem : ArrayMemory) (n : ℤ) (s : Option CString) :
    Option (ℤ × IndexedArray × ArrayMemory) :=
  if a.empty ∧ s = none then some (0, a, mem)
  else if n ≤ 0 then some (wrapInt a.numElements, a, mem)
  else
    let ae := mem.elementForw a.head
    let renumber (a : IndexedArray) (mem : ArrayMemory) :=
      match a.renumberLoop n mem.fresh ae mem with
      | none => none
      | some mem =>
          let a :=
            { a with
              maxIndex := mem.elementIndex (mem.elementBack a.head)
              lastref := 0 }
          some (wrapInt a.numElements, a, mem)
    match s with
    | none => renumber a mem
    | some s =>
        let (new, mem) := mem.createElement 0 (some s)
        let mem := mem.addBefore ae new
        let a := { a with numElements := a.numElements + 1 }
        if a.numElements = 1 then some (1, { a with maxIndex := 0 }, mem) else renumber a mem

/-! ## Inserting, removing and looking up -/

/-- Where a search starts, and whether it goes forward. -/
def searchStart (a : IndexedArray) (mem : ArrayMemory) (i : ℤ) : ℕ × Bool :=
  let start := a.lastrefOr mem
  let startind := mem.elementIndex start
  if i < startind.tdiv 2 then (mem.elementForw a.head, true)
  else if i ≥ startind then (start, true)
  else (start, false)

/-- The element that the search of `array_insert` ends at, and what becomes of the new one. -/
inductive InsertPlace
  | replace (ae : ℕ)
  | before (ae : ℕ)
  | after (ae : ℕ)
  | problem

def insertLoop (a : IndexedArray) (mem : ArrayMemory) (i : ℤ) (forw : Bool) :
    ℕ → ℕ → Option InsertPlace
  | 0, _ => none
  | fuel + 1, ae =>
      if ae = a.head then some .problem
      else if mem.elementIndex ae = i then some (.replace ae)
      else if forw ∧ mem.elementIndex ae > i then some (.before ae)
      else if !forw ∧ mem.elementIndex ae < i then some (.after ae)
      else
        a.insertLoop mem i forw fuel (if forw then mem.elementForw ae else mem.elementBack ae)

/-- `array_insert` -/
def insert (a : IndexedArray) (mem : ArrayMemory) (i : ℤ) (v : Option CString) :
    Option (ℤ × IndexedArray × ArrayMemory) :=
  let (new, mem) := mem.createElement i v
  if i > a.maxIndex then
    let mem := mem.addBefore a.head new
    some (0, { a with maxIndex := i, numElements := a.numElements + 1, lastref := new }, mem)
  else if i < mem.elementIndex (mem.elementForw a.head) then
    let mem := mem.addAfter a.head new
    some (0, { a with numElements := a.numElements + 1, lastref := new }, mem)
  else
    let (start, forw) := a.searchStart mem i
    match a.insertLoop mem i forw mem.fresh start with
    | none => none
    | some (.replace ae) =>
        some (0, { a with lastref := ae }, mem.setValue ae (mem.elementValue new))
    | some (.before ae) =>
        some (0, { a with numElements := a.numElements + 1, lastref := new },
          mem.addBefore ae new)
    | some (.after ae) =>
        some (0, { a with numElements := a.numElements + 1, lastref := new },
          mem.addAfter ae new)
    | some .problem => some (-1, { a with lastref := 0 }, mem)

/-- The search of `array_remove` and `array_reference`: the element with the index, or the one
that `start` is left at. -/
def searchLoop (a : IndexedArray) (mem : ArrayMemory) (i : ℤ) (forw : Bool) (start : ℕ) :
    ℕ → ℕ → Option (Bool × ℕ)
  | 0, _ => none
  | fuel + 1, ae =>
      if ae = a.head then some (false, start)
      else if mem.elementIndex ae = i then some (true, ae)
      else
        let ae := if forw then mem.elementForw ae else mem.elementBack ae
        if forw ∧ mem.elementIndex ae > i then some (false, ae)
        else if !forw ∧ mem.elementIndex ae < i then some (false, ae)
        else a.searchLoop mem i forw start fuel ae

def outside (a : IndexedArray) (mem : ArrayMemory) (i : ℤ) : Bool :=
  i > a.maxIndex || i < mem.elementIndex (mem.elementForw a.head)

/-- `array_remove` -/
def remove (a : IndexedArray) (mem : ArrayMemory) (i : ℤ) :
    Option (ℕ × IndexedArray × ArrayMemory) :=
  if a.empty || a.outside mem i then some (0, a, mem)
  else
    let (start, forw) := a.searchStart mem i
    match a.searchLoop mem i forw start mem.fresh start with
    | none => none
    | some (false, _) => some (0, a, mem)
    | some (true, ae) =>
        let mem := mem.setPrev (mem.elementForw ae) (mem.elementBack ae)
        let mem := mem.setNext (mem.elementBack ae) (mem.elementForw ae)
        let a :=
          { a with
            numElements := a.numElements - 1
            maxIndex :=
              if i = a.maxIndex then mem.elementIndex (mem.elementBack ae) else a.maxIndex
            lastref :=
              if mem.elementForw ae ≠ a.head then mem.elementForw ae
              else if mem.elementBack ae ≠ a.head then mem.elementBack ae
              else 0 }
        some (ae, a, mem)

/-- `array_reference` -/
def reference (a : IndexedArray) (mem : ArrayMemory) (i : ℤ) :
    Option (Option CString × IndexedArray) :=
  if a.empty || a.outside mem i then some (none, a)
  else
    let (start, forw) := a.searchStart mem i
    match a.searchLoop mem i forw start mem.fresh start with
    | none => none
    | some (true, ae) => some (mem.elementValue ae, { a with lastref := ae })
    | some (false, start) => some (none, { a with lastref := start })

end IndexedArray

end Rash
