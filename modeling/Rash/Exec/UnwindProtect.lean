import Rash.Lib.ByteMemory

/-!
# Unwind protection

A list of things to undo, in frames: `unwind_protect_mem` saves the bytes of a variable on it,
`add_unwind_protect` puts a function there, and `run_unwind_frame` takes the elements off again down
to the tag of the frame.  A cleanup function is any code that may use the list itself.
-/

namespace Rash

open Regions ByteMemory

namespace UnwindProtect

/-- An element whose `cleanup` is null holds a tag, and one with `restore_variable` there a saved
variable; `κ` is a function with its argument. -/
inductive Elt (τ κ : Type)
  | frame (tag : τ)
  | saved (var : ℕ) (desiredSetting : List UInt8)
  | cleanup (f : κ)

structure State (τ κ : Type) where
  memory : Memory
  unwindProtectList : List (Elt τ κ)

/-- Where the loop ends: the functions it has called, and whether the tag was there. -/
structure Unwound (τ κ : Type) where
  state : State τ κ
  called : List κ
  found : Bool

variable {τ κ : Type} [DecidableEq τ]

namespace State

variable (s : State τ κ)

def push (elt : Elt τ κ) : State τ κ :=
  { s with unwindProtectList := elt :: s.unwindProtectList }

def withList (list : List (Elt τ κ)) : State τ κ := { s with unwindProtectList := list }

def assign (address : ℕ) (bytes : List UInt8) : State τ κ :=
  { s with memory := write s.memory address bytes }

end State

/-! ## The functions -/

def beginUnwindFrame (tag : τ) (s : State τ κ) : State τ κ := s.push (.frame tag)

def addUnwindProtect (f : κ) (s : State τ κ) : State τ κ := s.push (.cleanup f)

def unwindProtectMem (var size : ℕ) (s : State τ κ) : State τ κ :=
  s.push (.saved var (bytesAt s.memory var size))

def removeUnwindProtect (s : State τ κ) : State τ κ := s.withList s.unwindProtectList.tail

def clearUnwindProtectList (s : State τ κ) : State τ κ := s.withList []

def haveUnwindProtects (s : State τ κ) : Bool := !s.unwindProtectList.isEmpty

def unwindProtectTagOnStack (tag : τ) (s : State τ κ) : Bool :=
  s.unwindProtectList.any fun
    | .frame t => decide (t = tag)
    | _ => false

/-- The rest of the list behind the tag, and whether it was there. -/
def unwindFrameDiscardInternal (tag : τ) : List (Elt τ κ) → List (Elt τ κ) × Bool
  | [] => ([], false)
  | .frame t :: list =>
      if t = tag then (list, true) else unwindFrameDiscardInternal tag list
  | _ :: list => unwindFrameDiscardInternal tag list

def discardUnwindFrame (tag : τ) (s : State τ κ) : State τ κ :=
  s.withList (unwindFrameDiscardInternal tag s.unwindProtectList).1

def restoreVariable (var : ℕ) (desiredSetting : List UInt8) (s : State τ κ) : State τ κ :=
  s.assign var desiredSetting

section

variable (call : κ → State τ κ → State τ κ)

/-- An element is off the list when its function is called.  The loop goes on with what the function
leaves there; nothing when it has not come to its end after `n` turns. -/
def unwindFrameRunInternal (tag : Option τ) : ℕ → State τ κ → Option (Unwound τ κ)
  | 0, _ => none
  | n + 1, s =>
      match s.unwindProtectList with
      | [] => some ⟨s, [], false⟩
      | .frame t :: list =>
          if tag = some t then some ⟨s.withList list, [], true⟩
          else unwindFrameRunInternal tag n (s.withList list)
      | .saved var desiredSetting :: list =>
          unwindFrameRunInternal tag n
            (restoreVariable var desiredSetting (s.withList list))
      | .cleanup f :: list =>
          (unwindFrameRunInternal tag n (call f (s.withList list))).map fun u =>
            { u with called := f :: u.called }

def runUnwindFrame (n : ℕ) (tag : τ) (s : State τ κ) : Option (Unwound τ κ) :=
  if s.unwindProtectList.isEmpty then some ⟨s, [], true⟩
  else unwindFrameRunInternal call (some tag) n s

def runUnwindProtects (n : ℕ) (s : State τ κ) : Option (Unwound τ κ) :=
  if s.unwindProtectList.isEmpty then some ⟨s, [], true⟩ else unwindFrameRunInternal call none n s

/-! ## Programs -/

inductive Op (τ κ : Type)
  | beginUnwindFrame (tag : τ)
  | unwindProtectMem (var size : ℕ)
  | addUnwindProtect (f : κ)
  | assign (address : ℕ) (bytes : List UInt8)
  | discardUnwindFrame (tag : τ)
  | runUnwindFrame (tag : τ)

def perform (n : ℕ) : Op τ κ → State τ κ → Option (State τ κ)
  | .beginUnwindFrame tag, s => some (UnwindProtect.beginUnwindFrame tag s)
  | .unwindProtectMem var size, s => some (UnwindProtect.unwindProtectMem var size s)
  | .addUnwindProtect f, s => some (UnwindProtect.addUnwindProtect f s)
  | .assign address bytes, s => some (s.assign address bytes)
  | .discardUnwindFrame tag, s => some (UnwindProtect.discardUnwindFrame tag s)
  | .runUnwindFrame tag, s => (UnwindProtect.runUnwindFrame call n tag s).map Unwound.state

def execute (n : ℕ) : List (Op τ κ) → State τ κ → Option (State τ κ)
  | [], s => some s
  | op :: ops, s => (perform call n op s).bind (execute n ops)

end

end UnwindProtect

end Rash
