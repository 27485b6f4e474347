import Rash.Basic
import Rash.Words.Braces

/-!
# The directory stack

`pushd` and `popd` of pushd.def.  `pushd_directory_list` is kept up to `directory_list_offset`,
its top last.  What `cd_builtin` does to the directory of the process, and the name
`get_working_directory` has for it, are parameters: `cd` may fail at any place.
-/

namespace Rash

namespace DirectoryStack

open Braces (Word validNumber)

/-- `EX_USAGE` -/
def exUsage : Status := 258

variable {δ : Type}

/-- The directories of the process. -/
structure World (δ : Type) where
  /-- `get_working_directory`, without a value where it returns `NULL` -/
  workingDirectory : δ → Option Word
  /-- `cd_builtin`: its status and the directory that the process is in then -/
  cd : List Word → δ → Status × δ

structure Dirs (δ : Type) where
  list : List Word
  dir : δ

/-- `ISOPTION` -/
def isOption (w : Word) (c : Char) : Bool := w == ['-', c]

/-- `ISHELP` -/
def isHelp (w : Word) : Bool := w == ['-', '-', 'h', 'e', 'l', 'p']

/-- `cd_to_string` -/
def cdToString (w : World δ) (name : Word) (s : Dirs δ) : Status × Dirs δ :=
  ((w.cd [['-', '-'], name] s.dir).1, { s with dir := (w.cd [['-', '-'], name] s.dir).2 })

/-! ## pushd -/

/-- What the options and indices come to: a status at once, or whether `NOCD` is set, the index of
the last `+N` or `-N`, and the words that are left. -/
inductive Options
  | stop (status : Status)
  | args (noCd : Bool) (num : Option ℤ) (list : List Word)

/-- The loop over the words of `pushd`.  Where `directory_list_offset - num` would overflow, the
index is out of range as it stands here too. -/
def pushdOptions (offset : ℤ) : Bool → Option ℤ → List Word → Options
  | noCd, num, [] => .args noCd num []
  | noCd, num, w :: ws =>
      if isOption w 'n' then pushdOptions offset true num ws
      else if isOption w '-' then .args noCd num ws
      else if w = ['-'] then .args noCd num (w :: ws)
      else if w.head? = some '+' ∨ w.head? = some '-' then
        match validNumber w.tail with
        | none => .stop exUsage
        | some n =>
            let n := if w.head? = some '-' then offset - n else n
            if n > offset ∨ n < 0 then .stop executionFailure
            else pushdOptions offset noCd (some n) ws
      else .args noCd num (w :: ws)

/-- The loop that rotates, with the directory that comes in at the bottom, and the one that is
taken from the top last. -/
def rotateLoop : ℕ → List Word → Word → List Word × Word
  | 0, list, temp => (list, temp)
  | num + 1, list, temp =>
      match list.getLast? with
      | none => (list, temp)
      | some top => rotateLoop num (temp :: list.dropLast) top

/-- `pushd_builtin`, without a value where a `NULL` comes into the list. -/
def pushdBuiltin (w : World δ) (list : List Word) (s : Dirs δ) : Option (Status × Dirs δ) :=
  if list.head?.any isHelp then some (exUsage, s)
  else
    let skipopt := list.head?.any (isOption · '-')
    let operands := if skipopt then list.tail else list
    if operands = [] then
      match s.list.getLast?, w.workingDirectory s.dir with
      | none, _ => some (executionFailure, s)
      | some _, none => some (executionFailure, s)
      | some temp, some currentDirectory =>
          some (cdToString w temp { s with list := s.list.dropLast ++ [currentDirectory] })
    else
      match if skipopt then .args false none operands
        else pushdOptions s.list.length false none operands with
      | .stop status => some (status, s)
      | .args noCd (some num) _ =>
          match w.workingDirectory s.dir with
          | none =>
              if num = 0 then some (if noCd then executionSuccess else executionFailure, s)
              else none
          | some temp =>
              -- no pass of the loop stands for the branch where `num` is zero
              let (rotated, temp) := rotateLoop num.toNat s.list temp
              if noCd then some (executionSuccess, { s with list := rotated })
              else some (cdToString w temp { s with list := rotated })
      | .args _ none [] => some (executionSuccess, s)
      | .args noCd none (dir :: rest) =>
          match w.workingDirectory s.dir with
          | none => some (executionFailure, s)
          | some currentDirectory =>
              if noCd then some (executionSuccess, { s with list := s.list ++ [dir] })
              else
                let (status, dest) := w.cd (if skipopt then list else dir :: rest) s.dir
                if status = executionSuccess then
                  some (executionSuccess, { list := s.list ++ [currentDirectory], dir := dest })
                else some (executionFailure, { s with dir := dest })

/-! ## popd -/

/-- The loop over the words of `popd`, with `NOCD`, `which` and `direction`, which is NUL behind
an empty word. -/
def popdOptions : Bool → ℤ → Char → List Word → Except Status (Bool × ℤ × Char)
  | noCd, which, direction, [] => .ok (noCd, which, direction)
  | noCd, which, direction, w :: ws =>
      if isOption w 'n' then popdOptions true which direction ws
      else if isOption w '-' then .ok (noCd, which, direction)
      else if w.head? = some '+' ∨ w.head? = some '-' then
        match validNumber w.tail with
        | none => .error exUsage
        | some n => popdOptions noCd n (w.headD '\x00') ws
      else if w ≠ [] then .error exUsage
      else .ok (noCd, which, '\x00')

/-- `popd_builtin`, without a value where it would read behind the list. -/
def popdBuiltin (w : World δ) (list : List Word) (s : Dirs δ) : Option (Status × Dirs δ) :=
  if list.head?.any isHelp then some (exUsage, s)
  else
    match popdOptions false 0 '+' list with
    | .error status => some (status, s)
    | .ok (noCd, which, direction) =>
        let offset : ℤ := s.list.length
        if which > offset ∨ which < -offset ∨ offset = 0 ∧ which = 0 then
          some (executionFailure, s)
        else if direction = '+' ∧ which = 0 ∨ direction = '-' ∧ which = offset then
          match s.list.getLast? with
          | none => none
          | some top =>
              if noCd then some (executionSuccess, { s with list := s.list.dropLast })
              else
                let (status, s) := cdToString w top s
                if status ≠ executionSuccess then some (status, s)
                else some (executionSuccess, { s with list := s.list.dropLast })
        else
          let i := if direction = '+' then offset - which else which
          if i < 0 ∨ i > offset then some (executionFailure, s)
          else if i = offset then none
          else some (executionSuccess, { s with list := s.list.eraseIdx i.toNat })

end DirectoryStack

end Rash
