import Mathlib.Data.List.Infix
import Rash.Exec.Pipeline

/-!
# Words that expand by a pure lookup

The shapes that `rash_expand_mode` leaves to Lua and that `rash_redirects_preexpand` resolves
before the policies are asked: a literal or a plain `$NAME`.  A C string is the list of its
bytes, each as the character of that code.
-/

namespace Rash

/-! ## Words -/

def wQuoted : ℕ := 2 ^ 1
def wAssignment : ℕ := 2 ^ 2
def wTildeexp : ℕ := 2 ^ 7
def wArrayref : ℕ := 2 ^ 9
def wCompassign : ℕ := 2 ^ 15
def wHasquotednull : ℕ := 2 ^ 18

def isNameStart (c : Char) : Bool := c.isAlpha || c == '_'

/-- `rash_simple_name`. -/
def rashSimpleName : List Char → Bool
  | [] => false
  | c :: rest => isNameStart c && rest.all fun c => isNameStart c || c.isDigit

/-- `rash_word_lua_expandable`. -/
def rashWordLuaExpandable (word : WordDesc) : Bool :=
  let s := word.word.toList
  if word.flags &&& (wQuoted ||| wAssignment ||| wArrayref ||| wCompassign |||
      wHasquotednull ||| wTildeexp) ≠ 0 then false
  else if s = [] then true
  else if s.any ("\"'`\\*?[\x7b~".toList.contains ·) then false
  else if ['$', '(', '('] <:+: s ∨ ['$', '('] <:+: s ∨ ['$', Char.ofNat 0x7b] <:+: s then false
  else
    match s with
    | '$' :: name => rashSimpleName name
    | s => !s.contains '$'

/-- `rash_expand_mode`. -/
def rashExpandMode (words : List WordDesc) : String :=
  if words.isEmpty then "c"
  else if words.all rashWordLuaExpandable then "lua"
  else "c"

/-! ## Variables -/

/-- A variable as `var_lookup` finds it in `shell_variables`. -/
structure ShellVar where
  value : Option String
  invisible : Bool
  nameref : Bool
  array : Bool
  assoc : Bool
  dynamicValue : Bool

abbrev ShellVariables := String → Option ShellVar

/-- `RASH_REDIR_UNSAFE_CHARS`. -/
def rashRedirUnsafeChars : List Char := "*?[]()<>\x7b\x7d!\"'`\\$~".toList

def defaultIfs : String := " \t\n"

/-- The separators that `rash_redirect_name_value` finds. -/
def rashIfsChars (vars : ShellVariables) : String :=
  match vars "IFS" with
  | none => defaultIfs
  | some ifs => if ifs.invisible then defaultIfs else ifs.value.getD defaultIfs

/-- `rash_redirect_name_value`. -/
def rashRedirectNameValue (vars : ShellVariables) (name : String) : Option String :=
  match vars name with
  | none => none
  | some v =>
      if v.invisible ∨ v.nameref ∨ v.array ∨ v.assoc ∨ v.dynamicValue then none
      else
        match v.value with
        | none => none
        | some value =>
            if value = "" then none
            else if value.toList.any fun c => rashRedirUnsafeChars.contains c ||
                defaultIfs.toList.contains c || (rashIfsChars vars).toList.contains c then none
            else some value

/-- `rash_redirect_safe_target`. -/
def rashRedirectSafeTarget (vars : ShellVariables) (word : WordDesc) : Option String :=
  if rashWordLuaExpandable word = false ∨ word.word = "" then none
  else
    match word.word.toList with
    | '$' :: name => rashRedirectNameValue vars (String.ofList name)
    | s => if s.any rashRedirUnsafeChars.contains then none else some word.word

/-! ## Redirections -/

/-- `REDIR_VARASSIGN`. -/
def redirVarassign : ℕ := 1

/-- The instructions that `rash_redirects_preexpand` goes on with. -/
def RInstruction.preexpanded : RInstruction → Bool
  | .duplicatingInput | .duplicatingOutput | .closeThis | .moveInput | .moveOutput
  | .outputDirection | .inputDirection | .inputaDirection | .appendingTo | .errAndOut
  | .appendErrAndOut | .inputOutput | .outputForce => true
  | .readingUntil | .readingString | .deblankReadingUntil | .duplicatingInputWord
  | .duplicatingOutputWord | .moveInputWord | .moveOutputWord => false

/-- `rash_redirectee_is_word`. -/
def rashRedirecteeIsWord : RInstruction → Bool
  | .readingUntil | .deblankReadingUntil | .readingString | .outputDirection | .inputDirection
  | .inputaDirection | .appendingTo | .errAndOut | .appendErrAndOut | .inputOutput
  | .outputForce | .duplicatingInputWord | .duplicatingOutputWord | .moveInputWord
  | .moveOutputWord => true
  | .duplicatingInput | .duplicatingOutput | .closeThis | .moveInput | .moveOutput => false

/-- `make_bare_word`. -/
def makeBareWord (s : String) : WordDesc := ⟨s, 0⟩

/-- The path of one row: `none` when the list stays on C, `some none` for a row without a
word. -/
def preexpandRow (vars : ShellVariables) (r : Redirect) : Option (Option String) :=
  if rashRedirecteeIsWord r.instruction = false then some none
  else
    match r.redirectee with
    | .dest _ => none
    | .filename word => (rashRedirectSafeTarget vars word).map some

/-- Whether the path of a row is not the text of its word. -/
def rowRenamed (r : Redirect) (path : Option String) : Bool :=
  match r.redirectee, path with
  | .filename word, some path => path != word.word
  | _, _ => false

/-- A row of the copy. -/
def applyRow (r : Redirect) (path : Option String) : Redirect :=
  match path with
  | none => r
  | some path => { r with redirectee := .filename (makeBareWord path) }

/-- `rash_redirects_preexpand`: the path of each row and the list to apply in the place of
the command's own, when there is one. -/
def rashRedirectsPreexpand (vars : ShellVariables) (list : List Redirect) :
    Option (List (Option String)) × Option (List Redirect) :=
  if list.any fun r => r.rflags &&& redirVarassign != 0 || !r.instruction.preexpanded then
    (none, none)
  else
    match list.mapM (preexpandRow vars) with
    | none => (none, none)
    | some paths =>
        (some paths,
          if (List.zipWith rowRenamed list paths).any id then
            some (List.zipWith applyRow list paths)
          else none)

end Rash
