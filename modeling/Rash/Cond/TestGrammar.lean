import Rash.Cond.TestCommand

/-!
# The grammar of test

The grammar in the comments of test.c, as trees.  A tree has its arguments, which may be those of
another tree too, and a value.
-/

namespace Rash

namespace TestCommand

inductive Nonterminal
  | or
  | and
  | term
  deriving DecidableEq

/-- The last production is POSIX's rule for four arguments of which the first is `!`. -/
inductive Tree : Nonterminal → Type
  | string (s : String) : Tree .term
  | unary (op arg : String) (hop : testUnop op = true) : Tree .term
  /-- `-t` without its number -/
  | tty : Tree .term
  | binary (left op right : String) (hop : testBinop op = true) : Tree .term
  | not (t : Tree .term) : Tree .term
  | paren (e : Tree .or) : Tree .term
  | ofTerm (t : Tree .term) : Tree .and
  | and (t : Tree .term) (e : Tree .and) : Tree .and
  | ofAnd (t : Tree .and) : Tree .or
  | or (t : Tree .and) (e : Tree .or) : Tree .or
  | notThree (left : String) (isAnd : Bool) (right : String) : Tree .term

/-- The connective as an argument. -/
def connective (isAnd : Bool) : String := if isAnd then "-a" else "-o"

def joined (isAnd left right : Bool) : Bool := if isAnd then left && right else left || right

namespace Tree

variable {σ : Type} {c : Nonterminal}

def args : {c : Nonterminal} → Tree c → List String
  | _, .string s => [s]
  | _, .unary op arg _ => [op, arg]
  | _, .tty => ["-t"]
  | _, .binary left op right _ => [left, op, right]
  | _, .not t => "!" :: t.args
  | _, .paren e => "(" :: (e.args ++ [")"])
  | _, .ofTerm t => t.args
  | _, .and t e => t.args ++ "-a" :: e.args
  | _, .ofAnd t => t.args
  | _, .or t e => t.args ++ "-o" :: e.args
  | _, .notThree left isAnd right => ["(", "!", left, connective isAnd, right, ")"]

/-- Both operands of a connective are evaluated. -/
def join (isAnd : Bool) (left : Except TestError (Bool × σ)) (right : σ → Except TestError (Bool × σ)) :
    Except TestError (Bool × σ) :=
  match left with
  | .error e => .error e
  | .ok (value, s) =>
      match right s with
      | .error e => .error e
      | .ok (v2, s) => .ok (joined isAnd value v2, s)

def complement (r : Except TestError (Bool × σ)) : Except TestError (Bool × σ) :=
  match r with
  | .error e => .error e
  | .ok (value, s) => .ok (!value, s)

def eval (sh : Shell σ) : {c : Nonterminal} → Tree c → σ → Except TestError (Bool × σ)
  | _, .string x, s => .ok (x ≠ "", s)
  | _, .unary op arg _, s => sh.unaryTest op arg s
  | _, .tty, s => sh.unaryTest "-t" "1" s
  | _, .binary left op right _, s => sh.binaryTest op left right s
  | _, .not t, s => complement (t.eval sh s)
  | _, .paren e, s => e.eval sh s
  | _, .ofTerm t, s => t.eval sh s
  | _, .and t e, s => join true (t.eval sh s) (e.eval sh)
  | _, .ofAnd t, s => t.eval sh s
  | _, .or t e, s => join false (t.eval sh s) (e.eval sh)
  | _, .notThree left isAnd right, s => .ok (!joined isAnd (left ≠ "") (right ≠ ""), s)

/-- What the grammar allows in the mode of the shell: the number of `-t` may only be missing
without posix mode, and the last production came with bash 5.3. -/
def Valid (sh : Shell σ) : {c : Nonterminal} → Tree c → Prop
  | _, .string _ => True
  | _, .unary op arg _ =>
      op = "-t" → sh.posixly = false → (Braces.validNumber arg.toList).isSome = true
  | _, .tty => sh.posixly = false
  | _, .binary _ _ _ _ => True
  | _, .not t => t.Valid sh
  | _, .paren e => e.Valid sh
  | _, .ofTerm t => t.Valid sh
  | _, .and t e => t.Valid sh ∧ e.Valid sh
  | _, .ofAnd t => t.Valid sh
  | _, .or t e => t.Valid sh ∧ e.Valid sh
  | _, .notThree _ _ _ => 52 < sh.compat

theorem args_ne_nil : {c : Nonterminal} → (e : Tree c) → e.args ≠ []
  | _, .string _ => List.cons_ne_nil _ _
  | _, .unary _ _ _ => List.cons_ne_nil _ _
  | _, .tty => List.cons_ne_nil _ _
  | _, .binary _ _ _ _ => List.cons_ne_nil _ _
  | _, .not _ => List.cons_ne_nil _ _
  | _, .paren _ => List.cons_ne_nil _ _
  | _, .ofTerm t => t.args_ne_nil
  | _, .and t _ => fun h => t.args_ne_nil (List.append_eq_nil_iff.mp h).1
  | _, .ofAnd t => t.args_ne_nil
  | _, .or t _ => fun h => t.args_ne_nil (List.append_eq_nil_iff.mp h).1
  | _, .notThree _ _ _ => List.cons_ne_nil _ _

/-- Strings joined by a connective. -/
def strings (left : String) (isAnd : Bool) (right : String) : Tree .or :=
  if isAnd then .ofAnd (.and (.string left) (.ofTerm (.string right)))
  else .or (.ofTerm (.string left)) (.ofAnd (.ofTerm (.string right)))

end Tree

end TestCommand

end Rash
