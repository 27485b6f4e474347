import Mathlib.Data.List.Rotate
import Rash.Builtins.DirectoryStack

/-!
# When pushd and popd are atomic

What a successful `pushd` or `popd` is documented to do, and exactly when a call does it or, where
it fails, changes nothing.
-/

namespace Rash

namespace DirectoryStack

open Braces (Word validNumber)

variable {δ : Type}

/-! ## Requests -/

/-- What follows the option: a directory, or an index from the left or the right. -/
inductive Operand
  | directory (name : Word)
      (plain : name.head? ≠ some '+' ∧ (name.head? = some '-' → name = ['-']))
  | index (fromLeft : Bool) (digits : Word)
      (number : digits ≠ [] ∧ ∀ c ∈ digits, c.isDigit = true)

def Operand.word : Operand → Word
  | .directory name _ => name
  | .index fromLeft digits _ => (if fromLeft then '+' else '-') :: digits

structure Request where
  popd : Bool
  noCd : Bool
  operand : Option Operand

def Request.words (r : Request) : List Word :=
  (if r.noCd then [['-', 'n']] else []) ++ r.operand.toList.map Operand.word

def Request.run (r : Request) (w : World δ) (s : Dirs δ) : Option (Status × Dirs δ) :=
  if r.popd then popdBuiltin w r.words s else pushdBuiltin w r.words s

/-- The entry of the list that `dirs` shows, if there is one. -/
def entryOf (offset : ℕ) (fromLeft : Bool) (digits : Word) : Option ℕ :=
  match validNumber digits with
  | none => none
  | some n =>
      if n.toNat ≤ offset then some (if fromLeft then n.toNat else offset - n.toNat) else none

/-- What `dirs` shows. -/
def Dirs.full (s : Dirs δ) (currentDirectory : Word) : List Word :=
  currentDirectory :: s.list.reverse

/-- The directory that `cd` leads to. -/
def World.after (w : World δ) (s : Dirs δ) (args : List Word) : δ := (w.cd args s.dir).2

/-- The top goes, and becomes the current directory. -/
def Popped (w : World δ) (noCd : Bool) (s s' : Dirs δ) : Prop :=
  ∃ top, s.list = s'.list ++ [top] ∧ s'.dir = if noCd then s.dir else w.after s [['-', '-'], top]

/-- The stack and the directory behind a successful call. -/
def Documented (w : World δ) (r : Request) (s s' : Dirs δ) : Prop :=
  match r.popd, r.operand with
  | false, none =>
      if r.noCd then s' = s
      else ∃ currentDirectory top rest, w.workingDirectory s.dir = some currentDirectory ∧
        s.list = rest ++ [top] ∧
        s' = { list := rest ++ [currentDirectory], dir := w.after s [['-', '-'], top] }
  | false, some (.directory name _) =>
      if r.noCd then s' = { s with list := s.list ++ [name] }
      else ∃ currentDirectory, w.workingDirectory s.dir = some currentDirectory ∧
        s' = { list := s.list ++ [currentDirectory], dir := w.after s [name] }
  | false, some (.index fromLeft digits _) =>
      ∃ k, entryOf s.list.length fromLeft digits = some k ∧
        if r.noCd then s'.dir = s.dir ∧ s'.list.Perm s.list
        else ∃ currentDirectory top rest, w.workingDirectory s.dir = some currentDirectory ∧
          (s.full currentDirectory).rotate k = top :: rest ∧
          s' = { list := rest.reverse, dir := w.after s [['-', '-'], top] }
  | true, none => Popped w r.noCd s s'
  | true, some (.directory _ _) => False
  | true, some (.index fromLeft digits _) =>
      ∃ k, entryOf s.list.length fromLeft digits = some k ∧
        if k = 0 then Popped w r.noCd s s'
        else s' = { s with list := s.list.eraseIdx (s.list.length - k) }

/-- A call that fails changes nothing, and one that succeeds does what is documented. -/
def Atomic (w : World δ) (r : Request) (s : Dirs δ) : Prop :=
  ∃ status s', r.run w s = some (status, s') ∧ (status ≠ executionSuccess → s' = s) ∧
    (status = executionSuccess → Documented w r s s')

/-! ## The condition -/

/-- `cd` succeeds. -/
def World.Reaches (w : World δ) (s : Dirs δ) (args : List Word) : Prop :=
  (w.cd args s.dir).1 = executionSuccess

/-- `cd` leaves the directory. -/
def World.Stays (w : World δ) (s : Dirs δ) (args : List Word) : Prop := w.after s args = s.dir

/-- The top is removed without a `cd` that fails half-way. -/
def PopSafe (w : World δ) (noCd : Bool) (s : Dirs δ) : Prop :=
  noCd = false → ∀ top ∈ s.list.getLast?,
    w.Reaches s [['-', '-'], top] ∨ w.Stays s [['-', '-'], top]

/-- What a call needs to be atomic. -/
def Safe (w : World δ) (r : Request) (s : Dirs δ) : Prop :=
  match r.popd, r.operand with
  | false, none =>
      r.noCd = false → ∀ top ∈ s.list.getLast?, ∀ currentDirectory ∈ w.workingDirectory s.dir,
        w.Reaches s [['-', '-'], top] ∨ w.Stays s [['-', '-'], top] ∧ top = currentDirectory
  | false, some (.directory name _) =>
      r.noCd = false → w.workingDirectory s.dir ≠ none →
        w.Reaches s [name] ∨ w.Stays s [name]
  | false, some (.index fromLeft digits _) =>
      ∀ k ∈ entryOf s.list.length fromLeft digits,
        (k ≠ 0 → w.workingDirectory s.dir ≠ none) ∧
        ∀ currentDirectory ∈ w.workingDirectory s.dir,
          ∀ top rest, (s.full currentDirectory).rotate k = top :: rest →
            if r.noCd then top = currentDirectory
            else w.Reaches s [['-', '-'], top] ∨
              w.Stays s [['-', '-'], top] ∧ rest = s.list.reverse
  | true, none => PopSafe w r.noCd s
  | true, some (.directory name _) => name = [] → s.list = []
  | true, some (.index fromLeft digits _) =>
      entryOf s.list.length fromLeft digits = some 0 → PopSafe w r.noCd s

/-! ## The rotation -/

theorem rotateLoop_eq (num : ℕ) (list : List Word) (temp : Word) :
    (rotateLoop num list temp).2 :: (rotateLoop num list temp).1.reverse =
      (temp :: list.reverse).rotate num := by
  induction num generalizing list temp with
  | zero => rw [rotateLoop, List.rotate_zero]
  | succ num ih =>
      rw [rotateLoop, Nat.add_comm, ← List.rotate_rotate]
      obtain rfl | ⟨rest, top, rfl⟩ := List.eq_nil_or_concat' list
      · rw [List.getLast?_nil, List.reverse_nil, List.rotate_singleton, List.rotate_singleton]
      · rw [List.getLast?_concat, List.reverse_concat, List.dropLast_concat]
        dsimp only
        rw [ih, List.rotate_cons_succ, List.rotate_zero, List.reverse_cons, List.cons_append]

theorem perm_iff_top {top currentDirectory : Word} {rest list : List Word} {k : ℕ}
    (h : (currentDirectory :: list.reverse).rotate k = top :: rest) :
    rest.reverse.Perm list ↔ top = currentDirectory := by
  have hfull : (top :: rest).Perm (currentDirectory :: list.reverse) := h ▸ List.rotate_perm _ _
  constructor
  · intro hperm
    have hrest : rest.Perm list.reverse :=
      (List.reverse_perm rest).symm.trans (hperm.trans (List.reverse_perm list).symm)
    have hsame := (List.Perm.cons top hrest).symm.trans hfull
    have hcount := hsame.count_eq top
    rw [List.count_cons_self, List.count_cons] at hcount
    by_contra hne
    rw [if_neg (by simpa using fun h => hne h.symm)] at hcount
    omega
  · rintro rfl
    exact (List.reverse_perm rest).trans ((List.perm_cons top).mp hfull |>.trans
      (List.reverse_perm list))

/-! ## The words of a request -/

theorem validNumber_nonneg {digits : Word} (hdigits : ∀ c ∈ digits, c.isDigit = true) {n : ℤ}
    (h : validNumber digits = some n) : 0 ≤ n := by
  have hspace : digits.dropWhile Decimal.isSpace = digits := by
    cases digits with
    | nil => rfl
    | cons c digits =>
        refine List.dropWhile_cons_of_neg fun hc => ?_
        rw [Decimal.isSpace_of_isDigit (hdigits c List.mem_cons_self)] at hc
        cases hc
  have hminus : (digits.head? == some '-') = false := by
    refine beq_false_of_ne fun hhead => ?_
    exact absurd (hdigits '-' (List.mem_of_mem_head? hhead)) (by decide)
  have hplus : digits.head? ≠ some '+' := fun hhead =>
    absurd (hdigits '+' (List.mem_of_mem_head? hhead)) (by decide)
  have hvalue : 0 ≤ (Braces.strtoimax digits).value := by
    unfold Braces.strtoimax
    simp only [hspace, hminus, hplus, Bool.false_eq_true, or_self, if_false]
    split_ifs with hnone hmax hmin
    · exact le_rfl
    · exact Int.le_of_lt (by decide : 0 < Braces.intmaxMax)
    · unfold Braces.intmaxMin at hmin
      omega
    · exact Int.natCast_nonneg _
  unfold validNumber at h
  dsimp only at h
  split_ifs at h
  cases h
  exact hvalue

section

variable {r : Request} {w : World δ} {s : Dirs δ} {noCd : Bool} {offset : ℤ} {ws : List Word}

theorem pushdOptions_noCd (noCd : Bool) : pushdOptions offset false none
    ((if noCd then [['-', 'n']] else []) ++ ws) = pushdOptions offset noCd none ws := by
  cases noCd <;> rfl

theorem popdOptions_noCd (noCd : Bool) : popdOptions false 0 '+'
    ((if noCd then [['-', 'n']] else []) ++ ws) = popdOptions noCd 0 '+' ws := by
  cases noCd <;> rfl

theorem Operand.word_head (o : Operand) :
    isHelp o.word = false ∧ isOption o.word '-' = false ∧ isOption o.word 'n' = false := by
  cases o with
  | directory name plain =>
      have hne {c : Char} {t : Word} : name ≠ '-' :: c :: t := by
        intro h
        rw [h] at plain
        cases plain.2 rfl
      exact ⟨beq_false_of_ne hne, beq_false_of_ne hne, beq_false_of_ne hne⟩
  | index fromLeft digits number =>
      obtain ⟨c, rest, rfl⟩ := List.exists_cons_of_ne_nil number.1
      have hc := number.2 c List.mem_cons_self
      have hne {d : Char} {t : Word} (hd : d.isDigit = false) :
          (if fromLeft then '+' else '-') :: c :: rest ≠ '-' :: d :: t := by
        intro h
        rw [(List.cons.inj (List.cons.inj h).2).1, hd] at hc
        cases hc
      exact ⟨beq_false_of_ne (hne rfl), beq_false_of_ne (hne rfl), beq_false_of_ne (hne rfl)⟩

theorem words_head (r : Request) :
    r.words.head?.any isHelp = false ∧ r.words.head?.any (isOption · '-') = false := by
  unfold Request.words
  cases r.noCd with
  | true => exact ⟨rfl, rfl⟩
  | false =>
      cases r.operand with
      | none => exact ⟨rfl, rfl⟩
      | some o => exact ⟨o.word_head.1, o.word_head.2.1⟩

/-- `pushd` with an operand or the option. -/
theorem pushdBuiltin_words (hne : r.words ≠ []) : pushdBuiltin w r.words s =
    match pushdOptions s.list.length r.noCd none (r.operand.toList.map Operand.word) with
    | .stop status => some (status, s)
    | .args noCd (some num) _ =>
        match w.workingDirectory s.dir with
        | none =>
            if num = 0 then some (if noCd then executionSuccess else executionFailure, s)
            else none
        | some temp =>
            if noCd then
              some (executionSuccess, { s with list := (rotateLoop num.toNat s.list temp).1 })
            else some (cdToString w (rotateLoop num.toNat s.list temp).2
              { s with list := (rotateLoop num.toNat s.list temp).1 })
    | .args _ none [] => some (executionSuccess, s)
    | .args noCd none (dir :: rest) =>
        match w.workingDirectory s.dir with
        | none => some (executionFailure, s)
        | some currentDirectory =>
            if noCd then some (executionSuccess, { s with list := s.list ++ [dir] })
            else if (w.cd (dir :: rest) s.dir).1 = executionSuccess then
              some (executionSuccess,
                { list := s.list ++ [currentDirectory], dir := (w.cd (dir :: rest) s.dir).2 })
            else some (executionFailure, { s with dir := (w.cd (dir :: rest) s.dir).2 }) := by
  obtain ⟨hhelp, hskip⟩ := words_head r
  unfold pushdBuiltin
  rw [hhelp, hskip, if_neg Bool.false_ne_true]
  dsimp only
  rw [if_neg Bool.false_ne_true, if_neg hne, if_neg Bool.false_ne_true]
  unfold Request.words
  rw [pushdOptions_noCd]
  rfl

theorem pushdOptions_directory {name : Word}
    (plain : name.head? ≠ some '+' ∧ (name.head? = some '-' → name = ['-'])) (noCd : Bool) :
    pushdOptions offset noCd none [name] = .args noCd none [name] := by
  obtain ⟨-, hend, hn⟩ := (Operand.directory name plain).word_head
  rw [pushdOptions, show isOption name 'n' = false from hn,
    show isOption name '-' = false from hend, if_neg Bool.false_ne_true,
    if_neg Bool.false_ne_true]
  by_cases hdash : name = ['-']
  · rw [if_pos hdash]
  · rw [if_neg hdash, if_neg fun h => h.elim plain.1 fun h => hdash (plain.2 h)]

theorem popdOptions_directory {name : Word}
    (plain : name.head? ≠ some '+' ∧ (name.head? = some '-' → name = ['-'])) (noCd : Bool) :
    popdOptions noCd 0 '+' [name] =
      if name ≠ [] then .error exUsage else .ok (noCd, 0, '\x00') := by
  obtain ⟨-, hend, hn⟩ := (Operand.directory name plain).word_head
  rw [popdOptions, show isOption name 'n' = false from hn,
    show isOption name '-' = false from hend, if_neg Bool.false_ne_true,
    if_neg Bool.false_ne_true]
  by_cases hdash : name = ['-']
  · rw [hdash]
    rfl
  · rw [if_neg fun h => h.elim plain.1 fun h => hdash (plain.2 h)]

variable {fromLeft : Bool} {digits : Word}
  (number : digits ≠ [] ∧ ∀ c ∈ digits, c.isDigit = true)

include number

/-- An index out of range fails at once. -/
theorem pushdOptions_index (noCd : Bool) (list : List Word) :
    entryOf list.length fromLeft digits = none ∧ (∃ status, status ≠ executionSuccess ∧
      pushdOptions list.length noCd none [(Operand.index fromLeft digits number).word] =
        .stop status) ∨
    ∃ k, entryOf list.length fromLeft digits = some k ∧
      pushdOptions list.length noCd none [(Operand.index fromLeft digits number).word] =
        .args noCd (some k) [] := by
  obtain ⟨-, hend, hn⟩ := (Operand.index fromLeft digits number).word_head
  have hdash : (Operand.index fromLeft digits number).word ≠ ['-'] :=
    fun h => number.1 (List.cons.inj h).2
  have hsign : (Operand.index fromLeft digits number).word.head? = some '+' ∨
      (Operand.index fromLeft digits number).word.head? = some '-' := by
    cases fromLeft
    · exact .inr rfl
    · exact .inl rfl
  rw [pushdOptions, hend, hn, if_neg Bool.false_ne_true, if_neg Bool.false_ne_true, if_neg hdash,
    if_pos hsign, entryOf, show (Operand.index fromLeft digits number).word.tail = digits from rfl]
  cases hnumber : validNumber digits with
  | none => exact .inl ⟨rfl, exUsage, by decide, rfl⟩
  | some n =>
      have hpos := validNumber_nonneg number.2 hnumber
      dsimp only
      by_cases hle : n.toNat ≤ list.length
      · refine .inr ⟨if fromLeft then n.toNat else list.length - n.toNat, if_pos hle, ?_⟩
        cases fromLeft with
        | true =>
            change (if n > list.length ∨ n < 0 then _ else Options.args noCd (some n) []) = _
            rw [if_neg (by omega)]
            exact congrArg (fun i => Options.args noCd (some i) []) (Int.toNat_of_nonneg hpos).symm
        | false =>
            change (if (list.length : ℤ) - n > list.length ∨ (list.length : ℤ) - n < 0 then _
              else Options.args noCd (some (list.length - n)) []) = _
            rw [if_neg (by omega)]
            refine congrArg (fun i => Options.args noCd (some i) []) ?_
            change (list.length : ℤ) - n = (list.length - n.toNat : ℕ)
            omega
      · refine .inl ⟨if_neg hle, executionFailure, by decide, ?_⟩
        cases fromLeft with
        | true =>
            change (if n > list.length ∨ n < 0 then _ else _) = _
            rw [if_pos (by omega)]
        | false =>
            change (if (list.length : ℤ) - n > list.length ∨ (list.length : ℤ) - n < 0 then _
              else _) = _
            rw [if_pos (by omega)]

theorem popdOptions_index (noCd : Bool) :
    popdOptions noCd 0 '+' [(Operand.index fromLeft digits number).word] =
      match validNumber digits with
      | none => .error exUsage
      | some n => .ok (noCd, n, if fromLeft then '+' else '-') := by
  obtain ⟨-, hend, hn⟩ := (Operand.index fromLeft digits number).word_head
  have hsign : (Operand.index fromLeft digits number).word.head? = some '+' ∨
      (Operand.index fromLeft digits number).word.head? = some '-' := by
    cases fromLeft
    · exact .inr rfl
    · exact .inl rfl
  rw [popdOptions, hend, hn, if_neg Bool.false_ne_true, if_neg Bool.false_ne_true, if_pos hsign,
    show (Operand.index fromLeft digits number).word.tail = digits from rfl]
  cases validNumber digits <;> rfl

end

/-! ## The law -/

section

variable {r : Request} {w : World δ} {s : Dirs δ}

theorem atomic_of_run {status : Status} {s' : Dirs δ} (h : r.run w s = some (status, s')) :
    Atomic w r s ↔ (status ≠ executionSuccess → s' = s) ∧
      (status = executionSuccess → Documented w r s s') := by
  constructor
  · rintro ⟨status', s'', hrun, hatomic⟩
    rw [h] at hrun
    cases hrun
    exact hatomic
  · exact fun hatomic => ⟨status, s', h, hatomic⟩

theorem atomic_fails {status : Status} (h : r.run w s = some (status, s))
    (hstatus : status ≠ executionSuccess) : Atomic w r s :=
  (atomic_of_run h).mpr ⟨fun _ => rfl, fun hsuccess => absurd hsuccess hstatus⟩

theorem atomic_succeeds {s' : Dirs δ} (h : r.run w s = some (executionSuccess, s')) :
    Atomic w r s ↔ Documented w r s s' := by
  rw [atomic_of_run h]
  exact ⟨fun hatomic => hatomic.2 rfl, fun hdoc => ⟨fun hne => absurd rfl hne, fun _ => hdoc⟩⟩

/-- The list is changed before `cd`. -/
theorem atomic_cd {name : Word} {list : List Word}
    (h : r.run w s = some (cdToString w name { s with list := list }))
    (hdoc : Documented w r s { list := list, dir := w.after s [['-', '-'], name] }) :
    Atomic w r s ↔ w.Reaches s [['-', '-'], name] ∨
      w.Stays s [['-', '-'], name] ∧ list = s.list := by
  rw [atomic_of_run h]
  constructor
  · rintro ⟨hfail, -⟩
    by_cases hreaches : w.Reaches s [['-', '-'], name]
    · exact .inl hreaches
    · have hsame := hfail hreaches
      exact .inr ⟨congrArg Dirs.dir hsame, congrArg Dirs.list hsame⟩
  · intro hsafe
    refine ⟨fun hfails => ?_, fun _ => hdoc⟩
    obtain hreaches | ⟨hstays, rfl⟩ := hsafe
    · exact absurd hreaches hfails
    · exact congrArg (fun dir => ({ list := s.list, dir := dir } : Dirs δ)) hstays

/-- The list is changed after `cd`. -/
theorem atomic_cd_first {args : List Word} {list : List Word} {status : Status}
    (hstatus : (w.cd args s.dir).1 ≠ executionSuccess → status ≠ executionSuccess)
    (h : r.run w s = if (w.cd args s.dir).1 = executionSuccess then
        some (executionSuccess, { list := list, dir := (w.cd args s.dir).2 })
      else some (status, { s with dir := (w.cd args s.dir).2 }))
    (hdoc : Documented w r s { list := list, dir := w.after s args }) :
    Atomic w r s ↔ w.Reaches s args ∨ w.Stays s args := by
  by_cases hreaches : (w.cd args s.dir).1 = executionSuccess
  · rw [if_pos hreaches] at h
    rw [atomic_succeeds h]
    exact iff_of_true hdoc (.inl hreaches)
  · rw [if_neg hreaches] at h
    rw [atomic_of_run h]
    constructor
    · exact fun hatomic => .inr (congrArg Dirs.dir (hatomic.1 (hstatus hreaches)))
    · rintro (hyes | hstays)
      · exact absurd hyes hreaches
      · exact ⟨fun _ => congrArg (fun dir => ({ list := s.list, dir := dir } : Dirs δ)) hstays,
          fun hsuccess => absurd hsuccess (hstatus hreaches)⟩

end

variable (w : World δ) (s : Dirs δ) (noCd : Bool)

theorem run_swap : Request.run ⟨false, false, none⟩ w s =
    match s.list.getLast?, w.workingDirectory s.dir with
    | none, _ => some (executionFailure, s)
    | some _, none => some (executionFailure, s)
    | some temp, some currentDirectory =>
        some (cdToString w temp { s with list := s.list.dropLast ++ [currentDirectory] }) := rfl

theorem atomic_swap : Atomic w ⟨false, noCd, none⟩ s ↔ Safe w ⟨false, noCd, none⟩ s := by
  cases noCd with
  | true =>
      have hrun : Request.run ⟨false, true, none⟩ w s = some (executionSuccess, s) := rfl
      rw [atomic_succeeds hrun]
      exact iff_of_true rfl fun h => absurd h.symm Bool.false_ne_true
  | false =>
      have hrun := run_swap w s
      change _ ↔ (false = false → ∀ top ∈ s.list.getLast?,
        ∀ currentDirectory ∈ w.workingDirectory s.dir, _)
      obtain hnil | ⟨rest, top, hlist⟩ := List.eq_nil_or_concat' s.list
      · rw [hnil] at hrun ⊢
        exact iff_of_true (atomic_fails hrun (by decide)) fun _ top htop => by cases htop
      rw [hlist, List.getLast?_concat, List.dropLast_concat] at hrun
      rw [hlist, List.getLast?_concat]
      cases hdirectory : w.workingDirectory s.dir with
      | none =>
          rw [hdirectory] at hrun
          exact iff_of_true (atomic_fails hrun (by decide)) fun _ _ _ c hc => by cases hc
      | some currentDirectory =>
          rw [hdirectory] at hrun
          rw [atomic_cd hrun ⟨currentDirectory, top, rest, hdirectory, hlist, rfl⟩, hlist]
          simp only [Option.mem_some_iff, forall_eq', forall_const, List.append_cancel_left_eq,
            List.cons.injEq, and_true]
          rw [eq_comm]

theorem atomic_pushdDirectory (name : Word)
    (plain : name.head? ≠ some '+' ∧ (name.head? = some '-' → name = ['-'])) :
    Atomic w ⟨false, noCd, some (.directory name plain)⟩ s ↔
      Safe w ⟨false, noCd, some (.directory name plain)⟩ s := by
  have hne : Request.words ⟨false, noCd, some (.directory name plain)⟩ ≠ [] := by
    cases noCd <;> exact List.cons_ne_nil _ _
  have hrun : Request.run ⟨false, noCd, some (.directory name plain)⟩ w s = _ :=
    pushdBuiltin_words hne
  rw [show (some (Operand.directory name plain)).toList.map Operand.word = [name] from rfl,
    pushdOptions_directory plain] at hrun
  change _ ↔ (noCd = false → w.workingDirectory s.dir ≠ none → _)
  dsimp only at hrun
  cases hdirectory : w.workingDirectory s.dir with
  | none =>
      rw [hdirectory] at hrun
      exact iff_of_true (atomic_fails hrun (by decide)) fun _ hsome => absurd rfl hsome
  | some currentDirectory =>
      rw [hdirectory] at hrun
      dsimp only at hrun
      cases noCd with
      | true =>
          rw [if_pos rfl] at hrun
          rw [atomic_succeeds hrun]
          exact iff_of_true rfl nofun
      | false =>
          rw [if_neg Bool.false_ne_true] at hrun
          rw [atomic_cd_first (fun _ => by decide) hrun ⟨currentDirectory, hdirectory, rfl⟩]
          simp

theorem atomic_pushdIndex (fromLeft : Bool) (digits : Word)
    (number : digits ≠ [] ∧ ∀ c ∈ digits, c.isDigit = true) :
    Atomic w ⟨false, noCd, some (.index fromLeft digits number)⟩ s ↔
      Safe w ⟨false, noCd, some (.index fromLeft digits number)⟩ s := by
  have hne : Request.words ⟨false, noCd, some (.index fromLeft digits number)⟩ ≠ [] := by
    cases noCd <;> exact List.cons_ne_nil _ _
  have hrun : Request.run ⟨false, noCd, some (.index fromLeft digits number)⟩ w s = _ :=
    pushdBuiltin_words hne
  rw [show (some (Operand.index fromLeft digits number)).toList.map Operand.word =
    [(Operand.index fromLeft digits number).word] from rfl] at hrun
  change _ ↔ (∀ k ∈ entryOf s.list.length fromLeft digits, _)
  obtain ⟨hnone, status, hstatus, hoptions⟩ | ⟨k, hentry, hoptions⟩ :=
    @pushdOptions_index fromLeft digits number noCd s.list
  · rw [hoptions] at hrun
    rw [hnone]
    exact iff_of_true (atomic_fails hrun hstatus) nofun
  rw [hoptions] at hrun
  rw [hentry]
  dsimp only at hrun
  simp only [Option.mem_some_iff, forall_eq']
  cases hdirectory : w.workingDirectory s.dir with
  | none =>
      rw [hdirectory] at hrun
      dsimp only at hrun
      by_cases hk : k = 0
      · subst hk
        rw [if_pos Int.ofNat_zero] at hrun
        refine iff_of_true ?_ ⟨fun h => absurd rfl h, nofun⟩
        cases noCd with
        | false => exact atomic_fails hrun (by decide)
        | true => exact (atomic_succeeds hrun).mpr ⟨0, hentry, rfl, .refl _⟩
      · rw [if_neg (by omega)] at hrun
        refine iff_of_false ?_ fun h => h.1 hk rfl
        rintro ⟨_, _, hsome, -⟩
        rw [hrun] at hsome
        cases hsome
  | some currentDirectory =>
      rw [hdirectory, Int.toNat_natCast] at hrun
      dsimp only at hrun
      have hrotate := rotateLoop_eq k s.list currentDirectory
      generalize rotateLoop k s.list currentDirectory = found at hrun hrotate
      obtain ⟨list, top⟩ := found
      dsimp only at hrun hrotate
      have hsafe : (k ≠ 0 → some currentDirectory ≠ none) ∧
          (∀ c ∈ some currentDirectory, ∀ t rest, (s.full c).rotate k = t :: rest →
            if noCd then t = c
            else w.Reaches s [['-', '-'], t] ∨ w.Stays s [['-', '-'], t] ∧ rest = s.list.reverse) ↔
          if noCd then top = currentDirectory
          else w.Reaches s [['-', '-'], top] ∨
            w.Stays s [['-', '-'], top] ∧ list.reverse = s.list.reverse := by
        constructor
        · exact fun h => h.2 currentDirectory rfl top list.reverse hrotate.symm
        · refine fun h => ⟨fun _ => nofun, fun c hc t rest hfull => ?_⟩
          cases hc
          rw [Dirs.full, ← hrotate] at hfull
          cases hfull
          exact h
      refine Iff.trans ?_ hsafe.symm
      cases noCd with
      | true =>
          rw [if_pos rfl] at hrun
          rw [atomic_succeeds hrun, if_pos rfl, ← perm_iff_top hrotate.symm, List.reverse_reverse]
          constructor
          · rintro ⟨_, -, -, hperm⟩
            exact hperm
          · exact fun hperm => ⟨k, hentry, rfl, hperm⟩
      | false =>
          rw [if_neg Bool.false_ne_true] at hrun
          rw [if_neg Bool.false_ne_true, List.reverse_inj]
          refine atomic_cd hrun ⟨k, hentry, currentDirectory, top, list.reverse, hdirectory,
            hrotate.symm, ?_⟩
          rw [List.reverse_reverse]

/-! ### popd -/

variable {r : Request} {w : World δ} {s : Dirs δ} {noCd : Bool} {which : ℤ} {direction : Char}

/-- The top is removed. -/
theorem atomic_pop {rest : List Word} {top : Word} (hlist : s.list = rest ++ [top])
    (hrun : r.run w s =
      if noCd then some (executionSuccess, { s with list := rest })
      else if (w.cd [['-', '-'], top] s.dir).1 ≠ executionSuccess then
        some (cdToString w top s)
      else some (executionSuccess, { list := rest, dir := (w.cd [['-', '-'], top] s.dir).2 }))
    (hdoc : ∀ s', Popped w noCd s s' → Documented w r s s') :
    Atomic w r s ↔ PopSafe w noCd s := by
  unfold PopSafe
  rw [hlist, List.getLast?_concat]
  simp only [Option.mem_some_iff, forall_eq']
  cases noCd with
  | true =>
      rw [if_pos rfl] at hrun
      rw [atomic_succeeds hrun]
      exact iff_of_true (hdoc _ ⟨top, hlist, rfl⟩) nofun
  | false =>
      rw [if_neg Bool.false_ne_true, ite_not] at hrun
      rw [atomic_cd_first id hrun (hdoc _ ⟨top, hlist, rfl⟩)]
      exact ⟨fun h _ => h, fun h => h rfl⟩

/-- `popd` behind its options. -/
def popdAt (w : World δ) (s : Dirs δ) (noCd : Bool) (which : ℤ) (direction : Char) :
    Option (Status × Dirs δ) :=
  if which > s.list.length ∨ which < -s.list.length ∨ (s.list.length : ℤ) = 0 ∧ which = 0 then
    some (executionFailure, s)
  else if direction = '+' ∧ which = 0 ∨ direction = '-' ∧ which = s.list.length then
    match s.list.getLast? with
    | none => none
    | some top =>
        if noCd then some (executionSuccess, { s with list := s.list.dropLast })
        else if (w.cd [['-', '-'], top] s.dir).1 ≠ executionSuccess then some (cdToString w top s)
        else some (executionSuccess,
          { list := s.list.dropLast, dir := (w.cd [['-', '-'], top] s.dir).2 })
  else
    let i := if direction = '+' then s.list.length - which else which
    if i < 0 ∨ i > s.list.length then some (executionFailure, s)
    else if i = s.list.length then none
    else some (executionSuccess, { s with list := s.list.eraseIdx i.toNat })

theorem popdBuiltin_words (hpopd : r.popd = true) : r.run w s =
    match popdOptions r.noCd 0 '+' (r.operand.toList.map Operand.word) with
    | .error status => some (status, s)
    | .ok (noCd, which, direction) => popdAt w s noCd which direction := by
  unfold Request.run popdBuiltin
  rw [if_pos hpopd, (words_head r).1, if_neg Bool.false_ne_true, Request.words, popdOptions_noCd]
  rfl

/-- The top is asked for. -/
theorem atomic_popTop (hrun : r.run w s = popdAt w s noCd which direction)
    (htop : direction = '+' ∧ which = 0 ∨ direction = '-' ∧ which = s.list.length)
    (hdoc : ∀ s', Popped w noCd s s' → Documented w r s s') :
    Atomic w r s ↔ PopSafe w noCd s := by
  unfold popdAt at hrun
  obtain hnil | ⟨rest, top, hlist⟩ := List.eq_nil_or_concat' s.list
  · have hlength : s.list.length = 0 := by rw [hnil, List.length_nil]
    rw [if_pos (by omega)] at hrun
    refine iff_of_true (atomic_fails hrun (by decide)) fun _ top htop => ?_
    rw [hnil] at htop
    cases htop
  · have hlength : s.list.length ≠ 0 := by
      rw [hlist, List.length_append]
      exact Nat.succ_ne_zero _
    rw [if_neg (by omega), if_pos htop, hlist, List.getLast?_concat, List.dropLast_concat] at hrun
    exact atomic_pop hlist hrun hdoc

/-- An entry of the list but the top is asked for. -/
theorem popdAt_entry {i : ℕ} (hi : i < s.list.length)
    (h : direction = '+' ∧ which = s.list.length - i ∨ direction ≠ '+' ∧ which = i) :
    popdAt w s noCd which direction =
      some (executionSuccess, { s with list := s.list.eraseIdx i }) := by
  have hindex : (if direction = '+' then (s.list.length : ℤ) - which else which) = i := by
    obtain ⟨rfl, rfl⟩ | ⟨hd, rfl⟩ := h
    · rw [if_pos rfl]
      omega
    · rw [if_neg hd]
  have htop : ¬(direction = '+' ∧ which = 0 ∨ direction = '-' ∧ which = s.list.length) := by
    rintro (⟨rfl, rfl⟩ | ⟨rfl, rfl⟩)
    · exact h.elim (fun h => by omega) fun h => h.1 rfl
    · exact h.elim (fun h => absurd h.1 (by decide)) fun h => by omega
  unfold popdAt
  dsimp only
  rw [hindex, if_neg (by omega), if_neg htop, if_neg (by omega), if_neg (by omega),
    Int.toNat_natCast]

theorem atomic_popd (w : World δ) (s : Dirs δ) (noCd : Bool) :
    Atomic w ⟨true, noCd, none⟩ s ↔ Safe w ⟨true, noCd, none⟩ s :=
  atomic_popTop (popdBuiltin_words rfl) (.inl ⟨rfl, rfl⟩) fun _ h => h

theorem atomic_popdDirectory (w : World δ) (s : Dirs δ) (noCd : Bool) (name : Word)
    (plain : name.head? ≠ some '+' ∧ (name.head? = some '-' → name = ['-'])) :
    Atomic w ⟨true, noCd, some (.directory name plain)⟩ s ↔
      Safe w ⟨true, noCd, some (.directory name plain)⟩ s := by
  have hoptions := popdOptions_directory plain noCd
  have hrun : Request.run ⟨true, noCd, some (.directory name plain)⟩ w s = _ :=
    popdBuiltin_words rfl
  rw [show (some (Operand.directory name plain)).toList.map Operand.word = [name] from rfl,
    hoptions] at hrun
  change _ ↔ (name = [] → s.list = [])
  by_cases hname : name = []
  · rw [if_neg (not_not.mpr hname)] at hrun
    dsimp only at hrun
    by_cases hlist : s.list = []
    · rw [popdAt, hlist, if_pos (.inr (.inr ⟨rfl, rfl⟩))] at hrun
      exact iff_of_true (atomic_fails hrun (by decide)) fun _ => hlist
    · have hentry : popdAt w s noCd 0 '\x00' =
          some (executionSuccess, { s with list := s.list.eraseIdx 0 }) :=
        popdAt_entry (List.length_pos_iff.mpr hlist) (.inr ⟨by decide, rfl⟩)
      rw [hentry] at hrun
      rw [atomic_succeeds hrun]
      exact iff_of_false id fun h => hlist (h hname)
  · rw [if_pos hname] at hrun
    exact iff_of_true (atomic_fails hrun (by decide)) fun h => absurd h hname

theorem atomic_popdIndex (w : World δ) (s : Dirs δ) (noCd fromLeft : Bool) (digits : Word)
    (number : digits ≠ [] ∧ ∀ c ∈ digits, c.isDigit = true) :
    Atomic w ⟨true, noCd, some (.index fromLeft digits number)⟩ s ↔
      Safe w ⟨true, noCd, some (.index fromLeft digits number)⟩ s := by
  have hrun : Request.run ⟨true, noCd, some (.index fromLeft digits number)⟩ w s = _ :=
    popdBuiltin_words rfl
  rw [show (some (Operand.index fromLeft digits number)).toList.map Operand.word =
      [(Operand.index fromLeft digits number).word] from rfl, popdOptions_index number] at hrun
  have hentry : entryOf s.list.length fromLeft digits =
      match validNumber digits with
      | none => none
      | some n => if n.toNat ≤ s.list.length then
          some (if fromLeft then n.toNat else s.list.length - n.toNat) else none := rfl
  change _ ↔ (entryOf s.list.length fromLeft digits = some 0 → PopSafe w noCd s)
  cases hnumber : validNumber digits with
  | none =>
      rw [hnumber] at hrun hentry
      rw [hentry]
      exact iff_of_true (atomic_fails hrun (by decide)) nofun
  | some n =>
      have hpos := validNumber_nonneg number.2 hnumber
      rw [hnumber] at hrun hentry
      dsimp only at hrun hentry
      by_cases hle : n.toNat ≤ s.list.length
      · rw [if_pos hle] at hentry
        generalize hk : (if fromLeft = true then n.toNat else s.list.length - n.toNat) = k at hentry
        have hdirection : fromLeft = true ∧ n = k ∨
            fromLeft = false ∧ n = s.list.length - k ∧ k ≤ s.list.length := by
          cases fromLeft with
          | true => exact .inl ⟨rfl, by rw [if_pos rfl] at hk; omega⟩
          | false => exact .inr ⟨rfl, by rw [if_neg Bool.false_ne_true] at hk; omega⟩
        rw [hentry]
        by_cases hzero : k = 0
        · subst hzero
          have hdoc : ∀ s', Popped w noCd s s' →
              Documented w ⟨true, noCd, some (.index fromLeft digits number)⟩ s s' :=
            fun s' h => ⟨0, hentry, h⟩
          have htop : (if fromLeft then '+' else '-') = '+' ∧ n = 0 ∨
              (if fromLeft then '+' else '-') = '-' ∧ n = s.list.length := by
            obtain ⟨rfl, hn⟩ | ⟨rfl, hn, -⟩ := hdirection
            · exact .inl ⟨rfl, hn⟩
            · exact .inr ⟨rfl, by omega⟩
          rw [atomic_popTop hrun htop hdoc]
          exact ⟨fun h _ => h, fun h => h rfl⟩
        · rw [@popdAt_entry _ _ _ _ _ _ (s.list.length - k) (by omega) (by
            obtain ⟨rfl, hn⟩ | ⟨rfl, hn, -⟩ := hdirection
            · exact .inl ⟨rfl, by omega⟩
            · exact .inr ⟨by decide, by omega⟩)] at hrun
          rw [atomic_succeeds hrun]
          refine iff_of_true ⟨k, hentry, ?_⟩ fun h => absurd (Option.some.inj h) hzero
          rw [if_neg hzero]
      · rw [if_neg hle] at hentry
        rw [hentry]
        rw [popdAt, if_pos (.inl (by omega))] at hrun
        exact iff_of_true (atomic_fails hrun (by decide)) nofun

theorem pushd_popd_atomic_iff (w : World δ) (r : Request) (s : Dirs δ) :
    Atomic w r s ↔ Safe w r s := by
  obtain ⟨popd, noCd, operand⟩ := r
  match popd, operand with
  | false, none => exact atomic_swap w s noCd
  | false, some (.directory name plain) => exact atomic_pushdDirectory w s noCd name plain
  | false, some (.index fromLeft digits number) =>
      exact atomic_pushdIndex w s noCd fromLeft digits number
  | true, none => exact atomic_popd w s noCd
  | true, some (.directory name plain) => exact atomic_popdDirectory w s noCd name plain
  | true, some (.index fromLeft digits number) =>
      exact atomic_popdIndex w s noCd fromLeft digits number

/-- `pushd` with the directory on the stack gone: the stack has lost its name. -/
theorem not_atomic_pushd : ¬Atomic (δ := Word)
    ⟨some, fun _ dir => (executionFailure, dir)⟩ ⟨false, false, none⟩
    ⟨[['b']], ['a']⟩ := by
  rintro ⟨status, s', hrun, hfails, -⟩
  cases hrun
  exact absurd (congrArg Dirs.list (hfails (by decide))) (by decide)

end DirectoryStack

end Rash
