import Mathlib.Data.List.GetD
import Mathlib.Data.List.TakeWhile
import Mathlib.Logic.Function.Basic
import Rash.Lib.LexicalPath

/-!
# The path without its dots

`sh_canonpath` rewrites a path in place: it reads at `p`, writes at `q`, and a `..` takes `q` back
to the slash before it, though never below `dotdot`.  What is left is the fold of the components
over a stack.
-/

namespace Rash

open LexicalPath

namespace PathCanon

def nul : Char := '\x00'

def isDirSep (c : Char) : Bool := c == '/'

def pathSep (c : Char) : Bool := isDirSep c || c == nul

structure CanonFlags where
  checkDotdot : Bool
  checkExists : Bool

/-- The string `result` with the pointers of the loop -/
structure Cursor where
  result : ℕ → Char
  p : ℕ
  q : ℕ
  dotdot : ℕ

/-- A C string, as long as it has no more than `n` characters -/
def textOf (buf : ℕ → Char) (n : ℕ) : List Char :=
  ((List.range n).map buf).takeWhile (· != nul)

def rootedPath (path : List Char) : Bool := path.getD 0 nul == '/'

def doubleSlash (c : ℕ → Char) : Bool := c 0 == '/' && c 1 == '/' && c 2 != '/'

namespace Cursor

/-- `*q++ = x` -/
def put (c : Cursor) (x : Char) : Cursor :=
  { c with result := Function.update c.result c.q x, q := c.q + 1 }

/-- The separator in front of a component, if it is not the first one. -/
def separate (base : ℕ) (c : Cursor) : Cursor := if c.q ≠ base then c.put '/' else c

/-- What `_path_isdir` is asked about, with a NUL put at `q` for the time of the call. -/
def soFar (c : Cursor) : List Char := textOf (Function.update c.result c.q nul) c.q

end Cursor

/-- `while (--q > dotdot && ISDIRSEP (*q) == 0);` -/
def backtrack (buf : ℕ → Char) (dotdot : ℕ) : ℕ → ℕ
  | 0 => 0
  | q + 1 => if dotdot < q ∧ isDirSep (buf q) = false then backtrack buf dotdot q else q

/-- `while (*p && ISDIRSEP (*p) == 0) *q++ = *p++;` -/
def copyElement : ℕ → Cursor → Cursor
  | 0, c => c
  | n + 1, c =>
      if c.result c.p ≠ nul ∧ isDirSep (c.result c.p) = false then
        copyElement n { c.put (c.result c.p) with p := c.p + 1 }
      else c

section

variable (isdir : List Char → Bool) (flags : CanonFlags) (rooted : Bool) (base n : ℕ)

/-- One turn of the loop; nothing when a check finds no directory. -/
def turn (c : Cursor) : Option Cursor :=
  if isDirSep (c.result c.p) then some { c with p := c.p + 1 }
  else if c.result c.p = '.' ∧ pathSep (c.result (c.p + 1)) then some { c with p := c.p + 1 }
  else if c.result c.p = '.' ∧ c.result (c.p + 1) = '.' ∧ pathSep (c.result (c.p + 2)) then
    let c := { c with p := c.p + 2 }
    if c.dotdot < c.q then
      if flags.checkDotdot && !isdir c.soFar then none
      else some { c with q := backtrack c.result c.dotdot c.q }
    else if rooted = false then
      let c := ((c.separate base).put '.').put '.'
      some { c with dotdot := c.q }
    else some c
  else
    let c := copyElement n (c.separate base)
    if flags.checkExists && !isdir c.soFar then none else some c

def turns : ℕ → Cursor → Option Cursor
  | 0, c => some c
  | m + 1, c =>
      if c.result c.p = nul then some c
      else (turn isdir flags rooted base n c).bind (turns m)

end

/-- `sh_canonpath`; the result may be the string of the caller or a copy of it. -/
def shCanonpath (isdir : List Char → Bool) (flags : CanonFlags) (path : List Char) :
    Option (List Char) :=
  let rooted := rootedPath path
  let twice := rooted && doubleSlash fun i => path.getD i nul
  let base := if rooted then if twice then 2 else 1 else 0
  let n := path.length
  (turns isdir flags rooted base n (n + 1) ⟨fun i => path.getD i nul, base, base, base⟩).map
    fun c =>
      let c := if c.q = 0 then c.put (if rooted then '/' else '.') else c
      let result := Function.update c.result c.q nul
      if doubleSlash result && !twice then
        if result 2 = nul then textOf (Function.update result 1 nul) (n + 1)
        else textOf (fun i => result (i + 1)) (n + 1)
      else textOf result (n + 1)

/-! ## What stands in the buffer -/

def Stands (buf : ℕ → Char) (text : List Char) : Prop := ∀ i x, text[i]? = some x → buf i = x

section

variable {buf buf' : ℕ → Char} {text path e t : List Char} {x : Char}

theorem Stands.congr (h : Stands buf text) (hkept : ∀ i < text.length, buf' i = buf i) :
    Stands buf' text := by
  intro i y hy
  rw [hkept i (List.getElem?_eq_some_iff.mp hy).1]
  exact h i y hy

theorem Stands.put (h : Stands buf text) :
    Stands (Function.update buf text.length x) (text ++ [x]) := by
  intro i y hy
  by_cases hi : i < text.length
  · rw [Function.update_of_ne (by omega)]
    rw [List.getElem?_append_left hi] at hy
    exact h i y hy
  · have hlast : i = text.length := by
      have hbound := (List.getElem?_eq_some_iff.mp hy).1
      rw [List.length_append, List.length_singleton] at hbound
      omega
    subst hlast
    rw [List.getElem?_concat_length, Option.some.injEq] at hy
    rw [Function.update_self, hy]

theorem Stands.left (h : Stands buf (text ++ t)) : Stands buf text := by
  intro i y hy
  apply h
  rw [List.getElem?_append_left (List.getElem?_eq_some_iff.mp hy).1, hy]

theorem Stands.right (h : Stands buf (text ++ t)) (i : ℕ) (hi : t[i]? = some x) :
    buf (text.length + i) = x := by
  apply h
  rw [List.getElem?_append_right (Nat.le_add_right _ _), Nat.add_sub_cancel_left, hi]

/-- Reading the string stops at the NUL behind it. -/
theorem textOf_eq (h : Stands buf text) (hend : buf text.length = nul) (hnul : nul ∉ text)
    {n : ℕ} (hn : text.length < n) : textOf buf n = text := by
  obtain ⟨m, rfl⟩ : ∃ m, n = text.length + (m + 1) := ⟨n - text.length - 1, by omega⟩
  have hmap : (List.range text.length).map buf = text := by
    apply List.ext_getElem (by simp)
    intro i hi hi'
    rw [List.getElem_map, List.getElem_range]
    exact h i _ (List.getElem?_eq_getElem hi')
  have hall : ∀ y ∈ text, (y != nul) = true := by
    intro y hy
    exact bne_iff_ne.mpr fun heq => hnul (heq ▸ hy)
  rw [textOf, List.range_add, List.map_append, hmap, List.takeWhile_append_of_pos hall,
    List.range_succ_eq_map, List.map_cons, List.map_cons, Nat.add_zero, hend,
    List.takeWhile_cons_of_neg (by simp), List.append_nil]

theorem getD_of_drop {p : ℕ} (hdrop : path.drop p = x :: t) : path.getD p nul = x := by
  have hget : path[p]? = some x := by
    rw [← List.head?_drop, hdrop, List.head?_cons]
  rw [List.getD_eq_getElem?_getD, hget, Option.getD_some]

theorem drop_eq_cons {p : ℕ} (hx : path.getD p nul ≠ nul) :
    path.drop p = path.getD p nul :: path.drop (p + 1) := by
  have hlt : p < path.length := by
    by_contra hge
    exact hx (by rw [List.getD_eq_default _ _ (by omega)])
  rw [List.drop_eq_getElem_cons hlt, List.getD_eq_getElem _ _ hlt]

theorem getD_eq_nul (hnul : nul ∉ path) {p : ℕ} : path.getD p nul = nul ↔ path.length ≤ p := by
  constructor
  · intro heq
    by_contra hlt
    rw [not_le] at hlt
    rw [List.getD_eq_getElem _ _ hlt] at heq
    exact hnul (heq ▸ List.getElem_mem hlt)
  · exact fun hle => List.getD_eq_default _ _ hle

theorem pathSep_iff (hnul : nul ∉ path) {p : ℕ} :
    pathSep (path.getD p nul) = true ↔ AtEnd '/' (path.drop p) := by
  by_cases hend : path.getD p nul = nul
  · rw [List.drop_eq_nil_of_le ((getD_eq_nul hnul).mp hend), hend]
    simp [AtEnd, pathSep]
  · rw [drop_eq_cons hend]
    generalize path.getD p nul = x at hend ⊢
    simp [AtEnd, pathSep, isDirSep, hend]

end

/-- A component and what comes behind it, from `p` on -/
structure Ahead (path : List Char) (p : ℕ) (e t : List Char) : Prop where
  drop_eq : path.drop p = e ++ t
  whole : '/' ∉ e
  rest : AtEnd '/' t

namespace Ahead

variable {path e t : List Char} {p : ℕ} {x : Char}

theorem exists_ahead (path : List Char) (p : ℕ) : ∃ e t, Ahead path p e t := by
  refine ⟨(path.drop p).takeWhile (· != '/'), (path.drop p).dropWhile (· != '/'),
    List.takeWhile_append_dropWhile.symm, fun hin => ?_, fun x hx => ?_⟩
  · have hslash := List.mem_takeWhile_imp hin
    simp at hslash
  · have hslash := List.head?_dropWhile_not (· != '/') (path.drop p)
    rw [hx] at hslash
    simpa using hslash

theorem tail (h : Ahead path p (x :: e) t) : Ahead path (p + 1) e t where
  drop_eq := by
    rw [← List.drop_drop, h.drop_eq]
    rfl
  whole hin := h.whole (List.mem_cons_of_mem x hin)
  rest := h.rest

theorem getD_eq (h : Ahead path p (x :: e) t) : path.getD p nul = x := getD_of_drop h.drop_eq

theorem drop_add (h : Ahead path p e t) : path.drop (p + e.length) = t := by
  rw [← List.drop_drop, h.drop_eq, List.drop_left]

theorem add_length_le (h : Ahead path p e t) (hp : p ≤ path.length) :
    p + e.length ≤ path.length := by
  have hlength := congrArg List.length h.drop_eq
  rw [List.length_drop, List.length_append] at hlength
  omega

theorem mem (h : Ahead path p e t) (hx : x ∈ e) : x ∈ path :=
  List.mem_of_mem_drop (i := p) (by rw [h.drop_eq]; exact List.mem_append_left t hx)

theorem pathSep_iff (hnul : nul ∉ path) (h : Ahead path p e t) :
    pathSep (path.getD p nul) = true ↔ e = [] := by
  cases e with
  | nil =>
      have hat : pathSep (path.getD p nul) = true := by
        rw [PathCanon.pathSep_iff hnul, h.drop_eq, List.nil_append]
        exact h.rest
      exact iff_of_true hat rfl
  | cons x e =>
      rw [h.getD_eq]
      have hslash : x ≠ '/' := by
        rintro rfl
        exact h.whole List.mem_cons_self
      have hx : x ≠ nul := fun heq => hnul (heq ▸ h.mem List.mem_cons_self)
      simp [pathSep, isDirSep, hslash, hx]

/-- The component begins with the character that is read, unless a separator is. -/
theorem cons_of_getD (hnul : nul ∉ path) (h : Ahead path p e t) (hx : path.getD p nul = x)
    (hpath : pathSep x = false) : ∃ e', e = x :: e' := by
  cases e with
  | nil =>
      have hat := (h.pathSep_iff hnul).mpr rfl
      rw [hx, hpath] at hat
      cases hat
  | cons y e => exact ⟨e, by rw [← hx, h.getD_eq]⟩

theorem dot_iff (hnul : nul ∉ path) (h : Ahead path p e t) :
    path.getD p nul = '.' ∧ pathSep (path.getD (p + 1) nul) = true ↔ e = ['.'] := by
  constructor
  · rintro ⟨hdot, hsep⟩
    obtain ⟨e, rfl⟩ := h.cons_of_getD hnul hdot (by decide)
    rw [h.tail.pathSep_iff hnul] at hsep
    rw [hsep]
  · rintro rfl
    exact ⟨h.getD_eq, (h.tail.pathSep_iff hnul).mpr rfl⟩

theorem dotdot_iff (hnul : nul ∉ path) (h : Ahead path p e t) :
    path.getD p nul = '.' ∧ path.getD (p + 1) nul = '.' ∧
      pathSep (path.getD (p + 2) nul) = true ↔ e = ['.', '.'] := by
  constructor
  · rintro ⟨hdot, hrest⟩
    obtain ⟨e, rfl⟩ := h.cons_of_getD hnul hdot (by decide)
    rw [(h.tail.dot_iff hnul).mp hrest]
  · rintro rfl
    exact ⟨h.getD_eq, (h.tail.dot_iff hnul).mpr rfl⟩

end Ahead

/-! ## The loops inside the loop -/

theorem backtrack_spec {buf : ℕ → Char} {dotdot l q : ℕ} (hd : dotdot ≤ l)
    (hstop : dotdot = l ∨ isDirSep (buf l) = true)
    (hmid : ∀ i, l < i → i < q → isDirSep (buf i) = false) (hlt : l < q) :
    backtrack buf dotdot q = l := by
  induction q with
  | zero => exact absurd hlt (Nat.not_lt_zero l)
  | succ q ih =>
      rw [backtrack]
      rcases Nat.lt_succ_iff_lt_or_eq.mp hlt with hlt | rfl
      · rw [if_pos ⟨by omega, hmid q hlt (Nat.lt_succ_self q)⟩]
        exact ih (fun i hi hiq => hmid i hi (by omega)) hlt
      · rw [if_neg]
        rintro ⟨hfar, hsep⟩
        rcases hstop with hstop | hstop
        · omega
        · rw [hstop] at hsep
          cases hsep

/-- The reader and the writer in one buffer -/
structure Rewriting (path text : List Char) (c : Cursor) : Prop where
  unread : ∀ i, c.p ≤ i → c.result i = path.getD i nul
  behind : c.q ≤ c.p
  written : Stands c.result text
  q_eq : c.q = text.length

section

variable {path text e t : List Char} {c : Cursor}

theorem Rewriting.copy {x : Char} (h : Rewriting path text c) :
    Rewriting path (text ++ [x]) { c.put x with p := c.p + 1 } where
  unread i hi := by
    have hbehind := h.behind
    have hne : i ≠ c.q := by
      have hp : c.p + 1 ≤ i := hi
      omega
    change Function.update c.result c.q x i = _
    rw [Function.update_of_ne hne]
    exact h.unread i (Nat.le_of_succ_le hi)
  behind := Nat.succ_le_succ h.behind
  written := by
    change Stands (Function.update c.result c.q x) _
    rw [h.q_eq]
    exact h.written.put
  q_eq := by
    rw [List.length_append, List.length_singleton, ← h.q_eq]
    rfl

/-- A character written while the reader stands ahead -/
theorem Rewriting.put {x : Char} (h : Rewriting path text c) (hlt : c.q < c.p) :
    Rewriting path (text ++ [x]) (c.put x) where
  unread i hi := by
    have hne : i ≠ c.q := by
      have hp : c.p ≤ i := hi
      omega
    change Function.update c.result c.q x i = _
    rw [Function.update_of_ne hne]
    exact h.unread i hi
  behind := hlt
  written := by
    change Stands (Function.update c.result c.q x) _
    rw [h.q_eq]
    exact h.written.put
  q_eq := by
    rw [List.length_append, List.length_singleton, ← h.q_eq]
    rfl

theorem copyElement_spec (hnul : nul ∉ path) {n : ℕ} (hn : e.length ≤ n)
    (hahead : Ahead path c.p e t) (h : Rewriting path text c) :
    Rewriting path (text ++ e) (copyElement n c) ∧ (copyElement n c).p = c.p + e.length ∧
      (copyElement n c).dotdot = c.dotdot := by
  induction e generalizing c text n with
  | nil =>
      have hstop : copyElement n c = c := by
        cases n with
        | zero => rfl
        | succ n =>
            rw [copyElement, if_neg]
            rintro ⟨hx, hsep⟩
            have hat := (hahead.pathSep_iff hnul).mpr rfl
            rw [← h.unread c.p (Nat.le_refl _)] at hat
            rcases Bool.or_eq_true_iff.mp hat with hat | hat
            · rw [hat] at hsep
              cases hsep
            · exact hx (beq_iff_eq.mp hat)
      rw [hstop, List.append_nil]
      exact ⟨h, rfl, rfl⟩
  | cons x e ih =>
      obtain ⟨n, rfl⟩ : ∃ m, n = m + 1 := ⟨n - 1, by rw [List.length_cons] at hn; omega⟩
      have hx : c.result c.p = x := by
        rw [h.unread c.p (Nat.le_refl _), hahead.getD_eq]
      have hgoes : c.result c.p ≠ nul ∧ isDirSep (c.result c.p) = false := by
        rw [hx]
        refine ⟨fun heq => hnul (heq ▸ hahead.mem List.mem_cons_self), ?_⟩
        rw [isDirSep, beq_eq_false_iff_ne]
        rintro rfl
        exact hahead.whole List.mem_cons_self
      rw [copyElement, if_pos hgoes, hx]
      obtain ⟨hrewriting, hp, hdotdot⟩ := ih (c := { c.put x with p := c.p + 1 }) (n := n)
        (Nat.le_of_succ_le_succ hn) hahead.tail h.copy
      rw [List.append_assoc] at hrewriting
      refine ⟨hrewriting, hp.trans ?_, hdotdot⟩
      change c.p + 1 + e.length = _
      rw [List.length_cons, Nat.add_assoc, Nat.add_comm 1]

end

/-! ## One turn -/

def plain : CanonFlags := ⟨false, false⟩

def climbed (k : ℕ) : List (List Char) := List.replicate k ['.', '.']

/-- The loop between two components: what is written is the fold of what has been read. -/
structure Canonizing (path front : List Char) (rooted : Bool) (k : ℕ) (names : List (List Char))
    (c : Cursor) : Prop where
  named : ∀ e ∈ names, Named '/' '.' e
  clean : ∀ e ∈ names, nul ∉ e
  root : rooted = true → k = 0
  rewriting : Rewriting path (front ++ join '/' (climbed k ++ names)) c
  inside : c.p ≤ path.length
  room : c.q = front.length ∨ c.q < c.p ∨ AtEnd '/' (path.drop c.p)
  barrier : c.dotdot = (front ++ join '/' (climbed k)).length
  rest : fold '/' '.' rooted (climbed k ++ names) (path.drop c.p) = fold '/' '.' rooted [] path

section

variable {path front text e t : List Char} {rooted : Bool} {k n : ℕ} {names : List (List Char)}
  {c : Cursor} {isdir : List Char → Bool}

theorem Canonizing.canonical (h : Canonizing path front rooted k names c) :
    Canonical '/' '.' rooted (climbed k ++ names) :=
  ⟨k, names, rfl, h.root, h.named⟩

theorem Rewriting.advance (h : Rewriting path text c) {m : ℕ} (hm : c.p ≤ m) :
    Rewriting path text { c with p := m } where
  unread i hi := h.unread i (hm.trans hi)
  behind := h.behind.trans hm
  written := h.written
  q_eq := h.q_eq

/-- Where a component begins there is room for a separator. -/
theorem Canonizing.separate (h : Canonizing path front rooted k names c)
    (hnot : ¬ AtEnd '/' (path.drop c.p)) :
    ∃ text, Rewriting path text (c.separate front.length) ∧
      (∀ e, text ++ e = front ++ join '/' (climbed k ++ names ++ [e])) ∧
      (c.separate front.length).p = c.p ∧ (c.separate front.length).dotdot = c.dotdot := by
  have hq : c.q = front.length ↔ climbed k ++ names = [] := by
    rw [← h.canonical.join_eq_nil, h.rewriting.q_eq, List.length_append]
    constructor
    · exact fun heq => List.length_eq_zero_iff.mp (by omega)
    · intro heq
      rw [heq, List.length_nil, Nat.add_zero]
  rw [Cursor.separate]
  by_cases hfirst : c.q = front.length
  · rw [if_neg (not_not.mpr hfirst)]
    refine ⟨_, h.rewriting, fun e => ?_, rfl, rfl⟩
    rw [hq.mp hfirst, join_snoc, if_pos rfl, join_nil, List.append_nil]
  · rw [if_pos hfirst]
    have hlt : c.q < c.p := by
      rcases h.room with hroom | hroom | hroom
      · exact absurd hroom hfirst
      · exact hroom
      · exact absurd hroom hnot
    refine ⟨_, h.rewriting.put hlt, fun e => ?_, rfl, rfl⟩
    rw [join_snoc, if_neg (mt hq.mpr hfirst), List.append_assoc, List.append_assoc]
    rfl

theorem turn_separator (h : Canonizing path front rooted k names c)
    (hdrop : path.drop c.p = '/' :: t) :
    ∃ c', turn isdir plain rooted front.length n c = some c' ∧
      Canonizing path front rooted k names c' ∧ c.p < c'.p := by
  have hp : c.result c.p = '/' := by
    rw [h.rewriting.unread c.p (Nat.le_refl _), getD_of_drop hdrop]
  have hnext : path.drop (c.p + 1) = t := by
    rw [← List.drop_drop, hdrop]
    rfl
  have hlt : c.p < path.length := List.length_lt_of_drop_ne_nil (by rw [hdrop]; simp)
  refine ⟨{ c with p := c.p + 1 }, ?_, ?_, Nat.lt_succ_self _⟩
  · rw [turn, if_pos (by rw [hp]; rfl)]
  · refine ⟨h.named, h.clean, h.root, h.rewriting.advance (Nat.le_succ _), hlt,
      .inr (.inl (Nat.lt_succ_of_le h.rewriting.behind)), h.barrier, ?_⟩
    change fold '/' '.' rooted _ (path.drop (c.p + 1)) = _
    rw [← h.rest, hdrop, fold_sep, hnext]

theorem turn_dot (hnul : nul ∉ path) (h : Canonizing path front rooted k names c)
    (hahead : Ahead path c.p ['.'] t) :
    ∃ c', turn isdir plain rooted front.length n c = some c' ∧
      Canonizing path front rooted k names c' ∧ c.p < c'.p := by
  have hdot := (hahead.dot_iff hnul).mpr rfl
  rw [← h.rewriting.unread _ (Nat.le_refl _), ← h.rewriting.unread _ (Nat.le_succ _)] at hdot
  refine ⟨{ c with p := c.p + 1 }, ?_, ?_, Nat.lt_succ_self _⟩
  · rw [turn, if_neg (by rw [hdot.1]; decide), if_pos hdot]
  · refine ⟨h.named, h.clean, h.root, h.rewriting.advance (Nat.le_succ _),
      hahead.add_length_le h.inside, .inr (.inl (Nat.lt_succ_of_le h.rewriting.behind)),
      h.barrier, ?_⟩
    change fold '/' '.' rooted _ (path.drop (c.p + ['.'].length)) = _
    rw [← h.rest, hahead.drop_add, hahead.drop_eq, fold_component hahead.whole hahead.rest, push,
      if_pos (.inr rfl)]

theorem not_atEnd {x : Char} (h : Ahead path c.p (x :: e) t) :
    ¬ AtEnd '/' (path.drop c.p) := by
  rw [h.drop_eq]
  intro hat
  exact h.whole (hat x rfl ▸ List.mem_cons_self)

theorem turn_real (hnul : nul ∉ path) (h : Canonizing path front rooted k names c)
    (hn : path.length ≤ n) (hahead : Ahead path c.p e t) (he : Named '/' '.' e) :
    ∃ c', turn isdir plain rooted front.length n c = some c' ∧
      Canonizing path front rooted k (names ++ [e]) c' ∧ c.p < c'.p := by
  have hbound : c.p + e.length ≤ path.length := hahead.add_length_le h.inside
  obtain ⟨x, e, rfl⟩ := List.exists_cons_of_ne_nil he.nonempty
  have hx : c.result c.p = x := by
    rw [h.rewriting.unread c.p (Nat.le_refl _), hahead.getD_eq]
  obtain ⟨text, hrewriting, htext, hp, hdotdot⟩ := h.separate (not_atEnd hahead)
  have hahead' : Ahead path (c.separate front.length).p (x :: e) t := by rwa [hp]
  obtain ⟨hcopied, hp', hdotdot'⟩ :=
    copyElement_spec hnul (show (x :: e).length ≤ n by omega) hahead' hrewriting
  rw [hp] at hp'
  have hlt : 0 < (x :: e).length := Nat.succ_pos _
  refine ⟨copyElement n (c.separate front.length), ?_, ?_, by omega⟩
  · have hslash : ¬ isDirSep (c.result c.p) = true := by
      rw [hx, isDirSep, beq_iff_eq]
      rintro rfl
      exact hahead.whole List.mem_cons_self
    have hone := mt (hahead.dot_iff hnul).mp he.notDot
    have htwo := mt (hahead.dotdot_iff hnul).mp he.notDotdot
    rw [← h.rewriting.unread _ (Nat.le_refl _), ← h.rewriting.unread _ (Nat.le_succ _)] at hone
    rw [← h.rewriting.unread _ (Nat.le_refl _), ← h.rewriting.unread _ (Nat.le_succ _),
      ← h.rewriting.unread _ (Nat.le_add_right _ 2)] at htwo
    rw [turn, if_neg hslash, if_neg hone, if_neg htwo]
    rfl
  · refine ⟨?_, ?_, h.root, ?_, by rwa [hp'], .inr (.inr ?_), ?_, ?_⟩
    · intro d hd
      rcases List.mem_append.mp hd with hd | hd
      · exact h.named d hd
      · rwa [List.mem_singleton.mp hd]
    · intro d hd
      rcases List.mem_append.mp hd with hd | hd
      · exact h.clean d hd
      · rw [List.mem_singleton.mp hd]
        exact fun hin => hnul (hahead.mem hin)
    · rwa [htext, List.append_assoc] at hcopied
    · rw [hp', hahead.drop_add]
      exact hahead.rest
    · rw [hdotdot', hdotdot, h.barrier]
    · rw [hp', hahead.drop_add, ← h.rest, hahead.drop_eq, fold_component he.whole hahead.rest,
        push_named he, List.append_assoc]

/-- The written text with the separator in front of its last component -/
def gap (stack : List (List Char)) : List Char := if stack = [] then [] else ['/']

theorem join_gap (stack : List (List Char)) :
    join '/' (stack ++ [e]) = join '/' stack ++ (gap stack ++ e) := by
  rw [join_snoc, gap]
  split_ifs with hnil
  · rw [hnil]
    rfl
  · rfl

theorem backtrack_written {buf : ℕ → Char} {u : List Char} {dotdot q : ℕ}
    (hwritten : Stands buf (text ++ (u ++ e))) (he : '/' ∉ e) (hne : e ≠ [])
    (hd : dotdot ≤ text.length) (hu : u = [] ∧ dotdot = text.length ∨ u = ['/'])
    (hq : q = (text ++ (u ++ e)).length) : backtrack buf dotdot q = text.length := by
  have hpos : 0 < e.length := List.length_pos_iff.mpr hne
  rw [List.length_append, List.length_append] at hq
  have hafter : ∀ i, text.length + u.length ≤ i → i < q → isDirSep (buf i) = false := by
    intro i hi hiq
    obtain ⟨j, rfl⟩ := Nat.exists_eq_add_of_le hi
    have hj : j < e.length := by omega
    rw [← List.append_assoc] at hwritten
    have hget := hwritten.right j (List.getElem?_eq_getElem hj)
    rw [List.length_append] at hget
    rw [hget, isDirSep, beq_eq_false_iff_ne]
    intro heq
    exact he (heq ▸ List.getElem_mem hj)
  rcases hu with ⟨rfl, hstop⟩ | rfl
  · exact backtrack_spec hd (.inl hstop) (fun i hi hiq => hafter i hi.le hiq) (by omega)
  · refine backtrack_spec hd (.inr ?_) (fun i hi hiq => hafter i hi hiq) (by omega)
    rw [← Nat.add_zero text.length, hwritten.right 0 rfl]
    rfl

/-- The guards before the double dot -/
theorem turn_dotdot (hnul : nul ∉ path) (h : Canonizing path front rooted k names c)
    (hahead : Ahead path c.p ['.', '.'] t) :
    turn isdir plain rooted front.length n c =
      if c.dotdot < c.q then
        some { c with p := c.p + 2, q := backtrack c.result c.dotdot c.q }
      else if rooted = false then
        let c := ((({ c with p := c.p + 2 } : Cursor).separate front.length).put '.').put '.'
        some { c with dotdot := c.q }
      else some { c with p := c.p + 2 } := by
  have htwo := (hahead.dotdot_iff hnul).mpr rfl
  have hone := mt (hahead.dot_iff hnul).mp (by simp)
  rw [← h.rewriting.unread _ (Nat.le_refl _), ← h.rewriting.unread _ (Nat.le_succ _)] at hone
  rw [← h.rewriting.unread _ (Nat.le_refl _), ← h.rewriting.unread _ (Nat.le_succ _),
    ← h.rewriting.unread _ (Nat.le_add_right _ 2)] at htwo
  rw [turn, if_neg (by rw [htwo.1]; decide), if_neg hone, if_pos htwo]
  rfl

theorem turn_back {top : List Char} (hnul : nul ∉ path)
    (h : Canonizing path front rooted k (names ++ [top]) c)
    (hahead : Ahead path c.p ['.', '.'] t) :
    ∃ c', turn isdir plain rooted front.length n c = some c' ∧
      Canonizing path front rooted k names c' ∧ c.p < c'.p := by
  have htop : Named '/' '.' top := h.named top (List.mem_append_right _ List.mem_cons_self)
  have hrewriting := h.rewriting
  rw [← List.append_assoc, join_gap, ← List.append_assoc] at hrewriting
  have hd : c.dotdot ≤ (front ++ join '/' (climbed k ++ names)).length := by
    rw [h.barrier, List.length_append, List.length_append]
    exact Nat.add_le_add_left (length_join_le names) _
  have hgap : gap (climbed k ++ names) = [] ∧
      c.dotdot = (front ++ join '/' (climbed k ++ names)).length ∨
        gap (climbed k ++ names) = ['/'] := by
    by_cases hnil : climbed k ++ names = []
    · refine .inl ⟨if_pos hnil, ?_⟩
      rw [h.barrier, hnil, (List.append_eq_nil_iff.mp hnil).1]
    · exact .inr (if_neg hnil)
  have hwritten := hrewriting.written
  have hq := hrewriting.q_eq
  generalize htext : front ++ join '/' (climbed k ++ names) = text at hwritten hq hd hgap
  have hback := backtrack_written hwritten htop.whole htop.nonempty hd hgap hq
  have hle : text.length < c.q := by
    have hpos : 0 < top.length := List.length_pos_iff.mpr htop.nonempty
    rw [hq, List.length_append, List.length_append]
    omega
  refine ⟨_, (turn_dotdot hnul h hahead).trans (if_pos (hd.trans_lt hle)), ?_,
    Nat.lt_add_of_pos_right Nat.two_pos⟩
  rw [hback]
  have hbehind := hle.le.trans h.rewriting.behind
  refine ⟨fun e he => h.named e (List.mem_append_left _ he),
    fun e he => h.clean e (List.mem_append_left _ he), h.root,
    ⟨fun i hi => h.rewriting.unread i ((Nat.le_add_right _ 2).trans hi),
      hbehind.trans (Nat.le_add_right _ 2), htext ▸ hwritten.left, htext ▸ rfl⟩,
    hahead.add_length_le h.inside, .inr (.inl ?_), h.barrier, ?_⟩
  · exact hbehind.trans_lt (Nat.lt_add_of_pos_right Nat.two_pos)
  · change fold '/' '.' rooted _ (path.drop (c.p + ['.', '.'].length)) = _
    rw [← h.rest, hahead.drop_add, hahead.drop_eq, fold_component hahead.whole hahead.rest,
      ← List.append_assoc, push_dotdot_named htop]

/-- With no name to take back a relative path climbs and a rooted one stays. -/
theorem turn_climb (hnul : nul ∉ path) (h : Canonizing path front rooted k [] c)
    (hahead : Ahead path c.p ['.', '.'] t) :
    ∃ k' c', turn isdir plain rooted front.length n c = some c' ∧
      Canonizing path front rooted k' [] c' ∧ c.p < c'.p := by
  have hq : ¬ c.dotdot < c.q := by
    rw [h.barrier, h.rewriting.q_eq, List.append_nil]
    exact lt_irrefl _
  have hturn := @turn_dotdot _ _ _ _ _ n _ _ isdir hnul h hahead
  rw [if_neg hq] at hturn
  have hinside := hahead.add_length_le h.inside
  have hrest := h.rest
  rw [hahead.drop_eq, fold_component hahead.whole hahead.rest, List.append_nil, climbed,
    push_dotdot_front] at hrest
  cases rooted with
  | true =>
      obtain rfl : k = 0 := h.root rfl
      refine ⟨0, _, hturn, ?_, Nat.lt_add_of_pos_right Nat.two_pos⟩
      refine ⟨h.named, h.clean, h.root, h.rewriting.advance (Nat.le_add_right _ 2), hinside,
        .inr (.inl ?_), h.barrier, ?_⟩
      · exact h.rewriting.behind.trans_lt (Nat.lt_add_of_pos_right Nat.two_pos)
      · change fold '/' '.' true _ (path.drop (c.p + ['.', '.'].length)) = _
        rw [hahead.drop_add]
        exact hrest
  | false =>
      obtain ⟨text, hsep, htext, hp, hdotdot⟩ := h.separate (not_atEnd hahead)
      have hmove : ({ c with p := c.p + 2 } : Cursor).separate front.length =
          { c.separate front.length with p := c.p + 2 } := by
        rw [Cursor.separate, Cursor.separate]
        split_ifs <;> rfl
      have hbehind := hsep.behind
      rw [hp] at hbehind
      have hone := (hsep.advance (m := c.p + 2) (by omega)).put (x := '.')
        (hbehind.trans_lt (Nat.lt_add_of_pos_right Nat.two_pos))
      have htwo := hone.put (x := '.') (Nat.succ_lt_succ (Nat.lt_succ_of_le hbehind))
      rw [List.append_assoc, htext, List.append_nil] at htwo
      rw [if_pos rfl, hmove] at hturn
      refine ⟨k + 1, _, hturn, ?_, Nat.lt_add_of_pos_right Nat.two_pos⟩
      refine ⟨fun _ h => absurd h List.not_mem_nil, fun _ h => absurd h List.not_mem_nil,
        fun h => absurd h Bool.false_ne_true, ?_, hinside, .inr (.inr ?_), ?_, ?_⟩
      · rw [List.append_nil, climbed, List.replicate_succ']
        exact ⟨htwo.unread, htwo.behind, htwo.written, htwo.q_eq⟩
      · change AtEnd '/' (path.drop (c.p + ['.', '.'].length))
        rw [hahead.drop_add]
        exact hahead.rest
      · rw [climbed, List.replicate_succ']
        exact htwo.q_eq
      · change fold '/' '.' false _ (path.drop (c.p + ['.', '.'].length)) = _
        rw [hahead.drop_add, List.append_nil, climbed, ← hrest]
        rfl

theorem turn_spec (hnul : nul ∉ path) (h : Canonizing path front rooted k names c)
    (hn : path.length ≤ n) (hp : c.result c.p ≠ nul) :
    ∃ k' names' c', turn isdir plain rooted front.length n c = some c' ∧
      Canonizing path front rooted k' names' c' ∧ c.p < c'.p := by
  obtain ⟨e, t, hahead⟩ := Ahead.exists_ahead path c.p
  by_cases hnil : e = []
  · rw [h.rewriting.unread _ (Nat.le_refl _)] at hp
    have hdrop := drop_eq_cons hp
    have hslash : path.getD c.p nul = '/' := by
      refine hahead.rest _ ?_
      rw [← hahead.drop_add, hnil, List.length_nil, Nat.add_zero, hdrop]
      rfl
    rw [hslash] at hdrop
    obtain ⟨c', hturn, hnext⟩ := @turn_separator _ _ _ _ _ n _ _ isdir h hdrop
    exact ⟨k, names, c', hturn, hnext⟩
  · by_cases hdot : e = ['.']
    · subst hdot
      obtain ⟨c', hturn, hnext⟩ := @turn_dot _ _ _ _ _ n _ _ isdir hnul h hahead
      exact ⟨k, names, c', hturn, hnext⟩
    · by_cases hdotdot : e = ['.', '.']
      · subst hdotdot
        rcases List.eq_nil_or_concat names with rfl | ⟨names, top, rfl⟩
        · obtain ⟨k', c', hturn, hnext⟩ := @turn_climb _ _ _ _ _ n _ isdir hnul h hahead
          exact ⟨k', [], c', hturn, hnext⟩
        · rw [List.concat_eq_append] at h
          obtain ⟨c', hturn, hnext⟩ := @turn_back _ _ _ _ _ n _ _ isdir _ hnul h hahead
          exact ⟨k, names, c', hturn, hnext⟩
      · obtain ⟨c', hturn, hnext⟩ := @turn_real _ _ _ _ _ _ _ _ _ isdir hnul h hn hahead
          ⟨hnil, hdot, hdotdot, hahead.whole⟩
        exact ⟨k, names ++ [e], c', hturn, hnext⟩

theorem turns_spec (hnul : nul ∉ path) (hn : path.length ≤ n) {m : ℕ}
    (h : Canonizing path front rooted k names c) (hm : path.length < c.p + m) :
    ∃ k' names' c', turns isdir plain rooted front.length n m c = some c' ∧
      Canonizing path front rooted k' names' c' ∧ c'.p = path.length := by
  induction m generalizing c k names with
  | zero => exact absurd h.inside (Nat.not_le_of_lt hm)
  | succ m ih =>
      rw [turns]
      by_cases hp : c.result c.p = nul
      · rw [if_pos hp]
        rw [h.rewriting.unread _ (Nat.le_refl _), getD_eq_nul hnul] at hp
        exact ⟨k, names, c, rfl, h, Nat.le_antisymm h.inside hp⟩
      · obtain ⟨k', names', c', hturn, hnext, hlt⟩ := @turn_spec _ _ _ _ _ _ _ isdir hnul h hn hp
        rw [if_neg hp, hturn, Option.bind_some]
        exact ih hnext (by omega)

end

/-! ## The whole path -/

/-- The slashes in front that are kept: two, if they are exactly two, and else one. -/
def root (path : List Char) : List Char :=
  match (path.takeWhile (· == '/')).length with
  | 0 => []
  | 2 => ['/', '/']
  | _ => ['/']

def components (path : List Char) : List (List Char) :=
  fold '/' '.' (decide (root path ≠ [])) [] path

/-- A path without its dots; an empty one is the dot. -/
def withoutDots (path : List Char) : List Char :=
  match root path ++ join '/' (components path) with
  | [] => ['.']
  | text => text

section

variable {path front text : List Char}

theorem root_cases (path : List Char) :
    root path = [] ∧ path.getD 0 nul ≠ '/' ∨
    (∃ rest, path = '/' :: rest ∧ root path = ['/'] ∧
      doubleSlash (fun i => path.getD i nul) = false) ∨
    ∃ rest, path = '/' :: '/' :: rest ∧ root path = ['/', '/'] ∧
      doubleSlash (fun i => path.getD i nul) = true := by
  match path with
  | [] => exact .inl ⟨rfl, by decide⟩
  | x :: path =>
      by_cases hx : x = '/'
      · subst hx
        match path with
        | [] => exact .inr (.inl ⟨[], rfl, rfl, by decide⟩)
        | y :: path =>
            by_cases hy : y = '/'
            · subst hy
              match path with
              | [] => exact .inr (.inr ⟨[], rfl, rfl, by decide⟩)
              | z :: path =>
                  by_cases hz : z = '/'
                  · subst hz
                    exact .inr (.inl ⟨_, rfl, rfl, rfl⟩)
                  · refine .inr (.inr ⟨_, rfl, ?_, ?_⟩)
                    · simp [root, hz]
                    · simp [doubleSlash, hz]
            · refine .inr (.inl ⟨_, rfl, ?_, ?_⟩)
              · simp [root, hy]
              · simp [doubleSlash, hy]
      · refine .inl ⟨?_, hx⟩
        simp [root, hx]

theorem root_append (path : List Char) (h : ∀ x ∈ text.head?, x ≠ '/') :
    root (root path ++ text) = root path := by
  have htext : text.takeWhile (· == '/') = [] := by
    cases text with
    | nil => rfl
    | cons x text =>
        rw [List.takeWhile_cons_of_neg]
        rw [beq_iff_eq]
        exact h x rfl
  rcases root_cases path with ⟨hroot, _⟩ | ⟨rest, _, hroot, _⟩ | ⟨rest, _, hroot, _⟩ <;>
    rw [hroot] <;> simp [root, htext]

theorem fold_root {rooted : Bool} (path : List Char) :
    fold '/' '.' rooted [] (root path ++ text) = fold '/' '.' rooted [] text := by
  rcases root_cases path with ⟨hroot, _⟩ | ⟨rest, _, hroot, _⟩ | ⟨rest, _, hroot, _⟩
  · rw [hroot, List.nil_append]
  · rw [hroot, List.singleton_append, fold_sep]
  · rw [hroot, List.cons_append, List.singleton_append, fold_sep, fold_sep]

theorem root_prefix (path : List Char) : ∃ rest, path = root path ++ rest := by
  rcases root_cases path with ⟨hroot, _⟩ | ⟨rest, hpath, hroot, _⟩ | ⟨rest, hpath, hroot, _⟩
  · exact ⟨path, by rw [hroot, List.nil_append]⟩
  · exact ⟨rest, by rw [hroot, hpath, List.singleton_append]⟩
  · exact ⟨rest, by rw [hroot, hpath]; rfl⟩

theorem rootedPath_eq (path : List Char) : rootedPath path = decide (root path ≠ []) := by
  rcases root_cases path with ⟨hroot, hx⟩ | ⟨rest, hpath, hroot, _⟩ | ⟨rest, hpath, hroot, _⟩
  · rw [hroot, rootedPath]
    simpa using hx
  · rw [hroot, hpath]
    rfl
  · rw [hroot, hpath]
    rfl

theorem twice_iff (path : List Char) :
    (rootedPath path && doubleSlash fun i => path.getD i nul) = true ↔ root path = ['/', '/'] := by
  rcases root_cases path with ⟨hroot, hx⟩ | ⟨rest, _, hroot, htwice⟩ | ⟨rest, _, hroot, htwice⟩
  · rw [rootedPath_eq, hroot]
    simp
  · rw [htwice, hroot]
    simp
  · rw [rootedPath_eq, htwice, hroot]
    simp

theorem base_eq (path : List Char) :
    (if rootedPath path then
      if rootedPath path && doubleSlash fun i => path.getD i nul then 2 else 1
      else 0) = (root path).length := by
  rcases root_cases path with ⟨hroot, hx⟩ | ⟨rest, _, hroot, htwice⟩ | ⟨rest, _, hroot, htwice⟩
  · rw [rootedPath_eq, hroot]
    rfl
  · rw [rootedPath_eq, htwice, hroot]
    rfl
  · rw [rootedPath_eq, htwice, hroot]
    rfl

theorem canonizing_start (path : List Char) :
    Canonizing path (root path) (rootedPath path) 0 []
      ⟨fun i => path.getD i nul, (root path).length, (root path).length, (root path).length⟩ := by
  obtain ⟨rest, hpath⟩ := root_prefix path
  refine ⟨nofun, nofun, fun _ => rfl, ⟨fun i _ => rfl, Nat.le_refl _, ?_, ?_⟩, ?_, .inl rfl, ?_, ?_⟩
  · intro i x hx
    change path.getD i nul = x
    change (root path ++ [])[i]? = some x at hx
    rw [List.append_nil] at hx
    have hget : path[i]? = some x := by
      rw [hpath, List.getElem?_append_left (List.getElem?_eq_some_iff.mp hx).1, hx]
    rw [List.getD_eq_getElem?_getD, hget, Option.getD_some]
  · change _ = (root path ++ []).length
    rw [List.append_nil]
  · change (root path).length ≤ path.length
    nth_rewrite 2 [hpath]
    rw [List.length_append]
    exact Nat.le_add_right _ _
  · change _ = (root path ++ []).length
    rw [List.append_nil]
  · change fold '/' '.' _ [] (path.drop (root path).length) = _
    have hdrop : path.drop (root path).length = rest := by
      nth_rewrite 2 [hpath]
      exact List.drop_left
    rw [hdrop]
    nth_rewrite 3 [hpath]
    rw [fold_root]

theorem canonical_components (path : List Char) :
    Canonical '/' '.' (decide (root path ≠ [])) (components path) :=
  Canonical.fold ⟨0, [], rfl, fun _ => rfl, nofun⟩ path

theorem root_withoutDots (path : List Char) : root (withoutDots path) = root path := by
  rw [withoutDots]
  split
  · next hnil =>
      rw [(List.append_eq_nil_iff.mp hnil).1]
      rfl
  · exact root_append path ((canonical_components path).head_join (by decide))

theorem components_withoutDots (path : List Char) :
    components (withoutDots path) = components path := by
  rw [components, root_withoutDots, withoutDots]
  split
  · next hnil =>
      rw [(canonical_components path).join_eq_nil.mp (List.append_eq_nil_iff.mp hnil).2,
        (List.append_eq_nil_iff.mp hnil).1]
      rfl
  · rw [fold_root, fold_join (canonical_components path) (by decide)]

theorem withoutDots_withoutDots (path : List Char) :
    withoutDots (withoutDots path) = withoutDots path := by
  nth_rewrite 1 [withoutDots]
  rw [root_withoutDots, components_withoutDots]
  rfl

theorem nul_notMem_written {rooted : Bool} {k : ℕ} {names : List (List Char)} {c : Cursor}
    (h : Canonizing path (root path) rooted k names c) :
    nul ∉ root path ++ join '/' (climbed k ++ names) := by
  intro hin
  rcases List.mem_append.mp hin with hin | hin
  · rcases root_cases path with ⟨hroot, _⟩ | ⟨rest, _, hroot, _⟩ | ⟨rest, _, hroot, _⟩ <;>
      simp [hroot, nul] at hin
  · rcases mem_join hin with hin | ⟨e, he, hin⟩
    · simp [nul] at hin
    · rcases List.mem_append.mp he with he | he
      · rw [List.eq_of_mem_replicate he] at hin
        simp [nul] at hin
      · exact h.clean e he hin

/-- The string in the buffer begins with exactly two slashes only as a text does. -/
theorem root_of_doubleSlash {buf : ℕ → Char} (hbuf : Stands buf (text ++ [nul]))
    (htwice : doubleSlash buf = true) : root text = ['/', '/'] := by
  have hget : ∀ i ≤ text.length, buf i = text.getD i nul := by
    intro i hi
    rcases Nat.lt_or_eq_of_le hi with hi | rfl
    · rw [List.getD_eq_getElem _ _ hi]
      exact hbuf.left i _ (List.getElem?_eq_getElem hi)
    · rw [List.getD_eq_default _ _ (Nat.le_refl _)]
      exact hbuf _ _ List.getElem?_concat_length
  rw [doubleSlash, Bool.and_eq_true, Bool.and_eq_true, beq_iff_eq, beq_iff_eq] at htwice
  obtain ⟨⟨h0, h1⟩, h2⟩ := htwice
  have hslash : nul ≠ '/' := by decide
  rw [hget 0 (Nat.zero_le _)] at h0
  have hlt : 0 < text.length := by
    by_contra hge
    rw [List.getD_eq_default _ _ (Nat.le_of_not_lt hge)] at h0
    exact hslash h0
  rw [hget 1 hlt] at h1
  have hlt : 1 < text.length := by
    by_contra hge
    rw [List.getD_eq_default _ _ (Nat.le_of_not_lt hge)] at h1
    exact hslash h1
  rw [hget 2 hlt] at h2
  rw [← twice_iff, Bool.and_eq_true]
  refine ⟨beq_iff_eq.mpr h0, ?_⟩
  rw [doubleSlash, h0, h1, h2]
  rfl

end

/-- The string that is returned, with the sanity check that never strikes. -/
theorem textOf_result {path text : List Char} {buf : ℕ → Char} {twice : Bool}
    (hbuf : Stands buf (text ++ [nul])) (hnul : nul ∉ text) (hlength : text.length ≤ path.length)
    (htwice : root text = ['/', '/'] → twice = true) :
    (if doubleSlash buf && !twice then
      if buf 2 = nul then textOf (Function.update buf 1 nul) (path.length + 1)
      else textOf (fun i => buf (i + 1)) (path.length + 1)
    else textOf buf (path.length + 1)) = text := by
  have hsane : (doubleSlash buf && !twice) = false := by
    rw [Bool.and_eq_false_imp]
    intro h
    rw [htwice (root_of_doubleSlash hbuf h)]
    rfl
  rw [hsane]
  exact textOf_eq hbuf.left (hbuf _ _ List.getElem?_concat_length) hnul (Nat.lt_succ_of_le hlength)

theorem shCanonpath_eq (isdir : List Char → Bool) {path : List Char} (hne : path ≠ [])
    (hnul : nul ∉ path) :
    shCanonpath isdir plain path = some (withoutDots path) ∧
      (withoutDots path).length ≤ path.length ∧ withoutDots path ≠ [] ∧
      nul ∉ withoutDots path := by
  obtain ⟨k, names, c, hturns, hcanon, hp⟩ := @turns_spec _ _ _ _ _ _ _ isdir hnul
    (Nat.le_refl _) (path.length + 1) (canonizing_start path) (by omega)
  have hrest := hcanon.rest
  rw [hp, List.drop_length, fold_nil, rootedPath_eq] at hrest
  have hwithout : withoutDots path = match root path ++ join '/' (climbed k ++ names) with
      | [] => ['.']
      | text => text := by
    rw [hrest]
    rfl
  have hclean := nul_notMem_written hcanon
  have hrewriting := hcanon.rewriting
  have hbehind := hrewriting.behind
  rw [hp] at hbehind
  have htwice : root (withoutDots path) = ['/', '/'] →
      (rootedPath path && doubleSlash fun i => path.getD i nul) = true := by
    rw [root_withoutDots, twice_iff]
    exact id
  have hq := hrewriting.q_eq
  have hwritten := hrewriting.written
  rw [shCanonpath]
  simp only
  rw [base_eq, hturns, Option.map_some, Option.some.injEq]
  generalize root path ++ join '/' (climbed k ++ names) = text at *
  cases text with
  | nil =>
      have hdot : withoutDots path = ['.'] := hwithout
      have hrooted : rootedPath path = false := by
        rw [rootedPath_eq, ← root_withoutDots, hdot]
        rfl
      have hone : 1 ≤ path.length := List.length_pos_iff.mpr hne
      have hput : (if c.q = 0 then c.put (if rootedPath path then '/' else '.') else c) =
          c.put '.' := by
        rw [if_pos (show c.q = 0 from hq), hrooted]
        rfl
      have hbuf : Stands (Function.update (c.put '.').result (c.put '.').q nul)
          (['.'] ++ [nul]) := by
        change Stands (Function.update (Function.update c.result c.q '.') (c.q + 1) nul) _
        rw [hq]
        exact hwritten.put.put
      rw [hdot] at htwice ⊢
      rw [hput]
      exact ⟨textOf_result hbuf (by decide) hone htwice, hone, by decide, by decide⟩
  | cons x text =>
      have htext : withoutDots path = x :: text := hwithout
      have hput : (if c.q = 0 then c.put (if rootedPath path then '/' else '.') else c) = c :=
        if_neg (by rw [hq]; exact Nat.succ_ne_zero _)
      have hbuf : Stands (Function.update c.result c.q nul) (x :: text ++ [nul]) := by
        rw [hq]
        exact hwritten.put
      rw [htext] at htwice ⊢
      rw [hput]
      rw [hq] at hbehind
      exact ⟨textOf_result hbuf hclean hbehind htwice, hbehind, List.cons_ne_nil _ _, hclean⟩

/-- A path comes out as its components folded over a stack, no longer than it was, and comes out
the same when it is rewritten again. -/
theorem shCanonpath_canonical (isdir : List Char → Bool) (path : List Char) (hne : path ≠ [])
    (hnul : nul ∉ path) :
    shCanonpath isdir plain path = some (withoutDots path) ∧
      (withoutDots path).length ≤ path.length ∧
      shCanonpath isdir plain (withoutDots path) = some (withoutDots path) := by
  obtain ⟨hresult, hlength, hne', hnul'⟩ := shCanonpath_eq isdir hne hnul
  refine ⟨hresult, hlength, ?_⟩
  rw [(shCanonpath_eq isdir hne' hnul').1, withoutDots_withoutDots]

theorem shCanonpath_canonical_mixed :
    shCanonpath (fun _ => false) plain "//a/./b///../../../c/".toList = some "//c".toList :=
  (shCanonpath_canonical (fun _ => false) "//a/./b///../../../c/".toList (by decide)
    (by decide)).1.trans (by decide)

end PathCanon

end Rash
