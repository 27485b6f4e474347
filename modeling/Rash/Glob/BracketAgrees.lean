import Rash.Glob.Pattern

/-!
# Bracket expressions are read as they are written

`BRACKMATCH` looks for the end of the expression in two ways: item by item as long as nothing
matched, and then character by character.  The two agree unless a range ends in an opening
bracket that one of them takes for the start of a symbol.
-/

namespace Rash

namespace Glob

/-- The range ends in an opening bracket that begins a class, as the second loop of
`BRACKMATCH` sees it. -/
def classEnd (p : List UInt8) : Bool :=
  (bracketSymbol equals p).isSome || (bracketSymbol colon p).isSome

/-- The range ends in an escaped bracket that the first loop takes for the start of a symbol. -/
def escapedSymbolEnd (flags : MatchFlags) (p : List UInt8) : Bool :=
  flags.noescape == false && p.head? == some backslash && (bracketSymbol dot p.tail).isSome

/-- The item at `p` is no range with an end that is read in two ways.  The second loop never
comes over the first item. -/
def plainItem (flags : MatchFlags) (first : Bool) (p : List UInt8) : Bool :=
  (bracketSymbol equals p).isSome || (bracketSymbol colon p).isSome ||
    match bracketChar flags p with
    | none => true
    | some (_, rest) =>
        match rangeTail rest with
        | none => true
        | some last => !escapedSymbolEnd flags last && (first || !classEnd last)

def plainItems (flags : MatchFlags) (first : Bool) : ℕ → List UInt8 → Bool
  | 0, _ => true
  | fuel + 1, p =>
      plainItem flags first p &&
        match bracketItem flags p with
        | none => true
        | some (_, rest) => rest.head? == some rbrack || plainItems flags false fuel rest

/-- Every collating symbol in the expression is known, and its ranges end plainly. -/
def plainBracket (flags : MatchFlags) (p : List UInt8) : Bool :=
  plainItems flags true (bracketList p).length (bracketList p) &&
    match bracketExpr flags p with
    | none => true
    | some (e, _) => e.items.all BracketItem.known

theorem toLower_eq_iff {c k : UInt8} (hk : isAlpha k = false) : toLower c = k ↔ c = k := by
  simp only [isAlpha, isUpper, isLower, Bool.or_eq_false_iff, Bool.and_eq_false_iff,
    decide_eq_false_iff_not] at hk
  simp only [toLower]
  grind

theorem fold_eq_iff (flags : MatchFlags) {c k : UInt8} (hk : isAlpha k = false) :
    fold flags c = k ↔ c = k := by
  simp only [fold]
  split
  · exact toLower_eq_iff hk
  · rfl

theorem fold_fold (flags : MatchFlags) (c : UInt8) :
    fold flags (fold flags c) = fold flags c := by
  simp only [fold]
  split
  · simp only [toLower]
    grind
  · rfl

theorem subbracketEnd_suffix {type : UInt8} {p : List UInt8} {found : List UInt8 × List UInt8}
    (h : subbracketEnd type p = some found) : found.2 <:+ p := by
  induction p generalizing found with
  | nil => cases h
  | cons c p ih =>
      simp only [subbracketEnd] at h
      split at h
      · cases h
      · split at h
        · cases h
          exact (List.tail_suffix p).trans (List.suffix_cons c p)
        · obtain ⟨found, hfound, rfl⟩ := Option.map_eq_some_iff.mp h
          exact (ih hfound).trans (List.suffix_cons c p)

theorem parseSubbracket_suffix {type : UInt8} {p : List UInt8}
    {found : List UInt8 × List UInt8} (h : parseSubbracket type p = some found) :
    found.2 <:+ p := by
  cases p with
  | nil => cases h
  | cons c p =>
      simp only [parseSubbracket] at h
      split at h
      · exact (subbracketEnd_suffix h).trans (List.suffix_cons c p)
      · cases h

theorem parseSubbracket_head {type : UInt8} {p : List UInt8} {found : List UInt8 × List UInt8}
    (h : parseSubbracket type p = some found) : p.head? = some type := by
  cases p with
  | nil => cases h
  | cons c p =>
      simp only [parseSubbracket] at h
      split at h
      · next hc => rw [List.head?_cons, hc]
      · cases h

theorem symbolAt_suffix {type c : UInt8} {p : List UInt8} {found : List UInt8 × List UInt8}
    (h : symbolAt type c p = some found) : found.2 <:+ p := by
  simp only [symbolAt] at h
  split at h
  · exact parseSubbracket_suffix h
  · cases h

theorem anySymbolAt_suffix {c : UInt8} {p : List UInt8} {found : List UInt8 × List UInt8}
    (h : anySymbolAt c p = some found) : found.2 <:+ p := by
  simp only [anySymbolAt] at h
  split at h
  next hequals =>
      cases h
      exact symbolAt_suffix hequals
  next =>
      split at h
      next hcolon =>
          cases h
          exact symbolAt_suffix hcolon
      next => exact symbolAt_suffix h

theorem skipBracket_fuel {flags : MatchFlags} {k k' : ℕ} {p : List UInt8} (hk : p.length < k)
    (hk' : p.length < k') : skipBracket flags k p = skipBracket flags k' p := by
  induction k generalizing k' p with
  | zero => omega
  | succ k ih =>
      obtain _ | k' := k'
      · omega
      cases p with
      | nil => rfl
      | cons c p =>
          simp only [List.length_cons] at hk hk'
          have htail : p.tail.length ≤ p.length := by simp
          simp only [skipBracket]
          cases hsym : anySymbolAt c p with
          | some found =>
              have hlen := (anySymbolAt_suffix hsym).length_le
              exact ih (by omega) (by omega)
          | none =>
              dsimp only
              split
              · rfl
              · split
                · exact ih (by omega) (by omega)
                · exact ih (by omega) (by omega)

/-- The loop behind `matched` from `p` on. -/
def skipFrom (flags : MatchFlags) (p : List UInt8) : Option (List UInt8) :=
  skipBracket flags (p.length + 1) p

@[simp] theorem skipFrom_nil (flags : MatchFlags) : skipFrom flags [] = none := rfl

theorem skipFrom_cons (flags : MatchFlags) (c : UInt8) (p : List UInt8) :
    skipFrom flags (c :: p) =
      match anySymbolAt c p with
      | some (_, rest) => skipFrom flags rest
      | none =>
          if c = rbrack then some p
          else if flags.noescape = false ∧ c = backslash then skipFrom flags p.tail
          else skipFrom flags p := by
  have htail : p.tail.length ≤ p.length := by simp
  rw [skipFrom, List.length_cons]
  simp only [skipBracket]
  cases hsym : anySymbolAt c p with
  | some found =>
      have hlen := (anySymbolAt_suffix hsym).length_le
      exact skipBracket_fuel (by omega) (by omega)
  | none =>
      dsimp only
      split
      · rfl
      · split
        · exact skipBracket_fuel (by omega) (by omega)
        · rfl

theorem bracketSymbol_suffix {type : UInt8} {p : List UInt8} {found : List UInt8 × List UInt8}
    (h : bracketSymbol type p = some found) : found.2 <:+ p.tail := by
  cases p with
  | nil => cases h
  | cons c p => exact symbolAt_suffix h

theorem bracketChar_suffix {flags : MatchFlags} {p : List UInt8}
    {found : Option UInt8 × List UInt8} (h : bracketChar flags p = some found) :
    found.2 <:+ p.tail := by
  simp only [bracketChar] at h
  split at h
  next hsym =>
      cases h
      exact bracketSymbol_suffix hsym
  next =>
      cases p with
      | nil => cases h
      | cons c p =>
          dsimp only at h
          split at h
          · obtain ⟨d, -, rfl⟩ := Option.map_eq_some_iff.mp h
            exact List.tail_suffix p
          · cases h
            exact List.suffix_refl p

theorem rangeTail_eq_some {p last : List UInt8} :
    rangeTail p = some last ↔ p = minus :: last ∧ last.head? ≠ some rbrack := by
  cases p with
  | nil => simp [rangeTail]
  | cons c p =>
      simp only [rangeTail, List.cons.injEq]
      split
      · next h =>
          obtain ⟨rfl, hhead⟩ := h
          constructor
          · rintro ⟨⟩
            exact ⟨⟨rfl, rfl⟩, hhead⟩
          · rintro ⟨⟨-, rfl⟩, -⟩
            rfl
      · next h =>
          constructor
          · rintro ⟨⟩
          · rintro ⟨⟨rfl, rfl⟩, hhead⟩
            exact absurd ⟨rfl, hhead⟩ h

theorem bracketItem_suffix {flags : MatchFlags} {p : List UInt8}
    {found : BracketItem × List UInt8} (h : bracketItem flags p = some found) :
    found.2 <:+ p.tail := by
  simp only [bracketItem] at h
  split at h
  next hsym =>
      cases h
      exact bracketSymbol_suffix hsym
  next =>
      split at h
      next hsym =>
          cases h
          exact bracketSymbol_suffix hsym
      next =>
          simp only [bracketRange] at h
          split at h
          · cases h
          next hchar =>
              have hrest := bracketChar_suffix hchar
              simp only [rangeFrom] at h
              split at h
              · cases h
                exact hrest
              next hrange =>
                  obtain ⟨last, hlast, rfl⟩ := Option.map_eq_some_iff.mp h
                  obtain ⟨rfl, -⟩ := rangeTail_eq_some.mp hrange
                  exact ((bracketChar_suffix hlast).trans (List.tail_suffix _)).trans
                    ((List.suffix_cons _ _).trans hrest)

theorem bracketItem_length {flags : MatchFlags} {p : List UInt8}
    {found : BracketItem × List UInt8} (h : bracketItem flags p = some found) :
    found.2.length < p.length := by
  have hle := (bracketItem_suffix h).length_le
  cases p with
  | nil => cases h
  | cons c p => exact Nat.lt_succ_of_le hle

/-- The closing bracket stands before what follows the items. -/
theorem bracketItems_suffix {flags : MatchFlags} {fuel : ℕ} {p : List UInt8}
    {found : List BracketItem × List UInt8} (h : bracketItems flags fuel p = some found) :
    rbrack :: found.2 <:+ p := by
  induction fuel generalizing p found with
  | zero => cases h
  | succ fuel ih =>
      simp only [bracketItems] at h
      split at h
      · cases h
      next item rest hitem =>
          have hrest : rest <:+ p := (bracketItem_suffix hitem).trans (List.tail_suffix p)
          split at h
          next hclose =>
              cases h
              obtain ⟨r, rfl⟩ := List.head?_eq_some_iff.mp hclose
              exact hrest
          next =>
              obtain ⟨found, hfound, rfl⟩ := Option.map_eq_some_iff.mp h
              exact (ih hfound).trans hrest

theorem bracketExpr_suffix {flags : MatchFlags} {p : List UInt8}
    {found : BracketExpr × List UInt8} (h : bracketExpr flags p = some found) :
    rbrack :: found.2 <:+ p := by
  obtain ⟨items, hitems, rfl⟩ := Option.map_eq_some_iff.mp h
  refine (bracketItems_suffix hitems).trans ?_
  rw [bracketList]
  split
  · exact List.tail_suffix p
  · exact List.suffix_refl p

theorem bracketItems_fuel {flags : MatchFlags} {k k' : ℕ} {p : List UInt8} (hk : p.length ≤ k)
    (hk' : p.length ≤ k') : bracketItems flags k p = bracketItems flags k' p := by
  induction k generalizing k' p with
  | zero =>
      obtain rfl := List.eq_nil_of_length_eq_zero (Nat.le_zero.mp hk)
      cases k' <;> rfl
  | succ k ih =>
      obtain _ | k' := k'
      · obtain rfl := List.eq_nil_of_length_eq_zero (Nat.le_zero.mp hk')
        rfl
      · simp only [bracketItems]
        cases hitem : bracketItem flags p with
        | none => rfl
        | some found =>
            have hlen := bracketItem_length hitem
            dsimp only
            rw [ih (by omega) (show found.2.length ≤ k' by omega)]

theorem plainItems_fuel {flags : MatchFlags} {first : Bool} {k k' : ℕ} {p : List UInt8}
    (hk : p.length ≤ k) (hk' : p.length ≤ k') :
    plainItems flags first k p = plainItems flags first k' p := by
  induction k generalizing first k' p with
  | zero =>
      obtain rfl := List.eq_nil_of_length_eq_zero (Nat.le_zero.mp hk)
      cases k' <;> rfl
  | succ k ih =>
      obtain _ | k' := k'
      · obtain rfl := List.eq_nil_of_length_eq_zero (Nat.le_zero.mp hk')
        rfl
      · simp only [plainItems]
        cases hitem : bracketItem flags p with
        | none => rfl
        | some found =>
            have hlen := bracketItem_length hitem
            dsimp only
            rw [ih (by omega) (show found.2.length ≤ k' by omega)]

def itemsFrom (flags : MatchFlags) (p : List UInt8) : Option (List BracketItem × List UInt8) :=
  bracketItems flags p.length p

def plainFrom (flags : MatchFlags) (first : Bool) (p : List UInt8) : Bool :=
  plainItems flags first p.length p

theorem itemsFrom_eq (flags : MatchFlags) (p : List UInt8) :
    itemsFrom flags p =
      match bracketItem flags p with
      | none => none
      | some (item, rest) =>
          if rest.head? = some rbrack then some ([item], rest.tail)
          else (itemsFrom flags rest).map fun found => (item :: found.1, found.2) := by
  rw [itemsFrom, bracketItems_fuel (Nat.le_refl _) (Nat.le_succ p.length), bracketItems]
  cases hitem : bracketItem flags p with
  | none => rfl
  | some found =>
      have hlen := bracketItem_length hitem
      dsimp only [itemsFrom]
      rw [bracketItems_fuel (show found.2.length ≤ p.length by omega) (Nat.le_refl _)]

theorem plainFrom_eq (flags : MatchFlags) (first : Bool) (p : List UInt8) :
    plainFrom flags first p =
      (plainItem flags first p &&
        match bracketItem flags p with
        | none => true
        | some (_, rest) => rest.head? == some rbrack || plainFrom flags false rest) := by
  rw [plainFrom, plainItems_fuel (Nat.le_refl _) (Nat.le_succ p.length), plainItems]
  cases hitem : bracketItem flags p with
  | none => rfl
  | some found =>
      have hlen := bracketItem_length hitem
      dsimp only [plainFrom]
      rw [plainItems_fuel (show found.2.length ≤ p.length by omega) (Nat.le_refl _)]

theorem anySymbolAt_of_ne {c : UInt8} (h : c ≠ lbrack) (p : List UInt8) :
    anySymbolAt c p = none := by
  simp [anySymbolAt, symbolAt, h]

theorem skipFrom_symbol {flags : MatchFlags} {type : UInt8} {p : List UInt8}
    {found : List UInt8 × List UInt8} (htype : type = equals ∨ type = colon ∨ type = dot)
    (h : bracketSymbol type p = some found) : skipFrom flags p = skipFrom flags found.2 := by
  cases p with
  | nil => cases h
  | cons c p =>
      have hany : anySymbolAt c p = some found := by
        simp only [bracketSymbol, symbolAt] at h
        split at h
        next hc =>
            have hhead := parseSubbracket_head h
            cases p with
            | nil => cases hhead
            | cons d p =>
                obtain rfl : d = type := Option.some.inj hhead
                simp only [anySymbolAt, symbolAt, if_pos hc]
                rcases htype with rfl | rfl | rfl
                · rw [h]
                · rw [show parseSubbracket equals (colon :: p) = none from rfl, h]
                · rw [show parseSubbracket equals (dot :: p) = none from rfl,
                    show parseSubbracket colon (dot :: p) = none from rfl, h]
        next => cases h
      rw [skipFrom_cons, hany]

/-- The loop behind `matched` goes over one character of the expression as it is read. -/
theorem skipFrom_bracketChar {flags : MatchFlags} {p : List UInt8}
    (hp : p.head? ≠ some rbrack) (hequals : bracketSymbol equals p = none)
    (hcolon : bracketSymbol colon p = none) :
    skipFrom flags p =
      match bracketChar flags p with
      | none => none
      | some (_, rest) => skipFrom flags rest := by
  simp only [bracketChar]
  cases hdot : bracketSymbol dot p with
  | some found => exact skipFrom_symbol (.inr (.inr rfl)) hdot
  | none =>
      cases p with
      | nil => rfl
      | cons c p =>
          have hany : anySymbolAt c p = none := by
            simp only [bracketSymbol] at hequals hcolon hdot
            simp [anySymbolAt, hequals, hcolon, hdot]
          have hc : c ≠ rbrack := fun hc => hp (by rw [List.head?_cons, hc])
          rw [skipFrom_cons, hany]
          simp only [if_neg hc]
          split
          · cases p with
            | nil => rfl
            | cons d p => rfl
          · rfl

theorem skipFrom_minus (flags : MatchFlags) (p : List UInt8) :
    skipFrom flags (minus :: p) = skipFrom flags p := by
  rw [skipFrom_cons, anySymbolAt_of_ne (by decide)]
  have hesc : ¬(flags.noescape = false ∧ minus = backslash) := fun h => absurd h.2 (by decide)
  simp only [if_neg (show ¬minus = rbrack by decide), if_neg hesc]

theorem classEnd_eq_false {p : List UInt8} (h : classEnd p = false) :
    bracketSymbol equals p = none ∧ bracketSymbol colon p = none := by
  simpa only [classEnd, Bool.or_eq_false_iff, Option.isSome_eq_false_iff,
    Option.isNone_iff_eq_none] using h

theorem escapedSymbolEnd_eq_false {flags : MatchFlags} {p : List UInt8}
    (h : escapedSymbolEnd flags p = false) (hesc : flags.noescape = false)
    (hhead : p.head? = some backslash) : bracketSymbol dot p.tail = none := by
  simpa [escapedSymbolEnd, hesc, hhead] using h

/-- It goes over one item as it is read. -/
theorem skipFrom_bracketItem {flags : MatchFlags} {p : List UInt8}
    (hp : p.head? ≠ some rbrack) (hplain : plainItem flags false p = true) :
    skipFrom flags p =
      match bracketItem flags p with
      | none => none
      | some (_, rest) => skipFrom flags rest := by
  simp only [bracketItem]
  cases hequals : bracketSymbol equals p with
  | some found => exact skipFrom_symbol (.inl rfl) hequals
  | none =>
      cases hcolon : bracketSymbol colon p with
      | some found => exact skipFrom_symbol (.inr (.inl rfl)) hcolon
      | none =>
          dsimp only
          simp only [plainItem, hequals, hcolon, Option.isSome_none, Bool.false_or] at hplain
          rw [skipFrom_bracketChar hp hequals hcolon, bracketRange]
          cases hchar : bracketChar flags p with
          | none => rfl
          | some found =>
              simp only [hchar] at hplain
              dsimp only [rangeFrom]
              cases hrange : rangeTail found.2 with
              | none => rfl
              | some last =>
                  simp only [hrange, Bool.and_eq_true, Bool.not_eq_true'] at hplain
                  obtain ⟨hlequals, hlcolon⟩ := classEnd_eq_false hplain.2
                  obtain ⟨hfound, hhead⟩ := rangeTail_eq_some.mp hrange
                  rw [hfound, skipFrom_minus, skipFrom_bracketChar hhead hlequals hlcolon]
                  dsimp only
                  cases bracketChar flags last <;> rfl

/-- What follows the expression, from a place between two of its items. -/
def closing (flags : MatchFlags) (p : List UInt8) : Option (List UInt8) :=
  if p.head? = some rbrack then some p.tail else (itemsFrom flags p).map Prod.snd

theorem skipFrom_closing {flags : MatchFlags} {p : List UInt8}
    (hplain : p.head? = some rbrack ∨ plainFrom flags false p = true) :
    skipFrom flags p = closing flags p := by
  induction hlen : p.length using Nat.strong_induction_on generalizing p with
  | _ n ih =>
      simp only [closing]
      split
      next hclose =>
          obtain ⟨p, rfl⟩ := List.head?_eq_some_iff.mp hclose
          rw [skipFrom_cons, anySymbolAt_of_ne (by decide)]
          rfl
      next hopen =>
          have hfrom := hplain.resolve_left hopen
          rw [plainFrom_eq, Bool.and_eq_true] at hfrom
          rw [skipFrom_bracketItem hopen hfrom.1, itemsFrom_eq]
          cases hitem : bracketItem flags p with
          | none => rfl
          | some found =>
              have hshort := bracketItem_length hitem
              simp only [hitem, Bool.or_eq_true, beq_iff_eq] at hfrom
              dsimp only
              rw [ih found.2.length (by omega) hfrom.2 rfl, closing]
              split
              · rfl
              · rw [Option.map_map]
                rfl

/-- What the code compares with: an unknown symbol is stored as 255. -/
def BracketItem.acceptsStored (flags : MatchFlags) (x : UInt8) : BracketItem → Bool
  | .char c => fold flags x == fold flags (c.getD 255)
  | .range first last =>
      fold flags (first.getD 255) ≤ fold flags x && fold flags x ≤ fold flags (last.getD 255)
  | .cclass name => isCclass x name
  | .equiv sym => fold flags x == fold flags (sym.getD 255)

theorem BracketItem.acceptsStored_eq {flags : MatchFlags} {x : UInt8} {item : BracketItem}
    (hknown : item.known = true) : item.acceptsStored flags x = item.accepts flags x := by
  cases item with
  | char c => cases c <;> simp_all [known, accepts, acceptsStored]
  | range first last => cases first <;> cases last <;> simp_all [known, accepts, acceptsStored]
  | cclass name => rfl
  | equiv sym => cases sym <;> simp_all [known, accepts, acceptsStored]

namespace BracketSearch

variable (b : BracketSearch)

/-- The loop goes on behind an item. -/
def nextAt (fuel : ℕ) : List UInt8 → Option (List UInt8)
  | [] => b.unmatched
  | c :: p => if c = rbrack then b.noMatch p else b.loop fuel c p

theorem symbolAt_fold (type c : UInt8) (p : List UInt8) :
    symbolAt type (fold b.flags c) p = symbolAt type c p := by
  simp only [symbolAt, fold_eq_iff b.flags (show isAlpha lbrack = false by decide)]

theorem loop_fold (fuel : ℕ) (c : UInt8) (p : List UInt8) :
    b.loop fuel (fold b.flags c) p = b.loop fuel c p := by
  cases fuel with
  | zero => rfl
  | succ fuel =>
      simp only [loop, symbolAt_fold,
        fold_eq_iff b.flags (show isAlpha backslash = false by decide)]
      cases symbolAt equals c p with
      | some found => rfl
      | none =>
          cases symbolAt colon c p with
          | some found => rfl
          | none =>
              cases symbolAt dot c p with
              | some found => rfl
              | none =>
                  dsimp only
                  by_cases hesc : b.flags.noescape = false ∧ c = backslash
                  · simp only [if_pos hesc]
                  · simp only [if_neg hesc, fold_fold]

theorem rangeEnd_eq {p : List UInt8} (h : escapedSymbolEnd b.flags p = false) :
    b.rangeEnd p = (bracketChar b.flags p).map fun found => (found.1.getD 255, found.2) := by
  cases p with
  | nil => rfl
  | cons c p =>
      simp only [rangeEnd, bracketChar, bracketSymbol]
      by_cases hesc : b.flags.noescape = false ∧ c = backslash
      · have hdot : symbolAt dot c p = none := by
          rw [symbolAt, if_neg]
          rw [hesc.2]
          decide
        simp only [if_pos hesc, hdot]
        cases p with
        | nil => rfl
        | cons d p =>
            have hd := escapedSymbolEnd_eq_false h hesc.1 (by rw [List.head?_cons, hesc.2])
            simp only [List.tail_cons, bracketSymbol] at hd
            simp [hd]
      · simp only [if_neg hesc]
        cases symbolAt dot c p with
        | none => rfl
        | some found => rfl

theorem matched_nil : b.matched [] = b.unmatched := rfl

/-- It makes no difference whether the character is folded when it is read. -/
theorem next_eq (fuel : ℕ) (folds : Bool) (p : List UInt8) :
    b.next (b.loop fuel) folds p = b.nextAt fuel p := by
  cases p with
  | nil => rfl
  | cons c p =>
      cases folds
      · rfl
      · simp only [next, nextAt, if_true, loop_fold]

/-- The end of a round, behind the first character of a possible range. -/
theorem range_behind (fuel : ℕ) (a : Option UInt8) {rest : List UInt8}
    (hplain : ∀ last, rangeTail rest = some last → escapedSymbolEnd b.flags last = false) :
    (match rest with
      | [] => b.unmatched
      | c :: after =>
          if c = minus ∧ after.head? ≠ some rbrack then
            match b.rangeEnd after with
            | none => b.unmatched
            | some (cend, p) =>
                if fold b.flags cend < fold b.flags (a.getD 255) then b.nextAt fuel p
                else if fold b.flags (a.getD 255) ≤ b.test ∧ b.test ≤ fold b.flags cend then
                  b.matched p
                else b.nextAt fuel p
          else if b.test = fold b.flags (a.getD 255) then b.matched (c :: after)
          else b.nextAt fuel (c :: after)) =
      match rangeFrom b.flags a rest with
      | none => b.unmatched
      | some (item, rest) =>
          if item.acceptsStored b.flags b.origTest then b.matched rest
          else b.nextAt fuel rest := by
  cases rest with
  | nil => simp [rangeFrom, rangeTail, matched_nil, nextAt]
  | cons c after =>
      by_cases hminus : c = minus ∧ after.head? ≠ some rbrack
      · have htail : rangeTail (c :: after) = some after := by
          rw [rangeTail, if_pos hminus]
        simp only [if_pos hminus, rangeFrom, htail, b.rangeEnd_eq (hplain after htail)]
        cases bracketChar b.flags after with
        | none => rfl
        | some found =>
            simp only [Option.map_some, BracketItem.acceptsStored, Bool.and_eq_true,
              decide_eq_true_eq]
            split
            · next hlt =>
                rw [if_neg]
                rintro ⟨hle, hle'⟩
                exact absurd (UInt8.le_trans hle hle') (UInt8.not_le.mpr hlt)
            · rfl
      · have htail : rangeTail (c :: after) = none := by
          rw [rangeTail, if_neg hminus]
        simp only [if_neg hminus, rangeFrom, htail, BracketItem.acceptsStored, beq_iff_eq]
        rfl

/-- A character and what may follow it, as the loop reads them. -/
theorem loop_range (fuel : ℕ) {first : Bool} {c : UInt8} {p : List UInt8}
    (hequals : symbolAt equals c p = none) (hcolon : symbolAt colon c p = none)
    (hplain : plainItem b.flags first (c :: p) = true) :
    b.loop (fuel + 1) c p =
      match bracketRange b.flags (c :: p) with
      | none => b.unmatched
      | some (item, rest) =>
          if item.acceptsStored b.flags b.origTest then b.matched rest
          else b.nextAt fuel rest := by
  have hends : ∀ a rest, bracketChar b.flags (c :: p) = some (a, rest) → ∀ last,
      rangeTail rest = some last → escapedSymbolEnd b.flags last = false := by
    intro a rest hchar last hlast
    simp only [plainItem, bracketSymbol, hequals, hcolon, hchar, hlast, Option.isSome_none,
      Bool.false_or, Bool.and_eq_true, Bool.not_eq_true'] at hplain
    exact hplain.1
  simp only [loop, hequals, hcolon, next_eq, bracketRange]
  cases hdot : symbolAt dot c p with
  | some found =>
      have hchar : bracketChar b.flags (c :: p) = some (collsym found.1, found.2) := by
        simp only [bracketChar, bracketSymbol, hdot]
      simp only [hchar]
      exact b.range_behind fuel (collsym found.1) (hends _ _ hchar)
  | none =>
      by_cases hesc : b.flags.noescape = false ∧ c = backslash
      · simp only [if_pos hesc]
        cases p with
        | nil =>
            have hchar : bracketChar b.flags [c] = none := by
              simp only [bracketChar, bracketSymbol, hdot, if_pos hesc]
              rfl
            simp only [hchar]
            rfl
        | cons d p =>
            have hchar : bracketChar b.flags (c :: d :: p) = some (some d, p) := by
              simp only [bracketChar, bracketSymbol, hdot, if_pos hesc]
              rfl
            simp only [hchar]
            exact b.range_behind fuel (some d) (hends _ _ hchar)
      · have hchar : bracketChar b.flags (c :: p) = some (some c, p) := by
          simp only [bracketChar, bracketSymbol, hdot, if_neg hesc]
        simp only [if_neg hesc, hchar]
        exact b.range_behind fuel (some c) (hends _ _ hchar)

/-- One round of the loop deals with one item. -/
theorem loop_step (fuel : ℕ) {first : Bool} {c : UInt8} {p : List UInt8}
    (hplain : plainItem b.flags first (c :: p) = true) :
    b.loop (fuel + 1) c p =
      match bracketItem b.flags (c :: p) with
      | none => b.unmatched
      | some (item, rest) =>
          if item.acceptsStored b.flags b.origTest then b.matched rest
          else b.nextAt fuel rest := by
  cases hequals : symbolAt equals c p with
  | some found =>
      simp only [loop, bracketItem, bracketSymbol, hequals, next_eq,
        BracketItem.acceptsStored, beq_iff_eq]
      rfl
  | none =>
      cases hcolon : symbolAt colon c p with
      | some found =>
          simp only [loop, bracketItem, bracketSymbol, hequals, hcolon, next_eq,
            BracketItem.acceptsStored]
          rfl
      | none =>
          rw [loop_range b fuel hequals hcolon hplain]
          simp only [bracketItem, bracketSymbol, hequals, hcolon]

/-- What the expression at `p` means for the character. -/
def meaning (p : List UInt8) : Option (List UInt8) :=
  match itemsFrom b.flags p with
  | none => b.unmatched
  | some (items, rest) =>
      if (items.any fun item => item.accepts b.flags b.origTest) != b.not then some rest else none

theorem matched_eq {p : List UInt8}
    (hplain : p.head? = some rbrack ∨ plainFrom b.flags false p = true) :
    b.matched p =
      match closing b.flags p with
      | none => b.unmatched
      | some rest => if b.not then none else some rest := by
  rw [← skipFrom_closing hplain]
  rfl

theorem loop_eq (fuel : ℕ) {first : Bool} {c : UInt8} {p : List UInt8}
    (hfuel : p.length < fuel) (hplain : plainFrom b.flags first (c :: p) = true)
    (hknown : ∀ items rest, itemsFrom b.flags (c :: p) = some (items, rest) →
      items.all BracketItem.known = true) :
    b.loop fuel c p = b.meaning (c :: p) := by
  induction fuel generalizing first c p with
  | zero => omega
  | succ fuel ih =>
      rw [plainFrom_eq, Bool.and_eq_true] at hplain
      rw [itemsFrom_eq] at hknown
      rw [b.loop_step fuel hplain.1, meaning, itemsFrom_eq]
      cases hitem : bracketItem b.flags (c :: p) with
      | none => rfl
      | some found =>
          obtain ⟨item, rest⟩ := found
          have hlen := bracketItem_length hitem
          simp only [hitem, Bool.or_eq_true, beq_iff_eq] at hplain hknown
          simp only [List.length_cons] at hlen
          simp only [b.matched_eq hplain.2, closing]
          by_cases hclose : rest.head? = some rbrack
          · obtain ⟨rest, rfl⟩ := List.head?_eq_some_iff.mp hclose
            have hitemknown := hknown [item] rest (by simp)
            simp only [List.all_cons, List.all_nil, Bool.and_true] at hitemknown
            simp only [if_pos hclose, List.tail_cons, List.any_cons, List.any_nil, Bool.or_false,
              BracketItem.acceptsStored_eq hitemknown, nextAt, noMatch, if_true]
            cases item.accepts b.flags b.origTest <;> cases b.not <;> rfl
          · simp only [if_neg hclose] at hknown ⊢
            have hrest : plainFrom b.flags false rest = true := hplain.2.resolve_left hclose
            have hnext : (∀ items r, itemsFrom b.flags rest = some (items, r) →
                items.all BracketItem.known = true) → b.nextAt fuel rest = b.meaning rest := by
              intro hk
              cases rest with
              | nil => rfl
              | cons d rest =>
                  have hd : d ≠ rbrack := fun hd => hclose (by rw [hd]; rfl)
                  rw [nextAt, if_neg hd]
                  exact ih (by simp only [List.length_cons] at hlen; omega) hrest hk
            cases hitems : itemsFrom b.flags rest with
            | none =>
                have hmeaning := hnext fun items r h => by rw [hitems] at h; cases h
                rw [meaning, hitems] at hmeaning
                simp only [hmeaning, Option.map_none, ite_self]
            | some found =>
                obtain ⟨items, r⟩ := found
                have hall := hknown (item :: items) r (by rw [hitems]; rfl)
                rw [List.all_cons, Bool.and_eq_true] at hall
                have hmeaning := hnext fun items' r' h => by
                  rw [hitems] at h
                  cases h
                  exact hall.2
                rw [meaning, hitems] at hmeaning
                simp only [hmeaning, BracketItem.acceptsStored_eq hall.1, Option.map_some,
                  List.any_cons]
                by_cases hacc : item.accepts b.flags b.origTest = true
                · cases b.not <;> simp [hacc]
                · simp [hacc]

end BracketSearch

/-- `BRACKMATCH` does what the expression says, and takes a bracket without a match for a
character. -/
theorem brackmatch_eq {flags : MatchFlags} {p : List UInt8} (hplain : plainBracket flags p = true)
    (x : UInt8) :
    brackmatch flags p x =
      match bracketExpr flags p with
      | none => if fold flags x = lbrack then some p else none
      | some (e, rest) => if e.accepts flags x then some rest else none := by
  obtain ⟨hitems, hknown⟩ := Bool.and_eq_true_iff.mp hplain
  let b : BracketSearch :=
    { flags := flags, origTest := x, not := negated p, savep := p }
  have hmeaning : brackmatch flags p x = b.meaning (bracketList p) := by
    simp only [brackmatch, bracketList, negated, decide_eq_true_eq]
    cases hlist : bracketList p with
    | nil =>
        simp only [bracketList, negated, decide_eq_true_eq] at hlist
        rw [hlist]
        rfl
    | cons c q =>
        have hplainFrom : plainFrom b.flags true (c :: q) = true := hlist ▸ hitems
        have hall := b.loop_eq (q.length + 1) (Nat.lt_succ_self _) hplainFrom fun
          items rest hfrom => by
            rw [← hlist, itemsFrom] at hfrom
            rw [bracketExpr, hfrom] at hknown
            exact hknown
        simp only [bracketList, negated, decide_eq_true_eq] at hlist
        rw [hlist]
        exact hall
  rw [hmeaning, BracketSearch.meaning, bracketExpr]
  rw [show itemsFrom b.flags (bracketList p) =
    bracketItems flags (bracketList p).length (bracketList p) from rfl]
  cases bracketItems flags (bracketList p).length (bracketList p) with
  | none => rfl
  | some found => rfl

end Glob

end Rash
