import Rash.Input.HereDocument
import Mathlib.Data.List.TakeWhile

/-!
# The lines of a here-document

`read_a_line` returns what lies before the next newline, joined with the next line where the
newline is quoted.  A here-document is made of such lines, up to one that is the delimiter.
-/

namespace Rash

namespace HereDocument

open ParserInput (Byte newline backslash)

/-! ## Lines of the input -/

/-- A line of the input as it stands there and as it is read. -/
structure InputLine where
  raw : List Byte
  line : List Byte

/-- The text ends in a backslash that quotes what comes next. -/
def endsQuoted : List Byte → Bool
  | [] => false
  | [c] => c == backslash
  | c :: d :: s => if c = backslash then endsQuoted s else endsQuoted (d :: s)

/-- A text with its control characters quoted. -/
def quoteControls (unquoted : Bool) : List Byte → List Byte
  | [] => []
  | [c] => quoteControl unquoted c
  | c :: d :: s =>
      if c = backslash ∧ unquoted = true then c :: d :: quoteControls unquoted s
      else quoteControl unquoted c ++ quoteControls unquoted (d :: s)

theorem length_dropWhile_le (p : Byte → Bool) (s : List Byte) :
    (s.dropWhile p).length ≤ s.length := (List.dropWhile_suffix p).length_le

/-- The next line of the input, with what is behind it. -/
def nextLine (unquoted doubles : Bool) (input : List Byte) : Option (InputLine × List Byte) :=
  let text := input.takeWhile (· != newline)
  match _h : input.dropWhile (· != newline) with
  | [] =>
      if text = [] then none
      else if unquoted = true ∧ endsQuoted text = true then
        some ({ raw := text
                line := quoteControls unquoted text.dropLast ++
                  (if doubles then [backslash] else []) ++ [backslash] }, [])
      else some ({ raw := text, line := quoteControls unquoted text ++ [newline] }, [])
  | _ :: rest =>
      if unquoted = true ∧ endsQuoted text = true then
        match nextLine unquoted doubles rest with
        | none =>
            if text.dropLast = [] then none
            else some ({ raw := input
                         line := quoteControls unquoted text.dropLast ++ [newline] }, [])
        | some (l, later) =>
            some ({ raw := text ++ newline :: l.raw
                    line := quoteControls unquoted text.dropLast ++ l.line }, later)
      else
        some ({ raw := text ++ [newline], line := quoteControls unquoted text ++ [newline] }, rest)
termination_by input.length
decreasing_by
  have hle := length_dropWhile_le (· != newline) input
  rw [_h] at hle
  exact hle

/-! ## Reading them -/

section

variable {q doubles : Bool} {line s : List Byte} {c : Byte}

theorem quoteControl_ne_nil (q : Bool) (c : Byte) : quoteControl q c ≠ [] := by
  unfold quoteControl
  split_ifs <;> exact List.cons_ne_nil _ _

theorem readALine_newline :
    readALine q doubles false line (newline :: s) = (some (line ++ [newline]), s) := by
  have hquote : quoteControl q newline = [newline] := if_neg fun h => absurd h.2 (by decide)
  cases s with
  | nil =>
      unfold readALine
      rw [if_neg fun h => absurd h.1 (by decide), if_pos rfl, hquote]
  | cons d s =>
      unfold readALine
      rw [if_neg fun h => absurd h.1 (by decide), if_pos rfl, hquote]

theorem readALine_char (hc : ¬ (c = backslash ∧ q = true)) (hnewline : c ≠ newline) :
    readALine q doubles false line (c :: s) =
      readALine q doubles false (line ++ quoteControl q c) s := by
  cases s with
  | nil =>
      rw [readALine, readALine, if_neg hc, if_neg hnewline,
        if_neg fun h => quoteControl_ne_nil q c (List.append_eq_nil_iff.mp h).2]
  | cons d s => rw [readALine, if_neg hc, if_neg hnewline]

theorem readALine_pair (hnewline : c ≠ newline) :
    readALine true doubles false line (backslash :: c :: s) =
      readALine true doubles false (line ++ [backslash, c]) s := by
  rw [readALine, if_pos ⟨rfl, rfl⟩, if_neg hnewline, readALine, if_neg hnewline, List.append_assoc]
  rfl

theorem readALine_joined :
    readALine true doubles false line (backslash :: newline :: s) =
      readALine true doubles false line s := by
  rw [readALine, if_pos ⟨rfl, rfl⟩, if_pos rfl]

theorem quoteControls_false (s : List Byte) : quoteControls false s = s := by
  have hquote (c : Byte) : quoteControl false c = [c] := if_neg fun h => Bool.false_ne_true h.1
  induction s with
  | nil => rfl
  | cons c s ih =>
      cases s with
      | nil => exact hquote c
      | cons d s =>
          rw [quoteControls, if_neg fun h => Bool.false_ne_true h.2, ih, hquote]
          rfl

theorem quoteControls_eq_nil {text : List Byte} (h : quoteControls q text = []) : text = [] := by
  match text with
  | [] => rfl
  | [c] => exact absurd h (quoteControl_ne_nil q c)
  | c :: d :: text =>
      rw [quoteControls] at h
      split_ifs at h
      exact absurd (List.append_eq_nil_iff.mp h).1 (quoteControl_ne_nil q c)

theorem readALine_plain {text : List Byte} (hnewline : newline ∉ text) :
    readALine false doubles false line (text ++ s) =
      readALine false doubles false (line ++ text) s := by
  induction text generalizing line with
  | nil => rw [List.append_nil]; rfl
  | cons c text ih =>
      obtain ⟨hc, htext⟩ := List.ne_and_not_mem_of_not_mem_cons hnewline
      rw [List.cons_append, readALine_char (fun h => Bool.false_ne_true h.2) hc.symm, ih htext,
        show quoteControl false c = [c] from if_neg fun h => Bool.false_ne_true h.1,
        List.append_assoc]
      rfl

/-- A text that does not quote what comes next. -/
theorem readALine_text {text : List Byte} (hnewline : newline ∉ text)
    (hend : ¬ (q = true ∧ endsQuoted text = true)) :
    readALine q doubles false line (text ++ s) =
      readALine q doubles false (line ++ quoteControls q text) s := by
  cases q with
  | false =>
      rw [quoteControls_false]
      exact readALine_plain hnewline
  | true =>
      have hunquoted : endsQuoted text = false := Bool.eq_false_iff.mpr fun h => hend ⟨rfl, h⟩
      clear hend
      induction text using endsQuoted.induct generalizing line with
      | case1 => rw [quoteControls, List.append_nil]; rfl
      | case2 c =>
          have hc : ¬ (c = backslash ∧ true = true) := fun h => by
            rw [h.1] at hunquoted
            cases hunquoted
          exact readALine_char hc (List.ne_and_not_mem_of_not_mem_cons hnewline).1.symm
      | case3 d text ih =>
          obtain ⟨-, hrest⟩ := List.ne_and_not_mem_of_not_mem_cons hnewline
          obtain ⟨hd, htext⟩ := List.ne_and_not_mem_of_not_mem_cons hrest
          rw [endsQuoted, if_pos rfl] at hunquoted
          rw [List.cons_append, List.cons_append, readALine_pair hd.symm, ih htext hunquoted,
            quoteControls, if_pos ⟨rfl, rfl⟩, List.append_assoc]
          rfl
      | case4 c d text hc ih =>
          obtain ⟨hne, hrest⟩ := List.ne_and_not_mem_of_not_mem_cons hnewline
          rw [endsQuoted, if_neg hc] at hunquoted
          rw [List.cons_append, readALine_char (fun h => hc h.1) hne.symm, ih hrest hunquoted,
            quoteControls, if_neg fun h => hc h.1, List.append_assoc]

/-- A text whose last backslash quotes what comes next. -/
theorem readALine_textQuoted {text : List Byte} (hnewline : newline ∉ text)
    (hend : endsQuoted text = true) :
    readALine true doubles false line (text ++ s) =
      readALine true doubles false (line ++ quoteControls true text.dropLast) (backslash :: s) := by
  induction text using endsQuoted.induct generalizing line with
  | case1 => cases hend
  | case2 c =>
      rw [eq_of_beq hend, List.dropLast_singleton, quoteControls, List.append_nil]
      rfl
  | case3 d text ih =>
      obtain ⟨-, hrest⟩ := List.ne_and_not_mem_of_not_mem_cons hnewline
      obtain ⟨hd, htext⟩ := List.ne_and_not_mem_of_not_mem_cons hrest
      rw [endsQuoted, if_pos rfl] at hend
      cases text with
      | nil => cases hend
      | cons e text =>
          rw [List.cons_append, List.cons_append, readALine_pair hd.symm, ih htext hend,
            show (backslash :: d :: e :: text).dropLast = backslash :: d :: (e :: text).dropLast
              from rfl, quoteControls, if_pos ⟨rfl, rfl⟩, List.append_assoc]
          rfl
  | case4 c d text hc ih =>
      obtain ⟨hne, hrest⟩ := List.ne_and_not_mem_of_not_mem_cons hnewline
      rw [endsQuoted, if_neg hc] at hend
      rw [List.cons_append, readALine_char (fun h => hc h.1) hne.symm, ih hrest hend]
      cases text with
      | nil =>
          rw [show [c, d].dropLast = [c] from rfl, show [d].dropLast = [] from rfl, quoteControls,
            List.append_nil]
          rfl
      | cons e text =>
          rw [show (c :: d :: e :: text).dropLast = c :: d :: (e :: text).dropLast from rfl,
            show (d :: e :: text).dropLast = d :: (e :: text).dropLast from rfl,
            quoteControls, if_neg fun h => hc h.1, List.append_assoc]

theorem nextLine_last {text : List Byte} (hnewline : newline ∉ text) :
    nextLine q doubles text =
      if text = [] then none
      else if q = true ∧ endsQuoted text = true then
        some ({ raw := text
                line := quoteControls q text.dropLast ++
                  (if doubles then [backslash] else []) ++ [backslash] }, [])
      else some ({ raw := text, line := quoteControls q text ++ [newline] }, []) := by
  have hall (c : Byte) (hc : c ∈ text) : (c != newline) = true :=
    bne_iff_ne.mpr fun h => hnewline (h ▸ hc)
  rw [nextLine, List.takeWhile_eq_self_iff.mpr hall]
  split
  · rfl
  · rename_i hrest
    rw [List.dropWhile_eq_nil_iff.mpr hall] at hrest
    cases hrest

theorem nextLine_newline {text rest : List Byte} (hnewline : newline ∉ text) :
    nextLine q doubles (text ++ newline :: rest) =
      if q = true ∧ endsQuoted text = true then
        match nextLine q doubles rest with
        | none =>
            if text.dropLast = [] then none
            else some ({ raw := text ++ newline :: rest
                         line := quoteControls q text.dropLast ++ [newline] }, [])
        | some (l, later) =>
            some ({ raw := text ++ newline :: l.raw
                    line := quoteControls q text.dropLast ++ l.line }, later)
      else some ({ raw := text ++ [newline], line := quoteControls q text ++ [newline] }, rest) := by
  have hall (c : Byte) (hc : c ∈ text) : (c != newline) = true :=
    bne_iff_ne.mpr fun h => hnewline (h ▸ hc)
  have htake : (text ++ newline :: rest).takeWhile (· != newline) = text := by
    rw [List.takeWhile_append_of_pos hall, List.takeWhile_cons_of_neg (by decide), List.append_nil]
  have hdrop : (text ++ newline :: rest).dropWhile (· != newline) = newline :: rest := by
    rw [List.dropWhile_append_of_pos hall, List.dropWhile_cons_of_neg (by decide)]
  rw [nextLine, htake]
  split
  · rename_i hrest
    rw [hdrop] at hrest
    cases hrest
  · rename_i hrest
    rw [hdrop] at hrest
    cases hrest
    rfl

/-- Every input is a text without newlines, or has one behind such a text. -/
theorem split_newline (input : List Byte) :
    ∃ text, newline ∉ text ∧ (text = input ∨ ∃ rest, text ++ newline :: rest = input) := by
  refine ⟨input.takeWhile (· != newline), fun hmem =>
    absurd (List.mem_takeWhile_imp hmem) (by simp), ?_⟩
  have hsplit := List.takeWhile_append_dropWhile (p := (· != newline)) (l := input)
  cases hrest : input.dropWhile (· != newline) with
  | nil => exact .inl (by rw [hrest, List.append_nil] at hsplit; exact hsplit)
  | cons c rest =>
      have hc : c = newline := by
        have hhead := List.head?_dropWhile_not (· != newline) input
        rw [hrest] at hhead
        simpa using hhead
      exact .inr ⟨rest, by rw [hrest, hc] at hsplit; exact hsplit⟩

/-- A line is read as it should be, behind what has been read of it. -/
theorem readALine_eq (q doubles : Bool) (line input : List Byte) :
    readALine q doubles false line input =
      match nextLine q doubles input with
      | none => (if line = [] then none else some (line ++ [newline]), [])
      | some (l, rest) => (some (line ++ l.line), rest) := by
  induction hn : input.length using Nat.strong_induction_on generalizing line input with
  | _ n ih =>
      obtain ⟨text, hnewline, rfl | ⟨rest, rfl⟩⟩ := split_newline input
      · rw [nextLine_last hnewline]
        by_cases hnil : text = []
        · rw [if_pos hnil, hnil, readALine]
        rw [if_neg hnil]
        by_cases hend : q = true ∧ endsQuoted text = true
        · rw [if_pos hend]
          obtain ⟨rfl, hquoted⟩ := hend
          have hread := @readALine_textQuoted doubles line [] _ hnewline
            hquoted
          rw [List.append_nil] at hread
          rw [hread, readALine, if_pos ⟨rfl, rfl⟩]
          simp only [List.append_assoc]
        · rw [if_neg hend]
          have hread := @readALine_text q doubles line [] _ hnewline hend
          rw [List.append_nil] at hread
          rw [hread, readALine, if_neg fun h =>
            hnil (quoteControls_eq_nil (List.append_eq_nil_iff.mp h).2), List.append_assoc]
      · rw [nextLine_newline hnewline]
        have hlen : rest.length < n := by
          rw [← hn, List.length_append, List.length_cons]
          omega
        by_cases hend : q = true ∧ endsQuoted text = true
        · rw [if_pos hend]
          obtain ⟨rfl, hquoted⟩ := hend
          rw [readALine_textQuoted hnewline hquoted, readALine_joined, ih rest.length hlen _ rest rfl]
          cases nextLine true doubles rest with
          | none =>
              dsimp only
              by_cases hnil : text.dropLast = []
              · rw [if_pos hnil, hnil, quoteControls, List.append_nil]
              · rw [if_neg hnil, if_neg fun h =>
                  hnil (quoteControls_eq_nil (List.append_eq_nil_iff.mp h).2), List.append_assoc]
          | some found => exact congrArg (fun l => (some l, found.2)) (List.append_assoc _ _ _)
        · rw [if_neg hend, readALine_text hnewline hend, readALine_newline, List.append_assoc]

theorem nextLine_raw {input rest : List Byte} {l : InputLine}
    (h : nextLine q doubles input = some (l, rest)) : l.raw ++ rest = input := by
  induction hn : input.length using Nat.strong_induction_on generalizing input l rest with
  | _ n ih =>
      obtain ⟨text, hnewline, rfl | ⟨tail, rfl⟩⟩ := split_newline input
      · rw [nextLine_last hnewline] at h
        split_ifs at h <;> cases h <;> exact List.append_nil _
      · rw [nextLine_newline hnewline] at h
        by_cases hend : q = true ∧ endsQuoted text = true
        · rw [if_pos hend] at h
          cases htail : nextLine q doubles tail with
          | none =>
              rw [htail] at h
              dsimp only at h
              split_ifs at h
              cases h
              exact List.append_nil _
          | some found =>
              rw [htail] at h
              cases h
              have hlen : tail.length < n := by
                rw [← hn, List.length_append, List.length_cons]
                omega
              rw [← ih tail.length hlen htail rfl, List.append_assoc, List.cons_append]
        · rw [if_neg hend] at h
          cases h
          rw [List.append_assoc]
          rfl

theorem newline_notMem_quoteControls {text : List Byte} (hnewline : newline ∉ text) :
    newline ∉ quoteControls q text := by
  have hquote {c : Byte} (hc : newline ≠ c) : newline ∉ quoteControl q c := by
    unfold quoteControl
    split_ifs with h
    · exact List.not_mem_cons_of_ne_of_not_mem (by decide)
        (List.not_mem_cons_of_ne_of_not_mem hc List.not_mem_nil)
    · exact List.not_mem_cons_of_ne_of_not_mem hc List.not_mem_nil
  induction text using quoteControls.induct q with
  | case1 => exact List.not_mem_nil
  | case2 c => exact hquote (List.ne_and_not_mem_of_not_mem_cons hnewline).1
  | case3 c d text hc ih =>
      obtain ⟨hne, hrest⟩ := List.ne_and_not_mem_of_not_mem_cons hnewline
      obtain ⟨hd, htext⟩ := List.ne_and_not_mem_of_not_mem_cons hrest
      rw [quoteControls, if_pos hc]
      exact List.not_mem_cons_of_ne_of_not_mem hne
        (List.not_mem_cons_of_ne_of_not_mem hd (ih htext))
  | case4 c d text hc ih =>
      obtain ⟨hne, hrest⟩ := List.ne_and_not_mem_of_not_mem_cons hnewline
      rw [quoteControls, if_neg hc]
      exact fun hmem => (List.mem_append.mp hmem).elim (hquote hne) (ih hrest)

/-- A line has no newline but at its end, which is no tab. -/
theorem nextLine_line {input rest : List Byte} {l : InputLine}
    (h : nextLine q doubles input = some (l, rest)) :
    ∃ text c, l.line = text ++ [c] ∧ newline ∉ text ∧ c ≠ tab := by
  have htab : newline ≠ tab := by decide
  have hdrop {text : List Byte} (hnewline : newline ∉ text) :
      newline ∉ quoteControls q text.dropLast :=
    newline_notMem_quoteControls fun hmem => hnewline (List.dropLast_subset _ hmem)
  induction hn : input.length using Nat.strong_induction_on generalizing input l rest with
  | _ n ih =>
      obtain ⟨text, hnewline, rfl | ⟨tail, rfl⟩⟩ := split_newline input
      · rw [nextLine_last hnewline] at h
        split_ifs at h <;> cases h
        · refine ⟨quoteControls q text.dropLast ++ [backslash], backslash, rfl, ?_, by decide⟩
          exact fun hmem => (List.mem_append.mp hmem).elim (hdrop hnewline) (by decide)
        · refine ⟨quoteControls q text.dropLast ++ [], backslash, rfl, ?_, by decide⟩
          rw [List.append_nil]
          exact hdrop hnewline
        · exact ⟨_, newline, rfl, newline_notMem_quoteControls hnewline, htab⟩
      · rw [nextLine_newline hnewline] at h
        by_cases hend : q = true ∧ endsQuoted text = true
        · rw [if_pos hend] at h
          cases htail : nextLine q doubles tail with
          | none =>
              rw [htail] at h
              dsimp only at h
              split_ifs at h
              cases h
              exact ⟨_, newline, rfl, hdrop hnewline, htab⟩
          | some found =>
              rw [htail] at h
              cases h
              have hlen : tail.length < n := by
                rw [← hn, List.length_append, List.length_cons]
                omega
              obtain ⟨more, c, hline, hmore, hc⟩ := ih tail.length hlen htail rfl
              refine ⟨quoteControls q text.dropLast ++ more, c, ?_, ?_, hc⟩
              · rw [hline, List.append_assoc]
              · exact fun hmem => (List.mem_append.mp hmem).elim (hdrop hnewline) hmore
        · rw [if_neg hend] at h
          cases h
          exact ⟨_, newline, rfl, newline_notMem_quoteControls hnewline, htab⟩

theorem readALine_nextLine {input rest : List Byte} {l : InputLine}
    (h : nextLine q doubles input = some (l, rest)) :
    readALine q doubles false [] input = (some l.line, rest) := by
  rw [readALine_eq, h]
  rfl

theorem nextLine_lt {input rest : List Byte} {l : InputLine}
    (h : nextLine q doubles input = some (l, rest)) : rest.length < input.length :=
  readALine_lt (readALine_nextLine h)

end

/-- The lines of the input. -/
def inputLines (unquoted doubles : Bool) (input : List Byte) : List InputLine :=
  match _h : nextLine unquoted doubles input with
  | none => []
  | some (l, rest) => l :: inputLines unquoted doubles rest
termination_by input.length
decreasing_by exact nextLine_lt _h

theorem inputLines_none {q doubles : Bool} {input : List Byte}
    (h : nextLine q doubles input = none) : inputLines q doubles input = [] := by
  rw [inputLines]
  split
  · rfl
  · rename_i hsome
    rw [h] at hsome
    cases hsome

theorem inputLines_some {q doubles : Bool} {input rest : List Byte} {l : InputLine}
    (h : nextLine q doubles input = some (l, rest)) :
    inputLines q doubles input = l :: inputLines q doubles rest := by
  rw [inputLines]
  split
  · rename_i hnone
    rw [h] at hnone
    cases hnone
  · rename_i hsome
    rw [h] at hsome
    cases hsome
    rfl

/-! ## The document -/

/-- A line without its leading tabs, for `<<-`. -/
def Redirect.stripped (r : Redirect) (line : List Byte) : List Byte :=
  if r.killLeading then line.dropWhile (· == tab) else line

/-- The line is the delimiter, without its leading tabs or with them. -/
def Redirect.delimits (r : Redirect) (line : List Byte) : Bool :=
  r.stripped line == r.redirWord ++ [newline] || line == r.redirWord ++ [newline]

/-- The line begins with the delimiter and has the token that ends the surrounding command
substitution behind it. -/
def Redirect.closes (r : Redirect) (a : Surroundings) (line : List Byte) : Bool :=
  r.redirWord.isPrefixOf (r.stripped line) &&
    a.eofToken.any ((r.stripped line).drop r.redirWord.length).contains

/-- The line ends the document. -/
def Redirect.endsAt (r : Redirect) (a : Surroundings) (l : InputLine) : Bool :=
  r.delimits l.line || r.closes a l.line

theorem isDelimiter_eq {word text : List Byte} {c : Byte} (hnewline : newline ∉ text) :
    isDelimiter word (text ++ [c]) = (text ++ [c] == word ++ [newline]) := by
  rw [Bool.eq_iff_iff, isDelimiter, Bool.and_eq_true, List.isPrefixOf_iff_prefix, beq_iff_eq,
    beq_iff_eq]
  constructor
  · rintro ⟨⟨tail, htail⟩, hnext⟩
    rw [← htail, List.getElem?_append_right le_rfl, Nat.sub_self] at hnext
    cases tail with
    | nil => cases hnext
    | cons d tail =>
        cases hnext
        obtain rfl | ⟨start, e, rfl⟩ := List.eq_nil_or_concat' tail
        · exact htail.symm
        · refine absurd ?_ hnewline
          rw [← List.cons_append, ← List.append_assoc] at htail
          rw [← (List.append_inj' htail rfl).1]
          exact List.mem_append_right _ List.mem_cons_self
  · intro heq
    rw [heq]
    exact ⟨List.prefix_append _ _, by rw [List.getElem?_append_right le_rfl, Nat.sub_self]; rfl⟩

section

variable {r : Redirect} {a : Surroundings} {document input rest line : List Byte} {l : InputLine}

theorem stripped_append {text : List Byte} {c : Byte} (hc : c ≠ tab) :
    ∃ start, r.stripped (text ++ [c]) = start ++ [c] ∧ start <:+ text := by
  unfold Redirect.stripped
  split_ifs
  · refine ⟨text.dropWhile (· == tab), ?_, List.dropWhile_suffix _⟩
    rw [List.dropWhile_append]
    split_ifs with hnil
    · rw [List.dropWhile_cons_of_neg (p := (· == tab)) fun h => hc (eq_of_beq h), List.isEmpty_iff.mp hnil]
      rfl
    · rfl
  · exact ⟨text, rfl, List.suffix_rfl⟩

/-- What the loop does with the next line. -/
theorem readDocument_line
    (h : nextLine r.delimUnquoted a.doubles input = some (l, rest)) :
    readDocument r a document input =
      if r.endsAt a l = true then
        { document := document
          rest     := rest
          ending   :=
            if r.delimits l.line = true then .delimiter
            else .pushedBack ((r.stripped l.line).drop r.redirWord.length) }
      else readDocument r a (document ++ r.stripped l.line) rest := by
  obtain ⟨text, c, hline, hnewline, hc⟩ := nextLine_line h
  obtain ⟨start, hstripped, hsuffix⟩ := @stripped_append r text _ hc
  rw [← hline] at hstripped
  have hstart : newline ∉ start := fun hmem => hnewline (hsuffix.subset hmem)
  have hfull : isDelimiter r.redirWord l.line = (l.line == r.redirWord ++ [newline]) := by
    rw [hline, isDelimiter_eq hnewline]
  have hshort : isDelimiter r.redirWord (r.stripped l.line) =
      (r.stripped l.line == r.redirWord ++ [newline]) := by
    rw [hstripped, isDelimiter_eq hstart]
  have hne : l.line ≠ [] := by rw [hline]; exact List.append_ne_nil_of_right_ne_nil _ (by simp)
  have hne' : r.stripped l.line ≠ [] := by
    rw [hstripped]
    exact List.append_ne_nil_of_right_ne_nil _ (by simp)
  rw [readDocument]
  split
  · rename_i hnone
    rw [readALine_nextLine h] at hnone
    cases hnone
  rename_i fullLine later hsome
  rw [readALine_nextLine h] at hsome
  cases hsome
  change (if _ then _ else
    if r.stripped l.line = [] then _ else if isDelimiter r.redirWord (r.stripped l.line) then _
      else if r.closes a l.line then _ else _) = _
  rw [if_neg hne', hfull, hshort]
  cases hdelim : r.delimits l.line with
  | true =>
      rw [Redirect.endsAt, hdelim, Bool.true_or, if_pos rfl, if_pos rfl]
      by_cases hfirst : r.killLeading = true ∧ l.line ≠ [] ∧
          (l.line == r.redirWord ++ [newline]) = true
      · rw [if_pos hfirst]
      · rw [if_neg hfirst, if_pos]
        obtain hsecond | hwhole := Bool.or_eq_true _ _ ▸ hdelim
        · exact hsecond
        · rw [Redirect.stripped, if_neg fun hkill => hfirst ⟨hkill, hne, hwhole⟩]
          exact hwhole
  | false =>
      obtain ⟨hsecond, hwhole⟩ := Bool.or_eq_false_iff.mp hdelim
      rw [Redirect.endsAt, hdelim, Bool.false_or, hsecond, hwhole,
        if_neg fun h : _ ∧ _ ∧ false = true => Bool.false_ne_true h.2.2,
        if_neg Bool.false_ne_true, if_neg Bool.false_ne_true]
      rfl

/-- `make_here_document` reads the lines up to the first one that ends the document, or all of
them. -/
theorem readDocument_lines (r : Redirect) (a : Surroundings) (document input : List Byte) :
    let found := readDocument r a document input
    let body := (inputLines r.delimUnquoted a.doubles input).takeWhile (!r.endsAt a ·)
    found.document = document ++ body.flatMap (r.stripped ·.line) ∧
      match (inputLines r.delimUnquoted a.doubles input).dropWhile (!r.endsAt a ·) with
      | [] => found.rest = [] ∧ found.ending = .endOfFile
      | l :: later =>
          body.flatMap (·.raw) ++ l.raw ++ found.rest = input ∧
          inputLines r.delimUnquoted a.doubles found.rest = later ∧
          found.ending =
            if r.delimits l.line = true then .delimiter
            else .pushedBack ((r.stripped l.line).drop r.redirWord.length) := by
  induction hn : input.length using Nat.strong_induction_on generalizing document input with
  | _ n ih =>
      cases hnext : nextLine r.delimUnquoted a.doubles input with
      | none =>
          rw [inputLines_none hnext]
          have hread := readALine_eq r.delimUnquoted a.doubles [] input
          rw [hnext] at hread
          have hfound : readDocument r a document input =
              { document := document, rest := [], ending := .endOfFile } := by
            rw [readDocument]
            split
            · rename_i hnone
              rw [hread] at hnone
              cases hnone
              rfl
            · rename_i hsome
              rw [hread] at hsome
              cases hsome
          rw [hfound]
          exact ⟨(List.append_nil _).symm, rfl, rfl⟩
      | some next =>
          obtain ⟨l, rest⟩ := next
          rw [inputLines_some hnext, readDocument_line hnext]
          cases hends : r.endsAt a l with
          | true =>
              rw [List.takeWhile_cons_of_neg (by rw [hends]; decide),
                List.dropWhile_cons_of_neg (by rw [hends]; decide), if_pos rfl]
              exact ⟨(List.append_nil _).symm, nextLine_raw hnext, rfl, rfl⟩
          | false =>
              rw [List.takeWhile_cons_of_pos (by rw [hends]; rfl),
                List.dropWhile_cons_of_pos (by rw [hends]; rfl), if_neg Bool.false_ne_true]
              have hlen : rest.length < n := hn ▸ nextLine_lt hnext
              obtain ⟨hdocument, hrest⟩ := ih rest.length hlen (document ++ r.stripped l.line) rest rfl
              refine ⟨?_, ?_⟩
              · rw [hdocument, List.flatMap_cons, List.append_assoc]
              · revert hrest
                split
                · exact id
                · rintro ⟨hraw, hlater, hending⟩
                  refine ⟨?_, hlater, hending⟩
                  rw [← nextLine_raw hnext, List.flatMap_cons, List.append_assoc, List.append_assoc]
                  rw [List.append_assoc] at hraw
                  exact congrArg (l.raw ++ ·) hraw

end

theorem makeHereDocument_lines (r : Redirect) (a : Surroundings) (input : List Byte) :
    let found := makeHereDocument r a input
    let body := (inputLines r.delimUnquoted a.doubles input).takeWhile (!r.endsAt a ·)
    found.document = body.flatMap (r.stripped ·.line) ∧
      match (inputLines r.delimUnquoted a.doubles input).dropWhile (!r.endsAt a ·) with
      | [] => found.rest = [] ∧ found.ending = .endOfFile
      | l :: later =>
          body.flatMap (·.raw) ++ l.raw ++ found.rest = input ∧
          inputLines r.delimUnquoted a.doubles found.rest = later ∧
          found.ending =
            if r.delimits l.line = true then .delimiter
            else .pushedBack ((r.stripped l.line).drop r.redirWord.length) :=
  readDocument_lines r a [] input

/-- `$(cat <<EOF` with a line that only begins with the delimiter, and `<<-` with a delimiter that
begins with a tab. -/
theorem makeHereDocument_comsub :
    (let r : Redirect :=
      { killLeading := false, word := [⟨'E', by decide⟩, ⟨'F', by decide⟩], quoted := false }
    let a : Surroundings := { doubles := false, eofToken := some ⟨')', by decide⟩ }
    let closing : List Byte := [⟨' ', by decide⟩, ⟨')', by decide⟩]
    let input := (r.word ++ closing) ++ newline :: (r.word ++ [newline])
    makeHereDocument r a input =
        { document := [], rest := r.word ++ [newline], ending := .pushedBack (closing ++ [newline]) } ∧
      ((inputLines true false input).takeWhile (r.stripped ·.line != r.redirWord ++ [newline])).flatMap
        (r.stripped ·.line) = r.word ++ closing ++ [newline]) ∧
    (let r : Redirect :=
      { killLeading := true, word := [tab, ⟨'E', by decide⟩], quoted := true }
    let a : Surroundings := { doubles := false, eofToken := none }
    let input := r.word ++ [newline]
    makeHereDocument r a input = { document := [], rest := [], ending := .delimiter } ∧
      ((inputLines false false input).takeWhile
        (r.stripped ·.line != r.redirWord ++ [newline])).flatMap (r.stripped ·.line) =
          [⟨'E', by decide⟩, newline]) := by
  have hnil (q : Bool) : nextLine q false [] = none := by
    rw [nextLine_last List.not_mem_nil, if_pos rfl]
  refine ⟨?_, ?_⟩
  · intro r a closing input
    have hlast : nextLine true false (r.word ++ [newline]) =
        some ({ raw := r.word ++ [newline], line := r.word ++ [newline] }, []) := by
      rw [nextLine_newline (by decide), if_neg (by decide)]
      rfl
    have hfirst : nextLine r.delimUnquoted a.doubles input =
        some ({ raw := r.word ++ closing ++ [newline], line := r.word ++ closing ++ [newline] },
          r.word ++ [newline]) := by
      rw [nextLine_newline (by decide), if_neg (by decide)]
      rfl
    refine ⟨?_, ?_⟩
    · rw [makeHereDocument, readDocument_line hfirst, if_pos (by decide), if_neg (by decide)]
      rfl
    · rw [@inputLines_some true false _ _ _ hfirst, inputLines_some hlast, inputLines_none (hnil true)]
      decide
  · intro r a input
    have hline : nextLine r.delimUnquoted a.doubles input =
        some ({ raw := r.word ++ [newline], line := r.word ++ [newline] }, []) := by
      rw [nextLine_newline (by decide), if_neg (by decide)]
      rfl
    refine ⟨?_, ?_⟩
    · rw [makeHereDocument, readDocument_line hline, if_pos (by decide), if_pos (by decide)]
    · rw [@inputLines_some false false _ _ _ hline, inputLines_none (hnil false)]
      decide

end HereDocument

end Rash
