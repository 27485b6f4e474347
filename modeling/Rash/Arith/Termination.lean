import Mathlib.Data.List.TakeDrop
import Rash.Arith.Nesting

/-!
# Arithmetic evaluation ends

Every function of a level reads on in its text, so that less of it is pending; an evaluation
that is nested stands deeper in the stack, which has a limit.
-/

namespace Rash

namespace ExprWorld

open ExprM Act

variable {Θ : Type}

/-- What is left of the text, with the token that was read last. -/
def pending (s : ExprState Θ) : ℕ := s.tp.length + if s.curtok = .none then 0 else 1

/-- The stack is the same, and no more of the text is left. -/
structure Onward (s s' : ExprState Θ) : Prop where
  stack : s'.stack = s.stack
  pending : pending s' ≤ pending s

theorem Onward.rfl {s : ExprState Θ} : Onward s s := ⟨Eq.refl _, Nat.le_refl _⟩

theorem Onward.trans {s t u : ExprState Θ} (h : Onward s t) (h' : Onward t u) : Onward s u :=
  ⟨h'.stack.trans h.stack, Nat.le_trans h'.pending h.pending⟩

theorem InPlace.onward {s s' : ExprState Θ} (h : InPlace s s') : Onward s s' :=
  ⟨h.stack, Nat.le_of_eq (by rw [ExprWorld.pending, ExprWorld.pending, h.tp, h.curtok])⟩

/-- A token was read, or the end of the text. -/
structure ReadOn (s s' : ExprState Θ) : Prop where
  stack : s'.stack = s.stack
  shorter : s'.tp.length < s.tp.length ∨ s'.curtok = .none ∧ s'.tp = []

theorem ReadOn.pending_lt {s s' : ExprState Θ} (h : ReadOn s s') (hs : s.curtok ≠ .none) :
    pending s' < pending s := by
  rw [pending, pending, if_neg hs]
  rcases h.shorter with hlt | ⟨hnone, hnil⟩
  · split <;> omega
  · rw [if_pos hnone, hnil]
    exact Nat.succ_pos _

variable {w : ExprWorld Θ} {depth : ℕ} {s : ExprState Θ}

/-! ## Tokens -/

theorem ends_copyString (text : List Char) :
    w.Ends (fun _ => w.copyString text) s fun _ s' => InPlace s s' := by
  refine Act.Settles.onState ?_
  rcases w.savestring s.rest with ⟨address, rest⟩
  exact Act.Settles.modify (Act.Settles.pure ⟨rfl, rfl, rfl⟩)

theorem ends_initStaleLvalue :
    Act.Settles .outOfFuel (fun _ => (initStaleLvalue : ExprM Θ Unit)) s
      fun _ s' => InPlace s s' := by
  refine Act.Settles.set ?_
  dsimp only
  split
  · exact ⟨rfl, rfl, rfl⟩
  · exact InPlace.rfl

theorem ends_evalerror {α : Type} (message : String) {Q : α → ExprState Θ → Prop} :
    Act.Settles .outOfFuel (fun _ => (evalerror message : ExprM Θ α)) s Q :=
  Act.Settles.onState (Act.Settles.jump nofun)

theorem ends_strlongDigits (base : Int64) (found : Bool) (val : Int64) (num : List Char) :
    w.Ends (fun _ => w.strlongDigits base found val num) s fun _ s' => InPlace s s' := by
  induction num generalizing base found val with
  | nil => exact Act.Settles.pure InPlace.rfl
  | cons c num ih =>
      simp only [strlongDigits]
      refine Act.Settles.ite (fun _ => ?_) fun _ => Act.Settles.ite (fun _ => ?_)
        fun _ => Act.Settles.pure InPlace.rfl
      · refine Act.Settles.ite (fun _ => ends_evalerror _) fun _ => ?_
        refine Act.Settles.ite (fun _ => ends_evalerror _) fun _ => ?_
        exact Act.Settles.ite (fun _ => ends_evalerror _) fun _ => ih _ _ _
      · exact Act.Settles.ite (fun _ => ends_evalerror _) fun _ => ih _ _ _

theorem ends_strlong (num : List Char) :
    w.Ends (fun _ => w.strlong num) s fun _ s' => InPlace s s' := by
  unfold strlong
  split
  · exact Act.Settles.pure InPlace.rfl
  all_goals exact ends_strlongDigits _ _ _ _

/-- What follows an operator is not longer than what follows its first character. -/
theorem ends_readOperator (c : Char) (rest : List Char) :
    w.Ends (fun _ => w.readOperator c rest) s
      fun token s' => InPlace s s' ∧ token.2.length ≤ rest.length := by
  have htail : rest.tail.length ≤ rest.length := by simp
  have htail' : rest.tail.tail.length ≤ rest.length := by simp; omega
  have hassign : ∀ (op : ExprToken) (cp : List Char), cp.length ≤ rest.length →
      w.Ends (fun _ => do
        Act.modify fun s => { s with assigntok := op }
        return (ExprToken.opAssign, cp)) s
      fun token s' => InPlace s s' ∧ token.2.length ≤ rest.length := fun op cp hcp =>
    Act.Settles.modify (Act.Settles.pure ⟨⟨rfl, rfl, rfl⟩, hcp⟩)
  have hpure : ∀ (op : ExprToken) (cp : List Char), cp.length ≤ rest.length →
      w.Ends (fun _ => pure (op, cp)) s
        fun token s' => InPlace s s' ∧ token.2.length ≤ rest.length := fun op cp hcp =>
    Act.Settles.pure ⟨InPlace.rfl, hcp⟩
  refine Act.Settles.read ?_
  dsimp only
  repeat' first
    | exact hpure _ _ htail
    | exact hpure _ _ htail'
    | exact hpure _ _ (Nat.le_refl _)
    | exact hassign _ _ htail
    | exact hassign _ _ htail'
    | exact ends_evalerror _
    | refine Act.Settles.ite (fun _ => ?_) fun _ => ?_

/-- A name leaves less. -/
theorem ends_readName {c : Char} (hc : w.isStarter c = true) (rest : List Char) :
    w.Ends (fun _ => w.readName (c :: rest)) s
      fun name s' => InPlace s s' ∧ name.2.1.length < (c :: rest).length := by
  have hchar : w.isVariableChar c = true := by
    rw [isStarter, Bool.or_eq_true] at hc
    rw [isVariableChar, Bool.or_eq_true, Bool.or_eq_true]
    exact hc.imp .inl id
  have hafter : ((c :: rest).dropWhile w.isVariableChar).length < (c :: rest).length := by
    rw [List.dropWhile_cons_of_pos hchar]
    exact Nat.lt_succ_of_le ((List.dropWhile_sublist _).length_le)
  refine Act.Settles.read (Act.Settles.ite (fun _ => ?_) fun _ => Act.Settles.pure
    ⟨InPlace.rfl, hafter⟩)
  refine Act.Settles.ite (fun _ => Act.Settles.pure ⟨InPlace.rfl, ?_⟩) fun _ => ends_evalerror _
  exact Nat.lt_of_le_of_lt (by simp) hafter

theorem ends_readtokFrom (hmode : ∀ rest, w.noLongjmp rest = false) (h : w.NestsAt depth)
    (n : ℕ) {s : ExprState Θ} (hs : s.stack.length = depth) (hn : s.tp.length < n) :
    w.Ends (fun r => w.readtokFrom r n) s fun _ s' => ReadOn s s' := by
  induction n generalizing s with
  | zero => omega
  | succ n ih =>
      simp only [readtokFrom]
      refine Act.Settles.read ?_
      have hlen : (s.tp.dropWhile crWhitespace).length ≤ s.tp.length :=
        (List.dropWhile_sublist _).length_le
      cases htp : s.tp.dropWhile crWhitespace with
      | nil =>
          exact Act.Settles.set ⟨rfl, .inr ⟨rfl, rfl⟩⟩
      | cons c rest =>
          rw [htp] at hlen
          refine Act.Settles.modify (Act.Settles.ite (fun hc => ?_) fun _ => Act.Settles.ite
            (fun _ => ?_) fun _ => ?_)
          · refine (ends_readName hc rest).bind fun ⟨name, after, element⟩ t ht => ?_
            obtain ⟨⟨hstack, -, -⟩, hafter⟩ := ht
            refine Act.Settles.modify ((ends_copyString name).bind fun tokstr t₂ ht₂ => ?_)
            refine Act.Settles.modify (Act.Settles.read (Act.Settles.modify ?_))
            have hstack₂ : t₂.stack = s.stack := ht₂.stack.trans hstack
            have hless : after.length < n := Nat.lt_of_lt_of_le hafter (by omega)
            refine (ih (hstack₂.symm ▸ hs) hless).bind fun _ peeked hpeeked => ?_
            have hstack₃ : peeked.stack = s.stack := hpeeked.stack.trans hstack₂
            refine Act.Settles.read (Act.Settles.modify (Act.Settles.bind (Q :=
              fun _ s' => s'.stack = s.stack) ?_ ?_))
            · refine Act.Settles.ite (fun _ => ?_) fun _ => Act.Settles.pure hstack₃
              exact (ends_exprStreval hmode h (hstack₃.symm ▸ hs) _ _).imp
                fun _ u hu => hu.stack.trans hstack₃
            · exact fun tokval u hu => Act.Settles.set ⟨hu, .inl (Nat.lt_of_lt_of_le hafter hlen)⟩
          · refine (ends_strlong _).bind fun tokval t ht => Act.Settles.set ⟨ht.stack, .inl ?_⟩
            refine Nat.lt_of_lt_of_le ?_ hlen
            rw [List.dropWhile_cons_of_pos (by simp_all)]
            exact Nat.lt_succ_of_le (List.dropWhile_sublist _).length_le
          · refine (ends_readOperator c rest).bind fun ⟨token, after⟩ t ht => Act.Settles.set
              ⟨ht.1.stack, .inl ?_⟩
            exact Nat.lt_of_lt_of_le (Nat.lt_succ_of_le ht.2) hlen

/-! ## Levels of precedence -/

/-- The function ends at a depth of the stack where less than `bound` is pending. -/
def EndsBelow (w : ExprWorld Θ) (depth bound : ℕ) (f : Evaluators Θ → ExprM Θ Int64) : Prop :=
  ∀ s : ExprState Θ, s.stack.length = depth → pending s < bound →
    w.Ends f s fun _ s' => Onward s s'

/-- What is called one level deeper ends where less than `bound` is pending. -/
structure Level (w : ExprWorld Θ) (depth bound : ℕ) : Prop where
  mode : ∀ rest, w.noLongjmp rest = false
  nests : w.NestsAt depth
  lowest : w.EndsBelow depth bound fun r => r.lowest
  expassign : w.EndsBelow depth bound fun r => r.expassign
  expcond : w.EndsBelow depth bound fun r => r.expcond
  exppower : w.EndsBelow depth bound fun r => r.exppower
  expunary : w.EndsBelow depth bound fun r => r.expunary

variable {bound : ℕ}

theorem Level.readtok (h : w.Level depth bound) (hs : s.stack.length = depth) :
    w.Ends (fun r => w.readtok r) s fun _ s' => ReadOn s s' :=
  Act.Settles.onState (ends_readtokFrom h.mode h.nests _ hs (Nat.lt_succ_self _))

/-- Behind a token less is pending, so that what is called deeper ends. -/
theorem Level.readtok_bind (h : w.Level depth bound) (hs : s.stack.length = depth)
    (hcurtok : s.curtok ≠ .none) {f : ℕ → ExprM Θ Int64}
    {Q : Int64 → ExprState Θ → Prop}
      (hf : ∀ t, t.stack.length = depth → pending t < pending s → Onward s t →
      Act.Settles .outOfFuel f t Q) :
    Act.Settles .outOfFuel (fun n => do w.readtok (w.evaluators n); f n) s Q := by
  refine (h.readtok hs).bind fun _ t ht => ?_
  have hlt := ht.pending_lt hcurtok
  exact hf t (ht.stack ▸ hs) hlt ⟨ht.stack, Nat.le_of_lt hlt⟩

/-- The last token of an operand is passed over. -/
theorem Level.readtok_return (h : w.Level depth bound) (hs : s.stack.length = depth)
    (hcurtok : s.curtok ≠ .none) (val : Int64) :
    w.Ends (fun r => do w.readtok r; return val) s fun _ s' => Onward s s' :=
  (h.readtok hs).bind fun _ _ ht =>
    Act.Settles.pure ⟨ht.stack, Nat.le_of_lt (ht.pending_lt hcurtok)⟩

/-- After an increment its name is a number. -/
theorem onward_num {t u : ExprState Θ} (hon : Onward s t) (hstr : t.curtok ≠ .none)
    (hu : InPlace t u) : Onward s { u with curtok := .num } := by
  refine ⟨hu.stack.trans hon.stack, ?_⟩
  have hpending := hon.pending
  rw [pending, if_neg hstr, ← hu.tp] at hpending
  exact hpending

theorem Level.ends_exp0 (h : w.Level depth bound) :
    w.EndsBelow depth (bound + 1) fun r => w.exp0 r := by
  intro s hs hless
  have hpre : s.curtok ≠ .none → w.Ends (fun r => do
      setLasttok s.curtok
      w.readtok r
      let t ← Act.read
      if t.curtok ≠ .str then
        evalerror "identifier expected after pre-increment or pre-decrement"
      else
        let v2 := t.tokval + (if s.curtok = .preinc then 1 else -1)
        w.bindIncrement r v2
        setContext fun c => { c with curtok := .num }
        w.readtok r
        return v2) s fun _ s' => Onward s s' := by
    intro hcurtok
    let s₁ : ExprState Θ := { s with lasttok := s.curtok }
    refine Act.Settles.modify (h.readtok_bind (s := s₁) hs hcurtok
      fun t ht _ hon => Act.Settles.read ?_)
    refine Act.Settles.ite (fun _ => ends_evalerror _) fun hstr => ?_
    have hstr : t.curtok ≠ .none := fun hnone => hstr (by rw [hnone]; nofun)
    have hon : Onward s t := ⟨hon.stack, hon.pending⟩
    refine (ends_bindIncrement h.mode h.nests ht _).bind fun _ u hu => Act.Settles.modify ?_
    have hon' := onward_num hon hstr hu
    have hreturn := h.readtok_return (s := { u with curtok := .num }) (hu.stack ▸ ht) nofun
    exact (hreturn _).imp fun _ s' hs' => hon'.trans hs'
  refine Act.Settles.read ?_
  split
  · exact hpre (by simp_all)
  · exact hpre (by simp_all)
  · next hcur =>
      refine h.readtok_bind hs (by simp [hcur]) fun t ht hlt hon => ?_
      refine (h.lowest t ht (by omega)).bind fun val u hu => Act.Settles.read ?_
      refine Act.Settles.ite (fun _ => ends_evalerror _) fun hclose => ?_
      have hon' := hon.trans hu
      refine (h.readtok_return (hu.stack ▸ ht) ?_ val).imp fun _ s' hs' => hon'.trans hs'
      exact fun hnone => hclose (by rw [hnone]; nofun)
  · next hcur => exact h.readtok_return hs (by simp [hcur]) _
  · next hcur =>
      have hcurtok : s.curtok ≠ .none := by simp [hcur]
      let s₁ : ExprState Θ := { s with tokstr := none, noeval := 1 }
      refine Act.Settles.modify ((h.readtok (s := s₁) hs).bind fun _ t ht => Act.Settles.read ?_)
      have hon : Onward s t := ⟨ht.stack, Nat.le_of_lt (ht.pending_lt hcurtok)⟩
      refine Act.Settles.bind (Q := fun _ s' => Onward s s' ∧ s'.curtok ≠ .none) ?_ fun _ u hu => ?_
      · refine Act.Settles.ite (fun hpost => Act.Settles.modify ?_) fun _ => Act.Settles.set
          ⟨⟨ht.stack, Nat.le_refl _⟩, hcurtok⟩
        have hstr : t.curtok ≠ .none := by rcases hpost with hpost | hpost <;> simp [hpost]
        let t₁ : ExprState Θ :=
          { t with tokstr := s.tokstr, noeval := s.noeval, lval := s.lval, lasttok := .str }
        have hbind := ends_bindIncrement (s := t₁) h.mode h.nests (ht.stack ▸ hs)
          (s.tokval + (if t.curtok = .postinc then 1 else -1))
        exact hbind.bind fun _ u hu => Act.Settles.set ⟨onward_num (t := t₁)
          ⟨hon.stack, hon.pending⟩ hstr hu, nofun⟩
      · exact (h.readtok_return (hu.1.stack ▸ hs) hu.2 _).imp fun _ s' hs' => hu.1.trans hs'
  · exact ends_evalerror _

theorem Level.ends_expunary (h : w.Level depth bound) :
    w.EndsBelow depth (bound + 1) fun r => w.expunary r := by
  intro s hs hless
  have hoperand (f : Int64 → Int64) (hcurtok : s.curtok ≠ .none) : w.Ends (fun r => do
      w.readtok r
      let v ← r.expunary
      setLasttok .num
      return f v) s fun _ s' => Onward s s' := by
    refine h.readtok_bind hs hcurtok fun t ht hlt hon => ?_
    refine (h.expunary t ht (by omega)).bind fun v u hu => Act.Settles.modify (Act.Settles.pure ?_)
    exact ⟨hu.stack.trans hon.stack, Nat.le_trans hu.pending hon.pending⟩
  refine Act.Settles.read ?_
  dsimp only
  split
  · next hcur => exact hoperand _ (by simp [hcur])
  · next hcur => exact hoperand _ (by simp [hcur])
  · next hcur => exact hoperand _ (by simp [hcur])
  · next hcur => exact hoperand _ (by simp [hcur])
  · exact h.ends_exp0 s hs hless

/-! ## Loops -/

/-- Each turn of a loop passes over a token, so that its fuel lasts. -/
theorem ends_loop {next : Evaluators Θ → ExprM Θ Int64}
    (loop : Evaluators Θ → ℕ → Int64 → ExprM Θ Int64)
    (hnext : w.EndsBelow depth (bound + 1) next)
    (hturn : ∀ n val (s : ExprState Θ), s.stack.length = depth → pending s < bound + 1 →
      (∀ val' t, t.stack.length = depth → pending t < pending s → Onward s t →
        w.Ends (fun r => loop r n val') t fun _ s' => Onward s s') →
      w.Ends (fun r => loop r (n + 1) val) s fun _ s' => Onward s s') :
    w.EndsBelow depth (bound + 1) (fun r => do
      let val ← next r
      let s ← Act.read
      loop r (s.tp.length + 2) val) := by
  have hloop : ∀ (n : ℕ) (val : Int64) (s : ExprState Θ), s.stack.length = depth →
      pending s < bound + 1 → pending s < n →
      w.Ends (fun r => loop r n val) s fun _ s' => Onward s s' := by
    intro n
    induction n with
    | zero => exact fun _ _ _ _ hn => absurd hn (Nat.not_lt_zero _)
    | succ n ih =>
        refine fun val s hs hless hn => hturn n val s hs hless fun val' t ht hlt hon => ?_
        exact (ih val' t ht (by omega) (by omega)).imp fun _ s' hs' => hon.trans hs'
  intro s hs hless
  refine (hnext s hs hless).bind fun val t ht => Act.Settles.read ?_
  have hpending : pending t < t.tp.length + 2 := by
    rw [pending]
    split <;> omega
  exact (hloop _ val t (ht.stack ▸ hs) (Nat.lt_of_le_of_lt ht.pending hless) hpending).imp
    fun _ s' hs' => ht.trans hs'

section Levels

variable {next : Evaluators Θ → ExprM Θ Int64}

theorem Level.ends_binaryLevel (h : w.Level depth bound)
    (hnext : w.EndsBelow depth (bound + 1) next) {isOp : ExprToken → Bool}
      (hnone : isOp .none = false)
    {step : ExprToken → Int64 → Int64 → ExprM Θ Int64}
    (hstep : ∀ op a b (t : ExprState Θ),
      Act.Settles .outOfFuel (fun _ => step op a b) t fun _ s' => Onward t s') :
    w.EndsBelow depth (bound + 1) fun r => w.binaryLevel r isOp (next r) step := by
  refine ends_loop (fun r n val => w.binaryLoop r isOp (next r) step n val) hnext
    fun n val s hs hless hrest => ?_
  refine Act.Settles.read (Act.Settles.ite (fun hop => ?_) fun _ => Act.Settles.pure Onward.rfl)
  have hcurtok : s.curtok ≠ .none := fun hcur => by
    rw [hcur, hnone] at hop
    cases hop
  refine h.readtok_bind hs hcurtok fun t ht hlt hon => ?_
  refine (hnext t ht (by omega)).bind fun val2 u hu => ?_
  refine (hstep _ val val2 u).bind fun val' v hv => ?_
  have hon' := (hon.trans hu).trans hv
  have hpending := Nat.le_trans hv.pending hu.pending
  exact hrest val' v (hon'.stack ▸ hs) (by omega) hon'

theorem Level.ends_logicalLevel (h : w.Level depth bound)
    (hnext : w.EndsBelow depth (bound + 1) next) (tok : ExprToken) (htok : tok ≠ .none)
    (short : Int64 → Bool) (combine : Int64 → Int64 → Int64) :
    w.EndsBelow depth (bound + 1) fun r => w.logicalLevel r tok (next r) short combine := by
  refine ends_loop (fun r n val => w.logicalLoop r tok (next r) short combine n val) hnext
    fun n val s hs hless hrest => ?_
  refine Act.Settles.read (Act.Settles.ite (fun hop => Act.Settles.modify ?_)
    fun _ => Act.Settles.pure Onward.rfl)
  let s₁ : ExprState Θ := { s with noeval := s.noeval + if short val then 1 else 0 }
  refine h.readtok_bind (s := s₁) hs (hop ▸ htok) fun t ht hlt hon => ?_
  refine (hnext t ht (Nat.lt_trans hlt hless)).bind fun val2 u hu => Act.Settles.modify
    (Act.Settles.modify ?_)
  have hpending := Nat.lt_of_le_of_lt hu.pending hlt
  exact hrest _ _ (hu.stack ▸ ht) hpending ⟨hu.stack.trans hon.stack, Nat.le_of_lt hpending⟩

end Levels

theorem ends_numStep (f : ExprToken → Int64 → Int64 → Int64) (op : ExprToken) (a b : Int64)
    (t : ExprState Θ) : Act.Settles .outOfFuel (fun _ => numStep f op a b) t
      fun _ s' => Onward t s' :=
  Act.Settles.modify (Act.Settles.pure ⟨rfl, Nat.le_refl _⟩)

theorem Level.ends_exppower (h : w.Level depth bound) :
    w.EndsBelow depth (bound + 1) fun r => w.exppower r := by
  refine ends_loop (fun r n val => w.exppowerLoop r n val) h.ends_expunary
    fun n val s hs hless hrest => ?_
  refine Act.Settles.read (Act.Settles.ite (fun hop => ?_) fun _ => Act.Settles.pure Onward.rfl)
  refine h.readtok_bind hs (by rw [hop]; nofun) fun t ht hlt hon => ?_
  refine (h.exppower t ht (by omega)).bind fun val2 u hu => Act.Settles.modify (Act.Settles.read ?_)
  have hpending := Nat.lt_of_le_of_lt hu.pending hlt
  have hon' : Onward s { u with lasttok := .num } :=
    ⟨hu.stack.trans hon.stack, Nat.le_of_lt hpending⟩
  refine Act.Settles.ite (fun _ => ?_) fun _ => hrest _ _ (hu.stack ▸ ht) hpending hon'
  refine Act.Settles.ite (fun _ => Act.Settles.pure hon') fun _ => ?_
  exact Act.Settles.ite (fun _ => ends_evalerror _) fun _ => hrest _ _ (hu.stack ▸ ht) hpending hon'

theorem ends_divide (op : ExprToken) (a b : Int64) (t : ExprState Θ) :
    Act.Settles .outOfFuel (fun _ => divide op a b) t fun _ s' => Onward t s' :=
  Act.Settles.modify (Act.Settles.pure ⟨rfl, Nat.le_refl _⟩)

theorem ends_muldivStep (stp : List Char) (op : ExprToken) (a b : Int64) (t : ExprState Θ) :
    Act.Settles .outOfFuel (fun _ => muldivStep stp op a b) t fun _ s' => Onward t s' := by
  have hdivide : ∀ b, Act.Settles .outOfFuel (fun _ => do
      let v ← divide op a b
      setLasttok .num
      return v) t fun _ s' => Onward t s' := fun b =>
    (ends_divide op a b t).bind fun _ _ hu => Act.Settles.modify (Act.Settles.pure
      ⟨hu.stack, hu.pending⟩)
  refine Act.Settles.read (Act.Settles.ite (fun _ => ?_) fun _ => Act.Settles.ite (fun _ => ?_)
    fun _ => ?_)
  · exact Act.Settles.modify (Act.Settles.pure ⟨rfl, Nat.le_refl _⟩)
  · exact Act.Settles.ite (fun _ => Act.Settles.modify (ends_evalerror _)) fun _ => hdivide _
  · exact Act.Settles.ite (fun _ => Act.Settles.pure Onward.rfl) fun _ => hdivide _

theorem Level.ends_expmuldiv (h : w.Level depth bound) :
    w.EndsBelow depth (bound + 1) fun r => w.expmuldiv r := by
  refine ends_loop (fun r n val => w.expmuldivLoop r n val) h.ends_exppower
    fun n val s hs hless hrest => ?_
  refine Act.Settles.read (Act.Settles.ite (fun hop => ?_) fun _ => Act.Settles.pure Onward.rfl)
  have hcurtok : s.curtok ≠ .none := by rcases hop with hop | hop | hop <;> rw [hop] <;> nofun
  refine h.readtok_bind hs hcurtok fun t ht hlt hon => ?_
  refine (h.ends_exppower t ht (by omega)).bind fun val2 u hu => ?_
  refine (ends_muldivStep _ _ val val2 u).bind fun val' v hv => ?_
  have hon' := (hon.trans hu).trans hv
  have hpending := Nat.le_trans hv.pending hu.pending
  exact hrest val' v (hon'.stack ▸ hs) (by omega) hon'

theorem ends_shift (left : Bool) (a b : Int64) (t : ExprState Θ) :
    Act.Settles .outOfFuel (fun _ => shift left a b) t fun _ s' => Onward t s' :=
  Act.Settles.modify (Act.Settles.pure ⟨rfl, Nat.le_refl _⟩)

theorem Level.ends_explor (h : w.Level depth bound) :
    w.EndsBelow depth (bound + 1) fun r => w.explor r := by
  have hadd : w.EndsBelow depth (bound + 1) fun r => w.expaddsub r :=
    h.ends_binaryLevel h.ends_expmuldiv (by decide) (ends_numStep _)
  have hshift : w.EndsBelow depth (bound + 1) fun r => w.expshift r :=
    h.ends_binaryLevel hadd (by decide) fun op a b t => (ends_shift _ a b t).bind fun v u hu =>
      Act.Settles.modify (Act.Settles.pure ⟨hu.stack, hu.pending⟩)
  have hcompare : w.EndsBelow depth (bound + 1) fun r => w.expcompare r :=
    h.ends_binaryLevel hshift (by decide) (ends_numStep _)
  have heq : w.EndsBelow depth (bound + 1) fun r => w.expeq r :=
    h.ends_binaryLevel hcompare (by decide) (ends_numStep _)
  have hand : w.EndsBelow depth (bound + 1) fun r => w.expband r :=
    h.ends_binaryLevel heq (by decide) (ends_numStep _)
  have hxor : w.EndsBelow depth (bound + 1) fun r => w.expbxor r :=
    h.ends_binaryLevel hand (by decide) (ends_numStep _)
  have hor : w.EndsBelow depth (bound + 1) fun r => w.expbor r :=
    h.ends_binaryLevel hxor (by decide) (ends_numStep _)
  have hland : w.EndsBelow depth (bound + 1) fun r => w.expland r :=
    h.ends_logicalLevel hor .land nofun _ _
  exact h.ends_logicalLevel hland .lor nofun _ _

/-! ## Conditionals, assignments, and lists -/

theorem Level.ends_expcond (h : w.Level depth bound) :
    w.EndsBelow depth (bound + 1) fun r => w.expcond r := by
  intro s hs hless
  refine (h.ends_explor s hs hless).bind fun cval t ht => Act.Settles.read ?_
  refine Act.Settles.ite (fun _ => Act.Settles.pure ht) fun hques => Act.Settles.modify ?_
  have hques : t.curtok = .char '?' := not_not.mp hques
  let t₁ : ExprState Θ := { t with noeval := t.noeval + if cval = 0 then 1 else 0 }
  have hpending := ht.pending
  refine h.readtok_bind (s := t₁) (ht.stack ▸ hs) (by rw [hques]; nofun) fun u hu hlt hon => ?_
  have hlt' : pending u < pending t := hlt
  refine Act.Settles.read (Act.Settles.ite (fun _ => ends_evalerror _) fun _ => ?_)
  refine (h.lowest u hu (by omega)).bind fun val1 v hv => Act.Settles.modify (Act.Settles.read ?_)
  refine Act.Settles.ite (fun _ => ends_evalerror _) fun hcolon => Act.Settles.modify ?_
  have hcolon : v.curtok = .char ':' := not_not.mp hcolon
  let v₁ : ExprState Θ := { v with
    noeval := v.noeval + -(if cval = 0 then 1 else 0) + if cval = 0 then 0 else 1 }
  have hpending' := hv.pending
  refine h.readtok_bind (s := v₁) (hv.stack ▸ hu) (by rw [hcolon]; nofun) fun x hx hltx honx => ?_
  have hltx' : pending x < pending v := hltx
  refine Act.Settles.read (Act.Settles.ite (fun _ => ends_evalerror _) fun _ => ?_)
  refine (h.expcond x hx (by omega)).bind fun val2 y hy => Act.Settles.modify (Act.Settles.modify
    (Act.Settles.pure ?_))
  have hstack : y.stack = s.stack :=
    (hy.stack.trans honx.stack).trans ((hv.stack.trans hon.stack).trans ht.stack)
  refine ⟨hstack, Nat.le_trans hy.pending ?_⟩
  omega

theorem ends_assignOperation (op : ExprToken) (lvalue value : Int64) (t : ExprState Θ) :
    Act.Settles .outOfFuel (fun _ => assignOperation op lvalue value) t
      fun _ s' => Onward t s' := by
  refine Act.Settles.read (Act.Settles.ite (fun _ => ends_evalerror _) fun _ => ?_)
  have hdivide : ∀ b, Act.Settles .outOfFuel (fun _ => if lvalue = intmaxMin ∧ b = -1 then
      return if op = .char '/' then intmaxMin else 0
    else divide op lvalue b) t fun _ s' => Onward t s' := fun b =>
    Act.Settles.ite (fun _ => Act.Settles.pure Onward.rfl) fun _ => ends_divide op lvalue b t
  dsimp only
  split
  · exact Act.Settles.pure Onward.rfl
  · exact hdivide _
  · exact hdivide _
  · exact Act.Settles.pure Onward.rfl
  · exact Act.Settles.pure Onward.rfl
  · exact ends_shift _ _ _ t
  · exact ends_shift _ _ _ t
  · exact Act.Settles.pure Onward.rfl
  · exact Act.Settles.pure Onward.rfl
  · exact Act.Settles.pure Onward.rfl
  · exact ends_evalerror _

theorem Level.ends_expassign (h : w.Level depth bound) :
    w.EndsBelow depth (bound + 1) fun r => w.expassign r := by
  intro s hs hless
  refine (h.ends_expcond s hs hless).bind fun lvalue t ht => Act.Settles.read ?_
  refine Act.Settles.ite (fun hassign => ?_) fun _ => Act.Settles.pure ht
  refine Act.Settles.ite (fun _ => ends_evalerror _) fun _ => ?_
  split
  · exact ends_evalerror _
  · next tokstr htokstr =>
      have hcurtok : t.curtok ≠ .none := by rcases hassign with hassign | hassign
        <;> rw [hassign] <;> nofun
      refine (ends_copyString _).bind fun lhs t₁ ht₁ => ?_
      have hcurtok₁ : t₁.curtok ≠ .none := ht₁.curtok ▸ hcurtok
      have ht' := ht.trans ht₁.onward
      refine h.readtok_bind (ht'.stack ▸ hs) hcurtok₁ fun u hu hlt hon => ?_
      have hpending := ht'.pending
      refine (h.expassign u hu (by omega)).bind fun rhs v hv => ?_
      have hvalue : Act.Settles .outOfFuel (fun _ => if t.curtok = .opAssign then
          assignOperation t.assigntok lvalue rhs else pure rhs) v fun _ s' => Onward v s' :=
        Act.Settles.ite (fun _ => ends_assignOperation _ _ _ v) fun _ => Act.Settles.pure Onward.rfl
      refine hvalue.bind fun value x hx => ?_
      have hx' := ((ht'.trans hon).trans hv).trans hx
      refine (ends_bindAssigned h.mode h.nests (hx'.stack ▸ hs) _ _ _).bind fun _ y hy => ?_
      have hy' := hx'.trans hy.onward
      refine ends_initStaleLvalue.bind fun _ z hz => Act.Settles.modify (Act.Settles.pure ?_)
      have hz' := hy'.trans hz.onward
      exact ⟨hz'.stack, hz'.pending⟩

theorem Level.ends_expcomma (h : w.Level depth bound) :
    w.EndsBelow depth (bound + 1) fun r => w.expcomma r := by
  refine ends_loop (fun r n val => w.expcommaLoop r n val) h.ends_expassign
    fun n val s hs hless hrest => ?_
  refine Act.Settles.read (Act.Settles.ite (fun hop => ?_) fun _ => Act.Settles.pure Onward.rfl)
  refine h.readtok_bind hs (by rw [hop]; nofun) fun t ht hlt hon => ?_
  refine (h.ends_expassign t ht (by omega)).bind fun value u hu => ?_
  exact hrest _ _ (hu.stack ▸ ht) (Nat.lt_of_le_of_lt hu.pending hlt) (hon.trans hu)

/-! ## Expressions -/

/-- A level of the stack, whatever is pending, by induction on it. -/
theorem level_of_nests (hmode : ∀ rest, w.noLongjmp rest = false) (h : w.NestsAt depth)
    (bound : ℕ) : w.Level depth bound := by
  induction bound with
  | zero =>
      have hnothing : ∀ f, w.EndsBelow depth 0 f := fun f s _ hless => absurd hless
        (Nat.not_lt_zero _)
      exact ⟨hmode, h, hnothing _, hnothing _, hnothing _, hnothing _, hnothing _⟩
  | succ bound ih =>
      exact ⟨hmode, h,
        fun s hs hless => (ih.ends_expcomma s hs hless).deeper fun _ => by rw [evaluators],
        fun s hs hless => (ih.ends_expassign s hs hless).deeper fun _ => by rw [evaluators],
        fun s hs hless => (ih.ends_expcond s hs hless).deeper fun _ => by rw [evaluators],
        fun s hs hless => (ih.ends_exppower s hs hless).deeper fun _ => by rw [evaluators],
        fun s hs hless => (ih.ends_expunary s hs hless).deeper fun _ => by rw [evaluators]⟩

theorem ends_pushexp : Act.Settles .outOfFuel (fun _ => (pushexp : ExprM Θ Unit)) s fun _ s' =>
    s.stack.length < 1024 ∧ s' = { s with stack := s.toExprContext :: s.stack } := by
  refine Act.Settles.read (Act.Settles.ite (fun _ => ends_evalerror _)
    fun hroom => Act.Settles.set ?_)
  exact ⟨Nat.lt_of_not_le hroom, rfl⟩

theorem ends_popexp {context : ExprContext} {stack : List ExprContext}
    (hstack : s.stack = context :: stack) :
    Act.Settles .outOfFuel (fun _ => (popexp : ExprM Θ Unit)) s fun _ s' =>
      s' = { s with toExprContext := context, stack := stack } := by
  refine Act.Settles.read ?_
  simp only [hstack]
  exact Act.Settles.set rfl

/-- What is nested at a depth ends if it does one deeper, or if the stack is full. -/
theorem ends_subexpr (hmode : ∀ rest, w.noLongjmp rest = false)
    (h : depth < 1024 → w.NestsAt (depth + 1)) (expr : List Char) (hs : s.stack.length = depth) :
    w.Ends (fun r => w.subexpr r expr) s fun _ s' => InPlace s s' := by
  refine Act.Settles.ite (fun _ => Act.Settles.pure InPlace.rfl) fun _ => ends_pushexp.bind
    fun _ t ht => ?_
  obtain ⟨hroom, rfl⟩ := ht
  have hlevel := level_of_nests hmode (h (hs ▸ hroom))
  let s₁ : ExprState Θ :=
    { s with
      expression := some expr
      tp := expr
      curtok := .none
      lasttok := .none
      tokstr := none
      tokval := 0
      lval := .init
      stack := s.toExprContext :: s.stack }
  have hpushed : s₁.stack.length = depth + 1 := congrArg Nat.succ hs
  refine Act.Settles.modify (((hlevel 0).readtok (s := s₁) hpushed).bind fun _ t ht => ?_)
  have htd : t.stack.length = depth + 1 := (congrArg List.length ht.stack).trans hpushed
  have hcomma : w.Ends (fun r => w.expcomma r) t fun _ s' => Onward t s' :=
    (hlevel (pending t)).ends_expcomma t htd (Nat.lt_succ_self _)
  refine Act.Settles.bind hcomma fun val u hu => ?_
  refine Act.Settles.read (Act.Settles.ite (fun _ => ends_evalerror _) fun _ => ?_)
  have hstack : u.stack = s.toExprContext :: s.stack := hu.stack.trans ht.stack
  refine (ends_popexp hstack).bind fun _ v hv => Act.Settles.pure ?_
  subst hv
  exact ⟨rfl, rfl, rfl⟩

/-- At every depth of the stack what is nested ends, by induction on the room that is left. -/
theorem nestsAt (hmode : ∀ rest, w.noLongjmp rest = false) (depth : ℕ) : w.NestsAt depth := by
  obtain ⟨room, hroom⟩ : ∃ room, 1024 - depth = room := ⟨_, rfl⟩
  induction room generalizing depth with
  | zero =>
      intro expr s hs
      exact (ends_subexpr hmode (fun hlt => absurd hroom (by omega)) expr hs).deeper
        fun _ => by rw [evaluators]
  | succ room ih =>
      intro expr s hs
      exact (ends_subexpr hmode (fun _ => ih (depth + 1) (by omega)) expr hs).deeper
        fun _ => by rw [evaluators]

end ExprWorld

end Rash
