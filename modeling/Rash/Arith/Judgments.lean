import Mathlib.Tactic.SplitIfs
import Rash.Arith.Precedence

/-!
# Judgments on the functions of the evaluator

What holds of the single steps of an evaluation, and goes over to sequences of computations,
holds of every function of the evaluator, if it does of the values and the bindings of variables.
-/

namespace Rash

/-- The primitive is defined on its operands. -/
def ArithEvent.Defined : ArithEvent → Prop
  | .divide a b => b ≠ 0 ∧ ¬ (a = ExprWorld.intmaxMin ∧ b = -1)
  | .shift _ _ n => 0 ≤ n ∧ n ≤ 63
  | .bind .. => True
  | .nested .. => True

instance (e : ArithEvent) : Decidable e.Defined := by
  unfold ArithEvent.Defined
  split <;> infer_instance

def ArithEvent.isShift : ArithEvent → Bool
  | .shift .. => true
  | _ => false

def ArithEvent.isNested : ArithEvent → Bool
  | .nested .. => true
  | _ => false

open ExprM Act

variable {Θ : Type}

/-- A judgment that holds of the single steps and goes over to sequences. -/
structure Judgment (P : ∀ {α : Type}, ExprM Θ α → Prop) : Prop where
  pure : ∀ {α : Type} (a : α), P (pure a : ExprM Θ α)
  jump : ∀ {α : Type} (e : ExprJump), P (Act.jump e : ExprM Θ α)
  read : P (Act.read : ExprM Θ (ExprState Θ))
  bind : ∀ {α β : Type} {m : ExprM Θ α} {f : α → ExprM Θ β}, P m → (∀ a, P (f a)) → P (m >>= f)
  onState : ∀ {α : Type} {g : ExprState Θ → ExprM Θ α}, (∀ s, P (g s)) → P (Act.onState g)
  modify : ∀ {f : ExprState Θ → ExprState Θ}, (∀ s, (f s).log = s.log) →
    (∀ s, (f s).stack = s.stack) → (∀ s, (f s).alreadyExpanded = s.alreadyExpanded) →
    P (Act.modify f)
  emit : ∀ {e : ArithEvent}, (e.isShift = false → e.Defined) → e.isNested = false →
    P (ExprM.emit e)

namespace Judgment

/-- The judgment holds of the values and the bindings of variables, and one level deeper. -/
structure Parts (P : ∀ {α : Type}, ExprM Θ α → Prop) (w : ExprWorld Θ)
    (r : ExprWorld.Evaluators Θ) : Prop where
  streval : ∀ tok element, P (w.exprStreval r tok element)
  increment : ∀ value, P (w.bindIncrement r value)
  assigned : ∀ lhs lind value, P (w.bindAssigned r lhs lind value)
  lowest : P r.lowest
  expassign : P r.expassign
  expcond : P r.expcond
  exppower : P r.exppower
  expunary : P r.expunary

open ExprWorld

variable {P : ∀ {α : Type}, ExprM Θ α → Prop} {w : ExprWorld Θ} {α : Type} {r : Evaluators Θ}

theorem ite (_ : Judgment P) {p : Prop} [Decidable p] {m m' : ExprM Θ α} (hm : p → P m)
    (hm' : ¬ p → P m') : P (if p then m else m') := by
  split
  · next hp => exact hm hp
  · next hp => exact hm' hp

variable (hP : Judgment P)

include hP

theorem setContext (f : ExprContext → ExprContext) : P (ExprM.setContext f : ExprM Θ Unit) :=
  hP.modify (fun _ => rfl) (fun _ => rfl) fun _ => rfl

theorem evalerror (message : String) : P (ExprM.evalerror message : ExprM Θ α) :=
  hP.onState fun _ => hP.jump _

theorem setLasttok (t : ExprToken) : P (ExprM.setLasttok t : ExprM Θ Unit) := hP.setContext _

theorem addNoeval (n : Int) : P (ExprM.addNoeval n : ExprM Θ Unit) := hP.setContext _

theorem restoretok (ec : ExprContext) : P (ExprM.restoretok ec : ExprM Θ Unit) := hP.setContext _

theorem copyString_holds (text : List Char) : P (w.copyString text) :=
  hP.onState fun _ => hP.bind (hP.modify (fun _ => rfl) (fun _ => rfl) fun _ => rfl) fun _ => hP.pure _

theorem strlongDigits_holds (base : Int64) (found : Bool) (val : Int64) (s : List Char) :
    P (w.strlongDigits base found val s) := by
  induction s generalizing base found val with
  | nil => exact hP.pure _
  | cons c s ih =>
      unfold strlongDigits
      split_ifs
      · exact hP.evalerror _
      · exact hP.evalerror _
      · exact hP.evalerror _
      · exact ih _ _ _
      · exact hP.evalerror _
      · exact ih _ _ _
      · exact hP.pure _

theorem strlong_holds (num : List Char) : P (w.strlong num) := by
  unfold strlong
  split
  · exact hP.pure _
  all_goals exact hP.strlongDigits_holds _ _ _ _

theorem readOperator_holds (c : Char) (rest : List Char) : P (w.readOperator c rest) := by
  refine hP.bind hP.read fun s => ?_
  dsimp only
  have hassign : ∀ (op : ExprToken) (cp : List Char), P (do
      Act.modify fun s => { s with assigntok := op }
      return (ExprToken.opAssign, cp) : ExprM Θ (ExprToken × List Char)) := fun _ _ =>
    hP.bind (hP.modify (fun _ => rfl) (fun _ => rfl) fun _ => rfl) fun _ => hP.pure _
  repeat' first
    | exact hP.pure _
    | exact hP.evalerror _
    | exact hassign _ _
    | refine hP.ite (fun _ => ?_) fun _ => ?_

theorem readName_holds (cs : List Char) : P (w.readName cs) := by
  refine hP.bind hP.read fun s => ?_
  dsimp only
  split_ifs
  · exact hP.pure _
  · exact hP.evalerror _
  · exact hP.pure _

theorem readtokFrom_holds (hr : Parts P w r) (n : ℕ) : P (w.readtokFrom r n) := by
  induction n with
  | zero => exact hP.jump _
  | succ n ih =>
      refine hP.bind hP.read fun s => ?_
      split
      · exact hP.setContext _
      · refine hP.bind (hP.setContext _) fun _ => ?_
        split_ifs
        · refine hP.bind (hP.readName_holds _) fun ⟨name, after, element⟩ => ?_
          refine hP.bind (hP.setContext _) fun _ => ?_
          refine hP.bind (hP.copyString_holds _) fun _ => ?_
          refine hP.bind (hP.setContext _) fun _ => ?_
          refine hP.bind hP.read fun _ => ?_
          refine hP.bind (hP.setContext _) fun _ => ?_
          refine hP.bind ih fun _ => ?_
          refine hP.bind hP.read fun _ => ?_
          refine hP.bind (hP.restoretok _) fun _ => ?_
          refine hP.bind ?_ fun _ => hP.setContext _
          exact hP.ite (fun _ => hr.streval _ _) fun _ => hP.pure _
        · exact hP.bind (hP.strlong_holds _) fun _ => hP.setContext _
        · exact hP.bind (hP.readOperator_holds _ _) fun ⟨_, _⟩ => hP.setContext _

theorem readtok_holds (hr : Parts P w r) : P (w.readtok r) :=
  hP.onState fun _ => hP.readtokFrom_holds hr _

/-! ## Operands -/

theorem exp0_holds (hr : Parts P w r) : P (w.exp0 r) := by
  have htok := hP.readtok_holds hr
  have hpre (s : ExprState Θ) : P (do
      ExprM.setLasttok s.curtok
      w.readtok r
      let t ← Act.read
      if t.curtok ≠ .str then
        ExprM.evalerror "identifier expected after pre-increment or pre-decrement"
      else
        let v2 := t.tokval + (if s.curtok = .preinc then 1 else -1)
        w.bindIncrement r v2
        ExprM.setContext fun c => { c with curtok := .num }
        w.readtok r
        return v2 : ExprM Θ Int64) := by
    refine hP.bind (hP.setLasttok _) fun _ => hP.bind htok fun _ => ?_
    refine hP.bind hP.read fun t => hP.ite (fun _ => hP.evalerror _) fun _ => ?_
    refine hP.bind (hr.increment _) fun _ => ?_
    exact hP.bind (hP.setContext _) fun _ => hP.bind htok fun _ => hP.pure _
  refine hP.bind hP.read fun s => ?_
  split
  · exact hpre s
  · exact hpre s
  · refine hP.bind htok fun _ => hP.bind hr.lowest fun _ => hP.bind hP.read fun t => ?_
    exact hP.ite (fun _ => hP.evalerror _) fun _ => hP.bind htok fun _ => hP.pure _
  · exact hP.bind htok fun _ => hP.pure _
  · refine hP.bind (hP.setContext _) fun _ => hP.bind htok fun _ => ?_
    refine hP.bind hP.read fun t => hP.bind ?_ fun _ =>
      hP.bind htok fun _ => hP.pure _
    refine hP.ite (fun _ => ?_) fun _ => hP.restoretok _
    refine hP.bind (hP.setContext _) fun _ => ?_
    exact hP.bind (hr.increment _) fun _ => hP.setContext _
  · exact hP.evalerror _

theorem expunary_holds (hr : Parts P w r) : P (w.expunary r) := by
  have hoperand (f : Int64 → Int64) : P (do
      w.readtok r
      let v ← r.expunary
      ExprM.setLasttok .num
      return f v : ExprM Θ Int64) :=
    hP.bind (hP.readtok_holds hr) fun _ => hP.bind hr.expunary fun _ =>
      hP.bind (hP.setLasttok _) fun _ => hP.pure _
  refine hP.bind hP.read fun s => ?_
  dsimp only
  split
  · exact hoperand _
  · exact hoperand _
  · exact hoperand _
  · exact hoperand _
  · exact hP.exp0_holds hr

/-! ## Binary operators -/

section Levels

variable {next : ExprM Θ Int64} (hr : Parts P w r) (hnext : P next)

include hr hnext

theorem binaryLevel_holds (isOp : ExprToken → Bool)
    {step : ExprToken → Int64 → Int64 → ExprM Θ Int64}
    (hstep : ∀ op a b, P (step op a b)) : P (w.binaryLevel r isOp next step) := by
  have hloop (n : ℕ) (val : Int64) : P (w.binaryLoop r isOp next step n val) := by
    induction n generalizing val with
    | zero => exact hP.jump _
    | succ n ih =>
        refine hP.bind hP.read fun s => hP.ite (fun _ => ?_) fun _ => hP.pure _
        refine hP.bind (hP.readtok_holds hr) fun _ => hP.bind hnext fun _ => ?_
        exact hP.bind (hstep _ _ _) fun _ => ih _
  exact hP.bind hnext fun _ => hP.bind hP.read fun _ => hloop _ _

theorem logicalLevel_holds (tok : ExprToken) (short : Int64 → Bool)
    (combine : Int64 → Int64 → Int64) : P (w.logicalLevel r tok next short combine) := by
  have hloop (n : ℕ) (val : Int64) :
      P (w.logicalLoop r tok next short combine n val) := by
    induction n generalizing val with
    | zero => exact hP.jump _
    | succ n ih =>
        refine hP.bind hP.read fun s => hP.ite (fun _ => ?_) fun _ => hP.pure _
        dsimp only
        refine hP.bind (hP.addNoeval _) fun _ => hP.bind (hP.readtok_holds hr) fun _ => ?_
        refine hP.bind hnext fun _ => hP.bind (hP.addNoeval _) fun _ => ?_
        exact hP.bind (hP.setLasttok _) fun _ => ih _
  exact hP.bind hnext fun _ => hP.bind hP.read fun _ => hloop _ _

end Levels

theorem numStep_holds (f : ExprToken → Int64 → Int64 → Int64) (op : ExprToken) (a b : Int64) :
    P (numStep f op a b : ExprM Θ Int64) :=
  hP.bind (hP.setLasttok _) fun _ => hP.pure _

theorem exppower_holds (hr : Parts P w r) : P (w.exppower r) := by
  have hloop (n : ℕ) (val : Int64) : P (w.exppowerLoop r n val) := by
    induction n generalizing val with
    | zero => exact hP.jump _
    | succ n ih =>
        refine hP.bind hP.read fun s => hP.ite (fun _ => ?_) fun _ => hP.pure _
        refine hP.bind (hP.readtok_holds hr) fun _ => hP.bind hr.exppower fun _ => ?_
        refine hP.bind (hP.setLasttok _) fun _ => hP.bind hP.read fun t => ?_
        refine hP.ite (fun _ => ?_) fun _ => ih _
        exact hP.ite (fun _ => hP.pure _) fun _ =>
          hP.ite (fun _ => hP.evalerror _) fun _ => ih _
  exact hP.bind (hP.expunary_holds hr) fun _ => hP.bind hP.read fun _ => hloop _ _

/-- A division is guarded by what was found about its operands. -/
theorem divide_holds {op : ExprToken} {a b : Int64} (hb : b ≠ 0)
    (hmin : ¬ (a = intmaxMin ∧ b = -1)) : P (divide op a b : ExprM Θ Int64) :=
  hP.bind (hP.emit (fun _ => ⟨hb, hmin⟩) rfl) fun _ => hP.pure _

/-- The binary operators: 1 stands in for a suppressed 0, and the quotient that overflows is
computed with 1, the remainder not at all. -/
theorem muldivStep_holds (stp : List Char) {op : ExprToken} (a b : Int64)
    (hop : op = .char '*' ∨ op = .char '/' ∨ op = .char '%') :
    P (muldivStep stp op a b : ExprM Θ Int64) := by
  have hone : ¬ (a = intmaxMin ∧ (1 : Int64) = -1) := fun h => absurd h.2 (by decide)
  refine hP.bind hP.read fun s => ?_
  refine hP.ite (fun _ => hP.bind (hP.setLasttok _) fun _ => hP.pure _)
    fun hmul => ?_
  refine hP.ite (fun hzero => ?_) fun hzero => ?_
  · refine hP.ite (fun _ => ?_) fun _ => ?_
    · exact hP.bind (hP.setContext _) fun _ => hP.evalerror _
    · exact hP.bind (hP.divide_holds (by decide) hone) fun _ =>
        hP.bind (hP.setLasttok _) fun _ => hP.pure _
  · refine hP.ite (fun _ => hP.pure _) fun hmod => ?_
    refine hP.bind ?_ fun _ => hP.bind (hP.setLasttok _) fun _ => hP.pure _
    split_ifs with hdiv
    · exact hP.divide_holds (by decide) hone
    · refine hP.divide_holds hzero fun hmin => ?_
      rcases hop with hop | hop | hop
      · exact hmul hop
      · exact hdiv ⟨hop, hmin⟩
      · exact hmod ⟨hop, hmin⟩

theorem expmuldiv_holds (hr : Parts P w r) : P (w.expmuldiv r) := by
  have hloop (n : ℕ) (val : Int64) : P (w.expmuldivLoop r n val) := by
    induction n generalizing val with
    | zero => exact hP.jump _
    | succ n ih =>
        refine hP.bind hP.read fun s => hP.ite (fun hop => ?_) fun _ => hP.pure _
        refine hP.bind (hP.readtok_holds hr) fun _ => ?_
        refine hP.bind (hP.exppower_holds hr) fun _ => ?_
        exact hP.bind (hP.muldivStep_holds _ _ _ hop) fun _ => ih _
  exact hP.bind (hP.exppower_holds hr) fun _ => hP.bind hP.read fun _ => hloop _ _

theorem shift_holds (left : Bool) (a n : Int64) : P (shift left a n : ExprM Θ Int64) :=
  hP.bind (hP.emit nofun rfl) fun _ => hP.pure _

theorem expshift_holds (hr : Parts P w r) : P (w.expshift r) := by
  have hadd : P (w.expaddsub r) :=
    hP.binaryLevel_holds hr (hP.expmuldiv_holds hr) _ (hP.numStep_holds _)
  refine hP.binaryLevel_holds hr hadd _ fun _ _ _ => ?_
  exact hP.bind (hP.shift_holds _ _ _) fun _ =>
    hP.bind (hP.setLasttok _) fun _ => hP.pure _

theorem expbor_holds (hr : Parts P w r) : P (w.expbor r) := by
  have hcompare : P (w.expcompare r) :=
    hP.binaryLevel_holds hr (hP.expshift_holds hr) _ (hP.numStep_holds _)
  have heq : P (w.expeq r) := hP.binaryLevel_holds hr hcompare _ (hP.numStep_holds _)
  have hand : P (w.expband r) := hP.binaryLevel_holds hr heq _ (hP.numStep_holds _)
  have hxor : P (w.expbxor r) := hP.binaryLevel_holds hr hand _ (hP.numStep_holds _)
  exact hP.binaryLevel_holds hr hxor _ (hP.numStep_holds _)

theorem explor_holds (hr : Parts P w r) : P (w.explor r) :=
  hP.logicalLevel_holds hr (hP.logicalLevel_holds hr (hP.expbor_holds hr) _ _ _) _ _ _

/-! ## Conditionals, assignments, and lists -/

theorem expcond_holds (hr : Parts P w r) : P (w.expcond r) := by
  have htok := hP.readtok_holds hr
  refine hP.bind (hP.explor_holds hr) fun cval => hP.bind hP.read fun s => ?_
  refine hP.ite (fun _ => hP.pure _) fun _ => ?_
  dsimp only
  refine hP.bind (hP.addNoeval _) fun _ => hP.bind htok fun _ => ?_
  refine hP.bind hP.read fun t => hP.ite (fun _ => hP.evalerror _) fun _ => ?_
  refine hP.bind hr.lowest fun val1 => hP.bind (hP.addNoeval _) fun _ => ?_
  refine hP.bind hP.read fun t => hP.ite (fun _ => hP.evalerror _) fun _ => ?_
  refine hP.bind (hP.addNoeval _) fun _ => hP.bind htok fun _ => ?_
  refine hP.bind hP.read fun t => hP.ite (fun _ => hP.evalerror _) fun _ => ?_
  refine hP.bind hr.expcond fun val2 => hP.bind (hP.addNoeval _) fun _ => ?_
  exact hP.bind (hP.setLasttok _) fun _ => hP.pure _

/-- The assignment operators have guards of their own. -/
theorem assignOperation_holds (op : ExprToken) (a b : Int64) :
    P (assignOperation op a b : ExprM Θ Int64) := by
  refine hP.bind hP.read fun s => ?_
  refine hP.ite (fun _ => hP.evalerror _) fun _ => ?_
  have hdivide (hop : op = .char '/' ∨ op = .char '%') (value : Int64)
      (hvalue : value = if (op = .char '/' ∨ op = .char '%') ∧ b = 0 then 1 else b) :
      P (if a = intmaxMin ∧ value = -1 then
          return if op = .char '/' then intmaxMin else 0
        else divide op a value : ExprM Θ Int64) := by
    refine hP.ite (fun _ => hP.pure _) fun hmin => hP.divide_holds ?_ hmin
    rw [hvalue]
    split_ifs with hzero
    · decide
    · exact fun hb => hzero ⟨hop, hb⟩
  dsimp only
  split
  · exact hP.pure _
  · exact hdivide (.inl rfl) _ rfl
  · exact hdivide (.inr rfl) _ rfl
  · exact hP.pure _
  · exact hP.pure _
  · exact hP.shift_holds _ _ _
  · exact hP.shift_holds _ _ _
  · exact hP.pure _
  · exact hP.pure _
  · exact hP.pure _
  · exact hP.evalerror _

theorem expassign_holds (hr : Parts P w r) : P (w.expassign r) := by
  refine hP.bind (hP.expcond_holds hr) fun lvalue => hP.bind hP.read fun s => ?_
  refine hP.ite (fun _ => ?_) fun _ => hP.pure _
  refine hP.ite (fun _ => hP.evalerror _) fun _ => ?_
  split
  · exact hP.evalerror _
  · refine hP.bind (hP.copyString_holds _) fun lhs => ?_
    refine hP.bind (hP.readtok_holds hr) fun _ => hP.bind hr.expassign fun rhs => ?_
    refine hP.bind (hP.ite (fun _ => hP.assignOperation_holds _ _ _) fun _ => hP.pure _)
      fun value => ?_
    refine hP.bind (hr.assigned _ _ _) fun _ => ?_
    exact hP.bind (hP.setContext _) fun _ =>
      hP.bind (hP.setContext _) fun _ => hP.pure _

theorem expcomma_holds (hr : Parts P w r) : P (w.expcomma r) := by
  have hloop (n : ℕ) (val : Int64) : P (w.expcommaLoop r n val) := by
    induction n generalizing val with
    | zero => exact hP.jump _
    | succ n ih =>
        refine hP.bind hP.read fun s => hP.ite (fun _ => ?_) fun _ => hP.pure _
        exact hP.bind (hP.readtok_holds hr) fun _ =>
          hP.bind (hP.expassign_holds hr) fun _ => ih _
  exact hP.bind (hP.expassign_holds hr) fun _ => hP.bind hP.read fun _ => hloop _ _

end Judgment

end Rash
