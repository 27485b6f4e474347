import Rash.Control.Signals

/-!
# The executor's flags are signals

Run from a place with a standing signal, the executor comes to the encoding of the meaning of the
command, unless that leaks.  There is one rule for each way in which commands are put together.
-/

namespace Rash

namespace CommandTree

variable {σ W α : Type}

/-! ## The encoding -/

def control (place : Place) (signal : Signal) (a : Ambient σ) : Control σ where
  toAmbient := a
  breaking := signal.breaking
  continuing := signal.continuing
  loopLevel := place.loops
  returnCatchFlag := place.functions
  parseAndExecuteLevel := place.evals

/-- The place where a jump stands -/
def Place.at (place : Place) (loops functions : ℕ) : Place :=
  { place with loops, functions }

def Escape.Returns : Escape → Prop
  | .returned _ => True
  | _ => False

/-- What the executor comes to where the meaning does, with a signal for at most `bound` loops.  A
`return` is under no signal, and nothing is said of a leak. -/
def Encodes {β : Type} (place : Place) (bound : ℕ) (view : β → α × Signal) :
    Except Halt β × Ambient σ → Except Escape α × Control σ → Prop
  | (.ok x, b), result =>
      result = (.ok (view x).1, control place (view x).2 b) ∧ (view x).2.depth ≤ bound
  | (.error (.left escape loops functions signal), b), result =>
      result = (.error escape, control (place.at loops functions) signal b) ∧
        (escape.Returns → signal = .none)
  | (.error .leaked, _), _ => True

def Agrees {β : Type} (place : Place) (bound : ℕ) (signal : Signal) (view : β → α × Signal)
    (run : Run σ α) (m : Meaning σ β) : Prop :=
  ∀ a, Encodes place bound view (m a) (run (control place signal a))

abbrev Answer.view (answer : Answer) : Status × Signal := (answer.status, answer.signal)

/-- The executor's part from a standing signal on, and its meaning -/
abbrev FollowsFrom (place : Place) (bound : ℕ) (signal : Signal) (run : Run σ Status)
    (m : Meaning σ Answer) : Prop :=
  Agrees place bound signal Answer.view run m

abbrev Follows (place : Place) (bound : ℕ) (run : Run σ Status) (m : Meaning σ Answer) : Prop :=
  FollowsFrom place bound .none run m

/-- What changes no signal -/
abbrev Part (place : Place) (bound : ℕ) (signal : Signal) (run : Run σ α) (m : Meaning σ α) :
    Prop :=
  Agrees place bound signal (fun x => (x, signal)) run m

theorem Part.bind {β γ : Type} {place : Place} {bound : ℕ} {signal : Signal}
    {view : γ → β × Signal} {run : Run σ α} {m : Meaning σ α} {k : α → Run σ β}
    {k' : α → Meaning σ γ} (h : Part place bound signal run m)
    (hk : ∀ x, Agrees place bound signal view (k x) (k' x)) :
    Agrees place bound signal view (run >>= k) (m >>= k') := by
  intro a
  have hrun := h a
  rcases hm : m a with ⟨(⟨escape, loops, functions, signal'⟩ | _) | x, b⟩
  · rw [hm] at hrun
    rw [Act.bind_of_error hm, Act.bind_of_error hrun.1]
    exact ⟨rfl, hrun.2⟩
  · rw [Act.bind_of_error hm]
    trivial
  · rw [hm] at hrun
    rw [Act.bind_of_ok hm, Act.bind_of_ok hrun.1]
    exact hk x b

theorem part_pure {place : Place} {bound : ℕ} {signal : Signal} (h : signal.depth ≤ bound) (x : α) :
    Part place bound signal (pure x : Run σ α) (pure x) := fun _ => ⟨rfl, h⟩

theorem part_expand {place : Place} {bound : ℕ} {signal : Signal} (h : signal.depth ≤ bound)
    (f : Act (Ambient σ) Throw α) :
    Part place bound signal (outside f) (expand place signal f) := by
  intro a
  rcases hf : f a with ⟨throw | x, b⟩
  · have hreturns : ¬(throw.escape place.evals).Returns := by
      cases throw with
      | expansion code => by_cases h : place.evals = 0 <;> simp [Throw.escape, Escape.Returns, h]
      | jump code => exact not_false
      | interrupt code => exact not_false
    simpa [Encodes, expand, outside, control, Place.halt, Place.at, hf] using
      fun h => (hreturns h).elim
  · simpa [Encodes, expand, outside, control, hf] using h

/-- An expansion before any signal -/
theorem Agrees.expand {β γ : Type} {place : Place} {bound : ℕ} {view : γ → β × Signal}
    (f : Act (Ambient σ) Throw α) {k : α → Run σ β} {k' : α → Meaning σ γ}
    (hk : ∀ x, Agrees place bound .none view (k x) (k' x)) :
    Agrees place bound .none view (outside f >>= k) (expand place .none f >>= k') :=
  (part_expand (Nat.zero_le bound) f).bind hk

theorem follows_done (place : Place) (bound : ℕ) (status : Status) :
    Follows place bound (pure status : Run σ Status) (done status) :=
  fun _ => ⟨rfl, Nat.zero_le bound⟩

/-! ## Lists and turns -/

def Control.Flagged (s : Control σ) : Prop := s.breaking ≠ 0 ∨ s.continuing ≠ 0

theorem control_flagged {place : Place} {signal : Signal} {a : Ambient σ} (h : signal ≠ .none) :
    (control place signal a).Flagged := signal.set_iff.mpr h

theorem control_unflagged (place : Place) (a : Ambient σ) :
    ¬(control place .none a).Flagged := fun h => (Signal.set_iff .none).mp h rfl

theorem executeCommand_flagged (sh : Shell σ W) (fuel : ℕ) (command : Command W) {s : Control σ}
    (h : s.Flagged) :
    executeCommand sh fuel command s = (.ok s.lastCommandExitValue, s) := by
  unfold executeCommand
  exact if_pos h

theorem executeCommand_unflagged (sh : Shell σ W) (fuel : ℕ) (invert : Bool) (value : Value W)
    {s : Control σ} (h : ¬s.Flagged) :
    executeCommand sh (fuel + 1) (.command invert value) s =
      (do
        let execResult ← executeValue sh (executeCommand sh fuel) fuel value
        setLast (invertStatus invert execResult)
        pure (invertStatus invert execResult)) s := by
  have hstep : executeCommand sh (fuel + 1) (.command invert value) s = _ := if_neg h
  exact hstep

/-- Where an answer has a signal its status is `last_command_exit_value`. -/
def Recorded (m : Meaning σ Answer) : Prop :=
  ∀ a answer b, m a = (.ok answer, b) → answer.signal ≠ .none →
    b.lastCommandExitValue = answer.status

section Rules

variable {place : Place} {bound : ℕ} {run : Run σ Status} {m : Meaning σ Answer}
  {k : Status → Run σ Status} {k' : Status → Meaning σ Answer}

/-- What follows a command starts from its answer. -/
theorem FollowsFrom.bind {bound' : ℕ} {signal : Signal} {k'' : Answer → Meaning σ Answer}
    (h : FollowsFrom place bound' signal run m)
    (hk : ∀ answer : Answer, answer.signal.depth ≤ bound' →
      FollowsFrom place bound answer.signal (k answer.status) (k'' answer)) :
    FollowsFrom place bound signal (run >>= k) (m >>= k'') := by
  intro a
  have hrun := h a
  rcases hm : m a with ⟨(⟨escape, loops, functions, signal'⟩ | _) | answer, b⟩
  · rw [hm] at hrun
    rw [Act.bind_of_error hm, Act.bind_of_error hrun.1]
    exact ⟨rfl, hrun.2⟩
  · rw [Act.bind_of_error hm]
    trivial
  · rw [hm] at hrun
    rw [Act.bind_of_ok hm, Act.bind_of_ok hrun.1]
    exact hk answer hrun.2 b

theorem Follows.andThen (h : Follows place bound run m) (hm : Recorded m)
    (hk : ∀ status, Follows place bound (k status) (k' status))
    (hskip : ∀ s : Control σ, s.Flagged →
      k s.lastCommandExitValue s = (.ok s.lastCommandExitValue, s)) :
    Follows place bound (run >>= k) (CommandTree.andThen m k') := by
  intro a
  have hrun := h a
  rcases hm' : m a with ⟨(⟨escape, loops, functions, signal'⟩ | _) | ⟨status, signal⟩, b⟩
  · rw [hm'] at hrun
    rw [CommandTree.andThen, Act.bind_of_error hm', Act.bind_of_error hrun.1]
    exact ⟨rfl, hrun.2⟩
  · rw [CommandTree.andThen, Act.bind_of_error hm']
    trivial
  · rw [hm'] at hrun
    rw [CommandTree.andThen, Act.bind_of_ok hm', Act.bind_of_ok hrun.1]
    by_cases hsignal : signal = .none
    · subst hsignal
      rw [if_pos rfl]
      exact hk status b
    · have hlast : (control place signal b).lastCommandExitValue = status :=
        hm a _ b hm' hsignal
      have hskipped := hskip (control place signal b) (control_flagged hsignal)
      rw [hlast] at hskipped
      rw [if_neg hsignal]
      exact ⟨hskipped, hrun.2⟩

theorem loopGoesOn_control (place : Place) (signal : Signal) (a : Ambient σ) :
    loopGoesOn (control place signal a) =
      (.ok signal.goesOn, control place signal.lower a) := by
  rcases signal with _ | ⟨_ | n⟩ | ⟨_ | n⟩ <;> rfl

theorem endOfTest_control (place : Place) (signal : Signal) (a : Ambient σ) :
    endOfTest (control place signal a) = (.ok (), control place signal.lower a) := by
  simp [endOfTest, control]

theorem FollowsFrom.turn {signal : Signal} (h : FollowsFrom place (bound + 1) signal run m)
    (hk : ∀ status, Follows place bound (k status) (k' status)) :
    FollowsFrom place bound signal
      (run >>= fun status => loopGoesOn >>= fun on =>
        if on = true then k status else pure status) (CommandTree.turn m k') := by
  intro a
  have hrun := h a
  rcases hm' : m a with ⟨(⟨escape, loops, functions, signal'⟩ | _) | ⟨status, signal⟩, b⟩
  · rw [hm'] at hrun
    rw [CommandTree.turn, Act.bind_of_error hm', Act.bind_of_error hrun.1]
    exact ⟨rfl, hrun.2⟩
  · rw [CommandTree.turn, Act.bind_of_error hm']
    trivial
  · rw [hm'] at hrun
    obtain ⟨hresult, hdepth⟩ := hrun
    rw [CommandTree.turn, Act.bind_of_ok hm', Act.bind_of_ok hresult,
      Act.bind_of_ok (loopGoesOn_control place signal b)]
    by_cases hon : signal.goesOn = true
    · rw [if_pos hon, if_pos hon, Signal.lower_of_goesOn hon]
      exact hk status b
    · rw [if_neg hon, if_neg hon]
      refine ⟨rfl, ?_⟩
      rw [Signal.lower_depth]
      exact Nat.sub_le_of_le_add hdepth

theorem enterLoop_control (place : Place) (a : Ambient σ) :
    (enterLoop : Run σ Unit) (control place .none a) = (.ok (), control place.inLoop .none a) :=
  rfl

/-- The raised `loop_level` of a loop is the meaning's place. -/
theorem Follows.leaving (h : Follows place.inLoop bound run m) (a : Ambient σ) :
    Encodes place bound Answer.view (m a)
      ((do let status ← run; leaveLoop; pure status) (control place.inLoop .none a)) := by
  have hrun := h a
  rcases hm' : m a with ⟨(⟨escape, loops, functions, signal'⟩ | _) | answer, b⟩
  · rw [hm'] at hrun
    rw [Act.bind_of_error hrun.1]
    exact ⟨rfl, hrun.2⟩
  · trivial
  · rw [hm'] at hrun
    rw [Act.bind_of_ok hrun.1]
    exact ⟨rfl, hrun.2⟩

theorem Follows.inLoop (h : Follows place.inLoop bound run m) :
    Follows place bound (do enterLoop; let status ← run; leaveLoop; pure status) m := by
  intro a
  rw [Act.bind_of_ok (enterLoop_control place a)]
  exact h.leaving a

end Rules

end CommandTree

end Rash
