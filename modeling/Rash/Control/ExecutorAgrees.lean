import Rash.Control.SignalsAgree
import Mathlib.Data.Nat.Basic
import Mathlib.Order.Basic

/-!
# The executor comes to the meaning of its command

One lemma for each compound command, over an executor `run` of its parts; the executor itself
follows by induction on the fuel.
-/

namespace Rash

namespace CommandTree

variable {σ W : Type}

/-- An executor of commands that follows their meaning -/
structure Executes (run : Command W → Run σ Status) (mean : Place → Command W → Meaning σ Answer) :
    Prop where
  follows : ∀ place command, Follows place place.loops (run command) (mean place command)
  recorded : ∀ place command, Recorded (mean place command)
  skips : ∀ command (s : Control σ), s.Flagged → run command s = (.ok s.lastCommandExitValue, s)

namespace Executes

variable {sh : Shell σ W} {run : Command W → Run σ Status}
  {mean : Place → Command W → Meaning σ Answer}

/-! ## Lists and conditionals -/

theorem connection (h : Executes run mean) (place : Place) (connector : Connector)
    (first second : Command W) :
    Follows place place.loops (executeConnection sh run connector first second)
      (connectionMeaning sh (mean place) place connector first second) := by
  have hfirst := h.follows place first
  have hrecorded := h.recorded place first
  cases connector <;> simp only [executeConnection, connectionMeaning]
  case ampersand =>
      cases first with
      | null => exact follows_done place _ _
      | command invert value => exact Agrees.expand _ fun _ => h.follows place second
  case semicolon =>
      exact hfirst.andThen hrecorded (fun _ => h.follows place second) fun s hs =>
        h.skips second s hs
  case andAnd =>
      refine hfirst.andThen hrecorded (fun status => ?_) fun s hs => ?_
      · split
        · exact h.follows place second
        · exact follows_done place _ status
      · split
        · exact h.skips second s hs
        · rfl
  case orOr =>
      refine hfirst.andThen hrecorded (fun status => ?_) fun s hs => ?_
      · split
        · exact follows_done place _ status
        · exact h.follows place second
      · split
        · rfl
        · exact h.skips second s hs

theorem ifCom (h : Executes run mean) (place : Place) (test trueCase falseCase : Command W) :
    Follows place place.loops (executeIf run test trueCase falseCase)
      (ifMeaning (mean place) test trueCase falseCase) := by
  refine (h.follows place test).andThen (h.recorded place test) (fun status => ?_) fun s hs => ?_
  · split
    · exact h.follows place trueCase
    · exact h.follows place falseCase
  · split
    · exact h.skips trueCase s hs
    · exact h.skips falseCase s hs

/-! ## The clauses of a `case` -/

theorem matchClause_part (place : Place) {bound : ℕ} {signal : Signal} (h : signal.depth ≤ bound)
    (word : String) (patterns : List W) :
    Part place bound signal (matchClause sh word patterns)
      (clauseMatches sh place signal word patterns) := by
  induction patterns with
  | nil => exact part_pure h false
  | cons pattern rest ih =>
      refine (part_expand h _).bind fun found => ?_
      split
      · exact part_pure h true
      · exact ih

/-- A command behind an answer is skipped where that has a signal. -/
theorem behind (h : Executes run mean) (place : Place) {answer : Answer}
    (hdepth : answer.signal.depth ≤ place.loops) (command : Command W) :
    FollowsFrom place place.loops answer.signal (run command)
      (if answer.signal = .none then mean place command else skipped answer.signal) := by
  obtain ⟨status, signal⟩ := answer
  by_cases hsignal : signal = .none
  · subst hsignal
    rw [if_pos rfl]
    exact h.follows place command
  · rw [if_neg hsignal]
    intro a
    exact ⟨h.skips command _ (control_flagged hsignal), hdepth⟩

theorem clauses (h : Executes run mean) (place : Place) (word : String) (falls : Bool)
    (clauses : List (Clause W)) (answer : Answer) (hdepth : answer.signal.depth ≤ place.loops) :
    FollowsFrom place place.loops answer.signal
      (caseClauses sh run word falls clauses answer.status)
      (clausesMeaning sh (mean place) place word falls clauses answer) := by
  induction clauses generalizing falls answer with
  | nil => exact fun a => ⟨rfl, hdepth⟩
  | cons clause rest ih =>
      obtain ⟨patterns, ending, command⟩ := clause
      have hfound : Part place place.loops answer.signal
          (if falls = true then pure true else matchClause sh word patterns)
          (if falls = true then pure true
            else clauseMatches sh place answer.signal word patterns) := by
        split
        · exact part_pure hdepth true
        · exact matchClause_part place hdepth word patterns
      refine hfound.bind fun found => ?_
      split
      · refine (h.behind place hdepth command).bind fun answer' hdepth' => ?_
        cases ending with
        | leaveCase => exact fun a => ⟨rfl, hdepth'⟩
        | fallthrough => exact ih true answer' hdepth'
        | testNext => exact ih false answer' hdepth'
      · exact ih false answer hdepth

theorem caseCom (h : Executes run mean) (place : Place) (word : W) (list : List (Clause W)) :
    Follows place place.loops (executeCase sh run word list)
      (caseMeaning sh (mean place) place word list) :=
  Agrees.expand _ fun word =>
    h.clauses place word false list ⟨executionSuccess, .none⟩ (Nat.zero_le _)

/-! ## Loops -/

theorem forTurns (h : Executes run mean) (place : Place) (head : W) (action : Command W)
    (list : List String) (status : Status) :
    Follows place.inLoop place.loops (forLoop sh run head action list status)
      (CommandTree.forTurns sh (mean place.inLoop) place.inLoop head action list status) := by
  induction list generalizing status with
  | nil => exact follows_done _ _ status
  | cons word rest ih =>
      refine Agrees.expand _ fun bound => ?_
      split
      · exact (h.follows place.inLoop action).turn ih
      · exact follows_done _ _ _

theorem forCom (h : Executes run mean) (place : Place) (head : W) (action : Command W) :
    Follows place place.loops (executeFor sh run head action)
      (forMeaning sh mean place head action) := by
  refine Agrees.expand _ fun valid => ?_
  split
  · have hloop : Follows place.inLoop place.loops
        (outside (sh.forWords head) >>= fun list =>
          forLoop sh run head action list executionSuccess)
        (expand place.inLoop .none (sh.forWords head) >>= fun list =>
          CommandTree.forTurns sh (mean place.inLoop) place.inLoop head action list
            executionSuccess) :=
      Agrees.expand _ fun list => h.forTurns place head action list executionSuccess
    have hin := hloop.inLoop
    rw [Act.bind_assoc] at hin
    exact hin
  · exact follows_done place _ _

theorem whileTurns (h : Executes run mean) (place : Place) (isUntil : Bool)
    (test action : Command W) (fuel : ℕ) (status : Status) :
    Follows place.inLoop place.loops (whileLoop run isUntil test action fuel status)
      (CommandTree.whileTurns (mean place.inLoop) place.inLoop isUntil test action fuel
        status) := by
  induction fuel generalizing status with
  | zero => exact fun a => ⟨rfl, fun _ => rfl⟩
  | succ fuel ih =>
      refine (h.follows place.inLoop test).bind fun answer hdepth => ?_
      split
      · intro a
        rw [Act.bind_of_ok (endOfTest_control place.inLoop answer.signal a)]
        refine ⟨rfl, ?_⟩
        rw [Signal.lower_depth]
        exact Nat.sub_le_of_le_add hdepth
      · exact (h.behind place.inLoop hdepth action).turn ih

theorem whileCom (h : Executes run mean) (fuel : ℕ) (place : Place) (isUntil : Bool)
    (test action : Command W) :
    Follows place place.loops (executeWhileOrUntil run fuel isUntil test action)
      (CommandTree.whileTurns (mean place.inLoop) place.inLoop isUntil test action fuel
        executionSuccess) :=
  (h.whileTurns place isUntil test action fuel executionSuccess).inLoop

theorem arithTurns (h : Executes run mean) (place : Place) (test step : W) (action : Command W)
    (fuel : ℕ) (status : Status) :
    Follows place.inLoop place.loops (arithLoop sh run test step action fuel status)
      (CommandTree.arithTurns sh (mean place.inLoop) place.inLoop test step action fuel
        status) := by
  induction fuel generalizing status with
  | zero => exact fun a => ⟨rfl, fun _ => rfl⟩
  | succ fuel ih =>
      refine Agrees.expand _ fun value => ?_
      -- no signal stands behind the test
      have hgoes : ∀ (k : Run σ Status) (k' : Run σ Status) (m : Meaning σ Answer),
          Follows place.inLoop place.loops k m → Follows place.inLoop place.loops
            (loopGoesOn >>= fun on => if on = true then k else k') m := by
        intro k k' m hk a
        rw [Act.bind_of_ok (loopGoesOn_control place.inLoop .none a)]
        exact hk a
      apply hgoes
      cases value with
      | none => exact follows_done _ _ _
      | some value =>
          dsimp only
          split
          · exact follows_done _ _ status
          · refine (h.follows place.inLoop action).turn fun status => ?_
            refine Agrees.expand _ fun next => ?_
            cases next with
            | none => exact follows_done _ _ _
            | some _ => exact ih status

theorem arithFor (h : Executes run mean) (fuel : ℕ) (place : Place) (init test step : W)
    (action : Command W) :
    Follows place place.loops (executeArithFor sh run fuel init test step action)
      (arithForMeaning sh mean fuel place init test step action) := by
  refine Follows.inLoop (Agrees.expand _ fun value => ?_)
  cases value with
  | none => exact follows_done _ _ _
  | some _ => exact h.arithTurns place test step action fuel executionSuccess

theorem selectTurns (h : Executes run mean) (place : Place) (head : W) (action : Command W)
    (list : List String) (fuel : ℕ) :
    Follows place.inLoop place.loops (selectLoop sh run head action list fuel)
      (CommandTree.selectTurns sh (mean place.inLoop) place.inLoop head action list fuel) := by
  induction fuel with
  | zero => exact fun a => ⟨rfl, fun _ => rfl⟩
  | succ fuel ih =>
      refine Agrees.expand _ fun selection => ?_
      cases selection with
      | none => exact follows_done _ _ _
      | some selection =>
          refine Agrees.expand _ fun bound => ?_
          split
          · exact (h.follows place.inLoop action).turn fun _ => ih
          · exact follows_done _ _ _

theorem selectCom (h : Executes run mean) (fuel : ℕ) (place : Place) (head : W)
    (action : Command W) :
    Follows place place.loops (executeSelect sh run fuel head action)
      (selectMeaning sh mean fuel place head action) := by
  refine Agrees.expand _ fun valid => ?_
  split
  · intro a
    have hpart : Part place.inLoop place.loops .none (outside (sh.selectWords head))
        (expand place.inLoop .none (sh.selectWords head)) := part_expand (Nat.zero_le _) _
    have hwords := hpart a
    rw [Act.bind_of_ok (enterLoop_control place a)]
    rcases hm : expand place.inLoop .none (sh.selectWords head) a with
      ⟨(⟨escape, loops, functions, signal⟩ | _) | list, b⟩
    · rw [hm] at hwords
      rw [Act.bind_of_error hm, Act.bind_of_error hwords.1]
      exact ⟨rfl, hwords.2⟩
    · rw [Act.bind_of_error hm]
      trivial
    · rw [hm] at hwords
      rw [Act.bind_of_ok hm, Act.bind_of_ok hwords.1]
      by_cases hlist : list = []
      · rw [if_pos hlist]
        trivial
      · rw [if_neg hlist, if_neg hlist]
        exact (h.selectTurns place head action list fuel).leaving b
  · exact follows_done place _ _

/-! ## Builtins, functions and `eval` -/

theorem breaks (place : Place) (a : Ambient σ) (status : Status) {n : ℕ} (hn : n ≠ 0)
    (hle : n ≤ place.loops) :
    Encodes place place.loops Answer.view
      (.ok ⟨status, .brk (n - 1)⟩, a)
      (.ok status, { control place .none a with breaking := n }) := by
  refine ⟨?_, ?_⟩
  · simp [control, Signal.breaking, Signal.continuing, Nat.sub_add_cancel (Nat.pos_of_ne_zero hn)]
  · exact (Nat.sub_add_cancel (Nat.pos_of_ne_zero hn)).le.trans hle

theorem continues (place : Place) (a : Ambient σ) (status : Status) {n : ℕ} (hn : n ≠ 0)
    (hle : n ≤ place.loops) :
    Encodes place place.loops Answer.view
      (.ok ⟨status, .cont (n - 1)⟩, a)
      (.ok status, { control place .none a with continuing := n }) := by
  refine ⟨?_, ?_⟩
  · simp [control, Signal.breaking, Signal.continuing, Nat.sub_add_cancel (Nat.pos_of_ne_zero hn)]
  · exact (Nat.sub_add_cancel (Nat.pos_of_ne_zero hn)).le.trans hle

theorem breakLoops (place : Place) (n : Int) :
    Follows place place.loops (breakBuiltin n : Run σ Status) (breakMeaning place n) := by
  intro a
  unfold breakMeaning
  by_cases hloops : place.loops = 0
  · rw [if_pos hloops]
    exact ⟨if_pos hloops, Nat.zero_le _⟩
  · have hrun : (breakBuiltin n : Run σ Status) (control place .none a) = _ := if_neg hloops
    rw [if_neg hloops, hrun]
    by_cases hn : n ≤ 0
    · rw [if_pos hn, if_pos hn]
      exact breaks place a executionFailure hloops le_rfl
    · rw [if_neg hn, if_neg hn]
      exact breaks place a executionSuccess (by omega) (Nat.min_le_right n.toNat place.loops)

theorem continueLoops (place : Place) (n : Int) :
    Follows place place.loops (continueBuiltin n : Run σ Status) (continueMeaning place n) := by
  intro a
  unfold continueMeaning
  by_cases hloops : place.loops = 0
  · rw [if_pos hloops]
    exact ⟨if_pos hloops, Nat.zero_le _⟩
  · have hrun : (continueBuiltin n : Run σ Status) (control place .none a) = _ := if_neg hloops
    rw [if_neg hloops, hrun]
    by_cases hn : n ≤ 0
    · rw [if_pos hn, if_pos hn]
      exact breaks place a executionFailure hloops le_rfl
    · rw [if_neg hn, if_neg hn]
      exact continues place a executionSuccess (by omega) (Nat.min_le_right n.toNat place.loops)

theorem returnValue (place : Place) (n : Status) :
    Follows place place.loops (returnBuiltin n : Run σ Status) (returnMeaning place n) := by
  intro a
  unfold returnMeaning
  by_cases hfunctions : place.functions = 0
  · rw [if_pos hfunctions]
    exact ⟨if_pos hfunctions, Nat.zero_le _⟩
  · rw [if_neg hfunctions]
    exact ⟨if_neg hfunctions, fun _ => rfl⟩

theorem function (h : Executes run mean) (place : Place) (body : Command W) :
    Follows place place.loops (executeFunction sh run body)
      (functionMeaning sh mean place body) := by
  intro a
  have hinner : (place.inFunction sh).loops ≤ place.loops := by
    change (if sh.functionsHideLoops then 0 else place.loops) ≤ place.loops
    split
    · exact Nat.zero_le _
    · exact le_rfl
  have hrun := h.follows (place.inFunction sh) body a
  unfold functionMeaning executeFunction
  rw [show (control place .none a).enterFunction sh = control (place.inFunction sh) .none a from
    rfl]
  rcases hm : mean (place.inFunction sh) body a with
    ⟨(⟨escape, loops, functions, signal⟩ | _) | answer, b⟩
  · rw [hm] at hrun
    rw [hrun.1]
    cases escape with
    | returned value =>
        obtain rfl : signal = .none := hrun.2 trivial
        exact ⟨rfl, Nat.zero_le _⟩
    | nearest code =>
        dsimp only
        by_cases hevals : place.evals = 0
        · rw [if_pos hevals, if_pos (by exact hevals)]
          exact ⟨rfl, fun h => h.elim⟩
        · rw [if_neg hevals, if_neg (by exact hevals)]
          exact ⟨rfl, fun h => h.elim⟩
    | cleaned code => exact ⟨rfl, fun h => h.elim⟩
    | outOfFuel => exact ⟨rfl, fun h => h.elim⟩
  · trivial
  · rw [hm] at hrun
    rw [hrun.1]
    exact ⟨rfl, hrun.2.trans hinner⟩

theorem evaluateLoop_flagged (h : Executes run mean) (sh : Shell σ W) (commands : List (Command W)) {s : Control σ}
    (hs : s.Flagged) :
    evaluateLoop sh run commands s.lastCommandExitValue s = (.ok s.lastCommandExitValue, s) := by
  induction commands with
  | nil => rfl
  | cons command rest ih =>
      unfold evaluateLoop
      rw [h.skips command s hs]
      exact ih

theorem evalTurns (h : Executes run mean) (sh : Shell σ W) (place : Place) (commands : List (Command W))
    (status : Status) :
    Follows place place.loops (evaluateLoop sh run commands status)
      (CommandTree.evalTurns sh (mean place) place commands status) := by
  induction commands generalizing status with
  | nil => exact follows_done _ _ status
  | cons command rest ih =>
      intro a
      have hrun := h.follows place command a
      unfold evaluateLoop CommandTree.evalTurns
      rcases hm : mean place command a with
        ⟨(⟨escape, loops, functions, signal⟩ | _) | ⟨status', signal⟩, b⟩
      · rw [hm] at hrun
        rw [hrun.1]
        cases escape with
        | nearest code =>
            dsimp only
            rw [show (control (place.at loops functions) signal b).lastCommandExitValue =
              b.lastCommandExitValue from rfl]
            rcases parseAndExecuteCaught sh.subshellEnvironment code b.lastCommandExitValue with
              ⟨_ | _, last⟩
            · dsimp only
              by_cases hleak : loops = place.loops ∧ functions = place.functions ∧ signal = .none
              · obtain ⟨rfl, rfl, rfl⟩ := hleak
                rw [if_pos ⟨rfl, rfl, rfl⟩]
                exact ih last { b with lastCommandExitValue := last }
              · rw [if_neg hleak]
                trivial
            · exact ⟨rfl, hrun.2⟩
        | returned value => exact ⟨rfl, hrun.2⟩
        | cleaned code => exact ⟨rfl, fun h => h.elim⟩
        | outOfFuel => exact ⟨rfl, fun h => h.elim⟩
      · trivial
      · rw [hm] at hrun
        rw [hrun.1]
        by_cases hsignal : signal = .none
        · subst hsignal
          exact ih status' b
        · have hlast : (control place signal b).lastCommandExitValue = status' :=
            h.recorded place command a _ b hm hsignal
          have hflagged : (control place signal b).Flagged := control_flagged hsignal
          have hskipped := h.evaluateLoop_flagged sh rest hflagged
          rw [hlast] at hskipped
          dsimp only
          rw [if_neg hsignal]
          exact ⟨hskipped, hrun.2⟩

theorem evaluate (h : Executes run mean) (place : Place) (commands : List (Command W)) :
    Follows place place.loops (parseAndExecute sh run commands)
      (evalMeaning sh mean place commands) := by
  intro a
  have hrun := h.evalTurns sh place.inEval commands executionSuccess a
  unfold evalMeaning parseAndExecute
  dsimp only
  rw [show ({ control place .none a with
    parseAndExecuteLevel := (control place .none a).parseAndExecuteLevel + 1 } : Control σ) =
      control place.inEval .none a from rfl]
  rcases hm : CommandTree.evalTurns sh (mean place.inEval) place.inEval commands
    executionSuccess a with ⟨(⟨escape, loops, functions, signal⟩ | _) | answer, b⟩
  · rw [hm] at hrun
    rw [hrun.1]
    exact ⟨rfl, hrun.2⟩
  · trivial
  · rw [hm] at hrun
    rw [hrun.1]
    exact ⟨rfl, hrun.2⟩

theorem leaf (h : Executes run mean) (place : Place) (words : W) :
    Follows place place.loops (executeLeaf sh run words) (leafMeaning sh mean place words) := by
  refine Agrees.expand _ fun action => ?_
  cases action with
  | status n => exact follows_done _ _ n
  | breakLoops n => exact Executes.breakLoops place n
  | continueLoops n => exact Executes.continueLoops place n
  | returnValue n => exact Executes.returnValue place n
  | function body => exact h.function place body
  | evaluate commands => exact h.evaluate place commands

/-! ## The executor -/

theorem value (h : Executes run mean) (sh : Shell σ W) (fuel : ℕ) (place : Place) (value : Value W) :
    Follows place place.loops (executeValue sh run fuel value)
      (valueMeaning sh mean fuel place value) := by
  cases value with
  | leaf words => exact h.leaf place words
  | connection connector first second => exact h.connection place connector first second
  | forCom head action => exact h.forCom place head action
  | arithFor init test step action => exact h.arithFor fuel place init test step action
  | selectCom head action => exact h.selectCom fuel place head action
  | caseCom word clauses => exact h.caseCom place word clauses
  | whileCom isUntil test action => exact h.whileCom fuel place isUntil test action
  | ifCom test trueCase falseCase => exact h.ifCom place test trueCase falseCase
  | group command => exact h.follows place command

end Executes

theorem meaning_recorded (sh : Shell σ W) (fuel : ℕ) (place : Place) (command : Command W) :
    Recorded (meaning sh fuel place command) := by
  intro a answer b hm hsignal
  cases command with
  | null =>
      simp only [meaning, done, Act.pure_run, Prod.mk.injEq, Except.ok.injEq] at hm
      obtain ⟨rfl, rfl⟩ := hm
      exact (hsignal rfl).elim
  | command invert value =>
      cases fuel with
      | zero => simp [meaning] at hm
      | succ fuel =>
          simp only [meaning] at hm
          rcases hv : valueMeaning sh (meaning sh fuel) fuel place value a with ⟨halt | answer', c⟩
          · rw [Act.bind_of_error hv] at hm
            simp at hm
          · rw [Act.bind_of_ok hv, Act.bind_of_ok (Act.modify_run _ c)] at hm
            simp only [Act.pure_run, Prod.mk.injEq, Except.ok.injEq] at hm
            obtain ⟨rfl, rfl⟩ := hm
            rfl

theorem executeCommand_null (sh : Shell σ W) (fuel : ℕ) (place : Place) :
    Follows place place.loops (executeCommand sh fuel .null) (meaning sh fuel place .null) := by
  intro a
  cases fuel <;> exact ⟨rfl, Nat.zero_le _⟩

/-- The executor with fuel for one command more -/
theorem executeCommand_command {sh : Shell σ W} {fuel : ℕ}
    (h : Executes (executeCommand sh fuel) (meaning sh fuel)) (place : Place) (invert : Bool)
    (value : Value W) :
    Follows place place.loops (executeCommand sh (fuel + 1) (.command invert value))
      (meaning sh (fuel + 1) place (.command invert value)) := by
  intro a
  have hrun := h.value sh fuel place value a
  rw [executeCommand_unflagged sh fuel invert value (control_unflagged place a)]
  simp only [meaning]
  rcases hv : valueMeaning sh (meaning sh fuel) fuel place value a with
    ⟨(⟨escape, loops, functions, signal⟩ | _) | answer, b⟩
  · rw [hv] at hrun
    rw [Act.bind_of_error hv, Act.bind_of_error hrun.1]
    exact ⟨rfl, hrun.2⟩
  · rw [Act.bind_of_error hv]
    trivial
  · rw [hv] at hrun
    rw [Act.bind_of_ok hv, Act.bind_of_ok hrun.1]
    exact ⟨rfl, hrun.2⟩

theorem executeCommand_executes (sh : Shell σ W) (fuel : ℕ) :
    Executes (executeCommand sh fuel) (meaning sh fuel) := by
  induction fuel with
  | zero =>
      refine ⟨fun place command => ?_, meaning_recorded sh 0, executeCommand_flagged sh 0⟩
      cases command with
      | null => exact executeCommand_null sh 0 place
      | command invert value =>
          intro a
          refine ⟨?_, fun h => h.elim⟩
          simp [executeCommand, control, Signal.breaking, Signal.continuing, Place.at]
  | succ fuel ih =>
      refine ⟨fun place command => ?_, meaning_recorded sh (fuel + 1), executeCommand_flagged sh _⟩
      cases command with
      | null => exact executeCommand_null sh (fuel + 1) place
      | command invert value => exact executeCommand_command ih place invert value

end CommandTree

end Rash
