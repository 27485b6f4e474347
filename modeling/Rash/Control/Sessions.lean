import Rash.Control.ExecutorAgrees

/-!
# Sessions of the reader loop

While no command of a session leaks, `reader_loop` starts each one outside every loop, and what it
comes to is what the commands mean one after the other.  After a leak one `break` is enough for the
rest of the session to be skipped.
-/

namespace Rash

namespace CommandTree

variable {σ W : Type}

/-- Where `reader_loop` starts a command -/
def Place.top : Place := ⟨0, 0, 0⟩

/-- What the reader loop goes on with behind a jump, or that it ends; `none` where a loop or a
function is still counted. -/
def jumpMeaning (sh : Shell σ W) (b : Ambient σ) : Escape → ℕ → ℕ → Signal →
    Option (LoopAction × Ambient σ)
  | .nearest code, loops, functions, signal =>
      let caught := readerLoopCaught sh.subshellEnvironment code b.lastCommandExitValue
      if caught.1 = .leave ∨ (loops = 0 ∧ functions = 0 ∧ signal = .none) then
        some (caught.1, { b with lastCommandExitValue := caught.2 })
      else none
  | .cleaned code, _, _, _ =>
      let caught := readerLoopCaught sh.subshellEnvironment code b.lastCommandExitValue
      some (caught.1, { b with lastCommandExitValue := caught.2 })
  | _, _, _, _ => some (.leave, b)

/-- What the commands of a session mean one after the other: the states in which they start, and
the last one; `none` where one leaks. -/
def sessionMeaning (sh : Shell σ W) (fuel : ℕ) : List (Command W) → Ambient σ →
    Option (List (Ambient σ))
  | [], a => some [a]
  | command :: rest, a =>
      match meaning sh fuel .top command a with
      | (.ok _, b) => (sessionMeaning sh fuel rest b).map (a :: ·)
      | (.error (.left escape loops functions signal), b) =>
          match jumpMeaning sh b escape loops functions signal with
          | some (.nextCommand, b) => (sessionMeaning sh fuel rest b).map (a :: ·)
          | some (.leave, _) => some [a]
          | none => none
      | (.error .leaked, _) => none

/-! ## Sessions that do not leak -/

theorem readerCaught_jumpMeaning {sh : Shell σ W} {escape : Escape} {loops functions : ℕ}
    {signal : Signal} {b c : Ambient σ} {action : LoopAction}
    (h : jumpMeaning sh b escape loops functions signal = some (action, c)) :
    (readerCaught sh escape (control (Place.top.at loops functions) signal b)).1 = action ∧
      (action = .nextCommand →
        (readerCaught sh escape (control (Place.top.at loops functions) signal b)).2 =
          control .top .none c) := by
  cases escape with
  | nearest code =>
      simp only [jumpMeaning] at h
      split at h
      · next hsafe =>
        simp only [Option.some.injEq, Prod.mk.injEq] at h
        obtain ⟨rfl, rfl⟩ := h
        refine ⟨rfl, fun hnext => ?_⟩
        obtain hleave | ⟨rfl, rfl, rfl⟩ := hsafe
        · rw [hleave] at hnext
          cases hnext
        · rfl
      · cases h
  | cleaned code =>
      simp only [jumpMeaning, Option.some.injEq, Prod.mk.injEq] at h
      obtain ⟨rfl, rfl⟩ := h
      exact ⟨rfl, fun _ => rfl⟩
  | returned value =>
      simp only [jumpMeaning, Option.some.injEq, Prod.mk.injEq] at h
      obtain ⟨rfl, rfl⟩ := h
      exact ⟨rfl, nofun⟩
  | outOfFuel =>
      simp only [jumpMeaning, Option.some.injEq, Prod.mk.injEq] at h
      obtain ⟨rfl, rfl⟩ := h
      exact ⟨rfl, nofun⟩

/-- A shell that writes down its simple commands; `break` and `continue` leave one loop. -/
def traceShell : Shell (List String) String where
  leaf words := fun a =>
    let b := { a with world := words :: a.world }
    (.ok (if words = "break" then .breakLoops 1 else if words = "continue" then .continueLoops 1
      else .status executionSuccess), b)
  asyncCommand _ := pure ()
  checkIdentifier _ := pure true
  forWords _ := pure ["a", "b"]
  selectWords _ := pure []
  bindLoop _ _ := pure true
  selectQuery _ := pure none
  caseWord word := pure word
  caseMatch pattern word := pure (pattern = word)
  arith _ := pure none
  leaveFunction world := world
  subshellEnvironment := false
  functionsHideLoops := true

theorem readerLoop_flagged (sh : Shell σ W) (fuel : ℕ) (commands : List (Command W))
    {s : Control σ} (h : s.Flagged) :
    readerLoop sh fuel commands s = List.replicate (commands.length + 1) s := by
  induction commands with
  | nil => rfl
  | cons command rest ih =>
      unfold readerLoop
      rw [executeCommand_flagged sh fuel command h, List.length_cons, List.replicate_succ]
      exact congrArg _ ih

theorem breakBuiltin_flags {s : Control σ} (hlevel : s.loopLevel ≠ 0) (n : Int) :
    ∃ status t, breakBuiltin n s = (.ok status, t) ∧ t.breaking ≠ 0 := by
  have hrun : breakBuiltin n s = _ := if_neg hlevel
  rw [hrun]
  by_cases hn : n ≤ 0
  · rw [if_pos hn]
    exact ⟨_, _, rfl, hlevel⟩
  · rw [if_neg hn]
    refine ⟨_, _, rfl, ?_⟩
    change min n.toNat s.loopLevel ≠ 0
    omega

theorem executeCommand_break (sh : Shell σ W) (fuel : ℕ) {words : W} {s : Control σ}
    {d : Ambient σ} {n : Int} (hflags : ¬s.Flagged) (hlevel : s.loopLevel ≠ 0)
    (hbreak : sh.leaf words s.toAmbient = (.ok (.breakLoops n), d)) (invert : Bool) :
    ∃ status t, executeCommand sh (fuel + 1) (.command invert (.leaf words)) s =
      (.ok status, t) ∧ t.Flagged := by
  obtain ⟨status, t, hrun, ht⟩ :=
    breakBuiltin_flags (s := { s with toAmbient := d }) hlevel n
  have houtside : outside (sh.leaf words) s =
      (.ok (.breakLoops n), { s with toAmbient := d }) := by
    simp only [outside, hbreak]
  have hleaf : executeValue sh (executeCommand sh fuel) fuel (.leaf words) s =
      (.ok status, t) := by
    change executeLeaf sh (executeCommand sh fuel) words s = _
    unfold executeLeaf
    rw [Act.bind_of_ok houtside]
    exact hrun
  rw [executeCommand_unflagged sh fuel invert _ hflags, Act.bind_of_ok hleaf]
  exact ⟨_, _, rfl, Or.inl ht⟩

/-- The loop of an empty `select` stays counted. -/
theorem executeCommand_emptySelect (sh : Shell σ W) (fuel : ℕ) (head : W) (action : Command W)
    {a b c : Ambient σ} (hname : sh.checkIdentifier head a = (.ok true, b))
    (hlist : sh.selectWords head b = (.ok [], c)) :
    executeCommand sh (fuel + 1) (.command false (.selectCom head action))
      (control .top .none a) = (.ok executionSuccess,
        control Place.top.inLoop .none { c with lastCommandExitValue := executionSuccess }) := by
  have hvalid : outside (sh.checkIdentifier head) (control .top .none a) =
      (.ok true, control .top .none b) := by
    simp [outside, control, hname]
  have hwords : outside (sh.selectWords head) (control Place.top.inLoop .none b) =
      (.ok [], control Place.top.inLoop .none c) := by
    simp [outside, control, hlist]
  have hselect : executeValue sh (executeCommand sh fuel) fuel (.selectCom head action)
      (control .top .none a) = (.ok executionSuccess, control Place.top.inLoop .none c) := by
    change executeSelect sh (executeCommand sh fuel) fuel head action _ = _
    unfold executeSelect
    rw [Act.bind_of_ok hvalid, if_pos rfl, Act.bind_of_ok (enterLoop_control .top b),
      Act.bind_of_ok hwords]
    rfl
  rw [executeCommand_unflagged sh fuel false _ (control_unflagged .top a),
    Act.bind_of_ok hselect]
  rfl

/-- A `select` over no words leaves `loop_level` raised, so a `break` behind it, outside every
loop, is obeyed; no loop ever takes it back, and the rest of the session is skipped. -/
theorem emptySelect_silences (sh : Shell σ W) (fuel : ℕ) (head words : W) (action : Command W)
    (rest : List (Command W)) {a b c d : Ambient σ} {n : Int}
    (hname : sh.checkIdentifier head a = (.ok true, b))
    (hlist : sh.selectWords head b = (.ok [], c))
    (hbreak : sh.leaf words { c with lastCommandExitValue := executionSuccess } =
      (.ok (.breakLoops n), d)) :
    ∃ s t : Control σ, t.Flagged ∧
      readerLoop sh (fuel + 1) (.command false (.selectCom head action) ::
        .command false (.leaf words) :: rest) (control .top .none a) =
        control .top .none a :: s :: List.replicate (rest.length + 1) t := by
  obtain ⟨status, t, hrun, ht⟩ := executeCommand_break sh fuel
    (s := control Place.top.inLoop .none { c with lastCommandExitValue := executionSuccess })
    (control_unflagged _ _) (Nat.succ_ne_zero 0) hbreak false
  refine ⟨control Place.top.inLoop .none { c with lastCommandExitValue := executionSuccess }, t,
    ht, ?_⟩
  unfold readerLoop
  rw [executeCommand_emptySelect sh fuel head action hname hlist]
  dsimp only
  unfold readerLoop
  rw [hrun]
  dsimp only
  rw [readerLoop_flagged sh (fuel + 1) rest ht]

theorem emptySelect_silences_trace :
    ∃ s t : Control (List String), t.Flagged ∧
      readerLoop traceShell 1 [.command false (.selectCom "x" .null),
        .command false (.leaf "break"), .command false (.leaf "never")]
        (control .top .none ⟨[], 0⟩) =
        control .top .none ⟨[], 0⟩ :: s :: List.replicate 2 t :=
  emptySelect_silences traceShell 0 "x" "break" .null [.command false (.leaf "never")]
    (b := ⟨[], 0⟩) (c := ⟨[], 0⟩) (d := ⟨["break"], 0⟩) (n := 1) (by rfl) (by rfl) (by rfl)

end CommandTree

end Rash
