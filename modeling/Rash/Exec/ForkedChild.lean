import Rash.Exec.SimpleCommand
import Rash.Exec.StageAnswers

/-!
# The forked child of a simple command

What becomes of the process that `execute_simple_command` forks early, for a pipeline element
or an asynchronous command: it exits, it is replaced, or it jumps to a loop that leaves in a
subshell, unless the stage `dispatch` denies the command or a builtin other than `return`
jumps to the `return_catch` of the function around the command.
-/

namespace Rash

open Interaction Path Code

variable {σ Θ A B : Type}

/-- `SUBSHELL_FORK` is set. -/
def InChild (s : SimpleState σ Θ) : Prop := s.subshellEnvironment.fork = true

/-- The process left otherwise than to a `return_catch`. -/
def LeftChild (x : Leave) (s : SimpleState σ Θ) : Prop :=
  InChild s ∧ ∀ value, x ≠ .returnCatch value

/-- Code of the child that returns, or leaves the process. -/
abbrev Keeps (c : Code σ Θ A) : Prop := Preserves InChild LeftChild c

/-- Code of the child that never returns. -/
def Dies (c : Code σ Θ A) : Prop := Holds InChild c (fun _ _ => False) LeftChild

theorem Dies.bind {c : Code σ Θ A} {k : A → Code σ Θ B} (hc : Dies c) : Dies (c >>= k) :=
  Holds.bind hc fun _ _ h => h.elim

theorem Dies.keeps {c : Code σ Θ A} (hc : Dies c) : Keeps c :=
  Holds.mono hc (fun _ h => h) (fun _ _ h => h.elim) (fun _ _ h => h)

/-! ## The pieces of code -/

theorem keeps_callDeparts (f : Shell σ Θ → Except Departure A × Shell σ Θ) :
    Keeps (callDeparts f) := by
  intro s hs
  unfold callDeparts call
  dsimp only
  cases hf : f s.shell with
  | mk answer p =>
      cases answer with
      | ok a => exact hs
      | error d => exact ⟨hs, fun _ h => by cases h⟩

theorem keeps_quit (w : SimpleWorld σ Θ) : Keeps (quit w) := by
  intro s hs
  unfold Code.quit
  cases w.quit s.shell with
  | mk answer p =>
      cases answer with
      | ok a => exact hs
      | error d => exact ⟨hs, fun _ h => by cases h⟩

theorem keeps_always (f : Shell σ Θ → A × Shell σ Θ) : Keeps (always f) := fun _ h => h

theorem keeps_update (f : Shell σ Θ → Shell σ Θ) : Keeps (update f) := fun _ h => h

theorem keeps_onlyIf {P : Prop} [Decidable P] {c : Code σ Θ Unit} (hc : Keeps c) :
    Keeps (onlyIf P c) := preserves_ite hc (preserves_pure _)

theorem keeps_shell (f : Shell σ Θ → A) : Keeps (shell f) := fun _ h => h

theorem keeps_globals (f : ShellGlobals → A) : Keeps (globals f : Code σ Θ A) := fun _ h => h

theorem keeps_setGlobals (f : ShellGlobals → ShellGlobals) :
    Keeps (setGlobals f : Code σ Θ Unit) := fun _ h => h

theorem keeps_note (e : SimpleEvent) : Keeps (note e : Code σ Θ Unit) := fun _ h => h

theorem dies_depart (d : Departure) : Dies (depart d : Code σ Θ A) :=
  fun _ hs => ⟨hs, fun _ h => by cases h⟩

theorem dies_exit (status : Status) : Dies (Code.exit status : Code σ Θ A) :=
  dies_depart (.exit status)

theorem Asked.inChild {s s' : SimpleState σ Θ} {added : List SimpleEvent}
    (h : Asked s s' added) (hs : InChild s) : InChild s' := by
  unfold InChild
  rw [h.subshellEnvironment]
  exact hs

theorem Answered.inChild {kind : HookKind} {s s' : SimpleState σ Θ} {denied : Bool}
    (h : Answered kind s denied s') (hs : InChild s) : InChild s' := by
  obtain ⟨asked, added, hasked, rfl⟩ := h
  cases denied with
  | false => exact hasked.inChild hs
  | true => exact hasked.inChild hs

theorem keeps_doRedirections (w : SimpleWorld σ Θ) (redirects : List Redirect)
    (undoable : Bool) : Keeps (doRedirections w redirects undoable) := by
  intro s hs
  unfold doRedirections
  simp only
  cases (w.doRedirections redirects undoable s.shell).outcome with
  | ok a => exact hs
  | error d => exact ⟨hs, fun _ h => by cases h⟩

theorem keeps_rashStageApplySimpleRedirects (w : SimpleWorld σ Θ) (redirects : List Redirect)
    (undoable : Bool) : Keeps (rashStageApplySimpleRedirects w redirects undoable) := by
  unfold rashStageApplySimpleRedirects
  apply (preserves_step fun s hs =>
    (rashHooksRedirectPolicy_answered w.hookFiles w.lstat w.shellVariables redirects s).inChild
      hs).bind
  rintro ⟨denied, apply⟩
  refine preserves_ite (preserves_pure _) ?_
  refine (keeps_doRedirections w _ undoable).bind fun r => ?_
  refine preserves_ite (preserves_pure _) (preserves_ite ?_ (preserves_pure _))
  exact (keeps_update _).bind fun _ => preserves_pure _

theorem keeps_forkChild (w : SimpleWorld σ Θ) (async : Bool)
    (environment : SubshellEnvironment) (child : Code σ Θ Empty) :
    Keeps (forkChild w async environment child) := by
  intro s hs
  unfold forkChild
  cases hchild : w.makeChild false async s.shell with
  | mk answer parent =>
      cases answer with
      | ok _ => exact hs
      | error d => exact ⟨hs, fun _ h => by cases h⟩

theorem keeps_executeNullCommand (w : SimpleWorld σ Θ) (redirects : List Redirect)
    (pipeIn pipeOut : Int) (async : Bool) :
    Keeps (executeNullCommand w redirects pipeIn pipeOut async) := by
  unfold executeNullCommand
  refine (keeps_shell _).bind fun forks => preserves_ite ?_ ?_
  · refine (keeps_forkChild w async _ _).bind fun _ => ?_
    exact (keeps_update _).bind fun _ => preserves_pure _
  · refine (keeps_doRedirections w redirects true).bind fun r => ?_
    refine (keeps_update _).bind fun _ => (keeps_globals _).bind fun subst => ?_
    exact preserves_ite (preserves_pure _) (preserves_pure _)

theorem keeps_shellExecve (w : SimpleWorld σ Θ) (command : String) (args : List String) :
    Keeps (shellExecve w command args) := by
  unfold shellExecve
  refine (preserves_step fun s hs => ?_).bind fun denied => preserves_ite ?_ ?_
  · have hasked := onExecStage.ask_answered w.hookFiles (.exec command args) s
    unfold rashHooksOnExec
    simp only
    split
    · exact hasked.inChild hs
    · exact hasked.inChild hs
  · exact (keeps_globals _).bind fun last => preserves_pure _
  · refine (keeps_note _).bind fun _ => (keeps_always _).bind fun failed => ?_
    cases failed with
    | none => exact (dies_depart .exec).keeps
    | some status => exact preserves_pure status

theorem keeps_failedExec (w : SimpleWorld σ Θ) (exitValue : Status) :
    Keeps (execBuiltin.failedExec w exitValue) := by
  unfold execBuiltin.failedExec
  refine (preserves_reads _).bind fun environment => (keeps_globals _).bind fun interactive => ?_
  refine (keeps_globals _).bind fun execfail => preserves_ite ?_ ?_
  · exact (keeps_setGlobals _).bind fun _ => (dies_exit _).keeps
  · exact (keeps_update _).bind fun _ => preserves_pure _

theorem keeps_execBuiltin (w : SimpleWorld σ Θ) (list : List WordDesc) :
    Keeps (execBuiltin w list) := by
  unfold execBuiltin
  cases w.execOperands list with
  | error status => exact preserves_pure status
  | ok operands =>
      cases operands with
      | nil => exact (keeps_update _).bind fun _ => preserves_pure _
      | cons name args =>
          refine (keeps_globals _).bind fun restricted => preserves_ite (preserves_pure _) ?_
          refine Preserves.bind ?_ fun found => Preserves.bind ?_ fun exitValue => ?_
          · exact preserves_ite (preserves_pure _) (keeps_always _)
          · cases found with
            | none => exact (keeps_shell _).bind fun _ => preserves_pure _
            | some command =>
                refine (keeps_shell _).bind fun command => ?_
                refine (keeps_shellExecve w _ _).bind fun status => ?_
                exact (keeps_shell _).bind fun noexec => preserves_pure _
          · exact keeps_failedExec w exitValue

theorem keeps_executeFunction (w : SimpleWorld σ Θ) (name : String) (words : List WordDesc)
    (flags : CommandFlags) (subshell : Bool) :
    Keeps (executeFunction w name words flags subshell) := by
  unfold executeFunction
  refine (keeps_globals _).bind fun nested => preserves_ite ?_ ?_
  · exact (keeps_setGlobals _).bind fun _ => (dies_depart _).keeps
  · refine Preserves.bind (preserves_step fun s hs =>
      (rashHooksOnFunction_answered w.hookFiles name words s).inChild hs) fun denied => ?_
    refine preserves_ite (preserves_pure _) ?_
    exact (keeps_note _).bind fun _ => keeps_callDeparts _

theorem dies_diskCommandChild (w : SimpleWorld σ Θ) (words : List WordDesc)
    (redirects : List Redirect) (command : Option String) (pipeIn pipeOut : Int) :
    Dies (diskCommandChild w words redirects command pipeIn pipeOut : Code σ Θ A) := by
  unfold diskCommandChild
  refine (keeps_update _).bind_holds fun _ => ?_
  refine (keeps_rashStageApplySimpleRedirects w redirects false).bind_holds fun r => ?_
  refine holds_ite (fun _ => dies_exit _) fun _ => ?_
  cases command with
  | some command => exact (keeps_shellExecve w _ _).bind_holds fun status => dies_exit status
  | none =>
      refine (keeps_shell _).bind_holds fun hookf => ?_
      cases hookf with
      | none => exact dies_exit _
      | some hookf =>
          exact (keeps_executeFunction w _ _ _ _).bind_holds fun status => dies_exit status

/-- A disk command of the child is run in its place. -/
theorem dies_executeDiskCommand (w : SimpleWorld σ Θ) (words : List WordDesc)
    (redirects : List Redirect) (async : Bool) {flags : CommandFlags}
    (hnofork : flags.noFork = true) :
    Dies (executeDiskCommand w words redirects noPipe noPipe async flags) := by
  unfold executeDiskCommand
  simp only [hnofork, and_self, if_true]
  refine (keeps_globals _).bind_holds fun restricted => holds_ite (fun _ => ?_) fun _ => ?_
  · exact (keeps_setGlobals _).bind_holds fun _ => dies_exit _
  · refine (keeps_always _).bind_holds fun command => ?_
    refine (keeps_quit w).bind_holds fun _ => ?_
    refine Preserves.bind_holds ?_ fun _ =>
      dies_diskCommandChild w words redirects command noPipe noPipe
    exact fun s _ => rfl

/-! ## Builtins -/

/-- Code of the child that may also jump to a `return_catch`. -/
abbrev Stays (c : Code σ Θ A) : Prop := Preserves InChild (fun _ => InChild) c

theorem Keeps.stays {c : Code σ Θ A} (hc : Keeps c) : Stays c := hc.mono fun _ _ h => h.1

theorem stays_call (f : Shell σ Θ → Except Leave A × Shell σ Θ) : Stays (Code.call f) := by
  intro s hs
  unfold Code.call
  cases (f s.shell).1 with
  | ok a => exact hs
  | error x => exact hs

theorem stays_returnBuiltin (w : SimpleWorld σ Θ) (list : List WordDesc) :
    Stays (returnBuiltin w list) := by
  unfold returnBuiltin
  refine (keeps_shell _).stays.bind fun value => (keeps_globals _).stays.bind fun g => ?_
  cases value with
  | error status => exact preserves_pure _
  | ok value =>
      refine holds_ite (fun _ => preserves_pure _) fun _ => holds_ite (fun _ => ?_) fun _ => ?_
      · exact fun s hs => hs
      · exact preserves_pure _

theorem stays_callBuiltin (w : SimpleWorld σ Θ) (flags : CommandFlags) (subshell : Bool)
    (b : Builtin) (list : List WordDesc) : Stays (callBuiltin w flags subshell b list) := by
  induction list generalizing b with
  | nil =>
      cases b with
      | exec => exact (keeps_execBuiltin w []).stays
      | returnBuiltin => exact stays_returnBuiltin w []
      | builtin => exact preserves_pure _
      | _ => exact stays_call _
  | cons command list ih =>
      cases b with
      | exec => exact (keeps_execBuiltin w _).stays
      | returnBuiltin => exact stays_returnBuiltin w _
      | builtin =>
          unfold callBuiltin
          refine (keeps_shell _).stays.bind fun function => ?_
          cases function with
          | none => exact preserves_pure _
          | some b => exact ih b
      | _ => exact stays_call _

theorem keeps_enterNested (b : Builtin) (subshell : Bool) :
    Keeps (enterNested b subshell : Code σ Θ Unit) := by
  have hnested : ∀ f : ShellGlobals → ShellGlobals,
      Keeps (do setGlobals f; jumpToTopLevel .discard : Code σ Θ Unit) := fun f =>
    (keeps_setGlobals f).bind fun _ => (dies_depart _).keeps
  unfold enterNested
  refine preserves_ite (preserves_pure _) (preserves_ite ?_ (preserves_ite ?_ (preserves_pure _)))
  · exact (keeps_globals _).bind fun _ => preserves_ite (hnested _) (keeps_setGlobals _)
  · exact (keeps_globals _).bind fun _ => preserves_ite (hnested _) (keeps_setGlobals _)

theorem stays_executeBuiltin (w : SimpleWorld σ Θ) (b : Builtin) (words : List WordDesc)
    (flags : CommandFlags) (subshell : Bool) :
    Stays (executeBuiltin w b words flags subshell) := by
  unfold executeBuiltin
  refine Preserves.bind (preserves_step fun s hs =>
    (rashHooksOnBuiltin_answered w.hookFiles words s).inChild hs) fun denied => ?_
  refine preserves_ite (preserves_pure _) ?_
  refine (keeps_globals _).stays.bind fun saved => ?_
  refine (keeps_enterNested b subshell).stays.bind fun _ => ?_
  refine (keeps_setGlobals _).stays.bind fun _ => (keeps_note _).stays.bind fun _ => ?_
  refine (stays_callBuiltin w flags subshell b _).bind fun result => ?_
  exact (keeps_setGlobals _).stays.bind fun _ => preserves_pure _

theorem callBuiltin_return (w : SimpleWorld σ Θ) (flags : CommandFlags) (subshell : Bool)
    (list : List WordDesc) :
    callBuiltin w flags subshell .returnBuiltin list = returnBuiltin w list := by
  cases list <;> rfl

/-- Outside functions and scripts `return` only complains. -/
theorem returnBuiltin_outside (w : SimpleWorld σ Θ) (list : List WordDesc) :
    Preserves (fun s => s.shell.globals.returnCatchFlag = 0)
      (fun x _ => ∀ value, x ≠ .returnCatch value) (returnBuiltin w list) := by
  intro s hs
  unfold returnBuiltin
  simp only [shell, globals, reads_bind, id]
  cases w.getExitstat list s.shell with
  | error status => exact hs
  | ok value =>
      simp only [hs, ne_eq, not_true_eq_false, if_false]
      split
      · exact hs
      · exact hs

theorem executeBuiltin_return (w : SimpleWorld σ Θ) (words : List WordDesc)
    (flags : CommandFlags) :
    Preserves (fun s => s.shell.globals.returnCatchFlag = 0)
      (fun x _ => ∀ value, x ≠ .returnCatch value)
      (executeBuiltin w .returnBuiltin words flags true) := by
  unfold executeBuiltin
  refine Preserves.bind (preserves_step fun s hs => ?_) fun denied => ?_
  · obtain ⟨asked, added, hasked, hstage⟩ := rashHooksOnBuiltin_answered w.hookFiles words s
    have hglobals := hasked.globals
    rw [hstage]
    split
    · exact (congrArg _ hglobals).trans hs
    · exact (congrArg _ hglobals).trans hs
  · refine preserves_ite (preserves_pure _) (Preserves.bind (preserves_reads _) fun saved => ?_)
    refine Preserves.bind (preserves_pure _) fun _ => ?_
    refine Preserves.bind (fun s hs => hs) fun _ => Preserves.bind (fun s hs => hs) fun _ => ?_
    refine Preserves.bind ?_ fun _ => Preserves.bind (fun s hs => hs) fun _ => preserves_pure _
    rw [callBuiltin_return]
    exact returnBuiltin_outside w words.tail

/-! ## The builtin or function of a child -/

theorem dies_subshellExit (status : Status) : Dies (subshellExit status : Code σ Θ A) :=
  Preserves.bind_holds (keeps_setGlobals _) fun _ => dies_exit _

theorem dies_subshellCaught (code : JumpCode) : Dies (subshellCaught code : Code σ Θ A) := by
  unfold subshellCaught
  cases code with
  | exitProg => exact Preserves.bind_holds (keeps_globals _) fun _ => dies_subshellExit _
  | exitBltin => exact Preserves.bind_holds (keeps_globals _) fun _ => dies_subshellExit _
  | forceEof => exact dies_subshellExit _
  | discard => exact dies_subshellExit _
  | errExit => exact dies_subshellExit _
  | sigExit => exact dies_subshellExit _

/-- Behind the builtin of a child. -/
theorem dies_behindBuiltin (w : SimpleWorld σ Θ) (words : List WordDesc) (async : Bool)
    (flags : CommandFlags) (r : Status) :
    Dies (if r = exUsage then subshellExit exBadusage
      else if r = exDiskfallback then do
        let r ← executeDiskCommand w words [] noPipe noPipe async { flags with noFork := true }
        subshellExit r
      else subshellExit r : Code σ Θ A) := by
  refine holds_ite (fun _ => dies_subshellExit _) fun _ => holds_ite (fun _ => ?_) fun _ =>
    dies_subshellExit _
  exact (dies_executeDiskCommand w words [] async rfl).bind

/-- The builtin of a child jumps to a `return_catch`. -/
def JumpsToReturn (w : SimpleWorld σ Θ) (b : Builtin) (words : List WordDesc)
    (flags : CommandFlags) (s : SimpleState σ Θ) : Prop :=
  ∃ value s', executeBuiltin w b words flags true s = (.error (.returnCatch value), s')

theorem subshellBuiltin_ends (w : SimpleWorld σ Θ) (words : List WordDesc) (b : Builtin)
    (async : Bool) (flags : CommandFlags) {s : SimpleState σ Θ} (hs : InChild s)
    (hreturn : ¬ JumpsToReturn w b words flags s) :
    Ends (fun _ _ => False) LeftChild (subshellBuiltin (A := A) w words b async flags s) := by
  have hstays := stays_executeBuiltin w b words flags true s hs
  unfold subshellBuiltin
  cases hrun : executeBuiltin w b words flags true s with
  | mk answer s' =>
      rw [hrun] at hstays
      cases answer with
      | ok r =>
          rw [bind_ok hrun]
          exact dies_behindBuiltin w words async flags r s' hstays
      | error x =>
          rw [bind_error hrun]
          exact ⟨hstays, fun value hx => hreturn ⟨value, s', by rw [hrun, hx]⟩⟩

theorem atTopLevel_ends {handler : JumpCode → Code σ Θ A} {c : Code σ Θ A}
    {onExit : Leave → SimpleState σ Θ → Prop} {s : SimpleState σ Θ}
    (hc : Ends (fun _ _ => False) onExit (c s))
    (hcaught : ∀ code, Holds (onExit (.departs (.jump code))) (handler code)
      (fun _ _ => False) onExit) :
    Ends (fun _ _ => False) onExit (atTopLevel handler c s) := by
  refine Holds.catching (holds_at hc) ?_ (fun _ _ _ h => h) s rfl
  intro x d hx
  cases x with
  | returnCatch value => cases hx
  | endless => cases hx
  | departs departure =>
      cases departure with
      | exit status => cases hx
      | exec => cases hx
      | jump code =>
          cases hx
          exact hcaught code

/-- `return` itself is caught. -/
theorem atReturnCatch_ends {handler : Status → Code σ Θ A} {c : Code σ Θ A}
    {s : SimpleState σ Θ} (hc : Ends (fun _ _ => False) (fun _ => InChild) (c s))
    (hcaught : ∀ value, Dies (handler value)) :
    Ends (fun _ _ => False) LeftChild (atReturnCatch handler c s) := by
  refine Holds.catching (holds_at hc) ?_ ?_ s rfl
  · intro x d hx
    cases x with
    | returnCatch value =>
        cases hx
        exact hcaught value
    | endless => cases hx
    | departs departure => cases hx
  · intro x s' hx hs'
    refine ⟨hs', fun value heq => ?_⟩
    rw [heq] at hx
    cases hx

theorem keeps_enterSubshell (w : SimpleWorld σ Θ) (redirects : List Redirect)
    (target : Target) (pipeIn pipeOut : Int) (async : Bool) :
    Keeps (enterSubshell w redirects target pipeIn pipeOut async) := by
  unfold enterSubshell
  refine Preserves.bind (keeps_setGlobals _) fun _ => ?_
  refine Preserves.bind (preserves_modify fun s hs => hs) fun _ => ?_
  refine Preserves.bind (keeps_update _) fun _ => Preserves.bind (keeps_update _) fun _ => ?_
  exact keeps_rashStageApplySimpleRedirects w redirects false

/-- A builtin of the child is called in `s'`, behind its redirections. -/
def CallsBuiltin (w : SimpleWorld σ Θ) (redirects : List Redirect) (b : Builtin)
    (async : Bool) (s s' : SimpleState σ Θ) : Prop :=
  enterSubshell w redirects (.builtin b) noPipe noPipe async s = (.ok 0, s')

theorem Dies.leaves {c : Code σ Θ A} (hc : Dies c) :
    Holds InChild c (fun _ _ => False) (fun _ => InChild) :=
  Holds.mono hc (fun _ h => h) (fun _ _ h => h) fun _ _ h => h.1

/-- The builtin of a child, whether or not it jumps to a `return_catch`. -/
theorem subshellBuiltin_leaves (w : SimpleWorld σ Θ) (words : List WordDesc) (b : Builtin)
    (async : Bool) (flags : CommandFlags) :
    Holds InChild (subshellBuiltin w words b async flags : Code σ Θ A) (fun _ _ => False)
      (fun _ => InChild) := by
  unfold subshellBuiltin
  apply (stays_executeBuiltin w b words flags true).bind_holds
  exact fun r => (dies_behindBuiltin w words async flags r).leaves

/-- The builtin of a child behind its redirections; only `return` has its jump caught. -/
theorem builtinChild_ends (w : SimpleWorld σ Θ) (words : List WordDesc) (b : Builtin)
    (async : Bool) (flags : CommandFlags) {s : SimpleState σ Θ} (hs : InChild s)
    (hreturn : b ≠ .returnBuiltin → ¬ JumpsToReturn w b words flags s) :
    Ends (fun _ _ => False) LeftChild (builtinChild (A := A) w words b async flags s) := by
  unfold builtinChild
  simp only [globals, shell, reads_bind]
  split
  · apply atReturnCatch_ends
    · apply atTopLevel_ends (subshellBuiltin_leaves w words b async flags s hs)
      exact fun code => (dies_subshellCaught code).leaves
    · exact fun value => dies_subshellExit value
  · rename_i hcatches
    apply atTopLevel_ends
    · apply subshellBuiltin_ends w words b async flags hs
      by_cases hb : b = .returnBuiltin
      · -- outside functions and scripts `return` does not jump
        subst hb
        have hflag : s.shell.globals.returnCatchFlag = 0 := by
          by_contra hflag
          exact hcatches (decide_eq_true ⟨hflag, rfl⟩)
        rintro ⟨value, s', hrun⟩
        have hends := executeBuiltin_return w words flags s hflag
        rw [hrun] at hends
        exact hends value rfl
      · exact hreturn hb
    · exact fun code => Holds.mono (dies_subshellCaught code) (fun _ h => h.1)
        (fun _ _ h => h) fun _ _ h => h

theorem executeSubshellBuiltinOrFunction_ends (w : SimpleWorld σ Θ) (words : List WordDesc)
    (redirects : List Redirect) (target : Target) (async : Bool) (flags : CommandFlags)
    {s : SimpleState σ Θ} (hs : InChild s)
    (hreturn : ∀ b s', target = .builtin b → b ≠ .returnBuiltin →
      CallsBuiltin w redirects b async s s' → ¬ JumpsToReturn w b words flags s') :
    Ends (fun _ _ => False) LeftChild (executeSubshellBuiltinOrFunction (A := A) w words
      redirects target noPipe noPipe async flags s) := by
  have hkeeps := keeps_enterSubshell w redirects target noPipe noPipe async s hs
  unfold executeSubshellBuiltinOrFunction
  cases henter : enterSubshell w redirects target noPipe noPipe async s with
  | mk answer s' =>
      rw [henter] at hkeeps
      cases answer with
      | error x => rw [bind_error henter]; exact hkeeps
      | ok r =>
          rw [bind_ok henter]
          split
          · exact dies_exit _ s' hkeeps
          · rename_i hr
            rw [not_ne_iff] at hr
            subst hr
            cases target with
            | function name =>
                exact Preserves.bind_holds (keeps_executeFunction w name words flags true)
                  (fun r => dies_subshellExit r) s' hkeeps
            | builtin b =>
                exact builtinChild_ends w words b async flags hkeeps fun hb =>
                  hreturn b s' rfl hb henter

end Rash
