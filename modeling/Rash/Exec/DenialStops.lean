import Rash.Exec.SimpleCommand
import Rash.Exec.StageAnswers

/-!
# What a denial stops

Behind a denial no file of the command is opened and nothing of it is run, and the command
fails, at every stage but one: when the stage `expand` denies, no words are left, and the
command goes on as a command without words, with its redirections.
-/

namespace Rash

open Interaction Path Code

variable {σ Θ A B : Type}

/-! ## Events behind a denial -/

/-- A file is opened, or a builtin, a function, a program or a job is started. -/
def SimpleEvent.isEffect : SimpleEvent → Bool
  | .opened _ | .started _ => true
  | .consulted _ _ _ | .denied _ | .printed _ | .signalled => false

/-- No effect is seen behind a denial. -/
def StopsAtDenial (events : List SimpleEvent) : Prop :=
  ∀ before kind after, events = before ++ .denied kind :: after →
    ∀ e ∈ after, e.isEffect = false

def NoDenial (s : SimpleState σ Θ) : Prop := ∀ kind, SimpleEvent.denied kind ∉ s.events

/-- There was a denial, and there has been no effect since the first. -/
def Stopped (s : SimpleState σ Θ) : Prop :=
  ∃ before kind after, s.events = before ++ .denied kind :: after ∧
    (∀ kind, SimpleEvent.denied kind ∉ before) ∧ ∀ e ∈ after, e.isEffect = false

theorem Stopped.denied {s : SimpleState σ Θ} (h : Stopped s) :
    ∃ kind, SimpleEvent.denied kind ∈ s.events := by
  obtain ⟨before, kind, after, hevents, -, -⟩ := h
  exact ⟨kind, by rw [hevents]; simp⟩

theorem Stopped.stopsAtDenial {s : SimpleState σ Θ} (h : Stopped s) :
    StopsAtDenial s.events := by
  obtain ⟨before, kind, after, hevents, hbefore, hafter⟩ := h
  intro front kind' rest hsplit e he
  rw [hevents] at hsplit
  rcases List.append_eq_append_iff.mp hsplit with ⟨middle, hfront, hrest⟩ | ⟨middle, hfront, hrest⟩
  · cases middle with
    | nil =>
        rw [List.nil_append] at hrest
        cases hrest
        exact hafter e he
    | cons first middle =>
        rw [List.cons_append] at hrest
        cases hrest
        exact hafter e (by simp [he])
  · cases middle with
    | nil =>
        rw [List.nil_append] at hrest
        cases hrest
        exact hafter e he
    | cons first middle =>
        rw [List.cons_append] at hrest
        cases hrest
        exact absurd (by rw [hfront]; simp) (hbefore kind')

/-- No denial was seen, and no child was made. -/
def Clean (s : SimpleState σ Θ) : Prop := NoDenial s ∧ s.madeChild = none

/-- A denial was seen, no effect since, and no child was made. -/
def Halted (s : SimpleState σ Θ) : Prop := Stopped s ∧ s.madeChild = none

theorem NoDenial.append {s t : SimpleState σ Θ} {added : List SimpleEvent} (h : NoDenial s)
    (hevents : t.events = s.events ++ added) (hadded : ∀ kind, .denied kind ∉ added) :
    NoDenial t := by
  intro kind hmem
  rw [hevents] at hmem
  rcases List.mem_append.mp hmem with hmem | hmem
  · exact h kind hmem
  · exact hadded kind hmem

theorem Stopped.append {s t : SimpleState σ Θ} {added : List SimpleEvent} (h : Stopped s)
    (hevents : t.events = s.events ++ added) (hadded : ∀ e ∈ added, e.isEffect = false) :
    Stopped t := by
  obtain ⟨before, kind, after, hs, hbefore, hafter⟩ := h
  refine ⟨before, kind, after ++ added, by simp [hevents, hs], hbefore, ?_⟩
  intro e he
  rcases List.mem_append.mp he with he | he
  · exact hafter e he
  · exact hadded e he

theorem Asked.noDenial {s s' : SimpleState σ Θ} {added : List SimpleEvent}
    (h : Asked s s' added) (hs : NoDenial s) : NoDenial s' := by
  apply hs.append h.events
  intro kind hmem
  cases h.asking _ hmem

theorem Asked.stopped {s s' : SimpleState σ Θ} {added : List SimpleEvent}
    (h : Asked s s' added) (hs : Stopped s) : Stopped s' := by
  apply hs.append h.events
  intro e he
  cases e with
  | opened rd => cases h.asking _ he
  | started what => cases h.asking _ he
  | _ => rfl

theorem Asked.clean {s s' : SimpleState σ Θ} {added : List SimpleEvent}
    (h : Asked s s' added) (hs : Clean s) : Clean s' :=
  ⟨h.noDenial hs.1, h.madeChild.trans hs.2⟩

/-- What a stage leaves behind, by its answer. -/
def Decided (denied : Bool) (s : SimpleState σ Θ) : Prop :=
  if denied then Halted s else Clean s

theorem Answered.decided {kind : HookKind} {s s' : SimpleState σ Θ} {denied : Bool}
    (h : Answered kind s denied s') (hs : Clean s) : Decided denied s' := by
  obtain ⟨asked, added, hasked, rfl⟩ := h
  have hclean := hasked.clean hs
  cases denied with
  | false => exact hclean
  | true => exact ⟨⟨asked.events, kind, [], rfl, hclean.1, by simp⟩, hclean.2⟩

/-! ## How code ends -/

/-- A status that says that the command failed, and nothing else. -/
def Fails (status : Status) : Prop := exitStatus status ≠ 0 ∧ status ≠ exDiskfallback

theorem fails_executionFailure : Fails executionFailure := by
  unfold Fails
  decide

theorem fails_exRedirfail : Fails exRedirfail := by
  unfold Fails
  decide

/-- Code returns a failure behind a denial. -/
def Settles (status : Status) (s : SimpleState σ Θ) : Prop :=
  Clean s ∨ Halted s ∧ Fails status

/-- The process leaves with a failure behind a denial. -/
def LeavesFailing (w : SimpleWorld σ Θ) (x : Leave) (s : SimpleState σ Θ) : Prop :=
  NoDenial s ∨ Stopped s ∧ leaveStatus w s.shell x ≠ 0

/-- The denial was seen by a child, and the child failed. -/
def ChildFailed (s : SimpleState σ Θ) : Prop :=
  Stopped s ∧ ∃ status, s.madeChild = some status ∧ status ≠ 0

/-- The command returns a failure behind a denial, its own or that of its child. -/
def CommandSettles (status : Status) (s : SimpleState σ Θ) : Prop :=
  NoDenial s ∨ Halted s ∧ Fails status ∨ ChildFailed s

theorem Settles.command {status : Status} {s : SimpleState σ Θ} (h : Settles status s) :
    CommandSettles status s := by
  rcases h with hclean | hhalted
  · exact .inl hclean.1
  · exact .inr (.inl hhalted)

theorem holds_or {pre pre' : SimpleState σ Θ → Prop} {c : Code σ Θ A}
    {post : A → SimpleState σ Θ → Prop} {onExit : Leave → SimpleState σ Θ → Prop}
    (h : Holds pre c post onExit) (h' : Holds pre' c post onExit) :
    Holds (fun s => pre s ∨ pre' s) c post onExit := by
  rintro s (hs | hs)
  · exact h s hs
  · exact h' s hs

/-- Code that no denial is seen in. -/
abbrev StaysClean (c : Code σ Θ A) : Prop := Preserves Clean (fun _ => NoDenial) c

theorem StaysClean.holds {w : SimpleWorld σ Θ} {c : Code σ Θ A}
    {post : A → SimpleState σ Θ → Prop} (hc : StaysClean c)
    (hpost : ∀ a s, Clean s → post a s) : Holds Clean c post (LeavesFailing w) :=
  Holds.mono hc (fun _ h => h) hpost fun _ _ h => .inl h

theorem StaysClean.next {w : SimpleWorld σ Θ} {c : Code σ Θ A} {k : A → Code σ Θ B}
    {post : B → SimpleState σ Θ → Prop} (hc : StaysClean c)
    (hk : ∀ a, Holds Clean (k a) post (LeavesFailing w)) :
    Holds Clean (c >>= k) post (LeavesFailing w) :=
  Holds.bind (hc.holds fun _ _ h => h) hk

theorem clean_update (f : Shell σ Θ → Shell σ Θ) : StaysClean (update f) := fun _ h => h

theorem clean_shell (f : Shell σ Θ → A) : StaysClean (shell f) := fun _ h => h

theorem clean_globals (f : ShellGlobals → A) : StaysClean (globals f : Code σ Θ A) := fun _ h => h

theorem clean_setGlobals (f : ShellGlobals → ShellGlobals) :
    StaysClean (setGlobals f : Code σ Θ Unit) := fun _ h => h

theorem clean_always (f : Shell σ Θ → A × Shell σ Θ) : StaysClean (always f) := fun _ h => h

theorem clean_depart (d : Departure) : StaysClean (depart d : Code σ Θ A) := fun _ h => h.1

theorem clean_call (f : Shell σ Θ → Except Leave A × Shell σ Θ) : StaysClean (Code.call f) := by
  intro s hs
  unfold Code.call
  cases (f s.shell).1 with
  | ok a => exact hs
  | error x => exact hs.1

theorem clean_note {e : SimpleEvent} (he : ∀ kind, e ≠ .denied kind) :
    StaysClean (note e : Code σ Θ Unit) := by
  intro s hs
  refine ⟨hs.1.append (t := s.note e) rfl fun kind hmem => ?_, hs.2⟩
  exact he kind (List.mem_singleton.mp hmem).symm

theorem clean_onlyIf {P : Prop} [Decidable P] {c : Code σ Θ Unit} (hc : StaysClean c) :
    StaysClean (onlyIf P c) := preserves_ite hc (preserves_pure _)

theorem clean_quit (w : SimpleWorld σ Θ) : StaysClean (quit w) := by
  intro s hs
  unfold Code.quit
  cases w.quit s.shell with
  | mk answer p =>
      cases answer with
      | ok a => exact hs
      | error d =>
          exact hs.1.append (t := { s with shell := p, events := s.events ++ [.signalled] }) rfl
            (by simp)

theorem clean_doRedirections (w : SimpleWorld σ Θ) (redirects : List Redirect)
    (undoable : Bool) : StaysClean (doRedirections w redirects undoable) := by
  intro s hs
  have hevents : ∀ kind, SimpleEvent.denied kind ∉
      (w.doRedirections redirects undoable s.shell).opened.map SimpleEvent.opened := by simp
  unfold doRedirections
  simp only
  cases (w.doRedirections redirects undoable s.shell).outcome with
  | ok a => exact ⟨hs.1.append rfl hevents, hs.2⟩
  | error d => exact hs.1.append rfl hevents

/-! ## Redirections and programs -/

theorem settles_rashStageApplySimpleRedirects (w : SimpleWorld σ Θ) (redirects : List Redirect)
    (undoable : Bool) :
    Holds Clean (rashStageApplySimpleRedirects w redirects undoable) Settles
      (LeavesFailing w) := by
  unfold rashStageApplySimpleRedirects
  refine Holds.bind (p := fun answer => Decided answer.1) ?_ ?_
  · exact holds_step fun s hs =>
      (rashHooksRedirectPolicy_answered w.hookFiles w.lstat w.shellVariables redirects s).decided
        hs
  · rintro ⟨denied, apply⟩
    cases denied with
    | true =>
        apply holds_ret
        intro s hs
        refine .inr ⟨hs, ?_⟩
        cases undoable with
        | true => exact fails_exRedirfail
        | false => exact fails_executionFailure
    | false =>
        refine (clean_doRedirections w _ undoable).next fun r => holds_ite (fun _ => ?_) fun _ => ?_
        · exact holds_ret fun s hs => .inl hs
        · refine holds_ite (fun _ => ?_) fun _ => holds_ret fun s hs => .inl hs
          exact (clean_update _).next fun _ => holds_ret fun s hs => .inl hs

theorem holds_exit {w : SimpleWorld σ Θ} {post : A → SimpleState σ Θ → Prop} (status : Status) :
    Holds (Settles status) (Code.exit status : Code σ Θ A) post (LeavesFailing w) := by
  rintro s (hs | ⟨hs, hfails⟩)
  · exact .inl hs.1
  · exact .inr ⟨hs.1, hfails.1⟩

/-- Behind redirections that may have been denied. -/
theorem holds_applied {w : SimpleWorld σ Θ} {r : Status} {c d : Code σ Θ A}
    {post : A → SimpleState σ Θ → Prop}
    (hc : Holds (fun s => Clean s ∨ Halted s) c post (LeavesFailing w))
    (hd : Holds Clean d post (LeavesFailing w)) :
    Holds (Settles r) (if r ≠ 0 then c else d) post (LeavesFailing w) := by
  refine holds_ite (fun _ => ?_) fun hr => ?_
  · rintro s (hs | ⟨hs, -⟩)
    · exact hc s (.inl hs)
    · exact hc s (.inr hs)
  · rw [not_ne_iff] at hr
    subst hr
    rintro s (hs | ⟨-, hfails⟩)
    · exact hd s hs
    · exact absurd rfl hfails.1

theorem holds_exitFailure {w : SimpleWorld σ Θ} {post : A → SimpleState σ Θ → Prop} :
    Holds (fun s => Clean s ∨ Halted s) (Code.exit executionFailure : Code σ Θ A) post
      (LeavesFailing w) :=
  fun s hs => holds_exit _ s (hs.imp_right fun h => ⟨h, fails_executionFailure⟩)

theorem settles_shellExecve (w : SimpleWorld σ Θ) (command : String) (args : List String) :
    Holds Clean (shellExecve w command args) Settles (LeavesFailing w) := by
  unfold shellExecve
  refine Holds.bind (p := fun denied s => Decided denied s ∧
    (denied = true → s.shell.globals.lastCommandExitValue = executionFailure)) ?_ fun denied => ?_
  · apply holds_step
    intro s hs
    have hasked := onExecStage.ask_answered w.hookFiles (.exec command args) s
    unfold rashHooksOnExec
    simp only
    cases hdenied : (onExecStage.ask w.hookFiles (.exec command args) s).1 with
    | true =>
        rw [hdenied] at hasked
        exact ⟨hasked.decided hs, fun _ => rfl⟩
    | false =>
        rw [hdenied] at hasked
        exact ⟨hasked.decided hs, fun h => by cases h⟩
  · cases denied with
    | true =>
        refine Holds.bind (p := fun last s => Halted s ∧ last = executionFailure) ?_ ?_
        · exact fun s ⟨hs, hlast⟩ => ⟨hs, hlast rfl⟩
        · rintro last s ⟨hs, rfl⟩
          exact .inr ⟨hs, fails_executionFailure⟩
    | false =>
        refine Holds.mono ?_ (fun s h => h.1) (fun _ _ h => h) fun _ _ h => h
        refine (clean_note fun _ h => by cases h).next fun _ => ?_
        refine (clean_always _).next fun failed => ?_
        cases failed with
        | none => exact (clean_depart _).holds fun _ _ h => .inl h
        | some status => exact holds_ret fun s hs => .inl hs

theorem settles_failedExec (w : SimpleWorld σ Θ) (exitValue : Status) :
    Holds (Settles exitValue) (execBuiltin.failedExec w exitValue) Settles
      (LeavesFailing w) := by
  unfold execBuiltin.failedExec
  refine Preserves.bind_holds (preserves_reads _) fun environment => ?_
  refine Preserves.bind_holds (preserves_reads _) fun interactive => ?_
  refine Preserves.bind_holds (preserves_reads _) fun execfail => ?_
  refine holds_ite (fun _ => ?_) fun _ => ?_
  · exact Preserves.bind_holds (fun _ h => h) fun _ => holds_exit exitValue
  · exact Preserves.bind_holds (fun _ h => h) fun _ => holds_ret fun s hs => hs

theorem settles_execBuiltin (w : SimpleWorld σ Θ) (list : List WordDesc) :
    Holds Clean (execBuiltin w list) Settles (LeavesFailing w) := by
  unfold execBuiltin
  cases w.execOperands list with
  | error status => exact holds_ret fun s hs => .inl hs
  | ok operands =>
      cases operands with
      | nil => exact (clean_update _).next fun _ => holds_ret fun s hs => .inl hs
      | cons name args =>
          refine (clean_globals _).next fun restricted => holds_ite (fun _ => ?_) fun _ => ?_
          · exact holds_ret fun s hs => .inl hs
          refine StaysClean.next ?_ fun found => ?_
          · exact preserves_ite (preserves_pure _) (clean_always _)
          refine Holds.bind (p := Settles) ?_ fun exitValue => settles_failedExec w exitValue
          cases found with
          | none => exact (clean_shell _).next fun _ => holds_ret fun s hs => .inl hs
          | some command =>
              refine (clean_shell _).next fun command => ?_
              refine Holds.bind (settles_shellExecve w _ _) fun status => ?_
              refine Preserves.bind_holds (preserves_reads _) fun noexec => holds_ret ?_
              rintro s (hs | ⟨hs, hfails⟩)
              · exact .inl hs
              · refine .inr ⟨hs, ?_⟩
                split_ifs
                · exact hfails
                · unfold Fails
                  decide
                · exact hfails

theorem settles_executeFunction (w : SimpleWorld σ Θ) (name : String) (words : List WordDesc)
    (flags : CommandFlags) (subshell : Bool) :
    Holds Clean (executeFunction w name words flags subshell) Settles (LeavesFailing w) := by
  unfold executeFunction
  refine (clean_globals _).next fun nested => holds_ite (fun _ => ?_) fun _ => ?_
  · exact (clean_setGlobals _).next fun _ => (clean_depart _).holds fun _ _ h => .inl h
  · refine Holds.bind (p := Decided) ?_ fun denied => ?_
    · exact holds_step fun s hs =>
        (rashHooksOnFunction_answered w.hookFiles name words s).decided hs
    · cases denied with
      | true => exact holds_ret fun s hs => .inr ⟨hs, fails_executionFailure⟩
      | false =>
          refine (clean_note fun _ h => by cases h).next fun _ => ?_
          exact (clean_call _).holds fun _ _ h => .inl h

theorem settles_diskCommandChild (w : SimpleWorld σ Θ) (words : List WordDesc)
    (redirects : List Redirect) (command : Option String) (pipeIn pipeOut : Int)
    {post : A → SimpleState σ Θ → Prop} :
    Holds Clean (diskCommandChild w words redirects command pipeIn pipeOut) post
      (LeavesFailing w) := by
  unfold diskCommandChild
  refine (clean_update _).next fun _ => ?_
  refine Holds.bind (settles_rashStageApplySimpleRedirects w redirects false) fun r => ?_
  refine holds_applied holds_exitFailure ?_
  cases command with
  | some command =>
      exact Holds.bind (settles_shellExecve w _ _) fun status => holds_exit status
  | none =>
      refine (clean_shell _).next fun hookf => ?_
      cases hookf with
      | none => exact fun s hs => .inl hs.1
      | some hookf =>
          exact Holds.bind (settles_executeFunction w _ _ _ _) fun status => holds_exit status

theorem forkChild_ends (w : SimpleWorld σ Θ) (async : Bool)
    (environment : SubshellEnvironment) {child : Code σ Θ Empty}
    (hchild : Holds Clean child (fun _ _ => False) (LeavesFailing w)) :
    Holds Clean (forkChild w async environment child) (fun _ s => NoDenial s ∨ ChildFailed s)
      (fun _ => NoDenial) := by
  intro s hs
  unfold forkChild
  cases w.makeChild false async s.shell with
  | mk answer parent =>
      cases answer with
      | error d => exact hs.1
      | ok _ =>
          have hends := hchild { s with
            shell := (w.makeChild true async s.shell).2
            subshellEnvironment := environment
            madeChild := none } ⟨hs.1, rfl⟩
          dsimp only
          cases hrun : child { s with
              shell := (w.makeChild true async s.shell).2
              subshellEnvironment := environment
              madeChild := none } with
          | mk answer s' =>
              rw [hrun] at hends
              cases answer with
              | ok never => exact never.elim
              | error x =>
                  rcases hends with hs' | ⟨hs', hstatus⟩
                  · exact .inl hs'
                  · exact .inr ⟨hs', _, rfl, hstatus⟩

/-- `QUIT` leaves with the status of a signal. -/
def QuitFails (w : SimpleWorld σ Θ) : Prop :=
  ∀ p d p', w.quit p = (.error d, p') → leaveStatus w p' (.departs d) ≠ 0

theorem quit_childFailed {w : SimpleWorld σ Θ} (hquit : QuitFails w) :
    Holds ChildFailed (quit w) (fun _ => ChildFailed) (LeavesFailing w) := by
  intro s hs
  unfold Code.quit
  cases hanswer : w.quit s.shell with
  | mk answer p =>
      cases answer with
      | ok a => exact hs
      | error d =>
          refine .inr ⟨?_, hquit _ _ _ hanswer⟩
          exact hs.1.append (t := { s with shell := p, events := s.events ++ [.signalled] }) rfl
            (by simp [SimpleEvent.isEffect])

theorem quit_noDenial (w : SimpleWorld σ Θ) :
    Preserves NoDenial (fun _ => NoDenial) (quit w) := by
  intro s hs
  unfold Code.quit
  cases w.quit s.shell with
  | mk answer p =>
      cases answer with
      | ok a => exact hs
      | error d =>
          exact hs.append (t := { s with shell := p, events := s.events ++ [.signalled] }) rfl
            (by simp)

/-- A disk command that takes the place of the process. -/
theorem settles_diskCommandInPlace (w : SimpleWorld σ Θ) (words : List WordDesc)
    (redirects : List Redirect) (async : Bool) {flags : CommandFlags}
    (hnofork : flags.noFork = true) :
    Holds Clean (executeDiskCommand w words redirects noPipe noPipe async flags)
      (fun _ _ => False) (LeavesFailing w) := by
  unfold executeDiskCommand
  simp only [hnofork, and_self, if_true]
  refine (clean_globals _).next fun restricted => holds_ite (fun _ => ?_) fun _ => ?_
  · exact (clean_setGlobals _).next fun _ s hs => .inl hs.1
  · refine (clean_always _).next fun command => (clean_quit w).next fun _ => ?_
    refine Preserves.bind_holds (fun _ h => h) fun _ => ?_
    exact settles_diskCommandChild w words redirects command noPipe noPipe

theorem settles_executeDiskCommand {w : SimpleWorld σ Θ} (hquit : QuitFails w)
    (words : List WordDesc) (redirects : List Redirect) (pipeIn pipeOut : Int) (async : Bool)
    (flags : CommandFlags) :
    Holds Clean (executeDiskCommand w words redirects pipeIn pipeOut async flags)
      CommandSettles (LeavesFailing w) := by
  by_cases hplace : flags.noFork = true ∧ pipeIn = noPipe ∧ pipeOut = noPipe
  · obtain ⟨hnofork, rfl, rfl⟩ := hplace
    exact Holds.mono (settles_diskCommandInPlace w words redirects async hnofork)
      (fun _ h => h) (fun _ _ h => h.elim) fun _ _ h => h
  · unfold executeDiskCommand
    simp only [hplace, if_false]
    refine (clean_globals _).next fun restricted => holds_ite (fun _ => ?_) fun _ => ?_
    · refine (clean_setGlobals _).next fun _ => (clean_quit w).next fun _ => ?_
      exact (clean_update _).next fun _ => holds_ret fun s hs => .inl hs.1
    · refine (clean_always _).next fun command => (clean_quit w).next fun _ => ?_
      refine Preserves.bind_holds (preserves_reads _) fun environment => ?_
      refine Holds.bind (Holds.mono (forkChild_ends w async _ (settles_diskCommandChild w words
        redirects command pipeIn pipeOut)) (fun _ h => h) (fun _ _ h => h)
        fun _ _ h => .inl h) fun _ => holds_or ?_ ?_
      · refine Preserves.bind_holds ((quit_noDenial w).mono fun _ _ h => .inl h) fun _ => ?_
        exact Preserves.bind_holds (fun _ h => h) fun _ => holds_ret fun s hs => .inl hs
      · refine Preserves.bind_holds (quit_childFailed hquit) fun _ => ?_
        exact Preserves.bind_holds (fun _ h => h) fun _ => holds_ret fun s hs => .inr (.inr hs)

/-! ## Builtins -/

theorem clean_returnBuiltin (w : SimpleWorld σ Θ) (list : List WordDesc) :
    StaysClean (returnBuiltin w list) := by
  unfold returnBuiltin
  refine (clean_shell _).bind fun value => (clean_globals _).bind fun g => ?_
  cases value with
  | error status => exact preserves_pure _
  | ok value =>
      refine holds_ite (fun _ => preserves_pure _) fun _ => holds_ite (fun _ => ?_) fun _ => ?_
      · exact fun s hs => hs.1
      · exact preserves_pure _

theorem settles_callBuiltin (w : SimpleWorld σ Θ) (flags : CommandFlags) (subshell : Bool)
    (b : Builtin) (list : List WordDesc) :
    Holds Clean (callBuiltin w flags subshell b list) Settles (LeavesFailing w) := by
  induction list generalizing b with
  | nil =>
      cases b with
      | exec => exact settles_execBuiltin w []
      | returnBuiltin => exact (clean_returnBuiltin w []).holds fun _ _ h => .inl h
      | builtin => exact holds_ret fun s hs => .inl hs
      | _ => exact (clean_call _).holds fun _ _ h => .inl h
  | cons command list ih =>
      cases b with
      | exec => exact settles_execBuiltin w _
      | returnBuiltin => exact (clean_returnBuiltin w _).holds fun _ _ h => .inl h
      | builtin =>
          unfold callBuiltin
          refine (clean_shell _).next fun function => ?_
          cases function with
          | none => exact holds_ret fun s hs => .inl hs
          | some b => exact ih b
      | _ => exact (clean_call _).holds fun _ _ h => .inl h

theorem clean_enterNested (b : Builtin) (subshell : Bool) :
    StaysClean (enterNested b subshell : Code σ Θ Unit) := by
  have hnested : ∀ f : ShellGlobals → ShellGlobals,
      StaysClean (do setGlobals f; jumpToTopLevel .discard : Code σ Θ Unit) := fun f =>
    (clean_setGlobals f).bind fun _ => clean_depart _
  unfold enterNested
  refine preserves_ite (preserves_pure _) (preserves_ite ?_ (preserves_ite ?_ (preserves_pure _)))
  · exact (clean_globals _).bind fun _ => preserves_ite (hnested _) (clean_setGlobals _)
  · exact (clean_globals _).bind fun _ => preserves_ite (hnested _) (clean_setGlobals _)

theorem settles_executeBuiltin (w : SimpleWorld σ Θ) (b : Builtin) (words : List WordDesc)
    (flags : CommandFlags) (subshell : Bool) :
    Holds Clean (executeBuiltin w b words flags subshell) Settles (LeavesFailing w) := by
  unfold executeBuiltin
  refine Holds.bind (p := Decided) ?_ fun denied => ?_
  · exact holds_step fun s hs => (rashHooksOnBuiltin_answered w.hookFiles words s).decided hs
  · cases denied with
    | true => exact holds_ret fun s hs => .inr ⟨hs, fails_executionFailure⟩
    | false =>
        refine (clean_globals _).next fun saved => ?_
        refine (clean_enterNested b subshell).next fun _ => ?_
        refine (clean_setGlobals _).next fun _ => ?_
        refine (clean_note fun _ h => by cases h).next fun _ => ?_
        refine Holds.bind (settles_callBuiltin w flags subshell b _) fun result => ?_
        exact Preserves.bind_holds (fun _ h => h) fun _ => holds_ret fun s hs => hs

theorem settles_executeBuiltinOrFunction (w : SimpleWorld σ Θ) (words : List WordDesc)
    (target : Target) (redirects : List Redirect) (flags : CommandFlags) :
    Holds Clean (executeBuiltinOrFunction w words target redirects flags) Settles
      (LeavesFailing w) := by
  unfold executeBuiltinOrFunction
  refine Holds.bind (settles_rashStageApplySimpleRedirects w redirects true) fun r => ?_
  apply holds_applied
  · exact fun s hs => hs.imp_right fun h => ⟨h, fails_exRedirfail⟩
  refine (clean_update _).next fun _ => Holds.bind (p := Settles) ?_ fun result => ?_
  · cases target with
    | builtin b => exact settles_executeBuiltin w b words flags false
    | function name => exact settles_executeFunction w name words flags false
  · exact Preserves.bind_holds (fun _ h => h) fun _ => holds_ret fun s hs => hs

/-! ## Builtins and functions of a child -/

theorem holds_subshellExit {w : SimpleWorld σ Θ} {post : A → SimpleState σ Θ → Prop}
    (status : Status) :
    Holds (Settles status) (subshellExit status : Code σ Θ A) post (LeavesFailing w) :=
  Preserves.bind_holds (fun _ h => h) fun _ => holds_exit status

theorem fails_exBadusage : Fails exBadusage := by
  unfold Fails
  decide

theorem settles_subshellBuiltin {w : SimpleWorld σ Θ} (words : List WordDesc) (b : Builtin)
    (async : Bool) (flags : CommandFlags) :
    Holds Clean (subshellBuiltin w words b async flags : Code σ Θ A) (fun _ _ => False)
      (LeavesFailing w) := by
  unfold subshellBuiltin
  refine Holds.bind (settles_executeBuiltin w b words flags true) fun r => ?_
  refine holds_ite (fun _ => ?_) fun _ => holds_ite (fun hr => ?_) fun _ => holds_subshellExit r
  · rintro s (hs | ⟨hs, -⟩)
    · exact holds_subshellExit _ s (.inl hs)
    · exact holds_subshellExit _ s (.inr ⟨hs, fails_exBadusage⟩)
  · rintro s (hs | ⟨-, hfails⟩)
    · refine Holds.bind (settles_diskCommandInPlace w words [] async rfl) (fun r => ?_) s hs
      exact fun s h => h.elim
    · exact absurd hr hfails.2

/-- A jump that finds its loop in the child fails as the jump does. -/
theorem settles_subshellCaught {w : SimpleWorld σ Θ} (code : JumpCode) :
    Holds (LeavesFailing w (.departs (.jump code))) (subshellCaught code : Code σ Θ A)
      (fun _ _ => False) (LeavesFailing w) := by
  rintro s (hs | ⟨hs, hstatus⟩)
  · cases code with
    | _ => exact .inl hs
  · cases code with
    | exitProg => exact .inr ⟨hs, hstatus⟩
    | exitBltin => exact .inr ⟨hs, hstatus⟩
    | _ => exact .inr ⟨hs, fails_executionFailure.1⟩

theorem settles_atTopLevel {w : SimpleWorld σ Θ} {c : Code σ Θ A}
    (hc : Holds Clean c (fun _ _ => False) (LeavesFailing w)) :
    Holds Clean (atTopLevel subshellCaught c) (fun _ _ => False) (LeavesFailing w) := by
  refine Holds.catching hc ?_ fun _ _ _ h => h
  intro x d hx
  cases x with
  | returnCatch value => cases hx
  | endless => cases hx
  | departs departure =>
      cases departure with
      | exit status => cases hx
      | exec => cases hx
      | jump code =>
          cases hx
          exact settles_subshellCaught code

theorem settles_atReturnCatch {w : SimpleWorld σ Θ} {c : Code σ Θ A}
    (hc : Holds Clean c (fun _ _ => False) (LeavesFailing w)) :
    Holds Clean (atReturnCatch subshellExit c) (fun _ _ => False) (LeavesFailing w) := by
  refine Holds.catching hc ?_ fun _ _ _ h => h
  intro x d hx
  cases x with
  | endless => cases hx
  | departs departure => cases hx
  | returnCatch value =>
      cases hx
      exact fun s hs => hs

theorem settles_builtinChild {w : SimpleWorld σ Θ} (words : List WordDesc) (b : Builtin)
    (async : Bool) (flags : CommandFlags) :
    Holds Clean (builtinChild w words b async flags : Code σ Θ A) (fun _ _ => False)
      (LeavesFailing w) := by
  have hbuiltin := settles_atTopLevel (A := A) (settles_subshellBuiltin (w := w) words b async
    flags)
  unfold builtinChild
  refine (clean_globals _).next fun catchesReturn => holds_ite (fun _ => ?_) fun _ => hbuiltin
  exact settles_atReturnCatch hbuiltin

theorem settles_executeSubshellBuiltinOrFunction {w : SimpleWorld σ Θ} (words : List WordDesc)
    (redirects : List Redirect) (target : Target) (pipeIn pipeOut : Int) (async : Bool)
    (flags : CommandFlags) :
    Holds Clean (executeSubshellBuiltinOrFunction w words redirects target pipeIn pipeOut async
      flags : Code σ Θ A) (fun _ _ => False) (LeavesFailing w) := by
  unfold executeSubshellBuiltinOrFunction
  refine Holds.bind (p := Settles) ?_ fun r => holds_applied holds_exitFailure ?_
  · unfold enterSubshell
    refine (clean_setGlobals _).next fun _ => Preserves.bind_holds (fun _ h => h) fun _ => ?_
    refine (clean_update _).next fun _ => (clean_update _).next fun _ => ?_
    exact settles_rashStageApplySimpleRedirects w redirects false
  · cases target with
    | builtin b => exact settles_builtinChild words b async flags
    | function name =>
        exact Holds.bind (settles_executeFunction w name words flags true) fun r =>
          holds_subshellExit r

/-! ## Dispatch -/

theorem fails_builtinStatus {status : Status} (h : exSherrbase < status) :
    Fails (builtinStatus status) := by
  unfold builtinStatus Fails
  split_ifs
  · decide
  · decide
  · decide

theorem Fails.settled {status : Status} (h : Fails status) :
    Fails (if exSherrbase < status then builtinStatus status else status) := by
  split_ifs with hlarge
  · exact fails_builtinStatus hlarge
  · exact h

/-- The result of a builtin or function is settled as a failure, if there was a denial. -/
def SettlesTarget (settled : Option Status) (s : SimpleState σ Θ) : Prop :=
  Clean s ∨ Halted s ∧ ∃ status, settled = some status ∧ Fails status

theorem settles_settleResult {w : SimpleWorld σ Θ} (target : Target) (isSpecial : Bool)
    (result : Status) :
    Holds (Settles result) (settleResult w target isSpecial result) SettlesTarget
      (LeavesFailing w) := by
  unfold settleResult
  cases target with
  | function name =>
      apply holds_ret
      rintro s (hs | ⟨hs, hfails⟩)
      · exact .inl hs
      · refine .inr ⟨hs, _, rfl, ?_⟩
        split_ifs with husage hlarge
        · exact fails_exBadusage
        · exact fails_builtinStatus hlarge
        · exact hfails
  | builtin b =>
      refine Preserves.bind_holds (preserves_reads _) fun g => holds_ite (fun _ => ?_) fun _ => ?_
      · rintro s (hs | ⟨hs, -⟩)
        · exact .inl hs.1
        · exact .inr ⟨hs.1, fails_executionFailure.1⟩
      refine holds_ite (fun hr => ?_) fun _ => ?_
      · rintro s (hs | ⟨-, hfails⟩)
        · exact .inl hs
        · exact absurd hr hfails.2
      refine Preserves.bind_holds (preserves_ite (fun _ h => h) fun _ h => h) fun _ => ?_
      refine Preserves.bind_holds (preserves_ite (fun _ h => h) fun _ h => h) fun _ => ?_
      apply holds_ret
      rintro s (hs | ⟨hs, hfails⟩)
      · exact .inl hs
      · exact .inr ⟨hs, _, rfl, hfails.settled⟩

theorem settles_dispatchDisk {w : SimpleWorld σ Θ} (hquit : QuitFails w) (d : SimpleDispatch)
    (words : List WordDesc) (pipeIn pipeOut : Int) :
    Holds Clean (dispatchDisk w d words pipeIn pipeOut)
      (fun ended => CommandSettles ended.result) (LeavesFailing w) := by
  unfold dispatchDisk
  refine (clean_shell _).next fun pending => ?_
  exact Holds.bind (settles_executeDiskCommand hquit _ _ _ _ _ _) fun result =>
    holds_ret fun s hs => hs

theorem settles_dispatchTarget {w : SimpleWorld σ Θ} (hquit : QuitFails w) (d : SimpleDispatch)
    (words : List WordDesc) (target : Target) :
    Holds Clean (dispatchTarget w d words target) (fun ended => CommandSettles ended.result)
      (LeavesFailing w) := by
  unfold dispatchTarget
  refine (clean_globals _).next fun g => holds_ite (fun _ => ?_) fun _ => ?_
  · refine Preserves.bind_holds (fun _ h => h) fun _ => ?_
    exact Holds.mono (settles_executeSubshellBuiltinOrFunction words d.command.redirects target
      d.pipeIn d.pipeOut d.async d.flags) (fun _ h => h) (fun _ _ h => h.elim) fun _ _ h => h
  · refine Holds.bind (settles_executeBuiltinOrFunction w words target _ _) fun result => ?_
    refine Holds.bind (settles_settleResult target d.isSpecial result) fun settled => ?_
    cases settled with
    | some result =>
        apply holds_ret
        rintro s (hs | ⟨hs, status, hsettled, hfails⟩)
        · exact .inl hs.1
        · cases hsettled
          exact .inr (.inl ⟨hs, hfails⟩)
    | none =>
        rintro s (hs | ⟨-, status, hsettled, -⟩)
        · exact (clean_setGlobals _).next (fun _ => settles_dispatchDisk hquit d words noPipe
            noPipe) s hs
        · cases hsettled

theorem clean_dispatchJob (w : SimpleWorld σ Θ) (d : SimpleDispatch) :
    StaysClean (dispatchJob w d) := by
  unfold dispatchJob
  refine preserves_ite ?_ ?_
  · refine (clean_note fun _ h => by cases h).bind fun _ => (clean_call _).bind fun result => ?_
    exact preserves_pure _
  · refine (clean_globals _).bind fun jobControl => (clean_shell _).bind fun mode => ?_
    cases mode with
    | none => exact preserves_pure _
    | some mode =>
        refine preserves_ite ((clean_shell _).bind fun job => ?_) (preserves_pure _)
        cases job with
        | none => exact preserves_pure _
        | some job =>
            refine (clean_update _).bind fun _ => (clean_setGlobals _).bind fun _ => ?_
            refine (clean_note fun _ h => by cases h).bind fun _ => ?_
            exact (clean_always _).bind fun status => preserves_pure _

theorem clean_selectAutocd (w : SimpleWorld σ Θ) (d : SimpleDispatch) (words : List WordDesc) :
    StaysClean (selectAutocd w d words) := by
  unfold selectAutocd
  refine (clean_update _).bind fun _ => (clean_shell _).bind fun function => ?_
  refine (clean_quit w).bind fun _ => (clean_shell _).bind fun target => ?_
  cases target with
  | some target => exact preserves_pure _
  | none =>
      refine (clean_shell _).bind fun again => preserves_ite ?_ (preserves_pure _)
      exact fun s hs => hs.1

theorem clean_selectTarget (w : SimpleWorld σ Θ) (d : SimpleDispatch) :
    StaysClean (selectTarget w d) := by
  unfold selectTarget
  refine (clean_dispatchJob w d).bind fun job => ?_
  cases job with
  | some ended => exact preserves_pure _
  | none =>
      refine (clean_quit w).bind fun _ => (clean_shell _).bind fun target => ?_
      cases target with
      | some target => exact preserves_pure _
      | none =>
          refine (clean_globals _).bind fun g => (clean_shell _).bind fun isDirname => ?_
          exact preserves_ite (clean_selectAutocd w d _) (preserves_pure _)

theorem settles_dispatchResolved {w : SimpleWorld σ Θ} (hquit : QuitFails w) (call : SimpleCall)
    (alreadyForked : Bool) (resolved : Resolved) (oldCommandBuiltin : Int) :
    Holds Clean (dispatchResolved w call alreadyForked resolved oldCommandBuiltin)
      (fun ended => CommandSettles ended.result) (LeavesFailing w) := by
  unfold dispatchResolved
  refine Holds.bind (p := fun answer => Decided answer.1) ?_ ?_
  · exact holds_step fun s hs => (rashHooksChooseDispatch_answered w.hookFiles resolved.words
      resolved.isFunction resolved.isBuiltin s).decided hs
  · rintro ⟨denied, choice⟩
    cases denied with
    | true => exact fun s hs => .inr (.inl ⟨hs, fails_executionFailure⟩)
    | false =>
        refine (clean_selectTarget w _).next fun selected => ?_
        cases selected with
        | ended result => exact holds_ret fun s hs => .inl hs.1
        | target words target => exact settles_dispatchTarget hquit _ words target
        | disk words => exact settles_dispatchDisk hquit _ words _ _

/-! ## Behind the dispatch -/

theorem Asked.commandSettles {s s' : SimpleState σ Θ} {added : List SimpleEvent}
    {status : Status} (h : Asked s s' added) (hs : CommandSettles status s) :
    CommandSettles status s' := by
  rcases hs with hs | ⟨hs, hfails⟩ | ⟨hs, hchild⟩
  · exact .inl (h.noDenial hs)
  · exact .inr (.inl ⟨⟨h.stopped hs.1, h.madeChild.trans hs.2⟩, hfails⟩)
  · refine .inr (.inr ⟨h.stopped hs, ?_⟩)
    rw [h.madeChild]
    exact hchild

theorem commandSettles_observe (w : SimpleWorld σ Θ) (words : List WordDesc) (result : Status)
    (stdout stderr : Option Bytes) (status : Status) {onExit : Leave → SimpleState σ Θ → Prop} :
    Preserves (CommandSettles status) onExit (observe w words result stdout stderr) := by
  unfold observe
  refine Preserves.bind (preserves_modify fun s hs => ?_) fun _ => ?_
  · obtain ⟨added, hasked⟩ := rashHooksAfterSimple_asked w.hookFiles words result stdout stderr s
    exact hasked.commandSettles hs
  refine Preserves.bind (preserves_step fun s hs => ?_) fun payloads => ?_
  · obtain ⟨added, hasked⟩ :=
      rashHooksStdioBundle_asked w.hookFiles w.captureFd words result stdout stderr s
    exact hasked.commandSettles hs
  exact Preserves.bind (fun _ h => h) fun fd => fun _ h => h

theorem settles_finishCommand {w : SimpleWorld σ Θ} (alreadyForked captured : Bool)
    (lastarg : String) (ended : DispatchEnd) :
    Holds (CommandSettles ended.result) (finishCommand w alreadyForked captured lastarg ended)
      CommandSettles (LeavesFailing w) := by
  unfold finishCommand
  refine holds_ite (fun _ => holds_ret fun s hs => hs) fun _ => ?_
  refine Preserves.bind_holds (fun _ h => h) fun _ => ?_
  refine Preserves.bind_holds (I := CommandSettles ended.result) ?_ fun ⟨stdout, stderr⟩ => ?_
  · exact preserves_ite (fun _ h => h) fun _ h => h
  refine Preserves.bind_holds (preserves_ite (commandSettles_observe w ended.words ended.result
    stdout stderr ended.result) fun _ h => h) fun _ => ?_
  exact Preserves.bind_holds (fun _ h => h) fun _ => holds_ret fun s hs => hs

/-! ## Commands without words -/

/-- The status that its redirections leave a command without words; `carriedOut` is its status
when they succeed, and `caught` says whether it catches jumps. -/
def RedirectionRun.status (run : RedirectionRun σ Θ) (w : SimpleWorld σ Θ) (caught : Bool)
    (carriedOut : Status) : Status :=
  match run.outcome with
  | .ok r => if r = 0 then carriedOut else executionFailure
  | .error (.jump code) =>
      if caught then executionFailure else leaveStatus w run.shell (.departs (.jump code))
  | .error d => leaveStatus w run.shell (.departs d)

/-- The child of a command without words, in front of its redirections. -/
def nullChildShell (w : SimpleWorld σ Θ) (pipeIn pipeOut : Int) (async : Bool)
    (p : Shell σ Θ) : Shell σ Θ :=
  let child := w.doPiping pipeIn pipeOut (w.makeChild true async p).2
  { child with globals := { child.globals with interactive := false } }

/-- The files that a command without words opens, and its status. -/
def nullOutcome (w : SimpleWorld σ Θ) (redirects : List Redirect) (pipeIn pipeOut : Int)
    (async alreadyForked : Bool) (p : Shell σ Θ) : List Redirect × Status :=
  if forcefork w redirects p ∨ pipeIn ≠ noPipe ∨ pipeOut ≠ noPipe ∨ async then
    match w.makeChild false async p with
    | (.error d, parent) => ([], leaveStatus w parent (.departs d))
    | (.ok _, _) =>
        let run := w.doRedirections redirects false (nullChildShell w pipeIn pipeOut async p)
        -- the process that has forked before leaves without waiting for this child
        (run.opened, if alreadyForked then executionSuccess
          else run.status w true executionSuccess)
  else
    let run := w.doRedirections redirects true p
    let subst := (w.cleanupRedirects run.shell).globals.lastCommandSubst.getD executionSuccess
    (run.opened, run.status w false (if alreadyForked then exitStatus subst else subst))

/-- What comes of a command whose words the stage `expand` denied. -/
def expandDeniedOutcome (w : SimpleWorld σ Θ) (call : SimpleCall) (alreadyForked : Bool)
    (p : Shell σ Θ) : List Redirect × Status :=
  nullOutcome w call.command.redirects (if alreadyForked then noPipe else call.pipeIn)
    (if alreadyForked then noPipe else call.pipeOut) (call.async && !alreadyForked) alreadyForked
    p

/-- The expansion of the words is reached, in the state `s'`. -/
def ReachesExpansion (w : SimpleWorld σ Θ) (child : Bool) (call : SimpleCall)
    (s : SimpleState σ Θ) (alreadyForked : Bool) (s' : SimpleState σ Θ) : Prop :=
  ∃ s₁, startSimple w child call s = (.ok (.goesOn alreadyForked), s₁) ∧
    quit w s₁ = (.ok (), s') ∧ call.flags.inhibitExpansion = false

/-- The stage `expand` denies only commands whose redirections open no file and fail. -/
def ExpandDenialsFail (w : SimpleWorld σ Θ) (child : Bool) (call : SimpleCall)
    (s : SimpleState σ Θ) : Prop :=
  ∀ alreadyForked s', ReachesExpansion w child call s alreadyForked s' →
    (rashHooksTryLuaExpand w.hookFiles call.command.words s').1 = .denied →
      (expandDeniedOutcome w call alreadyForked
        (rashHooksTryLuaExpand w.hookFiles call.command.words s').2.shell).1 = [] ∧
      (expandDeniedOutcome w call alreadyForked
        (rashHooksTryLuaExpand w.hookFiles call.command.words s').2.shell).2 ≠ 0

/-! ## The status of a command -/

/-- What `last_command_exit_value` is set to for a command: the status of the child that it
made, else its own. -/
def commandStatus (w : SimpleWorld σ Θ) (r : Except Leave Status × SimpleState σ Θ) : Status :=
  match r.1 with
  | .ok status => r.2.madeChild.getD status
  | .error x => leaveStatus w r.2.shell x

/-- Behind a denial nothing took effect, and the command failed. -/
def DenialStops (w : SimpleWorld σ Θ) (r : Except Leave Status × SimpleState σ Θ) : Prop :=
  (∃ kind, SimpleEvent.denied kind ∈ r.2.events) →
    StopsAtDenial r.2.events ∧ commandStatus w r ≠ 0

theorem Fails.ne_zero {status : Status} (h : Fails status) : status ≠ 0 := by
  rintro rfl
  exact h.1 rfl

theorem denialStops_of_ends {w : SimpleWorld σ Θ} {r : Except Leave Status × SimpleState σ Θ}
    (h : Ends CommandSettles (LeavesFailing w) r) : DenialStops w r := by
  rintro ⟨kind, hdenied⟩
  obtain ⟨answer, s⟩ := r
  cases answer with
  | error x =>
      rcases h with hs | ⟨hs, hstatus⟩
      · exact absurd hdenied (hs kind)
      · exact ⟨hs.stopsAtDenial, hstatus⟩
  | ok status =>
      rcases h with hs | ⟨hs, hfails⟩ | ⟨hs, c, hchild, hc⟩
      · exact absurd hdenied (hs kind)
      · refine ⟨hs.1.stopsAtDenial, ?_⟩
        unfold commandStatus
        dsimp only
        rw [hs.2]
        exact hfails.ne_zero
      · refine ⟨hs.stopsAtDenial, ?_⟩
        unfold commandStatus
        dsimp only
        rw [hchild]
        exact hc

/-- Files that are opened behind a denial are all that can go wrong there, but for the
status. -/
theorem denialStops_iff {w : SimpleWorld σ Θ} {r : Except Leave Status × SimpleState σ Θ}
    {s : SimpleState σ Θ} {opened : List Redirect} (hs : Stopped s)
    (hevents : r.2.events = s.events ++ opened.map .opened) :
    DenialStops w r ↔ opened = [] ∧ commandStatus w r ≠ 0 := by
  constructor
  · intro hstops
    obtain ⟨kind, hdenied⟩ := hs.denied
    obtain ⟨hstop, hstatus⟩ := hstops ⟨kind, by rw [hevents]; simp [hdenied]⟩
    refine ⟨?_, hstatus⟩
    cases opened with
    | nil => rfl
    | cons rd rest =>
        obtain ⟨before, kind, after, hsplit, -, -⟩ := hs
        have heffect := hstop before kind (after ++ (rd :: rest).map .opened)
          (by rw [hevents, hsplit]; simp) (.opened rd) (by simp)
        cases heffect
  · rintro ⟨rfl, hstatus⟩ -
    refine ⟨?_, hstatus⟩
    rw [hevents, List.map_nil, List.append_nil]
    exact hs.stopsAtDenial

/-! ## Behind a denial of the stage `expand` -/

/-- What `execute_simple_command` does without words. -/
def nullCommand (w : SimpleWorld σ Θ) (redirects : List Redirect) (pipeIn pipeOut : Int)
    (async alreadyForked : Bool) : Code σ Θ Status := do
  let result ← executeNullCommand w redirects pipeIn pipeOut async
  if alreadyForked then Code.exit result
  else do
    update (w.bindLastarg "")
    return result

theorem doRedirections_ok {w : SimpleWorld σ Θ} {redirects : List Redirect} {undoable : Bool}
    {s : SimpleState σ Θ} {r : Status}
    (h : (w.doRedirections redirects undoable s.shell).outcome = .ok r) :
    doRedirections w redirects undoable s = (.ok r, { s with
      shell := (w.doRedirections redirects undoable s.shell).shell
      events := s.events ++
        (w.doRedirections redirects undoable s.shell).opened.map .opened }) := by
  unfold doRedirections
  dsimp only
  rw [h]
  rfl

theorem doRedirections_error {w : SimpleWorld σ Θ} {redirects : List Redirect}
    {undoable : Bool} {s : SimpleState σ Θ} {d : Departure}
    (h : (w.doRedirections redirects undoable s.shell).outcome = .error d) :
    doRedirections w redirects undoable s = (.error (.departs d), { s with
      shell := (w.doRedirections redirects undoable s.shell).shell
      events := s.events ++
        (w.doRedirections redirects undoable s.shell).opened.map .opened }) := by
  unfold doRedirections
  dsimp only
  rw [h]
  rfl

/-- The redirections of the child, where jumps are caught. -/
theorem nullChild_outcome (w : SimpleWorld σ Θ) (redirects : List Redirect)
    (s : SimpleState σ Θ) :
    let run := w.doRedirections redirects false s.shell
    let ended := atTopLevel (A := Empty) (fun _ => Code.exit executionFailure) (do
      let r ← doRedirections w redirects false
      if r = 0 then Code.exit executionSuccess else Code.exit executionFailure) s
    ended.2.events = s.events ++ run.opened.map .opened ∧
      childStatus w ended.2.shell ended.1 = run.status w true executionSuccess := by
  intro run ended
  simp only [ended]
  unfold atTopLevel catching RedirectionRun.status
  cases houtcome : run.outcome with
  | ok r =>
      rw [bind_ok (doRedirections_ok houtcome)]
      by_cases hr : r = 0
      · simp only [hr, if_true]
        exact ⟨rfl, rfl⟩
      · simp only [hr, if_false]
        exact ⟨rfl, rfl⟩
  | error d =>
      rw [bind_error (doRedirections_error houtcome)]
      cases d with
      | exit status => exact ⟨rfl, rfl⟩
      | exec => exact ⟨rfl, rfl⟩
      | jump code => exact ⟨rfl, rfl⟩

theorem nullCommand_exits {w : SimpleWorld σ Θ} {redirects : List Redirect}
    {pipeIn pipeOut : Int} {async : Bool} (alreadyForked : Bool) {s s' : SimpleState σ Θ}
    {x : Leave} (h : executeNullCommand w redirects pipeIn pipeOut async s = (.error x, s')) :
    (nullCommand w redirects pipeIn pipeOut async alreadyForked s).2.events = s'.events ∧
      commandStatus w (nullCommand w redirects pipeIn pipeOut async alreadyForked s) =
        leaveStatus w s'.shell x := by
  unfold nullCommand
  rw [bind_error h]
  exact ⟨rfl, rfl⟩

theorem nullCommand_returns {w : SimpleWorld σ Θ} {redirects : List Redirect}
    {pipeIn pipeOut : Int} {async : Bool} (alreadyForked : Bool) {s s' : SimpleState σ Θ}
    {result : Status}
    (h : executeNullCommand w redirects pipeIn pipeOut async s = (.ok result, s')) :
    (nullCommand w redirects pipeIn pipeOut async alreadyForked s).2.events = s'.events ∧
      commandStatus w (nullCommand w redirects pipeIn pipeOut async alreadyForked s) =
        if alreadyForked then exitStatus result else s'.madeChild.getD result := by
  unfold nullCommand
  rw [bind_ok h]
  cases alreadyForked with
  | true => exact ⟨rfl, rfl⟩
  | false => exact ⟨rfl, rfl⟩

theorem forkChild_ok {w : SimpleWorld σ Θ} {async : Bool} {environment : SubshellEnvironment}
    {child : Code σ Θ Empty} {s : SimpleState σ Θ} {parent : Shell σ Θ}
    (h : w.makeChild false async s.shell = (.ok (), parent)) :
    let ended := child { s with
      shell := (w.makeChild true async s.shell).2
      subshellEnvironment := environment
      madeChild := none }
    forkChild w async environment child s = (.ok (), { s with
      shell := w.childRan parent ended.2.shell
      madeChild := some (childStatus w ended.2.shell ended.1)
      events := ended.2.events }) := by
  intro ended
  unfold forkChild
  rw [h]

theorem nullCommand_forked (w : SimpleWorld σ Θ) {redirects : List Redirect}
    {pipeIn pipeOut : Int} {async : Bool} (alreadyForked : Bool) {s : SimpleState σ Θ}
    (hforks : forcefork w redirects s.shell ∨ pipeIn ≠ noPipe ∨ pipeOut ≠ noPipe ∨ async) :
    (nullCommand w redirects pipeIn pipeOut async alreadyForked s).2.events = s.events ++
        (nullOutcome w redirects pipeIn pipeOut async alreadyForked s.shell).1.map .opened ∧
      commandStatus w (nullCommand w redirects pipeIn pipeOut async alreadyForked s) =
        (nullOutcome w redirects pipeIn pipeOut async alreadyForked s.shell).2 := by
  unfold nullOutcome
  rw [if_pos hforks]
  cases hchild : w.makeChild false async s.shell with
  | mk answer parent =>
      cases answer with
      | error d =>
          have hrun : executeNullCommand w redirects pipeIn pipeOut async s =
              (.error (.departs d), { s with shell := parent }) := by
            unfold executeNullCommand
            simp only [shell, reads_bind]
            rw [if_pos hforks]
            apply bind_error
            unfold forkChild
            rw [hchild]
          obtain ⟨hevents, hstatus⟩ := nullCommand_exits alreadyForked hrun
          exact ⟨by rw [hevents, List.map_nil, List.append_nil], hstatus⟩
      | ok _ =>
          obtain ⟨run, hstart⟩ : ∃ run, run = w.doRedirections redirects false
              (nullChildShell w pipeIn pipeOut async s.shell) := ⟨_, rfl⟩
          have hrun : ∃ s', executeNullCommand w redirects pipeIn pipeOut async s =
              (.ok executionSuccess, s') ∧ s'.events = s.events ++ run.opened.map .opened ∧
                s'.madeChild = some (run.status w true executionSuccess) := by
            obtain ⟨hopened, hended⟩ := nullChild_outcome w redirects
              { s with
                shell := nullChildShell w pipeIn pipeOut async s.shell
                subshellEnvironment := { SubshellEnvironment.none with
                  async := async, pipe := decide (pipeIn ≠ noPipe ∨ pipeOut ≠ noPipe) }
                madeChild := none }
            rw [← hstart] at hopened hended
            unfold executeNullCommand
            simp only [shell, reads_bind]
            rw [if_pos hforks]
            exact ⟨_, bind_ok (forkChild_ok hchild), hopened, congrArg some hended⟩
          obtain ⟨s', hrun, hevents, hmade⟩ := hrun
          obtain ⟨hevents', hstatus⟩ := nullCommand_returns alreadyForked hrun
          dsimp only
          rw [← hstart]
          refine ⟨hevents'.trans hevents, hstatus.trans ?_⟩
          rw [hmade]
          rfl

theorem nullCommand_inShell (w : SimpleWorld σ Θ) {redirects : List Redirect}
    {pipeIn pipeOut : Int} {async : Bool} (alreadyForked : Bool) {s : SimpleState σ Θ}
    (hs : s.madeChild = none)
    (hforks : ¬ (forcefork w redirects s.shell ∨ pipeIn ≠ noPipe ∨ pipeOut ≠ noPipe ∨ async)) :
    (nullCommand w redirects pipeIn pipeOut async alreadyForked s).2.events = s.events ++
        (nullOutcome w redirects pipeIn pipeOut async alreadyForked s.shell).1.map .opened ∧
      commandStatus w (nullCommand w redirects pipeIn pipeOut async alreadyForked s) =
        (nullOutcome w redirects pipeIn pipeOut async alreadyForked s.shell).2 := by
  unfold nullOutcome
  rw [if_neg hforks]
  obtain ⟨run, hstart⟩ : ∃ run, run = w.doRedirections redirects true s.shell := ⟨_, rfl⟩
  dsimp only
  rw [← hstart]
  unfold RedirectionRun.status
  cases houtcome : run.outcome with
  | error d =>
      have hrun : executeNullCommand w redirects pipeIn pipeOut async s =
          (.error (.departs d), { s with
            shell := run.shell
            events := s.events ++ run.opened.map .opened }) := by
        unfold executeNullCommand
        simp only [shell, reads_bind]
        rw [if_neg hforks, hstart]
        exact bind_error (doRedirections_error (by rw [← hstart, houtcome]))
      obtain ⟨hevents, hstatus⟩ := nullCommand_exits alreadyForked hrun
      refine ⟨hevents, hstatus.trans ?_⟩
      cases d with
      | exit status => rfl
      | exec => rfl
      | jump code => rfl
  | ok r =>
      have hrun : executeNullCommand w redirects pipeIn pipeOut async s =
          (.ok (if r ≠ 0 then executionFailure else
            (w.cleanupRedirects run.shell).globals.lastCommandSubst.getD executionSuccess),
          { s with
            shell := w.cleanupRedirects run.shell
            events := s.events ++ run.opened.map .opened }) := by
        unfold executeNullCommand
        simp only [shell, reads_bind]
        rw [if_neg hforks, hstart]
        rw [bind_ok (doRedirections_ok (by rw [← hstart, houtcome]))]
        by_cases hr : r = 0
        · simp only [hr, ne_eq, not_true_eq_false, if_false]
          rfl
        · simp only [hr, ne_eq, not_false_eq_true, if_true]
          rfl
      obtain ⟨hevents, hstatus⟩ := nullCommand_returns alreadyForked hrun
      refine ⟨hevents, hstatus.trans ?_⟩
      rw [hs]
      by_cases hr : r = 0
      · simp only [hr, ne_eq, not_true_eq_false, if_true, if_false, Option.getD_none]
      · simp only [hr, ne_eq, not_false_eq_true, if_true, if_false, Option.getD_none]
        cases alreadyForked with
        | true => rfl
        | false => rfl

theorem nullCommand_outcome (w : SimpleWorld σ Θ) (redirects : List Redirect)
    (pipeIn pipeOut : Int) (async alreadyForked : Bool) {s : SimpleState σ Θ}
    (hs : s.madeChild = none) :
    (nullCommand w redirects pipeIn pipeOut async alreadyForked s).2.events = s.events ++
        (nullOutcome w redirects pipeIn pipeOut async alreadyForked s.shell).1.map .opened ∧
      commandStatus w (nullCommand w redirects pipeIn pipeOut async alreadyForked s) =
        (nullOutcome w redirects pipeIn pipeOut async alreadyForked s.shell).2 := by
  by_cases hforks : forcefork w redirects s.shell ∨ pipeIn ≠ noPipe ∨ pipeOut ≠ noPipe ∨ async
  · exact nullCommand_forked w alreadyForked hforks
  · exact nullCommand_inShell w alreadyForked hs hforks

/-! ## The command -/

/-- A command that has ended has failed behind a denial; none was seen of one that goes on. -/
def PreparedSettles (prepared : Prepared) (s : SimpleState σ Θ) : Prop :=
  match prepared with
  | .ended status => CommandSettles status s
  | .ready _ _ _ => Clean s

theorem clean_checkTempenv (isSpecial : Bool) :
    StaysClean (checkTempenv isSpecial : Code σ Θ Unit) := by
  unfold checkTempenv
  refine (clean_globals _).bind fun g => preserves_ite ?_ (clean_setGlobals _)
  exact (clean_setGlobals _).bind fun _ => preserves_ite (clean_depart _) (clean_depart _)

theorem clean_resolveWords (w : SimpleWorld σ Θ) (words : List WordDesc)
    (flags : CommandFlags) : StaysClean (resolveWords w words flags) := by
  unfold resolveWords
  refine (clean_onlyIf (clean_update _)).bind fun _ => (clean_shell _).bind fun resolved => ?_
  refine (clean_checkTempenv _).bind fun _ => (clean_globals _).bind fun marked => ?_
  refine (clean_onlyIf (clean_setGlobals _)).bind fun _ => (clean_quit w).bind fun _ => ?_
  exact preserves_pure _

theorem wantsStdio_clean (w : SimpleWorld σ Θ) {s : SimpleState σ Θ} (hs : Clean s) :
    Clean (wantsStdio w s).2 := by
  have hafter := (afterStage.wanted_asked w.hookFiles s).clean hs
  unfold wantsStdio
  dsimp only
  split
  · exact hafter
  · unfold rashHooksWantStdioBundle
    dsimp only
    exact (stdioBundleStage.wanted_asked w.hookFiles _).clean hafter

theorem settles_prepareWords {w : SimpleWorld σ Θ} (call : SimpleCall) (alreadyForked : Bool)
    (flags : CommandFlags) (words : List WordDesc) :
    Holds Clean (prepareWords w call alreadyForked flags words) PreparedSettles
      (LeavesFailing w) := by
  unfold prepareWords
  refine Holds.bind (p := Decided) ?_ fun denied => ?_
  · refine holds_ite (fun _ => holds_ret fun s hs => hs) fun _ => ?_
    exact holds_step fun s hs => (rashHooksBeforeSimple_answered w.hookFiles words s).decided hs
  · cases denied with
    | true => exact fun s hs => .inr (.inl ⟨hs, fails_executionFailure⟩)
    | false =>
        refine StaysClean.next (preserves_ite (preserves_pure _) ?_) fun wants => ?_
        · exact preserves_step fun s hs => wantsStdio_clean w hs
        refine StaysClean.next (preserves_ite (clean_always _) (preserves_pure _))
          fun captured => ?_
        exact (clean_resolveWords w words flags).next fun found => holds_ret fun s hs => hs

theorem clean_startSimple (w : SimpleWorld σ Θ) (child : Bool) (call : SimpleCall) :
    StaysClean (startSimple w child call) := by
  unfold startSimple
  refine (clean_setGlobals _).bind fun _ => (clean_quit w).bind fun _ => ?_
  refine (clean_call _).bind fun result => (clean_globals _).bind fun debugging => ?_
  refine preserves_ite (preserves_pure _) ?_
  refine (clean_setGlobals _).bind fun _ => preserves_ite ?_ (preserves_pure _)
  cases child with
  | true =>
      refine Preserves.bind ?_ fun _ => preserves_pure _
      unfold startChild
      refine (clean_call _).bind fun _ => Preserves.bind ?_ fun _ => clean_update _
      exact preserves_modify fun s hs => ⟨hs.1, rfl⟩
  | false =>
      refine (clean_call _).bind fun _ => (clean_globals _).bind fun last => ?_
      exact (clean_update _).bind fun _ => preserves_pure _

/-- The expansion sees no denial, or it leaves no words. -/
theorem rashStageExpandSimpleWords_ends (w : SimpleWorld σ Θ) (words : List WordDesc)
    (flags : CommandFlags) {s : SimpleState σ Θ} (hs : Clean s)
    (hexpand : flags.inhibitExpansion = false →
      (rashHooksTryLuaExpand w.hookFiles words s).1 ≠ .denied) :
    Ends (fun _ => Clean) (fun _ => NoDenial) (rashStageExpandSimpleWords w words flags s) := by
  unfold rashStageExpandSimpleWords
  split
  · exact hs
  · rename_i hinhibit
    rw [Bool.not_eq_true] at hinhibit
    have hanswered := rashHooksTryLuaExpand_answered w.hookFiles words s
    rw [step_bind]
    rw [decide_eq_false (hexpand hinhibit)] at hanswered
    have hclean := hanswered.decided hs
    cases hanswer : (rashHooksTryLuaExpand w.hookFiles words s).1 with
    | words built => exact hclean
    | cExpand => exact clean_call _ _ hclean
    | denied => exact absurd hanswer (hexpand hinhibit)

theorem executeForked_noWords {w : SimpleWorld σ Θ} {call : SimpleCall} {alreadyForked : Bool}
    {s s₁ s₂ : SimpleState σ Θ} (hquit : quit w s = (.ok (), s₁))
    (hexpand : rashStageExpandSimpleWords w call.command.words
      { call.flags with noFork := call.flags.noFork || alreadyForked } s₁ = (.ok [], s₂)) :
    executeForked w call alreadyForked s = nullCommand w call.command.redirects
      (if alreadyForked then noPipe else call.pipeIn)
      (if alreadyForked then noPipe else call.pipeOut) (call.async && !alreadyForked)
      alreadyForked s₂ := by
  have hprepared : prepareCommand w call alreadyForked s = (do
      let result ← executeNullCommand w call.command.redirects
        (if alreadyForked then noPipe else call.pipeIn)
        (if alreadyForked then noPipe else call.pipeOut) (call.async && !alreadyForked)
      if alreadyForked then Code.exit result
      else do
        update (w.bindLastarg "")
        return Prepared.ended result : Code σ Θ Prepared) s₂ := by
    unfold prepareCommand
    rw [bind_ok hquit]
    dsimp only
    rw [bind_ok hexpand, if_pos rfl]
  unfold executeForked nullCommand
  cases hnull : executeNullCommand w call.command.redirects
      (if alreadyForked then noPipe else call.pipeIn)
      (if alreadyForked then noPipe else call.pipeOut) (call.async && !alreadyForked) s₂ with
  | mk answer s₃ =>
      cases answer with
      | error x =>
          rw [bind_error hnull] at hprepared ⊢
          exact bind_error hprepared
      | ok result =>
          rw [bind_ok hnull] at hprepared ⊢
          cases alreadyForked with
          | true => exact bind_error hprepared
          | false => exact bind_ok hprepared

theorem executeForked_words {w : SimpleWorld σ Θ} (hquits : QuitFails w) {call : SimpleCall}
    {alreadyForked : Bool} {s s₁ s₂ : SimpleState σ Θ} {words : List WordDesc}
    (hquit : quit w s = (.ok (), s₁))
    (hexpand : rashStageExpandSimpleWords w call.command.words
      { call.flags with noFork := call.flags.noFork || alreadyForked } s₁ = (.ok words, s₂))
    (hwords : words ≠ []) (hs : Clean s₂) :
    Ends CommandSettles (LeavesFailing w) (executeForked w call alreadyForked s) := by
  have hprepared : prepareCommand w call alreadyForked s = prepareWords w call alreadyForked
      { call.flags with noFork := call.flags.noFork || alreadyForked } words s₂ := by
    unfold prepareCommand
    rw [bind_ok hquit]
    dsimp only
    rw [bind_ok hexpand, if_neg hwords]
  have hholds : Holds (· = s) (prepareCommand w call alreadyForked) PreparedSettles
      (LeavesFailing w) := by
    apply holds_at
    rw [hprepared]
    exact settles_prepareWords call alreadyForked _ words s₂ hs
  unfold executeForked
  refine Holds.bind hholds (fun prepared => ?_) s rfl
  cases prepared with
  | ended result => exact holds_ret fun s hs => hs
  | ready captured resolved oldCommandBuiltin =>
      exact Holds.bind (settles_dispatchResolved hquits call alreadyForked resolved
        oldCommandBuiltin) fun ended => settles_finishCommand alreadyForked captured _ ended

theorem ends_of_noDenial {w : SimpleWorld σ Θ} {r : Except Leave Status × SimpleState σ Θ}
    (h : NoDenial r.2) : Ends CommandSettles (LeavesFailing w) r := by
  obtain ⟨answer, s⟩ := r
  cases answer with
  | error x => exact .inl h
  | ok status => exact .inl h

theorem executeForked_stops {w : SimpleWorld σ Θ} (hquits : QuitFails w) {call : SimpleCall}
    {alreadyForked : Bool} {s s₁ : SimpleState σ Θ} (hquit : quit w s = (.ok (), s₁))
    (hs : Clean s₁)
    (hexpand : call.flags.inhibitExpansion = false →
      (rashHooksTryLuaExpand w.hookFiles call.command.words s₁).1 ≠ .denied) :
    Ends CommandSettles (LeavesFailing w) (executeForked w call alreadyForked s) := by
  have hends := rashStageExpandSimpleWords_ends w call.command.words
    { call.flags with noFork := call.flags.noFork || alreadyForked } hs hexpand
  cases hrun : rashStageExpandSimpleWords w call.command.words
      { call.flags with noFork := call.flags.noFork || alreadyForked } s₁ with
  | mk answer s₂ =>
      rw [hrun] at hends
      cases answer with
      | error x =>
          apply ends_of_noDenial
          have hprepared : prepareCommand w call alreadyForked s = (.error x, s₂) := by
            unfold prepareCommand
            rw [bind_ok hquit]
            exact bind_error hrun
          unfold executeForked
          rw [bind_error hprepared]
          exact hends
      | ok words =>
          by_cases hwords : words = []
          · subst hwords
            rw [executeForked_noWords hquit hrun]
            apply ends_of_noDenial
            apply hends.1.append (nullCommand_outcome w _ _ _ _ _ hends.2).1
            simp
          · exact executeForked_words hquits hquit hrun hwords hends

theorem executeForked_expandDenied_iff {w : SimpleWorld σ Θ} {call : SimpleCall}
    {alreadyForked : Bool} {s s₁ : SimpleState σ Θ} (hquit : quit w s = (.ok (), s₁))
    (hs : Clean s₁) (hinhibit : call.flags.inhibitExpansion = false)
    (hdenied : (rashHooksTryLuaExpand w.hookFiles call.command.words s₁).1 = .denied) :
    DenialStops w (executeForked w call alreadyForked s) ↔
      (expandDeniedOutcome w call alreadyForked
        (rashHooksTryLuaExpand w.hookFiles call.command.words s₁).2.shell).1 = [] ∧
      (expandDeniedOutcome w call alreadyForked
        (rashHooksTryLuaExpand w.hookFiles call.command.words s₁).2.shell).2 ≠ 0 := by
  have hanswered := rashHooksTryLuaExpand_answered w.hookFiles call.command.words s₁
  rw [decide_eq_true hdenied] at hanswered
  have hhalted : Halted (rashHooksTryLuaExpand w.hookFiles call.command.words s₁).2 :=
    hanswered.decided hs
  have hexpand : rashStageExpandSimpleWords w call.command.words
      { call.flags with noFork := call.flags.noFork || alreadyForked } s₁ =
        (.ok [], (rashHooksTryLuaExpand w.hookFiles call.command.words s₁).2) := by
    unfold rashStageExpandSimpleWords
    simp only [hinhibit, Bool.false_eq_true, if_false, step_bind]
    rw [hdenied]
    rfl
  rw [executeForked_noWords hquit hexpand]
  obtain ⟨hevents, hstatus⟩ := nullCommand_outcome w call.command.redirects
    (if alreadyForked then noPipe else call.pipeIn)
    (if alreadyForked then noPipe else call.pipeOut) (call.async && !alreadyForked) alreadyForked
    hhalted.2
  rw [denialStops_iff hhalted.1 hevents, hstatus]
  rfl

theorem executeForked_denialStops_iff {w : SimpleWorld σ Θ} (hquits : QuitFails w)
    {call : SimpleCall} {alreadyForked : Bool} {s : SimpleState σ Θ} (hs : Clean s) :
    DenialStops w (executeForked w call alreadyForked s) ↔
      ∀ s', quit w s = (.ok (), s') → call.flags.inhibitExpansion = false →
        (rashHooksTryLuaExpand w.hookFiles call.command.words s').1 = .denied →
          (expandDeniedOutcome w call alreadyForked
            (rashHooksTryLuaExpand w.hookFiles call.command.words s').2.shell).1 = [] ∧
          (expandDeniedOutcome w call alreadyForked
            (rashHooksTryLuaExpand w.hookFiles call.command.words s').2.shell).2 ≠ 0 := by
  have hends := clean_quit w s hs
  cases hquit : quit w s with
  | mk answer s₁ =>
      rw [hquit] at hends
      cases answer with
      | error x =>
          have hprepared : prepareCommand w call alreadyForked s = (.error x, s₁) := by
            unfold prepareCommand
            exact bind_error hquit
          constructor
          · rintro - s' hreached
            cases hreached
          · intro _
            apply denialStops_of_ends
            apply ends_of_noDenial
            unfold executeForked
            rw [bind_error hprepared]
            exact hends
      | ok _ =>
          by_cases hdenied : call.flags.inhibitExpansion = false ∧
              (rashHooksTryLuaExpand w.hookFiles call.command.words s₁).1 = .denied
          · rw [executeForked_expandDenied_iff hquit hends hdenied.1 hdenied.2]
            constructor
            · rintro houtcome s' hreached - -
              cases hreached
              exact houtcome
            · exact fun hfails => hfails s₁ rfl hdenied.1 hdenied.2
          · constructor
            · rintro - s' hreached hinhibit hanswer
              cases hreached
              exact absurd ⟨hinhibit, hanswer⟩ hdenied
            · intro _
              apply denialStops_of_ends
              exact executeForked_stops hquits hquit hends fun hinhibit hanswer =>
                hdenied ⟨hinhibit, hanswer⟩

/-- The process in front of a command, of which nothing has been seen yet. -/
def SimpleState.atCommand (s : SimpleState σ Θ) : SimpleState σ Θ :=
  { s with madeChild := none, events := [] }

/-- Behind a denial at any stage no file of the command is opened and nothing of it is run, and
the command fails, if and only if the stage `expand` denies only commands whose redirections
open no file and fail. -/
theorem executeSimpleCommand_denialStops_iff (w : SimpleWorld σ Θ) (hquits : QuitFails w)
    (child : Bool) (call : SimpleCall) (s : SimpleState σ Θ) :
    DenialStops w (executeSimpleCommand w child call s.atCommand) ↔
      ExpandDenialsFail w child call s.atCommand := by
  have hbegin : Clean s.atCommand := ⟨fun _ => List.not_mem_nil, rfl⟩
  have hstart := clean_startSimple w child call s.atCommand hbegin
  unfold executeSimpleCommand ExpandDenialsFail ReachesExpansion
  cases hrun : startSimple w child call s.atCommand with
  | mk answer s₁ =>
      rw [hrun] at hstart
      cases answer with
      | error x =>
          rw [bind_error hrun]
          constructor
          · rintro - alreadyForked s' ⟨s₂, hreached, -⟩
            cases hreached
          · exact fun _ => denialStops_of_ends (ends_of_noDenial hstart)
      | ok start =>
          rw [bind_ok hrun]
          cases start with
          | returns status =>
              constructor
              · rintro - alreadyForked s' ⟨s₂, hreached, -⟩
                cases hreached
              · exact fun _ => denialStops_of_ends (.inl hstart.1)
          | goesOn alreadyForked =>
              rw [executeForked_denialStops_iff hquits hstart]
              constructor
              · rintro hfails forked s' ⟨s₂, hreached, hquit, hinhibit⟩
                cases hreached
                exact hfails s' hquit hinhibit
              · intro hfails s' hquit hinhibit
                exact hfails alreadyForked s' ⟨s₁, rfl, hquit, hinhibit⟩

/-- `echo > log` -/
def echoToLog : SimpleCall :=
  ⟨⟨[⟨"echo", 0⟩], [⟨.dest 1, 0, 0, .outputDirection, .filename ⟨"log", 0⟩⟩]⟩, .none, noPipe,
    noPipe, false⟩

/-- The stage `expand` denies `echo > log`: the file is created behind the denial, and the
command succeeds. -/
theorem executeSimpleCommand_denial_opens :
    let r := executeSimpleCommand (plainMachine [(.expandHook, denyingCallback)]) false echoToLog
      freshShell.atCommand
    r.2.events = [.consulted .expandHook 0 true, .printed "rash: denied: no",
        .denied .expandHook, .opened ⟨.dest 1, 0, 0, .outputDirection, .filename ⟨"log", 0⟩⟩] ∧
      r.1 = .ok executionSuccess ∧
      ¬ DenialStops (plainMachine [(.expandHook, denyingCallback)]) r := by
  intro r
  have hevents : r.2.events = [.consulted .expandHook 0 true, .printed "rash: denied: no",
      .denied .expandHook, .opened ⟨.dest 1, 0, 0, .outputDirection, .filename ⟨"log", 0⟩⟩] := rfl
  refine ⟨hevents, rfl, fun hstops => ?_⟩
  exact (hstops ⟨.expandHook, by simp [hevents]⟩).2 rfl

/-- The stage `before` denies `echo > log`. -/
theorem executeSimpleCommand_denialStops_before :
    DenialStops (plainMachine [(.before, denyingCallback)])
      (executeSimpleCommand (plainMachine [(.before, denyingCallback)]) false echoToLog
        freshShell.atCommand) := by
  refine (executeSimpleCommand_denialStops_iff _ (fun _ _ _ h => by cases h) false echoToLog
    freshShell).mpr ?_
  rintro alreadyForked s' ⟨s₁, hstart, hquit, -⟩ hdenied
  cases hstart
  cases hquit
  cases hdenied

end Rash
