import Rash.Exec.Pipeline

/-!
# The callbacks of a pipeline

What the callbacks of the two stages leave behind: lines, calls of `rash.exec_with_stdin`
and the children of these calls, which run only what the callbacks ask for.
-/

namespace Rash

open Interaction

variable {σ Θ ω E : Type}

namespace PipeEvent

def isProducer : PipeEvent E → Bool
  | .producer _ => true
  | _ => false

def isConsumer : PipeEvent E → Bool
  | .consumer _ _ => true
  | _ => false

def isExecWithStdin : PipeEvent E → Bool
  | .execWithStdin => true
  | _ => false

def isOrdinary : PipeEvent E → Bool
  | .ordinary => true
  | _ => false

/-- What the ports and the loops over callbacks leave behind. -/
def ofCallback : PipeEvent E → Bool
  | .execWithStdin | .consumer _ _ | .printed _ => true
  | _ => false

end PipeEvent

/-! ## What callbacks can do -/

/-- The program calls `rash.exec_with_stdin` only for argument vectors in `P`. -/
def AsksFor (P : List String → Prop) (p : Prog (PipeOp σ) PipeOp.Ans LuaResult) : Prop :=
  p.Uses fun o => ∀ entries bytes argv, o = .execWithStdin (some entries) bytes →
    entries.mapM id = some argv → P argv

/-- From `s` to `s'` callbacks ran, `added` was noted, and children run what `P` admits. -/
structure Consulted (P : List String → Prop) (s s' : PipeState σ Θ ω E)
    (added : List (PipeEvent E)) : Prop where
  sys : s'.sys = s.sys
  shell : s'.shell = s.shell
  runningTrap : s'.runningTrap = s.runningTrap
  events : s'.events = s.events ++ added
  ofCallback : ∀ e ∈ added, e.ofCallback = true
  asked : added.countP PipeEvent.isConsumer ≤ added.countP PipeEvent.isExecWithStdin
  admitted : ∀ argv bytes, .consumer argv bytes ∈ added → P argv
  handled : s'.downloadPipeHandled = true →
    s.downloadPipeHandled = true ∨ ∃ e ∈ added, e.isConsumer = true

namespace Consulted

variable {P : List String → Prop}

theorem refl (s : PipeState σ Θ ω E) : Consulted P s s [] :=
  ⟨rfl, rfl, rfl, (List.append_nil _).symm, by simp, by simp, by simp, Or.inl⟩

theorem trans {s₁ s₂ s₃ : PipeState σ Θ ω E} {added added' : List (PipeEvent E)}
    (h : Consulted P s₁ s₂ added) (h' : Consulted P s₂ s₃ added') :
    Consulted P s₁ s₃ (added ++ added') := by
  refine ⟨h'.sys.trans h.sys, h'.shell.trans h.shell, h'.runningTrap.trans h.runningTrap,
    ?_, ?_, ?_, ?_, ?_⟩
  · rw [h'.events, h.events, List.append_assoc]
  · intro e he
    rcases List.mem_append.mp he with he | he
    · exact h.ofCallback e he
    · exact h'.ofCallback e he
  · have hleft := h.asked
    have hright := h'.asked
    simp only [List.countP_append]
    omega
  · intro argv bytes hconsumer
    rcases List.mem_append.mp hconsumer with hconsumer | hconsumer
    · exact h.admitted argv bytes hconsumer
    · exact h'.admitted argv bytes hconsumer
  · intro hhandled
    rcases h'.handled hhandled with hhandled | ⟨e, he, hconsumer⟩
    · rcases h.handled hhandled with hhandled | ⟨e, he, hconsumer⟩
      · exact Or.inl hhandled
      · exact Or.inr ⟨e, List.mem_append_left _ he, hconsumer⟩
    · exact Or.inr ⟨e, List.mem_append_right _ he, hconsumer⟩

/-- A step that only prints and changes nothing that is kept. -/
theorem of_printed {s s' : PipeState σ Θ ω E} (lines : List String) (hsys : s'.sys = s.sys)
    (hshell : s'.shell = s.shell) (htrap : s'.runningTrap = s.runningTrap)
    (hevents : s'.events = s.events ++ lines.map .printed)
    (hhandled : s'.downloadPipeHandled = s.downloadPipeHandled) :
    Consulted P s s' (lines.map .printed) := by
  refine ⟨hsys, hshell, htrap, hevents, ?_, ?_, by simp, ?_⟩
  · intro e he
    obtain ⟨line, -, rfl⟩ := List.mem_map.mp he
    rfl
  · have hnone : (lines.map (PipeEvent.printed (E := E))).countP PipeEvent.isConsumer = 0 := by
      apply List.countP_eq_zero.mpr
      intro e he
      obtain ⟨line, -, rfl⟩ := List.mem_map.mp he
      simp [PipeEvent.isConsumer]
    omega
  · intro h
    exact Or.inl (hhandled ▸ h)

/-- The case of `of_printed` that prints nothing. -/
theorem of_silent {s s' : PipeState σ Θ ω E} (hsys : s'.sys = s.sys) (hshell : s'.shell = s.shell)
    (htrap : s'.runningTrap = s.runningTrap) (hevents : s'.events = s.events)
    (hhandled : s'.downloadPipeHandled = s.downloadPipeHandled) : Consulted P s s' [] :=
  of_printed [] hsys hshell htrap (by rw [hevents]; exact (List.append_nil _).symm) hhandled

/-- A call of the port that starts no child. -/
theorem of_refused {s s' : PipeState σ Θ ω E} (hsys : s'.sys = s.sys)
    (hshell : s'.shell = s.shell) (htrap : s'.runningTrap = s.runningTrap)
    (hevents : s'.events = s.events ++ [.execWithStdin])
    (hhandled : s'.downloadPipeHandled = s.downloadPipeHandled) :
    Consulted P s s' [.execWithStdin] :=
  ⟨hsys, hshell, htrap, hevents, by simp [PipeEvent.ofCallback],
    by simp [PipeEvent.isConsumer, PipeEvent.isExecWithStdin], by simp,
    fun h => Or.inl (hhandled ▸ h)⟩

end Consulted

theorem countP_ofCallback {added : List (PipeEvent E)} (h : ∀ e ∈ added, e.ofCallback = true) :
    added.countP PipeEvent.isProducer = 0 ∧ added.countP PipeEvent.isOrdinary = 0 := by
  constructor <;>
  · apply List.countP_eq_zero.mpr
    intro e he
    have hof := h e he
    cases e <;> simp_all [PipeEvent.ofCallback, PipeEvent.isProducer, PipeEvent.isOrdinary]

section

variable {P : List String → Prop} (world : PipeWorld σ Θ ω E)

theorem startConsumer_consulted {argv : List String} (hargv : P argv) (bytes : Bytes)
    (s : PipeState σ Θ ω E) :
    ∃ added, Consulted P s (startConsumer world argv bytes (s.note .execWithStdin)).2 added := by
  have hstarted : ∀ s' : PipeState σ Θ ω E, s'.sys = s.sys → s'.shell = s.shell →
      s'.runningTrap = s.runningTrap →
      s'.events = s.events ++ [.execWithStdin, .consumer argv bytes] →
      Consulted P s s' [.execWithStdin, .consumer argv bytes] := by
    intro s' hsys hshell htrap hevents
    refine ⟨hsys, hshell, htrap, hevents, by simp [PipeEvent.ofCallback],
      by simp [PipeEvent.isConsumer, PipeEvent.isExecWithStdin], ?_, ?_⟩
    · intro argv' bytes' hmem
      obtain ⟨rfl, -⟩ : argv' = argv ∧ bytes' = bytes := by simpa using hmem
      exact hargv
    · intro _
      exact Or.inr ⟨.consumer argv bytes, by simp, rfl⟩
  unfold startConsumer
  dsimp only
  split_ifs with hpipe hfork
  · exact ⟨_, .of_refused rfl rfl rfl rfl rfl⟩
  · exact ⟨_, .of_refused rfl rfl rfl rfl rfl⟩
  · cases (world.feed argv bytes (s.note .execWithStdin).world).1.waitpid with
    | none => exact ⟨_, hstarted _ rfl rfl rfl (List.append_assoc _ _ _)⟩
    | some status => exact ⟨_, hstarted _ rfl rfl rfl (List.append_assoc _ _ _)⟩

theorem rashLuaExecWithStdin_consulted {argv : Option (List (Option String))}
    (hargv : ∀ entries argv', argv = some entries → entries.mapM id = some argv' → P argv')
    (bytes : Option Bytes) (s : PipeState σ Θ ω E) :
    ∃ added, Consulted P s
      (rashLuaExecWithStdin world argv bytes (s.note .execWithStdin)).2 added := by
  cases argv with
  | none => exact ⟨_, .of_refused rfl rfl rfl rfl rfl⟩
  | some entries =>
      cases bytes with
      | none => exact ⟨_, .of_refused rfl rfl rfl rfl rfl⟩
      | some bytes =>
          dsimp only [rashLuaExecWithStdin]
          split_ifs with hlength
          · exact ⟨_, .of_refused rfl rfl rfl rfl rfl⟩
          · cases hentries : entries.mapM id with
            | none => exact ⟨_, .of_refused rfl rfl rfl rfl rfl⟩
            | some argv =>
                exact startConsumer_consulted world (hargv entries argv rfl hentries) bytes s

/-- The step lemma: one port. -/
theorem pipePort_consulted {o : PipeOp σ}
    (ho : ∀ entries bytes argv, o = .execWithStdin (some entries) bytes →
      entries.mapM id = some argv → P argv) (s : PipeState σ Θ ω E) :
    ∃ added, Consulted P s (pipePort world o s).2 added := by
  cases o with
  | get => exact ⟨_, .refl s⟩
  | set lua => exact ⟨_, .of_silent rfl rfl rfl rfl rfl⟩
  | deny reason => exact ⟨_, .of_printed _ rfl rfl rfl rfl rfl⟩
  | approveBytes bytes =>
      cases bytes with
      | none => exact ⟨_, .refl s⟩
      | some bytes => exact ⟨_, .of_printed _ rfl rfl rfl rfl rfl⟩
  | execWithStdin argv bytes =>
      apply rashLuaExecWithStdin_consulted world
      intro entries argv' heq
      exact ho entries bytes argv' (heq ▸ rfl)

theorem callback_consulted {p : Prog (PipeOp σ) PipeOp.Ans LuaResult} (hp : AsksFor P p)
    (s : PipeState σ Θ ω E) : ∃ added, Consulted P s (p.eval (pipePort world) s).2 added := by
  refine Prog.eval_invariant (I := fun s' => ∃ added, Consulted P s s' added) ?_ hp ⟨_, .refl s⟩
  rintro o s' ho ⟨added, hs'⟩
  obtain ⟨more, hmore⟩ := pipePort_consulted world ho s'
  exact ⟨_, hs'.trans hmore⟩

theorem failed_consulted (stage : PipeStage) (message : Option String)
    (s : PipeState σ Θ ω E) : ∃ added, Consulted P s (stage.failed message s) added := by
  unfold PipeStage.failed
  split_ifs with henf hadvisory
  · exact ⟨_, .of_printed [_, _] rfl rfl rfl (List.append_assoc _ _ _) rfl⟩
  · exact ⟨_, .of_printed [_] rfl rfl rfl rfl rfl⟩
  · exact ⟨_, .of_printed [_] rfl rfl rfl rfl rfl⟩

theorem consult_consulted (stage : PipeStage) {table : PipelineTable}
    {callback : Option (PipeFunction σ) × Bool}
    (hcallback : ∀ f, callback.1 = some f → AsksFor P (f table)) (s : PipeState σ Θ ω E) :
    ∃ added, Consulted P s (stage.consult world table callback s) added := by
  obtain ⟨f, enforcing⟩ := callback
  obtain ⟨s₀, hs₀⟩ : ∃ s₀ : PipeState σ Θ ω E, s₀ =
      { s with globals := { s.globals with currentHookEnforcing := enforcing } } := ⟨_, rfl⟩
  have hcalled : Consulted P s s₀ [] := by
    rw [hs₀]
    exact .of_silent rfl rfl rfl rfl rfl
  unfold PipeStage.consult
  dsimp only
  rw [← hs₀]
  cases f with
  | none =>
      obtain ⟨added, hadded⟩ := failed_consulted stage (some nilCallError) s₀
      exact ⟨_, hcalled.trans hadded⟩
  | some f =>
      obtain ⟨added, hadded⟩ := callback_consulted world (hcallback f rfl) s₀
      have hran := hcalled.trans hadded
      dsimp only
      cases hr : (f table).eval (pipePort world) s₀ with
      | mk result s' =>
          rw [hr] at hran
          cases result with
          | number status => exact ⟨_, hran⟩
          | other => exact ⟨_, hran⟩
          | raised message =>
              obtain ⟨more, hmore⟩ := failed_consulted stage message s'
              exact ⟨_, hran.trans hmore⟩

/-- The run lemma: the loop over the callbacks. -/
theorem consultEach_consulted (stage : PipeStage) {table : PipelineTable}
    {callbacks : List (Option (PipeFunction σ) × Bool)}
    (hcallbacks : ∀ callback ∈ callbacks, ∀ f, callback.1 = some f → AsksFor P (f table))
    (s : PipeState σ Θ ω E) :
    ∃ added, Consulted P s (stage.consultEach world table callbacks s) added := by
  induction callbacks generalizing s with
  | nil => exact ⟨_, .refl s⟩
  | cons callback rest ih =>
      obtain ⟨added, hadded⟩ := consult_consulted world stage
        (hcallbacks callback List.mem_cons_self) s
      dsimp only [PipeStage.consultEach]
      split_ifs with hstops
      · exact ⟨_, hadded⟩
      · obtain ⟨more, hmore⟩ :=
          ih (fun callback h => hcallbacks callback (List.mem_cons_of_mem _ h))
            (stage.consult world table callback s)
        exact ⟨_, hadded.trans hmore⟩

theorem stage_consulted (stage : PipeStage) {table : PipelineTable} {s : PipeState σ Θ ω E}
    (hcallbacks : ∀ callback ∈ s.callbacks stage.kind, ∀ f, callback.1 = some f →
      AsksFor P (f table)) : ∃ added, Consulted P s (stage.run world table s) added := by
  have henter : Consulted P s (stage.enter s) [] := .of_silent rfl rfl rfl rfl rfl
  obtain ⟨added, hadded⟩ := consultEach_consulted world stage hcallbacks (stage.enter s)
  have hexit : Consulted P (stage.consultEach world table (s.callbacks stage.kind)
      (stage.enter s)) (stage.run world table s) [] := .of_silent rfl rfl rfl rfl rfl
  exact ⟨_, (henter.trans hadded).trans hexit⟩

theorem consulted_print (s : PipeState σ Θ ω E) (line : String) :
    ∃ added, Consulted P s (s.print line) added :=
  ⟨_, .of_printed [line] rfl rfl rfl rfl rfl⟩

end

/-- Every callback asks for argument vectors of some kind. -/
theorem asksFor_true (p : Prog (PipeOp σ) PipeOp.Ans LuaResult) : AsksFor (fun _ => True) p :=
  (Prog.uses_of_forall fun _ _ _ _ _ _ => trivial) p

end Rash
