import Rash.Hooks.LuaLedger
import Rash.Hooks.ReloadAtomic

/-!
# No interpreter is closed under a callback

The depth counters bound the callbacks on the C stack while shell code runs, so a reload or
a closing that finds them at 0 meets no callback at all.
-/

namespace Rash

open Machine

variable {F : Type}

/-! ## Frames and counters -/

namespace HookFrame

/-- `rack_depth` was raised for this frame. -/
def raises : HookFrame → Bool
  | .layer _ raised => raised
  | .command | .passedOn | .lifecycle _ _ | .original | .direct | .stage _ => false

/-- `hook_execution_depth` was raised for this frame. -/
def deepens : HookFrame → Bool
  | .original | .direct => true
  | .command | .layer _ _ | .passedOn | .lifecycle _ _ | .stage _ => false

/-- What a frame of this kind is called from. -/
def Sits : HookFrame → List HookFrame → Prop
  | .command, rest | .layer _ true, rest | .direct, rest | .stage _, rest => shellRuns rest = true
  | .lifecycle _ saved, rest => shellRuns rest = true ∧ rest.countP deepens ≤ saved
  | .layer _ false, rest | .passedOn, rest => ∃ lua raised below, rest = .layer lua raised :: below
  | .original, rest => ∃ lua saved below, rest = .lifecycle lua saved :: below

end HookFrame

open HookFrame

def WellNested : List HookFrame → Prop
  | [] => True
  | f :: rest => f.Sits rest ∧ WellNested rest

/-- Below a layer is the frame that raised `rack_depth`. -/
theorem WellNested.raises_pos {fs below : List HookFrame} {lua : ℕ} {raised : Bool}
    (h : WellNested fs) (heq : fs = .layer lua raised :: below) : 0 < fs.countP raises := by
  induction fs generalizing lua raised below with
  | nil => cases heq
  | cons f rest ih =>
      cases heq
      cases raised with
      | true => simp [raises]
      | false =>
          obtain ⟨lua', raised', below', hrest⟩ := h.1
          have hpos := ih h.2 hrest
          rw [List.countP_cons]
          omega

/-- While shell code runs with both counters down, no callback is on the stack. -/
theorem WellNested.no_callback {fs : List HookFrame} (h : WellNested fs)
    (hshell : shellRuns fs = true) (hracks : fs.countP raises = 0)
    (hdepth : fs.countP deepens = 0) : ∀ f ∈ fs, f.lua = none := by
  induction fs with
  | nil => simp
  | cons f rest ih =>
      rw [List.countP_cons] at hracks hdepth
      obtain ⟨hsits, hrest⟩ := h
      cases f with
      | command =>
          intro f' hf'
          rcases List.mem_cons.mp hf' with rfl | hmem
          · rfl
          · exact ih hrest hsits (by omega) (by omega) f' hmem
      | passedOn =>
          obtain ⟨lua, raised, below, heq⟩ := hsits
          have hpos := hrest.raises_pos heq
          omega
      | original => simp [deepens] at hdepth
      | direct => simp [deepens] at hdepth
      | layer lua raised => cases hshell
      | lifecycle lua saved => cases hshell
      | stage lua => cases hshell

/-! ## The invariant -/

/-- The ledger is balanced, the counters bound the frames, and no frame's interpreter is
closed. -/
structure Safe (s : ReloadState F) : Prop where
  balanced : s.sys.ledger.Balanced
  nested : WellNested s.frames
  racks : s.frames.countP raises ≤ s.sys.rackDepth
  depth : s.frames.countP deepens ≤ s.sys.hookExecutionDepth
  unused : ∀ f ∈ s.frames, ∀ id, f.lua = some id → id < s.sys.made ∧ id ∉ s.sys.closed

theorem safe_initial : Safe (ReloadState.initial (F := F)) :=
  ⟨Ledger.balanced_initial, trivial, Nat.le_refl 0, Nat.le_refl 0, by simp [ReloadState.initial]⟩

theorem Safe.no_callback {s : ReloadState F} (h : Safe s) (hshell : shellRuns s.frames = true)
    (hrack : s.sys.rackDepth = 0) (hdepth : s.sys.hookExecutionDepth = 0) :
    ∀ f ∈ s.frames, f.lua = none :=
  h.nested.no_callback hshell (Nat.le_zero.mp (hrack ▸ h.racks)) (Nat.le_zero.mp (hdepth ▸ h.depth))

/-- The frames stay when the depths do, as long as none of their interpreters is closed. -/
theorem Safe.of_ledger {s : ReloadState F} (h : Safe s) {g : HookSystem F}
    (hdepths : SameDepths s.sys g) {l : Ledger} (hledger : g.ledger = l) (hbalanced : l.Balanced)
    (hunused : ∀ f ∈ s.frames, ∀ id, f.lua = some id → id < l.made ∧ id ∉ l.closed) :
    Safe { s with sys := g } := by
  subst hledger
  exact ⟨hbalanced, h.nested, hdepths.rack ▸ h.racks, hdepths.execution ▸ h.depth, hunused⟩

theorem Ledger.Balanced.adopt_inactive {l : Ledger} (h : l.Balanced) (hnone : l.active = none)
    (retires : Bool) : (l.adopt retires).Balanced := by
  cases retires with
  | true =>
      have hsame : l.adopt true = l.adopt false := by simp [Ledger.adopt, hnone]
      rw [hsame]
      exact h.adopt_closes
  | false => exact h.adopt_closes

theorem Safe.adopt {s : ReloadState F} (h : Safe s) (hshell : shellRuns s.frames = true)
    (hmay : s.sys.hooks.rashLua = none ∨ s.sys.MayReplace) {g : HookSystem F}
    (hdepths : SameDepths s.sys g)
    (hledger : g.ledger = s.sys.ledger.adopt (s.sys.hookExecutionDepth != 0)) :
    Safe { s with sys := g } := by
  have hinactive : s.sys.hooks.rashLua = none → s.sys.ledger.active = none := fun hnone => by
    simp [HookSystem.ledger, hnone]
  by_cases hdepth : s.sys.hookExecutionDepth = 0
  · rw [show (s.sys.hookExecutionDepth != 0) = false by simp [hdepth]] at hledger
    refine h.of_ledger hdepths hledger h.balanced.adopt_closes fun f hf id hid => ?_
    obtain ⟨hlt, hopen⟩ := h.unused f hf id hid
    refine ⟨Nat.lt_succ_of_lt hlt, ?_⟩
    rcases hmay with hnone | hmay
    · rw [Ledger.adopt, hinactive hnone]
      simp only [Bool.false_eq_true, if_false, Option.toList_none, List.append_nil]
      exact hopen
    · rw [h.no_callback hshell (hmay.1 hdepth) hdepth f hf] at hid
      cases hid
  · rw [show (s.sys.hookExecutionDepth != 0) = true by simp [hdepth]] at hledger
    refine h.of_ledger hdepths hledger ?_ fun f hf id hid => ?_
    · rcases hmay with hnone | hmay
      · exact h.balanced.adopt_inactive (hinactive hnone) true
      · exact h.balanced.adopt_retires (by simp [HookSystem.ledger, hmay.2 hdepth])
    · obtain ⟨hlt, hopen⟩ := h.unused f hf id hid
      exact ⟨Nat.lt_succ_of_lt hlt, hopen⟩

theorem Safe.initialized {s : ReloadState F} (h : Safe s) (hshell : shellRuns s.frames = true)
    (o : Option (Bool × InitializeCall F))
    (hmay : ∀ force call, o = some (force, call) → s.sys.Replaces force call → s.sys.MayReplace) :
    Safe { s with sys := s.sys.initialized o } := by
  rcases o with _ | ⟨force, call⟩
  · exact h
  obtain ⟨hdepths, hledger | hledger | ⟨hactive, hledger⟩⟩ :=
    initialized_ledger s.sys force call
  · exact h.of_ledger hdepths hledger h.balanced h.unused
  · refine h.of_ledger hdepths hledger h.balanced.reject fun f hf id hid => ?_
    obtain ⟨hlt, hopen⟩ := h.unused f hf id hid
    simp only [Ledger.reject, List.mem_append, List.mem_singleton]
    exact ⟨Nat.lt_succ_of_lt hlt, not_or_intro hopen (Nat.ne_of_lt hlt)⟩
  · exact h.adopt hshell (hactive.imp_right (hmay force call rfl)) hdepths hledger

/-! ## Frames that are entered -/

/-- The callee of a consultation is the active interpreter. -/
theorem callee_active {g : HookSystem F} {opens : Bool} {id : ℕ} (h : g.callee opens = some id) :
    g.ledger.active = some id := by
  cases opens with
  | false => cases h
  | true => exact h

theorem Safe.active_unused {s : ReloadState F} (h : Safe s) {id : ℕ}
    (hactive : s.sys.ledger.active = some id) : id < s.sys.made ∧ id ∉ s.sys.closed :=
  ⟨(h.balanced.mem_iff id).mp (Or.inr (Or.inr hactive)), h.balanced.active_open hactive⟩

/-- A frame is entered; at most the counters move, and at least with the frames. -/
theorem Safe.enter {s : ReloadState F} (h : Safe s) {f : HookFrame} (hsits : f.Sits s.frames)
    {g : HookSystem F} (hledger : g.ledger = s.sys.ledger)
    (hracks : (if f.raises then 1 else 0) + s.sys.rackDepth ≤ g.rackDepth)
    (hdepth : (if f.deepens then 1 else 0) + s.sys.hookExecutionDepth ≤ g.hookExecutionDepth)
    (hlua : ∀ id, f.lua = some id → s.sys.ledger.active = some id) :
    Safe ⟨g, f :: s.frames⟩ := by
  have hracks' := h.racks
  have hdepth' := h.depth
  refine ⟨hledger ▸ h.balanced, ⟨hsits, h.nested⟩, ?_, ?_, ?_⟩
  · rw [List.countP_cons]
    dsimp only
    omega
  · rw [List.countP_cons]
    dsimp only
    omega
  · have hclosed : g.closed = s.sys.closed := congrArg Ledger.closed hledger
    have hmade : g.made = s.sys.made := congrArg Ledger.made hledger
    intro f' hf' id hid
    rw [hclosed, hmade]
    rcases List.mem_cons.mp hf' with rfl | hmem
    · exact h.active_unused (hlua id hid)
    · exact h.unused f' hmem id hid

theorem Safe.pushCallee {s : ReloadState F} (h : Safe s) {opens : Bool}
    {frame : ℕ → HookFrame} {raise : HookSystem F → HookSystem F}
    (hsits : opens = true → ∀ id, (frame id).Sits s.frames)
    (hledger : (raise s.sys).ledger = s.sys.ledger)
    (hracks : ∀ id, (if (frame id).raises then 1 else 0) + s.sys.rackDepth ≤
      (raise s.sys).rackDepth)
    (hdepth : ∀ id, (if (frame id).deepens then 1 else 0) + s.sys.hookExecutionDepth ≤
      (raise s.sys).hookExecutionDepth)
    (hlua : ∀ id, (frame id).lua = some id) :
    Safe (s.pushCallee (s.sys.callee opens) frame raise) := by
  unfold ReloadState.pushCallee
  cases hcallee : s.sys.callee opens with
  | none => exact h
  | some id =>
      have hopens : opens = true := by
        cases opens with
        | false => cases hcallee
        | true => rfl
      refine h.enter (hsits hopens id) hledger (hracks id) (hdepth id) fun id' hid' => ?_
      rw [hlua id] at hid'
      cases hid'
      exact callee_active hcallee

theorem shellStep_safe {s s' : ReloadState F} {a : HookAction F} (h : Safe s)
    (hshell : shellRuns s.frames = true) (hstep : shellStep s a = some s') : Safe s' := by
  cases a with
  | executeCommand call =>
      cases hstep
      exact h.enter (f := .command) hshell rfl (by simp [raises]) (by simp [deepens]) nofun
  | rackExecute call =>
      cases hstep
      refine h.pushCallee (fun _ _ => hshell) rfl (fun id => ?_) (fun id => ?_) fun id => rfl
      · simp only [raises, if_true]
        omega
      · simp [deepens]
  | lifecycle call =>
      cases hstep
      refine h.pushCallee (fun _ id => ⟨hshell, h.depth⟩) rfl ?_ ?_ fun id => rfl
      · simp [raises]
      · simp [deepens]
  | reloadDirect call =>
      simp only [shellStep] at hstep
      split at hstep
      · cases hstep
        refine h.enter (f := .direct) hshell rfl (by simp [raises]) ?_ nofun
        simp only [deepens, if_true]
        omega
      · cases hstep
        exact h
  | stage kind call =>
      cases hstep
      exact h.pushCallee (fun _ id => hshell) rfl (by simp [raises]) (by simp [deepens])
        fun id => rfl
  | reloadhooks call =>
      cases hstep
      exact h
  | nextLayer => cases hstep
  | passOn => cases hstep
  | run => cases hstep
  | leave jumps => cases hstep

/-! ## Frames that are left -/

theorem afterFrame_ledger (g : HookSystem F) (jumps : Bool) (f : HookFrame) :
    (g.afterFrame jumps f).ledger = g.ledger := by
  rcases f with _ | ⟨lua, _ | _⟩ | _ | _ | _ | _ | _ <;> cases jumps <;> rfl

theorem afterFrame_racks {g : HookSystem F} {f : HookFrame} {rest : List HookFrame}
    (h : (f :: rest).countP raises ≤ g.rackDepth) (jumps : Bool) :
    rest.countP raises ≤ (g.afterFrame jumps f).rackDepth := by
  rw [List.countP_cons] at h
  have hle : rest.countP raises ≤ g.rackDepth := by omega
  cases f with
  | layer lua raised =>
      cases raised with
      | false => cases jumps <;> exact hle
      | true =>
          simp only [raises, if_true] at h
          cases jumps with
          | false => exact Nat.le_sub_of_add_le h
          | true => exact hle
  | _ => cases jumps <;> exact hle

theorem afterFrame_depth {g : HookSystem F} {f : HookFrame} {rest : List HookFrame}
    (hsits : f.Sits rest) (h : (f :: rest).countP deepens ≤ g.hookExecutionDepth)
    (jumps : Bool) : rest.countP deepens ≤ (g.afterFrame jumps f).hookExecutionDepth := by
  rw [List.countP_cons] at h
  have hle : rest.countP deepens ≤ g.hookExecutionDepth := by omega
  cases f with
  | lifecycle lua saved =>
      cases jumps with
      | false => exact hle
      | true => exact hsits.2
  | layer lua raised => cases raised <;> cases jumps <;> exact hle
  | original =>
      simp only [deepens, if_true] at h
      cases jumps with
      | false => exact Nat.le_sub_of_add_le h
      | true => exact hle
  | direct =>
      simp only [deepens, if_true] at h
      cases jumps with
      | false => exact Nat.le_sub_of_add_le h
      | true => exact hle
  | _ => cases jumps <;> exact hle

/-- The counters that are left cover the frames that are left. -/
theorem Safe.afterFrame {sys : HookSystem F} {f : HookFrame} {rest : List HookFrame}
    (h : Safe ⟨sys, f :: rest⟩) (jumps : Bool) : Safe ⟨sys.afterFrame jumps f, rest⟩ := by
  have hledger := afterFrame_ledger sys jumps f
  have hclosed : (sys.afterFrame jumps f).closed = sys.closed := congrArg Ledger.closed hledger
  have hmade : (sys.afterFrame jumps f).made = sys.made := congrArg Ledger.made hledger
  refine ⟨hledger ▸ h.balanced, h.nested.2, afterFrame_racks h.racks jumps,
    afterFrame_depth h.nested.1 h.depth jumps, fun f' hf' => ?_⟩
  dsimp only
  rw [hclosed, hmade]
  exact h.unused f' (List.mem_cons_of_mem _ hf')

theorem Safe.closeRetiredLua {s : ReloadState F} (h : Safe s)
    (hshell : shellRuns s.frames = true) (hmay : s.sys.MayClose) :
    Safe { s with sys := s.sys.closeRetiredLua } := by
  have hledger : s.sys.closeRetiredLua.ledger = s.sys.ledger.release := rfl
  refine h.of_ledger ⟨rfl, rfl, rfl⟩ hledger h.balanced.release fun f hf id hid => ?_
  obtain ⟨hlt, hopen⟩ := h.unused f hf id hid
  refine ⟨hlt, ?_⟩
  cases hretired : s.sys.retiredLua with
  | none => simpa [Ledger.release, HookSystem.ledger, hretired] using hopen
  | some L =>
      obtain ⟨hdepth, hrack⟩ := hmay (by rw [hretired]; rfl)
      rw [h.no_callback hshell hrack hdepth f hf] at hid
      cases hid

/-- The frames whose end closes the retired interpreter are called from shell code. -/
theorem shellRuns_of_closesRetired {g : HookSystem F} {jumps : Bool} {f : HookFrame}
    {rest : List HookFrame} (hsits : f.Sits rest) (h : g.closesRetired jumps f = true) :
    shellRuns rest = true := by
  cases f with
  | command => exact hsits
  | direct => exact hsits
  | _ => cases h

theorem leaveStep_safe {s s' : ReloadState F} {jumps : Bool} (h : Safe s)
    (hguard : ReloadGuard s (.leave jumps)) (hstep : leaveStep jumps s = some s') : Safe s' := by
  obtain ⟨sys, frames⟩ := s
  cases frames with
  | nil => cases hstep
  | cons f rest =>
      cases hstep
      have hleft := h.afterFrame jumps
      by_cases hcloses : (sys.afterFrame jumps f).closesRetired jumps f = true
      · rw [if_pos hcloses]
        exact hleft.closeRetiredLua (shellRuns_of_closesRetired h.nested.1 hcloses)
          (hguard.2 jumps f rest rfl rfl hcloses)
      · rw [if_neg hcloses]
        exact hleft

/-! ## Steps and runs -/

theorem nextLayerStep_safe {s s' : ReloadState F} (h : Safe s)
    (hstep : nextLayerStep s = some s') : Safe s' := by
  obtain ⟨sys, frames⟩ := s
  unfold nextLayerStep at hstep
  split at hstep
  · rename_i lua raised below L hframes hlua
    cases hstep
    refine h.enter (f := .layer L.id false) ⟨lua, raised, below, hframes⟩ rfl (by simp [raises])
      (by simp [deepens]) fun id hid => ?_
    cases hid
    exact congrArg (Option.map (·.id)) hlua
  · cases hstep

theorem passOnStep_safe {s s' : ReloadState F} (h : Safe s)
    (hstep : passOnStep s = some s') : Safe s' := by
  unfold passOnStep at hstep
  split at hstep
  · rename_i lua raised below hframes
    cases hstep
    exact h.enter (f := .passedOn) ⟨lua, raised, below, hframes⟩ rfl (by simp [raises])
      (by simp [deepens]) nofun
  · cases hstep

theorem runStep_safe {s s' : ReloadState F} (h : Safe s) (hstep : runStep s = some s') :
    Safe s' := by
  unfold runStep at hstep
  split at hstep
  · rename_i lua saved below hframes
    cases hstep
    refine h.enter (f := .original) ⟨lua, saved, below, hframes⟩ rfl (by simp [raises]) ?_ nofun
    simp only [deepens, if_true]
    omega
  · cases hstep

theorem reloadStep_safe (s : ReloadState F) (a : HookAction F) (s' : ReloadState F)
    (h : Safe s) (hguard : ReloadGuard s a) (hstep : reloadStep s a = some s') : Safe s' := by
  have hshellStep : ∀ a, ReloadGuard s a →
      (if shellRuns s.frames then
        shellStep { s with sys := s.sys.initialized (s.sys.initializes a) } a
      else none) = some s' → Safe s' := by
    intro a hguard hstep
    split at hstep
    · rename_i hshell
      exact shellStep_safe (h.initialized hshell _ hguard.1) hshell hstep
    · cases hstep
  cases a with
  | nextLayer => exact nextLayerStep_safe h hstep
  | passOn => exact passOnStep_safe h hstep
  | run => exact runStep_safe h hstep
  | leave jumps => exact leaveStep_safe h hguard hstep
  | executeCommand call => exact hshellStep _ hguard hstep
  | rackExecute call => exact hshellStep _ hguard hstep
  | lifecycle call => exact hshellStep _ hguard hstep
  | reloadDirect call => exact hshellStep _ hguard hstep
  | stage kind call => exact hshellStep _ hguard hstep
  | reloadhooks call => exact hshellStep _ hguard hstep

/-- In every state that guarded steps reach, no interpreter with a callback on the C stack is
closed, none is closed twice, and each one made is closed, retired or active. -/
theorem luaClose_unused {s : ReloadState F} {path : List (HookAction F)}
    (hguard : PathMeets reloadStep ReloadGuard ReloadState.initial path)
    (hrun : runPath reloadStep ReloadState.initial path = some s) :
    (∀ f ∈ s.frames, ∀ id, f.lua = some id → id ∉ s.sys.closed) ∧ s.sys.closed.Nodup ∧
      ∀ id < s.sys.made,
        id ∈ s.sys.closed ∨ s.sys.ledger.retired = some id ∨ s.sys.ledger.active = some id := by
  have h : Safe s := path_invariant reloadStep_safe safe_initial hguard hrun
  refine ⟨fun f hf id hid => (h.unused f hf id hid).2, ?_, fun id => (h.balanced.mem_iff id).mpr⟩
  exact (List.nodup_append.mp (List.nodup_append.mp h.balanced.nodup).1).1

/-- `RASH_HOOK_DIR` names a directory with one rack layer. -/
def oneLayerCall : InitializeCall Unit :=
  ⟨true, ⟨some "/hooks", none, none, none⟩, fun _ => oneHook ⟨true, [(.rack, ())], true⟩⟩

/-- `reloadhooks` is run as a command that a rack layer passes on. -/
theorem luaClose_under_layer :
    ∃ s, runPath reloadStep ReloadState.initial
        [.executeCommand oneLayerCall, .rackExecute oneLayerCall, .passOn, .reloadhooks oneLayerCall] = some s ∧
      s.frames = [.passedOn, .layer 0 true, .command] ∧ s.sys.closed = [0] :=
  ⟨_, rfl, rfl, rfl⟩

/-- `reloadhooks` is run without a layer around it. -/
def plainReload : List (HookAction Unit) :=
  [.executeCommand oneLayerCall, .reloadhooks oneLayerCall, .leave false]

theorem plainReload_guarded : PathMeets reloadStep ReloadGuard ReloadState.initial plainReload := by
  have hmay : ∀ s : ReloadState Unit, s.sys.rackDepth = 0 → s.sys.hookExecutionDepth = 0 →
      ∀ a, (∀ jumps, a ≠ .leave jumps) → ReloadGuard s a := fun s hrack hdepth a ha =>
    ⟨fun _ _ _ _ => ⟨fun _ => hrack, fun hne => absurd hdepth hne⟩,
      fun jumps _ _ heq => absurd heq (ha jumps)⟩
  refine ⟨hmay _ rfl rfl _ nofun, fun s hs => ?_⟩
  cases hs
  refine ⟨hmay _ rfl rfl _ nofun, fun s hs => ?_⟩
  cases hs
  refine ⟨⟨nofun, ?_⟩, fun _ _ => trivial⟩
  intro jumps f rest hleave hframes _
  cases hleave
  cases hframes
  exact fun _ => ⟨rfl, rfl⟩

theorem luaClose_unused_plain :
    ∃ s, runPath reloadStep ReloadState.initial plainReload = some s ∧ s.sys.closed = [0] ∧
      (∀ f ∈ s.frames, ∀ id, f.lua = some id → id ∉ s.sys.closed) ∧ s.sys.closed.Nodup ∧
      ∀ id < s.sys.made,
        id ∈ s.sys.closed ∨ s.sys.ledger.retired = some id ∨ s.sys.ledger.active = some id :=
  ⟨_, rfl, rfl, luaClose_unused plainReload_guarded rfl⟩

end Rash
