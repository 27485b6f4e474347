import Rash.Redir.Noclobber

/-!
# What noclobber keeps

No call of the shell changes a file that exists, and a descriptor that comes back is that of a
file the `open` has created or has the numbers that `stat` saw.
-/

namespace Rash

namespace Noclobber

variable {ν : Type} [DecidableEq ν]

/-- Every file that exists stays, with its contents. -/
def FileSystem.Kept (fs fs' : FileSystem ν) : Prop :=
  ∀ id f, fs.files id = some f → fs'.files id = some f

/-- Nothing has freed the file, so it is there still. -/
def State.Still (s : State ν) (labels : List (Step ν)) (id : ℕ) (finfo : Stat) : Prop :=
  Step.other (.free id) ∉ labels → ∃ f, s.fs.files id = some f ∧ f.stat = finfo

/-- The file that is returned was created by the `open`, or has the numbers that `stat` saw: it
is the same file unless that one was freed. -/
def Returned (labels : List (Step ν)) (s : State ν) (fd : ℕ) : Prop :=
  ∃ f, s.fs.files fd = some f ∧
    (f.stat.kind = .regular ∧ s.created = some fd ∨
      f.stat.kind ≠ .regular ∧ ∃ id finfo, s.seen = some (id, finfo) ∧ finfo.kind ≠ .regular ∧
        finfo.dev = f.stat.dev ∧ finfo.ino = f.stat.ino ∧
        (Step.other (.free id) ∉ labels → fd = id))

/-! ## One step -/

section

variable {fs fs' : FileSystem ν}

omit [DecidableEq ν] in
theorem files_lt {id : ℕ} {f : File} (h : fs.files id = some f) : id < fs.next := by
  by_contra hge
  rw [fs.fresh id (by omega)] at h
  cases h

theorem create_kept (name : ν) {st : Stat} (h : fs.Unused st) : fs.Kept (fs.create name st h) := by
  intro id f hf
  have hne : id ≠ fs.next := (files_lt hf).ne
  exact (Function.update_of_ne hne _ _).trans hf

/-- What another process does leaves a file its kind and its numbers. -/
theorem act_keeps {action : Action ν} (h : fs.act action = some fs') {id : ℕ} {f : File}
    (hf : fs.files id = some f) (hfree : ∀ i, action = .free i → i ≠ id) :
    ∃ f', fs'.files id = some f' ∧ f'.stat = f.stat := by
  cases action with
  | create name st =>
      simp only [FileSystem.act] at h
      split_ifs at h with hunused
      cases h
      exact ⟨f, create_kept name hunused id f hf, rfl⟩
  | link name i =>
      simp only [FileSystem.act] at h
      split_ifs at h
      cases h
      exact ⟨f, hf, rfl⟩
  | symlink name target =>
      simp only [FileSystem.act] at h
      split_ifs at h
      cases h
      exact ⟨f, hf, rfl⟩
  | remove name =>
      cases h
      exact ⟨f, hf, rfl⟩
  | rename old new =>
      simp only [FileSystem.act] at h
      cases hentry : fs.entries old with
      | none =>
          rw [hentry] at h
          cases h
      | some entry =>
          rw [hentry] at h
          cases h
          exact ⟨f, hf, rfl⟩
  | write i contents =>
      cases h
      change ∃ f', (if id = i then _ else fs.files id) = some f' ∧ _
      rw [hf]
      by_cases hi : id = i
      · rw [if_pos hi]
        exact ⟨_, rfl, rfl⟩
      · rw [if_neg hi]
        exact ⟨f, rfl, rfl⟩
  | free i =>
      cases h
      exact ⟨f, (Function.update_of_ne (hfree i rfl).symm _ _).trans hf, rfl⟩

theorem openNew_spec {name : ν} {dev ino : ℕ} {answer : Except ℕ (ℕ × FileSystem ν)}
    (h : fs.openNew name dev ino = some answer) :
    ∃ fs', answer = .ok (fs.next, fs') ∧ fs.Kept fs' ∧
      ∃ f, fs'.files fs.next = some f ∧ f.stat.kind = .regular := by
  unfold FileSystem.openNew at h
  split_ifs at h with hunused
  cases h
  exact ⟨_, rfl, create_kept name hunused, _, Function.update_self _ _ _, rfl⟩

/-- An `open` that does not truncate. -/
theorem open_kept {name : ν} {creat excl : Bool} {dev ino id : ℕ}
    (h : fs.open name ⟨creat, excl, false⟩ dev ino = some (.ok (id, fs'))) :
    fs.Kept fs' ∧ ∃ f, fs'.files id = some f := by
  have hnew {last : ν} (h : fs.openNew last dev ino = some (.ok (id, fs'))) :
      fs.Kept fs' ∧ ∃ f, fs'.files id = some f := by
    obtain ⟨fs'', hok, hkept, f, hf, -⟩ := openNew_spec h
    cases hok
    exact ⟨hkept, f, hf⟩
  unfold FileSystem.open at h
  by_cases hexcl : creat = true ∧ excl = true
  · rw [if_pos hexcl] at h
    cases hentry : fs.entries name with
    | none =>
        rw [hentry] at h
        exact hnew h
    | some entry =>
        rw [hentry] at h
        cases h
  · rw [if_neg hexcl] at h
    cases hresolve : fs.resolve maxSymlinks name with
    | loop =>
        rw [hresolve] at h
        cases h
    | missing last =>
        rw [hresolve] at h
        cases creat with
        | true => exact hnew h
        | false => cases h
    | file i =>
        rw [hresolve] at h
        dsimp only at h
        cases hfile : fs.files i with
        | none =>
            rw [hfile] at h
            cases h
        | some f =>
            rw [hfile] at h
            dsimp only at h
            by_cases hdir : f.stat.kind = .directory
            · rw [if_pos hdir] at h
              cases h
            · rw [if_neg hdir, if_neg fun htrunc => Bool.false_ne_true htrunc.1] at h
              cases h
              exact ⟨fun _ _ h => h, f, hfile⟩

/-- `O_CREAT` with `O_EXCL` opens no file that was there. -/
theorem open_exclusive {name : ν} {trunc : Bool} {dev ino id : ℕ}
    (h : fs.open name ⟨true, true, trunc⟩ dev ino = some (.ok (id, fs'))) :
    id = fs.next ∧ ∃ f, fs'.files id = some f ∧ f.stat.kind = .regular := by
  unfold FileSystem.open at h
  rw [if_pos ⟨rfl, rfl⟩] at h
  cases hentry : fs.entries name with
  | some entry =>
      rw [hentry] at h
      cases h
  | none =>
      rw [hentry] at h
      obtain ⟨fs'', hok, -, hnew⟩ := openNew_spec h
      cases hok
      exact ⟨rfl, hnew⟩

end

/-- What a call of the shell can do. -/
inductive Called (filename : ν) (flags : OpenFlags) (s : State ν) : State ν → Prop
  | absent (hplace : s.place = .stat) : Called filename flags s { s with place := .openExclusive }
  | found {id : ℕ} {f : File} (hplace : s.place = .stat) (hf : s.fs.files id = some f)
      (hkind : f.stat.kind ≠ .regular) :
      Called filename flags s { s with place := .open f.stat, seen := some (id, f.stat) }
  | stops {result : Result} {seen : Option (ℕ × Stat)} (hresult : ∀ fd, result ≠ .descriptor fd) :
      Called filename flags s { s with place := .done result, seen := seen }
  | exclusive {dev ino id : ℕ} {fs : FileSystem ν} (hplace : s.place = .openExclusive)
      (hopen : s.fs.open filename ⟨flags.creat, true, false⟩ dev ino = some (.ok (id, fs))) :
      Called filename flags s ⟨fs, .done (.descriptor id), s.seen, createdBy s.fs id⟩
  | opened {finfo : Stat} {dev ino id : ℕ} {fs : FileSystem ν} (hplace : s.place = .open finfo)
      (hopen : s.fs.open filename ⟨flags.creat, flags.excl, false⟩ dev ino = some (.ok (id, fs))) :
      Called filename flags s ⟨fs, .fstat finfo id, s.seen, createdBy s.fs id⟩
  | same {finfo : Stat} {fd : ℕ} {f : File} (hplace : s.place = .fstat finfo fd)
      (hf : s.fs.files fd = some f) (hkind : f.stat.kind ≠ .regular)
      (hdev : finfo.dev = f.stat.dev) (hino : finfo.ino = f.stat.ino) :
      Called filename flags s { s with place := .done (.descriptor fd) }

theorem failed_ne (errno fd : ℕ) : failed errno ≠ .descriptor fd := by
  unfold failed
  split_ifs <;> nofun

section

variable {filename : ν} {flags : OpenFlags} {s s' : State ν}

omit [DecidableEq ν] in
theorem stat_cases {answer : Except ℕ (ℕ × Stat)} (h : s.fs.stat filename = answer) :
    (∃ errno, answer = .error errno) ∨
      ∃ id f, answer = .ok (id, f.stat) ∧ s.fs.files id = some f := by
  unfold FileSystem.stat at h
  cases hresolve : s.fs.resolve maxSymlinks filename with
  | loop =>
      rw [hresolve] at h
      exact .inl ⟨_, h.symm⟩
  | missing last =>
      rw [hresolve] at h
      exact .inl ⟨_, h.symm⟩
  | file id =>
      rw [hresolve] at h
      dsimp only at h
      cases hf : s.fs.files id with
      | none =>
          rw [hf] at h
          exact .inl ⟨_, h.symm⟩
      | some f =>
          rw [hf] at h
          exact .inr ⟨id, f, h.symm, hf⟩

theorem called_of_call {outcome : Outcome} (h : call filename flags s outcome = some s') :
    Called filename flags s s' := by
  have stopped : Called filename flags s { s with place := .done .noclobberRedirect } :=
    .stops nofun
  unfold call at h
  match hplace : s.place, outcome with
  | .stat, .fails _ =>
      rw [hplace] at h
      cases h
      exact .absent hplace
  | .stat, .answers _ _ =>
      rw [hplace] at h
      dsimp only at h
      obtain ⟨errno, hstat⟩ | ⟨id, f, hstat, hf⟩ := @stat_cases _ filename s _ rfl
      · rw [hstat] at h
        cases h
        exact .absent hplace
      · rw [hstat] at h
        dsimp only at h
        split_ifs at h with hkind
        · cases h
          exact .stops nofun
        · cases h
          exact .found hplace hf hkind
  | .openExclusive, .fails errno =>
      rw [hplace] at h
      cases h
      exact .stops (failed_ne errno)
  | .open _, .fails errno =>
      rw [hplace] at h
      cases h
      exact .stops (failed_ne errno)
  | .openExclusive, .answers dev ino =>
      rw [hplace] at h
      obtain ⟨answer, hopen, rfl⟩ := Option.map_eq_some_iff.mp h
      match answer with
      | .error errno => exact .stops (failed_ne errno)
      | .ok (id, fs) => exact .exclusive hplace hopen
  | .open finfo, .answers dev ino =>
      rw [hplace] at h
      obtain ⟨answer, hopen, rfl⟩ := Option.map_eq_some_iff.mp h
      match answer with
      | .error errno => exact .stops (failed_ne errno)
      | .ok (id, fs) => exact .opened hplace hopen
  | .fstat _ _, .fails _ =>
      rw [hplace] at h
      cases h
      exact stopped
  | .fstat finfo fd, .answers _ _ =>
      rw [hplace] at h
      dsimp only at h
      cases hf : s.fs.files fd with
      | none =>
          rw [hf] at h
          cases h
      | some f =>
          rw [hf] at h
          dsimp only at h
          split_ifs at h with hsame
          · cases h
            exact .same hplace hf hsame.1 hsame.2.2.1 hsame.2.2.2
          · cases h
            exact stopped
  | .done _, _ =>
      rw [hplace] at h
      cases h

/-- No call changes a file that exists. -/
theorem Called.kept (h : Called filename flags s s') : s.fs.Kept s'.fs := by
  cases h with
  | absent | found | stops | same => exact fun _ _ h => h
  | exclusive _ hopen | opened _ hopen => exact (open_kept hopen).1

end

/-! ## Runs -/

/-- What holds at each place. -/
def Place.Holds (labels : List (Step ν)) (s : State ν) : Place → Prop
  | .stat | .openExclusive => True
  | .open finfo => finfo.kind ≠ .regular ∧
      ∃ id, s.seen = some (id, finfo) ∧ s.Still labels id finfo
  | .fstat finfo fd => finfo.kind ≠ .regular ∧ (∃ f, s.fs.files fd = some f) ∧
      ∃ id, s.seen = some (id, finfo) ∧ s.Still labels id finfo
  | .done (.descriptor fd) => Returned labels s fd
  | .done _ => True

section

variable {filename : ν} {flags : OpenFlags} {s s' : State ν} {labels : List (Step ν)}

omit [DecidableEq ν] in
theorem Still.kept {id : ℕ} {finfo : Stat} (h : s.Still labels id finfo)
    (hkept : s.fs.Kept s'.fs) (label : Step ν) : s'.Still (labels ++ [label]) id finfo := by
  intro hfree
  obtain ⟨f, hf, hstat⟩ := h fun hmem => hfree (List.mem_append_left _ hmem)
  exact ⟨f, hkept id f hf, hstat⟩

theorem holds_call (hcreat : flags.creat = true) (h : Called filename flags s s')
    (hplace : s.place.Holds labels s) (label : Step ν) :
    s'.place.Holds (labels ++ [label]) s' := by
  have hkept := h.kept
  cases h with
  | absent => trivial
  | @found id f hstat hf hkind => exact ⟨hkind, id, rfl, fun _ => ⟨f, hf, rfl⟩⟩
  | @stops result seen hresult =>
      cases result with
      | descriptor fd => exact absurd rfl (hresult fd)
      | noclobberRedirect => trivial
      | error errno => trivial
  | exclusive _ hopen =>
      rw [hcreat] at hopen
      obtain ⟨rfl, f, hf, hkind⟩ := open_exclusive hopen
      exact ⟨f, hf, .inl ⟨hkind, if_pos rfl⟩⟩
  | @opened finfo dev ino id fs hopened hopen =>
      rw [hopened] at hplace
      obtain ⟨hkind, seen, hseen, hstill⟩ := hplace
      exact ⟨hkind, (open_kept hopen).2, seen, hseen, Still.kept hstill hkept label⟩
  | @same finfo fd f hfstat hf hkind hdev hino =>
      rw [hfstat] at hplace
      obtain ⟨hregular, -, seen, hseen, hstill⟩ := hplace
      refine ⟨f, hf, .inr ⟨hkind, seen, finfo, hseen, hregular, hdev, hino, fun hfree => ?_⟩⟩
      obtain ⟨g, hg, hstat⟩ := hstill fun hmem => hfree (List.mem_append_left _ hmem)
      rw [← hstat] at hdev hino
      exact s.fs.numbers fd seen f g hf hg hdev.symm hino.symm

theorem holds_other {action : Action ν} {fs : FileSystem ν} (h : s.fs.act action = some fs)
    (hheld : ∀ id, action = .free id → s.place.holds ≠ some id)
    (hplace : s.place.Holds labels s) :
    s.place.Holds (labels ++ [.other action]) { s with fs := fs } := by
  have still {id : ℕ} {finfo : Stat} (hstill : s.Still labels id finfo) :
      State.Still { s with fs := fs } (labels ++ [.other action]) id finfo := by
    intro hfree
    obtain ⟨f, hf, hstat⟩ := hstill fun hmem => hfree (List.mem_append_left _ hmem)
    obtain ⟨f', hf', hstat'⟩ := act_keeps h hf fun i hi hid => by
      rw [hi, hid] at hfree
      exact hfree (List.mem_append_right _ List.mem_cons_self)
    exact ⟨f', hf', hstat'.trans hstat⟩
  have held {fd : ℕ} {f : File} (hfd : s.place.holds = some fd) (hf : s.fs.files fd = some f) :
      ∃ f', fs.files fd = some f' ∧ f'.stat = f.stat :=
    act_keeps h hf fun i hi hid => hheld i hi (hid ▸ hfd)
  cases hp : s.place with
  | stat => trivial
  | openExclusive => trivial
  | «open» finfo =>
      rw [hp] at hplace
      obtain ⟨hkind, seen, hseen, hstill⟩ := hplace
      exact ⟨hkind, seen, hseen, still hstill⟩
  | fstat finfo fd =>
      rw [hp] at hplace
      obtain ⟨hkind, ⟨f, hf⟩, seen, hseen, hstill⟩ := hplace
      obtain ⟨f', hf', -⟩ := held (by rw [hp]; rfl) hf
      exact ⟨hkind, ⟨f', hf'⟩, seen, hseen, still hstill⟩
  | done result =>
      cases result with
      | noclobberRedirect => trivial
      | error errno => trivial
      | descriptor fd =>
          rw [hp] at hplace
          obtain ⟨f, hf, hreturned⟩ := hplace
          obtain ⟨f', hf', hstat⟩ := held (by rw [hp]; rfl) hf
          rw [← hstat] at hreturned
          refine ⟨f', hf', hreturned.imp id ?_⟩
          rintro ⟨hkind, seen, finfo, hseen, hregular, hdev, hino, hsame⟩
          exact ⟨hkind, seen, finfo, hseen, hregular, hdev, hino,
            fun hfree => hsame fun hmem => hfree (List.mem_append_left _ hmem)⟩

theorem holds_step (hcreat : flags.creat = true) {label : Step ν}
    (h : step filename flags s label = some s') (hplace : s.place.Holds labels s) :
    s'.place.Holds (labels ++ [label]) s' := by
  cases label with
  | call outcome => exact holds_call hcreat (called_of_call h) hplace _
  | other action =>
      have hother : (∀ id, action = .free id → s.place.holds ≠ some id) ∧
          (s.fs.act action).map ({ s with fs := · }) = some s' := by
        cases action with
        | free id =>
            change (if s.place.holds = some id then none else _) = some s' at h
            by_cases hheld : s.place.holds = some id
            · rw [if_pos hheld] at h
              cases h
            · rw [if_neg hheld] at h
              refine ⟨fun i hi => ?_, h⟩
              cases hi
              exact hheld
        | _ => exact ⟨nofun, h⟩
      obtain ⟨fs, hact, rfl⟩ := Option.map_eq_some_iff.mp hother.2
      exact holds_other hact hother.1 hplace

theorem holds_run (hcreat : flags.creat = true) (rest : List (Step ν))
    (h : run filename flags rest s = some s') (hplace : s.place.Holds labels s) :
    s'.place.Holds (labels ++ rest) s' := by
  induction rest generalizing s labels with
  | nil =>
      cases h
      rw [List.append_nil]
      exact hplace
  | cons label rest ih =>
      obtain ⟨mid, hstep, hrun⟩ := Option.bind_eq_some_iff.mp h
      have := ih hrun (holds_step hcreat hstep hplace)
      rwa [List.append_assoc] at this

end

/-- In every run, no call of the shell changes a file that exists, and the descriptor that comes
back is that of a file the `open` has created or of one with the numbers `stat` saw. -/
theorem noclobberOpen_keeps {ri : RInstruction} (hri : ri.isClobbering = true) (filename : ν)
    (fs : FileSystem ν) (labels : List (Step ν)) (s : State ν)
    (h : run filename (.of ri.openFlags) labels (start fs) = some s) :
    (∀ outcome s', step filename (.of ri.openFlags) s (.call outcome) = some s' →
      s.fs.Kept s'.fs) ∧
    ∀ fd, s.place = .done (.descriptor fd) → Returned labels s fd := by
  have hcreat : (OpenFlags.of ri.openFlags).creat = true := by
    cases ri <;> first | rfl | cases hri
  refine ⟨fun outcome s' hcall => (called_of_call hcall).kept, fun fd hplace => ?_⟩
  have hholds := @holds_run _ _ _ _ _ _ [] hcreat labels h trivial
  rw [hplace] at hholds
  exact hholds

/-- A fifo, alone. -/
def fifoAlone : FileSystem ℕ where
  entries name := if name = 0 then some (.file 0) else none
  files id := if id = 0 then some ⟨⟨.fifo, 0, 7⟩, []⟩ else none
  next := 1
  fresh id hid := if_neg (by omega)
  numbers i j f g hi hj _ _ := by
    split_ifs at hi hj with hi' hj'
    rw [hi', hj']

/-- The descriptor of a file that the `open` has neither created nor found there: the fifo that
`stat` saw is gone, and its inode number was given to another one. -/
theorem noclobberOpen_reused : ∃ labels s fd,
    run 0 (.of RInstruction.outputDirection.openFlags) labels (start fifoAlone) = some s ∧
      s.place = .done (.descriptor fd) ∧ s.created ≠ some fd ∧
      ∀ finfo, s.seen ≠ some (fd, finfo) := by
  refine ⟨[.call (.answers 0 0), .other (.remove 0), .other (.free 0),
    .other (.create 0 ⟨.fifo, 0, 7⟩), .call (.answers 0 0), .call (.answers 0 0)], _, 1, rfl, rfl,
    nofun, nofun⟩

/-- A name that is not there is opened, with nothing in between. -/
theorem noclobberOpen_keeps_new : Returned
    [.call (.answers 0 0), .call (.answers 0 8)]
    ⟨fifoAlone.create 1 ⟨.regular, 0, 8⟩ (by decide), .done (.descriptor 1), none, some 1⟩ 1 :=
  (@noclobberOpen_keeps ℕ _ .outputDirection rfl 1 fifoAlone
    [.call (.answers 0 0), .call (.answers 0 8)] _ rfl).2 1 rfl

end Noclobber

end Rash
