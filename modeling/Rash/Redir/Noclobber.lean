import Rash.Redir.Redirections

/-!
# Opening a file in noclobber mode

`noclobber_open` with another process taking steps between its `stat`, `open` and `fstat`.  A
file keeps a number of its own here, which nothing reuses; the device and inode numbers that
`stat` shows may come back once the file they belonged to is gone.
-/

namespace Rash

/-- `CLOBBERING_REDIRECT` -/
def RInstruction.isClobbering : RInstruction → Bool
  | .outputDirection | .errAndOut => true
  | _ => false

namespace Noclobber

/-! ## The file system -/

/-- `st_mode & S_IFMT` -/
inductive Kind
  | regular
  | directory
  | fifo
  | socket
  | device
  deriving DecidableEq

/-- What `stat` shows. -/
structure Stat where
  kind : Kind
  dev : ℕ
  ino : ℕ
  deriving DecidableEq

structure File where
  stat : Stat
  contents : List UInt8
  deriving DecidableEq

inductive Entry (ν : Type)
  | file (id : ℕ)
  | symlink (target : ν)

variable {ν : Type} [DecidableEq ν]

/-- No two files that exist at once have one device and inode number. -/
structure FileSystem (ν : Type) where
  entries : ν → Option (Entry ν)
  files : ℕ → Option File
  next : ℕ
  fresh : ∀ id, next ≤ id → files id = none
  numbers : ∀ i j f g, files i = some f → files j = some g → f.stat.dev = g.stat.dev →
    f.stat.ino = g.stat.ino → i = j

/-- No file that exists has the numbers. -/
def FileSystem.Unused (fs : FileSystem ν) (st : Stat) : Prop :=
  ∀ id ∈ List.range fs.next, ∀ f ∈ fs.files id, ¬(f.stat.dev = st.dev ∧ f.stat.ino = st.ino)

instance (fs : FileSystem ν) (st : Stat) : Decidable (fs.Unused st) :=
  inferInstanceAs (Decidable (∀ id ∈ List.range fs.next, ∀ f ∈ fs.files id, _))

def FileSystem.setEntry (fs : FileSystem ν) (name : ν) (entry : Option (Entry ν)) :
    FileSystem ν :=
  { fs with entries := Function.update fs.entries name entry }

/-- A new empty file. -/
def FileSystem.create (fs : FileSystem ν) (name : ν) (st : Stat) (h : fs.Unused st) :
    FileSystem ν where
  entries := Function.update fs.entries name (some (.file fs.next))
  files := Function.update fs.files fs.next (some ⟨st, []⟩)
  next := fs.next + 1
  fresh id hid := by
    rw [Function.update_of_ne (by omega)]
    exact fs.fresh id (by omega)
  numbers i j f g hi hj hdev hino := by
    have used {id : ℕ} {f : File} (hid : fs.files id = some f) (hf : f.stat.dev = st.dev)
        (hf' : f.stat.ino = st.ino) : False := by
      refine h id (List.mem_range.mpr ?_) f hid ⟨hf, hf'⟩
      by_contra hge
      rw [fs.fresh id (by omega)] at hid
      cases hid
    by_cases hi' : i = fs.next
    · by_cases hj' : j = fs.next
      · rw [hi', hj']
      · rw [hi', Function.update_self] at hi
        rw [Function.update_of_ne hj'] at hj
        cases hi
        exact (used hj hdev.symm hino.symm).elim
    · rw [Function.update_of_ne hi'] at hi
      by_cases hj' : j = fs.next
      · rw [hj', Function.update_self] at hj
        cases hj
        exact (used hi hdev hino).elim
      · rw [Function.update_of_ne hj'] at hj
        exact fs.numbers i j f g hi hj hdev hino

/-- The file's contents change. -/
def FileSystem.write (fs : FileSystem ν) (id : ℕ) (contents : List UInt8) : FileSystem ν where
  entries := fs.entries
  files i := if i = id then (fs.files i).map ({ · with contents := contents }) else fs.files i
  next := fs.next
  fresh i hi := by
    rw [fs.fresh i hi, Option.map_none, ite_self]
  numbers i j f g hi hj := by
    have old {i : ℕ} {f : File} (h : (if i = id then
        (fs.files i).map ({ · with contents := contents }) else fs.files i) = some f) :
        ∃ f', fs.files i = some f' ∧ f'.stat = f.stat := by
      split_ifs at h
      · obtain ⟨f', hf', rfl⟩ := Option.map_eq_some_iff.mp h
        exact ⟨f', hf', rfl⟩
      · exact ⟨f, h, rfl⟩
    obtain ⟨f', hf, hstat⟩ := old hi
    obtain ⟨g', hg, hstat'⟩ := old hj
    rw [← hstat, ← hstat']
    exact fs.numbers i j f' g' hf hg

/-- The last link and the last descriptor of the file are gone.  That no name is left is not
asked for: names that lead nowhere only add runs. -/
def FileSystem.free (fs : FileSystem ν) (id : ℕ) : FileSystem ν where
  entries := fs.entries
  files := Function.update fs.files id none
  next := fs.next
  fresh i hi := by
    rw [Function.update_apply, fs.fresh i hi, ite_self]
  numbers i j f g hi hj := by
    rw [Function.update_apply] at hi hj
    split_ifs at hi hj
    exact fs.numbers i j f g hi hj

/-- Where a name leads, with the links that may still be followed. -/
inductive Resolved (ν : Type)
  | file (id : ℕ)
  | missing (name : ν)
  | loop

def FileSystem.resolve (fs : FileSystem ν) : ℕ → ν → Resolved ν
  | 0, _ => .loop
  | links + 1, name =>
      match fs.entries name with
      | none => .missing name
      | some (.file id) => .file id
      | some (.symlink target) => fs.resolve links target

/-- As many links as the system follows. -/
def maxSymlinks : ℕ := 40

/-! ## Another process -/

inductive Action (ν : Type)
  | create (name : ν) (st : Stat)
  | link (name : ν) (id : ℕ)
  | symlink (name target : ν)
  | remove (name : ν)
  | rename (old new : ν)
  | write (id : ℕ) (contents : List UInt8)
  | free (id : ℕ)

def FileSystem.act (fs : FileSystem ν) : Action ν → Option (FileSystem ν)
  | .create name st =>
      if h : fs.Unused st then
        if (fs.entries name).isNone then some (fs.create name st h) else none
      else none
  | .link name id =>
      if (fs.entries name).isNone ∧ (fs.files id).isSome then
        some (fs.setEntry name (some (.file id)))
      else none
  | .symlink name target =>
      if (fs.entries name).isNone then some (fs.setEntry name (some (.symlink target))) else none
  | .remove name => some (fs.setEntry name none)
  | .rename old new =>
      match fs.entries old with
      | none => none
      | some entry => some ((fs.setEntry old none).setEntry new (some entry))
  | .write id contents => some (fs.write id contents)
  | .free id => some (fs.free id)

/-! ## System calls -/

def eexist : ℕ := 17
def enoent : ℕ := 2
def eisdir : ℕ := 21
def eloop : ℕ := 40

structure OpenFlags where
  creat : Bool
  excl : Bool
  trunc : Bool

/-- `O_CREAT`, `O_EXCL` and `O_TRUNC` of the flags. -/
def OpenFlags.of (flags : ℕ) : OpenFlags where
  creat := hasFlag flags 0x40
  excl := hasFlag flags 0x80
  trunc := hasFlag flags 0x200

/-- `stat`: the file, and what is shown of it. -/
def FileSystem.stat (fs : FileSystem ν) (name : ν) : Except ℕ (ℕ × Stat) :=
  match fs.resolve maxSymlinks name with
  | .loop => .error eloop
  | .missing _ => .error enoent
  | .file id =>
      match fs.files id with
      | none => .error enoent
      | some f => .ok (id, f.stat)

/-- A file that `open` creates is regular, with numbers that the system chooses. -/
def FileSystem.openNew (fs : FileSystem ν) (name : ν) (dev ino : ℕ) :
    Option (Except ℕ (ℕ × FileSystem ν)) :=
  if h : fs.Unused ⟨.regular, dev, ino⟩ then
    some (.ok (fs.next, fs.create name ⟨.regular, dev, ino⟩ h))
  else none

/-- `open` for writing: the file of the descriptor. -/
def FileSystem.open (fs : FileSystem ν) (name : ν) (flags : OpenFlags) (dev ino : ℕ) :
    Option (Except ℕ (ℕ × FileSystem ν)) :=
  if flags.creat ∧ flags.excl then
    match fs.entries name with
    | some _ => some (.error eexist)
    | none => fs.openNew name dev ino
  else
    match fs.resolve maxSymlinks name with
    | .loop => some (.error eloop)
    | .missing last => if flags.creat then fs.openNew last dev ino else some (.error enoent)
    | .file id =>
        match fs.files id with
        | none => some (.error enoent)
        | some f =>
            if f.stat.kind = .directory then some (.error eisdir)
            else if flags.trunc ∧ f.stat.kind = .regular then some (.ok (id, fs.write id []))
            else some (.ok (id, fs))

/-! ## The shell -/

/-- What `noclobber_open` returns; a descriptor is told by its file. -/
inductive Result
  | noclobberRedirect
  | error (errno : ℕ)
  | descriptor (id : ℕ)
  deriving DecidableEq

/-- Where the call stands: the next system call. -/
inductive Place
  | stat
  | openExclusive
  | open (finfo : Stat)
  | fstat (finfo : Stat) (fd : ℕ)
  | done (result : Result)

/-- The state, with the file that `stat` saw and the one that the `open` has created. -/
structure State (ν : Type) where
  fs : FileSystem ν
  place : Place
  seen : Option (ℕ × Stat)
  created : Option ℕ

/-- `open` failed. -/
def failed (errno : ℕ) : Result := if errno = eexist then .noclobberRedirect else .error errno

/-- What the system does in a call: it fails for a reason of its own, or it answers, with the
numbers for a new file. -/
inductive Outcome
  | fails (errno : ℕ)
  | answers (dev ino : ℕ)

/-- The file that an `open` created, if it is a new one. -/
def createdBy (fs : FileSystem ν) (id : ℕ) : Option ℕ := if id = fs.next then some id else none

/-- `open` answers, and the call goes on at a place. -/
def State.opened (s : State ν) (next : ℕ → Place) : Except ℕ (ℕ × FileSystem ν) → State ν
  | .error errno => { s with place := .done (failed errno) }
  | .ok (id, fs) => { s with fs := fs, place := next id, created := createdBy s.fs id }

/-- The next system call of `noclobber_open`, and what follows up to the one behind it. -/
def call (filename : ν) (flags : OpenFlags) (s : State ν) (outcome : Outcome) :
    Option (State ν) :=
  -- flags &= ~O_TRUNC
  let flags := { flags with trunc := false }
  match s.place, outcome with
  | .stat, .fails _ => some { s with place := .openExclusive }
  | .stat, .answers _ _ =>
      match s.fs.stat filename with
      | .error _ => some { s with place := .openExclusive }
      | .ok (id, finfo) =>
          if finfo.kind = .regular then
            some { s with place := .done .noclobberRedirect, seen := some (id, finfo) }
          else some { s with place := .open finfo, seen := some (id, finfo) }
  | .openExclusive, .fails errno | .open _, .fails errno =>
      some { s with place := .done (failed errno) }
  | .openExclusive, .answers dev ino =>
      (s.fs.open filename { flags with excl := true } dev ino).map
        (s.opened fun fd => .done (.descriptor fd))
  | .open finfo, .answers dev ino =>
      (s.fs.open filename flags dev ino).map (s.opened (.fstat finfo))
  | .fstat _ _, .fails _ => some { s with place := .done .noclobberRedirect }
  | .fstat finfo fd, .answers _ _ =>
      match s.fs.files fd with
      | none => none
      | some f =>
          if f.stat.kind ≠ .regular ∧ finfo.kind ≠ .regular ∧ finfo.dev = f.stat.dev ∧
              finfo.ino = f.stat.ino then
            some { s with place := .done (.descriptor fd) }
          else some { s with place := .done .noclobberRedirect }
  | .done _, _ => none

/-- The file that the shell has open. -/
def Place.holds : Place → Option ℕ
  | .fstat _ fd => some fd
  | .done (.descriptor fd) => some fd
  | _ => none

inductive Step (ν : Type)
  | call (outcome : Outcome)
  | other (action : Action ν)

/-- A file that the shell has open is not freed. -/
def step (filename : ν) (flags : OpenFlags) (s : State ν) : Step ν → Option (State ν)
  | .call outcome => call filename flags s outcome
  | .other (.free id) =>
      if s.place.holds = some id then none
      else (s.fs.act (.free id)).map ({ s with fs := · })
  | .other action => (s.fs.act action).map ({ s with fs := · })

def run (filename : ν) (flags : OpenFlags) : List (Step ν) → State ν → Option (State ν)
  | [], s => some s
  | label :: labels, s => (step filename flags s label).bind (run filename flags labels)

def start (fs : FileSystem ν) : State ν := ⟨fs, .stat, none, none⟩

end Noclobber

end Rash
