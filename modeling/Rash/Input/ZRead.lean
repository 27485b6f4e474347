import Rash.Input.BufferedStream

/-!
# Reading through zread

The read buffer and the push-back buffer of zread.c over one descriptor.  What was read ahead,
what was pushed back and the kernel's offset describe one position in the file.
-/

namespace Rash

namespace ZRead

/-- `ZBUFSIZ` -/
def zbufsiz : ℕ := 4096

/-- `ZPUSHSIZE` -/
def zpushsize : ℕ := 16

structure ZState where
  /-- the open file of the descriptor -/
  file : OpenFile
  lbuf : List UInt8
  lind : ℕ
  lused : ℕ
  zpushbuf : List UInt8
  zpushind : ℕ
  zpopind : ℕ
  deriving DecidableEq

/-- What the kernel answers while `zread` runs.  Of every interrupted attempt it says whether a
builtin was being executed with `interrupt_state` set. -/
structure ZAnswer where
  interrupts : List Bool
  answer : ReadAnswer
  deriving DecidableEq

/-- What a call returns.  `ready` is the 1 that `zreadc` returns when it has nowhere to put the
byte, `done` stands for a call that does not read. -/
inductive ZResult
  | byte (c : UInt8)
  | ready
  | eof
  | failed
  | done
  deriving DecidableEq

namespace ZState

def zbufpop (s : ZState) : Option UInt8 × ZState :=
  if s.zpushind = s.zpopind then (none, s)
  else
    let s' := { s with zpopind := s.zpopind + 1 }
    (some (s.zpushbuf.getD s.zpopind 0),
      if s'.zpopind = s'.zpushind then { s' with zpushind := 0, zpopind := 0 } else s')

/-- A full buffer drops the byte. -/
def zbufpush (s : ZState) (c : UInt8) : ZState :=
  if s.zpushind = zpushsize - 1 then s
  else { s with zpushbuf := s.zpushbuf.set s.zpushind c, zpushind := s.zpushind + 1 }

def zungetc (s : ZState) (c : UInt8) : ZState := s.zbufpush c

def zreset (s : ZState) : ZState := { s with lind := 0, lused := 0, zpushind := 0, zpopind := 0 }

/-- What the loop of `zread` does after an interrupted attempt. -/
def interrupted (s : ZState) (resets : Bool) : ZState := if resets then s.zreset else s

/-- `zread`: no bytes where it returns -1. -/
def zread (s : ZState) (len : ℕ) (a : ZAnswer) : Option (List UInt8) × ZState :=
  match s.zbufpop with
  | (some c, s') => (some [c], s')
  | (none, s') =>
      let t := a.interrupts.foldl interrupted s'
      match a.answer with
      | .failed => (none, t)
      | .bytes n =>
          let got := (t.file.contents.drop t.file.offset).take (min n len)
          (some got, { t with file := { t.file with offset := t.file.offset + got.length } })

/-- The end of `zreadc` and of `zreadn`, with bytes in `lbuf`. -/
def next (s : ZState) (cp : Bool) : ZResult × ZState :=
  if cp then (.byte (s.lbuf.getD s.lind 0), { s with lind := s.lind + 1 }) else (.ready, s)

/-- What `zreadc` and `zreadn` share: `cp` says whether the caller wants the byte, and `len` is
how much they read ahead. -/
def readAhead (s : ZState) (cp : Bool) (len : ℕ) (a : ZAnswer) : ZResult × ZState :=
  match if cp then s.zbufpop else (none, s) with
  | (some c, s') => (.byte c, s')
  | (none, s') =>
      if s'.lind = s'.lused ∨ s'.lused = 0 then
        match s'.zread len a with
        | (none, t) => (.failed, { t with lind := 0, lused := 0 })
        | (some [], t) => (.eof, { t with lind := 0, lused := 0 })
        | (some (c :: got), t) =>
            let lbuf := (c :: got) ++ t.lbuf.drop (c :: got).length
            next { t with lbuf := lbuf, lind := 0, lused := (c :: got).length } cp
      else s'.next cp

def zreadc (s : ZState) (cp : Bool) (a : ZAnswer) : ZResult × ZState := s.readAhead cp zbufsiz a

def zreadn (s : ZState) (cp : Bool) (len : ℕ) (a : ZAnswer) : ZResult × ZState :=
  s.readAhead cp (if len > zbufsiz then zbufsiz else len) a

/-- `lseek (fd, -k, SEEK_CUR)` -/
def seekBack (file : OpenFile) (k : ℕ) : Option OpenFile :=
  if file.seekable ∧ k ≤ file.offset then some { file with offset := file.offset - k } else none

def zsyncfd (s : ZState) : ZState :=
  let off := s.lused - s.lind
  match if off > 0 then seekBack s.file off else some s.file with
  | none => s
  | some file => { s with file := file, lused := 0, lind := 0, zpushind := 0, zpopind := 0 }

end ZState

inductive ZCall
  | zreadc (cp : Bool) (a : ZAnswer)
  | zreadn (cp : Bool) (len : ℕ) (a : ZAnswer)
  | zungetc (c : UInt8)
  | zsyncfd
  deriving DecidableEq

def ZState.call (s : ZState) : ZCall → ZResult × ZState
  | .zreadc cp a => s.zreadc cp a
  | .zreadn cp len a => s.zreadn cp len a
  | .zungetc c => (.done, s.zungetc c)
  | .zsyncfd => (.done, s.zsyncfd)

/-- The variables of zread.c before their first use. -/
def opened (file : OpenFile) : ZState where
  file := file
  lbuf := List.replicate zbufsiz 0
  lind := 0
  lused := 0
  zpushbuf := List.replicate zpushsize 0
  zpushind := 0
  zpopind := 0

/-! ## What the calls have returned -/

/-- A state in a sequence of calls, with the bytes that they have returned and not taken back,
and the byte just read. -/
structure Reading where
  state : ZState
  returned : List UInt8
  justRead : Option UInt8
  deriving DecidableEq

namespace Reading

/-- The state after a call that returned `r`. -/
def record (x : Reading) (r : ZResult × ZState) : Reading :=
  match r.1 with
  | .byte c => ⟨r.2, x.returned ++ [c], some c⟩
  | _ => ⟨r.2, x.returned, x.justRead⟩

def perform (x : Reading) : ZCall → Reading
  | .zungetc c => ⟨x.state.zungetc c, x.returned.dropLast, none⟩
  | call => x.record (x.state.call call)

/-- Every call of the sequence meets `P` where it is made. -/
def Along (P : Reading → ZCall → Prop) : Reading → List ZCall → Prop
  | _, [] => True
  | x, call :: calls => P x call ∧ Along P (x.perform call) calls

/-- `zungetc` is called only with the byte just read. -/
def Allowed (x : Reading) (call : ZCall) : Prop :=
  ∀ c, call = .zungetc c → x.justRead = some c

/-- `zsyncfd` is not called while the push-back buffer holds a byte. -/
def SyncsDrained (x : Reading) (call : ZCall) : Prop :=
  call = .zsyncfd → x.state.zpushind = x.state.zpopind

end Reading

/-- Whether a `read` of `len` bytes is let have some, where the file has any. -/
def grants (len : ℕ) : ReadAnswer → Bool
  | .bytes n => 0 < n && 0 < len
  | .failed => false

def ZCall.granted : ZCall → Bool
  | .zreadc _ a => grants zbufsiz a.answer
  | .zreadn _ len a => grants len a.answer
  | _ => false

/-- Whether the caller asks for the byte. -/
def ZCall.wants : ZCall → Bool
  | .zreadc cp _ => cp
  | .zreadn cp _ _ => cp
  | _ => false

/-- What a call keeps of the bytes of `file`: the bytes returned are the first ones, in order;
a call that asks for a byte gets the next one; the descriptor is synced to it. -/
structure Conserves (file : OpenFile) (x : Reading) (call : ZCall) : Prop where
  returned : (x.perform call).returned <+: file.contents.drop file.offset
  answered : call.wants = true → call.granted = true →
    (x.state.call call).1 =
      match (file.contents.drop file.offset)[x.returned.length]? with
      | some c => .byte c
      | none => .eof
  synced : call = .zsyncfd → (x.perform call).state.file.offset = file.offset + x.returned.length

/-! ## One position -/

namespace ZState

/-- The bytes that were read from the descriptor and not yet returned. -/
def held (s : ZState) : List UInt8 :=
  s.zpushbuf.take s.zpushind ++ (s.lbuf.take s.lused).drop s.lind

/-- The next byte that a call returns is at `p`. -/
structure Reads (s : ZState) (contents : List UInt8) (p : ℕ) : Prop where
  contents_eq : s.file.contents = contents
  seekable : s.file.seekable = true
  pushbuf : s.zpushbuf.length = zpushsize
  popind : s.zpopind = 0
  pushind : s.zpushind ≤ 1
  lind_le : s.lind ≤ s.lused
  lused_le : s.lused ≤ s.lbuf.length
  offset : s.file.offset = p + s.held.length
  held : s.held <+: contents.drop p

variable {s : ZState} {contents : List UInt8} {p : ℕ}

theorem held_length (h : s.Reads contents p) :
    s.held.length = s.zpushind + (s.lused - s.lind) := by
  have hpush := h.pushind
  have hlused := h.lused_le
  simp only [ZState.held, List.length_append, List.length_take, List.length_drop, h.pushbuf,
    zpushsize]
  omega

theorem held_of_drained (hdrained : s.zpushind = 0) :
    s.held = (s.lbuf.take s.lused).drop s.lind := by
  simp [ZState.held, hdrained]

/-- What is held is also what the file has at `p`. -/
theorem head_of_held {c : UInt8} {rest : List UInt8} (h : s.Reads contents p)
    (hheld : s.held = c :: rest) : contents[p]? = some c ∧ rest <+: contents.drop (p + 1) := by
  have hprefix := h.held
  rw [hheld] at hprefix
  obtain ⟨later, hlater⟩ := hprefix
  constructor
  · have := congrArg List.head? hlater
    simpa [List.head?_drop] using this.symm
  · refine ⟨later, ?_⟩
    have := congrArg List.tail hlater
    simpa [List.tail_drop] using this

/-- The byte pushed back, if there is one, is popped and is the next one. -/
theorem zbufpop_reads (h : s.Reads contents p) :
    (s.zpushind = 0 ∧ s.zbufpop = (none, s)) ∨
      ∃ c t, s.zpushind = 1 ∧ s.zbufpop = (some c, t) ∧ contents[p]? = some c ∧
        t.zpushind = 0 ∧ t.lbuf = s.lbuf ∧ t.lind = s.lind ∧ t.lused = s.lused ∧
        t.Reads contents (p + 1) := by
  rcases Nat.le_one_iff_eq_zero_or_eq_one.mp h.pushind with hzero | hone
  · exact .inl ⟨hzero, by simp [zbufpop, hzero, h.popind]⟩
  · right
    have hpushbuf := h.pushbuf
    obtain ⟨c, rest, hbuf⟩ : ∃ c rest, s.zpushbuf = c :: rest :=
      List.exists_cons_of_length_pos (by rw [hpushbuf]; decide)
    have hheld : s.held = c :: (s.lbuf.take s.lused).drop s.lind := by
      simp [ZState.held, hone, hbuf]
    obtain ⟨hc, hrest⟩ := head_of_held h hheld
    refine ⟨c, { s with zpushind := 0, zpopind := 0 }, hone, ?_, hc, rfl, rfl, rfl, rfl, ?_⟩
    · simp [zbufpop, hone, h.popind, hbuf]
    · have hoffset := h.offset
      rw [hheld, List.length_cons] at hoffset
      have hheld' : ZState.held { s with zpushind := 0, zpopind := 0 } =
          (s.lbuf.take s.lused).drop s.lind := held_of_drained rfl
      exact
        { contents_eq := h.contents_eq
          seekable := h.seekable
          pushbuf := hpushbuf
          popind := rfl
          pushind := Nat.zero_le 1
          lind_le := h.lind_le
          lused_le := h.lused_le
          offset := by rw [hheld']; change s.file.offset = _; omega
          held := by rw [hheld']; exact hrest }

/-- A byte that was just read can be pushed back once. -/
theorem zungetc_reads {c : UInt8} (h : s.Reads contents (p + 1)) (hc : contents[p]? = some c)
    (hdrained : s.zpushind = 0) : (s.zungetc c).Reads contents p := by
  obtain ⟨hlt, rfl⟩ := List.getElem?_eq_some_iff.mp hc
  obtain ⟨d, rest, hbuf⟩ : ∃ d rest, s.zpushbuf = d :: rest :=
    List.exists_cons_of_length_pos (by rw [h.pushbuf]; decide)
  have hpush : s.zungetc contents[p] =
      { s with zpushbuf := s.zpushbuf.set 0 contents[p], zpushind := 1 } := by
    simp [zungetc, zbufpush, hdrained, zpushsize]
  have hheld : (s.zungetc contents[p]).held = contents[p] :: s.held := by
    rw [hpush, held_of_drained hdrained]
    simp [ZState.held, hbuf]
  have hoffset := h.offset
  refine
    { contents_eq := by rw [hpush]; exact h.contents_eq
      seekable := by rw [hpush]; exact h.seekable
      pushbuf := by rw [hpush]; simpa using h.pushbuf
      popind := by rw [hpush]; exact h.popind
      pushind := Nat.le_of_eq (congrArg ZState.zpushind hpush)
      lind_le := by rw [hpush]; exact h.lind_le
      lused_le := by rw [hpush]; exact h.lused_le
      offset := ?_
      held := ?_ }
  · rw [hheld, hpush, List.length_cons]
    simp only
    omega
  · rw [hheld, List.drop_eq_getElem_cons hlt]
    exact List.cons_prefix_cons.mpr ⟨rfl, h.held⟩

/-- The interrupts find nothing in the buffers that a reset could drop. -/
theorem interrupts_reads (interrupts : List Bool) (h : s.Reads contents p)
    (hempty : s.held = []) :
    (interrupts.foldl interrupted s).Reads contents p ∧
      (interrupts.foldl interrupted s).zpushind = 0 ∧
      (interrupts.foldl interrupted s).lused = (interrupts.foldl interrupted s).lind := by
  induction interrupts generalizing s with
  | nil =>
      have hlength := held_length h
      have hle := h.lind_le
      rw [hempty, List.length_nil] at hlength
      exact ⟨h, by simp only [List.foldl_nil]; omega, by simp only [List.foldl_nil]; omega⟩
  | cons resets interrupts ih =>
      rw [List.foldl_cons]
      cases resets with
      | false => exact ih h hempty
      | true =>
          have hheld : s.zreset.held = [] := by simp [ZState.held, zreset]
          have hoffset := h.offset
          rw [hempty] at hoffset
          refine ih
            { contents_eq := h.contents_eq
              seekable := h.seekable
              pushbuf := h.pushbuf
              popind := rfl
              pushind := Nat.zero_le 1
              lind_le := Nat.le_refl 0
              lused_le := Nat.zero_le _
              offset := by rw [interrupted, if_pos rfl, hheld]; exact hoffset
              held := by rw [interrupted, if_pos rfl, hheld]; exact List.nil_prefix } hheld

theorem filled_reads {q off : ℕ} {got : List UInt8} (h : s.Reads contents q)
    (hdrained : s.zpushind = 0) (hgot : got <+: contents.drop p) (hoff : off = p + got.length) :
    Reads { s with
      file := { s.file with offset := off }, lbuf := got ++ s.lbuf.drop got.length, lind := 0,
      lused := got.length } contents p := by
  have hheld : held { s with
      file := { s.file with offset := off }, lbuf := got ++ s.lbuf.drop got.length, lind := 0,
      lused := got.length } = got := by
    simp [held, hdrained]
  exact
    { contents_eq := h.contents_eq
      seekable := h.seekable
      pushbuf := h.pushbuf
      popind := h.popind
      pushind := h.pushind
      lind_le := Nat.zero_le _
      lused_le := by simp
      offset := by rw [hheld]; exact hoff
      held := by rw [hheld]; exact hgot }

theorem emptied_reads (h : s.Reads contents p) (hdrained : s.zpushind = 0)
    (hempty : s.lused = s.lind) : Reads { s with lind := 0, lused := 0 } contents p := by
  have hheld : s.held = [] := by simp [held, hdrained, hempty]
  have hheld' : held { s with lind := 0, lused := 0 } = [] := by simp [held, hdrained]
  have hoffset := h.offset
  rw [hheld] at hoffset
  exact
    { h with
      lind_le := Nat.le_refl 0
      lused_le := Nat.zero_le _
      offset := by rw [hheld']; exact hoffset
      held := by rw [hheld']; exact List.nil_prefix }

/-- What a call that reads leaves: the next byte returned, or none. -/
def Outcome (s : ZState) (contents : List UInt8) (p : ℕ) (cp granted : Bool)
    (r : ZResult × ZState) : Prop :=
  (∃ c, r.1 = .byte c ∧ contents[p]? = some c ∧ r.2.Reads contents (p + 1) ∧
      r.2.zpushind = 0) ∨
    (∀ c, r.1 ≠ .byte c) ∧ r.2.Reads contents p ∧ (s.zpushind = 0 → r.2.zpushind = 0) ∧
      (cp = true → granted = true → r.1 = .eof ∧ contents[p]? = none)

/-- The byte at `lind` is the next one, unless a byte was pushed back. -/
theorem next_outcome {u : ZState} {cp granted : Bool} (h : u.Reads contents p)
    (hlt : u.lind < u.lused) (hdrained : cp = true ∨ s.zpushind = 0 → u.zpushind = 0) :
    s.Outcome contents p cp granted (u.next cp) := by
  cases cp with
  | false =>
      exact .inr ⟨fun c => by simp [next], h, fun hs => hdrained (.inr hs), fun hcp => by cases hcp⟩
  | true =>
      have hzero := hdrained (.inl rfl)
      have hlen : u.lind < u.lbuf.length := Nat.lt_of_lt_of_le hlt h.lused_le
      have hheld : u.held = u.lbuf[u.lind] :: (u.lbuf.take u.lused).drop (u.lind + 1) := by
        rw [held_of_drained hzero, List.drop_eq_getElem_cons (by simp; omega)]
        simp
      obtain ⟨hc, hrest⟩ := head_of_held h hheld
      have hheld' : (u.next true).2.held = (u.lbuf.take u.lused).drop (u.lind + 1) :=
        held_of_drained hzero
      have hoffset := h.offset
      rw [hheld, List.length_cons] at hoffset
      refine .inl ⟨u.lbuf[u.lind], by simp [next, hlen], hc, ?_, hzero⟩
      exact
        { h with
          lind_le := hlt
          offset := by rw [hheld']; change u.file.offset = _; omega
          held := by rw [hheld']; exact hrest }

/-- A read from the descriptor, with nothing pushed back and nothing left in `lbuf`. -/
theorem zread_drained (len : ℕ) (a : ZAnswer) (h : s.Reads contents p)
    (hdrained : s.zpushind = 0) (hempty : s.lused = s.lind) :
    ∃ t, t.Reads contents p ∧ t.zpushind = 0 ∧ t.lused = t.lind ∧
      ((s.zread len a = (none, t) ∧ grants len a.answer = false) ∨
        ∃ got off, got <+: contents.drop p ∧ off = p + got.length ∧
          s.zread len a = (some got, { t with file := { t.file with offset := off } }) ∧
          (grants len a.answer = true → got = [] → contents[p]? = none)) := by
  have hheld : s.held = [] := by simp [held, hdrained, hempty]
  obtain ⟨hreads, hzero, hlused⟩ := interrupts_reads a.interrupts h hheld
  have hpop : s.zbufpop = (none, s) := by simp [zbufpop, hdrained, h.popind]
  refine ⟨a.interrupts.foldl interrupted s, hreads, hzero, hlused, ?_⟩
  generalize hfold : a.interrupts.foldl interrupted s = t at hreads hzero hlused ⊢
  have hoffset : t.file.offset = p := by
    have := hreads.offset
    rwa [show t.held = [] by simp [held, hzero, hlused]] at this
  cases hanswer : a.answer with
  | failed => exact .inl ⟨by simp only [zread, hpop, hfold, hanswer], rfl⟩
  | bytes n =>
      refine .inr ⟨(contents.drop p).take (min n len), _, List.take_prefix _ _, rfl, ?_, ?_⟩
      · simp only [zread, hpop, hfold, hanswer, hreads.contents_eq, hoffset]
      · intro hgrants hgot
        simp only [grants, Bool.and_eq_true, decide_eq_true_eq] at hgrants
        rcases List.take_eq_nil_iff.mp hgot with hmin | hdrop
        · omega
        · exact List.getElem?_eq_none (List.drop_eq_nil_iff.mp hdrop)

theorem readAhead_outcome (cp : Bool) (len : ℕ) (a : ZAnswer) (h : s.Reads contents p) :
    s.Outcome contents p cp (grants len a.answer) (s.readAhead cp len a) := by
  -- a byte pushed back is returned at once to a caller that wants it
  by_cases hpushed : cp = true ∧ s.zpushind = 1
  · obtain ⟨rfl, hone⟩ := hpushed
    rcases zbufpop_reads h with ⟨hzero, -⟩ | ⟨c, t, -, hpop, hc, hzero, -, -, -, hreads⟩
    · omega
    · exact .inl ⟨c, by simp [readAhead, hpop], hc, by simpa [readAhead, hpop] using hreads,
        by simpa [readAhead, hpop] using hzero⟩
  have hnone : (if cp then s.zbufpop else (none, s)) = (none, s) := by
    rcases zbufpop_reads h with ⟨-, hpop⟩ | ⟨c, t, hone, -⟩
    · simp [hpop]
    · simp [Bool.eq_false_iff.mpr fun hcp => hpushed ⟨hcp, hone⟩]
  have hzero : cp = true ∨ s.zpushind = 0 → s.zpushind = 0 := by
    have := h.pushind
    rintro (hcp | hzero)
    · by_contra hne
      exact hpushed ⟨hcp, by omega⟩
    · exact hzero
  have hle := h.lind_le
  by_cases hempty : s.lind = s.lused ∨ s.lused = 0
  · have hlused : s.lused = s.lind := by omega
    rcases zbufpop_reads h with ⟨hdrained, -⟩ | ⟨c, t, hone, hpop, hc, htzero, -, hlind, hused, ht⟩
    · obtain ⟨t, ht, htzero, htlused, hread⟩ := zread_drained len a h hdrained hlused
      rcases hread with ⟨hread, hgrants⟩ | ⟨got, off, hgot, hoff, hread, hend⟩
      · right
        simp only [readAhead, hnone, hempty, hread, if_true]
        exact ⟨fun c => by simp, emptied_reads ht htzero htlused, fun _ => htzero,
          fun _ hg => by simp [hgrants] at hg⟩
      · cases got with
        | nil =>
            right
            simp only [readAhead, hnone, hempty, hread, if_true]
            have hreads := emptied_reads ht htzero htlused
            have htoff : off = t.file.offset := by
              have := ht.offset
              rw [show t.held = [] by simp [held, htzero, htlused]] at this
              omega
            subst htoff
            exact ⟨fun c => by simp, hreads, fun _ => htzero, fun _ hg => ⟨trivial, hend hg rfl⟩⟩
        | cons c got =>
            simp only [readAhead, hnone, hempty, hread, if_true]
            exact next_outcome (filled_reads ht htzero hgot hoff) (Nat.succ_pos _) fun _ => htzero
    · -- the byte pushed back is moved to `lbuf`
      have hcp : cp = false := Bool.eq_false_iff.mpr fun hcp => hpushed ⟨hcp, hone⟩
      have hread : s.zread len a = (some [c], t) := by simp only [zread, hpop]
      have hoff : t.file.offset = p + [c].length := by
        have := ht.offset
        rwa [show t.held = [] by simp [held, htzero, hlind, hused, hlused]] at this
      have hgot : [c] <+: contents.drop p := by
        obtain ⟨hlt, rfl⟩ := List.getElem?_eq_some_iff.mp hc
        rw [List.drop_eq_getElem_cons hlt]
        exact List.cons_prefix_cons.mpr ⟨rfl, List.nil_prefix⟩
      simp only [readAhead, hnone, hempty, hread, if_true]
      exact next_outcome (filled_reads ht htzero hgot hoff) Nat.zero_lt_one fun _ => htzero
  · simp only [readAhead, hnone, hempty, if_false]
    exact next_outcome h (by omega) hzero

/-- `zsyncfd` drops a byte pushed back, but seeks as if there were none. -/
theorem zsyncfd_reads (h : s.Reads contents p) :
    s.zsyncfd.Reads contents (p + s.zpushind) ∧ s.zsyncfd.file.offset = p + s.zpushind ∧
      s.zsyncfd.zpushind = 0 := by
  have hlength := held_length h
  have hoffset := h.offset
  have hle := h.lind_le
  have hsync : s.zsyncfd = { s with
      file := { s.file with offset := p + s.zpushind }, lused := 0, lind := 0, zpushind := 0,
      zpopind := 0 } := by
    by_cases hoff : s.lused - s.lind > 0
    · have hseek : seekBack s.file (s.lused - s.lind) =
          some { s.file with offset := p + s.zpushind } := by
        rw [seekBack, if_pos ⟨h.seekable, by omega⟩]
        congr 2
        omega
      simp only [zsyncfd, hoff, if_true, hseek]
    · have hkept : s.file = { s.file with offset := p + s.zpushind } := by
        rw [show p + s.zpushind = s.file.offset by omega]
      simp only [zsyncfd, hoff, if_false]
      rw [← hkept]
  refine ⟨?_, by rw [hsync], by rw [hsync]⟩
  rw [hsync]
  exact
    { contents_eq := h.contents_eq
      seekable := h.seekable
      pushbuf := h.pushbuf
      popind := rfl
      pushind := Nat.zero_le 1
      lind_le := Nat.le_refl 0
      lused_le := Nat.zero_le _
      offset := by simp [held]
      held := by simp [held] }

end ZState

/-! ## Sequences of calls -/

namespace Reading

/-- The bytes returned and not taken back are the first bytes of the file; the byte just read is
the last of them. -/
structure Kept (file : OpenFile) (x : Reading) : Prop where
  reads : x.state.Reads file.contents (file.offset + x.returned.length)
  returned : x.returned <+: file.contents.drop file.offset
  justRead : ∀ c, x.justRead = some c → x.state.zpushind = 0 ∧ ∃ bytes, x.returned = bytes ++ [c]

variable {file : OpenFile} {x : Reading}

theorem kept_opened (hseek : file.seekable = true) : Kept file ⟨opened file, [], none⟩ where
  reads :=
    { contents_eq := rfl
      seekable := hseek
      pushbuf := List.length_replicate
      popind := rfl
      pushind := Nat.zero_le 1
      lind_le := Nat.le_refl 0
      lused_le := Nat.zero_le _
      offset := rfl
      held := List.nil_prefix }
  returned := List.nil_prefix
  justRead _ hc := by cases hc

/-- The byte of the file behind those returned. -/
theorem next_byte (file : OpenFile) (x : Reading) :
    (file.contents.drop file.offset)[x.returned.length]? =
      file.contents[file.offset + x.returned.length]? := List.getElem?_drop

theorem kept_record {cp granted : Bool} {r : ZResult × ZState} (h : Kept file x)
    (hout : x.state.Outcome file.contents (file.offset + x.returned.length) cp granted r) :
    Kept file (x.record r) ∧
      (cp = true → granted = true → r.1 =
        match (file.contents.drop file.offset)[x.returned.length]? with
        | some c => .byte c
        | none => .eof) := by
  rcases hout with ⟨c, hbyte, hc, hreads, hdrained⟩ | ⟨hnone, hreads, hdrained, hend⟩
  · have hrecord : x.record r = ⟨r.2, x.returned ++ [c], some c⟩ := by simp only [record, hbyte]
    rw [← next_byte] at hc
    refine ⟨?_, fun _ _ => by rw [hbyte, hc]⟩
    rw [hrecord]
    refine ⟨by simpa [Nat.add_assoc] using hreads, ?_, ?_⟩
    · obtain ⟨later, hlater⟩ := h.returned
      rw [← hlater, List.getElem?_append_right (Nat.le_refl _), Nat.sub_self] at hc
      obtain ⟨rest, rfl⟩ := List.head?_eq_some_iff.mp (List.head?_eq_getElem? ▸ hc)
      exact ⟨rest, by simpa using hlater⟩
    · rintro d ⟨⟩
      exact ⟨hdrained, _, rfl⟩
  · have hrecord : x.record r = ⟨r.2, x.returned, x.justRead⟩ := by
      rw [record]
      split
      · exact absurd ‹_› (hnone _)
      · rfl
    refine ⟨?_, fun hcp hgranted => ?_⟩
    · rw [hrecord]
      exact ⟨hreads, h.returned, fun c hc => ⟨hdrained (h.justRead c hc).1, (h.justRead c hc).2⟩⟩
    · obtain ⟨heof, hlast⟩ := hend hcp hgranted
      rw [next_byte, hlast, heof]

theorem grants_capped (len : ℕ) (answer : ReadAnswer) :
    grants (if len > zbufsiz then zbufsiz else len) answer = grants len answer := by
  cases answer with
  | failed => rfl
  | bytes n =>
      split
      · next hlen => simp [grants, zbufsiz, Nat.zero_lt_of_lt hlen]
      · rfl

theorem kept_zungetc {c : UInt8} (h : Kept file x) (hread : x.justRead = some c) :
    Kept file (x.perform (.zungetc c)) := by
  obtain ⟨hdrained, bytes, hbytes⟩ := h.justRead c hread
  have hreads := h.reads
  have hprefix := h.returned
  rw [hbytes] at hreads hprefix
  have hc : file.contents[file.offset + bytes.length]? = some c := by
    obtain ⟨later, hlater⟩ := hprefix
    rw [← List.getElem?_drop, ← hlater]
    simp
  have hdrop : x.returned.dropLast = bytes := by rw [hbytes, List.dropLast_concat]
  refine ⟨?_, ?_, fun d hd => by cases hd⟩
  · simp only [perform, hdrop]
    exact ZState.zungetc_reads (by simpa [Nat.add_assoc] using hreads) hc hdrained
  · simp only [perform, hdrop]
    exact (List.prefix_append bytes [c]).trans hprefix

/-- A call that syncs only with nothing pushed back keeps the bytes; a sync with a byte pushed
back puts the descriptor behind it. -/
theorem conserves_iff {call : ZCall} (h : Kept file x) (hallowed : x.Allowed call) :
    (x.SyncsDrained call → Kept file (x.perform call)) ∧
      (Conserves file x call ↔ x.SyncsDrained call) := by
  cases call with
  | zreadc cp a =>
      obtain ⟨hkept, hanswered⟩ := kept_record h (ZState.readAhead_outcome cp zbufsiz a h.reads)
      refine ⟨fun _ => hkept, fun _ hcall => ?_, fun _ => ⟨hkept.returned, hanswered, ?_⟩⟩
      · cases hcall
      · rintro ⟨⟩
  | zreadn cp len a =>
      obtain ⟨hkept, hanswered⟩ := kept_record h (ZState.readAhead_outcome cp _ a h.reads)
      rw [grants_capped] at hanswered
      refine ⟨fun _ => hkept, fun _ hcall => ?_, fun _ => ⟨hkept.returned, hanswered, ?_⟩⟩
      · cases hcall
      · rintro ⟨⟩
  | zungetc c =>
      have hkept := kept_zungetc h (hallowed c rfl)
      refine ⟨fun _ => hkept, fun _ hcall => ?_, fun _ => ⟨hkept.returned, ?_, ?_⟩⟩
      · cases hcall
      · rintro ⟨⟩
      · rintro ⟨⟩
  | zsyncfd =>
      obtain ⟨hreads, hoffset, hdrained⟩ := ZState.zsyncfd_reads h.reads
      have hpop := h.reads.popind
      refine ⟨fun hsync => ?_, fun hcons _ => ?_, fun hsync => ?_⟩
      · have hzero : x.state.zpushind = 0 := (hsync rfl).trans hpop
        rw [hzero, Nat.add_zero] at hreads
        exact ⟨hreads, h.returned, fun c hc => ⟨hdrained, (h.justRead c hc).2⟩⟩
      · have hsynced : x.state.zsyncfd.file.offset = _ := hcons.synced rfl
        omega
      · have hzero : x.state.zpushind = 0 := (hsync rfl).trans hpop
        rw [hzero] at hoffset
        refine ⟨h.returned, ?_, fun _ => hoffset⟩
        rintro ⟨⟩

/-- The bytes of the file are conserved exactly where no `zsyncfd` drops a byte pushed back. -/
theorem along_conserves_iff {calls : List ZCall} (h : Kept file x)
    (hallowed : Along Allowed x calls) :
    Along (Conserves file) x calls ↔ Along SyncsDrained x calls := by
  induction calls generalizing x with
  | nil => exact Iff.rfl
  | cons call calls ih =>
      obtain ⟨hkept, hiff⟩ := conserves_iff h hallowed.1
      constructor
      · rintro ⟨hcons, hrest⟩
        have hsync := hiff.mp hcons
        exact ⟨hsync, (ih (hkept hsync) hallowed.2).mp hrest⟩
      · rintro ⟨hsync, hrest⟩
        exact ⟨hiff.mpr hsync, (ih (hkept hsync) hallowed.2).mpr hrest⟩

end Reading

open Reading

/-- A file of two bytes. -/
def twoBytes : OpenFile where
  contents := [97, 98]
  offset := 0
  seekable := true
  size := 2

/-- A `read` that gets all it asks for. -/
def whole : ZAnswer := ⟨[], .bytes zbufsiz⟩

instance (x : Reading) : (call : ZCall) → Decidable (x.Allowed call)
  | .zungetc c => decidable_of_iff (x.justRead = some c)
      ⟨fun h d hd => by cases hd; exact h, fun h => h c rfl⟩
  | .zreadc _ _ => isTrue fun _ hd => by cases hd
  | .zreadn _ _ _ => isTrue fun _ hd => by cases hd
  | .zsyncfd => isTrue fun _ hd => by cases hd

instance (x : Reading) (call : ZCall) : Decidable (x.SyncsDrained call) :=
  inferInstanceAs (Decidable (_ → _))

instance Reading.Along.decidable {P : Reading → ZCall → Prop} [∀ x call, Decidable (P x call)] :
    (x : Reading) → (calls : List ZCall) → Decidable (Along P x calls)
  | _, [] => isTrue trivial
  | x, call :: calls =>
      have : Decidable (Along P (x.perform call) calls) := Along.decidable (x.perform call) calls
      inferInstanceAs (Decidable (_ ∧ _))

end ZRead

end Rash
