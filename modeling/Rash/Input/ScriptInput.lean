import Mathlib.Tactic.Cases
import Rash.Lib.Machine
import Rash.Input.BufferedStream

/-!
# Reading the script

The calls that the shell makes on the descriptor it reads its script from, and the bytes that
they hand out.  The position in the script is the kernel's offset less what the buffer still
holds; a call on a seekable descriptor moves between the two without a loss.
-/

namespace Rash

/-- A call on the script's descriptor, with what the kernel answers to it. -/
inductive InputCall
  | getchar (answer : ReadAnswer)
  | ungetchar (c : UInt8)
  | sync
  /-- `save_bash_input (fd, new_fd)` -/
  | save (newFd dup : Option ℕ)
  deriving DecidableEq

/-- The shell, and the characters that were returned and not pushed back. -/
structure ScriptReader where
  shell : InputState
  returned : List UInt8

namespace ScriptReader

/-- `NEW_FD` is another descriptor of the same open file, and `F_DUPFD` finds one that is not
in use. -/
def mayMoveTo (s : InputState) (fd : ℕ) (newFd dup : Option ℕ) : Bool :=
  (match newFd with
    | none => true
    | some n => n != fd && s.descriptors n == s.descriptors fd) &&
  match dup with
  | none => true
  | some n => 10 ≤ n && (s.descriptors n).isNone

def step (s : ScriptReader) : InputCall → Option ScriptReader
  | .getchar answer =>
      match s.shell.bufferedGetchar answer with
      | (none, shell) => some { s with shell := shell }
      | (some c, shell) => some { shell := shell, returned := s.returned ++ [c] }
  | .ungetchar c =>
      if s.returned.getLast? = some c then
        match s.shell.bufferedUngetchar c with
        | (false, shell) => some { s with shell := shell }
        | (true, shell) => some { shell := shell, returned := s.returned.dropLast }
      else none
  | .sync => s.shell.bufferedFd.map fun fd => { s with shell := s.shell.syncBufferedStream fd }
  | .save newFd dup =>
      match s.shell.bufferedFd with
      | none => none
      | some fd =>
          if mayMoveTo s.shell fd newFd dup then
            some { s with shell := (s.shell.saveBashInput fd newFd dup).2 }
          else none

/-- The script's open file, and the stream that the shell reads it through. -/
def stream? (s : InputState) : Option (ℕ × BufferedStream) := do
  let fd ← s.bufferedFd
  let f ← s.descriptors fd
  let bp ← s.buffers fd
  return (f, bp)

/-- A call that empties the buffer finds it read to the end, or the file seekable. -/
def seeksBack (s : ScriptReader) : InputCall → Bool
  | .sync | .save _ _ =>
      match stream? s.shell with
      | some (f, bp) => (s.shell.files f).seekable || bp.inputp == bp.used
      | none => true
  | _ => true

/-- The stream at `fd` reads `input` from `start` on, through the open file `f`, and the buffer
holds the bytes before the kernel's offset. -/
structure Positioned (input : List UInt8) (f start fd : ℕ) (bp : BufferedStream)
    (s : ScriptReader) : Prop where
  bufferedFd : s.shell.bufferedFd = some fd
  descriptor : s.shell.descriptors fd = some f
  stream : s.shell.buffers fd = some bp
  streamFd : bp.fd = fd
  contents : (s.shell.files f).contents = input
  size_pos : 0 < bp.size
  inputp_le : bp.inputp ≤ bp.used
  used_le : bp.used ≤ (s.shell.files f).offset
  holds : ∀ i < bp.used, bp.buffer[i]? = input[(s.shell.files f).offset - bp.used + i]?
  filled : bp.used ≤ bp.buffer.length
  position : start + s.returned.length + (bp.used - bp.inputp) = (s.shell.files f).offset
  inOrder : s.returned <+: input.drop start

theorem prefix_drop_concat {input returned : List UInt8} {start : ℕ} {c : UInt8}
    (h : returned <+: input.drop start) (hc : input[start + returned.length]? = some c) :
    returned ++ [c] <+: input.drop start := by
  obtain ⟨rest, hrest⟩ := h
  have hnext : rest[0]? = some c := by
    have hat : (input.drop start)[returned.length]? = some c := by
      rw [List.getElem?_drop]
      exact hc
    rw [← hrest, List.getElem?_append_right (Nat.le_refl _), Nat.sub_self] at hat
    exact hat
  cases rest with
  | nil => simp at hnext
  | cons d rest =>
      obtain rfl : d = c := by simpa using hnext
      exact ⟨rest, by rw [← hrest, List.append_assoc]; rfl⟩

theorem prefix_last {input returned : List UInt8} {start : ℕ} {c : UInt8}
    (h : returned <+: input.drop start) (hc : returned.getLast? = some c) :
    input[start + (returned.length - 1)]? = some c := by
  obtain ⟨front, rfl⟩ := List.getLast?_eq_some_iff.mp hc
  obtain ⟨rest, hrest⟩ := h
  have hat : (input.drop start)[front.length]? = some c := by
    rw [← hrest]
    simp
  simpa [List.getElem?_drop] using hat

namespace Positioned

variable {input : List UInt8} {f start fd : ℕ} {bp : BufferedStream} {s : ScriptReader}

/-- Only the input pointer of the stream moves, and with it what was returned. -/
theorem putStream (h : Positioned input f start fd bp s) {i : ℕ} {b : List UInt8}
    {returned : List UInt8} (hi : i ≤ bp.used) (hb : b = bp.buffer)
    (hpos : start + returned.length + (bp.used - i) = (s.shell.files f).offset)
    (hin : returned <+: input.drop start) :
    Positioned input f start fd { bp with inputp := i, buffer := b }
      { shell := s.shell.putStream fd { bp with inputp := i, buffer := b },
        returned := returned } where
  bufferedFd := h.bufferedFd
  descriptor := h.descriptor
  stream := Function.update_self ..
  streamFd := h.streamFd
  contents := h.contents
  size_pos := h.size_pos
  inputp_le := hi
  used_le := h.used_le
  holds := by rw [hb]; exact h.holds
  filled := by rw [hb]; exact h.filled
  position := hpos
  inOrder := hin

/-- An emptied stream holds nothing, so that only the kernel's offset counts. -/
theorem emptied (h : Positioned input f start fd bp s) {shell : InputState} {bp' : BufferedStream}
    (hb : shell.bufferedFd = some fd) (hd : shell.descriptors fd = some f)
    (hs : shell.buffers fd = some bp') (hfd : bp'.fd = fd) (hsize : 0 < bp'.size)
    (hused : bp'.used = 0) (hinputp : bp'.inputp = 0)
    (hcontents : (shell.files f).contents = input)
    (hoffset : (shell.files f).offset = start + s.returned.length) :
    Positioned input f start fd bp' { s with shell := shell } where
  bufferedFd := hb
  descriptor := hd
  stream := hs
  streamFd := hfd
  contents := hcontents
  size_pos := hsize
  inputp_le := by omega
  used_le := by omega
  holds := fun i hi => by omega
  filled := by omega
  position := by
    show start + s.returned.length + (bp'.used - bp'.inputp) = (shell.files f).offset
    omega
  inOrder := h.inOrder

theorem next_buffered (h : Positioned input f start fd bp s) (hlt : bp.inputp < bp.used) :
    bp.buffer[bp.inputp]? = input[start + s.returned.length]? := by
  rw [h.holds bp.inputp hlt]
  have hpos := h.position
  have hle := h.used_le
  congr 1
  omega

/-- `zread` on the descriptor of an emptied stream. -/
theorem zread (h : Positioned input f start fd bp s) (len : ℕ) (answer : ReadAnswer) :
    (s.shell.zread fd len answer = (none, s.shell) ∧ answer = .failed) ∨
      ∃ n, answer = .bytes n ∧
        s.shell.zread fd len answer =
          (some ((input.drop (s.shell.files f).offset).take (min n len)),
            { s.shell with
              files := Function.update s.shell.files f
                { s.shell.files f with
                  offset := (s.shell.files f).offset +
                    ((input.drop (s.shell.files f).offset).take (min n len)).length } }) := by
  cases answer with
  | failed => exact .inl ⟨by simp [InputState.zread, h.descriptor], rfl⟩
  | bytes n => exact .inr ⟨n, rfl, by simp [InputState.zread, h.descriptor, h.contents]⟩

end Positioned

/-- What one `buffered_getchar` does to a reader in position. -/
inductive ReadsNext (input : List UInt8) (f start fd : ℕ) (s : ScriptReader)
    (answer : ReadAnswer) : Option UInt8 × InputState → Prop
  | character {c : UInt8} {shell : InputState} {bp : BufferedStream}
      (hc : input[start + s.returned.length]? = some c)
      (hpos : Positioned input f start fd bp { shell := shell, returned := s.returned ++ [c] }) :
      ReadsNext input f start fd s answer (some c, shell)
  | nothing {shell : InputState} {bp : BufferedStream}
      (hwhy : ∀ bp, s.shell.buffers fd = some bp → bp.error = false →
        ∀ n, answer = .bytes n → 0 < n → input[start + s.returned.length]? = none)
      (hpos : Positioned input f start fd bp { s with shell := shell }) :
      ReadsNext input f start fd s answer (none, shell)

namespace Positioned

variable {input : List UInt8} {f start fd : ℕ} {bp : BufferedStream} {s : ScriptReader}

theorem bFillBuffer (h : Positioned input f start fd bp s) (hread : bp.inputp = bp.used)
    (answer : ReadAnswer) :
    ReadsNext input f start fd s answer (s.shell.bFillBuffer fd bp answer) := by
  have hpos := h.position
  have hfd := h.streamFd
  have hoff : (s.shell.files f).offset = start + s.returned.length := by omega
  simp only [InputState.bFillBuffer]
  by_cases herror : bp.error = true
  · rw [if_pos herror]
    refine .nothing ?_ h
    intro bp' hbp' hnone
    rw [h.stream, Option.some.injEq] at hbp'
    subst hbp'
    exact absurd herror (by simp [hnone])
  · rw [if_neg herror, hfd]
    rcases h.zread bp.size answer with ⟨hz, rfl⟩ | ⟨n, rfl, hz⟩
    · simp only [hz]
      apply ReadsNext.nothing
      · intro _ _ _ n hn
        cases hn
      · exact h.emptied h.bufferedFd h.descriptor (Function.update_self ..) rfl
          h.size_pos rfl rfl h.contents hoff
    · rw [hoff] at hz
      cases hgot : (input.drop (start + s.returned.length)).take (min n bp.size) with
      | nil =>
          simp only [hz, hgot]
          apply ReadsNext.nothing
          · intro _ _ _ m hm hm0
            obtain rfl : n = m := by injection hm
            have hsize := h.size_pos
            have hlen : input.length ≤ start + s.returned.length := by
              rcases List.take_eq_nil_iff.mp hgot with hzero | hnil
              · omega
              · exact List.drop_eq_nil_iff.mp hnil
            exact List.getElem?_eq_none hlen
          · refine h.emptied h.bufferedFd h.descriptor (Function.update_self ..) rfl
              h.size_pos rfl rfl ?_ ?_
            · simp [InputState.putStream, h.contents]
            · simp [InputState.putStream]
      | cons c got =>
          simp only [hz, hgot]
          have hat : ∀ i < (c :: got).length,
              (c :: got)[i]? = input[start + s.returned.length + i]? := by
            intro i hi
            rw [← hgot] at hi ⊢
            rw [List.length_take] at hi
            rw [List.getElem?_take_of_lt (by omega), List.getElem?_drop]
          have hc : input[start + s.returned.length]? = some c := by
            simpa using (hat 0 (by simp)).symm
          apply ReadsNext.character hc
          exact
            { bufferedFd := h.bufferedFd
              descriptor := h.descriptor
              stream := Function.update_self ..
              streamFd := rfl
              contents := by simp [InputState.putStream, h.contents]
              size_pos := h.size_pos
              inputp_le := by simp
              used_le := by simp [InputState.putStream]
              holds := by
                intro i hi
                have hi' : i < (c :: got).length := hi
                rw [show ((c :: got) ++ bp.buffer.drop (c :: got).length)[i]? = (c :: got)[i]? from
                  List.getElem?_append_left hi', hat i hi']
                congr 1
                simp [InputState.putStream]
              filled := by simp
              position := by
                simp [InputState.putStream]
                omega
              inOrder := prefix_drop_concat h.inOrder hc }

theorem bufferedGetchar (h : Positioned input f start fd bp s) (answer : ReadAnswer) :
    ReadsNext input f start fd s answer (s.shell.bufferedGetchar answer) := by
  simp only [InputState.bufferedGetchar, h.bufferedFd, h.stream, InputState.bufstreamGetc]
  have hle := h.inputp_le
  have hpos := h.position
  split
  next hempty => exact h.bFillBuffer (by omega) answer
  next hleft =>
      have hlt : bp.inputp < bp.used := by omega
      have hnext := h.next_buffered hlt
      cases hc : bp.buffer[bp.inputp]? with
      | none =>
          have hfilled := h.filled
          rw [List.getElem?_eq_none_iff] at hc
          omega
      | some c =>
          rw [hc] at hnext
          apply ReadsNext.character hnext.symm
          refine h.putStream (show bp.inputp + 1 ≤ bp.used by omega) rfl ?_
            (prefix_drop_concat h.inOrder hnext.symm)
          simp only [List.length_append, List.length_singleton]
          omega

/-- A character that is pushed back goes where it came from. -/
theorem bufferedUngetchar (h : Positioned input f start fd bp s) {c : UInt8}
    (hc : s.returned.getLast? = some c) :
    (s.shell.bufferedUngetchar c = (false, s.shell)) ∨
      ∃ shell bp', s.shell.bufferedUngetchar c = (true, shell) ∧
        Positioned input f start fd bp' { shell := shell, returned := s.returned.dropLast } := by
  simp only [InputState.bufferedUngetchar, h.bufferedFd, h.stream, InputState.bufstreamUngetc]
  split
  · exact .inl rfl
  · next hinputp =>
      have hle := h.inputp_le
      have hpos := h.position
      have hused := h.used_le
      have hne : s.returned ≠ [] := by
        rintro hnil
        simp [hnil] at hc
      have hlen : 0 < s.returned.length := List.length_pos_iff.mpr hne
      have hlast : bp.buffer[bp.inputp - 1]? = some c := by
        rw [h.holds _ (by omega), ← prefix_last h.inOrder hc]
        congr 1
        omega
      have hback : bp.buffer.set (bp.inputp - 1) c = bp.buffer := by
        obtain ⟨hlt, rfl⟩ := List.getElem?_eq_some_iff.mp hlast
        exact List.set_getElem_self hlt
      refine .inr ⟨_, _, rfl, h.putStream (show bp.inputp - 1 ≤ bp.used by omega) hback ?_
        ((List.dropLast_prefix _).trans h.inOrder)⟩
      simp only [List.length_dropLast]
      omega

/-- The descriptor and the stream behind `sync_buffered_stream`, unless a pushed back character
cannot be sought back to. -/
theorem syncBufferedStream (h : Positioned input f start fd bp s)
    (hseek : (s.shell.files f).seekable = true ∨ bp.inputp = bp.used) :
    Positioned input f start fd { bp with used := 0, inputp := 0 }
        { s with shell := s.shell.syncBufferedStream fd } ∧
      ((s.shell.syncBufferedStream fd).files f).offset = start + s.returned.length := by
  have hpos := h.position
  have hle := h.inputp_le
  have hfd := h.streamFd
  suffices hshell : (s.shell.syncBufferedStream fd).bufferedFd = some fd ∧
      (s.shell.syncBufferedStream fd).descriptors fd = some f ∧
      ((s.shell.syncBufferedStream fd).files f).contents = input ∧
      ((s.shell.syncBufferedStream fd).files f).offset = start + s.returned.length ∧
      (s.shell.syncBufferedStream fd).buffers fd = some { bp with used := 0, inputp := 0 } by
    obtain ⟨hb, hd, hcon, hoff, hs⟩ := hshell
    exact ⟨h.emptied hb hd hs hfd h.size_pos rfl rfl hcon hoff, hoff⟩
  simp only [InputState.syncBufferedStream, h.stream, hfd]
  by_cases hleft : bp.used - bp.inputp = 0
  · simp only [hleft, ne_eq, not_true_eq_false, if_false, InputState.putStream,
      Function.update_self, h.bufferedFd, h.descriptor, h.contents, true_and, and_true]
    omega
  · have hsk : (s.shell.files f).seekable = true := hseek.resolve_right (by omega)
    simp only [ne_eq, hleft, not_false_eq_true, if_true, InputState.putStream,
      InputState.seekBack, h.descriptor, hsk, Function.update_self, h.bufferedFd, h.contents,
      true_and, and_true]
    omega

/-- A stream that `fd_to_buffered_stream` makes starts at the kernel's offset. -/
theorem opened {shell : InputState} {returned : List UInt8} {n : ℕ}
    (hd : shell.descriptors n = some f) (hcontents : (shell.files f).contents = input)
    (hoffset : (shell.files f).offset = start + returned.length)
    (hin : returned <+: input.drop start) :
    ∃ bp, Positioned input f start n bp
      { shell := shell.withInputFromBufferedStream n, returned := returned } := by
  simp only [InputState.withInputFromBufferedStream, InputState.fdToBufferedStream, hd]
  exact ⟨_,
    { bufferedFd := rfl
      descriptor := hd
      stream := Function.update_self ..
      streamFd := rfl
      contents := hcontents
      size_pos := InputState.bufferSize_pos ..
      inputp_le := Nat.le_refl 0
      used_le := Nat.zero_le _
      holds := fun i hi => absurd hi (Nat.not_lt_zero i)
      filled := Nat.zero_le _
      position := hoffset.symm
      inOrder := hin }⟩

/-- Another descriptor is closed. -/
theorem closeBufferedFd (h : Positioned input f start fd bp s) {n : ℕ} (hn : n ≠ fd)
    (hfd : ∀ bp', s.shell.buffers n = some bp' → bp'.fd = n) :
    Positioned input f start fd bp { s with shell := s.shell.closeBufferedFd n } := by
  have hother : fd ≠ n := hn.symm
  simp only [InputState.closeBufferedFd]
  cases hbuf : s.shell.buffers n with
  | none => exact { h with descriptor := by simp [InputState.close, hother, h.descriptor] }
  | some bp' =>
      simp only [hfd bp' hbuf]
      exact
        { h with
          descriptor := by
            simp [InputState.close, InputState.freeBufferedStream, hother, h.descriptor]
          stream := by
            simp [InputState.close, InputState.freeBufferedStream, hother, h.stream] }

/-- The script is read on through another descriptor of its open file. -/
theorem moveBashInput (h : Positioned input f start fd bp s) {n : ℕ} (hn : n ≠ fd)
    (hd : s.shell.descriptors n = some f)
    (hoffset : (s.shell.files f).offset = start + s.returned.length) :
    ∃ bp', Positioned input f start n bp' { s with shell := s.shell.moveBashInput fd n } := by
  let cleared := if (s.shell.buffers n).isSome then s.shell.freeBufferedStream n else s.shell
  have hfiles : cleared.files = s.shell.files := by
    simp only [cleared]
    split <;> rfl
  have hdesc : cleared.descriptors = s.shell.descriptors := by
    simp only [cleared]
    split <;> rfl
  have hstream : cleared.buffers fd = some bp := by
    simp only [cleared]
    split
    · simp [InputState.freeBufferedStream, hn.symm, h.stream]
    · exact h.stream
  obtain ⟨bp', hopen⟩ : ∃ bp, Positioned input f start n bp
      { shell := cleared.withInputFromBufferedStream n, returned := s.returned } :=
    opened (hdesc ▸ hd) (by rw [hfiles]; exact h.contents) (by rw [hfiles]; exact hoffset) h.inOrder
  have hclosed := hopen.closeBufferedFd hn.symm fun bp'' hbp'' => by
    rw [InputState.withInputFromBufferedStream_buffers _ hn.symm, hstream] at hbp''
    rw [← Option.some.inj hbp'', h.streamFd]
  refine ⟨bp', ?_⟩
  simp only [InputState.moveBashInput, InputState.fdToBufferedStream_bufferedFd]
  exact { hclosed with }

/-- `save_bash_input` leaves the reader at `fd`, or moves it to the descriptor it returns. -/
theorem saveBashInput (h : Positioned input f start fd bp s) {newFd dup : Option ℕ}
    (hmay : mayMoveTo s.shell fd newFd dup = true)
    (hseek : (s.shell.files f).seekable = true ∨ bp.inputp = bp.used) :
    ∃ fd' bp', Positioned input f start fd' bp'
      { s with shell := (s.shell.saveBashInput fd newFd dup).2 } := by
  obtain ⟨hsync, hoffset⟩ := h.syncBufferedStream hseek
  have hsome : (s.shell.buffers fd).isSome = true := by simp [h.stream]
  obtain ⟨hnew, hdup⟩ := Bool.and_eq_true_iff.mp hmay
  simp only [InputState.saveBashInput, hsome, if_true]
  cases newFd with
  | some n =>
      simp only [bne_iff_ne, Bool.and_eq_true, beq_iff_eq, ne_eq] at hnew
      refine ⟨n, hsync.moveBashInput hnew.1 ?_ hoffset⟩
      simp [hnew.2, h.descriptor]
  | none =>
      cases dup with
      | none => exact ⟨fd, _, hsync⟩
      | some n =>
          simp only [Bool.and_eq_true, decide_eq_true_eq, Option.isNone_iff_eq_none] at hdup
          have hn : n ≠ fd := by
            rintro rfl
            simp [h.descriptor] at hdup
          let synced := s.shell.syncBufferedStream fd
          let descriptors := Function.update synced.descriptors n (synced.descriptors fd)
          have hdup : Positioned input f start fd _
              { s with shell := { synced with descriptors := descriptors } } :=
            { hsync with descriptor := by simp [descriptors, synced, hn.symm, h.descriptor] }
          refine ⟨n, hdup.moveBashInput hn ?_ hoffset⟩
          simp [descriptors, synced, h.descriptor]

end Positioned

/-- The reader is at `start` in `input`, or behind it, with some stream. -/
def InPosition (input : List UInt8) (f start : ℕ) (s : ScriptReader) : Prop :=
  ∃ fd bp, Positioned input f start fd bp s

theorem step_inPosition {input : List UInt8} {f start : ℕ} (s : ScriptReader) (call : InputCall)
    (s' : ScriptReader) (h : InPosition input f start s) (hseek : s.seeksBack call = true)
    (hstep : s.step call = some s') : InPosition input f start s' := by
  obtain ⟨fd, bp, hpos⟩ := h
  have hsought : ∀ call, (call = .sync ∨ ∃ newFd dup, call = .save newFd dup) →
      s.seeksBack call = true →
      (s.shell.files f).seekable = true ∨ bp.inputp = bp.used := by
    rintro _ (rfl | ⟨newFd, dup, rfl⟩) hseek <;>
      simpa [seeksBack, stream?, hpos.bufferedFd, hpos.descriptor, hpos.stream] using hseek
  cases call with
  | getchar answer =>
      have hread := hpos.bufferedGetchar answer
      simp only [step] at hstep
      generalize s.shell.bufferedGetchar answer = outcome at hread hstep
      cases hread with
      | character hc hnext =>
          obtain rfl := Option.some.inj hstep
          exact ⟨fd, _, hnext⟩
      | nothing hwhy hnext =>
          obtain rfl := Option.some.inj hstep
          exact ⟨fd, _, hnext⟩
  | ungetchar c =>
      simp only [step] at hstep
      by_cases hc : s.returned.getLast? = some c
      · rw [if_pos hc] at hstep
        rcases hpos.bufferedUngetchar hc with hrefused | ⟨shell, bp', htaken, hnext⟩
        · rw [hrefused] at hstep
          obtain rfl := Option.some.inj hstep
          exact ⟨fd, bp, hpos⟩
        · rw [htaken] at hstep
          obtain rfl := Option.some.inj hstep
          exact ⟨fd, bp', hnext⟩
      · rw [if_neg hc] at hstep
        cases hstep
  | sync =>
      simp only [step, hpos.bufferedFd, Option.map_some] at hstep
      obtain rfl := Option.some.inj hstep
      exact ⟨fd, _, (hpos.syncBufferedStream (hsought _ (.inl rfl) hseek)).1⟩
  | save newFd dup =>
      simp only [step, hpos.bufferedFd] at hstep
      split at hstep
      · next hmay =>
          obtain rfl := Option.some.inj hstep
          exact hpos.saveBashInput hmay (hsought _ (.inr ⟨newFd, dup, rfl⟩) hseek)
      · cases hstep

/-- The characters returned are the bytes of the input in order, the next one is the next byte
unless the kernel gives none, and a sync on a seekable file leaves the offset there. -/
structure ReadsOnce (input : List UInt8) (f start : ℕ) (s : ScriptReader) : Prop where
  inOrder : s.returned <+: input.drop start
  next : ∀ bp, stream? s.shell = some (f, bp) → bp.error = false → ∀ n, 0 < n →
    (s.shell.bufferedGetchar (.bytes n)).1 = input[start + s.returned.length]?
  synced : ∀ s', s.step .sync = some s' → (s.shell.files f).seekable = true →
    (s'.shell.files f).offset = start + s'.returned.length

theorem InPosition.readsOnce {input : List UInt8} {f start : ℕ} {s : ScriptReader}
    (h : InPosition input f start s) : ReadsOnce input f start s := by
  obtain ⟨fd, bp, hpos⟩ := h
  refine ⟨hpos.inOrder, ?_, ?_⟩
  · intro bp' hbp' herror n hn
    obtain rfl : bp = bp' := by
      simpa [stream?, hpos.bufferedFd, hpos.descriptor, hpos.stream] using hbp'
    have hread := hpos.bufferedGetchar (.bytes n)
    generalize s.shell.bufferedGetchar (.bytes n) = outcome at hread
    cases hread with
    | character hc _ => exact hc.symm
    | nothing hwhy _ => exact (hwhy bp hpos.stream herror n rfl hn).symm
  · intro s' hstep hseekable
    simp only [step, hpos.bufferedFd, Option.map_some] at hstep
    obtain rfl := Option.some.inj hstep
    exact (hpos.syncBufferedStream (.inl hseekable)).2

/-- The reader when the shell starts on a script, or takes one up from a descriptor. -/
def start (shell : InputState) (fd : ℕ) : ScriptReader :=
  { shell := shell.withInputFromBufferedStream fd, returned := [] }

/-- However the reads are cut up, no byte of the script is lost or read twice, as long as no
call empties the buffer of a pipe while it holds a character that was pushed back. -/
theorem reads_once {shell : InputState} {fd f : ℕ} (hfd : shell.descriptors fd = some f)
    {calls : List InputCall} {last : ScriptReader}
    (hmeets : Machine.PathMeets step (fun s call => s.seeksBack call = true) (start shell fd)
      calls)
    (hrun : Machine.runPath step (start shell fd) calls = some last) :
    ReadsOnce (shell.files f).contents f (shell.files f).offset last := by
  have hstart : InPosition (shell.files f).contents f (shell.files f).offset (start shell fd) :=
    ⟨fd, Positioned.opened hfd rfl rfl List.nil_prefix⟩
  exact (Machine.path_invariant (fun s a s' => step_inPosition s a s') hstart hmeets hrun).readsOnce

/-- A shell whose standard input is `file`. -/
def readingStdin (file : OpenFile) : InputState where
  files := fun _ => file
  descriptors := fun fd => if fd ≤ 2 then some 0 else none
  buffers := fun _ => none
  bufferedFd := none
  defaultBufferedInput := some 0
  usingBashMalloc := true

/-- A script on a pipe. -/
def pipedScript : OpenFile :=
  { contents := [35, 33, 10], offset := 0, seekable := false, size := 0 }

/-- The character that was pushed back is dropped by the sync, and the next one comes first. -/
theorem piped_pushback_lost :
    ¬ ∀ (shell : InputState) (fd f : ℕ) (calls : List InputCall) (last : ScriptReader),
      shell.descriptors fd = some f →
      Machine.runPath step (start shell fd) calls = some last →
      ReadsOnce (shell.files f).contents f (shell.files f).offset last := by
  intro hall
  have hrun := hall (readingStdin pipedScript) 0 0
    [.getchar (.bytes 1), .ungetchar 35, .sync, .getchar (.bytes 1)] _ rfl rfl
  exact absurd hrun.inOrder (by decide)

/-- A script in a file, read in two pieces around a pushed back character and a move to
another descriptor. -/
theorem reads_once_file :
    ∃ last, Machine.runPath step
        (start (readingStdin { pipedScript with seekable := true, size := 3 }) 0)
        [.getchar (.bytes 2), .ungetchar 35, .sync, .getchar (.bytes 3), .save none (some 10),
          .getchar (.bytes 1)] = some last ∧
      ReadsOnce [35, 33, 10] 0 0 last :=
  ⟨_, rfl, @reads_once (readingStdin { pipedScript with seekable := true, size := 3 }) 0 0 rfl
    [.getchar (.bytes 2), .ungetchar 35, .sync, .getchar (.bytes 3), .save none (some 10),
      .getchar (.bytes 1)] _ (by decide) rfl⟩

end ScriptReader

end Rash
