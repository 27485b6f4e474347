import Rash.Exec.RedirectTargets
import Rash.Lib.Descriptors

/-!
# Redirections

`do_redirections` with the list that takes the redirections back: what each instruction opens,
duplicates and closes, `add_undo_redirect` and `add_undo_close_redirect`, and the move of the
descriptor that the script is read from.  Word expansion, the files that are opened, variables
and hooks are parameters.
-/

namespace Rash

/-! ## Flags -/

def rxActive : ℕ := 0x01
def rxUndoable : ℕ := 0x02
def rxClexec : ℕ := 0x04
def rxInternal : ℕ := 0x0080
def rxSavclexec : ℕ := 0x0200
def rxSavefd : ℕ := 0x0400
def rxExpanded : ℕ := 0x0800

/-- `SHELL_FD_BASE`. -/
def shellFdBase : ℕ := 10

/-- `W_NOGLOB`. -/
def wordNoglob : ℕ := 0x20

def hasFlag (flags flag : ℕ) : Bool := flags &&& flag != 0

inductive RedirectError
  | ambiguous
  | noclobber
  | restricted
  | heredoc
  | badvar
  | denied
  | errno (e : ℕ)
  deriving DecidableEq

def errnoIo : ℕ := 5
def errnoBadf : ℕ := 9
def errnoInval : ℕ := 22
def errnoMfile : ℕ := 24
def errnoNospc : ℕ := 28

/-- `WRITE_REDIRECT`. -/
def RInstruction.isWrite : RInstruction → Bool
  | .outputDirection | .inputOutput | .errAndOut | .appendingTo | .appendErrAndOut
  | .outputForce => true
  | _ => false

/-- `TRANSLATE_REDIRECT`. -/
def RInstruction.isTranslated : RInstruction → Bool
  | .duplicatingInputWord | .duplicatingOutputWord | .moveInputWord | .moveOutputWord => true
  | _ => false

def RInstruction.isMove : RInstruction → Bool
  | .moveInput | .moveOutput => true
  | _ => false

/-- The flags that `make_redirection` sets for the file to be opened. -/
def RInstruction.openFlags : RInstruction → ℕ
  | .outputDirection | .outputForce | .errAndOut => 0x241
  | .appendingTo | .appendErrAndOut => 0x441
  | .inputOutput => 0x42
  | _ => 0

/-- `make_redirection`, for the instructions that redir.c passes to it. -/
def makeRedirection (source : Redirectee) (ri : RInstruction) (dest : Redirectee)
    (rflags : ℕ) : Redirect where
  redirector := source
  rflags := rflags
  flags := ri.openFlags
  instruction := ri
  redirectee := dest

/-! ## Translated redirections -/

/-- A redirection after its word has been translated. -/
structure Translated where
  instruction : RInstruction
  redirector : Int
  redirFd : Int
  redirectee : WordDesc
  rflags : ℕ
  flags : ℕ

def Translated.isVarassign (t : Translated) : Bool := hasFlag t.rflags redirVarassign

def Redirect.isVarassign (r : Redirect) : Bool := hasFlag r.rflags redirVarassign

def Redirectee.dest? : Redirectee → Int
  | .dest fd => fd
  | .filename _ => -1

def Redirectee.word : Redirectee → WordDesc
  | .dest _ => ⟨"", 0⟩
  | .filename word => word

/-- The number of a word of digits, if it fits an `int`. -/
def redirectWordNumber (word : String) : Int :=
  let n := Decimal.number 10 word.toList
  if word = "" ∨ 2 ^ 31 ≤ n then -1 else n

/-- The redirection that `[N]>&WORD[-]` or `[N]<&WORD[-]` stands for. -/
def translateWord (r : Redirect) (word : Option String) : Option Redirect :=
  match word with
  | none =>
      if r.instruction = .moveInputWord ∨ r.instruction = .moveOutputWord then
        some (makeRedirection r.redirector .closeThis (.dest 0) r.rflags)
      else none
  | some word =>
      if word = "-" then some (makeRedirection r.redirector .closeThis (.dest 0) r.rflags)
      else if word.toList.all Char.isDigit then
        let ri := match r.instruction with
          | .duplicatingInputWord => .duplicatingInput
          | .duplicatingOutputWord => .duplicatingOutput
          | .moveInputWord => .moveInput
          | _ => .moveOutput
        some (makeRedirection r.redirector ri (.dest (redirectWordNumber word)) r.rflags)
      else if r.instruction = .duplicatingOutputWord ∧ r.isVarassign = false ∧
          r.redirector = .dest 1 then
        some (makeRedirection r.redirector .errAndOut (.filename (makeBareWord word))
          (r.rflags ||| rxExpanded))
      else none

def Redirect.translated (r : Redirect) : Translated where
  instruction := r.instruction
  redirector := r.redirector.dest?
  redirFd := r.redirectee.dest?
  redirectee := r.redirectee.word
  rflags := r.rflags
  flags := r.flags

/-! ## The shell's descriptors -/

/-- What stays open by design when a list of redirections has been taken back. -/
inductive KeptDescriptor
  /-- assigned to the variable of a `{var}` redirection, with `varredir_close` off -/
  | assigned (fd : Int)
  /-- the script is read from here since its old descriptor was redirected -/
  | script (fd : Int)
  /-- opened by the expansion of a word or by a callback -/
  | substitution (fd : Int)
  deriving DecidableEq

def KeptDescriptor.fd : KeptDescriptor → Int
  | .assigned fd | .script fd | .substitution fd => fd

structure RedirState (Θ F : Type) where
  table : DescriptorTable F
  closeOnExec : Int → Bool
  /-- `bash_input.location.buffered_fd`, when the input is a buffered stream -/
  bashInput : Option Int
  defaultBufferedInput : Int
  /-- `redirection_undo_list` -/
  undo : List Redirect
  /-- `exec_redirection_undo_list` -/
  execUndo : List Redirect
  kept : List KeptDescriptor
  rest : Θ

/-- A descriptor that was not in use, with the file that was opened on it. -/
structure Opened {F : Type} (t : DescriptorTable F) where
  fd : ℕ
  file : F
  unused : t.file fd = none

/-- The rest of the shell and the kernel. -/
structure RedirWorld (Θ F : Type) where
  /-- `RLIMIT_NOFILE` -/
  limit : ℕ
  interactiveShell : Bool
  posixlyCorrect : Θ → Bool
  restricted : Θ → Bool
  /-- `varassign_redir_autoclose`, the option `varredir_close` -/
  varassignRedirAutoclose : Θ → Bool
  /-- The word, and the descriptors that its process substitutions leave open. -/
  redirectionExpand : Θ → WordDesc → Option String × List (ℕ × F) × Θ
  /-- `rash_hooks_on_redirect`: whether the redirection is denied, and what it leaves open. -/
  onRedirect : Θ → String → RInstruction → Int → Bool × List (ℕ × F) × Θ
  redirOpen : Θ → (t : DescriptorTable F) → String → ℕ → RInstruction →
    Except RedirectError (Opened t) × Θ
  hereDocumentToFd : Θ → (t : DescriptorTable F) → WordDesc → RInstruction →
    Option (Opened t) × Θ
  /-- `redir_varassign` -/
  varassign : Θ → Redirectee → Int → Bool × Θ
  /-- `redir_varvalue` -/
  varvalue : Θ → Redirectee → Int
  /-- The error that closing a file reports; the descriptor is closed all the same. -/
  closeError : Θ → F → Option ℕ
  /-- `redirection_error`, which may expand the word again for its message. -/
  redirectionError : Θ → Redirect → RedirectError → Θ

namespace RedirState

variable {Θ F : Type}

def closeFd (s : RedirState Θ F) (fd : Int) : RedirState Θ F :=
  { s with table := s.table.close fd }

/-- `REDIRECTION_ERROR` closes a descriptor that is not negative. -/
def closeOnError (s : RedirState Θ F) (fd : Int) : RedirState Θ F :=
  if 0 ≤ fd then s.closeFd fd else s

def setCloseOnExec (s : RedirState Θ F) (fd : Int) (value : Bool) : RedirState Θ F :=
  { s with closeOnExec := Function.update s.closeOnExec fd value }

/-- `add_undo_close_redirect`. -/
def addUndoCloseRedirect (s : RedirState Θ F) (fd : Int) : RedirState Θ F :=
  { s with undo := makeRedirection (.dest fd) .closeThis (.dest 0) rxInternal :: s.undo }

end RedirState

namespace RedirWorld

variable {Θ F : Type} (w : RedirWorld Θ F)

/-- What an expansion or a callback leaves open, at numbers that were not in use. -/
def leaveOpen (s : RedirState Θ F) : List (ℕ × F) → RedirState Θ F
  | [] => s
  | (n, f) :: l =>
      if s.table.isOpen n || w.limit ≤ n then leaveOpen s l
      else
        leaveOpen { s with
          table := s.table.put n (Int.natCast_nonneg n) f
          kept := .substitution n :: s.kept } l

/-- `fcntl (fd, F_DUPFD, base)`. -/
def dupfd (s : RedirState Θ F) (fd : Int) (base : ℕ) : Option (ℕ × RedirState Θ F) :=
  match s.table.file fd, s.table.lowest w.limit base with
  | some f, some n =>
      some (n, { s with
        table := s.table.put n (Int.natCast_nonneg n) f
        closeOnExec := Function.update s.closeOnExec n false })
  | _, _ => none

/-- The `errno` of a failed `F_DUPFD`. -/
def dupfdErrno (s : RedirState Θ F) (fd : Int) (base : ℕ) : ℕ :=
  if s.table.isOpen fd = false then errnoBadf
  else if w.limit ≤ base then errnoInval else errnoMfile

/-- `dup2 (src, dst)`. -/
def dup2 (s : RedirState Θ F) (src dst : Int) : Option (RedirState Θ F) :=
  (s.table.dup2 w.limit src dst).map fun t =>
    { s with table := t, closeOnExec := Function.update s.closeOnExec dst false }

/-- The number at which `add_undo_redirect` saves a descriptor, and whether it may lie below
`SHELL_FD_BASE`. -/
def saveFd (s : RedirState Θ F) (fd fdbase : Int) : Option (ℕ × Bool × RedirState Θ F) :=
  match w.dupfd s fd (if fdbase < shellFdBase then shellFdBase else fdbase.toNat + 1) with
  | some (n, s) => some (n, false, s)
  | none =>
      match w.dupfd s fd shellFdBase with
      | some (n, s) => some (n, false, s)
      | none => (w.dupfd s fd 0).map fun (n, s) => (n, true, s)

/-- `add_undo_redirect`. -/
def addUndoRedirect (s : RedirState Θ F) (fd : Int) (ri : RInstruction) (fdbase : Int) :
    Option (RedirState Θ F) :=
  (w.saveFd s fd fdbase).map fun (newFd, savefdFlag, s) =>
    let clexecFlag := s.closeOnExec fd
    let savclexec := !clexecFlag && 3 ≤ fd && (shellFdBase ≤ newFd || savefdFlag)
    let closer := makeRedirection (.dest newFd) .closeThis (.dest 0) rxInternal
    let restore := makeRedirection (.dest fd)
      (if fd = 0 then .duplicatingInput else .duplicatingOutput) (.dest newFd)
      (rxInternal ||| (if savefdFlag then rxSavefd else 0) |||
        (if savclexec then rxSavclexec else 0))
    let again :=
      if shellFdBase ≤ fd && ri != .closeThis && clexecFlag then
        [makeRedirection (.dest fd) .duplicatingOutput (.dest newFd) rxInternal]
      else []
    { s with
      undo := restore :: closer :: s.undo
      execUndo := again ++ closer :: s.execUndo
      closeOnExec :=
        if clexecFlag || fd < 3 || savclexec then Function.update s.closeOnExec newFd true
        else s.closeOnExec }

/-- `fd_is_bash_input`. -/
def fdIsBashInput (s : RedirState Θ F) (fd : Int) : Bool :=
  s.bashInput == some fd || !w.interactiveShell && s.defaultBufferedInput == fd

/-- `check_bash_input`, with `save_bash_input (fd, -1)`.  On descriptor 0 it only synchronises
the buffer. -/
def checkBashInput (s : RedirState Θ F) (fd : Int) : RedirState Θ F :=
  if w.fdIsBashInput s fd && 0 < fd then
    match w.dupfd s fd 10 with
    | none => s
    | some (nfd, s) =>
        let s := if s.bashInput.isSome then { s.closeFd fd with bashInput := some nfd } else s
        { s with
          defaultBufferedInput :=
            if s.defaultBufferedInput = fd then nfd else s.defaultBufferedInput
          closeOnExec := Function.update s.closeOnExec nfd true
          kept := .script nfd :: s.kept }
  else s

/-! ## Steps of one redirection -/

/-- `redirection_expand`. -/
def expand (s : RedirState Θ F) (word : WordDesc) : Option String × RedirState Θ F :=
  let (result, left, rest) := w.redirectionExpand s.rest word
  (result, w.leaveOpen { s with rest := rest } left)

def translate (s : RedirState Θ F) (r : Redirect) :
    Except RedirectError Translated × RedirState Θ F :=
  if r.instruction.isTranslated then
    let (word, s) := w.expand s r.redirectee.word
    match translateWord r word with
    | none => (.error .ambiguous, s)
    | some r => (.ok r.translated, s)
  else (.ok r.translated, s)

/-- The new descriptor for the variable of a `{var}` redirection. -/
def allocateRedirector (s : RedirState Θ F) (varassign : Bool) (redirector src errFd : Int) :
    Except RedirectError Int × RedirState Θ F :=
  if varassign then
    match w.dupfd s src shellFdBase with
    | none => (.error (.errno (w.dupfdErrno s src shellFdBase)), s.closeOnError errFd)
    | some (n, s) => (.ok n, s)
  else (.ok redirector, s)

/-- Set up to undo a change of `redirector` to the file at `src`. -/
def rememberRedirector (s : RedirState Θ F) (flags : ℕ) (ri : RInstruction) (varassign : Bool)
    (redirector src fdbase : Int) : Option (RedirState Θ F) :=
  if hasFlag flags rxUndoable && (!varassign || w.varassignRedirAutoclose s.rest) then
    if src != redirector && varassign && w.varassignRedirAutoclose s.rest then
      some (s.addUndoCloseRedirect redirector)
    else if src != redirector && s.table.isOpen redirector then
      w.addUndoRedirect s redirector ri fdbase
    else some (s.addUndoCloseRedirect redirector)
  else some s

/-- Assign `redirector` to the variable, or make it a descriptor of the file at `src`. -/
def assignRedirector (s : RedirState Θ F) (varassign : Bool) (var : Redirectee)
    (redirector src errFd : Int) : Except RedirectError Unit × RedirState Θ F :=
  if varassign then
    let (assigned, rest) := w.varassign s.rest var redirector
    if assigned then
      (.ok (), { s with
        rest := rest
        kept := if w.varassignRedirAutoclose s.rest then s.kept
          else .assigned redirector :: s.kept })
    else (.error .badvar, ({ s with rest := rest }.closeFd redirector).closeOnError errFd)
  else if src != redirector then
    match w.dup2 s src redirector with
    | none => (.error (.errno errnoBadf), s.closeOnError errFd)
    | some s => (.ok (), s)
  else (.ok (), s)

def closeUnless (s : RedirState Θ F) (fd redirector : Int) : RedirState Θ F :=
  if fd != redirector then s.closeFd fd else s

/-- What is done with a descriptor that was opened for the redirection. -/
def installFd (s : RedirState Θ F) (flags : ℕ) (t : Translated) (var : Redirectee)
    (redirector fd : Int) : Except RedirectError Unit × RedirState Θ F :=
  let varassign := t.isVarassign
  match w.rememberRedirector s flags t.instruction varassign redirector fd (-1) with
  | none => (.error (.errno (w.dupfdErrno s redirector 0)), s.closeOnError fd)
  | some s =>
      let s := if hasFlag flags rxUndoable then w.checkBashInput s redirector else s
      match w.assignRedirector s varassign var redirector fd fd with
      | (.error e, s) => (.error e, s)
      | (.ok (), s) =>
          (.ok (), if hasFlag flags rxClexec && 2 < redirector then s.setCloseOnExec redirector true
            else s)

/-- `redir_open`. -/
def openFile (s : RedirState Θ F) (t : Translated) (name : String) :
    Except RedirectError ℕ × RedirState Θ F :=
  match w.redirOpen s.rest s.table name t.flags t.instruction with
  | (.error e, rest) => (.error e, { s with rest := rest })
  | (.ok o, rest) =>
      (.ok o.fd, { s with
        rest := rest
        table := s.table.put o.fd (Int.natCast_nonneg _) o.file })

/-- The file that a word names, opened. -/
def openRedirectee (s : RedirState Θ F) (t : Translated) :
    Except RedirectError ℕ × RedirState Θ F :=
  let word := if w.posixlyCorrect s.rest && !w.interactiveShell then
      { t.redirectee with flags := t.redirectee.flags ||| wordNoglob } else t.redirectee
  let (name, s) := if hasFlag t.rflags rxExpanded then (some t.redirectee.word, s)
    else w.expand s word
  match name with
  | none => (.error .ambiguous, s)
  | some name =>
      if w.restricted s.rest && t.instruction.isWrite then (.error .restricted, s)
      else
        let (denied, left, rest) := w.onRedirect s.rest name t.instruction t.redirector
        let s := w.leaveOpen { s with rest := rest } left
        if denied then (.error .denied, s)
        else w.openFile s t name

/-- The instructions that open a file. -/
def redirectToFile (s : RedirState Θ F) (flags : ℕ) (t : Translated) (var : Redirectee) :
    Except RedirectError Unit × RedirState Θ F :=
  match w.openRedirectee s t with
  | (.error e, s) => (.error e, s)
  | (.ok fd, s) =>
      if hasFlag flags rxActive then
        match w.allocateRedirector s (t.isVarassign) t.redirector fd fd with
        | (.error e, s) => (.error e, s)
        | (.ok redirector, s) =>
            match w.installFd s flags t var redirector fd with
            | (.error e, s) => (.error e, s)
            | (.ok (), s) => (.ok (), closeUnless s fd redirector)
      else (.ok (), closeUnless s fd t.redirector)

/-- The redirection of the standard error that `&>` and `&>>` end with. -/
def redirectStderr (s : RedirState Θ F) (flags : ℕ) (ri : RInstruction) :
    Except RedirectError Unit × RedirState Θ F :=
  if hasFlag flags rxActive then
    let s := if hasFlag flags rxUndoable then (w.addUndoRedirect s 2 ri (-1)).getD s else s
    match w.dup2 s 1 2 with
    | none => (.error (.errno errnoBadf), s)
    | some s => (.ok (), s)
  else (.ok (), s)

/-- Here-documents and here-strings. -/
def redirectToDocument (s : RedirState Θ F) (flags : ℕ) (t : Translated) (var : Redirectee) :
    Except RedirectError Unit × RedirState Θ F :=
  match w.hereDocumentToFd s.rest s.table t.redirectee t.instruction with
  | (none, rest) => (.error .heredoc, { s with rest := rest })
  | (some o, rest) =>
      let s := { s with
        rest := rest
        table := s.table.put o.fd (Int.natCast_nonneg _) o.file }
      match w.allocateRedirector s (t.isVarassign) t.redirector o.fd o.fd with
      | (.error e, s) => (.error e, s)
      | (.ok redirector, s) =>
          if hasFlag flags rxActive then
            match w.installFd s flags t var redirector o.fd with
            | (.error e, s) => (.error e, s)
            | (.ok (), s) => (.ok (), closeUnless s o.fd redirector)
          else (.ok (), closeUnless s o.fd redirector)

/-- The close-on-exec flag of a descriptor that was duplicated onto. -/
def duplicateCloseOnExec (s : RedirState Θ F) (flags : ℕ) (rflags : ℕ)
    (redirector redirFd : Int) : RedirState Θ F :=
  let s := if (s.table.isOpen redirFd && s.closeOnExec redirFd ||
      redirFd < 2 && hasFlag rflags rxInternal || hasFlag flags rxClexec) && 2 < redirector then
      s.setCloseOnExec redirector true else s
  if hasFlag rflags rxInternal && hasFlag rflags rxSavclexec && 3 ≤ redirector &&
      (shellFdBase ≤ redirFd || hasFlag rflags rxSavefd) then s.setCloseOnExec redirector false
  else s

/-- A move closes the descriptor it moves from; the close is to be undone as well.  The test is
made on the descriptor that is moved to. -/
def rememberMove (s : RedirState Θ F) (flags : ℕ) (ri : RInstruction) (redirector redirFd : Int) :
    Option (RedirState Θ F) :=
  if hasFlag flags rxUndoable && ri.isMove && s.table.isOpen redirector then
    w.addUndoRedirect s redirFd .closeThis (-1)
  else some s

/-- `>&N`, `<&N`, `>&N-` and `<&N-`. -/
def redirectToDescriptor (s : RedirState Θ F) (flags : ℕ) (t : Translated) (var : Redirectee) :
    Except RedirectError Unit × RedirState Θ F :=
  if hasFlag flags rxActive then
    let varassign := t.isVarassign
    match w.allocateRedirector s varassign t.redirector t.redirFd (-1) with
    | (.error e, s) => (.error e, s)
    | (.ok redirector, s) =>
        if t.redirFd = redirector then (.ok (), s)
        else
          match w.rememberRedirector s flags t.instruction varassign redirector t.redirFd
              t.redirFd with
          | none => (.error (.errno (w.dupfdErrno s redirector 0)), s)
          | some s =>
              match w.rememberMove s flags t.instruction redirector t.redirFd with
              | none => (.error (.errno (w.dupfdErrno s t.redirFd 0)), s)
              | some s =>
                  let s := if hasFlag flags rxUndoable then w.checkBashInput s redirector else s
                  match w.assignRedirector s varassign var redirector t.redirFd (-1) with
                  | (.error e, s) => (.error e, s)
                  | (.ok (), s) =>
                      let s := duplicateCloseOnExec s flags t.rflags redirector t.redirFd
                      (.ok (), if t.instruction.isMove then s.closeFd t.redirFd else s)
  else (.ok (), s)

/-- Set up to undo the close of a descriptor. -/
def rememberClose (s : RedirState Θ F) (flags : ℕ) (redirector : Int) : Option (RedirState Θ F) :=
  if hasFlag flags rxUndoable then
    if s.table.isOpen redirector then w.addUndoRedirect s redirector .closeThis (-1)
    else some (s.addUndoCloseRedirect redirector)
  else some s

/-- The error of `close (fd)`. -/
def closeFdError (s : RedirState Θ F) (fd : Int) : Option ℕ :=
  match s.table.file fd with
  | none => some errnoBadf
  | some f => w.closeError s.rest f

/-- `<&-` and `>&-`. -/
def redirectClose (s : RedirState Θ F) (flags : ℕ) (t : Translated) (var : Redirectee) :
    Except RedirectError Unit × RedirState Θ F :=
  if hasFlag flags rxActive then
    let varassign := t.isVarassign
    let redirector := if varassign then w.varvalue s.rest var else t.redirector
    if varassign && redirector < 0 then (.error .ambiguous, s)
    else
      match w.rememberClose s flags redirector with
      | none =>
          (.error (.errno (w.dupfdErrno s redirector 0)), s.closeOnError redirector)
      | some s =>
          let s := if hasFlag flags rxUndoable then w.checkBashInput s redirector else s
          match w.closeFdError s redirector with
          | some e =>
              if hasFlag t.rflags rxInternal && (e == errnoIo || e == errnoNospc) then
                (.error (.errno e), s.closeFd redirector)
              else (.ok (), s.closeFd redirector)
          | none => (.ok (), s.closeFd redirector)
  else (.ok (), s)

/-! ## Redirections -/

/-- `do_redirection_internal`, once the word is translated. -/
def perform (s : RedirState Θ F) (flags : ℕ) (t : Translated) (var : Redirectee) :
    Except RedirectError Unit × RedirState Θ F :=
  match t.instruction with
  | .outputDirection | .appendingTo | .inputDirection | .inputaDirection | .inputOutput
  | .outputForce => w.redirectToFile s flags t var
  | .errAndOut | .appendErrAndOut =>
      match w.redirectToFile s flags t var with
      | (.error e, s) => (.error e, s)
      | (.ok (), s) => w.redirectStderr s flags t.instruction
  | .readingUntil | .deblankReadingUntil | .readingString => w.redirectToDocument s flags t var
  | .duplicatingInput | .duplicatingOutput | .moveInput | .moveOutput =>
      w.redirectToDescriptor s flags t var
  | .closeThis => w.redirectClose s flags t var
  | .duplicatingInputWord | .duplicatingOutputWord | .moveInputWord | .moveOutputWord =>
      (.ok (), s)

/-- `do_redirection_internal`. -/
def doRedirectionInternal (s : RedirState Θ F) (r : Redirect) (flags : ℕ) :
    Except RedirectError Unit × RedirState Θ F :=
  match w.translate s r with
  | (.error e, s) => (.error e, s)
  | (.ok t, s) => w.perform s flags t r.redirector

def doRedirectionList (s : RedirState Θ F) (flags : ℕ) :
    List Redirect → Except RedirectError Unit × RedirState Θ F
  | [] => (.ok (), s)
  | r :: rs =>
      match w.doRedirectionInternal s r flags with
      | (.error e, s) => (.error e, { s with rest := w.redirectionError s.rest r e })
      | (.ok (), s) => doRedirectionList s flags rs

/-- `do_redirections`. -/
def doRedirections (s : RedirState Θ F) (list : List Redirect) (flags : ℕ) :
    Except RedirectError Unit × RedirState Θ F :=
  w.doRedirectionList
    (if hasFlag flags rxUndoable then { s with undo := [], execUndo := [] } else s) flags list

/-- `cleanup_redirects`. -/
def cleanupRedirects (s : RedirState Θ F) (list : List Redirect) :
    Except RedirectError Unit × RedirState Θ F :=
  w.doRedirections s list rxActive

/-- `undo_partial_redirects`. -/
def undoPartialRedirects (s : RedirState Θ F) : RedirState Θ F :=
  match s.undo with
  | [] => s
  | undo => { (w.cleanupRedirects s undo).2 with undo := [] }

end RedirWorld

end Rash
