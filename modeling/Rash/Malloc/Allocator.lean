import Rash.Lib.ByteMemory
import Mathlib.Logic.Function.Basic

/-!
# The allocator

`lib/malloc/malloc.c` with 64-bit `long`, `USE_MMAP`, `USE_MREMAP` and `USE_LESSCORE`, without
statistics, tracing, registering and watching.  A function that returns a pointer gives 0 for
null.  The system's answers to one call are an argument of it.
-/

namespace Rash

open Regions ByteMemory

namespace Malloc

/-! ## Sizes -/

def isAlloc : UInt8 := 0xf7
def isFree : UInt8 := 0x54
def isMemalign : UInt8 := 0xd6
def magic1 : UInt8 := 0x55
def magic2 : ℕ := 0x5555

def nbuckets : ℕ := 28
def splitMin : ℕ := 1
def splitMid : ℕ := 9
def splitMax : ℕ := 12
def combineMin : ℕ := 1
def lesscoreMin : ℕ := 8
def lesscoreFrc : ℕ := 11
def prepopBin : ℕ := 1
def prepopSize : ℕ := 64
def mmapThreshold : ℕ := 12
def mallocPagesizeMin : ℕ := 4096

def binsizes : List ℕ :=
  [32, 64, 128, 256, 512, 1024, 2048, 4096,
    8192, 16384, 32768, 65536, 131072, 262144, 524288,
    1048576, 2097152, 4194304, 8388608, 16777216, 33554432,
    67108864, 134217728, 268435456, 536870912, 1073741824,
    2147483648, 4294967295]

def binsize (nu : ℕ) : ℕ := binsizes.getD nu 0

def maxallocSize : ℕ := binsize (nbuckets - 1)

/-- `ALLOCATED_BYTES`, with `MOVERHEAD`, `MSLOP` and `MALIGN_MASK`. -/
def allocatedBytes (n : ℕ) : ℕ := (n + 16 + 4 + 15) % 2 ^ 64 / 16 * 16

/-- `IN_BUCKET` -/
def InBucket (nb nu : ℕ) : Prop := nb ≤ binsize nu

/-- `RIGHT_BUCKET` -/
def RightBucket (nb nu : ℕ) : Prop :=
  (if 1 ≤ nu then binsize (nu - 1) else 0) < nb ∧ nb ≤ binsize nu

instance (nb nu : ℕ) : Decidable (InBucket nb nu) := inferInstanceAs (Decidable (_ ≤ _))

instance (nb nu : ℕ) : Decidable (RightBucket nb nu) := inferInstanceAs (Decidable (_ ∧ _))

/-! ## The system -/

def addressLimit : ℕ := 2 ^ 47

structure System where
  pageShift : ℕ
  initialBreak : ℕ
  memscramble : Bool
  pageShift_ge : 10 ≤ pageShift
  -- `MMAP_THRESHOLD` "must be >= SPLIT_MAX, COMBINE_MAX", and the latter is `pagebucket - 1`.
  pageShift_le : pageShift ≤ 18
  initialBreak_pos : 0 < initialBreak
  initialBreak_le : initialBreak ≤ addressLimit

def System.getpagesize (sys : System) : ℕ := 2 ^ sys.pageShift

/-- The process's break and its mappings, as far as the allocator made them. -/
structure Kernel where
  brk : ℕ
  maps : List Region

structure Answers where
  alignGranted : Bool
  sbrkGranted : Bool
  mmapAt : Option ℕ
  mremapAt : Option ℕ
  /-- What is found in memory that the system hands out. -/
  contents : Memory

namespace Kernel

def heapRegion (sys : System) (k : Kernel) : Region :=
  ⟨sys.initialBreak, k.brk - sys.initialBreak⟩

/-- The system places a mapping only where nothing is. -/
def Vacant (sys : System) (k : Kernel) (r : Region) : Prop :=
  (0 < r.start ∧ 0 < r.length ∧ sys.getpagesize ∣ r.start ∧
      r.start + r.length ≤ addressLimit) ∧
    Apart r (k.heapRegion sys) ∧ ∀ s ∈ k.maps, Apart r s

instance (sys : System) (k : Kernel) (r : Region) : Decidable (Vacant sys k r) :=
  inferInstanceAs (Decidable ((_ ∧ _ ∧ _ ∧ _) ∧ _ ∧ _))

/-- A length rounded up to whole pages. -/
def wholePages (sys : System) (len : ℕ) : ℕ :=
  (len + sys.getpagesize - 1) / sys.getpagesize * sys.getpagesize

/-- `sbrk (amount)` for an amount above 0 -/
def sbrk (k : Kernel) (amount : ℕ) (granted : Bool) : Option Kernel :=
  if granted ∧ k.brk + amount ≤ addressLimit ∧ ∀ s ∈ k.maps, Apart ⟨k.brk, amount⟩ s then
    some { k with brk := k.brk + amount }
  else none

/-- `sbrk (-amount)` -/
def shrink (k : Kernel) (amount : ℕ) : Kernel := { k with brk := k.brk - amount }

def mmap (sys : System) (k : Kernel) (len : ℕ) (answer : Option ℕ) : Option (ℕ × Kernel) :=
  match answer with
  | none => none
  | some start =>
      let r : Region := ⟨start, wholePages sys len⟩
      if Vacant sys k r then some (start, { k with maps := r :: k.maps }) else none

/-- `munmap` of a mapping as it was made -/
def munmap (sys : System) (k : Kernel) (start len : ℕ) : Kernel :=
  { k with maps := k.maps.erase ⟨start, wholePages sys len⟩ }

/-- `mremap` with `MREMAP_MAYMOVE` -/
def mremap (sys : System) (k : Kernel) (start len newLen : ℕ) (answer : Option ℕ) :
    Option (ℕ × Kernel) :=
  match answer with
  | none => none
  | some newStart =>
      let r : Region := ⟨newStart, wholePages sys newLen⟩
      let rest := munmap sys k start len
      -- A mapping that moves is placed while the old one is still there.
      if Vacant sys (if newStart = start then rest else k) r then
        some (newStart, { rest with maps := r :: rest.maps })
      else none

end Kernel

/-! ## The heap -/

structure Heap where
  mem : Memory
  nextf : ℕ → ℕ
  busy : ℕ → Bool
  pagesz : ℕ
  pagebucket : ℕ
  maxbuck : ℕ
  memtop : ℕ
  kernel : Kernel

/-- How a call ends that does not return. -/
inductive Stop
  /-- `xbotch` -/
  | botch (text : String)
  /-- An access outside the address space or the allocator's arrays. -/
  | fault
  | diverges
  deriving DecidableEq, Repr

/-- `CHAIN (a)` -/
def chain (m : Memory) (a : ℕ) : ℕ := load m (a + 8) 8

def setChain (m : Memory) (a v : ℕ) : Memory := store m (a + 8) 8 v

/-- `mp->mh_alloc = ISFREE; mp->mh_index = nu` -/
def markFree (m : Memory) (mp nu : ℕ) : Memory :=
  fill (fill m mp 1 isFree) (mp + 1) 1 (UInt8.ofNat nu)

/-- The loop that cuts memory into blocks of a bin; it counts the blocks that are left behind the
one at `mp`, and the last block's link is `tail`. -/
def linkBlocks (siz nu tail : ℕ) : ℕ → ℕ → Memory → Memory
  | 0, mp, m => setChain (markFree m mp nu) mp tail
  | nblks + 1, mp, m =>
      linkBlocks siz nu tail nblks (mp + siz) (setChain (markFree m mp nu) mp (mp + siz))

/-- The search of `bcoalesce`: `mp2`, `mp1` and `mp` when it ends. -/
def findAdjacent (m : Memory) (siz : ℕ) : ℕ → ℕ → ℕ → ℕ → Option (ℕ × ℕ × ℕ)
  | 0, _, _, _ => none
  | fuel + 1, mp2, mp1, mp =>
      if mp ≠ 0 ∧ mp ≠ mp1 + siz then findAdjacent m siz fuel mp1 mp (chain m mp)
      else some (mp2, mp1, mp)

/-- `busy[nu - 1]` is set only while the function runs. -/
def bcoalesce (h : Heap) (nu : ℕ) : Except Stop Heap :=
  let nbuck := nu - 1
  if h.nextf nbuck = 0 ∨ h.busy nbuck then .ok h
  else
    let head := h.nextf nbuck
    -- A list of more cells than there are addresses does not end.
    match findAdjacent h.mem (binsize nbuck) (2 ^ 64) head head (chain h.mem head) with
    | none => .error .diverges
    | some (mp2, mp1, mp) =>
        if mp = 0 then .ok h
        else if mp2 ≠ mp1 ∧ chain h.mem mp2 ≠ mp1 then
          .error (.botch "bcoalesce: CHAIN(mp2) != mp1")
        else
          let removed :=
            if mp1 = head then
              { h with nextf := Function.update h.nextf nbuck (chain h.mem mp) }
            else { h with mem := setChain h.mem mp2 (chain h.mem mp) }
          .ok { removed with
            mem := setChain (markFree removed.mem mp1 nu) mp1 (removed.nextf nu)
            nextf := Function.update removed.nextf nu mp1 }

/-- The bins that `bsplit` looks at, in order. -/
def splitCandidates (h : Heap) (nu : ℕ) : List ℕ :=
  let above := List.range' (nu + 1) (max h.maxbuck splitMax - nu)
  if splitMid ≤ nu then above.reverse else above

def bsplit (h : Heap) (nu : ℕ) : Heap :=
  match (splitCandidates h nu).find? fun nbuck => !(h.busy nbuck || h.nextf nbuck == 0) with
  | none => h
  | some nbuck =>
      let mp := h.nextf nbuck
      let nextf := Function.update h.nextf nbuck (chain h.mem mp)
      let siz := binsize nu
      let nblks := binsize nbuck / siz
      { h with
        nextf := Function.update nextf nu mp
        mem := linkBlocks siz nu 0 (nblks - 1) mp h.mem }

def xsplit (h : Heap) (mp nu : ℕ) : Heap :=
  match (List.range' splitMin (nu - splitMin)).reverse.find? fun nbuck => !h.busy nbuck with
  | none => h
  | some nbuck =>
      let siz := binsize nbuck
      let nblks := binsize nu / siz
      { h with
        mem := linkBlocks siz nbuck (h.nextf nbuck) (nblks - 1) mp h.mem
        nextf := Function.update h.nextf nbuck mp }

def lesscore (h : Heap) (nu : ℕ) : Heap :=
  let siz := binsize nu
  { h with kernel := h.kernel.shrink siz, memtop := h.memtop - siz }

/-- `sbrk_amt` and `nblks` of `morecore` -/
def systemRequest (pagesz siz : ℕ) : ℕ × ℕ :=
  if siz ≤ pagesz then (pagesz, pagesz / siz)
  else if siz % pagesz = 0 then (siz, 1)
  else (siz + pagesz - siz % pagesz, 1)

/-- `morecore` from where it asks the system -/
def morecoreSystem (sys : System) (ans : Answers) (h : Heap) (nu : ℕ) : Heap :=
  let siz := binsize nu
  let (sbrkAmt, nblks) := systemRequest h.pagesz siz
  if mmapThreshold < nu then
    match h.kernel.mmap sys sbrkAmt ans.mmapAt with
    | none => h
    | some (mp, kernel) =>
        let mem := patch h.mem mp sbrkAmt ans.contents
        { h with
          kernel
          nextf := Function.update h.nextf nu mp
          mem := setChain (markFree mem mp nu) mp 0 }
  else
    match h.kernel.sbrk sbrkAmt ans.sbrkGranted with
    | none => h
    | some kernel =>
        let mp := h.kernel.brk
        let mem := patch h.mem mp sbrkAmt ans.contents
        let (mp, nblks) := if mp % 16 = 0 then (mp, nblks) else ((mp + 15) / 16 * 16, nblks - 1)
        { h with
          kernel
          memtop := h.memtop + sbrkAmt
          nextf := Function.update h.nextf nu mp
          mem := linkBlocks siz nu 0 (nblks - 1) mp mem }

/-- `morecore` from where it coalesces -/
def morecoreCombine (sys : System) (ans : Answers) (h : Heap) (nu : ℕ) : Except Stop Heap :=
  if (combineMin ≤ nu ∧ nu + 1 < h.pagebucket ∧ nu ≤ mmapThreshold) ∧
      h.busy (nu - 1) = false ∧ h.nextf (nu - 1) ≠ 0 then do
    let combined ← bcoalesce h nu
    if combined.nextf nu ≠ 0 then .ok combined else .ok (morecoreSystem sys ans combined nu)
  else .ok (morecoreSystem sys ans h nu)

def morecore (sys : System) (ans : Answers) (h : Heap) (nu : ℕ) : Except Stop Heap :=
  if splitMin ≤ nu ∧ nu ≤ mmapThreshold then
    let split := bsplit h nu
    if split.nextf nu ≠ 0 then .ok split else morecoreCombine sys ans split nu
  else morecoreCombine sys ans h nu

/-- The search for a bin that holds `nbytes`, from bin `start` on. -/
def firstBin (start nbytes : ℕ) : ℕ :=
  ((List.range' start (nbuckets - start)).find? fun nu => nbytes ≤ binsize nu).getD nbuckets

/-- `pagealign`, and whether it succeeds -/
def pagealign (sys : System) (ans : Answers) (h : Heap) : Heap × Bool :=
  let pagesz := max sys.getpagesize mallocPagesizeMin
  let curbrk := h.kernel.brk
  let needed := pagesz - curbrk % pagesz
  match h.kernel.sbrk needed ans.alignGranted with
  | none => ({ h with pagesz, memtop := curbrk }, false)
  | some kernel =>
      let mem := patch h.mem curbrk needed ans.contents
      let start := curbrk + needed % prepopSize
      let nunits := needed / prepopSize
      let grown := { h with
        pagesz, kernel, mem
        memtop := curbrk + needed
        pagebucket := firstBin 7 pagesz }
      if 0 < nunits then
        ({ grown with
          nextf := Function.update h.nextf prepopBin start
          mem := linkBlocks prepopSize prepopBin 0 (nunits - 1) start mem }, true)
      else (grown, true)

/-! ## Allocating -/

/-- Where the search for a bin starts. -/
def startBin (h : Heap) (nbytes : ℕ) : ℕ := if nbytes ≤ h.pagesz / 2 then 0 else h.pagebucket

/-- `while (busy[nunits]) nunits++`, as long as it stays in the array. -/
def firstIdle (h : Heap) (nunits : ℕ) : Option ℕ :=
  (List.range' nunits (nbuckets - nunits)).find? fun nu => !h.busy nu

/-- The header and the guards of a block that is handed out, over `mh_index`. -/
def writeGuards (m : Memory) (p n : ℕ) : Memory :=
  let m := fill m p 1 isAlloc
  let m := store m (p + 2) 2 magic2
  let m := store m (p + 4) 4 n
  let m := fill m (p + 8) 8 magic1
  store m ((p + 16 + n) % 2 ^ 64) 4 n

/-- `internal_malloc` with a block of bin `nunits` at the head of its list -/
def takeBlock (sys : System) (h : Heap) (nunits n : ℕ) : Except Stop (ℕ × Heap) :=
  let p := h.nextf nunits
  let taken := { h with
    nextf := Function.update h.nextf nunits (chain h.mem p)
    busy := Function.update h.busy nunits false }
  if h.mem p ≠ isFree ∨ (h.mem (p + 1)).toNat ≠ nunits then
    .error (.botch "malloc: block on free list clobbered")
  else
    let m := writeGuards h.mem p n
    if sys.memscramble ∧ n ≠ 0 then
      if 2 ^ 64 < p + 16 + n then .error .fault
      else .ok (p + 16, { taken with mem := fill m (p + 16) n 0xdf })
    else .ok (p + 16, { taken with mem := m })

/-- `internal_malloc` behind `pagealign` -/
def mallocAligned (sys : System) (ans : Answers) (h : Heap) (n : ℕ) : Except Stop (ℕ × Heap) :=
  let nbytes := allocatedBytes n
  if maxallocSize < nbytes then .ok (0, h)
  else
    let nunits := firstBin (startBin h nbytes) nbytes
    if nbuckets ≤ nunits then .ok (0, h)
    else
      match firstIdle h nunits with
      | none => .error .fault
      | some nunits => do
          let claimed := { h with
            busy := Function.update h.busy nunits true
            maxbuck := max h.maxbuck nunits }
          let filled ←
            if claimed.nextf nunits = 0 then morecore sys ans claimed nunits else .ok claimed
          if filled.nextf nunits = 0 then
            .ok (0, { filled with busy := Function.update filled.busy nunits false })
          else takeBlock sys filled nunits n

def internalMalloc (sys : System) (ans : Answers) (h : Heap) (n : ℕ) : Except Stop (ℕ × Heap) :=
  if h.pagesz = 0 then
    match pagealign sys ans h with
    | (h, false) => .ok (0, h)
    | (h, true) => mallocAligned sys ans h n
  else mallocAligned sys ans h n

/-! ## Freeing -/

/-- Where the memory of a block starts that `ap` was handed out for. -/
def trueStart (m : Memory) (ap : ℕ) : ℕ :=
  if m (ap - 16) = isMemalign then ap - load m (ap - 12) 4 else ap

/-- The checks that `free` and `realloc` make of an allocated block at `p`. -/
def checkGuards (who : String) (m : Memory) (p : ℕ) : Except Stop Unit :=
  let nbytes := load m (p + 4) 4
  if load m (p + 2) 2 ≠ magic2 then .error (.botch "p->mh_magic2 == MAGIC2")
  else if ¬InBucket (allocatedBytes nbytes % 2 ^ 32) (m (p + 1)).toNat then
    .error (.botch (who ++ ": underflow detected; mh_nbytes out of range"))
  else if ¬∀ i < 8, m (p + 8 + i) = magic1 then
    .error (.botch (who ++ ": underflow detected; magic8 corrupted"))
  else if load m (p + 16 + nbytes) 4 ≠ nbytes then
    .error (.botch (who ++ ": start and end chunk sizes differ"))
  else .ok ()

/-- `internal_free` of the block at `p` that has passed the checks; `mem` is what it was called
with. -/
def releaseBlock (sys : System) (h : Heap) (mem p : ℕ) : Except Stop Heap :=
  let nunits := (h.mem (p + 1)).toNat
  let nbytes := load h.mem (p + 4) 4
  if mmapThreshold < nunits then
    .ok { h with kernel := h.kernel.munmap sys p (binsize nunits) }
  else if (lesscoreMin ≤ nunits ∧ p + binsize nunits = h.memtop) ∧
      (lesscoreFrc ≤ nunits ∨ h.busy nunits ∨ h.nextf nunits ≠ 0) then
    .ok (lesscore h nunits)
  else
    let m := if sys.memscramble ∧ nbytes ≠ 0 then fill h.mem mem nbytes 0xcf else h.mem
    if nbuckets ≤ nunits then .error (.botch "nunits < NBUCKETS")
    else if h.busy nunits then .ok (xsplit { h with mem := m } p nunits)
    else
      .ok { h with
        mem := setChain (fill m p 1 isFree) p (h.nextf nunits)
        nextf := Function.update h.nextf nunits p }

def internalFree (sys : System) (h : Heap) (mem : ℕ) : Except Stop Heap :=
  if mem = 0 then .ok h
  else
    let p := trueStart h.mem mem - 16
    if h.mem p = isFree then .error (.botch "free: called with already freed block argument")
    else if h.mem p ≠ isAlloc then
      .error (.botch "free: called with unallocated block argument")
    else do
      checkGuards "free" h.mem p
      releaseBlock sys h mem p

/-! ## Resizing -/

def internalRemap (sys : System) (ans : Answers) (h : Heap) (mem n nunits : ℕ) : ℕ × Heap :=
  if nbuckets ≤ nunits then (0, h)
  else
    let p := mem - 16
    let erased := store h.mem (mem + load h.mem (p + 4) 4) 4 0
    let old := binsize (erased (p + 1)).toNat
    match h.kernel.mremap sys p old (binsize nunits) ans.mremapAt with
    | none => (0, { h with mem := erased })
    | some (np, kernel) =>
        -- What the smaller of the two mappings holds is found in the new one.
        let kept := min (Kernel.wholePages sys old) (Kernel.wholePages sys (binsize nunits))
        let m := patch (copy erased p np kept) (np + kept)
          (Kernel.wholePages sys (binsize nunits) - kept) ans.contents
        let m :=
          if np ≠ p then fill (store (fill m np 1 isAlloc) (np + 2) 2 magic2) (np + 8) 8 magic1
          else m
        let m := fill m (np + 1) 1 (UInt8.ofNat nunits)
        let m := store m (np + 4) 4 n
        (np + 16, { h with kernel, mem := store m (np + 16 + n) 4 n })

/-- `newunits` of `internal_realloc` -/
def newBin (h : Heap) (nunits nbytes oldBytes : ℕ) : ℕ :=
  firstBin (if oldBytes < nbytes then nunits else startBin h nbytes) nbytes

/-- `internal_realloc` of a block at `p` that has passed the checks -/
def resizeBlock (sys : System) (ans : Answers) (h : Heap) (mem n : ℕ) : Except Stop (ℕ × Heap) :=
  let p := mem - 16
  let nunits := (h.mem (p + 1)).toNat
  let oldBytes := load h.mem (p + 4) 4
  let nbytes := allocatedBytes n
  if n = oldBytes then .ok (mem, h)
  else if maxallocSize < nbytes then .ok (0, h)
  else if RightBucket nbytes nunits ∨ 1 ≤ nunits ∧ RightBucket nbytes (nunits - 1) then
    let m := store h.mem (mem + oldBytes) 4 0
    let m := store m (p + 4) 4 n
    .ok (mem, { h with mem := store m (mem + n % 2 ^ 32) 4 n })
  else
    let newunits := newBin h nunits nbytes oldBytes
    if mmapThreshold < nunits ∧ mmapThreshold < newunits then
      .ok (internalRemap sys ans h mem n newunits)
    else do
      let (m, h) ← internalMalloc sys ans h n
      if m = 0 then .ok (0, h)
      else do
        let h ← internalFree sys { h with mem := copy h.mem mem m (min n oldBytes) } mem
        .ok (m, h)

def internalRealloc (sys : System) (ans : Answers) (h : Heap) (mem n : ℕ) :
    Except Stop (ℕ × Heap) :=
  if n = 0 then do
    let h ← internalFree sys h mem
    .ok (0, h)
  else if mem = 0 then internalMalloc sys ans h n
  else
    let p := mem - 16
    let index := (h.mem (p + 1)).toNat
    -- `mi_index` is a signed char.
    if nbuckets ≤ index ∧ index < 128 then .error (.botch "nunits < NBUCKETS")
    else if h.mem p ≠ isAlloc then
      .error (.botch "realloc: called with unallocated block argument")
    else do
      checkGuards "realloc" h.mem p
      resizeBlock sys ans h mem n

/-! ## Alignment -/

def internalMemalign (sys : System) (ans : Answers) (h : Heap) (alignment size : ℕ) :
    Except Stop (ℕ × Heap) := do
  let (ptr, h) ← internalMalloc sys ans h ((size + alignment) % 2 ^ 64)
  let mask := (alignment + 2 ^ 64 - 1) % 2 ^ 64
  if ptr = 0 then .ok (0, h)
  else if ptr &&& mask = 0 then .ok (ptr, h)
  else
    let aligned := (ptr + mask) % 2 ^ 64 &&& (2 ^ 64 - alignment) % 2 ^ 64
    if aligned < 16 then .error .fault
    else
      let m := store h.mem (aligned - 16 + 4) 4 (aligned - ptr)
      .ok (aligned, { h with mem := fill m (aligned - 16) 1 isMemalign })

/-- What `posix_memalign` returns. -/
inductive PosixCode
  | zero
  | einval
  | enomem
  deriving DecidableEq, Repr

/-- `posix_memalign`, with what it stores where it returns 0 -/
def posixMemalign (sys : System) (ans : Answers) (h : Heap) (alignment size : ℕ) :
    Except Stop (PosixCode × ℕ × Heap) :=
  if alignment % 8 ≠ 0 ∨ alignment = 0 then .ok (.einval, 0, h)
  else if (alignment + 2 ^ 64 - 1) % 2 ^ 64 &&& alignment ≠ 0 then .ok (.einval, 0, h)
  else do
    let (mem, h) ← internalMemalign sys ans h alignment size
    if mem ≠ 0 then .ok (.zero, mem, h) else .ok (.enomem, 0, h)

def mallocUsableSize (m : Memory) (mem : ℕ) : ℕ :=
  if mem = 0 then 0
  else
    let p := trueStart m mem - 16
    if m p = isFree then 0 else load m (p + 4) 4

def internalValloc (sys : System) (ans : Answers) (h : Heap) (size : ℕ) :
    Except Stop (ℕ × Heap) :=
  internalMemalign sys ans h sys.getpagesize size

def internalCalloc (sys : System) (ans : Answers) (h : Heap) (n s : ℕ) :
    Except Stop (ℕ × Heap) := do
  let total := n * s % 2 ^ 64
  let (result, h) ← internalMalloc sys ans h total
  if result = 0 then .ok (0, h)
  else if 2 ^ 64 < result + total then .error .fault
  else .ok (result, { h with mem := fill h.mem result total 0 })

end Malloc

end Rash
