import Mathlib
import Rash.Lib.LinkedChain
import Rash.Lib.Machine

/-!
# Saved background statuses

The table of jobs.c that keeps the statuses of the last background processes: a ring of cells
that is overwritten when it is full, and chains through the cells, one for each hash value.
-/

namespace Rash

namespace Bgpids

/-- `NO_PID` -/
def noPid : ℤ := -1

/-- `PIDSTAT_TABLE_SZ` -/
def pidstatTableSz : ℕ := 4096

/-- `BGPIDS_TABLE_SZ` -/
def bgpidsTableSz : ℕ := 512

/-- `MAX_CHILD_MAX` -/
def maxChildMax : ℕ := 32768

/-- A cell.  An index that is `NO_PIDSTAT` is none. -/
structure Pidstat where
  bucketNext : Option ℕ
  bucketPrev : Option ℕ
  pid : ℤ
  status : ℕ
  deriving DecidableEq

structure BgpState where
  pidstatTable : Fin pidstatTableSz → Option ℕ
  /-- The arena, of which the first `nalloc` cells are allocated.  With no cell there is no
  arena. -/
  storage : ℕ → Pidstat
  head : ℕ
  nalloc : ℕ
  npid : ℤ
  /-- `js.c_childmax` -/
  childmax : ℤ

/-- A conversion to `ps_index_t`, which has 32 bits. -/
def toPsIndex (n : ℤ) : ℤ := Int.bmod n (2 ^ 32)

/-- `nsize <<= 1` while it is positive and less than `nsizeCur`, at most `fuel` times. -/
def doubled (nsizeCur : ℤ) : ℕ → ℤ → ℤ
  | 0, nsize => nsize
  | fuel + 1, nsize =>
      if 0 < nsize ∧ nsize < nsizeCur then doubled nsizeCur fuel (toPsIndex (2 * nsize)) else nsize

def pshashGetbucket (pid : ℤ) : Fin pidstatTableSz :=
  ⟨(pid * 0x9e370001 % 2 ^ 64).toNat % pidstatTableSz, Nat.mod_lt _ (by decide)⟩

namespace BgpState

/-- `nsize_cur` of `bgp_resize` -/
def nsizeCur (s : BgpState) : ℤ :=
  if toPsIndex s.childmax < 0 then maxChildMax else toPsIndex s.childmax

/-- `nsize` and `nsize_max` of `bgp_resize`, once they are found. -/
def sizes (s : BgpState) : ℤ × ℤ :=
  let nsizeMax := 2 ^ 31 - 1
  let nsize := doubled s.nsizeCur 32 (if s.nalloc = 0 then bgpidsTableSz else s.nalloc)
  let nsize := if nsize > nsizeMax ∨ nsize ≤ 0 then nsizeMax else nsize
  if nsize > maxChildMax then (maxChildMax, maxChildMax) else (nsize, nsizeMax)

/-- `bgp_resize`.  `fresh` is what the memory of the new cells holds. -/
def bgpResize (s : BgpState) (fresh : ℕ → Pidstat) : BgpState :=
  let t := if s.nalloc = 0 then { s with pidstatTable := fun _ => none, head := 0 } else s
  let nsize := s.sizes.1
  let nsizeMax := s.sizes.2
  if t.nalloc < s.nsizeCur ∧ t.nalloc < nsizeMax then
    { t with
      storage := fun psi => if psi < t.nalloc then t.storage psi else { fresh psi with pid := noPid }
      nalloc := nsize.toNat }
  else if t.head ≥ t.nalloc then { t with head := 0 }
  else t

def setCell (s : BgpState) (psi : ℕ) (ps : Pidstat) : BgpState :=
  { s with storage := Function.update s.storage psi ps }

def setNext (s : BgpState) (psi : ℕ) (q : Option ℕ) : BgpState :=
  s.setCell psi { s.storage psi with bucketNext := q }

def setPrev (s : BgpState) (psi : ℕ) (q : Option ℕ) : BgpState :=
  s.setCell psi { s.storage psi with bucketPrev := q }

def setBucket (s : BgpState) (b : Fin pidstatTableSz) (q : Option ℕ) : BgpState :=
  { s with pidstatTable := Function.update s.pidstatTable b q }

/-- The cell behind `psi` in its chain gets the one before it. -/
def relinkNext (s : BgpState) (psi : ℕ) : BgpState :=
  match (s.storage psi).bucketNext with
  | some n => s.setPrev n (s.storage psi).bucketPrev
  | none => s

/-- The cell before `psi`, or the bucket of the head of a chain, gets the one behind it. -/
def relinkPrev (s : BgpState) (psi : ℕ) : BgpState :=
  match (s.storage psi).bucketPrev with
  | some p => s.setNext p (s.storage psi).bucketNext
  | none => s.setBucket (pshashGetbucket (s.storage psi).pid) (s.storage psi).bucketNext

def clearCell (s : BgpState) (psi : ℕ) : BgpState :=
  s.setCell psi { s.storage psi with pid := noPid, bucketNext := none, bucketPrev := none }

def pshashDelindex (s : BgpState) (psi : ℕ) : BgpState :=
  if (s.storage psi).pid = noPid then s
  else ((s.relinkNext psi).relinkPrev psi).clearCell psi

def bgpGetindex (s : BgpState) (fresh : ℕ → Pidstat) : ℕ × BgpState :=
  let s := if s.nalloc < toPsIndex s.childmax ∨ s.head ≥ s.nalloc then s.bgpResize fresh else s
  (s.head, { s.pshashDelindex s.head with head := s.head + 1 })

/-- The old head of the chain gets the new one, `psi`, before it. -/
def linkHead (s : BgpState) (psi : ℕ) : BgpState :=
  match (s.storage psi).bucketNext with
  | some n => s.setPrev n (some psi)
  | none => s

/-- The end of `bgp_add`, with the cell to use. -/
def writeStatus (s : BgpState) (psi : ℕ) (pid status : ℤ) : BgpState :=
  let bucket := pshashGetbucket pid
  let s := s.setCell psi
    { bucketNext := s.pidstatTable bucket, bucketPrev := none, pid := pid,
      status := (status % 2 ^ 16).toNat }
  let s := { s with npid := s.npid + 1 }
  (s.linkHead psi).setBucket bucket (some psi)

/-- `bgp_add`, for a process ID or any other number. -/
def bgpAdd (s : BgpState) (pid status : ℤ) (fresh : ℕ → Pidstat) : BgpState :=
  let got := s.bgpGetindex fresh
  let got :=
    if some got.1 = got.2.pidstatTable (pshashGetbucket pid) then
      (got.2.setCell got.1 { got.2.storage got.1 with pid := noPid }).bgpGetindex fresh
    else got
  got.2.writeStatus got.1 pid status

/-- How the search of a chain ends. -/
inductive Found
  | cell (psi : ℕ)
  | missing
  /-- the warning about a loop -/
  | loop
  deriving DecidableEq

/-- The loop over a chain of `bgp_delete` and of `bgp_search`, for at most `fuel` rounds. -/
def searchChain (s : BgpState) (pid : ℤ) (orig : Option ℕ) : ℕ → Option ℕ → Option Found
  | 0, _ => none
  | _ + 1, none => some .missing
  | fuel + 1, some psi =>
      if (s.storage psi).pid = pid then some (.cell psi)
      else if orig = (s.storage psi).bucketNext then some .loop
      else searchChain s pid orig fuel (s.storage psi).bucketNext

def searchBucket (s : BgpState) (pid : ℤ) (fuel : ℕ) : Option Found :=
  s.searchChain pid (s.pidstatTable (pshashGetbucket pid)) fuel
    (s.pidstatTable (pshashGetbucket pid))

/-- `bgp_delete`.  There is no state behind a search that does not end. -/
def bgpDelete (s : BgpState) (pid : ℤ) (fuel : ℕ) : Option BgpState :=
  if s.nalloc = 0 ∨ s.npid = 0 then some s
  else
    (s.searchBucket pid fuel).map fun
      | .cell psi => { s.pshashDelindex psi with npid := s.npid - 1 }
      | .missing => s
      | .loop => s

def bgpSearch (s : BgpState) (pid : ℤ) (fuel : ℕ) : Option ℤ :=
  if s.nalloc = 0 ∨ s.npid = 0 then some (-1)
  else
    (s.searchBucket pid fuel).map fun
      | .cell psi => (s.storage psi).status
      | .missing => -1
      | .loop => -1

def bgpClear (s : BgpState) : BgpState :=
  if s.nalloc = 0 then s else { s with nalloc := 0, head := 0, npid := 0 }

end BgpState

/-- The operations, and the change of `js.c_childmax` by `set_maxchild`. -/
inductive BgpOp
  | add (pid status : ℤ) (fresh : ℕ → Pidstat)
  | delete (pid : ℤ)
  | search (pid : ℤ)
  | clear
  | resize (fresh : ℕ → Pidstat)
  | childmax (n : ℤ)

/-- One operation.  The loops are given a round for each cell and one for the end. -/
def step (s : BgpState) : BgpOp → Option BgpState
  | .add pid status fresh => some (s.bgpAdd pid status fresh)
  | .delete pid => s.bgpDelete pid (s.nalloc + 1)
  | .search pid => (s.bgpSearch pid (s.nalloc + 1)).map fun _ => s
  | .clear => some s.bgpClear
  | .resize fresh => some (s.bgpResize fresh)
  | .childmax n => some { s with childmax := n }

/-- The variables of jobs.c before their first use. -/
def start : BgpState where
  pidstatTable _ := some 0
  storage _ := ⟨none, none, noPid, 0⟩
  head := 0
  nalloc := 0
  npid := 0
  childmax := -1

end Bgpids

end Rash
