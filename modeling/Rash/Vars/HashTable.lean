import Mathlib

/-!
# Hash tables

The chained hash tables of hashlib.c.  A table is its array of chains, read at an index as the
C array is, and the two counters beside it; an item is what a chain links, in the order of the
links.  `nbuckets` is a C `int`, and the products that compare and grow it wrap as one;
`nentries` counts items that all lie in memory, and is a number here.  How often an item was
found is kept for the statistics only and is left out.
-/

namespace Rash

/-- A C string, without the zero that ends it. -/
abbrev CString := List UInt8

def wrapInt (z : ℤ) : ℤ := z.bmod (2 ^ 32)

/-- One round of `hash_string`; `char` is signed. -/
def hashByte (i : BitVec 32) (c : UInt8) : BitVec 32 :=
  (i + ((i <<< 1) + (i <<< 4) + (i <<< 7) + (i <<< 8) + (i <<< 24))) ^^^
    c.toBitVec.signExtend 32

def hashString (s : CString) : BitVec 32 := s.foldl hashByte 2166136261#32

structure BucketContents (δ : Type) where
  key : CString
  /-- `NULL` until a caller stores something. -/
  data : Option δ
  khash : BitVec 32
  deriving DecidableEq

/-- What a caller sees of an item. -/
def BucketContents.entry {δ : Type} (item : BucketContents δ) : CString × Option δ :=
  (item.key, item.data)

structure HashTable (δ : Type) where
  bucketArray : ℕ → List (BucketContents δ)
  nbuckets : ℕ
  nentries : ℕ

structure HashFlags where
  /-- `HASH_NOSRCH` -/
  nosrch : Bool := false
  /-- `HASH_CREATE` -/
  create : Bool := false

variable {δ : Type}

def defaultHashBuckets : ℕ := 128

def hashRehashMultiplier : ℕ := 4

def hashRehashFactor : ℕ := 2

/-- The allocation of a negative number of buckets does not return. -/
def hashCreate (buckets : ℤ) : Option (HashTable δ) :=
  if buckets = 0 then some ⟨fun _ => [], defaultHashBuckets, 0⟩
  else if 0 < buckets then some ⟨fun _ => [], buckets.toNat, 0⟩
  else none

namespace HashTable

/-- `khash & (nbuckets - 1)` -/
def slot (nbuckets : ℕ) (khash : BitVec 32) : ℕ :=
  (khash &&& BitVec.ofNat 32 (nbuckets - 1)).toNat

/-- `HASH_BUCKET` -/
def bucketOf (t : HashTable δ) (string : CString) : ℕ := slot t.nbuckets (hashString string)

/-- `HASH_SHOULDGROW` -/
def shouldGrow (t : HashTable δ) : Bool :=
  wrapInt (t.nbuckets * hashRehashFactor) ≤ t.nentries

/-- The comparison function. -/
def isItem (string : CString) (item : BucketContents δ) : Bool :=
  hashString string == item.khash && item.key == string

def push (nbuckets : ℕ) (array : ℕ → List (BucketContents δ)) (item : BucketContents δ) :
    ℕ → List (BucketContents δ) :=
  Function.update array (slot nbuckets item.khash)
    (item :: array (slot nbuckets item.khash))

/-- The items in the order in which the buckets are walked. -/
def items (t : HashTable δ) : List (BucketContents δ) :=
  (List.range t.nbuckets).flatMap t.bucketArray

def hashRehash (t : HashTable δ) (nsize : ℕ) : HashTable δ :=
  if nsize = t.nbuckets then t
  else ⟨t.items.foldl (push nsize) fun _ => [], nsize, t.nentries⟩

def hashGrow (t : HashTable δ) : HashTable δ :=
  let nsize := wrapInt (t.nbuckets * hashRehashMultiplier)
  if 0 < nsize then t.hashRehash nsize.toNat else t

/-- The first item of a chain that `isItem` accepts. -/
def findIn (string : CString) (chain : List (BucketContents δ)) : Option (BucketContents δ) :=
  chain.find? (isItem string)

def freshItem (string : CString) : BucketContents δ := ⟨string, none, hashString string⟩

/-- A fresh item for `string` at the head of its chain. -/
def addItem (t : HashTable δ) (string : CString) : BucketContents δ × HashTable δ :=
  (freshItem string,
    ⟨push t.nbuckets t.bucketArray (freshItem string), t.nbuckets, t.nentries + 1⟩)

def growIfFull (t : HashTable δ) : HashTable δ := if t.shouldGrow then t.hashGrow else t

def hashSearch (t : HashTable δ) (string : CString) (flags : HashFlags) :
    Option (BucketContents δ) × HashTable δ :=
  if flags.create = false ∧ t.nentries = 0 then (none, t)
  else
    match findIn string (t.bucketArray (t.bucketOf string)) with
    | some item => (some item, t)
    | none =>
        if flags.create then
          let (item, t) := t.growIfFull.addItem string
          (some item, t)
        else (none, t)

/-- The chain of `string` without the first item that `isItem` accepts. -/
def unlink (t : HashTable δ) (string : CString) : HashTable δ where
  bucketArray :=
    Function.update t.bucketArray (t.bucketOf string)
      ((t.bucketArray (t.bucketOf string)).eraseP (isItem string))
  nbuckets := t.nbuckets
  nentries := t.nentries - 1

def hashRemove (t : HashTable δ) (string : CString) : Option (BucketContents δ) × HashTable δ :=
  if t.nentries = 0 then (none, t)
  else
    match findIn string (t.bucketArray (t.bucketOf string)) with
    | none => (none, t)
    | some item => (some item, t.unlink string)

def hashInsert (t : HashTable δ) (string : CString) (flags : HashFlags) :
    BucketContents δ × HashTable δ :=
  match if flags.nosrch then none else (t.hashSearch string {}).1 with
  | some item => (item, t)
  | none => t.growIfFull.addItem string

/-- A `NULL` `cpdata` copies the data as a string. -/
def copyBucketArray (cpdata : Option (δ → δ)) (ba : List (BucketContents δ)) :
    List (BucketContents δ) :=
  ba.map fun e => ⟨e.key, e.data.map (cpdata.getD id), e.khash⟩

def hashCopy (t : HashTable δ) (cpdata : Option (δ → δ)) : Option (HashTable δ) :=
  (hashCreate t.nbuckets).map fun new : HashTable δ =>
    { new with
      bucketArray := fun i =>
        if i < t.nbuckets then copyBucketArray cpdata (t.bucketArray i) else new.bucketArray i
      nentries := t.nentries }

/-- What callers do with the item they are handed: `item->data = data`. -/
def storeData (t : HashTable δ) (string : CString) (data : δ) : HashTable δ :=
  { t with
    bucketArray := fun i => (t.bucketArray i).map fun item =>
      if item.key = string then { item with data := some data } else item }

end HashTable

end Rash
