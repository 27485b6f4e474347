import Rash.Lib.FiniteMaps
import Rash.Vars.HashTable

/-!
# Hash tables are finite maps

Every sequence of searches, insertions, removals and copies on a created table answers as the
finite map of its keys does, however often the table grows on the way.
-/

namespace Rash

open HashTable

variable {δ : Type}

theorem slot_lt {nbuckets : ℕ} (hpos : 0 < nbuckets) (khash : BitVec 32) :
    slot nbuckets khash < nbuckets := by
  have hle : slot nbuckets khash ≤ (BitVec.ofNat 32 (nbuckets - 1)).toNat := by
    unfold slot
    rw [BitVec.toNat_and]
    exact Nat.and_le_right
  have hmod : (BitVec.ofNat 32 (nbuckets - 1)).toNat ≤ nbuckets - 1 := by
    rw [BitVec.toNat_ofNat]
    exact Nat.mod_le _ _
  omega

theorem push_self (n : ℕ) (array : ℕ → List (BucketContents δ)) (item : BucketContents δ) :
    push n array item (slot n item.khash) = item :: array (slot n item.khash) :=
  Function.update_self ..

theorem push_of_ne {n i : ℕ} {item : BucketContents δ} (h : slot n item.khash ≠ i)
    (array : ℕ → List (BucketContents δ)) : push n array item i = array i :=
  Function.update_of_ne h.symm ..

theorem foldl_push (n : ℕ) (l : List (BucketContents δ)) (array : ℕ → List (BucketContents δ))
    (i : ℕ) :
    l.foldl (push n) array i = (l.filter fun item => slot n item.khash = i).reverse ++ array i := by
  induction l generalizing array with
  | nil => rfl
  | cons item l ih =>
      rw [List.foldl_cons, ih, List.filter_cons]
      by_cases h : slot n item.khash = i
      · subst h
        simp [push_self]
      · simp [h, push_of_ne h]

theorem mem_foldl_push {n i : ℕ} {l : List (BucketContents δ)} {item : BucketContents δ} :
    item ∈ l.foldl (push n) (fun _ => []) i ↔ item ∈ l ∧ slot n item.khash = i := by
  simp [foldl_push]

theorem addItem_chain (t : HashTable δ) (string : CString) (i : ℕ) :
    (t.addItem string).2.bucketArray i =
      if i = t.bucketOf string then freshItem string :: t.bucketArray i else t.bucketArray i := by
  split_ifs with hi
  · rw [hi]
    exact push_self t.nbuckets t.bucketArray (freshItem string)
  · exact push_of_ne (Ne.symm hi) t.bucketArray

theorem mem_items {t : HashTable δ} {item : BucketContents δ} :
    item ∈ t.items ↔ ∃ i < t.nbuckets, item ∈ t.bucketArray i := by
  simp [HashTable.items]

theorem isItem_iff {string : CString} {item : BucketContents δ}
    (hkhash : item.khash = hashString item.key) :
    isItem string item = true ↔ item.key = string := by
  simp only [isItem, Bool.and_eq_true, beq_iff_eq]
  constructor
  · exact And.right
  · rintro rfl
    exact ⟨hkhash.symm, rfl⟩

/-- In a chain of distinct keys the first item that is found is the only one. -/
theorem eraseP_isItem {string : CString} {chain : List (BucketContents δ)}
    (hkhash : ∀ item ∈ chain, item.khash = hashString item.key)
    (hnodup : (chain.map (·.key)).Nodup) :
    chain.eraseP (isItem string) = chain.filter fun item => item.key ≠ string := by
  induction chain with
  | nil => rfl
  | cons item chain ih =>
      have hitem : isItem string item = true ↔ item.key = string :=
        isItem_iff (hkhash item List.mem_cons_self)
      obtain ⟨hnot, hnodup⟩ := List.nodup_cons.mp hnodup
      by_cases hkey : item.key = string
      · rw [List.eraseP_cons_of_pos (hitem.mpr hkey), List.filter_cons_of_neg (by simp [hkey]),
          List.filter_eq_self.mpr]
        intro other hother
        have hne : other.key ≠ string := by
          intro hbad
          apply hnot
          exact List.mem_map.mpr ⟨other, hother, hbad.trans hkey.symm⟩
        exact decide_eq_true hne
      · rw [List.eraseP_cons_of_neg (mt hitem.mp hkey), List.filter_cons_of_pos (by simp [hkey]),
          ih (fun other hother => hkhash other (List.mem_cons_of_mem _ hother)) hnodup]

/-- The table is sound and its items are the map: every key lies in one bucket, once, the one
that its stored hash selects, and `nentries` counts the keys. -/
structure Represents (t : HashTable δ) (m : FiniteMap CString (Option δ)) : Prop where
  nbuckets_pos : 0 < t.nbuckets
  placed : ∀ i < t.nbuckets, ∀ item ∈ t.bucketArray i,
    item.khash = hashString item.key ∧ slot t.nbuckets item.khash = i
  distinct : ∀ i < t.nbuckets, ((t.bucketArray i).map (·.key)).Nodup
  contents : ∀ key data, m.lookup key = some data ↔
    ∃ item ∈ t.bucketArray (t.bucketOf key), item.key = key ∧ item.data = data
  nentries_eq : t.nentries = m.keys.card

namespace Represents

variable {t : HashTable δ} {m : FiniteMap CString (Option δ)}

theorem bucketOf_lt (h : Represents t m) (string : CString) : t.bucketOf string < t.nbuckets :=
  slot_lt h.nbuckets_pos _

theorem findIn_eq_some (h : Represents t m) {string : CString} {item : BucketContents δ} :
    findIn string (t.bucketArray (t.bucketOf string)) = some item ↔
      item ∈ t.bucketArray (t.bucketOf string) ∧ item.key = string := by
  constructor
  · intro hfind
    refine ⟨List.mem_of_find?_eq_some hfind, ?_⟩
    have hitem : isItem string item = true := List.find?_some hfind
    exact (by simpa [isItem] using hitem : _ ∧ item.key = string).2
  · rintro ⟨hmem, rfl⟩
    have hlt := h.bucketOf_lt item.key
    have hself : isItem item.key item = true :=
      (isItem_iff ((h.placed _ hlt) item hmem).1).mpr rfl
    obtain ⟨found, hfound⟩ := Option.isSome_iff_exists.mp
      (List.find?_isSome.mpr ⟨item, hmem, hself⟩)
    have hkey : found.key = item.key := by
      have := List.find?_some hfound
      simp only [isItem, Bool.and_eq_true, beq_iff_eq] at this
      exact this.2
    have heq : found = item :=
      List.inj_on_of_nodup_map (h.distinct _ hlt) (List.mem_of_find?_eq_some hfound) hmem hkey
    exact heq ▸ hfound

theorem lookup_of_mem (h : Represents t m) {string : CString} {item : BucketContents δ}
    (hmem : item ∈ t.bucketArray (t.bucketOf string)) (hkey : item.key = string) :
    m.lookup string = some item.data :=
  (h.contents _ _).mpr ⟨item, hmem, hkey, rfl⟩

theorem findIn_eq_none (h : Represents t m) {string : CString} :
    findIn string (t.bucketArray (t.bucketOf string)) = none ↔ m.lookup string = none := by
  constructor
  · intro hfind
    rw [Option.eq_none_iff_forall_ne_some]
    intro data hdata
    obtain ⟨item, hmem, hkey, -⟩ := (h.contents _ _).mp hdata
    rw [h.findIn_eq_some.mpr ⟨hmem, hkey⟩] at hfind
    cases hfind
  · intro hnone
    rw [Option.eq_none_iff_forall_ne_some]
    intro item hitem
    obtain ⟨hmem, hkey⟩ := h.findIn_eq_some.mp hitem
    rw [h.lookup_of_mem hmem hkey] at hnone
    cases hnone

theorem items_nodup (h : Represents t m) : (t.items.map (·.key)).Nodup := by
  unfold HashTable.items
  rw [List.map_flatMap, List.nodup_flatMap]
  refine ⟨fun i hi => h.distinct i (List.mem_range.mp hi), ?_⟩
  refine (List.nodup_range).imp_of_mem ?_
  intro i j hi hj hne key hkeyi hkeyj
  obtain ⟨x, hx, rfl⟩ := List.mem_map.mp hkeyi
  obtain ⟨y, hy, hkey⟩ := List.mem_map.mp hkeyj
  obtain ⟨hxhash, hxslot⟩ := h.placed i (List.mem_range.mp hi) x hx
  obtain ⟨hyhash, hyslot⟩ := h.placed j (List.mem_range.mp hj) y hy
  apply hne
  rw [← hxslot, ← hyslot, hxhash, hyhash, hkey]

theorem mem_bucketOf (h : Represents t m) {item : BucketContents δ} :
    item ∈ t.bucketArray (t.bucketOf item.key) ↔ item ∈ t.items := by
  rw [mem_items]
  constructor
  · exact fun hmem => ⟨_, h.bucketOf_lt _, hmem⟩
  · rintro ⟨i, hi, hmem⟩
    obtain ⟨hhash, hslot⟩ := h.placed i hi item hmem
    rw [hhash] at hslot
    have hbucket : t.bucketOf item.key = i := hslot
    rw [hbucket]
    exact hmem

theorem khash_eq (h : Represents t m) {item : BucketContents δ} (hmem : item ∈ t.items) :
    item.khash = hashString item.key := by
  obtain ⟨i, hi, hmem⟩ := mem_items.mp hmem
  exact (h.placed i hi item hmem).1

/-! ## Growing -/

theorem hashRehash (h : Represents t m) {nsize : ℕ} (hpos : 0 < nsize) :
    Represents (t.hashRehash nsize) m := by
  unfold HashTable.hashRehash
  split_ifs with hsame
  · exact h
  · refine ⟨hpos, ?_, ?_, ?_, h.nentries_eq⟩
    · intro i _ item hmem
      obtain ⟨hmem, hslot⟩ := mem_foldl_push.mp hmem
      exact ⟨h.khash_eq hmem, hslot⟩
    · intro i _
      have hnodup : ((t.items.filter fun item => slot nsize item.khash = i).map (·.key)).Nodup :=
        h.items_nodup.sublist (List.filter_sublist.map _)
      simpa [foldl_push] using hnodup
    · intro key data
      rw [h.contents]
      constructor
      · rintro ⟨item, hmem, rfl, rfl⟩
        have hitem := h.mem_bucketOf.mp hmem
        refine ⟨item, mem_foldl_push.mpr ⟨hitem, ?_⟩, rfl, rfl⟩
        rw [h.khash_eq hitem]
        rfl
      · rintro ⟨item, hmem, rfl, rfl⟩
        exact ⟨item, h.mem_bucketOf.mpr (mem_foldl_push.mp hmem).1, rfl, rfl⟩

theorem hashGrow (h : Represents t m) : Represents t.hashGrow m := by
  unfold HashTable.hashGrow
  dsimp only
  split_ifs with hpos
  · apply h.hashRehash
    exact Int.lt_toNat.mpr hpos
  · exact h

theorem growIfFull (h : Represents t m) : Represents t.growIfFull m := by
  unfold HashTable.growIfFull
  split_ifs
  · exact h.hashGrow
  · exact h

/-! ## Searching, inserting and removing -/

theorem addItem (h : Represents t m) {string : CString} (hnew : m.lookup string = none) :
    Represents (t.addItem string).2 (m.insert string none) := by
  have hbucket (key : CString) : (t.addItem string).2.bucketOf key = t.bucketOf key := rfl
  have hmem (i : ℕ) (item : BucketContents δ) :
      item ∈ (t.addItem string).2.bucketArray i ↔
        item ∈ t.bucketArray i ∨ i = t.bucketOf string ∧ item = freshItem string := by
    rw [addItem_chain]
    split_ifs with hi <;> simp [hi, or_comm]
  refine ⟨h.nbuckets_pos, ?_, ?_, ?_, ?_⟩
  · intro i hi item hitem
    rcases (hmem i item).mp hitem with hold | ⟨rfl, rfl⟩
    · exact h.placed i hi item hold
    · exact ⟨rfl, rfl⟩
  · intro i hi
    rw [addItem_chain]
    split_ifs with hslot
    · rw [List.map_cons, List.nodup_cons]
      refine ⟨?_, h.distinct i hi⟩
      intro hold
      obtain ⟨item, hitem, hkey⟩ := List.mem_map.mp hold
      rw [hslot] at hitem
      rw [h.lookup_of_mem hitem hkey] at hnew
      cases hnew
    · exact h.distinct i hi
  · intro key data
    rw [FiniteMap.lookup_insert_if, hbucket]
    by_cases hkey : key = string
    · subst hkey
      rw [if_pos rfl]
      constructor
      · intro hdata
        exact ⟨_, (hmem _ _).mpr (.inr ⟨rfl, rfl⟩), rfl, Option.some_inj.mp hdata⟩
      · rintro ⟨item, hitem, hname, rfl⟩
        rcases (hmem _ item).mp hitem with hold | ⟨-, rfl⟩
        · rw [h.lookup_of_mem hold hname] at hnew
          cases hnew
        · rfl
    · rw [if_neg hkey, h.contents]
      constructor
      · rintro ⟨item, hitem, hname⟩
        exact ⟨item, (hmem _ item).mpr (.inl hitem), hname⟩
      · rintro ⟨item, hitem, hname, hdata⟩
        rcases (hmem _ item).mp hitem with hold | ⟨-, rfl⟩
        · exact ⟨item, hold, hname, hdata⟩
        · exact absurd hname.symm hkey
  · rw [FiniteMap.card_insert_of_lookup_none hnew, ← h.nentries_eq]
    rfl

theorem findIn_entry (h : Represents t m) (string : CString) :
    (findIn string (t.bucketArray (t.bucketOf string))).map BucketContents.entry =
      (m.lookup string).map (string, ·) := by
  cases hfind : findIn string (t.bucketArray (t.bucketOf string)) with
  | none => rw [h.findIn_eq_none.mp hfind, Option.map_none, Option.map_none]
  | some item =>
      obtain ⟨hmem, hkey⟩ := h.findIn_eq_some.mp hfind
      rw [h.lookup_of_mem hmem hkey, Option.map_some, Option.map_some, BucketContents.entry, hkey]

theorem lookup_of_nentries (h : Represents t m) (hzero : t.nentries = 0) (string : CString) :
    m.lookup string = none := by
  rw [h.nentries_eq, Finset.card_eq_zero] at hzero
  rw [Finmap.lookup_eq_none, ← Finmap.mem_keys, hzero]
  exact Finset.notMem_empty string

/-- Growing may come first. -/
theorem addItem_grown (h : Represents t m) {string : CString} (hnew : m.lookup string = none) :
    Represents (t.growIfFull.addItem string).2 (m.insert string none) :=
  h.growIfFull.addItem hnew

theorem hashSearch_find (h : Represents t m) (string : CString) :
    ((t.hashSearch string {}).1.map BucketContents.entry, (t.hashSearch string {}).2) =
      ((m.lookup string).map (string, ·), t) := by
  unfold HashTable.hashSearch
  by_cases hempty : t.nentries = 0
  · rw [if_pos ⟨rfl, hempty⟩, h.lookup_of_nentries hempty]
    rfl
  · rw [if_neg fun hand => hempty hand.2, ← h.findIn_entry]
    cases findIn string (t.bucketArray (t.bucketOf string)) <;> rfl

theorem hashSearch_create (h : Represents t m) (string : CString) :
    (t.hashSearch string { create := true }).1.map BucketContents.entry =
        some (string, (m.lookup string).getD none) ∧
      Represents (t.hashSearch string { create := true }).2
        (if m.lookup string = none then m.insert string none else m) := by
  unfold HashTable.hashSearch
  rw [if_neg fun hand => Bool.noConfusion hand.1]
  have hentry := h.findIn_entry string
  cases hfind : findIn string (t.bucketArray (t.bucketOf string)) with
  | none =>
      have hnew := h.findIn_eq_none.mp hfind
      rw [if_pos hnew, hnew]
      exact ⟨rfl, h.addItem_grown hnew⟩
  | some item =>
      rw [hfind] at hentry
      obtain ⟨data, hdata, hpair⟩ := Option.map_eq_some_iff.mp hentry.symm
      rw [hdata, if_neg (Option.some_ne_none data)]
      exact ⟨congrArg some hpair.symm, h⟩

theorem hashInsert (h : Represents t m) (string : CString) (flags : HashFlags)
    (hflags : flags.nosrch = true → m.lookup string = none) :
    (t.hashInsert string flags).1.entry = (string, (m.lookup string).getD none) ∧
      Represents (t.hashInsert string flags).2
        (if m.lookup string = none then m.insert string none else m) := by
  have hsearch := congrArg Prod.fst (h.hashSearch_find string)
  unfold HashTable.hashInsert
  cases hfound : if flags.nosrch then none else (t.hashSearch string {}).1 with
  | none =>
      have hnew : m.lookup string = none := by
        by_cases hno : flags.nosrch = true
        · exact hflags hno
        · rw [if_neg hno] at hfound
          rw [hfound] at hsearch
          exact Option.map_eq_none_iff.mp hsearch.symm
      rw [if_pos hnew, hnew]
      exact ⟨rfl, h.addItem_grown hnew⟩
  | some item =>
      split_ifs at hfound
      rw [hfound] at hsearch
      obtain ⟨data, hdata, hpair⟩ := Option.map_eq_some_iff.mp hsearch.symm
      rw [hdata, if_neg (Option.some_ne_none data)]
      exact ⟨hpair.symm, h⟩

theorem unlink_chain (h : Represents t m) (string : CString) {i : ℕ} (hi : i < t.nbuckets) :
    (t.unlink string).bucketArray i =
      (t.bucketArray i).filter fun item => item.key ≠ string := by
  have hlt := h.bucketOf_lt string
  simp only [HashTable.unlink]
  by_cases hslot : i = t.bucketOf string
  · rw [hslot, Function.update_self,
      eraseP_isItem (fun item hitem => (h.placed _ hlt item hitem).1) (h.distinct _ hlt)]
  · rw [Function.update_of_ne hslot, eq_comm, List.filter_eq_self]
    intro other hother
    apply decide_eq_true
    rintro rfl
    obtain ⟨hkhash, hplaced⟩ := h.placed i hi other hother
    rw [hkhash] at hplaced
    exact hslot hplaced.symm

theorem unlink (h : Represents t m) {string : CString} {item : BucketContents δ}
    (hitem : findIn string (t.bucketArray (t.bucketOf string)) = some item) :
    Represents (t.unlink string) (m.erase string) := by
  obtain ⟨hmem, hkey⟩ := h.findIn_eq_some.mp hitem
  have hbucket (key : CString) : (t.unlink string).bucketOf key = t.bucketOf key := rfl
  refine ⟨h.nbuckets_pos, ?_, ?_, ?_, ?_⟩
  · intro i hi other hother
    rw [h.unlink_chain string hi] at hother
    exact h.placed i hi other (List.mem_of_mem_filter hother)
  · intro i hi
    rw [h.unlink_chain string hi]
    exact (h.distinct i hi).sublist (List.filter_sublist.map _)
  · intro key data
    rw [FiniteMap.lookup_erase_if, hbucket, h.unlink_chain string (h.bucketOf_lt key)]
    simp only [List.mem_filter, decide_eq_true_eq]
    split_ifs with heq
    · constructor
      · intro hnone
        cases hnone
      · rintro ⟨other, ⟨-, hne⟩, hname, -⟩
        exact absurd (hname.trans heq) hne
    · rw [h.contents]
      constructor
      · rintro ⟨other, hother, hname, hdata⟩
        exact ⟨other, ⟨hother, fun hbad => heq (hname.symm.trans hbad)⟩, hname, hdata⟩
      · rintro ⟨other, ⟨hother, -⟩, hname, hdata⟩
        exact ⟨other, hother, hname, hdata⟩
  · have hcard := FiniteMap.card_erase_of_lookup (h.lookup_of_mem hmem hkey)
    have hentries : (t.unlink string).nentries = t.nentries - 1 := rfl
    have hcount := h.nentries_eq
    omega

theorem hashRemove (h : Represents t m) (string : CString) :
    (t.hashRemove string).1.map BucketContents.entry = (m.lookup string).map (string, ·) ∧
      Represents (t.hashRemove string).2 (m.erase string) := by
  have habsent (hnew : m.lookup string = none) : m.erase string = m := by
    apply Finmap.ext_lookup
    intro key
    rw [FiniteMap.lookup_erase_if]
    split_ifs with hkey
    · rw [hkey, hnew]
    · rfl
  unfold HashTable.hashRemove
  split_ifs with hempty
  · have hnew := h.lookup_of_nentries hempty string
    rw [habsent hnew, hnew]
    exact ⟨rfl, h⟩
  · rw [← h.findIn_entry]
    cases hfind : findIn string (t.bucketArray (t.bucketOf string)) with
    | none =>
        rw [habsent (h.findIn_eq_none.mp hfind)]
        exact ⟨rfl, h⟩
    | some item => exact ⟨rfl, h.unlink hfind⟩

/-! ## Storing and copying -/

theorem mapChains (h : Represents t m) {t' : HashTable δ} {m' : FiniteMap CString (Option δ)}
    (f : BucketContents δ → BucketContents δ) (hkey : ∀ item, (f item).key = item.key)
    (hkhash : ∀ item, (f item).khash = item.khash) (hnbuckets : t'.nbuckets = t.nbuckets)
    (hnentries : t'.nentries = t.nentries)
    (hchain : ∀ i < t.nbuckets, t'.bucketArray i = (t.bucketArray i).map f)
    (hkeys : m'.keys.card = m.keys.card)
    (hlookup : ∀ key data, m'.lookup key = some data ↔
      ∃ item ∈ t.bucketArray (t.bucketOf key), item.key = key ∧ (f item).data = data) :
    Represents t' m' := by
  have hbucket (key : CString) : t'.bucketOf key = t.bucketOf key := by
    unfold HashTable.bucketOf
    rw [hnbuckets]
  refine ⟨hnbuckets ▸ h.nbuckets_pos, ?_, ?_, ?_, ?_⟩
  · intro i hi item hitem
    rw [hnbuckets] at hi
    rw [hchain i hi] at hitem
    obtain ⟨old, hold, rfl⟩ := List.mem_map.mp hitem
    rw [hkey, hkhash, hnbuckets]
    exact h.placed i hi old hold
  · intro i hi
    rw [hnbuckets] at hi
    rw [hchain i hi, List.map_map]
    have hcomp : (fun item : BucketContents δ => item.key) ∘ f = fun item => item.key :=
      funext hkey
    rw [hcomp]
    exact h.distinct i hi
  · intro key data
    rw [hlookup, hbucket, hchain _ (h.bucketOf_lt key)]
    constructor
    · rintro ⟨item, hitem, hname, hdata⟩
      exact ⟨f item, List.mem_map_of_mem hitem, (hkey item).trans hname, hdata⟩
    · rintro ⟨item, hitem, hname, hdata⟩
      obtain ⟨old, hold, rfl⟩ := List.mem_map.mp hitem
      exact ⟨old, hold, (hkey old).symm.trans hname, hdata⟩
  · rw [hnentries, hkeys, h.nentries_eq]

theorem storeData (h : Represents t m) (string : CString) (data : δ) :
    Represents (t.storeData string data)
      (if m.lookup string = none then m else m.insert string (some data)) := by
  let f (item : BucketContents δ) : BucketContents δ :=
    if item.key = string then { item with data := some data } else item
  have hf (item : BucketContents δ) : (f item).key = item.key ∧ (f item).khash = item.khash ∧
      (f item).data = if item.key = string then some data else item.data := by
    by_cases hkey : item.key = string <;> simp [f, hkey]
  refine h.mapChains f ?_ ?_ rfl rfl ?_ ?_ ?_
  · exact fun item => (hf item).1
  · exact fun item => (hf item).2.1
  · exact fun i _ => rfl
  · cases hold : m.lookup string with
    | none => rw [if_pos rfl]
    | some old => rw [if_neg (Option.some_ne_none old), FiniteMap.keys_insert_of_lookup hold]
  · intro key found
    have hvalue : (if m.lookup string = none then m else m.insert string (some data)).lookup key =
        (m.lookup key).map fun old => if key = string then some data else old := by
      cases hold : m.lookup string with
      | none =>
          rw [if_pos rfl]
          by_cases hkey : key = string
          · rw [hkey, hold]
            rfl
          · simp [hkey]
      | some old =>
          rw [if_neg (Option.some_ne_none old), FiniteMap.lookup_insert_if]
          by_cases hkey : key = string
          · rw [hkey, if_pos rfl, hold, Option.map_some, if_pos rfl]
          · simp [hkey]
    rw [hvalue, Option.map_eq_some_iff]
    constructor
    · rintro ⟨old, hold, hfound⟩
      obtain ⟨item, hitem, rfl, rfl⟩ := (h.contents key old).mp hold
      exact ⟨item, hitem, rfl, (hf item).2.2.trans hfound⟩
    · rintro ⟨item, hitem, rfl, hfound⟩
      exact ⟨item.data, h.lookup_of_mem hitem rfl, (hf item).2.2.symm.trans hfound⟩

theorem hashCopy (h : Represents t m) (cpdata : Option (δ → δ)) :
    ∃ t', t.hashCopy cpdata = some t' ∧
      Represents t' (FiniteMap.mapValues (Option.map (cpdata.getD id)) m) := by
  have hpos := h.nbuckets_pos
  unfold HashTable.hashCopy hashCreate
  rw [if_neg (by omega), if_pos (by omega)]
  refine ⟨_, rfl, ?_⟩
  refine h.mapChains (fun e => ⟨e.key, e.data.map (cpdata.getD id), e.khash⟩) (fun _ => rfl)
    (fun _ => rfl) (Int.toNat_natCast _) rfl ?_ ?_ ?_
  · intro i hi
    exact if_pos hi
  · rw [FiniteMap.keys_mapValues]
  · intro key data
    rw [FiniteMap.lookup_mapValues, Option.map_eq_some_iff]
    constructor
    · rintro ⟨old, hold, rfl⟩
      obtain ⟨item, hitem, hkey, rfl⟩ := (h.contents key old).mp hold
      exact ⟨item, hitem, hkey, rfl⟩
    · rintro ⟨item, hitem, hkey, rfl⟩
      exact ⟨item.data, h.lookup_of_mem hitem hkey, rfl⟩

theorem hashCreate {buckets : ℤ} (hcreate : hashCreate buckets = some t) : Represents t ∅ := by
  have hempty {n : ℕ} (hn : 0 < n) : Represents (⟨fun _ => [], n, 0⟩ : HashTable δ) ∅ := by
    refine ⟨hn, ?_, ?_, ?_, rfl⟩
    · intro i _ item hitem
      cases hitem
    · intro i _
      exact List.nodup_nil
    · intro key data
      simp
  unfold Rash.hashCreate at hcreate
  split_ifs at hcreate with hzero hpos
  · exact Option.some_inj.mp hcreate ▸ hempty (by decide)
  · exact Option.some_inj.mp hcreate ▸ hempty (by omega)

end Represents

/-! ## Runs -/

/-- The calls on a table.  `store` is a caller that writes the data of an item it was handed;
`adopt` says whether the run goes on with the copy. -/
inductive TableCall (δ : Type)
  | search (string : CString) (create : Bool)
  | insert (string : CString) (nosrch : Bool)
  | remove (string : CString)
  | store (string : CString) (data : δ)
  | copy (cpdata : Option (δ → δ)) (adopt : Bool)

/-- What a call returns, with `C` for what a copy is. -/
inductive TableAnswer (δ C : Type)
  | item (entry : Option (CString × Option δ))
  | copied (c : C)

def TableCall.onTable (t : HashTable δ) :
    TableCall δ → TableAnswer δ (Option (HashTable δ)) × HashTable δ
  | .search string create =>
      let (item, t) := t.hashSearch string { create := create }
      (.item (item.map BucketContents.entry), t)
  | .insert string nosrch =>
      let (item, t) := t.hashInsert string { nosrch := nosrch }
      (.item (some item.entry), t)
  | .remove string =>
      let (item, t) := t.hashRemove string
      (.item (item.map BucketContents.entry), t)
  | .store string data => (.item none, t.storeData string data)
  | .copy cpdata adopt =>
      let new := t.hashCopy cpdata
      (.copied new, if adopt then new.getD t else t)

def TableCall.onMap (m : FiniteMap CString (Option δ)) :
    TableCall δ → TableAnswer δ (FiniteMap CString (Option δ)) × FiniteMap CString (Option δ)
  | .search string false => (.item ((m.lookup string).map (string, ·)), m)
  | .search string true | .insert string _ =>
      (.item (some (string, (m.lookup string).getD none)),
        if m.lookup string = none then m.insert string none else m)
  | .remove string => (.item ((m.lookup string).map (string, ·)), m.erase string)
  | .store string data =>
      (.item none, if m.lookup string = none then m else m.insert string (some data))
  | .copy cpdata adopt =>
      let new := FiniteMap.mapValues (Option.map (cpdata.getD id)) m
      (.copied new, if adopt then new else m)

/-- `HASH_NOSRCH` is passed for absent keys only. -/
def TableCall.Fair (m : FiniteMap CString (Option δ)) : TableCall δ → Prop
  | .insert string true => m.lookup string = none
  | _ => True

/-- The two answers are the same item, or a copy that represents the map it is to be. -/
inductive TableAnswer.Agrees :
    TableAnswer δ (Option (HashTable δ)) → TableAnswer δ (FiniteMap CString (Option δ)) → Prop
  | item (entry : Option (CString × Option δ)) : Agrees (.item entry) (.item entry)
  | copied {t : HashTable δ} {m : FiniteMap CString (Option δ)} :
      Represents t m → Agrees (.copied (some t)) (.copied m)

theorem TableCall.agrees {t : HashTable δ} {m : FiniteMap CString (Option δ)}
    (h : Represents t m) (call : TableCall δ) (hfair : call.Fair m) :
    (call.onTable t).1.Agrees (call.onMap m).1 ∧
      Represents (call.onTable t).2 (call.onMap m).2 := by
  cases call with
  | search string create =>
      cases create with
      | false =>
          obtain ⟨hitem, htable⟩ := Prod.mk.inj (h.hashSearch_find string)
          simp only [TableCall.onTable, TableCall.onMap]
          rw [hitem, htable]
          exact ⟨.item _, h⟩
      | true =>
          obtain ⟨hitem, htable⟩ := h.hashSearch_create string
          simp only [TableCall.onTable, TableCall.onMap]
          rw [hitem]
          exact ⟨.item _, htable⟩
  | insert string nosrch =>
      have hflags : nosrch = true → m.lookup string = none := by
        rintro rfl
        exact hfair
      obtain ⟨hitem, htable⟩ := h.hashInsert string { nosrch := nosrch } hflags
      simp only [TableCall.onTable, TableCall.onMap]
      rw [hitem]
      exact ⟨.item _, htable⟩
  | remove string =>
      obtain ⟨hitem, htable⟩ := h.hashRemove string
      simp only [TableCall.onTable, TableCall.onMap]
      rw [hitem]
      exact ⟨.item _, htable⟩
  | store string data => exact ⟨.item _, h.storeData string data⟩
  | copy cpdata adopt =>
      obtain ⟨t', hcopy, hcopied⟩ := h.hashCopy cpdata
      simp only [TableCall.onTable, TableCall.onMap]
      rw [hcopy]
      refine ⟨.copied hcopied, ?_⟩
      cases adopt with
      | false => exact h
      | true => exact hcopied

def runTable : List (TableCall δ) → HashTable δ →
    List (TableAnswer δ (Option (HashTable δ))) × HashTable δ
  | [], t => ([], t)
  | call :: rest, t =>
      let (answer, t) := call.onTable t
      let (answers, t) := runTable rest t
      (answer :: answers, t)

def runMap : List (TableCall δ) → FiniteMap CString (Option δ) →
    List (TableAnswer δ (FiniteMap CString (Option δ))) × FiniteMap CString (Option δ)
  | [], m => ([], m)
  | call :: rest, m =>
      let (answer, m) := call.onMap m
      let (answers, m) := runMap rest m
      (answer :: answers, m)

def FairCalls : List (TableCall δ) → FiniteMap CString (Option δ) → Prop
  | [], _ => True
  | call :: rest, m => call.Fair m ∧ FairCalls rest (call.onMap m).2

theorem runTable_agrees {t : HashTable δ} {m : FiniteMap CString (Option δ)}
    (h : Represents t m) (calls : List (TableCall δ)) (hfair : FairCalls calls m) :
    List.Forall₂ TableAnswer.Agrees (runTable calls t).1 (runMap calls m).1 ∧
      Represents (runTable calls t).2 (runMap calls m).2 := by
  induction calls generalizing t m with
  | nil => exact ⟨.nil, h⟩
  | cons call rest ih =>
      obtain ⟨hfirst, hnext⟩ := call.agrees h hfair.1
      obtain ⟨hrest, hlast⟩ := ih hnext hfair.2
      exact ⟨.cons hfirst hrest, hlast⟩

theorem hashTable_refines_map {buckets : ℤ} {t : HashTable δ}
    (hcreate : hashCreate buckets = some t) (calls : List (TableCall δ))
    (hfair : FairCalls calls ∅) :
    List.Forall₂ TableAnswer.Agrees (runTable calls t).1 (runMap calls ∅).1 ∧
      Represents (runTable calls t).2 (runMap calls ∅).2 :=
  runTable_agrees (Represents.hashCreate hcreate) calls hfair

/-- The third key makes the table of one bucket grow. -/
theorem hashTable_refines_map_grown :
    List.Forall₂ TableAnswer.Agrees
        (runTable [.insert [97] true, .insert [98] false, .insert [99] false, .remove [97]]
          (⟨fun _ => [], 1, 0⟩ : HashTable ℕ)).1
        (runMap [.insert [97] true, .insert [98] false, .insert [99] false, .remove [97]] ∅).1 ∧
      Represents
        (runTable [.insert [97] true, .insert [98] false, .insert [99] false, .remove [97]]
          (⟨fun _ => [], 1, 0⟩ : HashTable ℕ)).2
        (runMap [.insert [97] true, .insert [98] false, .insert [99] false, .remove [97]] ∅).2 :=
  hashTable_refines_map (show hashCreate 1 = some _ from rfl) _
    ⟨Finmap.lookup_empty _, trivial, trivial, trivial, trivial⟩

example : (runTable [.insert [97] true, .insert [98] false, .insert [99] false]
    (⟨fun _ => [], 1, 0⟩ : HashTable ℕ)).2.nbuckets = 4 := by decide +kernel

end Rash
