import Rash.Vars.ArrayLinks

/-!
# The loops over an indexed array

Where the searches end, and what the loops of the shifts and of the copy leave.
-/

namespace Rash

open ArrayMemory

variable {mem mem' : ArrayMemory} {a : IndexedArray} {l l₁ l₂ : List ℕ} {p q x y new : ℕ} {i : ℤ}

namespace ArrayHolds

theorem elementForw_at (h : ArrayHolds mem a (l₁ ++ x :: l₂)) :
    mem.elementForw x = l₂.headD a.head := h.ring.next_at

theorem elementBack_at (h : ArrayHolds mem a (l₁ ++ x :: l₂)) :
    mem.elementBack x = l₁.getLastD a.head := h.ring.prev_at

theorem elementForw_head (h : ArrayHolds mem a l) : mem.elementForw a.head = l.headD a.head :=
  h.ring.next_head

theorem ne_head (h : ArrayHolds mem a l) (hx : x ∈ l) : x ≠ a.head := by
  rintro rfl
  exact (List.nodup_cons.mp h.ring.nodup).1 hx

theorem index_lt (h : ArrayHolds mem a (l₁ ++ x :: l₂)) :
    (∀ p ∈ l₁, mem.elementIndex p < mem.elementIndex x) ∧
      ∀ p ∈ l₂, mem.elementIndex x < mem.elementIndex p := by
  have hsorted := h.increasing
  rw [map_append_index, List.pairwise_append, List.pairwise_cons] at hsorted
  obtain ⟨-, ⟨habove, -⟩, hcross⟩ := hsorted
  constructor
  · exact fun p hp => hcross _ (List.mem_map_of_mem hp) _ List.mem_cons_self
  · exact fun p hp => habove _ (List.mem_map_of_mem hp)

theorem index_ne_between (h : ArrayHolds mem a (l₁ ++ x :: y :: l₂))
    (hx : mem.elementIndex x < i) (hy : i < mem.elementIndex y) :
    ∀ p ∈ l₁ ++ x :: y :: l₂, mem.elementIndex p ≠ i := by
  have h' : ArrayHolds mem a ((l₁ ++ [x]) ++ y :: l₂) := by
    rw [List.append_assoc]
    exact h
  intro p hp
  rcases List.mem_append.mp hp with hp | hp
  · have hlt := h.index_lt.1 p hp
    omega
  · rcases List.mem_cons.mp hp with rfl | hp
    · omega
    · rcases List.mem_cons.mp hp with rfl | hp
      · omega
      · have hlt := h'.index_lt.2 p hp
        omega

/-- The bound `max_index` and the first index are those of the elements. -/
theorem exists_bounds (h : ArrayHolds mem a l) (hout : a.outside mem i = false)
    (hempty : a.empty = false) :
    (∃ p l', l = p :: l' ∧ mem.elementIndex p ≤ i) ∧ ∃ p ∈ l, i ≤ mem.elementIndex p := by
  have hne : l ≠ [] := by
    rintro rfl
    unfold IndexedArray.empty at hempty
    rw [h.count] at hempty
    cases hempty
  obtain ⟨hmax, hfirst⟩ := Bool.or_eq_false_iff.mp hout
  rw [decide_eq_false_iff_not] at hmax hfirst
  constructor
  · obtain ⟨p, l', rfl⟩ := List.exists_cons_of_ne_nil hne
    rw [h.elementForw_head, List.headD_cons] at hfirst
    exact ⟨p, l', rfl, by omega⟩
  · obtain ⟨l', p, rfl⟩ := (List.eq_nil_or_concat' l).resolve_left hne
    rw [h.greatest, List.map_append, List.map_singleton, List.getLastD_concat] at hmax
    exact ⟨p, List.mem_append_right _ (List.mem_singleton_self p), by omega⟩

end ArrayHolds

namespace IndexedArray

/-! ## Searching -/

/-- What a search of a well-formed array comes to: the element with the index, or one of the
array's elements where there is none with the index. -/
def SearchResult (mem : ArrayMemory) (l : List ℕ) (i : ℤ) : Bool × ℕ → Prop
  | (true, ae) => ae ∈ l ∧ mem.elementIndex ae = i
  | (false, ae) => ae ∈ l ∧ ∀ p ∈ l, mem.elementIndex p ≠ i

theorem searchLoop_forw (h : ArrayHolds mem a (l₁ ++ x :: l₂)) (start : ℕ) {fuel : ℕ}
    (hle : mem.elementIndex x ≤ i) (hbound : ∃ p ∈ x :: l₂, i ≤ mem.elementIndex p)
    (hfuel : l₂.length < fuel) :
    ∃ r, a.searchLoop mem i true start fuel x = some r ∧
      SearchResult mem (l₁ ++ x :: l₂) i r := by
  induction l₂ generalizing l₁ x fuel with
  | nil =>
      obtain ⟨fuel, rfl⟩ := Nat.exists_eq_succ_of_ne_zero (Nat.ne_of_gt hfuel)
      obtain ⟨p, hp, hge⟩ := hbound
      obtain rfl := List.mem_singleton.mp hp
      have hmem : p ∈ l₁ ++ [p] := List.mem_append_right _ (List.mem_singleton_self p)
      refine ⟨(true, p), ?_, hmem, by omega⟩
      unfold searchLoop
      rw [if_neg (h.ne_head hmem), if_pos (by omega)]
  | cons y l₃ ih =>
      obtain ⟨fuel, rfl⟩ := Nat.exists_eq_succ_of_ne_zero
        (Nat.ne_of_gt (Nat.lt_of_le_of_lt (Nat.zero_le _) hfuel))
      have hmem : x ∈ l₁ ++ x :: y :: l₃ := List.mem_append_right _ List.mem_cons_self
      unfold searchLoop
      rw [if_neg (h.ne_head hmem)]
      by_cases hfound : mem.elementIndex x = i
      · rw [if_pos hfound]
        exact ⟨_, rfl, hmem, hfound⟩
      · rw [if_neg hfound, h.elementForw_at, List.headD_cons]
        dsimp only
        rw [if_pos rfl]
        by_cases hgt : mem.elementIndex y > i
        · rw [if_pos ⟨rfl, hgt⟩]
          refine ⟨_, rfl, List.mem_append_right _ (List.mem_cons_of_mem _ List.mem_cons_self), ?_⟩
          exact h.index_ne_between (by omega) hgt
        · rw [if_neg (fun hbad => hgt hbad.2), if_neg (fun hbad => Bool.false_ne_true hbad.1)]
          have h' : ArrayHolds mem a ((l₁ ++ [x]) ++ y :: l₃) := by
            rw [List.append_assoc]
            exact h
          have hbound' : ∃ p ∈ y :: l₃, i ≤ mem.elementIndex p := by
            obtain ⟨p, hp, hge⟩ := hbound
            rcases List.mem_cons.mp hp with rfl | hp
            · omega
            · exact ⟨p, hp, hge⟩
          obtain ⟨r, hr, hresult⟩ := ih h' (by omega) hbound' (Nat.lt_of_succ_lt_succ hfuel)
          rw [List.append_assoc] at hresult
          exact ⟨r, hr, hresult⟩

theorem searchLoop_back (h : ArrayHolds mem a (l₁ ++ x :: l₂)) (start : ℕ) {fuel : ℕ}
    (hge : i ≤ mem.elementIndex x) (hbound : ∃ p ∈ l₁ ++ [x], mem.elementIndex p ≤ i)
    (hfuel : l₁.length < fuel) :
    ∃ r, a.searchLoop mem i false start fuel x = some r ∧
      SearchResult mem (l₁ ++ x :: l₂) i r := by
  induction l₁ using List.reverseRecOn generalizing x l₂ fuel with
  | nil =>
      obtain ⟨fuel, rfl⟩ := Nat.exists_eq_succ_of_ne_zero (Nat.ne_of_gt hfuel)
      obtain ⟨p, hp, hle⟩ := hbound
      obtain rfl := List.mem_singleton.mp hp
      have hmem : p ∈ [] ++ p :: l₂ := List.mem_cons_self
      refine ⟨(true, p), ?_, hmem, by omega⟩
      unfold searchLoop
      rw [if_neg (h.ne_head hmem), if_pos (by omega)]
  | append_singleton l₃ y ih =>
      obtain ⟨fuel, rfl⟩ := Nat.exists_eq_succ_of_ne_zero
        (Nat.ne_of_gt (Nat.lt_of_le_of_lt (Nat.zero_le _) hfuel))
      have hmem : x ∈ l₃ ++ [y] ++ x :: l₂ := List.mem_append_right _ List.mem_cons_self
      have h' : ArrayHolds mem a (l₃ ++ y :: x :: l₂) := by
        rw [List.append_assoc] at h
        exact h
      unfold searchLoop
      rw [if_neg (h.ne_head hmem)]
      by_cases hfound : mem.elementIndex x = i
      · rw [if_pos hfound]
        exact ⟨_, rfl, hmem, hfound⟩
      · rw [if_neg hfound, h.elementBack_at, List.getLastD_concat]
        dsimp only
        rw [if_neg Bool.false_ne_true]
        have hforw : ¬(false = true ∧ mem.elementIndex y > i) :=
          fun hbad => Bool.false_ne_true hbad.1
        rw [if_neg hforw]
        by_cases hlt : mem.elementIndex y < i
        · rw [if_pos ⟨rfl, hlt⟩]
          refine ⟨_, rfl, ?_, ?_⟩
          · rw [List.append_assoc]
            exact List.mem_append_right _ List.mem_cons_self
          · rw [List.append_assoc]
            exact h'.index_ne_between hlt (by omega)
        · rw [if_neg (fun hbad => hlt hbad.2)]
          have hbound' : ∃ p ∈ l₃ ++ [y], mem.elementIndex p ≤ i := by
            obtain ⟨p, hp, hle⟩ := hbound
            rcases List.mem_append.mp hp with hp | hp
            · exact ⟨p, hp, hle⟩
            · obtain rfl := List.mem_singleton.mp hp
              omega
          rw [List.length_append, List.length_singleton] at hfuel
          obtain ⟨r, hr, hresult⟩ := ih h' (by omega) hbound' (Nat.lt_of_succ_lt_succ hfuel)
          rw [List.append_assoc]
          exact ⟨r, hr, hresult⟩

theorem lastrefOr_mem (h : ArrayHolds mem a l) (hne : l ≠ []) : a.lastrefOr mem ∈ l := by
  unfold lastrefOr
  split_ifs with hzero
  · exact h.cache.resolve_left hzero
  · obtain ⟨p, l', rfl⟩ := List.exists_cons_of_ne_nil hne
    rw [h.elementForw_head]
    exact List.mem_cons_self

/-- The start of a search has an index on the side that the search does not go to, and there is
one on the other side. -/
theorem searchStart_spec (h : ArrayHolds mem a l) (hout : a.outside mem i = false)
    (hempty : a.empty = false) :
    ∃ l₁ x l₂, l = l₁ ++ x :: l₂ ∧ l₁.length < mem.fresh ∧ l₂.length < mem.fresh ∧
      (a.searchStart mem i = (x, true) ∧ mem.elementIndex x ≤ i ∧
          (∃ p ∈ x :: l₂, i ≤ mem.elementIndex p) ∨
        a.searchStart mem i = (x, false) ∧ i < mem.elementIndex x ∧
          ∃ p ∈ l₁ ++ [x], mem.elementIndex p ≤ i) := by
  obtain ⟨⟨first, rest, hfirst, hle⟩, top, htop, htop'⟩ := h.exists_bounds hout hempty
  have hfuel := h.length_lt_fresh
  have hstart : a.lastrefOr mem ∈ l := lastrefOr_mem h (by rw [hfirst]; exact List.cons_ne_nil _ _)
  have hhead : mem.elementForw a.head = first := by
    rw [h.elementForw_head, hfirst, List.headD_cons]
  obtain ⟨l₁, l₂, hsplit⟩ := List.append_of_mem hstart
  have hlength := congrArg List.length hsplit
  rw [List.length_append, List.length_cons] at hlength
  unfold searchStart
  dsimp only
  rw [hhead]
  split_ifs with hhalf hfrom
  · refine ⟨[], first, rest, hfirst, Nat.lt_of_le_of_lt (Nat.zero_le _) hfuel, ?_, .inl ⟨rfl, hle, top, ?_, htop'⟩⟩
    · rw [hfirst, List.length_cons] at hfuel
      omega
    · rw [← hfirst]
      exact htop
  · refine ⟨l₁, _, l₂, hsplit, by omega, by omega, .inl ⟨rfl, hfrom, ?_⟩⟩
    rw [hsplit] at h htop
    rcases List.mem_append.mp htop with htop | htop
    · have hlt := h.index_lt.1 top htop
      exact ⟨_, List.mem_cons_self, by omega⟩
    · exact ⟨top, htop, htop'⟩
  · refine ⟨l₁, _, l₂, hsplit, by omega, by omega, .inr ⟨rfl, by omega, first, ?_, hle⟩⟩
    have hmem : first ∈ l := by
      rw [hfirst]
      exact List.mem_cons_self
    rw [hsplit] at h hmem
    rcases List.mem_append.mp hmem with hmem | hmem
    · exact List.mem_append_left _ hmem
    · rcases List.mem_cons.mp hmem with hmem | hmem
      · exact List.mem_append_right _ (List.mem_singleton.mpr hmem)
      · have hlt := h.index_lt.2 first hmem
        omega

theorem search_spec (h : ArrayHolds mem a l) (hout : a.outside mem i = false)
    (hempty : a.empty = false) :
    ∃ start forw r, a.searchStart mem i = (start, forw) ∧
      a.searchLoop mem i forw start mem.fresh start = some r ∧ SearchResult mem l i r := by
  obtain ⟨l₁, x, l₂, rfl, hlength₁, hlength₂, hstart⟩ := searchStart_spec h hout hempty
  rcases hstart with ⟨hstart, hx, hbound⟩ | ⟨hstart, hx, hbound⟩
  · obtain ⟨r, hr, hresult⟩ := searchLoop_forw h x hx hbound hlength₂
    exact ⟨x, true, r, hstart, hr, hresult⟩
  · obtain ⟨r, hr, hresult⟩ := searchLoop_back h x (Int.le_of_lt hx) hbound hlength₁
    exact ⟨x, false, r, hstart, hr, hresult⟩

/-! ## The place of a new element -/

/-- The two neighbours between which an index is not in the list. -/
def InsertResult (mem : ArrayMemory) (l : List ℕ) (i : ℤ) : InsertPlace → Prop
  | .replace ae => ae ∈ l ∧ mem.elementIndex ae = i
  | .before ae => ∃ l₁ l₂, l = l₁ ++ ae :: l₂ ∧ (∀ p ∈ l₁, mem.elementIndex p < i) ∧
      ∀ p ∈ ae :: l₂, i < mem.elementIndex p
  | .after ae => ∃ l₁ l₂, l = l₁ ++ ae :: l₂ ∧ (∀ p ∈ l₁ ++ [ae], mem.elementIndex p < i) ∧
      ∀ p ∈ l₂, i < mem.elementIndex p
  | .problem => False

theorem insertLoop_forw (h : ArrayHolds mem a (l₁ ++ x :: l₂)) {fuel : ℕ}
    (hbelow : ∀ p ∈ l₁, mem.elementIndex p < i) (hbound : ∃ p ∈ x :: l₂, i ≤ mem.elementIndex p)
    (hfuel : l₂.length < fuel) :
    ∃ r, a.insertLoop mem i true fuel x = some r ∧ InsertResult mem (l₁ ++ x :: l₂) i r := by
  induction l₂ generalizing l₁ x fuel with
  | nil =>
      obtain ⟨fuel, rfl⟩ := Nat.exists_eq_succ_of_ne_zero (Nat.ne_of_gt hfuel)
      obtain ⟨p, hp, hge⟩ := hbound
      obtain rfl := List.mem_singleton.mp hp
      have hmem : p ∈ l₁ ++ [p] := List.mem_append_right _ (List.mem_singleton_self p)
      unfold insertLoop
      rw [if_neg (h.ne_head hmem)]
      by_cases hfound : mem.elementIndex p = i
      · rw [if_pos hfound]
        exact ⟨_, rfl, hmem, hfound⟩
      · have hgt : i < mem.elementIndex p := by omega
        rw [if_neg hfound, if_pos ⟨rfl, hgt⟩]
        exact ⟨_, rfl, l₁, [], rfl, hbelow, List.forall_mem_singleton.mpr hgt⟩
  | cons y l₃ ih =>
      obtain ⟨fuel, rfl⟩ := Nat.exists_eq_succ_of_ne_zero
        (Nat.ne_of_gt (Nat.lt_of_le_of_lt (Nat.zero_le _) hfuel))
      have hmem : x ∈ l₁ ++ x :: y :: l₃ := List.mem_append_right _ List.mem_cons_self
      unfold insertLoop
      rw [if_neg (h.ne_head hmem)]
      by_cases hfound : mem.elementIndex x = i
      · rw [if_pos hfound]
        exact ⟨_, rfl, hmem, hfound⟩
      · rw [if_neg hfound]
        by_cases hgt : i < mem.elementIndex x
        · rw [if_pos ⟨rfl, hgt⟩]
          refine ⟨_, rfl, l₁, y :: l₃, rfl, hbelow, fun p hp => ?_⟩
          rcases List.mem_cons.mp hp with rfl | hp
          · exact hgt
          · exact Int.lt_trans hgt (h.index_lt.2 p hp)
        · rw [if_neg (fun hbad => hgt hbad.2), if_neg (fun hbad => Bool.false_ne_true hbad.1),
            if_pos rfl, h.elementForw_at, List.headD_cons]
          have h' : ArrayHolds mem a ((l₁ ++ [x]) ++ y :: l₃) := by
            rw [List.append_assoc]
            exact h
          have hbelow' : ∀ p ∈ l₁ ++ [x], mem.elementIndex p < i := by
            intro p hp
            rcases List.mem_append.mp hp with hp | hp
            · exact hbelow p hp
            · obtain rfl := List.mem_singleton.mp hp
              omega
          have hbound' : ∃ p ∈ y :: l₃, i ≤ mem.elementIndex p := by
            obtain ⟨p, hp, hge⟩ := hbound
            rcases List.mem_cons.mp hp with rfl | hp
            · omega
            · exact ⟨p, hp, hge⟩
          obtain ⟨r, hr, hresult⟩ := ih h' hbelow' hbound' (Nat.lt_of_succ_lt_succ hfuel)
          rw [List.append_assoc] at hresult
          exact ⟨r, hr, hresult⟩

theorem insertLoop_back (h : ArrayHolds mem a (l₁ ++ x :: l₂)) {fuel : ℕ}
    (habove : ∀ p ∈ l₂, i < mem.elementIndex p) (hbound : ∃ p ∈ l₁ ++ [x], mem.elementIndex p ≤ i)
    (hfuel : l₁.length < fuel) :
    ∃ r, a.insertLoop mem i false fuel x = some r ∧ InsertResult mem (l₁ ++ x :: l₂) i r := by
  induction l₁ using List.reverseRecOn generalizing x l₂ fuel with
  | nil =>
      obtain ⟨fuel, rfl⟩ := Nat.exists_eq_succ_of_ne_zero (Nat.ne_of_gt hfuel)
      obtain ⟨p, hp, hle⟩ := hbound
      obtain rfl := List.mem_singleton.mp hp
      have hmem : p ∈ [] ++ p :: l₂ := List.mem_cons_self
      unfold insertLoop
      rw [if_neg (h.ne_head hmem)]
      by_cases hfound : mem.elementIndex p = i
      · rw [if_pos hfound]
        exact ⟨_, rfl, hmem, hfound⟩
      · have hlt : mem.elementIndex p < i := by omega
        rw [if_neg hfound, if_neg (fun hbad => Bool.false_ne_true hbad.1), if_pos ⟨rfl, hlt⟩]
        exact ⟨_, rfl, [], l₂, rfl, List.forall_mem_singleton.mpr hlt, habove⟩
  | append_singleton l₃ y ih =>
      obtain ⟨fuel, rfl⟩ := Nat.exists_eq_succ_of_ne_zero
        (Nat.ne_of_gt (Nat.lt_of_le_of_lt (Nat.zero_le _) hfuel))
      have hmem : x ∈ l₃ ++ [y] ++ x :: l₂ := List.mem_append_right _ List.mem_cons_self
      unfold insertLoop
      rw [if_neg (h.ne_head hmem)]
      by_cases hfound : mem.elementIndex x = i
      · rw [if_pos hfound]
        exact ⟨_, rfl, hmem, hfound⟩
      · rw [if_neg hfound, if_neg (fun hbad => Bool.false_ne_true hbad.1)]
        by_cases hlt : mem.elementIndex x < i
        · rw [if_pos ⟨rfl, hlt⟩]
          refine ⟨_, rfl, l₃ ++ [y], l₂, rfl, fun p hp => ?_, habove⟩
          rcases List.mem_append.mp hp with hp | hp
          · exact Int.lt_trans (h.index_lt.1 p hp) hlt
          · obtain rfl := List.mem_singleton.mp hp
            exact hlt
        · rw [if_neg (fun hbad => hlt hbad.2), if_neg Bool.false_ne_true, h.elementBack_at,
            List.getLastD_concat]
          rw [List.append_assoc] at h ⊢
          have habove' : ∀ p ∈ x :: l₂, i < mem.elementIndex p := by
            intro p hp
            rcases List.mem_cons.mp hp with rfl | hp
            · omega
            · exact habove p hp
          have hbound' : ∃ p ∈ l₃ ++ [y], mem.elementIndex p ≤ i := by
            obtain ⟨p, hp, hle⟩ := hbound
            rcases List.mem_append.mp hp with hp | hp
            · exact ⟨p, hp, hle⟩
            · obtain rfl := List.mem_singleton.mp hp
              omega
          rw [List.length_append, List.length_singleton] at hfuel
          exact ih h habove' hbound' (Nat.lt_of_succ_lt_succ hfuel)

theorem insertPlace_spec (h : ArrayHolds mem a l) (hout : a.outside mem i = false)
    (hempty : a.empty = false) :
    ∃ start forw r, a.searchStart mem i = (start, forw) ∧
      a.insertLoop mem i forw mem.fresh start = some r ∧ InsertResult mem l i r := by
  obtain ⟨l₁, x, l₂, rfl, hlength₁, hlength₂, hstart⟩ := searchStart_spec h hout hempty
  rcases hstart with ⟨hstart, hx, hbound⟩ | ⟨hstart, hx, hbound⟩
  · have hbelow : ∀ p ∈ l₁, mem.elementIndex p < i := fun p hp =>
      Int.lt_of_lt_of_le (h.index_lt.1 p hp) hx
    obtain ⟨r, hr, hresult⟩ := insertLoop_forw h hbelow hbound hlength₂
    exact ⟨x, true, r, hstart, hr, hresult⟩
  · have habove : ∀ p ∈ l₂, i < mem.elementIndex p := fun p hp =>
      Int.lt_trans hx (h.index_lt.2 p hp)
    obtain ⟨r, hr, hresult⟩ := insertLoop_back h habove hbound hlength₁
    exact ⟨x, false, r, hstart, hr, hresult⟩

/-! ## Shifting -/

theorem skipLoop_spec {n k : ℤ} (h : ArrayHolds mem a (l₁ ++ l₂)) {fuel : ℕ}
    (hfuel : l₂.length < fuel) :
    a.skipLoop mem n fuel (l₂.headD a.head) k =
      some ((l₂.drop (n - k).toNat).headD a.head) := by
  induction l₂ generalizing l₁ k fuel with
  | nil =>
      obtain ⟨fuel, rfl⟩ := Nat.exists_eq_succ_of_ne_zero (Nat.ne_of_gt hfuel)
      unfold skipLoop
      rw [if_neg (fun hbad => hbad.1 rfl), List.drop_nil]
  | cons y l₃ ih =>
      obtain ⟨fuel, rfl⟩ := Nat.exists_eq_succ_of_ne_zero
        (Nat.ne_of_gt (Nat.lt_of_le_of_lt (Nat.zero_le _) hfuel))
      have hmem : y ∈ l₁ ++ y :: l₃ := List.mem_append_right _ List.mem_cons_self
      unfold skipLoop
      rw [List.headD_cons]
      by_cases hk : k < n
      · have h' : ArrayHolds mem a ((l₁ ++ [y]) ++ l₃) := by
          rw [List.append_assoc]
          exact h
        have hcount : (n - k).toNat = (n - (k + 1)).toNat + 1 := by omega
        rw [if_pos ⟨h.ne_head hmem, hk⟩, h.elementForw_at, ih h' (Nat.lt_of_succ_lt_succ hfuel),
          hcount, List.drop_succ_cons]
      · have hcount : (n - k).toNat = 0 := by omega
        rw [if_neg (fun hbad => hk hbad.2), hcount, List.drop_zero, List.headD_cons]

theorem lastLoop_spec (h : ArrayHolds mem a (l₁ ++ x :: l₂)) {fuel : ℕ}
    (hfuel : l₂.length < fuel) : a.lastLoop mem fuel x = some (l₂.getLastD x) := by
  induction l₂ generalizing l₁ x fuel with
  | nil =>
      obtain ⟨fuel, rfl⟩ := Nat.exists_eq_succ_of_ne_zero (Nat.ne_of_gt hfuel)
      unfold lastLoop
      rw [h.elementForw_at, List.headD_nil, if_neg (fun hbad => hbad rfl), List.getLastD_nil]
  | cons y l₃ ih =>
      obtain ⟨fuel, rfl⟩ := Nat.exists_eq_succ_of_ne_zero
        (Nat.ne_of_gt (Nat.lt_of_le_of_lt (Nat.zero_le _) hfuel))
      have h' : ArrayHolds mem a ((l₁ ++ [x]) ++ y :: l₃) := by
        rw [List.append_assoc]
        exact h
      have hne : y ≠ a.head :=
        h.ne_head (List.mem_append_right _ (List.mem_cons_of_mem _ List.mem_cons_self))
      unfold lastLoop
      rw [h.elementForw_at, List.headD_cons, if_pos hne, ih h' (Nat.lt_of_succ_lt_succ hfuel),
        List.getLastD_cons]

/-- The elements of the list have new indices, and nothing else has changed. -/
structure Renumbered (mem mem' : ArrayMemory) (n : ℤ) (l : List ℕ) : Prop where
  next : ∀ x, (mem'.cells x).next = (mem.cells x).next
  prev : ∀ x, (mem'.cells x).prev = (mem.cells x).prev
  value : ∀ x, mem'.elementValue x = mem.elementValue x
  index : ∀ x, mem'.elementIndex x =
    if x ∈ l then wrapArrayind (mem.elementIndex x + n) else mem.elementIndex x
  fresh : mem'.fresh = mem.fresh

theorem renumberLoop_spec {n : ℤ} (h : Cells.Ring mem.cells a.head (l₁ ++ l₂)) {fuel : ℕ}
    (hfuel : l₂.length < fuel) :
    ∃ mem', a.renumberLoop n fuel (l₂.headD a.head) mem = some mem' ∧
      Renumbered mem mem' n l₂ := by
  induction l₂ generalizing l₁ mem fuel with
  | nil =>
      obtain ⟨fuel, rfl⟩ := Nat.exists_eq_succ_of_ne_zero (Nat.ne_of_gt hfuel)
      unfold renumberLoop
      rw [List.headD_nil, if_neg (fun hbad => hbad rfl)]
      exact ⟨mem, rfl, fun _ => rfl, fun _ => rfl, fun _ => rfl, fun _ => rfl, rfl⟩
  | cons y l₃ ih =>
      obtain ⟨fuel, rfl⟩ := Nat.exists_eq_succ_of_ne_zero
        (Nat.ne_of_gt (Nat.lt_of_le_of_lt (Nat.zero_le _) hfuel))
      have hnodup := h.nodup
      have hne : y ≠ a.head := by
        rintro rfl
        exact (List.nodup_cons.mp hnodup).1 (List.mem_append_right _ List.mem_cons_self)
      have hlast : y ∉ l₃ := by
        have htail := (List.nodup_append.mp (List.nodup_cons.mp hnodup).2).2.1
        exact (List.nodup_cons.mp htail).1
      have hring : Cells.Ring (mem.setIndex y (wrapArrayind (mem.elementIndex y + n))).cells
          a.head ((l₁ ++ [y]) ++ l₃) := by
        rw [List.append_assoc]
        exact h.frame (fun x _ => by simp [setIndex]) (fun x _ => by simp [setIndex])
      obtain ⟨mem', hloop, hrest⟩ := ih hring (Nat.lt_of_succ_lt_succ hfuel)
      have hforw : (mem.setIndex y (wrapArrayind (mem.elementIndex y + n))).elementForw y =
          l₃.headD a.head := by
        have hnext := h.next_at
        unfold elementForw setIndex
        rw [Cells.next_setData]
        exact hnext
      unfold renumberLoop
      rw [List.headD_cons, if_pos hne]
      dsimp only
      rw [hforw]
      refine ⟨mem', hloop, ?_, ?_, ?_, ?_, hrest.fresh⟩
      · intro x
        rw [hrest.next]
        simp [setIndex]
      · intro x
        rw [hrest.prev]
        simp [setIndex]
      · intro x
        rw [hrest.value]
        unfold elementValue setIndex
        rw [Cells.data_setData]
        split_ifs with hx
        · rw [hx]
          rfl
        · rfl
      · intro x
        rw [hrest.index]
        unfold elementIndex setIndex
        rw [Cells.data_setData]
        by_cases hx : x = y
        · subst hx
          rw [if_neg hlast, if_pos rfl, if_pos List.mem_cons_self]
        · rw [if_neg hx]
          by_cases hmem : x ∈ l₃
          · rw [if_pos hmem, if_pos (List.mem_cons_of_mem _ hmem)]
          · rw [if_neg hmem, if_neg (fun hbad => (List.mem_cons.mp hbad).elim hx hmem)]

/-! ## Copying -/

/-- The part of a copy that there is: the counters are those of the whole copy from the start. -/
def PartHolds (mem : ArrayMemory) (a1 : IndexedArray) (l : List ℕ) : Prop :=
  ∃ m c, ArrayHolds mem { a1 with maxIndex := m, numElements := c } l

theorem PartHolds.setCache {a1 : IndexedArray} {c : ℕ} (h : PartHolds mem a1 l) (hc : c ∈ l) :
    PartHolds mem { a1 with lastref := c } l := by
  obtain ⟨m, n, h⟩ := h
  exact ⟨m, n, h.setCache (.inr hc)⟩

/-- One element is copied to the end of the copy. -/
theorem copyStep {a1 : IndexedArray} {l' : List ℕ} (h : ArrayHolds mem a l)
    (hpart : PartHolds mem a1 l') (hapart : ∀ p ∈ a1.head :: l', p ∉ a.head :: l) (hy : y ∈ l)
    (hlast : ∀ p ∈ l', mem.elementIndex p < mem.elementIndex y)
    (hmem : mem' = (mem.createElement (mem.elementIndex y) (mem.elementValue y)).2.addBefore
      a1.head mem.fresh) :
    ArrayHolds mem' a l ∧ PartHolds mem' a1 (l' ++ [mem.fresh]) ∧
      (∀ p, p ≠ mem.fresh → (mem'.cells p).data = (mem.cells p).data) ∧
      (mem'.cells mem.fresh).data = (mem.cells y).data ∧
      ∀ p ∈ a.head :: l, mem'.elementForw p = mem.elementForw p := by
  obtain ⟨m, c, hpart⟩ := hpart
  have hnew := hpart.fresh_notMem
  have hlist : l' = l' ++ [] := (List.append_nil l').symm
  have hcreated := hpart.createElement (mem.elementIndex y) (mem.elementValue y)
  rw [hlist] at hcreated
  have hlink : (mem.createElement (mem.elementIndex y) (mem.elementValue y)).2.cells.Linked
      (l'.getLastD a1.head) a1.head := hcreated.ring.split.2.2
  have hends : mem.fresh ≠ l'.getLastD a1.head ∧ mem.fresh ≠ a1.head := by
    constructor
    · intro hbad
      apply hnew
      rw [hbad]
      exact List.getLastD_mem_cons
    · intro hbad
      apply hnew
      rw [hbad]
      exact List.mem_cons_self
  have hsplice := addBefore_spliced hlink hends.1 hends.2
  rw [← hmem] at hsplice
  have hdata : ∀ p, p ≠ mem.fresh → (mem'.cells p).data = (mem.cells p).data := by
    intro p hp
    rw [hsplice.data, cells_createElement hp]
  have hsame : ∀ p ∈ a.head :: l, p ≠ mem.fresh ∧ p ≠ l'.getLastD a1.head ∧ p ≠ a1.head := by
    intro p hp
    refine ⟨?_, ?_, ?_⟩
    · rintro rfl
      exact h.fresh_notMem hp
    · rintro rfl
      exact hapart _ List.getLastD_mem_cons hp
    · rintro rfl
      exact hapart _ List.mem_cons_self hp
  have hindex : (mem.createElement (mem.elementIndex y) (mem.elementValue y)).2.elementIndex
      mem.fresh = mem.elementIndex y := by
    unfold elementIndex
    rw [data_createElement]
  have hforw : ∀ p ∈ a.head :: l, (mem'.cells p).next = (mem.cells p).next := by
    intro p hp
    obtain ⟨hfresh, hend, -⟩ := hsame p hp
    rw [hsplice.next p hend hfresh, cells_createElement hfresh]
  refine ⟨?_, ?_, hdata, ?_, hforw⟩
  · refine h.frame ?_ hforw (fun p hp => ?_) (fun p hp => ?_)
    · rw [hsplice.fresh]
      exact Nat.le_succ _
    · obtain ⟨hfresh, -, hhead⟩ := hsame p hp
      rw [hsplice.prev p hhead hfresh, cells_createElement hfresh]
    · unfold elementIndex
      rw [hdata p (hsame p hp).1]
  · refine ⟨_, _, (hcreated.splice ?_ ?_ ?_ ?_ ?_ hsplice).setCache ?_⟩
    · rw [List.append_nil]
      exact hnew
    · exact ⟨Nat.lt_trans (h.inUse _ List.mem_cons_self).1 (h.inUse _ List.mem_cons_self).2,
        Nat.lt_succ_self _⟩
    · rw [hindex]
      exact h.inRange y hy
    · intro p hp
      rw [hindex, elementIndex_createElement]
      · exact hlast p hp
      · rintro rfl
        exact hnew (List.mem_cons_of_mem _ hp)
    · intro p hp
      cases hp
    · rcases hpart.cache with hcache | hcache
      · exact .inl hcache
      · exact .inr (List.mem_append_left _ hcache)
  · rw [hsplice.data, data_createElement]
    rfl

theorem copyLoop_spec {a1 : IndexedArray} {l' : List ℕ} {fuel : ℕ}
    (h : ArrayHolds mem a (l₁ ++ l₂)) (hpart : PartHolds mem a1 l')
    (hdata : l'.map (fun p => (mem.cells p).data) = l₁.map fun p => (mem.cells p).data)
    (hapart : ∀ p ∈ a1.head :: l', p ∉ a.head :: (l₁ ++ l₂)) (hfuel : l₂.length < fuel) :
    ∃ a2 mem' l'', a.copyLoop fuel (l₂.headD a.head) a1 mem = some (a2, mem') ∧
      PartHolds mem' a2 l'' ∧ a2.maxIndex = a1.maxIndex ∧ a2.numElements = a1.numElements ∧
      ArrayHolds mem' a (l₁ ++ l₂) ∧
      (∀ p ∈ l₁ ++ l₂, (mem'.cells p).data = (mem.cells p).data) ∧
      l''.map (fun p => (mem'.cells p).data) = (l₁ ++ l₂).map fun p => (mem.cells p).data := by
  induction l₂ generalizing l₁ mem a1 l' fuel with
  | nil =>
      obtain ⟨fuel, rfl⟩ := Nat.exists_eq_succ_of_ne_zero (Nat.ne_of_gt hfuel)
      unfold copyLoop
      rw [List.headD_nil, if_pos rfl]
      refine ⟨a1, mem, l', rfl, hpart, rfl, rfl, h, fun _ _ => rfl, ?_⟩
      rw [List.append_nil]
      exact hdata
  | cons y l₃ ih =>
      obtain ⟨fuel, rfl⟩ := Nat.exists_eq_succ_of_ne_zero
        (Nat.ne_of_gt (Nat.lt_of_le_of_lt (Nat.zero_le _) hfuel))
      have hmem : y ∈ l₁ ++ y :: l₃ := List.mem_append_right _ List.mem_cons_self
      have hlast : ∀ p ∈ l', mem.elementIndex p < mem.elementIndex y := by
        intro p hp
        have hcopied : (mem.cells p).data ∈ l₁.map fun p => (mem.cells p).data := by
          rw [← hdata]
          exact List.mem_map_of_mem hp
        obtain ⟨q, hq, heq⟩ := List.mem_map.mp hcopied
        have hlt := h.index_lt.1 q hq
        unfold elementIndex at hlt ⊢
        rw [← heq]
        exact hlt
      unfold copyLoop
      rw [List.headD_cons, if_neg (h.ne_head hmem)]
      dsimp only
      have hfresh : (mem.createElement (mem.elementIndex y) (mem.elementValue y)).1 = mem.fresh :=
        rfl
      rw [hfresh]
      generalize hnew : (mem.createElement (mem.elementIndex y) (mem.elementValue y)).2.addBefore
        a1.head mem.fresh = mem₁
      obtain ⟨h₁, hpart₁, hkept, hcopied, hforw⟩ :=
        copyStep h hpart hapart hmem hlast hnew.symm
      generalize hcache : (if y = a.lastrefOr mem₁ then { a1 with lastref := mem.fresh } else a1) = a1'
      have hhead : a1'.head = a1.head ∧ a1'.maxIndex = a1.maxIndex ∧
          a1'.numElements = a1.numElements := by
        rw [← hcache]
        split_ifs <;> exact ⟨rfl, rfl, rfl⟩
      have hpart' : PartHolds mem₁ a1' (l' ++ [mem.fresh]) := by
        rw [← hcache]
        split_ifs
        · exact hpart₁.setCache (List.mem_append_right _ (List.mem_singleton_self _))
        · exact hpart₁
      have hcopy : ∀ p ∈ l', p ≠ mem.fresh := by
        rintro p hp rfl
        obtain ⟨m, c, hpart⟩ := hpart
        exact hpart.fresh_notMem (List.mem_cons_of_mem _ hp)
      have horiginal : ∀ p ∈ l₁ ++ y :: l₃, (mem₁.cells p).data = (mem.cells p).data := by
        intro p hp
        apply hkept p
        rintro rfl
        exact h.fresh_notMem (List.mem_cons_of_mem _ hp)
      have hdata' : (l' ++ [mem.fresh]).map (fun p => (mem₁.cells p).data) =
          (l₁ ++ [y]).map fun p => (mem₁.cells p).data := by
        rw [List.map_append, List.map_append, List.map_singleton, List.map_singleton, hcopied,
          horiginal y hmem]
        apply congrArg (· ++ _)
        calc l'.map (fun p => (mem₁.cells p).data)
            = l'.map fun p => (mem.cells p).data :=
              List.map_congr_left fun p hp => hkept p (hcopy p hp)
          _ = l₁.map fun p => (mem.cells p).data := hdata
          _ = l₁.map fun p => (mem₁.cells p).data :=
              List.map_congr_left fun p hp => (horiginal p (List.mem_append_left _ hp)).symm
      have h₁' : ArrayHolds mem₁ a ((l₁ ++ [y]) ++ l₃) := by
        rw [List.append_assoc]
        exact h₁
      have hapart' : ∀ p ∈ a1'.head :: (l' ++ [mem.fresh]), p ∉ a.head :: ((l₁ ++ [y]) ++ l₃) := by
        rw [hhead.1, List.append_assoc]
        intro p hp
        rw [← List.cons_append, List.mem_append] at hp
        rcases hp with hp | hp
        · exact hapart p hp
        · obtain rfl := List.mem_singleton.mp hp
          exact h.fresh_notMem
      obtain ⟨a2, mem₂, l'', hloop, hpart₂, hmax, hcount, h₂, hkept₂, hdata₂⟩ :=
        ih h₁' hpart' hdata' hapart' (Nat.lt_of_succ_lt_succ hfuel)
      rw [List.append_assoc] at h₂ hkept₂ hdata₂
      rw [h₁.elementForw_at]
      refine ⟨a2, mem₂, l'', hloop, hpart₂, hmax.trans hhead.2.1, hcount.trans hhead.2.2, h₂, ?_, ?_⟩
      · intro p hp
        exact (hkept₂ p hp).trans (horiginal p hp)
      · exact hdata₂.trans (List.map_congr_left horiginal)

end IndexedArray

end Rash
