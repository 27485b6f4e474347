import Mathlib.Data.List.Basic
import Mathlib.Data.List.Nodup

/-!
# Doubly linked chains

The chain of a list of cells, which hold their neighbours in it.  It ends at a cell that has no
next one.
-/

namespace LinkedChain

variable {ι : Type*}

/-- From `start` the cells of `l` follow each other, and each holds the one before it, which
is `before` for the first. -/
def Linked (next prev : ι → Option ι) : Option ι → Option ι → List ι → Prop
  | _, start, [] => start = none
  | before, start, i :: l => start = some i ∧ prev i = before ∧ Linked next prev (some i) (next i) l

variable {next prev next' prev' : ι → Option ι} {before start : Option ι} {l : List ι} {i j : ι}

namespace Linked

theorem start_mem (h : Linked next prev before start l) (hstart : start = some i) : i ∈ l := by
  cases l with
  | nil => cases hstart.symm.trans h
  | cons j l =>
      obtain rfl := Option.some.inj (hstart.symm.trans h.1)
      exact List.mem_cons_self

theorem congr (h : Linked next prev before start l)
    (hsame : ∀ i ∈ l, next' i = next i ∧ prev' i = prev i) :
    Linked next' prev' before start l := by
  induction l generalizing before start with
  | nil => exact h
  | cons i l ih =>
      obtain ⟨hnext, hprev⟩ := hsame i List.mem_cons_self
      refine ⟨h.1, hprev.trans h.2.1, ?_⟩
      rw [hnext]
      exact ih h.2.2 fun j hj => hsame j (List.mem_cons_of_mem i hj)

/-- What a cell of the chain holds as the next one is in the chain, behind the first. -/
theorem next_mem (h : Linked next prev before start l) (hi : i ∈ l) (hj : next i = some j) :
    j ∈ l.tail := by
  induction l generalizing before start with
  | nil => cases hi
  | cons k l ih =>
      rcases List.mem_cons.mp hi with rfl | hi
      · exact h.2.2.start_mem hj
      · exact List.mem_of_mem_tail (ih h.2.2 hi)

theorem next_ne_self (h : Linked next prev before start l) (hnodup : l.Nodup) (hi : i ∈ l) :
    next i ≠ some i := by
  induction l generalizing before start with
  | nil => cases hi
  | cons k l ih =>
      obtain ⟨hk, hl⟩ := List.nodup_cons.mp hnodup
      rcases List.mem_cons.mp hi with rfl | hi
      · exact fun hself => hk (h.2.2.start_mem hself)
      · exact ih h.2.2 hl hi

theorem prev_mem (h : Linked next prev before start l) (hi : i ∈ l) (hj : prev i = some j) :
    before = some j ∨ j ∈ l := by
  induction l generalizing before start with
  | nil => cases hi
  | cons k l ih =>
      rcases List.mem_cons.mp hi with rfl | hi
      · exact .inl (h.2.1.symm.trans hj)
      · rcases ih h.2.2 hi with hk | hl
        · exact .inr (Option.some.inj hk ▸ List.mem_cons_self)
        · exact .inr (List.mem_cons_of_mem k hl)

theorem prev_eq_some (h : Linked next prev (some j) start l) (hi : i ∈ l) :
    ∃ k, prev i = some k := by
  induction l generalizing j start with
  | nil => cases hi
  | cons k l ih =>
      rcases List.mem_cons.mp hi with rfl | hi
      · exact ⟨j, h.2.1⟩
      · exact ih h.2.2 hi

/-- Only the first cell holds what is before the chain. -/
theorem start_iff (h : Linked next prev before start l) (hbefore : ∀ j ∈ l, before ≠ some j)
    (hnodup : l.Nodup) (hi : i ∈ l) : start = some i ↔ prev i = before := by
  cases l with
  | nil => cases hi
  | cons k l =>
      have hk := (List.nodup_cons.mp hnodup).1
      constructor
      · intro hstart
        obtain rfl := Option.some.inj (hstart.symm.trans h.1)
        exact h.2.1
      · intro hprev
        rcases List.mem_cons.mp hi with rfl | hi
        · exact h.1
        · exfalso
          cases before with
          | none =>
              obtain ⟨j, hj⟩ := h.2.2.prev_eq_some hi
              cases hj.symm.trans hprev
          | some j =>
              rcases h.2.2.prev_mem hi hprev with hkj | hj
              · exact hbefore k List.mem_cons_self (by rw [hkj])
              · exact hbefore j (List.mem_cons_of_mem k hj) rfl

/-- A cell is taken out of the chain when its neighbours are made each other's. -/
theorem erase [DecidableEq ι] {psi : ι} (h : Linked next prev before start l)
    (hbefore : ∀ j ∈ l, before ≠ some j) (hnodup : l.Nodup) (hpsi : psi ∈ l)
    (hnext : ∀ i ∈ l, i ≠ psi → next' i = if prev psi = some i then next psi else next i)
    (hprev : ∀ i ∈ l, i ≠ psi → prev' i = if next psi = some i then prev psi else prev i) :
    Linked next' prev' before (if start = some psi then next psi else start) (l.erase psi) := by
  induction l generalizing before start with
  | nil => cases hpsi
  | cons i l ih =>
      obtain ⟨hi, hl⟩ := List.nodup_cons.mp hnodup
      obtain ⟨hstart, hfirst, hrest⟩ := h
      by_cases heq : i = psi
      · subst heq
        rw [if_pos hstart, List.erase_cons_head]
        cases l with
        | nil => exact hrest
        | cons j l =>
            have hj : j ≠ i := fun hji => hi (hji ▸ List.mem_cons_self)
            refine ⟨hrest.1, ?_, ?_⟩
            · rw [hprev j (by simp) hj, if_pos hrest.1, hfirst]
            · have hback : ∀ k ∈ j :: l, next' k = next k := fun k hk => by
                rw [hnext k (List.mem_cons_of_mem i hk) fun hki => hi (hki ▸ hk), hfirst,
                  if_neg (hbefore k (List.mem_cons_of_mem i hk))]
              rw [hback j List.mem_cons_self]
              refine hrest.2.2.congr fun k hk => ⟨hback k (List.mem_cons_of_mem j hk), ?_⟩
              rw [hprev k (by simp [hk]) fun hki => hi (hki ▸ List.mem_cons_of_mem j hk), hrest.1,
                if_neg fun hjk => ?_]
              exact (List.nodup_cons.mp hl).1 (Option.some.inj hjk ▸ hk)
      · have hpsi' : psi ∈ l := (List.mem_cons.mp hpsi).resolve_left fun hpi => heq hpi.symm
        have hbefore' : ∀ j ∈ l, some i ≠ some j := fun j hj hij => hi (Option.some.inj hij ▸ hj)
        rw [if_neg (by rw [hstart]; exact fun h => heq (Option.some.inj h)),
          List.erase_cons_tail (by simpa using heq)]
        refine ⟨hstart, ?_, ?_⟩
        · rw [hprev i List.mem_cons_self heq, if_neg fun hnextpsi => ?_, hfirst]
          exact hi (List.mem_of_mem_tail (hrest.next_mem hpsi' hnextpsi))
        · rw [hnext i List.mem_cons_self heq,
            ← ite_congr (propext (hrest.start_iff hbefore' hl hpsi')) (fun _ => rfl) fun _ => rfl]
          exact ih hrest hbefore' hl hpsi'
            (fun k hk => hnext k (List.mem_cons_of_mem i hk))
            fun k hk => hprev k (List.mem_cons_of_mem i hk)

/-- A cell is put in front. -/
theorem push [DecidableEq ι] {psi : ι} (h : Linked next prev none start l) (hpsi : psi ∉ l)
    (hfirst : next' psi = start ∧ prev' psi = none) (hnodup : l.Nodup)
    (hnext : ∀ i ∈ l, next' i = next i)
    (hprev : ∀ i ∈ l, prev' i = if start = some i then some psi else prev i) :
    Linked next' prev' none (some psi) (psi :: l) := by
  refine ⟨rfl, hfirst.2, ?_⟩
  rw [hfirst.1]
  cases l with
  | nil => exact h
  | cons i l =>
      refine ⟨h.1, by rw [hprev i List.mem_cons_self, if_pos h.1], ?_⟩
      rw [hnext i List.mem_cons_self]
      refine h.2.2.congr fun k hk => ⟨hnext k (List.mem_cons_of_mem i hk), ?_⟩
      rw [hprev k (List.mem_cons_of_mem i hk), if_neg fun hstart => ?_]
      obtain rfl := Option.some.inj (h.1.symm.trans hstart)
      exact (List.nodup_cons.mp hnodup).1 hk

end Linked

end LinkedChain
