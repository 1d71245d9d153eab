import Mathlib.Data.List.Basic

/-!
# Searches for an index

A search goes up from a start to the first index with a property, or down to the last one, and
returns the end of the range when there is none. A part of the range without such an index can
be skipped.

* `NextIndex`, `LastIndex` — what the searches return;
* `indicesFrom` — the indices that a search visits when it goes on behind each of them.
-/

namespace Lvisor

/-- The first index with `p` from `start` on and below `size`, or `size`. -/
inductive NextIndex (p : ℕ → Prop) (start size : ℕ) : ℕ → Prop
  | found {i : ℕ} (hle : start ≤ i) (hlt : i < size) (hi : p i)
      (hbefore : ∀ j, start ≤ j → j < i → ¬p j) : NextIndex p start size i
  | none (hnone : ∀ j, start ≤ j → j < size → ¬p j) : NextIndex p start size size

/-- The last index with `p` below `size`, or `size`. -/
inductive LastIndex (p : ℕ → Prop) (size : ℕ) : ℕ → Prop
  | found {i : ℕ} (hlt : i < size) (hi : p i) (hafter : ∀ j, i < j → j < size → ¬p j) :
      LastIndex p size i
  | none (hnone : ∀ j < size, ¬p j) : LastIndex p size size

section Next

variable {p q : ℕ → Prop} {start mid size r i : ℕ}

/-- The search may start later when nothing is before. -/
theorem NextIndex.skip (h : NextIndex p mid size r) (hle : start ≤ mid)
    (hskip : ∀ j, start ≤ j → j < mid → ¬p j) : NextIndex p start size r := by
  cases h with
  | found hmid hlt hi hbefore =>
    refine .found (Nat.le_trans hle hmid) hlt hi fun j hj hjr => ?_
    rcases Nat.lt_or_ge j mid with hjm | hjm
    · exact hskip j hj hjm
    · exact hbefore j hjm hjr
  | none hnone =>
    refine .none fun j hj hjs => ?_
    rcases Nat.lt_or_ge j mid with hjm | hjm
    · exact hskip j hj hjm
    · exact hnone j hjm hjs

/-- Nothing is found from the end on. -/
theorem NextIndex.of_ge (h : size ≤ start) : NextIndex p start size size :=
  .none fun _ hj hjs => absurd (Nat.lt_of_le_of_lt hj hjs) (Nat.not_lt.mpr h)

theorem NextIndex.congr (h : NextIndex p start size r) (hpq : ∀ i < size, (p i ↔ q i)) :
    NextIndex q start size r := by
  cases h with
  | found hle hlt hi hbefore =>
    exact .found hle hlt ((hpq _ hlt).mp hi) fun j hj hjr =>
      mt (hpq j (Nat.lt_trans hjr hlt)).mpr (hbefore j hj hjr)
  | none hnone => exact .none fun j hj hjs => mt (hpq j hjs).mpr (hnone j hj hjs)

/-- A search has one result. -/
theorem NextIndex.unique {r' : ℕ} (h : NextIndex p start size r)
    (h' : NextIndex p start size r') : r = r' := by
  cases h with
  | found hle hlt hi hbefore =>
    cases h' with
    | found hle' hlt' hi' hbefore' =>
      rcases Nat.lt_trichotomy r r' with hless | heq | hmore
      · exact absurd hi (hbefore' r hle hless)
      · exact heq
      · exact absurd hi' (hbefore r' hle' hmore)
    | none hnone => exact absurd hi (hnone r hle hlt)
  | none hnone =>
    cases h' with
    | found hle' hlt' hi' _ => exact absurd hi' (hnone r' hle' hlt')
    | none _ => rfl

theorem NextIndex.le (h : NextIndex p start size r) : r ≤ size := by
  cases h with
  | found _ hlt _ _ => exact Nat.le_of_lt hlt
  | none _ => exact Nat.le_refl _

/-- The result is behind the start. -/
theorem NextIndex.ge (h : NextIndex p start size r) (hstart : start ≤ size) : start ≤ r := by
  cases h with
  | found hle _ _ _ => exact hle
  | none _ => exact hstart

/-- A search that ends at the end has found nothing. -/
theorem NextIndex.not_of_end (h : NextIndex p start size r) (hr : ¬r < size) :
    ∀ j, start ≤ j → j < size → ¬p j := by
  cases h with
  | found _ hlt _ _ => exact absurd hlt hr
  | none hnone => exact hnone

variable [DecidablePred p] [DecidablePred q]

/-- The indices with `p` from `start` on and below `size`, in order. -/
def indicesFrom (p : ℕ → Prop) [DecidablePred p] (start size : ℕ) : List ℕ :=
  (List.range' start (size - start)).filter fun i => p i

theorem mem_indicesFrom : i ∈ indicesFrom p start size ↔ start ≤ i ∧ i < size ∧ p i := by
  rw [indicesFrom, List.mem_filter, List.mem_range'_1, decide_eq_true_iff, ← and_assoc]
  exact and_congr_left fun _ => by omega

theorem indicesFrom_congr (h : ∀ i, start ≤ i → i < size → (p i ↔ q i)) :
    indicesFrom p start size = indicesFrom q start size := by
  refine List.filter_congr fun i hi => decide_eq_decide.mpr ?_
  rw [List.mem_range'_1] at hi
  exact h i hi.1 (by omega)

/-- What a search finds comes first, and the others are behind it. -/
theorem NextIndex.indicesFrom_eq_cons (h : NextIndex p start size r) (hr : r < size) :
    indicesFrom p start size = r :: indicesFrom p (r + 1) size := by
  cases h with
  | none _ => exact absurd hr (Nat.lt_irrefl size)
  | found hle hlt hi hbefore =>
    have hsplit : size - start = (r - start) + (1 + (size - (r + 1))) := by omega
    have hmid : start + (r - start) = r := by omega
    have hnone : (List.range' start (r - start)).filter (fun i => p i) = [] := by
      refine List.filter_eq_nil_iff.mpr fun j hj => ?_
      rw [List.mem_range'_1] at hj
      rw [decide_eq_true_iff]
      exact hbefore j hj.1 (by omega)
    unfold indicesFrom
    rw [hsplit, ← List.range'_append_1, hmid, ← List.range'_append_1, List.filter_append, hnone,
      List.nil_append, List.filter_append, List.range'_one, List.filter_singleton,
      decide_eq_true hi]
    rfl

/-- A search that finds nothing ends the visit. -/
theorem NextIndex.indicesFrom_eq_nil (h : NextIndex p start size r) (hr : ¬r < size) :
    indicesFrom p start size = [] := by
  refine List.eq_nil_iff_forall_not_mem.mpr fun i hi => ?_
  obtain ⟨hle, hlt, hpi⟩ := mem_indicesFrom.mp hi
  exact h.not_of_end hr i hle hlt hpi

end Next

end Lvisor
