import Mathlib.Data.List.Nodup
import Mathlib.Logic.Equiv.Basic

/-!
# Heapsort on an indexed family

Heapsort of the first `n` elements of `a : ℕ → α` under a comparison
`cmp : α → α → ℤ` in the C convention (negative, zero, positive). The loops are
the usual ones: `sift` moves an element down to its place, `heapify` sifts every
inner node from the last to the first, `extract` moves the root behind the heap
and sifts again.

* `Rearranged n a b` — `b` is `a` with its first `n` elements permuted;
* `HeapFrom cmp lo n a` — every node from `lo` on dominates its children;
* `heapSort_rearranged`, `heapSort_sorted`, `heapSort_pairwise` — the result.
-/

namespace Lvisor

universe u

variable {α : Type u}

/-- A comparison in the C convention that comes from a total preorder. -/
structure IsTotalPreorder (cmp : α → α → ℤ) : Prop where
  neg_iff : ∀ x y, cmp x y < 0 ↔ 0 < cmp y x
  trans : ∀ x y z, cmp x y ≤ 0 → cmp y z ≤ 0 → cmp x z ≤ 0

namespace IsTotalPreorder

variable {cmp : α → α → ℤ} (h : IsTotalPreorder cmp)
include h

theorem flip {x y : α} : 0 ≤ cmp x y ↔ cmp y x ≤ 0 := by
  have := h.neg_iff x y
  omega

theorem refl (x : α) : cmp x x ≤ 0 := by
  have := h.neg_iff x x
  omega

end IsTotalPreorder

/-! ## Rearrangements

Sorting is two statements: the elements are those from before, and they are in order. This is the
first one. Swaps are the only changes, and elements from `n` on are never touched. -/

/-- Exchange the elements at `i` and `j`, which may be the same. -/
def swapAt (a : ℕ → α) (i j : ℕ) : ℕ → α := a ∘ Equiv.swap i j

theorem swapAt_left (a : ℕ → α) (i j : ℕ) : swapAt a i j i = a j :=
  congrArg a (Equiv.swap_apply_left i j)

theorem swapAt_right (a : ℕ → α) (i j : ℕ) : swapAt a i j j = a i :=
  congrArg a (Equiv.swap_apply_right i j)

theorem swapAt_of_ne (a : ℕ → α) {i j k : ℕ} (hi : k ≠ i) (hj : k ≠ j) : swapAt a i j k = a k :=
  congrArg a (Equiv.swap_apply_of_ne_of_ne hi hj)

/-- `b` is `a` with the elements below `n` permuted. -/
def Rearranged (n : ℕ) (a b : ℕ → α) : Prop :=
  ∃ e : Equiv.Perm ℕ, (∀ k, n ≤ k → e k = k) ∧ b = a ∘ e

namespace Rearranged

variable {n m : ℕ} {a b c : ℕ → α}

theorem refl (n : ℕ) (a : ℕ → α) : Rearranged n a a := ⟨Equiv.refl ℕ, fun _ _ => rfl, rfl⟩

theorem trans (h₁ : Rearranged n a b) (h₂ : Rearranged n b c) : Rearranged n a c := by
  obtain ⟨e, he, rfl⟩ := h₁
  obtain ⟨f, hf, rfl⟩ := h₂
  refine ⟨f.trans e, fun k hk => ?_, rfl⟩
  rw [Equiv.trans_apply, hf k hk, he k hk]

theorem mono (hnm : n ≤ m) (h : Rearranged n a b) : Rearranged m a b := by
  obtain ⟨e, he, rfl⟩ := h
  exact ⟨e, fun k hk => he k (Nat.le_trans hnm hk), rfl⟩

theorem swapAt {i j : ℕ} (hi : i < n) (hj : j < n) : Rearranged n a (Lvisor.swapAt a i j) := by
  refine ⟨Equiv.swap i j, fun k hk => ?_, rfl⟩
  exact Equiv.swap_apply_of_ne_of_ne (by omega) (by omega)

/-- Elements from `n` on stay where they are. -/
theorem apply_of_le (h : Rearranged n a b) {k : ℕ} (hk : n ≤ k) : b k = a k := by
  obtain ⟨e, he, rfl⟩ := h
  exact congrArg a (he k hk)

/-- Elements below `n` come from below `n`, so that a bound on those is kept. -/
theorem exists_lt (h : Rearranged n a b) {k : ℕ} (hk : k < n) : ∃ k' < n, b k = a k' := by
  obtain ⟨e, he, rfl⟩ := h
  refine ⟨e k, ?_, rfl⟩
  by_contra hge
  have := e.injective (he (e k) (by omega))
  omega

/-- As lists, the first `n` elements are a permutation. -/
theorem perm (h : Rearranged n a b) : ((List.range n).map b).Perm ((List.range n).map a) := by
  obtain ⟨e, he, rfl⟩ := h
  rw [← List.map_map]
  refine List.Perm.map a ?_
  refine (List.perm_ext_iff_of_nodup (List.nodup_range.map e.injective) List.nodup_range).mpr ?_
  intro k
  rw [List.mem_map, List.mem_range]
  constructor
  · rintro ⟨i, hi, rfl⟩
    by_contra hge
    have := e.injective (he (e i) (by omega))
    have := List.mem_range.mp hi
    omega
  · intro hk
    refine ⟨e.symm k, List.mem_range.mpr ?_, e.apply_symm_apply k⟩
    by_contra hge
    have hfix := he (e.symm k) (by omega)
    rw [e.apply_symm_apply] at hfix
    omega

end Rearranged

/-! ## The loops -/

section Loops

variable (cmp : α → α → ℤ)

/-- The larger child of `r` among the first `n` elements. -/
def largerChild (n r : ℕ) (a : ℕ → α) : ℕ :=
  if 2 * r + 2 < n ∧ cmp (a (2 * r + 1)) (a (2 * r + 2)) < 0 then 2 * r + 2 else 2 * r + 1

/-- Move the element at `r` down until it dominates its children. -/
def sift (n : ℕ) : ℕ → ℕ → (ℕ → α) → ℕ → α
  | 0, _, a => a
  | fuel + 1, r, a =>
    if 2 * r + 1 < n then
      if 0 ≤ cmp (a r) (a (largerChild cmp n r a)) then a
      else sift n fuel (largerChild cmp n r a) (swapAt a r (largerChild cmp n r a))
    else a

/-- Sift the nodes below `k`, the last first, as the first phase does. -/
def heapify (n fuel : ℕ) : ℕ → (ℕ → α) → ℕ → α
  | 0, a => a
  | k + 1, a => heapify n fuel k (sift cmp n fuel k a)

/-- Move the root behind a heap of `k + 1` elements, for `k` down to `1`. -/
def extract (fuel : ℕ) : ℕ → (ℕ → α) → ℕ → α
  | 0, a => a
  | k + 1, a => extract fuel k (sift cmp (k + 1) fuel 0 (swapAt a 0 (k + 1)))

/-- Heapsort of the first `n` elements, as a pure function. -/
def heapSort (n fuel : ℕ) (a : ℕ → α) : ℕ → α :=
  extract cmp fuel (n - 1) (heapify cmp n fuel (n / 2) a)

end Loops

/-! ## The loops rearrange -/

section Rearrange

variable (cmp : α → α → ℤ)

theorem largerChild_lt {n r : ℕ} (a : ℕ → α) (h : 2 * r + 1 < n) :
    largerChild cmp n r a < n := by
  unfold largerChild
  split_ifs with hc
  · exact hc.1
  · exact h

theorem lt_largerChild (n r : ℕ) (a : ℕ → α) : r < largerChild cmp n r a := by
  unfold largerChild
  split_ifs <;> omega

theorem sift_rearranged (n fuel : ℕ) : ∀ (r : ℕ) (a : ℕ → α),
    Rearranged n a (sift cmp n fuel r a) := by
  induction fuel with
  | zero => exact fun r a => Rearranged.refl n a
  | succ fuel ih =>
    intro r a
    rw [sift]
    split_ifs with h hc
    · exact Rearranged.refl n a
    · have hlt := largerChild_lt cmp a h
      have hr := lt_largerChild cmp n r a
      exact (Rearranged.swapAt (by omega) hlt).trans (ih _ _)
    · exact Rearranged.refl n a

theorem heapify_rearranged (n fuel : ℕ) : ∀ (k : ℕ) (a : ℕ → α),
    Rearranged n a (heapify cmp n fuel k a) := by
  intro k
  induction k with
  | zero => exact fun a => Rearranged.refl n a
  | succ k ih => exact fun a => (sift_rearranged cmp n fuel k a).trans (ih _)

theorem extract_rearranged (fuel : ℕ) : ∀ (k : ℕ) (a : ℕ → α),
    Rearranged (k + 1) a (extract cmp fuel k a) := by
  intro k
  induction k with
  | zero => exact fun a => Rearranged.refl 1 a
  | succ k ih =>
    intro a
    have h₁ : Rearranged (k + 2) a (swapAt a 0 (k + 1)) := Rearranged.swapAt (by omega) (by omega)
    have h₂ := (sift_rearranged cmp (k + 1) fuel 0 (swapAt a 0 (k + 1))).mono
      (Nat.le_succ (k + 1))
    exact (h₁.trans h₂).trans ((ih _).mono (Nat.le_succ (k + 1)))

theorem heapSort_rearranged (n fuel : ℕ) (a : ℕ → α) :
    Rearranged n a (heapSort cmp n fuel a) := by
  have h₁ := heapify_rearranged cmp n fuel (n / 2) a
  rcases Nat.eq_zero_or_pos n with rfl | hn
  · exact h₁
  · have h₂ := extract_rearranged cmp fuel (n - 1) (heapify cmp n fuel (n / 2) a)
    rw [Nat.sub_add_cancel hn] at h₂
    exact h₁.trans h₂

end Rearrange

/-! ## The heap property -/

variable {cmp : α → α → ℤ}

/-- `c` is a child of `k` in the binary tree of the indices. -/
def IsChild (k c : ℕ) : Prop := c = 2 * k + 1 ∨ c = 2 * k + 2

/-- The node `k` dominates its children among the first `n` elements. -/
def Dominates (cmp : α → α → ℤ) (n : ℕ) (a : ℕ → α) (k : ℕ) : Prop :=
  ∀ c, IsChild k c → c < n → cmp (a c) (a k) ≤ 0

/-- Every node from `lo` on dominates its children, as far as they are below `n`. -/
def HeapFrom (cmp : α → α → ℤ) (lo n : ℕ) (a : ℕ → α) : Prop :=
  ∀ k, lo ≤ k → Dominates cmp n a k

/-- The same except at `r`, whose children are dominated by its parent. -/
def HeapExcept (cmp : α → α → ℤ) (lo n r : ℕ) (a : ℕ → α) : Prop :=
  (∀ k, lo ≤ k → k ≠ r → Dominates cmp n a k) ∧
    ∀ k, lo ≤ k → IsChild k r → ∀ c, IsChild r c → c < n → cmp (a c) (a k) ≤ 0

theorem isChild_largerChild (cmp : α → α → ℤ) (n r : ℕ) (a : ℕ → α) :
    IsChild r (largerChild cmp n r a) := by
  unfold largerChild IsChild
  split_ifs <;> omega

/-- The larger child dominates both children. -/
theorem le_largerChild (ho : IsTotalPreorder cmp) {n r c : ℕ} {a : ℕ → α} (hc : IsChild r c)
    (hn : c < n) : cmp (a c) (a (largerChild cmp n r a)) ≤ 0 := by
  unfold largerChild
  split_ifs with h
  · rcases hc with rfl | rfl
    · exact Int.le_of_lt h.2
    · exact ho.refl _
  · rcases hc with rfl | rfl
    · exact ho.refl _
    · exact ho.flip.mp (Int.not_lt.mp fun hneg => h ⟨hn, hneg⟩)

/-- One step of `sift` moves the exception to the larger child. -/
theorem HeapExcept.swap (ho : IsTotalPreorder cmp) {lo n r : ℕ} {a : ℕ → α}
    (h : HeapExcept cmp lo n r a) (hlo : lo ≤ r) (hr : 2 * r + 1 < n)
    (hlt : cmp (a r) (a (largerChild cmp n r a)) < 0) :
    HeapExcept cmp lo n (largerChild cmp n r a) (swapAt a r (largerChild cmp n r a)) := by
  have hchild := isChild_largerChild cmp n r a
  have hgt := lt_largerChild cmp n r a
  have hmn := largerChild_lt cmp a hr
  have hbig : ∀ c, IsChild r c → c < n → cmp (a c) (a (largerChild cmp n r a)) ≤ 0 :=
    fun c hc hn => le_largerChild ho hc hn
  generalize largerChild cmp n r a = m at *
  constructor
  · intro k hk hkm c hc hn
    by_cases hkr : k = r
    · subst hkr
      rw [swapAt_left]
      by_cases hcm : c = m
      · subst hcm
        rw [swapAt_right]
        exact Int.le_of_lt hlt
      · rw [swapAt_of_ne a (by rcases hc with rfl | rfl <;> omega) hcm]
        exact hbig c hc hn
    · rw [swapAt_of_ne a hkr hkm]
      have hcm : c ≠ m := by
        rcases hc with rfl | rfl <;> rcases hchild with rfl | rfl <;> omega
      by_cases hcr : c = r
      · subst hcr
        rw [swapAt_left]
        exact h.2 k hk hc m hchild hmn
      · rw [swapAt_of_ne a hcr hcm]
        exact h.1 k hk hkr c hc hn
  · intro k hk hkm c hc hn
    obtain rfl : k = r := by
      rcases hkm with hkm | hkm <;> rcases hchild with hm | hm <;> omega
    rw [swapAt_left, swapAt_of_ne a (by rcases hc with rfl | rfl <;> omega)
      (by rcases hc with rfl | rfl <;> omega)]
    exact h.1 m (by omega) (by omega) c hc hn

/-- **Sift**: with enough fuel the exception is gone. -/
theorem sift_heap (ho : IsTotalPreorder cmp) {lo n : ℕ} (fuel : ℕ) : ∀ {r : ℕ} {a : ℕ → α},
    n ≤ r + fuel → lo ≤ r → HeapExcept cmp lo n r a → HeapFrom cmp lo n (sift cmp n fuel r a) := by
  -- the heap is complete once the exception has no child or dominates them
  have hdone : ∀ {r : ℕ} {a : ℕ → α}, HeapExcept cmp lo n r a → Dominates cmp n a r →
      HeapFrom cmp lo n a := by
    intro r a h hr k hk
    by_cases hkr : k = r
    · exact hkr ▸ hr
    · exact h.1 k hk hkr
  induction fuel with
  | zero =>
    intro r a hfuel hlo h
    refine hdone h fun c hc hn => ?_
    rcases hc with rfl | rfl <;> omega
  | succ fuel ih =>
    intro r a hfuel hlo h
    rw [sift]
    split_ifs with hr hc
    · refine hdone h fun c hchild hn => ?_
      exact ho.trans _ _ _ (le_largerChild ho hchild hn) (ho.flip.mp hc)
    · have hgt := lt_largerChild cmp n r a
      exact ih (by omega) (by omega) (h.swap ho hlo hr (Int.not_le.mp hc))
    · refine hdone h fun c hchild hn => ?_
      rcases hchild with rfl | rfl <;> omega

/-- **Heapify** makes a heap, by induction over the nodes that are sifted. -/
theorem heapify_heap (ho : IsTotalPreorder cmp) {n fuel : ℕ} (hfuel : n ≤ fuel) :
    ∀ (k : ℕ) {a : ℕ → α}, HeapFrom cmp k n a → HeapFrom cmp 0 n (heapify cmp n fuel k a) := by
  intro k
  induction k with
  | zero => exact fun h => h
  | succ k ih =>
    intro a h
    refine ih (sift_heap ho fuel (by omega) (Nat.le_refl _) ⟨fun j hj hjk => h j (by omega), ?_⟩)
    intro j hj hchild
    rcases hchild with h' | h' <;> omega

/-- The root of a heap dominates all elements, by induction over the path up to it. -/
theorem HeapFrom.le_root (ho : IsTotalPreorder cmp) {n : ℕ} {a : ℕ → α}
    (h : HeapFrom cmp 0 n a) : ∀ k < n, cmp (a k) (a 0) ≤ 0 := by
  intro k
  induction k using Nat.strongRecOn with
  | _ k ih =>
    intro hk
    rcases Nat.eq_zero_or_pos k with rfl | hpos
    · exact ho.refl _
    · have hchild : IsChild ((k - 1) / 2) k := by
        unfold IsChild
        omega
      exact ho.trans _ _ _ (h _ (Nat.zero_le _) k hchild hk) (ih _ (by omega) (by omega))

/-- The state of `extract`: the first `k + 1` elements are a heap, the others are in
order and above it. -/
structure Extracted (cmp : α → α → ℤ) (n k : ℕ) (a : ℕ → α) : Prop where
  heap : HeapFrom cmp 0 (k + 1) a
  sorted : ∀ i j, k < i → i ≤ j → j < n → cmp (a i) (a j) ≤ 0
  above : ∀ i j, i ≤ k → k < j → j < n → cmp (a i) (a j) ≤ 0

/-- One round of `extract`: the root goes to the end, and the rest is a heap again. -/
theorem Extracted.step (ho : IsTotalPreorder cmp) {n k fuel : ℕ} {a : ℕ → α}
    (h : Extracted cmp n (k + 1) a) (hfuel : k + 1 ≤ fuel) :
    Extracted cmp n k (sift cmp (k + 1) fuel 0 (swapAt a 0 (k + 1))) := by
  have hroot := h.heap.le_root ho
  have hre := sift_rearranged cmp (k + 1) fuel 0 (swapAt a 0 (k + 1))
  -- the elements from `k + 1` on after the round: the old root, then the old tail
  have htop : sift cmp (k + 1) fuel 0 (swapAt a 0 (k + 1)) (k + 1) = a 0 := by
    rw [hre.apply_of_le (Nat.le_refl _), swapAt_right]
  have htail : ∀ j, k + 1 < j → sift cmp (k + 1) fuel 0 (swapAt a 0 (k + 1)) j = a j := by
    intro j hj
    rw [hre.apply_of_le (by omega), swapAt_of_ne a (by omega) (by omega)]
  -- the elements below `k + 1` come from below `k + 2`
  have hbelow : ∀ i, i ≤ k → ∃ i' ≤ k + 1,
      sift cmp (k + 1) fuel 0 (swapAt a 0 (k + 1)) i = a i' := by
    intro i hi
    obtain ⟨i', hi', heq⟩ := hre.exists_lt (Nat.lt_succ_of_le hi)
    rcases Nat.eq_zero_or_pos i' with rfl | hpos
    · exact ⟨k + 1, (Nat.le_refl _), by rw [heq, swapAt_left]⟩
    · exact ⟨i', by omega, by rw [heq, swapAt_of_ne a (by omega) (by omega)]⟩
  constructor
  · refine sift_heap ho fuel (by omega) (Nat.le_refl _) ⟨?_, ?_⟩
    · intro j _ hj c hc hn
      rw [swapAt_of_ne a hj (by rcases hc with rfl | rfl <;> omega),
        swapAt_of_ne a (by rcases hc with rfl | rfl <;> omega) (by omega)]
      exact h.heap j (Nat.zero_le _) c hc (by omega)
    · intro j _ hchild
      rcases hchild with h' | h' <;> omega
  · intro i j hi hij hj
    rcases Nat.lt_or_eq_of_le (Nat.succ_le_of_lt hi) with hi' | rfl
    · rw [htail i hi', htail j (by omega)]
      exact h.sorted i j hi' hij hj
    · rw [htop]
      rcases Nat.lt_or_eq_of_le hij with hj' | rfl
      · rw [htail j hj']
        exact h.above 0 j (Nat.zero_le _) hj' hj
      · rw [htop]
        exact ho.refl _
  · intro i j hi hkj hj
    obtain ⟨i', hi', heq⟩ := hbelow i hi
    rw [heq]
    rcases Nat.lt_or_eq_of_le (Nat.succ_le_of_lt hkj) with hj' | rfl
    · rw [htail j hj']
      exact h.above i' j hi' hj' hj
    · rw [htop]
      exact hroot i' (Nat.lt_succ_of_le hi')

theorem extract_sorted (ho : IsTotalPreorder cmp) {n fuel : ℕ} (hfuel : n ≤ fuel) :
    ∀ (k : ℕ) {a : ℕ → α}, k < n → Extracted cmp n k a →
      ∀ i j, i ≤ j → j < n → cmp (extract cmp fuel k a i) (extract cmp fuel k a j) ≤ 0 := by
  intro k
  induction k with
  | zero =>
    intro a _ h i j hij hj
    rcases Nat.eq_zero_or_pos i with rfl | hi
    · rcases Nat.eq_zero_or_pos j with rfl | hj'
      · exact ho.refl _
      · exact h.above 0 j (Nat.le_refl _) hj' hj
    · exact h.sorted i j hi hij hj
  | succ k ih =>
    intro a hk h
    exact ih (by omega) (h.step ho (by omega))

/-- **Heapsort sorts** with respect to any total preorder. -/
theorem heapSort_sorted (ho : IsTotalPreorder cmp) {n fuel : ℕ} (hfuel : n ≤ fuel) (a : ℕ → α) :
    ∀ i j, i ≤ j → j < n → cmp (heapSort cmp n fuel a i) (heapSort cmp n fuel a j) ≤ 0 := by
  intro i j hij hj
  -- nodes from `n / 2` on have no child
  have hleaf : HeapFrom cmp (n / 2) n a := by
    intro k hk c hc hn
    rcases hc with rfl | rfl <;> omega
  have hheap := heapify_heap ho hfuel (n / 2) hleaf
  refine extract_sorted ho hfuel (n - 1) (by omega) ⟨?_, ?_, ?_⟩ i j hij hj
  · rw [Nat.sub_add_cancel (by omega)]
    exact hheap
  · intro i j h₁ h₂ h₃
    omega
  · intro i j h₁ h₂ h₃
    omega

/-- As a list, the result is in order, pair by pair. -/
theorem heapSort_pairwise (ho : IsTotalPreorder cmp) (n : ℕ) (a : ℕ → α) :
    ((List.range n).map (heapSort cmp n n a)).Pairwise fun x y => cmp x y ≤ 0 := by
  rw [List.pairwise_map]
  refine List.pairwise_lt_range.imp_of_mem fun {i j} _ hj hij => ?_
  exact heapSort_sorted ho (Nat.le_refl n) a i j (Nat.le_of_lt hij) (List.mem_range.mp hj)

end Lvisor
