import Lvisor.Machine
import Lvisor.Lib.HeapSort
import Mathlib.Data.List.Sort
import Mathlib.Tactic.Ring

/-!
# `sort` (`lib/sort.c`)

The heapsort of the kernel, on byte offsets from `base`. The counters `i`, `n`, `c`
and `r` are C `int`s while `size` and `num` are `size_t`s, so every sum with `size`
is computed modulo `2^64` and truncated when it is stored back.

* `SortOps` — what `sort` does to memory: it calls `cmp_func` and `swap_func` on two
  offsets;
* `sort` — the three loops as the source has them;
* `Implements` — the operations act on an array of `num` elements of `size` bytes;
* `sort_eq_heapSort` — `sort` is then heapsort on the elements, and never compares or
  swaps outside the array.
-/

namespace Lvisor

/-- Conversion to the C type `int`, modulo 2^32. -/
def cInt (x : ℤ) : ℤ := x.bmod (2 ^ 32)

/-- Conversion to the C type `size_t`, modulo 2^64. -/
def cSize (x : ℤ) : ℤ := x % 2 ^ 64

/-- The two callbacks of `sort`, on offsets from `base`. -/
structure SortOps (σ : Type) where
  /-- `cmp_func(base + x, base + y)` -/
  cmp : σ → ℤ → ℤ → Exec ℤ
  /-- `swap_func(base + x, base + y, size)` -/
  swap : σ → ℤ → ℤ → Exec σ

section Source

variable {σ : Type} (ops : SortOps σ) (size : ℤ)

/-- The child of `r` that the inner loops pick: `c = r * 2 + size`, or the next
element when that is inside the heap and larger. -/
def pickChild (n r : ℤ) (m : σ) : Exec ℤ := do
  let c := cInt (cSize (cInt (r * 2) + size))
  if cSize c < cSize (n - size) then
    let k ← ops.cmp m c (c + size)
    return if k < 0 then cInt (cSize (c + size)) else c
  else
    return c

/-- The inner loop, `for (r = ..; r * 2 + size < n; r = c)`. -/
def siftDown (n : ℤ) : ℕ → ℤ → σ → Exec σ
  | 0, _, _ => .error .outOfFuel
  | fuel + 1, r, m =>
    if cSize (cInt (r * 2) + size) < cSize n then do
      let c ← pickChild ops size n r m
      let k ← ops.cmp m r c
      if 0 ≤ k then
        return m
      else
        let m ← ops.swap m r c
        siftDown n fuel c m
    else
      .ok m

/-- `for ( ; i >= 0; i -= size)`. -/
def heapifyLoop (n : ℤ) (fuel : ℕ) : ℕ → ℤ → σ → Exec σ
  | 0, _, _ => .error .outOfFuel
  | rounds + 1, i, m =>
    if 0 ≤ i then do
      let m ← siftDown ops size n fuel i m
      heapifyLoop n fuel rounds (cInt (cSize (i - size))) m
    else
      .ok m

/-- `for (i = n - size; i > 0; i -= size)`. -/
def extractLoop (fuel : ℕ) : ℕ → ℤ → σ → Exec σ
  | 0, _, _ => .error .outOfFuel
  | rounds + 1, i, m =>
    if 0 < i then do
      let m ← ops.swap m 0 i
      let m ← siftDown ops size i fuel 0 m
      extractLoop fuel rounds (cInt (cSize (i - size))) m
    else
      .ok m

end Source

/-- `sort`. No loop takes more than `num + 1` rounds. -/
def sort {σ : Type} (ops : SortOps σ) (num size : ℕ) (m : σ) : Exec σ := do
  let i := cInt (cSize (cSize ((num / 2 : ℕ) - 1) * size))
  let n := cInt (cSize (num * size : ℕ))
  let m ← heapifyLoop ops size n (num + 1) (num + 1) i m
  extractLoop ops size (num + 1) (num + 1) (cInt (cSize (n - size))) m

/-! ## Machine arithmetic in range -/

theorem cSize_of_range {x : ℤ} (h₀ : 0 ≤ x) (h : x < 2 ^ 64) : cSize x = x :=
  Int.emod_eq_of_lt h₀ h

theorem cInt_cSize {x : ℤ} (h₀ : -2 ^ 31 ≤ x) (h : x < 2 ^ 31) : cInt (cSize x) = x := by
  unfold cInt cSize
  rw [Int.bmod_def]
  split_ifs <;> omega

theorem cInt_of_range {x : ℤ} (h₀ : -2 ^ 31 ≤ x) (h : x < 2 ^ 31) : cInt x = x := by
  unfold cInt
  rw [Int.bmod_def]
  split_ifs <;> omega

/-! ## Operations on an array of elements

The loops of the source go by byte offsets, and those of `Lvisor.Lib.HeapSort` by indices. Each
loop is the other one at multiples of `size`. -/

/-- The element `i` ends inside an array that has more than `i`. -/
theorem offset_end_le (size : ℕ) {i num : ℕ} (h : i < num) : i * size + size ≤ num * size := by
  rw [← Nat.succ_mul]
  exact Nat.mul_le_mul_right size h

/-- The operations act on an array of `num` elements of `size` bytes: `view` reads the
elements, `Valid` is what the operations keep of the memory around it. -/
structure Implements {σ α : Type} (ops : SortOps σ) (size num : ℕ) (cmp : α → α → ℤ)
    (view : σ → ℕ → α) (Valid : σ → Prop) : Prop where
  cmp_eq : ∀ m i j, Valid m → i < num → j < num →
    ops.cmp m (i * size : ℕ) (j * size : ℕ) = .ok (cmp (view m i) (view m j))
  swap_eq : ∀ m i j, Valid m → i < num → j < num →
    ∃ m', ops.swap m (i * size : ℕ) (j * size : ℕ) = .ok m' ∧ Valid m' ∧
      view m' = swapAt (view m) i j

section Simulation

variable {σ α : Type} {ops : SortOps σ} {size num : ℕ} {cmp : α → α → ℤ} {view : σ → ℕ → α}
  {Valid : σ → Prop}

/-- The test `r * 2 + size < n` of the inner loops, on elements. The product `r * 2` may
leave the range of `int` when `r` has no child. -/
theorem siftDown_test {k r : ℕ} (hsize : 0 < size) (hk : k * size < 2 ^ 31) (hr : r < k) :
    cSize (cInt (((r * size : ℕ) : ℤ) * 2) + size) < cSize ((k * size : ℕ) : ℤ) ↔
      2 * r + 1 < k := by
  have hrk := offset_end_le size hr
  have htest : 2 * r + 1 < k ↔ 2 * (r * size) + size < k * size := by
    rw [← Nat.mul_assoc, ← Nat.succ_mul, Nat.mul_lt_mul_right hsize]
  rw [cSize_of_range (x := ((k * size : ℕ) : ℤ)) (by omega) (by omega), htest]
  by_cases hwrap : ((r * size : ℕ) : ℤ) * 2 < 2 ^ 31
  · rw [cInt_of_range (by omega) hwrap, cSize_of_range (by omega) (by omega)]
    omega
  · -- the product wraps to a negative `int`, a huge `size_t`
    unfold cInt cSize
    rw [Int.bmod_def]
    split_ifs <;> omega

/-- `pickChild` is `largerChild`, as long as offsets are in range. -/
theorem pickChild_eq (h : Implements ops size num cmp view Valid) (hsize : 0 < size)
    (hnum : num * size < 2 ^ 31) {k r : ℕ} (hk : k ≤ num) (hr : 2 * r + 1 < k) {m : σ}
    (hm : Valid m) :
    pickChild ops size (k * size : ℕ) (r * size : ℕ) m =
      .ok ((largerChild cmp k r (view m) * size : ℕ) : ℤ) := by
  have hks : k * size ≤ num * size := Nat.mul_le_mul_right size hk
  have hrs : (2 * r + 2) * size ≤ k * size := Nat.mul_le_mul_right size hr
  have hexp : (2 * r + 2) * size = r * size * 2 + size + size := by ring
  have hexp₁ : (2 * r + 1) * size = r * size * 2 + size := by ring
  have hc : cInt (cSize (cInt (((r * size : ℕ) : ℤ) * 2) + size)) = ((2 * r + 1) * size : ℕ) := by
    rw [cInt_of_range (x := ((r * size : ℕ) : ℤ) * 2) (by omega) (by omega),
      cInt_cSize (by omega) (by omega)]
    omega
  have hnext : (((2 * r + 1) * size : ℕ) : ℤ) + size = ((2 * r + 2) * size : ℕ) := by omega
  have htest : 2 * r + 2 < k ↔ (2 * r + 2) * size < k * size :=
    (Nat.mul_lt_mul_right hsize).symm
  unfold pickChild largerChild
  simp only [hc]
  rw [cSize_of_range (by omega) (by omega), cSize_of_range (by omega) (by omega)]
  by_cases hin : 2 * r + 2 < k
  · rw [if_pos (by omega), hnext, h.cmp_eq m _ _ hm (by omega) (by omega)]
    by_cases hneg : cmp (view m (2 * r + 1)) (view m (2 * r + 2)) < 0
    · rw [Exec.ok_bind, if_pos hneg, if_pos ⟨hin, hneg⟩, cInt_cSize (by omega) (by omega)]
      rfl
    · rw [Exec.ok_bind, if_neg hneg, if_neg (fun hh => hneg hh.2)]
      rfl
  · rw [if_neg (by omega), if_neg (fun hh => hin hh.1)]
    rfl

/-- The inner loop is `sift`, by induction over its turns. -/
theorem siftDown_eq (h : Implements ops size num cmp view Valid) (hsize : 0 < size)
    (hnum : num * size < 2 ^ 31) {k : ℕ} (hk : k ≤ num) : ∀ (fuel r : ℕ) (m : σ), r < k →
    k ≤ r + fuel → Valid m → ∃ m', siftDown ops size (k * size : ℕ) (fuel + 1) (r * size : ℕ) m =
      .ok m' ∧ Valid m' ∧ view m' = sift cmp k fuel r (view m) := by
  have hks : k * size ≤ num * size := Nat.mul_le_mul_right size hk
  intro fuel
  induction fuel with
  | zero =>
    intro r m hr hfuel
    omega
  | succ fuel ih =>
    intro r m hr hfuel hm
    rw [siftDown, sift]
    by_cases htest : 2 * r + 1 < k
    · rw [if_pos ((siftDown_test hsize (by omega) hr).mpr htest), if_pos htest,
        pickChild_eq h hsize hnum hk htest hm]
      have hlt := largerChild_lt cmp (view m) htest
      have hgt := lt_largerChild cmp k r (view m)
      generalize largerChild cmp k r (view m) = c at *
      rw [Exec.ok_bind, h.cmp_eq m r c hm (by omega) (by omega), Exec.ok_bind]
      by_cases hge : 0 ≤ cmp (view m r) (view m c)
      · rw [if_pos hge, if_pos hge]
        exact ⟨m, rfl, hm, rfl⟩
      · rw [if_neg hge, if_neg hge]
        obtain ⟨m₁, hswap, hm₁, hview⟩ := h.swap_eq m r c hm (by omega) (by omega)
        rw [hswap, Exec.ok_bind, ← hview]
        exact ih c m₁ hlt (by omega) hm₁
    · rw [if_neg (fun hh => htest ((siftDown_test hsize (by omega) hr).mp hh)), if_neg htest]
      exact ⟨m, rfl, hm, rfl⟩

/-- The first phase is `heapify`; after `k` nodes it stands at node `k - 1`. -/
theorem heapifyLoop_eq (h : Implements ops size num cmp view Valid) (hsize : 0 < size)
    (hnum : num * size < 2 ^ 31) : ∀ (k rounds : ℕ) (m : σ), k ≤ num / 2 → k < rounds → Valid m →
    ∃ m', heapifyLoop ops size (num * size : ℕ) (num + 1) rounds
        (((k * size : ℕ) : ℤ) - size) m = .ok m' ∧ Valid m' ∧
      view m' = heapify cmp num num k (view m) := by
  intro k
  induction k with
  | zero =>
    intro rounds m _ hrounds hm
    obtain ⟨rounds, rfl⟩ := Nat.exists_eq_succ_of_ne_zero (by omega : rounds ≠ 0)
    rw [heapifyLoop, if_neg (by omega)]
    exact ⟨m, rfl, hm, rfl⟩
  | succ k ih =>
    intro rounds m hk hrounds hm
    obtain ⟨rounds, rfl⟩ := Nat.exists_eq_succ_of_ne_zero (by omega : rounds ≠ 0)
    have hcur : (((k + 1) * size : ℕ) : ℤ) - size = (k * size : ℕ) := by
      rw [Nat.succ_mul]
      omega
    have hks : (k + 1) * size ≤ num * size := Nat.mul_le_mul_right size (by omega)
    have hsz : size ≤ num * size := by
      have := Nat.mul_le_mul_right size (by omega : 1 ≤ num)
      omega
    rw [heapifyLoop, hcur, if_pos (by omega)]
    obtain ⟨m₁, hsift, hm₁, hview⟩ :=
      siftDown_eq h hsize hnum (Nat.le_refl num) num k m (by omega) (by omega) hm
    rw [hsift, Exec.ok_bind, cInt_cSize (by omega) (by omega), heapify, ← hview]
    exact ih rounds m₁ (by omega) (by omega) hm₁

/-- The second phase is `extract`, by induction over the elements left. -/
theorem extractLoop_eq (h : Implements ops size num cmp view Valid) (hsize : 0 < size)
    (hnum : num * size < 2 ^ 31) : ∀ (k rounds : ℕ) (m : σ), k < num → k < rounds → Valid m →
    ∃ m', extractLoop ops size (num + 1) rounds (k * size : ℕ) m = .ok m' ∧ Valid m' ∧
      view m' = extract cmp num k (view m) := by
  intro k
  induction k with
  | zero =>
    intro rounds m _ hrounds hm
    obtain ⟨rounds, rfl⟩ := Nat.exists_eq_succ_of_ne_zero (by omega : rounds ≠ 0)
    rw [extractLoop, if_neg (by omega)]
    exact ⟨m, rfl, hm, rfl⟩
  | succ k ih =>
    intro rounds m hk hrounds hm
    obtain ⟨rounds, rfl⟩ := Nat.exists_eq_succ_of_ne_zero (by omega : rounds ≠ 0)
    have hnext : (((k + 1) * size : ℕ) : ℤ) - size = (k * size : ℕ) := by
      rw [Nat.succ_mul]
      omega
    have hks : (k + 1) * size ≤ num * size := Nat.mul_le_mul_right size (by omega)
    have hpos : 0 < (k + 1) * size := Nat.mul_pos (Nat.succ_pos k) hsize
    obtain ⟨m₁, hswap, hm₁, hview₁⟩ := h.swap_eq m 0 (k + 1) hm (by omega) hk
    obtain ⟨m₂, hsift, hm₂, hview₂⟩ :=
      siftDown_eq h hsize hnum (by omega : k + 1 ≤ num) num 0 m₁ (by omega) (by omega) hm₁
    rw [Nat.zero_mul] at hswap hsift
    rw [extractLoop, if_pos (by omega)]
    rw [Int.ofNat_zero] at hswap hsift
    rw [hswap, Exec.ok_bind, hsift, Exec.ok_bind, hnext, cInt_cSize (by omega) (by omega),
      extract, ← hview₁, ← hview₂]
    exact ih rounds m₂ (by omega) (by omega) hm₂

/-- **`sort` is heapsort**, for every array that fits an `int`; `num = 0` and `num = 1`,
where the start of the first phase wraps, included. -/
theorem sort_eq_heapSort (h : Implements ops size num cmp view Valid) (hsize : 0 < size)
    (hint : size < 2 ^ 31) (hnum : num * size < 2 ^ 31) {m : σ} (hm : Valid m) :
    ∃ m', sort ops num size m = .ok m' ∧ Valid m' ∧ view m' = heapSort cmp num num (view m) := by
  have hhalf : num / 2 * size ≤ num * size := Nat.mul_le_mul_right size (Nat.div_le_self num 2)
  have hbound : num ≤ num * size := Nat.le_mul_of_pos_right num hsize
  -- for `num < 2` the first product wraps, and ends at `-size` all the same
  have hstart : cInt (cSize (cSize (((num / 2 : ℕ) : ℤ) - 1) * size)) =
      ((num / 2 * size : ℕ) : ℤ) - size := by
    have hwrap : cSize (cSize (((num / 2 : ℕ) : ℤ) - 1) * size) =
        cSize (((num / 2 * size : ℕ) : ℤ) - size) := by
      unfold cSize
      rw [Int.mul_emod, Int.emod_emod, ← Int.mul_emod, sub_mul, one_mul, ← Int.natCast_mul]
    rw [hwrap]
    exact cInt_cSize (by omega) (by omega)
  obtain ⟨m₁, hheap, hm₁, hview₁⟩ :=
    heapifyLoop_eq h hsize hnum (num / 2) (num + 1) m (Nat.le_refl _) (by omega) hm
  have hn : cInt (cSize (num * size : ℕ)) = (num * size : ℕ) := cInt_cSize (by omega) (by omega)
  unfold sort heapSort
  simp only [hstart, hn]
  rw [hheap, Exec.ok_bind, ← hview₁]
  rcases Nat.eq_zero_or_pos num with rfl | hpos
  · rw [Nat.zero_mul, cInt_cSize (by omega) (by omega), extractLoop, if_neg (by omega)]
    exact ⟨m₁, rfl, hm₁, rfl⟩
  · have hlast : ((num * size : ℕ) : ℤ) - size = ((num - 1) * size : ℕ) := by
      rw [Nat.sub_mul, one_mul]
      have := Nat.mul_le_mul_right size hpos
      omega
    have hle : (num - 1) * size ≤ num * size := Nat.mul_le_mul_right size (Nat.sub_le num 1)
    rw [hlast, cInt_cSize (by omega) (by omega)]
    exact extractLoop_eq h hsize hnum (num - 1) (num + 1) m₁ (by omega) (by omega) hm₁

end Simulation

/-! ## An array held as its elements -/

section Elements

variable {α : Type} (cmp : α → α → ℤ) (size num : ℕ)

/-- The element at offset `x` of an array. Offsets outside the array, or between two
elements, are out of bounds. -/
def elementAt (x : ℤ) : Exec ℕ :=
  if 0 ≤ x ∧ x % size = 0 ∧ x / size < num then .ok (x / size).toNat else .error .outOfBounds

/-- The callbacks on an array held as its elements. -/
def elementOps : SortOps (ℕ → α) where
  cmp := fun a x y => do
    let i ← elementAt size num x
    let j ← elementAt size num y
    return cmp (a i) (a j)
  swap := fun a x y => do
    let i ← elementAt size num x
    let j ← elementAt size num y
    return swapAt a i j

variable {size num}

theorem elementAt_mul (hsize : 0 < size) {i : ℕ} (hi : i < num) :
    elementAt size num (i * size : ℕ) = .ok i := by
  have hne : (size : ℤ) ≠ 0 := by omega
  have hdiv : ((i * size : ℕ) : ℤ) / size = i := by
    rw [Int.natCast_mul]
    exact Int.mul_ediv_cancel _ hne
  have hmod : ((i * size : ℕ) : ℤ) % size = 0 := by
    rw [Int.natCast_mul]
    exact Int.mul_emod_left _ _
  unfold elementAt
  rw [if_pos ⟨Int.natCast_nonneg _, hmod, by omega⟩, hdiv, Int.toNat_natCast]

theorem elementOps_implements (hsize : 0 < size) :
    Implements (elementOps cmp size num) size num cmp id fun _ => True where
  cmp_eq := by
    intro a i j _ hi hj
    simp only [elementOps, elementAt_mul hsize hi, elementAt_mul hsize hj, Exec.ok_bind]
    rfl
  swap_eq := by
    intro a i j _ hi hj
    refine ⟨swapAt a i j, ?_, trivial, rfl⟩
    simp only [elementOps, elementAt_mul hsize hi, elementAt_mul hsize hj, Exec.ok_bind]
    rfl

/-- **`sort` sorts**: it returns, and the elements are a rearrangement in order. -/
theorem sort_elementOps {cmp : α → α → ℤ} (ho : IsTotalPreorder cmp) (size num : ℕ)
    (hsize : 0 < size) (hint : size < 2 ^ 31) (hnum : num * size < 2 ^ 31) (a : ℕ → α) :
    ∃ b, sort (elementOps cmp size num) num size a = .ok b ∧
      ((List.range num).map b).Perm ((List.range num).map a) ∧
      ((List.range num).map b).Pairwise fun x y => cmp x y ≤ 0 := by
  obtain ⟨b, hb, -, hview⟩ :=
    sort_eq_heapSort (elementOps_implements cmp hsize) hsize hint hnum (m := a) trivial
  obtain rfl : b = heapSort cmp num num a := hview
  exact ⟨_, hb, (heapSort_rearranged cmp num num a).perm, heapSort_pairwise ho num a⟩

end Elements

end Lvisor
