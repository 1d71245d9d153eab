import Lvisor.Elf
import Lvisor.Lib.Word
import Lvisor.Sort

/-!
# `sort` on memory (`lib/sort.c`)

The elements are `size` bytes each, one after another from `base`. When the caller has no
`swap_func`, the two words of 4 or 8 aligned bytes are exchanged at once, and all others byte by
byte.

* `Exchanged`, `Exchanges` — what a swap routine does with two ranges of bytes;
* `swapRoutine_exchanges` — the three routines do it;
* `memoryOps_implements` — so the callbacks act on the elements;
* `sorts_zero_iff` — without elements `sort` returns just when the `int` of `-size` is negative;
* `sortMemory_sorts_iff` — it sorts every array, that case apart.
-/

namespace Lvisor

/-! ## The code -/

/-- The byte `k` of a word, counted from the lowest one on. -/
def byteAt {w : ℕ} (x : BitVec w) (k : ℕ) : BitVec 8 := (x >>> (8 * k)).setWidth 8

/-- A little-endian 32-bit store, as its four bytes. -/
def write32 (mem : Memory) (p : BitVec 64) (x : BitVec 32) : Memory := copyTo mem p 4 (byteAt x)

/-- A little-endian 64-bit store, as its eight bytes. -/
def write64 (mem : Memory) (p : BitVec 64) (x : BitVec 64) : Memory := copyTo mem p 8 (byteAt x)

/-- A `swap_func`: it gets two addresses and the size as an `int`, and changes memory. -/
abbrev SwapFunc : Type := BitVec 64 → BitVec 64 → ℤ → Memory → Memory

/-- `alignment_ok`: the address is a multiple of a power of two. -/
def alignmentOk (base align : BitVec 64) : Bool := base &&& (align - 1) = 0

/-- `u32_swap`: both words are loaded before one of them is stored. -/
def u32Swap : SwapFunc := fun a b _ mem =>
  let t := read32 mem a
  let mem := write32 mem a (read32 mem b)
  write32 mem b t

/-- `u64_swap`: the same with eight bytes. -/
def u64Swap : SwapFunc := fun a b _ mem =>
  let t := read64 mem a
  let mem := write64 mem a (read64 mem b)
  write64 mem b t

/-- The body of the loop of `generic_swap`: one byte of each element. -/
def swapByte (a b : BitVec 64) (mem : Memory) : Memory :=
  let t := mem a
  let mem := Function.update mem a (mem b)
  Function.update mem b t

/-- The given number of turns of the loop of `generic_swap`. -/
def genericSwapLoop : ℕ → BitVec 64 → BitVec 64 → Memory → Memory
  | 0, _, _, mem => mem
  | turns + 1, a, b, mem => genericSwapLoop turns (a + 1) (b + 1) (swapByte a b mem)

/-- `generic_swap`: one turn, and then one for each `size` above 0 that is left. -/
def genericSwap : SwapFunc := fun a b size mem =>
  genericSwapLoop ((cInt (size - 1)).toNat + 1) a b mem

/-- The routine that `sort` uses: that of the caller, or one that fits size and alignment. -/
def swapRoutine (base : BitVec 64) (size : ℕ) (swapFunc : Option SwapFunc) : SwapFunc :=
  swapFunc.getD <|
    if size = 4 ∧ alignmentOk base 4 then u32Swap
    else if size = 8 ∧ alignmentOk base 8 then u64Swap
    else genericSwap

/-- The `n` bytes from an address on, as a value of their own. -/
def bytesAt (mem : Memory) (p : BitVec 64) (n : ℕ) : Fin n → BitVec 8 :=
  fun k => mem (p + BitVec.ofNat 64 k)

/-- The address of the element `i`; elements lie one behind the other. -/
def elementAddr (base : BitVec 64) (size i : ℕ) : BitVec 64 := base + BitVec.ofNat 64 (i * size)

section Source

variable (base : BitVec 64) (num size : ℕ)
  (cmpFunc : (Fin size → BitVec 8) → (Fin size → BitVec 8) → ℤ) (swapFunc : Option SwapFunc)

/-- The callbacks of `sort` on memory. An offset that is not that of an element is out of
bounds. -/
def memoryOps : SortOps Memory where
  cmp := fun mem x y => do
    let i ← elementAt size num x
    let j ← elementAt size num y
    return cmpFunc (bytesAt mem (elementAddr base size i) size)
      (bytesAt mem (elementAddr base size j) size)
  swap := fun mem x y => do
    let i ← elementAt size num x
    let j ← elementAt size num y
    return swapRoutine base size swapFunc (elementAddr base size i) (elementAddr base size j)
      (cInt size) mem

/-- `sort`, when each of its loops may take the given number of turns. -/
def sortFor {σ : Type} (ops : SortOps σ) (turns num size : ℕ) (m : σ) : Exec σ := do
  let i := cInt (cSize (cSize ((num / 2 : ℕ) - 1) * size))
  let n := cInt (cSize (num * size : ℕ))
  let m ← heapifyLoop ops size n turns turns i m
  extractLoop ops size turns turns (cInt (cSize (n - size))) m

/-- `sort` on memory, with a bound on the turns of its loops. -/
def sortMemory (turns : ℕ) (mem : Memory) : Exec Memory :=
  sortFor (memoryOps base num size cmpFunc swapFunc) turns num size mem

end Source

theorem sort_eq_sortFor {σ : Type} (ops : SortOps σ) (num size : ℕ) (m : σ) :
    sort ops num size m = sortFor ops (num + 1) num size m := rfl

/-! ## Words as bytes -/

section Bytes

variable {mem : Memory} {p : BitVec 64} {k : ℕ}

theorem byteAt_append {v w n : ℕ} (x : BitVec v) (y : BitVec w) (hw : w = 8 * n) (k : ℕ) :
    byteAt (x ++ y) k = if k < n then byteAt y k else byteAt x (k - n) := by
  subst hw
  apply BitVec.eq_of_getLsbD_eq
  intro i hi
  unfold byteAt
  rw [BitVec.getLsbD_setWidth, BitVec.getLsbD_ushiftRight, BitVec.getLsbD_append]
  by_cases hk : k < n
  · rw [if_pos hk, BitVec.getLsbD_setWidth, BitVec.getLsbD_ushiftRight, if_pos (by omega)]
  · have hshift : 8 * k + i - 8 * n = 8 * (k - n) + i := by omega
    rw [if_neg hk, BitVec.getLsbD_setWidth, BitVec.getLsbD_ushiftRight, if_neg (by omega), hshift]

theorem byteAt_zero (x : BitVec 8) : byteAt x 0 = x := by
  rw [byteAt, Nat.mul_zero, BitVec.ushiftRight_zero, BitVec.setWidth_eq]

theorem byteAt_read32 (mem : Memory) (p : BitVec 64) (hk : k < 4) :
    byteAt (read32 mem p) k = mem (p + BitVec.ofNat 64 k) := by
  have hone : (8 : ℕ) = 8 * 1 := rfl
  rw [read32, byteAt_append _ _ hone, byteAt_append _ _ hone, byteAt_append _ _ hone]
  rcases k with - | - | - | - | k
  · exact (byteAt_zero _).trans (congrArg mem (BitVec.add_zero p).symm)
  · exact byteAt_zero _
  · exact byteAt_zero _
  · exact byteAt_zero _
  · exact absurd hk (by omega)

theorem byteAt_read64 (mem : Memory) (p : BitVec 64) (hk : k < 8) :
    byteAt (read64 mem p) k = mem (p + BitVec.ofNat 64 k) := by
  have hhalf : (32 : ℕ) = 8 * 4 := rfl
  rw [read64, byteAt_append _ _ hhalf]
  by_cases hlow : k < 4
  · rw [if_pos hlow, byteAt_read32 mem p hlow]
  · have hsum : p + 4 + BitVec.ofNat 64 (k - 4) = p + BitVec.ofNat 64 k := by
      have hadd : BitVec.ofNat 64 k = BitVec.ofNat 64 4 + BitVec.ofNat 64 (k - 4) := by
        rw [← BitVec.ofNat_add, Nat.add_sub_cancel' (Nat.le_of_not_lt hlow)]
      rw [hadd, ← BitVec.add_assoc]
      rfl
    rw [if_neg hlow, byteAt_read32 mem _ (by omega), hsum]

end Bytes

/-! ## The swap routines

Two elements are either the same or have no byte in common. Each routine exchanges their bytes
and leaves all others, whatever the unit is in which it goes. -/

section Swaps

variable {n : ℕ} {a b x : BitVec 64} {mem mem' : Memory}

/-- Two ranges of `n` bytes that are the same or have no byte in common. -/
def SameOrApart (n : ℕ) (a b : BitVec 64) : Prop := a = b ∨ ∀ x, Within a n x → ¬Within b n x

/-- The two ranges of bytes are exchanged, and all other bytes are as they were. -/
structure Exchanged (n : ℕ) (a b : BitVec 64) (mem mem' : Memory) : Prop where
  left : ∀ k < n, mem' (a + BitVec.ofNat 64 k) = mem (b + BitVec.ofNat 64 k)
  right : ∀ k < n, mem' (b + BitVec.ofNat 64 k) = mem (a + BitVec.ofNat 64 k)
  frame : ∀ x, ¬Within a n x → ¬Within b n x → mem' x = mem x

/-- The routine exchanges two elements of `size` bytes, wherever they are. -/
def Exchanges (size : ℕ) (f : SwapFunc) : Prop :=
  ∀ a b mem, SameOrApart size a b → Exchanged size a b mem (f a b size mem)

theorem SameOrApart.symm (h : SameOrApart n a b) : SameOrApart n b a := by
  rcases h with rfl | h
  · exact .inl rfl
  · exact .inr fun x hb ha => h x ha hb

/-- A byte of the second range is not one of the first, but for the same place. -/
theorem SameOrApart.ne (h : SameOrApart n a b) (hn : n ≤ 2 ^ 64) {j k : ℕ} (hj : j < n) (hk : k < n)
    (hjk : j ≠ k) : b + BitVec.ofNat 64 j ≠ a + BitVec.ofNat 64 k := by
  intro heq
  rcases h with rfl | h
  · exact hjk (add_ofNat_inj (by omega) (by omega) heq)
  · exact h _ (within_add hk hn) (heq ▸ within_add hj hn)

/-- Two stores of the bytes that were at the other range. -/
theorem exchanged_copyTo (hn : n ≤ 2 ^ 64) (hab : SameOrApart n a b) {f g : ℕ → BitVec 8}
    (hf : ∀ k < n, f k = mem (b + BitVec.ofNat 64 k))
    (hg : ∀ k < n, g k = mem (a + BitVec.ofNat 64 k)) :
    Exchanged n a b mem (copyTo (copyTo mem a n f) b n g) where
  left := by
    intro k hk
    rcases hab with rfl | hdisj
    · rw [copyTo_of_within (within_add hk hn), toNat_add_ofNat_sub (by omega), hg k hk]
    · rw [copyTo_of_not_within (hdisj _ (within_add hk hn)),
        copyTo_of_within (within_add hk hn), toNat_add_ofNat_sub (by omega), hf k hk]
  right := by
    intro k hk
    rw [copyTo_of_within (within_add hk hn), toNat_add_ofNat_sub (by omega), hg k hk]
  frame := by
    intro x ha hb
    rw [copyTo_of_not_within hb, copyTo_of_not_within ha]

theorem u32Swap_exchanges : Exchanges 4 u32Swap := by
  intro a b mem hab
  exact exchanged_copyTo (by decide) hab (fun k hk => byteAt_read32 mem b hk)
    fun k hk => byteAt_read32 mem a hk

theorem u64Swap_exchanges : Exchanges 8 u64Swap := by
  intro a b mem hab
  exact exchanged_copyTo (by decide) hab (fun k hk => byteAt_read64 mem b hk)
    fun k hk => byteAt_read64 mem a hk

theorem Exchanged.symm (h : Exchanged n a b mem mem') : Exchanged n b a mem mem' where
  left := h.right
  right := h.left
  frame x hb ha := h.frame x ha hb

theorem SameOrApart.not_within (h : SameOrApart n a b) (hn : n ≤ 2 ^ 64) (i m : ℕ)
    (him : i + m ≤ n) {j : ℕ} (hj : j < n) (hout : j < i ∨ i + m ≤ j) :
    ¬Within (a + BitVec.ofNat 64 i) m (b + BitVec.ofNat 64 j) := by
  intro hin
  obtain ⟨k, hk, heq⟩ := hin.exists
  rw [BitVec.add_assoc, ← BitVec.ofNat_add] at heq
  exact h.ne hn hj (by omega) (by omega) heq

/-- One turn of the loop exchanges the first bytes. -/
theorem swapByte_exchanged (a b : BitVec 64) (mem : Memory) :
    Exchanged 1 a b mem (swapByte a b mem) := by
  refine ⟨fun k hk => ?_, fun k hk => ?_, fun x ha hb => ?_⟩
  · obtain rfl : k = 0 := Nat.lt_one_iff.mp hk
    rw [BitVec.add_zero, BitVec.add_zero, swapByte]
    by_cases hab : a = b
    · rw [hab, Function.update_self]
    · rw [Function.update_of_ne hab, Function.update_self]
  · obtain rfl : k = 0 := Nat.lt_one_iff.mp hk
    rw [BitVec.add_zero, BitVec.add_zero, swapByte, Function.update_self]
  · have hxa : x ≠ a := fun h => ha (h ▸ within_self Nat.one_pos)
    have hxb : x ≠ b := fun h => hb (h ▸ within_self Nat.one_pos)
    rw [swapByte, Function.update_of_ne hxb, Function.update_of_ne hxa]

/-- The first range after the first bytes and the others are exchanged. -/
theorem Exchanged.succ_left {mem₁ : Memory} (hn : n + 1 ≤ 2 ^ 64) (hab : SameOrApart (n + 1) a b)
    (h₁ : Exchanged 1 a b mem mem₁) (h : Exchanged n (a + 1) (b + 1) mem₁ mem') {k : ℕ}
    (hk : k < n + 1) : mem' (a + BitVec.ofNat 64 k) = mem (b + BitVec.ofNat 64 k) := by
  have haa : SameOrApart (n + 1) a a := .inl rfl
  have hbb : SameOrApart (n + 1) b b := .inl rfl
  rcases k with - | k
  · have ha : ¬Within (a + 1) n (a + BitVec.ofNat 64 0) :=
      haa.not_within hn 1 n (by omega) hk (by omega)
    have hb : ¬Within (b + 1) n (a + BitVec.ofNat 64 0) :=
      hab.symm.not_within hn 1 n (by omega) hk (by omega)
    rw [h.frame _ ha hb]
    exact h₁.left 0 Nat.one_pos
  · have ha : ¬Within a 1 (b + BitVec.ofNat 64 (k + 1)) := by
      have hout := hab.not_within hn 0 1 (by omega) hk (by omega)
      rwa [BitVec.add_zero] at hout
    have hb : ¬Within b 1 (b + BitVec.ofNat 64 (k + 1)) := by
      have hout := hbb.not_within hn 0 1 (by omega) hk (by omega)
      rwa [BitVec.add_zero] at hout
    have hrest := h.left k (Nat.lt_of_succ_lt_succ hk)
    rw [add_one_add_ofNat, add_one_add_ofNat] at hrest
    rw [hrest, h₁.frame _ ha hb]

/-- Exchanging the first byte, and then the others, exchanges all of them. -/
theorem Exchanged.succ {mem₁ : Memory} (hn : n + 1 ≤ 2 ^ 64) (hab : SameOrApart (n + 1) a b)
    (h₁ : Exchanged 1 a b mem mem₁) (h : Exchanged n (a + 1) (b + 1) mem₁ mem') :
    Exchanged (n + 1) a b mem mem' where
  left _ hk := h₁.succ_left hn hab h hk
  right _ hk := h₁.symm.succ_left hn hab.symm h.symm hk
  frame x ha hb := by
    have hfirst {p : BitVec 64} (hp : ¬Within p (n + 1) x) : ¬Within p 1 x := fun hin =>
      hp (hin.mono (Nat.le_add_left 1 n))
    have hrest {p : BitVec 64} (hp : ¬Within p (n + 1) x) : ¬Within (p + 1) n x := fun hin =>
      hp (hin.of_succ hn)
    rw [h.frame x (hrest ha) (hrest hb), h₁.frame x (hfirst ha) (hfirst hb)]

theorem SameOrApart.tail (hn : n + 1 ≤ 2 ^ 64) (h : SameOrApart (n + 1) a b) :
    SameOrApart n (a + 1) (b + 1) := by
  rcases h with rfl | h
  · exact .inl rfl
  · exact .inr fun x ha hb => h x (ha.of_succ hn) (hb.of_succ hn)

/-- The loop of `generic_swap` exchanges the bytes, by induction over their number. -/
theorem genericSwapLoop_exchanged (hn : n ≤ 2 ^ 64) (hab : SameOrApart n a b) (mem : Memory) :
    Exchanged n a b mem (genericSwapLoop n a b mem) := by
  induction n generalizing a b mem with
  | zero => exact ⟨fun _ hk => absurd hk (Nat.not_lt_zero _),
      fun _ hk => absurd hk (Nat.not_lt_zero _), fun _ _ _ => rfl⟩
  | succ n ih =>
    exact (swapByte_exchanged a b mem).succ hn hab (ih (by omega) (hab.tail hn) _)

theorem genericSwap_exchanges {size : ℕ} (hsize : 0 < size) (hint : size < 2 ^ 31) :
    Exchanges size genericSwap := by
  intro a b mem hab
  have hturns : (cInt ((size : ℤ) - 1)).toNat + 1 = size := by
    rw [cInt_of_range (by omega) (by omega)]
    omega
  rw [genericSwap, hturns]
  exact genericSwapLoop_exchanged (by omega) hab mem

/-- Whatever routine `sort` takes exchanges two elements, if that of the caller does. -/
theorem swapRoutine_exchanges (base : BitVec 64) {size : ℕ} (hsize : 0 < size)
    (hint : size < 2 ^ 31) {swapFunc : Option SwapFunc}
    (hfunc : ∀ f ∈ swapFunc, Exchanges size f) :
    Exchanges size (swapRoutine base size swapFunc) := by
  cases swapFunc with
  | some f => exact hfunc f rfl
  | none =>
    rw [swapRoutine, Option.getD_none]
    split_ifs with h4 h8
    · exact h4.1 ▸ u32Swap_exchanges
    · exact h8.1 ▸ u64Swap_exchanges
    · exact genericSwap_exchanges hsize hint

end Swaps

/-! ## The array -/

section Array

variable {base x : BitVec 64} {num size i j : ℕ} {mem : Memory}

/-- The elements of the array in their order. -/
def elements (base : BitVec 64) (num size : ℕ) (mem : Memory) : List (Fin size → BitVec 8) :=
  (List.range num).map fun i => bytesAt mem (elementAddr base size i) size

/-- The elements of the array as a family over their indices. -/
def elementView (base : BitVec 64) (num size : ℕ) (mem : Memory) (i : ℕ) : Fin size → BitVec 8 :=
  if i < num then bytesAt mem (elementAddr base size i) size else fun _ => 0

theorem elements_eq (base : BitVec 64) (num size : ℕ) (mem : Memory) :
    elements base num size mem = (List.range num).map (elementView base num size mem) := by
  refine List.map_congr_left fun i hi => ?_
  exact (if_pos (List.mem_range.mp hi)).symm

theorem within_element (hfits : num * size ≤ 2 ^ 64) (hi : i < num) :
    Within (elementAddr base size i) size x ↔
      i * size ≤ (x - base).toNat ∧ (x - base).toNat < i * size + size := by
  have hend := offset_end_le size hi
  have hlt := (x - base).isLt
  rw [Within, elementAddr, ← BitVec.sub_sub, BitVec.toNat_sub, BitVec.toNat_ofNat]
  omega

/-- Two elements have no byte in common, as long as the array does not wrap. -/
theorem not_within_element (hfits : num * size ≤ 2 ^ 64) (hi : i < num) (hj : j < num)
    (hij : i ≠ j) (hx : Within (elementAddr base size i) size x) :
    ¬Within (elementAddr base size j) size x := by
  rw [within_element hfits hi] at hx
  rw [within_element hfits hj]
  rcases Nat.lt_or_gt_of_ne hij with hlt | hgt
  · have hle := offset_end_le size hlt
    omega
  · have hle := offset_end_le size hgt
    omega

theorem sameOrApart_element (base : BitVec 64) (hfits : num * size ≤ 2 ^ 64) (hi : i < num)
    (hj : j < num) :
    SameOrApart size (elementAddr base size i) (elementAddr base size j) := by
  by_cases hij : i = j
  · exact .inl (hij ▸ rfl)
  · exact .inr fun x hx => not_within_element hfits hi hj hij hx

theorem Within.of_element (hfits : num * size ≤ 2 ^ 64) (hi : i < num)
    (hx : Within (elementAddr base size i) size x) : Within base (num * size) x := by
  have hend := offset_end_le size hi
  exact Nat.lt_of_lt_of_le ((within_element hfits hi).mp hx).2 hend

/-- An exchange of two elements in memory is a swap of the family. -/
theorem elementView_exchanged (hfits : num * size ≤ 2 ^ 64) (hi : i < num) (hj : j < num)
    {mem' : Memory}
    (h : Exchanged size (elementAddr base size i) (elementAddr base size j) mem mem') :
    elementView base num size mem' = swapAt (elementView base num size mem) i j := by
  have hsize : size ≤ 2 ^ 64 := Nat.le_trans (Nat.le_mul_of_pos_left size (by omega)) hfits
  funext k
  by_cases hk : k < num
  · rw [elementView, if_pos hk]
    by_cases hki : k = i
    · subst hki
      rw [swapAt_left, elementView, if_pos hj]
      exact funext fun t => h.left t t.isLt
    · by_cases hkj : k = j
      · subst hkj
        rw [swapAt_right, elementView, if_pos hi]
        exact funext fun t => h.right t t.isLt
      · rw [swapAt_of_ne _ hki hkj, elementView, if_pos hk]
        refine funext fun t => h.frame _ ?_ ?_
        · exact not_within_element hfits hk hi hki (within_add t.isLt hsize)
        · exact not_within_element hfits hk hj hkj (within_add t.isLt hsize)
  · rw [swapAt_of_ne _ (by omega) (by omega), elementView, elementView, if_neg hk, if_neg hk]

variable {cmpFunc : (Fin size → BitVec 8) → (Fin size → BitVec 8) → ℤ}
  {swapFunc : Option SwapFunc}

/-- The callbacks act on the elements, and leave the memory around the array. -/
theorem memoryOps_implements (hsize : 0 < size) (hint : size < 2 ^ 31)
    (hnum : num * size < 2 ^ 31) (hfunc : ∀ f ∈ swapFunc, Exchanges size f)
    (base : BitVec 64) (mem : Memory) :
    Implements (memoryOps base num size cmpFunc swapFunc) size num cmpFunc
      (elementView base num size)
      fun mem' => ∀ x, ¬Within base (num * size) x → mem' x = mem x where
  cmp_eq := by
    intro m i j _ hi hj
    simp only [memoryOps, elementAt_mul hsize hi, elementAt_mul hsize hj, Exec.ok_bind]
    rw [elementView, elementView, if_pos hi, if_pos hj]
    rfl
  swap_eq := by
    intro m i j hm hi hj
    have hfits : num * size ≤ 2 ^ 64 := by omega
    have hcint : cInt size = size := cInt_of_range (by omega) (by omega)
    have hswap := swapRoutine_exchanges base hsize hint hfunc _ _ m
      (sameOrApart_element base hfits hi hj)
    refine ⟨_, ?_, fun x hx => ?_, elementView_exchanged hfits hi hj hswap⟩
    · simp only [memoryOps, elementAt_mul hsize hi, elementAt_mul hsize hj, Exec.ok_bind, hcint]
      rfl
    · rw [hswap.frame x (mt (.of_element hfits hi) hx) (mt (.of_element hfits hj) hx), hm x hx]

/-! ## `sort` -/

/-- The elements of `mem'` are those of `mem`, in order, and nothing else has changed. -/
structure SortedArray (base : BitVec 64) (num size : ℕ)
    (cmpFunc : (Fin size → BitVec 8) → (Fin size → BitVec 8) → ℤ) (mem mem' : Memory) : Prop where
  perm : (elements base num size mem').Perm (elements base num size mem)
  sorted : (elements base num size mem').Pairwise fun x y => cmpFunc x y ≤ 0
  frame : ∀ x, ¬Within base (num * size) x → mem' x = mem x

/-- `sort` ends, without a step outside the array, and the array is sorted. -/
def Sorts (base : BitVec 64) (num size : ℕ)
    (cmpFunc : (Fin size → BitVec 8) → (Fin size → BitVec 8) → ℤ) (swapFunc : Option SwapFunc)
    (mem : Memory) : Prop :=
  ∃ turns mem', sortMemory base num size cmpFunc swapFunc turns mem = .ok mem' ∧
    SortedArray base num size cmpFunc mem mem'

/-- An array of elements below 2 GiB in total. -/
theorem sorts_of_lt (hsize : 0 < size) (hint : size < 2 ^ 31) (hnum : num * size < 2 ^ 31)
    (ho : IsTotalPreorder cmpFunc) (hfunc : ∀ f ∈ swapFunc, Exchanges size f)
    (base : BitVec 64) (mem : Memory) : Sorts base num size cmpFunc swapFunc mem := by
  obtain ⟨mem', hsort, hframe, hview⟩ :=
    sort_eq_heapSort (memoryOps_implements hsize hint hnum hfunc base mem) hsize hint hnum
      fun x _ => rfl
  rw [sort_eq_sortFor] at hsort
  refine ⟨num + 1, mem', hsort, ⟨?_, ?_, hframe⟩⟩
  · rw [elements_eq, elements_eq, hview]
    exact (heapSort_rearranged cmpFunc num num _).perm
  · rw [elements_eq, hview]
    exact heapSort_pairwise ho num _

/-! ## No elements

With `num` 0 the loops start from the `int` of `-size`. If that is not negative they compare and
swap what is outside of the array, and may not end. -/

section Empty

variable {σ : Type} (ops : SortOps σ)

theorem cInt_cSize_eq (x : ℤ) : cInt (cSize x) = cInt x := by
  have hmod : x % 2 ^ 64 % ((2 ^ 32 : ℕ) : ℤ) = x % ((2 ^ 32 : ℕ) : ℤ) := by omega
  rw [cInt, cInt, cSize, Int.bmod_def, Int.bmod_def, hmod]

/-- The `int` of `-size`, where the counters of both phases start. -/
theorem cInt_neg (size : ℕ) :
    cInt (-(size : ℤ)) =
      if size % 2 ^ 32 ≤ 2 ^ 31 then -((size % 2 ^ 32 : ℕ) : ℤ)
      else 2 ^ 32 - (size % 2 ^ 32 : ℕ) := by
  rw [cInt, Int.bmod_def]
  split_ifs <;> omega

theorem sortFor_zero (turns size : ℕ) (m : σ) :
    sortFor ops turns 0 size m =
      heapifyLoop ops size 0 turns turns (cInt (-(size : ℤ))) m >>=
        extractLoop ops size turns turns (cInt (-(size : ℤ))) := by
  have hfirst : cInt (cSize (cSize (((0 / 2 : ℕ) : ℤ) - 1) * size)) = cInt (-(size : ℤ)) := by
    have hwrap : cSize (((0 / 2 : ℕ) : ℤ) - 1) = 2 ^ 64 - 1 := rfl
    rw [cInt_cSize_eq, hwrap, cInt, cInt, Int.bmod_def, Int.bmod_def]
    split_ifs <;> omega
  have hn : cInt (cSize ((0 * size : ℕ) : ℤ)) = 0 := by
    rw [Nat.zero_mul]
    rfl
  simp only [sortFor, hfirst, hn, zero_sub, cInt_cSize_eq]

/-- The first phase does not end when its counter stays at 0. -/
theorem heapifyLoop_stuck {size : ℕ} (hsize : size % 2 ^ 32 = 0) (fuel rounds : ℕ) (m m' : σ) :
    heapifyLoop ops size 0 fuel rounds 0 m ≠ .ok m' := by
  have hnext : cInt (cSize (0 - (size : ℤ))) = 0 := by
    rw [zero_sub, cInt_cSize_eq, cInt_neg, hsize]
    rfl
  induction rounds generalizing m with
  | zero =>
    intro h
    cases h
  | succ rounds ih =>
    rw [heapifyLoop, if_pos le_rfl, hnext]
    intro h
    obtain ⟨m₁, -, hrest⟩ := Exec.bind_eq_ok.mp h
    exact ih m₁ hrest

end Empty

/-- Without elements an index above 0 is out of bounds, so that the loop does not return. -/
theorem extractLoop_outside {i : ℤ} (hi : 0 < i) (turns : ℕ) (mem mem' : Memory) :
    extractLoop (memoryOps base 0 size cmpFunc swapFunc) size turns turns i mem ≠ .ok mem' := by
  cases turns with
  | zero =>
    intro h
    cases h
  | succ turns =>
    have hout : elementAt size 0 0 = .error .outOfBounds := by
      refine if_neg fun h => ?_
      have hlt := h.2.2
      rw [Int.zero_ediv] at hlt
      exact absurd hlt (lt_irrefl 0)
    rw [extractLoop, if_pos hi]
    simp only [memoryOps, hout]
    intro h
    cases h

/-- **`sort`** for an array without elements: it returns just when the `int` of `-size` is
negative. -/
theorem sorts_zero_iff (base : BitVec 64) (size : ℕ)
    (cmpFunc : (Fin size → BitVec 8) → (Fin size → BitVec 8) → ℤ) (swapFunc : Option SwapFunc)
    (mem : Memory) :
    Sorts base 0 size cmpFunc swapFunc mem ↔ 0 < size % 2 ^ 32 ∧ size % 2 ^ 32 ≤ 2 ^ 31 := by
  constructor
  · rintro ⟨turns, mem', hsort, -⟩
    rw [sortMemory, sortFor_zero, cInt_neg] at hsort
    obtain ⟨mem₁, hheap, hextract⟩ := Exec.bind_eq_ok.mp hsort
    by_cases hle : size % 2 ^ 32 ≤ 2 ^ 31
    · refine ⟨Nat.pos_of_ne_zero fun hzero => ?_, hle⟩
      rw [if_pos hle, hzero] at hheap
      exact heapifyLoop_stuck _ hzero turns turns mem mem₁ hheap
    · rw [if_neg hle] at hextract
      exact absurd hextract (extractLoop_outside (by omega) turns mem₁ mem')
  · rintro ⟨hpos, hle⟩
    refine ⟨1, mem, ?_, ⟨List.Perm.refl _, List.Pairwise.nil, fun _ _ => rfl⟩⟩
    rw [sortMemory, sortFor_zero, cInt_neg, if_pos hle, heapifyLoop, if_neg (by omega),
      Exec.ok_bind, extractLoop, if_neg (by omega)]

/-- **`sort` sorts** every array; without elements it takes a size for which it returns. -/
theorem sortMemory_sorts_iff (base : BitVec 64) (num size : ℕ)
    (cmpFunc : (Fin size → BitVec 8) → (Fin size → BitVec 8) → ℤ) (swapFunc : Option SwapFunc)
    (mem : Memory) (hsize : 0 < size) (hnum : num * size < 2 ^ 31)
    (ho : IsTotalPreorder cmpFunc) (hfunc : ∀ f ∈ swapFunc, Exchanges size f) :
    Sorts base num size cmpFunc swapFunc mem ↔
      (num = 0 → 0 < size % 2 ^ 32 ∧ size % 2 ^ 32 ≤ 2 ^ 31) := by
  rcases Nat.eq_zero_or_pos num with rfl | hpos
  · rw [sorts_zero_iff]
    exact (imp_iff_right rfl).symm
  · have hint : size < 2 ^ 31 := Nat.lt_of_le_of_lt (Nat.le_mul_of_pos_left size hpos) hnum
    exact iff_of_true (sorts_of_lt hsize hint hnum ho hfunc base mem)
      fun hzero => absurd hzero (by omega)

theorem sorts_threeWords :
    Sorts 0x1000 3 4 (fun x y => (x 0).toInt - (y 0).toInt) none fun x => 255 - x.setWidth 8 :=
  (sortMemory_sorts_iff _ 3 4 _ none _ (by decide) (by decide)
    ⟨fun _ _ => by omega, fun _ _ _ _ _ => by omega⟩ fun f hf => by cases hf).mpr (by decide)

/-- Elements of 4 GiB, but none of them: the first phase does not end. -/
theorem not_sorts_empty :
    0 < 2 ^ 32 ∧ 0 * 2 ^ 32 < 2 ^ 31 ∧
      IsTotalPreorder (fun _ _ => 0 : (Fin (2 ^ 32) → BitVec 8) → (Fin (2 ^ 32) → BitVec 8) → ℤ) ∧
      ¬Sorts 0x1000 0 (2 ^ 32) (fun _ _ => 0) none fun _ => 0 := by
  refine ⟨by decide, by decide, ⟨fun _ _ => Iff.rfl, fun _ _ _ _ _ => le_rfl⟩, ?_⟩
  rw [sorts_zero_iff]
  decide

end Array

end Lvisor
