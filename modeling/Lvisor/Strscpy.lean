import Mathlib.Tactic.IntervalCases
import Lvisor.Lib.Word
import Lvisor.Boot

/-!
# Copying a string (`strscpy` of `lib/string.c`)

`strscpy` copies words while both pointers are aligned and no byte of a word is zero, and bytes
after that. A word with a zero byte is copied up to that byte, which it finds with a subtraction
that borrows there for the first time, and a multiplication.

* `leByte_hasZero` — what `has_zero` says of the bytes up to the first zero byte;
* `createZeroMask_eq`, `findZero_eq` — the bytes before it, and their number;
* `strscpyBytes_copied`, `strscpyWords_copied` — the two loops, from any offset;
* `strscpy_accesses` — the bytes that it depends on, and those that it changes;
* `strscpy_right` — a copy, whatever the string, the size and the alignment are.
-/

namespace Lvisor

open GuestParams (leByte)

/-! ## The byte-wise definition -/

/-- The bytes of the source, by their distance from its start. -/
def srcByte (mem : Memory) (src : BitVec 64) (i : ℕ) : BitVec 8 := mem (src + BitVec.ofNat 64 i)

/-- A string `s` is copied to a buffer of `count` bytes, `dest` before: what is returned, and the
buffer after that. -/
structure Copied (s : ℕ → BitVec 8) (count : ℕ) (dest : ℕ → BitVec 8) (r : ℤ × (ℕ → BitVec 8)) :
    Prop where
  found : ∀ n < count, (∀ i < n, s i ≠ 0) → s n = 0 → r.1 = n ∧ ∀ i ≤ n, r.2 i = s i
  full : 0 < count → (∀ i < count, s i ≠ 0) →
    r.1 = -e2big ∧ (∀ i, i + 1 < count → r.2 i = s i) ∧ r.2 (count - 1) = 0
  empty : count = 0 → r = (-e2big, dest)
  frame : ∀ i, count ≤ i → r.2 i = dest i

/-! ## Loads and stores

The accesses of a call, in order, by their offsets. They are written down beside the function, as
it has no record of them, and are connected to it below: it depends on nothing else and changes
nothing else. -/

/-- A load of the source or a store to the destination, at an offset. -/
inductive StrscpyAccess where
  | load (off size : ℕ)
  | store (off size : ℕ)
  deriving DecidableEq, Repr

/-- The access is inside of the first `count` bytes. -/
def StrscpyAccess.Inside (count : ℕ) : StrscpyAccess → Prop
  | .load off size => off + size ≤ count
  | .store off size => off + size ≤ count

/-- The byte at this offset of the source is loaded by the access. -/
def StrscpyAccess.Loads (i : ℕ) : StrscpyAccess → Prop
  | .load off size => off ≤ i ∧ i < off + size
  | .store _ _ => False

/-- The byte at this offset of the destination is stored by the access. -/
def StrscpyAccess.Stores (i : ℕ) : StrscpyAccess → Prop
  | .load _ _ => False
  | .store off size => off ≤ i ∧ i < off + size

/-- The accesses of `strscpyBytes`, in their order. -/
def strscpyBytesAccesses (mem : Memory) (src : BitVec 64) : ℕ → ℕ → List StrscpyAccess
  | 0, res => if res ≠ 0 then [.store (res - 1) 1] else []
  | count + 1, res =>
    let c := mem (src + BitVec.ofNat 64 res)
    [.load res 1, .store res 1] ++
      if c = 0 then [] else strscpyBytesAccesses mem src count (res + 1)

/-- The accesses of `strscpyWords`, and of the loop over bytes behind it. -/
def strscpyWordsAccesses (mem : Memory) (src : BitVec 64) : ℕ → ℕ → ℕ → List StrscpyAccess
  | 0, count, res => strscpyBytesAccesses mem src count res
  | words + 1, count, res =>
    let c := read64 mem (src + BitVec.ofNat 64 res)
    [.load res 8, .store res 8] ++
      if hasZero c ≠ 0 then [] else strscpyWordsAccesses mem src words (count - 8) (res + 8)

/-- The accesses of `strscpy`, in their order. -/
def strscpyAccesses (mem : Memory) (destAddr src : BitVec 64) (count : ℕ) : List StrscpyAccess :=
  if count = 0 then []
  else
    let max := if (destAddr ||| src) &&& 7 ≠ 0 then 0 else count
    strscpyWordsAccesses mem src (max / 8) count 0

/-! ## Words

The test for a zero byte subtracts one from each byte of the word at once. The bytes in front of
the first zero byte do not borrow, so that the lowest byte that is marked is the first zero byte;
what is marked behind it does not matter. -/

section Words

variable {c m x : BitVec 64} {i j k : ℕ}

theorem toNat_leByte (x : BitVec 64) (i : ℕ) :
    (leByte x i).toNat = x.toNat / 2 ^ (8 * i) % 256 := by
  rw [leByte, BitVec.toNat_setWidth, BitVec.toNat_ushiftRight, Nat.shiftRight_eq_div_pow]

theorem leByte_and (x y : BitVec 64) (i : ℕ) : leByte (x &&& y) i = leByte x i &&& leByte y i := by
  refine BitVec.eq_of_getLsbD_eq fun j hj => ?_
  simp [leByte, hj]

theorem leByte_not (x : BitVec 64) (hi : i < 8) : leByte (~~~x) i = ~~~leByte x i := by
  refine BitVec.eq_of_getLsbD_eq fun j hj => ?_
  have hin : 8 * i + j < 64 := by omega
  simp [leByte, hj, hin]

/-- The low `i + 1` bytes of a word are the low `i` and one more. -/
theorem mod_succ_byte (x : BitVec 64) (i : ℕ) :
    x.toNat % 2 ^ (8 * (i + 1)) = x.toNat % 2 ^ (8 * i) + 2 ^ (8 * i) * (leByte x i).toNat := by
  rw [toNat_leByte, Nat.mul_succ, Nat.pow_add, Nat.mod_mul]

/-- A number of `i` bytes that are one each, as the constants of the source are. -/
def ones : ℕ → ℕ
  | 0 => 0
  | i + 1 => ones i + 2 ^ (8 * i)

theorem ones_le (h : ∀ j < i, leByte c j ≠ 0) : ones i ≤ c.toNat % 2 ^ (8 * i) := by
  induction i with
  | zero => exact Nat.zero_le _
  | succ i ih =>
    have hlow := ih fun j hj => h j (Nat.lt_succ_of_lt hj)
    have hbyte : 1 ≤ (leByte c i).toNat :=
      BitVec.toNat_pos_of_ne_zero (h i (Nat.lt_succ_self i))
    have hpos := Nat.mul_le_mul_left (2 ^ (8 * i)) hbyte
    rw [mod_succ_byte, ones]
    omega

/-- Nothing is borrowed from a byte that only follows bytes that are not zero. -/
theorem leByte_sub (hi : i < 8) (h : ∀ j < i, leByte c j ≠ 0) :
    leByte (c - 0x0101010101010101#64) i = leByte c i - 1 := by
  have hle := ones_le h
  have hc := c.isLt
  have hone : (1 : BitVec 8).toNat = 1 := rfl
  refine BitVec.eq_of_toNat_eq ?_
  rw [toNat_leByte, BitVec.toNat_sub, BitVec.toNat_sub, toNat_leByte, BitVec.toNat_ofNat, hone]
  interval_cases i <;> simp only [ones] at hle ⊢ <;> omega

/-- **`has_zero`**, at a byte that only follows bytes that are not zero. -/
theorem leByte_hasZero (hi : i < 8) (h : ∀ j < i, leByte c j ≠ 0) :
    leByte (hasZero c) i = if leByte c i = 0 then 0x80 else 0 := by
  have hhigh : ∀ i < 8, leByte 0x8080808080808080#64 i = 0x80 := by decide
  have hall : ∀ b : BitVec 8, ((b - 1) &&& ~~~b) &&& 0x80 = if b = 0 then 0x80 else 0 := by
    decide +kernel
  rw [hasZero, leByte_and, leByte_and, leByte_not _ hi, leByte_sub hi h, hhigh i hi, hall]

/-- The lowest bit that is set, and the bits below it. -/
theorem getLsbD_below (h : m.toNat % 2 ^ (j + 1) = 2 ^ j) (hi : i < 64) :
    ((m - 1) &&& ~~~m).getLsbD i = decide (i < j) := by
  obtain ⟨t, ht⟩ : ∃ t, m.toNat = 2 ^ (j + 1) * t + 2 ^ j :=
    ⟨m.toNat / 2 ^ (j + 1), by rw [← h]; exact (Nat.div_add_mod _ _).symm⟩
  have hpos := Nat.two_pow_pos j
  have hsub : (m - 1).toNat = 2 ^ (j + 1) * t + (2 ^ j - 1) := by
    have hone : (1 : BitVec 64).toNat = 1 := rfl
    rw [BitVec.toNat_sub_of_le (by rw [BitVec.le_def, hone]; omega), hone]
    omega
  have hlt : 2 ^ j < 2 ^ (j + 1) := Nat.pow_lt_pow_right (by decide) (Nat.lt_succ_self j)
  rw [BitVec.getLsbD_and, BitVec.getLsbD_not, BitVec.getLsbD, BitVec.getLsbD, hsub, ht,
    Nat.testBit_two_pow_mul_add _ (by omega), Nat.testBit_two_pow_mul_add _ hlt,
    Nat.testBit_two_pow_sub_one, Nat.testBit_two_pow, decide_eq_true hi, Bool.true_and]
  by_cases hle : i < j + 1
  · rw [if_pos hle, if_pos hle]
    by_cases heq : j = i
    · simp [heq]
    · simp [heq]
  · rw [if_neg hle, if_neg hle, Bool.and_not_self]
    exact (decide_eq_false (by omega)).symm

/-- Zero bytes at the bottom of a word make it a multiple. -/
theorem mod_eq_zero (h : ∀ j < k, leByte x j = 0) : x.toNat % 2 ^ (8 * k) = 0 := by
  induction k with
  | zero => exact Nat.mod_one _
  | succ k ih =>
    rw [mod_succ_byte, ih fun j hj => h j (Nat.lt_succ_of_lt hj), h k (Nat.lt_succ_self k)]
    rfl

/-- The first zero byte of a word: the byte `k` is zero, and none below it is. -/
structure FirstZero (c : BitVec 64) (k : ℕ) : Prop where
  lt : k < 8
  before : ∀ j < k, leByte c j ≠ 0
  zero : leByte c k = 0

/-- **`create_zero_mask`**: the mask has the bytes before the first zero byte. -/
theorem createZeroMask_eq (h : FirstZero c k) :
    createZeroMask (hasZero c) = lowMask 64 (8 * k) := by
  have hk := h.lt
  have hlow : (hasZero c).toNat % 2 ^ (8 * k + 7 + 1) = 2 ^ (8 * k + 7) := by
    have hzero : (hasZero c).toNat % 2 ^ (8 * k) = 0 := mod_eq_zero fun j hj => by
      rw [leByte_hasZero (by omega) fun i hi => h.before i (by omega), if_neg (h.before j hj)]
    have hbyte : leByte (hasZero c) k = 0x80 := by
      rw [leByte_hasZero hk h.before, if_pos h.zero]
    have hnext : 8 * k + 7 + 1 = 8 * (k + 1) := by omega
    rw [hnext, mod_succ_byte, hzero, hbyte, Nat.zero_add, Nat.pow_add]
    rfl
  refine BitVec.eq_of_getLsbD_eq fun i hi => ?_
  rw [createZeroMask, BitVec.getLsbD_ushiftRight, lowMask, BitVec.getLsbD_ofNat,
    Nat.testBit_two_pow_sub_one, decide_eq_true hi, Bool.true_and]
  by_cases hin : 7 + i < 64
  · rw [getLsbD_below hlow hin]
    exact decide_eq_decide.mpr (by omega)
  · rw [BitVec.getLsbD_of_ge _ _ (by omega)]
    exact (decide_eq_false (by omega)).symm

/-- **`find_zero`**: the number of bytes in such a mask. -/
theorem findZero_eq (hk : k < 8) : (findZero (lowMask 64 (8 * k))).toNat = k := by
  have hall : ∀ k < 8, (findZero (lowMask 64 (8 * k))).toNat = k := by decide
  exact hall k hk

/-- What is stored of a word: the bytes before the first zero byte, and zeros. -/
theorem leByte_and_lowMask (hk : k < 8) (hi : i < 8) :
    leByte (c &&& lowMask 64 (8 * k)) i = if i < k then leByte c i else 0 := by
  have hall : ∀ k < 8, ∀ i < 8,
      leByte (lowMask 64 (8 * k)) i = if i < k then BitVec.allOnes 8 else 0 := by decide
  rw [leByte_and, hall k hk i hi]
  split
  · exact BitVec.and_allOnes
  · exact BitVec.and_zero

theorem hasZero_ne_zero (h : FirstZero c k) : hasZero c ≠ 0 := by
  intro hzero
  have hbyte := leByte_hasZero h.lt h.before
  rw [if_pos h.zero, hzero] at hbyte
  have hk := h.lt
  interval_cases k <;> exact absurd hbyte (by decide)

/-- **`has_zero`** is zero for a word without a zero byte. -/
theorem hasZero_eq_zero (h : ∀ j < 8, leByte c j ≠ 0) : hasZero c = 0 := by
  have hmod := mod_eq_zero (k := 8) (x := hasZero c) fun j hj => by
    rw [leByte_hasZero hj fun i hi => h i (by omega), if_neg (h j hj)]
  rw [Nat.mod_eq_of_lt (hasZero c).isLt] at hmod
  exact BitVec.eq_of_toNat_eq hmod

/-- A word has a first zero byte, or none. -/
theorem firstZero_or (c : BitVec 64) : (∃ k, FirstZero c k) ∨ ∀ j < 8, leByte c j ≠ 0 := by
  by_cases h : ∃ k, k < 8 ∧ leByte c k = 0
  · obtain ⟨hlt, hzero⟩ := Nat.find_spec h
    exact .inl ⟨Nat.find h, hlt, fun j hj hbyte => Nat.find_min h hj ⟨by omega, hbyte⟩, hzero⟩
  · exact .inr fun j hj hbyte => h ⟨j, hj, hbyte⟩

/-- The bytes of a word that is loaded are those of memory. -/
theorem leByte_read64 (mem : Memory) (p : BitVec 64) (hi : i < 8) :
    leByte (read64 mem p) i = mem (p + BitVec.ofNat 64 i) := by
  have h₄ : p + 4 + 1 = p + 5 ∧ p + 4 + 2 = p + 6 ∧ p + 4 + 3 = p + 7 := by
    simp only [BitVec.add_assoc]
    exact ⟨rfl, rfl, rfl⟩
  refine BitVec.eq_of_getLsbD_eq fun j hj => ?_
  rw [leByte, BitVec.getLsbD_setWidth, BitVec.getLsbD_ushiftRight, decide_eq_true hj, Bool.true_and]
  change BitVec.getLsbD (w := 8 + 8 + 8 + 8 + (8 + 8 + 8 + 8))
    (mem (p + 4 + 3) ++ mem (p + 4 + 2) ++ mem (p + 4 + 1) ++ mem (p + 4) ++
      (mem (p + 3) ++ mem (p + 2) ++ mem (p + 1) ++ mem p)) (8 * i + j) = _
  have h₀ : mem p = mem (p + 0#64) := congrArg mem (BitVec.add_zero p).symm
  rw [h₄.1, h₄.2.1, h₄.2.2, h₀]
  simp only [BitVec.getLsbD_append]
  interval_cases i <;> split_ifs <;> first | omega | exact congrArg _ (by omega)

end Words

/-! ## The loops

The invariant at the offset `res`: everything before it is copied and has no zero byte. Both
loops keep it, by one byte or by eight, and both leave it in the same three ways. -/

/-- The loops at the offset `res`: the bytes before it are copied, and none of them is zero. -/
structure CopiedTo (s : ℕ → BitVec 8) (res : ℕ) (dest₀ dest : ℕ → BitVec 8) : Prop where
  ne_zero : ∀ i < res, s i ≠ 0
  same : ∀ i < res, dest i = s i
  rest : ∀ i, res ≤ i → dest i = dest₀ i

section Loops

variable {mem : Memory} {src c : BitVec 64} {s : ℕ → BitVec 8} {count words res k n : ℕ}
  {dest dest' dest₀ : ℕ → BitVec 8}

/-- A turn that copies `n` bytes leaves the copy as far as it has come. -/
theorem CopiedTo.advance (h : CopiedTo s res dest₀ dest)
    (hne : ∀ i < n, s (res + i) ≠ 0)
    (hnew : ∀ i, dest' i = if res ≤ i ∧ i < res + n then s i else dest i) :
    CopiedTo s (res + n) dest₀ dest' where
  ne_zero i hi := by
    rcases Nat.lt_or_ge i res with hlt | hge
    · exact h.ne_zero i hlt
    · obtain ⟨j, rfl⟩ := Nat.exists_eq_add_of_le hge
      exact hne j (by omega)
  same i hi := by
    rw [hnew]
    split
    · rfl
    · exact h.same i (by omega)
  rest i hi := by
    rw [hnew, if_neg (by omega)]
    exact h.rest i (by omega)

/-- The turn at which the first zero byte is found. -/
theorem CopiedTo.stop (h : CopiedTo s res dest₀ dest) (hlt : res + k < n)
    (hne : ∀ i < k, s (res + i) ≠ 0) (hzero : s (res + k) = 0)
    (hnew : ∀ i ≤ res + k, dest' i = if res ≤ i then s i else dest i)
    (hrest : ∀ i, n ≤ i → dest' i = dest i) :
    Copied s n dest₀ ((res + k : ℕ), dest') where
  found m hm hbefore hmzero := by
    have hmeq : m = res + k := by
      rcases Nat.lt_trichotomy m (res + k) with hless | heq | hmore
      · rcases Nat.lt_or_ge m res with hlt | hge
        · exact absurd hmzero (h.ne_zero m hlt)
        · obtain ⟨j, rfl⟩ := Nat.exists_eq_add_of_le hge
          exact absurd hmzero (hne j (by omega))
      · exact heq
      · exact absurd hzero (hbefore _ hmore)
    refine ⟨congrArg _ hmeq.symm, fun i hi => ?_⟩
    change dest' i = s i
    rw [hnew i (by omega)]
    split
    · rfl
    · exact h.same i (by omega)
  full _ hall := absurd hzero (hall _ hlt)
  empty hempty := by omega
  frame i hi := by
    change dest' i = _
    rw [hrest i hi, h.rest i (by omega)]

theorem strscpyBytes_succ : strscpyBytes mem src (count + 1) res dest =
    if srcByte mem src res = 0 then
      ((res : ℤ), Function.update dest res (srcByte mem src res))
    else strscpyBytes mem src count (res + 1)
      (Function.update dest res (srcByte mem src res)) :=
  rfl

/-- The loop over bytes, up to the end of the buffer. -/
theorem strscpyBytes_copied (count res : ℕ) (h : CopiedTo (srcByte mem src) res dest₀ dest)
    (hpos : 0 < res + count) :
    Copied (srcByte mem src) (res + count) dest₀ (strscpyBytes mem src count res dest) := by
  induction count generalizing res dest with
  | zero =>
    have hres : res ≠ 0 := by omega
    rw [strscpyBytes, if_pos hres, Nat.add_zero]
    refine ⟨fun n hn _ hzero => absurd hzero (h.ne_zero n hn), fun _ _ => ⟨rfl, ?_, ?_⟩, ?_, ?_⟩
    · intro i hi
      exact (Function.update_of_ne (by omega) ..).trans (h.same i (by omega))
    · exact Function.update_self ..
    · exact fun hzero => absurd hzero hres
    · intro i hi
      exact (Function.update_of_ne (by omega) ..).trans (h.rest i hi)
  | succ count ih =>
    have hupdate (i : ℕ) : Function.update dest res (srcByte mem src res) i =
        if res ≤ i ∧ i < res + 1 then srcByte mem src i else dest i := by
      by_cases heq : i = res
      · subst heq
        rw [Function.update_self, if_pos (by omega)]
      · rw [Function.update_of_ne heq, if_neg (by omega)]
    rw [strscpyBytes_succ]
    by_cases hzero : srcByte mem src res = 0
    · rw [if_pos hzero]
      refine h.stop (k := 0) (by omega) (fun i hi => absurd hi (Nat.not_lt_zero i)) hzero ?_ ?_
      · intro i hi
        rw [hupdate]
        congr 1
        simp only [eq_iff_iff]
        omega
      · intro i hi
        rw [hupdate, if_neg (by omega)]
    · rw [if_neg hzero]
      have hnext := ih (res + 1) (h.advance (n := 1) (fun i hi => ?_) hupdate) (by omega)
      · rw [Nat.add_right_comm] at hnext
        exact hnext
      · obtain rfl : i = 0 := by omega
        exact hzero

theorem leByte_word (mem : Memory) (src : BitVec 64) (res : ℕ) {i : ℕ} (hi : i < 8) :
    leByte (read64 mem (src + BitVec.ofNat 64 res)) i = srcByte mem src (res + i) := by
  rw [leByte_read64 _ _ hi, BitVec.add_assoc, ← BitVec.ofNat_add]
  rfl

/-- A word without a zero byte is copied as eight bytes that are not zero. -/
theorem CopiedTo.advance_word (h : CopiedTo s res dest₀ dest)
    (hbyte : ∀ i < 8, leByte c i = s (res + i)) (hnone : ∀ i < 8, leByte c i ≠ 0) :
    CopiedTo s (res + 8) dest₀ (writeWord dest res c) := by
  refine h.advance (fun i hi => ?_) fun i => ?_
  · rw [← hbyte i hi]
    exact hnone i hi
  · rw [writeWord]
    by_cases hin : res ≤ i ∧ i < res + 8
    · obtain ⟨j, rfl⟩ := Nat.exists_eq_add_of_le hin.1
      rw [if_pos hin, if_pos hin, Nat.add_sub_cancel_left, ← hbyte j (by omega)]
      rfl
    · rw [if_neg hin, if_neg hin]

/-- A word with a zero byte ends the copy; the bytes after that one are cleared. -/
theorem CopiedTo.stop_word (h : CopiedTo s res dest₀ dest) (hn : res + 8 ≤ n)
    (hbyte : ∀ i < 8, leByte c i = s (res + i)) (hk : FirstZero c k) :
    Copied s n dest₀ ((res + k : ℕ), writeWord dest res (c &&& lowMask 64 (8 * k))) := by
  have hlt := hk.lt
  refine h.stop (k := k) (by omega) (fun i hi => ?_) ?_ ?_ ?_
  · rw [← hbyte i (by omega)]
    exact hk.before i hi
  · rw [← hbyte k hlt]
    exact hk.zero
  · intro i hi
    rw [writeWord]
    by_cases hge : res ≤ i
    · obtain ⟨j, rfl⟩ := Nat.exists_eq_add_of_le hge
      rw [if_pos (by omega), if_pos hge, Nat.add_sub_cancel_left]
      change leByte (c &&& lowMask 64 (8 * k)) j = _
      rw [leByte_and_lowMask hlt (by omega), ← hbyte j (by omega)]
      split
      · rfl
      · obtain rfl : j = k := by omega
        exact hk.zero.symm
    · rw [if_neg (by omega), if_neg hge]
  · intro i hi
    rw [writeWord, if_neg (by omega)]

/-- The loop over words, and the one over bytes behind it, complete the copy. -/
theorem strscpyWords_copied (count res : ℕ) (h : CopiedTo (srcByte mem src) res dest₀ dest)
    (hpos : 0 < res + count) (hwords : 8 * words ≤ count) :
    Copied (srcByte mem src) (res + count) dest₀ (strscpyWords mem src words count res dest) := by
  induction words generalizing count res dest with
  | zero => exact strscpyBytes_copied count res h hpos
  | succ words ih =>
    have hbyte : ∀ i < 8, leByte (read64 mem (src + BitVec.ofNat 64 res)) i =
        srcByte mem src (res + i) := fun i hi => leByte_word mem src res hi
    rw [strscpyWords]
    generalize read64 mem (src + BitVec.ofNat 64 res) = c at hbyte
    rcases firstZero_or c with ⟨k, hk⟩ | hnone
    · rw [if_pos (hasZero_ne_zero hk), createZeroMask_eq hk]
      dsimp only
      rw [findZero_eq hk.lt, ← Int.natCast_add]
      exact h.stop_word (by omega) hbyte hk
    · rw [if_neg (not_not_intro (hasZero_eq_zero hnone))]
      have hnext := ih (count - 8) (res + 8) (h.advance_word hbyte hnone) (by omega) (by omega)
      have htotal : res + 8 + (count - 8) = res + count := by omega
      rw [htotal] at hnext
      exact hnext

/-! ## The accesses

The listed accesses are inside of the buffer. The function follows the list: with other bytes
where nothing is loaded it does the same, and where nothing is stored the destination stays. -/

theorem strscpyBytesAccesses_inside (mem : Memory) (src : BitVec 64) (count res : ℕ)
    (hpos : 0 < res + count) :
    ∀ access ∈ strscpyBytesAccesses mem src count res, access.Inside (res + count) := by
  induction count generalizing res with
  | zero =>
    rw [strscpyBytesAccesses, if_pos (by omega)]
    rintro access haccess
    obtain rfl := List.mem_singleton.mp haccess
    change res - 1 + 1 ≤ res + 0
    omega
  | succ count ih =>
    have hnext := ih (res + 1) (by omega)
    rw [Nat.add_right_comm] at hnext
    rw [strscpyBytesAccesses]
    intro access haccess
    rcases List.mem_append.mp haccess with hnow | hlater
    · rcases List.mem_pair.mp hnow with rfl | rfl
      · change res + 1 ≤ res + (count + 1)
        omega
      · change res + 1 ≤ res + (count + 1)
        omega
    · split at hlater
      · cases hlater
      · exact hnext access hlater

theorem strscpyWordsAccesses_inside (mem : Memory) (src : BitVec 64) (count res : ℕ)
    (hpos : 0 < res + count) (hwords : 8 * words ≤ count) :
    ∀ access ∈ strscpyWordsAccesses mem src words count res, access.Inside (res + count) := by
  induction words generalizing count res with
  | zero => exact strscpyBytesAccesses_inside mem src count res hpos
  | succ words ih =>
    have hnext := ih (count - 8) (res + 8) (by omega) (by omega)
    have htotal : res + 8 + (count - 8) = res + count := by omega
    rw [htotal] at hnext
    rw [strscpyWordsAccesses]
    intro access haccess
    rcases List.mem_append.mp haccess with hnow | hlater
    · rcases List.mem_pair.mp hnow with rfl | rfl
      · change res + 8 ≤ res + count
        omega
      · change res + 8 ≤ res + count
        omega
    · split at hlater
      · cases hlater
      · exact hnext access hlater

/-- Bytes that are the same make a word that is. -/
theorem read64_eq_of_srcByte {mem' : Memory}
    (h : ∀ i < 8, srcByte mem' src (res + i) = srcByte mem src (res + i)) :
    read64 mem' (src + BitVec.ofNat 64 res) = read64 mem (src + BitVec.ofNat 64 res) := by
  refine BitVec.eq_of_getLsbD_eq fun j hj => ?_
  have hbyte := h (j / 8) (by omega)
  rw [← leByte_word mem' src res (by omega), ← leByte_word mem src res (by omega)] at hbyte
  have hbit := congrArg (fun b => b.getLsbD (j % 8)) hbyte
  have hlt : j % 8 < 8 := Nat.mod_lt j (by decide)
  simpa only [leByte, BitVec.getLsbD_setWidth, BitVec.getLsbD_ushiftRight, hlt, decide_true,
    Bool.true_and, Nat.div_add_mod] using hbit

/-- The accesses say all that the loop over bytes reads. -/
theorem strscpyBytes_loads {mem' : Memory} (count res : ℕ) (dest : ℕ → BitVec 8)
    (h : ∀ access ∈ strscpyBytesAccesses mem src count res, ∀ i, access.Loads i →
      srcByte mem' src i = srcByte mem src i) :
    strscpyBytes mem' src count res dest = strscpyBytes mem src count res dest := by
  induction count generalizing res dest with
  | zero => rfl
  | succ count ih =>
    rw [strscpyBytesAccesses] at h
    have hbyte : srcByte mem' src res = srcByte mem src res :=
      h (.load res 1) (List.mem_append_left _ List.mem_cons_self) res
        ⟨Nat.le_refl res, Nat.lt_succ_self res⟩
    rw [strscpyBytes_succ, strscpyBytes_succ, hbyte]
    by_cases hzero : srcByte mem src res = 0
    · rw [if_pos hzero, if_pos hzero]
    · rw [if_neg hzero, if_neg hzero]
      refine ih (res + 1) _ fun access haccess => h access (List.mem_append_right _ ?_)
      exact (if_neg hzero).symm ▸ haccess

/-- All that the loop over words does depends on the bytes that it loads. -/
theorem strscpyWords_loads {mem' : Memory} (count res : ℕ) (dest : ℕ → BitVec 8)
    (h : ∀ access ∈ strscpyWordsAccesses mem src words count res, ∀ i, access.Loads i →
      srcByte mem' src i = srcByte mem src i) :
    strscpyWords mem' src words count res dest = strscpyWords mem src words count res dest := by
  induction words generalizing count res dest with
  | zero => exact strscpyBytes_loads count res dest h
  | succ words ih =>
    rw [strscpyWordsAccesses] at h
    have hword : read64 mem' (src + BitVec.ofNat 64 res) =
        read64 mem (src + BitVec.ofNat 64 res) :=
      read64_eq_of_srcByte fun i hi =>
        h (.load res 8) (List.mem_append_left _ List.mem_cons_self) (res + i)
          ⟨Nat.le_add_right res i, Nat.add_lt_add_left hi res⟩
    rw [strscpyWords, strscpyWords, hword]
    by_cases hzero : hasZero (read64 mem (src + BitVec.ofNat 64 res)) ≠ 0
    · rw [if_pos hzero, if_pos hzero]
    · rw [if_neg hzero, if_neg hzero]
      refine ih (count - 8) (res + 8) _ fun access haccess =>
        h access (List.mem_append_right _ ?_)
      exact (if_neg hzero).symm ▸ haccess

/-- The loop over bytes changes what the accesses store, and nothing else. -/
theorem strscpyBytes_stores (count res : ℕ) (dest : ℕ → BitVec 8) {i : ℕ}
    (h : ∀ access ∈ strscpyBytesAccesses mem src count res, ¬access.Stores i) :
    (strscpyBytes mem src count res dest).2 i = dest i := by
  induction count generalizing res dest with
  | zero =>
    rw [strscpyBytesAccesses] at h
    rw [strscpyBytes]
    by_cases hres : res ≠ 0
    · rw [if_pos hres] at h ⊢
      have hnot := h _ List.mem_cons_self
      refine Function.update_of_ne (fun heq => hnot ?_) ..
      exact ⟨Nat.le_of_eq heq.symm, by omega⟩
    · rw [if_neg hres]
  | succ count ih =>
    rw [strscpyBytesAccesses] at h
    have hne : i ≠ res := fun heq =>
      h (.store res 1) (List.mem_append_left _ (List.mem_cons_of_mem _ List.mem_cons_self))
        ⟨Nat.le_of_eq heq.symm, heq ▸ Nat.lt_succ_self i⟩
    rw [strscpyBytes_succ]
    by_cases hzero : srcByte mem src res = 0
    · rw [if_pos hzero]
      exact Function.update_of_ne hne ..
    · rw [if_neg hzero, ih (res + 1) _ fun access haccess =>
        h access (List.mem_append_right _ ((if_neg hzero).symm ▸ haccess))]
      exact Function.update_of_ne hne ..

theorem strscpyWords_stores (count res : ℕ) (dest : ℕ → BitVec 8) {i : ℕ}
    (h : ∀ access ∈ strscpyWordsAccesses mem src words count res, ¬access.Stores i) :
    (strscpyWords mem src words count res dest).2 i = dest i := by
  induction words generalizing count res dest with
  | zero => exact strscpyBytes_stores count res dest h
  | succ words ih =>
    rw [strscpyWordsAccesses] at h
    have hnot : ¬(res ≤ i ∧ i < res + 8) :=
      h (.store res 8) (List.mem_append_left _ (List.mem_cons_of_mem _ List.mem_cons_self))
    rw [strscpyWords]
    by_cases hzero : hasZero (read64 mem (src + BitVec.ofNat 64 res)) ≠ 0
    · rw [if_pos hzero]
      exact if_neg hnot
    · rw [if_neg hzero, ih (count - 8) (res + 8) _ fun access haccess =>
        h access (List.mem_append_right _ ((if_neg hzero).symm ▸ haccess))]
      exact if_neg hnot

end Loops

/-! ## The function -/

/-- The words that are copied at most are inside of `count` bytes. -/
theorem words_le (a : BitVec 64) (count : ℕ) :
    8 * ((if a &&& 7 ≠ 0 then 0 else count) / 8) ≤ count := by
  split
  · omega
  · omega

theorem strscpy_copied (mem : Memory) (destAddr src : BitVec 64) (count : ℕ)
    (dest : ℕ → BitVec 8) :
    Copied (srcByte mem src) count dest (strscpy mem destAddr src count dest) := by
  rw [strscpy]
  by_cases hzero : count = 0
  · subst hzero
    rw [if_pos rfl]
    exact ⟨fun n hn => absurd hn (Nat.not_lt_zero n), fun h => absurd h (Nat.lt_irrefl 0),
      fun _ => rfl, fun _ _ => rfl⟩
  · have hstart : CopiedTo (srcByte mem src) 0 dest dest :=
      ⟨fun i hi => absurd hi (Nat.not_lt_zero i), fun i hi => absurd hi (Nat.not_lt_zero i),
        fun _ _ => rfl⟩
    have hcopied := strscpyWords_copied count 0 hstart (by omega)
      (words_le (destAddr ||| src) count)
    rw [Nat.zero_add] at hcopied
    rw [if_neg hzero]
    exact hcopied

theorem strscpyAccesses_inside (mem : Memory) (destAddr src : BitVec 64) (count : ℕ) :
    ∀ access ∈ strscpyAccesses mem destAddr src count, access.Inside count := by
  rw [strscpyAccesses]
  by_cases hzero : count = 0
  · rw [if_pos hzero]
    exact fun access haccess => absurd haccess List.not_mem_nil
  · have hinside := strscpyWordsAccesses_inside mem src count 0 (by omega)
      (words_le (destAddr ||| src) count)
    rw [Nat.zero_add] at hinside
    rw [if_neg hzero]
    exact hinside

/-- **The accesses** are those of the function: what it returns and stores depends on no other
byte of the source, and it changes no other byte of the destination. -/
theorem strscpy_accesses (mem : Memory) (destAddr src : BitVec 64) (count : ℕ)
    (dest : ℕ → BitVec 8) :
    (∀ mem', (∀ access ∈ strscpyAccesses mem destAddr src count, ∀ i, access.Loads i →
        srcByte mem' src i = srcByte mem src i) →
      strscpy mem' destAddr src count dest = strscpy mem destAddr src count dest) ∧
    ∀ i, (∀ access ∈ strscpyAccesses mem destAddr src count, ¬access.Stores i) →
      (strscpy mem destAddr src count dest).2 i = dest i := by
  by_cases hzero : count = 0
  · subst hzero
    exact ⟨fun _ _ => rfl, fun _ _ => rfl⟩
  · simp only [strscpyAccesses, strscpy, if_neg hzero]
    exact ⟨fun mem' h => strscpyWords_loads count 0 dest h,
      fun i h => strscpyWords_stores count 0 dest h⟩

/-- Two copies of the same string, up to the NUL. -/
theorem Copied.agree {s s' : ℕ → BitVec 8} {count : ℕ} {dest dest' : ℕ → BitVec 8}
    {r r' : ℤ × (ℕ → BitVec 8)} (h : Copied s count dest r) (h' : Copied s' count dest' r')
    (hsame : ∀ i < count, s' i = s i) :
    r'.1 = r.1 ∧ ∀ i < count, (∀ j < i, r.2 j ≠ 0) → r'.2 i = r.2 i := by
  by_cases hnul : ∃ n, n < count ∧ s n = 0
  · -- a NUL: both copies end there
    obtain ⟨hlt, hzero⟩ := Nat.find_spec hnul
    have hbefore : ∀ i < Nat.find hnul, s i ≠ 0 := fun i hi hsi =>
      Nat.find_min hnul hi ⟨by omega, hsi⟩
    generalize Nat.find hnul = n at hlt hzero hbefore
    obtain ⟨hret, hbytes⟩ := h.found n hlt hbefore hzero
    obtain ⟨hret', hbytes'⟩ := h'.found n hlt
      (fun i hi => by rw [hsame i (by omega)]; exact hbefore i hi) (by rw [hsame n hlt, hzero])
    refine ⟨by rw [hret, hret'], fun i hi hne => ?_⟩
    have hle : i ≤ n := by
      by_contra hlater
      exact hne n (by omega) (by rw [hbytes n le_rfl, hzero])
    rw [hbytes i hle, hbytes' i hle, hsame i hi]
  have hall : ∀ i < count, s i ≠ 0 := fun i hi hsi => hnul ⟨i, hi, hsi⟩
  rcases Nat.eq_zero_or_pos count with hempty | hpos
  · rw [h.empty hempty, h'.empty hempty]
    exact ⟨rfl, fun i hi => by omega⟩
  · -- no NUL: both are cut
    obtain ⟨hret, hbytes, hlast⟩ := h.full hpos hall
    obtain ⟨hret', hbytes', hlast'⟩ := h'.full hpos fun i hi => by rw [hsame i hi]; exact hall i hi
    refine ⟨by rw [hret, hret'], fun i hi _ => ?_⟩
    by_cases hend : i + 1 < count
    · rw [hbytes i hend, hbytes' i hend, hsame i hi]
    · obtain rfl : i = count - 1 := by omega
      rw [hlast, hlast']

/-- What `strscpy` should do: copy, with all loads and stores inside of `count` bytes, and the
same at every alignment. The loads and stores are all that it depends on and changes. -/
structure StrscpyRight (mem : Memory) (destAddr src : BitVec 64) (count : ℕ)
    (dest : ℕ → BitVec 8) : Prop
    extends Copied (srcByte mem src) count dest (strscpy mem destAddr src count dest) where
  inside : ∀ access ∈ strscpyAccesses mem destAddr src count, access.Inside count
  nothing : count = 0 → strscpyAccesses mem destAddr src count = []
  loads : ∀ mem', (∀ access ∈ strscpyAccesses mem destAddr src count, ∀ i, access.Loads i →
      srcByte mem' src i = srcByte mem src i) →
    strscpy mem' destAddr src count dest = strscpy mem destAddr src count dest
  stores : ∀ i, (∀ access ∈ strscpyAccesses mem destAddr src count, ¬access.Stores i) →
    (strscpy mem destAddr src count dest).2 i = dest i
  alignment : ∀ mem' destAddr' src' dest',
    (∀ i < count, srcByte mem' src' i = srcByte mem src i) →
    (strscpy mem' destAddr' src' count dest').1 = (strscpy mem destAddr src count dest).1 ∧
      ∀ i < count, (∀ j < i, (strscpy mem destAddr src count dest).2 j ≠ 0) →
        (strscpy mem' destAddr' src' count dest').2 i = (strscpy mem destAddr src count dest).2 i

/-- **`strscpy`** is the byte-wise copy, whatever the string, the size and the alignment are. -/
theorem strscpy_right (mem : Memory) (destAddr src : BitVec 64) (count : ℕ)
    (dest : ℕ → BitVec 8) : StrscpyRight mem destAddr src count dest where
  toCopied := strscpy_copied mem destAddr src count dest
  inside := strscpyAccesses_inside mem destAddr src count
  nothing hzero := if_pos hzero
  loads := (strscpy_accesses mem destAddr src count dest).1
  stores := (strscpy_accesses mem destAddr src count dest).2
  alignment mem' destAddr' src' dest' hsame :=
    (strscpy_copied mem destAddr src count dest).agree
      (strscpy_copied mem' destAddr' src' count dest') hsame

end Lvisor
