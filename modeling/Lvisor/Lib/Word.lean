import Mathlib.Data.Nat.Bitwise

/-!
# Words, low bits and aligned words

An offset from an address is an addition of numbers while it does not wrap.

Machine code splits a word into a field of low bits and the rest by masking. For
the mask `lowMask w k` of the low `k` bits of a `w`-bit word, the two halves of
`x` are its remainder and its rounded-down multiple of `2 ^ k`; a word whose low
bits are clear takes a value in them by `|||` as it would by `+`.

A `flag` is the test of a word under a mask, and `putFlag` sets or clears one; flags
under disjoint masks do not disturb each other.
-/

namespace Lvisor

variable {w k : ℕ}

/-! ## Offsets -/

section Offsets

variable {p : BitVec w} {n : ℕ}

/-- An offset that does not wrap adds up as a number. -/
theorem toNat_add_ofNat (h : p.toNat + n < 2 ^ w) :
    (p + BitVec.ofNat w n).toNat = p.toNat + n := by
  rw [BitVec.toNat_add, BitVec.toNat_ofNat, Nat.add_mod_mod, Nat.mod_eq_of_lt h]

theorem lt_add_ofNat (hpos : 0 < n) (h : p.toNat + n < 2 ^ w) : p < p + BitVec.ofNat w n := by
  rw [BitVec.lt_def, toNat_add_ofNat h]
  exact Nat.lt_add_of_pos_right hpos

theorem add_one_add_ofNat (p : BitVec w) (n : ℕ) :
    p + 1 + BitVec.ofNat w n = p + BitVec.ofNat w (n + 1) := by
  rw [BitVec.ofNat_add, BitVec.add_assoc, BitVec.add_comm (BitVec.ofNat w n)]
  rfl

end Offsets

/-! ## Low bits

The two halves of a word under a mask of low bits, as a remainder and as a multiple. This is how
offsets in a page and flags in an entry are taken out of a word and put into it. -/

/-- The mask of the low `k` bits of a word. -/
def lowMask (w k : ℕ) : BitVec w := BitVec.ofNat w (2 ^ k - 1)

theorem toNat_lowMask (hk : k ≤ w) : (lowMask w k).toNat = 2 ^ k - 1 := by
  have h : 2 ^ k ≤ 2 ^ w := Nat.pow_le_pow_right (by decide) hk
  have h0 : 0 < 2 ^ k := Nat.two_pow_pos k
  rw [lowMask, BitVec.toNat_ofNat, Nat.mod_eq_of_lt (by omega)]

/-- Masking the low bits in is the remainder. -/
theorem toNat_and_lowMask (hk : k ≤ w) (x : BitVec w) :
    (x &&& lowMask w k).toNat = x.toNat % 2 ^ k := by
  rw [BitVec.toNat_and, toNat_lowMask hk, Nat.and_two_pow_sub_one_eq_mod]

/-- The two halves of a word make it up again. -/
theorem and_not_or_and (x m : BitVec w) : (x &&& ~~~m) ||| (x &&& m) = x := by
  ext i hi
  simp only [BitVec.getElem_or, BitVec.getElem_and, BitVec.getElem_not]
  cases x[i] <;> cases m[i] <;> rfl

theorem and_not_and_and (x m : BitVec w) : (x &&& ~~~m) &&& (x &&& m) = 0#w := by
  ext i hi
  simp only [BitVec.getElem_and, BitVec.getElem_not, BitVec.getElem_zero]
  cases x[i] <;> cases m[i] <;> rfl

/-- Masking the low bits out rounds down. -/
theorem toNat_and_not_lowMask (hk : k ≤ w) (x : BitVec w) :
    (x &&& ~~~lowMask w k).toNat = x.toNat / 2 ^ k * 2 ^ k := by
  have hsum : (x &&& ~~~lowMask w k).toNat + (x &&& lowMask w k).toNat = x.toNat := by
    rw [← BitVec.toNat_add_of_and_eq_zero (and_not_and_and x _),
      BitVec.add_eq_or_of_and_eq_zero _ _ (and_not_and_and x _), and_not_or_and]
  rw [toNat_and_lowMask hk] at hsum
  have hdiv := Nat.div_add_mod' x.toNat (2 ^ k)
  omega

/-- A word whose low bits are clear loses nothing when they are masked out. -/
theorem and_not_lowMask_of_aligned (hk : k ≤ w) {x : BitVec w} (hx : x.toNat % 2 ^ k = 0) :
    x &&& ~~~lowMask w k = x := by
  apply BitVec.eq_of_toNat_eq
  rw [toNat_and_not_lowMask hk]
  have hdiv := Nat.div_add_mod' x.toNat (2 ^ k)
  omega

/-- A word below `2 ^ k` lies inside the mask. -/
theorem and_lowMask_of_lt (hk : k ≤ w) {x : BitVec w} (hx : x.toNat < 2 ^ k) :
    x &&& lowMask w k = x := by
  apply BitVec.eq_of_toNat_eq
  rw [toNat_and_lowMask hk, Nat.mod_eq_of_lt hx]

/-- An aligned word and a value of its low bits share no bit. -/
theorem and_eq_zero_of_aligned (hk : k ≤ w) {x y : BitVec w} (hx : x.toNat % 2 ^ k = 0)
    (hy : y.toNat < 2 ^ k) : x &&& y = 0#w := by
  rw [← and_not_lowMask_of_aligned hk hx, ← and_lowMask_of_lt hk hy]
  ext i hi
  simp only [BitVec.getElem_and, BitVec.getElem_not, BitVec.getElem_zero]
  cases x[i] <;> cases y[i] <;> cases (lowMask w k)[i] <;> rfl

/-- Setting the low bits of an aligned word adds them. -/
theorem toNat_or_of_aligned (hk : k ≤ w) {x y : BitVec w} (hx : x.toNat % 2 ^ k = 0)
    (hy : y.toNat < 2 ^ k) : (x ||| y).toNat = x.toNat + y.toNat := by
  have h := and_eq_zero_of_aligned hk hx hy
  rw [← BitVec.add_eq_or_of_and_eq_zero _ _ h, BitVec.toNat_add_of_and_eq_zero h]

/-- Masking the low bits out again recovers an aligned word. -/
theorem or_and_not_lowMask (hk : k ≤ w) {x y : BitVec w} (hx : x.toNat % 2 ^ k = 0)
    (hy : y.toNat < 2 ^ k) : (x ||| y) &&& ~~~lowMask w k = x := by
  apply BitVec.eq_of_toNat_eq
  rw [toNat_and_not_lowMask hk, toNat_or_of_aligned hk hx hy]
  have hx' := Nat.div_add_mod' x.toNat (2 ^ k)
  have hpos : 0 < 2 ^ k := Nat.two_pow_pos k
  have hdiv : (x.toNat + y.toNat) / 2 ^ k = x.toNat / 2 ^ k := by
    rw [hx, Nat.add_zero] at hx'
    rw [← hx', Nat.add_comm, Nat.add_mul_div_right _ _ hpos, Nat.div_eq_of_lt hy,
      Nat.zero_add, Nat.mul_div_cancel _ hpos]
  rw [hdiv]
  omega

/-- A field of `n` bits above bit `k` is a quotient and a remainder. -/
theorem toNat_shiftRight_and_lowMask {n : ℕ} (hn : n ≤ w) (x : BitVec w) :
    ((x >>> k) &&& lowMask w n).toNat = x.toNat / 2 ^ k % 2 ^ n := by
  rw [toNat_and_lowMask hn, BitVec.toNat_ushiftRight, Nat.shiftRight_eq_div_pow]

/-! ## Flags -/

section Flags

variable {x m n : BitVec w} {b : Bool}

/-- Whether a word has a bit of the mask set. -/
def flag (x m : BitVec w) : Bool := x &&& m ≠ 0#w

/-- Set or clear all bits of the mask, and leave the others. -/
def putFlag (x m : BitVec w) (b : Bool) : BitVec w := if b then x ||| m else x &&& ~~~m

theorem flag_eq_true : flag x m = true ↔ x &&& m ≠ 0#w := by
  simp [flag]

theorem flag_eq_false : flag x m = false ↔ x &&& m = 0#w := by
  simp [flag]

/-- Setting the bits of a mask sets them. -/
theorem or_and_self (x m : BitVec w) : (x ||| m) &&& m = m := by
  ext i hi
  simp only [BitVec.getElem_and, BitVec.getElem_or]
  cases x[i] <;> cases m[i] <;> rfl

/-- Clearing the bits of a mask clears them. -/
theorem and_not_and_self (x m : BitVec w) : (x &&& ~~~m) &&& m = 0#w := by
  ext i hi
  simp only [BitVec.getElem_and, BitVec.getElem_not, BitVec.getElem_zero]
  cases x[i] <;> cases m[i] <;> rfl

/-- Bits outside of a mask are not seen through it. -/
theorem or_and_of_disjoint (h : n &&& m = 0#w) : (x ||| n) &&& m = x &&& m := by
  ext i hi
  have hi' := congrArg (fun z => z.getLsbD i) h
  simp only [BitVec.getLsbD_eq_getElem hi, BitVec.getElem_and, BitVec.getElem_zero] at hi'
  simp only [BitVec.getElem_and, BitVec.getElem_or]
  revert hi'
  cases x[i] <;> cases m[i] <;> cases n[i] <;> simp

theorem and_not_and_of_disjoint (h : n &&& m = 0#w) : (x &&& ~~~n) &&& m = x &&& m := by
  ext i hi
  have hi' := congrArg (fun z => z.getLsbD i) h
  simp only [BitVec.getLsbD_eq_getElem hi, BitVec.getElem_and, BitVec.getElem_zero] at hi'
  simp only [BitVec.getElem_and, BitVec.getElem_not]
  revert hi'
  cases x[i] <;> cases m[i] <;> cases n[i] <;> simp

/-- A word that takes the bits of `m` from `x` and the others from `y` has those of `x`. -/
theorem merge_and (x y m : BitVec w) : ((x &&& m) ||| (y &&& ~~~m)) &&& m = x &&& m := by
  ext i hi
  simp only [BitVec.getElem_and, BitVec.getElem_or, BitVec.getElem_not]
  cases x[i] <;> cases y[i] <;> cases m[i] <;> rfl

theorem flag_or_of_disjoint (h : n &&& m = 0#w) : flag (x ||| n) m = flag x m := by
  rw [flag, or_and_of_disjoint h, flag]

theorem flag_and_not_of_disjoint (h : n &&& m = 0#w) : flag (x &&& ~~~n) m = flag x m := by
  rw [flag, and_not_and_of_disjoint h, flag]

@[simp] theorem flag_zero (m : BitVec w) : flag 0#w m = false := by
  simp [flag]

@[simp] theorem flag_and_not_self (x m : BitVec w) : flag (x &&& ~~~m) m = false := by
  rw [flag_eq_false, and_not_and_self]

theorem flag_or_self (x : BitVec w) (hm : m ≠ 0#w) : flag (x ||| m) m = true := by
  rw [flag_eq_true, or_and_self]
  exact hm

/-- A flag that is put is read back. -/
theorem flag_putFlag (x : BitVec w) (hm : m ≠ 0#w) : flag (putFlag x m b) m = b := by
  cases b
  · exact flag_and_not_self x m
  · exact flag_or_self x hm

/-- Flags under disjoint masks are independent. -/
theorem flag_putFlag_of_disjoint (h : n &&& m = 0#w) : flag (putFlag x n b) m = flag x m := by
  cases b
  · exact flag_and_not_of_disjoint h
  · exact flag_or_of_disjoint h

end Flags

end Lvisor
