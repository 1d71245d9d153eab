import Mathlib.Data.BitVec
import Lvisor.Lib.Search
import Lvisor.Lib.Word
import Lvisor.Machine

/-!
# Searches in bitmaps (`lib/find_bit.c`)

The searches go over the words of a bitmap and take the number of the lowest or the highest bit
of the first word that is not zero. The bits before the start are masked out of the first word;
bits of the last word from `size` on are found, and cut off with `min`, or masked out by the
search that goes down.

* `LoadsBelow` — all that is known of the loads: they give the words that start below `size`;
* `findNextLoop_next`, `findFirstLoop_next`, `findLastLoop_last` — the loops;
* `forEachClearBitFrom_eq` — the loop over the clear bits, which sets each of them;
* `bitmap_searches` — all of it.
-/

namespace Lvisor

/-! ## The code

The functions get the words of the bitmap by a load from an index, which is a parameter: a search
may read behind the end of the bitmap in principle, and the results are about loads of which
nothing is known there. -/

/-- `BITS_PER_LONG`, which is also the distance from one word to the next. -/
abbrev bitsPerLong : BitVec 64 := 64#64

/-- `BITMAP_FIRST_WORD_MASK`: the bits of a word from the start on. -/
def bitmapFirstWordMask (start : BitVec 64) : BitVec 64 :=
  BitVec.allOnes 64 <<< (start &&& (bitsPerLong - 1))

/-- `BITMAP_LAST_WORD_MASK`: the bits of a word below the end, and all of them if the end is that
of the word. -/
def bitmapLastWordMask (nbits : BitVec 64) : BitVec 64 :=
  BitVec.allOnes 64 >>> (-nbits &&& (bitsPerLong - 1))

/-- `__ffs`: the number of the lowest bit that is set. -/
def ffs (word : BitVec 64) : BitVec 64 := word.ctz

/-- `ffz`: the number of the lowest bit that is clear. -/
def ffz (word : BitVec 64) : BitVec 64 := ffs (~~~word)

/-- `__fls`: the number of the highest bit that is set. -/
def fls (word : BitVec 64) : BitVec 64 := 63 - word.clz

/-- `min`, of unsigned numbers. -/
def umin (x y : BitVec 64) : BitVec 64 := if x < y then x else y

/-- `rounddown`: the start of the word that a bit is in. -/
def rounddown (x y : BitVec 64) : BitVec 64 := x - x % y

section Code

-- the loads of `addr[i]`
variable (addr : BitVec 64 → Exec (BitVec 64))

/-- The loop of `_find_next_bit`, and what follows it. `tmp` has the bits of the current word
that are asked for. -/
def findNextLoop (nbits invert : BitVec 64) : ℕ → BitVec 64 → BitVec 64 → Exec (BitVec 64)
  | 0, _, _ => .error .outOfFuel
  | fuel + 1, start, tmp =>
    if tmp = 0 then
      if start + bitsPerLong ≥ nbits then return nbits
      else do
        let word ← addr ((start + bitsPerLong) / bitsPerLong)
        findNextLoop nbits invert fuel (start + bitsPerLong) (word ^^^ invert)
    else return umin (start + ffs tmp) nbits

/-- `_find_next_bit`. The loop takes no more turns than there are words. -/
def findNextBit' (nbits start invert : BitVec 64) : Exec (BitVec 64) :=
  if start ≥ nbits then return nbits
  else do
    let word ← addr (start / bitsPerLong)
    findNextLoop addr nbits invert (nbits.toNat / 64 + 1) (rounddown start bitsPerLong)
      ((word ^^^ invert) &&& bitmapFirstWordMask start)

/-- `find_next_bit`: the first bit that is set, from `offset` on, or `size`. -/
def findNextBit (size offset : BitVec 64) : Exec (BitVec 64) := findNextBit' addr size offset 0

/-- `find_next_zero_bit`: the same for a clear bit, by inverting each word. -/
def findNextZeroBit (size offset : BitVec 64) : Exec (BitVec 64) :=
  findNextBit' addr size offset (BitVec.allOnes 64)

/-- The loop of `find_first_bit` and `find_first_zero_bit`: it ends at a word with `stop`, with
the number that `index` has for it. -/
def findFirstLoop (stop : BitVec 64 → Bool) (index : BitVec 64 → BitVec 64) (size : BitVec 64) :
    ℕ → BitVec 64 → Exec (BitVec 64)
  | 0, _ => .error .outOfFuel
  | fuel + 1, idx =>
    if idx * bitsPerLong < size then do
      let word ← addr idx
      if stop word then return umin (idx * bitsPerLong + index word) size
      else findFirstLoop stop index size fuel (idx + 1)
    else return size

/-- `find_first_bit`: it looks at whole words, and cuts the result off at `size`. -/
def findFirstBit (size : BitVec 64) : Exec (BitVec 64) :=
  findFirstLoop addr (fun word => word ≠ 0) ffs size (size.toNat / 64 + 2) 0

/-- `find_first_zero_bit`: the same for a word that is not all ones. -/
def findFirstZeroBit (size : BitVec 64) : Exec (BitVec 64) :=
  findFirstLoop addr (fun word => word ≠ BitVec.allOnes 64) ffz size (size.toNat / 64 + 2) 0

/-- The loop of `find_last_bit`, from the word `idx` down. -/
def findLastLoop (size : BitVec 64) : ℕ → BitVec 64 → Exec (BitVec 64)
  | 0, val => do
    let word ← addr 0
    if val &&& word ≠ 0 then return 0 * bitsPerLong + fls (val &&& word)
    else return size
  | idx + 1, val => do
    let word ← addr (BitVec.ofNat 64 (idx + 1))
    if val &&& word ≠ 0 then
      return BitVec.ofNat 64 (idx + 1) * bitsPerLong + fls (val &&& word)
    else findLastLoop size idx (BitVec.allOnes 64)

/-- `find_last_bit`: from the last word down, with the bits behind `size` masked in the first one
it looks at. -/
def findLastBit (size : BitVec 64) : Exec (BitVec 64) :=
  if size ≠ 0 then
    findLastLoop addr size ((size - 1) / bitsPerLong).toNat (bitmapLastWordMask size)
  else return size

end Code

/-- The word `i` of a bitmap, and zero behind its end. -/
def wordsOf {n : ℕ} (bm : Vector (BitVec 64) n) (i : ℕ) : BitVec 64 := bm[i]?.getD 0

/-- The load of the word `i` of a bitmap. -/
def loadWord {n : ℕ} (bm : Vector (BitVec 64) n) (i : BitVec 64) : Exec (BitVec 64) :=
  if i.toNat < n then .ok (wordsOf bm i.toNat) else .error .outOfBounds

/-- `set_bit`, for a bit of the bitmap; no other word is stored to. -/
def setBit {n : ℕ} (nr : BitVec 64) (bm : Vector (BitVec 64) n) : Exec (Vector (BitVec 64) n) :=
  store bm (nr.toNat / 64) (wordsOf bm (nr.toNat / 64) ||| BitVec.twoPow 64 (nr.toNat % 64))

section ForEach

-- the conversion to the type of `bit`, and the words as they are in a state of the loop
variable {σ : Type} (assign : BitVec 64 → BitVec 64) (addr : σ → BitVec 64 → Exec (BitVec 64))
  (size : BitVec 64) (body : BitVec 64 → σ → Exec σ)

/-- The loop of `for_each_clear_bit_from`: the body, and then the next clear bit of the bitmap as
the body has left it. -/
def forEachClearBitLoop : ℕ → BitVec 64 → σ → Exec σ
  | 0, _, _ => .error .outOfFuel
  | fuel + 1, bit, s =>
    if bit < size then do
      let s ← body bit s
      let bit ← findNextZeroBit (addr s) size (bit + 1)
      forEachClearBitLoop fuel (assign bit) s
    else return s

/-- `for_each_clear_bit_from`: the first clear bit from `bit` on, and the loop from there. -/
def forEachClearBitFrom (bit : BitVec 64) (s : σ) : Exec σ := do
  let bit ← findNextZeroBit (addr s) size bit
  forEachClearBitLoop assign addr size body (size.toNat + 1) (assign bit) s

end ForEach

/-- `FIRST_EXTERNAL_VECTOR`: the vectors below are those of exceptions. -/
abbrev firstExternalVector : BitVec 64 := 0x20#64

/-- `NR_VECTORS`: the length of the bitmap in bits. -/
abbrev nrVectors : BitVec 64 := 256#64

section Gates

variable {ε : Type}

/-- A body that sets the bit, and has an effect of its own. -/
def settingBody {n : ℕ} (act : BitVec 64 → ε → Exec ε) (bit : BitVec 64)
    (s : Vector (BitVec 64) n × ε) : Exec (Vector (BitVec 64) n × ε) := do
  let bm ← setBit bit s.1
  let env ← act bit s.2
  return (bm, env)

/-- The loop of `idt_setup_apic_and_irq_gates`, over an `int`, with what `set_intr_gate` does with
the table. -/
def idtSetupIrqGates (setIntrGate : BitVec 64 → ε → Exec ε)
    (s : Vector (BitVec 64) 4 × ε) : Exec (Vector (BitVec 64) 4 × ε) :=
  forEachClearBitFrom (fun bit => (bit.setWidth 32).signExtend 64) (fun s => loadWord s.1)
    nrVectors (settingBody setIntrGate) firstExternalVector s

end Gates

/-! ## Bits of a bitmap -/

/-- The bit `i` of a bitmap with the given words. -/
def wordsBit (words : ℕ → BitVec 64) (i : ℕ) : Bool := (words (i / 64)).getLsbD (i % 64)

/-- The bit `i` is set in the words of the bitmap. -/
def IsSet (words : ℕ → BitVec 64) (i : ℕ) : Prop := wordsBit words i = true

instance (words : ℕ → BitVec 64) : DecidablePred (IsSet words) :=
  fun i => inferInstanceAs (Decidable (wordsBit words i = true))

/-- The words that start below `size` can be loaded. Nothing is said of the others: a result that
follows from this alone is one for which they are not read. -/
def LoadsBelow (words : ℕ → BitVec 64) (size : BitVec 64) (addr : BitVec 64 → Exec (BitVec 64)) :
    Prop :=
  ∀ i : BitVec 64, 64 * i.toNat < size.toNat → addr i = .ok (words i.toNat)

/-! ## Words -/

section Words

variable {w tmp : BitVec 64} {j : ℕ}

theorem ffs_lt (h : w ≠ 0) : (ffs w).toNat < 64 := BitVec.ctz_lt_iff_ne_zero.mpr h

theorem getLsbD_ffs (h : w ≠ 0) : w.getLsbD (ffs w).toNat = true :=
  BitVec.getLsbD_true_ctz_of_ne_zero h

theorem getLsbD_of_lt_ffs (h : j < (ffs w).toNat) : w.getLsbD j = false :=
  BitVec.getLsbD_false_of_lt_ctz h

theorem toNat_fls (h : w ≠ 0) : (fls w).toNat = 63 - w.clz.toNat ∧ w.clz.toNat < 64 := by
  have hlt : w.clz.toNat < 64 := BitVec.clz_lt_iff_ne_zero.mpr h
  refine ⟨BitVec.toNat_sub_of_le ?_, hlt⟩
  exact BitVec.le_def.mpr (Nat.le_of_lt_succ hlt)

theorem getLsbD_fls (h : w ≠ 0) : w.getLsbD (fls w).toNat = true := by
  rw [(toNat_fls h).1]
  exact BitVec.getLsbD_true_clz_of_ne_zero (by decide) h

theorem getLsbD_of_fls_lt (h : w ≠ 0) (hj : (fls w).toNat < j) : w.getLsbD j = false := by
  obtain ⟨hfls, hclz⟩ := toNat_fls h
  have hle : 64 - w.clz.toNat ≤ j := by omega
  exact Nat.testBit_lt_two_pow
    (Nat.lt_of_lt_of_le BitVec.toNat_lt_two_pow_sub_clz (Nat.pow_le_pow_right (by decide) hle))

theorem toNat_umin (x y : BitVec 64) : (umin x y).toNat = min x.toNat y.toNat := by
  unfold umin
  split
  · rename_i h
    exact (Nat.min_eq_left (Nat.le_of_lt (BitVec.lt_def.mp h))).symm
  · rename_i h
    exact (Nat.min_eq_right (Nat.le_of_not_lt (mt BitVec.lt_def.mpr h))).symm

theorem toNat_and_63 (x : BitVec 64) : (x &&& (bitsPerLong - 1)).toNat = x.toNat % 64 :=
  toNat_and_lowMask (k := 6) (by decide) x

/-- The mask of the first word has the bits from the start on. -/
theorem getLsbD_bitmapFirstWordMask (start : BitVec 64) (hj : j < 64) :
    (bitmapFirstWordMask start).getLsbD j = decide (start.toNat % 64 ≤ j) := by
  rw [bitmapFirstWordMask, BitVec.shiftLeft_eq', BitVec.getLsbD_shiftLeft, toNat_and_63,
    BitVec.getLsbD_allOnes, decide_eq_true hj, Bool.true_and,
    decide_eq_true (by omega : j - _ < 64), Bool.and_true, ← decide_not]
  exact decide_eq_decide.mpr Nat.not_lt

/-- The mask of the last word has the bits below the end. -/
theorem getLsbD_bitmapLastWordMask {nbits : BitVec 64} (h : nbits ≠ 0) (hj : j < 64) :
    (bitmapLastWordMask nbits).getLsbD j = decide (j ≤ (nbits.toNat - 1) % 64) := by
  have hpos := BitVec.toNat_pos_of_ne_zero h
  have hlt := nbits.isLt
  rw [bitmapLastWordMask, BitVec.ushiftRight_eq', BitVec.getLsbD_ushiftRight, toNat_and_63,
    BitVec.getLsbD_allOnes, BitVec.toNat_neg]
  exact decide_eq_decide.mpr (by omega)

end Words

/-! ## One word of a search -/

section Word

variable {p : ℕ → Prop} {k lo size : ℕ} {tmp : BitVec 64}

/-- The word has the indices with `p` from `lo` on, the first of them at `64 * k`. -/
def HasIndices (p : ℕ → Prop) (lo k : ℕ) (tmp : BitVec 64) : Prop :=
  ∀ j < 64, (tmp.getLsbD j = true ↔ lo ≤ 64 * k + j ∧ p (64 * k + j))

/-- Such a word without a bit can be skipped. -/
theorem HasIndices.skip (h : HasIndices p lo k tmp) (hk : 64 * k ≤ lo) (hzero : tmp = 0) :
    ∀ i, lo ≤ i → i < 64 * (k + 1) → ¬p i := by
  intro i hi hlt hp
  obtain ⟨j, rfl⟩ := Nat.exists_eq_add_of_le (hk.trans hi)
  have hbit := (h j (by omega)).mpr ⟨hi, hp⟩
  subst hzero
  exact absurd hbit (by simp)

/-- Its lowest bit is the first index, or behind the end. -/
theorem HasIndices.next (h : HasIndices p lo k tmp) (hk : 64 * k ≤ lo) (hne : tmp ≠ 0) :
    NextIndex p lo size (min (64 * k + (ffs tmp).toNat) size) := by
  have hlt := ffs_lt hne
  have hbefore : ∀ i, lo ≤ i → i < 64 * k + (ffs tmp).toNat → ¬p i := by
    intro i hi hi' hp
    obtain ⟨j, rfl⟩ := Nat.exists_eq_add_of_le (hk.trans hi)
    have hbit := (h j (by omega)).mpr ⟨hi, hp⟩
    rw [getLsbD_of_lt_ffs (by omega)] at hbit
    cases hbit
  obtain ⟨hle, hp⟩ := (h _ hlt).mp (getLsbD_ffs hne)
  rcases Nat.lt_or_ge (64 * k + (ffs tmp).toNat) size with hin | hout
  · rw [Nat.min_eq_left hin.le]
    exact .found hle hin hp hbefore
  · rw [Nat.min_eq_right hout]
    exact .none fun i hi hi' => hbefore i hi (hi'.trans_le hout)

end Word

/-! ## The loops -/

section Loops

variable {words : ℕ → BitVec 64} {addr : BitVec 64 → Exec (BitVec 64)} {size : BitVec 64}

theorem isSet_word (words : ℕ → BitVec 64) (k : ℕ) {j : ℕ} (hj : j < 64) :
    IsSet words (64 * k + j) ↔ (words k).getLsbD j = true := by
  have hdiv : (64 * k + j) / 64 = k := by omega
  have hmod : (64 * k + j) % 64 = j := by omega
  rw [IsSet, wordsBit, hdiv, hmod]

/-- The word `k` has, as it is, the bits that are set from its start on. -/
theorem hasIndices_word (words : ℕ → BitVec 64) (k : ℕ) :
    HasIndices (IsSet words) (64 * k) k (words k) := by
  intro j hj
  rw [isSet_word words k hj]
  exact (and_iff_right (Nat.le_add_right _ _)).symm

theorem toNat_aligned {k : ℕ} {idx : BitVec 64} (hidx : idx = BitVec.ofNat 64 k)
    (hk : 64 * k < 2 ^ 64) : idx.toNat = k ∧ (idx * bitsPerLong).toNat = 64 * k := by
  have hone : idx.toNat = k := by
    rw [hidx, BitVec.toNat_ofNat, Nat.mod_eq_of_lt (by omega)]
  refine ⟨hone, ?_⟩
  rw [BitVec.toNat_mul, hone, Nat.mul_comm]
  exact Nat.mod_eq_of_lt hk

/-- The loop of `_find_next_bit`, in the word `k`, finds the next bit from that word on. -/
theorem findNextLoop_next {invert : BitVec 64} (hsize : size.toNat < 2 ^ 63)
    (hload : LoadsBelow words size addr) {fuel k lo : ℕ} {start tmp : BitVec 64}
    (hstart : start.toNat = 64 * k) (hin : 64 * k < size.toNat)
    (hfuel : size.toNat - 64 * k ≤ 64 * fuel) (hk : 64 * k ≤ lo) (hlo : lo ≤ 64 * (k + 1))
    (htmp : HasIndices (IsSet fun k => words k ^^^ invert) lo k tmp) :
    ∃ r, findNextLoop addr size invert fuel start tmp = .ok r ∧
      NextIndex (IsSet fun k => words k ^^^ invert) lo size.toNat
        r.toNat := by
  induction fuel generalizing k lo start tmp with
  | zero => omega
  | succ fuel ih =>
    rw [findNextLoop]
    by_cases hzero : tmp = 0
    · have hnext : (start + bitsPerLong).toNat = 64 * (k + 1) := by
        rw [BitVec.toNat_add, hstart]
        exact Nat.mod_eq_of_lt (show 64 * k + 64 < 2 ^ 64 by omega)
      have hskip := htmp.skip hk hzero
      rw [if_pos hzero]
      by_cases hend : size.toNat ≤ 64 * (k + 1)
      · rw [if_pos (BitVec.le_def.mpr (by rw [hnext]; exact hend))]
        exact ⟨size, rfl, .none fun i hi hlt => hskip i hi (hlt.trans_le hend)⟩
      · have hword : ((start + bitsPerLong) / bitsPerLong).toNat = k + 1 := by
          rw [BitVec.toNat_udiv, hnext]
          exact Nat.mul_div_cancel_left _ (by decide)
        rw [if_neg (mt BitVec.le_def.mp (by rw [hnext]; exact hend)),
          hload _ (by rw [hword]; omega), hword, Exec.ok_bind]
        obtain ⟨r, hr, hfound⟩ := ih hnext (by omega) (by omega) le_rfl (by omega)
          (hasIndices_word (fun k => words k ^^^ invert) (k + 1))
        exact ⟨r, hr, hfound.skip hlo hskip⟩
    · have hlt := ffs_lt hzero
      have hsum : (start + ffs tmp).toNat = 64 * k + (ffs tmp).toNat := by
        rw [BitVec.toNat_add, hstart]
        exact Nat.mod_eq_of_lt (by omega)
      rw [if_neg hzero]
      refine ⟨_, rfl, ?_⟩
      rw [toNat_umin, hsum]
      exact htmp.next hk hzero

/-- `_find_next_bit` finds the next bit that is set in the words after the inversion. -/
theorem findNextBit'_next (hsize : size.toNat < 2 ^ 63) (hload : LoadsBelow words size addr)
    (start invert : BitVec 64) :
    ∃ r, findNextBit' addr size start invert = .ok r ∧
      NextIndex (IsSet fun k => words k ^^^ invert) start.toNat
        size.toNat r.toNat := by
  rw [findNextBit']
  by_cases hend : start ≥ size
  · rw [if_pos hend]
    exact ⟨size, rfl, .of_ge (BitVec.le_def.mp hend)⟩
  · have hlt : start.toNat < size.toNat := BitVec.not_le.mp hend
    have hword : (start / bitsPerLong).toNat = start.toNat / 64 := BitVec.toNat_udiv
    have hmod : (start % bitsPerLong).toNat = start.toNat % 64 := BitVec.toNat_umod
    have hdown : (rounddown start bitsPerLong).toNat = 64 * (start.toNat / 64) := by
      rw [rounddown, BitVec.toNat_sub_of_le (BitVec.le_def.mpr (by rw [hmod]; omega)), hmod]
      omega
    have hfirst : HasIndices (IsSet fun k => words k ^^^ invert) start.toNat
        (start.toNat / 64)
        ((words (start.toNat / 64) ^^^ invert) &&& bitmapFirstWordMask start) := by
      intro j hj
      rw [BitVec.getLsbD_and, getLsbD_bitmapFirstWordMask start hj, Bool.and_eq_true,
        decide_eq_true_iff, isSet_word (fun k => words k ^^^ invert) _ hj, and_comm]
      exact and_congr_left fun _ => by omega
    rw [if_neg hend, hload _ (by rw [hword]; omega), hword, Exec.ok_bind]
    exact findNextLoop_next hsize hload hdown (by omega) (by omega) (by omega) (by omega) hfirst

/-- The loop of the searches for the first bit, in the word `k`. -/
theorem findFirstLoop_next (hsize : size.toNat < 2 ^ 63) (hload : LoadsBelow words size addr)
    (view : BitVec 64 → BitVec 64) {stop : BitVec 64 → Bool} {index : BitVec 64 → BitVec 64}
    (hstop : ∀ w, stop w = true ↔ view w ≠ 0) (hindex : ∀ w, index w = ffs (view w))
    (fuel k : ℕ) {idx : BitVec 64} (hidx : idx = BitVec.ofNat 64 k)
    (hk : 64 * k < size.toNat + 64) (hfuel : size.toNat + 64 ≤ 64 * (k + fuel)) :
    ∃ r, findFirstLoop addr stop index size fuel idx = .ok r ∧
      NextIndex (IsSet fun k => view (words k)) (64 * k) size.toNat
        r.toNat := by
  induction fuel generalizing k idx with
  | zero => omega
  | succ fuel ih =>
    obtain ⟨hone, hmul⟩ := toNat_aligned hidx (by omega)
    have hindices := hasIndices_word (fun k => view (words k)) k
    rw [findFirstLoop]
    by_cases hin : 64 * k < size.toNat
    · rw [if_pos (BitVec.lt_def.mpr (by rw [hmul]; exact hin)), hload idx (by rw [hone]; exact hin),
        hone, Exec.ok_bind]
      by_cases hzero : view (words k) = 0
      · have hnext : idx + 1 = BitVec.ofNat 64 (k + 1) := by
          rw [hidx, BitVec.ofNat_add]
          rfl
        rw [if_neg (mt (hstop _).mp (not_not_intro hzero))]
        obtain ⟨r, hr, hfound⟩ := ih (k + 1) hnext (by omega) (by omega)
        exact ⟨r, hr, hfound.skip (by omega) (hindices.skip le_rfl hzero)⟩
      · have hlt := ffs_lt hzero
        rw [if_pos ((hstop _).mpr hzero), hindex]
        refine ⟨_, rfl, ?_⟩
        rw [toNat_umin, BitVec.toNat_add, hmul, Nat.mod_eq_of_lt (by omega)]
        exact hindices.next le_rfl hzero
    · rw [if_neg (mt BitVec.lt_def.mp (by rw [hmul]; exact hin))]
      exact ⟨size, rfl, .of_ge (Nat.le_of_not_lt hin)⟩

/-- What `find_last_bit` keeps of a word, and what that says of the bits above it. -/
theorem findLastLoop_word {k : ℕ} {val : BitVec 64}
    (habove : ∀ i, 64 * (k + 1) ≤ i → i < size.toNat → ¬IsSet words i)
    (hval : ∀ j < 64, (val.getLsbD j = true ↔ 64 * k + j < size.toNat)) :
    (val &&& words k = 0 → ∀ i, 64 * k ≤ i → i < size.toNat → ¬IsSet words i) ∧
      (val &&& words k ≠ 0 →
        LastIndex (IsSet words) size.toNat (64 * k + (fls (val &&& words k)).toNat)) := by
  have hbits : ∀ j < 64, ((val &&& words k).getLsbD j = true ↔
      64 * k + j < size.toNat ∧ IsSet words (64 * k + j)) := by
    intro j hj
    rw [BitVec.getLsbD_and, Bool.and_eq_true, hval j hj, isSet_word words k hj]
  -- an index behind the start of the word is in it, or above it
  have hbehind : ∀ i, 64 * k ≤ i → i < size.toNat →
      (∀ j < 64, i = 64 * k + j → (val &&& words k).getLsbD j = false) → ¬IsSet words i := by
    intro i hi hlt hclear hset
    rcases Nat.lt_or_ge i (64 * (k + 1)) with hin | hout
    · obtain ⟨j, rfl⟩ := Nat.exists_eq_add_of_le hi
      have hbit := (hbits j (by omega)).mpr ⟨hlt, hset⟩
      rw [hclear j (by omega) rfl] at hbit
      cases hbit
    · exact habove i hout hlt hset
  constructor
  · intro hzero i hi hlt
    exact hbehind i hi hlt fun j _ _ => by rw [hzero]; exact BitVec.getLsbD_zero
  · intro hne
    have hlt : (fls (val &&& words k)).toNat < 64 := by
      rw [(toNat_fls hne).1]
      omega
    obtain ⟨hin, hset⟩ := (hbits _ hlt).mp (getLsbD_fls hne)
    refine .found hin hset fun i hi hi' => hbehind i (by omega) hi' fun j _ hij => ?_
    exact getLsbD_of_fls_lt hne (by omega)

/-- The loop of `find_last_bit`, from the word `k` down. -/
theorem findLastLoop_last (hsize : size.toNat < 2 ^ 63) (hload : LoadsBelow words size addr)
    {k : ℕ} {val : BitVec 64} (hk : 64 * k < size.toNat)
    (habove : ∀ i, 64 * (k + 1) ≤ i → i < size.toNat → ¬IsSet words i)
    (hval : ∀ j < 64, (val.getLsbD j = true ↔ 64 * k + j < size.toNat)) :
    ∃ r, findLastLoop addr size k val = .ok r ∧ LastIndex (IsSet words) size.toNat r.toNat := by
  induction k generalizing val with
  | zero =>
    obtain ⟨hzero, hfound⟩ := findLastLoop_word habove hval
    have hword : addr 0 = .ok (words 0) := hload 0 hk
    rw [findLastLoop, hword, Exec.ok_bind]
    by_cases hclear : val &&& words 0 = 0
    · rw [if_neg (not_not_intro hclear)]
      exact ⟨size, rfl, .none fun i hi => hzero hclear i (Nat.zero_le i) hi⟩
    · rw [if_pos hclear]
      refine ⟨_, rfl, ?_⟩
      have hsum : (0 * bitsPerLong + fls (val &&& words 0)).toNat =
          64 * 0 + (fls (val &&& words 0)).toNat := by
        have hstart : 0 * bitsPerLong = 0#64 := rfl
        rw [hstart, BitVec.zero_add, Nat.zero_add]
      rw [hsum]
      exact hfound hclear
  | succ k ih =>
    obtain ⟨hzero, hfound⟩ := findLastLoop_word habove hval
    obtain ⟨hone, hmul⟩ := toNat_aligned (k := k + 1) rfl (by omega)
    have hword : addr (BitVec.ofNat 64 (k + 1)) = .ok (words (k + 1)) := by
      rw [hload _ (by rw [hone]; exact hk), hone]
    rw [findLastLoop, hword, Exec.ok_bind]
    by_cases hclear : val &&& words (k + 1) = 0
    · rw [if_neg (not_not_intro hclear)]
      refine ih (by omega) (hzero hclear) fun j hj => ?_
      rw [BitVec.getLsbD_allOnes, decide_eq_true_iff]
      omega
    · have hlt : (fls (val &&& words (k + 1))).toNat < 64 := by
        rw [(toNat_fls hclear).1]
        omega
      rw [if_pos hclear]
      refine ⟨_, rfl, ?_⟩
      rw [BitVec.toNat_add, hmul, Nat.mod_eq_of_lt (by omega)]
      exact hfound hclear

/-- `find_last_bit` finds the last bit that is set below `size`. -/
theorem findLastBit_last (hsize : size.toNat < 2 ^ 63) (hload : LoadsBelow words size addr) :
    ∃ r, findLastBit addr size = .ok r ∧ LastIndex (IsSet words) size.toNat r.toNat := by
  rw [findLastBit]
  by_cases hzero : size = 0
  · subst hzero
    rw [if_neg (not_not_intro rfl)]
    exact ⟨0, rfl, .none fun i hi => absurd hi (Nat.not_lt_zero i)⟩
  · have hpos := BitVec.toNat_pos_of_ne_zero hzero
    have hpred : (size - 1).toNat = size.toNat - 1 := BitVec.toNat_sub_of_le
      (BitVec.le_def.mpr hpos)
    have hword : ((size - 1) / bitsPerLong).toNat = (size.toNat - 1) / 64 := by
      rw [BitVec.toNat_udiv, hpred]
      rfl
    rw [if_pos hzero, hword]
    refine findLastLoop_last hsize hload (by omega) (fun i hi hlt => by omega) fun j hj => ?_
    rw [getLsbD_bitmapLastWordMask hzero hj, decide_eq_true_iff]
    omega

end Loops

/-! ## Setting bits -/

section Bitmap

variable {n : ℕ} {bm bm' : Vector (BitVec 64) n} {size : BitVec 64}

theorem isSet_xor_allOnes (words : ℕ → BitVec 64) (i : ℕ) :
    IsSet (fun k => words k ^^^ BitVec.allOnes 64) i ↔ ¬IsSet words i := by
  have hlt : i % 64 < 64 := Nat.mod_lt i (by decide)
  unfold IsSet wordsBit
  rw [BitVec.getLsbD_xor, BitVec.getLsbD_allOnes, decide_eq_true hlt, Bool.xor_true,
    Bool.not_eq_true', Bool.not_eq_true]

theorem isSet_not (words : ℕ → BitVec 64) (i : ℕ) :
    IsSet (fun k => ~~~words k) i ↔ ¬IsSet words i := by
  rw [← isSet_xor_allOnes]
  simp only [BitVec.xor_allOnes]

/-- The words of the bitmap can be loaded, when `size` bits are in it. -/
theorem loadsBelow_loadWord (bm : Vector (BitVec 64) n) (hsize : size.toNat ≤ 64 * n) :
    LoadsBelow (wordsOf bm) size (loadWord bm) := by
  intro i hi
  exact if_pos (by omega)

/-- `set_bit` sets the one bit, and leaves the others. -/
theorem setBit_spec (bm : Vector (BitVec 64) n) {nr : BitVec 64} (hnr : nr.toNat < 64 * n) :
    ∃ bm', setBit nr bm = .ok bm' ∧
      ∀ i, IsSet (wordsOf bm') i ↔ i = nr.toNat ∨ IsSet (wordsOf bm) i := by
  have hlt : nr.toNat / 64 < n := by omega
  refine ⟨_, store_of_lt bm _ hlt, fun i => ?_⟩
  unfold IsSet wordsBit wordsOf
  rw [Vector.getElem?_set]
  by_cases hword : nr.toNat / 64 = i / 64
  · rw [if_pos hword, Option.getD_some, BitVec.getLsbD_or, BitVec.getLsbD_twoPow, hword,
      Bool.or_eq_true, Bool.and_eq_true, decide_eq_true_iff, decide_eq_true_iff, or_comm]
    exact or_congr_left (by omega)
  · rw [if_neg hword]
    exact (or_iff_right (by rintro rfl; exact hword rfl)).symm

/-! ## The loop over the clear bits

The body sets the bit that it is called for, and each round looks for the next clear bit behind
it. The rounds visit the clear bits of the bitmap before the loop, each once and in order. -/

variable {ε : Type} {assign : BitVec 64 → BitVec 64}
  {addr : Vector (BitVec 64) n × ε → BitVec 64 → Exec (BitVec 64)}

/-- `find_next_zero_bit` finds the next bit that is clear. -/
theorem findNextZeroBit_next {words : ℕ → BitVec 64} {addr : BitVec 64 → Exec (BitVec 64)}
    (hsize : size.toNat < 2 ^ 63) (hload : LoadsBelow words size addr) (start : BitVec 64) :
    ∃ r, findNextZeroBit addr size start = .ok r ∧
      NextIndex (fun i => ¬IsSet words i) start.toNat size.toNat r.toNat := by
  obtain ⟨r, hr, hnext⟩ := findNextBit'_next hsize hload start (BitVec.allOnes 64)
  exact ⟨r, hr, hnext.congr fun i _ => isSet_xor_allOnes words i⟩

/-- What the loop sets: the bits from `start` on. -/
def SetFrom (bm bm' : Vector (BitVec 64) n) (start size : ℕ) : Prop :=
  ∀ i, IsSet (wordsOf bm') i ↔ IsSet (wordsOf bm) i ∨ start ≤ i ∧ i < size

/-- The first clear bit is set, and then those behind it. -/
theorem SetFrom.of_next {bm₁ bm₂ : Vector (BitVec 64) n} {start size bit : ℕ}
    (hbit : NextIndex (fun i => ¬IsSet (wordsOf bm) i) start size bit) (hlt : bit < size)
    (hset : ∀ i, IsSet (wordsOf bm₁) i ↔ i = bit ∨ IsSet (wordsOf bm) i)
    (hrest : SetFrom bm₁ bm₂ (bit + 1) size) : SetFrom bm bm₂ start size := by
  cases hbit with
  | none _ => exact absurd hlt (Nat.lt_irrefl size)
  | found hle _ _ hbefore =>
    intro i
    rw [hrest i, hset i]
    by_cases hin : start ≤ i ∧ i < bit
    · have hold : IsSet (wordsOf bm) i := not_not.mp (hbefore i hin.1 hin.2)
      exact iff_of_true (.inl (.inr hold)) (.inl hold)
    · rw [or_comm (a := i = bit), or_assoc]
      exact or_congr_right (by omega)

/-- The loop, at the clear bit `bit` or at the end: setting a bit does not take another one from
the bits to come. -/
theorem forEachClearBitLoop_eq (hsize : size.toNat < 2 ^ 63) (hbits : size.toNat ≤ 64 * n)
    (hassign : ∀ x, x ≤ size → assign x = x)
    (hload : ∀ s, LoadsBelow (wordsOf s.1) size (addr s)) (act : BitVec 64 → ε → Exec ε)
    (fuel : ℕ) {start : ℕ} {bit : BitVec 64} (hfuel : size.toNat < bit.toNat + fuel)
    (hbit : NextIndex (fun i => ¬IsSet (wordsOf bm) i) start size.toNat bit.toNat) :
    ∃ bm', SetFrom bm bm' start size.toNat ∧ ∀ env,
      forEachClearBitLoop assign addr size (settingBody act) fuel bit (bm, env) =
        (indicesFrom (fun i => ¬IsSet (wordsOf bm) i) start size.toNat).foldlM
          (fun env i => act (BitVec.ofNat 64 i) env) env >>= fun env => .ok (bm', env) := by
  have hend := hbit.le
  induction fuel generalizing bm start bit with
  | zero => omega
  | succ fuel ih =>
    by_cases hlt : bit < size
    · have hin : bit.toNat < size.toNat := BitVec.lt_def.mp hlt
      obtain ⟨bm₁, hset, hbm₁⟩ := setBit_spec bm (show bit.toNat < 64 * n by omega)
      have hsucc : (bit + 1).toNat = bit.toNat + 1 := by
        rw [BitVec.toNat_add]
        exact Nat.mod_eq_of_lt (show bit.toNat + 1 < 2 ^ 64 by omega)
      -- the bits to come are the same in both bitmaps
      have hrest : indicesFrom (fun i => ¬IsSet (wordsOf bm₁) i) (bit.toNat + 1) size.toNat =
          indicesFrom (fun i => ¬IsSet (wordsOf bm) i) (bit.toNat + 1) size.toNat :=
        indicesFrom_congr fun i hi _ => not_congr <| by
          rw [hbm₁]
          exact or_iff_right (by omega)
      -- the next clear bit, whatever the effects of the body are
      obtain ⟨next, -, hnext⟩ := findNextZeroBit_next hsize
        (loadsBelow_loadWord bm₁ hbits) (bit + 1)
      have hfind : ∀ env, findNextZeroBit (addr (bm₁, env)) size (bit + 1) = .ok next := by
        intro env
        obtain ⟨r, hr, hr'⟩ := findNextZeroBit_next hsize (hload (bm₁, env)) (bit + 1)
        rw [hr, BitVec.eq_of_toNat_eq (hr'.unique hnext)]
      rw [hsucc] at hnext
      have hahead := hnext.ge hin
      obtain ⟨bm', hbm', hloop⟩ := ih (by omega) hnext hnext.le
      refine ⟨bm', .of_next hbit hin hbm₁ hbm', fun env => ?_⟩
      rw [forEachClearBitLoop, if_pos hlt, settingBody, hset, Exec.ok_bind,
        hbit.indicesFrom_eq_cons hin, List.foldlM_cons, BitVec.ofNat_toNat, BitVec.setWidth_eq]
      rcases hact : act bit env with e | env'
      · rfl
      · rw [Exec.ok_bind, Exec.pure_eq_ok, Exec.ok_bind, Exec.ok_bind, hfind, Exec.ok_bind,
          hassign next (BitVec.le_def.mpr hnext.le), hloop, hrest]
    · have hout : ¬bit.toNat < size.toNat := mt BitVec.lt_def.mpr hlt
      refine ⟨bm, fun i => ?_, fun env => ?_⟩
      · refine (or_iff_left_of_imp fun hi => ?_).symm
        exact not_not.mp (hbit.not_of_end hout i hi.1 hi.2)
      · rw [forEachClearBitLoop, if_neg hlt, hbit.indicesFrom_eq_nil hout]
        rfl

/-- `for_each_clear_bit_from` with a body that sets the bit: the effects are those of the bits that
are clear at the start, each once and in order. -/
theorem forEachClearBitFrom_eq (hsize : size.toNat < 2 ^ 63) (hbits : size.toNat ≤ 64 * n)
    (hassign : ∀ x, x ≤ size → assign x = x)
    (hload : ∀ s, LoadsBelow (wordsOf s.1) size (addr s)) (act : BitVec 64 → ε → Exec ε)
    (bm : Vector (BitVec 64) n) (start : BitVec 64) :
    ∃ bm', SetFrom bm bm' start.toNat size.toNat ∧ ∀ env,
      forEachClearBitFrom assign addr size (settingBody act) start (bm, env) =
        (indicesFrom (fun i => ¬IsSet (wordsOf bm) i) start.toNat size.toNat).foldlM
          (fun env i => act (BitVec.ofNat 64 i) env) env >>= fun env => .ok (bm', env) := by
  obtain ⟨first, -, hfirst⟩ := findNextZeroBit_next hsize
    (loadsBelow_loadWord bm hbits) start
  obtain ⟨bm', hbm', hloop⟩ := forEachClearBitLoop_eq hsize hbits hassign hload act
    (size.toNat + 1) (by omega) hfirst
  refine ⟨bm', hbm', fun env => ?_⟩
  obtain ⟨r, hr, hr'⟩ := findNextZeroBit_next hsize (hload (bm, env)) start
  rw [forEachClearBitFrom, hr, Exec.ok_bind, BitVec.eq_of_toNat_eq (hr'.unique hfirst),
    hassign first (BitVec.le_def.mpr hfirst.le), hloop]

/-! ## All searches -/

/-- What the searches in the bitmap return, and what the loop over its clear bits does. -/
structure BitmapSearches (bm : Vector (BitVec 64) n) (size : BitVec 64) : Prop where
  /-- `find_next_bit` -/
  next : ∀ addr, LoadsBelow (wordsOf bm) size addr → ∀ start,
    ∃ r, findNextBit addr size start = .ok r ∧
      NextIndex (IsSet (wordsOf bm)) start.toNat size.toNat r.toNat
  /-- `find_next_zero_bit` -/
  nextZero : ∀ addr, LoadsBelow (wordsOf bm) size addr → ∀ start,
    ∃ r, findNextZeroBit addr size start = .ok r ∧
      NextIndex (fun i => ¬IsSet (wordsOf bm) i) start.toNat size.toNat r.toNat
  /-- `find_first_bit` -/
  first : ∀ addr, LoadsBelow (wordsOf bm) size addr →
    findFirstBit addr size = findNextBit addr size 0
  /-- `find_first_zero_bit` -/
  firstZero : ∀ addr, LoadsBelow (wordsOf bm) size addr →
    findFirstZeroBit addr size = findNextZeroBit addr size 0
  /-- `find_last_bit` -/
  last : ∀ addr, LoadsBelow (wordsOf bm) size addr →
    ∃ r, findLastBit addr size = .ok r ∧
      LastIndex (IsSet (wordsOf bm)) size.toNat r.toNat
  /-- `for_each_clear_bit_from`, with any effect beside setting the bit, and any type of the loop
  variable that holds the numbers up to `size` -/
  forEach : ∀ (ε : Type) (assign : BitVec 64 → BitVec 64)
    (addr : Vector (BitVec 64) n × ε → BitVec 64 → Exec (BitVec 64))
    (act : BitVec 64 → ε → Exec ε) (start : BitVec 64),
    (∀ x, x ≤ size → assign x = x) → (∀ s, LoadsBelow (wordsOf s.1) size (addr s)) →
    ∃ bm', SetFrom bm bm' start.toNat size.toNat ∧ ∀ env,
      forEachClearBitFrom assign addr size (settingBody act) start (bm, env) =
        (indicesFrom (fun i => ¬IsSet (wordsOf bm) i) start.toNat size.toNat).foldlM
          (fun env i => act (BitVec.ofNat 64 i) env) env >>= fun env => .ok (bm', env)

section Searches

variable {words : ℕ → BitVec 64} {addr : BitVec 64 → Exec (BitVec 64)}

/-- `find_next_bit`. -/
theorem findNextBit_next (hsize : size.toNat < 2 ^ 63) (hload : LoadsBelow words size addr)
    (start : BitVec 64) :
    ∃ r, findNextBit addr size start = .ok r ∧
      NextIndex (IsSet words) start.toNat size.toNat r.toNat := by
  obtain ⟨r, hr, hnext⟩ := findNextBit'_next hsize hload start 0#64
  exact ⟨r, hr, hnext.congr fun i _ => by simp only [BitVec.xor_zero]⟩

/-- `find_first_bit` is the search from 0. -/
theorem findFirstBit_eq (hsize : size.toNat < 2 ^ 63) (hload : LoadsBelow words size addr) :
    findFirstBit addr size = findNextBit addr size 0 := by
  obtain ⟨r, hr, hfirst⟩ := findFirstLoop_next hsize hload id
    (fun _ => decide_eq_true_iff) (fun _ => rfl) (size.toNat / 64 + 2) 0 rfl (by omega) (by omega)
  have hfirstBit : findFirstBit addr size = .ok r := hr
  obtain ⟨r', hr', hnext⟩ := findNextBit_next hsize hload 0
  rw [hfirstBit, hr', BitVec.eq_of_toNat_eq (hfirst.unique hnext)]

/-- `find_first_zero_bit` is the search from 0. -/
theorem findFirstZeroBit_eq (hsize : size.toNat < 2 ^ 63) (hload : LoadsBelow words size addr) :
    findFirstZeroBit addr size = findNextZeroBit addr size 0 := by
  have hones : ∀ w : BitVec 64, ~~~w ≠ 0 ↔ w ≠ BitVec.allOnes 64 := by
    intro w
    have hzero : ~~~(0 : BitVec 64) = BitVec.allOnes 64 := rfl
    rw [Ne, BitVec.not_eq_comm, hzero]
  obtain ⟨r, hr, hfirst⟩ := findFirstLoop_next hsize hload (fun w => ~~~w)
    (fun w => decide_eq_true_iff.trans (hones w).symm) (fun _ => rfl) (size.toNat / 64 + 2) 0 rfl
    (by omega) (by omega)
  have hfirstZero : findFirstZeroBit addr size = .ok r := hr
  obtain ⟨r', hr', hnext⟩ := findNextZeroBit_next hsize hload 0
  have hclear := hfirst.congr fun i _ => (isSet_not words i)
  rw [hfirstZero, hr', BitVec.eq_of_toNat_eq (hclear.unique hnext)]

end Searches

/-- The searches equal their definition, for every bitmap and every size up to its bits. -/
theorem bitmap_searches (bm : Vector (BitVec 64) n) (size : BitVec 64)
    (hbits : size.toNat ≤ 64 * n) (hsize : size.toNat < 2 ^ 63) : BitmapSearches bm size where
  next _ hload := findNextBit_next hsize hload
  nextZero _ hload := findNextZeroBit_next hsize hload
  first _ hload := findFirstBit_eq hsize hload
  firstZero _ hload := findFirstZeroBit_eq hsize hload
  last _ hload := findLastBit_last hsize hload
  forEach _ _ _ act start hassign hload :=
    forEachClearBitFrom_eq hsize hbits hassign hload act bm start

theorem bitmap_searches_vectors :
    BitmapSearches #v[0xffffffff#64, 0#64, 1#64, 0x8000000000000000#64] 256#64 :=
  bitmap_searches _ _ (by decide) (by decide)

/-- `idt_setup_apic_and_irq_gates` sets one gate for each vector from `FIRST_EXTERNAL_VECTOR` on
that is not in use, and then all of them are in use. -/
theorem idtSetupIrqGates_eq (setIntrGate : BitVec 64 → ε → Exec ε)
    (systemVectors : Vector (BitVec 64) 4) :
    ∃ bm', SetFrom systemVectors bm' 0x20 256 ∧ ∀ env,
      idtSetupIrqGates setIntrGate (systemVectors, env) =
        (indicesFrom (fun i => ¬IsSet (wordsOf systemVectors) i) 0x20 256).foldlM
          (fun env i => setIntrGate (BitVec.ofNat 64 i) env) env >>= fun env => .ok (bm', env) := by
  have hint : ∀ x, x ≤ nrVectors → (x.setWidth 32).signExtend 64 = x := by
    intro x hx
    have hle : x.toNat ≤ 256 := BitVec.le_def.mp hx
    have hmsb : (x.setWidth 32).msb = false := by
      rw [BitVec.msb_eq_decide, BitVec.toNat_setWidth, Nat.mod_eq_of_lt (by omega)]
      exact decide_eq_false (by omega)
    rw [BitVec.signExtend_eq_setWidth_of_msb_false hmsb]
    apply BitVec.eq_of_toNat_eq
    rw [BitVec.toNat_setWidth, BitVec.toNat_setWidth, Nat.mod_eq_of_lt (by omega),
      Nat.mod_eq_of_lt (by omega)]
  exact forEachClearBitFrom_eq (by decide) (by decide) hint
    (fun s => loadsBelow_loadWord s.1 (by decide)) setIntrGate systemVectors firstExternalVector

end Bitmap

end Lvisor
