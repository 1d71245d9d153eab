import Mathlib.Data.Nat.Digits.Lemmas
import Lvisor.VsprintfOutput

/-!
# The text of a number (`number` of `vsprintf.c`)

`number` makes the digits in reverse order in `tmp`, by shifts or, in base 10, by `put_dec`, which
divides with reciprocals and stores two digits at a time. The width and the precision are counted
down by the loops before and behind the digits.

* `numeral` — a number in a base, as it is written;
* `putDec_eq`, `shiftDigits_eq` — the digits in `tmp` are those of the number;
* `numberText_eq` — sign, prefix, padding and digits, in order;
* `number_renders` — what `number` emits, and what it needs of `tmp`.
-/

namespace Lvisor

/-! ## The text

A number as it is written on paper: sign, prefix, zeroes and digits, with the padding in front
of, behind or between them. The code is compared with this. -/

/-- A digit, with letters in lower case if `small`. -/
def digitChar (small : Bool) (d : ℕ) : BitVec 8 :=
  (if small then hexAsc else hexAscUpper).getD d 0

/-- A number in a base, without leading zeros; zero has one digit. -/
def numeral (base n : ℕ) (small : Bool) : List (BitVec 8) :=
  if n = 0 then [ch '0'] else (Nat.digits base n).reverse.map (digitChar small)

/-- The value that is printed is negative: it is read as signed, and below zero. -/
def isNegative (num : BitVec 64) (spec : PrintfSpec) : Bool :=
  hasFlag spec.flags Flag.sign && num.slt 0

/-- The absolute value, which is what the digits are of. -/
def magnitude (num : BitVec 64) (spec : PrintfSpec) : ℕ :=
  if isNegative num spec then num.toInt.natAbs else num.toNat

/-- The sign: a minus for a negative number, and for the conversions of signed numbers only, those
with the flag `Flag.sign`, a plus or a space where the format asks for it. -/
def signText (num : BitVec 64) (spec : PrintfSpec) : List (BitVec 8) :=
  if isNegative num spec then [ch '-']
  else if hasFlag spec.flags Flag.sign && hasFlag spec.flags Flag.plus then [ch '+']
  else if hasFlag spec.flags Flag.sign && hasFlag spec.flags Flag.space then [ch ' ']
  else []

/-- The prefix: that of base 8 is not for zero. -/
def prefixText (num : BitVec 64) (spec : PrintfSpec) : List (BitVec 8) :=
  if hasFlag spec.flags Flag.special then
    if spec.base = 16 then [ch '0', if hasFlag spec.flags Flag.small then ch 'x' else ch 'X']
    else if spec.base = 8 ∧ num ≠ 0 then [ch '0']
    else []
  else []

/-- The digits of the absolute value, in the base and the case of the format. -/
def digitText (num : BitVec 64) (spec : PrintfSpec) : List (BitVec 8) :=
  numeral spec.base.toNat (magnitude num spec) (hasFlag spec.flags Flag.small)

/-- The zeros in front of the digits, up to the precision. -/
def zeroText (num : BitVec 64) (spec : PrintfSpec) : List (BitVec 8) :=
  List.replicate (spec.precision.toInt - (digitText num spec).length).toNat (ch '0')

/-- The padding up to the width, by what the other parts leave of it. -/
def padText (num : BitVec 64) (spec : PrintfSpec) (c : BitVec 8) : List (BitVec 8) :=
  List.replicate (spec.fieldWidth.toInt - (signText num spec).length -
    (prefixText num spec).length - (zeroText num spec).length -
    (digitText num spec).length).toNat c

/-- A number as it should be printed: its parts in their order, with the padding where the flags
say. -/
def rendered (num : BitVec 64) (spec : PrintfSpec) : List (BitVec 8) :=
  if hasFlag spec.flags Flag.left then
    signText num spec ++ prefixText num spec ++ zeroText num spec ++ digitText num spec ++
      padText num spec (ch ' ')
  else if hasFlag spec.flags Flag.zeropad then
    signText num spec ++ prefixText num spec ++ padText num spec (ch '0') ++ zeroText num spec ++
      digitText num spec
  else
    padText num spec (ch ' ') ++ signText num spec ++ prefixText num spec ++ zeroText num spec ++
      digitText num spec

/-! ## The scratch buffer -/

/-- The entries of `decpair` that `put_dec_trunc8` stores, two bytes each. -/
def putDecTrunc8Stores (r : BitVec 32) : List (BitVec 32) :=
  if r < 100 then [r]
  else
    let q := ((r.setWidth 64 * 0x28f5c29) >>> 32).setWidth 32
    (r - 100 * q) ::
    if q < 100 then [q]
    else
      let r := ((q.setWidth 64 * 0x28f5c29) >>> 32).setWidth 32
      (q - 100 * r) ::
      if r < 100 then [r]
      else
        let q := (r * 0x147b) >>> 19
        [r - 100 * q, q]

/-- The entries that `put_dec_full8` stores. -/
def putDecFull8Stores (r : BitVec 32) : List (BitVec 32) :=
  let q := ((r.setWidth 64 * 0x28f5c29) >>> 32).setWidth 32
  let r' := ((q.setWidth 64 * 0x28f5c29) >>> 32).setWidth 32
  let q' := (r' * 0x147b) >>> 19
  [r - 100 * q, q - 100 * r', r' - 100 * q', q']

/-- The entries that `put_dec` stores, by way of the other two. -/
def putDecStores (n : BitVec 64) : List (BitVec 32) :=
  if n ≥ 100000000 then
    let n' := n / 100000000
    putDecFull8Stores ((n % 100000000).setWidth 32) ++
    if n' ≥ 100000000 then
      putDecFull8Stores ((n' % 100000000).setWidth 32) ++
        putDecTrunc8Stores ((n' / 100000000).setWidth 32)
    else putDecTrunc8Stores (n'.setWidth 32)
  else putDecTrunc8Stores (n.setWidth 32)

/-- The bytes that `number` stores to `tmp`: all of them digits, but for the second byte of the
last pair. -/
def tmpStored (num : BitVec 64) (base locase : BitVec 8) : List (BitVec 8) :=
  if num < base.setWidth 64 ∨ base ≠ 10 then numberDigits num base locase
  else (putDecStores num).flatMap putDecpair

/-- The size of `tmp` in bytes. -/
abbrev tmpSize : ℕ := 3 * 8

/-! ## Decimal digits

A division by 100 is a multiplication by a reciprocal and a shift. Each reciprocal is exact in
the range in which it is used, and wrong beyond it. -/

section Decimal

variable {r q : BitVec 32} {m n : ℕ}

/-- The digits of a number in base 10 as characters, the lowest first. -/
def decText (n : ℕ) : List (BitVec 8) := (Nat.digits 10 n).map (digitChar false)

/-- The two digits of a number below 100, the lower one first. -/
def decPair (n : ℕ) : List (BitVec 8) := [digitChar false (n % 10), digitChar false (n / 10)]

/-- Division by 100 by a reciprocal is exact below 10^8. -/
theorem toNat_recip64 (hr : r.toNat < 10 ^ 8) :
    (((r.setWidth 64 * 0x28f5c29) >>> 32).setWidth 32 : BitVec 32).toNat = r.toNat / 100 := by
  rw [BitVec.toNat_setWidth, BitVec.toNat_ushiftRight, BitVec.toNat_mul,
    BitVec.toNat_setWidth_of_le (by decide), Nat.shiftRight_eq_div_pow]
  have hc : (0x28f5c29 : BitVec 64).toNat = 42949673 := rfl
  have hdiv : r.toNat * 42949673 / 2 ^ 32 = r.toNat / 100 :=
    Nat.div_eq_of_lt_le (by omega) (by omega)
  rw [hc, Nat.mod_eq_of_lt (a := r.toNat * 42949673) (by omega), hdiv]
  exact Nat.mod_eq_of_lt (by omega)

theorem toNat_recip32 (hr : r.toNat < 10 ^ 4) :
    ((r * 0x147b) >>> 19 : BitVec 32).toNat = r.toNat / 100 := by
  rw [BitVec.toNat_ushiftRight, BitVec.toNat_mul, Nat.shiftRight_eq_div_pow]
  have hc : (0x147b : BitVec 32).toNat = 5243 := rfl
  rw [hc, Nat.mod_eq_of_lt (by omega)]
  exact Nat.div_eq_of_lt_le (by omega) (by omega)

theorem toNat_remainder (hq : q.toNat = r.toNat / 100) :
    (r - 100 * q).toNat = r.toNat % 100 := by
  have hr := r.isLt
  rw [BitVec.toNat_sub, BitVec.toNat_mul, hq]
  have hc : (100 : BitVec 32).toNat = 100 := rfl
  rw [hc]
  omega

/-- `decpair` has the lower digit first, for each of its 100 entries. -/
theorem putDecpair_eq (hr : r.toNat < 100) : putDecpair r = decPair r.toNat := by
  have hall : ∀ n < 100, putDecpair (BitVec.ofNat 32 n) = decPair n := by decide +kernel
  rw [← hall _ hr, BitVec.ofNat_toNat, BitVec.setWidth_eq]

/-- A number with more than two digits has two, and those of its quotient by 100. -/
theorem decText_of_ge (h : 100 ≤ n) : decText n = decPair (n % 100) ++ decText (n / 100) := by
  have hlow : n % 100 % 10 = n % 10 := by omega
  have hhigh : n % 100 / 10 = n / 10 % 10 := by omega
  have hrest : n / 10 / 10 = n / 100 := by omega
  rw [decText, Nat.digits_def' (by decide) (by omega), Nat.digits_def' (by decide) (by omega),
    hrest, List.map_cons, List.map_cons, decPair, hlow, hhigh]
  rfl

theorem putDecLast_eq (hpos : 0 < r.toNat) (hr : r.toNat < 100) :
    putDecLast r = decText r.toNat := by
  rw [putDecLast, putDecpair_eq hr, decText]
  have hten : (10 : BitVec 32).toNat = 10 := rfl
  by_cases hlt : r.toNat < 10
  · rw [if_pos (BitVec.lt_def.mpr hlt), Nat.digits_of_lt _ _ (by omega) hlt, decPair,
      Nat.mod_eq_of_lt hlt]
    rfl
  · rw [if_neg (mt BitVec.lt_def.mp hlt), Nat.digits_def' (by decide) hpos,
      Nat.digits_of_lt _ _ (by omega) (by omega)]
    rfl

/-- One pair, when the quotient by 100 is right. -/
theorem decText_pair (hge : 100 ≤ r.toNat) (hq : q.toNat = r.toNat / 100) :
    decText r.toNat = putDecpair (r - 100 * q) ++ decText q.toNat := by
  rw [putDecpair_eq (by rw [toNat_remainder hq]; omega), toNat_remainder hq, decText_of_ge hge, hq]

/-- `put_dec_trunc8` goes on until less than 100 is left. -/
theorem putDecTrunc8_eq (hpos : 0 < r.toNat) (hr : r.toNat < 10 ^ 8) :
    putDecTrunc8 r = decText r.toNat := by
  have hlt_iff : ∀ x : BitVec 32, x < 100 ↔ x.toNat < 100 := fun _ => BitVec.lt_def
  rw [putDecTrunc8]
  by_cases h₁ : r.toNat < 100
  · rw [if_pos ((hlt_iff r).mpr h₁)]
    exact putDecLast_eq hpos h₁
  have hq := toNat_recip64 hr
  rw [if_neg (mt (hlt_iff r).mp h₁)]
  generalize (((r.setWidth 64 * 0x28f5c29) >>> 32).setWidth 32 : BitVec 32) = q at hq ⊢
  rw [decText_pair (Nat.le_of_not_lt h₁) hq]
  refine congrArg (putDecpair (r - 100 * q) ++ ·) ?_
  by_cases h₂ : q.toNat < 100
  · rw [if_pos ((hlt_iff q).mpr h₂)]
    exact putDecLast_eq (by omega) h₂
  have hr' := toNat_recip64 (r := q) (by omega)
  rw [if_neg (mt (hlt_iff q).mp h₂)]
  generalize (((q.setWidth 64 * 0x28f5c29) >>> 32).setWidth 32 : BitVec 32) = r' at hr' ⊢
  rw [decText_pair (Nat.le_of_not_lt h₂) hr']
  refine congrArg (putDecpair (q - 100 * r') ++ ·) ?_
  by_cases h₃ : r'.toNat < 100
  · rw [if_pos ((hlt_iff r').mpr h₃)]
    exact putDecLast_eq (by omega) h₃
  have hq' := toNat_recip32 (r := r') (by omega)
  rw [if_neg (mt (hlt_iff r').mp h₃)]
  generalize ((r' * 0x147b) >>> 19 : BitVec 32) = q' at hq' ⊢
  rw [decText_pair (Nat.le_of_not_lt h₃) hq']
  refine congrArg (putDecpair (r' - 100 * q') ++ ·) ?_
  exact putDecLast_eq (by omega) (by omega)

/-- `put_dec_full8` stores all eight digits, which go in front of those of a larger number. -/
theorem putDecFull8_append (hr : r.toNat < 10 ^ 8) (hn : 0 < n) :
    putDecFull8 r ++ decText n = decText (n * 10 ^ 8 + r.toNat) := by
  have hq := toNat_recip64 hr
  rw [putDecFull8]
  generalize (((r.setWidth 64 * 0x28f5c29) >>> 32).setWidth 32 : BitVec 32) = q at hq ⊢
  have hr' := toNat_recip64 (r := q) (by omega)
  generalize (((q.setWidth 64 * 0x28f5c29) >>> 32).setWidth 32 : BitVec 32) = r' at hr' ⊢
  have hq' := toNat_recip32 (r := r') (by omega)
  generalize ((r' * 0x147b) >>> 19 : BitVec 32) = q' at hq' ⊢
  rw [putDecpair_eq (by rw [toNat_remainder hq]; omega), toNat_remainder hq,
    putDecpair_eq (by rw [toNat_remainder hr']; omega), toNat_remainder hr',
    putDecpair_eq (by rw [toNat_remainder hq']; omega), toNat_remainder hq',
    putDecpair_eq (by omega)]
  -- four pairs of the sum
  rw [decText_of_ge (n := n * 10 ^ 8 + r.toNat) (by omega),
    decText_of_ge (n := (n * 10 ^ 8 + r.toNat) / 100) (by omega),
    decText_of_ge (n := (n * 10 ^ 8 + r.toNat) / 100 / 100) (by omega),
    decText_of_ge (n := (n * 10 ^ 8 + r.toNat) / 100 / 100 / 100) (by omega)]
  have h₁ : (n * 10 ^ 8 + r.toNat) % 100 = r.toNat % 100 := by omega
  have h₂ : (n * 10 ^ 8 + r.toNat) / 100 % 100 = q.toNat % 100 := by omega
  have h₃ : (n * 10 ^ 8 + r.toNat) / 100 / 100 % 100 = r'.toNat % 100 := by omega
  have h₄ : (n * 10 ^ 8 + r.toNat) / 100 / 100 / 100 % 100 = q'.toNat := by omega
  have h₅ : (n * 10 ^ 8 + r.toNat) / 100 / 100 / 100 / 100 = n := by omega
  rw [h₁, h₂, h₃, h₄, h₅]
  simp only [List.append_assoc]

theorem ge_hundredMillion_iff (x : BitVec 64) : x ≥ 100000000 ↔ 10 ^ 8 ≤ x.toNat := BitVec.le_def

/-- The remainder that `put_dec` passes to `put_dec_full8` fits its argument. -/
theorem toNat_hundredMillion_mod (x : BitVec 64) :
    ((x % 100000000).setWidth 32).toNat = x.toNat % 10 ^ 8 := by
  have hmod : (x % 100000000).toNat = x.toNat % 10 ^ 8 := BitVec.toNat_umod
  rw [BitVec.toNat_setWidth, hmod, Nat.mod_eq_of_lt (by omega)]

/-- What is left for `put_dec_trunc8` fits its argument, too. -/
theorem putDecTrunc8_setWidth {x : BitVec 64} (hpos : 0 < x.toNat) (hx : x.toNat < 10 ^ 8) :
    putDecTrunc8 (x.setWidth 32) = decText x.toNat := by
  have hcut : (x.setWidth 32).toNat = x.toNat := by
    rw [BitVec.toNat_setWidth, Nat.mod_eq_of_lt (by omega)]
  rw [putDecTrunc8_eq (by rw [hcut]; exact hpos) (by rw [hcut]; exact hx), hcut]

/-- `put_dec` behind its first `if`: at most sixteen digits are left. -/
theorem putDec_rest {x : BitVec 64} (hpos : 0 < x.toNat) (hx : x.toNat < 10 ^ 16) :
    (if x ≥ 100000000 then
      putDecFull8 ((x % 100000000).setWidth 32) ++ putDecTrunc8 ((x / 100000000).setWidth 32)
      else putDecTrunc8 (x.setWidth 32)) = decText x.toNat := by
  have hdiv : (x / 100000000).toNat = x.toNat / 10 ^ 8 := BitVec.toNat_udiv
  by_cases hge : 10 ^ 8 ≤ x.toNat
  · rw [if_pos ((ge_hundredMillion_iff x).mpr hge), putDecTrunc8_setWidth (by omega) (by omega),
      putDecFull8_append (by rw [toNat_hundredMillion_mod]; omega) (by omega),
      toNat_hundredMillion_mod, hdiv, Nat.div_add_mod']
  · rw [if_neg (mt (ge_hundredMillion_iff x).mp hge), putDecTrunc8_setWidth hpos (by omega)]

/-- **Base 10**: `put_dec` makes the decimal digits of any number that is not zero. -/
theorem putDec_eq {x : BitVec 64} (hpos : 0 < x.toNat) : putDec x = decText x.toNat := by
  have hx := x.isLt
  have hdiv : (x / 100000000).toNat = x.toNat / 10 ^ 8 := BitVec.toNat_udiv
  rw [putDec]
  by_cases hge : 10 ^ 8 ≤ x.toNat
  · rw [if_pos ((ge_hundredMillion_iff x).mpr hge)]
    dsimp only
    rw [putDec_rest (by omega) (by omega),
      putDecFull8_append (by rw [toNat_hundredMillion_mod]; omega) (by omega),
      toNat_hundredMillion_mod, hdiv, Nat.div_add_mod']
  · rw [if_neg (mt (ge_hundredMillion_iff x).mp hge), putDecTrunc8_setWidth hpos (by omega)]

end Decimal

/-! ## Digits by shifts -/

section Shifts

/-- `ORing digits or letters with locase`: the bit makes letters small and changes no digit. -/
theorem digitChar_locase (flags : BitVec 8) {d : ℕ} (hd : d < 16) :
    hexAscUpper.getD d 0 ||| (flags &&& Flag.small) = digitChar (hasFlag flags Flag.small) d := by
  have hall : ∀ flags : BitVec 8, ∀ d < 16,
      hexAscUpper.getD d 0 ||| (flags &&& Flag.small) = digitChar (hasFlag flags Flag.small) d := by
    decide +kernel
  exact hall flags d hd

/-- The digits of a number in a base that is a power of two, by shifts. -/
theorem shiftDigits_eq (flags : BitVec 8) {shift : ℕ} {mask : BitVec 8}
    (hmask : ∀ x : BitVec 8, (x &&& mask).toNat = x.toNat % 2 ^ shift) (hpos : 0 < shift)
    (hshift : shift ≤ 4) {n : ℕ} {num : BitVec 64} (hnum : 0 < num.toNat)
    (hlt : num.toNat < (2 ^ shift) ^ n) :
    shiftDigits mask shift (flags &&& Flag.small) n num =
      (Nat.digits (2 ^ shift) num.toNat).map (digitChar (hasFlag flags Flag.small)) := by
  have hbase : 1 < 2 ^ shift := Nat.one_lt_two_pow (by omega)
  have hle : 2 ^ shift ≤ 2 ^ 4 := Nat.pow_le_pow_right (by decide) hshift
  induction n generalizing num with
  | zero =>
    rw [Nat.pow_zero] at hlt
    omega
  | succ n ih =>
    have hdigit : (num.setWidth 8 &&& mask).toNat = num.toNat % 2 ^ shift := by
      rw [hmask, BitVec.toNat_setWidth, Nat.mod_mod_of_dvd _ (Nat.pow_dvd_pow 2 (by omega))]
    have hrest : (num >>> shift).toNat = num.toNat / 2 ^ shift := by
      rw [BitVec.toNat_ushiftRight, Nat.shiftRight_eq_div_pow]
    have hmod := Nat.mod_lt num.toNat (Nat.zero_lt_of_lt hbase)
    rw [shiftDigits, hdigit, digitChar_locase flags (by omega),
      Nat.digits_def' hbase hnum, List.map_cons]
    congr 1
    by_cases hzero : num >>> shift = 0
    · rw [if_pos hzero, ← hrest, hzero]
      simp
    · have hpos' : 0 < (num >>> shift).toNat := BitVec.toNat_pos_of_ne_zero hzero
      rw [if_neg hzero, ih hpos', hrest]
      rw [hrest, Nat.div_lt_iff_lt_mul (by omega), ← Nat.pow_succ]
      exact hlt

end Shifts

/-! ## The digits -/

section Digits

variable {num : BitVec 64} {base : BitVec 8} (flags : BitVec 8)

/-- A number below the base is a single digit. -/
theorem numberDigits_lt (hlt : num.toNat < base.toNat) (hbase : base.toNat ≤ 16) :
    numberDigits num base (flags &&& Flag.small) =
      [digitChar (hasFlag flags Flag.small) num.toNat] := by
  have hcond : num < base.setWidth 64 := by
    rw [BitVec.lt_def, BitVec.toNat_setWidth_of_le (by decide)]
    exact hlt
  rw [numberDigits, if_pos hcond, digitChar_locase flags (by omega)]

/-- A digit in base 10 is the same in either case. -/
theorem digitChar_decimal (small : Bool) {d : ℕ} (hd : d < 10) :
    digitChar false d = digitChar small d := by
  have hall : ∀ small : Bool, ∀ d < 10, digitChar false d = digitChar small d := by decide
  exact hall small d hd

/-- **Digits**: what is in `tmp` is the number, the lowest digit first. -/
theorem numberDigits_eq (hbase : base = 8 ∨ base = 10 ∨ base = 16) :
    (numberDigits num base (flags &&& Flag.small)).reverse =
      numeral base.toNat num.toNat (hasFlag flags Flag.small) := by
  have hle : base.toNat ≤ 16 ∧ 1 < base.toNat := by
    rcases hbase with rfl | rfl | rfl <;> decide
  by_cases hlt : num.toNat < base.toNat
  · rw [numberDigits_lt flags hlt hle.1, List.reverse_singleton, numeral]
    by_cases hzero : num.toNat = 0
    · rw [if_pos hzero, hzero]
      cases hasFlag flags Flag.small <;> rfl
    · rw [if_neg hzero, Nat.digits_of_lt _ _ hzero hlt]
      rfl
  have hpos : 0 < num.toNat := by omega
  have hcond : ¬num < base.setWidth 64 := by
    rw [BitVec.lt_def, BitVec.toNat_setWidth_of_le (by decide)]
    exact hlt
  rw [numeral, if_neg (by omega), List.map_reverse, numberDigits, if_neg hcond]
  refine congrArg List.reverse ?_
  have hnum := num.isLt
  rcases hbase with rfl | rfl | rfl
  · exact shiftDigits_eq flags (by decide +kernel) (by decide) (by decide) hpos
      (lt_of_lt_of_le hnum (by decide))
  · rw [if_neg (by decide), putDec_eq hpos, decText]
    exact List.map_congr_left fun d hd =>
      digitChar_decimal _ (Nat.digits_lt_base (by decide) hd)
  · exact shiftDigits_eq flags (by decide +kernel) (by decide) (by decide) hpos
      (lt_of_lt_of_le hnum (by decide))

theorem length_putDecpair (r : BitVec 32) : (putDecpair r).length = 2 := rfl

theorem putDecLast_prefix (r : BitVec 32) : putDecLast r <+: [r].flatMap putDecpair := by
  rw [List.flatMap_singleton]
  exact List.take_prefix _ _

/-- The digits of `put_dec_trunc8` are a part of what it stores. -/
theorem putDecTrunc8_prefix (r : BitVec 32) :
    putDecTrunc8 r <+: (putDecTrunc8Stores r).flatMap putDecpair := by
  rw [putDecTrunc8, putDecTrunc8Stores]
  split
  · exact putDecLast_prefix r
  dsimp only
  rw [List.flatMap_cons, List.prefix_append_right_inj]
  split
  · exact putDecLast_prefix _
  rw [List.flatMap_cons, List.prefix_append_right_inj]
  split
  · exact putDecLast_prefix _
  rw [List.flatMap_cons, List.prefix_append_right_inj]
  exact putDecLast_prefix _

theorem putDecFull8_stores (r : BitVec 32) :
    putDecFull8 r = (putDecFull8Stores r).flatMap putDecpair := by
  simp [putDecFull8, putDecFull8Stores]

theorem putDec_prefix (x : BitVec 64) : putDec x <+: (putDecStores x).flatMap putDecpair := by
  rw [putDec, putDecStores]
  split
  · dsimp only
    rw [List.flatMap_append, ← putDecFull8_stores, List.prefix_append_right_inj]
    split
    · rw [List.flatMap_append, ← putDecFull8_stores, List.prefix_append_right_inj]
      exact putDecTrunc8_prefix _
    · exact putDecTrunc8_prefix _
  · exact putDecTrunc8_prefix _

theorem length_putDecTrunc8Stores (r : BitVec 32) : (putDecTrunc8Stores r).length ≤ 4 := by
  rw [putDecTrunc8Stores]
  split
  · exact Nat.le_of_ble_eq_true rfl
  dsimp only
  split
  · exact Nat.le_of_ble_eq_true rfl
  split
  · exact Nat.le_of_ble_eq_true rfl
  · exact Nat.le_of_ble_eq_true rfl

theorem length_putDecStores (x : BitVec 64) : (putDecStores x).length ≤ 12 := by
  have hfull (r : BitVec 32) : (putDecFull8Stores r).length = 4 := rfl
  rw [putDecStores]
  split
  · dsimp only
    rw [List.length_append, hfull]
    split
    · have hlast := length_putDecTrunc8Stores (((x / 100000000) / 100000000).setWidth 32)
      rw [List.length_append, hfull]
      omega
    · have hlast := length_putDecTrunc8Stores ((x / 100000000).setWidth 32)
      omega
  · have hlast := length_putDecTrunc8Stores (x.setWidth 32)
    omega

/-- A 64-bit number has no more than 24 digits, from base 8 on. -/
theorem length_numeral {b : ℕ} (hb : 8 ≤ b) (x : BitVec 64) (small : Bool) :
    (numeral b x.toNat small).length ≤ tmpSize := by
  rw [numeral]
  split
  · exact Nat.le_of_ble_eq_true rfl
  · have hfits : x.toNat < b ^ tmpSize :=
      calc x.toNat < 2 ^ 64 := x.isLt
        _ ≤ 8 ^ tmpSize := by decide
        _ ≤ b ^ tmpSize := Nat.pow_le_pow_left hb _
    rw [List.length_map, List.length_reverse]
    exact (Nat.digits_length_le_iff (by omega) _).mpr hfits

/-- **The scratch buffer**: the digits are a part of what is stored to `tmp`, which is not more
than it holds. -/
theorem tmpStored_fits (hbase : base = 8 ∨ base = 10 ∨ base = 16) :
    numberDigits num base (flags &&& Flag.small) <+: tmpStored num base (flags &&& Flag.small) ∧
      (tmpStored num base (flags &&& Flag.small)).length ≤ tmpSize := by
  rw [tmpStored]
  by_cases hsingle : num < base.setWidth 64 ∨ base ≠ 10
  · rw [if_pos hsingle]
    refine ⟨List.prefix_refl _, ?_⟩
    rw [← List.length_reverse, numberDigits_eq flags hbase]
    exact length_numeral (by rcases hbase with rfl | rfl | rfl <;> decide) num _
  · rw [if_neg hsingle]
    rw [not_or, not_not] at hsingle
    obtain ⟨hge, rfl⟩ := hsingle
    constructor
    · rw [numberDigits, if_neg hge, if_neg (by decide)]
      exact putDec_prefix num
    · have hpairs := length_putDecStores num
      have hlen :
          ((putDecStores num).flatMap putDecpair).length = 2 * (putDecStores num).length := by
        simp [List.length_flatMap, length_putDecpair, Nat.mul_comm]
      rw [hlen]
      exact (Nat.mul_le_mul_left 2 hpairs).trans (by decide)

end Digits

/-! ## Sign, prefix and padding

The code counts the width and the precision down by what it is about to emit, and the loops emit
the rest as padding. A count that is negative emits nothing. -/

section Text

variable (num : BitVec 64) (spec : PrintfSpec)

theorem isNegative_iff :
    isNegative num spec = true ↔ hasFlag spec.flags Flag.sign = true ∧ num.toInt < 0 := by
  rw [isNegative, Bool.and_eq_true, BitVec.slt_iff_toInt_lt]
  rfl

/-- The absolute value of a negative number, also of the smallest one. -/
theorem toNat_neg_of_negative (h : num.toInt < 0) : (-num).toNat = num.toInt.natAbs := by
  have hlt := num.isLt
  rw [BitVec.toInt_eq_toNat_cond] at h ⊢
  rw [BitVec.toNat_neg]
  split at h
  · omega
  · rename_i hbig
    rw [if_neg hbig, Nat.mod_eq_of_lt (by omega)]
    omega

/-- The sign takes its place in the width, and the rest is the absolute value. -/
theorem numberSign_eq (width : ℤ) :
    (if (numberSign spec.flags num width).1 ≠ 0 then [(numberSign spec.flags num width).1]
        else []) = signText num spec ∧
      (numberSign spec.flags num width).2.1.toNat = magnitude num spec ∧
      (numberSign spec.flags num width).2.2 = width - (signText num spec).length := by
  have hminus : ¬ch '-' = 0#8 := by decide
  have hplus : ¬ch '+' = 0#8 := by decide
  have hspace : ¬ch ' ' = 0#8 := by decide
  have hiff := isNegative_iff num spec
  unfold numberSign signText magnitude
  by_cases hneg : num.toInt < 0
  · have habs := toNat_neg_of_negative num hneg
    generalize hasFlag spec.flags Flag.sign = sign at hiff ⊢
    generalize hasFlag spec.flags Flag.plus = plus
    generalize hasFlag spec.flags Flag.space = space
    cases sign with
    | false =>
      have hpositive : isNegative num spec = false := by simpa using hiff
      simp [hpositive]
    | true =>
      have hnegative : isNegative num spec = true := hiff.mpr ⟨rfl, hneg⟩
      rw [hnegative, if_pos rfl, if_pos hneg]
      exact ⟨if_pos hminus, habs, rfl⟩
  · have hpositive : isNegative num spec = false :=
      Bool.eq_false_iff.mpr fun h => hneg (hiff.mp h).2
    generalize hasFlag spec.flags Flag.sign = sign
    generalize hasFlag spec.flags Flag.plus = plus
    generalize hasFlag spec.flags Flag.space = space
    rw [hpositive]
    cases sign <;> cases plus <;> cases space <;> simp [hneg, hplus, hspace]

/-- `'X' | locase`: the bit makes the letter of the prefix small. -/
theorem prefix_locase (flags : BitVec 8) :
    ch 'X' ||| (flags &&& Flag.small) = if hasFlag flags Flag.small then ch 'x' else ch 'X' := by
  have hall : ∀ flags : BitVec 8, ch 'X' ||| (flags &&& Flag.small) =
      if hasFlag flags Flag.small then ch 'x' else ch 'X' := by decide +kernel
  exact hall flags

/-- The prefix that is emitted is that of the specification, and so is its width. -/
theorem prefix_eq (hbase : spec.base = 8 ∨ spec.base = 10 ∨ spec.base = 16) {needPfx : Bool}
    (hneed : needPfx = (hasFlag spec.flags Flag.special && spec.base != 10)) :
    ((if needPfx && (spec.base == 16 || !(num == 0)) then [ch '0'] else []) ++
        if needPfx && spec.base == 16 then [ch 'X' ||| (spec.flags &&& Flag.small)] else []) =
      prefixText num spec ∧
    (if needPfx then (if spec.base = 16 then 2 else if !(num == 0) then 1 else 0) else 0 : ℤ) =
      (prefixText num spec).length := by
  unfold prefixText
  rw [prefix_locase, hneed]
  generalize hasFlag spec.flags Flag.special = special
  cases special with
  | false => simp
  | true =>
    rcases hbase with hb | hb | hb
    · by_cases hzero : num = 0#64
      · simp [hb, hzero]
      · simp [hb, hzero]
    · simp [hb]
    · simp [hb]

/-- `LEFT` clears `ZEROPAD`, which the loops before the digits look at, and no other flag. -/
theorem flags_left (flags : BitVec 8) {flags' : BitVec 8}
    (hflags : flags' = if hasFlag flags Flag.left then flags &&& ~~~Flag.zeropad else flags) :
    hasFlag flags' (Flag.zeropad ||| Flag.left) =
        (hasFlag flags Flag.left || hasFlag flags Flag.zeropad) ∧
      hasFlag flags' Flag.left = hasFlag flags Flag.left ∧
      hasFlag flags' Flag.sign = hasFlag flags Flag.sign ∧
      hasFlag flags' Flag.plus = hasFlag flags Flag.plus ∧
      hasFlag flags' Flag.space = hasFlag flags Flag.space ∧
      (hasFlag flags Flag.left = false → ch ' ' + (flags' &&& Flag.zeropad) =
        if hasFlag flags Flag.zeropad then ch '0' else ch ' ') := by
  subst hflags
  revert flags
  decide +kernel

theorem toNat_afterLoop (n : ℤ) : (afterLoop n).toNat = 0 := by
  unfold afterLoop
  split <;> omega

/-- **The loops**: the first one that may pad takes all of the width that is left, and the others
none. -/
theorem loops_eq {left zeropad : Bool} {c : BitVec 8} (width : ℤ)
    (sign pfx zeros digits : List (BitVec 8))
    (hchar : left = false → c = if zeropad then ch '0' else ch ' ') :
    (if !(left || zeropad) then List.replicate width.toNat (ch ' ') else []) ++ sign ++ pfx ++
        (if !left then List.replicate (if !(left || zeropad) then afterLoop width
          else width).toNat c else []) ++ zeros ++ digits ++
        List.replicate (if !left then afterLoop (if !(left || zeropad) then afterLoop width
          else width) else if !(left || zeropad) then afterLoop width else width).toNat
          (ch ' ') =
      if left then sign ++ pfx ++ zeros ++ digits ++ List.replicate width.toNat (ch ' ')
      else if zeropad then
        sign ++ pfx ++ List.replicate width.toNat (ch '0') ++ zeros ++ digits
      else List.replicate width.toNat (ch ' ') ++ sign ++ pfx ++ zeros ++ digits := by
  cases left with
  | true => simp
  | false =>
    rw [hchar rfl]
    cases zeropad with
    | true => simp [toNat_afterLoop]
    | false => simp [toNat_afterLoop]

/-- **The text** that `number` emits is sign, prefix, padding and digits, in the right order. -/
theorem numberText_eq (hbase : spec.base = 8 ∨ spec.base = 10 ∨ spec.base = 16) :
    numberText num spec = rendered num spec := by
  obtain ⟨hsign, hmagnitude, hwidth⟩ := numberSign_eq num spec spec.fieldWidth.toInt
  obtain ⟨hpfx, hpfxWidth⟩ := prefix_eq num spec hbase rfl
  have hdigits : (numberDigits (numberSign spec.flags num spec.fieldWidth.toInt).2.1 spec.base
      (spec.flags &&& Flag.small)).reverse = digitText num spec := by
    rw [numberDigits_eq spec.flags hbase, hmagnitude, digitText]
  have hlength : (numberDigits (numberSign spec.flags num spec.fieldWidth.toInt).2.1 spec.base
      (spec.flags &&& Flag.small)).length = (digitText num spec).length := by
    rw [← hdigits, List.length_reverse]
  unfold numberText
  dsimp only
  generalize hflags : (if hasFlag spec.flags Flag.left then spec.flags &&& ~~~Flag.zeropad
    else spec.flags) = flags'
  obtain ⟨hleading, hpadding, hsign', hplus', hspace', hchar⟩ := flags_left spec.flags hflags.symm
  have hsigned : numberSign flags' num spec.fieldWidth.toInt =
      numberSign spec.flags num spec.fieldWidth.toInt := by
    rw [numberSign, numberSign, hsign', hplus', hspace']
  rw [hsigned, hleading, hpadding, hsign, hdigits, hlength, hwidth, hpfxWidth]
  generalize hmax : max ((digitText num spec).length : ℤ) spec.precision.toInt = precision
  have hzeros : List.replicate (precision - (digitText num spec).length).toNat (ch '0') =
      zeroText num spec := by
    rw [zeroText]
    congr 1
    omega
  have hpad (c : BitVec 8) : padText num spec c = List.replicate (spec.fieldWidth.toInt -
      (signText num spec).length - (prefixText num spec).length - precision).toNat c := by
    rw [padText]
    congr 1
    rw [← hzeros, List.length_replicate]
    omega
  have hloops := loops_eq (spec.fieldWidth.toInt - (signText num spec).length -
    (prefixText num spec).length - precision) (signText num spec) (prefixText num spec)
    (zeroText num spec) (digitText num spec) hchar
  have hjoin (l : List (BitVec 8)) := List.append_assoc l _ _ |>.trans (congrArg (l ++ ·) hpfx)
  rw [rendered, hpad, hpad, ← hloops, hzeros, hjoin]

end Text

/-- **Numbers**: whatever the number, the flags, the width, the precision and the end of the
buffer are, `number` emits the number as it should be printed, and does not store more to `tmp`
than it holds. -/
theorem number_renders (num : BitVec 64) (spec : PrintfSpec)
    (hbase : spec.base = 8 ∨ spec.base = 10 ∨ spec.base = 16) :
    let value := (numberSign spec.flags num spec.fieldWidth.toInt).2.1
    let locase := spec.flags &&& Flag.small
    Emits (number num spec) (rendered num spec) ∧
      numberDigits value spec.base locase <+: tmpStored value spec.base locase ∧
      (tmpStored value spec.base locase).length ≤ tmpSize := by
  refine ⟨?_, tmpStored_fits spec.flags hbase⟩
  rw [← numberText_eq num spec hbase]
  exact number_emits num spec

/-- The most negative number, in base 10 with a width of 24. -/
theorem number_renders_minimum :
    let spec : PrintfSpec := ⟨.longLong, 24, Flag.sign, 10, -1⟩
    let value := (numberSign spec.flags (BitVec.intMin 64) spec.fieldWidth.toInt).2.1
    let locase := spec.flags &&& Flag.small
    Emits (number (BitVec.intMin 64) spec) (rendered (BitVec.intMin 64) spec) ∧
      numberDigits value spec.base locase <+: tmpStored value spec.base locase ∧
      (tmpStored value spec.base locase).length ≤ tmpSize :=
  number_renders (BitVec.intMin 64) ⟨.longLong, 24, Flag.sign, 10, -1⟩ (.inr (.inl rfl))

example : rendered (BitVec.intMin 64) ⟨.longLong, 24, Flag.sign, 10, -1⟩ =
    "    -9223372036854775808".toList.map ch := by
  decide +kernel

end Lvisor
