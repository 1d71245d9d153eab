import Lvisor.Machine

/-!
# The clock (`tsc.c`)

`uptime` converts a value of the time-stamp counter to microseconds, by a multiplication and a
division of 64 bits; `udelay` reads it until enough of them have passed.

* `micros` — the microseconds of a value of the counter, as a number;
* `uptime_eq_iff` — `uptime` is right exactly when the product does not wrap;
* `udelay_return` — the reading at which `udelay` returns;
* `udelay_elapsed_iff` — `udelay` never ends too early exactly when no reading would end it so;
* `uptime_exact_iff` — the clock, its monotonicity and the delay together.
-/

namespace Lvisor

/-- `uptime` in microseconds, when `get_cycles` returns `cycles`. The product wraps around. -/
def uptime (tscKhz cycles : BitVec 64) : BitVec 64 :=
  if tscKhz = 0#64 then 0#64 else cycles * 1000#64 / tscKhz

/-- The loop of `udelay` from the `i`-th value of the counter on: the one at which it ends. -/
def udelayLoop (tscKhz usecs t0 : BitVec 64) (tsc : ℕ → BitVec 64) : ℕ → ℕ → Exec ℕ
  | 0, _ => .error .outOfFuel
  | fuel + 1, i =>
    if uptime tscKhz (tsc i) - t0 < usecs then udelayLoop tscKhz usecs t0 tsc fuel (i + 1)
    else .ok i

/-- `udelay`, where `tsc` are the values that `get_cycles` returns: the last one it reads. -/
def udelay (tscKhz usecs : BitVec 64) (tsc : ℕ → BitVec 64) (fuel : ℕ) : Exec ℕ :=
  let t0 := uptime tscKhz (tsc 0)
  if t0 = 0#64 then .ok 0 else udelayLoop tscKhz usecs t0 tsc fuel 1

/-! ## The clock

The conversion multiplies before it divides. The exact quotient may fit in 64 bits where the
product does not, so that the clock is wrong long before the counter wraps. -/

/-- The microseconds of a value of the counter, without wrapping. -/
def micros (tscKhz cycles : BitVec 64) : ℕ := cycles.toNat * 1000 / tscKhz.toNat

/-- The product of the conversion fits in 64 bits. -/
def NoWrap (cycles : BitVec 64) : Prop := cycles.toNat * 1000 < 2 ^ 64

instance (cycles : BitVec 64) : Decidable (NoWrap cycles) := inferInstanceAs (Decidable (_ < _))

section Clock

variable {tscKhz cycles cycles' : BitVec 64}

theorem toNat_uptime (h : tscKhz ≠ 0#64) (cycles : BitVec 64) :
    (uptime tscKhz cycles).toNat = cycles.toNat * 1000 % 2 ^ 64 / tscKhz.toNat := by
  rw [uptime, if_neg h, BitVec.toNat_udiv, BitVec.toNat_mul]
  rfl

/-- **`uptime` is exact** as long as the product does not wrap, and no longer: what is lost is
more than the divisor. -/
theorem uptime_eq_iff (h : tscKhz ≠ 0#64) :
    (uptime tscKhz cycles).toNat = micros tscKhz cycles ↔ NoWrap cycles := by
  have hpos := BitVec.toNat_pos_of_ne_zero h
  rw [toNat_uptime h, micros, NoWrap]
  generalize cycles.toNat * 1000 = n
  constructor
  · intro heq
    by_contra hwrap
    have hlost : n % 2 ^ 64 + tscKhz.toNat ≤ n := by
      have hlt := tscKhz.isLt
      have hmod := Nat.div_add_mod n (2 ^ 64)
      have hquot : 1 ≤ n / 2 ^ 64 := (Nat.one_le_div_iff (by decide)).mpr (Nat.not_lt.mp hwrap)
      omega
    have hless := Nat.div_le_div_right (c := tscKhz.toNat) hlost
    rw [Nat.add_div_right _ hpos, heq] at hless
    omega
  · intro hlt
    rw [Nat.mod_eq_of_lt hlt]

theorem NoWrap.mono (h : NoWrap cycles') (hle : cycles ≤ cycles') : NoWrap cycles :=
  Nat.lt_of_le_of_lt (Nat.mul_le_mul_right 1000 hle) h

theorem micros_mono (hle : cycles ≤ cycles') : micros tscKhz cycles ≤ micros tscKhz cycles' :=
  Nat.div_le_div_right (Nat.mul_le_mul_right 1000 hle)

/-- Without a wrap, the clock does not go back. -/
theorem uptime_mono (h : tscKhz ≠ 0#64) (hwrap : NoWrap cycles') (hle : cycles ≤ cycles') :
    uptime tscKhz cycles ≤ uptime tscKhz cycles' := by
  rw [BitVec.le_def, (uptime_eq_iff h).mpr (hwrap.mono hle), (uptime_eq_iff h).mpr hwrap]
  exact micros_mono hle

end Clock

/-! ## The delay -/

section Delay

variable {tscKhz usecs t0 : BitVec 64} {tsc : ℕ → BitVec 64} {fuel i n : ℕ}

/-- The loop ends at a value that is far enough from the first one, on the clock. -/
theorem udelayLoop_return (h : udelayLoop tscKhz usecs t0 tsc fuel i = .ok n) :
    i ≤ n ∧ usecs ≤ uptime tscKhz (tsc n) - t0 := by
  induction fuel generalizing i with
  | zero => cases h
  | succ fuel ih =>
    rw [udelayLoop] at h
    split at h
    · obtain ⟨hle, hus⟩ := ih h
      exact ⟨Nat.le_of_succ_le hle, hus⟩
    · rename_i hus
      obtain rfl := Except.ok.inj h
      exact ⟨Nat.le_refl _, BitVec.not_lt.mp hus⟩

/-- A value that is far enough ends the loop there, if no earlier one has. -/
theorem exists_udelayLoop (d : ℕ) (hus : usecs ≤ uptime tscKhz (tsc (i + d)) - t0) :
    ∃ n, udelayLoop tscKhz usecs t0 tsc (d + 1) i = .ok n ∧ n ≤ i + d := by
  induction d generalizing i with
  | zero =>
    refine ⟨i, ?_, Nat.le_refl _⟩
    rw [udelayLoop]
    exact if_neg (BitVec.not_lt.mpr hus)
  | succ d ih =>
    rw [udelayLoop]
    by_cases hlt : uptime tscKhz (tsc i) - t0 < usecs
    · rw [if_pos hlt]
      rw [show i + (d + 1) = i + 1 + d by omega] at hus ⊢
      exact ih hus
    · rw [if_neg hlt]
      exact ⟨i, rfl, Nat.le_add_right _ _⟩

/-- **The delay**: `udelay` returns at a later value than the first. -/
theorem udelay_return (hfirst : uptime tscKhz (tsc 0) ≠ 0#64)
    (h : udelay tscKhz usecs tsc fuel = .ok n) :
    1 ≤ n ∧ usecs ≤ uptime tscKhz (tsc n) - uptime tscKhz (tsc 0) := by
  rw [udelay, if_neg hfirst] at h
  exact udelayLoop_return h

/-- Without a wrap, that many microseconds have passed on the clock. -/
theorem micros_of_udelay (hkhz : tscKhz ≠ 0#64) (hmono : tsc 0 ≤ tsc n)
    (hfirst : uptime tscKhz (tsc 0) ≠ 0#64) (h : udelay tscKhz usecs tsc fuel = .ok n)
    (hwrap : NoWrap (tsc n)) :
    usecs.toNat ≤ micros tscKhz (tsc n) - micros tscKhz (tsc 0) := by
  have hus : usecs.toNat ≤ (uptime tscKhz (tsc n) - uptime tscKhz (tsc 0)).toNat :=
    (udelay_return hfirst h).2
  rwa [BitVec.toNat_sub_of_le (uptime_mono hkhz hwrap hmono), (uptime_eq_iff hkhz).mpr hwrap,
    (uptime_eq_iff hkhz).mpr (hwrap.mono hmono)] at hus

theorem le_of_steps (hstep : ∀ i, tsc i ≤ tsc (i + 1)) (hle : i ≤ n) : tsc i ≤ tsc n := by
  induction hle with
  | refl => exact BitVec.le_refl _
  | step _ ih => exact BitVec.le_trans ih (hstep _)

end Delay

/-! ## Elapsed time

A delay should last as long as it says in the time of the counter, which has no wrap and is not
cut to microseconds. The clock has both. Its values fall into periods, one for each time that
the product of the conversion has wrapped, and the delay compares two values without asking for
their periods. So a reading that is still in the period of the first ends the delay too early by
the rounding only, and a reading behind the next wrap does whenever the clock is set back by it. -/

/-- That many microseconds lie between two values of the counter, with no rounding. -/
def Elapsed (tscKhz usecs cycles cycles' : BitVec 64) : Prop :=
  usecs.toNat * tscKhz.toNat ≤ (cycles'.toNat - cycles.toNat) * 1000

/-- How often the product of the conversion has wrapped at this value of the counter. -/
def wraps (cycles : BitVec 64) : ℕ := cycles.toNat * 1000 / 2 ^ 64

/-- What the division of the conversion leaves. -/
def rest (tscKhz cycles : BitVec 64) : ℕ := cycles.toNat * 1000 % 2 ^ 64 % tscKhz.toNat

/-- The second value does not end a delay from the first too early. In one period that says that
it is not exactly so many microseconds later on the clock with the smaller rest. Behind a wrap
the clock is not back behind the first value; or it is, but so many microseconds are more than
the difference that wraps there, or have elapsed. -/
structure EndsInTime (tscKhz usecs cycles cycles' : BitVec 64) : Prop where
  samePeriod : wraps cycles' = wraps cycles →
    (uptime tscKhz cycles').toNat = (uptime tscKhz cycles).toNat + usecs.toNat →
      rest tscKhz cycles ≤ rest tscKhz cycles'
  pastWrap : wraps cycles < wraps cycles' → uptime tscKhz cycles' < uptime tscKhz cycles →
    2 ^ 64 + (uptime tscKhz cycles').toNat < (uptime tscKhz cycles).toNat + usecs.toNat ∨
      Elapsed tscKhz usecs cycles cycles'

/-- Differences of quotients and of numbers. -/
theorem mul_le_sub_iff {k u a b : ℕ} (hk : 0 < k) (hab : a ≤ b) (hdiv : u ≤ b / k - a / k) :
    u * k ≤ b - a ↔ u < b / k - a / k ∨ a % k ≤ b % k := by
  have ha := Nat.div_add_mod a k
  have hb := Nat.div_add_mod b k
  have hra := Nat.mod_lt a hk
  have hle : a / k ≤ b / k := Nat.div_le_div_right hab
  obtain ⟨d, hd⟩ := Nat.exists_eq_add_of_le hle
  rw [hd, Nat.mul_add] at hb
  rw [hd, Nat.add_sub_cancel_left] at hdiv ⊢
  generalize a % k = x at *
  generalize b % k = y at *
  rcases Nat.lt_or_eq_of_le hdiv with hlt | rfl
  · have hmul : (u + 1) * k ≤ d * k := Nat.mul_le_mul_right k hlt
    rw [Nat.add_mul, Nat.one_mul] at hmul
    rw [Nat.mul_comm k d] at hb
    exact iff_of_true (by omega) (.inl hlt)
  · rw [Nat.mul_comm k u] at hb
    constructor
    · intro h
      exact .inr (by omega)
    · rintro (h | h)
      · exact absurd h (Nat.lt_irrefl u)
      · omega

/-- The rounding of two quotients is less than what is at least the divisor. -/
theorem mul_le_add_sub {k u a b m : ℕ} (hk : 0 < k) (hkm : k ≤ m) (hdiv : u ≤ b / k - a / k) :
    u * k ≤ m + b - a := by
  rcases Nat.eq_zero_or_pos u with rfl | hu
  · rw [Nat.zero_mul]
    exact Nat.zero_le _
  · have hmul : (u + a / k) * k ≤ b := (Nat.le_div_iff_mul_le hk).mp (by omega)
    have ha := Nat.div_add_mod a k
    have hrest := Nat.mod_lt a hk
    rw [Nat.mul_comm] at ha
    rw [Nat.add_mul] at hmul
    omega

section Wraps

variable {tscKhz usecs cycles cycles' : BitVec 64}

/-- The counter, by periods. -/
theorem wraps_add (cycles : BitVec 64) :
    2 ^ 64 * wraps cycles + cycles.toNat * 1000 % 2 ^ 64 = cycles.toNat * 1000 :=
  Nat.div_add_mod _ _

theorem wraps_mono (hle : cycles ≤ cycles') : wraps cycles ≤ wraps cycles' :=
  Nat.div_le_div_right (Nat.mul_le_mul_right 1000 hle)

theorem elapsed_iff :
    Elapsed tscKhz usecs cycles cycles' ↔
      usecs.toNat * tscKhz.toNat ≤ cycles'.toNat * 1000 - cycles.toNat * 1000 := by
  rw [Elapsed, Nat.sub_mul]

/-- More time has elapsed at a later value. -/
theorem Elapsed.mono {cycles'' : BitVec 64} (h : Elapsed tscKhz usecs cycles cycles')
    (hle : cycles' ≤ cycles'') : Elapsed tscKhz usecs cycles cycles'' :=
  Nat.le_trans h (Nat.mul_le_mul_right 1000 (Nat.sub_le_sub_right hle _))

/-- In one period, the values are those of a clock that does not wrap. -/
theorem elapsed_iff_of_samePeriod (hkhz : tscKhz ≠ 0#64) (hle : cycles ≤ cycles')
    (hperiod : wraps cycles' = wraps cycles) :
    uptime tscKhz cycles ≤ uptime tscKhz cycles' ∧
      (usecs ≤ uptime tscKhz cycles' - uptime tscKhz cycles →
        (Elapsed tscKhz usecs cycles cycles' ↔
          usecs.toNat < (uptime tscKhz cycles').toNat - (uptime tscKhz cycles).toNat ∨
            rest tscKhz cycles ≤ rest tscKhz cycles')) := by
  have hmul : cycles.toNat * 1000 ≤ cycles'.toNat * 1000 := Nat.mul_le_mul_right 1000 hle
  have hfirst := wraps_add cycles
  have hlast := wraps_add cycles'
  rw [hperiod] at hlast
  have hdiff : cycles'.toNat * 1000 - cycles.toNat * 1000 =
      cycles'.toNat * 1000 % 2 ^ 64 - cycles.toNat * 1000 % 2 ^ 64 := by omega
  have hmod : cycles.toNat * 1000 % 2 ^ 64 ≤ cycles'.toNat * 1000 % 2 ^ 64 := by omega
  have hclock : uptime tscKhz cycles ≤ uptime tscKhz cycles' := by
    rw [BitVec.le_def, toNat_uptime hkhz, toNat_uptime hkhz]
    exact Nat.div_le_div_right hmod
  refine ⟨hclock, fun hus => ?_⟩
  rw [BitVec.le_def, BitVec.toNat_sub_of_le hclock, toNat_uptime hkhz, toNat_uptime hkhz] at hus
  rw [elapsed_iff, hdiff, toNat_uptime hkhz, toNat_uptime hkhz]
  exact mul_le_sub_iff (BitVec.toNat_pos_of_ne_zero hkhz) hmod hus

/-- Behind a wrap, a clock that is not back behind the first value has run long enough: the wrap
makes up for the rounding. -/
theorem elapsed_of_pastWrap (hkhz : tscKhz ≠ 0#64) (hperiod : wraps cycles < wraps cycles')
    (hclock : uptime tscKhz cycles ≤ uptime tscKhz cycles')
    (hus : usecs ≤ uptime tscKhz cycles' - uptime tscKhz cycles) :
    Elapsed tscKhz usecs cycles cycles' := by
  have hpos := BitVec.toNat_pos_of_ne_zero hkhz
  rw [BitVec.le_def, BitVec.toNat_sub_of_le hclock, toNat_uptime hkhz, toNat_uptime hkhz] at hus
  rw [elapsed_iff]
  have hwraps : 2 ^ 64 * (wraps cycles + 1) ≤ 2 ^ 64 * wraps cycles' :=
    Nat.mul_le_mul_left _ hperiod
  rw [Nat.mul_add, Nat.mul_one] at hwraps
  have hfirst := wraps_add cycles
  have hlast := wraps_add cycles'
  have hsum := mul_le_add_sub hpos (Nat.le_of_lt tscKhz.isLt) hus
  omega

/-- **One value**: it ends the delay in time exactly when what ends the loop says that the time
has elapsed. -/
theorem endsInTime_iff (hkhz : tscKhz ≠ 0#64) (hle : cycles ≤ cycles') :
    EndsInTime tscKhz usecs cycles cycles' ↔
      (usecs ≤ uptime tscKhz cycles' - uptime tscKhz cycles →
        Elapsed tscKhz usecs cycles cycles') := by
  rcases Nat.eq_or_lt_of_le (wraps_mono hle) with hperiod | hperiod
  · obtain ⟨hclock, helapsed⟩ :=
      @elapsed_iff_of_samePeriod tscKhz usecs cycles cycles' hkhz hle hperiod.symm
    have hsub := BitVec.toNat_sub_of_le hclock
    rw [BitVec.le_def] at hclock
    constructor
    · intro h hus
      refine (helapsed hus).mpr ?_
      rw [BitVec.le_def, hsub] at hus
      rcases Nat.lt_or_eq_of_le hus with hlt | heq
      · exact .inl hlt
      · exact .inr (h.samePeriod hperiod.symm (by omega))
    · intro h
      refine ⟨fun _ heq => ?_, fun hlt => absurd hlt (by omega)⟩
      have hus : usecs ≤ uptime tscKhz cycles' - uptime tscKhz cycles := by
        rw [BitVec.le_def, hsub]
        omega
      rcases (helapsed hus).mp (h hus) with hlt | hrest
      · exact absurd hlt (by omega)
      · exact hrest
  · by_cases hback : uptime tscKhz cycles' < uptime tscKhz cycles
    · have hsub := BitVec.toNat_sub_of_lt hback
      have hlast := (uptime tscKhz cycles').isLt
      have hfirst := (uptime tscKhz cycles).isLt
      have hlt : (uptime tscKhz cycles').toNat < (uptime tscKhz cycles).toNat := hback
      constructor
      · intro h hus
        rw [BitVec.le_def, hsub] at hus
        exact (h.pastWrap hperiod hback).resolve_left (by omega)
      · intro h
        refine ⟨fun heq => absurd heq (by omega), fun _ _ => ?_⟩
        by_cases hus : usecs ≤ uptime tscKhz cycles' - uptime tscKhz cycles
        · exact .inr (h hus)
        · rw [BitVec.le_def, hsub] at hus
          exact .inl (by omega)
    · have hclock := BitVec.not_lt.mp hback
      exact iff_of_true ⟨fun heq => absurd heq (by omega), fun _ hlt => absurd hlt hback⟩
        fun hus => elapsed_of_pastWrap hkhz hperiod hclock hus

end Wraps

/-- **The delay and the time**: it never ends too early exactly when none of its readings would
end it too early. The first one that is far enough on the clock is where it returns, and at no
earlier reading has more time elapsed. -/
theorem udelay_elapsed_iff {tscKhz usecs : BitVec 64} {tsc : ℕ → BitVec 64}
    (hkhz : tscKhz ≠ 0#64) (hstep : ∀ i, tsc i ≤ tsc (i + 1))
    (hfirst : uptime tscKhz (tsc 0) ≠ 0#64) :
    (∀ fuel n, udelay tscKhz usecs tsc fuel = .ok n → Elapsed tscKhz usecs (tsc 0) (tsc n)) ↔
      ∀ i, EndsInTime tscKhz usecs (tsc 0) (tsc (i + 1)) := by
  constructor
  · intro hall i
    rw [endsInTime_iff hkhz (le_of_steps hstep (Nat.zero_le _))]
    intro hus
    rw [Nat.add_comm] at hus ⊢
    obtain ⟨n, hloop, hn⟩ := exists_udelayLoop i hus
    have hret : udelay tscKhz usecs tsc (i + 1) = .ok n := by rw [udelay, if_neg hfirst, hloop]
    exact (hall _ _ hret).mono (le_of_steps hstep hn)
  · intro hall fuel n hret
    obtain ⟨hn, hus⟩ := udelay_return hfirst hret
    obtain ⟨i, rfl⟩ := Nat.exists_eq_add_of_le' hn
    exact (endsInTime_iff hkhz (le_of_steps hstep (Nat.zero_le _))).mp (hall i) hus

/-- What `uptime` should do at two values of the counter: be exact where the microseconds fit in
64 bits, and not go back. -/
structure ClockRight (tscKhz cycles cycles' : BitVec 64) : Prop where
  exact : micros tscKhz cycles < 2 ^ 64 → (uptime tscKhz cycles).toNat = micros tscKhz cycles
  exact' : micros tscKhz cycles' < 2 ^ 64 → (uptime tscKhz cycles').toNat = micros tscKhz cycles'
  mono : cycles ≤ cycles' → micros tscKhz cycles' < 2 ^ 64 →
    uptime tscKhz cycles ≤ uptime tscKhz cycles'

/-- **The clock and the delay.** The clock is right at two values of the counter exactly when
neither product wraps, where the microseconds fit. A delay never ends before its time exactly
when none of its readings would end it too early, in whichever periods they and the first one
are. Readings without a wrap are that many microseconds of the clock after the first. -/
theorem uptime_exact_iff (tscKhz : BitVec 64) (hkhz : tscKhz ≠ 0#64) :
    (∀ cycles cycles' : BitVec 64, ClockRight tscKhz cycles cycles' ↔
      (micros tscKhz cycles < 2 ^ 64 → NoWrap cycles) ∧
        (micros tscKhz cycles' < 2 ^ 64 → NoWrap cycles')) ∧
    ∀ (usecs : BitVec 64) (tsc : ℕ → BitVec 64), (∀ i, tsc i ≤ tsc (i + 1)) →
      uptime tscKhz (tsc 0) ≠ 0#64 →
        ((∀ fuel n, udelay tscKhz usecs tsc fuel = .ok n →
            Elapsed tscKhz usecs (tsc 0) (tsc n)) ↔
          ∀ i, EndsInTime tscKhz usecs (tsc 0) (tsc (i + 1))) ∧
        ∀ fuel n, udelay tscKhz usecs tsc fuel = .ok n → NoWrap (tsc n) →
          usecs.toNat ≤ micros tscKhz (tsc n) - micros tscKhz (tsc 0) := by
  constructor
  · intro cycles cycles'
    constructor
    · rintro ⟨hexact, hexact', -⟩
      exact ⟨fun h => (uptime_eq_iff hkhz).mp (hexact h),
        fun h => (uptime_eq_iff hkhz).mp (hexact' h)⟩
    · rintro ⟨hwrap, hwrap'⟩
      exact ⟨fun h => (uptime_eq_iff hkhz).mpr (hwrap h),
        fun h => (uptime_eq_iff hkhz).mpr (hwrap' h),
        fun hle h => uptime_mono hkhz (hwrap' h) hle⟩
  · intro usecs tsc hstep hfirst
    exact ⟨udelay_elapsed_iff hkhz hstep hfirst, fun fuel n h hwrap =>
      micros_of_udelay hkhz (le_of_steps hstep (Nat.zero_le n)) hfirst h hwrap⟩

/-- A counter of 2 GHz that starts at its second microsecond and makes one each time. -/
theorem uptime_exact_iff_start :
    ClockRight 2000000#64 4000#64 6000#64 ∧
      (∀ fuel n, udelay 2000000#64 3#64 (fun i => BitVec.ofNat 64 (4000 + 2000 * min i 5)) fuel =
        .ok n → Elapsed 2000000#64 3#64 4000#64
          (BitVec.ofNat 64 (4000 + 2000 * min n 5))) ∧
      udelay 2000000#64 3#64 (fun i => BitVec.ofNat 64 (4000 + 2000 * min i 5)) 10 = .ok 3 ∧
      3 ≤ micros 2000000#64 10000#64 - micros 2000000#64 4000#64 := by
  have hall := uptime_exact_iff 2000000#64 (by decide)
  have hdelay : udelay 2000000#64 3#64 (fun i => BitVec.ofNat 64 (4000 + 2000 * min i 5)) 10 =
      .ok 3 := by decide
  have hval : ∀ i, (BitVec.ofNat 64 (4000 + 2000 * min i 5)).toNat = 4000 + 2000 * min i 5 :=
    fun i => by
      rw [BitVec.toNat_ofNat]
      exact Nat.mod_eq_of_lt (by omega)
  have hstep : ∀ i, BitVec.ofNat 64 (4000 + 2000 * min i 5) ≤
      BitVec.ofNat 64 (4000 + 2000 * min (i + 1) 5) := fun i => by
    rw [BitVec.le_def, hval, hval]
    omega
  have hperiod : ∀ i, wraps (BitVec.ofNat 64 (4000 + 2000 * min i 5)) = 0 := fun i => by
    rw [wraps, hval]
    exact Nat.div_eq_of_lt (by omega)
  have hdelays := hall.2 3#64 (fun i => BitVec.ofNat 64 (4000 + 2000 * min i 5)) hstep (by decide)
  refine ⟨(hall.1 _ _).mpr ⟨fun _ => by decide, fun _ => by decide⟩, hdelays.1.mpr fun i => ?_,
    hdelay, hdelays.2 10 3 hdelay (by decide)⟩
  have hfirst : rest 2000000#64 (BitVec.ofNat 64 (4000 + 2000 * min 0 5)) = 0 := by decide
  refine ⟨fun _ _ => ?_, fun hlt => ?_⟩
  · rw [hfirst]
    exact Nat.zero_le _
  · rw [hperiod, hperiod] at hlt
    exact absurd hlt (Nat.lt_irrefl 0)

/-- After 106 days at 2 GHz the product wraps between two values of the counter that follow one
another: the clock goes back to 0, and a delay of a second ends with the microsecond that it
began in. -/
theorem not_clockRight_wrap :
    micros 2000000#64 18446744073709552#64 < 2 ^ 64 ∧
    ¬ClockRight 2000000#64 18446744073709551#64 18446744073709552#64 ∧
      uptime 2000000#64 18446744073709552#64 = 0#64 ∧
      udelay 2000000#64 1000000#64 (fun i => if i = 0 then 18446744073709551#64 else
        18446744073709552#64) 10 = .ok 1 ∧
      micros 2000000#64 18446744073709552#64 - micros 2000000#64 18446744073709551#64 = 0 := by
  refine ⟨by decide, fun h => absurd (h.exact' (by decide)) (by decide), by decide, by decide,
    by decide⟩

end Lvisor
