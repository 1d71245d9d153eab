import Mathlib.Tactic.Linarith
import Mathlib.Tactic.Ring
import Lvisor.Tsc

/-!
# The frequency of the time-stamp counter (`tsc.c`)

`quick_pit_calibrate` compares the time-stamp counter with the 8254, whose counter runs at a known
rate: it polls the high byte of that counter, takes the cycles at which the byte changes, and stops
when the changes are so far apart that not knowing them exactly makes no difference.

* `PitEnv`, `Pit` — the counters, and the time that each operation takes;
* `quickPitCalibrate` — the calibration;
* `PitEnv.period` — how often the high byte has changed; `period_le_of_took` and `period_lt_of_long`
  bound it over a time;
* `Crossing` — what a call of `pit_expect_msb` that succeeds has seen;
* `quickPitCalibrate_accurate` — the result is the frequency, up to one part in 2048 and one kHz.
-/

namespace Lvisor

/-! ## The counters

The environment has the two clocks and the time that each operation takes, counted in cycles of
the time-stamp counter; `Pit` is the state of the 8254 between two operations. An operation takes
its time first, and then reads or writes. -/

/-- `PIT_TICK_RATE`: the frequency of the 8254 in Hz. -/
def pitTickRate : ℕ := 1193182

/-- `MAX_QUICK_PIT_ITERATIONS`: changes of the high byte that fit in the half second of the
calibration. -/
def maxQuickPitIterations : ℕ := 500 * pitTickRate / 1000 / 256

/-- What the calibration depends on: the frequency of the time-stamp counter, how far the clock of
the 8254 is between two ticks, what its counter reads before the first tick, and how many cycles
pass up to each operation. -/
structure PitEnv where
  freq : ℕ
  phase : ℕ
  stale : BitVec 16
  delay : ℕ → ℕ

/-- The time in cycles, the number of operations so far, the register at port 0x61, and counter 2:
whether its high byte is the next one, the low byte that was written, the count, and when it was
loaded. -/
structure Pit where
  now : ℕ
  ops : ℕ
  port61 : BitVec 8
  high : Bool
  low : BitVec 8
  count : BitVec 16
  loaded : ℕ

/-- The ticks of the 8254 from the time `loaded` on, by its own clock with its phase. -/
def PitEnv.ticks (env : PitEnv) (loaded now : ℕ) : ℕ :=
  ((now - loaded) * pitTickRate + env.phase) / env.freq

namespace Pit

variable (env : PitEnv)

/-- The time that an operation takes, as the environment has it for its number. -/
def pass (st : Pit) : Pit := { st with now := st.now + env.delay st.ops, ops := st.ops + 1 }

/-- Counter 2, which counts down while its gate is high. -/
def counter (st : Pit) : BitVec 16 :=
  if st.port61.getLsbD 0 = false ∨ env.ticks st.loaded st.now = 0 then env.stale
  else st.count - BitVec.ofNat 16 (env.ticks st.loaded st.now - 1)

/-- `inb(0x61)`: the control of the gate and the speaker. -/
def inb61 (st : Pit) : BitVec 8 × Pit := (st.port61, st.pass env)

/-- `outb(val, 0x61)`: it stores the value when the time has passed. -/
def outb61 (val : BitVec 8) (st : Pit) : Pit := { st.pass env with port61 := val }

/-- `outb(0xb0, 0x43)`: the low byte of counter 2 is the next one. -/
def outb43 (st : Pit) : Pit := { st.pass env with high := false }

/-- `outb(val, 0x42)`: low byte first; with the high byte the counter starts. -/
def outb42 (val : BitVec 8) (st : Pit) : Pit :=
  let st := st.pass env
  if st.high then { st with high := false, count := val ++ st.low, loaded := st.now }
  else { st with high := true, low := val }

/-- `inb(0x42)`: a byte of the count at that time, low byte first. -/
def inb42 (st : Pit) : BitVec 8 × Pit :=
  let st := st.pass env
  if st.high then ((st.counter env).extractLsb' 8 8, { st with high := false })
  else ((st.counter env).extractLsb' 0 8, { st with high := true })

/-- `get_cycles`: the time-stamp counter at the end of the operation. -/
def getCycles (st : Pit) : BitVec 64 × Pit :=
  let st := st.pass env
  (BitVec.ofNat 64 st.now, st)

end Pit

/-! ## The calibration -/

/-- `pit_verify_msb`: the low byte is read and dropped, and the high byte compared. -/
def pitVerifyMsb (env : PitEnv) (val : BitVec 8) (st : Pit) : Bool × Pit :=
  let (_, st) := st.inb42 env
  let (msb, st) := st.inb42 env
  (msb == val, st)

/-- The variables of `pit_expect_msb` while it polls. -/
structure Polls where
  count : ℕ
  tsc : BitVec 64
  prevTsc : BitVec 64
  st : Pit

/-- The loop of `pit_expect_msb`, with so many iterations left. -/
def pitExpectLoop (env : PitEnv) (val : BitVec 8) : ℕ → Polls → Polls
  | 0, p => p
  | n + 1, p =>
    let (hit, st) := pitVerifyMsb env val p.st
    if hit then
      let (tsc, st) := st.getCycles env
      pitExpectLoop env val n ⟨p.count + 1, tsc, p.tsc, st⟩
    else { p with st := st }

/-- What `pit_expect_msb` returns, in `*tscp` and `*deltap` as well. -/
structure Expected where
  ok : Bool
  tsc : BitVec 64
  delta : BitVec 64
  st : Pit

/-- `pit_expect_msb`: it polls while the high byte is the expected one, and then returns when it
was last seen, and how long the last polls took. -/
def pitExpectMsb (env : PitEnv) (val : BitVec 8) (st : Pit) : Expected :=
  let p := pitExpectLoop env val 50000 ⟨0, 0, 0, st⟩
  let (now, st) := p.st.getCycles env
  ⟨1 < p.count, p.tsc, now - p.prevTsc, st⟩

/-- The loop of `quick_pit_calibrate` from `i` on, with so many iterations left. -/
def quickPitLoop (env : PitEnv) (tsc d1 : BitVec 64) : ℕ → ℕ → Pit → BitVec 64 × Pit
  | 0, _, st => (0, st)
  | n + 1, i, st =>
    let r := pitExpectMsb env (0xff - BitVec.ofNat 8 i) st
    if r.ok then
      let delta := r.tsc - tsc
      if i = 1 ∧ (delta * BitVec.ofNat 64 maxQuickPitIterations) >>> 11 ≤ d1 + r.delta then
        (0, r.st)
      else if delta >>> 11 ≤ d1 + r.delta then quickPitLoop env tsc d1 n (i + 1) r.st
      else
        let (hit, st) := pitVerifyMsb env (0xfe - BitVec.ofNat 8 i) r.st
        if hit then
          let base := BitVec.ofNat 32 (i * 256 * 1000)
          (delta * BitVec.ofNat 64 pitTickRate / base.setWidth 64, st)
        else (0, st)
    else (0, r.st)

/-- `quick_pit_calibrate`; the frequency is in kHz, and zero if there is no result. -/
def quickPitCalibrate (env : PitEnv) (st : Pit) : BitVec 64 × Pit :=
  let (gate, st) := st.inb61 env
  let st := st.outb61 env ((gate &&& ~~~0x02) ||| 0x01)
  let st := st.outb43 env
  let st := st.outb42 env 0xff
  let st := st.outb42 env 0xff
  let (_, st) := pitVerifyMsb env 0 st
  let r := pitExpectMsb env 0xff st
  if r.ok then quickPitLoop env r.tsc r.delta maxQuickPitIterations 1 r.st else (0, r.st)

/-! ## Time -/

/-- Every operation takes between 2.2 ns and 9 ms, and the clock of the 8254 is between two
ticks. -/
structure PitEnv.Sane (env : PitEnv) : Prop where
  phase_lt : env.phase < env.freq
  least : ∀ k, 256 * env.freq ≤ 100000 * (env.delay k * pitTickRate)
  most : ∀ k, env.delay k * pitTickRate ≤ 42 * (256 * env.freq)

/-- From `t` to `t'` there were `k` operations: each took at least and at most as long as
`PitEnv.Sane` says. -/
structure Took (env : PitEnv) (k t t' : ℕ) : Prop where
  le : t ≤ t'
  least : k * (256 * env.freq) ≤ 100000 * ((t' - t) * pitTickRate)
  most : (t' - t) * pitTickRate ≤ k * (42 * (256 * env.freq))

/-- How often the high byte of the counter has changed. -/
def PitEnv.period (env : PitEnv) (loaded t : ℕ) : ℕ := (env.ticks loaded t - 1) / 256

/-- The high byte of the count at the time `t`. -/
def PitEnv.msb (env : PitEnv) (loaded t : ℕ) : BitVec 8 :=
  (if env.ticks loaded t = 0 then env.stale
    else 0xffff#16 - BitVec.ofNat 16 (env.ticks loaded t - 1)).extractLsb' 8 8

section Time

variable {env : PitEnv} {k l t t' t'' loaded i : ℕ}

theorem Took.trans (h : Took env k t t') (h' : Took env l t' t'') : Took env (k + l) t t'' := by
  obtain ⟨hle, hleast, hmost⟩ := h
  obtain ⟨hle', hleast', hmost'⟩ := h'
  have hsum : (t'' - t) * pitTickRate = (t'' - t') * pitTickRate + (t' - t) * pitTickRate := by
    rw [← Nat.add_mul]
    congr 1
    omega
  refine ⟨hle.trans hle', ?_, ?_⟩
  · rw [hsum, Nat.add_mul]
    omega
  · rw [hsum, Nat.add_mul]
    omega

theorem PitEnv.Sane.took (h : env.Sane) (st : Pit) : Took env 1 st.now (st.pass env).now := by
  have hnow : (st.pass env).now = st.now + env.delay st.ops := rfl
  refine ⟨by omega, ?_, ?_⟩
  · rw [hnow, Nat.add_sub_cancel_left, Nat.one_mul]
    exact h.least st.ops
  · rw [hnow, Nat.add_sub_cancel_left, Nat.one_mul]
    exact h.most st.ops

theorem PitEnv.Sane.freq_pos (h : env.Sane) : 0 < env.freq :=
  Nat.lt_of_le_of_lt (Nat.zero_le _) h.phase_lt

/-- The byte has changed `k` times by the time `t`, as a comparison of cycles. -/
theorem le_period_iff (loaded t : ℕ) (hfreq : 0 < env.freq) (hk : 0 < k) :
    k ≤ env.period loaded t ↔
      (256 * k + 1) * env.freq ≤ (t - loaded) * pitTickRate + env.phase := by
  have hticks : k ≤ env.period loaded t ↔ 256 * k + 1 ≤ env.ticks loaded t := by
    rw [PitEnv.period, Nat.le_div_iff_mul_le (by decide)]
    omega
  rw [hticks, PitEnv.ticks, Nat.le_div_iff_mul_le hfreq]

theorem lt_of_period (loaded t : ℕ) (hfreq : 0 < env.freq) :
    (t - loaded) * pitTickRate + env.phase <
      (256 * (env.period loaded t + 1) + 1) * env.freq := by
  have h := (le_period_iff (k := env.period loaded t + 1) loaded t hfreq (Nat.succ_pos _)).not
  exact Nat.lt_of_not_le (h.mp (Nat.not_succ_le_self _))

theorem ticks_mono (h : t ≤ t') : env.ticks loaded t ≤ env.ticks loaded t' :=
  Nat.div_le_div_right (Nat.add_le_add_right (Nat.mul_le_mul_right _ (by omega)) _)

theorem period_mono (env : PitEnv) (loaded : ℕ) (h : t ≤ t') :
    env.period loaded t ≤ env.period loaded t' :=
  Nat.div_le_div_right (Nat.sub_le_sub_right (ticks_mono h) 1)

theorem elapsed_add (hl : loaded ≤ t) (h : t ≤ t') :
    (t' - loaded) * pitTickRate = (t - loaded) * pitTickRate + (t' - t) * pitTickRate := by
  rw [← Nat.add_mul]
  congr 1
  omega

/-- Three operations are too short for the byte to come back to where it was. -/
theorem period_le_of_took (hs : env.Sane) (hl : loaded ≤ t) (h : Took env 3 t t') :
    env.period loaded t' ≤ env.period loaded t + 127 := by
  by_contra hlt
  have hfar := (le_period_iff (k := env.period loaded t + 128) loaded t' hs.freq_pos (by omega)).mp
    (Nat.lt_of_not_le hlt)
  have hnear := lt_of_period loaded t hs.freq_pos
  have hmost := h.most
  have hsplit := elapsed_add hl h.le
  have hexpand : (256 * (env.period loaded t + 128) + 1) * env.freq =
      (256 * (env.period loaded t + 1) + 1) * env.freq + 32512 * env.freq := by ring
  rw [hsplit, hexpand] at hfar
  omega

/-- In a time longer than 256 ticks the byte changes. -/
theorem period_lt_of_long (hfreq : 0 < env.freq) (hl : loaded ≤ t) (hle : t ≤ t')
    (h : 257 * env.freq ≤ (t' - t) * pitTickRate) :
    env.period loaded t < env.period loaded t' := by
  refine (le_period_iff loaded t' hfreq (Nat.succ_pos _)).mpr ?_
  rw [elapsed_add hl hle]
  rcases Nat.eq_zero_or_pos (env.period loaded t) with hzero | hpos
  · rw [hzero]
    omega
  · have hreached := (le_period_iff loaded t hfreq hpos).mp (Nat.le_refl _)
    have hexpand : (256 * (env.period loaded t + 1) + 1) * env.freq =
        (256 * env.period loaded t + 1) * env.freq + 256 * env.freq := by ring
    rw [Nat.succ_eq_add_one, hexpand]
    omega

/-- The byte tells how often it has changed, modulo its range. -/
theorem msb_eq_iff (hstarted : env.ticks loaded t ≠ 0) :
    env.msb loaded t = 0xff - BitVec.ofNat 8 i ↔ env.period loaded t % 256 = i % 256 := by
  rw [PitEnv.msb, if_neg hstarted, PitEnv.period]
  generalize env.ticks loaded t - 1 = n
  have hcount : (0xffff#16 - BitVec.ofNat 16 n).toNat = 65535 - n % 65536 := by bv_omega
  have hmsb : ((0xffff#16 - BitVec.ofNat 16 n).extractLsb' 8 8).toNat = 255 - n / 256 % 256 := by
    rw [BitVec.extractLsb'_toNat, hcount, Nat.shiftRight_eq_div_pow]
    omega
  have hval : (0xff - BitVec.ofNat 8 i).toNat = 255 - i % 256 := by bv_omega
  rw [← BitVec.toNat_inj, hmsb, hval]
  omega

theorem period_of_msb (h : env.msb loaded t = 0xff - BitVec.ofNat 8 i)
    (hstarted : i = 0 ∨ env.ticks loaded t ≠ 0) : env.period loaded t % 256 = i % 256 := by
  by_cases hzero : env.ticks loaded t = 0
  · obtain rfl := hstarted.resolve_right (not_not_intro hzero)
    rw [PitEnv.period, hzero]
  · exact (msb_eq_iff hzero).mp h

theorem ticks_eq_zero (h : t ≤ t') (hzero : env.ticks loaded t' = 0) : env.ticks loaded t = 0 :=
  Nat.eq_zero_of_le_zero (hzero ▸ ticks_mono h)

theorem started_mono (h : t ≤ t') (hne : env.ticks loaded t ≠ 0) : env.ticks loaded t' ≠ 0 :=
  mt (ticks_eq_zero h) hne

/-- Before its first tick the counter does not change. -/
theorem started_of_msb (hle : t ≤ t') (h : env.msb loaded t' ≠ env.msb loaded t) :
    env.ticks loaded t' ≠ 0 := by
  intro hzero
  have hzero' := ticks_eq_zero hle hzero
  exact h (by rw [PitEnv.msb, PitEnv.msb, if_pos hzero, if_pos hzero'])

end Time

/-! ## Polls

A call of `pit_expect_msb` polls the byte while it is the one that it expects. It returns the
time-stamp counter behind the last poll that has seen it, and how long the last polls took; the
byte changes in that time. -/

/-- Counter 2 was loaded with 0xffff at `loaded` and is counting; its low byte is the next one. -/
structure Pit.Ready (loaded : ℕ) (st : Pit) : Prop where
  gate : st.port61.getLsbD 0 = true
  high : st.high = false
  count : st.count = 0xffff#16
  loaded_eq : st.loaded = loaded
  loaded_le : loaded ≤ st.now

section Polls

variable {env : PitEnv} {st : Pit} {loaded : ℕ}

theorem Pit.Ready.getCycles (h : st.Ready loaded) : (st.getCycles env).2.Ready loaded :=
  ⟨h.gate, h.high, h.count, h.loaded_eq, Nat.le_trans h.loaded_le (Nat.le_add_right _ _)⟩

/-- A poll tells the high byte at the time of its end. -/
theorem pitVerifyMsb_spec (hs : env.Sane) (h : st.Ready loaded) (val : BitVec 8) :
    ∃ st', pitVerifyMsb env val st = (env.msb loaded st'.now == val, st') ∧ st'.Ready loaded ∧
      Took env 2 st.now st'.now := by
  have hfirst := hs.took st
  have hsecond := hs.took (st.pass env)
  refine ⟨{ (st.pass env).pass env with high := false }, ?_,
    ⟨h.gate, rfl, h.count, h.loaded_eq, h.loaded_le.trans (hfirst.trans hsecond).le⟩,
    hfirst.trans hsecond⟩
  have hgate : st.port61[0] = true := (BitVec.getLsbD_eq_getElem (by decide)).symm.trans h.gate
  simp [pitVerifyMsb, Pit.inb42, Pit.pass, Pit.counter, PitEnv.msb, hgate, h.high, h.count,
    h.loaded_eq]

/-- The byte has been there at every poll so far, at first at `e` and last at `a`. -/
structure Polled (env : PitEnv) (loaded : ℕ) (val : BitVec 8) (e a : ℕ) (p : Polls) : Prop where
  ready : p.st.Ready loaded
  loaded_le : loaded ≤ e
  hit : env.msb loaded a = val
  same : env.period loaded e = env.period loaded a
  took : Took env (3 * (p.count - 1)) e a
  count_pos : 0 < p.count
  since : Took env 1 a p.st.now
  tsc : p.tsc = BitVec.ofNat 64 p.st.now
  prevTsc : 1 < p.count → ∃ q, e ≤ q ∧ q ≤ a ∧ p.prevTsc = BitVec.ofNat 64 q

/-- The byte was there for the last time at `a`, before the cycles were taken at `t`; at the last
poll it is another one. -/
structure Changed (env : PitEnv) (loaded e a t : ℕ) (p : Polls) : Prop where
  ready : p.st.Ready loaded
  started : env.ticks loaded p.st.now ≠ 0
  same : env.period loaded e = env.period loaded a
  after : env.period loaded a < env.period loaded p.st.now
  near : env.period loaded p.st.now ≤ env.period loaded a + 127
  le_tsc : a ≤ t
  tsc_le : t ≤ p.st.now
  tsc : p.tsc = BitVec.ofNat 64 t
  prevTsc : 1 < p.count → ∃ q, e ≤ q ∧ q ≤ a ∧ p.prevTsc = BitVec.ofNat 64 q

variable {p : Polls} {i e a n : ℕ}

/-- The first poll, before which no byte was seen. -/
theorem Polled.first (hs : env.Sane) (h : st.Ready loaded) :
    Polled env loaded (env.msb loaded st.now) st.now st.now
      ⟨1, (st.getCycles env).1, 0, (st.getCycles env).2⟩ where
  ready := h.getCycles
  loaded_le := h.loaded_le
  hit := rfl
  same := rfl
  took := ⟨Nat.le_refl _, by simp, by simp⟩
  count_pos := Nat.one_pos
  since := hs.took st
  tsc := rfl
  prevTsc hcount := absurd hcount (Nat.lt_irrefl 1)

/-- So many polls do not fit in the time between two changes. -/
theorem Polled.count_lt (hs : env.Sane) (h : Polled env loaded (0xff - BitVec.ofNat 8 i) e a p) :
    p.count < 50000 := by
  by_contra hcount
  have hleast := h.took.least
  have hmany : 149997 * (256 * env.freq) ≤ 3 * (p.count - 1) * (256 * env.freq) :=
    Nat.mul_le_mul_right _ (by omega)
  have hlong := period_lt_of_long hs.freq_pos h.loaded_le h.took.le (by omega)
  rw [h.same] at hlong
  exact Nat.lt_irrefl _ hlong

/-- **The loop of `pit_expect_msb`** ends when the byte has changed. -/
theorem Polled.loop (hs : env.Sane) (h : Polled env loaded (0xff - BitVec.ofNat 8 i) e a p)
    (hstarted : i = 0 ∨ env.ticks loaded e ≠ 0) (hn : p.count + n = 50000) :
    ∃ a' t, Changed env loaded e a' t (pitExpectLoop env (0xff - BitVec.ofNat 8 i) n p) := by
  induction n generalizing p a with
  | zero =>
    have hlt := h.count_lt hs
    omega
  | succ n ih =>
    obtain ⟨st', hverify, hready, htook⟩ := pitVerifyMsb_spec hs h.ready (0xff - BitVec.ofNat 8 i)
    have hle := h.took.le
    have hgap : Took env 3 a st'.now := h.since.trans htook
    have hnear := period_le_of_took hs (h.loaded_le.trans hle) hgap
    have hmono := period_mono env loaded hgap.le
    have hstarted' (t : ℕ) (ht : e ≤ t) : i = 0 ∨ env.ticks loaded t ≠ 0 :=
      hstarted.imp_right (started_mono ht)
    have hmod := period_of_msb h.hit (hstarted' a hle)
    rw [pitExpectLoop, hverify]
    by_cases hhit : env.msb loaded st'.now = 0xff - BitVec.ofNat 8 i
    · -- the byte is still there, and it has not come back in the meantime
      have hmod' := period_of_msb hhit (hstarted' st'.now (hle.trans hgap.le))
      have hsame : env.period loaded a = env.period loaded st'.now := by omega
      have hcount : 3 * (p.count - 1) + 3 = 3 * (p.count + 1 - 1) := by
        have hpos := h.count_pos
        omega
      rw [beq_iff_eq.mpr hhit]
      refine ih ⟨hready.getCycles, h.loaded_le, hhit, h.same.trans hsame, ?_, Nat.succ_pos _,
        hs.took st', rfl, fun _ => ?_⟩ (by simp only; omega)
      · rw [← hcount]
        exact h.took.trans hgap
      · exact ⟨p.st.now, hle.trans h.since.le, htook.le, h.tsc⟩
    · rw [beq_eq_false_iff_ne.mpr hhit]
      have hstart := started_of_msb hgap.le (by rw [h.hit]; exact hhit)
      have hne : env.period loaded st'.now % 256 ≠ i % 256 := fun heq =>
        hhit ((msb_eq_iff hstart).mpr heq)
      have hafter : env.period loaded a ≠ env.period loaded st'.now := fun heq =>
        hne (heq ▸ hmod)
      exact ⟨a, p.st.now, hready, hstart, h.same, Nat.lt_of_le_of_ne hmono hafter, hnear,
        h.since.le, htook.le, h.tsc, h.prevTsc⟩

/-- What a call of `pit_expect_msb` from `t` on has seen, if it succeeds: the byte changed between
`a` and `b`, the result is the cycles at `s`, and `q` are the cycles from which the uncertainty
counts. -/
structure Crossing (env : PitEnv) (loaded i t : ℕ) (r : Expected) (q a s b : ℕ) : Prop where
  ready : r.st.Ready loaded
  started : env.ticks loaded b ≠ 0
  reached : ∃ e, Took env 2 t e ∧ env.period loaded e = env.period loaded a
  mod : env.period loaded a % 256 = i % 256
  after : env.period loaded a < env.period loaded b
  near : env.period loaded b ≤ env.period loaded a + 127
  le_q : t ≤ q
  le_a : q ≤ a
  le_s : a ≤ s
  le_b : s ≤ b
  since : Took env 1 b r.st.now
  tsc : r.tsc = BitVec.ofNat 64 s
  delta : r.delta = BitVec.ofNat 64 r.st.now - BitVec.ofNat 64 q

/-- **`pit_expect_msb`** returns a change of the byte and the times between which it was. -/
theorem pitExpectMsb_crossing (hs : env.Sane) (h : st.Ready loaded)
    (hstarted : i = 0 ∨ env.ticks loaded st.now ≠ 0)
    (hok : (pitExpectMsb env (0xff - BitVec.ofNat 8 i) st).ok = true) :
    ∃ q a s b, Crossing env loaded i st.now (pitExpectMsb env (0xff - BitVec.ofNat 8 i) st)
      q a s b := by
  obtain ⟨st', hverify, hready, htook⟩ := pitVerifyMsb_spec hs h (0xff - BitVec.ofNat 8 i)
  obtain ⟨n, hn⟩ : ∃ n, 50000 = n + 1 := ⟨49999, rfl⟩
  have hfirst : pitExpectLoop env (0xff - BitVec.ofNat 8 i) (n + 1) ⟨0, 0, 0, st⟩ =
      if env.msb loaded st'.now = 0xff - BitVec.ofNat 8 i then
        pitExpectLoop env (0xff - BitVec.ofNat 8 i) n
          ⟨1, (st'.getCycles env).1, 0, (st'.getCycles env).2⟩
      else ⟨0, 0, 0, st'⟩ := by
    rw [pitExpectLoop, hverify]
    simp only [beq_iff_eq]
  unfold pitExpectMsb at hok ⊢
  rw [hn, hfirst] at hok ⊢
  by_cases hhit : env.msb loaded st'.now = 0xff - BitVec.ofNat 8 i
  · rw [if_pos hhit] at hok ⊢
    have hstarted' : i = 0 ∨ env.ticks loaded st'.now ≠ 0 :=
      hstarted.imp_right (started_mono htook.le)
    have hpolled := Polled.first hs hready
    rw [hhit] at hpolled
    obtain ⟨a, s, hchanged⟩ := hpolled.loop hs hstarted' (n := n) (by simp only; omega)
    generalize pitExpectLoop env (0xff - BitVec.ofNat 8 i) n
      ⟨1, (st'.getCycles env).1, 0, (st'.getCycles env).2⟩ = p at *
    obtain ⟨q, hq, hqa, hprev⟩ := hchanged.prevTsc (of_decide_eq_true hok)
    refine ⟨q, a, s, p.st.now, hchanged.ready.getCycles, hchanged.started,
      ⟨st'.now, htook, hchanged.same⟩, ?_, hchanged.after, hchanged.near, htook.le.trans hq, hqa,
      hchanged.le_tsc, hchanged.tsc_le, hs.took p.st, hchanged.tsc, ?_⟩
    · rw [← hchanged.same]
      exact period_of_msb hhit hstarted'
    · exact congrArg (fun x => (p.st.getCycles env).1 - x) hprev
  · rw [if_neg hhit] at hok
    exact absurd (of_decide_eq_true hok) (Nat.not_lt_zero 1)

end Polls

/-! ## The result

The first change and the last one are known up to a time each, and the loop goes on until the sum
of both times is a small part of what lies between the changes. The quotient is then as good as
`PitEnv.Accurate` says. -/

/-- The frequency in kHz, up to one part in 2048 and what is lost in the last division. -/
def PitEnv.Accurate (env : PitEnv) (khz : ℕ) : Prop :=
  2047 * (1000 * khz) < 2048 * env.freq ∧ 2048 * env.freq < 2049 * (1000 * (khz + 1))

section Result

variable {env : PitEnv} {st : Pit} {loaded i t t' q a s b q' a' s' b' : ℕ} {r r' : Expected}

theorem Crossing.start_le (h : Crossing env loaded i t r q a s b) : t ≤ a :=
  h.le_q.trans h.le_a

theorem Crossing.last_le (h : Crossing env loaded i t r q a s b) : a ≤ b :=
  h.le_s.trans h.le_b

/-- Two changes of the byte, `i` apart, in cycles. -/
theorem Crossing.apart (hs : env.Sane) (h : Crossing env loaded 0 t r q a s b)
    (h' : Crossing env loaded i t' r' q' a' s' b') (hl : loaded ≤ t)
    (hi : env.period loaded a' = env.period loaded a + i) (hle : b ≤ a') :
    256 * (i * env.freq) < (b' - a) * pitTickRate ∧
      (a' - b) * pitTickRate < 256 * (i * env.freq) := by
  have hbefore := lt_of_period loaded a hs.freq_pos
  have hafter := (le_period_iff (k := env.period loaded a + 1) loaded b hs.freq_pos
    (Nat.succ_pos _)).mp h.after
  have hbefore' := lt_of_period loaded a' hs.freq_pos
  have hafter' := (le_period_iff (k := env.period loaded a' + 1) loaded b' hs.freq_pos
    (Nat.succ_pos _)).mp h'.after
  have hexpand : (256 * (env.period loaded a + i + 1) + 1) * env.freq =
      (256 * (env.period loaded a + 1) + 1) * env.freq + 256 * (i * env.freq) := by ring
  have hla : loaded ≤ a := hl.trans h.start_le
  have hfirst := elapsed_add hla (h.last_le.trans (hle.trans h'.last_le))
  have hsecond := elapsed_add (hla.trans h.last_le) hle
  rw [hi, hexpand] at hbefore' hafter'
  constructor
  · omega
  · omega

theorem toNat_ofNat_sub {m n : ℕ} (hle : m ≤ n) (hn : n < 2 ^ 64) :
    (BitVec.ofNat 64 n - BitVec.ofNat 64 m).toNat = n - m := by
  rw [BitVec.toNat_sub, BitVec.toNat_ofNat, BitVec.toNat_ofNat]
  omega

/-- Where the changes are not known by more than one part in 2048, neither is the frequency. -/
theorem accurate_of_bounds {freq d e khz : ℕ} (hpos : 0 < i) (hclose : 2048 * e ≤ d)
    (hmore : 256 * (i * freq) < (d + e) * pitTickRate)
    (hless : (d - e) * pitTickRate < 256 * (i * freq))
    (hkhz : khz = d * pitTickRate / (i * 256 * 1000)) :
    2047 * (1000 * khz) < 2048 * freq ∧ 2048 * freq < 2049 * (1000 * (khz + 1)) := by
  have hbase : 0 < i * 256 * 1000 := by omega
  have hlow : khz * (i * 256 * 1000) ≤ d * pitTickRate := by
    rw [hkhz]
    exact Nat.div_mul_le_self _ _
  have hhigh : d * pitTickRate < (khz + 1) * (i * 256 * 1000) := by
    rw [hkhz]
    exact Nat.lt_mul_of_div_lt (Nat.lt_succ_self _) hbase
  have herror := Nat.mul_le_mul_right pitTickRate hclose
  constructor
  · have hscaled : 256 * i * (2047 * (1000 * khz)) < 256 * i * (2048 * freq) := by
      have hsub : (d - e) * pitTickRate + e * pitTickRate = d * pitTickRate := by
        rw [← Nat.add_mul, Nat.sub_add_cancel (by omega)]
      have hl : 256 * i * (2047 * (1000 * khz)) = 2047 * (khz * (i * 256 * 1000)) := by ring
      have hr : 256 * i * (2048 * freq) = 2048 * (256 * (i * freq)) := by ring
      rw [Nat.mul_assoc] at herror
      omega
    exact Nat.lt_of_mul_lt_mul_left hscaled
  · have hscaled : 256 * i * (2048 * freq) < 256 * i * (2049 * (1000 * (khz + 1))) := by
      have hl : 256 * i * (2048 * freq) = 2048 * (256 * (i * freq)) := by ring
      have hr : 256 * i * (2049 * (1000 * (khz + 1))) = 2049 * ((khz + 1) * (i * 256 * 1000)) := by
        ring
      rw [Nat.mul_assoc] at herror
      rw [Nat.add_mul] at hmore
      omega
    exact Nat.lt_of_mul_lt_mul_left hscaled

/-- **The result** from two crossings is as accurate as their uncertainty allows. -/
theorem Crossing.accurate (hs : env.Sane) (hfreq : env.freq < 2 ^ 43)
    (h : Crossing env loaded 0 t r q a s b) (h' : Crossing env loaded i t' r' q' a' s' b')
    (hl : loaded ≤ t) (ht : r.st.now ≤ t') (hi : env.period loaded a' = env.period loaded a + i)
    (hpos : 0 < i) (hmax : i ≤ maxQuickPitIterations) (hnow : r'.st.now < 2 ^ 64)
    (hclose : ¬(r'.tsc - r.tsc) >>> 11 ≤ r.delta + r'.delta) :
    env.Accurate ((r'.tsc - r.tsc) * BitVec.ofNat 64 pitTickRate /
      (BitVec.ofNat 32 (i * 256 * 1000)).setWidth 64).toNat := by
  have h1 := h.le_q
  have h2 := h.le_a
  have h3 := h.le_s
  have h4 := h.le_b
  have h5 := h.since.le
  have h1' := h'.le_q
  have h2' := h'.le_a
  have h3' := h'.le_s
  have h4' := h'.le_b
  have h5' := h'.since.le
  obtain ⟨hmore, hless⟩ := h.apart hs h' hl hi (by omega)
  have hd : (r'.tsc - r.tsc).toNat = s' - s := by
    rw [h'.tsc, h.tsc]
    exact toNat_ofNat_sub (by omega) (by omega)
  have hd1 : r.delta.toNat = r.st.now - q := by
    rw [h.delta]
    exact toNat_ofNat_sub (by omega) (by omega)
  have hd2 : r'.delta.toNat = r'.st.now - q' := by
    rw [h'.delta]
    exact toNat_ofNat_sub (by omega) (by omega)
  have he : (r.delta + r'.delta).toNat = (r.st.now - q) + (r'.st.now - q') := by
    rw [BitVec.toNat_add, hd1, hd2]
    exact Nat.mod_eq_of_lt (by omega)
  rw [BitVec.le_def, BitVec.toNat_ushiftRight, hd, he, Nat.shiftRight_eq_div_pow] at hclose
  have hmore' := Nat.lt_of_lt_of_le hmore (Nat.mul_le_mul_right pitTickRate
    (show b' - a ≤ s' - s + ((r.st.now - q) + (r'.st.now - q')) by omega))
  have hless' := Nat.lt_of_le_of_lt (Nat.mul_le_mul_right pitTickRate
    (show s' - s - ((r.st.now - q) + (r'.st.now - q')) ≤ a' - b by omega)) hless
  refine accurate_of_bounds hpos (by omega) hmore' hless' ?_
  have hiters : maxQuickPitIterations = 2330 := rfl
  -- the product does not wrap, since the changes are at most half a second apart
  have hwrap : (s' - s) * pitTickRate < 2 ^ 64 := by
    have herror := Nat.mul_le_mul_right pitTickRate
      (show 2048 * ((r.st.now - q) + (r'.st.now - q')) ≤ s' - s by omega)
    have hfar : i * env.freq ≤ 2330 * env.freq := Nat.mul_le_mul_right _ (by omega)
    rw [Nat.sub_mul] at hless'
    rw [Nat.mul_assoc] at herror
    omega
  have hrate : (BitVec.ofNat 64 pitTickRate).toNat = pitTickRate := rfl
  have hbase : ((BitVec.ofNat 32 (i * 256 * 1000)).setWidth 64).toNat = i * 256 * 1000 := by
    rw [BitVec.toNat_setWidth_of_le (by decide), BitVec.toNat_ofNat]
    omega
  rw [BitVec.toNat_udiv, BitVec.toNat_mul, hd, hrate, hbase, Nat.mod_eq_of_lt hwrap]

/-- A poll takes time: it consists of two operations. -/
theorem pitVerifyMsb_le (hs : env.Sane) (h : st.Ready loaded) (val : BitVec 8) :
    st.now ≤ (pitVerifyMsb env val st).2.now := by
  obtain ⟨st', hverify, -, htook⟩ := pitVerifyMsb_spec hs h val
  rw [hverify]
  exact htook.le

/-- **The loop of `quick_pit_calibrate`.** The byte has changed at `c`, after `i - 1` changes from
the first crossing on. -/
theorem quickPitLoop_accurate (hs : env.Sane) (hfreq : env.freq < 2 ^ 43)
    (h : Crossing env loaded 0 t r q a s b) (hl : loaded ≤ t) {n c : ℕ} (hready : st.Ready loaded)
    (hn : i + n = maxQuickPitIterations + 1) (hpos : 0 < i) (hle : r.st.now ≤ st.now)
    (hlc : loaded ≤ c) (hstarted : env.ticks loaded c ≠ 0) (hc : Took env 1 c st.now)
    (hfrom : env.period loaded a + i ≤ env.period loaded c)
    (hto : env.period loaded c ≤ env.period loaded a + i + 126)
    (hnow : (quickPitLoop env r.tsc r.delta n i st).2.now < 2 ^ 64)
    (hne : (quickPitLoop env r.tsc r.delta n i st).1 ≠ 0) :
    env.Accurate (quickPitLoop env r.tsc r.delta n i st).1.toNat := by
  induction n generalizing i st c with
  | zero => exact absurd rfl hne
  | succ n ih =>
    rw [quickPitLoop] at hnow hne ⊢
    by_cases hok : (pitExpectMsb env (0xff - BitVec.ofNat 8 i) st).ok = true
    · have hstarted' : env.ticks loaded st.now ≠ 0 := started_mono hc.le hstarted
      obtain ⟨q', a', s', b', h'⟩ := pitExpectMsb_crossing hs hready (.inr hstarted') hok
      generalize pitExpectMsb env (0xff - BitVec.ofNat 8 i) st = r' at *
      -- the byte was at its next value, and not a whole range later
      have hi : env.period loaded a' = env.period loaded a + i := by
        obtain ⟨e, hte, hsame⟩ := h'.reached
        have hgap := hc.trans hte
        have hnear := period_le_of_took hs hlc hgap
        have hmono := period_mono env loaded hgap.le
        have hmod := h.mod
        have hmod' := h'.mod
        omega
      have hchange := h'.start_le.trans h'.last_le
      have hsince := h'.since.le
      dsimp only at hnow hne ⊢
      rw [if_pos hok] at hnow hne ⊢
      split_ifs at hnow hne ⊢ with hfast hmore hhit
      · exact absurd rfl hne
      · have hafter := h'.after
        have hnear := h'.near
        have hlst := hlc.trans hc.le
        exact ih h'.ready (by omega) (Nat.succ_pos i) (by omega) (by omega) h'.started h'.since
          (by omega) (by omega) hnow hne
      · have hmono := pitVerifyMsb_le hs h'.ready (0xfe - BitVec.ofNat 8 i)
        exact h.accurate hs hfreq h' hl hle hi hpos (by omega) (Nat.lt_of_le_of_lt hmono hnow) hmore
      · exact absurd rfl hne
    · dsimp only at hne
      rw [if_neg hok] at hne
      exact absurd rfl hne

/-- The counter after it has been loaded, and the first poll. -/
theorem quickPitCalibrate_ready (hs : env.Sane) (st : Pit) :
    ∃ loaded st', st'.Ready loaded ∧ quickPitCalibrate env st =
      if (pitExpectMsb env 0xff st').ok then
        quickPitLoop env (pitExpectMsb env 0xff st').tsc (pitExpectMsb env 0xff st').delta
          maxQuickPitIterations 1 (pitExpectMsb env 0xff st').st
      else (0, (pitExpectMsb env 0xff st').st) := by
  obtain ⟨st1, hst1⟩ : ∃ st1, (((((st.inb61 env).2.outb61 env
      ((st.port61 &&& ~~~0x02) ||| 0x01)).outb43 env).outb42 env 0xff).outb42 env 0xff) = st1 :=
    ⟨_, rfl⟩
  have hloaded : st1.Ready st1.now := by
    subst hst1
    refine ⟨?_, ?_, ?_, ?_, Nat.le_refl _⟩ <;>
      simp [Pit.inb61, Pit.outb61, Pit.outb43, Pit.outb42, Pit.pass]
  obtain ⟨st', hverify, hready, -⟩ := pitVerifyMsb_spec hs hloaded 0
  refine ⟨_, st', hready, ?_⟩
  have hrun : quickPitCalibrate env st =
      (let r := pitExpectMsb env 0xff (pitVerifyMsb env 0 st1).2
        if r.ok then quickPitLoop env r.tsc r.delta maxQuickPitIterations 1 r.st
        else (0, r.st)) := by
    rw [← hst1]
    rfl
  rw [hrun, hverify]

end Result

/-- **The calibration.** If no operation takes less than 2.2 ns or more than 9 ms, a result is the
frequency of the time-stamp counter in kHz, up to one part in 2048 and the kHz that the last
division cuts. -/
theorem quickPitCalibrate_accurate (env : PitEnv) (hs : env.Sane) (hfreq : env.freq < 2 ^ 43)
    (st : Pit) (hnow : (quickPitCalibrate env st).2.now < 2 ^ 64)
    (hne : (quickPitCalibrate env st).1 ≠ 0) :
    env.Accurate (quickPitCalibrate env st).1.toNat := by
  obtain ⟨loaded, st', hready, hcal⟩ := quickPitCalibrate_ready hs st
  rw [hcal] at hnow hne ⊢
  split_ifs at hnow hne ⊢ with hok
  · obtain ⟨q, a, s, b, h⟩ := pitExpectMsb_crossing (i := 0) hs hready (.inl rfl) hok
    have hafter := h.after
    have hnear := h.near
    have hle := h.start_le.trans h.last_le
    exact quickPitLoop_accurate hs hfreq h hready.loaded_le h.ready (Nat.add_comm _ _) Nat.one_pos
      (Nat.le_refl _) (hready.loaded_le.trans hle) h.started h.since (by omega) (by omega) hnow hne
  · exact absurd rfl hne

/-- A processor of 2 GHz on which each operation takes five cycles, but for two long ones which
end just before the byte changes. -/
def pitEnvTwoGhz : PitEnv where
  freq := 2000000000
  phase := 0
  stale := 0
  delay k := if k = 7 then 430740 else if k = 16 then 429070 else 5

theorem pitEnvTwoGhz_sane : pitEnvTwoGhz.Sane := by
  refine ⟨by decide, fun k => ?_, fun k => ?_⟩ <;>
  · unfold pitEnvTwoGhz pitTickRate
    dsimp only
    split_ifs <;> omega

theorem quickPitCalibrate_accurate_twoGhz :
    (quickPitCalibrate pitEnvTwoGhz ⟨0, 0, 0, false, 0, 0, 0⟩).1 = 2000024 ∧
      pitEnvTwoGhz.Accurate
        (quickPitCalibrate pitEnvTwoGhz ⟨0, 0, 0, false, 0, 0, 0⟩).1.toNat :=
  ⟨by decide +kernel,
    quickPitCalibrate_accurate pitEnvTwoGhz pitEnvTwoGhz_sane (by decide) _ (by decide +kernel)
      (by decide +kernel)⟩

end Lvisor
