import Lvisor.Elf
import Lvisor.VsprintfNumber

/-!
# `put_dec` in memory (`vsprintf.c`)

`put_dec` stores two digits at a time from `buf` on and returns the pointer behind them. It divides
by 100 with two reciprocals, each of them right for small numbers only. The state keeps the stores
and the quotients, of which nothing in the code depends.

* `Written` — what is in memory when some digits are written;
* `Written.putPair`, `Written.outR`, `Written.pair_bind` — one store;
* `putDecTrunc8At_written`, `putDecFull8At_written` — the helpers write the digits of
  `putDecTrunc8` and `putDecFull8`;
* `putDecAt_written` — `put_dec` writes the digits of the number, in reverse order.
-/

namespace Lvisor

/-! ## The code -/

/-- A little-endian 16-bit store, as its two bytes. -/
def write16 (mem : Memory) (p : BitVec 64) (x : BitVec 16) : Memory :=
  Function.update (Function.update mem p (x.setWidth 8)) (p + 1) ((x >>> 8).setWidth 8)

/-- The state of a conversion: the pointer and memory, and what was stored and divided so far. -/
structure PutDecState where
  /-- the next character -/
  buf : BitVec 64
  mem : Memory
  /-- the addresses of the 16-bit stores so far -/
  stores : List (BitVec 64)
  /-- the divisions by 100 so far: dividend and quotient -/
  quotients : List (BitVec 32 × BitVec 32)

namespace PutDecState

/-- `*((uint16_t *)buf) = decpair[x]; buf += step;` -/
def putPair (x : BitVec 32) (step : BitVec 64) (s : PutDecState) : Exec PutDecState :=
  if x.toNat < 100 then
    return { s with
      buf := s.buf + step
      mem := write16 s.mem s.buf (decpair x)
      stores := s.buf :: s.stores }
  else throw .outOfBounds

/-- The quotient `q` of `r` is taken, and recorded. -/
def divided (r q : BitVec 32) (s : PutDecState) : PutDecState :=
  { s with quotients := (r, q) :: s.quotients }

/-- `out_r`: the last pair is stored, and the pointer goes on by the digits that count. -/
def outR (r : BitVec 32) (s : PutDecState) : Exec PutDecState :=
  s.putPair r (if r < 10 then 1 else 2)

end PutDecState

/-- `put_dec_trunc8`. At `out_q`, `q` is the last `r`. -/
def putDecTrunc8At (r : BitVec 32) (s : PutDecState) : Exec PutDecState :=
  if r < 100 then s.outR r
  else do
    let q := ((r.setWidth 64 * 0x28f5c29) >>> 32).setWidth 32
    let s ← (s.divided r q).putPair (r - 100 * q) 2
    if q < 100 then s.outR q
    else
      let r := ((q.setWidth 64 * 0x28f5c29) >>> 32).setWidth 32
      let s ← (s.divided q r).putPair (q - 100 * r) 2
      if r < 100 then s.outR r
      else
        let q := (r * 0x147b) >>> 19
        let s ← (s.divided r q).putPair (r - 100 * q) 2
        s.outR q

/-- `put_dec_full8`: four pairs are stored, with no test in between. -/
def putDecFull8At (r : BitVec 32) (s : PutDecState) : Exec PutDecState := do
  let q := ((r.setWidth 64 * 0x28f5c29) >>> 32).setWidth 32
  let s ← (s.divided r q).putPair (r - 100 * q) 2
  let r := ((q.setWidth 64 * 0x28f5c29) >>> 32).setWidth 32
  let s ← (s.divided q r).putPair (q - 100 * r) 2
  let q := (r * 0x147b) >>> 19
  let s ← (s.divided r q).putPair (r - 100 * q) 2
  s.putPair q 2

/-- `put_dec`: the two helpers, by the size of the number. -/
def putDecAt (n : BitVec 64) (s : PutDecState) : Exec PutDecState :=
  if n ≥ 100000000 then do
    let s ← putDecFull8At ((n % 100000000).setWidth 32) s
    let n := n / 100000000
    if n ≥ 100000000 then
      let s ← putDecFull8At ((n % 100000000).setWidth 32) s
      putDecTrunc8At ((n / 100000000).setWidth 32) s
    else putDecTrunc8At (n.setWidth 32) s
  else putDecTrunc8At (n.setWidth 32) s

/-! ## What is written

The invariant of the stores: the digits so far are in memory from `buf` on, two to a store, and
the quotients so far are those of numbers. A helper adds its digits behind them. -/

section Written

variable {buf p : BitVec 64} {mem : Memory} {l : List (BitVec 8)} {s : PutDecState}
  {r q : BitVec 32}

/-- The characters are written from `buf` on, with at most one byte behind them, and every quotient
so far is right. -/
structure Written (buf : BitVec 64) (mem : Memory) (l : List (BitVec 8)) (s : PutDecState) :
    Prop where
  behind : s.buf = buf + BitVec.ofNat 64 l.length
  chars : ∀ i < l.length, some (s.mem (buf + BitVec.ofNat 64 i)) = l[i]?
  frame : ∀ a, ¬Within buf (l.length + 1) a → s.mem a = mem a
  stores : ∀ p ∈ s.stores, Within buf (l.length + 1) p ∧ Within buf (l.length + 1) (p + 1)
  quotients : ∀ d ∈ s.quotients, d.2.toNat = d.1.toNat / 100

theorem Written.divided (h : Written buf mem l s) (hq : q.toNat = r.toNat / 100) :
    Written buf mem l (s.divided r q) where
  behind := h.behind
  chars := h.chars
  frame := h.frame
  stores := h.stores
  quotients := by
    intro d hd
    rcases List.mem_cons.mp hd with rfl | hold
    · exact hq
    · exact h.quotients d hold

theorem write16_low (mem : Memory) (p : BitVec 64) (x : BitVec 16) :
    write16 mem p x p = x.setWidth 8 := by
  have hne : p ≠ p + 1 := fun h =>
    absurd (add_ofNat_inj (by decide) (by decide) ((BitVec.add_zero p).trans h)) Nat.zero_ne_one
  rw [write16, Function.update_of_ne hne, Function.update_self]

theorem write16_high (mem : Memory) (p : BitVec 64) (x : BitVec 16) :
    write16 mem p x (p + 1) = (x >>> 8).setWidth 8 := Function.update_self _ _ _

theorem write16_of_ne (mem : Memory) {a : BitVec 64} (x : BitVec 16) (h : a ≠ p)
    (h' : a ≠ p + 1) : write16 mem p x a = mem a := by
  rw [write16, Function.update_of_ne h', Function.update_of_ne h]

/-- A store of two characters, of which `n` are kept. -/
theorem Written.putPair (h : Written buf mem l s) (hr : r.toNat < 100) {n : ℕ} (hpos : 0 < n)
    (hn : n ≤ 2) (hfits : l.length + 2 ≤ 2 ^ 32) :
    ∃ s', s.putPair r (BitVec.ofNat 64 n) = .ok s' ∧
      Written buf mem (l ++ (putDecpair r).take n) s' := by
  have hlen : (l ++ (putDecpair r).take n).length = l.length + n := by
    rw [List.length_append, List.length_take, length_putDecpair, Nat.min_eq_left hn]
  have hfirst : s.buf = buf + BitVec.ofNat 64 l.length := h.behind
  have hsecond : s.buf + 1 = buf + BitVec.ofNat 64 (l.length + 1) := by
    rw [hfirst, BitVec.ofNat_add, BitVec.add_assoc]
    rfl
  refine ⟨_, if_pos hr, ?_, fun i hi => ?_, fun a ha => ?_, ?_, h.quotients⟩
  · rw [hlen, BitVec.ofNat_add, ← BitVec.add_assoc, ← hfirst]
  · change some (write16 s.mem s.buf (decpair r) (buf + BitVec.ofNat 64 i)) = _
    rw [hlen] at hi
    rcases Nat.lt_or_ge i l.length with hold | hnew
    · have hne : buf + BitVec.ofNat 64 i ≠ s.buf := fun heq =>
        absurd (add_ofNat_inj (by omega) (by omega) (heq.trans hfirst)) (by omega)
      have hne' : buf + BitVec.ofNat 64 i ≠ s.buf + 1 := fun heq =>
        absurd (add_ofNat_inj (by omega) (by omega) (heq.trans hsecond)) (by omega)
      rw [List.getElem?_append_left hold, ← h.chars i hold, write16_of_ne _ _ hne hne']
    · rw [List.getElem?_append_right hnew, List.getElem?_take_of_lt (by omega)]
      rcases Nat.eq_or_lt_of_le hnew with rfl | hhigh
      · rw [← hfirst, write16_low, Nat.sub_self]
        rfl
      · obtain rfl : i = l.length + 1 := by omega
        rw [← hsecond, write16_high, Nat.add_sub_cancel_left]
        rfl
  · change write16 s.mem s.buf (decpair r) a = mem a
    have hout {k : ℕ} (hk : k ≤ 1) : a ≠ buf + BitVec.ofNat 64 (l.length + k) := by
      rintro rfl
      exact ha (within_add (by omega) (by omega))
    rw [write16_of_ne _ _ (hfirst ▸ hout (Nat.zero_le 1)) (hsecond ▸ hout le_rfl)]
    exact h.frame a fun hin => ha (hin.mono (by omega))
  · intro p hp
    rcases List.mem_cons.mp hp with rfl | hold
    · rw [hsecond, hfirst]
      exact ⟨within_add (by omega) (by omega), within_add (by omega) (by omega)⟩
    · obtain ⟨hlow, hhigh⟩ := h.stores p hold
      exact ⟨hlow.mono (by omega), hhigh.mono (by omega)⟩

/-- The store at `out_r` keeps the invariant, for a last pair below 100. -/
theorem Written.outR (h : Written buf mem l s) (hr : r.toNat < 100)
    (hfits : l.length + 2 ≤ 2 ^ 32) :
    ∃ s', s.outR r = .ok s' ∧ Written buf mem (l ++ putDecLast r) s' := by
  rw [PutDecState.outR, putDecLast]
  by_cases hlt : r < 10
  · rw [if_pos hlt, if_pos hlt]
    exact h.putPair hr Nat.one_pos (by decide) hfits
  · rw [if_neg hlt, if_neg hlt]
    exact h.putPair hr Nat.two_pos le_rfl hfits

/-- One division, the store of the remainder, and what follows. -/
theorem Written.pair_bind (h : Written buf mem l s) (hq : q.toNat = r.toNat / 100)
    (hfits : l.length + 2 ≤ 2 ^ 32) {f : PutDecState → Exec PutDecState} {t : List (BitVec 8)}
    (hrest : ∀ {s₁ l₁}, Written buf mem l₁ s₁ → l₁.length = l.length + 2 →
      ∃ s', f s₁ = .ok s' ∧ Written buf mem (l₁ ++ t) s') :
    ∃ s', ((s.divided r q).putPair (r - 100 * q) 2 >>= f) = .ok s' ∧
      Written buf mem (l ++ (putDecpair (r - 100 * q) ++ t)) s' := by
  have hr : (r - 100 * q).toNat < 100 := by
    rw [toNat_remainder hq]
    exact Nat.mod_lt _ (by decide)
  obtain ⟨s₁, hs₁, hw₁⟩ := (h.divided hq).putPair hr Nat.two_pos le_rfl hfits
  have hs₁' : (s.divided r q).putPair (r - 100 * q) 2 = .ok s₁ := hs₁
  rw [hs₁', Exec.ok_bind, ← List.append_assoc]
  exact hrest hw₁ List.length_append

/-- `put_dec_trunc8` writes the characters of `putDecTrunc8`. -/
theorem putDecTrunc8At_written (h : Written buf mem l s) (hr : r.toNat < 10 ^ 8)
    (hfits : l.length + 8 ≤ 2 ^ 32) :
    ∃ s', putDecTrunc8At r s = .ok s' ∧ Written buf mem (l ++ putDecTrunc8 r) s' := by
  have hlt_iff : ∀ x : BitVec 32, x < 100 ↔ x.toNat < 100 := fun _ => BitVec.lt_def
  rw [putDecTrunc8At, putDecTrunc8]
  by_cases h₁ : r < 100
  · rw [if_pos h₁, if_pos h₁]
    exact h.outR ((hlt_iff r).mp h₁) (by omega)
  have hq := toNat_recip64 hr
  rw [if_neg h₁, if_neg h₁]
  generalize (((r.setWidth 64 * 0x28f5c29) >>> 32).setWidth 32 : BitVec 32) = q at hq ⊢
  dsimp only
  refine h.pair_bind hq (by omega) fun {s₁ l₁} hw₁ hlen₁ => ?_
  by_cases h₂ : q < 100
  · rw [if_pos h₂, if_pos h₂]
    exact hw₁.outR ((hlt_iff q).mp h₂) (by omega)
  have hr' := toNat_recip64 (r := q) (by omega)
  rw [if_neg h₂, if_neg h₂]
  generalize (((q.setWidth 64 * 0x28f5c29) >>> 32).setWidth 32 : BitVec 32) = r' at hr' ⊢
  refine hw₁.pair_bind hr' (by omega) fun {s₂ l₂} hw₂ hlen₂ => ?_
  by_cases h₃ : r' < 100
  · rw [if_pos h₃, if_pos h₃]
    exact hw₂.outR ((hlt_iff r').mp h₃) (by omega)
  have hq' := toNat_recip32 (r := r') (by omega)
  rw [if_neg h₃, if_neg h₃]
  generalize ((r' * 0x147b) >>> 19 : BitVec 32) = q' at hq' ⊢
  refine hw₂.pair_bind hq' (by omega) fun {s₃ l₃} hw₃ hlen₃ => ?_
  exact hw₃.outR (by omega) (by omega)

/-- `put_dec_full8` writes the characters of `putDecFull8`. -/
theorem putDecFull8At_written (h : Written buf mem l s) (hr : r.toNat < 10 ^ 8)
    (hfits : l.length + 8 ≤ 2 ^ 32) :
    ∃ s', putDecFull8At r s = .ok s' ∧ Written buf mem (l ++ putDecFull8 r) s' := by
  rw [putDecFull8At, putDecFull8]
  have hq := toNat_recip64 hr
  generalize (((r.setWidth 64 * 0x28f5c29) >>> 32).setWidth 32 : BitVec 32) = q at hq ⊢
  dsimp only
  have hr' := toNat_recip64 (r := q) (by omega)
  generalize (((q.setWidth 64 * 0x28f5c29) >>> 32).setWidth 32 : BitVec 32) = r' at hr' ⊢
  have hq' := toNat_recip32 (r := r') (by omega)
  generalize ((r' * 0x147b) >>> 19 : BitVec 32) = q' at hq' ⊢
  rw [List.append_assoc, List.append_assoc]
  refine h.pair_bind hq (by omega) fun {s₁ l₁} hw₁ hlen₁ => ?_
  refine hw₁.pair_bind hr' (by omega) fun {s₂ l₂} hw₂ hlen₂ => ?_
  refine hw₂.pair_bind hq' (by omega) fun {s₃ l₃} hw₃ hlen₃ => ?_
  exact hw₃.putPair (by omega) Nat.two_pos le_rfl (by omega)

theorem length_putDecFull8 (r : BitVec 32) : (putDecFull8 r).length = 8 := rfl

/-- `put_dec` writes the characters of `putDec`. -/
theorem putDecAt_written_putDec (n buf : BitVec 64) (mem : Memory) :
    ∃ s, putDecAt n ⟨buf, mem, [], []⟩ = .ok s ∧ Written buf mem (putDec n) s := by
  have hlt := n.isLt
  have hdiv (x : BitVec 64) : (x / 100000000).toNat = x.toNat / 10 ^ 8 := BitVec.toNat_udiv
  have hmod (x : BitVec 64) : ((x % 100000000).setWidth 32).toNat < 10 ^ 8 := by
    rw [toNat_hundredMillion_mod]
    exact Nat.mod_lt _ (by decide)
  have hcut {x : BitVec 64} (hx : x.toNat < 10 ^ 8) : (x.setWidth 32).toNat < 10 ^ 8 := by
    rw [BitVec.toNat_setWidth]
    exact Nat.lt_of_le_of_lt (Nat.mod_le _ _) hx
  have hstart : Written buf mem [] ⟨buf, mem, [], []⟩ :=
    ⟨(BitVec.add_zero buf).symm, fun _ hi => absurd hi (Nat.not_lt_zero _), fun _ _ => rfl,
      fun _ hp => absurd hp List.not_mem_nil, fun _ hd => absurd hd List.not_mem_nil⟩
  rw [putDecAt, putDec]
  by_cases h₁ : n ≥ 100000000
  · rw [if_pos h₁, if_pos h₁]
    obtain ⟨s₁, hs₁, hw₁⟩ := putDecFull8At_written hstart (hmod n) (by decide)
    rw [hs₁, Exec.ok_bind]
    rw [List.nil_append] at hw₁
    have hlen₁ := length_putDecFull8 ((n % 100000000).setWidth 32)
    have hn₁ := hdiv n
    dsimp only
    generalize n / 100000000 = n₁ at hn₁ ⊢
    by_cases h₂ : n₁ ≥ 100000000
    · rw [if_pos h₂, if_pos h₂, ← List.append_assoc]
      obtain ⟨s₂, hs₂, hw₂⟩ := putDecFull8At_written hw₁ (hmod n₁) (by omega)
      have hlen₂ := length_putDecFull8 ((n₁ % 100000000).setWidth 32)
      rw [hs₂, Exec.ok_bind]
      refine putDecTrunc8At_written hw₂ (hcut ?_) ?_
      · rw [hdiv]
        omega
      · rw [List.length_append]
        omega
    · rw [if_neg h₂, if_neg h₂]
      have hsmall : n₁.toNat < 10 ^ 8 :=
        Nat.lt_of_not_le (mt (ge_hundredMillion_iff n₁).mpr h₂)
      exact putDecTrunc8At_written hw₁ (hcut hsmall) (by omega)
  · rw [if_neg h₁, if_neg h₁]
    have hsmall : n.toNat < 10 ^ 8 := Nat.lt_of_not_le (mt (ge_hundredMillion_iff n).mpr h₁)
    exact putDecTrunc8At_written hstart (hcut hsmall) (by decide)

end Written

/-- The decimal digits of a number in reverse order, without leading zeros. -/
def reversedDigits (n : ℕ) : List (BitVec 8) := if n = 0 then [ch '0'] else decText n

theorem putDec_eq_reversedDigits (n : BitVec 64) : putDec n = reversedDigits n.toNat := by
  by_cases hzero : n = 0
  · subst hzero
    rfl
  · have hpos := BitVec.toNat_pos_of_ne_zero hzero
    rw [putDec_eq hpos, reversedDigits, if_neg (by omega)]

/-- **`put_dec`** is decimal conversion: it returns, the digits are before the pointer that it
returns, and no store is more than one byte behind them. -/
theorem putDecAt_written (n buf : BitVec 64) (mem : Memory) :
    ∃ s, putDecAt n ⟨buf, mem, [], []⟩ = .ok s ∧
      Written buf mem (reversedDigits n.toNat) s := by
  rw [← putDec_eq_reversedDigits]
  exact putDecAt_written_putDec n buf mem

end Lvisor
