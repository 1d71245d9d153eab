import Mathlib.Algebra.GroupWithZero.Nat
import Lvisor.Lib.Piecewise

/-!
# The sweep line over a set of intervals

Finitely many intervals, each with a value, describe the map that takes an address to
the largest value of an interval that covers it (`0` when none does). A sweep reads
the starts and the stops of the intervals in order, starts first at one address
(`IsSchedule`), keeps the set of intervals begun and not ended (`Active`), and feeds
the largest active value to the builder of `Lvisor.Lib.Piecewise`.

* `Swept` — the invariant after a prefix of the schedule;
* `Swept.step` — one event preserves it;
* `Swept.finish` — at the end the builder holds the exact map.

The values at one address cannot return to the value below the address: while the
starts are read the maximum only grows, and what makes it larger than the value below
began at this very address and outlives the stops.
-/

namespace Lvisor

universe u v

/-- Finitely many non-empty intervals with values. -/
structure Intervals (ι : Type u) (α : Type v) [LinearOrder α] where
  /-- the intervals -/
  items : List ι
  /-- the first address of an interval -/
  lo : ι → α
  /-- the first address past its end -/
  hi : ι → α
  /-- its value -/
  val : ι → ℕ
  lo_lt_hi : ∀ i ∈ items, lo i < hi i

/-- The start or the stop of an interval. -/
structure Event (ι : Type u) where
  /-- the interval -/
  idx : ι
  /-- is it the start -/
  isStart : Bool

/-- `v` is the largest value on `A`, or `0` when `A` is empty. -/
def IsMaxOn {ι : Type u} (val : ι → ℕ) (A : ι → Prop) (v : ℕ) : Prop :=
  (∀ i, A i → val i ≤ v) ∧ (v = 0 ∨ ∃ i, A i ∧ val i = v)

section MaxOn

variable {ι : Type u} {val : ι → ℕ} {A B : ι → Prop} {v w : ℕ}

theorem IsMaxOn.mono (hv : IsMaxOn val A v) (hw : IsMaxOn val B w) (h : ∀ i, A i → B i) :
    v ≤ w := by
  rcases hv.2 with rfl | ⟨i, hi, rfl⟩
  · exact Nat.zero_le w
  · exact hw.1 i (h i hi)

theorem IsMaxOn.unique (hv : IsMaxOn val A v) (hw : IsMaxOn val B w) (h : ∀ i, A i ↔ B i) :
    v = w :=
  Nat.le_antisymm (hv.mono hw fun i => (h i).mp) (hw.mono hv fun i => (h i).mpr)

/-- Add one member, whose value may be the largest. -/
theorem IsMaxOn.insert (hv : IsMaxOn val A v) (i : ι) :
    IsMaxOn val (fun j => j = i ∨ A j) (max (val i) v) := by
  constructor
  · rintro j (rfl | hj)
    · exact Nat.le_max_left _ _
    · exact Nat.le_trans (hv.1 j hj) (Nat.le_max_right _ _)
  · rcases Nat.le_total v (val i) with hle | hle
    · exact Or.inr ⟨i, Or.inl rfl, (Nat.max_eq_left hle).symm⟩
    · rw [Nat.max_eq_right hle]
      rcases hv.2 with h0 | ⟨j, hj, hjv⟩
      · exact Or.inl h0
      · exact Or.inr ⟨j, Or.inr hj, hjv⟩

theorem IsMaxOn.congr (hv : IsMaxOn val A v) (h : ∀ i, A i ↔ B i) : IsMaxOn val B v := by
  obtain rfl : A = B := funext fun i => propext (h i)
  exact hv

/-- A list has a largest value. -/
theorem exists_isMaxOn (val : ι → ℕ) (l : List ι) (A : ι → Prop) :
    ∃ v, IsMaxOn val (fun i => i ∈ l ∧ A i) v := by
  induction l with
  | nil => exact ⟨0, fun i hi => absurd hi.1 (List.not_mem_nil), Or.inl rfl⟩
  | cons j l ih =>
    obtain ⟨v, hv⟩ := ih
    by_cases hj : A j
    · refine ⟨max (val j) v, (hv.insert j).congr fun i => ?_⟩
      rw [List.mem_cons]
      exact ⟨fun h => h.elim (fun h => ⟨Or.inl h, h ▸ hj⟩) fun h => ⟨Or.inr h.1, h.2⟩,
        fun h => h.1.imp id fun h' => ⟨h', h.2⟩⟩
    · refine ⟨v, hv.congr fun i => ?_⟩
      rw [List.mem_cons]
      exact ⟨fun h => ⟨Or.inr h.1, h.2⟩,
        fun h => ⟨h.1.resolve_left fun hij => hj (hij ▸ h.2), h.2⟩⟩

end MaxOn

namespace Intervals

variable {ι : Type u} {α : Type v} [LinearOrder α] (I : Intervals ι α)

/-- The address of an event: one of the two ends of its interval. -/
def addr (e : Event ι) : α := if e.isStart then I.lo e.idx else I.hi e.idx

/-- The interval `i` is one of the family, and covers `y`. -/
def Covers (y : α) (i : ι) : Prop := i ∈ I.items ∧ I.lo i ≤ y ∧ y < I.hi i

/-- The interval `i` covers the addresses just below `b`. -/
def CoversBelow (b : α) (i : ι) : Prop := i ∈ I.items ∧ I.lo i < b ∧ b ≤ I.hi i

/-- All events in order; at one address the starts come first. -/
structure IsSchedule (S : List (Event ι)) : Prop where
  mem : ∀ e, e ∈ S ↔ e.idx ∈ I.items
  nodup : S.Nodup
  sorted : S.Pairwise fun e f =>
    I.addr e < I.addr f ∨ (I.addr e = I.addr f ∧ (f.isStart = true → e.isStart = true))

end Intervals

/-- The interval `i` has begun and not ended, in what was read so far. -/
def Active {ι : Type u} (P : List (Event ι)) (i : ι) : Prop :=
  (⟨i, true⟩ : Event ι) ∈ P ∧ (⟨i, false⟩ : Event ι) ∉ P

section Sweep

variable {ι : Type u} {α : Type v} [LinearOrder α] {I : Intervals ι α} {S P R : List (Event ι)}
  {e : Event ι}

theorem Active.mem_items (hS : I.IsSchedule S) (hsplit : S = P ++ R) {i : ι} (h : Active P i) :
    i ∈ I.items :=
  (hS.mem ⟨i, true⟩).mp (hsplit ▸ List.mem_append_left _ h.1)

/-- The stop of an active interval is still to come. -/
theorem Active.stop_mem (hS : I.IsSchedule S) (hsplit : S = P ++ R) {i : ι} (h : Active P i) :
    (⟨i, false⟩ : Event ι) ∈ R := by
  have hstop : (⟨i, false⟩ : Event ι) ∈ P ++ R :=
    hsplit ▸ (hS.mem ⟨i, false⟩).mpr (h.mem_items hS hsplit)
  exact (List.mem_append.mp hstop).resolve_left h.2

namespace Intervals.IsSchedule

/-- An event of the schedule that lies below `b` has been read when the rest does not. -/
theorem mem_of_lt (hS : I.IsSchedule S) (hsplit : S = P ++ R) {b : α}
    (hR : ∀ f ∈ R, b ≤ I.addr f) (he : e.idx ∈ I.items) (hlt : I.addr e < b) : e ∈ P := by
  have hmem : e ∈ P ++ R := hsplit ▸ (hS.mem e).mpr he
  rcases List.mem_append.mp hmem with h | h
  · exact h
  · exact absurd (lt_of_le_of_lt (hR e h) hlt) (lt_irrefl _)

/-- The events read before `e` are not above it, and share its address with a start only
when they are starts. -/
theorem before (hS : I.IsSchedule S) (hsplit : S = P ++ e :: R) {f : Event ι} (hf : f ∈ P) :
    I.addr f ≤ I.addr e ∧
      (I.addr f = I.addr e → e.isStart = true → f.isStart = true) := by
  have hsorted := hS.sorted
  rw [hsplit] at hsorted
  rcases (List.pairwise_append.mp hsorted).2.2 f hf e (List.mem_cons_self ..) with h | h
  · exact ⟨le_of_lt h, fun heq => absurd heq (ne_of_lt h)⟩
  · exact ⟨le_of_eq h.1, fun _ => h.2⟩

/-- The events read after `e` are not below it. -/
theorem after (hS : I.IsSchedule S) (hsplit : S = P ++ e :: R) {f : Event ι} (hf : f ∈ R) :
    I.addr e ≤ I.addr f := by
  have hsorted := hS.sorted
  rw [hsplit] at hsorted
  rcases (List.pairwise_cons.mp (List.pairwise_append.mp hsorted).2.1).1 f hf with h | h
  · exact le_of_lt h
  · exact le_of_eq h.1

/-- Between the events read and the others the active intervals are those that cover. -/
theorem active_iff_covers (hS : I.IsSchedule S) (hsplit : S = P ++ R) {y b : α}
    (hP : ∀ f ∈ P, I.addr f ≤ y) (hR : ∀ f ∈ R, b ≤ I.addr f) (hyb : y < b) (i : ι) :
    Active P i ↔ I.Covers y i := by
  have hR' : ∀ f ∈ R, y < I.addr f := fun f hf => lt_of_lt_of_le hyb (hR f hf)
  constructor
  · intro h
    exact ⟨h.mem_items hS hsplit, hP ⟨i, true⟩ h.1, hR' ⟨i, false⟩ (h.stop_mem hS hsplit)⟩
  · rintro ⟨hi, hlo, hhi⟩
    refine ⟨hS.mem_of_lt hsplit hR hi (lt_of_le_of_lt hlo hyb), fun h => ?_⟩
    exact absurd (hP ⟨i, false⟩ h) (not_le.mpr hhi)

/-- The same just below an address. -/
theorem active_iff_coversBelow (hS : I.IsSchedule S) (hsplit : S = P ++ R) {b : α}
    (hP : ∀ f ∈ P, I.addr f < b) (hR : ∀ f ∈ R, b ≤ I.addr f) (i : ι) :
    Active P i ↔ I.CoversBelow b i := by
  constructor
  · intro h
    exact ⟨h.mem_items hS hsplit, hP ⟨i, true⟩ h.1, hR ⟨i, false⟩ (h.stop_mem hS hsplit)⟩
  · rintro ⟨hi, hlo, hhi⟩
    refine ⟨hS.mem_of_lt hsplit hR hi hlo, fun h => ?_⟩
    exact absurd (hP ⟨i, false⟩ h) (not_lt.mpr hhi)

end Intervals.IsSchedule

/-! ## One event -/

/-- A start makes its interval active and changes nothing else. -/
theorem active_start {i : ι} (hfresh : (⟨i, false⟩ : Event ι) ∉ P) (j : ι) :
    Active (P ++ [⟨i, true⟩]) j ↔ j = i ∨ Active P j := by
  unfold Active
  simp only [List.mem_append, List.mem_singleton, Event.mk.injEq, and_true, Bool.false_eq_true,
    and_false, or_false]
  constructor
  · rintro ⟨h | h, hstop⟩
    · exact Or.inr ⟨h, hstop⟩
    · exact Or.inl h
  · rintro (rfl | h)
    · exact ⟨Or.inr rfl, hfresh⟩
    · exact ⟨Or.inl h.1, h.2⟩

/-- A stop ends its interval and changes nothing else. -/
theorem active_stop {i : ι} (j : ι) : Active (P ++ [⟨i, false⟩]) j ↔ Active P j ∧ j ≠ i := by
  unfold Active
  simp only [List.mem_append, List.mem_singleton, Event.mk.injEq, and_true, Bool.true_eq_false,
    and_false, or_false, not_or, ne_eq, and_assoc]

/-- **No return**: once the largest active value has left the value below the address of
the next event, it does not come back to it there. -/
theorem active_no_return (hS : I.IsSchedule S) (hsplit : S = P ++ e :: R) {p v w : ℕ}
    (hp : IsMaxOn I.val (I.CoversBelow (I.addr e)) p) (hv : IsMaxOn I.val (Active P) v)
    (hw : IsMaxOn I.val (Active (P ++ [e])) w) (hne : v ≠ p) : w ≠ p := by
  have hR : ∀ f ∈ e :: R, I.addr e ≤ I.addr f := by
    intro f hf
    rcases List.mem_cons.mp hf with rfl | hf
    · exact le_rfl
    · exact hS.after hsplit hf
  obtain ⟨i, isStart⟩ := e
  have hi : i ∈ I.items := by
    refine (hS.mem ⟨i, isStart⟩).mp (hsplit ▸ ?_)
    exact List.mem_append_right _ (List.mem_cons_self ..)
  cases isStart with
  | true =>
    -- no stop at this address has been read, so what covers below is still active
    have hfresh : (⟨i, false⟩ : Event ι) ∉ P := by
      intro h
      exact absurd (hS.before hsplit h).1 (not_le.mpr (I.lo_lt_hi i hi))
    have hpv : p ≤ v := by
      refine hp.mono hv fun j hj => ⟨hS.mem_of_lt hsplit hR hj.1 hj.2.1, fun hstop => ?_⟩
      have hb := hS.before hsplit hstop
      have heq : I.addr (⟨j, false⟩ : Event ι) = I.addr ⟨i, true⟩ := le_antisymm hb.1 hj.2.2
      exact absurd (hb.2 heq rfl) (by simp)
    have hvw : v ≤ w := hv.mono hw fun j hj => (active_start hfresh j).mpr (Or.inr hj)
    omega
  | false =>
    rcases Nat.lt_or_gt_of_ne hne with hlt | hgt
    · have hwv : w ≤ v := hw.mono hv fun j hj => ((active_stop j).mp hj).1
      omega
    · -- an active interval above `p` began here, so it does not end here
      obtain ⟨j, hj, hjv⟩ := hv.2.resolve_left (by omega)
      have hlo : ¬I.lo j < I.addr ⟨i, false⟩ := by
        intro hlo
        have hitems := hj.mem_items hS hsplit
        have hstop : (⟨j, false⟩ : Event ι) ∈ P ++ ⟨i, false⟩ :: R :=
          hsplit ▸ (hS.mem ⟨j, false⟩).mpr hitems
        have hhi := hR ⟨j, false⟩ ((List.mem_append.mp hstop).resolve_left hj.2)
        have := hp.1 j ⟨hitems, hlo, hhi⟩
        omega
      have hji : j ≠ i := by
        rintro rfl
        exact hlo (I.lo_lt_hi j hi)
      have := hw.1 j ((active_stop j).mpr ⟨hj, hji⟩)
      omega

/-! ## The invariant of the sweep

After a prefix of the schedule the builder describes the map below the current address, and the
active intervals give its value from there on. At the end no interval is active. -/

/-- After the events `P`, with `R` to come: the builder holds the largest active value,
and is right at every address between the two. -/
structure Swept (I : Intervals ι α) (t : α → ℕ) (P R : List (Event ι)) (st : Sweep α ℕ) :
    Prop where
  last : IsMaxOn I.val (Active P) st.last
  at_between : ∀ b, (∀ f ∈ P, I.addr f ≤ b) → (∀ f ∈ R, b ≤ I.addr f) →
    ∃ p, IsMaxOn I.val (I.CoversBelow b) p ∧ Sweep.At t b p st

namespace Swept

variable {t : α → ℕ} {st : Sweep α ℕ}

/-- Before the first event nothing is active and nothing is covered. -/
theorem init (hS : I.IsSchedule S) (ht : ∀ y, IsMaxOn I.val (I.Covers y) (t y)) (x₀ : α) :
    Swept I t [] S ⟨[], 0, x₀⟩ where
  last := ⟨fun i hi => absurd hi.1 (List.not_mem_nil), Or.inl rfl⟩
  at_between := by
    intro b _ hR
    have hnone : ∀ i ∈ I.items, b ≤ I.lo i := fun i hi =>
      hR ⟨i, true⟩ ((hS.mem ⟨i, true⟩).mpr hi)
    refine ⟨0, ⟨fun i hi => ?_, Or.inl rfl⟩, Sweep.At.init fun x hx => ?_⟩
    · exact absurd hi.2.1 (not_lt.mpr (hnone i hi.1))
    · rcases (ht x).2 with h | ⟨i, hi, -⟩
      · exact h
      · exact absurd (lt_of_le_of_lt hi.2.1 hx) (not_lt.mpr (hnone i hi.1))

/-- **Step**: read one event. -/
theorem step (hS : I.IsSchedule S) (ht : ∀ y, IsMaxOn I.val (I.Covers y) (t y))
    (hsplit : S = P ++ e :: R) (h : Swept I t P (e :: R) st) {v : ℕ}
    (hv : IsMaxOn I.val (Active (P ++ [e])) v) :
    Swept I t (P ++ [e]) R (st.step (I.addr e) v) := by
  have hlast := Sweep.step_last st (I.addr e) v
  have hsplit' : S = (P ++ [e]) ++ R := by
    rw [hsplit, List.append_assoc]
    rfl
  have hP' : ∀ f ∈ P ++ [e], I.addr f ≤ I.addr e := by
    intro f hf
    rcases List.mem_append.mp hf with hf | hf
    · exact (hS.before hsplit hf).1
    · obtain rfl := List.mem_singleton.mp hf
      exact le_rfl
  have hR' : ∀ f ∈ e :: R, I.addr e ≤ I.addr f := by
    intro f hf
    rcases List.mem_cons.mp hf with rfl | hf
    · exact le_rfl
    · exact hS.after hsplit hf
  refine ⟨by rw [hlast]; exact hv, fun b hPb hbR => ?_⟩
  -- first at the address of the event, then on to `b`
  obtain ⟨p, hp, hat⟩ := h.at_between (I.addr e) (fun f hf => (hS.before hsplit hf).1) hR'
  have hat' := hat.step (active_no_return hS hsplit hp h.last hv)
  have heb : I.addr e ≤ b := hPb e (List.mem_append_right _ (List.mem_singleton_self e))
  rcases lt_or_eq_of_le heb with hlt | rfl
  · refine ⟨v, hv.congr (hS.active_iff_coversBelow hsplit' ?_ hbR), ?_⟩
    · exact fun f hf => lt_of_le_of_lt (hP' f hf) hlt
    · have hconst : ∀ x, I.addr e ≤ x → x < b → t x = (st.step (I.addr e) v).last := by
        intro x hx hxb
        rw [hlast]
        refine (ht x).unique hv fun i => (hS.active_iff_covers hsplit' ?_ hbR hxb i).symm
        exact fun f hf => le_trans (hP' f hf) hx
      have hadv := hat'.advance hlt hconst
      rwa [hlast] at hadv
  · exact ⟨p, hp, hat'⟩

/-- **Finish**: after the last event the builder holds the exact map. -/
theorem finish (hS : I.IsSchedule S) (ht : ∀ y, IsMaxOn I.val (I.Covers y) (t y))
    (h : Swept I t S [] st) {b : α} (hb : ∀ f ∈ S, I.addr f ≤ b) : IsExactMap t st.out := by
  have hstop : ∀ i ∈ I.items, (⟨i, false⟩ : Event ι) ∈ S := fun i hi => (hS.mem ⟨i, false⟩).mpr hi
  obtain ⟨p, -, hat⟩ := h.at_between b hb (fun f hf => absurd hf (List.not_mem_nil))
  refine hat.finish ?_ fun x hx => ?_
  · rcases h.last.2 with h0 | ⟨i, hi, -⟩
    · exact h0
    · exact absurd (hstop i ((hS.mem ⟨i, true⟩).mp hi.1)) hi.2
  · rcases (ht x).2 with h0 | ⟨i, hi, -⟩
    · exact h0
    · exact absurd (le_trans (hb _ (hstop i hi.1)) hx) (not_le.mpr hi.2.2)

/-- Every sweep can be finished, and what it has closed stays. -/
theorem exists_finish (hS : I.IsSchedule S) (ht : ∀ y, IsMaxOn I.val (I.Covers y) (t y)) {b : α}
    (hb : ∀ f ∈ S, I.addr f ≤ b) : ∀ (R P : List (Event ι)) (st : Sweep α ℕ), S = P ++ R →
    Swept I t P R st → ∃ full, IsExactMap t full ∧ st.out <+: full := by
  intro R
  induction R with
  | nil =>
    intro P st hsplit h
    rw [List.append_nil] at hsplit
    subst hsplit
    exact ⟨st.out, h.finish hS ht hb, List.prefix_rfl⟩
  | cons e R ih =>
    intro P st hsplit h
    have hsplit' : S = (P ++ [e]) ++ R := by
      rw [hsplit, List.append_assoc]
      rfl
    obtain ⟨v, hv⟩ := exists_isMaxOn I.val I.items (Active (P ++ [e]))
    have hv' := hv.congr fun i => and_iff_right_of_imp fun hi => hi.mem_items hS hsplit'
    obtain ⟨full, hfull, hprefix⟩ := ih (P ++ [e]) _ hsplit' (h.step hS ht hsplit hv')
    refine ⟨full, hfull, List.IsPrefix.trans ?_ hprefix⟩
    exact Sweep.out_prefix_step st (I.addr e) v

end Swept

end Sweep

end Lvisor
