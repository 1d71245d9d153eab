import Mathlib.Data.BitVec
import Mathlib.Data.List.Perm.Basic
import Lvisor.E820Sanitize

/-!
# Retyping a range of the memory map

`rangeUpdate` cuts each entry at the ends of the range. What happens to one entry is
`rangeCut`: the part that stays in its place and the parts that are appended.

* `rangeUpdate_eq` — the result is the kept parts followed by the appended ones, as many
  as the table holds;
* `CutShape.covers`, `CutShape.disjoint` — the parts of an entry describe the bytes of the
  entry, once each, with the new type inside the range;
* `exists_of_mappedAll` — in a sanitised table a covered range lies in one entry.

The table that results when everything fits is described by `retyped_describes` and
`retyped_disjoint`.
-/

namespace Lvisor

/-- What `rangeUpdate` does to one entry: what stays in its place, and what is appended. -/
structure RangeCut where
  /-- what is left in the place of the entry -/
  kept : E820Entry
  /-- what is appended to the table -/
  added : List E820Entry
  /-- the number of bytes retyped -/
  retyped : BitVec 64

/-- All parts of the entry. -/
def RangeCut.parts (c : RangeCut) : List E820Entry := c.kept :: c.added

section Cut

variable (start stop size : BitVec 64) (old new : BitVec 32)

/-- The branches of `rangeUpdateBody` as a function of the entry alone. -/
def rangeCut (e : E820Entry) : RangeCut :=
  if e.type ≠ old then ⟨e, [], 0⟩
  else if e.addr ≥ start ∧ e.stop ≤ stop then ⟨{ e with type := new }, [], e.size⟩
  else if e.addr < start ∧ e.stop > stop then
    ⟨{ e with size := start - e.addr }, [⟨start, size, new⟩, ⟨stop, e.stop - stop, e.type⟩], size⟩
  else
    let finalStart := if start > e.addr then start else e.addr
    let finalEnd := if stop < e.stop then stop else e.stop
    if finalStart ≥ finalEnd then ⟨e, [], 0⟩
    else
      let e' := { e with size := e.size - (finalEnd - finalStart) }
      ⟨if e'.addr < finalStart then e' else { e' with addr := finalEnd },
        [⟨finalStart, finalEnd - finalStart, new⟩], finalEnd - finalStart⟩

/-- Appending to a full list and cutting it is cutting once. -/
theorem take_take_append {α : Type} (l l' : List α) (n : ℕ) :
    (l.take n ++ l').take n = (l ++ l').take n := by
  rw [List.take_append, List.take_append, List.take_take, Nat.min_self, List.length_take]
  congr 2
  omega

/-- What is cut away again may be left out before. -/
theorem take_append_take {α : Type} (l x y : List α) (n : ℕ) :
    (l ++ (x.take (n - l.length) ++ y)).take n = (l ++ (x ++ y)).take n := by
  have hsplit : ∀ z : List α, (l ++ z).take n = l.take n ++ z.take (n - l.length) :=
    fun z => List.take_append
  rw [hsplit, hsplit, take_take_append]

theorem E820Table.rangeAdd_entries (t : E820Table) (start size : BitVec 64) (type : BitVec 32) :
    (t.rangeAdd start size type).entries =
      (t.entries ++ [E820Entry.mk start size type]).take e820MaxEntries := by
  have hle := t.length_le
  unfold E820Table.rangeAdd
  by_cases h : t.entries.length < e820MaxEntries
  · rw [dif_pos h, List.take_of_length_le]
    rw [List.length_append]
    exact h
  · rw [dif_neg h, List.take_append_of_le_length (Nat.not_lt.mp h), List.take_of_length_le hle]

/-- The body of the loop replaces the entry by what is kept of it and appends the rest,
as much as fits. -/
theorem rangeUpdateBody_eq {t : E820Table} {i : ℕ} {e : E820Entry} (h : t.entries[i]? = some e) :
    (E820Table.rangeUpdateBody start stop size old new i e t).1.entries =
        ((t.entries ++ (rangeCut start stop size old new e).added).take e820MaxEntries).set i
          (rangeCut start stop size old new e).kept ∧
      (E820Table.rangeUpdateBody start stop size old new i e t).2 =
        (rangeCut start stop size old new e).retyped := by
  have htake : t.entries.take e820MaxEntries = t.entries := List.take_of_length_le t.length_le
  have hself : t.entries = t.entries.set i e := by
    obtain ⟨hi, rfl⟩ := List.getElem?_eq_some_iff.mp h
    exact (List.set_getElem_self hi).symm
  unfold E820Table.rangeUpdateBody rangeCut
  by_cases h₁ : e.type ≠ old
  · rw [if_pos h₁, if_pos h₁]
    exact ⟨by rw [List.append_nil, htake, ← hself], rfl⟩
  rw [if_neg h₁, if_neg h₁]
  by_cases h₂ : e.addr ≥ start ∧ e.stop ≤ stop
  · rw [if_pos h₂, if_pos h₂]
    exact ⟨by rw [List.append_nil, htake]; rfl, rfl⟩
  rw [if_neg h₂, if_neg h₂]
  by_cases h₃ : e.addr < start ∧ e.stop > stop
  · rw [if_pos h₃, if_pos h₃]
    refine ⟨?_, rfl⟩
    simp only [E820Table.setEntry, E820Table.rangeAdd_entries]
    rw [take_take_append, List.append_assoc]
    rfl
  rw [if_neg h₃, if_neg h₃]
  generalize (if start > e.addr then start else e.addr) = finalStart
  generalize (if stop < e.stop then stop else e.stop) = finalEnd
  dsimp only
  by_cases h₄ : finalStart ≥ finalEnd
  · rw [if_pos h₄, if_pos h₄]
    exact ⟨by rw [List.append_nil, htake, ← hself], rfl⟩
  rw [if_neg h₄, if_neg h₄]
  by_cases h₅ : e.addr < finalStart
  · rw [if_pos h₅, if_pos h₅]
    exact ⟨by simp only [E820Table.setEntry, E820Table.rangeAdd_entries], rfl⟩
  · rw [if_neg h₅, if_neg h₅]
    exact ⟨by simp only [E820Table.setEntry, E820Table.rangeAdd_entries], rfl⟩

/-! ## The parts of an entry

An entry is cut at the ends of the range into at most three parts. One of them stays in the place
of the entry and the others are appended; `CutShape` lists the five ways in which this can go. -/

section Parts

variable {start stop size : BitVec 64} {old new : BitVec 32}
  (hstop : stop.toNat = start.toNat + size.toNat) (hne : old ≠ new) {e : E820Entry}

include hstop hne in
/-- The loop visits what it appended, and leaves it alone. -/
theorem rangeCut_added {x : E820Entry} (hx : x ∈ (rangeCut start stop size old new e).added) :
    rangeCut start stop size old new x = ⟨x, [], 0⟩ := by
  have hnew : ∀ a s, rangeCut start stop size old new ⟨a, s, new⟩ = ⟨⟨a, s, new⟩, [], 0⟩ := by
    intro a s
    rw [rangeCut, if_pos (Ne.symm hne)]
  unfold rangeCut at hx
  by_cases h₁ : e.type ≠ old
  · rw [if_pos h₁] at hx
    exact absurd hx List.not_mem_nil
  rw [if_neg h₁] at hx
  by_cases h₂ : e.addr ≥ start ∧ e.stop ≤ stop
  · rw [if_pos h₂] at hx
    exact absurd hx List.not_mem_nil
  rw [if_neg h₂] at hx
  by_cases h₃ : e.addr < start ∧ e.stop > stop
  · rw [if_pos h₃] at hx
    rcases List.mem_cons.mp hx with rfl | hx
    · exact hnew _ _
    · -- the tail begins where the range ends
      obtain rfl := List.mem_singleton.mp hx
      have hend : (⟨stop, e.stop - stop, e.type⟩ : E820Entry).stop = e.stop := by
        unfold E820Entry.stop
        bv_omega
      have hgt := h₃.2
      have hle : ¬stop < start := by
        rw [BitVec.lt_def]
        omega
      rw [rangeCut, if_neg h₁, hend, if_neg (fun hh => by bv_omega), if_neg (fun hh => hle hh.1)]
      dsimp only
      rw [if_pos (by split_ifs <;> bv_omega)]
  rw [if_neg h₃] at hx
  revert hx
  generalize (if start > e.addr then start else e.addr) = finalStart
  generalize (if stop < e.stop then stop else e.stop) = finalEnd
  dsimp only
  intro hx
  by_cases h₄ : finalStart ≥ finalEnd
  · rw [if_pos h₄] at hx
    exact absurd hx List.not_mem_nil
  · rw [if_neg h₄] at hx
    obtain rfl := List.mem_singleton.mp hx
    exact hnew _ _

/-- The entry is `[lo, hi)` with type `type`, as numbers. -/
structure E820Entry.IsRange (e : E820Entry) (lo hi : ℕ) (type : BitVec 32) : Prop where
  addr : e.addr.toNat = lo
  stop : e.addr.toNat + e.size.toNat = hi
  type : e.type = type

theorem E820Entry.isRange (e : E820Entry) :
    e.IsRange e.addr.toNat (e.addr.toNat + e.size.toNat) e.type := ⟨rfl, rfl, rfl⟩

theorem E820Entry.IsRange.covers {e : E820Entry} {lo hi : ℕ} {type : BitVec 32}
    (h : e.IsRange lo hi type) (a : ℕ) : e.Covers a ↔ lo ≤ a ∧ a < hi := by
  rw [E820Entry.Covers, h.addr, ← h.addr, h.stop]

/-- The ways a range `[start, stop)` can lie to an entry `[lo, hi)`, and the parts that
result. -/
inductive CutShape (start stop : ℕ) (old new : BitVec 32) (e : E820Entry) (lo hi : ℕ) :
    RangeCut → Prop
  /-- another type, or apart from the range -/
  | apart (h : e.type ≠ old ∨ hi ≤ start ∨ stop ≤ lo) :
      CutShape start stop old new e lo hi ⟨e, [], 0⟩
  /-- inside the range -/
  | inside (type : e.type = old) (hlo : start ≤ lo) (hhi : hi ≤ stop) :
      CutShape start stop old new e lo hi ⟨{ e with type := new }, [], e.size⟩
  /-- the range is inside the entry -/
  | around (type : e.type = old) (hlo : lo < start) (hhi : stop < hi) (k m r : E820Entry)
      (hk : k.IsRange lo start old) (hm : m.IsRange start stop new) (hr : r.IsRange stop hi old) :
      CutShape start stop old new e lo hi ⟨k, [m, r], m.size⟩
  /-- the range covers the end of the entry -/
  | head (type : e.type = old) (hlo : lo < start) (hmid : start < hi) (hhi : hi ≤ stop)
      (k m : E820Entry) (hk : k.IsRange lo start old) (hm : m.IsRange start hi new) :
      CutShape start stop old new e lo hi ⟨k, [m], m.size⟩
  /-- the range covers the beginning of the entry -/
  | tail (type : e.type = old) (hlo : start ≤ lo) (hmid : lo < stop) (hhi : stop < hi)
      (k m : E820Entry) (hk : k.IsRange stop hi old) (hm : m.IsRange lo stop new) :
      CutShape start stop old new e lo hi ⟨k, [m], m.size⟩

include hstop in
/-- **What `rangeUpdate` does to an entry.** -/
theorem rangeCut_shape (hw : ¬e.Wraps) :
    CutShape start.toNat stop.toNat old new e e.addr.toNat (e.addr.toNat + e.size.toNat)
      (rangeCut start stop size old new e) := by
  have hend := E820Entry.stop_toNat hw
  have hlt : e.addr.toNat + e.size.toNat < 2 ^ 64 := Nat.not_le.mp hw
  unfold rangeCut
  by_cases h₁ : e.type ≠ old
  · rw [if_pos h₁]
    exact .apart (Or.inl h₁)
  rw [if_neg h₁]
  have htype : e.type = old := not_not.mp h₁
  by_cases h₂ : e.addr ≥ start ∧ e.stop ≤ stop
  · rw [if_pos h₂]
    have hhi : e.stop.toNat ≤ stop.toNat := h₂.2
    exact .inside htype h₂.1 (by omega)
  rw [if_neg h₂]
  by_cases h₃ : e.addr < start ∧ e.stop > stop
  · rw [if_pos h₃]
    have hlo : e.addr.toNat < start.toNat := h₃.1
    have hhi : stop.toNat < e.stop.toNat := h₃.2
    refine .around htype hlo (by omega) _ _ _ ⟨rfl, ?_, htype⟩ ⟨rfl, hstop.symm, rfl⟩
      ⟨rfl, ?_, htype⟩
    · dsimp only
      rw [BitVec.toNat_sub_of_le (BitVec.le_def.mpr (Nat.le_of_lt hlo))]
      omega
    · dsimp only
      rw [BitVec.toNat_sub_of_le (BitVec.le_def.mpr (Nat.le_of_lt hhi))]
      omega
  rw [if_neg h₃]
  dsimp only
  by_cases h₄ : e.addr < start
  · -- the range reaches the end of the entry
    have hlo : e.addr.toNat < start.toNat := h₄
    have hge : ¬stop < e.stop := fun hh => h₃ ⟨h₄, hh⟩
    have hhi : e.stop.toNat ≤ stop.toNat := BitVec.not_lt.mp hge
    rw [if_pos h₄, if_neg hge]
    by_cases h₅ : start ≥ e.stop
    · rw [if_pos h₅]
      have : e.stop.toNat ≤ start.toNat := h₅
      exact .apart (Or.inr (Or.inl (by omega)))
    · rw [if_neg h₅, if_pos h₄]
      have hmid : start.toNat < e.stop.toNat := BitVec.not_le.mp h₅
      have hsub : (e.stop - start).toNat = e.stop.toNat - start.toNat :=
        BitVec.toNat_sub_of_le (BitVec.le_def.mpr (Nat.le_of_lt hmid))
      refine .head htype hlo (by omega) (by omega) _ _ ⟨rfl, ?_, htype⟩ ⟨rfl, ?_, rfl⟩
      · dsimp only
        rw [BitVec.toNat_sub_of_le (BitVec.le_def.mpr (by omega))]
        omega
      · dsimp only
        omega
  · -- the range reaches the beginning of the entry
    have hlo : start.toNat ≤ e.addr.toNat := BitVec.not_lt.mp h₄
    have hgt : stop < e.stop := BitVec.not_le.mp fun hh => h₂ ⟨BitVec.not_lt.mp h₄, hh⟩
    have hhi : stop.toNat < e.stop.toNat := hgt
    rw [if_neg h₄, if_pos hgt]
    by_cases h₅ : e.addr ≥ stop
    · rw [if_pos h₅]
      exact .apart (Or.inr (Or.inr h₅))
    · rw [if_neg h₅, if_neg (BitVec.lt_irrefl _)]
      have hmid : e.addr.toNat < stop.toNat := BitVec.not_le.mp h₅
      have hsub : (stop - e.addr).toNat = stop.toNat - e.addr.toNat :=
        BitVec.toNat_sub_of_le (BitVec.le_def.mpr (Nat.le_of_lt hmid))
      refine .tail htype hlo hmid (by omega) _ _ ⟨rfl, ?_, htype⟩ ⟨rfl, ?_, rfl⟩
      · dsimp only
        rw [BitVec.toNat_sub_of_le (BitVec.le_def.mpr (by omega))]
        omega
      · dsimp only
        omega

/-- No byte lies in both entries. -/
def E820Entry.Disjoint (e f : E820Entry) : Prop := ∀ a, ¬(e.Covers a ∧ f.Covers a)

theorem E820Entry.Disjoint.symm {e f : E820Entry} (h : e.Disjoint f) : f.Disjoint e :=
  fun a ha => h a ⟨ha.2, ha.1⟩

/-- The type of the byte `a` of `e` when `[start, stop)` is retyped. -/
def retypedAs (start stop : ℕ) (old new : BitVec 32) (e : E820Entry) (a : ℕ) : BitVec 32 :=
  if e.type = old ∧ start ≤ a ∧ a < stop then new else e.type

/-- **The parts of an entry** describe its bytes, with the new type inside the range. -/
theorem CutShape.covers {start stop : ℕ} {c : RangeCut}
    (h : CutShape start stop old new e e.addr.toNat (e.addr.toNat + e.size.toNat) c)
    (hle : start ≤ stop) (a : ℕ) (type : BitVec 32) :
    (∃ x ∈ c.parts, x.Covers a ∧ x.type = type) ↔
      e.Covers a ∧ type = retypedAs start stop old new e a := by
  have he := e.isRange.covers a
  unfold retypedAs
  cases h with
  | apart h =>
    simp only [RangeCut.parts, List.mem_singleton, exists_eq_left]
    refine and_congr_right fun hc => ?_
    rw [he] at hc
    rw [if_neg (by rintro ⟨h₁, h₂⟩; rcases h with h | h | h <;> first | exact h h₁ | omega)]
    exact eq_comm
  | inside htype hlo hhi =>
    simp only [RangeCut.parts, List.mem_singleton, exists_eq_left]
    refine and_congr_right fun hc => ?_
    have hc' := he.mp hc
    rw [if_pos ⟨htype, by omega, by omega⟩]
    exact eq_comm
  | around htype hlo hhi k m r hk hm hr =>
    simp only [RangeCut.parts, List.mem_cons, List.not_mem_nil, or_false, exists_eq_or_imp,
      exists_eq_left, hk.covers, hm.covers, hr.covers, hk.type, hm.type, hr.type, he, htype,
      true_and]
    split_ifs with hin <;> grind
  | head htype hlo hmid hhi k m hk hm =>
    simp only [RangeCut.parts, List.mem_cons, List.not_mem_nil, or_false, exists_eq_or_imp,
      exists_eq_left, hk.covers, hm.covers, hk.type, hm.type, he, htype, true_and]
    split_ifs with hin <;> grind
  | tail htype hlo hmid hhi k m hk hm =>
    simp only [RangeCut.parts, List.mem_cons, List.not_mem_nil, or_false, exists_eq_or_imp,
      exists_eq_left, hk.covers, hm.covers, hk.type, hm.type, he, htype, true_and]
    split_ifs with hin <;> grind

/-- The parts of an entry are disjoint. -/
theorem CutShape.disjoint {start stop lo hi : ℕ} {c : RangeCut}
    (h : CutShape start stop old new e lo hi c) (hle : start ≤ stop) :
    c.parts.Pairwise E820Entry.Disjoint := by
  cases h with
  | apart h => exact List.pairwise_singleton _ _
  | inside htype hlo hhi => exact List.pairwise_singleton _ _
  | around htype hlo hhi k m r hk hm hr =>
    simp only [RangeCut.parts, List.pairwise_cons, List.mem_cons, List.not_mem_nil, or_false,
      forall_eq_or_imp, forall_eq, E820Entry.Disjoint, hk.covers, hm.covers, hr.covers]
    refine ⟨⟨fun a => by omega, fun a => by omega⟩, fun a => by omega, by simp⟩
  | head htype hlo hmid hhi k m hk hm =>
    simp only [RangeCut.parts, List.pairwise_cons, List.mem_cons, List.not_mem_nil, or_false,
      forall_eq, E820Entry.Disjoint, hk.covers, hm.covers]
    exact ⟨fun a => by omega, by simp⟩
  | tail htype hlo hmid hhi k m hk hm =>
    simp only [RangeCut.parts, List.pairwise_cons, List.mem_cons, List.not_mem_nil, or_false,
      forall_eq, E820Entry.Disjoint, hk.covers, hm.covers]
    exact ⟨fun a => by omega, by simp⟩

/-- What is appended: a part for each end of the range inside the entry. -/
theorem CutShape.added_length {start stop lo hi : ℕ} {c : RangeCut}
    (h : CutShape start stop old new e lo hi c) (htype : e.type = old) (hlo : lo ≤ start)
    (hhi : stop ≤ hi) (hmid : start < hi) (hmid' : lo < stop) :
    c.added.length = (if lo < start then 1 else 0) + (if stop < hi then 1 else 0) := by
  cases h with
  | apart h => rcases h with h | h | h <;> first | exact absurd htype h | omega
  | inside _ h₁ h₂ => rw [if_neg (by omega), if_neg (by omega)]; rfl
  | around _ h₁ h₂ => rw [if_pos h₁, if_pos h₂]; rfl
  | head _ h₁ h₂ h₃ => rw [if_pos h₁, if_neg (by omega)]; rfl
  | tail _ h₁ h₂ h₃ => rw [if_neg (by omega), if_pos h₃]; rfl

/-- The last part appended is not empty. -/
theorem CutShape.exists_covers_last {start stop lo hi : ℕ} {c : RangeCut}
    (h : CutShape start stop old new e lo hi c) {init : List E820Entry} {x : E820Entry}
    (hx : c.added = init ++ [x]) : ∃ a, x.Covers a := by
  cases h with
  | apart h => exact absurd hx (by simp)
  | inside => exact absurd hx (by simp)
  | around _ _ hhi k m r _ _ hr =>
    obtain ⟨-, hxr⟩ := List.append_inj' (show [m] ++ [r] = init ++ [x] from hx) rfl
    obtain rfl := List.singleton_inj.mp hxr
    exact ⟨stop, (hr.covers stop).mpr ⟨Nat.le_refl _, hhi⟩⟩
  | head _ _ hmid _ k m _ hm =>
    obtain ⟨-, hxm⟩ := List.append_inj' (show [] ++ [m] = init ++ [x] from hx) rfl
    obtain rfl := List.singleton_inj.mp hxm
    exact ⟨start, (hm.covers start).mpr ⟨Nat.le_refl _, hmid⟩⟩
  | tail _ _ hmid _ k m _ hm =>
    obtain ⟨-, hxm⟩ := List.append_inj' (show [] ++ [m] = init ++ [x] from hx) rfl
    obtain rfl := List.singleton_inj.mp hxm
    exact ⟨lo, (hm.covers lo).mpr ⟨Nat.le_refl _, hmid⟩⟩

/-- An entry that is split holds a byte of the range, or the first address of it. -/
theorem CutShape.exists_covers_of_added {start stop lo hi : ℕ} {c : RangeCut}
    (h : CutShape start stop old new e lo hi c) (hle : start ≤ stop) (hc : c.added ≠ []) :
    e.type = old ∧ ∃ a, lo ≤ a ∧ a < hi ∧ start ≤ a ∧ (a = start ∨ a < stop) := by
  cases h with
  | apart => exact absurd rfl hc
  | inside => exact absurd rfl hc
  | around htype hlo hhi => exact ⟨htype, start, by omega⟩
  | head htype hlo hmid hhi => exact ⟨htype, start, by omega⟩
  | tail htype hlo hmid hhi => exact ⟨htype, lo, by omega⟩

end Parts

end Cut

/-! ## The loop

The loop also visits what it has appended. Those parts are outside of the range, or they have the
new type, and a second visit leaves them as they are. -/

section Loop

variable {start stop size : BitVec 64} {old new : BitVec 32}

/-- The entries after an update that has room for everything: what is kept of each, then
what is appended. -/
def retypedEntries (start stop size : BitVec 64) (old new : BitVec 32) (es : List E820Entry) :
    List E820Entry :=
  es.map (fun e => (rangeCut start stop size old new e).kept) ++
    es.flatMap fun e => (rangeCut start stop size old new e).added

/-- The bytes retyped in all, as `real_updated_size` adds them up. -/
def retypedSize (start stop size : BitVec 64) (old new : BitVec 32) (es : List E820Entry) :
    BitVec 64 :=
  (es.map fun e => (rangeCut start stop size old new e).retyped).sum

/-- Entries that the update leaves alone may stand at the end of the list. -/
theorem retyped_append_unchanged (es : List E820Entry) {fs : List E820Entry}
    (h : ∀ f ∈ fs, rangeCut start stop size old new f = ⟨f, [], 0⟩) :
    retypedEntries start stop size old new (es ++ fs) =
        es.map (fun e => (rangeCut start stop size old new e).kept) ++
          (fs ++ es.flatMap fun e => (rangeCut start stop size old new e).added) ∧
      retypedSize start stop size old new (es ++ fs) = retypedSize start stop size old new es := by
  have hkept : fs.map (fun e => (rangeCut start stop size old new e).kept) = fs := by
    refine (List.map_congr_left fun f hf => ?_).trans (List.map_id fs)
    rw [h f hf]
    rfl
  have hadded : (fs.flatMap fun e => (rangeCut start stop size old new e).added) = [] := by
    refine List.flatMap_eq_nil_iff.mpr fun f hf => ?_
    rw [h f hf]
  have hsize : (fs.map fun e => (rangeCut start stop size old new e).retyped).sum = 0 := by
    clear hkept hadded
    induction fs with
    | nil => rfl
    | cons f fs ih =>
      rw [List.map_cons, List.sum_cons, h f (List.mem_cons_self ..),
        ih fun g hg => h g (List.mem_cons_of_mem _ hg)]
      rfl
  constructor
  · rw [retypedEntries, List.map_append, List.flatMap_append, hkept, hadded, List.append_nil,
      List.append_assoc]
  · have hsum : ∀ l : List (BitVec 64), (l ++ fs.map fun e =>
        (rangeCut start stop size old new e).retyped).sum = l.sum := by
      intro l
      induction l with
      | nil => exact hsize
      | cons x l ih => rw [List.cons_append, List.sum_cons, List.sum_cons, ih]
    rw [retypedSize, List.map_append, hsum, retypedSize]

/-- **The loop**: at index `done.length` the entries `todo` are still to be visited. -/
theorem rangeUpdateLoop_eq (hstop : stop.toNat = start.toNat + size.toNat) (hne : old ≠ new) :
    ∀ (fuel : ℕ) (done todo : List E820Entry) (t : E820Table) (updated : BitVec 64),
      t.entries = done ++ todo → e820MaxEntries + 1 ≤ done.length + fuel →
      ∃ t', E820Table.rangeUpdateLoop start stop size old new fuel done.length t updated =
          .ok (t', updated + retypedSize start stop size old new todo) ∧
        t'.entries = (done ++ retypedEntries start stop size old new todo).take e820MaxEntries := by
  intro fuel
  induction fuel with
  | zero =>
    intro done todo t updated hsplit hfuel
    have hle := t.length_le
    rw [hsplit, List.length_append] at hle
    omega
  | succ fuel ih =>
    intro done todo t updated hsplit hfuel
    have hle := t.length_le
    rw [hsplit, List.length_append] at hle
    rw [E820Table.rangeUpdateLoop]
    cases todo with
    | nil =>
      have hnone : t.entries[done.length]? = none := by
        rw [hsplit, List.append_nil]
        exact List.getElem?_eq_none (Nat.le_refl _)
      rw [hnone]
      refine ⟨t, by simp [retypedSize], ?_⟩
      rw [hsplit]
      exact (List.take_of_length_le (by simpa using hle)).symm
    | cons e todo =>
      have hsome : t.entries[done.length]? = some e := by
        rw [hsplit]
        simp
      obtain ⟨hentries, hretyped⟩ := rangeUpdateBody_eq start stop size old new hsome
      rw [hsome]
      simp only
      rw [List.length_cons] at hle
      -- the table after the body: the visited part, then the rest and what was appended
      have hnext : (E820Table.rangeUpdateBody start stop size old new done.length e t).1.entries =
          (done ++ [(rangeCut start stop size old new e).kept]) ++ (todo ++
            (rangeCut start stop size old new e).added.take
              (e820MaxEntries - (done.length + 1 + todo.length))) := by
        rw [hentries, hsplit, List.take_append, List.take_of_length_le (by simp; omega)]
        simp [Nat.add_assoc, Nat.add_comm 1]
      have hadded : ∀ x ∈ (rangeCut start stop size old new e).added.take
          (e820MaxEntries - (done.length + 1 + todo.length)),
          rangeCut start stop size old new x = ⟨x, [], 0⟩ := fun x hx =>
        rangeCut_added hstop hne (List.mem_of_mem_take hx)
      obtain ⟨t', hloop, ht'⟩ := ih _ _ _ (updated + (rangeCut start stop size old new e).retyped)
        hnext (by simp; omega)
      obtain ⟨hent, hsz⟩ := retyped_append_unchanged todo hadded
      rw [List.length_append, List.length_singleton] at hloop
      refine ⟨t', ?_, ?_⟩
      · rw [hretyped, hloop, hsz, retypedSize, retypedSize, List.map_cons, List.sum_cons,
          BitVec.add_assoc]
      · rw [ht', hent, retypedEntries, List.map_cons, List.flatMap_cons]
        have hcut := take_append_take (done ++ (rangeCut start stop size old new e).kept ::
            todo.map fun e => (rangeCut start stop size old new e).kept)
          (rangeCut start stop size old new e).added
          (todo.flatMap fun e => (rangeCut start stop size old new e).added) e820MaxEntries
        simp only [List.length_append, List.length_cons, List.length_map, List.append_assoc,
          List.cons_append, List.nil_append] at hcut ⊢
        rw [← hcut]
        congr 7
        omega

end Loop

/-! ## The table that results -/

section Table

variable {start size : BitVec 64} {old new : BitVec 32}

/-- **`rangeUpdate`** on a range that does not reach the last address: it returns, and the
table holds the retyped entries, as many as fit. -/
theorem rangeUpdate_eq (hrange : start.toNat + size.toNat < 2 ^ 64) (hne : old ≠ new)
    (t : E820Table) :
    ∃ t', t.rangeUpdate start size old new =
        .ok (t', retypedSize start (start + size) size old new t.entries) ∧
      t'.entries =
        (retypedEntries start (start + size) size old new t.entries).take e820MaxEntries := by
  have hstop : (start + size).toNat = start.toNat + size.toNat := by
    rw [BitVec.toNat_add]
    exact Nat.mod_eq_of_lt hrange
  have hclamp : ¬size > BitVec.allOnes 64 - start := by
    rw [gt_iff_lt, BitVec.lt_def, BitVec.toNat_sub_of_le (BitVec.le_def.mpr ?_),
      BitVec.toNat_allOnes]
    · omega
    · rw [BitVec.toNat_allOnes]
      omega
  obtain ⟨t', hloop, ht'⟩ := rangeUpdateLoop_eq hstop hne (e820MaxEntries + 1) [] t.entries t 0
    rfl (by simp)
  rw [List.length_nil, show (0 : BitVec 64) + _ = _ from BitVec.zero_add _] at hloop
  refine ⟨t', ?_, by simpa using ht'⟩
  unfold E820Table.rangeUpdate
  simp only [bugOn, hne, decide_false, Bool.false_eq_true, if_false, Exec.ok_bind, hclamp]
  exact hloop

variable {es : List E820Entry} {stop : BitVec 64}

/-- Up to order, the retyped entries are the parts of the entries. -/
theorem retypedEntries_perm (start stop size : BitVec 64) (old new : BitVec 32)
    (es : List E820Entry) :
    (retypedEntries start stop size old new es).Perm
      (es.flatMap fun e => (rangeCut start stop size old new e).parts) := by
  exact List.map_append_flatMap_perm es _ _

variable (hstop : stop.toNat = start.toNat + size.toNat) (hw : ∀ e ∈ es, ¬e.Wraps)
include hstop hw

/-- **Every byte keeps its description**, but for the new type inside the range. -/
theorem retyped_describes (a : ℕ) (type : BitVec 32) :
    (∃ x ∈ retypedEntries start stop size old new es, x.Covers a ∧ x.type = type) ↔
      ∃ e ∈ es, e.Covers a ∧ type = retypedAs start.toNat stop.toNat old new e a := by
  have hparts : ∀ e ∈ es, (∃ x ∈ (rangeCut start stop size old new e).parts,
      x.Covers a ∧ x.type = type) ↔
      e.Covers a ∧ type = retypedAs start.toNat stop.toNat old new e a := fun e he =>
    (rangeCut_shape hstop (hw e he)).covers (by omega) a type
  constructor
  · rintro ⟨x, hx, hc⟩
    obtain ⟨e, he, hxe⟩ := List.mem_flatMap.mp ((retypedEntries_perm ..).mem_iff.mp hx)
    exact ⟨e, he, (hparts e he).mp ⟨x, hxe, hc⟩⟩
  · rintro ⟨e, he, hc⟩
    obtain ⟨x, hxe, hc'⟩ := (hparts e he).mpr hc
    exact ⟨x, (retypedEntries_perm ..).mem_iff.mpr (List.mem_flatMap.mpr ⟨e, he, hxe⟩), hc'⟩

/-- **Disjoint entries stay disjoint.** -/
theorem retyped_disjoint (hd : es.Pairwise E820Entry.Disjoint) :
    (retypedEntries start stop size old new es).Pairwise E820Entry.Disjoint := by
  rw [(retypedEntries_perm ..).pairwise_iff fun h => h.symm, List.pairwise_flatMap]
  have hparts : ∀ e ∈ es, ∀ x ∈ (rangeCut start stop size old new e).parts, ∀ a, x.Covers a →
      e.Covers a := fun e he x hx a ha =>
    (((rangeCut_shape hstop (hw e he)).covers (by omega) a x.type).mp ⟨x, hx, ha, rfl⟩).1
  refine ⟨fun e he => (rangeCut_shape hstop (hw e he)).disjoint (by omega), ?_⟩
  refine hd.imp_of_mem fun {e f} he hf hef x hx y hy a ha => ?_
  exact hef a ⟨hparts e he x hx a ha.1, hparts f hf y hy a ha.2⟩

end Table

/-! ## Coverage of a range

In a sanitised table no two entries of one type touch. A range that is covered with one type is
therefore inside of one entry. `multiboot_init` asks for this before it masks the VMM. -/

/-- The order of a sanitised table, with the ends as the source computes them. -/
theorem E820Table.Sanitized.order {t : E820Table} (ht : t.Sanitized) :
    (∀ e ∈ t.entries, e.addr < e.stop) ∧
      t.entries.Pairwise fun e f => e.stop ≤ f.addr ∧ (e.stop = f.addr → e.type ≠ f.type) := by
  have hpos : ∀ e ∈ t.entries, 0 < e.size.toNat := fun e he =>
    BitVec.toNat_pos_of_ne_zero (ht.size_ne_zero e he)
  constructor
  · intro e he
    have := hpos e he
    rw [BitVec.lt_def, E820Entry.stop_toNat (ht.not_wraps e he)]
    omega
  · refine ((ht.increasing.and ht.disjoint).and ht.touching).imp_of_mem fun {e f} he hf hef => ?_
    obtain ⟨⟨hlt, hdis⟩, htouch⟩ := hef
    have hlt' : e.addr.toNat < f.addr.toNat := hlt
    refine ⟨?_, htouch⟩
    rw [BitVec.le_def, E820Entry.stop_toNat (ht.not_wraps e he)]
    by_contra hgt
    have := hpos f hf
    exact hdis f.addr.toNat ⟨⟨by omega, by omega⟩, Nat.le_refl _, by omega⟩

/-- **Coverage**: in a sanitised table a range covered with one type lies in one entry. -/
theorem exists_of_mappedAll {t : E820Table} (ht : t.Sanitized) {start stop : BitVec 64}
    {type : BitVec 32} (htype : type ≠ 0) (h : t.mappedAll start stop type = true) :
    ∃ e ∈ t.entries, e.type = type ∧ e.addr ≤ start ∧ e.addr < stop ∧ start < e.stop ∧
      stop ≤ e.stop := by
  obtain ⟨hpos, horder⟩ := ht.order
  unfold E820Table.mappedAll at h
  generalize t.entries = es at *
  induction es generalizing start with
  | nil => exact absurd h (by simp [E820Table.mappedAllLoop])
  | cons e es ih =>
    obtain ⟨hfirst, hrest⟩ := List.pairwise_cons.mp horder
    have hpos' : ∀ f ∈ es, f.addr < f.stop := fun f hf => hpos f (List.mem_cons_of_mem _ hf)
    have hskip : ∀ {start : BitVec 64}, E820Table.mappedAllLoop stop type es start = true →
        ∃ f ∈ e :: es, f.type = type ∧ f.addr ≤ start ∧ f.addr < stop ∧ start < f.stop ∧
          stop ≤ f.stop := by
      intro start hloop
      obtain ⟨f, hf, hfe⟩ := ih hloop hpos' hrest
      exact ⟨f, List.mem_cons_of_mem _ hf, hfe⟩
    rw [E820Table.mappedAllLoop] at h
    by_cases h₁ : type ≠ 0 ∧ e.type ≠ type
    · rw [if_pos h₁] at h
      exact hskip h
    rw [if_neg h₁] at h
    have hetype : e.type = type := not_not.mp fun hh => h₁ ⟨htype, hh⟩
    by_cases h₂ : e.addr ≥ stop ∨ e.stop ≤ start
    · rw [if_pos h₂] at h
      exact hskip h
    rw [if_neg h₂] at h
    have hlo : e.addr < stop := BitVec.not_le.mp fun hh => h₂ (Or.inl hh)
    have hhi : start < e.stop := BitVec.not_le.mp fun hh => h₂ (Or.inr hh)
    dsimp only at h
    by_cases h₃ : e.addr ≤ start
    · rw [if_pos h₃] at h
      by_cases h₄ : e.stop ≥ stop
      · exact ⟨e, List.mem_cons_self .., hetype, h₃, hlo, hhi, h₄⟩
      · -- another entry of the type would have to begin where this one ends
        rw [if_neg h₄] at h
        obtain ⟨f, hf, hftype, hfaddr, -⟩ := ih h hpos' hrest
        obtain ⟨hle, hne⟩ := hfirst f hf
        exact absurd (hetype.trans hftype.symm) (hne (BitVec.le_antisymm hle hfaddr))
    · -- another entry would have to begin below this one
      rw [if_neg h₃] at h
      have hge : ¬start ≥ stop := fun hh => h₃ (by bv_omega)
      rw [if_neg hge] at h
      obtain ⟨f, hf, -, hfaddr, -⟩ := ih h hpos' hrest
      have hef := (hfirst f hf).1
      exact absurd (BitVec.le_trans (BitVec.le_of_lt (hpos e (List.mem_cons_self ..)))
        (BitVec.le_trans hef hfaddr)) h₃

end Lvisor
