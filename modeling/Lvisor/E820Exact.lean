import Mathlib.Data.Set.Card
import Mathlib.Order.Interval.Finset.Nat
import Lvisor.E820Range

/-!
# Retyping and coverage are exact

What `__e820_range_update` and `e820_mapped_all` promise, byte by byte, of every table of
disjoint entries, sanitised or not.

* `Describes` — some entry gives the byte the type;
* `rangeUpdate_retypes` — with two free slots exactly the bytes of the range that had the old
  type get the new one, and their number is returned;
* `mappedAll_iff` — in a table sorted by address the single pass decides coverage.

An update appends at most two parts, one for each end of the range (`added_length_le`): an
end lies strictly inside of at most one entry. The number of bytes is a sum over disjoint
entries (`retypedSize_toNat`) and never wraps.
-/

namespace Lvisor

/-- Some entry gives the byte `a` the type `type`. -/
def Describes (es : List E820Entry) (a : ℕ) (type : BitVec 32) : Prop :=
  ∃ e ∈ es, e.Covers a ∧ e.type = type

instance (es : List E820Entry) (a : ℕ) (type : BitVec 32) : Decidable (Describes es a type) :=
  inferInstanceAs (Decidable (∃ e ∈ es, _))

section Bytes

variable {es : List E820Entry} {e : E820Entry} {old new : BitVec 32}

theorem describes_cons {a : ℕ} {type : BitVec 32} :
    Describes (e :: es) a type ↔ (e.Covers a ∧ e.type = type) ∨ Describes es a type := by
  simp [Describes]

/-- Disjoint entries give a byte one type. -/
theorem Describes.unique (hd : es.Pairwise E820Entry.Disjoint) {a : ℕ} {type type' : BitVec 32}
    (h : Describes es a type) (h' : Describes es a type') : type = type' := by
  induction hd with
  | nil => exact absurd h (by simp [Describes])
  | @cons e es hfirst _ ih =>
    rw [describes_cons] at h h'
    rcases h with ⟨hc, rfl⟩ | h <;> rcases h' with ⟨hc', rfl⟩ | h'
    · rfl
    · obtain ⟨f, hf, hcf, -⟩ := h'
      exact absurd ⟨hc, hcf⟩ (hfirst f hf a)
    · obtain ⟨f, hf, hcf, -⟩ := h
      exact absurd ⟨hc', hcf⟩ (hfirst f hf a)
    · exact ih h h'

/-! ## How many parts are appended

A part is appended for each end of the range that is inside of an entry. The entries are
disjoint, so that each end is inside of one entry at most. -/

/-- A part is appended for an end of the range strictly inside of the entry only. -/
theorem CutShape.added_length_le {start stop : ℕ} {c : RangeCut}
    (h : CutShape start stop old new e e.addr.toNat (e.addr.toNat + e.size.toNat) c)
    (hle : start ≤ stop) :
    c.added.length ≤ (if e.Covers start then 1 else 0) + (if e.Covers stop then 1 else 0) := by
  cases h with
  | apart => exact Nat.zero_le _
  | inside => exact Nat.zero_le _
  | around _ hlo hhi =>
    have hs : e.Covers start := ⟨by omega, by omega⟩
    have ht : e.Covers stop := ⟨by omega, by omega⟩
    rw [if_pos hs, if_pos ht]
    exact Nat.le_refl _
  | head _ hlo hmid =>
    have hs : e.Covers start := ⟨by omega, by omega⟩
    rw [if_pos hs]
    exact Nat.le_add_right 1 _
  | tail _ _ hmid hhi =>
    have ht : e.Covers stop := ⟨by omega, by omega⟩
    rw [if_pos ht]
    exact Nat.le_add_left 1 _

/-- A byte lies in at most one of the disjoint entries. -/
theorem countP_covers_le_one (hd : es.Pairwise E820Entry.Disjoint) (a : ℕ) :
    es.countP (fun e => e.Covers a) ≤ 1 := by
  induction hd with
  | nil => exact Nat.zero_le _
  | @cons e es hfirst _ ih =>
    rw [List.countP_cons]
    by_cases hc : e.Covers a
    · have hnone : es.countP (fun f => f.Covers a) = 0 := by
        rw [List.countP_eq_zero]
        intro f hf hcf
        exact hfirst f hf a ⟨hc, of_decide_eq_true hcf⟩
      rw [hnone]
      split_ifs <;> omega
    · simpa [hc] using ih

section Range

variable {start stop size : BitVec 64} (hstop : stop.toNat = start.toNat + size.toNat)
include hstop

/-- **At most two parts are appended.** -/
theorem added_length_le (hw : ∀ e ∈ es, ¬e.Wraps) (hd : es.Pairwise E820Entry.Disjoint) :
    (es.flatMap fun e => (rangeCut start stop size old new e).added).length ≤ 2 := by
  have hsum : (es.flatMap fun e => (rangeCut start stop size old new e).added).length ≤
      es.countP (fun e => e.Covers start.toNat) + es.countP (fun e => e.Covers stop.toNat) := by
    clear hd
    induction es with
    | nil => exact Nat.zero_le _
    | cons e es ih =>
      have hrest := ih fun f hf => hw f (List.mem_cons_of_mem _ hf)
      have hone : (rangeCut start stop size old new e).added.length ≤ _ :=
        (rangeCut_shape hstop (hw e (List.mem_cons_self ..))).added_length_le (by omega)
      rw [List.flatMap_cons, List.length_append, List.countP_cons, List.countP_cons]
      simp only [decide_eq_true_iff]
      omega
  have h₁ := countP_covers_le_one hd start.toNat
  have h₂ := countP_covers_le_one hd stop.toNat
  omega

end Range

/-! ## How many bytes are retyped

The function returns a sum over the entries. As a set of addresses, the bytes that it counts are
the bytes of the range that had the old type, once each. -/

/-- The bytes of `[start, stop)` that have the type `old`. -/
def retypedBytes (start stop : ℕ) (old : BitVec 32) (es : List E820Entry) : Finset ℕ :=
  (Finset.Ico start stop).filter fun a => Describes es a old

theorem mem_retypedBytes {start stop a : ℕ} :
    a ∈ retypedBytes start stop old es ↔ (start ≤ a ∧ a < stop) ∧ Describes es a old := by
  rw [retypedBytes, Finset.mem_filter, Finset.mem_Ico]

theorem card_retypedBytes_le (start stop : ℕ) (old : BitVec 32) (es : List E820Entry) :
    (retypedBytes start stop old es).card ≤ stop - start := by
  rw [← Nat.card_Ico]
  exact Finset.card_filter_le _ _

/-- The bytes of one entry: the overlap of two ranges. -/
theorem retypedBytes_singleton (start stop : ℕ) :
    retypedBytes start stop old [e] = if e.type = old then
      Finset.Ico (max start e.addr.toNat) (min stop (e.addr.toNat + e.size.toNat)) else ∅ := by
  ext a
  rw [mem_retypedBytes, describes_cons]
  split_ifs with htype
  · simp only [Finset.mem_Ico, E820Entry.Covers, Describes, htype]
    simp only [List.not_mem_nil, false_and, exists_false, or_false, and_true]
    omega
  · simp [Describes, htype]

/-- Disjoint entries hold different bytes. -/
theorem card_retypedBytes_cons (hd : (e :: es).Pairwise E820Entry.Disjoint) (start stop : ℕ) :
    (retypedBytes start stop old (e :: es)).card =
      (retypedBytes start stop old [e]).card + (retypedBytes start stop old es).card := by
  rw [← Finset.card_union_of_disjoint]
  · congr 1
    ext a
    simp only [Finset.mem_union, mem_retypedBytes, describes_cons]
    simp only [Describes, List.not_mem_nil, false_and, exists_false, or_false]
    tauto
  · rw [Finset.disjoint_left]
    intro a ha hb
    rw [mem_retypedBytes, describes_cons] at ha
    obtain ⟨f, hf, hcf, -⟩ := (mem_retypedBytes.mp hb).2
    rcases ha.2 with ⟨hc, -⟩ | hnil
    · exact (List.pairwise_cons.mp hd).1 f hf a ⟨hc, hcf⟩
    · exact absurd hnil (by simp [Describes])

/-- What an entry adds to `real_updated_size`. -/
theorem CutShape.retyped_toNat {start stop : ℕ} {c : RangeCut}
    (h : CutShape start stop old new e e.addr.toNat (e.addr.toNat + e.size.toNat) c)
    (hle : start ≤ stop) : c.retyped.toNat = (retypedBytes start stop old [e]).card := by
  rw [retypedBytes_singleton]
  cases h with
  | apart h =>
    dsimp only
    split_ifs with htype
    · rw [Nat.card_Ico]
      rcases h with h | h | h
      · exact absurd htype h
      · simp; omega
      · simp; omega
    · rfl
  | inside htype hlo hhi =>
    rw [if_pos htype, Nat.card_Ico]
    dsimp only
    omega
  | around htype hlo hhi k m r _ hm =>
    have := hm.addr
    have := hm.stop
    rw [if_pos htype, Nat.card_Ico]
    dsimp only
    omega
  | head htype hlo hmid hhi k m _ hm =>
    have := hm.addr
    have := hm.stop
    rw [if_pos htype, Nat.card_Ico]
    dsimp only
    omega
  | tail htype hlo hmid hhi k m _ hm =>
    have := hm.addr
    have := hm.stop
    rw [if_pos htype, Nat.card_Ico]
    dsimp only
    omega

/-- **`real_updated_size`** is the number of the bytes, without a wrap. -/
theorem retypedSize_toNat {start stop size : BitVec 64}
    (hstop : stop.toNat = start.toNat + size.toNat) (hw : ∀ e ∈ es, ¬e.Wraps)
    (hd : es.Pairwise E820Entry.Disjoint) :
    (retypedSize start stop size old new es).toNat =
      (retypedBytes start.toNat stop.toNat old es).card := by
  induction es with
  | nil => simp [retypedSize, retypedBytes, Describes]
  | cons e es ih =>
    have hrest := ih (fun f hf => hw f (List.mem_cons_of_mem _ hf)) hd.of_cons
    have hone : (rangeCut start stop size old new e).retyped.toNat = _ :=
      (rangeCut_shape hstop (hw e (List.mem_cons_self ..))).retyped_toNat (by omega)
    have hle := card_retypedBytes_le start.toNat stop.toNat old (e :: es)
    have hlt := stop.isLt
    rw [card_retypedBytes_cons hd] at hle ⊢
    rw [retypedSize, List.map_cons, List.sum_cons, ← retypedSize, BitVec.toNat_add, hrest, hone]
    exact Nat.mod_eq_of_lt (by omega)

end Bytes

/-! ## Retyping -/

section Retyping

variable {old new : BitVec 32} {start size : BitVec 64}

/-- `size` as the source clamps it: the range ends at the last address at most. -/
def clampSize (start size : BitVec 64) : BitVec 64 :=
  if size > BitVec.allOnes 64 - start then BitVec.allOnes 64 - start else size

theorem clampSize_toNat (start size : BitVec 64) :
    (clampSize start size).toNat = min size.toNat (2 ^ 64 - 1 - start.toNat) := by
  have hs := start.isLt
  have hsub : (BitVec.allOnes 64 - start).toNat = 2 ^ 64 - 1 - start.toNat := by
    rw [BitVec.toNat_sub_of_le (BitVec.le_def.mpr (by rw [BitVec.toNat_allOnes]; omega)),
      BitVec.toNat_allOnes]
  unfold clampSize
  split_ifs with h
  · rw [gt_iff_lt, BitVec.lt_def, hsub] at h
    omega
  · rw [gt_iff_lt, BitVec.lt_def, hsub] at h
    omega

theorem rangeUpdate_clampSize (t : E820Table) :
    t.rangeUpdate start size old new = t.rangeUpdate start (clampSize start size) old new := by
  have htwice : clampSize start (clampSize start size) = clampSize start size := by
    apply BitVec.eq_of_toNat_eq
    rw [clampSize_toNat, clampSize_toNat]
    omega
  unfold E820Table.rangeUpdate
  rw [← clampSize, ← clampSize, htwice]

/-- A part of an entry that does not wrap does not wrap. -/
theorem retyped_not_wraps {es : List E820Entry} {stop : BitVec 64}
    (hstop : stop.toNat = start.toNat + size.toNat) (hw : ∀ e ∈ es, ¬e.Wraps) :
    ∀ x ∈ retypedEntries start stop size old new es, ¬x.Wraps := by
  intro x hx hwrap
  have hlt := x.addr.isLt
  unfold E820Entry.Wraps at hwrap
  -- the last byte of the part is a byte of an entry
  have hlast : x.Covers (x.addr.toNat + x.size.toNat - 1) := ⟨by omega, by omega⟩
  obtain ⟨e, he, hc, -⟩ := (retyped_describes hstop hw _ x.type).mp ⟨x, hx, hlast, rfl⟩
  have := hw e he
  unfold E820Entry.Wraps at this
  have := hc.2
  omega

/-- **Retyping is exact.** With two free slots the update of disjoint entries in any order
leaves disjoint entries; the bytes of the range that had the old type have the new one, every
other byte keeps its description, and the number returned is the number of bytes whose
description changed. -/
theorem rangeUpdate_retypes {t : E820Table} (hw : ∀ e ∈ t.entries, ¬e.Wraps)
    (hd : t.entries.Pairwise E820Entry.Disjoint) (hfree : t.nrEntries + 2 ≤ e820MaxEntries)
    (start size : BitVec 64) {old new : BitVec 32} (hne : old ≠ new) :
    ∃ t' updated, t.rangeUpdate start size old new = .ok (t', updated) ∧
      (∀ e ∈ t'.entries, ¬e.Wraps) ∧ t'.entries.Pairwise E820Entry.Disjoint ∧
      (∀ a, start.toNat ≤ a → a < start.toNat + (clampSize start size).toNat →
        Describes t.entries a old → Describes t'.entries a new) ∧
      (∀ a, ¬(start.toNat ≤ a ∧ a < start.toNat + (clampSize start size).toNat ∧
          Describes t.entries a old) →
        ∀ type, Describes t'.entries a type ↔ Describes t.entries a type) ∧
      updated.toNat =
        {a | ¬∀ type, Describes t'.entries a type ↔ Describes t.entries a type}.ncard := by
  rw [rangeUpdate_clampSize]
  have hclamp := clampSize_toNat start size
  have hs := start.isLt
  generalize clampSize start size = size at *
  have hrange : start.toNat + size.toNat < 2 ^ 64 := by omega
  have hstop : (start + size).toNat = start.toNat + size.toNat := by
    rw [BitVec.toNat_add]
    exact Nat.mod_eq_of_lt hrange
  obtain ⟨t', hupdate, hentries⟩ := rangeUpdate_eq hrange hne t
  have hlength : (retypedEntries start (start + size) size old new t.entries).length ≤
      e820MaxEntries := by
    have hadded : (t.entries.flatMap fun e =>
        (rangeCut start (start + size) size old new e).added).length ≤ 2 :=
      added_length_le hstop hw hd
    rw [retypedEntries, List.length_append, List.length_map]
    exact Nat.le_trans (Nat.add_le_add_left hadded _) hfree
  rw [List.take_of_length_le hlength] at hentries
  have hdes : ∀ a type, Describes t'.entries a type ↔
      ∃ e ∈ t.entries, e.Covers a ∧ type = retypedAs start.toNat (start + size).toNat old new e a :=
    fun a type => by rw [Describes, hentries]; exact retyped_describes hstop hw a type
  have hd' : t'.entries.Pairwise E820Entry.Disjoint := by
    rw [hentries]
    exact retyped_disjoint hstop hw hd
  have hnew : ∀ a, start.toNat ≤ a → a < start.toNat + size.toNat →
      Describes t.entries a old → Describes t'.entries a new := by
    rintro a h₁ h₂ ⟨e, he, hc, htype⟩
    refine (hdes a new).mpr ⟨e, he, hc, ?_⟩
    rw [retypedAs, if_pos ⟨htype, h₁, by omega⟩]
  have hkeep : ∀ a, ¬(start.toNat ≤ a ∧ a < start.toNat + size.toNat ∧
      Describes t.entries a old) →
      ∀ type, Describes t'.entries a type ↔ Describes t.entries a type := by
    intro a hout type
    rw [hdes]
    refine exists_congr fun e => and_congr_right fun he => and_congr_right fun hc => ?_
    rw [retypedAs, if_neg fun hin => hout ⟨hin.2.1, by omega, e, he, hc, hin.1⟩]
    exact eq_comm
  refine ⟨t', _, hupdate, ?_, hd', hnew, hkeep, ?_⟩
  · rw [hentries]
    exact retyped_not_wraps hstop hw
  · rw [retypedSize_toNat hstop hw hd, ← Set.ncard_coe_finset]
    congr 1
    ext a
    rw [Finset.mem_coe, mem_retypedBytes, hstop, Set.mem_ofPred_eq]
    constructor
    · rintro ⟨⟨h₁, h₂⟩, hold⟩ hsame
      exact hne (hold.unique hd ((hsame new).mp (hnew a h₁ h₂ hold)))
    · intro hchanged
      by_contra hout
      exact hchanged (hkeep a fun h => hout ⟨⟨h.1, h.2.1⟩, h.2.2⟩)

/-- Three entries out of order, the first and the last of them adjacent. -/
def unorderedTable : E820Table :=
  ⟨[⟨0x3000, 0x1000, 1⟩, ⟨0x1000, 0x1000, 1⟩, ⟨0x2000, 0x1000, 2⟩], by decide⟩

theorem rangeUpdate_retypes_unorderedTable :
    ∃ t' updated, unorderedTable.rangeUpdate 0x1800 0x2000 1 3 = .ok (t', updated) ∧
      updated.toNat =
        {a | ¬∀ type, Describes t'.entries a type ↔
          Describes unorderedTable.entries a type}.ncard := by
  have hd : unorderedTable.entries.Pairwise E820Entry.Disjoint := by
    simp only [unorderedTable, E820Entry.Disjoint, E820Entry.Covers, List.pairwise_cons,
      List.mem_cons, List.not_mem_nil, or_false, forall_eq_or_imp, forall_eq]
    refine ⟨⟨fun a => ?_, fun a => ?_⟩, fun a => ?_, ?_⟩ <;> simp <;> omega
  obtain ⟨t', updated, hrun, -, -, -, -, hsize⟩ := rangeUpdate_retypes (t := unorderedTable)
    (by decide) hd (by decide) 0x1800 0x2000 (show (1 : BitVec 32) ≠ 3 by decide)
  exact ⟨t', updated, hrun, hsize⟩

end Retyping

/-! ## Coverage

The single pass moves `start` to the end of each entry that covers it. In a sorted table an entry
that begins behind `start` leaves a hole there, and no later entry can fill it. -/

/-- The byte `a` lies in an entry of the type, of any type when `type` is 0. -/
def CoveredAs (es : List E820Entry) (type : BitVec 32) (a : ℕ) : Prop :=
  ∃ e ∈ es, e.Covers a ∧ (type = 0 ∨ e.type = type)

theorem coveredAs_cons {e : E820Entry} {es : List E820Entry} {type : BitVec 32} {a : ℕ} :
    CoveredAs (e :: es) type a ↔
      (e.Covers a ∧ (type = 0 ∨ e.type = type)) ∨ CoveredAs es type a := by
  simp [CoveredAs]

section Coverage

variable {e : E820Entry} {es : List E820Entry} {type : BitVec 32} {m n : ℕ}

/-- An entry that covers nothing of the range may be left out. -/
theorem covered_iff_of_skip
    (hno : ∀ a, m ≤ a → a < n → ¬(e.Covers a ∧ (type = 0 ∨ e.type = type))) :
    (∀ a, m ≤ a → a < n → CoveredAs es type a) ↔
      ∀ a, m ≤ a → a < n → CoveredAs (e :: es) type a := by
  refine forall_congr' fun a => forall_congr' fun h₁ => forall_congr' fun h₂ => ?_
  rw [coveredAs_cons]
  exact ⟨Or.inr, fun h => h.resolve_left (hno a h₁ h₂)⟩

/-- An entry that covers the start of the range leaves what is behind it. -/
theorem covered_iff_of_front (htype : type = 0 ∨ e.type = type)
    (hend : e.stop.toNat = e.addr.toNat + e.size.toNat) (hlo : e.addr.toNat ≤ m)
    (hhi : m < e.stop.toNat) :
    (∀ a, e.stop.toNat ≤ a → a < n → CoveredAs es type a) ↔
      ∀ a, m ≤ a → a < n → CoveredAs (e :: es) type a := by
  constructor
  · intro h a ha hb
    rw [coveredAs_cons]
    by_cases hin : a < e.stop.toNat
    · exact Or.inl ⟨⟨by omega, by omega⟩, htype⟩
    · exact Or.inr (h a (by omega) hb)
  · intro h a ha hb
    refine (coveredAs_cons.mp (h a (by omega) hb)).resolve_left fun hc => ?_
    have := hc.1.2
    omega

/-- In a sorted table, nothing in front of the first entry is covered. -/
theorem not_coveredAs_of_lt (hfirst : ∀ f ∈ es, e.addr ≤ f.addr) (hlt : m < e.addr.toNat) :
    ¬CoveredAs (e :: es) type m := by
  intro h
  rcases coveredAs_cons.mp h with ⟨hc, -⟩ | ⟨f, hf, hc, -⟩
  · have := hc.1
    omega
  · have : e.addr.toNat ≤ f.addr.toNat := hfirst f hf
    have := hc.1
    omega

end Coverage

/-- The single pass. Once an entry of the type begins above `start`, every later one does,
and `start` is not covered. -/
theorem mappedAllLoop_iff {stop : BitVec 64} {type : BitVec 32} {es : List E820Entry}
    (hw : ∀ e ∈ es, ¬e.Wraps) (hsorted : es.Pairwise fun e f => e.addr ≤ f.addr)
    {start : BitVec 64} (hlt : start < stop) :
    E820Table.mappedAllLoop stop type es start = true ↔
      ∀ a, start.toNat ≤ a → a < stop.toNat → CoveredAs es type a := by
  have hlt' : start.toNat < stop.toNat := hlt
  induction es generalizing start with
  | nil =>
    rw [E820Table.mappedAllLoop]
    refine iff_of_false Bool.false_ne_true fun h => ?_
    obtain ⟨e, he, -⟩ := h start.toNat (Nat.le_refl _) hlt'
    exact absurd he List.not_mem_nil
  | cons e es ih =>
    obtain ⟨hfirst, hrest⟩ := List.pairwise_cons.mp hsorted
    have hw' : ∀ f ∈ es, ¬f.Wraps := fun f hf => hw f (List.mem_cons_of_mem _ hf)
    have hend := E820Entry.stop_toNat (hw e (List.mem_cons_self ..))
    rw [E820Table.mappedAllLoop]
    by_cases h₁ : type ≠ 0 ∧ e.type ≠ type
    · -- another type
      rw [if_pos h₁]
      exact (ih hw' hrest hlt hlt').trans
        (covered_iff_of_skip fun a _ _ hc => hc.2.elim h₁.1 h₁.2)
    rw [if_neg h₁]
    have htype : type = 0 ∨ e.type = type := by
      by_contra hh
      exact h₁ (not_or.mp hh)
    by_cases h₂ : e.addr ≥ stop ∨ e.stop ≤ start
    · -- beside the range
      rw [if_pos h₂]
      refine (ih hw' hrest hlt hlt').trans (covered_iff_of_skip fun a ha hb hc => ?_)
      obtain ⟨⟨hlo, hhi⟩, -⟩ := hc
      rcases h₂ with h | h
      · have : stop.toNat ≤ e.addr.toNat := h
        omega
      · have : e.stop.toNat ≤ start.toNat := h
        omega
    rw [if_neg h₂]
    have hhi : start.toNat < e.stop.toNat := BitVec.not_le.mp (not_or.mp h₂).2
    dsimp only
    by_cases h₃ : e.addr ≤ start
    · rw [if_pos h₃]
      have hfront := @covered_iff_of_front e es type start.toNat stop.toNat htype hend h₃ hhi
      by_cases h₄ : e.stop ≥ stop
      · -- the entry covers all of the range
        rw [if_pos h₄]
        exact iff_of_true rfl (hfront.mp fun a ha hb =>
          absurd (Nat.lt_of_le_of_lt ha hb) (Nat.not_lt.mpr h₄))
      · -- the entry covers the range up to its end
        have hstop : e.stop < stop := BitVec.not_le.mp h₄
        rw [if_neg h₄]
        exact (ih hw' hrest hstop hstop).trans hfront
    · -- the start is in front of the entry
      have hbelow : start.toNat < e.addr.toNat := BitVec.not_le.mp h₃
      rw [if_neg h₃, if_neg (BitVec.not_le.mpr hlt)]
      have hnot : ¬CoveredAs (e :: es) type start.toNat := not_coveredAs_of_lt hfirst hbelow
      refine (ih hw' hrest hlt hlt').trans (iff_of_false (fun h => hnot ?_) fun h => hnot ?_)
      · exact coveredAs_cons.mpr (Or.inr (h start.toNat (Nat.le_refl _) hlt'))
      · exact h start.toNat (Nat.le_refl _) hlt'

/-- **`e820_mapped_all` decides coverage** of every non-empty range in a table sorted by
address. That the entries are disjoint is not needed. -/
theorem mappedAll_iff {t : E820Table} (hw : ∀ e ∈ t.entries, ¬e.Wraps)
    (hsorted : t.entries.Pairwise fun e f => e.addr ≤ f.addr) {start stop : BitVec 64}
    (hlt : start < stop) (type : BitVec 32) :
    t.mappedAll start stop type = true ↔
      ∀ a, start.toNat ≤ a → a < stop.toNat → CoveredAs t.entries type a :=
  mappedAllLoop_iff hw hsorted hlt

/-- Two adjacent entries of different types and a gap behind them. -/
def adjacentTable : E820Table :=
  ⟨[⟨0x1000, 0x1000, 1⟩, ⟨0x2000, 0x1000, 2⟩, ⟨0x4000, 0x1000, 1⟩], by decide⟩

/-- Across the two entries only "any type" covers, and nothing covers the gap. -/
theorem mappedAll_iff_adjacentTable :
    (∀ a, 0x1800 ≤ a → a < 0x2800 → CoveredAs adjacentTable.entries 0 a) ∧
      ¬(∀ a, 0x1800 ≤ a → a < 0x2800 → CoveredAs adjacentTable.entries 1 a) ∧
      ¬(∀ a, 0x2800 ≤ a → a < 0x4800 → CoveredAs adjacentTable.entries 0 a) := by
  have h := fun (start stop : BitVec 64) (hlt : start < stop) (type : BitVec 32) =>
    mappedAll_iff (t := adjacentTable) (by decide) (by decide) hlt type
  refine ⟨(h 0x1800 0x2800 (by decide) 0).mp (by decide), fun hc => ?_, fun hc => ?_⟩
  · exact absurd ((h 0x1800 0x2800 (by decide) 1).mpr hc) (by decide)
  · exact absurd ((h 0x2800 0x4800 (by decide) 0).mpr hc) (by decide)

end Lvisor
