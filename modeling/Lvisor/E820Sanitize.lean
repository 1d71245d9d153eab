import Lvisor.E820
import Lvisor.Lib.SweepLine
import Mathlib.Data.List.Nodup

/-!
# Sanitising is exact

`updateTable` is the sweep of `Lvisor.Lib.SweepLine` over the entries of the table, cut
off at 128 pieces.

* `typeAt` — what a list of entries says about an address: the largest type of an entry
  that covers it;
* `isSchedule_changePoints` — the sorted change points are a schedule of the entries;
* `trackOverlap_tracks` — `overlap_list` holds the active entries;
* `Represents` — the half-built table against the builder of the sweep;
* `updateTable_spec` — the result is the exact map, or its first 128 runs.
-/

namespace Lvisor

/-! ## What a list of entries says

Where entries overlap, the larger type wins. The map is about numbers, so that an entry has its
end behind its start; the source computes ends modulo `2^64` and refuses a table where they wrap. -/

namespace E820Entry

/-- The entry covers the address `a`, without wrapping. -/
def Covers (e : E820Entry) (a : ℕ) : Prop :=
  e.addr.toNat ≤ a ∧ a < e.addr.toNat + e.size.toNat

instance (e : E820Entry) (a : ℕ) : Decidable (e.Covers a) :=
  inferInstanceAs (Decidable (_ ∧ _))

/-- `addr + size` wraps modulo `2^64`, which makes the table one that is not accepted. -/
def Wraps (e : E820Entry) : Prop := 2 ^ 64 ≤ e.addr.toNat + e.size.toNat

instance (e : E820Entry) : Decidable e.Wraps := inferInstanceAs (Decidable (_ ≤ _))

/-- The entry as a piece of a map from addresses to types. -/
def piece (e : E820Entry) : Piece ℕ ℕ :=
  ⟨e.addr.toNat, e.addr.toNat + e.size.toNat, e.type.toNat⟩

/-- The same, with the end as the source computes it. -/
def wrapPiece (e : E820Entry) : Piece ℕ ℕ := ⟨e.addr.toNat, e.stop.toNat, e.type.toNat⟩

theorem stop_toNat {e : E820Entry} (h : ¬e.Wraps) :
    e.stop.toNat = e.addr.toNat + e.size.toNat := by
  rw [stop, BitVec.toNat_add]
  exact Nat.mod_eq_of_lt (Nat.not_le.mp h)

/-- The test of the source for a wrapping entry. -/
theorem stop_lt_addr_iff (e : E820Entry) : e.stop < e.addr ↔ e.Wraps := by
  have ha := e.addr.isLt
  have hs := e.size.isLt
  rw [BitVec.lt_def, stop, BitVec.toNat_add]
  unfold Wraps
  constructor
  · intro h
    by_contra hw
    rw [Nat.mod_eq_of_lt (Nat.not_le.mp hw)] at h
    omega
  · intro h
    rw [Nat.mod_eq_sub_mod h, Nat.mod_eq_of_lt (by omega)]
    omega

theorem wrapPiece_eq {e : E820Entry} (h : ¬e.Wraps) : e.wrapPiece = e.piece := by
  rw [wrapPiece, piece, stop_toNat h]

end E820Entry

/-- The largest type of an entry that covers `a`, `0` when there is none. -/
def typeAt (es : List E820Entry) (a : ℕ) : ℕ :=
  es.foldr (fun e m => if e.Covers a then max e.type.toNat m else m) 0

/-! ## The entries as intervals -/

/-- The pointers to the non-empty entries, which are those with change points. -/
def intervalPtrs (es : List EntryPtr) : List EntryPtr := es.filter fun p => p.1.size ≠ 0

/-- The non-empty entries of a table without wrapping entries. -/
def entryIntervals (es : List EntryPtr) (h : ∀ p ∈ es, ¬p.1.Wraps) : Intervals EntryPtr ℕ where
  items := intervalPtrs es
  lo := fun p => p.1.addr.toNat
  hi := fun p => p.1.stop.toNat
  val := fun p => p.1.type.toNat
  lo_lt_hi := by
    intro p hp
    obtain ⟨hmem, hsize⟩ := List.mem_filter.mp hp
    have hne : p.1.size.toNat ≠ 0 := fun h0 =>
      of_decide_eq_true hsize (BitVec.eq_of_toNat_eq h0)
    rw [E820Entry.stop_toNat (h p hmem)]
    omega

/-- The specification in the terms of the sweep: the type is the largest one at the address. -/
theorem isMaxOn_typeAt {es : List EntryPtr} (h : ∀ p ∈ es, ¬p.1.Wraps) (a : ℕ) :
    IsMaxOn (fun p : EntryPtr => p.1.type.toNat) ((entryIntervals es h).Covers a)
      (typeAt (es.map Prod.fst) a) := by
  have hcover : ∀ p ∈ es, (p ∈ intervalPtrs es ∧ p.1.addr.toNat ≤ a ∧ a < p.1.stop.toNat) ↔
      p.1.Covers a := by
    intro p hp
    rw [E820Entry.stop_toNat (h p hp)]
    refine ⟨fun hc => hc.2, fun hc => ⟨List.mem_filter.mpr ⟨hp, ?_⟩, hc⟩⟩
    refine decide_eq_true fun h0 => ?_
    have hlt := hc.2
    rw [h0] at hlt
    exact absurd hc.1 (Nat.not_le.mpr (by simpa using hlt))
  -- the fold of `typeAt` is the maximum over the covering entries of the list
  have hfold : ∀ l : List EntryPtr, IsMaxOn (fun p : EntryPtr => p.1.type.toNat)
      (fun p => p ∈ l ∧ p.1.Covers a) (typeAt (l.map Prod.fst) a) := by
    intro l
    induction l with
    | nil => exact ⟨fun p hp => absurd hp.1 List.not_mem_nil, Or.inl rfl⟩
    | cons q l ih =>
      have hstep : typeAt ((q :: l).map Prod.fst) a = if q.1.Covers a then
          max q.1.type.toNat (typeAt (l.map Prod.fst) a) else typeAt (l.map Prod.fst) a := rfl
      rw [hstep]
      by_cases hq : q.1.Covers a
      · rw [if_pos hq]
        refine (ih.insert q).congr fun p => ?_
        rw [List.mem_cons]
        exact ⟨fun hp => hp.elim (fun hp => ⟨Or.inl hp, hp ▸ hq⟩) fun hp => ⟨Or.inr hp.1, hp.2⟩,
          fun hp => hp.1.imp id fun hp' => ⟨hp', hp.2⟩⟩
      · rw [if_neg hq]
        refine ih.congr fun p => ?_
        rw [List.mem_cons]
        exact ⟨fun hp => ⟨Or.inr hp.1, hp.2⟩,
          fun hp => ⟨hp.1.resolve_left fun heq => hq (heq ▸ hp.2), hp.2⟩⟩
  refine (hfold es).congr fun p => ?_
  constructor
  · exact fun hp => (hcover p hp.1).mpr hp.2
  · intro hp
    have hmem := (List.mem_filter.mp hp.1).1
    exact ⟨hmem, (hcover p hmem).mp hp⟩

/-! ## The change points as a schedule -/

/-- The event a change point stands for, decided as the source does. -/
def ChangeMember.event (c : ChangeMember) : Event EntryPtr :=
  ⟨c.entry, decide (c.addr = c.entry.1.addr)⟩

theorem ChangeMember.event_isStart (c : ChangeMember) :
    c.event.isStart = true ↔ c.addr = c.entry.1.addr :=
  decide_eq_true_iff

theorem cpcompare_le_zero_iff (a b : ChangeMember) : cpcompare a b ≤ 0 ↔
    a.addr.toNat < b.addr.toNat ∨
      (a.addr.toNat = b.addr.toNat ∧ (b.event.isStart = true → a.event.isStart = true)) := by
  rw [ChangeMember.event_isStart, ChangeMember.event_isStart, cpcompare]
  by_cases heq : a.addr = b.addr
  · rw [if_neg (not_not.mpr heq), heq]
    split_ifs with ha hb hb
    · simp [hb]
    · simpa [← not_not.mp hb] using ha
    · simp [hb]
    · simp [not_not.mp ha]
  · have hne : a.addr.toNat ≠ b.addr.toNat := fun h => heq (BitVec.eq_of_toNat_eq h)
    rw [if_pos heq]
    by_cases hgt : a.addr > b.addr
    · have hgt' : b.addr.toNat < a.addr.toNat := hgt
      rw [if_pos hgt]
      omega
    · have hle : ¬b.addr.toNat < a.addr.toNat := hgt
      rw [if_neg hgt]
      omega

theorem cpcompare_isTotalPreorder : IsTotalPreorder cpcompare where
  neg_iff := by
    intro a b
    unfold cpcompare
    by_cases heq : a.addr = b.addr
    · rw [if_neg (not_not.mpr heq), if_neg (not_not.mpr heq.symm)]
      omega
    · have hne : a.addr.toNat ≠ b.addr.toNat := fun h => heq (BitVec.eq_of_toNat_eq h)
      have hlt : a.addr > b.addr ↔ b.addr.toNat < a.addr.toNat := BitVec.lt_def
      have hgt : b.addr > a.addr ↔ a.addr.toNat < b.addr.toNat := BitVec.lt_def
      rw [if_pos heq, if_pos (Ne.symm heq)]
      simp only [hlt, hgt]
      split_ifs <;> omega
  trans := by
    intro a b c hab hbc
    rw [cpcompare_le_zero_iff] at hab hbc ⊢
    rcases hab with hab | ⟨hab, hab'⟩ <;> rcases hbc with hbc | ⟨hbc, hbc'⟩
    · exact Or.inl (by omega)
    · exact Or.inl (by omega)
    · exact Or.inl (by omega)
    · exact Or.inr ⟨by omega, fun h => hab' (hbc' h)⟩

section Schedule

variable {es : List EntryPtr} (h : ∀ p ∈ es, ¬p.1.Wraps)
include h

/-- The change points come in pairs, a start and a stop for each non-empty entry. -/
theorem changePoints_event :
    (changePoints es).map ChangeMember.event =
      (intervalPtrs es).flatMap fun p => [⟨p, true⟩, ⟨p, false⟩] := by
  induction es with
  | nil => rfl
  | cons p es ih =>
    have ih' := ih fun q hq => h q (List.mem_cons_of_mem _ hq)
    rw [changePoints, List.flatMap_cons, ← changePoints, List.map_append, ih']
    by_cases hsize : p.1.size = 0
    · rw [if_neg (not_not.mpr hsize), intervalPtrs, intervalPtrs, List.filter_cons_of_neg]
      · rfl
      · simpa using hsize
    · have hne : p.1.stop ≠ p.1.addr := by
        intro heq
        have h₁ := E820Entry.stop_toNat (h p (List.mem_cons_self ..))
        rw [heq] at h₁
        exact hsize (BitVec.eq_of_toNat_eq (by simpa using h₁))
      rw [if_pos hsize, intervalPtrs, intervalPtrs, List.filter_cons_of_pos]
      · simp [ChangeMember.event, hne]
      · simpa using hsize

/-- An event stands at the address of its change point. -/
theorem addr_event {c : ChangeMember} (hc : c ∈ changePoints es) :
    (entryIntervals es h).addr c.event = c.addr.toNat := by
  obtain ⟨p, hp, hmem⟩ := List.mem_flatMap.mp hc
  by_cases hsize : p.1.size = 0
  · simp [hsize] at hmem
  · rw [if_pos hsize] at hmem
    unfold Intervals.addr ChangeMember.event
    by_cases hstart : c.addr = c.entry.1.addr
    · simp [hstart, entryIntervals]
    · rcases List.mem_cons.mp hmem with rfl | hmem
      · exact absurd rfl hstart
      · obtain rfl := List.mem_singleton.mp hmem
        simp [hstart, entryIntervals]

omit h in
/-- Every entry has at most two change points, so that their array is long enough. -/
theorem length_changePoints_le (es : List EntryPtr) :
    (changePoints es).length ≤ 2 * es.length := by
  induction es with
  | nil => exact Nat.le_refl _
  | cons p es ih =>
    rw [changePoints, List.flatMap_cons, ← changePoints, List.length_append, List.length_cons]
    split_ifs
    · simp only [List.length_cons, List.length_nil]
      omega
    · simp only [List.length_nil]
      omega

/-- Sorted change points are a schedule in the sense of `Lvisor.Lib.SweepLine`. -/
theorem isSchedule_changePoints (hnd : es.Nodup) {l : List ChangeMember}
    (hperm : l.Perm (changePoints es)) (hsorted : l.Pairwise fun a b => cpcompare a b ≤ 0) :
    (entryIntervals es h).IsSchedule (l.map ChangeMember.event) := by
  have hperm' := hperm.map ChangeMember.event
  rw [changePoints_event h] at hperm'
  constructor
  · intro e
    obtain ⟨p, isStart⟩ := e
    rw [hperm'.mem_iff, List.mem_flatMap]
    constructor
    · rintro ⟨q, hq, hmem⟩
      rcases List.mem_cons.mp hmem with heq | hmem
      · exact (Event.mk.inj heq).1 ▸ hq
      · exact (Event.mk.inj (List.mem_singleton.mp hmem)).1 ▸ hq
    · intro hp
      refine ⟨p, hp, ?_⟩
      cases isStart <;> simp
  · rw [hperm'.nodup_iff, List.nodup_flatMap]
    refine ⟨fun p _ => by simp, (hnd.filter _).imp ?_⟩
    intro p q hpq e hep heq
    have hp : e.idx = p := by
      rcases List.mem_cons.mp hep with rfl | hep
      · rfl
      · rw [List.mem_singleton.mp hep]
    have hq : e.idx = q := by
      rcases List.mem_cons.mp heq with rfl | heq
      · rfl
      · rw [List.mem_singleton.mp heq]
    exact hpq (hp.symm.trans hq)
  · rw [List.pairwise_map]
    refine hsorted.imp_of_mem fun {a b} ha hb hab => ?_
    rw [addr_event h (hperm.mem_iff.mp ha), addr_event h (hperm.mem_iff.mp hb)]
    exact (cpcompare_le_zero_iff a b).mp hab

end Schedule

/-! ## The overlap list

The source removes an entry from the array by moving the last one into its place. The order in
the list is of no importance, as only the largest type in it is asked for. -/

/-- Overwriting an element with the last one and dropping the last removes it. -/
theorem swapRemove_spec {l : List EntryPtr} (hnd : l.Nodup) {x : EntryPtr} (hx : x ∈ l) :
    ((l.map fun p => if p = x then l.getLastD p else p).dropLast).Nodup ∧
      ∀ p, p ∈ (l.map fun p => if p = x then l.getLastD p else p).dropLast ↔ p ∈ l ∧ p ≠ x := by
  obtain ⟨init, last, rfl⟩ := (List.eq_nil_or_concat l).resolve_left (List.ne_nil_of_mem hx)
  rw [List.concat_eq_append] at hnd hx ⊢
  obtain ⟨hinit, -, hdisj⟩ := List.nodup_append.mp hnd
  have hlast : last ∉ init := fun h => hdisj last h last (List.mem_singleton_self _) rfl
  have hdrop : (((init ++ [last]).map
      fun p => if p = x then (init ++ [last]).getLastD p else p).dropLast) =
        init.map fun p => if p = x then last else p := by
    simp
  rw [hdrop]
  rcases List.mem_append.mp hx with hx' | hx'
  · -- `x` is not the last: the last takes its place
    have hne : x ≠ last := fun h => hlast (h ▸ hx')
    constructor
    · refine hinit.map_on fun p hp q hq hpq => ?_
      split_ifs at hpq with h₁ h₂ h₂
      · exact h₁.trans h₂.symm
      · exact absurd (hpq ▸ hq) hlast
      · exact absurd (hpq ▸ hp) hlast
      · exact hpq
    · intro p
      simp only [List.mem_map, List.mem_append, List.mem_singleton]
      constructor
      · rintro ⟨q, hq, rfl⟩
        split_ifs with h₁
        · exact ⟨Or.inr rfl, hne.symm⟩
        · exact ⟨Or.inl hq, h₁⟩
      · rintro ⟨hp | rfl, hpx⟩
        · exact ⟨p, hp, if_neg hpx⟩
        · exact ⟨x, hx', if_pos rfl⟩
  · obtain rfl := List.mem_singleton.mp hx'
    have hmap : (init.map fun p => if p = x then x else p) = init := by
      refine (List.map_congr_left fun p _ => ?_).trans (List.map_id init)
      split_ifs with h₁
      · exact h₁.symm
      · rfl
    rw [hmap]
    refine ⟨hinit, fun p => ⟨fun hp => ⟨List.mem_append_left _ hp, ?_⟩, ?_⟩⟩
    · exact fun h => hlast (h ▸ hp)
    · rintro ⟨hp, hpx⟩
      exact (List.mem_append.mp hp).resolve_right fun h => hpx (List.mem_singleton.mp h)

/-- The overlap list holds the active entries, once each. -/
def Tracks (overlap : List EntryPtr) (P : List (Event EntryPtr)) : Prop :=
  overlap.Nodup ∧ ∀ p, p ∈ overlap ↔ Active P p

/-- **The overlap list follows the active entries**, through every change point. -/
theorem trackOverlap_tracks {I : Intervals EntryPtr ℕ} {S P R : List (Event EntryPtr)}
    {overlap : List EntryPtr} {c : ChangeMember} (hS : I.IsSchedule S)
    (hsplit : S = P ++ c.event :: R) (h : Tracks overlap P) :
    Tracks (trackOverlap overlap c) (P ++ [c.event]) := by
  have hnd := hS.nodup
  rw [hsplit] at hnd
  have hfresh : c.event ∉ P := fun hmem =>
    (List.nodup_append.mp hnd).2.2 _ hmem _ (List.mem_cons_self ..) rfl
  have hitem : c.entry ∈ I.items := by
    refine (hS.mem c.event).mp (hsplit ▸ ?_)
    exact List.mem_append_right _ (List.mem_cons_self ..)
  unfold trackOverlap
  by_cases hstart : c.addr = c.entry.1.addr
  · have hevent : c.event = ⟨c.entry, true⟩ := by
      rw [ChangeMember.event, decide_eq_true hstart]
    rw [hevent] at hsplit hfresh ⊢
    rw [if_pos hstart]
    have hstop : (⟨c.entry, false⟩ : Event EntryPtr) ∉ P := fun hmem =>
      absurd (hS.before hsplit hmem).1 (not_le.mpr (I.lo_lt_hi c.entry hitem))
    have hnot : c.entry ∉ overlap := fun hmem => hfresh ((h.2 c.entry).mp hmem).1
    constructor
    · refine List.nodup_append.mpr ⟨h.1, List.nodup_singleton _, ?_⟩
      intro p hp q hq hpq
      exact hnot (List.mem_singleton.mp hq ▸ hpq ▸ hp)
    · intro p
      rw [List.mem_append, List.mem_singleton, active_start hstop, h.2 p, or_comm]
  · have hevent : c.event = ⟨c.entry, false⟩ := by
      rw [ChangeMember.event, decide_eq_false hstart]
    rw [hevent] at hsplit hfresh ⊢
    rw [if_neg hstart]
    -- the start of the entry has been read: it lies below its stop
    have hR : ∀ f ∈ (⟨c.entry, false⟩ : Event EntryPtr) :: R,
        I.addr ⟨c.entry, false⟩ ≤ I.addr f := by
      intro f hf
      rcases List.mem_cons.mp hf with rfl | hf
      · exact le_rfl
      · exact hS.after hsplit hf
    have hbegun : (⟨c.entry, true⟩ : Event EntryPtr) ∈ P :=
      hS.mem_of_lt hsplit hR hitem (I.lo_lt_hi c.entry hitem)
    have hmem : c.entry ∈ overlap := (h.2 c.entry).mpr ⟨hbegun, hfresh⟩
    obtain ⟨hnd', hiff⟩ := swapRemove_spec h.1 hmem
    refine ⟨hnd', fun p => ?_⟩
    rw [hiff p, active_stop, h.2 p]

/-- `current_type` is the largest type in the list of active entries. -/
theorem isMaxOn_currentType (overlap : List EntryPtr) :
    IsMaxOn (fun p : EntryPtr => p.1.type.toNat) (fun p => p ∈ overlap)
      (currentType overlap).toNat := by
  -- the loop, from any value that is the maximum of what came before
  have hloop : ∀ (l : List EntryPtr) (A : EntryPtr → Prop) (cur : BitVec 32),
      IsMaxOn (fun p : EntryPtr => p.1.type.toNat) A cur.toNat →
      IsMaxOn (fun p : EntryPtr => p.1.type.toNat) (fun p => p ∈ l ∨ A p)
        (l.foldl (fun cur p => if p.1.type > cur then p.1.type else cur) cur).toNat := by
    intro l
    induction l with
    | nil => exact fun A cur h => h.congr fun p => by simp
    | cons q l ih =>
      intro A cur h
      have hmax : (if q.1.type > cur then q.1.type else cur).toNat =
          max q.1.type.toNat cur.toNat := by
        split_ifs with hgt
        · exact (Nat.max_eq_left (Nat.le_of_lt hgt)).symm
        · exact (Nat.max_eq_right (Nat.not_lt.mp hgt)).symm
      refine (ih _ _ (hmax ▸ h.insert q)).congr fun p => ?_
      rw [List.mem_cons]
      tauto
  refine (hloop overlap (fun _ => False) 0 ⟨fun _ hp => hp.elim, Or.inl rfl⟩).congr fun p => ?_
  rw [or_false]

/-! ## The table being built

The source keeps the entry under construction in the table itself, in the slot behind the last
one that is finished, and tells by `last_type` whether there is one. The builder of
`Lvisor.Lib.Piecewise` has that entry apart from the list. -/

namespace UpdateState

/-- The pieces completed so far, without the one that is open. -/
def pieces (st : UpdateState) : List (Piece ℕ ℕ) :=
  (st.newEntries.toList.take st.newNr).map E820Entry.wrapPiece

theorem pieces_length {st : UpdateState} (h : st.newNr ≤ e820MaxEntries) :
    st.pieces.length = st.newNr := by
  rw [pieces, List.length_map, List.length_take, Vector.length_toList]
  exact Nat.min_eq_left h

theorem current_set (v : Vector E820Entry e820MaxEntries) {i : ℕ} (h : i < e820MaxEntries)
    (e : E820Entry) : (v.set i e h).getD i default = e := by
  simp [Vector.getD, h]

/-- Closing an entry stores its size; a non-empty entry is completed. -/
theorem closeEntry_eq {st : UpdateState} (h : st.newNr < e820MaxEntries) (addr : BitVec 64) :
    ∃ st', st.closeEntry addr = .ok st' ∧ st'.overlap = st.overlap ∧
      (st.lastAddr = addr → st'.newNr = st.newNr ∧ st'.pieces = st.pieces) ∧
      (st.lastAddr ≠ addr → st'.newNr = st.newNr + 1 ∧ st'.pieces =
        st.pieces ++ [E820Entry.wrapPiece { st.current with size := addr - st.lastAddr }]) := by
  have hlen : st.newNr < st.newEntries.toList.length := by
    rw [Vector.length_toList]
    exact h
  have hsize : addr - st.lastAddr = 0 ↔ st.lastAddr = addr := by
    constructor
    · intro h0
      bv_omega
    · rintro rfl
      bv_omega
  rw [closeEntry, store_of_lt _ _ h]
  refine ⟨_, rfl, rfl, fun heq => ?_, fun hne => ?_⟩
  · have h0 := hsize.mpr heq
    refine ⟨if_neg (not_not.mpr h0), ?_⟩
    simp only [pieces, if_neg (not_not.mpr h0), Vector.toList_set]
    rw [List.take_set_of_le (Nat.le_refl _)]
  · have h0 : addr - st.lastAddr ≠ 0 := fun h0 => hne (hsize.mp h0)
    refine ⟨if_pos h0, ?_⟩
    simp only [pieces, if_pos h0, Vector.toList_set]
    rw [List.take_succ_eq_append_getElem (by rw [List.length_set]; exact hlen),
      List.take_set_of_le (Nat.le_refl _), List.getElem_set_self, List.map_append]
    rfl

/-- Opening an entry completes nothing, as long as there is a slot. -/
theorem openEntry_eq {st : UpdateState} (h : st.newNr < e820MaxEntries) (addr : BitVec 64)
    (type : BitVec 32) :
    ∃ st', st.openEntry addr type = .ok st' ∧ st'.overlap = st.overlap ∧ st'.newNr = st.newNr ∧
      st'.pieces = st.pieces ∧ st'.lastAddr = addr ∧ st'.current.addr = addr ∧
      st'.current.type = type := by
  rw [openEntry, store_of_lt _ _ h]
  refine ⟨_, rfl, rfl, rfl, ?_, rfl, ?_, ?_⟩
  · simp only [pieces, Vector.toList_set]
    rw [List.take_set_of_le (Nat.le_refl _)]
  · simp only [current, current_set _ h]
  · simp only [current, current_set _ h]

end UpdateState

/-- The variables of the loop hold the state of a sweep. -/
structure Represents (st : UpdateState) (sw : Sweep ℕ ℕ) : Prop where
  lt : st.newNr < e820MaxEntries
  out : st.pieces = sw.out
  last : st.lastType.toNat = sw.last
  current : st.lastType ≠ 0 → sw.lastAddr = st.lastAddr.toNat ∧
    st.current.addr = st.lastAddr ∧ st.current.type = st.lastType

namespace Represents

variable {st : UpdateState} {sw : Sweep ℕ ℕ} {c : ChangeMember} {type : BitVec 32}

theorem last_eq_zero_iff (h : Represents st sw) : st.lastType = 0 ↔ sw.last = 0 := by
  rw [← h.last]
  exact ⟨fun h0 => by rw [h0]; rfl, fun h0 => BitVec.eq_of_toNat_eq h0⟩

/-- A new type closes the entry being built as the sweep does. -/
theorem close (h : Represents st sw) (hne : type ≠ st.lastType) (a : BitVec 64) :
    ∃ st', st.closeLast a = .ok st' ∧
      st'.overlap = st.overlap ∧ st'.newNr ≤ st.newNr + 1 ∧
      st'.pieces = (sw.step a.toNat type.toNat).out := by
  have hstep : type.toNat ≠ sw.last := fun heq =>
    hne (BitVec.eq_of_toNat_eq (heq.trans h.last.symm))
  rw [UpdateState.closeLast, Sweep.step, if_neg hstep]
  by_cases hlast : st.lastType = 0
  · rw [if_neg (not_not.mpr hlast), if_neg fun hh => hh.1 (h.last_eq_zero_iff.mp hlast)]
    exact ⟨st, rfl, rfl, Nat.le_succ _, h.out⟩
  · obtain ⟨haddr, hcaddr, hctype⟩ := h.current hlast
    obtain ⟨st', hclose, hov, hsame, hmore⟩ := UpdateState.closeEntry_eq h.lt a
    rw [if_pos hlast]
    by_cases hempty : st.lastAddr = a
    · obtain ⟨hnr, hpieces⟩ := hsame hempty
      refine ⟨st', hclose, hov, by omega, ?_⟩
      rw [if_neg fun hh => hh.2 (by rw [haddr, hempty]), hpieces, h.out]
    · obtain ⟨hnr, hpieces⟩ := hmore hempty
      have hne' : sw.lastAddr ≠ a.toNat := fun heq =>
        hempty (BitVec.eq_of_toNat_eq (haddr.symm.trans heq))
      refine ⟨st', hclose, hov, by omega, ?_⟩
      rw [if_pos ⟨fun h0 => hlast (h.last_eq_zero_iff.mpr h0), hne'⟩, hpieces, h.out]
      -- the size stored is the distance to `a`, so the piece ends there
      have hpiece : E820Entry.wrapPiece { st.current with size := a - st.lastAddr } =
          ⟨sw.lastAddr, a.toNat, sw.last⟩ := by
        unfold E820Entry.wrapPiece E820Entry.stop
        have hstop : st.lastAddr + (a - st.lastAddr) = a := by bv_omega
        simp only [hcaddr, hctype, haddr, ← h.last, hstop]
      rw [hpiece]

/-- With room left, the new entry is opened as the sweep does. -/
theorem «open» (h : Represents st sw) (hne : type ≠ st.lastType) {a : BitVec 64}
    {st₁ : UpdateState} (hov : st₁.overlap = st.overlap) (hlt : st₁.newNr < e820MaxEntries)
    (hout : st₁.pieces = (sw.step a.toNat type.toNat).out) :
    ∃ st', st₁.openNext a type = .ok st' ∧
      st'.overlap = st.overlap ∧
      Represents { st' with lastType := type } (sw.step a.toNat type.toNat) := by
  have hstep : type.toNat ≠ sw.last := fun heq =>
    hne (BitVec.eq_of_toNat_eq (heq.trans h.last.symm))
  rw [UpdateState.openNext]
  by_cases htype : type = 0
  · rw [if_neg (not_not.mpr htype)]
    refine ⟨st₁, rfl, hov, hlt, hout, ?_, fun h0 => absurd htype h0⟩
    exact (Sweep.step_last sw a.toNat type.toNat).symm
  · obtain ⟨st', hopen, hov', hnr, hpieces, haddr, hcaddr, hctype⟩ :=
      UpdateState.openEntry_eq hlt a type
    rw [if_pos htype]
    refine ⟨st', hopen, hov'.trans hov, by rw [← hnr] at hlt; exact hlt, hpieces.trans hout, ?_, ?_⟩
    · exact (Sweep.step_last sw a.toNat type.toNat).symm
    · intro _
      refine ⟨?_, hcaddr.trans haddr.symm, hctype⟩
      rw [Sweep.step, if_neg hstep]
      simp only [haddr]
      exact if_pos fun h0 => htype (BitVec.eq_of_toNat_eq h0)

end Represents

/-! ## The loop over the change points -/

section Loop

variable {I : Intervals EntryPtr ℕ} {t : ℕ → ℕ} {S : List (Event EntryPtr)} {b : ℕ}

/-- **The loop builds the exact map, or its first 128 runs.** -/
theorem updateLoop_spec (hval : I.val = fun p => p.1.type.toNat) (hS : I.IsSchedule S)
    (ht : ∀ y, IsMaxOn I.val (I.Covers y) (t y)) (hb : ∀ f ∈ S, I.addr f ≤ b) :
    ∀ (cs : List ChangeMember) (P : List (Event EntryPtr)) (st : UpdateState) (sw : Sweep ℕ ℕ),
      S = P ++ cs.map ChangeMember.event →
      (∀ c ∈ cs, I.addr c.event = c.addr.toNat) → Tracks st.overlap P →
      Swept I t P (cs.map ChangeMember.event) sw → Represents st sw →
      ∃ st' full, updateLoop cs st = .ok st' ∧ IsExactMap t full ∧
        st'.pieces = full.take e820MaxEntries := by
  intro cs
  induction cs with
  | nil =>
    intro P st sw hsplit _ _ hswept hrep
    rw [List.map_nil, List.append_nil] at hsplit
    subst hsplit
    refine ⟨st, sw.out, rfl, hswept.finish hS ht hb, ?_⟩
    have hlen := UpdateState.pieces_length (Nat.le_of_lt hrep.lt)
    rw [← hrep.out, List.take_of_length_le]
    exact hlen ▸ Nat.le_of_lt hrep.lt
  | cons c cs ih =>
    intro P st sw hsplit haddr htracks hswept hrep
    rw [List.map_cons] at hsplit hswept
    have hsplit' : S = (P ++ [c.event]) ++ cs.map ChangeMember.event := by
      rw [hsplit, List.append_assoc]
      rfl
    have haddr' : ∀ d ∈ cs, I.addr d.event = d.addr.toNat := fun d hd =>
      haddr d (List.mem_cons_of_mem _ hd)
    have htracks' := trackOverlap_tracks hS hsplit htracks
    have hmax : IsMaxOn I.val (Active (P ++ [c.event]))
        (currentType (trackOverlap st.overlap c)).toNat := by
      rw [hval]
      exact (isMaxOn_currentType _).congr htracks'.2
    have hswept' := hswept.step hS ht hsplit hmax
    rw [haddr c (List.mem_cons_self ..)] at hswept'
    rw [updateLoop]
    have hrep' : Represents { st with overlap := trackOverlap st.overlap c } sw :=
      ⟨hrep.lt, hrep.out, hrep.last, hrep.current⟩
    by_cases htype : currentType (trackOverlap st.overlap c) = st.lastType
    · -- the type stays: neither side does anything
      simp only [htype, ne_eq, not_true_eq_false, if_false]
      rw [htype, hrep.last, Sweep.step, if_pos rfl] at hswept'
      exact ih _ _ sw hsplit' haddr' htracks' hswept' hrep'
    · simp only [ne_eq, htype, not_false_eq_true, if_true]
      obtain ⟨st₁, hclose, hov₁, hnr₁, hout₁⟩ := hrep'.close htype c.addr
      rw [hclose, Exec.ok_bind]
      by_cases hfull : st₁.newNr > st.newNr ∧ st₁.newNr ≥ e820MaxEntries
      · -- no room for more: what is built is a part of the exact map
        rw [if_pos hfull]
        obtain ⟨full, hexact, hprefix⟩ :=
          Swept.exists_finish hS ht hb _ _ _ hsplit' hswept'
        have hle : st₁.newNr = e820MaxEntries := by
          have := hrep.lt
          simp only at hnr₁
          omega
        refine ⟨st₁, full, rfl, hexact, ?_⟩
        have hlen := UpdateState.pieces_length (Nat.le_of_eq hle)
        rw [← hout₁] at hprefix
        rw [← hle, ← hlen]
        exact List.prefix_iff_eq_take.mp hprefix
      · rw [if_neg hfull]
        have hlt₁ : st₁.newNr < e820MaxEntries := by
          have := hrep.lt
          omega
        obtain ⟨st₂, hopen, hov₂, hrep₂⟩ := hrep'.open htype hov₁ hlt₁ hout₁
        rw [hopen, Exec.ok_bind]
        refine ih _ _ _ hsplit' haddr' ?_ hswept' hrep₂
        rw [show ({ st₂ with lastType := currentType (trackOverlap st.overlap c) } :
          UpdateState).overlap = trackOverlap st.overlap c from hov₂]
        exact htracks'

end Loop

/-! ## The sanitised table -/

/-- What a sanitised table looks like: non-empty entries in order, disjoint, and of
different types where they touch. -/
structure E820Table.Sanitized (t : E820Table) : Prop where
  size_ne_zero : ∀ e ∈ t.entries, e.size ≠ 0
  not_wraps : ∀ e ∈ t.entries, ¬e.Wraps
  increasing : t.entries.Pairwise fun e f => e.addr < f.addr
  disjoint : t.entries.Pairwise fun e f => ∀ a, ¬(e.Covers a ∧ f.Covers a)
  touching : t.entries.Pairwise fun e f => e.stop = f.addr → e.type ≠ f.type

/-- A table whose pieces are canonical is sanitised: sorted, disjoint, and merged. -/
theorem sanitized_of_canonical {t : E820Table}
    (h : Canonical (t.entries.map E820Entry.wrapPiece)) : t.Sanitized := by
  have hlt : ∀ e ∈ t.entries, e.addr.toNat < e.stop.toNat := fun e he =>
    (h.piece e.wrapPiece (List.mem_map_of_mem he)).1
  have hnw : ∀ e ∈ t.entries, ¬e.Wraps := fun e he hw =>
    Nat.lt_asymm (hlt e he) ((E820Entry.stop_lt_addr_iff e).mpr hw)
  have horder := List.pairwise_map.mp h.order
  refine ⟨fun e he h0 => ?_, hnw, horder.imp_of_mem ?_, horder.imp_of_mem ?_, horder.imp_of_mem ?_⟩
  · have := hlt e he
    rw [E820Entry.stop_toNat (hnw e he), h0] at this
    simp at this
  · intro e f he _ hef
    have := hlt e he
    have hle : e.stop.toNat ≤ f.addr.toNat := hef.elim Nat.le_of_lt fun hh => Nat.le_of_eq hh.1
    exact BitVec.lt_def.mpr (by omega)
  · rintro e f he _ hef a ⟨hea, hfa⟩
    have hle : e.stop.toNat ≤ f.addr.toNat := hef.elim Nat.le_of_lt fun hh => Nat.le_of_eq hh.1
    rw [E820Entry.stop_toNat (hnw e he)] at hle
    have := hea.2
    have := hfa.1
    omega
  · intro e f _ _ hef htouch htype
    rcases hef with hlt' | ⟨-, hne⟩
    · have hlt'' : e.stop.toNat < f.addr.toNat := hlt'
      rw [htouch] at hlt''
      exact Nat.lt_irrefl _ hlt''
    · exact hne (congrArg BitVec.toNat htype)

/-- A table with too few entries, or with a wrapping one, is refused. -/
theorem updateTable_of_refused (newEntries : Vector E820Entry e820MaxEntries) {t : E820Table}
    (h : t.nrEntries < 2 ∨ ∃ e ∈ t.entries, e.Wraps) :
    t.updateTable newEntries = .ok (-1, t) := by
  unfold E820Table.updateTable
  by_cases hnr : t.nrEntries < 2
  · rw [if_pos hnr]
    rfl
  · obtain ⟨e, he, hw⟩ := h.resolve_left hnr
    have hany : (t.entries.any fun e => e.stop < e.addr) = true :=
      List.any_eq_true.mpr ⟨e, he, decide_eq_true ((E820Entry.stop_lt_addr_iff e).mpr hw)⟩
    have hbug : ¬t.nrEntries > e820MaxEntries := Nat.not_lt.mpr t.length_le
    simp only [hnr, if_false, bugOn, hbug, decide_false, Bool.false_eq_true, Exec.ok_bind, hany,
      if_true]
    rfl

/-- The sweep of an accepted table, from its change points to the pieces. -/
theorem updateTable_of_accepted (newEntries : Vector E820Entry e820MaxEntries) {t : E820Table}
    (hnr : 2 ≤ t.nrEntries) (hw : ∀ e ∈ t.entries, ¬e.Wraps) :
    ∃ t' runs, t.updateTable newEntries = .ok (0, t') ∧ IsExactMap (typeAt t.entries) runs ∧
      t'.entries.map E820Entry.wrapPiece = runs.take e820MaxEntries := by
  have hmap : t.entries.zipIdx.map Prod.fst = t.entries := List.zipIdx_map_fst ..
  have hptr : ∀ p ∈ t.entries.zipIdx, ¬p.1.Wraps := fun p hp =>
    hw p.1 (hmap ▸ List.mem_map_of_mem hp)
  have hnd : t.entries.zipIdx.Nodup := by
    refine List.Nodup.of_map Prod.snd ?_
    rw [List.zipIdx_map_snd]
    exact List.nodup_range' ..
  -- the sorted change points
  have hlen : (changePoints t.entries.zipIdx).length ≤ 256 := by
    have hle := length_changePoints_le t.entries.zipIdx
    rw [List.length_zipIdx] at hle
    have hmax : t.entries.length ≤ 128 := t.length_le
    omega
  obtain ⟨sorted, hsort, hperm, hsorted⟩ := sort_elementOps cpcompare_isTotalPreorder 8
    (changePoints t.entries.zipIdx).length (by decide) (by decide) (by omega)
    (fun i => (changePoints t.entries.zipIdx).getD i default)
  have hread : (List.range (changePoints t.entries.zipIdx).length).map
      (fun i => (changePoints t.entries.zipIdx).getD i default) = changePoints t.entries.zipIdx :=
    List.ext_getElem (by simp) fun i h₁ h₂ => by simp [h₂]
  rw [hread] at hperm
  -- the sweep over them
  have hS := isSchedule_changePoints hptr hnd hperm hsorted
  have ht : ∀ y, IsMaxOn (entryIntervals t.entries.zipIdx hptr).val
      ((entryIntervals t.entries.zipIdx hptr).Covers y) (typeAt t.entries y) := by
    intro y
    have := isMaxOn_typeAt hptr y
    rwa [hmap] at this
  have haddr : ∀ c ∈ (List.range (changePoints t.entries.zipIdx).length).map sorted,
      (entryIntervals t.entries.zipIdx hptr).addr c.event = c.addr.toNat := fun c hc =>
    addr_event hptr (hperm.mem_iff.mp hc)
  have hb : ∀ f ∈ ((List.range (changePoints t.entries.zipIdx).length).map sorted).map
      ChangeMember.event, (entryIntervals t.entries.zipIdx hptr).addr f ≤ 2 ^ 64 := by
    intro f hf
    obtain ⟨c, hc, rfl⟩ := List.mem_map.mp hf
    rw [haddr c hc]
    exact Nat.le_of_lt c.addr.isLt
  obtain ⟨st, runs, hloop, hexact, hpieces⟩ := updateLoop_spec rfl hS ht hb _ []
    ⟨[], newEntries, 0, 0, 0⟩ ⟨[], 0, 0⟩ rfl haddr
    ⟨List.nodup_nil, fun p => by simp [Active]⟩ (Swept.init hS ht 0)
    ⟨Nat.zero_lt_succ _, by simp [UpdateState.pieces], rfl, fun h => absurd rfl h⟩
  refine ⟨⟨st.newEntries.toList.take st.newNr, by simp⟩, runs, ?_, hexact, hpieces⟩
  have hany : (t.entries.any fun e => decide (e.stop < e.addr)) = false :=
    List.any_eq_false.mpr fun e he => by
      simpa using (not_congr (E820Entry.stop_lt_addr_iff e)).mpr (hw e he)
  have hbug : ¬t.nrEntries > e820MaxEntries := Nat.not_lt.mpr t.length_le
  unfold E820Table.updateTable
  simp only [Nat.not_lt.mpr hnr, if_false, bugOn, hbug, decide_false, Bool.false_eq_true,
    Exec.ok_bind, hany, hsort, hloop]
  rfl

/-- An accepted table becomes sanitised, and its entries are the runs of `typeAt`, as many
as fit. -/
theorem updateTable_spec (newEntries : Vector E820Entry e820MaxEntries) {t : E820Table}
    (hnr : 2 ≤ t.nrEntries) (hw : ∀ e ∈ t.entries, ¬e.Wraps) :
    ∃ t' runs, t.updateTable newEntries = .ok (0, t') ∧ t'.Sanitized ∧
      IsExactMap (typeAt t.entries) runs ∧
      t'.entries.map E820Entry.piece = runs.take e820MaxEntries := by
  obtain ⟨t', runs, heq, hexact, hpieces⟩ := updateTable_of_accepted newEntries hnr hw
  have hsane : t'.Sanitized := sanitized_of_canonical (hpieces ▸ hexact.canonical.take _)
  refine ⟨t', runs, heq, hsane, hexact, ?_⟩
  rw [← hpieces]
  exact List.map_congr_left fun e he => (E820Entry.wrapPiece_eq (hsane.not_wraps e he)).symm

/-- **Sanitising is exact.** A table of two or more entries, none of which wraps, is
replaced by the exact map of the largest type at each address, or by its first 128 runs;
any other table is refused and left alone. -/
theorem updateTable_exact (newEntries : Vector E820Entry e820MaxEntries) (t : E820Table) :
    (2 ≤ t.nrEntries → (∀ e ∈ t.entries, ¬e.Wraps) →
      ∃ t' runs, t.updateTable newEntries = .ok (0, t') ∧ t'.Sanitized ∧
        IsExactMap (typeAt t.entries) runs ∧
        (runs.length ≤ 128 → t'.entries.map E820Entry.piece = runs) ∧
        (128 < runs.length → t'.entries.map E820Entry.piece = runs.take 128)) ∧
    ((t.nrEntries < 2 ∨ ∃ e ∈ t.entries, e.Wraps) → t.updateTable newEntries = .ok (-1, t)) := by
  refine ⟨fun hnr hw => ?_, updateTable_of_refused newEntries⟩
  obtain ⟨t', runs, heq, hsane, hexact, hpieces⟩ := updateTable_spec newEntries hnr hw
  refine ⟨t', runs, heq, hsane, hexact, fun hle => ?_, fun _ => hpieces⟩
  rw [hpieces]
  exact List.take_of_length_le hle

theorem E820Entry.piece_injective : Function.Injective E820Entry.piece := by
  intro e f h
  obtain ⟨hlo, hhi, hval⟩ := Piece.mk.inj h
  obtain ⟨ea, es, et⟩ := e
  obtain ⟨fa, fs, ft⟩ := f
  simp only at hlo hhi hval
  obtain rfl := BitVec.eq_of_toNat_eq hlo
  obtain rfl := BitVec.eq_of_toNat_eq hval
  obtain rfl : es = fs := BitVec.eq_of_toNat_eq (by omega)
  rfl

/-- Entries in order without overlaps say what they cover. -/
theorem lookup_piece_eq_typeAt {es : List E820Entry} (h : Canonical (es.map E820Entry.piece))
    (a : ℕ) : lookup (es.map E820Entry.piece) a = typeAt es a := by
  induction es with
  | nil => rfl
  | cons e es ih =>
    have hcons : typeAt (e :: es) a =
        if e.Covers a then max e.type.toNat (typeAt es a) else typeAt es a := rfl
    rw [List.map_cons] at h ⊢
    rw [lookup, hcons, ← ih h.tail]
    by_cases hc : e.Covers a
    · -- no later entry covers the address
      have hzero : lookup (es.map E820Entry.piece) a = 0 := by
        refine lookup_eq_zero fun p hp hpa => ?_
        have hle := ((List.pairwise_cons.mp h.order).1 p hp).elim Nat.le_of_lt
          fun hh => Nat.le_of_eq hh.1
        exact Nat.lt_irrefl _ (Nat.lt_of_lt_of_le hc.2 (Nat.le_trans hle hpa.1))
      rw [if_pos hc, if_pos (show e.piece.Contains a from hc), hzero, Nat.max_zero]
      rfl
    · rw [if_neg hc, if_neg (show ¬e.piece.Contains a from hc)]

/-- **A sanitised map is left as it is**, if it has more than one entry. -/
theorem updateTable_of_canonical (newEntries : Vector E820Entry e820MaxEntries) {t : E820Table}
    (hnr : 2 ≤ t.nrEntries) (hw : ∀ e ∈ t.entries, ¬e.Wraps)
    (hc : Canonical (t.entries.map E820Entry.piece)) :
    t.updateTable newEntries = .ok (0, t) := by
  obtain ⟨⟨es, hes⟩, runs, heq, -, hexact, hpieces⟩ := updateTable_spec newEntries hnr hw
  obtain rfl := hexact.unique (hc.isExactMap (lookup_piece_eq_typeAt hc))
  rw [List.take_of_length_le (by rw [List.length_map]; exact t.length_le)] at hpieces
  obtain rfl : es = t.entries := E820Entry.piece_injective.list_map hpieces
  exact heq

/-- The memory map pictured in the comment of the source, a column for a page. -/
def sampleTable : E820Table where
  entries :=
    [⟨0x4000, 0x2000, 2⟩, ⟨0x16000, 0x1000, 4⟩, ⟨0x4000, 0x4000, 1⟩, ⟨0x1000, 0x2000, 4⟩,
      ⟨0x0, 0x8000, 1⟩, ⟨0x14000, 0x2000, 3⟩, ⟨0xb000, 0x2000, 4⟩, ⟨0xa000, 0x5000, 3⟩,
      ⟨0xe000, 0x2000, 2⟩, ⟨0x13000, 0x4000, 2⟩, ⟨0x9000, 0x9000, 1⟩, ⟨0x15000, 0x2000, 1⟩,
      ⟨0x11000, 0x1000, 4⟩]
  length_le := by decide

theorem updateTable_exact_sampleTable :
    ∃ t' runs, sampleTable.updateTable (Vector.replicate _ default) = .ok (0, t') ∧
      t'.Sanitized ∧ IsExactMap (typeAt sampleTable.entries) runs ∧
      (runs.length ≤ 128 → t'.entries.map E820Entry.piece = runs) ∧
      (128 < runs.length → t'.entries.map E820Entry.piece = runs.take 128) :=
  (updateTable_exact (Vector.replicate _ default) sampleTable).1 (by decide) (by decide)

end Lvisor
