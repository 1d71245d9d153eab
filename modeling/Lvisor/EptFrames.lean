import Mathlib.Data.Finset.Lattice.Lemmas
import Lvisor.Ept

/-!
# The EPT as a set of frames

The abstract model of the EPT is the set of 2 MiB frames the guest has been given:
a fault adds the frame of the faulting address, and an address is mapped, to
itself, exactly when its frame is in the set. `Ept.ofFrames` is the content of
the arrays for a set of frames; the results are

* `handleEptViolation_ofFrames` — one call on the arrays is one insertion;
* `runSteps_handleEptViolation_iff` — a sequence of calls is the union of its frames;
* `eptTranslate_of_maps`, `gpa2hpa_of_maps` — both walkers see the set.
-/

namespace Lvisor

/-! ## Entries

Tables and frames are aligned, so that an entry is an address with flags in its low bits, and
masking takes the one or the other out of it. -/

section Entries

variable {x : BitVec 64}

theorem and_eq_zero_of_page {m : BitVec 64} (hx : x.toNat % 2 ^ 12 = 0)
    (hm : m.toNat < 2 ^ 12) : x &&& m = 0#64 :=
  and_eq_zero_of_aligned (by decide) hx hm

/-- A table entry shows its flags below bit 12. -/
theorem or_and_of_page {c m : BitVec 64} (hx : x.toNat % 2 ^ 12 = 0)
    (hm : m.toNat < 2 ^ 12) : (x ||| c) &&& m = c &&& m := by
  rw [BitVec.and_or_distrib_right, and_eq_zero_of_page hx hm, BitVec.zero_or]

/-- Bits 51:12 of an address with at most 52 bits are its page. -/
theorem and_addrMask_of_page (hx : x.toNat % 2 ^ 12 = 0) (hlt : x.toNat < 2 ^ 52) :
    x &&& 0x000ffffffffff000#64 = x := by
  have hsplit : (0x000ffffffffff000#64 : BitVec 64) = lowMask 64 52 &&& ~~~lowMask 64 12 := by
    decide
  rw [hsplit, ← BitVec.and_assoc, and_lowMask_of_lt (by decide) hlt,
    and_not_lowMask_of_aligned (by decide) hx]

theorem or_and_addrMask_of_page {c : BitVec 64} (hx : x.toNat % 2 ^ 12 = 0)
    (hlt : x.toNat < 2 ^ 52) (hc : c &&& 0x000ffffffffff000#64 = 0#64) :
    (x ||| c) &&& 0x000ffffffffff000#64 = x := by
  rw [BitVec.and_or_distrib_right, and_addrMask_of_page hx hlt, hc, BitVec.or_zero]

end Entries

/-- The leaf for the 2 MiB frame number `i`. -/
def leafEntry (i : ℕ) : BitVec 64 := BitVec.ofNat 64 (i * 2 ^ 21) ||| epteRwx ||| eptePse

/-- The frame number of a guest-physical address, by frames of 2 MiB. -/
def frame (g : BitVec 64) : ℕ := g.toNat / 2 ^ 21

theorem toNat_frameBase {i : ℕ} (hi : i < 4 * 512) :
    (BitVec.ofNat 64 (i * 2 ^ 21)).toNat = i * 2 ^ 21 := by
  rw [BitVec.toNat_ofNat, Nat.mod_eq_of_lt (by omega)]

theorem leafEntry_eq (i : ℕ) : leafEntry i = BitVec.ofNat 64 (i * 2 ^ 21) ||| 0x87#64 := by
  rw [leafEntry, BitVec.or_assoc]
  rfl

theorem leafEntry_and_low {i : ℕ} (hi : i < 4 * 512) {m : BitVec 64}
    (hm : m.toNat < 2 ^ 12) : leafEntry i &&& m = 0x87#64 &&& m := by
  rw [leafEntry_eq]
  exact or_and_of_page (by rw [toNat_frameBase hi]; omega) hm

theorem leafEntry_and_addrMask {i : ℕ} (hi : i < 4 * 512) :
    leafEntry i &&& 0x000ffffffffff000#64 = BitVec.ofNat 64 (i * 2 ^ 21) := by
  rw [leafEntry_eq]
  exact or_and_addrMask_of_page (by rw [toNat_frameBase hi]; omega)
    (by rw [toNat_frameBase hi]; omega) (by decide)

/-- The rounding of the handler is the base of the frame. -/
theorem and_not_sz2M (g : BitVec 64) :
    g &&& ~~~(sz2M - 1) = BitVec.ofNat 64 (frame g * 2 ^ 21) := by
  apply BitVec.eq_of_toNat_eq
  have hmask : sz2M - 1 = lowMask 64 21 := by decide
  have hle : frame g * 2 ^ 21 ≤ g.toNat := Nat.div_mul_le_self _ _
  have hlt := g.isLt
  rw [hmask, toNat_and_not_lowMask (by decide), BitVec.toNat_ofNat, Nat.mod_eq_of_lt (by omega)]
  rfl

theorem frame_toNat_div (g : BitVec 64) : (g / sz2M).toNat = frame g := by
  rw [BitVec.toNat_udiv]
  rfl

/-! ## Arrays from frames -/

/-- The upper levels are linked as `linkUpper` leaves them. -/
structure Ept.Linked (img : Image) (s : Ept) : Prop where
  pml4 : ∀ (i : ℕ) (h : i < 512),
    s.eptPml4[i] = if i = 0 then img.eptPdpt ||| epteRwx else 0#64
  pdpt : ∀ (i : ℕ) (h : i < 512),
    s.eptPdpt[i] = if i < 4 then (img.eptPd + BitVec.ofNat 64 (i * 512 * 8)) ||| epteRwx else 0#64

/-- The page directories hold the leaves of the frames of `F` and nothing else. -/
def Ept.Maps (s : Ept) (F : Finset ℕ) : Prop :=
  ∀ (i : ℕ) (h : i < 4 * 512), s.eptPd[i] = if i ∈ F then leafEntry i else 0#64

/-- The arrays for a set of frames: zero before the first fault, linked after it. -/
def Ept.ofFrames (img : Image) (F : Finset ℕ) : Ept :=
  if F = ∅ then Ept.zero
  else
    { eptPml4 := Vector.ofFn fun i => if i.1 = 0 then img.eptPdpt ||| epteRwx else 0#64
      eptPdpt := Vector.ofFn fun i =>
        if i.1 < 4 then (img.eptPd + BitVec.ofNat 64 (i.1 * 512 * 8)) ||| epteRwx else 0#64
      eptPd := Vector.ofFn fun i => if i.1 ∈ F then leafEntry i.1 else 0#64
      initialized := true }

variable {img : Image}

@[simp] theorem Ept.ofFrames_empty (img : Image) : Ept.ofFrames img ∅ = Ept.zero := if_pos rfl

theorem Ept.ofFrames_linked (img : Image) {F : Finset ℕ} (hF : F ≠ ∅) :
    (Ept.ofFrames img F).Linked img := by
  rw [Ept.ofFrames, if_neg hF]
  constructor <;> intro i h <;> simp

theorem Ept.ofFrames_maps (F : Finset ℕ) : (Ept.ofFrames img F).Maps F := by
  intro i h
  by_cases hF : F = ∅
  · subst hF
    simp [Ept.zero]
  · simp [Ept.ofFrames, hF]

theorem Ept.ofFrames_initialized {F : Finset ℕ} (hF : F ≠ ∅) :
    (Ept.ofFrames img F).initialized = true := by
  rw [Ept.ofFrames, if_neg hF]

/-- Linked arrays are determined by their frames. -/
theorem Ept.eq_ofFrames {s : Ept} {F : Finset ℕ} (hF : F ≠ ∅) (hl : s.Linked img)
    (hm : s.Maps F) (hi : s.initialized = true) : s = Ept.ofFrames img F := by
  have hl' : (Ept.ofFrames img F).Linked img := Ept.ofFrames_linked img hF
  have hm' : (Ept.ofFrames img F).Maps F := Ept.ofFrames_maps F
  have hi' : (Ept.ofFrames img F).initialized = true := Ept.ofFrames_initialized hF
  have h₁ : s.eptPml4 = (Ept.ofFrames img F).eptPml4 :=
    Vector.ext fun i h => (hl.pml4 i h).trans (hl'.pml4 i h).symm
  have h₂ : s.eptPdpt = (Ept.ofFrames img F).eptPdpt :=
    Vector.ext fun i h => (hl.pdpt i h).trans (hl'.pdpt i h).symm
  have h₃ : s.eptPd = (Ept.ofFrames img F).eptPd :=
    Vector.ext fun i h => (hm i h).trans (hm' i h).symm
  rcases hs : s with ⟨a, b, c, d⟩
  rcases hf : Ept.ofFrames img F with ⟨a', b', c', d'⟩
  simp_all

/-- `linkUpper` succeeds, links the upper levels of zeroed arrays, and leaves the
page directories alone. -/
theorem linkUpper_eq_ok (img : Image) (s : Ept) (h₁ : s.eptPml4 = Ept.zero.eptPml4)
    (h₂ : s.eptPdpt = Ept.zero.eptPdpt) :
    ∃ s', linkUpper img s = .ok s' ∧ s'.Linked img ∧ s'.eptPd = s.eptPd ∧
      s'.initialized = s.initialized := by
  refine ⟨_, rfl, ⟨?_, ?_⟩, rfl, rfl⟩
  · intro i h
    simp only [h₁, Ept.zero, Vector.getElem_set, Vector.getElem_replicate, eq_comm]
  · intro i h
    simp only [h₂, Ept.zero, Vector.getElem_set, Vector.getElem_replicate]
    rcases (by omega : i = 0 ∨ i = 1 ∨ i = 2 ∨ i = 3 ∨ 4 ≤ i) with rfl | rfl | rfl | rfl | h4
    · rfl
    · rfl
    · rfl
    · rfl
    · rw [if_neg (by omega), if_neg (by omega), if_neg (by omega), if_neg (by omega),
        if_neg (by omega)]

/-! ## Faults insert frames

A fault links the tables above the frame, if they are not linked yet, and maps the frame. That is
one insertion, and a run of faults is the union of them. -/

/-- The addresses a fault is accepted at: outside the VMM and below 4 GiB. -/
def Allowed (img : Image) (g : BitVec 64) : Prop := ¬img.Owns g.toNat ∧ g.toNat < 2 ^ 32

instance (img : Image) (g : BitVec 64) : Decidable (Allowed img g) :=
  inferInstanceAs (Decidable (_ ∧ _))

/-- Storing the leaf of a frame adds it to the frames mapped. -/
theorem Ept.Maps.insert {s : Ept} {F : Finset ℕ} (hm : s.Maps F) {j : ℕ} (hj : j < 4 * 512) :
    Ept.Maps { s with eptPd := s.eptPd.set j (leafEntry j) hj } (insert j F) := by
  intro i h
  simp only [Vector.getElem_set, Finset.mem_insert]
  by_cases hij : j = i
  · subst hij
    rw [if_pos rfl, if_pos (Or.inl rfl)]
  · rw [if_neg hij, hm i h]
    by_cases hF : i ∈ F
    · rw [if_pos hF, if_pos (Or.inr hF)]
    · rw [if_neg hF, if_neg (by rintro (rfl | h') <;> contradiction)]

/-- **One call**: refused inside the VMM and from 4 GiB on, and otherwise the
arrays gain exactly the frame of the faulting address. -/
theorem handleEptViolation_ofFrames (F : Finset ℕ) (g : BitVec 64) :
    handleEptViolation img (Ept.ofFrames img F) g =
      if img.Owns g.toNat then .error (.panic "cannot write into VMM\n")
      else if 2 ^ 32 ≤ g.toNat then
        .error (.panic "cannot write to physmem higher than 4G\n")
      else .ok (Ept.ofFrames img (insert (frame g) F)) := by
  unfold handleEptViolation
  by_cases hown : img.Owns g.toNat
  · have hcond : img.start ≤ g ∧ g < img.stop := hown
    rw [if_pos hown, if_pos hcond]
    rfl
  have hcond : ¬(img.start ≤ g ∧ g < img.stop) := hown
  rw [if_neg hown, if_neg hcond]
  by_cases hbig : 2 ^ 32 ≤ g.toNat
  · have hge : g ≥ sz4G := hbig
    rw [if_pos hbig, if_pos hge]
    rfl
  have hge : ¬g ≥ sz4G := hbig
  rw [if_neg hbig, if_neg hge]
  have hfr : frame g < 4 * 512 := by
    unfold frame
    omega
  have hne : insert (frame g) F ≠ ∅ := Finset.insert_ne_empty _ _
  rw [frame_toNat_div, and_not_sz2M]
  change (do
    let s ← if (Ept.ofFrames img F).initialized then pure (Ept.ofFrames img F) else do
      let s ← linkUpper img (Ept.ofFrames img F)
      pure { s with initialized := true }
    let pd ← store s.eptPd (frame g) (leafEntry (frame g))
    return { s with eptPd := pd }) = _
  by_cases hF : F = ∅
  · -- the first fault links the upper levels
    subst hF
    obtain ⟨s', hlink, hl, hpd, -⟩ := linkUpper_eq_ok img Ept.zero rfl rfl
    have hm : Ept.Maps { s' with initialized := true } ∅ := by
      intro i h
      simp [hpd, Ept.zero]
    simp only [Ept.ofFrames_empty, hlink, store_of_lt _ _ hfr]
    exact congrArg Except.ok (Ept.eq_ofFrames hne ⟨hl.pml4, hl.pdpt⟩ (hm.insert hfr) rfl)
  · have hl := Ept.ofFrames_linked img hF
    simp only [Ept.ofFrames_initialized hF, store_of_lt _ _ hfr]
    exact congrArg Except.ok (Ept.eq_ofFrames hne ⟨hl.pml4, hl.pdpt⟩
      ((Ept.ofFrames_maps F).insert hfr) (Ept.ofFrames_initialized hF))

theorem handleEptViolation_ofFrames_eq_ok {F : Finset ℕ} {g : BitVec 64} {s : Ept} :
    handleEptViolation img (Ept.ofFrames img F) g = .ok s ↔
      Allowed img g ∧ s = Ept.ofFrames img (insert (frame g) F) := by
  rw [handleEptViolation_ofFrames, Allowed]
  by_cases hown : img.Owns g.toNat
  · simp [hown]
  rw [if_neg hown]
  by_cases hbig : 2 ^ 32 ≤ g.toNat
  · rw [if_pos hbig]
    constructor
    · intro h
      cases h
    · rintro ⟨⟨-, hlt⟩, -⟩
      omega
  · rw [if_neg hbig, Except.ok.injEq, eq_comm]
    exact ⟨fun h => ⟨⟨hown, Nat.lt_of_not_le hbig⟩, h⟩, fun h => h.2⟩

/-- The frames of a sequence of addresses, without order and repetition. -/
def frames (gs : List (BitVec 64)) : Finset ℕ := (gs.map frame).toFinset

theorem mem_frames {gs : List (BitVec 64)} {i : ℕ} :
    i ∈ frames gs ↔ ∃ g ∈ gs, frame g = i := by
  simp [frames]

/-- **Every sequence of calls**: accepted when every address is, and it leaves the
union of the frames. -/
theorem runSteps_handleEptViolation_iff {F : Finset ℕ} {gs : List (BitVec 64)} {s : Ept} :
    runSteps (handleEptViolation img) (Ept.ofFrames img F) gs = .ok s ↔
      (∀ g ∈ gs, Allowed img g) ∧ s = Ept.ofFrames img (F ∪ frames gs) := by
  induction gs generalizing F with
  | nil => simp [frames, eq_comm]
  | cons g gs ih =>
    rw [runSteps_cons_eq_ok]
    have hunion : F ∪ frames (g :: gs) = insert (frame g) F ∪ frames gs := by
      ext i
      simp only [frames, List.map_cons, List.toFinset_cons, Finset.mem_union,
        Finset.mem_insert]
      tauto
    rw [hunion]
    constructor
    · rintro ⟨s₁, h₁, h₂⟩
      obtain ⟨hg, rfl⟩ := handleEptViolation_ofFrames_eq_ok.mp h₁
      obtain ⟨hgs, rfl⟩ := ih.mp h₂
      exact ⟨List.forall_mem_cons.mpr ⟨hg, hgs⟩, rfl⟩
    · rintro ⟨hall, rfl⟩
      obtain ⟨hg, hgs⟩ := List.forall_mem_cons.mp hall
      exact ⟨_, handleEptViolation_ofFrames_eq_ok.mpr ⟨hg, rfl⟩, ih.mpr ⟨hgs, rfl⟩⟩

/-! ## Both walkers see the frames

An address below 4 GiB is translated to itself when its frame is in the set, and not at all when
it is not; above 4 GiB no frame exists. -/

section Walk

variable {s : Ept} {mem : BitVec 64 → BitVec 64} {F : Finset ℕ} {g : BitVec 64}

/-- The address of element `idx` of a table. -/
theorem toNat_entry {table idx : BitVec 64} (ht : table.toNat + 512 * 8 ≤ 2 ^ 52)
    (hi : idx.toNat < 512) : (table + idx * 8#64).toNat = table.toNat + idx.toNat * 8 := by
  rw [BitVec.toNat_add, BitVec.toNat_mul]
  simp only [BitVec.toNat_ofNat]
  omega

theorem toNat_index (g : BitVec 64) (k : ℕ) :
    ((g >>> k) &&& 0x1ff#64).toNat = g.toNat / 2 ^ k % 512 :=
  toNat_shiftRight_and_lowMask (n := 9) (by decide) g

theorem word_pml4 {idx : BitVec 64} (hi : idx.toNat < 512) :
    s.word img mem (img.eptPml4 + idx * 8#64) = s.eptPml4[idx.toNat] := by
  have hp := toNat_entry img.eptPml4_top hi
  rw [Ept.word, if_pos (by omega), hp,
    show (img.eptPml4.toNat + idx.toNat * 8 - img.eptPml4.toNat) / 8 = idx.toNat by omega]
  simp [Vector.getD, hi]

theorem word_pdpt {idx : BitVec 64} (hi : idx.toNat < 512) :
    s.word img mem (img.eptPdpt + idx * 8#64) = s.eptPdpt[idx.toNat] := by
  have hp := toNat_entry img.eptPdpt_top hi
  have h₁ := img.pml4_disjoint_pdpt
  rw [Ept.word, if_neg (by omega), if_pos (by omega), hp,
    show (img.eptPdpt.toNat + idx.toNat * 8 - img.eptPdpt.toNat) / 8 = idx.toNat by omega]
  simp [Vector.getD, hi]

/-- The address of page directory `j` of the four. -/
theorem toNat_pd (img : Image) {j : ℕ} (hj : j < 4) :
    (img.eptPd + BitVec.ofNat 64 (j * 512 * 8)).toNat = img.eptPd.toNat + j * 512 * 8 := by
  have ht := img.eptPd_top
  exact toNat_add_ofNat (by omega)

theorem word_pd {j : ℕ} (hj : j < 4) {idx : BitVec 64} (hi : idx.toNat < 512)
    (hlt : j * 512 + idx.toNat < 4 * 512) :
    s.word img mem (img.eptPd + BitVec.ofNat 64 (j * 512 * 8) + idx * 8#64) =
      s.eptPd[j * 512 + idx.toNat] := by
  have ht := img.eptPd_top
  have htop : (img.eptPd + BitVec.ofNat 64 (j * 512 * 8)).toNat + 512 * 8 ≤ 2 ^ 52 := by
    rw [toNat_pd img hj]
    omega
  have hp := toNat_entry htop hi
  rw [toNat_pd img hj] at hp
  have h₁ := img.pml4_disjoint_pd
  have h₂ := img.pdpt_disjoint_pd
  rw [Ept.word, if_neg (by omega), if_neg (by omega), if_pos (by omega), hp,
    show (img.eptPd.toNat + j * 512 * 8 + idx.toNat * 8 - img.eptPd.toNat) / 8 =
      j * 512 + idx.toNat by omega]
  simp [Vector.getD, hlt]

/-- The entry of a table that links the page-aligned table at `x`. -/
theorem linkEntry_facts {x : BitVec 64} (hx : x.toNat % 2 ^ 12 = 0) (hlt : x.toNat < 2 ^ 52) :
    (x ||| epteRwx) &&& epteRwx = epteRwx ∧ (x ||| epteRwx) &&& eptePse = 0#64 ∧
      (x ||| epteRwx) &&& 0x1#64 = 0x1#64 ∧
      (x ||| epteRwx) &&& 0x000ffffffffff000#64 = x ∧ (x ||| epteRwx) &&& ~~~0xfff#64 = x := by
  refine ⟨?_, ?_, ?_, ?_, ?_⟩
  · exact or_and_of_page hx (by decide)
  · exact or_and_of_page hx (by decide)
  · exact or_and_of_page hx (by decide)
  · exact or_and_addrMask_of_page hx hlt (by decide)
  · exact or_and_not_lowMask (k := 12) (by decide) hx (by decide)

/-- Both walkers meet the same three entries. The level-4 and level-3 entries link
the next table when the index is that of the low 4 GiB and are zero otherwise. -/
theorem linked_pml4 (mem : BitVec 64 → BitVec 64) (hl : s.Linked img) (g : BitVec 64) :
    s.word img mem (img.eptPml4 + ((g >>> 39) &&& 0x1ff#64) * 8#64) =
      if g.toNat / 2 ^ 39 % 512 = 0 then img.eptPdpt ||| epteRwx else 0#64 := by
  have hi : ((g >>> 39) &&& 0x1ff#64).toNat < 512 := by
    rw [toNat_index]
    exact Nat.mod_lt _ (by decide)
  rw [word_pml4 hi, hl.pml4 _ hi, toNat_index]

theorem linked_pdpt (mem : BitVec 64 → BitVec 64) (hl : s.Linked img) (g : BitVec 64) :
    s.word img mem (img.eptPdpt + ((g >>> 30) &&& 0x1ff#64) * 8#64) =
      if g.toNat / 2 ^ 30 % 512 < 4 then
        (img.eptPd + BitVec.ofNat 64 (g.toNat / 2 ^ 30 % 512 * 512 * 8)) ||| epteRwx
      else 0#64 := by
  have hi : ((g >>> 30) &&& 0x1ff#64).toNat < 512 := by
    rw [toNat_index]
    exact Nat.mod_lt _ (by decide)
  rw [word_pdpt hi, hl.pdpt _ hi, toNat_index]

theorem maps_pd (img : Image) (mem : BitVec 64 → BitVec 64) (hm : s.Maps F)
    (hlt : g.toNat < 2 ^ 32) :
    s.word img mem (img.eptPd + BitVec.ofNat 64 (g.toNat / 2 ^ 30 % 512 * 512 * 8) +
      ((g >>> 21) &&& 0x1ff#64) * 8#64) = if frame g ∈ F then leafEntry (frame g) else 0#64 := by
  have hi : ((g >>> 21) &&& 0x1ff#64).toNat < 512 := by
    rw [toNat_index]
    exact Nat.mod_lt _ (by decide)
  have hidx : g.toNat / 2 ^ 30 % 512 * 512 + ((g >>> 21) &&& 0x1ff#64).toNat = frame g := by
    rw [toNat_index, frame]
    omega
  have hfr : frame g < 4 * 512 := by
    unfold frame
    omega
  rw [word_pd (by omega) hi (by omega)]
  simp only [hidx]
  exact hm _ hfr

/-- The leaf of a frame and the offset into it make up the address. -/
theorem leafEntry_or_offset {m : BitVec 64}
    (hm : leafEntry (frame g) &&& m = BitVec.ofNat 64 (frame g * 2 ^ 21)) :
    (leafEntry (frame g) &&& m) ||| (g &&& lowMask 64 21) = g := by
  rw [hm, ← and_not_sz2M]
  exact and_not_or_and g (lowMask 64 21)

theorem frame_lt (hlt : g.toNat < 2 ^ 32) : frame g < 4 * 512 := by
  unfold frame
  omega

/-- The walk stops at a zero entry. -/
theorem eptWalk_absent {rd : BitVec 64 → BitVec 64} {shift : ℕ} {rest : List ℕ}
    {table perm : BitVec 64} (h : rd (table + ((g >>> shift) &&& 0x1ff#64) * 8#64) = 0#64) :
    eptWalk rd g (shift :: rest) table perm = none := by
  rw [eptWalk, h]
  exact if_pos (by decide)

/-- The walk descends through an entry that links a table. -/
theorem eptWalk_link {rd : BitVec 64 → BitVec 64} {shift : ℕ} {rest : List ℕ}
    {table x : BitVec 64}
    (h : rd (table + ((g >>> shift) &&& 0x1ff#64) * 8#64) = x ||| epteRwx)
    (hx : x.toNat % 2 ^ 12 = 0) (hlt : x.toNat < 2 ^ 52) (hrest : rest ≠ []) :
    eptWalk rd g (shift :: rest) table epteRwx = eptWalk rd g rest x epteRwx := by
  obtain ⟨h₁, h₂, -, h₄, -⟩ := linkEntry_facts hx hlt
  rw [eptWalk, h]
  simp only [BitVec.and_comm epteRwx, h₁, h₂, h₄]
  rw [if_neg (by decide), if_neg hrest, if_neg (by simp)]

/-- The walk ends at the 2 MiB leaf of a frame. -/
theorem eptWalk_leaf {rd : BitVec 64 → BitVec 64} {table : BitVec 64}
    (h : rd (table + ((g >>> 21) &&& 0x1ff#64) * 8#64) = leafEntry (frame g))
    (hlt : g.toNat < 2 ^ 32) :
    eptWalk rd g [21, 12] table epteRwx = some ⟨g, epteRwx, 21⟩ := by
  have hfr := frame_lt hlt
  have hmask : leafEntry (frame g) &&& (0x000ffffffffff000#64 &&& ~~~lowMask 64 21) =
      BitVec.ofNat 64 (frame g * 2 ^ 21) := by
    rw [← BitVec.and_assoc, leafEntry_and_addrMask hfr]
    exact and_not_lowMask_of_aligned (by decide) (by rw [toNat_frameBase hfr]; omega)
  rw [eptWalk, h]
  simp only [BitVec.and_comm epteRwx, leafEntry_and_low hfr (by decide : epteRwx.toNat < 2 ^ 12),
    leafEntry_and_low hfr (by decide : eptePse.toNat < 2 ^ 12), BitVec.and_assoc,
    leafEntry_or_offset hmask]
  rfl

/-- **The processor's walk** over linked arrays: an address below 4 GiB whose frame
is mapped goes to itself with all rights through a 2 MiB leaf, and no other
address of the 48-bit range is mapped. -/
theorem eptTranslate_of_maps (hl : s.Linked img) (hm : s.Maps F) (hg : g.toNat < 2 ^ 48) :
    eptTranslate (s.word img mem) img.eptPml4 g =
      if g.toNat < 2 ^ 32 ∧ frame g ∈ F then some ⟨g, epteRwx, 21⟩ else none := by
  have htop := img.eptPdpt_top
  have htop' := img.eptPd_top
  have hpml4 := linked_pml4 mem hl g
  have hpdpt := linked_pdpt mem hl g
  by_cases h4 : g.toNat / 2 ^ 39 % 512 = 0
  · rw [if_pos h4] at hpml4
    rw [eptTranslate, eptWalk_link hpml4 img.eptPdpt_aligned (by omega) (by simp)]
    by_cases h3 : g.toNat / 2 ^ 30 % 512 < 4
    · have hlt : g.toNat < 2 ^ 32 := by omega
      have hj := toNat_pd img h3
      have hpd := maps_pd img mem hm hlt
      have halign := img.eptPd_aligned
      rw [if_pos h3] at hpdpt
      rw [eptWalk_link hpdpt (by rw [hj]; omega) (by rw [hj]; omega) (by simp)]
      by_cases hF : frame g ∈ F
      · rw [if_pos hF] at hpd
        rw [eptWalk_leaf hpd hlt, if_pos ⟨hlt, hF⟩]
      · rw [if_neg hF] at hpd
        rw [eptWalk_absent hpd, if_neg (fun h => hF h.2)]
    · rw [if_neg h3] at hpdpt
      rw [eptWalk_absent hpdpt, if_neg (by omega)]
  · rw [if_neg h4] at hpml4
    rw [eptTranslate, eptWalk_absent hpml4, if_neg (by omega)]

/-- Before the first fault nothing is mapped. -/
theorem eptTranslate_zero :
    eptTranslate (Ept.zero.word img mem) img.eptPml4 g = none := by
  have hi : ((g >>> 39) &&& 0x1ff#64).toNat < 512 := by
    rw [toNat_index]
    exact Nat.mod_lt _ (by decide)
  rw [eptTranslate, eptWalk, word_pml4 hi]
  simp [Ept.zero]

theorem eptTranslate_ofFrames (hg : g.toNat < 2 ^ 48) :
    eptTranslate ((Ept.ofFrames img F).word img mem) img.eptPml4 g =
      if g.toNat < 2 ^ 32 ∧ frame g ∈ F then some ⟨g, epteRwx, 21⟩ else none := by
  by_cases hF : F = ∅
  · subst hF
    rw [Ept.ofFrames_empty, eptTranslate_zero, if_neg (by simp)]
  · exact eptTranslate_of_maps (Ept.ofFrames_linked img hF) (Ept.ofFrames_maps F) hg

/-- **The software walk** of `vmx.c` over linked arrays reaches the leaf of a
mapped frame without tripping an assertion and returns the address itself. -/
theorem gpa2hpa_of_maps (hl : s.Linked img) (hm : s.Maps F) (hlt : g.toNat < 2 ^ 32)
    (hF : frame g ∈ F) : gpa2hpa (s.word img mem) img.eptPml4 g = .ok g := by
  have htop := img.eptPdpt_top
  have htop' := img.eptPd_top
  have h4 : g.toNat / 2 ^ 39 % 512 = 0 := by omega
  have h3 : g.toNat / 2 ^ 30 % 512 < 4 := by omega
  have hj := toNat_pd img h3
  have hfr := frame_lt hlt
  obtain ⟨-, h42, h43, -, h45⟩ := linkEntry_facts img.eptPdpt_aligned (by omega)
  obtain ⟨-, h32, h33, -, h35⟩ := linkEntry_facts
    (x := img.eptPd + BitVec.ofNat 64 (g.toNat / 2 ^ 30 % 512 * 512 * 8))
    (by rw [hj]; have := img.eptPd_aligned; omega) (by rw [hj]; omega)
  have hpse : (1#64 <<< 7 : BitVec 64) = eptePse := by decide
  have hmask : leafEntry (frame g) &&& masks 2 = BitVec.ofNat 64 (frame g * 2 ^ 21) := by
    rw [leafEntry_eq]
    exact or_and_not_lowMask (k := 21) (by decide) (by rw [toNat_frameBase hfr]; omega) (by decide)
  have hnot : ~~~masks 2 = lowMask 64 21 := by decide
  rw [gpa2hpa, levels, gpa2hpaLoop]
  simp only [shifts, linked_pml4 mem hl, if_pos h4, hpse, h42, h43, h45]
  rw [gpa2hpaLoop]
  simp only [shifts, linked_pdpt mem hl, if_pos h3, hpse, h32, h33, h35]
  rw [gpa2hpaLoop]
  simp only [shifts, maps_pd img mem hm hlt, if_pos hF, hpse, hnot, leafEntry_or_offset hmask,
    leafEntry_and_low hfr (by decide : (0x1#64 : BitVec 64).toNat < 2 ^ 12),
    leafEntry_and_low hfr (by decide : eptePse.toNat < 2 ^ 12)]
  rfl

end Walk

end Lvisor
