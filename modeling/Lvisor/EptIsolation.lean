import Lvisor.EptFrames

/-!
# Isolation of the VMM, and the eager construction

Two results on the on-demand EPT, both over every sequence of faults, whatever the
guest-physical addresses:

* `Ept.isolated_of_run` — nothing the guest can reach through the EPT lies in
  `[_start, _end)`, mappings are never lost, and the walker of `vmx.c` agrees;
* `onDemand_refines_eager` — the on-demand tables refine the tables of
  `constructTdp`, reach them once every frame was touched, and depend on the set
  of the faulting addresses only.

The alignment of `_start` and `_end` is what turns the byte check of the handler
into a frame check: a frame with one byte outside an aligned range is disjoint
from the range.
-/

namespace Lvisor

variable {img : Image} (mem : BitVec 64 → BitVec 64)

/-- A frame with a byte outside an aligned image has none inside it. -/
theorem not_owns_of_frame (hal : img.Aligned) {g : BitVec 64} (hg : ¬img.Owns g.toNat) {a : ℕ}
    (ha : a / 2 ^ 21 = frame g) : ¬img.Owns a := by
  obtain ⟨hs, he⟩ := hal
  unfold frame at ha
  unfold Image.Owns at hg ⊢
  omega

/-! ## Isolation

The handler looks at the faulting address only, and maps the whole frame around it. That the
frame has no byte of the VMM follows from the alignment of the image, which is the fact that the
linker script provides. -/

/-- What holds of the arrays `s` after any sequence of faults. -/
structure Ept.Isolated (img : Image) (mem : BitVec 64 → BitVec 64) (s : Ept) : Prop where
  /-- a present leaf maps a 2 MiB frame to itself, and the frame has no byte of the VMM -/
  leaf : ∀ (g : BitVec 64) (m : EptMapping), g.toNat < 2 ^ 48 →
    eptTranslate (s.word img mem) img.eptPml4 g = some m →
      m.shift = 21 ∧ m.hpa = g ∧ ∀ a, a / 2 ^ 21 = frame g → ¬img.Owns a
  /-- a present leaf survives every later sequence of faults unchanged -/
  stable : ∀ (gs : List (BitVec 64)) (s' : Ept),
    runSteps (handleEptViolation img) s gs = .ok s' →
      ∀ (g : BitVec 64) (m : EptMapping), g.toNat < 2 ^ 48 →
        eptTranslate (s.word img mem) img.eptPml4 g = some m →
          eptTranslate (s'.word img mem) img.eptPml4 g = some m
  /-- no call stores outside an array -/
  inBounds : ∀ g : BitVec 64, handleEptViolation img s g ≠ .error .outOfBounds
  /-- right after a call the software walk returns the faulting address -/
  walk : ∀ (g : BitVec 64) (s' : Ept), handleEptViolation img s g = .ok s' →
    gpa2hpa (s'.word img mem) img.eptPml4 g = .ok g
  /-- a call is refused inside the VMM and from 4 GiB on, and only there -/
  panics_iff : ∀ g : BitVec 64,
    (∃ msg, handleEptViolation img s g = .error (.panic msg)) ↔
      img.Owns g.toNat ∨ 2 ^ 32 ≤ g.toNat

/-- A mapped address is below 4 GiB and its frame is in the set. -/
theorem eptTranslate_ofFrames_eq_some {F : Finset ℕ} {g : BitVec 64} {m : EptMapping}
    (hg : g.toNat < 2 ^ 48)
    (h : eptTranslate ((Ept.ofFrames img F).word img mem) img.eptPml4 g = some m) :
    g.toNat < 2 ^ 32 ∧ frame g ∈ F ∧ m = ⟨g, epteRwx, 21⟩ := by
  rw [eptTranslate_ofFrames hg] at h
  by_cases hc : g.toNat < 2 ^ 32 ∧ frame g ∈ F
  · rw [if_pos hc] at h
    exact ⟨hc.1, hc.2, (Option.some.inj h).symm⟩
  · rw [if_neg hc] at h
    cases h

/-- The frames of accepted addresses isolate the VMM. -/
theorem Ept.isolated_ofFrames (hal : img.Aligned) {gs : List (BitVec 64)}
    (hgs : ∀ g ∈ gs, Allowed img g) : (Ept.ofFrames img (frames gs)).Isolated img mem where
  leaf := by
    intro g m hg h
    obtain ⟨-, hF, rfl⟩ := eptTranslate_ofFrames_eq_some mem hg h
    obtain ⟨g', hg', hfr⟩ := mem_frames.mp hF
    exact ⟨rfl, rfl, fun a ha => not_owns_of_frame hal (hgs g' hg').1 (ha.trans hfr.symm)⟩
  stable := by
    intro hs s' hrun g m hg h
    obtain ⟨-, rfl⟩ := runSteps_handleEptViolation_iff.mp hrun
    obtain ⟨hlt, hF, rfl⟩ := eptTranslate_ofFrames_eq_some mem hg h
    rw [eptTranslate_ofFrames hg, if_pos ⟨hlt, Finset.mem_union_left _ hF⟩]
  inBounds := by
    intro g
    rw [handleEptViolation_ofFrames]
    split_ifs <;> simp
  walk := by
    intro g s' h
    obtain ⟨⟨-, hlt⟩, rfl⟩ := handleEptViolation_ofFrames_eq_ok.mp h
    exact gpa2hpa_of_maps (Ept.ofFrames_linked img (Finset.insert_ne_empty _ _))
      (Ept.ofFrames_maps _) hlt (Finset.mem_insert_self _ _)
  panics_iff := by
    intro g
    rw [handleEptViolation_ofFrames]
    split_ifs with h₁ h₂
    · simp [h₁]
    · simpa using Or.inr h₂
    · simpa [h₁] using h₂

/-- **VMM memory isolation**: every sequence of faults that is not refused, from
zeroed arrays, leaves the VMM isolated. -/
theorem Ept.isolated_of_run (hal : img.Aligned) {gs : List (BitVec 64)} {s : Ept}
    (hrun : runSteps (handleEptViolation img) Ept.zero gs = .ok s) : s.Isolated img mem := by
  rw [← Ept.ofFrames_empty img] at hrun
  obtain ⟨hgs, rfl⟩ := runSteps_handleEptViolation_iff.mp hrun
  rw [Finset.empty_union]
  exact Ept.isolated_ofFrames mem hal hgs

/-- Accepted addresses make an accepted run. -/
theorem exists_run_of_allowed {gs : List (BitVec 64)} (hgs : ∀ g ∈ gs, Allowed img g) :
    ∃ s, runSteps (handleEptViolation img) Ept.zero gs = .ok s := by
  rw [← Ept.ofFrames_empty img]
  exact ⟨_, runSteps_handleEptViolation_iff.mpr ⟨hgs, rfl⟩⟩

/-- A guest that touches low memory and both sides of the image: the run is
accepted, and what it leaves is isolated. -/
theorem Ept.isolated_of_run_around_image :
    ∃ s, runSteps (handleEptViolation vmmImage) Ept.zero
        [0x7c00#64, 0xfffffff#64, 0x10400000#64, 0x7c08#64] = .ok s ∧
      s.Isolated vmmImage (fun _ => 0#64) := by
  have hall : ∀ g ∈ [0x7c00#64, 0xfffffff#64, 0x10400000#64, 0x7c08#64],
      Allowed vmmImage g := by
    simp only [List.forall_mem_cons]
    exact ⟨by decide, by decide, by decide, by decide, by simp⟩
  obtain ⟨s, hrun⟩ := exists_run_of_allowed hall
  exact ⟨s, hrun, Ept.isolated_of_run (fun _ => 0#64) vmmImage_aligned hrun⟩

/-! ## The eager construction

`construct_tdp` maps every frame below 4 GiB that is outside of the image. The tables that faults
build on demand are a part of these at any time. -/

theorem sz2M_mul (i : ℕ) : sz2M * BitVec.ofNat 64 i ||| epteRwx ||| eptePse = leafEntry i := by
  have hmul : sz2M * BitVec.ofNat 64 i = BitVec.ofNat 64 (i * 2 ^ 21) := by
    rw [← BitVec.ofNat_mul, Nat.mul_comm]
    rfl
  rw [hmul, leafEntry]

/-- A loop of `construct_tdp` maps the frames it runs over. -/
theorem foldlM_mapLarge {l : List ℕ} (hl : ∀ i ∈ l, i < 4 * 512) (s : Ept) {F : Finset ℕ}
    (hm : s.Maps F) :
    ∃ pd, l.foldlM mapLarge s.eptPd = .ok pd ∧
      Ept.Maps { s with eptPd := pd } (F ∪ l.toFinset) := by
  induction l generalizing s F with
  | nil => exact ⟨s.eptPd, rfl, by simpa using hm⟩
  | cons i l ih =>
    obtain ⟨hi, hl'⟩ := List.forall_mem_cons.mp hl
    obtain ⟨pd, hpd, hm'⟩ :=
      ih hl' { s with eptPd := s.eptPd.set i (leafEntry i) hi } (hm.insert hi)
    refine ⟨pd, ?_, ?_⟩
    · rw [List.foldlM_cons, mapLarge, sz2M_mul, store_of_lt _ _ hi]
      exact hpd
    · rw [List.toFinset_cons, Finset.union_insert, ← Finset.insert_union]
      exact hm'

/-- The frames of `[0, 4G)` that have no byte of the image. -/
def outsideFrames (img : Image) : Finset ℕ :=
  (List.range' 0 (img.start.toNat / 2 ^ 21)).toFinset ∪
    (List.range' (img.stop.toNat / 2 ^ 21) (2048 - img.stop.toNat / 2 ^ 21)).toFinset

/-- `construct_tdp` succeeds on an aligned image below 4 GiB and maps exactly the
frames outside it. -/
theorem constructTdp_eq_ok (hal : img.Aligned) (htop : img.stop.toNat ≤ 2 ^ 32) :
    ∃ E, constructTdp img Ept.zero = .ok E ∧ E.Linked img ∧ E.Maps (outsideFrames img) := by
  obtain ⟨hs, he⟩ := hal
  have hle := img.start_le_stop
  have hs' : img.start % sz2M = 0 := by
    apply BitVec.eq_of_toNat_eq
    rw [BitVec.toNat_umod]
    exact hs
  have he' : img.stop % sz2M = 0 := by
    apply BitVec.eq_of_toNat_eq
    rw [BitVec.toNat_umod]
    exact he
  have hlow : (img.start / sz2M).toNat = img.start.toNat / 2 ^ 21 := BitVec.toNat_udiv
  have hhigh : (img.stop / sz2M).toNat = img.stop.toNat / 2 ^ 21 := BitVec.toNat_udiv
  obtain ⟨s', hlink, hl, hpd, -⟩ := linkUpper_eq_ok img Ept.zero rfl rfl
  have hm : s'.Maps ∅ := by
    intro i h
    simp [hpd, Ept.zero]
  obtain ⟨pd₁, hpd₁, hm₁⟩ := foldlM_mapLarge
    (l := List.range' 0 (img.start.toNat / 2 ^ 21)) (by simp; omega) s' hm
  obtain ⟨pd₂, hpd₂, hm₂⟩ := foldlM_mapLarge
    (l := List.range' (img.stop.toNat / 2 ^ 21) (2048 - img.stop.toNat / 2 ^ 21))
    (by simp; omega) { s' with eptPd := pd₁ } hm₁
  refine ⟨{ s' with eptPd := pd₂ }, ?_, ⟨hl.pml4, hl.pdpt⟩, ?_⟩
  · unfold constructTdp
    simp only [hs', he', hlow, hhigh, hlink]
    change (do
      let pd ← (List.range' 0 (img.start.toNat / 2 ^ 21)).foldlM mapLarge s'.eptPd
      let pd ← (List.range' (img.stop.toNat / 2 ^ 21)
        (2048 - img.stop.toNat / 2 ^ 21)).foldlM mapLarge pd
      pure { s' with eptPd := pd } : Exec Ept) = _
    rw [hpd₁]
    change (do
      let pd ← (List.range' (img.stop.toNat / 2 ^ 21)
        (2048 - img.stop.toNat / 2 ^ 21)).foldlM mapLarge pd₁
      pure { s' with eptPd := pd } : Exec Ept) = _
    rw [hpd₂]
    rfl
  · rw [Finset.empty_union] at hm₂
    exact hm₂

/-- The eager tables map an address exactly when a fault at it is accepted. -/
theorem mem_outsideFrames (hal : img.Aligned) (htop : img.stop.toNat ≤ 2 ^ 32) (g : BitVec 64) :
    (g.toNat < 2 ^ 32 ∧ frame g ∈ outsideFrames img) ↔ Allowed img g := by
  obtain ⟨hs, he⟩ := hal
  have hle := img.start_le_stop
  simp only [outsideFrames, Finset.mem_union, List.mem_toFinset, List.mem_range'_1, frame,
    Allowed, Image.Owns]
  omega

/-- **On-demand refines eager**: for every placement of the image below 4 GiB, and
every sequence of accepted faults. -/
theorem onDemand_refines_eager (hal : img.Aligned) (htop : img.stop.toNat ≤ 2 ^ 32) :
    ∃ E, constructTdp img Ept.zero = .ok E ∧
      ∀ (gs : List (BitVec 64)) (L : Ept),
        runSteps (handleEptViolation img) Ept.zero gs = .ok L →
        (∀ (g : BitVec 64) (m : EptMapping), g.toNat < 2 ^ 48 →
          eptTranslate (L.word img mem) img.eptPml4 g = some m →
            eptTranslate (E.word img mem) img.eptPml4 g = some m) ∧
        (∀ g : BitVec 64, g.toNat < 2 ^ 48 →
          ((∃ s', handleEptViolation img L g = .ok s') ↔
            (eptTranslate (E.word img mem) img.eptPml4 g).isSome)) ∧
        ((∀ g : BitVec 64, g.toNat < 2 ^ 48 →
            (eptTranslate (E.word img mem) img.eptPml4 g).isSome →
              ∃ g' ∈ gs, frame g' = frame g) →
          ∀ g : BitVec 64, g.toNat < 2 ^ 48 →
            eptTranslate (L.word img mem) img.eptPml4 g =
              eptTranslate (E.word img mem) img.eptPml4 g) ∧
        (∀ gs' : List (BitVec 64), (∀ g, g ∈ gs' ↔ g ∈ gs) →
          runSteps (handleEptViolation img) Ept.zero gs' = .ok L) := by
  obtain ⟨E, hE, hl, hm⟩ := constructTdp_eq_ok hal htop
  refine ⟨E, hE, fun gs L hrun => ?_⟩
  rw [← Ept.ofFrames_empty img] at hrun ⊢
  obtain ⟨hgs, rfl⟩ := runSteps_handleEptViolation_iff.mp hrun
  rw [Finset.empty_union] at hrun ⊢
  have hEg : ∀ g : BitVec 64, g.toNat < 2 ^ 48 →
      eptTranslate (E.word img mem) img.eptPml4 g =
        if Allowed img g then some ⟨g, epteRwx, 21⟩ else none := by
    intro g hg
    rw [eptTranslate_of_maps hl hm hg]
    exact if_congr (mem_outsideFrames hal htop g) rfl rfl
  -- a frame of the sequence has an accepted address, so all its addresses are accepted
  have hsub : ∀ g : BitVec 64, g.toNat < 2 ^ 32 → frame g ∈ frames gs → Allowed img g := by
    intro g hlt hF
    obtain ⟨g', hg', hfr⟩ := mem_frames.mp hF
    exact ⟨not_owns_of_frame hal (hgs g' hg').1 hfr.symm, hlt⟩
  refine ⟨?_, ?_, ?_, ?_⟩
  · intro g m hg h
    obtain ⟨hlt, hF, rfl⟩ := eptTranslate_ofFrames_eq_some mem hg h
    rw [hEg g hg, if_pos (hsub g hlt hF)]
  · intro g hg
    rw [hEg g hg]
    by_cases ha : Allowed img g
    · simpa [ha] using ⟨_, handleEptViolation_ofFrames_eq_ok.mpr ⟨ha, rfl⟩⟩
    · simpa [ha] using fun s' h => ha (handleEptViolation_ofFrames_eq_ok.mp h).1
  · intro hall g hg
    rw [hEg g hg, eptTranslate_ofFrames hg]
    refine if_congr ⟨fun h => hsub g h.1 h.2, fun ha => ⟨ha.2, ?_⟩⟩ rfl rfl
    exact mem_frames.mpr (hall g hg (by rw [hEg g hg, if_pos ha]; rfl))
  · intro gs' hmem
    refine runSteps_handleEptViolation_iff.mpr ⟨fun g hg => hgs g ((hmem g).mp hg), ?_⟩
    have hframes : frames gs' = frames gs := by
      ext i
      simp only [mem_frames, hmem]
    rw [hframes, Finset.empty_union]

/-- The image at `VMM_START` meets the hypotheses. -/
theorem onDemand_refines_eager_vmmImage :
    ∃ E, constructTdp vmmImage Ept.zero = .ok E ∧
      ∀ (gs : List (BitVec 64)) (L : Ept),
        runSteps (handleEptViolation vmmImage) Ept.zero gs = .ok L →
        ∀ g : BitVec 64, g.toNat < 2 ^ 48 →
          ((∃ s', handleEptViolation vmmImage L g = .ok s') ↔
            (eptTranslate (E.word vmmImage (fun _ => 0#64)) vmmImage.eptPml4 g).isSome) := by
  obtain ⟨E, hE, h⟩ := onDemand_refines_eager (fun _ => 0#64) vmmImage_aligned (by decide)
  exact ⟨E, hE, fun gs L hrun => (h gs L hrun).2.1⟩

end Lvisor
