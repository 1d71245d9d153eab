import Lvisor.Machine

/-!
# Numbering of the CPUs

`acpi_register_lapic` gives each local APIC of the MADT a logical CPU id; 0 is reserved for the
boot CPU. A slot that is not in use holds `BAD_APICID`, which an x2APIC may have as its id.

* `acpiRegisterLapic_cases` — what one registration can do to the slots in use;
* `registerAll_slots` — what a run leaves behind slot 0: the ids registered, less the boot id and
  less what was taken for the content of slot 0 before the boot id came;
* `numbered_iff` — the ids are numbered as they should be exactly when `BAD_APICID` is not
  registered only before the boot id.
-/

namespace Lvisor

/-- `BAD_APICID`, which stands in a slot without an id. -/
abbrev badApicid : BitVec 32 := 0xffff#32

/-- `nr_logical_cpuids` and `cpuid_to_apicid`, with at least one slot in use and no more than
there are. -/
structure CpuIds (nrCpus : ℕ) where
  nrLogicalCpuids : ℕ
  cpuidToApicid : Vector (BitVec 32) nrCpus
  nr_pos : 0 < nrLogicalCpuids
  nr_le : nrLogicalCpuids ≤ nrCpus

namespace CpuIds

variable {nrCpus : ℕ}

/-- Their initial values: the slot 0 is kept for the boot CPU. -/
def init (h : 1 ≤ nrCpus) : CpuIds nrCpus where
  nrLogicalCpuids := 1
  cpuidToApicid := Vector.replicate _ badApicid
  nr_pos := Nat.one_pos
  nr_le := h

/-- The slots in use, in their order. -/
def slots (c : CpuIds nrCpus) : List (BitVec 32) :=
  c.cpuidToApicid.toList.take c.nrLogicalCpuids

/-- `cpuid_to_apicid[0]`, the slot of the boot CPU. -/
def bsp (c : CpuIds nrCpus) : BitVec 32 :=
  c.cpuidToApicid.get ⟨0, c.nr_pos.trans_le c.nr_le⟩

/-- `acpi_register_lapic`: the number for an id, a new one or one that it has. -/
def acpiRegisterLapic (bootCpuPhysicalApicid : BitVec 32) (c : CpuIds nrCpus)
    (apicid : BitVec 32) (enabled : BitVec 8) : Exec (CpuIds nrCpus) :=
  if enabled = 0 then
    .error (.panic "no CPU hotplug support\n")
  else if apicid = bootCpuPhysicalApicid then
    .ok { c with
      cpuidToApicid := c.cpuidToApicid.set 0 apicid (c.nr_pos.trans_le c.nr_le) }
  else if apicid ∈ c.slots then
    .ok c
  else if h : c.nrLogicalCpuids ≥ nrCpus then
    .error (.panic ("NR_CPUS limit of " ++ toString c.nrLogicalCpuids ++ " reached\n"))
  else
    .ok {
      nrLogicalCpuids := c.nrLogicalCpuids + 1
      cpuidToApicid := c.cpuidToApicid.set c.nrLogicalCpuids apicid (Nat.not_le.mp h)
      nr_pos := Nat.succ_pos _
      nr_le := Nat.not_le.mp h }

end CpuIds

/-- An entry of the MADT for a local APIC. -/
inductive MadtEntry where
  /-- `struct acpi_madt_local_apic` -/
  | localApic (id : BitVec 8) (lapicFlags : BitVec 32)
  /-- `struct acpi_madt_local_x2apic` -/
  | localX2apic (localApicId : BitVec 32) (lapicFlags : BitVec 32)
  deriving DecidableEq, Repr

/-- The id of a local APIC, as an `int`. -/
def MadtEntry.apicid : MadtEntry → BitVec 32
  | .localApic id _ => id.setWidth 32
  | .localX2apic localApicId _ => localApicId

/-- `enabled`: `lapic_flags & ACPI_MADT_ENABLED`, as a `uint8_t`. -/
def MadtEntry.enabled : MadtEntry → BitVec 8
  | .localApic _ lapicFlags => (lapicFlags &&& 1).setWidth 8
  | .localX2apic _ lapicFlags => (lapicFlags &&& 1).setWidth 8

namespace CpuIds

variable {nrCpus : ℕ} {boot : BitVec 32}

/-- The calls that `acpi_parse_lapic` and `acpi_parse_x2apic` make, entry by entry. -/
def registerAll (bootCpuPhysicalApicid : BitVec 32) :
    List MadtEntry → CpuIds nrCpus → Exec (CpuIds nrCpus)
  | [], c => return c
  | entry :: entries, c => do
    let c ← acpiRegisterLapic bootCpuPhysicalApicid c entry.apicid entry.enabled
    registerAll bootCpuPhysicalApicid entries c

/-- The numbering of `apic_init`: all entries of the MADT, and then the check for the boot CPU. -/
def apicInitCpus (h : 1 ≤ nrCpus) (bootCpuPhysicalApicid : BitVec 32)
    (entries : List MadtEntry) : Exec (CpuIds nrCpus) := do
  let c ← registerAll bootCpuPhysicalApicid entries (init h)
  if c.bsp ≠ bootCpuPhysicalApicid then
    throw (.panic "BIOS bug: boot cpu not detected!\n")
  return c

/-- The ids as they should be numbered: the boot id in slot 0, and each id that was registered
in one slot. -/
structure Numbered (boot : BitVec 32) (ids : List (BitVec 32)) (c : CpuIds nrCpus) : Prop where
  nr_le : c.nrLogicalCpuids ≤ nrCpus
  bsp_eq : c.bsp = boot
  nodup : c.slots.Nodup
  mem_iff : ∀ id, id ∈ c.slots ↔ id ∈ ids

/-! ## One registration -/

theorem slots_eq_cons (c : CpuIds nrCpus) : ∃ rest, c.slots = c.bsp :: rest := by
  have hpos : 0 < c.slots.length := by
    rw [slots, List.length_take, Vector.length_toList]
    exact Nat.lt_min.mpr ⟨c.nr_pos, c.nr_pos.trans_le c.nr_le⟩
  obtain ⟨b, rest, hslots⟩ := List.exists_cons_of_length_pos hpos
  have hhead : c.slots[0] = c.bsp := by
    simp [slots, bsp, Vector.get]
  refine ⟨rest, ?_⟩
  rw [← hhead]
  simp [hslots]

/-- **One registration**: the boot id goes to slot 0, an id that is in use changes nothing, and
any other id gets a new slot. -/
theorem acpiRegisterLapic_cases {c c' : CpuIds nrCpus} {id : BitVec 32} {enabled : BitVec 8}
    (h : acpiRegisterLapic boot c id enabled = .ok c') :
    (id = boot ∧ c'.slots = c.slots.set 0 boot) ∨
    (id ≠ boot ∧ id ∈ c.slots ∧ c' = c) ∨
    (id ≠ boot ∧ id ∉ c.slots ∧ c'.slots = c.slots ++ [id]) := by
  unfold acpiRegisterLapic at h
  split at h
  · cases h
  split at h
  · rename_i hboot
    obtain rfl := Except.ok.inj h
    refine .inl ⟨hboot, ?_⟩
    rw [slots, slots, Vector.toList_set, List.take_set, hboot]
  rename_i hboot
  split at h
  · rename_i hmem
    exact .inr (.inl ⟨hboot, hmem, (Except.ok.inj h).symm⟩)
  rename_i hmem
  split at h
  · cases h
  rename_i hlt
  obtain rfl := Except.ok.inj h
  refine .inr (.inr ⟨hboot, hmem, ?_⟩)
  have hlen : c.nrLogicalCpuids < c.cpuidToApicid.toList.length := by
    rw [Vector.length_toList]
    exact Nat.not_le.mp hlt
  rw [slots, slots, Vector.toList_set, List.take_add_one, List.take_set_of_le (Nat.le_refl _),
    List.getElem?_set_self hlen]
  rfl

/-! ## Runs

The slots after a run depend on its history in one point only: an id that slot 0 holds before the
boot CPU is found counts as registered already. Slot 0 holds `BAD_APICID` until then. -/

/-- **Registration of all entries**: slot 0 has the boot id once it has been registered. Behind
it come the other ids, each in one slot; an id that equals the content of slot 0 counts from the
boot id on only. -/
theorem registerAll_slots {entries : List MadtEntry} {c c' : CpuIds nrCpus} {b : BitVec 32}
    {rest : List (BitVec 32)} (h : registerAll boot entries c = .ok c')
    (hslots : c.slots = b :: rest) (hnodup : rest.Nodup) (hboot : boot ∉ rest) :
    ∃ rest', c'.slots = (if boot ∈ entries.map MadtEntry.apicid then boot else b) :: rest' ∧
      rest'.Nodup ∧ boot ∉ rest' ∧
      ∀ id, id ∈ rest' ↔ id ∈ rest ∨ id ≠ boot ∧ id ∈ entries.map MadtEntry.apicid ∧
        (id = b → id ∈ (entries.map MadtEntry.apicid).dropWhile (· ≠ boot)) := by
  induction entries generalizing c b rest with
  | nil =>
    obtain rfl := Except.ok.inj h
    exact ⟨rest, by simpa using hslots, hnodup, hboot, by simp⟩
  | cons entry entries ih =>
    obtain ⟨c₁, hstep, hrun⟩ := Exec.bind_eq_ok.mp h
    rw [List.map_cons]
    obtain ⟨hid, hslots₁⟩ | ⟨hid, hmem, rfl⟩ | ⟨hid, hmem, hslots₁⟩ :=
      acpiRegisterLapic_cases hstep
    · -- the boot id: from here on slot 0 is not mistaken for another id
      rw [hslots, List.set_cons_zero] at hslots₁
      obtain ⟨rest', hslots', hnodup', hboot', hmem'⟩ := ih hrun hslots₁ hnodup hboot
      refine ⟨rest', by simpa [hid] using hslots', hnodup', hboot', fun id => ?_⟩
      rw [hmem' id, List.dropWhile_cons_of_neg (by simp [hid])]
      grind
    · obtain ⟨rest', hslots', hnodup', hboot', hmem'⟩ := ih hrun hslots hnodup hboot
      refine ⟨rest', by simpa [Ne.symm hid] using hslots', hnodup', hboot', fun id => ?_⟩
      have hsub : id ∈ (entries.map MadtEntry.apicid).dropWhile (· ≠ boot) →
          id ∈ entries.map MadtEntry.apicid := (List.dropWhile_sublist _).mem
      rw [hslots, List.mem_cons] at hmem
      rw [hmem' id, List.dropWhile_cons_of_pos (by simp [hid]), List.mem_cons]
      clear ih hslots' hrun hstep h
      grind
    · rw [hslots, List.cons_append] at hslots₁
      rw [hslots] at hmem
      obtain ⟨rest', hslots', hnodup', hboot', hmem'⟩ := ih hrun hslots₁
        (by grind) (by grind)
      refine ⟨rest', by simpa [Ne.symm hid] using hslots', hnodup', hboot', fun id => ?_⟩
      rw [hmem' id, List.dropWhile_cons_of_pos (by simp [hid])]
      grind

/-- The slots after a run of `acpi_register_lapic` from the initial state. -/
theorem registerAll_init_slots (hn : 1 ≤ nrCpus) {entries : List MadtEntry} {c : CpuIds nrCpus}
    (h : registerAll boot entries (init hn) = .ok c) :
    ∃ rest, c.slots = c.bsp :: rest ∧
      c.bsp = (if boot ∈ entries.map MadtEntry.apicid then boot else badApicid) ∧
      rest.Nodup ∧ boot ∉ rest ∧
      ∀ id, id ∈ rest ↔ id ≠ boot ∧ id ∈ entries.map MadtEntry.apicid ∧
        (id = badApicid → id ∈ (entries.map MadtEntry.apicid).dropWhile (· ≠ boot)) := by
  have hinit : (init hn).slots = [badApicid] := by
    rw [slots, init, Vector.toList_replicate, List.take_replicate, Nat.min_eq_left hn]
    rfl
  obtain ⟨rest, hslots, hnodup, hboot, hmem⟩ :=
    registerAll_slots h hinit List.nodup_nil List.not_mem_nil
  obtain ⟨rest', hbsp⟩ := c.slots_eq_cons
  obtain ⟨hhead, rfl⟩ := List.cons.inj (hbsp.symm.trans hslots)
  exact ⟨rest', hbsp, hhead, hnodup, hboot, fun id => by simpa using hmem id⟩

/-- The check of `apic_init` finds a boot id that is missing in the MADT, unless it is
`BAD_APICID`. -/
theorem apicInitCpus_eq_ok (hn : 1 ≤ nrCpus) {entries : List MadtEntry} {c : CpuIds nrCpus} :
    apicInitCpus hn boot entries = .ok c ↔
      registerAll boot entries (init hn) = .ok c ∧
        (boot ∈ entries.map MadtEntry.apicid ∨ boot = badApicid) := by
  unfold apicInitCpus
  rw [Exec.bind_eq_ok]
  constructor
  · rintro ⟨c', hrun, hcheck⟩
    obtain ⟨rest, -, hbsp, -⟩ := registerAll_init_slots hn hrun
    by_cases hne : c'.bsp ≠ boot
    · rw [if_pos hne] at hcheck
      cases hcheck
    · rw [if_neg hne] at hcheck
      obtain rfl := Except.ok.inj hcheck
      refine ⟨hrun, ?_⟩
      by_contra! hmissing
      rw [if_neg hmissing.1] at hbsp
      exact hmissing.2 ((not_not.mp hne).symm.trans hbsp)
  · rintro ⟨hrun, hboot⟩
    obtain ⟨rest, -, hbsp, -⟩ := registerAll_init_slots hn hrun
    refine ⟨c, hrun, if_neg (not_not.mpr ?_)⟩
    rw [hbsp]
    split
    · rfl
    · rename_i hmissing
      exact (hboot.resolve_left hmissing).symm

/-- **Numbering of the CPUs**: in a run that does not panic and has the boot id, the ids are
numbered as they should be exactly when `BAD_APICID` is not registered, or is registered at the
boot id or after it. -/
theorem numbered_iff (hn : 1 ≤ nrCpus) {entries : List MadtEntry} {c : CpuIds nrCpus}
    (h : registerAll boot entries (init hn) = .ok c) (hboot : boot ∈ entries.map MadtEntry.apicid) :
    c.Numbered boot (entries.map MadtEntry.apicid) ↔
      (badApicid ∈ entries.map MadtEntry.apicid →
        badApicid ∈ (entries.map MadtEntry.apicid).dropWhile (· ≠ boot)) := by
  obtain ⟨rest, hslots, hbsp, hnodup, hrest, hmem⟩ := registerAll_init_slots hn h
  rw [if_pos hboot] at hbsp
  have hfirst : boot ∈ (entries.map MadtEntry.apicid).dropWhile (· ≠ boot) := by
    rw [← List.takeWhile_append_dropWhile (p := (· ≠ boot))
      (l := entries.map MadtEntry.apicid)] at hboot
    rcases List.mem_append.mp hboot with hin | hin
    · have hne := List.all_eq_true.mp List.all_takeWhile boot hin
      exact absurd rfl (of_decide_eq_true hne)
    · exact hin
  constructor
  · intro hnum hbad
    by_cases hb : badApicid = boot
    · rw [hb]
      exact hfirst
    · have hin := (hnum.mem_iff badApicid).mpr hbad
      rw [hslots, hbsp] at hin
      have hin' := (List.mem_cons.mp hin).resolve_left hb
      exact ((hmem badApicid).mp hin').2.2 rfl
  · intro hkept
    refine ⟨c.nr_le, hbsp, ?_, fun id => ?_⟩
    · rw [hslots, hbsp]
      exact List.nodup_cons.mpr ⟨hrest, hnodup⟩
    · rw [hslots, hbsp, List.mem_cons, hmem]
      by_cases hid : id = boot
      · exact iff_of_true (.inl hid) (hid ▸ hboot)
      · constructor
        · rintro (h | ⟨-, h, -⟩)
          · exact absurd h hid
          · exact h
        · exact fun h => .inr ⟨hid, h, fun hb => by subst hb; exact hkept h⟩

/-- Three local APICs, the boot CPU's is the second; one is listed twice. -/
def threeLapics : List MadtEntry :=
  [.localX2apic 0x100 1, .localApic 0 1, .localX2apic 0xffff 1, .localX2apic 0x100 1]

theorem numbered_iff_threeLapics :
    ∃ c : CpuIds 4, registerAll 0 threeLapics (init (by decide)) = .ok c ∧
      c.Numbered 0 [0x100, 0, 0xffff, 0x100] ∧ c.slots = [0, 0x100, 0xffff] := by
  obtain ⟨c, hrun, hslots⟩ := Exec.exists_of_any
    (x := registerAll 0 threeLapics (init (by decide) : CpuIds 4))
    (p := fun c => c.slots = [0, 0x100, 0xffff]) (by decide +kernel)
  exact ⟨c, hrun, (numbered_iff (by decide) hrun (by decide)).mpr (by decide),
    of_decide_eq_true hslots⟩

/-- An x2APIC with the id `BAD_APICID` in front of the boot CPU. -/
def badLapics : List MadtEntry :=
  [.localX2apic 0xffff 1, .localApic 0 1]

/-- It is taken for the content of slot 0, and lost. -/
theorem not_numbered_badLapics :
    ∃ c : CpuIds 4, registerAll 0 badLapics (init (by decide)) = .ok c ∧
      0 ∈ badLapics.map MadtEntry.apicid ∧
      ¬c.Numbered 0 (badLapics.map MadtEntry.apicid) := by
  obtain ⟨c, hrun, hslots⟩ := Exec.exists_of_any
    (x := registerAll 0 badLapics (init (by decide) : CpuIds 4))
    (p := fun c => c.slots = [0]) (by decide +kernel)
  refine ⟨c, hrun, by decide, fun hnum => ?_⟩
  have hin : 0xffff ∈ c.slots := (hnum.mem_iff 0xffff).mpr (by decide)
  rw [of_decide_eq_true hslots] at hin
  exact absurd hin (by decide)

end CpuIds

end Lvisor
