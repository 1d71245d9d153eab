import Lvisor.Acpi

/-!
# The search for the RSDP (`acpica/tbxfroot.c`)

`acpi_find_root_pointer` scans two windows of the first megabyte for the root system description
pointer, the first kilobyte of the Extended BIOS Data Area and the addresses from 0xE0000 on, in
steps of 16 bytes.

* `ValidRsdp` — a structure that passes `acpi_tb_validate_rsdp`;
* `scan_eq` — the scan returns the first step of the window at which one starts;
* `acpiFindRootPointer_eq` — what the function returns: it takes the address at which the BIOS
  stores the segment of the EBDA for that segment;
* `rootPointer_found_iff` — when that makes no difference.
-/

namespace Lvisor

/-! ## The code -/

/-- `memcmp` of memory with some bytes, as far as it is looked at: whether the result is 0. -/
def memcmpEq (mem : Memory) : List (BitVec 8) → BitVec 64 → Exec Bool
  | [], _ => return true
  | c :: cs, p => do
    let c' ← load8 mem p
    if c' ≠ c then return false
    else memcmpEq mem cs (p + 1)

/-- `ACPI_SIG_RSDP`: the eight characters `"RSD PTR "`. -/
def acpiSigRsdp : List (BitVec 8) := [0x52, 0x53, 0x44, 0x20, 0x50, 0x54, 0x52, 0x20]

/-- `ACPI_EBDA_PTR_LOCATION`: where the BIOS keeps the segment of its data area. -/
abbrev acpiEbdaPtrLocation : BitVec 32 := 0x40e#32

/-- `ACPI_EBDA_WINDOW_SIZE`: how much of the data area is searched. -/
abbrev acpiEbdaWindowSize : ℕ := 1024

/-- `ACPI_HI_RSDP_WINDOW_BASE`: the second window starts here. -/
abbrev acpiHiRsdpWindowBase : BitVec 64 := 0xe0000#64

/-- `ACPI_HI_RSDP_WINDOW_SIZE`: it ends at 1 MiB. -/
abbrev acpiHiRsdpWindowSize : ℕ := 0x20000

/-- `ACPI_RSDP_SCAN_STEP`: the structure is aligned to this. -/
abbrev acpiRsdpScanStep : ℕ := 16

/-- `ACPI_RSDP_CHECKSUM_LENGTH`: the length of the first version of the structure. -/
abbrev acpiRsdpChecksumLength : BitVec 32 := 20#32

/-- `ACPI_RSDP_XCHECKSUM_LENGTH`: the length from revision 2 on. -/
abbrev acpiRsdpXchecksumLength : BitVec 32 := 36#32

/-- What `acpi_tb_validate_rsdp` returns: fine, no signature, or a wrong checksum. -/
inductive RsdpStatus where
  /-- `AE_OK` -/
  | ok
  /-- `AE_BAD_SIGNATURE` -/
  | badSignature
  /-- `AE_BAD_CHECKSUM` -/
  | badChecksum
  deriving DecidableEq, Repr

/-- `acpi_tb_validate_rsdp`; the revision is at 15. -/
def acpiTbValidateRsdp (mem : Memory) (rsdp : BitVec 64) : Exec RsdpStatus := do
  if !(← memcmpEq mem acpiSigRsdp rsdp) then
    return .badSignature
  else if (← acpiTbChecksum mem rsdp acpiRsdpChecksumLength) ≠ 0#8 then
    return .badChecksum
  else
    let revision ← load8 mem (rsdp + 15)
    if revision ≥ 2#8 then
      if (← acpiTbChecksum mem rsdp acpiRsdpXchecksumLength) ≠ 0#8 then
        return .badChecksum
      else return .ok
    else return .ok

/-- The loop of `acpi_tb_scan_memory_for_rsdp`, step by step; `none` is `NULL`. -/
def scanLoop (mem : Memory) (endAddress : BitVec 64) : ℕ → BitVec 64 → Exec (Option (BitVec 64))
  | 0, memRover => if memRover < endAddress then .error .outOfFuel else return none
  | fuel + 1, memRover =>
    if memRover < endAddress then do
      let status ← acpiTbValidateRsdp mem memRover
      if status = .ok then return some memRover
      else scanLoop mem endAddress fuel (memRover + BitVec.ofNat 64 acpiRsdpScanStep)
    else return none

/-- `acpi_tb_scan_memory_for_rsdp`: the first address of the window with a valid structure. -/
def acpiTbScanMemoryForRsdp (mem : Memory) (startAddress : BitVec 64) (length : ℕ) :
    Exec (Option (BitVec 64)) :=
  scanLoop mem (startAddress + BitVec.ofNat 64 length) (length / acpiRsdpScanStep) startAddress

/-- `acpi_find_root_pointer`: the address that it returns with `AE_OK`, or `AE_NOT_FOUND`. -/
def acpiFindRootPointer (mem : Memory) : Exec (Option (BitVec 64)) := do
  let physicalAddress := acpiEbdaPtrLocation
  let physicalAddress := physicalAddress <<< 4
  let tablePtr := physicalAddress.setWidth 64
  let memRover ←
    if physicalAddress > 0x400#32 then acpiTbScanMemoryForRsdp mem tablePtr acpiEbdaWindowSize
    else .ok none
  match memRover with
  | some memRover =>
    return some ((physicalAddress + (memRover - tablePtr).setWidth 32).setWidth 64)
  | none =>
    let tablePtr := acpiHiRsdpWindowBase
    let memRover ← acpiTbScanMemoryForRsdp mem tablePtr acpiHiRsdpWindowSize
    return memRover.map fun memRover => acpiHiRsdpWindowBase + (memRover - tablePtr)

/-! ## What should be found

The specification of the search: the first 16-byte step at which a valid structure begins, in the
EBDA first and then in the BIOS area. The EBDA is where the word at 0x40E says. -/

/-- A root system description pointer: the signature, the sum of the first 20 bytes, and from
revision 2 on that of all 36. -/
structure ValidRsdp (mem : Memory) (p : BitVec 64) : Prop where
  signature : ∀ i (h : i < acpiSigRsdp.length), mem (p + BitVec.ofNat 64 i) = acpiSigRsdp[i]
  checksum : byteSum mem p 20 = 0#8
  xchecksum : 2#8 ≤ mem (p + 15) → byteSum mem p 36 = 0#8

instance (mem : Memory) (p : BitVec 64) : Decidable (ValidRsdp mem p) :=
  decidable_of_iff ((∀ i (h : i < acpiSigRsdp.length),
      mem (p + BitVec.ofNat 64 i) = acpiSigRsdp[i]) ∧ byteSum mem p 20 = 0#8 ∧
      (2#8 ≤ mem (p + 15) → byteSum mem p 36 = 0#8))
    ⟨fun ⟨h₁, h₂, h₃⟩ => ⟨h₁, h₂, h₃⟩, fun ⟨h₁, h₂, h₃⟩ => ⟨h₁, h₂, h₃⟩⟩

/-- The 16-byte steps of a window, from its base on. -/
def windowSteps (base : BitVec 64) (size : ℕ) : List (BitVec 64) :=
  (List.range (size / 16)).map fun i => base + BitVec.ofNat 64 (16 * i)

/-- The first step of a window at which a valid RSDP starts. -/
def firstRsdp (mem : Memory) (base : BitVec 64) (size : ℕ) : Option (BitVec 64) :=
  (windowSteps base size).find? fun p => ValidRsdp mem p

/-- The base of the Extended BIOS Data Area: the 16-bit word at 0x40E is its segment. -/
def ebdaBase (mem : Memory) : BitVec 64 := (mem 0x40f#64 ++ mem 0x40e#64).setWidth 64 <<< 4

/-- The first valid RSDP of the EBDA, if there is an EBDA. -/
def ebdaRsdp (mem : Memory) : Option (BitVec 64) :=
  if 0x400#64 < ebdaBase mem then firstRsdp mem (ebdaBase mem) 1024 else none

/-- The first valid RSDP from 0xE0000 to 0xFFFFF, if there is one. -/
def hiRsdp (mem : Memory) : Option (BitVec 64) := firstRsdp mem 0xe0000#64 0x20000

/-- The root pointer: that of the EBDA, or else the other. -/
def rootPointer (mem : Memory) : Option (BitVec 64) := (ebdaRsdp mem).or (hiRsdp mem)

/-- The first valid RSDP of the kilobyte from 0x40E0 on. -/
def strayRsdp (mem : Memory) : Option (BitVec 64) := firstRsdp mem 0x40e0#64 1024

/-! ## The scan -/

section Scan

variable {mem : Memory} {p base : BitVec 64} {n : ℕ}

/-- The addresses of the first megabyte, and some more. -/
theorem mapped_add (hp : p.toNat + n ≤ 2 ^ 32) {i : ℕ} (hi : i < n) :
    Mapped (p + BitVec.ofNat 64 i) := by
  refine .inl ?_
  rw [toNat_add_ofNat (by omega)]
  omega

theorem load8_low (hp : p.toNat + n ≤ 2 ^ 32) {i : ℕ} (hi : i < n) :
    load8 mem (p + BitVec.ofNat 64 i) = .ok (mem (p + BitVec.ofNat 64 i)) :=
  load8_eq_ok.mpr ⟨mapped_add hp hi, rfl⟩

theorem toNat_add_one (hp : p.toNat + (n + 1) ≤ 2 ^ 32) : (p + 1).toNat + n ≤ 2 ^ 32 := by
  have h1 : (p + 1).toNat = (p.toNat + 1) % 2 ^ 64 := rfl
  omega

/-- The comparison goes on to the first difference, in memory that is mapped. -/
theorem memcmpEq_low {cs : List (BitVec 8)} (hp : p.toNat + cs.length ≤ 2 ^ 32) :
    memcmpEq mem cs p =
      .ok (decide (∀ i (h : i < cs.length), mem (p + BitVec.ofNat 64 i) = cs[i])) := by
  induction cs generalizing p with
  | nil => rfl
  | cons c cs ih =>
    have hload : load8 mem p = .ok (mem p) := by simpa using load8_low hp (Nat.succ_pos _)
    rw [memcmpEq, hload, Exec.ok_bind]
    by_cases heq : mem p = c
    · rw [if_neg (not_not_intro heq), ih (toNat_add_one hp)]
      exact congrArg Except.ok
        (decide_eq_decide.mpr (forall_chars_cons.trans (and_iff_right heq)).symm)
    · rw [if_pos heq]
      exact congrArg Except.ok (decide_eq_false fun hall => heq (forall_chars_cons.mp hall).1).symm

/-- The loop of the checksum reads all bytes, in memory that is mapped. -/
theorem checksumLoop_low {sum : BitVec 8} (hp : p.toNat + n ≤ 2 ^ 32) :
    checksumLoop mem (p + BitVec.ofNat 64 n) n p sum = .ok (sum + byteSum mem p n) := by
  induction n generalizing p sum with
  | zero =>
    rw [checksumLoop, if_neg (by simp)]
    simp [byteSum]
  | succ n ih =>
    have hlt : p < p + BitVec.ofNat 64 (n + 1) := lt_add_ofNat (Nat.succ_pos n) (by omega)
    have hload : load8 mem p = .ok (mem p) := by simpa using load8_low hp (Nat.succ_pos _)
    rw [checksumLoop, if_pos hlt, hload, Exec.ok_bind, ← add_one_add_ofNat,
      ih (toNat_add_one hp), byteSum_succ, BitVec.add_assoc]

/-- `acpi_tb_checksum` of a few bytes of mapped memory is their sum. -/
theorem acpiTbChecksum_low {length : BitVec 32} (hp : p.toNat + length.toNat ≤ 2 ^ 32) :
    acpiTbChecksum mem p length = .ok (byteSum mem p length.toNat) := by
  rw [acpiTbChecksum, ← BitVec.ofNat_toNat, checksumLoop_low hp, BitVec.zero_add]

/-- **Validation**: `acpi_tb_validate_rsdp` accepts exactly the valid structures, and does not
fault. -/
theorem acpiTbValidateRsdp_low (mem : Memory) (hp : p.toNat + 36 ≤ 2 ^ 32) :
    ∃ status, acpiTbValidateRsdp mem p = .ok status ∧ (status = .ok ↔ ValidRsdp mem p) := by
  have hsig : memcmpEq mem acpiSigRsdp p = .ok (decide (∀ i (h : i < acpiSigRsdp.length),
      mem (p + BitVec.ofNat 64 i) = acpiSigRsdp[i])) :=
    memcmpEq_low (Nat.le_trans (Nat.add_le_add_left (by decide) _) hp)
  have hsum : acpiTbChecksum mem p 20#32 = .ok (byteSum mem p 20) :=
    acpiTbChecksum_low (Nat.le_trans (Nat.add_le_add_left (by decide) _) hp)
  have hxsum : acpiTbChecksum mem p 36#32 = .ok (byteSum mem p 36) := acpiTbChecksum_low hp
  have hrev : load8 mem (p + 15) = .ok (mem (p + 15)) := load8_low hp (show 15 < 36 by decide)
  unfold acpiTbValidateRsdp
  rw [hsig, Exec.ok_bind]
  by_cases hs : ∀ i (h : i < acpiSigRsdp.length), mem (p + BitVec.ofNat 64 i) = acpiSigRsdp[i]
  · rw [decide_eq_true hs, if_neg (by decide), hsum, Exec.ok_bind]
    by_cases hc : byteSum mem p 20 = 0#8
    · rw [if_neg (not_not_intro hc), hrev, Exec.ok_bind]
      by_cases hr : mem (p + 15) ≥ 2#8
      · rw [if_pos hr, hxsum, Exec.ok_bind]
        by_cases hx : byteSum mem p 36 = 0#8
        · rw [if_neg (not_not_intro hx)]
          exact ⟨_, rfl, iff_of_true rfl ⟨hs, hc, fun _ => hx⟩⟩
        · rw [if_pos hx]
          exact ⟨_, rfl, iff_of_false RsdpStatus.noConfusion fun h => hx (h.xchecksum hr)⟩
      · rw [if_neg hr]
        exact ⟨_, rfl, iff_of_true rfl ⟨hs, hc, fun h => absurd h hr⟩⟩
    · rw [if_pos hc]
      exact ⟨_, rfl, iff_of_false RsdpStatus.noConfusion fun h => hc h.checksum⟩
  · rw [decide_eq_false hs, if_pos (by decide)]
    exact ⟨_, rfl, iff_of_false RsdpStatus.noConfusion fun h => hs h.signature⟩

/-- **The scan** returns the first step at which a valid RSDP starts. -/
theorem scanLoop_low (hbase : base.toNat + 16 * n + 36 ≤ 2 ^ 32) :
    scanLoop mem (base + BitVec.ofNat 64 (16 * n)) n base =
      .ok (((List.range n).map fun i => base + BitVec.ofNat 64 (16 * i)).find?
        fun p => ValidRsdp mem p) := by
  induction n generalizing base with
  | zero =>
    rw [scanLoop, if_neg (by simp)]
    rfl
  | succ n ih =>
    have hlt : base < base + BitVec.ofNat 64 (16 * (n + 1)) :=
      lt_add_ofNat (by omega) (by omega)
    have hstep : ∀ i : ℕ, base + BitVec.ofNat 64 16 + BitVec.ofNat 64 (16 * i) =
        base + BitVec.ofNat 64 (16 * (i + 1)) := fun i => by
      rw [BitVec.add_assoc, ← BitVec.ofNat_add, Nat.mul_succ, Nat.add_comm]
    have hnext : (base + BitVec.ofNat 64 16).toNat + 16 * n + 36 ≤ 2 ^ 32 := by
      rw [toNat_add_ofNat (by omega)]
      omega
    have hsteps : (List.range (n + 1)).map (fun i => base + BitVec.ofNat 64 (16 * i)) =
        base :: (List.range n).map fun i =>
          base + BitVec.ofNat 64 16 + BitVec.ofNat 64 (16 * i) := by
      rw [List.range_succ_eq_map, List.map_cons, List.map_map, Nat.mul_zero, BitVec.add_zero]
      exact congrArg _ (List.map_congr_left fun i _ => (hstep i).symm)
    obtain ⟨status, hvalid, hiff⟩ :=
      acpiTbValidateRsdp_low mem (show base.toNat + 36 ≤ 2 ^ 32 by omega)
    rw [scanLoop, if_pos hlt, hvalid, Exec.ok_bind, hsteps, List.find?_cons]
    by_cases hok : status = .ok
    · rw [if_pos hok, decide_eq_true (hiff.mp hok)]
      rfl
    · rw [if_neg hok, decide_eq_false (mt hiff.mpr hok), ← hstep n]
      exact ih hnext

theorem acpiTbScanMemoryForRsdp_low {size : ℕ} (hsize : size % 16 = 0)
    (hbase : base.toNat + size + 36 ≤ 2 ^ 32) :
    acpiTbScanMemoryForRsdp mem base size = .ok (firstRsdp mem base size) := by
  have hdiv : 16 * (size / 16) = size := by omega
  have hloop : scanLoop mem (base + BitVec.ofNat 64 (16 * (size / 16))) (size / 16) base =
      .ok (firstRsdp mem base size) := scanLoop_low (by omega)
  rwa [hdiv] at hloop

end Scan

/-! ## The two windows

The code takes the address 0x40E itself for the segment, and so it scans the kilobyte from 0x40E0
on. This is right when neither that kilobyte nor the EBDA has anything to find, or when both lead
to the same structure. -/

section Windows

variable {mem : Memory} {p base : BitVec 64} {size : ℕ}

/-- What is found is a step of the window, the first at which a valid RSDP starts. -/
theorem firstRsdp_eq_some_iff :
    firstRsdp mem base size = some p ↔
      ∃ i < size / 16, p = base + BitVec.ofNat 64 (16 * i) ∧ ValidRsdp mem p ∧
        ∀ j < i, ¬ValidRsdp mem (base + BitVec.ofNat 64 (16 * j)) := by
  rw [firstRsdp, windowSteps, List.find?_map, Option.map_eq_some_iff]
  refine exists_congr fun i => ?_
  rw [List.find?_range_eq_some]
  simp only [Function.comp_apply, decide_eq_true_eq, List.mem_range, Bool.not_eq_true',
    decide_eq_false_iff_not]
  constructor
  · rintro ⟨⟨hvalid, hi, hbefore⟩, rfl⟩
    exact ⟨hi, rfl, hvalid, hbefore⟩
  · rintro ⟨hi, rfl, hvalid, hbefore⟩
    exact ⟨⟨hvalid, hi, hbefore⟩, rfl⟩

theorem firstRsdp_eq_none_iff :
    firstRsdp mem base size = none ↔
      ∀ i < size / 16, ¬ValidRsdp mem (base + BitVec.ofNat 64 (16 * i)) := by
  simp [firstRsdp, windowSteps]

/-- What is found in a window is inside of it. -/
theorem bounds_of_firstRsdp (hbase : base.toNat + size < 2 ^ 64)
    (h : firstRsdp mem base size = some p) :
    base.toNat ≤ p.toNat ∧ p.toNat < base.toNat + size := by
  obtain ⟨q, hq, rfl⟩ := List.mem_map.mp (List.mem_of_find?_eq_some h)
  rw [List.mem_range] at hq
  rw [toNat_add_ofNat (by omega)]
  omega

/-- The difference of two pointers in the window fits in 32 bits. -/
theorem eq_of_low_difference {p : BitVec 64} (hlow : (0x40e0#64).toNat ≤ p.toNat)
    (hhigh : p.toNat < (0x40e0#64).toNat + 1024) :
    (0x40e0#32 + (p - 0x40e0#64).setWidth 32).setWidth 64 = p := by
  apply BitVec.eq_of_toNat_eq
  have h64 : (0x40e0#64).toNat = 0x40e0 := rfl
  have h32 : (0x40e0#32).toNat = 0x40e0 := rfl
  rw [BitVec.toNat_setWidth, BitVec.toNat_add, BitVec.toNat_setWidth,
    BitVec.toNat_sub_of_le (BitVec.le_def.mpr hlow)]
  omega

/-- **The function** scans the kilobyte at 0x40E0, which is the address of the segment of the
EBDA and not that segment, as an address. -/
theorem acpiFindRootPointer_eq (mem : Memory) :
    acpiFindRootPointer mem = .ok ((strayRsdp mem).or (hiRsdp mem)) := by
  have hstray : acpiTbScanMemoryForRsdp mem 0x40e0#64 1024 = .ok (strayRsdp mem) :=
    acpiTbScanMemoryForRsdp_low rfl (by decide)
  have hhi : acpiTbScanMemoryForRsdp mem 0xe0000#64 0x20000 = .ok (hiRsdp mem) :=
    acpiTbScanMemoryForRsdp_low rfl (by decide)
  change (acpiTbScanMemoryForRsdp mem 0x40e0#64 1024 >>= fun memRover => _) = _
  rw [hstray, Exec.ok_bind]
  cases h : strayRsdp mem with
  | none =>
    change (acpiTbScanMemoryForRsdp mem 0xe0000#64 0x20000 >>= fun memRover => _) = _
    have hid : ∀ q : BitVec 64, acpiHiRsdpWindowBase + (q - acpiHiRsdpWindowBase) = q :=
      fun q => by rw [BitVec.add_comm, BitVec.sub_add_cancel]
    rw [hhi, Exec.ok_bind, Option.none_or, funext hid, Option.map_id']
    rfl
  | some p =>
    obtain ⟨hlow, hhigh⟩ := bounds_of_firstRsdp (by decide) h
    have hid : (0x40e0#32 + (p - 0x40e0#64).setWidth 32).setWidth 64 = p :=
      eq_of_low_difference hlow hhigh
    change Except.ok (some ((0x40e0#32 + (p - 0x40e0#64).setWidth 32).setWidth 64)) = _
    rw [hid, Option.some_or]

end Windows

/-- **The root pointer** is found exactly when the kilobyte at 0x40E0 has the same first RSDP as
the EBDA, or none while that of the EBDA is the first above 0xE0000, too. -/
theorem rootPointer_found_iff (mem : Memory) :
    acpiFindRootPointer mem = .ok (rootPointer mem) ↔
      strayRsdp mem = ebdaRsdp mem ∨ strayRsdp mem = none ∧ hiRsdp mem = ebdaRsdp mem := by
  rw [acpiFindRootPointer_eq, Except.ok.injEq, rootPointer]
  cases hs : strayRsdp mem with
  | none =>
    cases he : ebdaRsdp mem with
    | none => simp
    | some q => simp
  | some p =>
    cases he : ebdaRsdp mem with
    | none =>
      -- the two windows have no address in common
      refine iff_of_false (fun h => ?_) (by simp)
      rw [Option.some_or, Option.none_or] at h
      have hlow := (bounds_of_firstRsdp (by decide) hs).2
      have hhigh := (bounds_of_firstRsdp (by decide) h.symm).1
      exact absurd (Nat.lt_of_le_of_lt hhigh hlow) (by decide)
    | some q => simp

/-- A machine with an EBDA at 0x9FC00, which begins with a valid RSDP of revision 0. -/
def ebdaMemory : Memory := fun p =>
  if p = 0x40e#64 then 0xc0#8
  else if p = 0x40f#64 then 0x9f#8
  else if p < 0x9fc00#64 then 0#8
  else (acpiSigRsdp ++ [0xe1#8]).getD (p - 0x9fc00#64).toNat 0#8

/-- The first byte of the signature is nowhere else. -/
theorem not_validRsdp_ebdaMemory {p : BitVec 64} (h : p.toNat < 0x9fc00 ∨ 0xa0000 ≤ p.toNat) :
    ¬ValidRsdp ebdaMemory p := by
  intro hvalid
  have hfirst : ebdaMemory (p + 0#64) = 0x52#8 := hvalid.signature 0 (by decide)
  rw [BitVec.add_zero] at hfirst
  unfold ebdaMemory at hfirst
  split_ifs at hfirst with h40e h40f hlt
  · exact absurd hfirst (by decide)
  · exact absurd hfirst (by decide)
  · exact absurd hfirst (by decide)
  · have hbase : (0x9fc00#64).toNat = 0x9fc00 := rfl
    rw [BitVec.lt_def] at hlt
    have hfar : (acpiSigRsdp ++ [0xe1#8]).length ≤ (p - 0x9fc00#64).toNat := by
      rw [BitVec.toNat_sub_of_le (BitVec.le_def.mpr (by omega))]
      have hlen : (acpiSigRsdp ++ [0xe1#8]).length = 9 := rfl
      omega
    rw [List.getD_eq_default _ _ hfar] at hfirst
    exact absurd hfirst (by decide)

/-- Such an RSDP is the root pointer, and is not found. -/
theorem not_found_ebdaMemory :
    rootPointer ebdaMemory = some 0x9fc00#64 ∧ acpiFindRootPointer ebdaMemory = .ok none := by
  have hstray : strayRsdp ebdaMemory = none := by
    refine firstRsdp_eq_none_iff.mpr fun i hi => not_validRsdp_ebdaMemory (.inl ?_)
    have hbase : (0x40e0#64).toNat = 0x40e0 := rfl
    rw [toNat_add_ofNat (by omega)]
    omega
  have hhi : hiRsdp ebdaMemory = none := by
    refine firstRsdp_eq_none_iff.mpr fun i hi => not_validRsdp_ebdaMemory (.inr ?_)
    have hbase : (0xe0000#64).toNat = 0xe0000 := rfl
    rw [toNat_add_ofNat (by omega)]
    omega
  have hebda : ebdaRsdp ebdaMemory = some 0x9fc00#64 := by
    have hbase : ebdaBase ebdaMemory = 0x9fc00#64 := by decide
    rw [ebdaRsdp, hbase, if_pos (by decide)]
    exact firstRsdp_eq_some_iff.mpr ⟨0, by decide, by decide, by decide, by simp⟩
  rw [rootPointer, hebda, acpiFindRootPointer_eq, hstray, hhi]
  exact ⟨rfl, rfl⟩

end Lvisor
