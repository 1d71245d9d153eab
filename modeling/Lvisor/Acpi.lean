import Mathlib.Data.BitVec
import Lvisor.Lib.Word
import Lvisor.Machine

/-!
# ACPI tables

`acpi_tb_parse_root_table` walks the RSDT or the XSDT and keeps pointers to the tables that
pass their checksum, in the 128 slots of `initial_tables`; `acpi_find_table` looks a table up
by its signature. Printing is left out.

* `acpiTbParseRootTable_installed` — what is installed when the parser succeeds: the valid
  entries in order, cut at 128, then null slots;
* `acpiFindTable_iff` — the lookup does what it should exactly when it finds a table or when
  there is no null slot; it does not stop at one.
-/

namespace Lvisor

/-! ## Memory -/

/-- A load of a byte through an address of the kernel; outside of what is mapped it faults. -/
def load8 (mem : Memory) (a : BitVec 64) : Exec (BitVec 8) :=
  if Mapped a then .ok (mem a) else .error (.pageFault a)

/-- A load of 32 bits: the first and the last byte must be mapped. -/
def load32 (mem : Memory) (a : BitVec 64) : Exec (BitVec 32) := do
  let _ ← load8 mem a
  let _ ← load8 mem (a + 3)
  return read32 mem a

/-- A load of 64 bits: the first and the last byte must be mapped. -/
def load64 (mem : Memory) (a : BitVec 64) : Exec (BitVec 64) := do
  let _ ← load8 mem a
  let _ ← load8 mem (a + 7)
  return read64 mem a

/-! ## `acpica/tbprint.c` -/

/-- A signature: four characters, none of which ends a string. -/
structure AcpiName where
  chars : Vector (BitVec 8) 4
  ne_zero : ∀ c ∈ chars.toList, c ≠ 0

/-- `ACPI_SIG_FACS`, a table without a checksum. -/
def acpiSigFacs : AcpiName := ⟨#v[0x46, 0x41, 0x43, 0x53], by decide⟩

/-- `ACPI_SIG_S3PT`, another table without a checksum. -/
def acpiSigS3pt : AcpiName := ⟨#v[0x53, 0x33, 0x50, 0x54], by decide⟩

/-- `strncmp` of memory with the characters of a name, as far as `ACPI_COMPARE_NAME` looks at
it: whether the result is 0. -/
def strncmpEq (mem : Memory) : List (BitVec 8) → BitVec 64 → Exec Bool
  | [], _ => return true
  | c :: cs, p => do
    let c' ← load8 mem p
    if c' ≠ c then return false
    else if c' = 0 then return true
    else strncmpEq mem cs (p + 1)

/-- `ACPI_COMPARE_NAME` of the signature of a table: it begins the table. -/
def acpiCompareName (mem : Memory) (table : BitVec 64) (name : AcpiName) : Exec Bool :=
  strncmpEq mem name.chars.toList table

/-- The loop of `acpi_tb_checksum`, from `buffer` up to `stop`. -/
def checksumLoop (mem : Memory) (stop : BitVec 64) : ℕ → BitVec 64 → BitVec 8 → Exec (BitVec 8)
  | 0, buffer, sum => if buffer < stop then .error .outOfFuel else return sum
  | fuel + 1, buffer, sum =>
    if buffer < stop then do
      let b ← load8 mem buffer
      checksumLoop mem stop fuel (buffer + 1) (sum + b)
    else
      return sum

/-- `acpi_tb_checksum`: the sum of `length` bytes from `buffer` on. The end is an address, and
may wrap around. -/
def acpiTbChecksum (mem : Memory) (buffer : BitVec 64) (length : BitVec 32) : Exec (BitVec 8) :=
  checksumLoop mem (buffer + length.setWidth 64) length.toNat buffer 0#8

/-- `acpi_status`, as far as these functions return it. -/
inductive AcpiStatus where
  /-- `AE_OK` -/
  | ok
  /-- `AE_BAD_CHECKSUM` -/
  | badChecksum
  /-- `AE_INVALID_TABLE_LENGTH` -/
  | invalidTableLength
  deriving DecidableEq, Repr

/-- `acpi_tb_verify_checksum`: tables without a checksum are fine, and the bytes of any other
must sum up to zero. -/
def acpiTbVerifyChecksum (mem : Memory) (table : BitVec 64) (length : BitVec 32) :
    Exec AcpiStatus := do
  if ← acpiCompareName mem table acpiSigS3pt then return .ok
  if ← acpiCompareName mem table acpiSigFacs then return .ok
  let checksum ← acpiTbChecksum mem table length
  return if checksum ≠ 0#8 then .badChecksum else .ok

/-! ## `acpi.c`

The root table is an array of addresses, of 32 bits each in the RSDT and of 64 in the XSDT. The
parser stores those of valid tables from slot 0 on and stops when the array is full; the lookup
goes through all 128 slots, and reads the signature behind each of them. -/

/-- `ACPI_MAX_TABLES`, the length of the array. -/
abbrev acpiMaxTables : ℕ := 128

/-- `initial_tables`: the addresses of the tables; a slot that is not used is null. -/
abbrev InitialTables : Type := Vector (BitVec 64) acpiMaxTables

/-- `acpi_tb_get_root_table_entry`; entries have 4 bytes in an RSDT and 8 in an XSDT. -/
def acpiTbGetRootTableEntry (mem : Memory) (tableEntry : BitVec 64) (tableEntrySize : ℕ) :
    Exec (BitVec 64) := do
  if tableEntrySize = 4 then
    return (← load32 mem tableEntry).setWidth 64
  else
    load64 mem tableEntry

/-- The loop of `acpi_tb_parse_root_table`, over the number of entries left. -/
def parseLoop (mem : Memory) (tableEntrySize : ℕ) :
    ℕ → BitVec 64 → ℕ → InitialTables → Exec InitialTables
  | 0, _, _, tables => return tables
  | n + 1, tableEntry, tableIndex, tables => do
    let next := tableEntry + BitVec.ofNat 64 tableEntrySize
    let address ← acpiTbGetRootTableEntry mem tableEntry tableEntrySize
    if address = 0 then
      parseLoop mem tableEntrySize n next tableIndex tables
    else
      let length ← load32 mem (address + 4)
      let status ← acpiTbVerifyChecksum mem address length
      if status ≠ .ok then
        parseLoop mem tableEntrySize n next tableIndex tables
      else
        let tables ← store tables tableIndex address
        if tableIndex + 1 = acpiMaxTables then
          return tables
        else
          parseLoop mem tableEntrySize n next (tableIndex + 1) tables

/-- The address of the RSDT, `rsdt_physical_address` at 16 of the RSDP, and the size of its
entries. -/
def rsdtAddress (mem : Memory) (rsdp : BitVec 64) : Exec (BitVec 64 × ℕ) := do
  let rsdt ← load32 mem (rsdp + 16)
  return (rsdt.setWidth 64, 4)

/-- The root table that `acpi_tb_parse_root_table` uses: the XSDT if `revision`, at 15 of the
RSDP, is above 1 and `xsdt_physical_address`, at 24, is not zero. -/
def rootAddress (mem : Memory) (rsdp : BitVec 64) : Exec (BitVec 64 × ℕ) := do
  let revision ← load8 mem (rsdp + 15)
  if revision > 1 then
    let xsdt ← load64 mem (rsdp + 24)
    if xsdt ≠ 0 then return (xsdt, 8) else rsdtAddress mem rsdp
  else rsdtAddress mem rsdp

/-- `acpi_tb_parse_root_table`, its status and `initial_tables`. A table header has 36 bytes,
with `length` at 4. -/
def acpiTbParseRootTable (mem : Memory) (rsdp : BitVec 64) (tables : InitialTables) :
    Exec (AcpiStatus × InitialTables) := do
  let (address, tableEntrySize) ← rootAddress mem rsdp
  let length ← load32 mem (address + 4)
  if length.toNat < 36 + tableEntrySize then
    return (.invalidTableLength, tables)
  let status ← acpiTbVerifyChecksum mem address length
  if status ≠ .ok then
    return (status, tables)
  let tableCount := (length.toNat - 36) / tableEntrySize
  let tables ← parseLoop mem tableEntrySize tableCount (address + 36) 0 tables
  return (.ok, tables)

/-- The loop of `acpi_find_table`: what it returns, and the headers that it has read. -/
def findLoop (mem : Memory) (id : AcpiName) :
    List (BitVec 64) → Exec (BitVec 64 × List (BitVec 64))
  | [] => return (0, [])
  | tableHeader :: rest => do
    if ← acpiCompareName mem tableHeader id then
      return (tableHeader, [tableHeader])
    else
      let (found, headers) ← findLoop mem id rest
      return (found, tableHeader :: headers)

/-- `acpi_find_table`: the first table with the signature, or null, and the headers that it has
read for that. -/
def acpiFindTable (mem : Memory) (tables : InitialTables) (id : AcpiName) :
    Exec (BitVec 64 × List (BitVec 64)) :=
  findLoop mem id tables.toList

/-! ## What should be installed

The root table again, without loops and loads: the entries that it lists, those of them whose
tables pass their checksum, and the 128 slots that these leave. -/

/-- The table at `p` has the signature: its first four bytes. -/
def HasSignature (mem : Memory) (name : AcpiName) (p : BitVec 64) : Prop :=
  ∀ i : Fin 4, mem (p + BitVec.ofNat 64 i) = name.chars.get i

instance (mem : Memory) (name : AcpiName) (p : BitVec 64) : Decidable (HasSignature mem name p) :=
  inferInstanceAs (Decidable (∀ _, _))

/-- The sum of `n` bytes from `p` on, modulo 256. -/
def byteSum (mem : Memory) (p : BitVec 64) (n : ℕ) : BitVec 8 :=
  ((List.range n).map fun i => mem (p + BitVec.ofNat 64 i)).sum

/-- The bytes of the table at `p` sum up to zero, or it is a FACS or S3PT. -/
def ValidTable (mem : Memory) (p : BitVec 64) : Prop :=
  byteSum mem p (read32 mem (p + 4)).toNat = 0#8 ∨ HasSignature mem acpiSigFacs p ∨
    HasSignature mem acpiSigS3pt p

instance (mem : Memory) (p : BitVec 64) : Decidable (ValidTable mem p) :=
  inferInstanceAs (Decidable (_ ∨ _))

/-- The RSDP has an XSDT, by its revision and by the address. -/
def hasXsdt (mem : Memory) (rsdp : BitVec 64) : Bool :=
  mem (rsdp + 15) > 1 ∧ read64 mem (rsdp + 24) ≠ 0

/-- The root table, and the size of its entries: the XSDT if there is one, else the RSDT. -/
def rootTable (mem : Memory) (rsdp : BitVec 64) : BitVec 64 × ℕ :=
  if hasXsdt mem rsdp then (read64 mem (rsdp + 24), 8)
  else ((read32 mem (rsdp + 16)).setWidth 64, 4)

/-- The entry of the given size at `p`, as an address. -/
def rootEntry (mem : Memory) (size : ℕ) (p : BitVec 64) : BitVec 64 :=
  if size = 4 then (read32 mem p).setWidth 64 else read64 mem p

/-- `n` entries of the given size from `p` on. -/
def entriesFrom (mem : Memory) (size : ℕ) (p : BitVec 64) (n : ℕ) : List (BitVec 64) :=
  (List.range n).map fun i => rootEntry mem size (p + BitVec.ofNat 64 (i * size))

/-- The entries of the root table, as many as its length says. -/
def rootEntries (mem : Memory) (rsdp : BitVec 64) : List (BitVec 64) :=
  let (address, size) := rootTable mem rsdp
  entriesFrom mem size (address + 36) (((read32 mem (address + 4)).toNat - 36) / size)

/-- The tables to install: the valid entries that are not zero, in order, cut at 128. -/
def installedTables (mem : Memory) (rsdp : BitVec 64) : List (BitVec 64) :=
  ((rootEntries mem rsdp).filter fun p => p ≠ 0 ∧ ValidTable mem p).take acpiMaxTables

/-! ## Loads and comparisons -/

section Loads

variable {mem : Memory} {p : BitVec 64} {name : AcpiName} {e : Fault}

theorem load8_eq_ok {b : BitVec 8} : load8 mem p = .ok b ↔ Mapped p ∧ b = mem p := by
  unfold load8
  by_cases h : Mapped p
  · simp [h, eq_comm]
  · simp [h]

theorem load32_eq_ok {x : BitVec 32} :
    load32 mem p = .ok x ↔ Mapped p ∧ Mapped (p + 3) ∧ x = read32 mem p := by
  simp only [load32, Exec.bind_eq_ok, load8_eq_ok, Exec.pure_eq_ok, Except.ok.injEq]
  exact ⟨fun ⟨_, ⟨h, _⟩, _, ⟨h', _⟩, hx⟩ => ⟨h, h', hx.symm⟩,
    fun ⟨h, h', hx⟩ => ⟨_, ⟨h, rfl⟩, _, ⟨h', rfl⟩, hx.symm⟩⟩

theorem load64_eq_ok {x : BitVec 64} :
    load64 mem p = .ok x ↔ Mapped p ∧ Mapped (p + 7) ∧ x = read64 mem p := by
  simp only [load64, Exec.bind_eq_ok, load8_eq_ok, Exec.pure_eq_ok, Except.ok.injEq]
  exact ⟨fun ⟨_, ⟨h, _⟩, _, ⟨h', _⟩, hx⟩ => ⟨h, h', hx.symm⟩,
    fun ⟨h, h', hx⟩ => ⟨_, ⟨h, rfl⟩, _, ⟨h', rfl⟩, hx.symm⟩⟩

/-- Loads have no other faults than those of addresses that are not mapped. -/
theorem load8_ne_error (he : ∀ a, .pageFault a ≠ e) : load8 mem p ≠ .error e := by
  unfold load8
  split
  · exact Exec.pure_ne_error
  · exact fun h => he p (Except.error.inj h)

theorem load32_ne_error (he : ∀ a, .pageFault a ≠ e) : load32 mem p ≠ .error e :=
  Exec.bind_ne_error (load8_ne_error he) fun _ _ =>
    Exec.bind_ne_error (load8_ne_error he) fun _ _ => Exec.pure_ne_error

theorem load64_ne_error (he : ∀ a, .pageFault a ≠ e) : load64 mem p ≠ .error e :=
  Exec.bind_ne_error (load8_ne_error he) fun _ _ =>
    Exec.bind_ne_error (load8_ne_error he) fun _ _ => Exec.pure_ne_error

/-- The signature and the length of the table at `p` can be read. -/
def HeaderMapped (p : BitVec 64) : Prop := Mapped p ∧ Mapped (p + 7)

/-- The two windows have no holes, and are too far from the end of memory to wrap. -/
theorem HeaderMapped.add (h : HeaderMapped p) {i : ℕ} (hi : i < 8) :
    Mapped (p + BitVec.ofNat 64 i) := by
  obtain ⟨hp, hp7⟩ := h
  unfold Mapped at hp hp7 ⊢
  have h7 : (p + 7).toNat = p.toNat + 7 := by bv_omega
  have hadd : (p + BitVec.ofNat 64 i).toNat = p.toNat + i := toNat_add_ofNat (by omega)
  omega

/-- A string in memory, as its first character and the others. -/
theorem forall_chars_cons {c : BitVec 8} {cs : List (BitVec 8)} :
    (∀ i (h : i < (c :: cs).length), mem (p + BitVec.ofNat 64 i) = (c :: cs)[i]) ↔
      mem p = c ∧ ∀ i (h : i < cs.length), mem (p + 1 + BitVec.ofNat 64 i) = cs[i] := by
  constructor
  · intro hall
    refine ⟨by simpa using hall 0 (Nat.succ_pos _), fun i hi => ?_⟩
    rw [add_one_add_ofNat]
    exact hall (i + 1) (Nat.succ_lt_succ hi)
  · rintro ⟨hfirst, hrest⟩ i hi
    cases i with
    | zero => simpa using hfirst
    | succ i =>
      rw [← add_one_add_ofNat]
      exact hrest i (Nat.lt_of_succ_lt_succ hi)

/-- A comparison with characters that are not zero goes on to the first difference. -/
theorem strncmpEq_of_mapped {cs : List (BitVec 8)} (hcs : ∀ c ∈ cs, c ≠ 0)
    (hm : ∀ i < cs.length, Mapped (p + BitVec.ofNat 64 i)) :
    strncmpEq mem cs p =
      .ok (decide (∀ i (h : i < cs.length), mem (p + BitVec.ofNat 64 i) = cs[i])) := by
  induction cs generalizing p with
  | nil => rfl
  | cons c cs ih =>
    obtain ⟨hc, hcs⟩ := List.forall_mem_cons.mp hcs
    have hp : Mapped p := by simpa using hm 0 (Nat.succ_pos _)
    have hload : load8 mem p = .ok (mem p) := load8_eq_ok.mpr ⟨hp, rfl⟩
    rw [strncmpEq, hload, Exec.ok_bind]
    by_cases heq : mem p = c
    · rw [if_neg (not_not_intro heq), if_neg (by rw [heq]; exact hc),
        ih hcs fun i hi => by rw [add_one_add_ofNat]; exact hm (i + 1) (Nat.succ_lt_succ hi)]
      exact congrArg Except.ok
        (decide_eq_decide.mpr (forall_chars_cons.trans (and_iff_right heq)).symm)
    · rw [if_pos heq]
      exact congrArg Except.ok (decide_eq_false fun hall => heq (forall_chars_cons.mp hall).1).symm

/-- A name is compared with a signature that can be read. -/
theorem acpiCompareName_of_mapped (h : HeaderMapped p) :
    acpiCompareName mem p name = .ok (decide (HasSignature mem name p)) := by
  have hlen : name.chars.toList.length = 4 := Vector.length_toList
  rw [acpiCompareName,
    strncmpEq_of_mapped name.ne_zero fun i hi => h.add (by rw [hlen] at hi; omega)]
  refine congrArg Except.ok (decide_eq_decide.mpr ⟨fun hall i => ?_, fun hall i hi => ?_⟩)
  · rw [hall i (by rw [hlen]; exact i.isLt)]
    simp [Vector.get]
  · rw [hlen] at hi
    rw [hall ⟨i, hi⟩]
    simp [Vector.get]

theorem strncmpEq_ne_error (he : ∀ a, .pageFault a ≠ e) {cs : List (BitVec 8)} :
    strncmpEq mem cs p ≠ .error e := by
  induction cs generalizing p with
  | nil => exact Exec.pure_ne_error
  | cons c cs ih =>
    refine Exec.bind_ne_error (load8_ne_error he) fun c' _ => ?_
    split
    · exact Exec.pure_ne_error
    · split
      · exact Exec.pure_ne_error
      · exact ih

/-- A comparison reads the first character. -/
theorem mapped_of_acpiCompareName {b : Bool} (h : acpiCompareName mem p name = .ok b) :
    Mapped p := by
  obtain ⟨c, cs, hcs⟩ : ∃ c cs, name.chars.toList = c :: cs :=
    List.exists_cons_of_length_pos (by rw [Vector.length_toList]; decide)
  rw [acpiCompareName, hcs, strncmpEq] at h
  obtain ⟨c', hc', -⟩ := Exec.bind_eq_ok.mp h
  exact (load8_eq_ok.mp hc').1

end Loads

/-! ## Checksums -/

section Checksums

variable {mem : Memory} {p : BitVec 64}

theorem byteSum_succ (mem : Memory) (p : BitVec 64) (n : ℕ) :
    byteSum mem p (n + 1) = mem p + byteSum mem (p + 1) n := by
  unfold byteSum
  rw [List.range_succ_eq_map, List.map_cons, List.sum_cons, List.map_map]
  congr 1
  · simp
  · congr 1
    refine List.map_congr_left fun i _ => ?_
    rw [Function.comp_apply, Nat.succ_eq_add_one, add_one_add_ofNat]

/-- The loop sums up the bytes before `stop`. -/
theorem checksumLoop_eq_ok {n : ℕ} {sum c : BitVec 8} (hwrap : p.toNat + n < 2 ^ 64)
    (h : checksumLoop mem (p + BitVec.ofNat 64 n) n p sum = .ok c) :
    c = sum + byteSum mem p n := by
  induction n generalizing p sum with
  | zero =>
    rw [checksumLoop, if_neg (by simp)] at h
    rw [← Except.ok.inj h]
    simp [byteSum]
  | succ n ih =>
    have hlt : p < p + BitVec.ofNat 64 (n + 1) := lt_add_ofNat (Nat.succ_pos n) hwrap
    rw [checksumLoop, if_pos hlt, ← add_one_add_ofNat] at h
    obtain ⟨b, hb, h⟩ := Exec.bind_eq_ok.mp h
    obtain ⟨-, rfl⟩ := load8_eq_ok.mp hb
    have hp1 : (p + 1).toNat = p.toNat + 1 := by bv_omega
    rw [ih (by omega) h, byteSum_succ, BitVec.add_assoc]

/-- **Checksum**: for a table whose length can be read, `acpi_tb_verify_checksum` succeeds
exactly when the table is valid. -/
theorem acpiTbVerifyChecksum_eq_ok {st : AcpiStatus} (hp7 : Mapped (p + 7))
    (h : acpiTbVerifyChecksum mem p (read32 mem (p + 4)) = .ok st) :
    HeaderMapped p ∧ (st = .ok ↔ ValidTable mem p) := by
  unfold acpiTbVerifyChecksum at h
  obtain ⟨b, hb, -⟩ := Exec.bind_eq_ok.mp h
  have hp : HeaderMapped p := ⟨mapped_of_acpiCompareName hb, hp7⟩
  refine ⟨hp, ?_⟩
  rw [acpiCompareName_of_mapped hp, Exec.ok_bind] at h
  by_cases hs3pt : HasSignature mem acpiSigS3pt p
  · rw [decide_eq_true hs3pt, if_pos rfl] at h
    exact iff_of_true (Except.ok.inj h).symm (.inr (.inr hs3pt))
  rw [decide_eq_false hs3pt, if_neg Bool.false_ne_true, acpiCompareName_of_mapped hp,
    Exec.ok_bind] at h
  by_cases hfacs : HasSignature mem acpiSigFacs p
  · rw [decide_eq_true hfacs, if_pos rfl] at h
    exact iff_of_true (Except.ok.inj h).symm (.inr (.inl hfacs))
  rw [decide_eq_false hfacs, if_neg Bool.false_ne_true] at h
  obtain ⟨c, hc, h⟩ := Exec.bind_eq_ok.mp h
  have hwrap : p.toNat + (read32 mem (p + 4)).toNat < 2 ^ 64 := by
    have hlen := (read32 mem (p + 4)).isLt
    have hmapped := hp.1
    unfold Mapped at hmapped
    omega
  have hsum : c = byteSum mem p (read32 mem (p + 4)).toNat := by
    rw [acpiTbChecksum, ← BitVec.ofNat_toNat] at hc
    rw [checksumLoop_eq_ok hwrap hc, BitVec.zero_add]
  rw [← Except.ok.inj h, hsum]
  unfold ValidTable
  by_cases hzero : byteSum mem p (read32 mem (p + 4)).toNat = 0#8
  · exact iff_of_true (if_neg (not_not_intro hzero)) (.inl hzero)
  · refine iff_of_false ?_ ?_
    · rw [if_pos hzero]
      exact nofun
    · rintro (h | h | h)
      · exact hzero h
      · exact hfacs h
      · exact hs3pt h

end Checksums

/-! ## Installation

One turn of the loop installs a valid entry in the next free slot and skips another one, so that
after any number of turns the array is a prefix of the valid entries and null behind it. -/

section Installation

variable {mem : Memory} {p rsdp : BitVec 64} {size n : ℕ} {tables tables' : InitialTables}

theorem entriesFrom_succ (mem : Memory) (size : ℕ) (p : BitVec 64) (n : ℕ) :
    entriesFrom mem size p (n + 1) =
      rootEntry mem size p :: entriesFrom mem size (p + BitVec.ofNat 64 size) n := by
  have hzero : p + BitVec.ofNat 64 (0 * size) = p := by simp
  have hsucc (i : ℕ) : p + BitVec.ofNat 64 ((i + 1) * size) =
      p + BitVec.ofNat 64 size + BitVec.ofNat 64 (i * size) := by
    rw [Nat.succ_mul, BitVec.ofNat_add, BitVec.add_comm (BitVec.ofNat 64 (i * size)),
      BitVec.add_assoc]
  rw [entriesFrom, List.range_succ_eq_map, List.map_cons, List.map_map, hzero]
  refine congrArg _ (List.map_congr_left fun i _ => ?_)
  rw [Function.comp_apply, Nat.succ_eq_add_one, hsucc]

theorem acpiTbGetRootTableEntry_eq_ok {x : BitVec 64}
    (h : acpiTbGetRootTableEntry mem p size = .ok x) : x = rootEntry mem size p := by
  unfold acpiTbGetRootTableEntry at h
  unfold rootEntry
  split at h
  · rename_i hsize
    obtain ⟨y, hy, h⟩ := Exec.bind_eq_ok.mp h
    obtain ⟨-, -, rfl⟩ := load32_eq_ok.mp hy
    rw [if_pos hsize]
    exact (Except.ok.inj h).symm
  · rename_i hsize
    obtain ⟨-, -, rfl⟩ := load64_eq_ok.mp h
    rw [if_neg hsize]

/-- The slots of an array that holds `pre` and null slots, after one more store. -/
theorem toList_store {pre : List (BitVec 64)} (hlen : pre.length < acpiMaxTables)
    (h : tables.toList = pre ++ List.replicate (acpiMaxTables - pre.length) 0) (x : BitVec 64) :
    (tables.set pre.length x hlen).toList =
      (pre ++ [x]) ++ List.replicate (acpiMaxTables - (pre ++ [x]).length) 0 := by
  have hsucc : acpiMaxTables - pre.length = acpiMaxTables - (pre ++ [x]).length + 1 := by
    rw [List.length_append, List.length_singleton]
    omega
  rw [Vector.toList_set, h, hsucc, List.replicate_succ, List.set_append_right _ _ (Nat.le_refl _),
    Nat.sub_self, List.set_cons_zero, List.append_assoc]
  rfl

/-- **Loop of the parser**: the valid entries are appended to what is installed, up to 128;
the header of each of them can be read. -/
theorem parseLoop_eq_ok (pre : List (BitVec 64)) (hlen : pre.length < acpiMaxTables)
    (hpre : tables.toList = pre ++ List.replicate (acpiMaxTables - pre.length) 0)
    (hmapped : ∀ q ∈ pre, HeaderMapped q)
    (h : parseLoop mem size n p pre.length tables = .ok tables') :
    ∃ all, all = (pre ++ (entriesFrom mem size p n).filter fun q => q ≠ 0 ∧ ValidTable mem q).take
        acpiMaxTables ∧
      tables'.toList = all ++ List.replicate (acpiMaxTables - all.length) 0 ∧
      ∀ q ∈ all, HeaderMapped q := by
  induction n generalizing p pre tables with
  | zero =>
    obtain rfl := Except.ok.inj h
    refine ⟨pre, ?_, hpre, hmapped⟩
    rw [entriesFrom, List.range_zero, List.map_nil, List.filter_nil, List.append_nil,
      List.take_of_length_le hlen.le]
  | succ n ih =>
    rw [parseLoop] at h
    obtain ⟨address, haddress, h⟩ := Exec.bind_eq_ok.mp h
    obtain rfl := acpiTbGetRootTableEntry_eq_ok haddress
    rw [entriesFrom_succ]
    by_cases hzero : rootEntry mem size p = 0
    · -- a null entry is skipped
      rw [if_pos hzero] at h
      rw [List.filter_cons_of_neg (by rw [decide_eq_true_iff]; exact fun h => h.1 hzero)]
      exact ih _ hlen hpre hmapped h
    rw [if_neg hzero] at h
    obtain ⟨length, hlength, h⟩ := Exec.bind_eq_ok.mp h
    obtain ⟨-, hp7, rfl⟩ := load32_eq_ok.mp hlength
    obtain ⟨st, hst, h⟩ := Exec.bind_eq_ok.mp h
    rw [BitVec.add_assoc] at hp7
    obtain ⟨hheader, hvalid⟩ := acpiTbVerifyChecksum_eq_ok hp7 hst
    by_cases hok : st = .ok
    · rw [if_neg (not_not_intro hok), store_of_lt _ _ hlen, Exec.ok_bind] at h
      rw [List.filter_cons_of_pos (by rw [decide_eq_true_iff]; exact ⟨hzero, hvalid.mp hok⟩),
        List.append_cons]
      have hpre' := toList_store hlen hpre (rootEntry mem size p)
      have hmapped' : ∀ q ∈ pre ++ [rootEntry mem size p], HeaderMapped q := by
        intro q hq
        rcases List.mem_append.mp hq with hq | hq
        · exact hmapped q hq
        · rw [List.mem_singleton.mp hq]
          exact hheader
      have hlen' : (pre ++ [rootEntry mem size p]).length = pre.length + 1 := by
        rw [List.length_append, List.length_singleton]
      by_cases hfull : pre.length + 1 = acpiMaxTables
      · -- the last slot: the rest of the root table is not looked at
        rw [if_pos hfull] at h
        obtain rfl := Except.ok.inj h
        refine ⟨_, ?_, hpre', hmapped'⟩
        rw [List.take_append_of_le_length (by rw [hlen', hfull]),
          List.take_of_length_le (by rw [hlen', hfull])]
      · rw [if_neg hfull, ← hlen'] at h
        exact ih _ (by rw [hlen']; omega) hpre' hmapped' h
    · -- a table that fails its checksum is skipped
      rw [if_pos hok] at h
      rw [List.filter_cons_of_neg (by rw [decide_eq_true_iff]; exact fun h => hok (hvalid.mpr h.2))]
      exact ih _ hlen hpre hmapped h

/-- The root table is the right one. -/
theorem rootAddress_eq_ok {root : BitVec 64 × ℕ} (h : rootAddress mem rsdp = .ok root) :
    root = rootTable mem rsdp := by
  have hrsdt {root : BitVec 64 × ℕ} (h : rsdtAddress mem rsdp = .ok root) :
      root = ((read32 mem (rsdp + 16)).setWidth 64, 4) := by
    obtain ⟨rsdt, hrsdt, h⟩ := Exec.bind_eq_ok.mp h
    obtain ⟨-, -, rfl⟩ := load32_eq_ok.mp hrsdt
    exact (Except.ok.inj h).symm
  unfold rootAddress at h
  obtain ⟨revision, hrevision, h⟩ := Exec.bind_eq_ok.mp h
  obtain ⟨-, rfl⟩ := load8_eq_ok.mp hrevision
  unfold rootTable hasXsdt
  by_cases hrev : mem (rsdp + 15) > 1
  · rw [if_pos hrev] at h
    obtain ⟨xsdt, hxsdt, h⟩ := Exec.bind_eq_ok.mp h
    obtain ⟨-, -, rfl⟩ := load64_eq_ok.mp hxsdt
    by_cases hne : read64 mem (rsdp + 24) ≠ 0
    · rw [if_pos hne] at h
      rw [if_pos (decide_eq_true ⟨hrev, hne⟩)]
      exact (Except.ok.inj h).symm
    · rw [if_neg hne] at h
      rw [if_neg (by rw [decide_eq_true_iff]; exact fun hx => hne hx.2)]
      exact hrsdt h
  · rw [if_neg hrev] at h
    rw [if_neg (by rw [decide_eq_true_iff]; exact fun hx => hrev hx.1)]
    exact hrsdt h

/-- **Installation**: when the parser succeeds, the array holds the valid entries of the root
table, in order and cut at 128, and null slots behind them. -/
theorem acpiTbParseRootTable_installed
    (h : acpiTbParseRootTable mem rsdp (Vector.replicate _ 0) = .ok (.ok, tables)) :
    tables.toList = installedTables mem rsdp ++
        List.replicate (acpiMaxTables - (installedTables mem rsdp).length) 0 ∧
      ∀ q ∈ installedTables mem rsdp, HeaderMapped q := by
  unfold acpiTbParseRootTable at h
  obtain ⟨⟨address, size⟩, hroot, h⟩ := Exec.bind_eq_ok.mp h
  have hrootTable := rootAddress_eq_ok hroot
  dsimp only at h
  obtain ⟨length, hlength, h⟩ := Exec.bind_eq_ok.mp h
  obtain ⟨-, -, rfl⟩ := load32_eq_ok.mp hlength
  split at h
  · cases Except.ok.inj h
  obtain ⟨st, hst, h⟩ := Exec.bind_eq_ok.mp h
  split at h
  · rename_i hne
    exact absurd (Prod.mk.inj (Except.ok.inj h)).1 hne
  obtain ⟨tables', hloop, h⟩ := Exec.bind_eq_ok.mp h
  obtain ⟨-, rfl⟩ := Prod.mk.inj (Except.ok.inj h)
  obtain ⟨all, hall, hlist, hmapped⟩ := parseLoop_eq_ok [] (by decide)
    (by simp) nofun hloop
  have hinstalled : installedTables mem rsdp = all := by
    rw [installedTables, rootEntries, ← hrootTable, hall, List.nil_append]
  rw [hinstalled]
  exact ⟨hlist, hmapped⟩

end Installation

/-! ## No store outside of the array

The array is a parameter of the loads and stores here, and whatever the memory says, no function
stores at an index from 128 on. Each function has a lemma, by the rules for sequences of actions. -/

section Stores

variable {α β : Type} {mem : Memory}

/-- A computation that does not store outside of an array. -/
def StoresInside (x : Exec α) : Prop := x ≠ .error .outOfBounds

theorem StoresInside.pure (a : α) : StoresInside (.ok a) := Exec.pure_ne_error

theorem StoresInside.bind {x : Exec α} {f : α → Exec β} (hx : StoresInside x)
    (hf : ∀ a, StoresInside (f a)) : StoresInside (x >>= f) :=
  Exec.bind_ne_error hx fun a _ => hf a

theorem StoresInside.ite {c : Prop} [Decidable c] {x y : Exec α} (hx : StoresInside x)
    (hy : StoresInside y) : StoresInside (if c then x else y) := by
  by_cases hc : c
  · rw [if_pos hc]
    exact hx
  · rw [if_neg hc]
    exact hy

theorem load8_storesInside (p : BitVec 64) : StoresInside (load8 mem p) :=
  load8_ne_error fun _ => Fault.noConfusion

theorem load32_storesInside (p : BitVec 64) : StoresInside (load32 mem p) :=
  load32_ne_error fun _ => Fault.noConfusion

theorem load64_storesInside (p : BitVec 64) : StoresInside (load64 mem p) :=
  load64_ne_error fun _ => Fault.noConfusion

theorem acpiCompareName_storesInside (p : BitVec 64) (name : AcpiName) :
    StoresInside (acpiCompareName mem p name) :=
  strncmpEq_ne_error fun _ => Fault.noConfusion

theorem checksumLoop_storesInside (stop : BitVec 64) (fuel : ℕ) (p : BitVec 64) (sum : BitVec 8) :
    StoresInside (checksumLoop mem stop fuel p sum) := by
  induction fuel generalizing p sum with
  | zero => exact .ite nofun (.pure _)
  | succ fuel ih => exact .ite ((load8_storesInside p).bind fun _ => ih _ _) (.pure _)

theorem acpiTbVerifyChecksum_storesInside (p : BitVec 64) (length : BitVec 32) :
    StoresInside (acpiTbVerifyChecksum mem p length) :=
  (acpiCompareName_storesInside _ _).bind fun _ => .ite (.pure _) <|
    (acpiCompareName_storesInside _ _).bind fun _ => .ite (.pure _) <|
    (checksumLoop_storesInside _ _ _ _).bind fun _ => .pure _

/-- The loop of the parser stops when the array is full. -/
theorem parseLoop_storesInside (size n : ℕ) (p : BitVec 64) {i : ℕ} (hi : i < acpiMaxTables)
    (tables : InitialTables) : StoresInside (parseLoop mem size n p i tables) := by
  induction n generalizing p i tables with
  | zero => exact .pure _
  | succ n ih =>
    refine StoresInside.bind (.ite ((load32_storesInside p).bind fun _ => .pure _)
      (load64_storesInside p)) fun address => .ite (ih _ hi _) ?_
    refine (load32_storesInside _).bind fun length =>
      (acpiTbVerifyChecksum_storesInside _ _).bind fun st => .ite (ih _ hi _) ?_
    rw [store_of_lt _ _ hi, Exec.ok_bind]
    by_cases hfull : i + 1 = acpiMaxTables
    · rw [if_pos hfull]
      exact .pure _
    · rw [if_neg hfull]
      exact ih _ (by omega) _

theorem rootAddress_storesInside (rsdp : BitVec 64) : StoresInside (rootAddress mem rsdp) := by
  have hrsdt : StoresInside (rsdtAddress mem rsdp) := (load32_storesInside _).bind fun _ => .pure _
  exact (load8_storesInside _).bind fun _ =>
    .ite ((load64_storesInside _).bind fun _ => .ite (.pure _) hrsdt) hrsdt

/-- **Bounds**: the parser never stores outside of `initial_tables`. -/
theorem acpiTbParseRootTable_storesInside (rsdp : BitVec 64) (tables : InitialTables) :
    StoresInside (acpiTbParseRootTable mem rsdp tables) := by
  refine (rootAddress_storesInside rsdp).bind fun ⟨address, size⟩ =>
    (load32_storesInside _).bind fun length => .ite (.pure _) <|
    (acpiTbVerifyChecksum_storesInside _ _).bind fun st => .ite (.pure _) ?_
  exact (parseLoop_storesInside _ _ _ (i := 0) (by decide) _).bind fun _ => .pure _

end Stores

/-! ## Lookup

The loop does not ask whether a slot is null, and reads the table at address 0 there. It is right
when it stops before that, at a table of this name, or when there is no null slot to stop at. -/

section Lookup

variable {mem : Memory} {id : AcpiName} {l : List (BitVec 64)}

/-- A table that is found ends the search. -/
theorem findLoop_of_mem (hm : ∀ p ∈ l, HeaderMapped p) (h : ∃ p ∈ l, HasSignature mem id p)
    (rest : List (BitVec 64)) :
    ∃ headers, findLoop mem id (l ++ rest) =
        .ok ((l.find? fun p => HasSignature mem id p).getD 0, headers) ∧
      ∀ p ∈ headers, p ∈ l := by
  induction l with
  | nil => exact absurd h (by simp)
  | cons p l ih =>
    obtain ⟨hp, hl⟩ := List.forall_mem_cons.mp hm
    rw [List.cons_append, findLoop, acpiCompareName_of_mapped hp, Exec.ok_bind]
    by_cases hsig : HasSignature mem id p
    · refine ⟨[p], ?_, fun q hq => by rw [List.mem_singleton.mp hq]; exact List.mem_cons_self ..⟩
      rw [decide_eq_true hsig, if_pos rfl,
        List.find?_cons_of_pos (by rw [decide_eq_true_iff]; exact hsig)]
      rfl
    · have h' : ∃ q ∈ l, HasSignature mem id q := by
        obtain ⟨q, hq, hqsig⟩ := h
        rcases List.mem_cons.mp hq with rfl | hq
        · exact absurd hqsig hsig
        · exact ⟨q, hq, hqsig⟩
      obtain ⟨headers, hfind, hheaders⟩ := ih hl h'
      refine ⟨p :: headers, ?_, ?_⟩
      · rw [decide_eq_false hsig, if_neg Bool.false_ne_true, hfind,
          List.find?_cons_of_neg (by rw [decide_eq_true_iff]; exact hsig)]
        rfl
      · intro q hq
        rcases List.mem_cons.mp hq with rfl | hq
        · exact List.mem_cons_self ..
        · exact List.mem_cons_of_mem _ (hheaders q hq)

/-- Without one, the search goes on behind the tables. -/
theorem findLoop_of_notMem (hm : ∀ p ∈ l, HeaderMapped p) (h : ∀ p ∈ l, ¬HasSignature mem id p)
    (rest : List (BitVec 64)) :
    findLoop mem id (l ++ rest) =
      (findLoop mem id rest).map fun found => (found.1, l ++ found.2) := by
  induction l with
  | nil =>
    rw [List.nil_append]
    rcases findLoop mem id rest with e | found
    · rfl
    · rfl
  | cons p l ih =>
    obtain ⟨hp, hl⟩ := List.forall_mem_cons.mp hm
    obtain ⟨hsig, hno⟩ := List.forall_mem_cons.mp h
    rw [List.cons_append, findLoop, acpiCompareName_of_mapped hp, Exec.ok_bind,
      decide_eq_false hsig, if_neg Bool.false_ne_true, ih hl hno]
    rcases findLoop mem id rest with e | found
    · rfl
    · rfl

/-- A search that starts at a null slot reads through it. -/
theorem mem_headers_of_findLoop {p q : BitVec 64} {rest headers : List (BitVec 64)}
    (h : findLoop mem id (p :: rest) = .ok (q, headers)) : p ∈ headers := by
  rw [findLoop] at h
  obtain ⟨b, -, h⟩ := Exec.bind_eq_ok.mp h
  split at h
  · obtain ⟨-, rfl⟩ := Prod.mk.inj (Except.ok.inj h)
    exact List.mem_singleton_self _
  · obtain ⟨found, -, h⟩ := Exec.bind_eq_ok.mp h
    obtain ⟨-, rfl⟩ := Prod.mk.inj (Except.ok.inj h)
    exact List.mem_cons_self ..

theorem findLoop_ne_outOfFuel : findLoop mem id l ≠ .error .outOfFuel := by
  induction l with
  | nil => exact Exec.pure_ne_error
  | cons tableHeader rest ih =>
    refine Exec.bind_ne_error (strncmpEq_ne_error fun _ => Fault.noConfusion) fun b _ => ?_
    cases b with
    | true => exact Exec.pure_ne_error
    | false => exact Exec.bind_ne_error ih fun _ _ => Exec.pure_ne_error

/-- The signature of a table that is found has been read. -/
theorem mapped_of_findLoop {table : BitVec 64} {headers : List (BitVec 64)}
    (h : findLoop mem id l = .ok (table, headers)) (hne : table ≠ 0) : Mapped table := by
  induction l generalizing headers with
  | nil =>
    cases h
    exact absurd rfl hne
  | cons tableHeader rest ih =>
    obtain ⟨b, hb, h⟩ := Exec.bind_eq_ok.mp h
    cases b with
    | true =>
      cases h
      exact mapped_of_acpiCompareName hb
    | false =>
      obtain ⟨⟨found, _⟩, hrest, h⟩ := Exec.bind_eq_ok.mp h
      cases h
      exact ih hrest

/-- What `acpi_find_table` should do: return the first installed table with the signature, or
null, and read the headers of installed tables only. -/
def FindsTable (mem : Memory) (rsdp : BitVec 64) (tables : InitialTables) (id : AcpiName) : Prop :=
  ∃ headers, acpiFindTable mem tables id =
      .ok (((installedTables mem rsdp).find? fun p => HasSignature mem id p).getD 0, headers) ∧
    ∀ p ∈ headers, p ∈ installedTables mem rsdp

/-- **Tables and their lookup**: the parser stores inside of the array. When it succeeds, the
array holds the tables to install and null slots; and a lookup does what it should exactly when
a table with the signature is installed, or when there is no null slot. -/
theorem acpiFindTable_iff (mem : Memory) (rsdp : BitVec 64) :
    acpiTbParseRootTable mem rsdp (Vector.replicate _ 0) ≠ .error .outOfBounds ∧
      ∀ tables, acpiTbParseRootTable mem rsdp (Vector.replicate _ 0) = .ok (.ok, tables) →
        tables.toList = installedTables mem rsdp ++
            List.replicate (acpiMaxTables - (installedTables mem rsdp).length) 0 ∧
          ∀ id, FindsTable mem rsdp tables id ↔
            (∃ p ∈ installedTables mem rsdp, HasSignature mem id p) ∨
              (installedTables mem rsdp).length = acpiMaxTables := by
  refine ⟨acpiTbParseRootTable_storesInside rsdp _, fun tables h => ?_⟩
  obtain ⟨hlist, hmapped⟩ := acpiTbParseRootTable_installed h
  refine ⟨hlist, fun id => ?_⟩
  unfold FindsTable acpiFindTable
  rw [hlist]
  by_cases hfound : ∃ p ∈ installedTables mem rsdp, HasSignature mem id p
  · exact iff_of_true (findLoop_of_mem hmapped hfound _) (.inl hfound)
  have hno : ∀ p ∈ installedTables mem rsdp, ¬HasSignature mem id p :=
    fun p hp hsig => hfound ⟨p, hp, hsig⟩
  have hnone : (installedTables mem rsdp).find? (fun p => HasSignature mem id p) = none :=
    List.find?_eq_none.mpr fun p hp => by rw [decide_eq_true_iff]; exact hno p hp
  rw [findLoop_of_notMem hmapped hno, hnone]
  by_cases hfull : (installedTables mem rsdp).length = acpiMaxTables
  · refine iff_of_true ⟨installedTables mem rsdp, ?_, fun _ hp => hp⟩ (.inr hfull)
    rw [hfull, Nat.sub_self, List.replicate_zero]
    exact congrArg (fun l => Except.ok (0, l)) (List.append_nil _)
  · refine iff_of_false ?_ (not_or.mpr ⟨hfound, hfull⟩)
    rintro ⟨headers, hfind, hheaders⟩
    have hlt : (installedTables mem rsdp).length < acpiMaxTables := by
      refine lt_of_le_of_ne ?_ hfull
      rw [installedTables]
      exact List.length_take_le ..
    obtain ⟨k, hk⟩ := Nat.exists_eq_add_one_of_ne_zero (Nat.sub_ne_zero_of_lt hlt)
    rw [hk, List.replicate_succ] at hfind
    rcases hrest : findLoop mem id (0 :: List.replicate k 0) with e | ⟨q, headers'⟩
    · rw [hrest] at hfind
      cases hfind
    · rw [hrest] at hfind
      obtain ⟨-, rfl⟩ := Prod.mk.inj (Except.ok.inj hfind)
      -- null is read, but no installed table is null
      have hzero := hheaders 0 (List.mem_append_right _ (mem_headers_of_findLoop hrest))
      have hvalid := (List.mem_filter.mp (List.mem_of_mem_take hzero)).2
      exact absurd rfl (of_decide_eq_true hvalid).1

end Lookup

/-- `ACPI_SIG_MADT`, the table with the interrupt controllers. -/
def acpiSigMadt : AcpiName := ⟨#v[0x41, 0x50, 0x49, 0x43], by decide⟩

/-- `ACPI_SIG_DMAR`, the table with the remapping hardware. -/
def acpiSigDmar : AcpiName := ⟨#v[0x44, 0x4d, 0x41, 0x52], by decide⟩

/-- An RSDP of revision 0 at 0x1000, its RSDT at 0x2000, and a MADT at 0x3000 as the only
table. -/
def madtMemory : Memory := fun p =>
  match p.toNat with
  | 0x1011 => 0x20
  | 0x2000 => 0x52 | 0x2001 => 0x53 | 0x2002 => 0x44 | 0x2003 => 0x54
  | 0x2004 => 40 | 0x2009 => 0x6b | 0x2025 => 0x30
  | 0x3000 => 0x41 | 0x3001 => 0x50 | 0x3002 => 0x49 | 0x3003 => 0x43
  | 0x3004 => 44 | 0x3009 => 0xb7
  | _ => 0

theorem acpiFindTable_iff_madtMemory :
    ∃ tables, acpiTbParseRootTable madtMemory 0x1000 (Vector.replicate _ 0) = .ok (.ok, tables) ∧
      tables.toList = 0x3000 :: List.replicate 127 0 ∧
      FindsTable madtMemory 0x1000 tables acpiSigMadt := by
  have hinstalled : installedTables madtMemory 0x1000 = [0x3000] := by decide +kernel
  obtain ⟨⟨st, tables⟩, hparse, hst⟩ := Exec.exists_of_any
    (x := acpiTbParseRootTable madtMemory 0x1000 (Vector.replicate _ 0)) (p := (·.1 = .ok))
    (by decide +kernel)
  obtain rfl : st = .ok := of_decide_eq_true hst
  obtain ⟨hlist, hfind⟩ := (acpiFindTable_iff madtMemory 0x1000).2 tables hparse
  refine ⟨tables, hparse, ?_, (hfind acpiSigMadt).mpr (.inl ⟨0x3000, ?_, by decide +kernel⟩)⟩
  · rw [hlist, hinstalled]
    rfl
  · rw [hinstalled]
    exact List.mem_singleton_self _

/-- The lookup of a table that is not there reads through null. -/
theorem not_findsTable_madtMemory :
    ∃ tables, acpiTbParseRootTable madtMemory 0x1000 (Vector.replicate _ 0) = .ok (.ok, tables) ∧
      ¬FindsTable madtMemory 0x1000 tables acpiSigDmar := by
  obtain ⟨⟨st, tables⟩, hparse, hfind⟩ := Exec.exists_of_any
    (x := acpiTbParseRootTable madtMemory 0x1000 (Vector.replicate _ 0))
    (p := fun (st, tables) => st = .ok ∧
      (acpiFindTable madtMemory tables acpiSigDmar).toOption.all fun found => 0 ∈ found.2)
    (by decide +kernel)
  obtain ⟨rfl, hzero⟩ := of_decide_eq_true hfind
  refine ⟨tables, hparse, ?_⟩
  rintro ⟨headers, hfound, hheaders⟩
  rw [hfound] at hzero
  have hmem := hheaders 0 (of_decide_eq_true hzero)
  exact absurd hmem (by decide +kernel)

end Lvisor
