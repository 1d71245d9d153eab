import Lvisor.Aout
import Lvisor.BootMap
import Lvisor.Strings
import Lvisor.Strscpy

/-!
# From the boot loader to the kernel of the guest

The VMM is a Multiboot kernel, and its firmware is a Multiboot loader. `multiboot_init` reads what
the boot loader left, `kvm_init` puts it into `guest_params` at the head of the firmware, and
`load_multiboot` (`firmware/multiboot.c`) makes a `struct multiboot_info` of it for the kernel of
the guest.

* `guestParamsAt` — `struct guest_params` in memory, and what is read back of it;
* `firmwareMain` — the firmware, from the place on where it clears its `.bss`;
* `Told` — what a kernel finds in `struct multiboot_info`;
* `kernel_told` — the kernel of the guest is told what the VMM was told, with the VMM masked out.
-/

namespace Lvisor

open GuestParams (leByte)

/-! ## Fields in memory -/

section Fields

variable {mem : Memory} {p q a : BitVec 64} {fields : List (ℕ × BitVec 32)} {i n : ℕ}

theorem read64_of_leByte {x : BitVec 64} (h : ∀ i < 8, mem (q + BitVec.ofNat 64 i) = leByte x i) :
    read64 mem q = x := by
  rw [← read64_storeLe mem q x]
  refine read64_congr fun a ha => ?_
  rw [storeLe_of_lt ha, ← h _ ha, add_ofNat_toNat_sub]

theorem read32_of_leByte {x : BitVec 32} (h : ∀ i < 4, mem (q + BitVec.ofNat 64 i) = leByte x i) :
    read32 mem q = x := by
  rw [← read32_storeLe mem q x]
  refine read32_congr fun a ha => ?_
  rw [storeLe_of_lt ha, ← h _ ha, add_ofNat_toNat_sub]

/-- Stores to the fields of a structure at `p`, by their offsets. -/
def storeFields (mem : Memory) (p : BitVec 64) (fields : List (ℕ × BitVec 32)) : Memory :=
  fields.foldl (fun mem f => storeLe mem (p + BitVec.ofNat 64 f.1) f.2) mem

/-- A word beside the one that is stored is as before. -/
theorem read32_storeLe_of_apart {x : BitVec 32} {j : ℕ} (hi : i < 2 ^ 32) (hj : j < 2 ^ 32)
    (h : i + 4 ≤ j ∨ j + 4 ≤ i) :
    read32 (storeLe mem (p + BitVec.ofNat 64 i) x) (p + BitVec.ofNat 64 j) =
      read32 mem (p + BitVec.ofNat 64 j) := by
  refine read32_congr fun a ha => storeLe_of_le ?_
  have hi' : (BitVec.ofNat 64 i).toNat = i := by
    rw [BitVec.toNat_ofNat]
    omega
  have hj' : (BitVec.ofNat 64 j).toNat = j := by
    rw [BitVec.toNat_ofNat]
    omega
  bv_omega

theorem read32_storeFields_of_apart (hi : i < 2 ^ 32)
    (h : ∀ f ∈ fields, f.1 < 2 ^ 32 ∧ (f.1 + 4 ≤ i ∨ i + 4 ≤ f.1)) :
    read32 (storeFields mem p fields) (p + BitVec.ofNat 64 i) =
      read32 mem (p + BitVec.ofNat 64 i) := by
  induction fields generalizing mem with
  | nil => rfl
  | cons f fields ih =>
    obtain ⟨⟨hf, hapart⟩, hfields⟩ := List.forall_mem_cons.mp h
    rw [storeFields, List.foldl_cons, ← storeFields, ih hfields,
      read32_storeLe_of_apart hf hi hapart]

/-- The last store to a field is what is read there, if no later one touches it. -/
theorem read32_storeFields {x : BitVec 32} (hi : i < 2 ^ 32)
    (h : ∀ f ∈ fields, f.1 < 2 ^ 32 ∧ (f.1 + 4 ≤ i ∨ i + 4 ≤ f.1)) :
    read32 (storeFields mem p ((i, x) :: fields)) (p + BitVec.ofNat 64 i) = x := by
  rw [storeFields, List.foldl_cons, ← storeFields, read32_storeFields_of_apart hi h]
  exact read32_storeLe _ _ _

/-- Stores to fields that are apart are all there. -/
theorem read32_storeFields_of_mem {x : BitVec 32}
    (hfields : fields.Pairwise fun f f' => f.1 + 4 ≤ f'.1 ∨ f'.1 + 4 ≤ f.1)
    (hbound : ∀ f ∈ fields, f.1 < 2 ^ 32) (hmem : (i, x) ∈ fields) :
    read32 (storeFields mem p fields) (p + BitVec.ofNat 64 i) = x := by
  induction fields generalizing mem with
  | nil => exact absurd hmem List.not_mem_nil
  | cons f fields ih =>
    obtain ⟨hapart, hrest⟩ := List.pairwise_cons.mp hfields
    obtain ⟨hf, hbounds⟩ := List.forall_mem_cons.mp hbound
    rcases List.mem_cons.mp hmem with rfl | hmem
    · exact read32_storeFields hf fun f' hf' => ⟨hbounds f' hf', (hapart f' hf').symm⟩
    · rw [storeFields, List.foldl_cons, ← storeFields]
      exact ih hrest hbounds hmem

theorem storeFields_frame (hn : n ≤ 2 ^ 32) (h : ∀ f ∈ fields, f.1 + 4 ≤ n)
    (ha : ¬Within p n a) : storeFields mem p fields a = mem a := by
  induction fields generalizing mem with
  | nil => rfl
  | cons f fields ih =>
    obtain ⟨hf, hfields⟩ := List.forall_mem_cons.mp h
    rw [storeFields, List.foldl_cons, ← storeFields, ih hfields]
    refine storeLe_of_le ?_
    have hf' : (BitVec.ofNat 64 f.1).toNat = f.1 := by
      rw [BitVec.toNat_ofNat]
      omega
    rw [Within] at ha
    bv_omega

end Fields

/-! ## `struct guest_params` -/

/-- The entry of `e820_table` at `p`, from its twenty bytes. -/
def e820EntryAt (mem : Memory) (p : BitVec 64) : E820Entry :=
  ⟨read64 mem p, read64 mem (p + 8#64), read32 mem (p + 16#64)⟩

/-- `struct guest_params` at `p`, member by member at the offsets of the packed structure. -/
def guestParamsAt (mem : Memory) (p : BitVec 64) : GuestParams where
  magic := Vector.ofFn fun i => mem (p + BitVec.ofNat 64 i)
  kernelStart := read64 mem (p + 8#64)
  kernelEnd := read64 mem (p + 16#64)
  initrdStart := read64 mem (p + 24#64)
  initrdEnd := read64 mem (p + 32#64)
  cmdline i := mem (p + BitVec.ofNat 64 (40 + i))
  e820Entries := read32 mem (p + 1064#64)
  e820Table := Vector.ofFn fun i => e820EntryAt mem (p + BitVec.ofNat 64 (1068 + 20 * i))

/-- The structure `g` is at `p`: all of its bytes are there. -/
def ParamsAt (mem : Memory) (p : BitVec 64) (g : GuestParams) : Prop :=
  ∀ i < GuestParams.sizeof, mem (p + BitVec.ofNat 64 i) = g.byte i

section Params

variable {mem mem' : Memory} {p : BitVec 64} {g : GuestParams}

theorem ParamsAt.congr (h : ParamsAt mem p g)
    (hsame : ∀ a, Within p GuestParams.sizeof a → mem' a = mem a) : ParamsAt mem' p g :=
  fun i hi => (hsame _ (within_add hi (by decide))).trans (h i hi)

theorem ParamsAt.read64 (h : ParamsAt mem p g) {o : ℕ} {x : BitVec 64}
    (ho : o + 8 ≤ GuestParams.sizeof) (hx : ∀ i < 8, g.byte (o + i) = leByte x i) :
    read64 mem (p + BitVec.ofNat 64 o) = x := by
  refine read64_of_leByte fun i hi => ?_
  rw [add_ofNat_add, h (o + i) (by omega), hx i hi]

theorem ParamsAt.read32 (h : ParamsAt mem p g) {o : ℕ} {x : BitVec 32}
    (ho : o + 4 ≤ GuestParams.sizeof) (hx : ∀ i < 4, g.byte (o + i) = leByte x i) :
    read32 mem (p + BitVec.ofNat 64 o) = x := by
  refine read32_of_leByte fun i hi => ?_
  rw [add_ofNat_add, h (o + i) (by omega), hx i hi]

/-- The bytes of an entry of the table inside of the structure. -/
theorem GuestParams.byte_entry (g : GuestParams) {k i : ℕ} (hk : k < e820MaxEntries)
    (hi : i < 20) : g.byte (1068 + 20 * k + i) =
      if i < 8 then leByte (g.e820Table.get ⟨k, hk⟩).addr i
      else if i < 16 then leByte (g.e820Table.get ⟨k, hk⟩).size (i - 8)
      else leByte (g.e820Table.get ⟨k, hk⟩).type (i - 16) := by
  have hdiv : (1068 + 20 * k + i - (44 + cmdlineSize)) / 20 = k := by
    unfold cmdlineSize
    omega
  have hmod : (1068 + 20 * k + i - (44 + cmdlineSize)) % 20 = i := by
    unfold cmdlineSize
    omega
  have hget : g.e820Table.getD k default = g.e820Table.get ⟨k, hk⟩ := by
    simp [Vector.getD, hk, Vector.get]
  rw [GuestParams.byte, if_neg (by omega), if_neg (by omega), if_neg (by omega),
    if_neg (by omega), if_neg (by omega), if_neg (by unfold cmdlineSize; omega),
    if_neg (by unfold cmdlineSize; omega)]
  dsimp only
  rw [hdiv, hmod, hget]

theorem ParamsAt.e820Entry (h : ParamsAt mem p g) {k : ℕ} (hk : k < e820MaxEntries) :
    e820EntryAt mem (p + BitVec.ofNat 64 (1068 + 20 * k)) = g.e820Table.get ⟨k, hk⟩ := by
  have hk' : k < 128 := hk
  have hsize : GuestParams.sizeof = 3628 := rfl
  have haddr := h.read64 (o := 1068 + 20 * k) (by omega) fun i hi => by
    rw [g.byte_entry hk (by omega), if_pos hi]
  have hlen := h.read64 (o := 1068 + 20 * k + 8) (by omega) fun i hi => by
    rw [Nat.add_assoc, g.byte_entry hk (by omega), if_neg (by omega), if_pos (by omega),
      Nat.add_sub_cancel_left]
  have htype := h.read32 (o := 1068 + 20 * k + 16) (by omega) fun i hi => by
    rw [Nat.add_assoc, g.byte_entry hk (by omega), if_neg (by omega), if_neg (by omega),
      Nat.add_sub_cancel_left]
  rw [← add_ofNat_add] at hlen htype
  rw [e820EntryAt, haddr, hlen, htype]

/-- **Round trip**: what is read back of the structure. -/
theorem ParamsAt.guestParamsAt (h : ParamsAt mem p g) :
    (guestParamsAt mem p).kernelStart = g.kernelStart ∧
    (guestParamsAt mem p).kernelEnd = g.kernelEnd ∧
    (guestParamsAt mem p).initrdStart = g.initrdStart ∧
    (guestParamsAt mem p).initrdEnd = g.initrdEnd ∧
    (∀ i < cmdlineSize, (guestParamsAt mem p).cmdline i = g.cmdline i) ∧
    (guestParamsAt mem p).e820Entries = g.e820Entries ∧
    (guestParamsAt mem p).e820Table = g.e820Table := by
  have hsize : GuestParams.sizeof = 3628 := rfl
  have hcmdline : cmdlineSize = 1024 := rfl
  refine ⟨?_, ?_, ?_, ?_, fun i hi => ?_, ?_, ?_⟩
  · refine h.read64 (o := 8) (by omega) fun i hi => ?_
    rw [GuestParams.byte, if_neg (by omega), if_pos (by omega), Nat.add_sub_cancel_left]
  · refine h.read64 (o := 16) (by omega) fun i hi => ?_
    rw [GuestParams.byte, if_neg (by omega), if_neg (by omega), if_pos (by omega),
      Nat.add_sub_cancel_left]
  · refine h.read64 (o := 24) (by omega) fun i hi => ?_
    rw [GuestParams.byte, if_neg (by omega), if_neg (by omega), if_neg (by omega),
      if_pos (by omega), Nat.add_sub_cancel_left]
  · refine h.read64 (o := 32) (by omega) fun i hi => ?_
    rw [GuestParams.byte, if_neg (by omega), if_neg (by omega), if_neg (by omega),
      if_neg (by omega), if_pos (by omega), Nat.add_sub_cancel_left]
  · refine (h (40 + i) (by omega)).trans ?_
    rw [GuestParams.byte, if_neg (by omega), if_neg (by omega), if_neg (by omega),
      if_neg (by omega), if_neg (by omega), if_pos (by omega), Nat.add_sub_cancel_left]
  · refine h.read32 (o := 1064) (by omega) fun i hi => ?_
    rw [GuestParams.byte, if_neg (by omega), if_neg (by omega), if_neg (by omega),
      if_neg (by omega), if_neg (by omega), if_neg (by omega), if_pos (by omega),
      show 1064 + i - (40 + cmdlineSize) = i by omega]
  · refine Vector.ext fun k hk => ?_
    have hentry := h.e820Entry hk
    simpa [Lvisor.guestParamsAt, Vector.get] using hentry

end Params

/-! ## The firmware -/

/-- The firmware as it is linked: its `.bss`, the static data of `multiboot.c` in it, and the
string `"initrd"`. -/
structure FirmwareImage where
  bss : BitVec 32
  ebss : BitVec 32
  multibootInfo : BitVec 32
  modList : BitVec 32
  mmap : BitVec 32
  initrd : BitVec 32
  head_le : firmwareStart.toNat + GuestParams.sizeof ≤ bss.toNat
  info_mem : bss.toNat ≤ multibootInfo.toNat ∧
    multibootInfo.toNat + sizeofMultibootInfo ≤ ebss.toNat
  list_mem : bss.toNat ≤ modList.toNat ∧ modList.toNat + 16 ≤ ebss.toNat
  mmap_mem : bss.toNat ≤ mmap.toNat ∧ mmap.toNat + e820MaxEntries * 24 ≤ ebss.toNat
  info_list : multibootInfo.toNat + sizeofMultibootInfo ≤ modList.toNat ∨
    modList.toNat + 16 ≤ multibootInfo.toNat
  info_mmap : multibootInfo.toNat + sizeofMultibootInfo ≤ mmap.toNat ∨
    mmap.toNat + e820MaxEntries * 24 ≤ multibootInfo.toNat
  list_mmap : modList.toNat + 16 ≤ mmap.toNat ∨ mmap.toNat + e820MaxEntries * 24 ≤ modList.toNat

/-- The bytes of the firmware, with its `.bss`, from its start on. -/
def FirmwareImage.Owns (fw : FirmwareImage) (a : BitVec 64) : Prop :=
  firmwareStart.toNat ≤ a.toNat ∧ a.toNat < fw.ebss.toNat

/-- `VMM_START`: the firmware tells a kernel that memory goes up to here. -/
abbrev vmmStart : ℕ := 0x10000000

/-- The flags of the information that is given: `MULTIBOOT_INFO_MEMORY`,
`MULTIBOOT_INFO_CMDLINE`, `MULTIBOOT_INFO_MODS` and `MULTIBOOT_INFO_MEM_MAP`. -/
abbrev multibootInfoFlags : BitVec 32 := 0x1#32 ||| 0x4#32 ||| 0x8#32 ||| multibootInfoMemMap

/-- The jump to the kernel: memory, the two registers of the Multiboot specification, and the
entry point. -/
structure Handover where
  mem : Memory
  eax : BitVec 32
  ebx : BitVec 32
  eip : BitVec 32

/-- The part of `load_multiboot` about the initrd. In `struct multiboot_info` there are
`mods_count` at 20 and `mods_addr` at 24. -/
def storeInitrd (fw : FirmwareImage) (initrdStart initrdEnd : BitVec 64) (mem : Memory) : Memory :=
  if initrdStart < initrdEnd then
    let mem := storeFields mem (fw.multibootInfo.setWidth 64) [(20, 1)]
    let mem := storeFields mem (fw.modList.setWidth 64) [(0, initrdStart.setWidth 32),
      (4, initrdEnd.setWidth 32), (8, fw.initrd)]
    storeFields mem (fw.multibootInfo.setWidth 64) [(24, fw.modList)]
  else mem

/-- `load_multiboot` with the jump of `start_multiboot`; `none` where it returns. In
`struct multiboot_info` there are `flags` at 0, `mem_lower` at 4, `mem_upper` at 8, `cmdline`
at 16, `mmap_length` at 44 and `mmap_addr` at 48. -/
def loadMultibootKernel (fw : FirmwareImage) (guestParams : BitVec 64) (mem : Memory) :
    Exec (Option Handover) := do
  match ← loadMultibootImage mem (read64 mem (guestParams + 8#64)) with
  | none => return none
  | some (mem, entry) =>
    let info := fw.multibootInfo.setWidth 64
    let mem := storeFields mem info [(0, multibootInfoFlags), (4, 0),
      (8, BitVec.ofNat 32 ((vmmStart - 0x100000) / 0x400)), (16, (guestParams + 40#64).setWidth 32)]
    let initrdStart := read64 mem (guestParams + 24#64)
    let initrdEnd := read64 mem (guestParams + 32#64)
    let mem := storeInitrd fw initrdStart initrdEnd mem
    let (mem, map) ← loadMultiboot (guestParamsAt mem guestParams) fw.mmap mem
    let mem := storeFields mem info [(48, map.mmapAddr), (44, map.mmapLength)]
    return some ⟨mem, multibootBootloaderMagic, fw.multibootInfo, entry⟩

/-- The firmware clears its `.bss`, in which the Multiboot structures are. -/
def FirmwareImage.zeroBss (fw : FirmwareImage) (mem : Memory) : Memory :=
  memset (fw.ebss - fw.bss).toNat mem (fw.bss.setWidth 64) 0

/-- The firmware from `start64` on; `none` is where it finds no kernel that it can load. -/
def firmwareMain (fw : FirmwareImage) (mem : Memory) : Exec (Option Handover) :=
  loadMultibootKernel fw firmwareStart (fw.zeroBss mem)

/-! ## What a kernel finds

What a kernel reads by the Multiboot specification, field by field, and what the firmware has
written for it. The map comes first, then the fields of the structure, then the module list. -/

/-- What a Multiboot kernel finds at `info`: the memory map, its command line and its modules. -/
structure Told (mem : Memory) (info : BitVec 64) (map : List E820Entry)
    (cmdline : List (BitVec 8)) (mods : List (BitVec 32 × BitVec 32)) : Prop where
  flags : read32 mem info = multibootInfoFlags
  lower : read32 mem (info + 4#64) = 0
  upper : 0x100000 + 0x400 * (read32 mem (info + 8#64)).toNat = vmmStart
  cmdline : StringAt (fun a => some (mem a)) ((read32 mem (info + 16#64)).setWidth 64) cmdline
  mods_count : (read32 mem (info + 20#64)).toNat = mods.length
  mods : ∀ i (h : i < mods.length),
    let mod := (read32 mem (info + 24#64)).setWidth 64 + BitVec.ofNat 64 (16 * i)
    mods[i] = (read32 mem mod, read32 mem (mod + 4#64))
  map_length : (read32 mem (info + 44#64)).toNat = mmapLength (map.map E820Entry.record)
  map : Tiles mem ((read32 mem (info + 48#64)).setWidth 64) (map.map E820Entry.record)

/-- The initrd as the one module of the kernel, if it is not empty. -/
def GuestParams.initrd (g : GuestParams) : List (BitVec 32 × BitVec 32) :=
  if g.initrdStart < g.initrdEnd then [(g.initrdStart.setWidth 32, g.initrdEnd.setWidth 32)] else []

section Frames

variable {mem mem' : Memory} {x y : BitVec 32} {n m o : ℕ}

/-- A structure at `x` is not changed by stores to another one at `y`. -/
theorem read32_of_frame (hframe : ∀ a, ¬Within (y.setWidth 64) n a → mem' a = mem a)
    (hn : n ≤ 2 ^ 32) (hm : x.toNat + m < 2 ^ 32)
    (hapart : x.toNat + m ≤ y.toNat ∨ y.toNat + n ≤ x.toNat) (ho : o + 4 ≤ m) :
    read32 mem' (x.setWidth 64 + BitVec.ofNat 64 o) =
      read32 mem (x.setWidth 64 + BitVec.ofNat 64 o) := by
  refine read32_congr fun a ha => hframe a fun hy => ?_
  obtain ⟨hle, hlt⟩ := (within_low hn).mp hy
  have ho' : (BitVec.ofNat 64 o).toNat = o := by
    rw [BitVec.toNat_ofNat]
    omega
  have hx' : (x.setWidth 64).toNat = x.toNat := BitVec.toNat_setWidth_of_le (by decide)
  bv_omega

/-- A string of bytes without a NUL, and a NUL. -/
theorem stringAt_of_bytes {rd : Readable} {p : BitVec 64} {f : ℕ → BitVec 8}
    (h : ∀ i < n, rd (p + BitVec.ofNat 64 i) = some (f i) ∧ f i ≠ 0)
    (hnul : rd (p + BitVec.ofNat 64 n) = some 0) :
    StringAt rd p ((List.range n).map f) := by
  induction n generalizing p f with
  | zero =>
    rw [BitVec.add_zero] at hnul
    exact hnul
  | succ n ih =>
    rw [List.range_succ_eq_map, List.map_cons, List.map_map]
    have hfirst := h 0 (Nat.succ_pos n)
    rw [BitVec.add_zero] at hfirst
    refine ⟨hfirst.1, hfirst.2, ih (fun i hi => ?_) ?_⟩
    · rw [add_one_add_ofNat]
      exact h (i + 1) (Nat.succ_lt_succ hi)
    · rw [add_one_add_ofNat]
      exact hnul

/-- Records of 24 bytes each are what their bytes are. -/
theorem Tiles.congr {es : List E820Entry} {p : BitVec 64}
    (h : Tiles mem p (es.map E820Entry.record))
    (hlen : es.length ≤ 128) (hsame : ∀ a, Within p (es.length * 24) a → mem' a = mem a) :
    Tiles mem' p (es.map E820Entry.record) := by
  induction es generalizing p with
  | nil => trivial
  | cons e es ih =>
    rw [List.length_cons] at hlen hsame
    refine ⟨h.1.congr fun a ha => hsame a ?_, ih h.2 (by omega) fun a ha => hsame a ?_⟩
    · rw [Within]
      omega
    · have hskip : e.record.skip = 24 := rfl
      rw [Within] at ha ⊢
      rw [hskip] at ha
      bv_omega

/-- The loop of `load_multiboot` stores to `mmap` only, whatever the parameters say. -/
theorem loadMultiboot_frame {params : GuestParams} {mmap : BitVec 32} {r : Memory × MmapInfo}
    (h : loadMultiboot params mmap mem = .ok r) {a : BitVec 64}
    (ha : ¬Within (mmap.setWidth 64) (e820MaxEntries * 24) a) : r.1 a = mem a := by
  obtain ⟨mem', hloop, hr⟩ := Exec.bind_eq_ok.mp h
  obtain rfl := Except.ok.inj hr
  change mem' a = mem a
  clear h
  generalize List.range params.e820Entries.toInt.toNat = is at hloop
  induction is generalizing mem with
  | nil =>
    obtain rfl := Except.ok.inj hloop
    rfl
  | cons i is ih =>
    rw [List.foldlM_cons] at hloop
    obtain ⟨mem₁, hstep, hloop⟩ := Exec.bind_eq_ok.mp hloop
    rw [ih hloop]
    by_cases hi : i < e820MaxEntries
    · rw [dif_pos hi] at hstep
      obtain rfl := Except.ok.inj hstep
      have hi' : i < 128 := hi
      have hoff : (BitVec.ofNat 64 (i * 24)).toNat = i * 24 := by
        rw [BitVec.toNat_ofNat]
        omega
      refine storeMmapEntry_of_le ?_
      rw [Within] at ha
      have ha' : 128 * 24 ≤ (a - mmap.setWidth 64).toNat := Nat.not_lt.mp ha
      bv_omega
    · rw [dif_neg hi] at hstep
      cases hstep

end Frames

section Firmware

variable {fw : FirmwareImage} {mem mem₂ : Memory} {g : GuestParams} {entry : BitVec 32} {n : ℕ}

/-- The bytes of the VMM's `guest_params` are below the `.bss` of the firmware. -/
theorem FirmwareImage.owns_of_params (fw : FirmwareImage) {a : BitVec 64}
    (h : Within firmwareStart GuestParams.sizeof a) : fw.Owns a := by
  have hbounds := h.bounds (by decide)
  have hhead := fw.head_le
  have hinfo := fw.info_mem
  exact ⟨hbounds.1, by omega⟩

theorem FirmwareImage.bss_le (fw : FirmwareImage) : fw.bss.toNat ≤ fw.ebss.toNat := by
  have hinfo := fw.info_mem
  omega

theorem FirmwareImage.within_bss (fw : FirmwareImage) (a : BitVec 64) :
    Within (fw.bss.setWidth 64) (fw.ebss - fw.bss).toNat a ↔
      fw.bss.toNat ≤ a.toNat ∧ a.toNat < fw.ebss.toNat := by
  have hle := fw.bss_le
  have hend := fw.ebss.isLt
  have hlen : (fw.ebss - fw.bss).toNat = fw.ebss.toNat - fw.bss.toNat :=
    BitVec.toNat_sub_of_le (BitVec.le_def.mpr hle)
  rw [within_low (by omega)]
  omega

theorem FirmwareImage.zeroBss_eq (fw : FirmwareImage) (mem : Memory) :
    fw.zeroBss mem =
      copyTo mem (fw.bss.setWidth 64) (fw.ebss - fw.bss).toNat fun _ => 0 := by
  have hlt := (fw.ebss - fw.bss).isLt
  exact memset_eq _ _ (by omega)

/-- The data of `load_multiboot` after it has told the kernel. -/
structure Wrote (fw : FirmwareImage) (g : GuestParams) (mem₂ mem : Memory) : Prop where
  flags : read32 mem (fw.multibootInfo.setWidth 64) = multibootInfoFlags
  lower : read32 mem (fw.multibootInfo.setWidth 64 + 4#64) = 0
  upper : read32 mem (fw.multibootInfo.setWidth 64 + 8#64) = 0x3fc00
  cmdline : read32 mem (fw.multibootInfo.setWidth 64 + 16#64) = 0x1028
  mods_count : read32 mem (fw.multibootInfo.setWidth 64 + 20#64) =
    if g.initrdStart < g.initrdEnd then 1 else read32 mem₂ (fw.multibootInfo.setWidth 64 + 20#64)
  mods : g.initrdStart < g.initrdEnd →
    read32 mem (fw.multibootInfo.setWidth 64 + 24#64) = fw.modList ∧
    read32 mem (fw.modList.setWidth 64) = g.initrdStart.setWidth 32 ∧
    read32 mem (fw.modList.setWidth 64 + 4#64) = g.initrdEnd.setWidth 32
  map_length : (read32 mem (fw.multibootInfo.setWidth 64 + 44#64)).toNat =
    mmapLength (g.reported.map E820Entry.record)
  mmap : read32 mem (fw.multibootInfo.setWidth 64 + 48#64) = fw.mmap
  map : Tiles mem (fw.mmap.setWidth 64) (g.reported.map E820Entry.record)
  frame : ∀ a, ¬(fw.bss.toNat ≤ a.toNat ∧ a.toNat < fw.ebss.toNat) → mem a = mem₂ a

/-- Stores to one of the structures in the `.bss`. -/
theorem storeFields_bss {x : BitVec 32} {fields : List (ℕ × BitVec 32)} (hn : n ≤ 2 ^ 32)
    (hx : fw.bss.toNat ≤ x.toNat ∧ x.toNat + n ≤ fw.ebss.toNat) (h : ∀ f ∈ fields, f.1 + 4 ≤ n)
    {a : BitVec 64} (ha : ¬(fw.bss.toNat ≤ a.toNat ∧ a.toNat < fw.ebss.toNat)) :
    storeFields mem (x.setWidth 64) fields a = mem a := by
  refine storeFields_frame hn h fun hin => ha ?_
  obtain ⟨hle, hlt⟩ := (within_low hn).mp hin
  exact ⟨by omega, by omega⟩

section Initrd

variable {a b : BitVec 64} {o : ℕ}

theorem storeInitrd_frame {p : BitVec 64}
    (hp : ¬(fw.bss.toNat ≤ p.toNat ∧ p.toNat < fw.ebss.toNat)) :
    storeInitrd fw a b mem p = mem p := by
  rw [storeInitrd]
  split_ifs with hlt
  · dsimp only
    rw [storeFields_bss (n := 120) (by decide) fw.info_mem (by simp) hp,
      storeFields_bss (n := 16) (by decide) fw.list_mem (by simp) hp,
      storeFields_bss (n := 120) (by decide) fw.info_mem (by simp) hp]
  · rfl

/-- The other fields stay when the initrd is entered. -/
theorem read32_storeInitrd (ho : o + 4 ≤ 20 ∨ 28 ≤ o ∧ o + 4 ≤ 120) :
    read32 (storeInitrd fw a b mem) (fw.multibootInfo.setWidth 64 + BitVec.ofNat 64 o) =
      read32 mem (fw.multibootInfo.setWidth 64 + BitVec.ofNat 64 o) := by
  have hend := fw.ebss.isLt
  have hinfo : _ ∧ fw.multibootInfo.toNat + 120 ≤ fw.ebss.toNat := fw.info_mem
  rw [storeInitrd]
  split_ifs with hlt
  · dsimp only
    rw [read32_storeFields_of_apart (by omega) (by simp; omega),
      read32_of_frame (m := 120) (n := 16)
        (fun p hp => storeFields_frame (by decide) (by simp) hp) (by decide) (by omega)
        fw.info_list (by omega),
      read32_storeFields_of_apart (by omega) (by simp; omega)]
  · rfl

theorem storeInitrd_count :
    read32 (storeInitrd fw a b mem) (fw.multibootInfo.setWidth 64 + 20#64) =
      if a < b then 1 else read32 mem (fw.multibootInfo.setWidth 64 + 20#64) := by
  have hend := fw.ebss.isLt
  have hinfo : _ ∧ fw.multibootInfo.toNat + 120 ≤ fw.ebss.toNat := fw.info_mem
  rw [storeInitrd]
  split_ifs with hlt
  · dsimp only
    rw [read32_storeFields_of_apart (i := 20) (by decide) (by simp),
      read32_of_frame (m := 120) (n := 16) (o := 20)
        (fun p hp => storeFields_frame (by decide) (by simp) hp) (by decide) (by omega)
        fw.info_list (by omega)]
    exact read32_storeFields (by decide) (by simp)
  · rfl

theorem storeInitrd_mods (fw : FirmwareImage) (mem : Memory) (hlt : a < b) :
    read32 (storeInitrd fw a b mem) (fw.multibootInfo.setWidth 64 + 24#64) = fw.modList ∧
    read32 (storeInitrd fw a b mem) (fw.modList.setWidth 64 + 0#64) = a.setWidth 32 ∧
    read32 (storeInitrd fw a b mem) (fw.modList.setWidth 64 + 4#64) = b.setWidth 32 := by
  have hend := fw.ebss.isLt
  have hlist := fw.list_mem
  have hframe : ∀ mem p, ¬Within (fw.multibootInfo.setWidth 64) 120 p →
      storeFields mem (fw.multibootInfo.setWidth 64) [(24, fw.modList)] p = mem p :=
    fun mem p hp => storeFields_frame (by decide) (by simp) hp
  rw [storeInitrd, if_pos hlt]
  dsimp only
  refine ⟨read32_storeFields (by decide) (by simp), ?_, ?_⟩
  · rw [read32_of_frame (m := 16) (o := 0) (hframe _) (by decide) (by omega) fw.info_list.symm
      (by decide)]
    exact read32_storeFields (by decide) (by simp)
  · rw [read32_of_frame (m := 16) (o := 4) (hframe _) (by decide) (by omega) fw.info_list.symm
      (by decide)]
    exact read32_storeFields_of_mem (by simp) (by simp) (by simp)

end Initrd

/-- The fields that are always there: flags, the two sizes of memory, and the command line. -/
def infoFields : List (ℕ × BitVec 32) :=
  [(0, multibootInfoFlags), (4, 0), (8, BitVec.ofNat 32 ((vmmStart - 0x100000) / 0x400)),
    (16, (firmwareStart + 40#64).setWidth 32)]

theorem read32_infoFields {p : BitVec 64} {o : ℕ} {x : BitVec 32} (h : (o, x) ∈ infoFields) :
    read32 (storeFields mem p infoFields) (p + BitVec.ofNat 64 o) = x :=
  read32_storeFields_of_mem (by decide) (by decide) h

/-- The parameters are in front of the `.bss`, so that they outlive what changes only that. -/
theorem FirmwareImage.params_kept (fw : FirmwareImage) {mem' : Memory}
    (h : ParamsAt mem firmwareStart g)
    (hframe : ∀ a, ¬(fw.bss.toNat ≤ a.toNat ∧ a.toNat < fw.ebss.toNat) → mem' a = mem a) :
    ParamsAt mem' firmwareStart g := by
  refine h.congr fun a ha => hframe a fun hin => ?_
  have hbounds := ha.bounds (by decide)
  have hhead := fw.head_le
  omega

/-- What `load_multiboot` has stored for the memory map, from `mem` on. -/
structure MapWrote (fw : FirmwareImage) (g : GuestParams) (mem mem' : Memory) : Prop where
  info : ∀ o, o + 4 ≤ 44 ∨ 52 ≤ o ∧ o + 4 ≤ 120 →
    read32 mem' (fw.multibootInfo.setWidth 64 + BitVec.ofNat 64 o) =
      read32 mem (fw.multibootInfo.setWidth 64 + BitVec.ofNat 64 o)
  list : ∀ o, o + 4 ≤ 16 → read32 mem' (fw.modList.setWidth 64 + BitVec.ofNat 64 o) =
    read32 mem (fw.modList.setWidth 64 + BitVec.ofNat 64 o)
  map_length : (read32 mem' (fw.multibootInfo.setWidth 64 + 44#64)).toNat =
    mmapLength (g.reported.map E820Entry.record)
  mmap : read32 mem' (fw.multibootInfo.setWidth 64 + 48#64) = fw.mmap
  map : Tiles mem' (fw.mmap.setWidth 64) (g.reported.map E820Entry.record)
  frame : ∀ a, ¬(fw.bss.toNat ≤ a.toNat ∧ a.toNat < fw.ebss.toNat) → mem' a = mem a

/-- The memory map, and the two fields that tell where it is. -/
theorem loadMultiboot_wrote (fw : FirmwareImage) (h : ParamsAt mem firmwareStart g)
    (hn : g.e820Entries.toNat ≤ e820MaxEntries) :
    ∃ mem₁ map, loadMultiboot (guestParamsAt mem firmwareStart) fw.mmap mem = .ok (mem₁, map) ∧
      MapWrote fw g mem (storeFields mem₁ (fw.multibootInfo.setWidth 64)
        [(48, map.mmapAddr), (44, map.mmapLength)]) := by
  have hend := fw.ebss.isLt
  have hinfo : _ ∧ fw.multibootInfo.toNat + 120 ≤ fw.ebss.toNat := fw.info_mem
  have hlist := fw.list_mem
  have hmmap : _ ∧ fw.mmap.toNat + 128 * 24 ≤ fw.ebss.toNat := fw.mmap_mem
  obtain ⟨-, -, -, -, -, hentries, htable⟩ := h.guestParamsAt
  have hreported : (guestParamsAt mem firmwareStart).reported = g.reported := by
    rw [GuestParams.reported, hentries, htable, ← GuestParams.reported]
  obtain ⟨mem₁, hmem₁, htiles, hlen⟩ := loadMultiboot_tiles (guestParamsAt mem firmwareStart)
    (by rw [hentries]; exact hn) fw.mmap mem
  rw [hreported] at htiles hlen
  have hframe₁ : ∀ a, ¬Within (fw.mmap.setWidth 64) (e820MaxEntries * 24) a → mem₁ a = mem a :=
    fun a ha => loadMultiboot_frame hmem₁ ha
  refine ⟨mem₁, _, hmem₁, ?_⟩
  obtain ⟨fields, hfields⟩ : ∃ fields : List (ℕ × BitVec 32), [(48, fw.mmap),
      (44, (guestParamsAt mem firmwareStart).e820Entries * 24)] = fields := ⟨_, rfl⟩
  have hframe : ∀ a, ¬Within (fw.multibootInfo.setWidth 64) 120 a →
      storeFields mem₁ (fw.multibootInfo.setWidth 64) fields a = mem₁ a :=
    fun a ha => storeFields_frame (by decide) (by simp [← hfields]) ha
  have hread {o : ℕ} {x : BitVec 32} (hmem : (o, x) ∈ fields) :
      read32 (storeFields mem₁ (fw.multibootInfo.setWidth 64) fields)
        (fw.multibootInfo.setWidth 64 + BitVec.ofNat 64 o) = x :=
    read32_storeFields_of_mem (by simp [← hfields]) (by simp [← hfields]) hmem
  dsimp only
  rw [hfields]
  refine ⟨fun o ho => ?_, fun o ho => ?_, ?_, hread (by simp [← hfields]), ?_, fun a ha => ?_⟩
  · rw [read32_storeFields_of_apart (by omega) (by simp [← hfields]; omega)]
    exact read32_of_frame (m := 120) hframe₁ (by decide) (by omega) fw.info_mmap (by omega)
  · exact (read32_of_frame hframe (by decide) (by omega) fw.info_list.symm ho).trans
      (read32_of_frame hframe₁ (by decide) (by omega) fw.list_mmap ho)
  · rw [← hlen]
    exact congrArg BitVec.toNat (hread (by simp [← hfields]))
  · have hlength : g.reported.length ≤ 128 := by
      rw [GuestParams.reported, List.length_take, Vector.length_toList]
      exact Nat.min_le_right _ _
    refine htiles.congr hlength fun a ha => hframe a fun hin => ?_
    obtain ⟨hle, hlt⟩ := (within_low (by omega)).mp ha
    obtain ⟨hle', hlt'⟩ := (within_low (by decide)).mp hin
    have hapart : _ + 120 ≤ _ ∨ _ + 128 * 24 ≤ _ := fw.info_mmap
    omega
  · rw [storeFields_bss (n := 120) (by decide) fw.info_mem (by simp [← hfields]) ha]
    refine hframe₁ a fun hin => ha ?_
    obtain ⟨hle, hlt⟩ := (within_low (by decide)).mp hin
    have hmax : e820MaxEntries * 24 = 128 * 24 := rfl
    exact ⟨by omega, by omega⟩

/-- **`load_multiboot`** after the image is loaded: it jumps to the entry point with all fields
written. -/
theorem loadMultibootKernel_wrote (fw : FirmwareImage) (h : ParamsAt mem firmwareStart g)
    (h₂ : ParamsAt mem₂ firmwareStart g)
    (himage : loadMultibootImage mem g.kernelStart = .ok (some (mem₂, entry)))
    (hn : g.e820Entries.toNat ≤ e820MaxEntries) :
    ∃ mem', loadMultibootKernel fw firmwareStart mem =
        .ok (some ⟨mem', multibootBootloaderMagic, fw.multibootInfo, entry⟩) ∧
      Wrote fw g mem₂ mem' := by
  have hkernel : read64 mem (firmwareStart + 8#64) = g.kernelStart := h.guestParamsAt.1
  obtain ⟨mem₃, hmem₃⟩ : ∃ mem₃,
      storeFields mem₂ (fw.multibootInfo.setWidth 64) infoFields = mem₃ := ⟨_, rfl⟩
  have hframe₃ : ∀ a, ¬(fw.bss.toNat ≤ a.toNat ∧ a.toNat < fw.ebss.toNat) →
      mem₃ a = mem₂ a := fun a ha => by
    rw [← hmem₃, storeFields_bss (n := 120) (by decide) fw.info_mem (by decide) ha]
  obtain ⟨-, -, hstart, hstop, -⟩ := (fw.params_kept h₂ hframe₃).guestParamsAt
  obtain ⟨mem₄, hmem₄⟩ : ∃ mem₄, storeInitrd fw g.initrdStart g.initrdEnd mem₃ = mem₄ := ⟨_, rfl⟩
  have hframe₄ : ∀ a, ¬(fw.bss.toNat ≤ a.toNat ∧ a.toNat < fw.ebss.toNat) →
      mem₄ a = mem₂ a := fun a ha => by
    rw [← hmem₄, storeInitrd_frame ha, hframe₃ a ha]
  obtain ⟨mem₅, map, hload, hmap⟩ := loadMultiboot_wrote fw (fw.params_kept h₂ hframe₄) hn
  obtain ⟨mem₆, hmem₆⟩ : ∃ mem₆, storeFields mem₅ (fw.multibootInfo.setWidth 64)
      [(48, map.mmapAddr), (44, map.mmapLength)] = mem₆ := ⟨_, rfl⟩
  rw [hmem₆] at hmap
  -- what was stored first is not in the way of the initrd and of the map
  have hfixed {o : ℕ} {x : BitVec 32} (ho : o + 4 ≤ 20) (hx : (o, x) ∈ infoFields) :
      read32 mem₆ (fw.multibootInfo.setWidth 64 + BitVec.ofNat 64 o) = x := by
    rw [hmap.info o (by omega), ← hmem₄, read32_storeInitrd (.inl ho), ← hmem₃]
    exact read32_infoFields hx
  refine ⟨mem₆, ?_, ?_, hfixed (o := 4) (by decide) (by decide),
    hfixed (o := 8) (by decide) (by decide), hfixed (o := 16) (by decide) (by decide), ?_,
    fun hlt => ?_, hmap.map_length, hmap.mmap, hmap.map, fun a ha => ?_⟩
  · rw [loadMultibootKernel, hkernel, himage, Exec.ok_bind]
    dsimp only
    rw [← infoFields, hmem₃, show read64 mem₃ (firmwareStart + 24#64) = g.initrdStart from hstart,
      show read64 mem₃ (firmwareStart + 32#64) = g.initrdEnd from hstop, hmem₄, hload,
      Exec.ok_bind]
    dsimp only
    rw [hmem₆]
    rfl
  · rw [← BitVec.add_zero (fw.multibootInfo.setWidth 64)]
    exact hfixed (o := 0) (by decide) (by decide)
  · refine (hmap.info 20 (by decide)).trans ?_
    rw [← hmem₄, storeInitrd_count, ← hmem₃, read32_storeFields_of_apart (i := 20) (by decide)
      (by decide)]
  · obtain ⟨haddr, hfirst, hsecond⟩ := storeInitrd_mods fw mem₃ hlt
    rw [hmem₄] at haddr hfirst hsecond
    refine ⟨(hmap.info 24 (by decide)).trans haddr, ?_, (hmap.list 4 (by decide)).trans hsecond⟩
    rw [← BitVec.add_zero (fw.modList.setWidth 64)]
    exact (hmap.list 0 (by decide)).trans hfirst
  · rw [hmap.frame a ha, hframe₄ a ha]

end Firmware

section Params

variable {fw : FirmwareImage} {mem mem₂ : Memory} {g : GuestParams}

theorem ParamsAt.zeroBss (h : ParamsAt mem firmwareStart g) :
    ParamsAt (fw.zeroBss mem) firmwareStart g := h.congr fun a ha => by
  have hbounds := ha.bounds (by decide)
  have hhead := fw.head_le
  rw [fw.zeroBss_eq, copyTo_of_not_within]
  rw [fw.within_bss]
  omega

theorem Wrote.paramsAt (hwrote : Wrote fw g mem₂ mem) (h : ParamsAt mem₂ firmwareStart g) :
    ParamsAt mem firmwareStart g := h.congr fun a ha => hwrote.frame a fun hin => by
  have hbounds := ha.bounds (by decide)
  have hhead := fw.head_le
  omega

/-- The command line is at its place in the structure. -/
theorem ParamsAt.stringAt (h : ParamsAt mem firmwareStart g) {f : ℕ → BitVec 8} {n : ℕ}
    (hn : n < cmdlineSize) (hcmdline : ∀ i ≤ n, g.cmdline i = f i) (hne : ∀ i < n, f i ≠ 0)
    (hnul : f n = 0) : StringAt (fun a => some (mem a)) 0x1028 ((List.range n).map f) := by
  obtain ⟨-, -, -, -, hcopied, -⟩ := h.guestParamsAt
  have hbyte : ∀ i ≤ n, mem (0x1028#64 + BitVec.ofNat 64 i) = f i := fun i hi => by
    have hi' : mem (firmwareStart + BitVec.ofNat 64 (40 + i)) = g.cmdline i :=
      hcopied i (Nat.lt_of_le_of_lt hi hn)
    rw [← add_ofNat_add, hcmdline i hi] at hi'
    exact hi'
  exact stringAt_of_bytes (fun i hi => ⟨congrArg some (hbyte i hi.le), hne i hi⟩)
    (congrArg some ((hbyte n le_rfl).trans hnul))

/-- `mods_count` is zero at first, as it is in the `.bss`. -/
theorem read32_mods_count (hkept : ∀ a, fw.Owns a → mem₂ a = fw.zeroBss mem a) :
    read32 mem₂ (fw.multibootInfo.setWidth 64 + 20#64) = 0 := by
  have hinfo := fw.info_mem
  have hend := fw.ebss.isLt
  have hstart : firmwareStart.toNat ≤ fw.bss.toNat := (Nat.le_add_right _ _).trans fw.head_le
  have hsizeof : sizeofMultibootInfo = 120 := rfl
  have hinfo' : (fw.multibootInfo.setWidth 64).toNat = fw.multibootInfo.toNat :=
    BitVec.toNat_setWidth_of_le (by decide)
  refine read32_of_leByte fun i hi => ?_
  have hin : fw.bss.toNat ≤ (fw.multibootInfo.setWidth 64 + 20#64 + BitVec.ofNat 64 i).toNat ∧
      (fw.multibootInfo.setWidth 64 + 20#64 + BitVec.ofNat 64 i).toNat < fw.ebss.toNat := by
    rw [add_ofNat_add, toNat_add_ofNat (by omega), hinfo']
    exact ⟨by omega, by omega⟩
  rw [hkept _ ⟨hstart.trans hin.1, hin.2⟩, fw.zeroBss_eq,
    copyTo_of_within ((fw.within_bss _).mpr hin)]
  simp [leByte]

end Params

/-- What the kernel finds then, by the specification. -/
theorem Wrote.told {fw : FirmwareImage} {g : GuestParams} {mem₂ mem : Memory}
    (h : Wrote fw g mem₂ mem) {cmdline : List (BitVec 8)}
    (hcount : read32 mem₂ (fw.multibootInfo.setWidth 64 + 20#64) = 0)
    (hstring : StringAt (fun a => some (mem a)) 0x1028 cmdline) :
    Told mem (fw.multibootInfo.setWidth 64) g.reported cmdline g.initrd := by
  refine ⟨h.flags, h.lower, ?_, ?_, ?_, fun i hi => ?_, h.map_length, ?_⟩
  · rw [h.upper]
    rfl
  · rw [h.cmdline]
    exact hstring
  · rw [h.mods_count, GuestParams.initrd]
    split_ifs with hlt
    · rfl
    · rw [hcount]
      rfl
  · by_cases hlt : g.initrdStart < g.initrdEnd
    · obtain ⟨haddr, hfirst, hsecond⟩ := h.mods hlt
      have hmods : g.initrd = [(g.initrdStart.setWidth 32, g.initrdEnd.setWidth 32)] := if_pos hlt
      obtain rfl : i = 0 := by
        rw [hmods, List.length_singleton] at hi
        omega
      simp [hmods, haddr, hfirst, hsecond]
    · have hmods : g.initrd = [] := if_neg hlt
      rw [hmods] at hi
      exact absurd hi (Nat.not_lt_zero i)
  · rw [h.mmap]
    exact h.map

/-! ## What the VMM passes on

The three stages together. Each of them is a function of the one before, so that the arguments of
the boot loader are followed through `guest_params` to the registers of the kernel. -/

/-- The address of `mods`, the module list of the boot loader. -/
def bootMods (info : BitVec 64) (mem : Memory) : BitVec 64 := (read32 mem (info + 24)).setWidth 64

/-- The command line of the first module, which is that of the kernel. -/
def bootCmdline (info : BitVec 64) (mem : Memory) : BitVec 64 :=
  (read32 mem (bootMods info mem + 8)).setWidth 64

/-- The second module, if there is one and it is not empty. -/
def bootInitrd (info : BitVec 64) (mem : Memory) : List (BitVec 32 × BitVec 32) :=
  let first := read32 mem (bootMods info mem + 16)
  let last := read32 mem (bootMods info mem + 20)
  if read32 mem (info + 20) > 1 ∧ first < last then [(first, last)] else []

/-- Where the near jump at `p` goes in real mode, with zero as the base of `%cs`. -/
def nearJump (mem : Memory) (p : BitVec 16) : Option (BitVec 16) :=
  if mem (p.setWidth 64) = 0xe9 then some (p + 3 + read16 mem (p.setWidth 64 + 1)) else none

section Boot

variable {σ : Type} {ops : KvmX86Ops σ} {img : BootImage} {magic : BitVec 32} {info : BitVec 64}
  {st st₁ st₂ : BootState} {vmx vmx' : σ}

/-- A copy of less than `count` bytes ends with a NUL. -/
theorem Copied.exists_nul {s : ℕ → BitVec 8} {count : ℕ} {dest : ℕ → BitVec 8}
    {r : ℤ × (ℕ → BitVec 8)} (h : Copied s count dest r) (hcount : 0 < count) (hr : ¬r.1 < 0) :
    ∃ n < count, (∀ i < n, s i ≠ 0) ∧ s n = 0 ∧ ∀ i ≤ n, r.2 i = s i := by
  by_cases hnul : ∃ n, n < count ∧ s n = 0
  · have hfind := Nat.find_spec hnul
    have hmin : ∀ i < Nat.find hnul, s i ≠ 0 := fun i hi hzero =>
      Nat.find_min hnul hi ⟨hi.trans hfind.1, hzero⟩
    exact ⟨_, hfind.1, hmin, hfind.2, (h.found _ hfind.1 hmin hfind.2).2⟩
  · have hfull := h.full hcount fun i hi hzero => hnul ⟨i, hi, hzero⟩
    exact absurd (hfull.1 ▸ by decide) hr

/-- What `multiboot_init` stores in `guest_params`, and that it leaves memory alone. -/
theorem multibootInit_params (h : multibootInit img magic info st = .ok st₁) :
    st₁.mem = st.mem ∧
    st₁.guestParams.kernelStart = (read32 st.mem (bootMods info st.mem)).setWidth 64 ∧
    (∃ n < cmdlineSize, (∀ i < n, srcByte st.mem (bootCmdline info st.mem) i ≠ 0) ∧
      srcByte st.mem (bootCmdline info st.mem) n = 0 ∧
      ∀ i ≤ n, st₁.guestParams.cmdline i = srcByte st.mem (bootCmdline info st.mem) i) ∧
    st₁.guestParams.initrdStart = (if read32 st.mem (info + 20) > 1 then
      (read32 st.mem (bootMods info st.mem + 16)).setWidth 64 else st.guestParams.initrdStart) ∧
    st₁.guestParams.initrdEnd = (if read32 st.mem (info + 20) > 1 then
      (read32 st.mem (bootMods info st.mem + 20)).setWidth 64 else st.guestParams.initrdEnd) := by
  unfold multibootInit at h
  obtain ⟨-, h⟩ := bugOn_bind_eq_ok.mp h
  obtain ⟨-, h⟩ := bugOn_bind_eq_ok.mp h
  obtain ⟨-, h⟩ := panicIf_bind_eq_ok.mp h
  obtain ⟨t, -, h⟩ := Exec.bind_eq_ok.mp h
  obtain ⟨st', hmodules, h⟩ := Exec.bind_eq_ok.mp h
  obtain ⟨t', -, h⟩ := Exec.bind_eq_ok.mp h
  obtain rfl := Except.ok.inj h
  obtain ⟨-, hmodules⟩ := panicIf_bind_eq_ok.mp hmodules
  obtain ⟨hres, hmodules⟩ := panicIf_bind_eq_ok.mp hmodules
  have hcopied := (strscpy_copied st.mem (img.guestParams + 40) (bootCmdline info st.mem)
    cmdlineSize st.guestParams.cmdline).exists_nul (by decide) (of_decide_eq_false hres)
  by_cases hmany : read32 st.mem (info + 20) > 1
  · rw [if_pos hmany] at hmodules
    obtain rfl := Except.ok.inj hmodules
    exact ⟨rfl, rfl, hcopied, (if_pos hmany).symm, (if_pos hmany).symm⟩
  · rw [if_neg hmany] at hmodules
    obtain rfl := Except.ok.inj hmodules
    exact ⟨rfl, rfl, hcopied, (if_neg hmany).symm, (if_neg hmany).symm⟩

/-- The initrd that the firmware passes on is the second module. -/
theorem initrd_eq_bootInitrd {g : GuestParams} {mem : Memory} {a b : BitVec 64}
    (hzero : a = 0 ∧ b = 0)
    (hstart : g.initrdStart = if read32 mem (info + 20) > 1 then
      (read32 mem (bootMods info mem + 16)).setWidth 64 else a)
    (hstop : g.initrdEnd = if read32 mem (info + 20) > 1 then
      (read32 mem (bootMods info mem + 20)).setWidth 64 else b) :
    g.initrd = bootInitrd info mem := by
  obtain ⟨rfl, rfl⟩ := hzero
  have hlt (x y : BitVec 32) : x.setWidth 64 < y.setWidth 64 ↔ x < y := by
    rw [BitVec.lt_def, BitVec.lt_def, BitVec.toNat_setWidth_of_le (by decide),
      BitVec.toNat_setWidth_of_le (by decide)]
  have hback (x : BitVec 32) : (x.setWidth 64).setWidth 32 = x := by simp
  rw [GuestParams.initrd, bootInitrd, hstart, hstop]
  by_cases hmany : read32 mem (info + 20) > 1
  · simp only [hmany, if_true, true_and, hlt, hback]
  · simp only [hmany, false_and, if_false, BitVec.lt_irrefl]

/-- What `kvm_init` leaves in memory: the firmware, and the parameters over its head. -/
theorem kvmInit_mem (h : kvmInit ops img vmx st₁ = .ok (vmx', st₂)) :
    st₂.guestParams = st₁.guestParams.fill st₁.e820 ∧
      st₂.mem = copyTo (copyTo st₁.mem firmwareStart img.firmware.length fun i =>
        img.firmware.getD i 0) firmwareStart GuestParams.sizeof st₂.guestParams.byte := by
  unfold kvmInit at h
  obtain ⟨-, h⟩ := panicIf_bind_eq_ok.mp h
  obtain ⟨-, h⟩ := panicIf_bind_eq_ok.mp h
  obtain ⟨vmx₁, -, h⟩ := Exec.bind_eq_ok.mp h
  obtain ⟨-, h⟩ := bugOn_bind_eq_ok.mp h
  obtain ⟨-, h⟩ := panicIf_bind_eq_ok.mp h
  obtain ⟨-, rfl⟩ := Prod.mk.inj (Except.ok.inj h)
  exact ⟨rfl, rfl⟩

theorem kvmInit_paramsAt (h : kvmInit ops img vmx st₁ = .ok (vmx', st₂)) :
    ParamsAt st₂.mem firmwareStart st₂.guestParams := fun i hi => by
  have hsize : GuestParams.sizeof = 3628 := rfl
  rw [(kvmInit_mem h).2, copyTo_of_within (within_add hi (by decide)),
    toNat_add_ofNat_sub (by omega)]

/-- The guest is told no more entries than there is room for. -/
theorem kvmInit_entries (h : kvmInit ops img vmx st₁ = .ok (vmx', st₂)) :
    st₂.guestParams.e820Entries.toNat ≤ e820MaxEntries := by
  have hnr : st₁.e820.nrEntries ≤ 128 := st₁.e820.length_le
  rw [(kvmInit_mem h).1]
  change (BitVec.ofNat 32 st₁.e820.nrEntries).toNat ≤ 128
  rw [BitVec.toNat_ofNat]
  omega

/-- The head of the firmware is a jump over `guest_params`. -/
theorem nearJump_params {mem : Memory} {g : GuestParams} {t : E820Table}
    (h : ParamsAt mem firmwareStart (g.fill t)) :
    nearJump mem 0x1000 = some (0x1000 + BitVec.ofNat 16 GuestParams.sizeof) := by
  have hbyte : ∀ i < 8, mem (firmwareStart + BitVec.ofNat 64 i) = (g.fill t).magic.getD i 0 :=
    fun i hi => (h i (hi.trans (by decide))).trans (by rw [GuestParams.byte, if_pos hi])
  have h0 : mem 0x1000#64 = 0xe9 :=
    (hbyte 0 (by decide)).trans (by simp [GuestParams.fill, Vector.getD])
  have h1 : mem 0x1001#64 = 0x29 := (hbyte 1 (by decide)).trans (by
    simp [GuestParams.fill, Vector.getD]
    decide)
  have h2 : mem 0x1002#64 = 0x0e := (hbyte 2 (by decide)).trans (by
    simp [GuestParams.fill, Vector.getD]
    decide)
  have hdisp : read16 mem 0x1001#64 = 0x0e29 := by
    rw [read16, h1, show (0x1001#64 + 1 : BitVec 64) = 0x1002#64 from rfl, h2]
    rfl
  rw [nearJump, show (0x1000 : BitVec 16).setWidth 64 = 0x1000#64 from rfl, if_pos h0,
    show (0x1000#64 + 1 : BitVec 64) = 0x1001#64 from rfl, hdisp]
  rfl

end Boot

/-- **From the boot loader to the kernel of the guest.** The VMM starts, and its firmware loads an
image that does not overwrite it. Then the jump at the head of the firmware leads to its code, the
image was loaded as the boot loader had left it, and the kernel finds the memory map with the VMM
masked out, its own command line and the initrd. -/
theorem kernel_told {σ : Type} {ops : KvmX86Ops σ} {img : BootImage} {fw : FirmwareImage}
    {magic : BitVec 32} {info : BitVec 64} {st st₁ st₂ : BootState} {vmx vmx' : σ} {T : E820Table}
    {mem₂ : Memory} {entry : BitVec 32}
    (hinitrd : st.guestParams.initrdStart = 0 ∧ st.guestParams.initrdEnd = 0)
    (hfirmware : firmwareStart.toNat + img.firmware.length ≤ fw.bss.toNat)
    (hT : bootMap info st = .ok T) (hroom : HasRoom img.image T)
    (hboot : multibootInit img magic info st = .ok st₁)
    (hkvm : kvmInit ops img vmx st₁ = .ok (vmx', st₂))
    (himage : loadMultibootImage (fw.zeroBss st₂.mem)
      ((read32 st.mem (bootMods info st.mem)).setWidth 64) = .ok (some (mem₂, entry)))
    (hkept : ∀ a, fw.Owns a → mem₂ a = fw.zeroBss st₂.mem a) :
    nearJump st₂.mem 0x1000 = some (0x1000 + BitVec.ofNat 16 GuestParams.sizeof) ∧
    (∀ i < img.firmware.length, GuestParams.sizeof ≤ i →
      st₂.mem (firmwareStart + BitVec.ofNat 64 i) = img.firmware.getD i 0) ∧
    (∀ a, ¬fw.Owns a → fw.zeroBss st₂.mem a = st.mem a) ∧
    ∃ mem map cmdline,
      firmwareMain fw st₂.mem =
        .ok (some ⟨mem, multibootBootloaderMagic, fw.multibootInfo, entry⟩) ∧
      Told mem (fw.multibootInfo.setWidth 64) map cmdline (bootInitrd info st.mem) ∧
      Masked img.image T.entries map ∧
      StringAt (fun a => some (st.mem a)) (bootCmdline info st.mem) cmdline ∧
      ∀ a, ¬fw.Owns a → mem a = mem₂ a := by
  obtain ⟨hmem₁, hkernel, ⟨n, hn, hne, hnul, hcmdline⟩, hstart, hstop⟩ :=
    multibootInit_params hboot
  obtain ⟨hparams, hmem⟩ := kvmInit_mem hkvm
  obtain ⟨hsane, -, hmap, hreported⟩ := reported_eq hT hboot hkvm
  have hend := fw.ebss.isLt
  have hle := fw.bss_le
  have hsize : GuestParams.sizeof = 3628 := rfl
  have hstart_le : firmwareStart.toNat ≤ fw.bss.toNat := (Nat.le_add_right _ _).trans fw.head_le
  -- the structure is in memory when the VMM is done, and stays there
  have h := kvmInit_paramsAt hkvm
  have h₁ : ParamsAt (fw.zeroBss st₂.mem) firmwareStart st₂.guestParams := h.zeroBss
  have h₂ : ParamsAt mem₂ firmwareStart st₂.guestParams :=
    h₁.congr fun a ha => hkept a (fw.owns_of_params ha)
  have hkernel' : st₂.guestParams.kernelStart =
      (read32 st.mem (bootMods info st.mem)).setWidth 64 := by
    rw [hparams, ← hkernel]
    rfl
  rw [← hkernel'] at himage
  obtain ⟨mem, hrun, hwrote⟩ := loadMultibootKernel_wrote fw h₁ h₂ himage (kvmInit_entries hkvm)
  refine ⟨nearJump_params (hparams ▸ h), fun i hi hge => ?_, fun a ha => ?_,
    mem, st₂.guestParams.reported, (List.range n).map (srcByte st.mem (bootCmdline info st.mem)),
    hrun, ?_, ?_, ?_, fun a ha => ?_⟩
  · rw [hmem, copyTo_of_not_within, copyTo_of_within, toNat_add_ofNat_sub (by omega)]
    · exact within_add hi (by omega)
    · rw [Within, toNat_add_ofNat_sub (by omega)]
      omega
  · have hout : ¬(firmwareStart.toNat ≤ a.toNat ∧ a.toNat < fw.ebss.toNat) := ha
    rw [fw.zeroBss_eq, copyTo_of_not_within, hmem, copyTo_of_not_within, copyTo_of_not_within,
      hmem₁]
    · intro hin
      have hbounds := hin.bounds (by omega)
      omega
    · exact fun hin => ha (fw.owns_of_params hin)
    · rw [fw.within_bss]
      omega
  · rw [← initrd_eq_bootInitrd (g := st₂.guestParams) hinitrd (by rw [← hstart, hparams]; rfl)
      (by rw [← hstop, hparams]; rfl)]
    refine hwrote.told (read32_mods_count hkept) ((hwrote.paramsAt h₂).stringAt hn ?_ hne hnul)
    intro i hi
    rw [hparams]
    exact hcmdline i hi
  · rw [hreported]
    exact (masked_take_iff hsane hmap).mpr hroom
  · exact stringAt_of_bytes (fun i hi => ⟨rfl, hne i hi⟩) (congrArg some hnul)
  · exact hwrote.frame a fun hin => ha ⟨hstart_le.trans hin.1, hin.2⟩

/-- A firmware with 4 KiB of text and data, and 8 KiB of `.bss`. -/
def smallFirmware : FirmwareImage where
  bss := 0x2000
  ebss := 0x4000
  multibootInfo := 0x2000
  modList := 0x2080
  mmap := 0x3000
  initrd := 0x1f00
  head_le := by decide
  info_mem := by decide
  list_mem := by decide
  mmap_mem := by decide
  info_list := by decide
  info_mmap := by decide
  list_mmap := by decide

/-- The header of a kernel that is to be loaded from 0x100000 to 0x100020 and cleared from there to
0x100040. -/
def kernelHeader : MultibootHeader :=
  ⟨0x1badb002, 0x00010000, 0xe4514ffe, 0x100000, 0x100000, 0x100020, 0x100040, 0x100010⟩

/-- What a boot loader leaves: the kernel at 0x200000 and an initrd at 0x400000. -/
def kernelMemory : Memory :=
  storeFields (storeFields (loaderMemory highMap.entries) 0x9000
      [(20, 2), (0x110, 0x400000), (0x114, 0x500000)]) 0x200000
    [(0, kernelHeader.magic), (4, kernelHeader.flags), (8, kernelHeader.checksum),
      (12, kernelHeader.headerAddr), (16, kernelHeader.loadAddr), (20, kernelHeader.loadEndAddr),
      (24, kernelHeader.bssEndAddr), (28, kernelHeader.entryAddr)]

theorem kernel_told_kernelMemory : ∃ st₁ st₂ mem map cmdline,
    multibootInit vmmBootImage multibootBootloaderMagic 0x9000
      { bootState [] with mem := kernelMemory } = .ok st₁ ∧
    kvmInit readyOps vmmBootImage () st₁ = .ok ((), st₂) ∧
    firmwareMain smallFirmware st₂.mem =
      .ok (some ⟨mem, multibootBootloaderMagic, 0x2000, 0x100010⟩) ∧
    Told mem 0x2000 map cmdline [(0x400000, 0x500000)] ∧ Masked vmmImage highMap.entries map := by
  obtain ⟨⟨T, st₁, r⟩, hrun, hfound⟩ := Exec.exists_of_any
    (x := do
      let T ← bootMap 0x9000 { bootState [] with mem := kernelMemory }
      let st₁ ← multibootInit vmmBootImage multibootBootloaderMagic 0x9000
        { bootState [] with mem := kernelMemory }
      let r ← kvmInit readyOps vmmBootImage () st₁
      return (T, st₁, r))
    (p := fun s => s.1.entries = highMap.entries ∧
      (findMultibootHeader (copyTo s.2.2.2.mem 0x2000 0x2000 fun _ => 0) 0x200000).toOption =
        some (some 0x200000) ∧
      headerAt (copyTo s.2.2.2.mem 0x2000 0x2000 fun _ => 0) 0x200000 = kernelHeader)
    (by decide +kernel)
  obtain ⟨hentries, hheader, hhead⟩ := of_decide_eq_true hfound
  obtain ⟨T', hT, hrun⟩ := Exec.bind_eq_ok.mp hrun
  obtain ⟨st₁', hboot, hrun⟩ := Exec.bind_eq_ok.mp hrun
  obtain ⟨⟨⟨⟩, st₂⟩, hkvm, hrun⟩ := Exec.bind_eq_ok.mp hrun
  cases hrun
  obtain rfl : T = highMap := by
    obtain ⟨entries, hle⟩ := T
    obtain rfl : entries = highMap.entries := hentries
    rfl
  rw [show copyTo st₂.mem 0x2000 0x2000 (fun _ => 0) = smallFirmware.zeroBss st₂.mem from
    (smallFirmware.zeroBss_eq st₂.mem).symm] at hheader hhead
  have himage : AoutImage (smallFirmware.zeroBss st₂.mem) 0x200000 48 0 kernelHeader := by
    refine ⟨?_, hhead, by decide, by decide, by decide, by decide, by decide, by decide,
      fun _ => target_apart (by decide) (.inr (by decide))⟩
    rcases hfind : findMultibootHeader (smallFirmware.zeroBss st₂.mem) 0x200000 with e | found
    · rw [hfind] at hheader
      cases hheader
    · rw [hfind] at hheader
      exact congrArg Except.ok (Option.some.inj hheader)
  have hframe : ∀ a : BitVec 64, ¬(0x100000 ≤ a.toNat ∧ a.toNat < 0x100040) →
      (loadAout (smallFirmware.zeroBss st₂.mem) 0x200000 0x200000).mem a =
        smallFirmware.zeroBss st₂.mem a := fun a ha => by
    have hload := (loadAout_eq himage (by decide) fun b hb => by
      obtain ⟨hle, hlt⟩ := (within_low (by decide)).mp hb
      exact ⟨hle, hlt.trans (by decide)⟩).1
    rw [show (0x200000 : BitVec 64) + BitVec.ofNat 64 0 = 0x200000 from rfl] at hload
    rw [hload, copyTo_of_not_within fun hin => ha ?_, copyTo_of_not_within fun hin => ha ?_]
    · obtain ⟨hle, hlt⟩ := (within_low (by decide)).mp hin
      exact ⟨hle, hlt.trans (by decide)⟩
    · obtain ⟨hle, hlt⟩ := (within_low (by decide)).mp hin
      exact ⟨Nat.le_trans (by decide) hle, hlt⟩
  have hentry : (loadAout (smallFirmware.zeroBss st₂.mem) 0x200000 0x200000).entry = 0x100010 := by
    change (headerAt (loadAout (smallFirmware.zeroBss st₂.mem) 0x200000 0x200000).mem
      0x200000).entryAddr = 0x100010
    rw [headerAt_congr fun a ha => hframe a fun hin => ?_, hhead]
    · rfl
    · have hbounds := ha.bounds (by decide)
      have hbase : (0x200000 : BitVec 64).toNat = 0x200000 := rfl
      omega
  have hloaded := loadMultibootImage_of_aout himage
  rw [show (0x200000 : BitVec 64) + BitVec.ofNat 64 0 = 0x200000 from rfl, hentry] at hloaded
  obtain ⟨-, -, -, mem, map, cmdline, hmain, htold, hmasked, -⟩ := kernel_told ⟨rfl, rfl⟩
    (by decide) hT (by decide) hboot hkvm hloaded
    (fun a ha => hframe a fun hin => absurd ha.2 (Nat.not_lt.mpr (Nat.le_trans (by decide) hin.1)))
  exact ⟨st₁, st₂, mem, map, cmdline, hboot, hkvm, hmain, htold, hmasked⟩

end Lvisor
