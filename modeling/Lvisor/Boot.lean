import Lvisor.E820

/-!
# Boot

`multiboot_init` (`vmm/multiboot.c`) reads what the boot loader left in memory, and
`kvm_init` (`vmm/kvm.c`) prepares the guest: it copies the firmware to its place, fills
`guest_params`, and copies that over the head of the firmware.

* `strscpy` (`lib/string.c`), which copies a command line word by word;
* `GuestParams` — `struct guest_params`;
* `multibootInit` — the memory map, the modules and the mask over the VMM;
* `kvmInit` — over the operations of the processor's virtualization extension, which
  `kvm_init` reaches through the function pointers of `kvm_x86_ops`.
-/

namespace Lvisor

/-! ## `lib/string.c` -/

/-- `E2BIG`, of which the negative is returned for a string that was cut off. -/
abbrev e2big : ℤ := 7

/-- `has_zero`: non-zero when the word has a zero byte. -/
def hasZero (a : BitVec 64) : BitVec 64 :=
  ((a - 0x0101010101010101#64) &&& ~~~a) &&& 0x8080808080808080#64

/-- `create_zero_mask`: ones in the bytes below the first zero byte. -/
def createZeroMask (bits : BitVec 64) : BitVec 64 := ((bits - 1) &&& ~~~bits) >>> 7

/-- `find_zero`, by `count_masked_bytes`: the number of bytes in the mask. -/
def findZero (mask : BitVec 64) : BitVec 64 := (mask * 0x0001020304050608#64) >>> 56

/-- A 64-bit store at offset `off` of a buffer. -/
def writeWord (buf : ℕ → BitVec 8) (off : ℕ) (w : BitVec 64) : ℕ → BitVec 8 :=
  fun i => if off ≤ i ∧ i < off + 8 then (w >>> (8 * (i - off))).setWidth 8 else buf i

/-- The second loop of `strscpy`, a byte at a time. -/
def strscpyBytes (mem : Memory) (src : BitVec 64) :
    ℕ → ℕ → (ℕ → BitVec 8) → ℤ × (ℕ → BitVec 8)
  | 0, res, dest => (-e2big, if res ≠ 0 then Function.update dest (res - 1) 0 else dest)
  | count + 1, res, dest =>
    let c := mem (src + BitVec.ofNat 64 res)
    let dest := Function.update dest res c
    if c = 0 then (res, dest) else strscpyBytes mem src count (res + 1) dest

/-- The first loop of `strscpy`, a word at a time. -/
def strscpyWords (mem : Memory) (src : BitVec 64) :
    ℕ → ℕ → ℕ → (ℕ → BitVec 8) → ℤ × (ℕ → BitVec 8)
  | 0, count, res, dest => strscpyBytes mem src count res dest
  | words + 1, count, res, dest =>
    let c := read64 mem (src + BitVec.ofNat 64 res)
    if hasZero c ≠ 0 then
      let data := createZeroMask (hasZero c)
      (res + (findZero data).toNat, writeWord dest res (c &&& data))
    else
      strscpyWords mem src words (count - 8) (res + 8) (writeWord dest res c)

/-- `strscpy(dest, src, count)`: the return value and the contents of the destination,
by offsets. The words are left out when a pointer is not aligned. -/
def strscpy (mem : Memory) (destAddr src : BitVec 64) (count : ℕ) (dest : ℕ → BitVec 8) :
    ℤ × (ℕ → BitVec 8) :=
  if count = 0 then (-e2big, dest)
  else
    let max := if (destAddr ||| src) &&& 7 ≠ 0 then 0 else count
    strscpyWords mem src (max / 8) count 0 dest

/-! ## `struct guest_params`

The structure is packed, and the firmware reads its fields by their offsets, so that the bytes
are a part of the model: `byte` says what is at each offset. -/

/-- `CMDLINE_SIZE`: room for a command line with its NUL. -/
abbrev cmdlineSize : ℕ := 1024

/-- `struct guest_params`, which is packed: what the VMM tells the firmware. -/
structure GuestParams where
  magic : Vector (BitVec 8) 8
  kernelStart : BitVec 64
  kernelEnd : BitVec 64
  initrdStart : BitVec 64
  initrdEnd : BitVec 64
  /-- `cmdline[CMDLINE_SIZE]`, by index -/
  cmdline : ℕ → BitVec 8
  e820Entries : BitVec 32
  e820Table : Vector E820Entry e820MaxEntries

namespace GuestParams

/-- `sizeof(struct guest_params)`. -/
abbrev sizeof : ℕ := 8 + 4 * 8 + cmdlineSize + 4 + e820MaxEntries * 20

/-- The byte `i` of a little-endian word, counted from the lowest one on. -/
def leByte {w : ℕ} (x : BitVec w) (i : ℕ) : BitVec 8 := (x >>> (8 * i)).setWidth 8

/-- The byte at offset `i` of the packed structure. -/
def byte (g : GuestParams) (i : ℕ) : BitVec 8 :=
  if i < 8 then g.magic.getD i 0
  else if i < 16 then leByte g.kernelStart (i - 8)
  else if i < 24 then leByte g.kernelEnd (i - 16)
  else if i < 32 then leByte g.initrdStart (i - 24)
  else if i < 40 then leByte g.initrdEnd (i - 32)
  else if i < 40 + cmdlineSize then g.cmdline (i - 40)
  else if i < 44 + cmdlineSize then leByte g.e820Entries (i - (40 + cmdlineSize))
  else
    let k := i - (44 + cmdlineSize)
    let e := g.e820Table.getD (k / 20) default
    if k % 20 < 8 then leByte e.addr (k % 20)
    else if k % 20 < 16 then leByte e.size (k % 20 - 8)
    else leByte e.type (k % 20 - 16)

/-- The memory map reported to the guest: the entries in use of the table in the structure. -/
def reported (g : GuestParams) : List E820Entry := g.e820Table.toList.take g.e820Entries.toNat

end GuestParams

/-- The static data of the VMM that boot fills, and physical memory. -/
structure BootState where
  /-- `e820_table` -/
  e820 : E820Table
  /-- `new_entries` of `e820.c` -/
  newEntries : Vector E820Entry e820MaxEntries
  guestParams : GuestParams
  /-- physical memory -/
  mem : Memory

/-- The linked image with what boot uses of it. -/
structure BootImage where
  /-- its placement -/
  image : Image
  /-- the address of `guest_params` -/
  guestParams : BitVec 64
  /-- the bytes from `_binary_firmware_start` to `_binary_firmware_end` -/
  firmware : List (BitVec 8)

/-! ## `multiboot_init`

What the boot loader leaves is read through its own pointers: the map, the command line of the
first module, and the second module as the initrd. Then the VMM marks its memory as reserved. -/

/-- `MULTIBOOT_BOOTLOADER_MAGIC`. -/
abbrev multibootBootloaderMagic : BitVec 32 := 0x2badb002#32

/-- `MULTIBOOT_INFO_MEM_MAP`: the flag that the boot loader gives a memory map. -/
abbrev multibootInfoMemMap : BitVec 32 := 0x40#32

/-- The memory map as the boot loader reports it, sanitised: the table before the VMM is
masked out. In `struct multiboot_info`, `mmap_length` is at 44 and `mmap_addr` at 48. -/
def bootMap (info : BitVec 64) (st : BootState) : Exec E820Table :=
  st.e820.rangeAddMultiboot st.mem st.newEntries ((read32 st.mem (info + 48)).setWidth 64)
    (read32 st.mem (info + 44)).toNat

/-- The modules: the guest kernel with its command line and an optional initrd. In
`struct multiboot_info`, `mods_count` is at 20 and `mods_addr` at 24; a module has its
start, its end and its command line at 0, 4 and 8. -/
def bootModules (img : BootImage) (info : BitVec 64) (st : BootState) : Exec BootState := do
  let modsCount := read32 st.mem (info + 20)
  panicIf "no guest kernel loaded!\n" (modsCount = 0)
  let mods := (read32 st.mem (info + 24)).setWidth 64
  let params := { st.guestParams with
    kernelStart := (read32 st.mem mods).setWidth 64
    kernelEnd := (read32 st.mem (mods + 4)).setWidth 64 }
  let (res, cmdline) := strscpy st.mem (img.guestParams + 40)
    ((read32 st.mem (mods + 8)).setWidth 64) cmdlineSize params.cmdline
  let params := { params with cmdline }
  panicIf "kernel cmdline too long!\n" (res < 0)
  if modsCount > 1 then
    return { st with guestParams := { params with
      initrdStart := (read32 st.mem (mods + 16)).setWidth 64
      initrdEnd := (read32 st.mem (mods + 20)).setWidth 64 } }
  else
    return { st with guestParams := params }

/-- The end of `multiboot_init`: the image of the VMM must be aligned and in RAM, and its range
is reserved. -/
def maskVmm (img : Image) (t : E820Table) : Exec E820Table := do
  bugOn "vmm/multiboot.c" 30 "multiboot_init" (img.start % sz2M ≠ 0)
  bugOn "vmm/multiboot.c" 31 "multiboot_init" (img.stop % sz2M ≠ 0)
  bugOn "vmm/multiboot.c" 32 "multiboot_init" (!t.mappedAll img.start img.stop e820TypeRam)
  let (t, _) ← t.rangeUpdate img.start (img.stop - img.start) e820TypeRam e820TypeReserved
  return t

/-- `multiboot_init`: the map, the command line and the initrd of the boot loader, and the mask. -/
def multibootInit (img : BootImage) (magic : BitVec 32) (info : BitVec 64) (st : BootState) :
    Exec BootState := do
  bugOn "vmm/multiboot.c" 9 "multiboot_init" (magic ≠ multibootBootloaderMagic)
  bugOn "vmm/multiboot.c" 10 "multiboot_init" (info = 0)
  panicIf "no memory map!\n" (read32 st.mem info &&& multibootInfoMemMap = 0)
  let t ← bootMap info st
  let st ← bootModules img info st
  let t ← maskVmm img.image t
  return { st with e820 := t }

/-! ## `kvm_init`

The operations of the processor extension are a structure of functions, as in the source. Here
they are parameters over a state of their own, and `Lvisor.Vmx` has those of VMX. -/

/-- The operations of `struct kvm_x86_ops` that `kvm_init` calls, on their own state. -/
structure KvmX86Ops (σ : Type) where
  cpuHasKvmSupport : σ → Bool
  disabledByBios : σ → Bool
  hardwareSetup : σ → Exec σ

/-- `FIRMWARE_START`: where the firmware is copied to, with the parameters in its head. -/
abbrev firmwareStart : BitVec 64 := 0x1000#64

/-- `memcpy(addr, bytes, n)` into physical memory, with the bytes by their index. -/
def copyTo (mem : Memory) (addr : BitVec 64) (n : ℕ) (bytes : ℕ → BitVec 8) : Memory :=
  fun p => if (p - addr).toNat < n then bytes (p - addr).toNat else mem p

/-- `guest_params` after `kvm_init` has filled the memory map and the header. -/
def GuestParams.fill (g : GuestParams) (t : E820Table) : GuestParams :=
  { g with
    e820Table := Vector.ofFn fun i => t.entries.getD i (g.e820Table.get i)
    e820Entries := BitVec.ofNat 32 t.nrEntries
    magic := ((g.magic.set 0 0xe9#8).set 1
      (BitVec.ofNat 8 ((GuestParams.sizeof - 3) &&& 0xff))).set 2
      (BitVec.ofNat 8 (((GuestParams.sizeof - 3) >>> 8) &&& 0xff)) }

/-- `kvm_init`: the processor is checked and set up, and the firmware is put in place with its
parameters. -/
def kvmInit {σ : Type} (ops : KvmX86Ops σ) (img : BootImage) (vmx : σ) (st : BootState) :
    Exec (σ × BootState) := do
  panicIf "kvm: no hardware support\n" (!ops.cpuHasKvmSupport vmx)
  panicIf "kvm: disabled by bios\n" (ops.disabledByBios vmx)
  let vmx ← ops.hardwareSetup vmx
  let mem := copyTo st.mem firmwareStart img.firmware.length fun i => img.firmware.getD i 0
  bugOn "vmm/kvm.c" 69 "kvm_init" (e820MaxEntries < st.e820.nrEntries)
  let params := st.guestParams.fill st.e820
  panicIf "firmware magic doesn't match!\n"
    ((List.range 8).any fun i => params.magic.getD i 0 ≠ mem (firmwareStart + BitVec.ofNat 64 i))
  let mem := copyTo mem firmwareStart GuestParams.sizeof params.byte
  return (vmx, { st with guestParams := params, mem })

end Lvisor
