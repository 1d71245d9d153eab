import Lvisor.Lib.Run
import Lvisor.Lib.Word
import Lvisor.Machine

/-!
# The extended page tables

The EPT of the guest is three static arrays of `kvm.c`: one PML4, one PDPT and the
four page directories of the low 4 GiB, which hold 2 MiB leaves. They are filled
on demand by `handleEptViolation`, one frame a fault; `constructTdp` is the eager
construction. Two walkers read them:

* `eptTranslate` — the processor's own 4-level walk;
* `gpa2hpa` — the software walk of `vmx.c`, with its assertions.

Both read 64-bit words of physical memory; `Ept.word` lays the three arrays over
the rest of it.
-/

namespace Lvisor

/-! ## The arrays -/

/-- `EPTE_READ | EPTE_WRITE | EPTE_EXECUTE`: an entry that allows every access. -/
abbrev epteRwx : BitVec 64 := 0x7#64

/-- `EPTE_PSE`: the entry maps a page of 2 MiB and names no table. -/
abbrev eptePse : BitVec 64 := 0x80#64

/-- The static state of `kvm.c` that the EPT is made of. -/
structure Ept where
  eptPml4 : Vector (BitVec 64) 512
  /-- `ept_pdpt_0_512g` -/
  eptPdpt : Vector (BitVec 64) 512
  /-- `ept_pd_0_4g` -/
  eptPd : Vector (BitVec 64) (4 * 512)
  /-- `pml4_0_512g_initialized` -/
  initialized : Bool
  deriving DecidableEq

/-- The zeroed `.bss`. -/
def Ept.zero : Ept where
  eptPml4 := Vector.replicate 512 0#64
  eptPdpt := Vector.replicate 512 0#64
  eptPd := Vector.replicate (4 * 512) 0#64
  initialized := false

/-- The stores that link the upper levels: `ept_pml4[0]` and the first four
entries of `ept_pdpt_0_512g`. -/
def linkUpper (img : Image) (s : Ept) : Exec Ept := do
  let pml4 ← store s.eptPml4 0 (img.eptPdpt ||| epteRwx)
  let pdpt ← [0, 1, 2, 3].foldlM
    (fun a i => store a i ((img.eptPd + BitVec.ofNat 64 (i * 512 * 8)) ||| epteRwx)) s.eptPdpt
  return { s with eptPml4 := pml4, eptPdpt := pdpt }

/-- `handle_ept_violation` of `kvm.c`: it links the tables on the way to the frame and maps it. A
frame that a guest must not have is a panic. -/
def handleEptViolation (img : Image) (s : Ept) (guestPhys : BitVec 64) : Exec Ept := do
  if img.start ≤ guestPhys ∧ guestPhys < img.stop then
    throw (.panic "cannot write into VMM\n")
  if guestPhys ≥ sz4G then
    throw (.panic "cannot write to physmem higher than 4G\n")
  let s ← if s.initialized then pure s else do
    let s ← linkUpper img s
    pure { s with initialized := true }
  let pd ← store s.eptPd (guestPhys / sz2M).toNat
    ((guestPhys &&& ~~~(sz2M - 1)) ||| epteRwx ||| eptePse)
  return { s with eptPd := pd }

/-- The body of both loops of `construct_tdp`: the frame `i` is mapped one to one. -/
def mapLarge (a : Vector (BitVec 64) (4 * 512)) (i : ℕ) : Exec (Vector (BitVec 64) (4 * 512)) :=
  store a i ((sz2M * BitVec.ofNat 64 i) ||| epteRwx ||| eptePse)

/-- `construct_tdp` of `kvm.c`: all frames below 4 GiB but for those of the VMM. -/
def constructTdp (img : Image) (s : Ept) : Exec Ept := do
  bugOn "vmm/kvm.c" 33 "construct_tdp" (img.start % sz2M ≠ 0)
  bugOn "vmm/kvm.c" 34 "construct_tdp" (img.stop % sz2M ≠ 0)
  let s ← linkUpper img s
  let low := (img.start / sz2M).toNat
  let pd ← (List.range' 0 low).foldlM mapLarge s.eptPd
  let high := (img.stop / sz2M).toNat
  let pd ← (List.range' high ((sz4G / sz2M).toNat - high)).foldlM mapLarge pd
  return { s with eptPd := pd }

/-! ## Physical memory and the two walkers

The tables are in physical memory, at the addresses of the static arrays. The processor knows no
more than the root, and `gpa2hpa` starts at the same one, but with assertions on the way. -/

/-- The 64-bit word at physical address `p`: the arrays where the image has them,
`mem` elsewhere. -/
def Ept.word (img : Image) (mem : BitVec 64 → BitVec 64) (s : Ept) (p : BitVec 64) :
    BitVec 64 :=
  if img.eptPml4.toNat ≤ p.toNat ∧ p.toNat < img.eptPml4.toNat + 512 * 8 then
    s.eptPml4.getD ((p.toNat - img.eptPml4.toNat) / 8) 0
  else if img.eptPdpt.toNat ≤ p.toNat ∧ p.toNat < img.eptPdpt.toNat + 512 * 8 then
    s.eptPdpt.getD ((p.toNat - img.eptPdpt.toNat) / 8) 0
  else if img.eptPd.toNat ≤ p.toNat ∧ p.toNat < img.eptPd.toNat + 4 * 512 * 8 then
    s.eptPd.getD ((p.toNat - img.eptPd.toNat) / 8) 0
  else mem p

/-- What a guest-physical address is mapped to: the address, the rights, and the size of the
block. -/
structure EptMapping where
  /-- the host-physical address -/
  hpa : BitVec 64
  /-- the access rights, the conjunction of those on the path -/
  perm : BitVec 64
  /-- the leaf maps a naturally aligned block of `2 ^ shift` bytes -/
  shift : ℕ
  deriving DecidableEq, Repr

/-- The processor's EPT walk from the table at `table`, one entry for each level
of `shifts`. An entry without access rights is not present; bit 7 makes a leaf of
an entry of the two middle levels; bits 51:12 are the address. -/
def eptWalk (rd : BitVec 64 → BitVec 64) (gpa : BitVec 64) :
    List ℕ → BitVec 64 → BitVec 64 → Option EptMapping
  | [], _, _ => none
  | shift :: rest, table, perm =>
    let entry := rd (table + ((gpa >>> shift) &&& 0x1ff#64) * 8#64)
    let perm := perm &&& entry
    if entry &&& epteRwx = 0#64 then none
    else if rest = [] then
      some ⟨(entry &&& 0x000ffffffffff000#64) ||| (gpa &&& lowMask 64 12), perm, 12⟩
    else if entry &&& eptePse ≠ 0#64 then
      if shift = 39 then none
      else some ⟨(entry &&& 0x000ffffffffff000#64 &&& ~~~lowMask 64 shift) |||
        (gpa &&& lowMask 64 shift), perm, shift⟩
    else eptWalk rd gpa rest (entry &&& 0x000ffffffffff000#64) perm

/-- The 4-level translation of a guest-physical address, as the processor makes it. -/
def eptTranslate (rd : BitVec 64 → BitVec 64) (eptp gpa : BitVec 64) : Option EptMapping :=
  eptWalk rd gpa [39, 30, 21, 12] eptp epteRwx

/-- `masks[]` of `vmx.c`: for each level the bits of an address above a page of that level. -/
def masks : Fin 4 → BitVec 64
  | 0 => 0xffffff8000000000#64
  | 1 => 0xffffffffc0000000#64
  | 2 => 0xffffffffffe00000#64
  | 3 => 0xfffffffffffff000#64

/-- `shifts[]` of `vmx.c`: where the index of each level is in an address. -/
def shifts : Fin 4 → ℕ
  | 0 => 39
  | 1 => 30
  | 2 => 21
  | 3 => 12

/-- The loop of `gpa2hpa`, over the levels left; `entry` is the last entry read. -/
def gpa2hpaLoop (rd : BitVec 64 → BitVec 64) (gpa : BitVec 64) :
    List (Fin 4) → BitVec 64 → BitVec 64 → Exec (BitVec 64)
  | [], _, entry => return (entry &&& ~~~0xfff#64) ||| (gpa &&& 0xfff#64)
  | i :: rest, entries, _ => do
    let idx := (gpa >>> shifts i) &&& 0x1ff#64
    let entry := rd (entries + idx * 8#64)
    bugOn "vmm/vmx.c" 1222 "gpa2hpa" (entry &&& 0x1#64 = 0#64)
    if entry &&& (1#64 <<< 7) ≠ 0#64 then
      bugOn "vmm/vmx.c" 1225 "gpa2hpa" (¬(i = 1 ∨ i = 2))
      return (entry &&& masks i) ||| (gpa &&& ~~~masks i)
    else
      gpa2hpaLoop rd gpa rest (entry &&& ~~~0xfff#64) entry

/-- The levels of a walk, from the top down. -/
def levels : List (Fin 4) := [0, 1, 2, 3]

/-- `gpa2hpa` of `vmx.c`: the same translation in software, which is a BUG where an entry is
missing. -/
def gpa2hpa (rd : BitVec 64 → BitVec 64) (eptp gpa : BitVec 64) : Exec (BitVec 64) :=
  gpa2hpaLoop rd gpa levels eptp 0#64

end Lvisor
