import Lvisor.Machine

/-!
# The virtual-machine control structure

A VMCS is a record of fields that the VMM reads and writes one at a time, by
`vmread` and `vmwrite`. Each field has an encoding (`asm/vmx.h`), whose bits 14:13
give its width; a value of a field *is* a bit vector of that width, so a VMCS with an
over-wide field cannot be built. `vmread` extends to 64 bits and `vmwrite` drops what
does not fit.

* `VmcsField` — the fields the VMM uses, with `encoding` and `width`, which agree;
* `Vmcs.read`, `Vmcs.write` — the two instructions, and `read_write`, the only fact
  later proofs need of them;
* `Vmcs.writeAll` — a straight sequence of writes, as `vmx_vcpu_setup` makes them.
-/

namespace Lvisor

/-! ## The enumerations of `asm/kvm_host.h` and `vmx.c` -/

/-- `enum kvm_reg`: the indices of `vcpu->regs`, in the order of the processor. -/
inductive KvmReg where
  | rax | rcx | rdx | rbx | rsp | rbp | rsi | rdi
  | r8 | r9 | r10 | r11 | r12 | r13 | r14 | r15
  deriving DecidableEq, Repr

/-- The register of an index, as it stands in an exit qualification. -/
def KvmReg.ofIndex (i : BitVec 4) : KvmReg :=
  match i.toNat with
  | 0 => .rax
  | 1 => .rcx
  | 2 => .rdx
  | 3 => .rbx
  | 4 => .rsp
  | 5 => .rbp
  | 6 => .rsi
  | 7 => .rdi
  | 8 => .r8
  | 9 => .r9
  | 10 => .r10
  | 11 => .r11
  | 12 => .r12
  | 13 => .r13
  | 14 => .r14
  | _ => .r15

/-- The segment registers `VCPU_SREG_*`, of which the VMCS has four fields each. -/
inductive Sreg where
  | es | cs | ss | ds | fs | gs | tr | ldtr
  deriving DecidableEq, Repr

/-- `enum saved_msrs`: the MSRs of `MSR_SAVE_LIST`, switched on every entry and exit. -/
inductive SavedMsr where
  | kernelGsBase | syscallMask | lstar | star
  deriving DecidableEq, Repr

/-- `vmx_msr_index[]`: the number of each of the MSRs. -/
def SavedMsr.index : SavedMsr → BitVec 32
  | .kernelGsBase => 0xc0000102#32
  | .syscallMask => 0xc0000084#32
  | .lstar => 0xc0000082#32
  | .star => 0xc0000081#32

/-! ## Fields

The encodings are those of the header. The width of a field follows from its encoding, and this
is proved here for all of them, so that the types can be relied on. -/

/-- The fields of `enum vmcs_field` that the VMM reads or writes. The four fields of a
guest segment register, `VMX_SEGMENT_FIELD(seg)`, are indexed by it. -/
inductive VmcsField where
  -- 16 bits
  | virtualProcessorId
  | guestSelector (seg : Sreg)
  | hostEsSelector | hostCsSelector | hostSsSelector | hostDsSelector
  | hostFsSelector | hostGsSelector | hostTrSelector
  -- 64 bits
  | msrBitmap | vmExitMsrStoreAddr | vmExitMsrLoadAddr | vmEntryMsrLoadAddr
  | eptPointer | guestPhysicalAddress | vmcsLinkPointer
  | guestIa32Debugctl | guestIa32Efer | hostIa32Pat | hostIa32Efer
  -- 32 bits
  | pinBasedVmExecControl | cpuBasedVmExecControl | exceptionBitmap
  | pageFaultErrorCodeMask | pageFaultErrorCodeMatch | cr3TargetCount
  | vmExitControls | vmExitMsrStoreCount | vmExitMsrLoadCount
  | vmEntryControls | vmEntryMsrLoadCount | vmEntryIntrInfoField
  | secondaryVmExecControl | vmExitReason | vmExitIntrInfo | vmExitInstructionLen
  | guestLimit (seg : Sreg) | guestGdtrLimit | guestIdtrLimit
  | guestArBytes (seg : Sreg)
  | guestInterruptibilityInfo | guestActivityState | guestSysenterCs | hostIa32SysenterCs
  -- natural width
  | cr0GuestHostMask | cr4GuestHostMask | cr0ReadShadow | cr4ReadShadow
  | exitQualification | guestCr0 | guestCr3 | guestCr4
  | guestBase (seg : Sreg) | guestGdtrBase | guestIdtrBase
  | guestRsp | guestRip | guestRflags | guestPendingDbgExceptions
  | guestSysenterEsp | guestSysenterEip
  | hostCr0 | hostCr3 | hostCr4 | hostFsBase | hostGsBase | hostTrBase
  | hostGdtrBase | hostIdtrBase | hostIa32SysenterEsp | hostIa32SysenterEip | hostRsp | hostRip
  deriving DecidableEq, Repr

/-- The position of a segment register within its groups of fields. -/
def Sreg.offset : Sreg → ℕ
  | .es => 0x0
  | .cs => 0x2
  | .ss => 0x4
  | .ds => 0x6
  | .fs => 0x8
  | .gs => 0xa
  | .ldtr => 0xc
  | .tr => 0xe

namespace VmcsField

/-- The encoding of a field in `enum vmcs_field`, which VMREAD and VMWRITE take. -/
def encoding : VmcsField → ℕ
  | virtualProcessorId => 0x0000
  | guestSelector seg => 0x0800 + seg.offset
  | hostEsSelector => 0x0c00
  | hostCsSelector => 0x0c02
  | hostSsSelector => 0x0c04
  | hostDsSelector => 0x0c06
  | hostFsSelector => 0x0c08
  | hostGsSelector => 0x0c0a
  | hostTrSelector => 0x0c0c
  | msrBitmap => 0x2004
  | vmExitMsrStoreAddr => 0x2006
  | vmExitMsrLoadAddr => 0x2008
  | vmEntryMsrLoadAddr => 0x200a
  | eptPointer => 0x201a
  | guestPhysicalAddress => 0x2400
  | vmcsLinkPointer => 0x2800
  | guestIa32Debugctl => 0x2802
  | guestIa32Efer => 0x2806
  | hostIa32Pat => 0x2c00
  | hostIa32Efer => 0x2c02
  | pinBasedVmExecControl => 0x4000
  | cpuBasedVmExecControl => 0x4002
  | exceptionBitmap => 0x4004
  | pageFaultErrorCodeMask => 0x4006
  | pageFaultErrorCodeMatch => 0x4008
  | cr3TargetCount => 0x400a
  | vmExitControls => 0x400c
  | vmExitMsrStoreCount => 0x400e
  | vmExitMsrLoadCount => 0x4010
  | vmEntryControls => 0x4012
  | vmEntryMsrLoadCount => 0x4014
  | vmEntryIntrInfoField => 0x4016
  | secondaryVmExecControl => 0x401e
  | vmExitReason => 0x4402
  | vmExitIntrInfo => 0x4404
  | vmExitInstructionLen => 0x440c
  | guestLimit seg => 0x4800 + seg.offset
  | guestGdtrLimit => 0x4810
  | guestIdtrLimit => 0x4812
  | guestArBytes seg => 0x4814 + seg.offset
  | guestInterruptibilityInfo => 0x4824
  | guestActivityState => 0x4826
  | guestSysenterCs => 0x482a
  | hostIa32SysenterCs => 0x4c00
  | cr0GuestHostMask => 0x6000
  | cr4GuestHostMask => 0x6002
  | cr0ReadShadow => 0x6004
  | cr4ReadShadow => 0x6006
  | exitQualification => 0x6400
  | guestCr0 => 0x6800
  | guestCr3 => 0x6802
  | guestCr4 => 0x6804
  | guestBase seg => 0x6806 + seg.offset
  | guestGdtrBase => 0x6816
  | guestIdtrBase => 0x6818
  | guestRsp => 0x681c
  | guestRip => 0x681e
  | guestRflags => 0x6820
  | guestPendingDbgExceptions => 0x6822
  | guestSysenterEsp => 0x6824
  | guestSysenterEip => 0x6826
  | hostCr0 => 0x6c00
  | hostCr3 => 0x6c02
  | hostCr4 => 0x6c04
  | hostFsBase => 0x6c06
  | hostGsBase => 0x6c08
  | hostTrBase => 0x6c0a
  | hostGdtrBase => 0x6c0c
  | hostIdtrBase => 0x6c0e
  | hostIa32SysenterEsp => 0x6c10
  | hostIa32SysenterEip => 0x6c12
  | hostRsp => 0x6c14
  | hostRip => 0x6c16

/-- The width of a field; natural width is 64 bits. -/
def width : VmcsField → ℕ
  | virtualProcessorId | guestSelector _
  | hostEsSelector | hostCsSelector | hostSsSelector | hostDsSelector
  | hostFsSelector | hostGsSelector | hostTrSelector => 16
  | msrBitmap | vmExitMsrStoreAddr | vmExitMsrLoadAddr | vmEntryMsrLoadAddr
  | eptPointer | guestPhysicalAddress | vmcsLinkPointer
  | guestIa32Debugctl | guestIa32Efer | hostIa32Pat | hostIa32Efer => 64
  | pinBasedVmExecControl | cpuBasedVmExecControl | exceptionBitmap
  | pageFaultErrorCodeMask | pageFaultErrorCodeMatch | cr3TargetCount
  | vmExitControls | vmExitMsrStoreCount | vmExitMsrLoadCount
  | vmEntryControls | vmEntryMsrLoadCount | vmEntryIntrInfoField
  | secondaryVmExecControl | vmExitReason | vmExitIntrInfo | vmExitInstructionLen
  | guestLimit _ | guestGdtrLimit | guestIdtrLimit | guestArBytes _
  | guestInterruptibilityInfo | guestActivityState | guestSysenterCs
  | hostIa32SysenterCs => 32
  | cr0GuestHostMask | cr4GuestHostMask | cr0ReadShadow | cr4ReadShadow
  | exitQualification | guestCr0 | guestCr3 | guestCr4
  | guestBase _ | guestGdtrBase | guestIdtrBase
  | guestRsp | guestRip | guestRflags | guestPendingDbgExceptions
  | guestSysenterEsp | guestSysenterEip
  | hostCr0 | hostCr3 | hostCr4 | hostFsBase | hostGsBase | hostTrBase
  | hostGdtrBase | hostIdtrBase | hostIa32SysenterEsp | hostIa32SysenterEip
  | hostRsp | hostRip => 64

/-- The width stands in bits 14:13 of the encoding, which is what `vmcs_check16` and its
siblings test. -/
theorem width_eq_encoding (f : VmcsField) :
    f.width =
      match f.encoding / 0x2000 with
      | 0 => 16
      | 1 => 64
      | 2 => 32
      | _ => 64 := by
  cases f with
  | guestSelector seg => cases seg <;> rfl
  | guestLimit seg => cases seg <;> rfl
  | guestArBytes seg => cases seg <;> rfl
  | guestBase seg => cases seg <;> rfl
  | _ => rfl

theorem width_le (f : VmcsField) : f.width ≤ 64 := by
  cases f <;> simp [width]

end VmcsField

/-! ## `vmread` and `vmwrite`

A read after a write of the same field gives the low bits that the field can hold, and of any
other field what was there. Later proofs use these two facts and never look into the record. -/

/-- A VMCS: for each field a value of its width. -/
@[ext] structure Vmcs where
  /-- the value of a field -/
  field : (f : VmcsField) → BitVec f.width

namespace Vmcs

/-- The VMCS region of zeroed `.bss`. -/
def zero : Vmcs := ⟨fun _ => 0⟩

/-- `__vmcs_read`, and with it `vmcs_readl` and `vmcs_read64`. -/
def read (v : Vmcs) (f : VmcsField) : BitVec 64 := (v.field f).setWidth 64

/-- `vmcs_read32`: the low 32 bits of a field. -/
def read32 (v : Vmcs) (f : VmcsField) : BitVec 32 := (v.read f).setWidth 32

/-- `__vmcs_write`, on a field the processor supports: a field takes as many bits as it has. -/
def write (v : Vmcs) (f : VmcsField) (x : BitVec 64) : Vmcs :=
  ⟨Function.update v.field f (x.setWidth f.width)⟩

/-- `vmcs_write*` one after the other, in the order of the list. -/
def writeAll (v : Vmcs) (ws : List (VmcsField × BitVec 64)) : Vmcs :=
  ws.foldl (fun v w => v.write w.1 w.2) v

variable {v : Vmcs} {f g : VmcsField} {x : BitVec 64}

@[simp] theorem read_zero (f : VmcsField) : zero.read f = 0#64 := by
  simp [read, zero]

theorem read_write_same :
    (v.write f x).read f = (x.setWidth f.width).setWidth 64 := by
  simp [read, write]

@[simp] theorem read_write_ne (h : g ≠ f) : (v.write f x).read g = v.read g := by
  simp [read, write, h]

@[simp] theorem read32_write_ne (h : g ≠ f) : (v.write f x).read32 g = v.read32 g := by
  rw [read32, read_write_ne h, read32]

/-- A field of full width keeps the value written. -/
@[simp] theorem read_write_of_width (h : f.width == 64) : (v.write f x).read f = x := by
  rw [read_write_same, eq_of_beq h, BitVec.setWidth_eq, BitVec.setWidth_eq]

/-- A 32-bit field keeps the low half of the value written. -/
@[simp] theorem read32_write_of_width (h : f.width == 32) :
    (v.write f x).read32 f = x.setWidth 32 := by
  rw [read32, read_write_same, eq_of_beq h]
  simp

/-- A field that a sequence does not write is kept. -/
theorem read_writeAll_of_notMem {ws : List (VmcsField × BitVec 64)}
    (h : f ∉ ws.map Prod.fst) : (v.writeAll ws).read f = v.read f := by
  induction ws generalizing v with
  | nil => rfl
  | cons w ws ih =>
    rw [List.map_cons, List.mem_cons, not_or] at h
    rw [writeAll, List.foldl_cons, ← writeAll, ih h.2, read_write_ne h.1]

/-- The last write to a field, number `n` of the sequence, is the one that stays. -/
theorem read_writeAll_of_last {ws : List (VmcsField × BitVec 64)} {n : ℕ}
    (hn : ws[n]? = some (f, x)) (h : f ∉ (ws.drop (n + 1)).map Prod.fst) :
    (v.writeAll ws).read f = (x.setWidth f.width).setWidth 64 := by
  obtain ⟨hlt, hget⟩ := List.getElem?_eq_some_iff.mp hn
  have hsplit : ws = ws.take n ++ (f, x) :: ws.drop (n + 1) := by
    rw [← hget, List.getElem_cons_drop, List.take_append_drop]
  rw [hsplit, writeAll, List.foldl_append, List.foldl_cons, ← writeAll, ← writeAll,
    read_writeAll_of_notMem h, read_write_same]

end Vmcs

end Lvisor
