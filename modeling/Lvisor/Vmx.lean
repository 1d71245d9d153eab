import Lvisor.Boot
import Lvisor.Ept
import Lvisor.Vmcs

/-!
# VMX: setup

The state that `vmx.c` works on and how it is brought up: the control words taken
from the capability MSRs (`setupVmcsConfig`), the MSR bitmap (`setMsrInterception`),
the initial VMCS (`vmxVcpuSetup`), and the accessors of guest state that setup and the
exit handlers share (`vmxSetCr0`, `vmxSetSegment`, ...).

Functions of the source that only touch the VMCS are functions on `Vmcs`. What is
printed is not modelled.
-/

namespace Lvisor

open VmcsField

/-! ## Constants -/

/-- `X86_CR0_PE`: protected mode. -/
abbrev x86Cr0Pe : BitVec 64 := 0x1#64

/-- `X86_CR0_ET`: extension type, which is always set on the processors that have VMX. -/
abbrev x86Cr0Et : BitVec 64 := 0x10#64

/-- `X86_CR0_NE`: numeric errors are exceptions. -/
abbrev x86Cr0Ne : BitVec 64 := 0x20#64

/-- `X86_CR0_WP`: write protection holds for the supervisor, too. -/
abbrev x86Cr0Wp : BitVec 64 := 0x10000#64

/-- `X86_CR0_NW`: caches are not written through; set after reset. -/
abbrev x86Cr0Nw : BitVec 64 := 0x20000000#64

/-- `X86_CR0_CD`: caches are off; set after reset. -/
abbrev x86Cr0Cd : BitVec 64 := 0x40000000#64

/-- `X86_CR0_PG`: paging. -/
abbrev x86Cr0Pg : BitVec 64 := 0x80000000#64

/-- `X86_CR4_VMXE`: VMX is enabled, which root operation needs. -/
abbrev x86Cr4Vmxe : BitVec 64 := 0x2000#64

/-- `EFER_SCE`: SYSCALL and SYSRET are enabled. -/
abbrev eferSce : BitVec 64 := 0x1#64

/-- `EFER_LME`: long mode becomes active as soon as paging is on. -/
abbrev eferLme : BitVec 64 := 0x100#64

/-- `EFER_LMA`: long mode is active. -/
abbrev eferLma : BitVec 64 := 0x400#64

/-- `VM_ENTRY_IA32E_MODE`: the guest is in long mode after the entry. -/
abbrev vmEntryIa32eMode : BitVec 32 := 0x200#32

/-- `KVM_GUEST_CR0_ALWAYS_ON`: the bits of CR0 that stay set, whatever the guest writes. -/
abbrev kvmGuestCr0AlwaysOn : BitVec 64 := x86Cr0Wp ||| x86Cr0Ne

/-- `KVM_GUEST_CR4_ALWAYS_ON`: the bits of CR4 that stay set. -/
abbrev kvmGuestCr4AlwaysOn : BitVec 64 := x86Cr4Vmxe

/-- `MSR_IA32_APICBASE`: where the local APIC is, and in which mode. -/
abbrev msrIa32Apicbase : BitVec 32 := 0x1b#32

/-- `MSR_IA32_FEATURE_CONTROL`: the lock of the firmware on VMX. -/
abbrev msrIa32FeatureControl : BitVec 32 := 0x3a#32

/-- `MSR_IA32_SYSENTER_CS`, which the VMCS has a field for in the guest and in the host. -/
abbrev msrIa32SysenterCs : BitVec 32 := 0x174#32

/-- `MSR_IA32_SYSENTER_ESP`, which it has such fields for as well. -/
abbrev msrIa32SysenterEsp : BitVec 32 := 0x175#32

/-- `MSR_IA32_SYSENTER_EIP`, which it has such fields for as well. -/
abbrev msrIa32SysenterEip : BitVec 32 := 0x176#32

/-- `MSR_IA32_CR_PAT`: the memory types of pages. -/
abbrev msrIa32CrPat : BitVec 32 := 0x277#32

/-- `APIC_BASE_MSR + (APIC_ICR >> 4)`: the interrupt command register in x2APIC mode. -/
abbrev msrX2apicIcr : BitVec 32 := 0x830#32

/-- `MSR_EFER`: the MSR with the bits above. -/
abbrev msrEfer : BitVec 32 := 0xc0000080#32

/-- `MSR_FS_BASE`: the base of the segment FS. -/
abbrev msrFsBase : BitVec 32 := 0xc0000100#32

/-- `MSR_GS_BASE`: the base of the segment GS. -/
abbrev msrGsBase : BitVec 32 := 0xc0000101#32

/-! ## State -/

/-- `struct vmcs_config`: what the capability MSRs leave of the controls, and the format of a
VMCS. -/
structure VmcsConfig where
  size : BitVec 32
  basicCap : BitVec 32
  revisionId : BitVec 32
  pinBasedExecCtrl : BitVec 32
  cpuBasedExecCtrl : BitVec 32
  cpuBased2ndExecCtrl : BitVec 32
  vmexitCtrl : BitVec 32
  vmentryCtrl : BitVec 32
  deriving DecidableEq

/-- `struct vmx_capability`: the two words of the MSR for EPT and VPID. -/
structure VmxCapability where
  ept : BitVec 32
  vpid : BitVec 32
  deriving DecidableEq

/-- `msr_bitmap[PAGE_SIZE / sizeof(unsigned long)]`. -/
abbrev MsrBitmap : Type := Vector (BitVec 64) 512

/-- The processor in root operation, as the VMM finds it. -/
structure Host where
  /-- `this_cpu_has(X86_FEATURE_VMX)` -/
  hasVmx : Bool
  cr0 : BitVec 64
  cr3 : BitVec 64
  cr4 : BitVec 64
  /-- the base of the GDT -/
  gdt : BitVec 64
  /-- the base of the IDT -/
  idt : BitVec 64
  /-- the task register -/
  tr : BitVec 16
  /-- the MSRs -/
  msrs : BitVec 32 → BitVec 64
  /-- the commands that the interrupt command register of the local APIC was given, last
  one first -/
  icr : List (BitVec 64) := []
  /-- its upper half, which has an address of its own on the page of the xAPIC -/
  icr2 : BitVec 32 := 0

/-- Where the linker puts what the VMCS points to. -/
structure VmxImage extends Image where
  /-- `__pa(msr_bitmap)` -/
  msrBitmap : BitVec 64
  /-- `__pa(vmx->msr_autoload.guest)` -/
  guestMsrs : BitVec 64
  /-- `__pa(vmx->msr_autoload.host)` -/
  hostMsrs : BitVec 64
  vmxReturn : BitVec 64

/-- Everything the code of `vmx.c` reads and writes: the VCPU (`struct vcpu_vmx` with its
`struct kvm_vcpu`), the VMCS, the statics of `vmx.c` and `kvm.c`, memory and the
processor. -/
structure VmxState where
  /-- `vcpu.regs` -/
  regs : KvmReg → BitVec 64
  /-- `vcpu.cr2` -/
  cr2 : BitVec 64
  /-- whether `vcpu.ept_handler` is set (to `handle_ept_violation` of `kvm.c`) -/
  eptHandler : Bool
  hostRsp : BitVec 64
  fail : BitVec 32
  launched : BitVec 32
  /-- the values of `msr_autoload.guest` -/
  guestMsrs : SavedMsr → BitVec 64
  /-- the values of `msr_autoload.host` -/
  hostMsrs : SavedMsr → BitVec 64
  /-- `current_vmcs` -/
  vmcs : Vmcs
  vmcsConfig : VmcsConfig
  vmxCapability : VmxCapability
  msrBitmap : MsrBitmap
  /-- the EPT arrays of `kvm.c` -/
  ept : Ept
  /-- physical memory but for the EPT arrays -/
  mem : Memory
  /-- the processor -/
  host : Host

/-! ## Control words from the capability MSRs

A capability MSR has the bits that must be one in its low half and those that may be one in its
high half. What the VMM asks for is a minimum and what it would like to have besides. -/

/-- `adjust_vmx_controls`, on the value of the capability MSR: the low word has the bits
that must be one, the high word those that may be one. -/
def adjustVmxControls (ctlMin ctlOpt : BitVec 32) (cap : BitVec 64) : Exec (BitVec 32) := do
  let vmxMsrLow := cap.setWidth 32
  let vmxMsrHigh := (cap >>> 32).setWidth 32
  let ctl := ((ctlMin ||| ctlOpt) &&& vmxMsrHigh) ||| vmxMsrLow
  panicIf "vmx: failed to set minimum control bits\n" (ctlMin &&& ~~~ctl ≠ 0#32)
  return ctl

/-- `setup_vmcs_config`, which also fills `vmx_capability`. It panics when the processor lacks a
control that the VMM needs, or when its VMCS is of another kind. -/
def setupVmcsConfig (rdmsr : BitVec 32 → BitVec 64) : Exec (VmcsConfig × VmxCapability) := do
  -- USE_MSR_BITMAPS, ACTIVATE_SECONDARY_CONTROLS, RDTSC_EXITING, CR3_LOAD_EXITING
  let cpuBased ← adjustVmxControls
    (0x10000000#32 ||| 0x80000000#32 ||| 0x00001000#32 ||| 0x00008000#32) 0#32 (rdmsr 0x482#32)
  -- ENABLE_EPT, ENABLE_VPID, UNRESTRICTED_GUEST; optionally RDTSCP, ENABLE_INVPCID
  let cpuBased2nd ← adjustVmxControls
    (0x00000002#32 ||| 0x00000020#32 ||| 0x00000080#32) (0x00000008#32 ||| 0x00001000#32)
    (rdmsr 0x48b#32)
  -- not CR3_STORE_EXITING, not INVLPG_EXITING
  let cpuBased := cpuBased &&& ~~~(0x00010000#32 ||| 0x00000200#32)
  let cap := rdmsr 0x48c#32
  -- SAVE_DEBUG_CONTROLS, HOST_ADDR_SPACE_SIZE, SAVE_IA32_EFER, LOAD_IA32_EFER;
  -- optionally SAVE_IA32_PAT, LOAD_IA32_PAT, CLEAR_BNDCFGS
  let vmexit ← adjustVmxControls
    (0x00000004#32 ||| 0x00000200#32 ||| 0x00100000#32 ||| 0x00200000#32)
    (0x00040000#32 ||| 0x00080000#32 ||| 0x00800000#32) (rdmsr 0x483#32)
  let pinBased ← adjustVmxControls 0#32 0#32 (rdmsr 0x481#32)
  -- LOAD_DEBUG_CONTROLS, LOAD_IA32_EFER; optionally LOAD_IA32_PAT, LOAD_BNDCFGS
  let vmentry ← adjustVmxControls (0x00000004#32 ||| 0x00008000#32)
    (0x00004000#32 ||| 0x00010000#32) (rdmsr 0x484#32)
  let vmxMsrLow := (rdmsr 0x480#32).setWidth 32
  let vmxMsrHigh := (rdmsr 0x480#32 >>> 32).setWidth 32
  panicIf "vmx: VMCS size is never greater than 4KB\n"
    ((vmxMsrHigh &&& 0x1fff#32).toNat > pageSize.toNat)
  panicIf "vmx: require write-back memory type for VMCS accesses\n"
    ((vmxMsrHigh >>> 18) &&& 15#32 ≠ 6#32)
  return (
    { size := vmxMsrHigh &&& 0x1fff#32
      basicCap := vmxMsrHigh &&& ~~~0x1fff#32
      revisionId := vmxMsrLow
      pinBasedExecCtrl := pinBased
      cpuBasedExecCtrl := cpuBased
      cpuBased2ndExecCtrl := cpuBased2nd
      vmexitCtrl := vmexit
      vmentryCtrl := vmentry },
    { ept := cap.setWidth 32, vpid := (cap >>> 32).setWidth 32 })

/-! ## The MSR bitmap -/

/-- `on ? set_bit(nr, addr) : clear_bit(nr, addr)`, where `addr` is the `addr`-th word of
the bitmap. -/
def putBit (on : Bool) (nr addr : ℕ) (bm : MsrBitmap) : Exec MsrBitmap :=
  let old := bm.getD (addr + nr / 64) 0#64
  let bit := 1#64 <<< (nr % 64)
  store bm (addr + nr / 64) (if on then old ||| bit else old &&& ~~~bit)

/-- `__set_msr_interception`; the four bitmaps start at the bytes 0x000 (read-low), 0x800
(write-low), 0x400 (read-high) and 0xc00 (write-high). -/
def setMsrInterception (bm : MsrBitmap) (msr : BitVec 32) (read write : Bool) :
    Exec MsrBitmap :=
  if msr ≤ 0x1fff#32 then do
    let bm ← putBit read msr.toNat (0x000 / 8) bm
    putBit write msr.toNat (0x800 / 8) bm
  else if 0xc0000000#32 ≤ msr ∧ msr ≤ 0xc0001fff#32 then do
    let msr := msr &&& 0x1fff#32
    let bm ← putBit read msr.toNat (0x400 / 8) bm
    putBit write msr.toNat (0xc00 / 8) bm
  else
    return bm

/-- `vmx_cpu_has_kvm_support`: the processor has VMX at all. -/
def vmxCpuHasKvmSupport (s : VmxState) : Bool := s.host.hasVmx

/-- `vmx_disabled_by_bios`: `FEATURE_CONTROL_LOCKED` is bit 0, VMXON inside and outside
SMX are the bits 1 and 2. -/
def vmxDisabledByBios (s : VmxState) : Bool :=
  let msr := s.host.msrs msrIa32FeatureControl
  if msr &&& 0x1#64 ≠ 0#64 then
    if msr &&& 0x4#64 = 0#64 ∧ msr &&& 0x2#64 ≠ 0#64 then true
    else decide (msr &&& 0x4#64 = 0#64)
  else false

/-- The MSRs `MSR_IA32_VMX_BASIC` to `MSR_IA32_VMX_VMFUNC`, by which a guest would find VMX. -/
def vmxMsrs : List (BitVec 32) := (List.range' 0x480 18).map (BitVec.ofNat 32)

/-- `vmx_hardware_setup`: the control words, the capabilities that the VMM relies on, and the
MSRs whose accesses exit. -/
def vmxHardwareSetup (s : VmxState) : Exec VmxState := do
  let (vmcsConfig, vmxCapability) ← setupVmcsConfig s.host.msrs
  panicIf "vmx: no support for 2MB EPT pages\n" (vmxCapability.ept &&& 0x10000#32 = 0#32)
  panicIf "vmx: no support for 4-level EPT\n" (vmxCapability.ept &&& 0x40#32 = 0#32)
  let bm ← setMsrInterception s.msrBitmap msrIa32Apicbase false true
  let bm ← setMsrInterception bm msrX2apicIcr false true
  let bm ← vmxMsrs.foldlM (fun bm msr => setMsrInterception bm msr true true) bm
  let bm ← setMsrInterception bm msrEfer false true
  return { s with vmcsConfig, vmxCapability, msrBitmap := bm }

/-- The members of `vmx_x86_ops` that `kvm_init` calls; the others are called by their names
here. -/
def vmxX86Ops : KvmX86Ops VmxState where
  cpuHasKvmSupport := vmxCpuHasKvmSupport
  disabledByBios := vmxDisabledByBios
  hardwareSetup := vmxHardwareSetup

/-! ## Control registers -/

/-- `enter_lmode`: the entry control and EFER.LMA, and a task register of the type that long mode
asks for. -/
def enterLmode (v : Vmcs) : Vmcs :=
  let vmentryCtrl := v.read32 vmEntryControls
  let v := v.write vmEntryControls ((vmentryCtrl ||| vmEntryIa32eMode).setWidth 64)
  let efer := v.read guestIa32Efer
  let v := v.write guestIa32Efer (efer ||| eferLma)
  -- a busy 64-bit TSS
  let guestTrAr := v.read32 (guestArBytes .tr)
  if guestTrAr &&& 0xf#32 ≠ 11#32 then
    v.write (guestArBytes .tr) (((guestTrAr &&& ~~~0xf#32) ||| 11#32).setWidth 64)
  else v

/-- `exit_lmode`: the entry control and EFER.LMA again, but not the task register. -/
def exitLmode (v : Vmcs) : Vmcs :=
  let vmentryCtrl := v.read32 vmEntryControls
  let v := v.write vmEntryControls ((vmentryCtrl &&& ~~~vmEntryIa32eMode).setWidth 64)
  let efer := v.read guestIa32Efer
  v.write guestIa32Efer (efer &&& ~~~eferLma)

/-- The part of `vmx_set_cr0` that runs when `EFER.LME` is set. -/
def switchLmode (v : Vmcs) (cr0 : BitVec 64) : Vmcs :=
  let oldCr0 := v.read guestCr0
  let v := if oldCr0 &&& x86Cr0Pg = 0#64 ∧ cr0 &&& x86Cr0Pg ≠ 0#64 then enterLmode v else v
  if oldCr0 &&& x86Cr0Pg ≠ 0#64 ∧ cr0 &&& x86Cr0Pg = 0#64 then exitLmode v else v

/-- `vmx_set_cr0`: a change of paging switches long mode when EFER.LME is set. The bits that are
always on stay on. -/
def vmxSetCr0 (v : Vmcs) (cr0 : BitVec 64) : Vmcs :=
  let v := if v.read guestIa32Efer &&& eferLme ≠ 0#64 then switchLmode v cr0 else v
  v.write guestCr0 (cr0 ||| kvmGuestCr0AlwaysOn)

/-- `vmx_set_cr3`: the page table of the guest, without any check. -/
def vmxSetCr3 (v : Vmcs) (cr3 : BitVec 64) : Vmcs := v.write guestCr3 cr3

/-- `vmx_set_cr4`: any value, with the bits that are always on. -/
def vmxSetCr4 (v : Vmcs) (cr4 : BitVec 64) : Vmcs :=
  v.write guestCr4 (cr4 ||| kvmGuestCr4AlwaysOn)

/-! ## Segment registers -/

/-- `struct kvm_segment`: a segment register with its hidden part, one member for each attribute. -/
structure KvmSegment where
  base : BitVec 64
  limit : BitVec 32
  selector : BitVec 16
  type : BitVec 8
  present : BitVec 8
  dpl : BitVec 8
  db : BitVec 8
  s : BitVec 8
  l : BitVec 8
  g : BitVec 8
  avl : BitVec 8
  unusable : BitVec 8
  deriving DecidableEq

/-- `vmx_get_segment`: the four fields of the VMCS, with the access rights taken apart. A segment
is present when it is usable. -/
def vmxGetSegment (v : Vmcs) (seg : Sreg) : KvmSegment :=
  let ar := (v.read (guestArBytes seg)).setWidth 32
  let unusable := (ar >>> 16) &&& 1#32
  { base := v.read (guestBase seg)
    limit := (v.read (guestLimit seg)).setWidth 32
    selector := (v.read (guestSelector seg)).setWidth 16
    unusable := unusable.setWidth 8
    type := (ar &&& 15#32).setWidth 8
    s := ((ar >>> 4) &&& 1#32).setWidth 8
    dpl := ((ar >>> 5) &&& 3#32).setWidth 8
    present := if unusable = 0#32 then 1#8 else 0#8
    avl := ((ar >>> 12) &&& 1#32).setWidth 8
    l := ((ar >>> 13) &&& 1#32).setWidth 8
    db := ((ar >>> 14) &&& 1#32).setWidth 8
    g := ((ar >>> 15) &&& 1#32).setWidth 8 }

/-- `vmx_segment_access_rights`: the access rights as the VMCS has them. Of a segment that is
unusable, or not present, only that is left. -/
def vmxSegmentAccessRights (var : KvmSegment) : BitVec 32 :=
  if var.unusable ≠ 0#8 ∨ var.present = 0#8 then 1#32 <<< 16
  else
    (var.type &&& 15#8).setWidth 32 |||
    (var.s &&& 1#8).setWidth 32 <<< 4 |||
    (var.dpl &&& 3#8).setWidth 32 <<< 5 |||
    (var.present &&& 1#8).setWidth 32 <<< 7 |||
    (var.avl &&& 1#8).setWidth 32 <<< 12 |||
    (var.l &&& 1#8).setWidth 32 <<< 13 |||
    (var.db &&& 1#8).setWidth 32 <<< 14 |||
    (var.g &&& 1#8).setWidth 32 <<< 15

/-- `vmx_set_segment`: the four fields of the VMCS, in the order of the source. -/
def vmxSetSegment (v : Vmcs) (var : KvmSegment) (seg : Sreg) : Vmcs :=
  (((v.write (guestBase seg) var.base).write
    (guestLimit seg) (var.limit.setWidth 64)).write
    (guestSelector seg) (var.selector.setWidth 64)).write
    (guestArBytes seg) ((vmxSegmentAccessRights var).setWidth 64)

/-- `VMX_AR_DPL`: the privilege level in the access rights. -/
def vmxArDpl (ar : BitVec 32) : BitVec 32 := (ar >>> 5) &&& 3#32

/-- `is_real_mode`: CR0.PE of the guest is clear. -/
def isRealMode (v : Vmcs) : Bool := v.read guestCr0 &&& x86Cr0Pe = 0#64

/-- `vmx_get_cpl`: the privilege level of the guest is that of SS, and 0 in real mode. -/
def vmxGetCpl (v : Vmcs) : BitVec 32 :=
  if isRealMode v then 0#32 else vmxArDpl (v.read32 (guestArBytes .ss))

/-! ## `vmx_vcpu_setup`

The setup writes every field that the guest, the host and the controls need, in the order of the
source. A field that it does not write is that of a cleared VMCS. -/

/-- The controls, and the areas of the MSRs to switch. -/
def setupControls (img : VmxImage) (c : VmcsConfig) : List (VmcsField × BitVec 64) :=
  [(msrBitmap, img.msrBitmap),
   (vmcsLinkPointer, ~~~0#64),
   (pinBasedVmExecControl, c.pinBasedExecCtrl.setWidth 64),
   (cpuBasedVmExecControl, c.cpuBasedExecCtrl.setWidth 64),
   (secondaryVmExecControl, c.cpuBased2ndExecCtrl.setWidth 64),
   (vmExitControls, c.vmexitCtrl.setWidth 64),
   (vmEntryControls, c.vmentryCtrl.setWidth 64),
   (exceptionBitmap, (1#64 <<< 6) ||| (1#64 <<< 14)),
   (pageFaultErrorCodeMask, 0),
   (pageFaultErrorCodeMatch, 0),
   (cr3TargetCount, 0),
   (vmExitMsrStoreCount, 4),
   (vmExitMsrStoreAddr, img.guestMsrs),
   (vmExitMsrLoadCount, 4),
   (vmExitMsrLoadAddr, img.hostMsrs),
   (vmEntryMsrLoadCount, 4),
   (vmEntryMsrLoadAddr, img.guestMsrs)]

/-- The host state; `KERNEL_CS` is 0x10 and `KERNEL_DS` 0x18. -/
def setupHost (img : VmxImage) (c : VmcsConfig) (h : Host) (trBase : BitVec 64) :
    List (VmcsField × BitVec 64) :=
  [(hostFsSelector, 0),
   (hostGsSelector, 0),
   (hostFsBase, h.msrs msrFsBase),
   (hostGsBase, h.msrs msrGsBase),
   (hostCr0, h.cr0),
   (hostCr3, h.cr3),
   (hostCr4, h.cr4),
   (hostIa32Efer, h.msrs msrEfer),
   (hostCsSelector, 0x10),
   (hostDsSelector, 0x18),
   (hostEsSelector, 0x18),
   (hostSsSelector, 0x18),
   (hostTrSelector, h.tr.setWidth 64),
   (hostIdtrBase, h.idt),
   (hostGdtrBase, h.gdt),
   (hostTrBase, trBase),
   (hostRip, img.vmxReturn),
   (hostIa32SysenterCs, ((h.msrs msrIa32SysenterCs).setWidth 32).setWidth 64),
   (hostIa32SysenterEip, h.msrs msrIa32SysenterEip)] ++
  -- VM_EXIT_LOAD_IA32_PAT
  if c.vmexitCtrl &&& 0x80000#32 ≠ 0#32 then [(hostIa32Pat, h.msrs msrIa32CrPat)] else []

/-- The four fields of a guest segment register, in the order in which the source writes them. -/
def setupSegment (seg : Sreg) (selector base limit ar : BitVec 64) :
    List (VmcsField × BitVec 64) :=
  [(guestSelector seg, selector), (guestBase seg, base), (guestLimit seg, limit),
   (guestArBytes seg, ar)]

/-- The guest state after reset, but for its control registers. -/
def setupGuest : List (VmcsField × BitVec 64) :=
  setupSegment .cs 0xf000 0xffff0000 0xffff (0x93 ||| 0x08) ++
  setupSegment .ds 0 0 0xffff 0x93 ++
  setupSegment .es 0 0 0xffff 0x93 ++
  setupSegment .ss 0 0 0xffff 0x93 ++
  setupSegment .fs 0 0 0xffff 0x93 ++
  setupSegment .gs 0 0 0xffff 0x93 ++
  setupSegment .tr 0 0 0xffff 0x8b ++
  setupSegment .ldtr 0 0 0xffff 0x82 ++
  [(guestSysenterCs, 0),
   (guestSysenterEsp, 0),
   (guestSysenterEip, 0),
   (guestIa32Debugctl, 0),
   (guestRflags, 0x02),
   (guestRip, 0xfff0),
   (guestGdtrBase, 0),
   (guestGdtrLimit, 0xffff),
   (guestIdtrBase, 0),
   (guestIdtrLimit, 0xffff),
   (guestActivityState, 0),
   (guestInterruptibilityInfo, 0),
   (guestPendingDbgExceptions, 0),
   (vmEntryIntrInfoField, 0),
   (virtualProcessorId, 1)]

/-- The end of `vmx_vcpu_setup`: the control registers of the guest. -/
def setupControlRegisters (v : Vmcs) : Vmcs :=
  let v := v.write cr0GuestHostMask kvmGuestCr0AlwaysOn
  let v := v.write cr0ReadShadow kvmGuestCr0AlwaysOn
  let v := vmxSetCr0 v (x86Cr0Nw ||| x86Cr0Cd ||| x86Cr0Et)
  let v := v.write guestCr3 0
  let v := v.write cr4GuestHostMask kvmGuestCr4AlwaysOn
  let v := v.write cr4ReadShadow kvmGuestCr4AlwaysOn
  vmxSetCr4 v 0

/-- `get_tr_base`: the descriptor has its base in the bits 16 to 39, 56 to 63 and 64 to
95, and its present bit at 47. -/
def getTrBase (h : Host) (mem : Memory) : Exec (BitVec 64) := do
  let desc := h.gdt + h.tr.setWidth 64 / 8#64 * 8#64
  let low := read64 mem desc
  bugOn "vmm/vmx.c" 588 "get_tr_base" ((low >>> 47) &&& 1#64 ≠ 1#64)
  return ((low >>> 16) &&& 0xffff#64) |||
    ((low >>> 32) &&& 0xff#64) <<< 16 |||
    ((low >>> 56) &&& 0xff#64) <<< 24 |||
    (read32 mem (desc + 8#64)).setWidth 64 <<< 32

/-- `vmx_vcpu_setup`: all fields of the VMCS, and the MSRs of the host that an exit restores. It
asks for the task register that the kernel loads. -/
def vmxVcpuSetup (img : VmxImage) (s : VmxState) : Exec VmxState := do
  let v := s.vmcs.writeAll (setupControls img s.vmcsConfig)
  bugOn "vmm/vmx.c" 653 "vmx_vcpu_setup" (s.host.tr ≠ 0x40#16)
  let trBase ← getTrBase s.host s.mem
  let v := v.writeAll (setupHost img s.vmcsConfig s.host trBase)
  let v := v.writeAll setupGuest
  return { s with
    vmcs := setupControlRegisters v
    hostMsrs := fun m => s.host.msrs m.index }

/-! ## The start of the guest -/

/-- `vmx_set_tdp`; the memory type is 6 (write-back), the page-walk length minus one 3. -/
def vmxSetTdp (v : Vmcs) (tdp : BitVec 64) : Vmcs :=
  v.write eptPointer (tdp ||| 0x6#64 ||| (3#64 <<< 3))

/-- `vmx_vcpu_enable`, but for `vmxon` and `vmptrld`: it unlocks VMX if the firmware has not, and
sets CR4.VMXE. -/
def vmxVcpuEnable (s : VmxState) : Exec VmxState := do
  panicIf "vmx: VMXE already set in CR4\n" (s.host.cr4 &&& x86Cr4Vmxe ≠ 0#64)
  let old := s.host.msrs msrIa32FeatureControl
  let testBits := 0x1#64 ||| 0x4#64
  let msrs :=
    if old &&& testBits ≠ testBits then
      Function.update s.host.msrs msrIa32FeatureControl (old ||| testBits)
    else s.host.msrs
  return { s with host := { s.host with msrs, cr4 := s.host.cr4 ||| x86Cr4Vmxe } }

/-- `create_vcpu`: VMX is enabled, the VMCS is set up, and EPT gets its tables and its handler. -/
def createVcpu (img : VmxImage) (s : VmxState) : Exec VmxState := do
  let s ← vmxVcpuEnable s
  let s ← vmxVcpuSetup img s
  return { s with vmcs := vmxSetTdp s.vmcs img.eptPml4, eptHandler := true }

/-- `run_vcpu` up to its call of `kvm_loop`: start in real mode at `start_ip`. -/
def runVcpu (s : VmxState) (startIp : BitVec 32) : VmxState :=
  let base := startIp &&& 0xffff0000#32
  let cs : KvmSegment :=
    { base := base.setWidth 64, limit := 0xffff, selector := (base >>> 4).setWidth 16,
      type := 11, s := 1, present := 1, dpl := 0, db := 0, l := 0, g := 0, avl := 0,
      unusable := 0 }
  { s with
    vmcs := (vmxSetSegment s.vmcs cs .cs).write guestRip ((startIp &&& 0xffff#32).setWidth 64) }

end Lvisor
