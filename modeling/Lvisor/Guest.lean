import Lvisor.VmxExit

/-!
# The guest

What the processor lets the guest do under the VMCS that the VMM has set up, as a step
function `guestStep`. An instruction that the controls intercept ends in a VM exit,
which `vmxHandleExit` handles within the same step; any other takes effect directly.

* MOV to CR0 and CR4 exit when a bit of the guest/host mask differs from the read
  shadow, and otherwise write the bits outside of the mask;
* WRMSR and RDMSR exit according to the MSR bitmap;
* `GuestAct.exit` is any other exit, with any information in the exit fields;
* `GuestAct.work` is everything else the guest does without an exit: it leaves any
  values at all in its registers, its memory and the fields of its own state.

The guest is adversarial: a run is any list of acts.
-/

namespace Lvisor

open VmcsField

/-! ## Exits

A VM exit writes its reason and whatever belongs to it into the VMCS, and the handler is called
in the same step. The fields of an exit are the environment's choice, within the width of each. -/

/-- The index of a register in an exit qualification. -/
def KvmReg.index : KvmReg → BitVec 4
  | .rax => 0
  | .rcx => 1
  | .rdx => 2
  | .rbx => 3
  | .rsp => 4
  | .rbp => 5
  | .rsi => 6
  | .rdi => 7
  | .r8 => 8
  | .r9 => 9
  | .r10 => 10
  | .r11 => 11
  | .r12 => 12
  | .r13 => 13
  | .r14 => 14
  | .r15 => 15

theorem KvmReg.ofIndex_index (r : KvmReg) : KvmReg.ofIndex r.index = r := by
  cases r <;> rfl

/-- What the processor writes to the VMCS on an exit. -/
structure ExitInfo where
  /-- `VM_EXIT_REASON` -/
  reason : BitVec 32
  /-- `EXIT_QUALIFICATION` -/
  qualification : BitVec 64 := 0
  /-- `VM_EXIT_INTR_INFO` -/
  intrInfo : BitVec 32 := 0
  /-- `GUEST_PHYSICAL_ADDRESS` -/
  guestPhysical : BitVec 64 := 0
  /-- `VM_EXIT_INSTRUCTION_LEN` -/
  instructionLen : BitVec 32 := 0

/-- The VMCS after an exit. -/
def Vmcs.recordExit (v : Vmcs) (x : ExitInfo) : Vmcs :=
  ((((v.write vmExitReason (x.reason.setWidth 64)).write exitQualification x.qualification).write
    vmExitIntrInfo (x.intrInfo.setWidth 64)).write guestPhysicalAddress x.guestPhysical).write
    vmExitInstructionLen (x.instructionLen.setWidth 64)

/-- A VM exit and its handling, up to the next entry. -/
def exitWith (img : VmxImage) (env : ExitEnv) (s : VmxState) (x : ExitInfo) : Exec VmxState :=
  vmxHandleExit img env { s with vmcs := s.vmcs.recordExit x }

/-! ## MSRs -/

/-- A bit of the MSR bitmap, as the processor reads it. -/
def bitmapTest (bm : MsrBitmap) (nr addr : ℕ) : Bool :=
  (bm.getD (addr + nr / 64) 0#64).getLsbD (nr % 64)

/-- Whether an access exits, where the low and the high bitmap start at the given words.
MSRs outside of the two ranges always exit. -/
def bitmapExits (bm : MsrBitmap) (low high : ℕ) (msr : BitVec 32) : Bool :=
  if msr ≤ 0x1fff#32 then bitmapTest bm msr.toNat low
  else if 0xc0000000#32 ≤ msr ∧ msr ≤ 0xc0001fff#32 then
    bitmapTest bm (msr &&& 0x1fff#32).toNat high
  else true

/-- `CPU_BASED_USE_MSR_BITMAPS` is bit 28; without it every access exits. -/
def usesMsrBitmaps (v : Vmcs) : Bool := (v.read32 cpuBasedVmExecControl).getLsbD 28

/-- Whether a WRMSR exits, by the controls and the bitmap. -/
def wrmsrExits (s : VmxState) (msr : BitVec 32) : Bool :=
  !usesMsrBitmaps s.vmcs || bitmapExits s.msrBitmap (0x800 / 8) (0xc00 / 8) msr

/-- Whether an RDMSR exits, by the controls and the bitmap. -/
def rdmsrExits (s : VmxState) (msr : BitVec 32) : Bool :=
  !usesMsrBitmaps s.vmcs || bitmapExits s.msrBitmap (0x000 / 8) (0x400 / 8) msr

/-- The field of the VMCS that holds an MSR of the guest, if there is one. -/
def msrField (msr : BitVec 32) : Option VmcsField :=
  if msr = msrEfer then some guestIa32Efer
  else if msr = msrFsBase then some (guestBase .fs)
  else if msr = msrGsBase then some (guestBase .gs)
  else if msr = msrIa32SysenterCs then some guestSysenterCs
  else if msr = msrIa32SysenterEsp then some guestSysenterEsp
  else if msr = msrIa32SysenterEip then some guestSysenterEip
  else none

/-- The entry of `msr_autoload` for an MSR, if there is one. -/
def savedMsr (msr : BitVec 32) : Option SavedMsr :=
  [SavedMsr.kernelGsBase, .syscallMask, .lstar, .star].find? fun m => m.index = msr

/-- A WRMSR that does not exit: the MSRs that are switched with the guest are found in
the VMCS or in `msr_autoload.guest` at the next exit, the others are the processor's. A write
that it does not accept is a fault of the guest, which writes nothing. -/
def writeMsr (s : VmxState) (msr : BitVec 32) (val : BitVec 64) : VmxState :=
  match msrField msr, savedMsr msr with
  | some f, _ => { s with vmcs := s.vmcs.write f val }
  | none, some m => { s with guestMsrs := Function.update s.guestMsrs m val }
  | none, none =>
    { s with
      host := if wrmsrAccepted s.host msr val then hostWrmsr s.host msr val else s.host }

/-! ## Control registers

For each bit of CR0 and CR4 the mask says whether the VMM owns it. A write that leaves the owned
bits as the read shadow has them goes through, and changes the others only. -/

/-- A general-purpose register of the guest: its stack pointer is in the VMCS. -/
def guestReg (s : VmxState) (reg : KvmReg) : BitVec 64 :=
  if reg = .rsp then s.vmcs.read guestRsp else s.regs reg

/-- Whether a MOV of `val` to CR0 or CR4 exits. -/
def crExits (mask shadow val : BitVec 64) : Bool := (val ^^^ shadow) &&& mask ≠ 0#64

/-- What a MOV that does not exit leaves in the register: the bits of the mask stay. -/
def crMerge (mask old val : BitVec 64) : BitVec 64 := (old &&& mask) ||| (val &&& ~~~mask)

/-- A MOV to CR0 that does not exit. The processor keeps `EFER.LMA` at `CR0.PG` and
`EFER.LME`, and saves it as the IA-32e-mode entry control on the next exit. -/
def movToCr0 (v : Vmcs) (val : BitVec 64) : Vmcs :=
  let cr0 := crMerge (v.read cr0GuestHostMask) (v.read guestCr0) val
  let efer := v.read guestIa32Efer
  let lma := flag cr0 x86Cr0Pg && flag efer eferLme
  ((v.write guestCr0 cr0).write guestIa32Efer (putFlag efer eferLma lma)).write
    vmEntryControls ((putFlag (v.read32 vmEntryControls) vmEntryIa32eMode lma).setWidth 64)

/-- A MOV to CR4 that does not exit: bits of the mask stay as they are. -/
def movToCr4 (v : Vmcs) (val : BitVec 64) : Vmcs :=
  v.write guestCr4 (crMerge (v.read cr4GuestHostMask) (v.read guestCr4) val)

/-- What a MOV to CR0 leaves in the fields of the mode. -/
theorem movToCr0_spec (v : Vmcs) (val : BitVec 64) :
    let cr0 := crMerge (v.read cr0GuestHostMask) (v.read guestCr0) val
    let lma := flag cr0 x86Cr0Pg && flag (v.read guestIa32Efer) eferLme
    (movToCr0 v val).read guestCr0 = cr0 ∧
      (movToCr0 v val).read guestCr4 = v.read guestCr4 ∧
      (movToCr0 v val).read guestIa32Efer = putFlag (v.read guestIa32Efer) eferLma lma ∧
      (movToCr0 v val).read32 vmEntryControls =
        putFlag (v.read32 vmEntryControls) vmEntryIa32eMode lma := by
  simp [movToCr0, VmcsField.width]

/-! ## Steps -/

/-- The fields of the guest's state that it changes without an exit. -/
def VmcsField.guestOwned : VmcsField → Bool
  | guestSelector _ | guestBase _ | guestLimit _ | guestArBytes _
  | guestGdtrBase | guestGdtrLimit | guestIdtrBase | guestIdtrLimit
  | guestRsp | guestRip | guestRflags
  | guestInterruptibilityInfo | guestActivityState | guestPendingDbgExceptions => true
  | _ => false

/-- What the guest leaves behind when it has run undisturbed. -/
structure GuestWork where
  /-- its registers; `vmx_vcpu_run` saves all of them but RSP -/
  regs : KvmReg → BitVec 64
  /-- its CR2 -/
  cr2 : BitVec 64
  /-- the fields of its own state -/
  fields : VmcsField → BitVec 64
  /-- its memory -/
  mem : Memory

/-- The state after the guest has run undisturbed. -/
def GuestWork.apply (w : GuestWork) (s : VmxState) : VmxState :=
  { s with
    regs := fun r => if r = .rsp then s.regs .rsp else w.regs r
    cr2 := w.cr2
    mem := w.mem
    vmcs := ⟨fun f => if f.guestOwned then (w.fields f).setWidth f.width else s.vmcs.field f⟩ }

/-- One thing the guest does; `len` is the length of the instruction. -/
inductive GuestAct where
  /-- anything that neither exits nor touches a control register or an MSR -/
  | work (w : GuestWork)
  /-- MOV to CR0 -/
  | movToCr0 (reg : KvmReg) (len : BitVec 32)
  /-- MOV to CR3 -/
  | movToCr3 (reg : KvmReg) (len : BitVec 32)
  /-- MOV to CR4 -/
  | movToCr4 (reg : KvmReg) (len : BitVec 32)
  /-- WRMSR of the MSR in ECX -/
  | wrmsr (len : BitVec 32)
  /-- RDMSR of the MSR in ECX -/
  | rdmsr (len : BitVec 32)
  /-- CPUID -/
  | cpuid (len : BitVec 32)
  /-- RDTSC -/
  | rdtsc (len : BitVec 32)
  /-- an exception of the given vector; SYSCALL and SYSRET with `EFER.SCE` clear raise
  the invalid-opcode exception, vector 6 -/
  | exception (vector : Fin 32) (len : BitVec 32)
  /-- an access to an unmapped guest-physical address -/
  | eptViolation (guestPhysical : BitVec 64)
  /-- an exit of any other kind -/
  | exit (x : ExitInfo)

/-- The exit of a MOV of a register to a control register. -/
def crExit (cr : BitVec 64) (reg : KvmReg) (len : BitVec 32) : ExitInfo :=
  { reason := 28, qualification := cr ||| reg.index.setWidth 64 <<< 8, instructionLen := len }

/-- The exit that an act ends in, if it does. -/
def guestExit (s : VmxState) : GuestAct → Option ExitInfo
  | .work _ => none
  | .movToCr0 reg len =>
    if crExits (s.vmcs.read cr0GuestHostMask) (s.vmcs.read cr0ReadShadow) (guestReg s reg) then
      some (crExit 0 reg len)
    else none
  | .movToCr3 reg len =>
    -- CPU_BASED_CR3_LOAD_EXITING, with no CR3 target values
    if (s.vmcs.read32 cpuBasedVmExecControl).getLsbD 15 then some (crExit 3 reg len) else none
  | .movToCr4 reg len =>
    if crExits (s.vmcs.read cr4GuestHostMask) (s.vmcs.read cr4ReadShadow) (guestReg s reg) then
      some (crExit 4 reg len)
    else none
  | .wrmsr len =>
    if wrmsrExits s ((s.regs .rcx).setWidth 32) then
      some { reason := 32, instructionLen := len }
    else none
  | .rdmsr len =>
    if rdmsrExits s ((s.regs .rcx).setWidth 32) then
      some { reason := 31, instructionLen := len }
    else none
  | .cpuid len => some { reason := 10, instructionLen := len }
  | .rdtsc len =>
    -- CPU_BASED_RDTSC_EXITING
    if (s.vmcs.read32 cpuBasedVmExecControl).getLsbD 12 then
      some { reason := 16, instructionLen := len }
    else none
  | .exception vector len =>
    if (s.vmcs.read32 exceptionBitmap).getLsbD vector then
      -- a valid (bit 31) hardware exception (type 3)
      some
        { reason := 0, intrInfo := 0x80000300#32 ||| BitVec.ofNat 32 vector,
          instructionLen := len }
    else none
  | .eptViolation guestPhysical => some { reason := 48, guestPhysical }
  | .exit x => some x

/-- What an act does that does not exit. What RDMSR, RDTSC or the delivery of an exception
leaves in the guest's own state is a matter of the work that follows. -/
def guestDirect (s : VmxState) : GuestAct → VmxState
  | .work w => w.apply s
  | .movToCr0 reg _ => { s with vmcs := movToCr0 s.vmcs (guestReg s reg) }
  | .movToCr3 reg _ => { s with vmcs := s.vmcs.write guestCr3 (guestReg s reg) }
  | .movToCr4 reg _ => { s with vmcs := movToCr4 s.vmcs (guestReg s reg) }
  | .wrmsr _ => writeMsr s ((s.regs .rcx).setWidth 32) (kvmReadEdxEax s)
  | .rdmsr _ | .cpuid _ | .rdtsc _ | .exception _ _ | .eptViolation _ | .exit _ => s

/-- One step of the guest, with the handling of the exit it may end in. -/
def guestStep (img : VmxImage) (s : VmxState) (e : GuestAct × ExitEnv) : Exec VmxState :=
  match guestExit s e.1 with
  | some x => exitWith img e.2 s x
  | none => .ok (guestDirect s e.1)

/-! ## A machine -/

/-- The image at `VMM_START`, with the areas that the VMCS points to in its last frame. -/
def vmmVmxImage : VmxImage where
  toImage := vmmImage
  msrBitmap := 0x10300000#64
  guestMsrs := 0x10301000#64
  hostMsrs := 0x10301080#64
  vmxReturn := 0x10001000#64

/-- A processor that has all the controls the VMM asks for and whose reserved controls are
the architectural ones (`*_ALWAYSON_WITHOUT_TRUE_MSR` of `asm/vmx.h`). -/
def vmxHost : Host where
  hasVmx := true
  cr0 := 0x80010033#64
  cr3 := 0x10100000#64
  cr4 := 0x20#64
  gdt := 0x10302000#64
  idt := 0x10303000#64
  tr := 0x40#16
  msrs msr :=
    match msr.toNat with
    | 0x480 => 0x0018040000000001#64
    | 0x481 => 0xffffffff00000016#64
    | 0x482 => 0xffffffff0401e172#64
    | 0x483 => 0xffffffff00036dff#64
    | 0x484 => 0xffffffff000011ff#64
    | 0x48b => 0xffffffff00000000#64
    | 0x48c => 0x0000000000010040#64
    | _ => 0#64

/-- The machine before `vmx_hardware_setup`, with a present TSS descriptor in its GDT. -/
def resetState : VmxState where
  regs _ := 0
  cr2 := 0
  eptHandler := false
  hostRsp := 0
  fail := 0
  launched := 0
  guestMsrs _ := 0
  hostMsrs _ := 0
  vmcs := Vmcs.zero
  vmcsConfig := ⟨0, 0, 0, 0, 0, 0, 0, 0⟩
  vmxCapability := ⟨0, 0⟩
  msrBitmap := Vector.replicate 512 0
  ept := Ept.zero
  mem p := if p = 0x10302045#64 then 0x89#8 else 0#8
  host := vmxHost

/-- An environment of no account: zeros for everything. -/
def quietEnv : ExitEnv where
  tsc := 0
  cpuid _ _ := (0, 0, 0, 0)
  csAvl := 0
  ssAvl := 0

/-- The guest computes an MSR number and a value for it. -/
def loadMsr (msr : BitVec 32) (val : BitVec 64) : GuestWork where
  regs r := if r = .rcx then msr.setWidth 64 else if r = .rax then val else
    if r = .rdx then val >>> 32 else 0
  cr2 := 0
  fields _ := 0
  mem _ := 0

end Lvisor
