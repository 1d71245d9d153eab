import Lvisor.Vmx

/-!
# VM exits

The exit handlers of `vmx.c` and `kvm.c`, and the table `vmx_exit_handlers` that
`vmxHandleExit` dispatches on. A handler that the source ends in `panic` has no
successor state.

Three values that a handler reads come from outside of the modelled state and are
gathered in `ExitEnv`: the time stamp counter, the answer of the `cpuid` instruction,
and the member `avl` of the two local `struct kvm_segment` of `handle_syscall` and
`handle_sysret`, which the source never initialises.
-/

namespace Lvisor

open VmcsField

/-- What the processor and the stack contribute to the handling of one exit. -/
structure ExitEnv where
  /-- `rdtsc()` -/
  tsc : BitVec 64
  /-- `native_cpuid` of a leaf and a subleaf: `eax`, `ebx`, `ecx`, `edx` -/
  cpuid : BitVec 32 → BitVec 32 → BitVec 32 × BitVec 32 × BitVec 32 × BitVec 32
  /-- the uninitialised `cs.avl` -/
  csAvl : BitVec 8
  /-- the uninitialised `ss.avl` -/
  ssAvl : BitVec 8

/-! ## Registers -/

/-- `kvm_register_write`: a register of the guest, in the array that the world switch loads. -/
def kvmRegisterWrite (s : VmxState) (reg : KvmReg) (val : BitVec 64) : VmxState :=
  { s with regs := Function.update s.regs reg val }

/-- `kvm_read_edx_eax`: the 64 bits that an instruction has in two registers. -/
def kvmReadEdxEax (s : VmxState) : BitVec 64 :=
  let eax := (s.regs .rax).setWidth 32
  let edx := (s.regs .rdx).setWidth 32
  eax.setWidth 64 ||| edx.setWidth 64 <<< 32

/-- `kvm_write_edx_eax`: the same two registers as a result; their upper halves are cleared. -/
def kvmWriteEdxEax (s : VmxState) (val : BitVec 64) : VmxState :=
  let s := kvmRegisterWrite s .rax ((val.setWidth 32).setWidth 64)
  kvmRegisterWrite s .rdx (((val >>> 32).setWidth 32).setWidth 64)

/-- `vmx_skip_emulated_instruction`; `GUEST_INTR_STATE_STI` and `GUEST_INTR_STATE_MOV_SS`
are the low two bits of the interruptibility state. -/
def vmxSkipEmulatedInstruction (s : VmxState) : VmxState :=
  let rip := s.vmcs.read guestRip + (s.vmcs.read32 vmExitInstructionLen).setWidth 64
  let v := s.vmcs.write guestRip rip
  let interruptibility := v.read32 guestInterruptibilityInfo &&& ~~~(0x1#32 ||| 0x2#32)
  { s with vmcs := v.write guestInterruptibilityInfo (interruptibility.setWidth 64) }

/-! ## The guest's memory -/

/-- A 64-bit word of physical memory, in which the EPT arrays are where the linker has put them. -/
def VmxState.word (img : VmxImage) (s : VmxState) (p : BitVec 64) : BitVec 64 :=
  s.ept.word img.toImage (read64 s.mem) p

/-- A byte of physical memory, out of the word that it is in. -/
def VmxState.byte (img : VmxImage) (s : VmxState) (p : BitVec 64) : BitVec 8 :=
  (s.word img (p &&& ~~~7#64) >>> (8 * (p &&& 7#64).toNat)).setWidth 8

/-- The loop of `gva2hva`, over the levels left; `entry` is the last entry read. -/
def gva2hvaLoop (rd : BitVec 64 → BitVec 64) (eptr gva : BitVec 64) :
    List (Fin 4) → BitVec 64 → BitVec 64 → Exec (BitVec 64)
  | [], _, entry => return (entry &&& ~~~0xfff#64) ||| (gva &&& 0xfff#64)
  | i :: rest, entries, _ => do
    let idx := (gva >>> shifts i) &&& 0x1ff#64
    let entry := rd (entries + idx * 8#64)
    bugOn "vmm/vmx.c" 1245 "gva2hva" (entry &&& 0x1#64 = 0#64)
    if entry &&& (1#64 <<< 7) ≠ 0#64 then
      bugOn "vmm/vmx.c" 1247 "gva2hva" (¬(i = 1 ∨ i = 2))
      return (entry &&& masks i) ||| (gva &&& ~~~masks i)
    else if i < 3 then
      let entries ← gpa2hpa rd (eptr &&& ~~~0xfff#64) (entry &&& ~~~0xfff#64)
      gva2hvaLoop rd eptr gva rest entries entry
    else
      gva2hvaLoop rd eptr gva rest entries entry

/-- `gva2hva`: the walk of the tables of the guest, each of which is found by `gpa2hpa`. The
result is the address of the last entry as it stands there. -/
def gva2hva (img : VmxImage) (s : VmxState) (gva : BitVec 64) : Exec (BitVec 64) := do
  let cr3 := s.vmcs.read guestCr3
  let eptr := s.vmcs.read eptPointer
  let entries ← gpa2hpa (s.word img) (eptr &&& ~~~0xfff#64) (cr3 &&& ~~~0xfff#64)
  gva2hvaLoop (s.word img) eptr gva levels entries 0#64

/-! ## SYSCALL and SYSRET

Both are recognised by their bytes, which `handle_exception_nmi` reads at RIP. The handlers do
what the instructions would, on the registers and on the segments of the VMCS. -/

/-- The code segment that `handle_syscall` and `handle_sysret` load: flat, of 64 bits, with the
given selector and level. -/
def syscallCs (selector : BitVec 16) (dpl avl : BitVec 8) : KvmSegment :=
  { selector, base := 0, limit := 0xfffff, type := 11, s := 1, dpl, present := 1, l := 1,
    db := 0, g := 1, unusable := 0, avl }

/-- The stack segment that `handle_syscall` and `handle_sysret` load: flat and writable, with the
given selector and level. -/
def syscallSs (selector : BitVec 16) (dpl avl : BitVec 8) : KvmSegment :=
  { selector, base := 0, limit := 0xfffff, type := 3, s := 1, dpl, present := 1, db := 1,
    g := 1, l := 0, unusable := 0, avl }

/-- `handle_syscall`: what SYSCALL does in 64-bit mode, with the MSRs of the guest. -/
def handleSyscall (env : ExitEnv) (s : VmxState) : VmxState :=
  let rip := s.guestMsrs .lstar
  let s := vmxSkipEmulatedInstruction s
  let s := kvmRegisterWrite s .rcx (s.vmcs.read guestRip)
  let s := { s with vmcs := s.vmcs.write guestRip rip }
  let rflags := s.vmcs.read guestRflags
  let s := kvmRegisterWrite s .r11 rflags
  let syscallMask := s.guestMsrs .syscallMask
  let v := s.vmcs.write guestRflags (rflags &&& ~~~syscallMask)
  let cs := syscallCs (((s.guestMsrs .star >>> 32) &&& 0xfffc#64).setWidth 16) 0 env.csAvl
  let ss := syscallSs ((((s.guestMsrs .star >>> 32) &&& 0xffff#64) + 8#64).setWidth 16) 0
    env.ssAvl
  { s with vmcs := vmxSetSegment (vmxSetSegment v cs .cs) ss .ss }

/-- `handle_sysret`: what SYSRETQ does. RIP is not moved past the instruction, as RCX replaces
it. -/
def handleSysret (env : ExitEnv) (s : VmxState) : VmxState :=
  let v := s.vmcs.write guestRip (s.regs .rcx)
  let v := v.write guestRflags ((s.regs .r11 &&& 0x3c7fd7#64) ||| 2#64)
  let star := (s.guestMsrs .star >>> 48) &&& 0xffff#64
  let cs := syscallCs ((star + 16#64).setWidth 16 ||| 3#16) 3 env.csAvl
  let ss := syscallSs ((star + 8#64).setWidth 16 ||| 3#16) 3 env.ssAvl
  { s with vmcs := vmxSetSegment (vmxSetSegment v cs .cs) ss .ss }

/-- `exception == 6 && type == 3`: the exit is an invalid-opcode exception. -/
def IsUd (v : Vmcs) : Prop :=
  v.read32 vmExitIntrInfo &&& 0xff#32 = 6#32 ∧
    (v.read32 vmExitIntrInfo >>> 8) &&& 0x7#32 = 3#32

instance (v : Vmcs) : Decidable (IsUd v) := inferInstanceAs (Decidable (_ ∧ _))

/-- The load of a byte through a host pointer. -/
def hostByte (img : VmxImage) (s : VmxState) (p : BitVec 64) : Exec (BitVec 8) :=
  if Mapped p then .ok (s.byte img p) else .error (.pageFault p)

/-- `instr[0] == c₀ && instr[1] == c₁ && …`: a byte is loaded when all before it agree. -/
def codeAt (img : VmxImage) (s : VmxState) : List (BitVec 8) → BitVec 64 → Exec Bool
  | [], _ => return true
  | c :: cs, instr => do
    let b ← hostByte img s instr
    if b = c then codeAt img s cs (instr + 1) else return false

/-- The bytes of SYSCALL. -/
abbrev syscallCode : List (BitVec 8) := [0x0f#8, 0x05#8]

/-- The bytes of SYSRETQ, with its prefix. -/
abbrev sysretCode : List (BitVec 8) := [0x48#8, 0x0f#8, 0x07#8]

/-- The comparison succeeds: the bytes are mapped, and they are the given ones. -/
def CodeAt (img : VmxImage) (s : VmxState) : List (BitVec 8) → BitVec 64 → Prop
  | [], _ => True
  | c :: cs, instr => (Mapped instr ∧ s.byte img instr = c) ∧ CodeAt img s cs (instr + 1)

instance CodeAt.decidable (img : VmxImage) (s : VmxState) :
    (cs : List (BitVec 8)) → (instr : BitVec 64) → Decidable (CodeAt img s cs instr)
  | [], _ => inferInstanceAs (Decidable True)
  | c :: cs, instr =>
    have := CodeAt.decidable img s cs (instr + 1)
    inferInstanceAs (Decidable ((Mapped instr ∧ s.byte img instr = c) ∧ _))

/-- `instr[0] == 0xf && instr[1] == 0x5`: the code at `instr` is SYSCALL. -/
def SyscallAt (img : VmxImage) (s : VmxState) (instr : BitVec 64) : Prop :=
  CodeAt img s syscallCode instr

instance (img : VmxImage) (s : VmxState) (instr : BitVec 64) :
    Decidable (SyscallAt img s instr) :=
  inferInstanceAs (Decidable (CodeAt img s _ _))

/-- `instr[0] == 0x48 && instr[1] == 0xf && instr[2] == 0x7`: the code at `instr` is SYSRETQ. -/
def SysretAt (img : VmxImage) (s : VmxState) (instr : BitVec 64) : Prop :=
  CodeAt img s sysretCode instr

instance (img : VmxImage) (s : VmxState) (instr : BitVec 64) :
    Decidable (SysretAt img s instr) :=
  inferInstanceAs (Decidable (CodeAt img s _ _))

/-- `handle_exception_nmi`: an invalid opcode that is SYSCALL or SYSRETQ is carried out, and
anything else is a panic. -/
def handleExceptionNmi (img : VmxImage) (env : ExitEnv) (s : VmxState) : Exec VmxState := do
  panicIf "cannot handle exception/nmi\n" (¬IsUd s.vmcs)
  let instr ← gva2hva img s (s.vmcs.read guestRip)
  if ← codeAt img s syscallCode instr then
    return handleSyscall env s
  else if ← codeAt img s sysretCode instr then
    return handleSysret env s
  else
    throw (.panic "cannot handle exception/nmi\n")

/-! ## The other handlers

One function for each reason that has a handler. Where the source panics, or an instruction of
the VMM faults, there is no successor state. -/

/-- `handle_rdtsc`: the guest gets the time stamp counter as it is. -/
def handleRdtsc (env : ExitEnv) (s : VmxState) : VmxState :=
  vmxSkipEmulatedInstruction (kvmWriteEdxEax s env.tsc)

/-- `handle_cr`: a move to CR0, CR3 or CR4 from the register that the exit qualification names.
Any other access is a panic. -/
def handleCr (s : VmxState) : Exec VmxState :=
  let exitQualification := s.vmcs.read exitQualification
  let cr := exitQualification &&& 15#64
  let reg := KvmReg.ofIndex ((exitQualification >>> 8).setWidth 4)
  let op := (exitQualification >>> 4) &&& 3#64
  if op = 0#64 then
    let val := s.regs reg
    if cr = 0#64 then
      return vmxSkipEmulatedInstruction { s with vmcs := vmxSetCr0 s.vmcs val }
    else if cr = 3#64 then
      return vmxSkipEmulatedInstruction { s with vmcs := vmxSetCr3 s.vmcs val }
    else if cr = 4#64 then
      return vmxSkipEmulatedInstruction { s with vmcs := vmxSetCr4 s.vmcs val }
    else throw (.panic "unknown control register\n")
  else
    throw (.panic ("unhandled control register: op " ++ toString op.toNat ++ " cr " ++
      toString cr.toNat ++ "\n"))

/-- `handle_rdmsr`: a panic, as the MSRs whose reads exit are none that a guest is to read. -/
def handleRdmsr (s : VmxState) : Exec VmxState :=
  throw (.panic ("unknown rdmsr 0x" ++ ((s.regs .rcx).setWidth 32).toHex ++ "\n"))

/-- The mode of the local APIC, by the bits 10 and 11 of `MSR_IA32_APICBASE`: 0xc00 is x2APIC
mode, 0x800 xAPIC mode and 0 disabled. -/
def apicMode (base : BitVec 64) : BitVec 64 := base &&& 0xc00#64

/-- The processor accepts a WRMSR of the two MSRs of the local APIC. The base has reserved bits
and cannot leave x2APIC mode, or enter it, except by way of the other modes; the command
register has reserved bits too, and is an MSR in x2APIC mode only. What is not accepted is a
general-protection fault of whoever writes it. -/
def wrmsrAccepted (h : Host) (msr : BitVec 32) (val : BitVec 64) : Bool :=
  if msr = msrIa32Apicbase then
    val &&& 0xfff00000000002ff#64 = 0#64 ∧ apicMode val ≠ 0x400#64 ∧
      ¬(apicMode (h.msrs msrIa32Apicbase) = 0xc00#64 ∧ apicMode val = 0x800#64) ∧
      ¬(apicMode (h.msrs msrIa32Apicbase) = 0#64 ∧ apicMode val = 0xc00#64)
  else if msr = msrX2apicIcr then
    apicMode (h.msrs msrIa32Apicbase) = 0xc00#64 ∧ val &&& 0xfff33000#64 = 0#64
  else true

/-- A WRMSR that the processor accepts: a write to the interrupt command register sends what is
written. -/
def hostWrmsr (h : Host) (msr : BitVec 32) (val : BitVec 64) : Host :=
  { h with
    msrs := Function.update h.msrs msr val
    icr := if msr = msrX2apicIcr then val :: h.icr else h.icr }

/-- `wrmsrl`: the instruction has no entry in an exception table, so a fault of it is one of
the VMM. -/
def wrmsrl (s : VmxState) (msr : BitVec 32) (val : BitVec 64) : Exec VmxState :=
  if wrmsrAccepted s.host msr val then .ok { s with host := hostWrmsr s.host msr val }
  else .error (.generalProtection msr)

/-- `handle_wrmsr`: `MSR_IA32_APICBASE_ENABLE` is bit 11, `APIC_DM_INIT` is 0x500 and
`APIC_DM_STARTUP` 0x600. -/
def handleWrmsr (s : VmxState) : Exec VmxState :=
  let msr := (s.regs .rcx).setWidth 32
  let val := kvmReadEdxEax s
  if msr = msrIa32Apicbase then do
    bugOn "vmm/vmx.c" 1160 "handle_wrmsr" (val &&& 0x800#64 = 0#64)
    return vmxSkipEmulatedInstruction (← wrmsrl s msr val)
  else if msr = msrX2apicIcr then
    if val &&& 0x700#64 = 0x500#64 ∨ val &&& 0x700#64 = 0x600#64 then
      return vmxSkipEmulatedInstruction s
    else do
      return vmxSkipEmulatedInstruction (← wrmsrl s msr val)
  else if msr = msrEfer then
    return vmxSkipEmulatedInstruction
      { s with vmcs := s.vmcs.write guestIa32Efer (val &&& ~~~eferSce) }
  else
    throw (.panic ("unknown wrmsr 0x" ++ msr.toHex ++ "\n"))

/-- `handle_ept_violation` of `vmx.c`, which calls the one of `kvm.c`. -/
def vmxHandleEptViolation (img : VmxImage) (s : VmxState) : Exec VmxState := do
  panicIf "cannot handle EPT violation\n" (!s.eptHandler)
  let ept ← handleEptViolation img.toImage s.ept (s.vmcs.read guestPhysicalAddress)
  return { s with ept }

/-- The switch of `kvm_emulate_cpuid` on the leaf: `X86_FEATURE_VMX`, `X86_FEATURE_X2APIC`
and `X86_FEATURE_HYPERVISOR` are the bits 5, 21 and 31 of `ecx`. -/
def adjustCpuid (leaf eax ebx ecx edx : BitVec 32) :
    BitVec 32 × BitVec 32 × BitVec 32 × BitVec 32 :=
  if leaf = 1#32 then
    (eax, ebx, (ecx &&& ~~~(1#32 <<< 5)) ||| 1#32 <<< 21 ||| 1#32 <<< 31, edx)
  else if leaf = 4#32 then (0, 0, 0, 0)
  else if leaf = 0x40000000#32 then (0x40000001, 0x4b4d564b, 0x564b4d56, 0x4d)
  else if leaf = 0x40000001#32 then (0, 0, 0, 0)
  else (eax, ebx, ecx, edx)

/-- `kvm_emulate_cpuid`: the answer of the processor for the leaf and the subleaf, with a few
bits changed. -/
def kvmEmulateCpuid (env : ExitEnv) (s : VmxState) : VmxState :=
  let leaf := (s.regs .rax).setWidth 32
  let (eax, ebx, ecx, edx) := env.cpuid leaf ((s.regs .rcx).setWidth 32)
  let (eax, ebx, ecx, edx) := adjustCpuid leaf eax ebx ecx edx
  let s := kvmRegisterWrite s .rax (eax.setWidth 64)
  let s := kvmRegisterWrite s .rbx (ebx.setWidth 64)
  let s := kvmRegisterWrite s .rcx (ecx.setWidth 64)
  let s := kvmRegisterWrite s .rdx (edx.setWidth 64)
  vmxSkipEmulatedInstruction s

/-! ## Dispatch -/

/-- The entries of `vmx_exit_handlers` that are not null. -/
inductive ExitHandler where
  | exceptionNmi | cpuid | rdtsc | crAccess | msrRead | msrWrite | eptViolation
  deriving DecidableEq, Repr

/-- `vmx_exit_handlers[exit_reason]`, if there is an entry for this reason. -/
def vmxExitHandlers (exitReason : BitVec 32) : Option ExitHandler :=
  match exitReason.toNat with
  | 0 => some .exceptionNmi
  | 10 => some .cpuid
  | 16 => some .rdtsc
  | 28 => some .crAccess
  | 31 => some .msrRead
  | 32 => some .msrWrite
  | 48 => some .eptViolation
  | _ => none

/-- The call of a handler through the table. -/
def ExitHandler.call (img : VmxImage) (env : ExitEnv) (s : VmxState) :
    ExitHandler → Exec VmxState
  | exceptionNmi => handleExceptionNmi img env s
  | cpuid => return kvmEmulateCpuid env s
  | rdtsc => return handleRdtsc env s
  | crAccess => handleCr s
  | msrRead => handleRdmsr s
  | msrWrite => handleWrmsr s
  | eptViolation => vmxHandleEptViolation img s

/-- `vmx_handle_exit`: the handler of the exit reason in the VMCS. A reason without a handler is
a panic. -/
def vmxHandleExit (img : VmxImage) (env : ExitEnv) (s : VmxState) : Exec VmxState :=
  let exitReason := s.vmcs.read32 vmExitReason
  match vmxExitHandlers exitReason with
  | some h => h.call img env s
  | none =>
    throw (.panic ("vmx: unexpected exit reason " ++ toString exitReason.toInt ++ "\n"))

/-! ## What a handler writes

The frame of a handler is a set of fields of the VMCS and some of the rest of the state. Setters
have their frames first, and the handlers are composed of those. -/

/-- The fields that the exit handlers write, all of them together. -/
def VmcsField.exitWrites : VmcsField → Bool
  | guestRip | guestRflags | guestInterruptibilityInfo
  | guestCr0 | guestCr3 | guestCr4 | guestIa32Efer | vmEntryControls
  | guestArBytes .tr
  | guestBase .cs | guestLimit .cs | guestSelector .cs | guestArBytes .cs
  | guestBase .ss | guestLimit .ss | guestSelector .ss | guestArBytes .ss => true
  | _ => false

section Writes

variable {v : Vmcs} {f : VmcsField} {s s' : VmxState}

theorem skip_read (hrip : f ≠ guestRip) (hint : f ≠ guestInterruptibilityInfo) :
    (vmxSkipEmulatedInstruction s).vmcs.read f = s.vmcs.read f := by
  simp [vmxSkipEmulatedInstruction, hrip, hint]

theorem vmxSetSegment_read {var : KvmSegment} {seg : Sreg} (hb : f ≠ guestBase seg)
    (hl : f ≠ guestLimit seg) (hs : f ≠ guestSelector seg) (ha : f ≠ guestArBytes seg) :
    (vmxSetSegment v var seg).read f = v.read f := by
  simp [vmxSetSegment, hb, hl, hs, ha]

section Segment

variable {var : KvmSegment} {seg : Sreg}

theorem read_selector_vmxSetSegment :
    ((vmxSetSegment v var seg).read (guestSelector seg)).setWidth 16 = var.selector := by
  simp [vmxSetSegment, Vmcs.read_write_same, VmcsField.width]

theorem read_base_vmxSetSegment : (vmxSetSegment v var seg).read (guestBase seg) = var.base := by
  simp [vmxSetSegment, VmcsField.width]

theorem read_limit_vmxSetSegment :
    (vmxSetSegment v var seg).read32 (guestLimit seg) = var.limit := by
  simp [vmxSetSegment, VmcsField.width]

theorem read_ar_vmxSetSegment :
    (vmxSetSegment v var seg).read32 (guestArBytes seg) = vmxSegmentAccessRights var := by
  simp [vmxSetSegment, VmcsField.width]

end Segment

theorem enterLmode_read (he : f ≠ vmEntryControls) (hf : f ≠ guestIa32Efer)
    (ht : f ≠ guestArBytes .tr) : (enterLmode v).read f = v.read f := by
  unfold enterLmode
  dsimp only
  split
  · simp [he, hf, ht]
  · simp [he, hf]

theorem exitLmode_read (he : f ≠ vmEntryControls) (hf : f ≠ guestIa32Efer) :
    (exitLmode v).read f = v.read f := by
  simp [exitLmode, he, hf]

theorem switchLmode_read {cr0 : BitVec 64} (he : f ≠ vmEntryControls) (hf : f ≠ guestIa32Efer)
    (ht : f ≠ guestArBytes .tr) : (switchLmode v cr0).read f = v.read f := by
  unfold switchLmode
  dsimp only
  split
  · split
    · rw [exitLmode_read he hf, enterLmode_read he hf ht]
    · rw [exitLmode_read he hf]
  · split
    · rw [enterLmode_read he hf ht]
    · rfl

theorem vmxSetCr0_read {cr0 : BitVec 64} (h0 : f ≠ guestCr0) (he : f ≠ vmEntryControls)
    (hf : f ≠ guestIa32Efer) (ht : f ≠ guestArBytes .tr) :
    (vmxSetCr0 v cr0).read f = v.read f := by
  unfold vmxSetCr0
  dsimp only
  rw [Vmcs.read_write_ne h0]
  split
  · exact switchLmode_read he hf ht
  · rfl

theorem enterLmode_efer : (enterLmode v).read guestIa32Efer = v.read guestIa32Efer ||| eferLma := by
  unfold enterLmode
  dsimp only
  split <;> simp [VmcsField.width]

theorem enterLmode_entry :
    (enterLmode v).read32 vmEntryControls = v.read32 vmEntryControls ||| vmEntryIa32eMode := by
  unfold enterLmode
  dsimp only
  split <;> simp [VmcsField.width]

theorem exitLmode_efer :
    (exitLmode v).read guestIa32Efer = v.read guestIa32Efer &&& ~~~eferLma := by
  simp [exitLmode, VmcsField.width]

theorem exitLmode_entry :
    (exitLmode v).read32 vmEntryControls = v.read32 vmEntryControls &&& ~~~vmEntryIa32eMode := by
  simp [exitLmode, VmcsField.width]

/-- What `vmx_set_cr0` does: besides CR0 it writes LMA and the IA-32e-mode control, when
LME is set and PG changes. -/
theorem vmxSetCr0_spec (v : Vmcs) (cr0 : BitVec 64) :
    let w := vmxSetCr0 v cr0
    w.read guestCr0 = cr0 ||| kvmGuestCr0AlwaysOn ∧ w.read guestCr4 = v.read guestCr4 ∧
    ((flag (v.read guestIa32Efer) eferLme = true ∧ flag (v.read guestCr0) x86Cr0Pg = false ∧
        flag cr0 x86Cr0Pg = true ∧
        w.read guestIa32Efer = v.read guestIa32Efer ||| eferLma ∧
        w.read32 vmEntryControls = v.read32 vmEntryControls ||| vmEntryIa32eMode) ∨
      (flag (v.read guestIa32Efer) eferLme = true ∧ flag (v.read guestCr0) x86Cr0Pg = true ∧
        flag cr0 x86Cr0Pg = false ∧
        w.read guestIa32Efer = v.read guestIa32Efer &&& ~~~eferLma ∧
        w.read32 vmEntryControls = v.read32 vmEntryControls &&& ~~~vmEntryIa32eMode) ∨
      ((flag (v.read guestIa32Efer) eferLme = true →
          flag cr0 x86Cr0Pg = flag (v.read guestCr0) x86Cr0Pg) ∧
        w.read guestIa32Efer = v.read guestIa32Efer ∧
        w.read32 vmEntryControls = v.read32 vmEntryControls)) := by
  refine ⟨by simp [vmxSetCr0, VmcsField.width],
    vmxSetCr0_read (by decide) (by decide) (by decide) (by decide), ?_⟩
  unfold vmxSetCr0
  dsimp only
  rw [Vmcs.read_write_ne (show guestIa32Efer ≠ guestCr0 by decide),
    Vmcs.read32_write_ne (show vmEntryControls ≠ guestCr0 by decide)]
  cases hlme : flag (v.read guestIa32Efer) eferLme with
  | false =>
    rw [if_neg (not_not_intro (flag_eq_false.mp hlme))]
    exact .inr (.inr ⟨fun h => absurd h Bool.false_ne_true, rfl, rfl⟩)
  | true =>
    rw [if_pos (flag_eq_true.mp hlme), switchLmode]
    cases hold : flag (v.read guestCr0) x86Cr0Pg <;> cases hnew : flag cr0 x86Cr0Pg <;>
      simp only [flag_eq_true, flag_eq_false] at hold hnew <;>
      simp [hold, hnew, enterLmode_efer, enterLmode_entry, exitLmode_efer, exitLmode_entry]

/-- A field that no handler writes is none of those that one does. -/
theorem VmcsField.ne_of_exitWrites {f g : VmcsField} (hf : f.exitWrites = false)
    (hg : g.exitWrites = true) : f ≠ g := by
  rintro rfl
  rw [hf] at hg
  cases hg

/-- What the handling of an exit leaves alone, whatever the reason is. -/
structure ExitFrame (s s' : VmxState) : Prop where
  read : ∀ f : VmcsField, f.exitWrites = false → s'.vmcs.read f = s.vmcs.read f
  cr2 : s'.cr2 = s.cr2
  eptHandler : s'.eptHandler = s.eptHandler
  hostRsp : s'.hostRsp = s.hostRsp
  fail : s'.fail = s.fail
  launched : s'.launched = s.launched
  guestMsrs : s'.guestMsrs = s.guestMsrs
  hostMsrs : s'.hostMsrs = s.hostMsrs
  msrBitmap : s'.msrBitmap = s.msrBitmap
  mem : s'.mem = s.mem

namespace ExitFrame

variable {s₁ s₂ s₃ : VmxState}

theorem trans (h : ExitFrame s₁ s₂) (h' : ExitFrame s₂ s₃) : ExitFrame s₁ s₃ where
  read f hf := (h'.read f hf).trans (h.read f hf)
  cr2 := h'.cr2.trans h.cr2
  eptHandler := h'.eptHandler.trans h.eptHandler
  hostRsp := h'.hostRsp.trans h.hostRsp
  fail := h'.fail.trans h.fail
  launched := h'.launched.trans h.launched
  guestMsrs := h'.guestMsrs.trans h.guestMsrs
  hostMsrs := h'.hostMsrs.trans h.hostMsrs
  msrBitmap := h'.msrBitmap.trans h.msrBitmap
  mem := h'.mem.trans h.mem

/-- Only the VMCS changes, in fields that handlers write. -/
theorem of_vmcs {w : Vmcs} (h : ∀ f : VmcsField, f.exitWrites = false → w.read f = s.vmcs.read f) :
    ExitFrame s { s with vmcs := w } where
  read := h
  cr2 := rfl
  eptHandler := rfl
  hostRsp := rfl
  fail := rfl
  launched := rfl
  guestMsrs := rfl
  hostMsrs := rfl
  msrBitmap := rfl
  mem := rfl

/-- Only the registers, the EPT or the processor change. -/
theorem of_rest (regs : KvmReg → BitVec 64) (ept : Ept) (host : Host) :
    ExitFrame s { s with regs, ept, host } where
  read _ _ := rfl
  cr2 := rfl
  eptHandler := rfl
  hostRsp := rfl
  fail := rfl
  launched := rfl
  guestMsrs := rfl
  hostMsrs := rfl
  msrBitmap := rfl
  mem := rfl

theorem skip (s : VmxState) : ExitFrame s (vmxSkipEmulatedInstruction s) :=
  of_vmcs fun _ hf => skip_read (ne_of_exitWrites hf rfl) (ne_of_exitWrites hf rfl)

theorem write {x : BitVec 64} (hf : f.exitWrites = true) :
    ExitFrame s { s with vmcs := s.vmcs.write f x } :=
  of_vmcs fun _ hg => Vmcs.read_write_ne (ne_of_exitWrites hg hf)

theorem setCr0 (s : VmxState) (cr0 : BitVec 64) :
    ExitFrame s { s with vmcs := vmxSetCr0 s.vmcs cr0 } :=
  of_vmcs fun _ hf => vmxSetCr0_read (ne_of_exitWrites hf rfl) (ne_of_exitWrites hf rfl)
    (ne_of_exitWrites hf rfl) (ne_of_exitWrites hf rfl)

/-- Loading the code and the stack segment is within this frame. -/
theorem setCsSs (s : VmxState) (cs ss : KvmSegment) :
    ExitFrame s { s with vmcs := vmxSetSegment (vmxSetSegment s.vmcs cs .cs) ss .ss } := by
  refine of_vmcs fun f hf => ?_
  rw [vmxSetSegment_read (ne_of_exitWrites hf rfl) (ne_of_exitWrites hf rfl)
      (ne_of_exitWrites hf rfl) (ne_of_exitWrites hf rfl),
    vmxSetSegment_read (ne_of_exitWrites hf rfl) (ne_of_exitWrites hf rfl)
      (ne_of_exitWrites hf rfl) (ne_of_exitWrites hf rfl)]

end ExitFrame

/-- The fields that say in which mode the guest runs. -/
structure SameMode (v w : Vmcs) : Prop where
  cr0 : w.read guestCr0 = v.read guestCr0
  cr4 : w.read guestCr4 = v.read guestCr4
  efer : w.read guestIa32Efer = v.read guestIa32Efer
  entry : w.read vmEntryControls = v.read vmEntryControls

namespace SameMode

variable {u v w : Vmcs}

theorem trans (h : SameMode u v) (h' : SameMode v w) : SameMode u w where
  cr0 := h'.cr0.trans h.cr0
  cr4 := h'.cr4.trans h.cr4
  efer := h'.efer.trans h.efer
  entry := h'.entry.trans h.entry

theorem symm (h : SameMode v w) : SameMode w v where
  cr0 := h.cr0.symm
  cr4 := h.cr4.symm
  efer := h.efer.symm
  entry := h.entry.symm

theorem skip (s : VmxState) : SameMode s.vmcs (vmxSkipEmulatedInstruction s).vmcs where
  cr0 := skip_read (by decide) (by decide)
  cr4 := skip_read (by decide) (by decide)
  efer := skip_read (by decide) (by decide)
  entry := skip_read (by decide) (by decide)

/-- The same, after the VMCS has become another one. -/
theorem skip_with (s : VmxState) (w : Vmcs) :
    SameMode w (vmxSkipEmulatedInstruction { s with vmcs := w }).vmcs :=
  skip { s with vmcs := w }

theorem write {x : BitVec 64} (h0 : guestCr0 ≠ f) (h4 : guestCr4 ≠ f)
    (he : guestIa32Efer ≠ f) (hc : vmEntryControls ≠ f) : SameMode v (v.write f x) where
  cr0 := Vmcs.read_write_ne h0
  cr4 := Vmcs.read_write_ne h4
  efer := Vmcs.read_write_ne he
  entry := Vmcs.read_write_ne hc

theorem setSegment {var : KvmSegment} {seg : Sreg} : SameMode v (vmxSetSegment v var seg) where
  cr0 := vmxSetSegment_read nofun nofun nofun nofun
  cr4 := vmxSetSegment_read nofun nofun nofun nofun
  efer := vmxSetSegment_read nofun nofun nofun nofun
  entry := vmxSetSegment_read nofun nofun nofun nofun

end SameMode

end Writes

/-! ## One lemma per handler -/

section Handlers

variable {img : VmxImage} {env : ExitEnv} {s s' : VmxState}

theorem handleSyscall_frame : ExitFrame s (handleSyscall env s) :=
  (ExitFrame.skip s).trans <| (ExitFrame.of_rest _ _ _).trans <|
    (ExitFrame.write (f := guestRip) rfl).trans <| (ExitFrame.of_rest _ _ _).trans <|
    (ExitFrame.write (f := guestRflags) rfl).trans <| ExitFrame.setCsSs _ _ _

theorem handleSysret_frame : ExitFrame s (handleSysret env s) :=
  (ExitFrame.write (f := guestRip) rfl).trans <|
    (ExitFrame.write (f := guestRflags) rfl).trans <| ExitFrame.setCsSs _ _ _

theorem handleSyscall_sameMode : SameMode s.vmcs (handleSyscall env s).vmcs :=
  (SameMode.skip s).trans <| (SameMode.write (f := guestRip) nofun nofun nofun nofun).trans <|
    (SameMode.write (f := guestRflags) nofun nofun nofun nofun).trans <|
    SameMode.setSegment.trans SameMode.setSegment

theorem handleSysret_sameMode : SameMode s.vmcs (handleSysret env s).vmcs :=
  (SameMode.write (f := guestRip) nofun nofun nofun nofun).trans <|
    (SameMode.write (f := guestRflags) nofun nofun nofun nofun).trans <|
    SameMode.setSegment.trans SameMode.setSegment

/-- A SYSCALL is no SYSRETQ: their first bytes differ. -/
theorem not_sysretAt_of_syscallAt {p : BitVec 64} (hcall : SyscallAt img s p) :
    ¬SysretAt img s p := by
  intro hret
  have h₁ : s.byte img p = 0x0f#8 := hcall.1.2
  have h₂ : s.byte img p = 0x48#8 := hret.1.2
  rw [h₁] at h₂
  exact absurd h₂ (by decide)

/-- A comparison that loads its first byte, and the rest when it agrees. -/
theorem codeAt_cons {c : BitVec 8} {cs : List (BitVec 8)} {p : BitVec 64} (hp : Mapped p) :
    codeAt img s (c :: cs) p = if s.byte img p = c then codeAt img s cs (p + 1) else .ok false := by
  rw [codeAt, hostByte, if_pos hp]
  rfl

/-- The comparison of the code succeeds when every byte is mapped and agrees. -/
theorem codeAt_eq_ok_true {cs : List (BitVec 8)} {p : BitVec 64} :
    codeAt img s cs p = .ok true ↔ CodeAt img s cs p := by
  induction cs generalizing p with
  | nil => exact iff_of_true rfl trivial
  | cons c cs ih =>
    by_cases hp : Mapped p
    · rw [codeAt_cons hp, CodeAt]
      by_cases hc : s.byte img p = c
      · rw [if_pos hc, ih]
        simp [hp, hc]
      · rw [if_neg hc]
        simp [hc]
    · rw [codeAt, hostByte, if_neg hp, CodeAt]
      simp [hp]

/-- The first comparison at a SYSRETQ fails without a fault. -/
theorem codeAt_syscall_of_sysretAt {p : BitVec 64} (hret : SysretAt img s p) :
    codeAt img s syscallCode p = .ok false := by
  have hbyte : s.byte img p = 0x48#8 := hret.1.2
  rw [codeAt_cons hret.1.1, if_neg (by rw [hbyte]; decide)]

/-- When `handle_exception_nmi` returns, and with what. -/
theorem handleExceptionNmi_eq_ok :
    handleExceptionNmi img env s = .ok s' ↔
      IsUd s.vmcs ∧ ∃ p, gva2hva img s (s.vmcs.read guestRip) = .ok p ∧
        (SyscallAt img s p ∧ s' = handleSyscall env s ∨
          SysretAt img s p ∧ s' = handleSysret env s) := by
  unfold handleExceptionNmi
  rw [panicIf_bind_eq_ok, Exec.bind_eq_ok]
  refine and_congr (by simp) (exists_congr fun p => and_congr_right fun _ => ?_)
  by_cases hcall : SyscallAt img s p
  · have hret : ¬SysretAt img s p := not_sysretAt_of_syscallAt hcall
    rw [codeAt_eq_ok_true.mpr hcall]
    simp [hcall, hret, eq_comm]
  by_cases hret : SysretAt img s p
  · rw [codeAt_syscall_of_sysretAt hret, Exec.ok_bind, if_neg Bool.false_ne_true,
      codeAt_eq_ok_true.mpr hret]
    simp [hcall, hret, eq_comm]
  · -- neither comparison returns `true`
    simp only [hcall, hret, false_and, or_self, iff_false]
    rcases h₁ : codeAt img s syscallCode p with e | b
    · simp
    · have hb : b = false := Bool.eq_false_iff.mpr fun hb => hcall (codeAt_eq_ok_true.mp (hb ▸ h₁))
      rcases h₂ : codeAt img s sysretCode p with e | b'
      · simp [hb]
      · have hb' : b' = false :=
          Bool.eq_false_iff.mpr fun hb' => hret (codeAt_eq_ok_true.mp (hb' ▸ h₂))
        simp [hb, hb']

theorem handleExceptionNmi_frame (h : handleExceptionNmi img env s = .ok s') :
    ExitFrame s s' ∧ SameMode s.vmcs s'.vmcs := by
  obtain ⟨-, p, -, ⟨-, rfl⟩ | ⟨-, rfl⟩⟩ := handleExceptionNmi_eq_ok.mp h
  · exact ⟨handleSyscall_frame, handleSyscall_sameMode⟩
  · exact ⟨handleSysret_frame, handleSysret_sameMode⟩

theorem handleRdtsc_frame :
    ExitFrame s (handleRdtsc env s) ∧ SameMode s.vmcs (handleRdtsc env s).vmcs :=
  ⟨(ExitFrame.of_rest _ _ _).trans (ExitFrame.skip _), SameMode.skip _⟩

theorem kvmEmulateCpuid_frame :
    ExitFrame s (kvmEmulateCpuid env s) ∧ SameMode s.vmcs (kvmEmulateCpuid env s).vmcs :=
  ⟨(ExitFrame.of_rest _ _ _).trans (ExitFrame.skip _), SameMode.skip _⟩

/-- `handle_cr` returns for a move of some register to CR0, CR3 or CR4. -/
theorem handleCr_eq_ok (h : handleCr s = .ok s') :
    ∃ val w, (w = vmxSetCr0 s.vmcs val ∨ w = vmxSetCr3 s.vmcs val ∨ w = vmxSetCr4 s.vmcs val) ∧
      s' = vmxSkipEmulatedInstruction { s with vmcs := w } := by
  unfold handleCr at h
  dsimp only at h
  split at h
  · split at h
    · exact ⟨_, _, .inl rfl, (Except.ok.inj h).symm⟩
    · split at h
      · exact ⟨_, _, .inr (.inl rfl), (Except.ok.inj h).symm⟩
      · split at h
        · exact ⟨_, _, .inr (.inr rfl), (Except.ok.inj h).symm⟩
        · cases h
  · cases h

theorem handleCr_frame (h : handleCr s = .ok s') : ExitFrame s s' := by
  obtain ⟨val, w, rfl | rfl | rfl, rfl⟩ := handleCr_eq_ok h
  · exact (ExitFrame.setCr0 s val).trans (ExitFrame.skip _)
  · exact (ExitFrame.write (f := guestCr3) rfl).trans (ExitFrame.skip _)
  · exact (ExitFrame.write (f := guestCr4) rfl).trans (ExitFrame.skip _)

/-- `handle_wrmsr` of `EFER` always returns. -/
theorem handleWrmsr_efer (hmsr : (s.regs .rcx).setWidth 32 = msrEfer) :
    handleWrmsr s = .ok (vmxSkipEmulatedInstruction
      { s with vmcs := s.vmcs.write guestIa32Efer (kvmReadEdxEax s &&& ~~~eferSce) }) := by
  unfold handleWrmsr
  dsimp only
  rw [hmsr, if_neg (by decide), if_neg (by decide), if_pos rfl]
  rfl

theorem wrmsrl_eq_ok {msr : BitVec 32} {val : BitVec 64} :
    wrmsrl s msr val = .ok s' ↔
      wrmsrAccepted s.host msr val = true ∧
        { s with host := hostWrmsr s.host msr val } = s' := by
  unfold wrmsrl
  split
  · rename_i hok
    exact ⟨fun h => ⟨hok, Except.ok.inj h⟩, fun h => congrArg _ h.2⟩
  · rename_i hok
    exact ⟨nofun, fun h => absurd h.1 hok⟩

/-- `handle_wrmsr` returns after a write to `EFER`, without SCE, or after one that is
dropped or passed on to the processor. -/
theorem handleWrmsr_eq_ok (h : handleWrmsr s = .ok s') :
    ((s.regs .rcx).setWidth 32 = msrEfer ∧
        s' = vmxSkipEmulatedInstruction
          { s with vmcs := s.vmcs.write guestIa32Efer (kvmReadEdxEax s &&& ~~~eferSce) }) ∨
      ((s.regs .rcx).setWidth 32 ≠ msrEfer ∧
        ∃ host, s' = vmxSkipEmulatedInstruction { s with host }) := by
  unfold handleWrmsr at h
  dsimp only at h
  split at h
  · rename_i hmsr
    rw [bugOn_bind_eq_ok, Exec.bind_eq_ok] at h
    obtain ⟨-, s₁, hwr, h⟩ := h
    obtain ⟨-, rfl⟩ := wrmsrl_eq_ok.mp hwr
    exact .inr ⟨by rw [hmsr]; decide, _, (Except.ok.inj h).symm⟩
  · split at h
    · rename_i hmsr
      refine .inr ⟨by rw [hmsr]; decide, ?_⟩
      split at h
      · exact ⟨s.host, (Except.ok.inj h).symm⟩
      · obtain ⟨s₁, hwr, h⟩ := Exec.bind_eq_ok.mp h
        obtain ⟨-, rfl⟩ := wrmsrl_eq_ok.mp hwr
        exact ⟨_, (Except.ok.inj h).symm⟩
    · split at h
      · rename_i hmsr
        exact .inl ⟨hmsr, (Except.ok.inj h).symm⟩
      · cases h

theorem handleWrmsr_frame (h : handleWrmsr s = .ok s') : ExitFrame s s' := by
  obtain ⟨-, rfl⟩ | ⟨-, host, rfl⟩ := handleWrmsr_eq_ok h
  · exact (ExitFrame.write (f := guestIa32Efer) rfl).trans (ExitFrame.skip _)
  · exact (ExitFrame.of_rest s.regs s.ept host).trans (ExitFrame.skip _)

theorem vmxHandleEptViolation_frame (h : vmxHandleEptViolation img s = .ok s') :
    ExitFrame s s' ∧ SameMode s.vmcs s'.vmcs := by
  unfold vmxHandleEptViolation at h
  rw [panicIf_bind_eq_ok, Exec.bind_eq_ok] at h
  obtain ⟨-, ept, -, h⟩ := h
  obtain rfl := Except.ok.inj h
  exact ⟨ExitFrame.of_rest s.regs ept s.host, ⟨rfl, rfl, rfl, rfl⟩⟩

/-- **Frame of the exit handlers**: whatever the exit, its handler writes only the fields of
`exitWrites`, and neither the MSR bitmap nor the flags of the entry. -/
theorem vmxHandleExit_frame (h : vmxHandleExit img env s = .ok s') : ExitFrame s s' := by
  unfold vmxHandleExit at h
  dsimp only at h
  split at h
  · rename_i handler _
    cases handler with
    | exceptionNmi => exact (handleExceptionNmi_frame h).1
    | cpuid =>
      obtain rfl := Except.ok.inj h
      exact kvmEmulateCpuid_frame.1
    | rdtsc =>
      obtain rfl := Except.ok.inj h
      exact handleRdtsc_frame.1
    | crAccess => exact handleCr_frame h
    | msrRead => cases h
    | msrWrite => exact handleWrmsr_frame h
    | eptViolation => exact (vmxHandleEptViolation_frame h).1
  · cases h

/-- The reason of an exit that `handle_wrmsr` handles. -/
theorem reason_of_msrWrite {r : BitVec 32} (h : vmxExitHandlers r = some .msrWrite) :
    r = 32#32 := by
  unfold vmxExitHandlers at h
  split at h <;> try cases h
  exact BitVec.eq_of_toNat_eq ‹_›

/-- **Mode changes**: the handling of an exit leaves the mode of the guest as it was, up to
one write of CR0, of CR4, or of `EFER` by a WRMSR exit. -/
theorem vmxHandleExit_mode (h : vmxHandleExit img env s = .ok s') :
    SameMode s.vmcs s'.vmcs ∨
      (∃ val, SameMode (vmxSetCr0 s.vmcs val) s'.vmcs) ∨
      (∃ val, SameMode (vmxSetCr4 s.vmcs val) s'.vmcs) ∨
      (s.vmcs.read32 vmExitReason = 32#32 ∧ (s.regs .rcx).setWidth 32 = msrEfer ∧
        SameMode (s.vmcs.write guestIa32Efer (kvmReadEdxEax s &&& ~~~eferSce)) s'.vmcs) := by
  unfold vmxHandleExit at h
  dsimp only at h
  split at h
  · rename_i handler hreason
    cases handler with
    | exceptionNmi => exact .inl (handleExceptionNmi_frame h).2
    | cpuid =>
      obtain rfl := Except.ok.inj h
      exact .inl kvmEmulateCpuid_frame.2
    | rdtsc =>
      obtain rfl := Except.ok.inj h
      exact .inl handleRdtsc_frame.2
    | crAccess =>
      obtain ⟨val, w, rfl | rfl | rfl, rfl⟩ := handleCr_eq_ok h
      · exact .inr (.inl ⟨val, SameMode.skip_with s _⟩)
      · exact .inl ((SameMode.write (f := guestCr3) nofun nofun nofun nofun).trans
          (SameMode.skip_with s _))
      · exact .inr (.inr (.inl ⟨val, SameMode.skip_with s _⟩))
    | msrRead => cases h
    | msrWrite =>
      obtain ⟨hmsr, rfl⟩ | ⟨-, host, rfl⟩ := handleWrmsr_eq_ok h
      · exact .inr (.inr (.inr ⟨reason_of_msrWrite hreason, hmsr, SameMode.skip_with s _⟩))
      · exact .inl (SameMode.skip { s with host })
    | eptViolation => exact .inl (vmxHandleEptViolation_frame h).2
  · cases h

end Handlers

end Lvisor
