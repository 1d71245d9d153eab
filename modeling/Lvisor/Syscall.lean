import Lvisor.Guest
import Lvisor.Lib.Run

/-!
# SYSCALL and SYSRET

The VMM keeps `EFER.SCE` clear, so that SYSCALL and SYSRET of the guest raise the
invalid-opcode exception and `handle_exception_nmi` emulates them.

* `syscall_sysret_spec` — both handlers do what the instructions do in 64-bit mode, for all
  values of STAR, LSTAR and SYSCALL_MASK, and leave the rest of the guest alone.
* `resumes_iff` — a SYSCALL and the SYSRETQ that answers it lead back to the instruction
  after the SYSCALL, exactly when the exit reported the length of the SYSCALL, which the
  architecture does not promise of an exception.
* `noPrivilegeGain_iff` — user code gains nothing from an emulation, except that it may
  choose IF and IOPL by a SYSRET, whose privilege level `handle_sysret` does not check.
-/

namespace Lvisor

open VmcsField

/-! ## Segments as the processor reads them -/

/-- The access rights of a segment, decoded from the VMCS format. `AVL`, which the processor
does not interpret, is left out. -/
structure SegmentRights where
  /-- `Type`, bits 3:0 -/
  type : BitVec 4
  /-- `S`, bit 4 -/
  s : Bool
  /-- `DPL`, bits 6:5 -/
  dpl : BitVec 2
  /-- `P`, bit 7 -/
  p : Bool
  /-- `L`, bit 13 -/
  l : Bool
  /-- `D/B`, bit 14 -/
  db : Bool
  /-- `G`, bit 15 -/
  g : Bool
  /-- unusable, bit 16 -/
  unusable : Bool
  deriving DecidableEq

/-- The access rights in a field `GUEST_*_AR_BYTES`. -/
def rightsOf (ar : BitVec 32) : SegmentRights where
  type := ar.extractLsb' 0 4
  s := ar.getLsbD 4
  dpl := ar.extractLsb' 5 2
  p := ar.getLsbD 7
  l := ar.getLsbD 13
  db := ar.getLsbD 14
  g := ar.getLsbD 15
  unusable := ar.getLsbD 16

/-- A flat 64-bit code segment of the given privilege level, as the processor reads its rights. -/
def codeRights (dpl : BitVec 2) : SegmentRights :=
  { type := 11, s := true, dpl, p := true, l := true, db := false, g := true, unusable := false }

/-- A flat stack segment of the given privilege level. -/
def stackRights (dpl : BitVec 2) : SegmentRights :=
  { type := 3, s := true, dpl, p := true, l := false, db := true, g := true, unusable := false }

/-- A segment register with the given selector, base 0 and the given rights. -/
structure SegmentIs (v : Vmcs) (seg : Sreg) (selector : BitVec 16) (rights : SegmentRights) :
    Prop where
  selector : (v.read (guestSelector seg)).setWidth 16 = selector
  base : v.read (guestBase seg) = 0#64
  rights : rightsOf (v.read32 (guestArBytes seg)) = rights

section Segments

variable {v : Vmcs} {var : KvmSegment} {seg : Sreg}

/-- What the low bit of the uninitialised `avl` can be. -/
theorem and_one_eq (x : BitVec 8) : x &&& 1#8 = 0#8 ∨ x &&& 1#8 = 1#8 := by
  revert x
  decide

theorem rightsOf_syscallCs (selector : BitVec 16) (avl : BitVec 8) :
    rightsOf (vmxSegmentAccessRights (syscallCs selector 0 avl)) = codeRights 0 ∧
      rightsOf (vmxSegmentAccessRights (syscallCs selector 3 avl)) = codeRights 3 := by
  rw [vmxSegmentAccessRights, vmxSegmentAccessRights, if_neg (by simp [syscallCs]),
    if_neg (by simp [syscallCs])]
  simp only [syscallCs]
  rcases and_one_eq avl with h | h
  · rw [h]
    decide
  · rw [h]
    decide

theorem rightsOf_syscallSs (selector : BitVec 16) (avl : BitVec 8) :
    rightsOf (vmxSegmentAccessRights (syscallSs selector 0 avl)) = stackRights 0 ∧
      rightsOf (vmxSegmentAccessRights (syscallSs selector 3 avl)) = stackRights 3 := by
  rw [vmxSegmentAccessRights, vmxSegmentAccessRights, if_neg (by simp [syscallSs]),
    if_neg (by simp [syscallSs])]
  simp only [syscallSs]
  rcases and_one_eq avl with h | h
  · rw [h]
    decide
  · rw [h]
    decide

/-- A segment that is loaded with base 0 is what its rights say. -/
theorem SegmentIs.of_set {rights : SegmentRights} (hbase : var.base = 0#64)
    (hrights : rightsOf (vmxSegmentAccessRights var) = rights) :
    SegmentIs (vmxSetSegment v var seg) seg var.selector rights where
  selector := read_selector_vmxSetSegment
  base := by rw [read_base_vmxSetSegment, hbase]
  rights := by rw [read_ar_vmxSetSegment, hrights]

/-- Loading another segment register leaves it as it is. -/
theorem SegmentIs.set_ne {seg' : Sreg} {selector : BitVec 16} {rights : SegmentRights}
    (h : SegmentIs v seg selector rights) (hne : seg ≠ seg') :
    SegmentIs (vmxSetSegment v var seg') seg selector rights := by
  have hsel : (vmxSetSegment v var seg').read (guestSelector seg) = v.read (guestSelector seg) :=
    vmxSetSegment_read nofun nofun (by simpa using hne) nofun
  have hbase : (vmxSetSegment v var seg').read (guestBase seg) = v.read (guestBase seg) :=
    vmxSetSegment_read (by simpa using hne) nofun nofun nofun
  have har : (vmxSetSegment v var seg').read (guestArBytes seg) = v.read (guestArBytes seg) :=
    vmxSetSegment_read nofun nofun nofun (by simpa using hne)
  exact ⟨by rw [hsel, h.selector], by rw [hbase, h.base],
    by rw [Vmcs.read32, har, ← Vmcs.read32, h.rights]⟩

end Segments

/-! ## What the instructions do

The effect of the two instructions in 64-bit mode, as their description has it: what RIP, RCX,
R11, RFLAGS, CS and SS are afterwards. Everything else of the guest is the same. -/

/-- The fields of CS and SS, which both handlers write. -/
def csSsFields : List VmcsField :=
  [guestSelector .cs, guestBase .cs, guestLimit .cs, guestArBytes .cs,
   guestSelector .ss, guestBase .ss, guestLimit .ss, guestArBytes .ss]

/-- The general registers but for those of `regs`, the fields of the VMCS but for those of
`fields`, and the MSRs are as before. -/
structure OnlyChanges (s s' : VmxState) (regs : List KvmReg) (fields : List VmcsField) : Prop where
  regs : ∀ r, r ∉ regs → s'.regs r = s.regs r
  fields : ∀ f, f ∉ fields → s'.vmcs.read f = s.vmcs.read f
  cr2 : s'.cr2 = s.cr2
  guestMsrs : s'.guestMsrs = s.guestMsrs
  host : s'.host = s.host

/-- SYSCALL in 64-bit mode: RCX and R11 save RIP and RFLAGS, and the kernel is entered at
LSTAR with the flags of SYSCALL_MASK cleared and the flat segments of STAR[47:32]. -/
structure SyscallDone (s s' : VmxState) : Prop where
  rcx : s'.regs .rcx = s.vmcs.read guestRip + 2#64
  r11 : s'.regs .r11 = s.vmcs.read guestRflags
  rip : s'.vmcs.read guestRip = s.guestMsrs .lstar
  rflags : s'.vmcs.read guestRflags = s.vmcs.read guestRflags &&& ~~~s.guestMsrs .syscallMask
  cs : SegmentIs s'.vmcs .cs ((s.guestMsrs .star).extractLsb' 32 16 &&& 0xfffc#16) (codeRights 0)
  ss : SegmentIs s'.vmcs .ss ((s.guestMsrs .star).extractLsb' 32 16 + 8#16) (stackRights 0)
  rest : OnlyChanges s s' [.rcx, .r11]
    ([guestRip, guestRflags, guestInterruptibilityInfo] ++ csSsFields)

/-- SYSRETQ at CPL 0: RIP and RFLAGS come from RCX and R11, and user code runs with the flat
segments of STAR[63:48]. -/
structure SysretDone (s s' : VmxState) : Prop where
  rip : s'.vmcs.read guestRip = s.regs .rcx
  rflags : s'.vmcs.read guestRflags = (s.regs .r11 &&& 0x3c7fd7#64) ||| 2#64
  cs : SegmentIs s'.vmcs .cs (((s.guestMsrs .star).extractLsb' 48 16 + 16#16) ||| 3#16)
    (codeRights 3)
  ss : SegmentIs s'.vmcs .ss (((s.guestMsrs .star).extractLsb' 48 16 + 8#16) ||| 3#16)
    (stackRights 3)
  rest : OnlyChanges s s' [] ([guestRip, guestRflags] ++ csSsFields)

section Spec

variable {env : ExitEnv} {s : VmxState} {v : Vmcs}

/-- Sixteen bits of a word, from the bit `k` on. -/
theorem setWidth_shiftRight (x : BitVec 64) (k : ℕ) :
    (x >>> k).setWidth 16 = x.extractLsb' k 16 := by
  apply BitVec.eq_of_toNat_eq
  simp [BitVec.extractLsb'_toNat]

/-- The selector arithmetic of the two handlers is modulo 2^16. -/
theorem selector_add (x n : BitVec 64) (k : ℕ) :
    (((x >>> k) &&& 0xffff#64) + n).setWidth 16 = x.extractLsb' k 16 + n.setWidth 16 := by
  rw [BitVec.setWidth_add _ _ (by decide), BitVec.setWidth_and, setWidth_shiftRight,
    show (0xffff#64).setWidth 16 = BitVec.allOnes 16 from rfl, BitVec.and_allOnes]

theorem selector_and (x n : BitVec 64) (k : ℕ) :
    ((x >>> k) &&& n).setWidth 16 = x.extractLsb' k 16 &&& n.setWidth 16 := by
  rw [BitVec.setWidth_and, setWidth_shiftRight]

/-- A field outside of CS and SS is none of theirs. -/
theorem vmxSetCsSs_read {cs ss : KvmSegment} {f : VmcsField} (hf : f ∉ csSsFields) :
    (vmxSetSegment (vmxSetSegment v cs .cs) ss .ss).read f = v.read f := by
  simp only [csSsFields, List.mem_cons, List.not_mem_nil, or_false, not_or] at hf
  obtain ⟨h1, h2, h3, h4, h5, h6, h7, h8⟩ := hf
  rw [vmxSetSegment_read h6 h7 h5 h8, vmxSetSegment_read h2 h3 h1 h4]

theorem handleSyscall_rip : (handleSyscall env s).vmcs.read guestRip = s.guestMsrs .lstar := by
  rw [handleSyscall, vmxSetCsSs_read (by decide)]
  simp [kvmRegisterWrite, vmxSkipEmulatedInstruction, VmcsField.width]

theorem handleSyscall_ss :
    SegmentIs (handleSyscall env s).vmcs .ss ((s.guestMsrs .star).extractLsb' 32 16 + 8#16)
      (stackRights 0) := by
  have hsel := selector_add (s.guestMsrs .star) 8#64 32
  rw [show (8#16) = (8#64).setWidth 16 from rfl, ← hsel]
  exact SegmentIs.of_set rfl (rightsOf_syscallSs _ env.ssAvl).1

/-- `handle_syscall` saves RIP moved on by the length that the exit reported. -/
theorem handleSyscall_rcx :
    (handleSyscall env s).regs .rcx =
      s.vmcs.read guestRip + (s.vmcs.read32 vmExitInstructionLen).setWidth 64 := by
  simp [handleSyscall, kvmRegisterWrite, vmxSkipEmulatedInstruction, VmcsField.width]

theorem handleSyscall_r11 : (handleSyscall env s).regs .r11 = s.vmcs.read guestRflags := by
  simp [handleSyscall, kvmRegisterWrite, vmxSkipEmulatedInstruction]

theorem handleSyscall_done (hlen : s.vmcs.read32 vmExitInstructionLen = 2#32) :
    SyscallDone s (handleSyscall env s) where
  rcx := by
    rw [handleSyscall_rcx, hlen]
    rfl
  r11 := handleSyscall_r11
  rip := handleSyscall_rip
  rflags := by
    rw [handleSyscall, vmxSetCsSs_read (by decide)]
    simp [kvmRegisterWrite, vmxSkipEmulatedInstruction, VmcsField.width]
  cs := by
    have hsel := selector_and (s.guestMsrs .star) 0xfffc#64 32
    rw [show (0xfffc#16) = (0xfffc#64).setWidth 16 from rfl, ← hsel]
    exact (SegmentIs.of_set rfl (rightsOf_syscallCs _ env.csAvl).1).set_ne (by decide)
  ss := handleSyscall_ss
  rest := by
    refine ⟨fun r hr => ?_, fun f hf => ?_, rfl, rfl, rfl⟩
    · simp only [List.mem_cons, List.not_mem_nil, or_false, not_or] at hr
      simp [handleSyscall, kvmRegisterWrite, vmxSkipEmulatedInstruction, hr.1, hr.2]
    · simp only [List.mem_append, List.mem_cons, List.not_mem_nil, or_false, not_or] at hf
      obtain ⟨⟨hrip, hflags, hint⟩, hseg⟩ := hf
      rw [handleSyscall, vmxSetCsSs_read hseg]
      simp [kvmRegisterWrite, vmxSkipEmulatedInstruction, hrip, hflags, hint]

theorem handleSysret_done : SysretDone s (handleSysret env s) where
  rip := by
    rw [handleSysret, vmxSetCsSs_read (by decide)]
    simp [VmcsField.width]
  rflags := by
    rw [handleSysret, vmxSetCsSs_read (by decide)]
    simp [VmcsField.width]
  cs := by
    have hsel := selector_add (s.guestMsrs .star) 16#64 48
    rw [show (16#16) = (16#64).setWidth 16 from rfl, ← hsel]
    exact (SegmentIs.of_set rfl (rightsOf_syscallCs _ env.csAvl).2).set_ne (by decide)
  ss := by
    have hsel := selector_add (s.guestMsrs .star) 8#64 48
    rw [show (8#16) = (8#64).setWidth 16 from rfl, ← hsel]
    exact SegmentIs.of_set rfl (rightsOf_syscallSs _ env.ssAvl).2
  rest := by
    refine ⟨fun _ _ => rfl, fun f hf => ?_, rfl, rfl, rfl⟩
    simp only [List.mem_append, List.mem_cons, List.not_mem_nil, or_false, not_or] at hf
    obtain ⟨⟨hrip, hflags⟩, hseg⟩ := hf
    rw [handleSysret, vmxSetCsSs_read hseg]
    simp [hrip, hflags]

end Spec

/-- **Emulation**: for every state of the guest, every STAR, LSTAR and SYSCALL_MASK, and
whatever the uninitialised bits, `handle_syscall` of the two-byte SYSCALL and
`handle_sysret` do what the architecture says of the instructions. -/
theorem syscall_sysret_spec (env : ExitEnv) (s : VmxState) :
    (s.vmcs.read32 vmExitInstructionLen = 2#32 → SyscallDone s (handleSyscall env s)) ∧
      SysretDone s (handleSysret env s) :=
  ⟨handleSyscall_done, handleSysret_done⟩

/-- A guest at a SYSCALL, with an entry point, a mask and the selectors 0x10 and 0x23. -/
def syscallState : VmxState :=
  { resetState with
    vmcs := Vmcs.zero.writeAll
      [(vmExitInstructionLen, 2), (guestRip, 0x401000), (guestRflags, 0x246)]
    guestMsrs := fun m =>
      match m with
      | .kernelGsBase => 0
      | .syscallMask => 0x47700
      | .lstar => 0xffffffff81000000
      | .star => 0x0023001000000000 }

theorem syscall_sysret_spec_syscallState :
    syscallState.vmcs.read32 vmExitInstructionLen = 2#32 ∧
      (handleSyscall quietEnv syscallState).regs .rcx = 0x401002#64 ∧
      SyscallDone syscallState (handleSyscall quietEnv syscallState) :=
  ⟨by decide, by decide, (syscall_sysret_spec quietEnv syscallState).1 (by decide)⟩

/-! ## There and back

The handler of SYSCALL saves RIP plus the length that the exit has reported. The exit is that of
an exception, and for those the length is not defined. -/

/-- The user program goes on after its SYSCALL: at CPL 3 (the DPL of SS), with its flags. -/
structure Resumed (s s' : VmxState) : Prop where
  cpl : (rightsOf (s'.vmcs.read32 (guestArBytes .ss))).dpl = 3#2
  rip : s'.vmcs.read guestRip = s.vmcs.read guestRip + 2#64
  rflags : s'.vmcs.read guestRflags = (s.vmcs.read guestRflags &&& 0x3c7fd7#64) ||| 2#64
  csRpl : (s'.vmcs.read (guestSelector .cs)).setWidth 16 &&& 3#16 = 3#16
  ssRpl : (s'.vmcs.read (guestSelector .ss)).setWidth 16 &&& 3#16 = 3#16

/-- The code of the guest at its RIP is a SYSCALL. -/
def AtSyscall (img : VmxImage) (s : VmxState) : Prop :=
  ∃ p, gva2hva img s (s.vmcs.read guestRip) = .ok p ∧ SyscallAt img s p

/-- The code of the guest at its RIP is a SYSRETQ. -/
def AtSysret (img : VmxImage) (s : VmxState) : Prop :=
  ∃ p, gva2hva img s (s.vmcs.read guestRip) = .ok p ∧ SysretAt img s p

section Resume

variable {img : VmxImage} {env env' : ExitEnv} {s s₁ k s₂ : VmxState}

/-- The handler finds one page for the guest's RIP. -/
theorem atSyscall_iff {p : BitVec 64} (hp : gva2hva img s (s.vmcs.read guestRip) = .ok p) :
    AtSyscall img s ↔ SyscallAt img s p := by
  constructor
  · rintro ⟨p', hp', h⟩
    obtain rfl := Except.ok.inj (hp.symm.trans hp')
    exact h
  · exact fun h => ⟨p, hp, h⟩

theorem atSysret_iff {p : BitVec 64} (hp : gva2hva img s (s.vmcs.read guestRip) = .ok p) :
    AtSysret img s ↔ SysretAt img s p := by
  constructor
  · rintro ⟨p', hp', h⟩
    obtain rfl := Except.ok.inj (hp.symm.trans hp')
    exact h
  · exact fun h => ⟨p, hp, h⟩

/-- An invalid-opcode exit at a SYSCALL calls `handle_syscall`. -/
theorem handleExceptionNmi_syscall (hat : AtSyscall img s)
    (h : handleExceptionNmi img env s = .ok s₁) : s₁ = handleSyscall env s := by
  obtain ⟨-, p, hp, ⟨-, rfl⟩ | ⟨hret, -⟩⟩ := handleExceptionNmi_eq_ok.mp h
  · rfl
  · exact absurd hret (not_sysretAt_of_syscallAt ((atSyscall_iff hp).mp hat))

/-- An invalid-opcode exit at a SYSRETQ calls `handle_sysret`. -/
theorem handleExceptionNmi_sysret (hat : AtSysret img s)
    (h : handleExceptionNmi img env s = .ok s₁) : s₁ = handleSysret env s := by
  obtain ⟨-, p, hp, ⟨hcall, -⟩ | ⟨-, rfl⟩⟩ := handleExceptionNmi_eq_ok.mp h
  · exact absurd ((atSysret_iff hp).mp hat) (not_sysretAt_of_syscallAt hcall)
  · rfl

/-- **There and back**: when the kernel has kept RCX and R11, its SYSRETQ resumes the user
program that made the SYSCALL, exactly when the exit of the SYSCALL reported its length. The
kernel is otherwise free; not even STAR need be the same. -/
theorem resumes_iff (hcall : AtSyscall img s) (h₁ : handleExceptionNmi img env s = .ok s₁)
    (hrcx : k.regs .rcx = s₁.regs .rcx) (hr11 : k.regs .r11 = s₁.regs .r11)
    (hret : AtSysret img k) (h₂ : handleExceptionNmi img env' k = .ok s₂) :
    Resumed s s₂ ↔ s.vmcs.read32 vmExitInstructionLen = 2#32 := by
  obtain rfl := handleExceptionNmi_syscall hcall h₁
  obtain rfl := handleExceptionNmi_sysret hret h₂
  have hdone : SysretDone k (handleSysret env' k) := handleSysret_done
  have hrip : (handleSysret env' k).vmcs.read guestRip =
      s.vmcs.read guestRip + (s.vmcs.read32 vmExitInstructionLen).setWidth 64 := by
    rw [hdone.rip, hrcx, handleSyscall_rcx]
  have hrpl : ∀ x : BitVec 16, (x ||| 3#16) &&& 3#16 = 3#16 := fun x => or_and_self x 3#16
  constructor
  · intro h
    have hlen := (BitVec.add_right_inj _).mp (hrip.symm.trans h.rip)
    have hlen' := congrArg (BitVec.setWidth 32) hlen
    rwa [BitVec.setWidth_setWidth_of_le _ (by decide), BitVec.setWidth_eq] at hlen'
  · intro hlen
    exact {
      cpl := by rw [hdone.ss.rights]; rfl
      rip := by rw [hrip, hlen]; rfl
      rflags := by rw [hdone.rflags, hr11, handleSyscall_r11]
      csRpl := by rw [hdone.cs.selector, hrpl]
      ssRpl := by rw [hdone.ss.selector, hrpl] }

end Resume

/-! ## Privilege

The privilege level is that of SS. A SYSRET of the guest's user code is emulated as well, and
loads RFLAGS from R11, with IF and IOPL in it. -/

/-- `RFLAGS.IF` (bit 9) and `RFLAGS.IOPL` (bits 13:12). -/
abbrev ifIopl : BitVec 64 := 0x3200#64

/-- What an emulated instruction may do for user code: enter the kernel at LSTAR, or leave
the privilege level, IF and IOPL as they are. -/
def NoPrivilegeGain (s s' : VmxState) : Prop :=
  (vmxGetCpl s'.vmcs = 0#32 ∧ s'.vmcs.read guestRip = s.guestMsrs .lstar) ∨
    (vmxGetCpl s'.vmcs = 3#32 ∧
      s'.vmcs.read guestRflags &&& ifIopl = s.vmcs.read guestRflags &&& ifIopl)

instance (s s' : VmxState) : Decidable (NoPrivilegeGain s s') :=
  inferInstanceAs (Decidable (_ ∨ _))

section Privilege

variable {img : VmxImage} {env : ExitEnv} {s s' : VmxState} {v : Vmcs}

/-- In protected mode, the privilege level is the DPL of SS. -/
theorem vmxGetCpl_of_ss {selector : BitVec 16} {rights : SegmentRights}
    (hpe : isRealMode v = false) (hss : SegmentIs v .ss selector rights) :
    vmxGetCpl v = rights.dpl.setWidth 32 := by
  rw [vmxGetCpl, hpe, if_neg nofun, ← hss.rights, vmxArDpl, rightsOf]
  apply BitVec.eq_of_toNat_eq
  rw [show (3#32) = lowMask 32 2 from rfl, toNat_shiftRight_and_lowMask (by decide),
    BitVec.toNat_setWidth, BitVec.extractLsb'_toNat, Nat.shiftRight_eq_div_pow]
  omega

/-- User code does not run in real mode, where the level is 0. -/
theorem isRealMode_of_cpl (hcpl : vmxGetCpl v = 3#32) : isRealMode v = false := by
  cases hreal : isRealMode v with
  | false => rfl
  | true =>
    rw [vmxGetCpl, hreal, if_pos rfl] at hcpl
    cases hcpl

theorem isRealMode_of_sameMode {w : Vmcs} (h : SameMode v w) : isRealMode w = isRealMode v := by
  rw [isRealMode, isRealMode, h.cr0]

/-- SYSCALL enters the kernel at LSTAR, and nowhere else. -/
theorem noPrivilegeGain_syscall (hcpl : vmxGetCpl s.vmcs = 3#32) :
    NoPrivilegeGain s (handleSyscall env s) := by
  have hreal : isRealMode (handleSyscall env s).vmcs = false :=
    (isRealMode_of_sameMode handleSyscall_sameMode).trans (isRealMode_of_cpl hcpl)
  exact .inl ⟨vmxGetCpl_of_ss hreal handleSyscall_ss, handleSyscall_rip⟩

/-- SYSRET stays at the privilege level of user code, and takes IF and IOPL from R11. -/
theorem noPrivilegeGain_sysret_iff (hcpl : vmxGetCpl s.vmcs = 3#32) :
    NoPrivilegeGain s (handleSysret env s) ↔
      s.regs .r11 &&& ifIopl = s.vmcs.read guestRflags &&& ifIopl := by
  have hreal : isRealMode (handleSysret env s).vmcs = false :=
    (isRealMode_of_sameMode handleSysret_sameMode).trans (isRealMode_of_cpl hcpl)
  have hdone : SysretDone s (handleSysret env s) := handleSysret_done
  have hcpl' : vmxGetCpl (handleSysret env s).vmcs = 3#32 := vmxGetCpl_of_ss hreal hdone.ss
  have hflags : (handleSysret env s).vmcs.read guestRflags &&& ifIopl = s.regs .r11 &&& ifIopl := by
    rw [hdone.rflags, or_and_of_disjoint (by decide), BitVec.and_assoc]
    rfl
  rw [NoPrivilegeGain, hcpl', hflags]
  simp

/-- **Privilege**: an invalid-opcode exit that is handled for user code gives it nothing,
exactly when it is not at a SYSRETQ or its R11 has the IF and the IOPL of its RFLAGS. -/
theorem noPrivilegeGain_iff (hcpl : vmxGetCpl s.vmcs = 3#32)
    (h : handleExceptionNmi img env s = .ok s') :
    NoPrivilegeGain s s' ↔
      ¬AtSysret img s ∨ s.regs .r11 &&& ifIopl = s.vmcs.read guestRflags &&& ifIopl := by
  obtain ⟨-, p, hp, hcases⟩ := handleExceptionNmi_eq_ok.mp h
  rw [atSysret_iff hp]
  rcases hcases with ⟨hcall, rfl⟩ | ⟨hret, rfl⟩
  · exact iff_of_true (noPrivilegeGain_syscall hcpl) (.inl (not_sysretAt_of_syscallAt hcall))
  · rw [noPrivilegeGain_sysret_iff hcpl]
    simp [hret]

end Privilege

/-- A 64-bit guest in user mode (interrupts on, IOPL 0) that has executed a SYSRETQ at 0x4000
and was stopped by the exception. Its page tables at 0x1000 map the low 1 GiB, and its first
frame is mapped in the EPT. -/
def userState (r11 : BitVec 64) : VmxState :=
  { resetState with
    regs := fun r => if r = .r11 then r11 else if r = .rcx then 0x5000 else 0
    guestMsrs := syscallState.guestMsrs
    vmcs := Vmcs.zero.writeAll
      [(guestCr0, 0x80010031), (guestCr3, 0x1000), (guestCr4, 0x2020), (guestIa32Efer, 0x500),
       (eptPointer, 0x1020001e), (guestRip, 0x4000), (guestRflags, 0x202),
       (guestSelector .cs, 0x33), (guestArBytes .cs, 0xa0fb),
       (guestSelector .ss, 0x2b), (guestArBytes .ss, 0xc0f3),
       (vmExitIntrInfo, 0x80000306), (vmExitInstructionLen, 3)]
    ept := (handleEptViolation vmmImage Ept.zero 0x1000).toOption.getD Ept.zero
    mem := fun p =>
      match p.toNat with
      | 0x1000 => 0x07
      | 0x1001 => 0x20
      | 0x2000 => 0x87
      | 0x4000 => 0x48
      | 0x4001 => 0x0f
      | 0x4002 => 0x07
      | _ => 0 }

/-- User code with IF and IOPL of its own in R11. -/
theorem noPrivilegeGain_iff_userState :
    ∃ s', vmxGetCpl (userState 0x246).vmcs = 3#32 ∧
      handleExceptionNmi vmmVmxImage quietEnv (userState 0x246) = .ok s' ∧
      (NoPrivilegeGain (userState 0x246) s' ↔
        ¬AtSysret vmmVmxImage (userState 0x246) ∨
          (userState 0x246).regs .r11 &&& ifIopl =
            (userState 0x246).vmcs.read guestRflags &&& ifIopl) := by
  obtain ⟨s', h, -⟩ : ∃ s', handleExceptionNmi vmmVmxImage quietEnv (userState 0x246) = .ok s' ∧
      true = true := Exec.exists_of_any (p := fun _ => true) (by decide +kernel)
  exact ⟨s', by decide, h, noPrivilegeGain_iff (by decide) h⟩

/-- User code that puts IOPL 3 in R11 has it after the SYSRETQ, which the architecture
rejects. -/
theorem privilegeGain_userState :
    ∃ s', vmxGetCpl (userState 0x3202).vmcs = 3#32 ∧
      handleExceptionNmi vmmVmxImage quietEnv (userState 0x3202) = .ok s' ∧
      s'.vmcs.read guestRflags = 0x3202#64 ∧ ¬NoPrivilegeGain (userState 0x3202) s' := by
  obtain ⟨s', h, hgain⟩ : ∃ s',
      handleExceptionNmi vmmVmxImage quietEnv (userState 0x3202) = .ok s' ∧
        decide (s'.vmcs.read guestRflags = 0x3202#64 ∧
          ¬NoPrivilegeGain (userState 0x3202) s') = true :=
    Exec.exists_of_any (by decide +kernel)
  exact ⟨s', by decide, h, of_decide_eq_true hgain⟩

/-! ## A guest that calls its kernel -/

/-- The same guest at a SYSCALL at 0x4010, stopped by an exit that reports the length `len`. -/
def callerState (len : BitVec 64) : VmxState :=
  { userState 0 with
    vmcs := (userState 0).vmcs.writeAll [(guestRip, 0x4010), (vmExitInstructionLen, len)]
    mem := fun p =>
      match p.toNat with
      | 0x4010 => 0x0f
      | 0x4011 => 0x05
      | _ => (userState 0).mem p }

/-- Its kernel at the SYSRETQ at 0x4000. -/
def returnState (len : BitVec 64) : VmxState :=
  let s := handleSyscall quietEnv (callerState len)
  { s with vmcs := s.vmcs.write guestRip 0x4000 }

/-- The kernel keeps what the SYSCALL left in the registers. -/
theorem returnState_regs (len : BitVec 64) (r : KvmReg) :
    (returnState len).regs r = (handleSyscall quietEnv (callerState len)).regs r := rfl

/-- The two exits, as far as they can be evaluated for a given length. -/
theorem exists_thereAndBack (len rip : BitVec 64)
    (hcall : (gva2hva vmmVmxImage (callerState len)
      ((callerState len).vmcs.read guestRip)).toOption.any
        (fun p => SyscallAt vmmVmxImage (callerState len) p) = true)
    (hret : (gva2hva vmmVmxImage (returnState len)
      ((returnState len).vmcs.read guestRip)).toOption.any
        (fun p => SysretAt vmmVmxImage (returnState len) p) = true)
    (hud : IsUd (callerState len).vmcs ∧ IsUd (returnState len).vmcs)
    (hrip : (handleSysret quietEnv (returnState len)).vmcs.read guestRip = rip) :
    AtSyscall vmmVmxImage (callerState len) ∧ AtSysret vmmVmxImage (returnState len) ∧
      handleExceptionNmi vmmVmxImage quietEnv (callerState len) =
        .ok (handleSyscall quietEnv (callerState len)) ∧
      ∃ s₂, handleExceptionNmi vmmVmxImage quietEnv (returnState len) = .ok s₂ ∧
        s₂.vmcs.read guestRip = rip := by
  obtain ⟨p, hp, hcall⟩ := Exec.exists_of_any hcall
  obtain ⟨q, hq, hret⟩ := Exec.exists_of_any hret
  have hcall := of_decide_eq_true hcall
  have hret := of_decide_eq_true hret
  refine ⟨⟨p, hp, hcall⟩, ⟨q, hq, hret⟩, ?_, handleSysret quietEnv (returnState len), ?_, hrip⟩
  · exact handleExceptionNmi_eq_ok.mpr ⟨hud.1, p, hp, .inl ⟨hcall, rfl⟩⟩
  · exact handleExceptionNmi_eq_ok.mpr ⟨hud.2, q, hq, .inr ⟨hret, rfl⟩⟩

/-- A processor that reports the two bytes of the SYSCALL. -/
theorem resumes_iff_callerState :
    ∃ s₁ s₂, AtSyscall vmmVmxImage (callerState 2) ∧
      handleExceptionNmi vmmVmxImage quietEnv (callerState 2) = .ok s₁ ∧
      AtSysret vmmVmxImage (returnState 2) ∧
      handleExceptionNmi vmmVmxImage quietEnv (returnState 2) = .ok s₂ ∧
      (Resumed (callerState 2) s₂ ↔
        (callerState 2).vmcs.read32 vmExitInstructionLen = 2#32) := by
  obtain ⟨hcall, hret, h₁, s₂, h₂, -⟩ := exists_thereAndBack 2 0x4012
    (by decide +kernel) (by decide +kernel) (by decide +kernel) (by decide +kernel)
  exact ⟨_, s₂, hcall, h₁, hret, h₂, 
    resumes_iff hcall h₁ (returnState_regs 2 .rcx) (returnState_regs 2 .r11) hret h₂⟩

/-- A processor that reports no length with the exception: the program executes its SYSCALL
again. -/
theorem not_resumed_callerState :
    ∃ s₁ s₂, AtSyscall vmmVmxImage (callerState 0) ∧
      handleExceptionNmi vmmVmxImage quietEnv (callerState 0) = .ok s₁ ∧
      (returnState 0).regs .rcx = s₁.regs .rcx ∧ (returnState 0).regs .r11 = s₁.regs .r11 ∧
      (returnState 0).guestMsrs .star = s₁.guestMsrs .star ∧
      AtSysret vmmVmxImage (returnState 0) ∧
      handleExceptionNmi vmmVmxImage quietEnv (returnState 0) = .ok s₂ ∧
      s₂.vmcs.read guestRip = 0x4010#64 ∧ ¬Resumed (callerState 0) s₂ := by
  obtain ⟨hcall, hret, h₁, s₂, h₂, hrip⟩ := exists_thereAndBack 0 0x4010
    (by decide +kernel) (by decide +kernel) (by decide +kernel) (by decide +kernel)
  refine ⟨_, s₂, hcall, h₁, returnState_regs 0 .rcx, returnState_regs 0 .r11, rfl, hret, h₂, hrip,
    fun h => ?_⟩
  have hwrong := hrip.symm.trans h.rip
  revert hwrong
  decide +kernel

end Lvisor
