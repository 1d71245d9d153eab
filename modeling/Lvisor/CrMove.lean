import Lvisor.GuestView

/-!
# The source of a move to a control register

`handle_cr` takes the value of a MOV to CR0, CR3 or CR4 from `vcpu->regs`, by the number of the
register in the exit qualification. `vmx_vcpu_run` fills that array on an exit for every
register but RSP, whose value is in the VMCS.

* `crMoved_setCr` — the rest of the emulation: RIP advances, and besides the control register
  only LMA, the IA-32e-mode control, the type of TR and the blocking by STI and MOV SS change;
* `movesRegister_iff` — the value is that of the guest's register, unless the register is RSP.
-/

namespace Lvisor

open VmcsField

/-- The control registers that `handle_cr` emulates moves to, out of those that a MOV can name. -/
inductive MovCr where
  | cr0 | cr3 | cr4
  deriving DecidableEq, Repr

namespace MovCr

/-- The number of the register in the exit qualification. -/
def number : MovCr → BitVec 64
  | cr0 => 0
  | cr3 => 3
  | cr4 => 4

/-- The field of the VMCS that has the register. -/
def field : MovCr → VmcsField
  | cr0 => guestCr0
  | cr3 => guestCr3
  | cr4 => guestCr4

theorem field_ne (cr : MovCr) : guestRip ≠ cr.field ∧ guestInterruptibilityInfo ≠ cr.field ∧
    vmExitInstructionLen ≠ cr.field := by
  cases cr <;> simp [field]

/-- The bits that the VMM forces to 1 in the register. -/
def forced : MovCr → BitVec 64
  | cr0 => kvmGuestCr0AlwaysOn
  | cr3 => 0
  | cr4 => kvmGuestCr4AlwaysOn

end MovCr

/-- The exit is for a MOV of `reg` to `cr`: the access type, in bits 5:4, is 0. -/
structure MovesToCr (v : Vmcs) (cr : MovCr) (reg : KvmReg) : Prop where
  number : v.read exitQualification &&& 15#64 = cr.number
  type : (v.read exitQualification >>> 4) &&& 3#64 = 0#64
  source : KvmReg.ofIndex ((v.read exitQualification >>> 8).setWidth 4) = reg

instance (v : Vmcs) (cr : MovCr) (reg : KvmReg) : Decidable (MovesToCr v cr reg) :=
  decidable_of_iff (v.read exitQualification &&& 15#64 = cr.number ∧
      (v.read exitQualification >>> 4) &&& 3#64 = 0#64 ∧
      KvmReg.ofIndex ((v.read exitQualification >>> 8).setWidth 4) = reg)
    ⟨fun h => ⟨h.1, h.2.1, h.2.2⟩, fun h => ⟨h.number, h.type, h.source⟩⟩

/-- What the emulation of a MOV to `cr` may change, besides `cr` itself. -/
structure CrMoved (s s' : VmxState) (cr : MovCr) : Prop where
  /-- RIP advances by the length of the instruction -/
  rip : s'.vmcs.read guestRip =
    s.vmcs.read guestRip + (s.vmcs.read32 vmExitInstructionLen).setWidth 64
  /-- registers, memory, MSRs and everything else outside of the VMCS -/
  rest : s' = { s with vmcs := s'.vmcs }
  /-- the other fields -/
  fields : ∀ f, f ≠ cr.field → f ≠ guestRip → f ≠ guestInterruptibilityInfo →
    f ≠ guestIa32Efer → f ≠ vmEntryControls → f ≠ guestArBytes .tr →
    s'.vmcs.read f = s.vmcs.read f
  /-- blocking by STI and by MOV SS ends -/
  interruptibility : s'.vmcs.read32 guestInterruptibilityInfo =
    s.vmcs.read32 guestInterruptibilityInfo &&& ~~~0x3#32
  efer : s'.vmcs.read guestIa32Efer &&& ~~~eferLma = s.vmcs.read guestIa32Efer &&& ~~~eferLma
  entryControls : s'.vmcs.read32 vmEntryControls &&& ~~~vmEntryIa32eMode =
    s.vmcs.read32 vmEntryControls &&& ~~~vmEntryIa32eMode
  trType : s'.vmcs.read32 (guestArBytes .tr) &&& ~~~0xf#32 =
    s.vmcs.read32 (guestArBytes .tr) &&& ~~~0xf#32

/-! ## The fields of the mode -/

/-- Only LMA, the IA-32e-mode control and the type of TR differ, in the fields they are in. -/
structure LmodeFrame (v w : Vmcs) : Prop where
  efer : w.read guestIa32Efer &&& ~~~eferLma = v.read guestIa32Efer &&& ~~~eferLma
  entryControls : w.read32 vmEntryControls &&& ~~~vmEntryIa32eMode =
    v.read32 vmEntryControls &&& ~~~vmEntryIa32eMode
  trType : w.read32 (guestArBytes .tr) &&& ~~~0xf#32 = v.read32 (guestArBytes .tr) &&& ~~~0xf#32

namespace LmodeFrame

variable {u v w : Vmcs}

theorem refl (v : Vmcs) : LmodeFrame v v := ⟨rfl, rfl, rfl⟩

theorem trans (h : LmodeFrame u v) (h' : LmodeFrame v w) : LmodeFrame u w where
  efer := h'.efer.trans h.efer
  entryControls := h'.entryControls.trans h.entryControls
  trType := h'.trType.trans h.trType

theorem write {f : VmcsField} {x : BitVec 64} (hf : f ≠ guestIa32Efer) (he : f ≠ vmEntryControls)
    (ht : f ≠ guestArBytes .tr) : LmodeFrame v (v.write f x) where
  efer := by rw [Vmcs.read_write_ne hf.symm]
  entryControls := by rw [Vmcs.read32_write_ne he.symm]
  trType := by rw [Vmcs.read32_write_ne ht.symm]

/-- Setting bits of a mask is not seen outside of it. -/
theorem or_and_not {n : ℕ} (x m : BitVec n) : (x ||| m) &&& ~~~m = x &&& ~~~m :=
  or_and_of_disjoint (BitVec.and_not_self m)

theorem and_not_and_not {n : ℕ} (x m : BitVec n) : (x &&& ~~~m) &&& ~~~m = x &&& ~~~m := by
  rw [BitVec.and_assoc, BitVec.and_self]

theorem enterLmode (v : Vmcs) : LmodeFrame v (enterLmode v) where
  efer := by rw [enterLmode_efer, or_and_not]
  entryControls := by rw [enterLmode_entry, or_and_not]
  trType := by
    unfold Lvisor.enterLmode
    dsimp only
    split
    · have hmask : (11#32 : BitVec 32) &&& ~~~0xf#32 = 0#32 := by decide
      simp only [Vmcs.read32_write_of_width (f := guestArBytes .tr) rfl, Vmcs.read32_write_ne,
        ne_eq, reduceCtorEq, not_false_eq_true, BitVec.setWidth_setWidth_of_le, Nat.reduceLeDiff,
        BitVec.setWidth_eq]
      rw [BitVec.and_or_distrib_right, and_not_and_not, hmask, BitVec.or_zero]
    · simp

theorem exitLmode (v : Vmcs) : LmodeFrame v (exitLmode v) where
  efer := by rw [exitLmode_efer, and_not_and_not]
  entryControls := by rw [exitLmode_entry, and_not_and_not]
  trType := by simp [Lvisor.exitLmode]

theorem setCr0 (v : Vmcs) (cr0 : BitVec 64) : LmodeFrame v (vmxSetCr0 v cr0) := by
  unfold vmxSetCr0
  refine trans ?_ (write nofun nofun nofun)
  split
  · unfold switchLmode
    dsimp only
    split
    · split
      · exact (enterLmode v).trans (exitLmode _)
      · exact exitLmode v
    · split
      · exact enterLmode v
      · exact refl v
  · exact refl v

end LmodeFrame

section Move

variable {s : VmxState} {cr : MovCr} {reg : KvmReg}

/-- The VMCS with the register written, by the setter of that register. -/
def setCr (v : Vmcs) (val : BitVec 64) : MovCr → Vmcs
  | .cr0 => vmxSetCr0 v val
  | .cr3 => vmxSetCr3 v val
  | .cr4 => vmxSetCr4 v val

/-- `handle_cr` on a MOV sets the register and skips the instruction. -/
theorem handleCr_of_moves (h : MovesToCr s.vmcs cr reg) :
    handleCr s =
      .ok (vmxSkipEmulatedInstruction { s with vmcs := setCr s.vmcs (s.regs reg) cr }) := by
  unfold handleCr
  dsimp only
  rw [h.number, h.type, h.source]
  cases cr <;> rfl

theorem skip_rip (w : Vmcs) :
    (vmxSkipEmulatedInstruction { s with vmcs := w }).vmcs.read guestRip =
      w.read guestRip + (w.read32 vmExitInstructionLen).setWidth 64 := by
  simp [vmxSkipEmulatedInstruction, VmcsField.width]

theorem skip_interruptibility (w : Vmcs) :
    (vmxSkipEmulatedInstruction { s with vmcs := w }).vmcs.read32 guestInterruptibilityInfo =
      w.read32 guestInterruptibilityInfo &&& ~~~0x3#32 := by
  simp [vmxSkipEmulatedInstruction, VmcsField.width]

/-- What a write to a control register leaves: the value with the forced bits. -/
theorem setCr_read (v : Vmcs) (val : BitVec 64) (cr : MovCr) :
    (setCr v val cr).read cr.field = val ||| cr.forced := by
  cases cr with
  | cr0 => exact (vmxSetCr0_spec v val).1
  | cr3 => simp [setCr, vmxSetCr3, MovCr.field, MovCr.forced, VmcsField.width]
  | cr4 => simp [setCr, vmxSetCr4, MovCr.field, MovCr.forced, VmcsField.width]

theorem setCr_lmodeFrame (v : Vmcs) (val : BitVec 64) (cr : MovCr) :
    LmodeFrame v (setCr v val cr) := by
  cases cr with
  | cr0 => exact .setCr0 v val
  | cr3 => exact .write nofun nofun nofun
  | cr4 => exact .write nofun nofun nofun

/-- The other fields stay, but for those of the mode. -/
theorem setCr_read_ne (v : Vmcs) (val : BitVec 64) {f : VmcsField} (hf : f ≠ cr.field)
    (he : f ≠ guestIa32Efer) (hc : f ≠ vmEntryControls) (ht : f ≠ guestArBytes .tr) :
    (setCr v val cr).read f = v.read f := by
  cases cr with
  | cr0 => exact vmxSetCr0_read hf hc he ht
  | cr3 => exact Vmcs.read_write_ne hf
  | cr4 => exact Vmcs.read_write_ne hf

/-- **The rest of the emulation**, whatever the source. -/
theorem crMoved_setCr (s : VmxState) (val : BitVec 64) (cr : MovCr) :
    CrMoved s (vmxSkipEmulatedInstruction { s with vmcs := setCr s.vmcs val cr }) cr := by
  have hread : ∀ f, f ≠ cr.field → f ≠ guestIa32Efer → f ≠ vmEntryControls →
      f ≠ guestArBytes .tr → (setCr s.vmcs val cr).read f = s.vmcs.read f :=
    fun f => setCr_read_ne s.vmcs val
  have hframe := setCr_lmodeFrame s.vmcs val cr
  obtain ⟨hrip, hint, hlen⟩ := cr.field_ne
  constructor
  · rw [skip_rip, Vmcs.read32, hread _ hrip (by simp) (by simp) (by simp),
      hread _ hlen (by simp) (by simp) (by simp)]
    rfl
  · rfl
  · intro f hf hfrip hfint hfe hfc hft
    rw [skip_read hfrip hfint]
    exact hread f hf hfe hfc hft
  · rw [skip_interruptibility, Vmcs.read32, hread _ hint (by simp) (by simp) (by simp)]
    rfl
  · rw [skip_read (by simp) (by simp)]
    exact hframe.efer
  · rw [Vmcs.read32, skip_read (by simp) (by simp)]
    exact hframe.entryControls
  · rw [Vmcs.read32, skip_read (by simp) (by simp)]
    exact hframe.trType

/-- The emulation installs the value that the register has in the guest, apart from the forced
bits, and changes nothing else. -/
def MovesRegister (s : VmxState) (cr : MovCr) (reg : KvmReg) : Prop :=
  ∃ s', handleCr s = .ok s' ∧
    s'.vmcs.read cr.field &&& ~~~cr.forced = guestReg s reg &&& ~~~cr.forced ∧ CrMoved s s' cr

/-- **MOV to CR** installs the register of the guest exactly when the register is not RSP, or
the slot of RSP, which is never filled, has its value in the bits that count. -/
theorem movesRegister_iff (h : MovesToCr s.vmcs cr reg) :
    MovesRegister s cr reg ↔
      reg ≠ .rsp ∨ s.regs .rsp &&& ~~~cr.forced = s.vmcs.read guestRsp &&& ~~~cr.forced := by
  have hfield := cr.field_ne
  have hvalue : (vmxSkipEmulatedInstruction
      { s with vmcs := setCr s.vmcs (s.regs reg) cr }).vmcs.read cr.field &&& ~~~cr.forced =
      s.regs reg &&& ~~~cr.forced := by
    rw [skip_read hfield.1.symm hfield.2.1.symm, setCr_read, LmodeFrame.or_and_not]
  have hiff : MovesRegister s cr reg ↔
      s.regs reg &&& ~~~cr.forced = guestReg s reg &&& ~~~cr.forced := by
    rw [MovesRegister, handleCr_of_moves h]
    constructor
    · rintro ⟨s', hs', hval, -⟩
      obtain rfl := Except.ok.inj hs'
      exact hvalue.symm.trans hval
    · exact fun hval => ⟨_, rfl, hvalue.trans hval, crMoved_setCr s _ cr⟩
  rw [hiff, guestReg]
  by_cases hreg : reg = .rsp
  · subst hreg
    simp
  · simp [hreg]

/-- A guest that loads CR3 from `reg`. RSP holds 0x7000, every register of the array 0. -/
def movCr3State (reg : KvmReg) : VmxState :=
  { resetState with
    vmcs := Vmcs.zero.writeAll
      [(exitQualification, 0x3 ||| reg.index.setWidth 64 <<< 8), (vmExitInstructionLen, 3),
       (guestRsp, 0x7000)] }

theorem movesRegister_iff_movCr3State :
    MovesToCr (movCr3State .rbx).vmcs .cr3 .rbx ∧
      (MovesRegister (movCr3State .rbx) .cr3 .rbx ↔ KvmReg.rbx ≠ .rsp ∨
        (movCr3State .rbx).regs .rsp &&& ~~~MovCr.cr3.forced =
          (movCr3State .rbx).vmcs.read guestRsp &&& ~~~MovCr.cr3.forced) := by
  have h : MovesToCr (movCr3State .rbx).vmcs .cr3 .rbx := by decide +kernel
  exact ⟨h, movesRegister_iff h⟩

/-- MOV CR3, RSP loads 0. -/
theorem not_movesRegister_movCr3State :
    MovesToCr (movCr3State .rsp).vmcs .cr3 .rsp ∧
      guestReg (movCr3State .rsp) .rsp = 0x7000 ∧
      (∃ s', handleCr (movCr3State .rsp) = .ok s' ∧ s'.vmcs.read guestCr3 = 0) ∧
      ¬MovesRegister (movCr3State .rsp) .cr3 .rsp := by
  obtain ⟨s', hs', hcr3⟩ : ∃ s', handleCr (movCr3State .rsp) = .ok s' ∧
      decide (s'.vmcs.read guestCr3 = 0) = true := Exec.exists_of_any (by decide +kernel)
  have hcr3 : s'.vmcs.read guestCr3 = 0 := of_decide_eq_true hcr3
  have hrsp : guestReg (movCr3State .rsp) .rsp = 0x7000 := by decide +kernel
  refine ⟨by decide +kernel, hrsp, ⟨s', hs', hcr3⟩, ?_⟩
  rintro ⟨t, ht, hval, -⟩
  obtain rfl := Except.ok.inj (hs'.symm.trans ht)
  rw [hrsp, MovCr.field, hcr3] at hval
  exact absurd hval (by decide)

end Move

end Lvisor
