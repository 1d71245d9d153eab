import Lvisor.KvmLoop
import Lvisor.Syscall

/-!
# The guest's own view

What the guest wrote, beside what the VMM made of it: `GuestView` records the last values
that the guest itself wrote to CR0, CR4 and `EFER`, and `viewStep` carries it along with
the state.

* `reads_of_run` — the guest reads back what it last wrote to CR0 and CR4, with the bits
  that the VMM owns read as set: the read shadows show the bits as the VMM forces them.
* `syscallAllowed_iff` — `handle_exception_nmi` emulates a SYSCALL by its code bytes alone;
  it asks neither for the mode of the guest nor for the SCE that the guest wrote.
-/

namespace Lvisor

open VmcsField

/-! ## What the guest wrote

A history variable beside the state. The VMM does not keep it, and no step looks at it. -/

/-- The last values that the guest wrote; `none` before its first write. -/
structure GuestView where
  /-- to CR0 -/
  cr0 : Option (BitVec 64)
  /-- to CR4 -/
  cr4 : Option (BitVec 64)
  /-- to `MSR_EFER` -/
  efer : Option (BitVec 64)

/-- The number of the control register that an act moves to and the register it moves. An
exit for a control-register access tells both in its qualification. -/
def GuestAct.crMove : GuestAct → Option (BitVec 64 × KvmReg)
  | movToCr0 reg _ => some (0#64, reg)
  | movToCr3 reg _ => some (3#64, reg)
  | movToCr4 reg _ => some (4#64, reg)
  | exit x =>
    if x.reason = 28#32 then
      some (x.qualification &&& 15#64, KvmReg.ofIndex ((x.qualification >>> 8).setWidth 4))
    else none
  | _ => none

/-- The value that an act writes to the control register `cr`, if it does. -/
def GuestAct.written (cr : BitVec 64) (s : VmxState) (a : GuestAct) : Option (BitVec 64) :=
  match a.crMove with
  | some (c, reg) => if c = cr then some (guestReg s reg) else none
  | none => none

instance (s : VmxState) : (a : GuestAct) → Decidable (a.WritesEfer s)
  | .wrmsr _ => inferInstanceAs (Decidable (_ = _))
  | .exit _ => inferInstanceAs (Decidable (_ ∧ _))
  | .work _ | .movToCr0 _ _ | .movToCr3 _ _ | .movToCr4 _ _ | .rdmsr _ | .cpuid _ | .rdtsc _
  | .exception _ _ | .eptViolation _ => inferInstanceAs (Decidable False)

/-- The view after an act: what the guest last wrote to each of the registers. -/
def GuestView.next (v : GuestView) (s : VmxState) (a : GuestAct) : GuestView where
  cr0 := (a.written 0#64 s).or v.cr0
  cr4 := (a.written 4#64 s).or v.cr4
  efer := if a.WritesEfer s then some (kvmReadEdxEax s) else v.efer

/-- One step of the guest, with the view that it should have of its registers. -/
def viewStep (img : VmxImage) (sv : VmxState × GuestView) (e : GuestAct × ExitEnv) :
    Exec (VmxState × GuestView) := do
  let s ← guestStep img sv.1 e
  return (s, sv.2.next sv.1 e.1)

/-- The guest has written nothing yet. -/
def GuestView.init : GuestView := ⟨none, none, none⟩

theorem viewStep_eq_ok {img : VmxImage} {sv sv' : VmxState × GuestView}
    {e : GuestAct × ExitEnv} (h : viewStep img sv e = .ok sv') :
    guestStep img sv.1 e = .ok sv'.1 ∧ sv'.2 = sv.2.next sv.1 e.1 := by
  obtain ⟨s, hs, h⟩ := Exec.bind_eq_ok.mp h
  obtain rfl := Except.ok.inj h
  exact ⟨hs, rfl⟩

/-! ## Control registers

The read shadow shows the guest the bits that it has written, those that the VMM owns as the VMM
wants them. The invariant ties the shadow, the register and the last write together, bit by bit. -/

/-- MOV from CR0 or CR4: the bits of the mask come from the read shadow. -/
def crRead (mask shadow cr : BitVec 64) : BitVec 64 := (cr &&& ~~~mask) ||| (shadow &&& mask)

/-- MOV from CR0: the shadow where the mask is set, and the register elsewhere; ET is hard-wired
to 1. -/
def readCr0 (v : Vmcs) : BitVec 64 :=
  crRead (v.read cr0GuestHostMask) (v.read cr0ReadShadow) (v.read guestCr0) ||| x86Cr0Et

/-- MOV from CR4: the shadow where the mask is set, and the register elsewhere. -/
def readCr4 (v : Vmcs) : BitVec 64 :=
  crRead (v.read cr4GuestHostMask) (v.read cr4ReadShadow) (v.read guestCr4)

section ControlRegisters

variable {img : VmxImage} {env : ExitEnv} {s s' : VmxState} {x : ExitInfo} {a : GuestAct}

/-- What `handle_cr` writes, by the qualification of the exit. -/
theorem handleCr_cases (h : handleCr s = .ok s') :
    let q := s.vmcs.read exitQualification
    let val := s.regs (KvmReg.ofIndex ((q >>> 8).setWidth 4))
    (q &&& 15#64 = 0#64 ∧ s' = vmxSkipEmulatedInstruction { s with vmcs := vmxSetCr0 s.vmcs val }) ∨
      (q &&& 15#64 = 3#64 ∧
        s' = vmxSkipEmulatedInstruction { s with vmcs := vmxSetCr3 s.vmcs val }) ∨
      (q &&& 15#64 = 4#64 ∧
        s' = vmxSkipEmulatedInstruction { s with vmcs := vmxSetCr4 s.vmcs val }) := by
  unfold handleCr at h
  dsimp only at h ⊢
  split at h
  · split at h
    · rename_i hcr
      exact .inl ⟨hcr, (Except.ok.inj h).symm⟩
    · split at h
      · rename_i hcr
        exact .inr (.inl ⟨hcr, (Except.ok.inj h).symm⟩)
      · split at h
        · rename_i hcr
          exact .inr (.inr ⟨hcr, (Except.ok.inj h).symm⟩)
        · cases h
  · cases h

/-- `handle_cr` handles exits for the reason 28 only. -/
theorem reason_of_crAccess {r : BitVec 32} (h : vmxExitHandlers r = some .crAccess) :
    r = 28#32 := by
  unfold vmxExitHandlers at h
  split at h <;> try cases h
  exact BitVec.eq_of_toNat_eq ‹_›

/-- Handlers other than `handle_cr` leave CR0 and CR4 of the guest. -/
theorem vmxHandleExit_crs (hreason : s.vmcs.read32 vmExitReason ≠ 28#32)
    (h : vmxHandleExit img env s = .ok s') :
    s'.vmcs.read guestCr0 = s.vmcs.read guestCr0 ∧
      s'.vmcs.read guestCr4 = s.vmcs.read guestCr4 := by
  unfold vmxHandleExit at h
  dsimp only at h
  split at h
  · rename_i handler hhandler
    cases handler with
    | exceptionNmi =>
      have hmode := (handleExceptionNmi_frame h).2
      exact ⟨hmode.cr0, hmode.cr4⟩
    | cpuid =>
      obtain rfl := Except.ok.inj h
      exact ⟨kvmEmulateCpuid_frame.2.cr0, kvmEmulateCpuid_frame.2.cr4⟩
    | rdtsc =>
      obtain rfl := Except.ok.inj h
      exact ⟨handleRdtsc_frame.2.cr0, handleRdtsc_frame.2.cr4⟩
    | crAccess => exact absurd (reason_of_crAccess hhandler) hreason
    | msrRead => cases h
    | msrWrite =>
      obtain ⟨-, rfl⟩ | ⟨-, host, rfl⟩ := handleWrmsr_eq_ok h
      · have hmode := SameMode.skip_with s
          (s.vmcs.write guestIa32Efer (kvmReadEdxEax s &&& ~~~eferSce))
        exact ⟨hmode.cr0.trans (Vmcs.read_write_ne nofun),
          hmode.cr4.trans (Vmcs.read_write_ne nofun)⟩
      · have hmode := SameMode.skip { s with host }
        exact ⟨hmode.cr0, hmode.cr4⟩
    | eptViolation =>
      have hmode := (vmxHandleEptViolation_frame h).2
      exact ⟨hmode.cr0, hmode.cr4⟩
  · cases h

/-- CR0 and CR4 after an exit and its handling. -/
theorem exitWith_crs (h : exitWith img env s x = .ok s') :
    let val := s.regs (KvmReg.ofIndex ((x.qualification >>> 8).setWidth 4))
    s'.vmcs.read guestCr0 =
        (if x.reason = 28#32 ∧ x.qualification &&& 15#64 = 0#64 then val ||| kvmGuestCr0AlwaysOn
          else s.vmcs.read guestCr0) ∧
      s'.vmcs.read guestCr4 =
        (if x.reason = 28#32 ∧ x.qualification &&& 15#64 = 4#64 then val ||| kvmGuestCr4AlwaysOn
          else s.vmcs.read guestCr4) := by
  dsimp only
  have hrec := SameMode.recordExit s.vmcs x
  by_cases hreason : x.reason = 28#32
  · have hcr : handleCr { s with vmcs := s.vmcs.recordExit x } = .ok s' := by
      rw [← h, exitWith, vmxHandleExit]
      simp only [read32_recordExit_reason, hreason]
      rfl
    have hq : (s.vmcs.recordExit x).read exitQualification = x.qualification := by
      simp [Vmcs.recordExit, VmcsField.width]
    have hcases := handleCr_cases hcr
    simp only [hq] at hcases
    rcases hcases with ⟨hc, rfl⟩ | ⟨hc, rfl⟩ | ⟨hc, rfl⟩
    · have hskip := SameMode.skip_with s (vmxSetCr0 (s.vmcs.recordExit x)
        (s.regs (KvmReg.ofIndex ((x.qualification >>> 8).setWidth 4))))
      obtain ⟨hcr0, hcr4, -⟩ := vmxSetCr0_spec (s.vmcs.recordExit x)
        (s.regs (KvmReg.ofIndex ((x.qualification >>> 8).setWidth 4)))
      rw [hskip.cr0, hskip.cr4, hcr0, hcr4, hrec.cr4, hc]
      simp [hreason]
    · have hskip := SameMode.skip_with s (vmxSetCr3 (s.vmcs.recordExit x)
        (s.regs (KvmReg.ofIndex ((x.qualification >>> 8).setWidth 4))))
      rw [hskip.cr0, hskip.cr4, hc]
      simp [vmxSetCr3, hrec.cr0, hrec.cr4]
    · have hskip := SameMode.skip_with s (vmxSetCr4 (s.vmcs.recordExit x)
        (s.regs (KvmReg.ofIndex ((x.qualification >>> 8).setWidth 4))))
      rw [hskip.cr0, hskip.cr4, hc]
      simp [vmxSetCr4, hrec.cr0, hreason, VmcsField.width]
  · have hne : (s.vmcs.recordExit x).read32 vmExitReason ≠ 28#32 := by
      rw [read32_recordExit_reason]
      exact hreason
    obtain ⟨hcr0, hcr4⟩ := vmxHandleExit_crs (s := { s with vmcs := s.vmcs.recordExit x }) hne h
    rw [hcr0, hcr4, if_neg (fun hc => hreason hc.1), if_neg (fun hc => hreason hc.1)]
    exact ⟨hrec.cr0, hrec.cr4⟩

/-- The qualification of a MOV tells its registers and that it is a write. -/
theorem crExit_qualification {cr : BitVec 64} (hcr : cr ∈ [0#64, 3#64, 4#64]) (reg : KvmReg) :
    (cr ||| reg.index.setWidth 64 <<< 8) &&& 15#64 = cr ∧
      KvmReg.ofIndex (((cr ||| reg.index.setWidth 64 <<< 8) >>> 8).setWidth 4) = reg := by
  simp only [List.mem_cons, List.not_mem_nil, or_false] at hcr
  obtain rfl | rfl | rfl := hcr <;> cases reg <;> decide

/-- A write to an MSR that does not exit leaves CR0 and CR4. -/
theorem writeMsr_crs (msr : BitVec 32) (val : BitVec 64) :
    (writeMsr s msr val).vmcs.read guestCr0 = s.vmcs.read guestCr0 ∧
      (writeMsr s msr val).vmcs.read guestCr4 = s.vmcs.read guestCr4 := by
  by_cases hmsr : msr = msrEfer
  · subst hmsr
    exact ⟨Vmcs.read_write_ne nofun, Vmcs.read_write_ne nofun⟩
  · have hmode := writeMsr_sameMode (s := s) hmsr val
    exact ⟨hmode.cr0, hmode.cr4⟩

/-- A MOV to CR0 or CR4 that exits does not take its value from RSP, which `vmx_vcpu_run` does
not save. A MOV to CR3 may: it always exits here, and no read of CR0 or CR4 depends on it. -/
def NoRspExit (sv : VmxState × GuestView) (e : GuestAct × ExitEnv) : Prop :=
  ∀ cr ∈ [0#64, 4#64], e.1.crMove = some (cr, .rsp) → guestExit sv.1 e.1 = none

/-- The bits outside of the mask, after an exit for a move of `reg` to a control register. -/
theorem or_and_not_of_guestReg {reg : KvmReg} (hreg : reg ≠ .rsp) (m : BitVec 64) :
    (s.regs reg ||| m) &&& ~~~m = guestReg s reg &&& ~~~m := by
  rw [guestReg, if_neg hreg]
  exact or_and_of_disjoint (BitVec.and_not_self m)

theorem crMerge_and_not (m old val : BitVec 64) : crMerge m old val &&& ~~~m = val &&& ~~~m := by
  rw [crMerge, BitVec.or_comm, or_and_of_disjoint ?_, BitVec.and_assoc, BitVec.and_self]
  rw [BitVec.and_assoc, BitVec.and_not_self]
  exact BitVec.and_zero

/-- The value that an exit for a control-register access moves, and that an exit of another
kind does not. -/
theorem written_exit {cr : BitVec 64} :
    (GuestAct.exit x).written cr s =
      if x.reason = 28#32 ∧ x.qualification &&& 15#64 = cr then
        some (guestReg s (KvmReg.ofIndex ((x.qualification >>> 8).setWidth 4)))
      else none := by
  unfold GuestAct.written GuestAct.crMove
  by_cases hreason : x.reason = 28#32 <;> simp [hreason]

/-- The bits that are not the VMM's, after an exit: those of the value that the exit moved, or
the old ones. -/
theorem exitWith_crs_free (h : exitWith img env s x = .ok s')
    (hrsp : ∀ cr ∈ [0#64, 4#64], (GuestAct.exit x).crMove ≠ some (cr, .rsp)) :
    s'.vmcs.read guestCr0 &&& ~~~kvmGuestCr0AlwaysOn =
        ((GuestAct.exit x).written 0#64 s).getD (s.vmcs.read guestCr0) &&& ~~~kvmGuestCr0AlwaysOn ∧
      s'.vmcs.read guestCr4 &&& ~~~kvmGuestCr4AlwaysOn =
        ((GuestAct.exit x).written 4#64 s).getD (s.vmcs.read guestCr4) &&&
          ~~~kvmGuestCr4AlwaysOn := by
  obtain ⟨hcr0, hcr4⟩ := exitWith_crs h
  have hreg {cr : BitVec 64} (hcr : cr ∈ [0#64, 4#64])
      (hc : x.reason = 28#32 ∧ x.qualification &&& 15#64 = cr) :
      KvmReg.ofIndex ((x.qualification >>> 8).setWidth 4) ≠ .rsp := by
    intro heq
    refine hrsp cr hcr ?_
    rw [GuestAct.crMove, if_pos hc.1, hc.2, heq]
  rw [hcr0, hcr4, written_exit, written_exit]
  constructor
  · by_cases hc : x.reason = 28#32 ∧ x.qualification &&& 15#64 = 0#64
    · rw [if_pos hc, if_pos hc]
      exact or_and_not_of_guestReg (hreg (by decide) hc) _
    · rw [if_neg hc, if_neg hc]
      rfl
  · by_cases hc : x.reason = 28#32 ∧ x.qualification &&& 15#64 = 4#64
    · rw [if_pos hc, if_pos hc]
      exact or_and_not_of_guestReg (hreg (by decide) hc) _
    · rw [if_neg hc, if_neg hc]
      rfl

theorem crMove_crExit {cr : BitVec 64} (hcr : cr ∈ [0#64, 3#64, 4#64]) (reg : KvmReg)
    (len : BitVec 32) : (GuestAct.exit (crExit cr reg len)).crMove = some (cr, reg) := by
  obtain ⟨hc, hr⟩ := crExit_qualification hcr reg
  have hmove : (GuestAct.exit (crExit cr reg len)).crMove =
      some ((cr ||| reg.index.setWidth 64 <<< 8) &&& 15#64,
        KvmReg.ofIndex (((cr ||| reg.index.setWidth 64 <<< 8) >>> 8).setWidth 4)) := rfl
  rw [hmove, hc, hr]

/-- An act that ends in an exit moves what the exit tells. -/
theorem crMove_of_guestExit (hx : guestExit s a = some x) :
    (GuestAct.exit x).crMove = a.crMove := by
  cases a with
  | movToCr0 reg len | movToCr3 reg len | movToCr4 reg len =>
    simp only [guestExit, Option.ite_none_right_eq_some] at hx
    obtain rfl := Option.some.inj hx.2
    exact crMove_crExit (by decide) reg len
  | exit y =>
    obtain rfl := Option.some.inj hx
    rfl
  | work w => cases hx
  | cpuid len | eptViolation guestPhysical =>
    obtain rfl := Option.some.inj hx
    rfl
  | wrmsr len | rdmsr len | rdtsc len | exception vector len =>
    simp only [guestExit, Option.ite_none_right_eq_some] at hx
    obtain rfl := Option.some.inj hx.2
    rfl

/-- The same for a step of the guest, whether it exits or not. -/
theorem guestStep_crs_free (hg : Guarded s) (h : guestStep img s (a, env) = .ok s')
    (hrsp : ∀ cr ∈ [0#64, 4#64], a.crMove = some (cr, .rsp) → guestExit s a = none) :
    s'.vmcs.read guestCr0 &&& ~~~kvmGuestCr0AlwaysOn =
        (a.written 0#64 s).getD (s.vmcs.read guestCr0) &&& ~~~kvmGuestCr0AlwaysOn ∧
      s'.vmcs.read guestCr4 &&& ~~~kvmGuestCr4AlwaysOn =
        (a.written 4#64 s).getD (s.vmcs.read guestCr4) &&& ~~~kvmGuestCr4AlwaysOn := by
  unfold guestStep at h
  split at h
  · rename_i x hx
    have hmove := crMove_of_guestExit hx
    have hfree := exitWith_crs_free h fun cr hmem hcr => by
      rw [hmove] at hcr
      have hnone := hrsp cr hmem hcr
      rw [hx] at hnone
      cases hnone
    unfold GuestAct.written at hfree ⊢
    rw [hmove] at hfree
    exact hfree
  · rename_i hx
    obtain rfl := Except.ok.inj h
    cases a with
    | work w =>
      have h0 : (w.apply s).vmcs.read guestCr0 = s.vmcs.read guestCr0 := w.read_apply rfl
      have h4 : (w.apply s).vmcs.read guestCr4 = s.vmcs.read guestCr4 := w.read_apply rfl
      exact ⟨by rw [guestDirect, h0]; rfl, by rw [guestDirect, h4]; rfl⟩
    | movToCr0 reg len =>
      obtain ⟨hcr0, hcr4, -⟩ := movToCr0_spec s.vmcs (guestReg s reg)
      rw [guestDirect, hcr0, hcr4, hg.cr0Mask, crMerge_and_not]
      exact ⟨rfl, rfl⟩
    | movToCr3 reg len =>
      rw [guestDirect, Vmcs.read_write_ne (by decide), Vmcs.read_write_ne (by decide)]
      exact ⟨rfl, rfl⟩
    | movToCr4 reg len =>
      rw [guestDirect, movToCr4, Vmcs.read_write_ne (by decide), Vmcs.read_write_of_width rfl,
        hg.cr4Mask, crMerge_and_not]
      exact ⟨rfl, rfl⟩
    | wrmsr len =>
      obtain ⟨h0, h4⟩ := writeMsr_crs (s := s) ((s.regs .rcx).setWidth 32) (kvmReadEdxEax s)
      rw [guestDirect, h0, h4]
      exact ⟨rfl, rfl⟩
    | exit y => cases hx
    | _ => exact ⟨rfl, rfl⟩

/-- The view agrees with the registers on the bits that are the guest's own, and the shadows
show the others as set. -/
structure InView (sv : VmxState × GuestView) : Prop where
  guarded : Guarded sv.1
  cr0Shadow : sv.1.vmcs.read cr0ReadShadow = kvmGuestCr0AlwaysOn
  cr4Shadow : sv.1.vmcs.read cr4ReadShadow = kvmGuestCr4AlwaysOn
  cr0 : ∀ val, sv.2.cr0 = some val →
    sv.1.vmcs.read guestCr0 &&& ~~~kvmGuestCr0AlwaysOn = val &&& ~~~kvmGuestCr0AlwaysOn
  cr4 : ∀ val, sv.2.cr4 = some val →
    sv.1.vmcs.read guestCr4 &&& ~~~kvmGuestCr4AlwaysOn = val &&& ~~~kvmGuestCr4AlwaysOn

/-- What was written last is what is written now, or else what was written before. -/
theorem agree_next {m old cr val : BitVec 64} {now before : Option (BitVec 64)}
    (hcr : cr &&& m = now.getD old &&& m) (hold : ∀ v, before = some v → old &&& m = v &&& m)
    (hval : now.or before = some val) : cr &&& m = val &&& m := by
  cases now with
  | some v =>
    obtain rfl := Option.some.inj hval
    exact hcr
  | none => exact hcr.trans (hold val hval)

/-- **Step**: the view stays right, when no exiting MOV to CR0 or CR4 takes its value from RSP. -/
theorem InView.step {sv sv' : VmxState × GuestView} {e : GuestAct × ExitEnv} (hsv : InView sv)
    (he : NoRspExit sv e) (h : viewStep img sv e = .ok sv') : InView sv' := by
  obtain ⟨hstep, hview⟩ := viewStep_eq_ok h
  have hctl := guestStep_sameControls hstep
  obtain ⟨hcr0, hcr4⟩ := guestStep_crs_free hsv.guarded hstep he
  exact {
    guarded := hsv.guarded.step hstep
    cr0Shadow := by rw [hctl.read _ rfl]; exact hsv.cr0Shadow
    cr4Shadow := by rw [hctl.read _ rfl]; exact hsv.cr4Shadow
    cr0 := fun val hval => by
      rw [hview] at hval
      exact agree_next hcr0 hsv.cr0 hval
    cr4 := fun val hval => by
      rw [hview] at hval
      exact agree_next hcr4 hsv.cr4 hval }

/-- The guest reads its own bits, and those of the VMM as set. -/
theorem crRead_of_agree {m cr val : BitVec 64} (h : cr &&& ~~~m = val &&& ~~~m) :
    crRead m m cr = val ||| m := by
  rw [crRead, h, BitVec.and_self]
  ext i hi
  simp only [BitVec.getElem_or, BitVec.getElem_and, BitVec.getElem_not]
  cases val[i] <;> cases m[i] <;> rfl

theorem InView.readCr0 {sv : VmxState × GuestView} (hsv : InView sv) {val : BitVec 64}
    (hval : sv.2.cr0 = some val) :
    readCr0 sv.1.vmcs = val ||| kvmGuestCr0AlwaysOn ||| x86Cr0Et := by
  rw [Lvisor.readCr0, hsv.guarded.cr0Mask, hsv.cr0Shadow, crRead_of_agree (hsv.cr0 val hval)]

theorem InView.readCr4 {sv : VmxState × GuestView} (hsv : InView sv) {val : BitVec 64}
    (hval : sv.2.cr4 = some val) : readCr4 sv.1.vmcs = val ||| kvmGuestCr4AlwaysOn := by
  rw [Lvisor.readCr4, hsv.guarded.cr4Mask, hsv.cr4Shadow, crRead_of_agree (hsv.cr4 val hval)]

/-- The control registers of the reset, in the shadows. -/
theorem setupControlRegisters_shadows {w : Vmcs} (hefer : w.read guestIa32Efer = 0#64) :
    (setupControlRegisters w).read cr0ReadShadow = kvmGuestCr0AlwaysOn ∧
      (setupControlRegisters w).read cr4ReadShadow = kvmGuestCr4AlwaysOn := by
  unfold setupControlRegisters
  dsimp only
  rw [vmxSetCr0_of_not_lme (by simp [hefer]), vmxSetCr4]
  simp [VmcsField.width]

end ControlRegisters

/-- The state in which `kvm_loop` starts, from the zeroed data of the image. -/
def Booted (img : VmxImage) (s₀ s : VmxState) : Prop :=
  s₀.vmcs = Vmcs.zero ∧ ∃ s₁ s₂ startIp, vmxHardwareSetup s₀ = .ok s₁ ∧
    createVcpu img s₁ = .ok s₂ ∧ s = runVcpu s₂ startIp

section Boot

variable {img : VmxImage} {s₀ s : VmxState}

theorem Booted.guarded (h : Booted img s₀ s) : Guarded s := by
  obtain ⟨hzero, s₁, s₂, startIp, hhw, hcreate, rfl⟩ := h
  exact .of_createVcpu hzero hhw hcreate startIp

/-- The shadows that `vmx_vcpu_setup` writes: the bits that are always on. -/
theorem Booted.shadows (h : Booted img s₀ s) :
    s.vmcs.read cr0ReadShadow = kvmGuestCr0AlwaysOn ∧
      s.vmcs.read cr4ReadShadow = kvmGuestCr4AlwaysOn := by
  obtain ⟨hzero, s₁, s₂, startIp, hhw, hcreate, rfl⟩ := h
  obtain ⟨config, cap, bm, rfl, -⟩ := vmxHardwareSetup_eq_ok hhw
  obtain ⟨host, s₃, hsetup, rfl⟩ := createVcpu_eq_ok hcreate
  have hctl := runVcpu_sameControls img s₃ startIp
  obtain ⟨w, hostMsrs, rfl, hefer, -⟩ := vmxVcpuSetup_eq_ok hsetup
  rw [hzero, Vmcs.read_zero] at hefer
  rw [hctl.read _ rfl, hctl.read _ rfl]
  exact setupControlRegisters_shadows hefer

theorem InView.of_booted (h : Booted img s₀ s) : InView (s, GuestView.init) where
  guarded := h.guarded
  cr0Shadow := h.shadows.1
  cr4Shadow := h.shadows.2
  cr0 := nofun
  cr4 := nofun

/-- **Reads**: in every state that the guest reaches, it reads from CR0 and CR4 what it last
wrote there, with the bits of the VMM (and ET) read as set; moves from RSP to these two that exit
apart. -/
theorem reads_of_run {sv : VmxState × GuestView} {acts : List (GuestAct × ExitEnv)}
    (hboot : Booted img s₀ s) (hacts : Along (viewStep img) NoRspExit (s, GuestView.init) acts)
    (h : runSteps (viewStep img) (s, GuestView.init) acts = .ok sv) :
    (∀ val, sv.2.cr0 = some val →
        readCr0 sv.1.vmcs = val ||| (x86Cr0Wp ||| x86Cr0Ne) ||| x86Cr0Et) ∧
      ∀ val, sv.2.cr4 = some val → readCr4 sv.1.vmcs = val ||| x86Cr4Vmxe := by
  have hsv : InView sv :=
    runSteps_invariant_along (fun _ _ _ hsv he h => hsv.step he h) (.of_booted hboot) hacts h
  exact ⟨fun _ hval => hsv.readCr0 hval, fun _ hval => hsv.readCr4 hval⟩

end Boot

/-- What a computation from the start of a guest at 0xf0000 evaluates to. -/
theorem exists_booted (s₀ : VmxState) (hzero : s₀.vmcs = Vmcs.zero) {σ : Type}
    {f : VmxState → Exec σ} {p : σ → Bool}
    (h : (do
      let s₁ ← vmxHardwareSetup s₀
      let s₂ ← createVcpu vmmVmxImage s₁
      f (runVcpu s₂ 0xf0000#32)).toOption.any p = true) :
    ∃ s a, Booted vmmVmxImage s₀ s ∧ f s = .ok a ∧ p a = true := by
  obtain ⟨a, ha, hp⟩ := Exec.exists_of_any h
  obtain ⟨s₁, hhw, ha⟩ := Exec.bind_eq_ok.mp ha
  obtain ⟨s₂, hcreate, ha⟩ := Exec.bind_eq_ok.mp ha
  exact ⟨_, a, ⟨hzero, s₁, s₂, _, hhw, hcreate, rfl⟩, ha, hp⟩

/-- A guest that enables protected mode with the CR0 it found on its reset: NE and WP clear. -/
def plainCr0Acts : List (GuestAct × ExitEnv) :=
  [(.work (loadMsr 0 0x60000011#64), quietEnv), (.movToCr0 .rax 3, quietEnv)]

theorem reads_of_run_plainCr0Acts :
    ∃ s sv, Booted vmmVmxImage resetState s ∧
      Along (viewStep vmmVmxImage) NoRspExit (s, GuestView.init) plainCr0Acts ∧
      runSteps (viewStep vmmVmxImage) (s, GuestView.init) plainCr0Acts = .ok sv ∧
      sv.2.cr0 = some 0x60000011#64 ∧
      readCr0 sv.1.vmcs = 0x60000011#64 ||| (x86Cr0Wp ||| x86Cr0Ne) ||| x86Cr0Et := by
  obtain ⟨s, sv, hboot, hrun, hview⟩ := exists_booted resetState rfl
    (f := fun s => runSteps (viewStep vmmVmxImage) (s, GuestView.init) plainCr0Acts)
    (p := fun sv => sv.2.cr0 = some 0x60000011#64) (by decide +kernel)
  have hview := of_decide_eq_true hview
  have hacts : Along (viewStep vmmVmxImage) NoRspExit (s, GuestView.init) plainCr0Acts :=
    ⟨fun _ _ h => (by cases h), fun _ _ => ⟨fun _ _ h => (by cases h), fun _ _ => trivial⟩⟩
  exact ⟨s, sv, hboot, hacts, hrun, hview, (reads_of_run hboot hacts hrun).1 _ hview⟩

/-- The guest reads back a CR0 with WP and NE, which it did not write. -/
theorem not_reads_plainCr0Acts :
    ∃ s sv, Booted vmmVmxImage resetState s ∧
      runSteps (viewStep vmmVmxImage) (s, GuestView.init) plainCr0Acts = .ok sv ∧
      sv.2.cr0 = some 0x60000011#64 ∧ readCr0 sv.1.vmcs ≠ 0x60000011#64 ||| x86Cr0Et := by
  obtain ⟨s, sv, hboot, hrun, hview⟩ := exists_booted resetState rfl
    (f := fun s => runSteps (viewStep vmmVmxImage) (s, GuestView.init) plainCr0Acts)
    (p := fun sv => sv.2.cr0 = some 0x60000011#64 ∧
      readCr0 sv.1.vmcs ≠ 0x60000011#64 ||| x86Cr0Et) (by decide +kernel)
  have hview := of_decide_eq_true hview
  exact ⟨s, sv, hboot, hrun, hview.1, hview.2⟩

/-! ## When SYSCALL is emulated

The processor would allow SYSCALL in 64-bit mode with SCE set. The handler looks at the exception
and at the bytes at RIP, and at neither of the two. -/

/-- The guest could execute SYSCALL: it is in 64-bit mode and has set SCE. -/
def CanSyscall (sv : VmxState × GuestView) : Prop :=
  flag (sv.1.vmcs.read guestIa32Efer) eferLma = true ∧
    (rightsOf (sv.1.vmcs.read32 (guestArBytes .cs))).l = true ∧
    sv.2.efer.any (fun w => flag w eferSce) = true

instance (sv : VmxState × GuestView) : Decidable (CanSyscall sv) :=
  inferInstanceAs (Decidable (_ ∧ _ ∧ _))

/-- The step ends in `handle_exception_nmi`, and this in `handle_syscall`. -/
def EmulatesSyscall (img : VmxImage) (s : VmxState) (e : GuestAct × ExitEnv) : Prop :=
  ∃ x, guestExit s e.1 = some x ∧ vmxExitHandlers x.reason = some .exceptionNmi ∧
    handleExceptionNmi img e.2 { s with vmcs := s.vmcs.recordExit x } =
      .ok (handleSyscall e.2 { s with vmcs := s.vmcs.recordExit x })

/-- The step is an invalid-opcode exit while the bytes at the guest's RIP are those of a
SYSCALL. -/
def UdAtSyscall (img : VmxImage) (s : VmxState) (a : GuestAct) : Prop :=
  ∃ x, guestExit s a = some x ∧ vmxExitHandlers x.reason = some .exceptionNmi ∧
    IsUd (s.vmcs.recordExit x) ∧ AtSyscall img s

section Emulation

variable {img : VmxImage} {env : ExitEnv} {s : VmxState} {a : GuestAct} {x : ExitInfo}

/-- An exit does not move the guest's code, nor what the tables say of it. -/
theorem atSyscall_recordExit :
    AtSyscall img { s with vmcs := s.vmcs.recordExit x } ↔ AtSyscall img s := by
  have hrip : (s.vmcs.recordExit x).read guestRip = s.vmcs.read guestRip := by
    simp [Vmcs.recordExit]
  have hgva : gva2hva img { s with vmcs := s.vmcs.recordExit x } (s.vmcs.read guestRip) =
      gva2hva img s (s.vmcs.read guestRip) := by
    have hcr3 : (s.vmcs.recordExit x).read guestCr3 = s.vmcs.read guestCr3 := by
      simp [Vmcs.recordExit]
    have hept : (s.vmcs.recordExit x).read eptPointer = s.vmcs.read eptPointer := by
      simp [Vmcs.recordExit]
    unfold gva2hva
    rw [hcr3, hept]
    rfl
  unfold AtSyscall
  rw [hrip, hgva]
  rfl

/-- The two emulations differ: SYSCALL loads a stack segment of the kernel. -/
theorem handleSyscall_ne_handleSysret : handleSyscall env s ≠ handleSysret env s := by
  intro heq
  have hcall : SegmentIs (handleSyscall env s).vmcs .ss _ _ := handleSyscall_ss
  have hret : SysretDone s (handleSysret env s) := handleSysret_done
  have hrights := hcall.rights.symm.trans (heq ▸ hret.ss.rights)
  cases hrights

/-- `handle_syscall` is reached by the code bytes alone. -/
theorem emulatesSyscall_iff : EmulatesSyscall img s (a, env) ↔ UdAtSyscall img s a := by
  refine exists_congr fun x => and_congr_right fun _ => and_congr_right fun _ => ?_
  rw [handleExceptionNmi_eq_ok]
  refine and_congr_right fun _ => ?_
  rw [← atSyscall_recordExit (x := x)]
  refine exists_congr fun p => and_congr_right fun _ => ?_
  constructor
  · rintro (⟨hcall, -⟩ | ⟨-, heq⟩)
    · exact hcall
    · exact absurd heq handleSyscall_ne_handleSysret
  · exact fun hcall => .inl ⟨hcall, rfl⟩

end Emulation

/-- **SYSCALL where it is none**: in every run, the VMM emulates only the SYSCALLs that the
guest could execute, exactly when every invalid-opcode exit of the run at the bytes of a
SYSCALL happens in 64-bit mode, after the guest has set SCE. -/
theorem syscallAllowed_iff (img : VmxImage) (sv₀ : VmxState × GuestView)
    (acts : List (GuestAct × ExitEnv)) :
    (∀ acts' e sv, acts' ++ [e] <+: acts → runSteps (viewStep img) sv₀ acts' = .ok sv →
        EmulatesSyscall img sv.1 e → CanSyscall sv) ↔
      Along (viewStep img) (fun sv e => UdAtSyscall img sv.1 e.1 → CanSyscall sv) sv₀ acts := by
  rw [along_iff]
  refine forall_congr' fun acts' => forall_congr' fun e => forall_congr' fun sv => ?_
  refine imp_congr_right fun _ => imp_congr_right fun _ => ?_
  rw [show EmulatesSyscall img sv.1 e ↔ UdAtSyscall img sv.1 e.1 from emulatesSyscall_iff]

/-- A guest that has only just started, in real mode, with the bytes of a SYSCALL at its RIP.
What is at 0 happens to be a page table that maps them. -/
def realModeWork : GuestWork where
  regs _ := 0
  cr2 := 0
  fields f := if f = guestRip then 0x4010 else 0
  mem p :=
    match p.toNat with
    | 0x0000 => 0x07
    | 0x0001 => 0x20
    | 0x2000 => 0x87
    | 0x4010 => 0x0f
    | 0x4011 => 0x05
    | _ => 0

/-- The exits that lead there: the first access to the first frame. -/
def realModeActs : List (GuestAct × ExitEnv) :=
  [(.eptViolation 0, quietEnv), (.work realModeWork, quietEnv)]

theorem emulatesSyscall_realModeActs :
    ∃ s sv, Booted vmmVmxImage resetState s ∧
      runSteps (viewStep vmmVmxImage) (s, GuestView.init) realModeActs = .ok sv ∧
      isRealMode sv.1.vmcs = true ∧
      EmulatesSyscall vmmVmxImage sv.1 (.exception 6 2, quietEnv) ∧ ¬CanSyscall sv := by
  obtain ⟨s, sv, hboot, hrun, h⟩ := exists_booted resetState rfl
    (f := fun s => runSteps (viewStep vmmVmxImage) (s, GuestView.init) realModeActs)
    (p := fun sv => isRealMode sv.1.vmcs = true ∧ ¬CanSyscall sv ∧
      ((guestExit sv.1 (.exception 6 2)).any fun x =>
        vmxExitHandlers x.reason = some .exceptionNmi ∧ IsUd (sv.1.vmcs.recordExit x)) = true ∧
      ((gva2hva vmmVmxImage sv.1 (sv.1.vmcs.read guestRip)).toOption.any fun p =>
        SyscallAt vmmVmxImage sv.1 p) = true) (by decide +kernel)
  obtain ⟨hreal, hcan, hexit, hat⟩ := of_decide_eq_true h
  obtain ⟨p, hp, hcall⟩ := Exec.exists_of_any hat
  obtain ⟨x, hx, hud⟩ := (Option.any_eq_true _ _).mp hexit
  obtain ⟨hhandler, hud⟩ := of_decide_eq_true hud
  exact ⟨s, sv, hboot, hrun, hreal, emulatesSyscall_iff.mpr
    ⟨x, hx, hhandler, hud, p, hp, of_decide_eq_true hcall⟩, hcan⟩

end Lvisor
