import Lvisor.Guest
import Lvisor.Lib.Run

/-!
# The mode of the guest, over whole runs

Two results about the control registers and `EFER` of the guest, for every run from the
VMCS that `vmx_vcpu_setup` leaves.

* `vmmBits_of_run` — the bits that the VMM owns stay as it wants them: CR0.WP, CR0.NE
  and CR4.VMXE set, EFER.SCE clear. The inductive invariant is `Guarded`.
* `longMode_iff_keeps` — the consistency requirements of `vmx.c` on EFER.LMA hold in
  every state of a run exactly when no WRMSR to `EFER` in it changes LMA, nor LME while
  paging is on; `handle_wrmsr` does not look at either.

Both go through `guestStep_mode`, which says what a step can do to the mode.
-/

namespace Lvisor

open VmcsField

/-! ## What setup leaves

The functions of the setup run once and in a fixed order. What later invariants need of them is
collected here, with no more than a field or a control word in each lemma. -/

section Setup

variable {img : VmxImage} {s s' : VmxState} {v : Vmcs}

/-- Without `EFER.LME` only CR0 is written, whatever happens to paging. -/
theorem vmxSetCr0_of_not_lme (h : v.read guestIa32Efer &&& eferLme = 0#64) (cr0 : BitVec 64) :
    vmxSetCr0 v cr0 = v.write guestCr0 (cr0 ||| kvmGuestCr0AlwaysOn) := by
  rw [vmxSetCr0, if_neg (not_not_intro h)]

/-- A bit that is put is read back. -/
theorem bitmapTest_of_putBit {on : Bool} {nr addr : ℕ} {bm bm' : MsrBitmap}
    (h : putBit on nr addr bm = .ok bm') : bitmapTest bm' nr addr = on := by
  unfold putBit store at h
  dsimp only at h
  split at h
  · rename_i hlt
    obtain rfl := Except.ok.inj h
    have hget (x : BitVec 64) :
        (bm.set (addr + nr / 64) x hlt).getD (addr + nr / 64) 0#64 = x := by
      simp [Vector.getD, hlt]
    have hmod : nr % 64 < 64 := Nat.mod_lt _ (by decide)
    rw [bitmapTest, hget]
    cases on <;> simp [hmod]
  · cases h

/-- `MSR_EFER` is number 0x80 of the high range. -/
theorem bitmapTest_of_setMsrInterception {read write : Bool} {bm bm' : MsrBitmap}
    (h : setMsrInterception bm msrEfer read write = .ok bm') :
    bitmapTest bm' 0x80 (0xc00 / 8) = write := by
  have h' : (putBit read 0x80 (0x400 / 8) bm >>= putBit write 0x80 (0xc00 / 8)) = .ok bm' := h
  obtain ⟨bm₁, -, h₂⟩ := Exec.bind_eq_ok.mp h'
  exact bitmapTest_of_putBit h₂

/-- `vmx_hardware_setup` intercepts writes to `EFER`, which it does last. -/
theorem vmxHardwareSetup_eq_ok (h : vmxHardwareSetup s = .ok s') :
    ∃ vmcsConfig vmxCapability msrBitmap,
      s' = { s with vmcsConfig, vmxCapability, msrBitmap } ∧
      setupVmcsConfig s.host.msrs = .ok (vmcsConfig, vmxCapability) ∧
      bitmapTest msrBitmap 0x80 (0xc00 / 8) = true := by
  unfold vmxHardwareSetup at h
  obtain ⟨⟨config, cap⟩, hconfig, h⟩ := Exec.bind_eq_ok.mp h
  dsimp only at h
  rw [panicIf_bind_eq_ok, panicIf_bind_eq_ok] at h
  simp only [Exec.bind_eq_ok] at h
  obtain ⟨-, -, bm₁, -, bm₂, -, bm₃, -, bm₄, hefer, h⟩ := h
  exact ⟨config, cap, bm₄, (Except.ok.inj h).symm, hconfig,
    bitmapTest_of_setMsrInterception hefer⟩

/-- The VMCS after `vmx_vcpu_setup`, up to the control registers. -/
theorem vmxVcpuSetup_eq_ok (h : vmxVcpuSetup img s = .ok s') :
    ∃ (w : Vmcs) (hostMsrs : SavedMsr → BitVec 64),
      s' = { s with vmcs := setupControlRegisters w, hostMsrs } ∧
      w.read guestIa32Efer = s.vmcs.read guestIa32Efer ∧
      w.read32 vmEntryControls = s.vmcsConfig.vmentryCtrl ∧
      w.read32 exceptionBitmap = 0x4040#32 := by
  unfold vmxVcpuSetup at h
  rw [bugOn_bind_eq_ok, Exec.bind_eq_ok] at h
  obtain ⟨-, trBase, -, h⟩ := h
  -- no field of the host or of the guest is one of the three
  have hkeep : ∀ f ∈ [guestIa32Efer, vmEntryControls, exceptionBitmap], ∀ v : Vmcs,
      ((v.writeAll (setupHost img s.vmcsConfig s.host trBase)).writeAll setupGuest).read f =
        v.read f := by
    intro f hf v
    have hguest : f ∉ setupGuest.map Prod.fst := by
      revert f
      decide
    have hhost : f ∉ (setupHost img s.vmcsConfig s.host trBase).map Prod.fst := by
      clear hguest
      revert f
      simp [setupHost]
    rw [Vmcs.read_writeAll_of_notMem hguest, Vmcs.read_writeAll_of_notMem hhost]
  obtain rfl := Except.ok.inj h
  refine ⟨_, _, rfl, ?_, ?_, ?_⟩
  · rw [hkeep _ (by simp)]
    exact Vmcs.read_writeAll_of_notMem (by simp [setupControls])
  · rw [Vmcs.read32, hkeep _ (by simp), Vmcs.read_writeAll_of_last (n := 6) rfl]
    · simp [VmcsField.width]
    · simp [setupControls]
  · rw [Vmcs.read32, hkeep _ (by simp), Vmcs.read_writeAll_of_last (n := 7) rfl]
    · rfl
    · simp [setupControls]

/-- `create_vcpu` enables VMX on the processor and adds the EPT to what `vmx_vcpu_setup` does. -/
theorem createVcpu_eq_ok (h : createVcpu img s = .ok s') :
    ∃ host s₁, vmxVcpuSetup img { s with host } = .ok s₁ ∧
      s' = { s₁ with vmcs := vmxSetTdp s₁.vmcs img.eptPml4, eptHandler := true } := by
  unfold createVcpu at h
  obtain ⟨s₁, henable, h₁⟩ := Exec.bind_eq_ok.mp h
  obtain ⟨s₂, hsetup, h₂⟩ := Exec.bind_eq_ok.mp h₁
  unfold vmxVcpuEnable at henable
  obtain rfl := Except.ok.inj (panicIf_bind_eq_ok.mp henable).2
  exact ⟨_, s₂, hsetup, (Except.ok.inj h₂).symm⟩

end Setup

/-! ## What a step can do to the mode

Of all that a step may do, only three things touch the mode: a MOV to CR0, a MOV to CR4 and a
WRMSR to `EFER`. Each is one call of a setter of `vmx.c` or a write of the bits that the guest
owns. -/

/-- An act writes an MSR: it is a WRMSR, or an exit for the reason of one. -/
def GuestAct.WritesMsr (msr : BitVec 32) (s : VmxState) : GuestAct → Prop
  | wrmsr _ => (s.regs .rcx).setWidth 32 = msr
  | exit x => x.reason = 32#32 ∧ (s.regs .rcx).setWidth 32 = msr
  | _ => False

/-- An act writes `EFER`: it is a WRMSR, or an exit for the reason of one. -/
def GuestAct.WritesEfer (s : VmxState) : GuestAct → Prop
  | wrmsr _ => (s.regs .rcx).setWidth 32 = msrEfer
  | exit x => x.reason = 32#32 ∧ (s.regs .rcx).setWidth 32 = msrEfer
  | _ => False

/-- How the mode of the guest may change from the VMCS `v` of state `s` to `w`: not at all,
or by one write, to a VMCS `u` of the same mode. -/
inductive ModeStep (s : VmxState) (a : GuestAct) (w : Vmcs) : Prop where
  /-- not at all -/
  | same (h : SameMode s.vmcs w)
  /-- `handle_cr` of CR0 -/
  | setCr0 (u : Vmcs) (val : BitVec 64) (hu : SameMode s.vmcs u) (h : SameMode (vmxSetCr0 u val) w)
  /-- `handle_cr` of CR4 -/
  | setCr4 (u : Vmcs) (val : BitVec 64) (hu : SameMode s.vmcs u) (h : SameMode (vmxSetCr4 u val) w)
  /-- a MOV to CR0 that does not exit -/
  | movCr0 (val : BitVec 64) (h : SameMode (movToCr0 s.vmcs val) w)
  /-- a MOV to CR4 that does not exit -/
  | movCr4 (val : BitVec 64) (h : SameMode (movToCr4 s.vmcs val) w)
  /-- `handle_wrmsr` of `EFER` -/
  | setEfer (u : Vmcs) (ha : a.WritesEfer s) (hu : SameMode s.vmcs u)
      (h : SameMode (u.write guestIa32Efer (kvmReadEdxEax s &&& ~~~eferSce)) w)
  /-- a WRMSR of `EFER` that does not exit -/
  | movEfer (hexit : wrmsrExits s msrEfer = false)

/-- The fields that control the guest and that neither it nor a handler writes. -/
def VmcsField.isStatic : VmcsField → Bool
  | cr0GuestHostMask | cr4GuestHostMask | cr0ReadShadow | cr4ReadShadow
  | cpuBasedVmExecControl | exceptionBitmap => true
  | _ => false

/-- The static fields and the MSR bitmap are as before. -/
structure SameControls (s s' : VmxState) : Prop where
  read : ∀ f : VmcsField, f.isStatic = true → s'.vmcs.read f = s.vmcs.read f
  msrBitmap : s'.msrBitmap = s.msrBitmap

theorem SameControls.trans {s₁ s₂ s₃ : VmxState} (h : SameControls s₁ s₂)
    (h' : SameControls s₂ s₃) : SameControls s₁ s₃ :=
  ⟨fun f hf => (h'.read f hf).trans (h.read f hf), h'.msrBitmap.trans h.msrBitmap⟩

section Steps

variable {img : VmxImage} {env : ExitEnv} {s s' : VmxState} {a : GuestAct} {x : ExitInfo}

theorem VmcsField.ne_of_isStatic {f g : VmcsField} (hf : f.isStatic = true)
    (hg : g.isStatic = false) : f ≠ g := by
  rintro rfl
  rw [hf] at hg
  cases hg

theorem VmcsField.exitWrites_of_isStatic {f : VmcsField} (hf : f.isStatic = true) :
    f.exitWrites = false := by
  cases f <;> first | rfl | cases hf

theorem VmcsField.guestOwned_of_isStatic {f : VmcsField} (hf : f.isStatic = true) :
    f.guestOwned = false := by
  cases f <;> first | rfl | cases hf

theorem SameMode.recordExit (v : Vmcs) (x : ExitInfo) : SameMode v (v.recordExit x) :=
  (SameMode.write (f := vmExitReason) nofun nofun nofun nofun).trans <|
    (SameMode.write (f := exitQualification) nofun nofun nofun nofun).trans <|
    (SameMode.write (f := vmExitIntrInfo) nofun nofun nofun nofun).trans <|
    (SameMode.write (f := guestPhysicalAddress) nofun nofun nofun nofun).trans <|
    SameMode.write (f := vmExitInstructionLen) nofun nofun nofun nofun

/-- An exit records its reason in the VMCS. -/
theorem read32_recordExit_reason (v : Vmcs) (x : ExitInfo) :
    (v.recordExit x).read32 vmExitReason = x.reason := by
  simp [Vmcs.recordExit, VmcsField.width]

/-- The handling of an exit leaves the controls, for each handler. -/
theorem vmxHandleExit_sameControls (h : vmxHandleExit img env s = .ok s') : SameControls s s' :=
  ⟨fun f hf => (vmxHandleExit_frame h).read f (exitWrites_of_isStatic hf),
    (vmxHandleExit_frame h).msrBitmap⟩

/-- The exit itself leaves them, too. -/
theorem recordExit_sameControls (s : VmxState) (x : ExitInfo) :
    SameControls s { s with vmcs := s.vmcs.recordExit x } := by
  refine ⟨fun f hf => ?_, rfl⟩
  rw [Vmcs.recordExit,
    Vmcs.read_write_ne (ne_of_isStatic hf rfl), Vmcs.read_write_ne (ne_of_isStatic hf rfl),
    Vmcs.read_write_ne (ne_of_isStatic hf rfl), Vmcs.read_write_ne (ne_of_isStatic hf rfl),
    Vmcs.read_write_ne (ne_of_isStatic hf rfl)]

/-- The mode after an exit and its handling, by what the handler does to it. -/
theorem exitWith_mode (h : exitWith img env s x = .ok s')
    (ha : x.reason = 32#32 → (s.regs .rcx).setWidth 32 = msrEfer → a.WritesEfer s) :
    ModeStep s a s'.vmcs := by
  have hrec := SameMode.recordExit s.vmcs x
  rcases vmxHandleExit_mode h with h | ⟨val, h⟩ | ⟨val, h⟩ | ⟨hreason, hmsr, h⟩
  · exact .same (hrec.trans h)
  · exact .setCr0 _ val hrec h
  · exact .setCr4 _ val hrec h
  · rw [read32_recordExit_reason] at hreason
    exact .setEfer _ (ha hreason hmsr) hrec h

/-- A field that is not the guest's own stays while the guest works. -/
theorem GuestWork.read_apply (w : GuestWork) {f : VmcsField} (hf : f.guestOwned = false) :
    (w.apply s).vmcs.read f = s.vmcs.read f := by
  simp [GuestWork.apply, Vmcs.read, hf]

theorem sameControls_write {f : VmcsField} {y : BitVec 64} (hf : f.isStatic = false) :
    SameControls s { s with vmcs := s.vmcs.write f y } :=
  ⟨fun _ hg => Vmcs.read_write_ne (ne_of_isStatic hg hf), rfl⟩

/-- The fields that hold MSRs of the guest: `EFER` is the only one of the mode. -/
theorem msrField_eq_some {msr : BitVec 32} {f : VmcsField} (h : msrField msr = some f) :
    f.isStatic = false ∧
      (msr ≠ msrEfer → guestCr0 ≠ f ∧ guestCr4 ≠ f ∧ guestIa32Efer ≠ f ∧ vmEntryControls ≠ f) := by
  unfold msrField at h
  split at h
  · rename_i hmsr
    obtain rfl := Option.some.inj h
    exact ⟨rfl, fun hne => absurd hmsr hne⟩
  · repeat' split at h
    all_goals cases h
    all_goals exact ⟨rfl, fun _ => ⟨nofun, nofun, nofun, nofun⟩⟩

theorem writeMsr_sameControls (msr : BitVec 32) (val : BitVec 64) :
    SameControls s (writeMsr s msr val) := by
  unfold writeMsr
  split
  · rename_i hf
    exact sameControls_write (msrField_eq_some hf).1
  · exact ⟨fun _ _ => rfl, rfl⟩
  · exact ⟨fun _ _ => rfl, rfl⟩

/-- A write that does not exit to another MSR than `EFER` leaves the mode. -/
theorem writeMsr_sameMode {msr : BitVec 32} (hmsr : msr ≠ msrEfer) (val : BitVec 64) :
    SameMode s.vmcs (writeMsr s msr val).vmcs := by
  unfold writeMsr
  split
  · rename_i hf
    obtain ⟨h0, h4, he, hc⟩ := (msrField_eq_some hf).2 hmsr
    exact SameMode.write h0 h4 he hc
  · exact ⟨rfl, rfl, rfl, rfl⟩
  · exact ⟨rfl, rfl, rfl, rfl⟩

theorem guestDirect_sameControls (a : GuestAct) : SameControls s (guestDirect s a) := by
  cases a with
  | work w => exact ⟨fun f hf => w.read_apply (guestOwned_of_isStatic hf), rfl⟩
  | movToCr0 reg len =>
    refine ⟨fun f hf => ?_, rfl⟩
    rw [guestDirect, movToCr0, Vmcs.read_write_ne (ne_of_isStatic hf rfl),
      Vmcs.read_write_ne (ne_of_isStatic hf rfl), Vmcs.read_write_ne (ne_of_isStatic hf rfl)]
  | movToCr3 reg len => exact sameControls_write rfl
  | movToCr4 reg len => exact sameControls_write rfl
  | wrmsr len => exact writeMsr_sameControls _ _
  | _ => exact ⟨fun _ _ => rfl, rfl⟩

/-- **Controls stay**: no step of the guest changes a mask, a shadow or the MSR bitmap. -/
theorem guestStep_sameControls (h : guestStep img s (a, env) = .ok s') : SameControls s s' := by
  unfold guestStep at h
  split at h
  · exact (recordExit_sameControls s _).trans (vmxHandleExit_sameControls h)
  · obtain rfl := Except.ok.inj h
    exact guestDirect_sameControls a

/-- What exits for the reason of a WRMSR writes the MSR in ECX. -/
theorem writesMsr_of_exit (hx : guestExit s a = some x) (hreason : x.reason = 32#32) :
    a.WritesMsr ((s.regs .rcx).setWidth 32) s := by
  cases a with
  | wrmsr len => exact rfl
  | exit y =>
    obtain rfl := Option.some.inj hx
    exact ⟨hreason, rfl⟩
  | work w => cases hx
  | cpuid len | eptViolation guestPhysical =>
    obtain rfl := Option.some.inj hx
    cases hreason
  | movToCr0 reg len | movToCr3 reg len | movToCr4 reg len | rdmsr len | rdtsc len
  | exception vector len =>
    simp only [guestExit, Option.ite_none_right_eq_some] at hx
    obtain rfl := Option.some.inj hx.2
    cases hreason

theorem writesEfer_of_exit (hx : guestExit s a = some x) (hreason : x.reason = 32#32)
    (hmsr : (s.regs .rcx).setWidth 32 = msrEfer) : a.WritesEfer s := by
  have h := writesMsr_of_exit hx hreason
  rw [hmsr] at h
  exact h

/-- The mode after an act that does not exit. -/
theorem guestDirect_mode (hx : guestExit s a = none) : ModeStep s a (guestDirect s a).vmcs := by
  cases a with
  | work w => exact .same ⟨w.read_apply rfl, w.read_apply rfl, w.read_apply rfl, w.read_apply rfl⟩
  | movToCr0 reg len => exact .movCr0 _ ⟨rfl, rfl, rfl, rfl⟩
  | movToCr3 reg len => exact .same (SameMode.write nofun nofun nofun nofun)
  | movToCr4 reg len => exact .movCr4 _ ⟨rfl, rfl, rfl, rfl⟩
  | wrmsr len =>
    by_cases hmsr : (s.regs .rcx).setWidth 32 = msrEfer
    · simp only [guestExit, hmsr] at hx
      exact .movEfer (by simpa using hx)
    · exact .same (writeMsr_sameMode hmsr _)
  | _ => exact .same ⟨rfl, rfl, rfl, rfl⟩

/-- **Mode steps**: what a step of the guest can do to its mode. -/
theorem guestStep_mode (h : guestStep img s (a, env) = .ok s') : ModeStep s a s'.vmcs := by
  unfold guestStep at h
  split at h
  · rename_i x hx
    exact exitWith_mode h fun hreason hmsr => writesEfer_of_exit hx hreason hmsr
  · rename_i hx
    obtain rfl := Except.ok.inj h
    exact guestDirect_mode hx

end Steps

/-! ## Bits owned by the VMM

The invariant has the bits themselves and what protects them: the masks, the read shadows and the
bits of the MSR bitmap. It holds after the setup, and any step keeps it. -/

/-- CR0.WP, CR0.NE and CR4.VMXE are set and EFER.SCE is clear. -/
structure VmmBits (v : Vmcs) : Prop where
  cr0 : v.read guestCr0 &&& kvmGuestCr0AlwaysOn = kvmGuestCr0AlwaysOn
  cr4 : v.read guestCr4 &&& kvmGuestCr4AlwaysOn = kvmGuestCr4AlwaysOn
  efer : v.read guestIa32Efer &&& eferSce = 0#64

/-- The inductive invariant: the bits, the masks that keep the guest from them, the bit of
the MSR bitmap that intercepts writes to `EFER` (number 0x80 of the write-high bitmap),
and the one of the exception bitmap that intercepts invalid opcodes. -/
structure Guarded (s : VmxState) : Prop where
  bits : VmmBits s.vmcs
  cr0Mask : s.vmcs.read cr0GuestHostMask = kvmGuestCr0AlwaysOn
  cr4Mask : s.vmcs.read cr4GuestHostMask = kvmGuestCr4AlwaysOn
  efer : bitmapTest s.msrBitmap 0x80 (0xc00 / 8) = true
  ud : (s.vmcs.read32 exceptionBitmap).getLsbD 6 = true

namespace VmmBits

variable {v w : Vmcs}

theorem of_sameMode (hv : VmmBits v) (h : SameMode v w) : VmmBits w where
  cr0 := by rw [h.cr0]; exact hv.cr0
  cr4 := by rw [h.cr4]; exact hv.cr4
  efer := by rw [h.efer]; exact hv.efer

/-- `vmx_set_cr0` sets WP and NE whatever the guest asked for. -/
theorem vmxSetCr0 (hv : VmmBits v) (val : BitVec 64) : VmmBits (vmxSetCr0 v val) := by
  obtain ⟨hcr0, hcr4, hmode⟩ := vmxSetCr0_spec v val
  refine ⟨by rw [hcr0, or_and_self], by rw [hcr4]; exact hv.cr4, ?_⟩
  rcases hmode with ⟨-, -, -, hefer, -⟩ | ⟨-, -, -, hefer, -⟩ | ⟨-, hefer, -⟩
  · rw [hefer, or_and_of_disjoint (by decide)]
    exact hv.efer
  · rw [hefer, and_not_and_of_disjoint (by decide)]
    exact hv.efer
  · rw [hefer]
    exact hv.efer

/-- `vmx_set_cr4` sets VMXE whatever the guest asked for. -/
theorem vmxSetCr4 (hv : VmmBits v) (val : BitVec 64) : VmmBits (vmxSetCr4 v val) where
  cr0 := by simpa [Lvisor.vmxSetCr4] using hv.cr0
  cr4 := by rw [Lvisor.vmxSetCr4, Vmcs.read_write_of_width rfl, or_and_self]
  efer := by simpa [Lvisor.vmxSetCr4] using hv.efer

/-- `handle_wrmsr` clears SCE whatever the guest asked for. -/
theorem setEfer (hv : VmmBits v) (val : BitVec 64) :
    VmmBits (v.write guestIa32Efer (val &&& ~~~eferSce)) where
  cr0 := by simpa using hv.cr0
  cr4 := by simpa using hv.cr4
  efer := by rw [Vmcs.read_write_of_width rfl, and_not_and_self]

/-- A MOV to CR0 that does not exit leaves the bits of the mask. -/
theorem movToCr0 (hv : VmmBits v) (hmask : v.read cr0GuestHostMask = kvmGuestCr0AlwaysOn)
    (val : BitVec 64) : VmmBits (movToCr0 v val) := by
  obtain ⟨hcr0, hcr4, hefer, -⟩ := movToCr0_spec v val
  refine ⟨?_, by rw [hcr4]; exact hv.cr4, ?_⟩
  · rw [hcr0, crMerge, hmask, merge_and]
    exact hv.cr0
  · rw [hefer, ← flag_eq_false, flag_putFlag_of_disjoint (by decide), flag_eq_false]
    exact hv.efer

/-- A MOV to CR4 that does not exit leaves the bits of the mask. -/
theorem movToCr4 (hv : VmmBits v) (hmask : v.read cr4GuestHostMask = kvmGuestCr4AlwaysOn)
    (val : BitVec 64) : VmmBits (movToCr4 v val) where
  cr0 := by simpa [Lvisor.movToCr4] using hv.cr0
  cr4 := by
    rw [Lvisor.movToCr4, Vmcs.read_write_of_width rfl, crMerge, hmask, merge_and]
    exact hv.cr4
  efer := by simpa [Lvisor.movToCr4] using hv.efer

end VmmBits

section Guarded

variable {img : VmxImage} {env : ExitEnv} {s s₀ s₁ s₂ s' : VmxState} {a : GuestAct}

/-- Writes to `EFER` exit, by the bitmap of the invariant. -/
theorem Guarded.wrmsrExits (hs : Guarded s) : wrmsrExits s msrEfer = true := by
  have h : bitmapExits s.msrBitmap (0x800 / 8) (0xc00 / 8) msrEfer = true := hs.efer
  rw [Lvisor.wrmsrExits, h, Bool.or_true]

/-- The invariant is about the mode and the controls only. -/
theorem Guarded.congr (hs : Guarded s) (hbits : VmmBits s'.vmcs) (hctl : SameControls s s') :
    Guarded s' where
  bits := hbits
  cr0Mask := by rw [hctl.read _ rfl]; exact hs.cr0Mask
  cr4Mask := by rw [hctl.read _ rfl]; exact hs.cr4Mask
  efer := by rw [hctl.msrBitmap]; exact hs.efer
  ud := by rw [Vmcs.read32, hctl.read _ rfl]; exact hs.ud

/-- The bits after any change of the mode that a step can make. -/
theorem Guarded.bits_of_modeStep {w : Vmcs} (hs : Guarded s) (h : ModeStep s a w) : VmmBits w := by
  cases h with
  | same h => exact hs.bits.of_sameMode h
  | setCr0 u val hu h => exact ((hs.bits.of_sameMode hu).vmxSetCr0 val).of_sameMode h
  | setCr4 u val hu h => exact ((hs.bits.of_sameMode hu).vmxSetCr4 val).of_sameMode h
  | movCr0 val h => exact (hs.bits.movToCr0 hs.cr0Mask val).of_sameMode h
  | movCr4 val h => exact (hs.bits.movToCr4 hs.cr4Mask val).of_sameMode h
  | setEfer u _ hu h => exact ((hs.bits.of_sameMode hu).setEfer _).of_sameMode h
  | movEfer hexit =>
    rw [hs.wrmsrExits] at hexit
    cases hexit

/-- **Step**: every step of the guest keeps the invariant. -/
theorem Guarded.step (hs : Guarded s) (h : guestStep img s (a, env) = .ok s') : Guarded s' :=
  hs.congr (hs.bits_of_modeStep (guestStep_mode h)) (guestStep_sameControls h)

/-- An act that does not exit keeps the invariant, too. -/
theorem Guarded.direct (hs : Guarded s) (hx : guestExit s a = none) : Guarded (guestDirect s a) :=
  hs.congr (hs.bits_of_modeStep (guestDirect_mode hx)) (guestDirect_sameControls a)

/-- The handling of an exit keeps the invariant, whatever the exit fields say. -/
theorem Guarded.handleExit (hs : Guarded s) (h : vmxHandleExit img env s = .ok s') :
    Guarded s' := by
  refine hs.congr ?_ (vmxHandleExit_sameControls h)
  rcases vmxHandleExit_mode h with h | ⟨val, h⟩ | ⟨val, h⟩ | ⟨-, -, h⟩
  · exact hs.bits.of_sameMode h
  · exact (hs.bits.vmxSetCr0 val).of_sameMode h
  · exact (hs.bits.vmxSetCr4 val).of_sameMode h
  · exact (hs.bits.setEfer _).of_sameMode h

/-- The control registers that `vmx_vcpu_setup` sets, on a VMCS with `EFER` zero. -/
theorem setupControlRegisters_spec {w : Vmcs} (hefer : w.read guestIa32Efer = 0#64) :
    (setupControlRegisters w).read guestCr0 =
        (x86Cr0Nw ||| x86Cr0Cd ||| x86Cr0Et) ||| kvmGuestCr0AlwaysOn ∧
      (setupControlRegisters w).read guestCr4 = 0 ||| kvmGuestCr4AlwaysOn ∧
      (setupControlRegisters w).read guestIa32Efer = 0#64 ∧
      (setupControlRegisters w).read32 vmEntryControls = w.read32 vmEntryControls ∧
      (setupControlRegisters w).read32 exceptionBitmap = w.read32 exceptionBitmap ∧
      (setupControlRegisters w).read cr0GuestHostMask = kvmGuestCr0AlwaysOn ∧
      (setupControlRegisters w).read cr4GuestHostMask = kvmGuestCr4AlwaysOn := by
  unfold setupControlRegisters
  dsimp only
  rw [vmxSetCr0_of_not_lme (by simp [hefer]), vmxSetCr4]
  simp [hefer, VmcsField.width]

/-- `vmx_vcpu_setup` establishes the invariant, from a VMCS with `EFER` zero and an MSR
bitmap that intercepts writes to it. -/
theorem Guarded.of_vcpuSetup (hsetup : vmxVcpuSetup img s₁ = .ok s₂)
    (hefer : s₁.vmcs.read guestIa32Efer = 0#64)
    (hbitmap : bitmapTest s₁.msrBitmap 0x80 (0xc00 / 8) = true) : Guarded s₂ := by
  obtain ⟨w, hostMsrs, rfl, hwefer, -, hexc⟩ := vmxVcpuSetup_eq_ok hsetup
  obtain ⟨hcr0, hcr4, hefer', -, hexc', hm0, hm4⟩ :=
    setupControlRegisters_spec (hwefer.trans hefer)
  exact {
    bits := ⟨by rw [hcr0, or_and_self], by rw [hcr4, or_and_self], by rw [hefer', BitVec.zero_and]⟩
    cr0Mask := hm0
    cr4Mask := hm4
    efer := hbitmap
    ud := by rw [hexc', hexc]; decide }

/-- **Start**: what setup leaves satisfies the invariant. -/
theorem Guarded.of_setup (hzero : s₀.vmcs = Vmcs.zero) (hhw : vmxHardwareSetup s₀ = .ok s₁)
    (hsetup : vmxVcpuSetup img s₁ = .ok s₂) : Guarded s₂ := by
  obtain ⟨config, cap, bm, rfl, -, hbitmap⟩ := vmxHardwareSetup_eq_ok hhw
  exact .of_vcpuSetup hsetup (by rw [hzero, Vmcs.read_zero]) hbitmap

/-- **Run**: the invariant holds along every run from a state where it does. -/
theorem Guarded.run (hs : Guarded s) {acts : List (GuestAct × ExitEnv)}
    (h : runSteps (guestStep img) s acts = .ok s') : Guarded s' :=
  runSteps_invariant (fun _ _ _ hs h => hs.step h) hs h

/-- **The VMM keeps its bits**: after setup, and whatever an adversarial guest does, CR0 has
WP and NE, CR4 has VMXE and EFER lacks SCE; the invalid-opcode exception that SYSCALL and
SYSRET then raise exits to `handle_exception_nmi`. -/
theorem vmmBits_of_run (hzero : s₀.vmcs = Vmcs.zero) (hhw : vmxHardwareSetup s₀ = .ok s₁)
    (hsetup : vmxVcpuSetup img s₁ = .ok s₂) {acts : List (GuestAct × ExitEnv)}
    (hrun : runSteps (guestStep img) s₂ acts = .ok s) :
    s.vmcs.read guestCr0 &&& (x86Cr0Wp ||| x86Cr0Ne) = x86Cr0Wp ||| x86Cr0Ne ∧
      s.vmcs.read guestCr4 &&& x86Cr4Vmxe = x86Cr4Vmxe ∧
      s.vmcs.read guestIa32Efer &&& eferSce = 0#64 ∧
      ∀ len, ∃ x, guestExit s (.exception 6 len) = some x ∧
        vmxExitHandlers x.reason = some .exceptionNmi ∧ IsUd (s.vmcs.recordExit x) := by
  have hs : Guarded s := (Guarded.of_setup hzero hhw hsetup).run hrun
  refine ⟨hs.bits.cr0, hs.bits.cr4, hs.bits.efer, fun len => ?_⟩
  refine ⟨_, if_pos hs.ud, rfl, ?_⟩
  simp [IsUd, Vmcs.recordExit, VmcsField.width]

end Guarded

/-- A run from reset that evaluates to a state with a decidable property. -/
theorem exists_guestRun {acts : List (GuestAct × ExitEnv)} {p : VmxState → Bool}
    (h : (do
      let s₁ ← vmxHardwareSetup resetState
      let s₂ ← vmxVcpuSetup vmmVmxImage s₁
      runSteps (guestStep vmmVmxImage) s₂ acts).toOption.any p = true) :
    ∃ s₁ s₂ s, vmxHardwareSetup resetState = .ok s₁ ∧ vmxVcpuSetup vmmVmxImage s₁ = .ok s₂ ∧
      runSteps (guestStep vmmVmxImage) s₂ acts = .ok s ∧ p s = true := by
  obtain ⟨s, hs, hp⟩ := Exec.exists_of_any h
  obtain ⟨s₁, hhw, hs⟩ := Exec.bind_eq_ok.mp hs
  obtain ⟨s₂, hsetup, hrun⟩ := Exec.bind_eq_ok.mp hs
  exact ⟨s₁, s₂, s, hhw, hsetup, hrun, hp⟩

/-- A guest that asks for SCE, for long mode, and for CR0 and CR4 without the bits of the
VMM. -/
def hostileActs : List (GuestAct × ExitEnv) :=
  [(.work (loadMsr msrEfer 0x501#64), quietEnv), (.wrmsr 2, quietEnv),
    (.movToCr0 .rax 3, quietEnv), (.movToCr4 .rbx 3, quietEnv)]

theorem vmmBits_of_run_hostileActs :
    ∃ s₁ s₂ s, vmxHardwareSetup resetState = .ok s₁ ∧ vmxVcpuSetup vmmVmxImage s₁ = .ok s₂ ∧
      runSteps (guestStep vmmVmxImage) s₂ hostileActs = .ok s ∧
      s.vmcs.read guestIa32Efer = 0x500#64 ∧
      s.vmcs.read guestCr0 &&& (x86Cr0Wp ||| x86Cr0Ne) = x86Cr0Wp ||| x86Cr0Ne := by
  obtain ⟨s₁, s₂, s, hhw, hsetup, hrun, hefer⟩ : ∃ s₁ s₂ s, vmxHardwareSetup resetState = .ok s₁ ∧
      vmxVcpuSetup vmmVmxImage s₁ = .ok s₂ ∧
      runSteps (guestStep vmmVmxImage) s₂ hostileActs = .ok s ∧
      decide (s.vmcs.read guestIa32Efer = 0x500#64) = true := exists_guestRun (by decide +kernel)
  exact ⟨s₁, s₂, s, hhw, hsetup, hrun, of_decide_eq_true hefer,
    (vmmBits_of_run rfl hhw hsetup hrun).1⟩

/-! ## Long mode

LMA is to be set just when LME and paging are. The setters of CR0 keep this up, and the handler
of WRMSR stores what the guest gives, so that only such a write can break it. -/

/-- The consistency requirements of `vmx.c`: `EFER.LMA` is the IA-32e-mode bit of the entry
controls, and it is `CR0.PG` and `EFER.LME`. -/
def LongModeConsistent (v : Vmcs) : Prop :=
  flag (v.read guestIa32Efer) eferLma = flag (v.read32 vmEntryControls) vmEntryIa32eMode ∧
    flag (v.read guestIa32Efer) eferLma =
      (flag (v.read guestCr0) x86Cr0Pg && flag (v.read guestIa32Efer) eferLme)

instance (v : Vmcs) : Decidable (LongModeConsistent v) :=
  inferInstanceAs (Decidable (_ ∧ _))

/-- A WRMSR to `EFER` keeps LMA and, while paging is on, LME. -/
def KeepsLongMode (s : VmxState) (e : GuestAct × ExitEnv) : Prop :=
  e.1.WritesEfer s →
    flag (kvmReadEdxEax s) eferLma = flag (s.vmcs.read guestIa32Efer) eferLma ∧
      (flag (s.vmcs.read guestCr0) x86Cr0Pg = true →
        flag (kvmReadEdxEax s) eferLme = flag (s.vmcs.read guestIa32Efer) eferLme)

namespace LongModeConsistent

variable {v w : Vmcs}

theorem of_sameMode (hv : LongModeConsistent v) (h : SameMode v w) : LongModeConsistent w := by
  unfold LongModeConsistent Vmcs.read32 at hv ⊢
  rw [h.cr0, h.efer, h.entry]
  exact hv

/-- `vmx_set_cr0` keeps the requirements: that is what `enter_lmode` and `exit_lmode` are
for. -/
theorem vmxSetCr0 (hv : LongModeConsistent v) (val : BitVec 64) :
    LongModeConsistent (vmxSetCr0 v val) := by
  obtain ⟨hcr0, -, hmode⟩ := vmxSetCr0_spec v val
  have hpg : flag (val ||| kvmGuestCr0AlwaysOn) x86Cr0Pg = flag val x86Cr0Pg :=
    flag_or_of_disjoint (by decide)
  unfold LongModeConsistent at hv ⊢
  rw [hcr0, hpg]
  rcases hmode with ⟨hlme, -, hnew, hefer, hentry⟩ | ⟨-, -, hnew, hefer, hentry⟩ |
    ⟨hsame, hefer, hentry⟩
  · -- LMA and the control are both set
    rw [hefer, hentry, flag_or_self _ (by decide), flag_or_self _ (by decide),
      flag_or_of_disjoint (by decide), hlme, hnew]
    exact ⟨rfl, rfl⟩
  · -- LMA and the control are both cleared
    rw [hefer, hentry, flag_and_not_self, flag_and_not_self, hnew]
    exact ⟨rfl, rfl⟩
  · rw [hefer, hentry]
    refine ⟨hv.1, hv.2.trans ?_⟩
    cases hlme : flag (v.read guestIa32Efer) eferLme with
    | false => rw [Bool.and_false, Bool.and_false]
    | true => rw [hsame hlme]

theorem vmxSetCr4 (hv : LongModeConsistent v) (val : BitVec 64) :
    LongModeConsistent (vmxSetCr4 v val) := by
  simpa [LongModeConsistent, Lvisor.vmxSetCr4] using hv

theorem movToCr4 (hv : LongModeConsistent v) (val : BitVec 64) :
    LongModeConsistent (movToCr4 v val) := by
  simpa [LongModeConsistent, Lvisor.movToCr4] using hv

/-- The processor keeps the requirements by itself, when a move to CR0 does not exit. -/
theorem movToCr0 (v : Vmcs) (val : BitVec 64) : LongModeConsistent (movToCr0 v val) := by
  obtain ⟨hcr0, -, hefer, hentry⟩ := movToCr0_spec v val
  unfold LongModeConsistent
  rw [hcr0, hefer, hentry, flag_putFlag _ (by decide), flag_putFlag _ (by decide),
    flag_putFlag_of_disjoint (by decide)]
  exact ⟨rfl, rfl⟩

/-- A write to `EFER` keeps the requirements exactly when it keeps LMA and, while paging is
on, LME. -/
theorem setEfer_iff (hv : LongModeConsistent v) (val : BitVec 64) :
    LongModeConsistent (v.write guestIa32Efer (val &&& ~~~eferSce)) ↔
      flag val eferLma = flag (v.read guestIa32Efer) eferLma ∧
        (flag (v.read guestCr0) x86Cr0Pg = true →
          flag val eferLme = flag (v.read guestIa32Efer) eferLme) := by
  obtain ⟨hentry, hpg⟩ := hv
  have hlma : flag (val &&& ~~~eferSce) eferLma = flag val eferLma :=
    flag_and_not_of_disjoint (by decide)
  have hlme : flag (val &&& ~~~eferSce) eferLme = flag val eferLme :=
    flag_and_not_of_disjoint (by decide)
  unfold LongModeConsistent
  rw [Vmcs.read_write_of_width rfl, Vmcs.read_write_ne (show guestCr0 ≠ guestIa32Efer by decide),
    Vmcs.read32_write_ne (show vmEntryControls ≠ guestIa32Efer by decide), hlma, hlme, ← hentry]
  refine and_congr_right fun hkeep => ?_
  rw [hkeep, hpg]
  cases flag (v.read guestCr0) x86Cr0Pg with
  | false => simp
  | true => simp [eq_comm]

end LongModeConsistent

section LongMode

variable {img : VmxImage} {env : ExitEnv} {s s₀ s₁ s₂ s' : VmxState} {a : GuestAct}

/-- What writes `EFER` exits for the reason of a WRMSR. -/
theorem Guarded.exit_of_writesEfer (hs : Guarded s) (ha : a.WritesEfer s) :
    (s.regs .rcx).setWidth 32 = msrEfer ∧ ∃ x, guestExit s a = some x ∧ x.reason = 32#32 := by
  cases a with
  | wrmsr len =>
    have hmsr : (s.regs .rcx).setWidth 32 = msrEfer := ha
    refine ⟨hmsr, { reason := 32, instructionLen := len }, ?_, rfl⟩
    simp only [guestExit, hmsr, hs.wrmsrExits, if_true]
  | exit x => exact ⟨ha.2, x, rfl, ha.1⟩
  | _ => cases ha

/-- A WRMSR to `EFER` exits, and its handler returns. -/
theorem Guarded.step_efer (img : VmxImage) (env : ExitEnv) (hs : Guarded s)
    (ha : a.WritesEfer s) :
    ∃ u s', guestStep img s (a, env) = .ok s' ∧ SameMode s.vmcs u ∧
      SameMode (u.write guestIa32Efer (kvmReadEdxEax s &&& ~~~eferSce)) s'.vmcs := by
  obtain ⟨hmsr, x, hexit, hreason⟩ := hs.exit_of_writesEfer ha
  have hstep : guestStep img s (a, env) = .ok (vmxSkipEmulatedInstruction
      { s with vmcs :=
        (s.vmcs.recordExit x).write guestIa32Efer (kvmReadEdxEax s &&& ~~~eferSce) }) := by
    simp only [guestStep, hexit, exitWith, vmxHandleExit, read32_recordExit_reason, hreason]
    exact handleWrmsr_efer hmsr
  exact ⟨_, _, hstep, SameMode.recordExit s.vmcs x, SameMode.skip_with s _⟩

/-- **Step**: from a consistent state, a step leads to a consistent one exactly when it keeps
LMA and LME as far as it must. -/
theorem LongModeConsistent.step_iff (hg : Guarded s) (hs : LongModeConsistent s.vmcs)
    (h : guestStep img s (a, env) = .ok s') :
    LongModeConsistent s'.vmcs ↔ KeepsLongMode s (a, env) := by
  by_cases ha : a.WritesEfer s
  · obtain ⟨u, s'', hstep, hu, hefer⟩ := hg.step_efer img env ha
    obtain rfl := Except.ok.inj (h.symm.trans hstep)
    have hcons : LongModeConsistent s'.vmcs ↔
        LongModeConsistent (u.write guestIa32Efer (kvmReadEdxEax s &&& ~~~eferSce)) :=
      ⟨fun hc => hc.of_sameMode hefer.symm, fun hc => hc.of_sameMode hefer⟩
    rw [hcons, (hs.of_sameMode hu).setEfer_iff, hu.cr0, hu.efer]
    exact ⟨fun hk _ => hk, fun hk => hk ha⟩
  · refine iff_of_true ?_ (fun hw => absurd hw ha)
    cases guestStep_mode h with
    | same h => exact hs.of_sameMode h
    | setCr0 u val hu h => exact ((hs.of_sameMode hu).vmxSetCr0 val).of_sameMode h
    | setCr4 u val hu h => exact ((hs.of_sameMode hu).vmxSetCr4 val).of_sameMode h
    | movCr0 val h => exact (LongModeConsistent.movToCr0 _ val).of_sameMode h
    | movCr4 val h => exact (hs.movToCr4 val).of_sameMode h
    | setEfer u hw hu h => exact absurd hw ha
    | movEfer hexit =>
      rw [hg.wrmsrExits] at hexit
      cases hexit

/-- The entry controls are those asked for and those the processor imposes. -/
theorem setupVmcsConfig_entry {rdmsr : BitVec 32 → BitVec 64} {c : VmcsConfig}
    {cap : VmxCapability} (h : setupVmcsConfig rdmsr = .ok (c, cap)) :
    c.vmentryCtrl =
      (((0x00000004#32 ||| 0x00008000#32) ||| (0x00004000#32 ||| 0x00010000#32)) &&&
        (rdmsr 0x484#32 >>> 32).setWidth 32) ||| (rdmsr 0x484#32).setWidth 32 := by
  unfold setupVmcsConfig at h
  obtain ⟨_, -, h⟩ := Exec.bind_eq_ok.mp h
  obtain ⟨_, -, h⟩ := Exec.bind_eq_ok.mp h
  obtain ⟨_, -, h⟩ := Exec.bind_eq_ok.mp h
  obtain ⟨_, -, h⟩ := Exec.bind_eq_ok.mp h
  obtain ⟨vmentry, hentry, h⟩ := Exec.bind_eq_ok.mp h
  obtain ⟨-, h⟩ := panicIf_bind_eq_ok.mp h
  obtain ⟨-, h⟩ := panicIf_bind_eq_ok.mp h
  obtain ⟨rfl, rfl⟩ := Prod.mk.inj (Except.ok.inj h)
  obtain ⟨-, hentry⟩ := panicIf_bind_eq_ok.mp hentry
  exact (Except.ok.inj hentry).symm

/-- **Start**: setup leaves the guest outside of long mode, on a processor that lets the
IA-32e-mode control be 0. -/
theorem LongModeConsistent.of_setup (hzero : s₀.vmcs = Vmcs.zero)
    (hcap : flag ((s₀.host.msrs 0x484#32).setWidth 32) vmEntryIa32eMode = false)
    (hhw : vmxHardwareSetup s₀ = .ok s₁) (hsetup : vmxVcpuSetup img s₁ = .ok s₂) :
    LongModeConsistent s₂.vmcs := by
  obtain ⟨config, cap, bm, rfl, hconfig, -⟩ := vmxHardwareSetup_eq_ok hhw
  obtain ⟨w, hostMsrs, rfl, hefer, hentry, -⟩ := vmxVcpuSetup_eq_ok hsetup
  rw [hzero, Vmcs.read_zero] at hefer
  obtain ⟨-, -, hefer', hentry', -⟩ := setupControlRegisters_spec hefer
  have hoff :
      flag ((setupControlRegisters w).read32 vmEntryControls) vmEntryIa32eMode = false := by
    rw [hentry', hentry, setupVmcsConfig_entry hconfig, flag_eq_false, BitVec.or_comm,
      or_and_of_disjoint, ← flag_eq_false]
    · exact hcap
    · -- the control is not among those asked for
      rw [BitVec.and_comm, ← BitVec.and_assoc]
      simp [vmEntryIa32eMode]
  unfold LongModeConsistent
  rw [hefer', hoff, flag_zero, flag_zero, Bool.and_false]
  exact ⟨rfl, rfl⟩

/-- **Long mode**: the requirements hold in every state that a run reaches exactly when every
WRMSR to `EFER` in it keeps LMA and, while paging is on, LME. -/
theorem longMode_iff_keeps (hzero : s₀.vmcs = Vmcs.zero)
    (hcap : flag ((s₀.host.msrs 0x484#32).setWidth 32) vmEntryIa32eMode = false)
    (hhw : vmxHardwareSetup s₀ = .ok s₁) (hsetup : vmxVcpuSetup img s₁ = .ok s₂)
    (acts : List (GuestAct × ExitEnv)) :
    (∀ acts' s, acts' <+: acts → runSteps (guestStep img) s₂ acts' = .ok s →
        LongModeConsistent s.vmcs) ↔
      Along (guestStep img) KeepsLongMode s₂ acts := by
  have hinv : ∀ s e s', Guarded s → guestStep img s e = .ok s' → Guarded s' :=
    fun _ _ _ hg h => hg.step h
  have hiff : ∀ s e s', Guarded s → LongModeConsistent s.vmcs → guestStep img s e = .ok s' →
      (LongModeConsistent s'.vmcs ↔ KeepsLongMode s e) :=
    fun _ _ _ hg hs h => hs.step_iff hg h
  have haccept : ∀ s e, Guarded s → LongModeConsistent s.vmcs → ¬KeepsLongMode s e →
      ∃ s', guestStep img s e = .ok s' := by
    rintro s ⟨a, env⟩ hg - hkeeps
    have ha : a.WritesEfer s := by
      by_contra ha
      exact hkeeps fun hw => absurd hw ha
    obtain ⟨-, s', h, -⟩ := hg.step_efer img env ha
    exact ⟨s', h⟩
  exact forall_reached_iff_along hinv hiff haccept (Guarded.of_setup hzero hhw hsetup)
    (LongModeConsistent.of_setup hzero hcap hhw hsetup)

end LongMode

/-- A guest that enables long mode before paging, as it should, but claims in the same write
that long mode is active. -/
def eagerLmaActs : List (GuestAct × ExitEnv) :=
  [(.work (loadMsr msrEfer 0x500#64), quietEnv), (.wrmsr 2, quietEnv)]

/-- A guest that enables long mode and then paging, with WP and NE in its CR0. -/
def longModeActs : List (GuestAct × ExitEnv) :=
  [(.work (loadMsr msrEfer 0x100#64), quietEnv), (.wrmsr 2, quietEnv),
    (.work (loadMsr msrEfer 0x80010021#64), quietEnv), (.movToCr0 .rax 3, quietEnv)]

theorem longMode_iff_keeps_longModeActs :
    ∃ s₁ s₂ s, vmxHardwareSetup resetState = .ok s₁ ∧ vmxVcpuSetup vmmVmxImage s₁ = .ok s₂ ∧
      runSteps (guestStep vmmVmxImage) s₂ longModeActs = .ok s ∧
      s.vmcs.read guestIa32Efer = 0x500#64 ∧
      ((∀ acts' s, acts' <+: longModeActs → runSteps (guestStep vmmVmxImage) s₂ acts' = .ok s →
          LongModeConsistent s.vmcs) ↔
        Along (guestStep vmmVmxImage) KeepsLongMode s₂ longModeActs) := by
  obtain ⟨s₁, s₂, s, hhw, hsetup, hrun, hefer⟩ : ∃ s₁ s₂ s, vmxHardwareSetup resetState = .ok s₁ ∧
      vmxVcpuSetup vmmVmxImage s₁ = .ok s₂ ∧
      runSteps (guestStep vmmVmxImage) s₂ longModeActs = .ok s ∧
      decide (s.vmcs.read guestIa32Efer = 0x500#64) = true := exists_guestRun (by decide +kernel)
  exact ⟨s₁, s₂, s, hhw, hsetup, hrun, of_decide_eq_true hefer,
    longMode_iff_keeps rfl (by decide) hhw hsetup longModeActs⟩

/-- `handle_wrmsr` stores LMA as the guest wrote it, with paging and the entry control off. -/
theorem not_longMode_eagerLmaActs :
    ∃ s₁ s₂ s, vmxHardwareSetup resetState = .ok s₁ ∧ vmxVcpuSetup vmmVmxImage s₁ = .ok s₂ ∧
      runSteps (guestStep vmmVmxImage) s₂ eagerLmaActs = .ok s ∧ ¬LongModeConsistent s.vmcs := by
  obtain ⟨s₁, s₂, s, hhw, hsetup, hrun, hnot⟩ : ∃ s₁ s₂ s, vmxHardwareSetup resetState = .ok s₁ ∧
      vmxVcpuSetup vmmVmxImage s₁ = .ok s₂ ∧
      runSteps (guestStep vmmVmxImage) s₂ eagerLmaActs = .ok s ∧
      decide (¬LongModeConsistent s.vmcs) = true := exists_guestRun (by decide +kernel)
  exact ⟨s₁, s₂, s, hhw, hsetup, hrun, of_decide_eq_true hnot⟩

end Lvisor
