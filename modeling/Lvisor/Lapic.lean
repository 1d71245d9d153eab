import Lvisor.GuestView
import Lvisor.MsrInterception

/-!
# The local APIC

The guest shares the local APIC of the processor with the VMM, which keeps two things from
it: the interrupt commands INIT and STARTUP, and the place of the APIC page. A run is made of
the acts of `guestStep` and of loads and stores that go through the EPT; `Host.icr` is what
the interrupt command register was given. In xAPIC mode that register is memory, and the MSR of
the same name does not exist: the VMM that writes it for the guest faults.

* `guestStep_host` — what a step of `guestStep` can do to the APIC: the MSR bitmap makes every
  WRMSR to the command register and to the base exit, so it is up to `handle_wrmsr`;
* `contained_iff` — containment holds in a run exactly when the guest sends no INIT or STARTUP
  through the page of the xAPIC, which the EPT gives to it like any other, writes commands to
  the MSR where the processor accepts them, and moves the page to no place of the image;
  `handle_wrmsr` looks neither at the base nor at the mode.
-/

namespace Lvisor

open VmcsField

/-- The command is INIT or STARTUP, by its delivery mode. -/
def IsStartup (command : BitVec 64) : Prop :=
  command &&& 0x700#64 = 0x500#64 ∨ command &&& 0x700#64 = 0x600#64

instance (command : BitVec 64) : Decidable (IsStartup command) :=
  inferInstanceAs (Decidable (_ ∨ _))

/-- The APIC page that a value of `MSR_IA32_APICBASE` puts in place. -/
def apicPage (base : BitVec 64) : BitVec 64 := base &&& 0x000ffffffffff000#64

/-- No byte of the APIC page is in `[_start, _end)`. -/
def PageOutside (img : VmxImage) (base : BitVec 64) : Prop :=
  ∀ a, img.Owns a → a < (apicPage base).toNat ∨ (apicPage base).toNat + 0x1000 ≤ a

/-- Enabled, and not in x2APIC mode: the registers are on the APIC page. -/
def xapicEnabled (h : Host) : Bool :=
  h.msrs msrIa32Apicbase &&& 0xc00#64 = 0x800#64

/-- A 32-bit store to physical memory, as far as the APIC is concerned: `APIC_ICR` is at 0x300
and `APIC_ICR2` at 0x310. -/
def apicStore (h : Host) (hpa : BitVec 64) (val : BitVec 32) : Host :=
  if xapicEnabled h ∧ hpa = apicPage (h.msrs msrIa32Apicbase) + 0x300#64 then
    { h with icr := (h.icr2 ++ val) :: h.icr }
  else if xapicEnabled h ∧ hpa = apicPage (h.msrs msrIa32Apicbase) + 0x310#64 then
    { h with icr2 := val }
  else h

/-- The physical address of a guest-physical one, if the EPT lets the guest access it. -/
def guestTranslate (img : VmxImage) (s : VmxState) (right gpa : BitVec 64) :
    Option (BitVec 64) :=
  match eptTranslate (s.word img) (s.vmcs.read eptPointer &&& 0x000ffffffffff000#64) gpa with
  | some m => if m.perm &&& right ≠ 0#64 then some m.hpa else none
  | none => none

/-- What the guest does that matters to the APIC. -/
inductive LapicAct where
  /-- an act of `guestStep` -/
  | guest (a : GuestAct)
  /-- a 32-bit load -/
  | load (gpa : BitVec 64)
  /-- a 32-bit store -/
  | store (gpa : BitVec 64) (val : BitVec 32)

/-- One act of the guest, with the handling of the exit it may end in. What a load, or a store
to ordinary memory, leaves in the guest's own state is a matter of the work that follows. -/
def lapicStep (img : VmxImage) (s : VmxState) (e : LapicAct × ExitEnv) : Exec VmxState :=
  match e.1 with
  | .guest a => guestStep img s (a, e.2)
  | .load gpa =>
    match guestTranslate img s 1#64 gpa with
    | some _ => .ok s
    | none => guestStep img s (.eptViolation gpa, e.2)
  | .store gpa val =>
    match guestTranslate img s 2#64 gpa with
    | some hpa => .ok { s with host := apicStore s.host hpa val }
    | none => guestStep img s (.eptViolation gpa, e.2)

/-- An act writes the MSR, whether it exits or not. -/
def LapicAct.WritesMsr (msr : BitVec 32) (s : VmxState) : LapicAct → Prop
  | guest a => a.WritesMsr msr s
  | _ => False

/-- A step keeps INIT and STARTUP from the command register, and sends any other command that
the guest writes to the MSR. -/
structure IcrContained (img : VmxImage) (s : VmxState) (e : LapicAct × ExitEnv) : Prop where
  drops : ∀ s', lapicStep img s e = .ok s' →
    ∃ sent, s'.host.icr = sent ++ s.host.icr ∧ ∀ c ∈ sent, ¬IsStartup c
  passes : e.1.WritesMsr msrX2apicIcr s → ¬IsStartup (kvmReadEdxEax s) →
    ∃ s', lapicStep img s e = .ok s' ∧ s'.host.icr = kvmReadEdxEax s :: s.host.icr

/-- The condition on an act: it is no store of an INIT or STARTUP to the command register of
the xAPIC, any other command is written to the MSR in x2APIC mode and without reserved bits, and
no enabled APIC is moved to the image by a base that the processor accepts. -/
structure KeepsApic (img : VmxImage) (s : VmxState) (a : LapicAct) : Prop where
  store : ∀ gpa val, a = .store gpa val → xapicEnabled s.host →
    guestTranslate img s 2#64 gpa = some (apicPage (s.host.msrs msrIa32Apicbase) + 0x300#64) →
    ¬IsStartup (s.host.icr2 ++ val)
  icr : a.WritesMsr msrX2apicIcr s → ¬IsStartup (kvmReadEdxEax s) →
    apicMode (s.host.msrs msrIa32Apicbase) = 0xc00#64 ∧
      kvmReadEdxEax s &&& 0xfff33000#64 = 0#64
  base : a.WritesMsr msrIa32Apicbase s → kvmReadEdxEax s &&& 0x800#64 ≠ 0#64 →
    wrmsrAccepted s.host msrIa32Apicbase (kvmReadEdxEax s) = true →
    PageOutside img (kvmReadEdxEax s)

/-! ## The MSR bitmap -/

/-- `vmx_hardware_setup` intercepts writes to the base and to the command register. -/
theorem vmxHardwareSetup_lapic {s s' : VmxState} (h : vmxHardwareSetup s = .ok s') :
    msrExits s'.msrBitmap .write msrIa32Apicbase = true ∧
      msrExits s'.msrBitmap .write msrX2apicIcr = true := by
  have hbase : lastCall setupCalls msrIa32Apicbase = some ⟨msrIa32Apicbase, 0, 1⟩ := by decide
  have hicr : lastCall setupCalls msrX2apicIcr = some ⟨msrX2apicIcr, 0, 1⟩ := by decide
  rw [msrExits_of_hardwareSetup h, foldl_update_apply _ _ (by decide), hbase,
    foldl_update_apply _ _ (by decide), hicr]
  exact ⟨rfl, rfl⟩

/-- The invariant: writes to the base and to the command register exit. -/
structure LapicGuarded (s : VmxState) : Prop where
  base : wrmsrExits s msrIa32Apicbase = true
  icr : wrmsrExits s msrX2apicIcr = true

theorem LapicGuarded.congr {s s' : VmxState} (hs : LapicGuarded s) (h : SameControls s s') :
    LapicGuarded s' := by
  have hexits (msr : BitVec 32) : wrmsrExits s' msr = wrmsrExits s msr := by
    rw [wrmsrExits, wrmsrExits, usesMsrBitmaps, usesMsrBitmaps, Vmcs.read32, h.read _ rfl,
      h.msrBitmap, Vmcs.read32]
  exact ⟨by rw [hexits]; exact hs.base, by rw [hexits]; exact hs.icr⟩

/-- **Start**: boot establishes the invariant of the bitmap. -/
theorem LapicGuarded.of_booted {img : VmxImage} {s₀ s : VmxState} (h : Booted img s₀ s) :
    LapicGuarded s := by
  obtain ⟨hzero, s₁, s₂, startIp, hhw, hcreate, rfl⟩ := h
  obtain ⟨hbase, hicr⟩ := vmxHardwareSetup_lapic hhw
  obtain ⟨host, s₃, hsetup, rfl⟩ := createVcpu_eq_ok hcreate
  obtain ⟨w, hostMsrs, rfl, -⟩ := vmxVcpuSetup_eq_ok hsetup
  have hexits (msr : BitVec 32) (hbit : msrExits s₁.msrBitmap .write msr = true) (v : Vmcs) :
      (!usesMsrBitmaps v || bitmapExits s₁.msrBitmap (0x800 / 8) (0xc00 / 8) msr) = true :=
    Bool.or_eq_true_iff.mpr (.inr ((bitmapExits_eq _ .write msr).trans hbit))
  exact ⟨hexits _ hbase _, hexits _ hicr _⟩

/-! ## What a step can do to the APIC

The host has what was sent to the command register, and the MSRs. A step of the guest changes
them through `handle_wrmsr` or through the page of the xAPIC, and in no other way. -/

/-- How an act may change the processor: not at all, by a write of the base or of the command
register that `handle_wrmsr` lets through, or by a write to another MSR. -/
inductive HostStep (s : VmxState) (a : GuestAct) (h : Host) : Prop where
  /-- not at all -/
  | same (hh : h = s.host)
  /-- `handle_wrmsr` of the base -/
  | base (ha : a.WritesMsr msrIa32Apicbase s) (henable : kvmReadEdxEax s &&& 0x800#64 ≠ 0#64)
      (hok : wrmsrAccepted s.host msrIa32Apicbase (kvmReadEdxEax s) = true)
      (hh : h = hostWrmsr s.host msrIa32Apicbase (kvmReadEdxEax s))
  /-- `handle_wrmsr` of the command register -/
  | icr (ha : a.WritesMsr msrX2apicIcr s) (hc : ¬IsStartup (kvmReadEdxEax s))
      (hh : h = hostWrmsr s.host msrX2apicIcr (kvmReadEdxEax s))
  /-- a WRMSR that does not exit -/
  | other (msr : BitVec 32) (val : BitVec 64) (hbase : msr ≠ msrIa32Apicbase)
      (hicr : msr ≠ msrX2apicIcr)
      (hh : h = if wrmsrAccepted s.host msr val then hostWrmsr s.host msr val else s.host)

section Steps

variable {img : VmxImage} {env : ExitEnv} {s s' : VmxState} {a : GuestAct} {x : ExitInfo}

@[simp] theorem hostWrmsr_msrs_self (h : Host) (msr : BitVec 32) (val : BitVec 64) :
    (hostWrmsr h msr val).msrs msr = val :=
  Function.update_self ..

theorem hostWrmsr_msrs_of_ne {msr msr' : BitVec 32} (hne : msr' ≠ msr) (h : Host)
    (val : BitVec 64) : (hostWrmsr h msr val).msrs msr' = h.msrs msr' :=
  Function.update_of_ne hne ..

/-- The command register is written in x2APIC mode, without reserved bits. -/
theorem wrmsrAccepted_icr {h : Host} {val : BitVec 64} :
    wrmsrAccepted h msrX2apicIcr val = true ↔
      apicMode (h.msrs msrIa32Apicbase) = 0xc00#64 ∧ val &&& 0xfff33000#64 = 0#64 := by
  unfold wrmsrAccepted
  rw [if_neg (by decide), if_pos rfl, decide_eq_true_iff]

/-- `handle_wrmsr` of the base returns for a base that is enabled and that the processor
accepts. -/
theorem handleWrmsr_apicbase (hmsr : (s.regs .rcx).setWidth 32 = msrIa32Apicbase) :
    handleWrmsr s = .ok s' ↔
      kvmReadEdxEax s &&& 0x800#64 ≠ 0#64 ∧
        wrmsrAccepted s.host msrIa32Apicbase (kvmReadEdxEax s) = true ∧
        vmxSkipEmulatedInstruction
          { s with host := hostWrmsr s.host msrIa32Apicbase (kvmReadEdxEax s) } = s' := by
  unfold handleWrmsr
  dsimp only
  rw [hmsr, if_pos rfl, bugOn_bind_eq_ok, Exec.bind_eq_ok, decide_eq_false_iff_not]
  refine and_congr_right fun _ => ⟨?_, ?_⟩
  · rintro ⟨s₁, hwr, h⟩
    obtain ⟨hok, rfl⟩ := wrmsrl_eq_ok.mp hwr
    exact ⟨hok, Except.ok.inj h⟩
  · rintro ⟨hok, rfl⟩
    exact ⟨_, wrmsrl_eq_ok.mpr ⟨hok, rfl⟩, rfl⟩

/-- `handle_wrmsr` of the command register: INIT and STARTUP are dropped, and the VMM faults on
any other command that the processor does not accept. -/
theorem handleWrmsr_icr (hmsr : (s.regs .rcx).setWidth 32 = msrX2apicIcr) :
    handleWrmsr s = .ok s' ↔
      IsStartup (kvmReadEdxEax s) ∧ vmxSkipEmulatedInstruction s = s' ∨
      ¬IsStartup (kvmReadEdxEax s) ∧
        wrmsrAccepted s.host msrX2apicIcr (kvmReadEdxEax s) = true ∧
        vmxSkipEmulatedInstruction
          { s with host := hostWrmsr s.host msrX2apicIcr (kvmReadEdxEax s) } = s' := by
  unfold handleWrmsr
  dsimp only
  rw [hmsr, if_neg (by decide), if_pos rfl]
  change (if IsStartup (kvmReadEdxEax s) then _ else _) = _ ↔ _
  by_cases hc : IsStartup (kvmReadEdxEax s)
  · rw [if_pos hc]
    exact ⟨fun h => .inl ⟨hc, Except.ok.inj h⟩, fun h => h.elim (fun h => congrArg _ h.2)
      fun h => absurd hc h.1⟩
  · rw [if_neg hc, Exec.bind_eq_ok]
    constructor
    · rintro ⟨s₁, hwr, h⟩
      obtain ⟨hok, rfl⟩ := wrmsrl_eq_ok.mp hwr
      exact .inr ⟨hc, hok, Except.ok.inj h⟩
    · rintro (⟨hs, -⟩ | ⟨-, hok, rfl⟩)
      · exact absurd hs hc
      · exact ⟨_, wrmsrl_eq_ok.mpr ⟨hok, rfl⟩, rfl⟩

/-- The processor after `handle_wrmsr`: as before, or with the write carried out. -/
theorem handleWrmsr_host (h : handleWrmsr s = .ok s')
    (ha : ∀ msr, (s.regs .rcx).setWidth 32 = msr → a.WritesMsr msr s) :
    HostStep s a s'.host := by
  by_cases hbase : (s.regs .rcx).setWidth 32 = msrIa32Apicbase
  · obtain ⟨henable, hok, rfl⟩ := (handleWrmsr_apicbase hbase).mp h
    exact .base (ha _ hbase) henable hok rfl
  · by_cases hicr : (s.regs .rcx).setWidth 32 = msrX2apicIcr
    · obtain ⟨-, rfl⟩ | ⟨hc, -, rfl⟩ := (handleWrmsr_icr hicr).mp h
      · exact .same rfl
      · exact .icr (ha _ hicr) hc rfl
    · unfold handleWrmsr at h
      dsimp only at h
      rw [if_neg hbase, if_neg hicr] at h
      split at h
      · obtain rfl := Except.ok.inj h
        exact .same rfl
      · cases h

/-- The processor after an exit: only `handle_wrmsr` writes to it. -/
theorem vmxHandleExit_host (h : vmxHandleExit img env s = .ok s')
    (ha : ∀ msr, s.vmcs.read32 vmExitReason = 32#32 → (s.regs .rcx).setWidth 32 = msr →
      a.WritesMsr msr s) :
    HostStep s a s'.host := by
  unfold vmxHandleExit at h
  dsimp only at h
  split at h
  · rename_i handler hreason
    cases handler with
    | exceptionNmi =>
      obtain ⟨-, p, -, ⟨-, rfl⟩ | ⟨-, rfl⟩⟩ := handleExceptionNmi_eq_ok.mp h
      · exact .same rfl
      · exact .same rfl
    | cpuid =>
      obtain rfl := Except.ok.inj h
      exact .same rfl
    | rdtsc =>
      obtain rfl := Except.ok.inj h
      exact .same rfl
    | crAccess =>
      obtain ⟨val, w, -, rfl⟩ := handleCr_eq_ok h
      exact .same rfl
    | msrRead => cases h
    | msrWrite => exact handleWrmsr_host h fun msr => ha msr (reason_of_msrWrite hreason)
    | eptViolation =>
      unfold ExitHandler.call vmxHandleEptViolation at h
      obtain ⟨-, h⟩ := panicIf_bind_eq_ok.mp h
      obtain ⟨ept, -, h⟩ := Exec.bind_eq_ok.mp h
      obtain rfl := Except.ok.inj h
      exact .same rfl
  · cases h

/-- The processor after an act that does not exit. -/
theorem guestDirect_host (hs : LapicGuarded s) (hx : guestExit s a = none) :
    HostStep s a (guestDirect s a).host := by
  cases a with
  | wrmsr len =>
    have hexit : wrmsrExits s ((s.regs .rcx).setWidth 32) = false := by
      simpa [guestExit] using hx
    have hne {msr : BitVec 32} (hmsr : wrmsrExits s msr = true) :
        (s.regs .rcx).setWidth 32 ≠ msr := by
      rintro rfl
      rw [hmsr] at hexit
      cases hexit
    unfold guestDirect writeMsr
    dsimp only
    split
    · exact .same rfl
    · exact .same rfl
    · exact .other _ _ (hne hs.base) (hne hs.icr) rfl
  | _ => exact .same rfl

/-- **APIC steps**: what a step of the guest can do to the processor. -/
theorem guestStep_host (hs : LapicGuarded s) (h : guestStep img s (a, env) = .ok s') :
    HostStep s a s'.host := by
  unfold guestStep at h
  split at h
  · rename_i x hx
    have hexit : HostStep { s with vmcs := s.vmcs.recordExit x } a s'.host := by
      refine vmxHandleExit_host h fun msr hreason hmsr => ?_
      rw [read32_recordExit_reason] at hreason
      exact hmsr ▸ writesMsr_of_exit hx hreason
    cases hexit with
    | same hh => exact .same hh
    | base ha henable hok hh => exact .base ha henable hok hh
    | icr ha hc hh => exact .icr ha hc hh
    | other msr val hbase hicr hh => exact .other msr val hbase hicr hh
  · rename_i hx
    obtain rfl := Except.ok.inj h
    exact guestDirect_host hs hx

/-- An act that writes an MSR whose writes exit is handled by `handle_wrmsr`. -/
theorem guestStep_of_writesMsr (img : VmxImage) (env : ExitEnv) {msr : BitVec 32}
    (hexit : wrmsrExits s msr = true) (ha : a.WritesMsr msr s) :
    (s.regs .rcx).setWidth 32 = msr ∧
      ∃ v, guestStep img s (a, env) = handleWrmsr { s with vmcs := v } := by
  cases a with
  | wrmsr len =>
    have hmsr : (s.regs .rcx).setWidth 32 = msr := ha
    refine ⟨hmsr, s.vmcs.recordExit { reason := 32, instructionLen := len }, ?_⟩
    simp only [guestStep, guestExit, hmsr, hexit, if_true, exitWith, vmxHandleExit,
      read32_recordExit_reason]
    rfl
  | exit x =>
    refine ⟨ha.2, s.vmcs.recordExit x, ?_⟩
    simp only [guestStep, guestExit, exitWith, vmxHandleExit, read32_recordExit_reason, ha.1]
    rfl
  | _ => cases ha

end Steps

/-! ## Containment

The condition on a run has one clause for each way out: the page, the command register in a mode
where it is no MSR, and the base. A run that breaks one of them has a state in which the
containment fails, or ends in a fault of the VMM. -/

section Containment

variable {img : VmxImage} {s s₀ s' : VmxState} {e : LapicAct × ExitEnv}

/-- **Step**: the invariant is kept, as no act and no handler writes to the controls or the
bitmap. -/
theorem LapicGuarded.step (hs : LapicGuarded s) (h : lapicStep img s e = .ok s') :
    LapicGuarded s' := by
  obtain ⟨a, env⟩ := e
  cases a with
  | guest a => exact hs.congr (guestStep_sameControls h)
  | load gpa =>
    simp only [lapicStep] at h
    split at h
    · obtain rfl := Except.ok.inj h
      exact hs
    · exact hs.congr (guestStep_sameControls h)
  | store gpa val =>
    simp only [lapicStep] at h
    split at h
    · obtain rfl := Except.ok.inj h
      exact hs.congr ⟨fun _ _ => rfl, rfl⟩
    · exact hs.congr (guestStep_sameControls h)

/-- The commands that an act of `guestStep` sends. -/
theorem HostStep.sent {a : GuestAct} {h : Host} (hh : HostStep s a h) :
    ∃ sent, h.icr = sent ++ s.host.icr ∧ ∀ c ∈ sent, ¬IsStartup c := by
  cases hh with
  | same hh => exact ⟨[], by rw [hh]; rfl, nofun⟩
  | base ha henable hok hh => exact ⟨[], by rw [hh]; rfl, nofun⟩
  | icr ha hc hh => exact ⟨[kvmReadEdxEax s], by rw [hh]; rfl, by simpa using hc⟩
  | other msr val hbase hicr hh =>
    refine ⟨[], ?_, nofun⟩
    rw [hh]
    split
    · exact if_neg hicr
    · rfl

/-- The base after an act of `guestStep`. -/
theorem HostStep.apicbase {a : GuestAct} {h : Host} (hh : HostStep s a h) :
    h.msrs msrIa32Apicbase = s.host.msrs msrIa32Apicbase ∨
      a.WritesMsr msrIa32Apicbase s ∧ kvmReadEdxEax s &&& 0x800#64 ≠ 0#64 ∧
        wrmsrAccepted s.host msrIa32Apicbase (kvmReadEdxEax s) = true ∧
        h.msrs msrIa32Apicbase = kvmReadEdxEax s := by
  cases hh with
  | same hh => exact .inl (by rw [hh])
  | base ha henable hok hh => exact .inr ⟨ha, henable, hok, by rw [hh, hostWrmsr_msrs_self]⟩
  | icr ha hc hh => exact .inl (by rw [hh, hostWrmsr_msrs_of_ne (by decide)])
  | other msr val hbase hicr hh =>
    refine .inl ?_
    rw [hh]
    split
    · exact hostWrmsr_msrs_of_ne hbase.symm ..
    · rfl

/-- A store to the APIC page leaves the base. -/
theorem apicStore_msrs (h : Host) (hpa : BitVec 64) (val : BitVec 32) :
    (apicStore h hpa val).msrs = h.msrs := by
  unfold apicStore
  split
  · rfl
  · split <;> rfl

/-- **Step**: the base stays outside of the image, unless the act moves it there. -/
theorem PageOutside.step (hs : LapicGuarded s) (hk : KeepsApic img s e.1)
    (hout : PageOutside img (s.host.msrs msrIa32Apicbase)) (h : lapicStep img s e = .ok s') :
    PageOutside img (s'.host.msrs msrIa32Apicbase) := by
  -- what an exit leaves; a violation of the EPT writes no MSR
  have hstep {a : GuestAct} (h : guestStep img s (a, e.2) = .ok s')
      (ha : a.WritesMsr msrIa32Apicbase s → e.1.WritesMsr msrIa32Apicbase s) :
      PageOutside img (s'.host.msrs msrIa32Apicbase) := by
    obtain hbase | ⟨hw, henable, hok, hbase⟩ := (guestStep_host hs h).apicbase
    · rw [hbase]
      exact hout
    · rw [hbase]
      exact hk.base (ha hw) henable hok
  obtain ⟨a, env⟩ := e
  cases a with
  | guest a => exact hstep h id
  | load gpa =>
    simp only [lapicStep] at h
    split at h
    · obtain rfl := Except.ok.inj h
      exact hout
    · exact hstep h nofun
  | store gpa val =>
    simp only [lapicStep] at h
    split at h
    · obtain rfl := Except.ok.inj h
      rw [apicStore_msrs]
      exact hout
    · exact hstep h nofun

/-- **Step**: an act that keeps the APIC is contained. -/
theorem IcrContained.of_keeps (hs : LapicGuarded s) (hk : KeepsApic img s e.1) :
    IcrContained img s e := by
  obtain ⟨a, env⟩ := e
  refine ⟨fun s' h => ?_, fun ha hc => ?_⟩
  · cases a with
    | guest a => exact (guestStep_host hs h).sent
    | load gpa =>
      simp only [lapicStep] at h
      split at h
      · obtain rfl := Except.ok.inj h
        exact ⟨[], rfl, nofun⟩
      · exact (guestStep_host hs h).sent
    | store gpa val =>
      simp only [lapicStep] at h
      split at h
      · rename_i hpa htr
        obtain rfl := Except.ok.inj h
        by_cases hicr : xapicEnabled s.host ∧
            hpa = apicPage (s.host.msrs msrIa32Apicbase) + 0x300#64
        · refine ⟨[s.host.icr2 ++ val], ?_, ?_⟩
          · rw [apicStore, if_pos hicr]
            rfl
          · simpa using hk.store gpa val rfl hicr.1 (hicr.2 ▸ htr)
        · refine ⟨[], ?_, nofun⟩
          rw [apicStore, if_neg hicr]
          split <;> rfl
      · exact (guestStep_host hs h).sent
  · cases a with
    | guest a =>
      obtain ⟨hmsr, v, hstep⟩ := guestStep_of_writesMsr img env hs.icr ha
      have hok := wrmsrAccepted_icr.mpr (hk.icr ha hc)
      exact ⟨_, hstep.trans ((handleWrmsr_icr (s := { s with vmcs := v }) hmsr).mpr
        (.inr ⟨hc, hok, rfl⟩)), rfl⟩
    | load gpa => cases ha
    | store gpa val => cases ha

/-- A step that is contained, and does not move the APIC page to the image, keeps the APIC. -/
theorem KeepsApic.of_contained (hs : LapicGuarded s) (hc : IcrContained img s e)
    (hout : ∀ s', lapicStep img s e = .ok s' → PageOutside img (s'.host.msrs msrIa32Apicbase)) :
    KeepsApic img s e.1 := by
  obtain ⟨a, env⟩ := e
  refine ⟨?_, fun ha hcmd => ?_, fun ha henable hok => ?_⟩
  · rintro gpa val rfl hen htr hstart
    have hstep : lapicStep img s (.store gpa val, env) = .ok { s with
        host := { s.host with icr := (s.host.icr2 ++ val) :: s.host.icr } } := by
      simp only [lapicStep, htr, apicStore, hen, true_and, if_true]
    obtain ⟨sent, hsent, hno⟩ := hc.drops _ hstep
    -- one command was sent, and it is this one
    have hcmd : [s.host.icr2 ++ val] = sent := List.append_cancel_right hsent
    exact hno (s.host.icr2 ++ val) (by rw [← hcmd]; exact List.mem_singleton_self _) hstart
  · cases a with
    | guest a =>
      obtain ⟨hmsr, v, hstep⟩ := guestStep_of_writesMsr img env hs.icr ha
      obtain ⟨s', hpass, -⟩ := hc.passes ha hcmd
      -- the handler returned, and the command was not one that it drops
      have hret := hstep.symm.trans hpass
      obtain ⟨hstart, -⟩ | ⟨-, hok, -⟩ :=
        (handleWrmsr_icr (s := { s with vmcs := v }) hmsr).mp hret
      · exact absurd hstart hcmd
      · exact wrmsrAccepted_icr.mp hok
    | load gpa => cases ha
    | store gpa val => cases ha
  · cases a with
    | guest a =>
      obtain ⟨hmsr, v, hstep⟩ := guestStep_of_writesMsr img env hs.base ha
      have hpage := hout _ (hstep.trans ((handleWrmsr_apicbase (s := { s with vmcs := v })
        hmsr).mpr ⟨henable, hok, rfl⟩))
      change PageOutside img ((hostWrmsr s.host msrIa32Apicbase
        (kvmReadEdxEax s)).msrs msrIa32Apicbase) at hpage
      rwa [hostWrmsr_msrs_self] at hpage
    | load gpa => cases ha
    | store gpa val => cases ha

/-- **Containment**: over a run from boot, the guest sends no INIT or STARTUP, every other
command that it writes to the MSR is sent, and the APIC page stays outside of the image,
exactly when the page was outside at the start and every act keeps the APIC. What may go wrong
is a store to the page of the xAPIC, a move of that page over the image, and a fault of the VMM
at a command that the processor does not accept from the MSR. -/
theorem contained_iff (hboot : Booted img s₀ s) (acts : List (LapicAct × ExitEnv)) :
    ((∀ acts' e st, acts' ++ [e] <+: acts → runSteps (lapicStep img) s acts' = .ok st →
        IcrContained img st e) ∧
      (∀ acts' st, acts' <+: acts → runSteps (lapicStep img) s acts' = .ok st →
        PageOutside img (st.host.msrs msrIa32Apicbase))) ↔
      PageOutside img (s.host.msrs msrIa32Apicbase) ∧
        Along (lapicStep img) (fun st e => KeepsApic img st e.1) s acts := by
  have hguard {acts' : List (LapicAct × ExitEnv)} {st : VmxState}
      (h : runSteps (lapicStep img) s acts' = .ok st) : LapicGuarded st :=
    runSteps_invariant (fun _ _ _ hs h => hs.step h) (.of_booted hboot) h
  constructor
  · rintro ⟨hicr, hout⟩
    refine ⟨hout [] s List.nil_prefix rfl, along_iff.mpr fun acts' e st hacts hrun => ?_⟩
    refine .of_contained (hguard hrun) (hicr acts' e st hacts hrun) fun st' hstep => ?_
    exact hout _ st' hacts
      (runSteps_append_eq_ok.mpr ⟨st, hrun, runSteps_cons_eq_ok.mpr ⟨st', hstep, rfl⟩⟩)
  · rintro ⟨hstart, halong⟩
    refine ⟨fun acts' e st hacts hrun => ?_, fun acts' st hacts hrun => ?_⟩
    · exact .of_keeps (hguard hrun) (along_iff.mp halong acts' e st hacts hrun)
    · have hprefix : Along (lapicStep img) (fun st e => KeepsApic img st e.1) s acts' :=
        along_iff.mpr fun acts₁ e st₁ hacts₁ => along_iff.mp halong acts₁ e st₁ (hacts₁.trans hacts)
      have hboth : LapicGuarded st ∧ PageOutside img (st.host.msrs msrIa32Apicbase) :=
        runSteps_invariant_along
          (P := fun st => LapicGuarded st ∧ PageOutside img (st.host.msrs msrIa32Apicbase))
          (fun _ _ _ hst hk h => ⟨hst.1.step h, hst.2.step hst.1 hk h⟩)
          ⟨.of_booted hboot, hstart⟩ hprefix hrun
      exact hboth.2

end Containment

instance (img : VmxImage) (base : BitVec 64) : Decidable (PageOutside img base) :=
  decidable_of_iff
    (img.stop.toNat ≤ img.start.toNat ∨ img.stop.toNat ≤ (apicPage base).toNat ∨
      (apicPage base).toNat + 0x1000 ≤ img.start.toNat) (by
    unfold PageOutside Image.Owns
    refine ⟨fun h a ha => by omega, fun h => ?_⟩
    have hstart := h img.start.toNat
    have hpage := h (apicPage base).toNat
    omega)

/-- A machine whose local APIC has a value of `MSR_IA32_APICBASE`. -/
def apicState (base : BitVec 64) : VmxState :=
  { resetState with host := hostWrmsr resetState.host msrIa32Apicbase base }

/-- A machine whose xAPIC is where it is after a reset. -/
def xapicState : VmxState := apicState 0xfee00900#64

/-- A machine whose firmware has put the local APIC in x2APIC mode. -/
def x2apicState : VmxState := apicState 0xfee00d00#64

/-- A guest that wakes another processor through the page of the xAPIC: the first store makes
the VMM map the page. -/
def xapicInitActs : List (LapicAct × ExitEnv) :=
  [(.store 0xfee00310#64 0x01000000#32, quietEnv), (.store 0xfee00310#64 0x01000000#32, quietEnv),
    (.store 0xfee00300#64 0x00004500#32, quietEnv)]

/-- A guest that sends a non-maskable interrupt through the MSR. -/
def nmiActs : List (LapicAct × ExitEnv) :=
  [(.guest (.work (loadMsr msrX2apicIcr 0x0000000100004400#64)), quietEnv),
    (.guest (.wrmsr 2), quietEnv)]

/-- A guest that moves the APIC page to `_start`. -/
def moveApicActs : List (LapicAct × ExitEnv) :=
  [(.guest (.work (loadMsr msrIa32Apicbase 0x10000900#64)), quietEnv),
    (.guest (.wrmsr 2), quietEnv)]

theorem contained_iff_nmiActs :
    ∃ s st, Booted vmmVmxImage x2apicState s ∧
      runSteps (lapicStep vmmVmxImage) s nmiActs = .ok st ∧
      st.host.icr = [0x0000000100004400#64] ∧
      (((∀ acts' e st, acts' ++ [e] <+: nmiActs →
            runSteps (lapicStep vmmVmxImage) s acts' = .ok st → IcrContained vmmVmxImage st e) ∧
          (∀ acts' st, acts' <+: nmiActs → runSteps (lapicStep vmmVmxImage) s acts' = .ok st →
            PageOutside vmmVmxImage (st.host.msrs msrIa32Apicbase))) ↔
        PageOutside vmmVmxImage (s.host.msrs msrIa32Apicbase) ∧
          Along (lapicStep vmmVmxImage) (fun st e => KeepsApic vmmVmxImage st e.1) s nmiActs) := by
  obtain ⟨s, st, hboot, hrun, hicr⟩ := exists_booted x2apicState rfl
    (f := fun s => runSteps (lapicStep vmmVmxImage) s nmiActs)
    (p := fun st => st.host.icr = [0x0000000100004400#64]) (by decide +kernel)
  exact ⟨s, st, hboot, hrun, of_decide_eq_true hicr, contained_iff hboot nmiActs⟩

/-- An INIT reaches the command register through the page of the xAPIC, and the APIC page is
moved over the image. -/
theorem not_contained_xapicInitActs :
    (∃ s acts e st, Booted vmmVmxImage xapicState s ∧ acts ++ [e] = xapicInitActs ∧
      runSteps (lapicStep vmmVmxImage) s acts = .ok st ∧ ¬IcrContained vmmVmxImage st e) ∧
    ∃ s st, Booted vmmVmxImage xapicState s ∧
      runSteps (lapicStep vmmVmxImage) s moveApicActs = .ok st ∧
      ¬PageOutside vmmVmxImage (st.host.msrs msrIa32Apicbase) := by
  constructor
  · obtain ⟨s, ⟨st, st'⟩, hboot, hrun, hp⟩ := exists_booted xapicState rfl
      (f := fun s => do
        let st ← runSteps (lapicStep vmmVmxImage) s (xapicInitActs.take 2)
        let st' ← lapicStep vmmVmxImage st (.store 0xfee00300#64 0x00004500#32, quietEnv)
        return (st, st'))
      (p := fun sts => sts.1.host.icr = [] ∧ sts.2.host.icr = [0x0100000000004500#64])
      (by decide +kernel)
    obtain ⟨st₁, hst, hrun⟩ := Exec.bind_eq_ok.mp hrun
    obtain ⟨st₂, hst', hrun⟩ := Exec.bind_eq_ok.mp hrun
    obtain ⟨rfl, rfl⟩ := Prod.mk.inj (Except.ok.inj hrun)
    obtain ⟨hbefore, hafter⟩ := of_decide_eq_true hp
    refine ⟨s, xapicInitActs.take 2, _, st₁, hboot, rfl, hst, fun hc => ?_⟩
    obtain ⟨sent, hsent, hno⟩ := hc.drops st₂ hst'
    rw [hbefore, hafter, List.append_nil] at hsent
    exact hno 0x0100000000004500#64 (by rw [← hsent]; exact List.mem_singleton_self _) (by decide)
  · obtain ⟨s, st, hboot, hrun, hp⟩ := exists_booted xapicState rfl
      (f := fun s => runSteps (lapicStep vmmVmxImage) s moveApicActs)
      (p := fun st => ¬PageOutside vmmVmxImage (st.host.msrs msrIa32Apicbase)) (by decide +kernel)
    exact ⟨s, st, hboot, hrun, of_decide_eq_true hp⟩

end Lvisor
