import Lvisor.GuestView

/-!
# The guest's TLB

The processor caches translations of the guest, tagged with the VPID of the VMCS, and what
drops them is not the same for the guest and for the VMM: a MOV to CR3 of the guest's own
drops the translations that are not global, the VMM's write of `GUEST_CR3` drops nothing,
and neither do VM exits and entries while VPIDs are enabled. Only INVVPID would, which
`vmx.c` does not use.

`setup_vmcs_config` asks for VPIDs and for exits on MOV to CR3, so `handle_cr` emulates
every such MOV, and the old translations stay (`tlbStep_movToCr3`). The guest is safe from
them only when there are none (`noStale_iff`).
-/

namespace Lvisor

open VmcsField

/-- A cached translation, with the tags that say for whom it is valid. -/
structure TlbEntry where
  /-- the VPID it is tagged with -/
  vpid : BitVec 16
  linear : BitVec 64
  physical : BitVec 64
  /-- whether the page is global -/
  isGlobal : Bool
  /-- the CR3 under which it was cached -/
  cr3 : BitVec 64
  deriving DecidableEq

/-- The VMM and the translations that the processor has cached. -/
structure TlbState where
  vmx : VmxState
  tlb : List TlbEntry

/-- What the guest does that matters to its translations. -/
inductive TlbAct where
  /-- an access to memory, whose translation is cached -/
  | access (linear physical : BitVec 64) (isGlobal : Bool)
  /-- MOV to CR3 -/
  | movToCr3 (reg : KvmReg) (len : BitVec 32)
  /-- anything that touches neither translations nor control registers -/
  | work (w : GuestWork)

/-- `SECONDARY_EXEC_ENABLE_VPID` is bit 5. -/
def usesVpid (v : Vmcs) : Bool := (v.read32 secondaryVmExecControl).getLsbD 5

/-- The tag of the guest's translations: the VPID, or 0 when VPIDs are off. -/
def currentVpid (v : Vmcs) : BitVec 16 :=
  if usesVpid v then (v.read virtualProcessorId).setWidth 16 else 0

/-- What a VM exit and the next entry leave of the TLB. -/
def vmTransition (v : Vmcs) (tlb : List TlbEntry) : List TlbEntry :=
  if usesVpid v then tlb else tlb.filter fun e => e.vpid ≠ 0

/-- What a MOV to CR3 leaves of the TLB that the guest executes without an exit. -/
def nativeMovToCr3 (v : Vmcs) (tlb : List TlbEntry) : List TlbEntry :=
  tlb.filter fun e => e.isGlobal || e.vpid ≠ currentVpid v

/-- The translation that an access caches, with the tags of the time. -/
def cachedEntry (v : Vmcs) (linear physical : BitVec 64) (isGlobal : Bool) : TlbEntry :=
  { vpid := currentVpid v, linear, physical, isGlobal, cr3 := v.read guestCr3 }

/-- One act of the guest, with the handling of the exit it may end in. -/
def tlbStep (img : VmxImage) (st : TlbState) (e : TlbAct × ExitEnv) : Exec TlbState :=
  match e.1 with
  | .access linear physical isGlobal =>
    .ok { st with tlb := cachedEntry st.vmx.vmcs linear physical isGlobal :: st.tlb }
  | .movToCr3 reg len => do
    let vmx ← guestStep img st.vmx (.movToCr3 reg len, e.2)
    let tlb := match guestExit st.vmx (.movToCr3 reg len) with
      | some _ => vmTransition st.vmx.vmcs st.tlb
      | none => nativeMovToCr3 st.vmx.vmcs st.tlb
    return { vmx, tlb }
  | .work w => .ok { st with vmx := w.apply st.vmx }

/-- The act is a MOV to CR3, after which old translations must not be used. -/
def TlbAct.IsMovToCr3 : TlbAct → Prop
  | movToCr3 _ _ => True
  | _ => False

/-- After a MOV to CR3 from `st` to `st'`, the guest can use no translation that was cached
under the old CR3, unless it is global. -/
def NoStale (st st' : TlbState) : Prop :=
  ∀ e ∈ st'.tlb, e.vpid = currentVpid st'.vmx.vmcs → e.cr3 = st.vmx.vmcs.read guestCr3 →
    e.isGlobal = true

/-- Whenever the guest executes MOV to CR3, the pages that it has accessed under the CR3 in
force were global. -/
def AccessesGlobal (img : VmxImage) (st₀ : TlbState) (acts : List (TlbAct × ExitEnv)) : Prop :=
  ∀ acts₁ linear physical isGlobal env acts₂ e st₁ st,
    acts₁ ++ (.access linear physical isGlobal, env) :: acts₂ ++ [e] <+: acts →
    e.1.IsMovToCr3 →
    runSteps (tlbStep img) st₀ acts₁ = .ok st₁ →
    runSteps (tlbStep img) st₁ ((.access linear physical isGlobal, env) :: acts₂) = .ok st →
    st₁.vmx.vmcs.read guestCr3 = st.vmx.vmcs.read guestCr3 → isGlobal = true

/-! ## The controls of setup

The setup panics unless the processor has VPIDs and exits on MOV to CR3. The invariant is that
the fields concerned stay as the setup wrote them. -/

section Setup

variable {img : VmxImage} {s s' s₀ : VmxState} {v : Vmcs}

/-- A control that is required is set. -/
theorem adjustVmxControls_min {ctlMin ctlOpt ctl : BitVec 32} {cap : BitVec 64}
    (h : adjustVmxControls ctlMin ctlOpt cap = .ok ctl) {i : ℕ} (hi : ctlMin.getLsbD i = true) :
    ctl.getLsbD i = true := by
  obtain ⟨hmin, h⟩ := panicIf_bind_eq_ok.mp h
  have hzero : ctlMin &&& ~~~ctl = 0#32 := by
    rw [← Except.ok.inj h]
    exact not_not.mp (of_decide_eq_false hmin)
  have hbit := congrArg (fun x => x.getLsbD i) hzero
  have hlt : i < 32 := BitVec.lt_of_getLsbD hi
  simpa only [BitVec.getLsbD_and, hi, BitVec.getLsbD_not, hlt, decide_true, Bool.true_and,
    BitVec.getLsbD_zero, Bool.not_eq_false'] using hbit

/-- VPIDs are on, and MOV to CR3 exits, since both controls are required. -/
theorem setupVmcsConfig_controls {rdmsr : BitVec 32 → BitVec 64} {c : VmcsConfig}
    {cap : VmxCapability} (h : setupVmcsConfig rdmsr = .ok (c, cap)) :
    c.cpuBased2ndExecCtrl.getLsbD 5 = true ∧ c.cpuBasedExecCtrl.getLsbD 15 = true := by
  unfold setupVmcsConfig at h
  obtain ⟨cpuBased, hcpu, h⟩ := Exec.bind_eq_ok.mp h
  obtain ⟨cpuBased2nd, hcpu2, h⟩ := Exec.bind_eq_ok.mp h
  obtain ⟨_, -, h⟩ := Exec.bind_eq_ok.mp h
  obtain ⟨_, -, h⟩ := Exec.bind_eq_ok.mp h
  obtain ⟨_, -, h⟩ := Exec.bind_eq_ok.mp h
  obtain ⟨-, h⟩ := panicIf_bind_eq_ok.mp h
  obtain ⟨-, h⟩ := panicIf_bind_eq_ok.mp h
  obtain ⟨rfl, rfl⟩ := Prod.mk.inj (Except.ok.inj h)
  have hvpid : cpuBased2nd.getLsbD 5 = true := adjustVmxControls_min hcpu2 (by decide)
  have hcr3 : cpuBased.getLsbD 15 = true := adjustVmxControls_min hcpu (by decide)
  refine ⟨hvpid, ?_⟩
  simp [hcr3]

end Setup

/-- The fields that decide what becomes of the guest's translations. -/
def VmcsField.isTagging : VmcsField → Bool
  | cpuBasedVmExecControl | secondaryVmExecControl | virtualProcessorId => true
  | _ => false

/-- MOV to CR3 exits, and the translations of the guest are tagged with the VPID 1. -/
structure Tagged (v : Vmcs) : Prop where
  cr3Exits : (v.read32 cpuBasedVmExecControl).getLsbD 15 = true
  vpid : usesVpid v = true
  tag : v.read virtualProcessorId = 1#64

namespace Tagged

variable {img : VmxImage} {s s' s₀ : VmxState} {v w : Vmcs}

theorem congr (hv : Tagged v) (h : ∀ f : VmcsField, f.isTagging = true → w.read f = v.read f) :
    Tagged w where
  cr3Exits := by rw [Vmcs.read32, h _ rfl]; exact hv.cr3Exits
  vpid := by rw [usesVpid, Vmcs.read32, h _ rfl]; exact hv.vpid
  tag := by rw [h _ rfl]; exact hv.tag

theorem currentVpid (hv : Tagged v) : currentVpid v = 1#16 := by
  rw [Lvisor.currentVpid, if_pos hv.vpid, hv.tag]
  rfl

theorem ne_of_isTagging {f g : VmcsField} (hf : f.isTagging = true) (hg : g.isTagging = false) :
    f ≠ g := by
  rintro rfl
  rw [hf] at hg
  cases hg

theorem write {f : VmcsField} {x : BitVec 64} (hv : Tagged v) (hf : f.isTagging = false) :
    Tagged (v.write f x) :=
  hv.congr fun _ hg => Vmcs.read_write_ne (ne_of_isTagging hg hf)

theorem setSegment {var : KvmSegment} {seg : Sreg} (hv : Tagged v) :
    Tagged (vmxSetSegment v var seg) :=
  (((hv.write rfl).write rfl).write rfl).write rfl

theorem recordExit (hv : Tagged v) (x : ExitInfo) : Tagged (v.recordExit x) :=
  ((((hv.write rfl).write rfl).write rfl).write rfl).write rfl

theorem work (hs : Tagged s.vmcs) (w : GuestWork) : Tagged (w.apply s).vmcs := by
  refine hs.congr fun f hf => w.read_apply ?_
  cases f <;> first | rfl | cases hf

theorem handleExit {env : ExitEnv} (hs : Tagged s.vmcs) (h : vmxHandleExit img env s = .ok s') :
    Tagged s'.vmcs := by
  refine hs.congr fun f hf => (vmxHandleExit_frame h).read f ?_
  cases f <;> first | rfl | cases hf

/-- The control registers come last, and are none of the three fields. -/
theorem setupControlRegisters (hv : Tagged v) (hefer : v.read guestIa32Efer = 0#64) :
    Tagged (setupControlRegisters v) := by
  unfold Lvisor.setupControlRegisters
  dsimp only
  rw [vmxSetCr0_of_not_lme (by simp [hefer]), vmxSetCr4]
  exact ((((((hv.write rfl).write rfl).write rfl).write rfl).write rfl).write rfl).write rfl

/-- `vmx_vcpu_setup` writes the controls of `vmcs_config` and the VPID 1. -/
theorem of_vcpuSetup (h : vmxVcpuSetup img s = .ok s')
    (hefer : s.vmcs.read guestIa32Efer = 0#64)
    (hvpid : s.vmcsConfig.cpuBased2ndExecCtrl.getLsbD 5 = true)
    (hcr3 : s.vmcsConfig.cpuBasedExecCtrl.getLsbD 15 = true) : Tagged s'.vmcs := by
  unfold vmxVcpuSetup at h
  rw [bugOn_bind_eq_ok, Exec.bind_eq_ok] at h
  obtain ⟨-, trBase, -, h⟩ := h
  have hhost : ∀ f ∈ [guestIa32Efer, cpuBasedVmExecControl, secondaryVmExecControl],
      f ∉ (setupHost img s.vmcsConfig s.host trBase).map Prod.fst := by
    simp [setupHost]
  have hguest : ∀ f ∈ [guestIa32Efer, cpuBasedVmExecControl, secondaryVmExecControl],
      f ∉ setupGuest.map Prod.fst := by
    decide
  obtain rfl := Except.ok.inj h
  refine setupControlRegisters ⟨?_, ?_, ?_⟩ ?_
  · rw [Vmcs.read32, Vmcs.read_writeAll_of_notMem (hguest _ (by simp)),
      Vmcs.read_writeAll_of_notMem (hhost _ (by simp)), Vmcs.read_writeAll_of_last (n := 3) rfl]
    · simpa [VmcsField.width] using hcr3
    · simp [setupControls]
  · rw [usesVpid, Vmcs.read32, Vmcs.read_writeAll_of_notMem (hguest _ (by simp)),
      Vmcs.read_writeAll_of_notMem (hhost _ (by simp)), Vmcs.read_writeAll_of_last (n := 4) rfl]
    · simpa [VmcsField.width] using hvpid
    · simp [setupControls]
  · rw [Vmcs.read_writeAll_of_last (n := 46) rfl]
    · rfl
    · decide
  · rw [Vmcs.read_writeAll_of_notMem (hguest _ (by simp)),
      Vmcs.read_writeAll_of_notMem (hhost _ (by simp)),
      Vmcs.read_writeAll_of_notMem (by simp [setupControls])]
    exact hefer

/-- **Start**: boot leaves the guest's translations tagged with a VPID of their own. -/
theorem of_booted (h : Booted img s₀ s) : Tagged s.vmcs := by
  obtain ⟨hzero, s₁, s₂, startIp, hhw, hcreate, rfl⟩ := h
  obtain ⟨config, cap, bm, rfl, hconfig, -⟩ := vmxHardwareSetup_eq_ok hhw
  obtain ⟨host, s₃, hsetup, rfl⟩ := createVcpu_eq_ok hcreate
  obtain ⟨hvpid, hcr3⟩ := setupVmcsConfig_controls hconfig
  have hs₃ : Tagged s₃.vmcs := of_vcpuSetup hsetup (by rw [hzero, Vmcs.read_zero]) hvpid hcr3
  have htdp : Tagged (vmxSetTdp s₃.vmcs img.eptPml4) := hs₃.write rfl
  exact htdp.setSegment.write rfl

end Tagged

/-! ## What a step leaves of the TLB

A translation stays in the TLB until the processor drops it. Nothing that the VMM does makes it
do so, and an emulated MOV to CR3 is among that. -/

section Steps

variable {img : VmxImage} {env : ExitEnv} {st₀ st st' : TlbState} {s s₀ : VmxState}

/-- `handle_cr` of a MOV to CR3 writes `GUEST_CR3` and returns. -/
theorem guestStep_movToCr3 (img : VmxImage) (env : ExitEnv) (hs : Tagged s.vmcs) (reg : KvmReg)
    (len : BitVec 32) :
    ∃ s', guestStep img s (.movToCr3 reg len, env) = .ok s' ∧
      s'.vmcs.read guestCr3 = s.regs reg := by
  have hexit : guestExit s (.movToCr3 reg len) = some (crExit 3 reg len) := if_pos hs.cr3Exits
  have hcr : ((s.vmcs.recordExit (crExit 3 reg len)).read exitQualification) =
      3#64 ||| reg.index.setWidth 64 <<< 8 := by
    simp [Vmcs.recordExit, crExit, VmcsField.width]
  obtain ⟨hc, hr⟩ := crExit_qualification (show 3#64 ∈ [0#64, 3#64, 4#64] by decide) reg
  have hop : ((3#64 ||| reg.index.setWidth 64 <<< 8) >>> 4) &&& 3#64 = 0#64 := by
    cases reg <;> decide
  refine ⟨vmxSkipEmulatedInstruction { s with
    vmcs := vmxSetCr3 (s.vmcs.recordExit (crExit 3 reg len)) (s.regs reg) }, ?_, ?_⟩
  · simp only [guestStep, hexit, exitWith, vmxHandleExit, read32_recordExit_reason]
    change handleCr _ = _
    unfold handleCr
    dsimp only
    rw [hcr, hop, hc, hr]
    rfl
  · rw [skip_read (f := guestCr3) (by decide) (by decide), vmxSetCr3, Vmcs.read_write_of_width rfl]

/-- **MOV to CR3**: it exits, and the TLB stays as it was. -/
theorem tlbStep_movToCr3 (img : VmxImage) (env : ExitEnv) (hst : Tagged st.vmx.vmcs)
    (reg : KvmReg) (len : BitVec 32) :
    ∃ vmx, tlbStep img st (.movToCr3 reg len, env) = .ok { vmx, tlb := st.tlb } ∧
      vmx.vmcs.read guestCr3 = st.vmx.regs reg := by
  obtain ⟨vmx, hvmx, hcr3⟩ := guestStep_movToCr3 img env hst reg len
  have hexit : guestExit st.vmx (.movToCr3 reg len) = some (crExit 3 reg len) :=
    if_pos hst.cr3Exits
  refine ⟨vmx, ?_, hcr3⟩
  simp only [tlbStep, hvmx, hexit, vmTransition, hst.vpid, if_true]
  rfl

/-- **Step**: the guest's translations stay tagged. -/
theorem Tagged.step {e : TlbAct × ExitEnv} (hst : Tagged st.vmx.vmcs)
    (h : tlbStep img st e = .ok st') : Tagged st'.vmx.vmcs := by
  obtain ⟨a, env⟩ := e
  cases a with
  | access linear physical isGlobal =>
    obtain rfl := Except.ok.inj h
    exact hst
  | movToCr3 reg len =>
    obtain ⟨vmx, hvmx, h⟩ := Exec.bind_eq_ok.mp h
    obtain rfl := Except.ok.inj h
    rw [guestStep, show guestExit st.vmx (.movToCr3 reg len) = some (crExit 3 reg len) from
      if_pos hst.cr3Exits] at hvmx
    exact (hst.recordExit _).handleExit hvmx
  | work w =>
    obtain rfl := Except.ok.inj h
    exact hst.work w

/-- **Step**: what is cached after a step was cached before, unless the step is an access. -/
theorem mem_tlb_step {e : TlbAct × ExitEnv} (hst : Tagged st.vmx.vmcs)
    (h : tlbStep img st e = .ok st') (x : TlbEntry) :
    x ∈ st'.tlb ↔ x ∈ st.tlb ∨ ∃ linear physical isGlobal,
      e.1 = .access linear physical isGlobal ∧
      x = cachedEntry st.vmx.vmcs linear physical isGlobal := by
  obtain ⟨a, env⟩ := e
  cases a with
  | access linear physical isGlobal =>
    obtain rfl := Except.ok.inj h
    rw [List.mem_cons, or_comm]
    refine or_congr_right ⟨fun hx => ⟨_, _, _, rfl, hx⟩, ?_⟩
    rintro ⟨_, _, _, he, rfl⟩
    cases he
    rfl
  | movToCr3 reg len =>
    obtain ⟨vmx, hvmx, -⟩ := tlbStep_movToCr3 img env hst reg len
    obtain rfl := Except.ok.inj (h.symm.trans hvmx)
    simp
  | work w =>
    obtain rfl := Except.ok.inj h
    simp

/-- **Run**: the translations cached at the end of a run are those of its accesses, and those
cached at its start. -/
theorem mem_tlb_run {acts : List (TlbAct × ExitEnv)} (hst : Tagged st₀.vmx.vmcs)
    (h : runSteps (tlbStep img) st₀ acts = .ok st) (x : TlbEntry) :
    x ∈ st.tlb ↔ x ∈ st₀.tlb ∨ ∃ acts₁ linear physical isGlobal env acts₂ st₁,
      acts = acts₁ ++ (.access linear physical isGlobal, env) :: acts₂ ∧
      runSteps (tlbStep img) st₀ acts₁ = .ok st₁ ∧
      x = cachedEntry st₁.vmx.vmcs linear physical isGlobal := by
  induction acts generalizing st₀ with
  | nil =>
    obtain rfl := Except.ok.inj h
    simp
  | cons e acts ih =>
    obtain ⟨st₁, h₁, h₂⟩ := runSteps_cons_eq_ok.mp h
    rw [ih (hst.step h₁) h₂, mem_tlb_step hst h₁, or_assoc]
    refine or_congr_right ?_
    constructor
    · rintro (⟨linear, physical, isGlobal, he, rfl⟩ |
        ⟨acts₁, linear, physical, isGlobal, env, acts₂, st₂, rfl, hrun, rfl⟩)
      · exact ⟨[], linear, physical, isGlobal, e.2, acts, st₀, by rw [← he]; rfl, rfl, rfl⟩
      · exact ⟨e :: acts₁, linear, physical, isGlobal, env, acts₂, st₂, rfl,
          runSteps_cons_eq_ok.mpr ⟨st₁, h₁, hrun⟩, rfl⟩
    · rintro ⟨acts₁, linear, physical, isGlobal, env, acts₂, st₂, hacts, hrun, rfl⟩
      cases acts₁ with
      | nil =>
        obtain ⟨rfl, rfl⟩ := List.cons.inj hacts
        obtain rfl := Except.ok.inj hrun
        exact .inl ⟨linear, physical, isGlobal, rfl, rfl⟩
      | cons e' acts₁ =>
        obtain ⟨rfl, rfl⟩ := List.cons.inj hacts
        obtain ⟨st₃, h₃, hrun⟩ := runSteps_cons_eq_ok.mp hrun
        obtain rfl := Except.ok.inj (h₁.symm.trans h₃)
        exact .inr ⟨acts₁, linear, physical, isGlobal, env, acts₂, st₂, rfl, hrun, rfl⟩

theorem Tagged.run {acts : List (TlbAct × ExitEnv)} (hst : Tagged st₀.vmx.vmcs)
    (h : runSteps (tlbStep img) st₀ acts = .ok st) : Tagged st.vmx.vmcs :=
  runSteps_invariant (P := fun st => Tagged st.vmx.vmcs) (fun _ _ _ hs h => hs.step h) hst h

/-- **Stale translations**: in every run from boot, each MOV to CR3 leaves the guest no
translation of the old CR3 but global ones, exactly when the guest had cached no others. -/
theorem noStale_iff (hboot : Booted img s₀ s) (acts : List (TlbAct × ExitEnv)) :
    (∀ acts' e st st', acts' ++ [e] <+: acts →
        runSteps (tlbStep img) { vmx := s, tlb := [] } acts' = .ok st → e.1.IsMovToCr3 →
        tlbStep img st e = .ok st' → NoStale st st') ↔
      AccessesGlobal img { vmx := s, tlb := [] } acts := by
  have htag : Tagged s.vmcs := .of_booted hboot
  have hinit : Tagged ({ vmx := s, tlb := [] } : TlbState).vmx.vmcs := htag
  constructor
  · intro hall acts₁ linear physical isGlobal env acts₂ e st₁ st hacts he h₁ h₂ hcr3
    have hrun : runSteps (tlbStep img) { vmx := s, tlb := [] }
        (acts₁ ++ (.access linear physical isGlobal, env) :: acts₂) = .ok st :=
      runSteps_append_eq_ok.mpr ⟨st₁, h₁, h₂⟩
    obtain ⟨a, env'⟩ := e
    cases a with
    | movToCr3 reg len =>
      have hst : Tagged st.vmx.vmcs := hinit.run hrun
      obtain ⟨vmx, hstep, -⟩ := tlbStep_movToCr3 img env' hst reg len
      have hmem : cachedEntry st₁.vmx.vmcs linear physical isGlobal ∈ st.tlb :=
        (mem_tlb_run htag hrun _).mpr
          (.inr ⟨acts₁, linear, physical, isGlobal, env, acts₂, st₁, rfl, h₁, rfl⟩)
      refine hall _ _ _ _ hacts hrun trivial hstep _ hmem ?_ hcr3
      have hst₁ : Tagged st₁.vmx.vmcs := hinit.run h₁
      exact hst₁.currentVpid.trans (hst.step hstep).currentVpid.symm
    | access _ _ _ => cases he
    | work _ => cases he
  · intro hall acts' e st st' hacts hrun he hstep x hx _ hcr3
    obtain ⟨a, env'⟩ := e
    cases a with
    | movToCr3 reg len =>
      have hst : Tagged st.vmx.vmcs := hinit.run hrun
      obtain ⟨vmx, hstep', -⟩ := tlbStep_movToCr3 img env' hst reg len
      obtain rfl := Except.ok.inj (hstep.symm.trans hstep')
      obtain hx | ⟨acts₁, linear, physical, isGlobal, env, acts₂, st₁, rfl, h₁, rfl⟩ :=
        (mem_tlb_run htag hrun x).mp hx
      · cases hx
      · obtain ⟨st₂, h₁', h₂⟩ := runSteps_append_eq_ok.mp hrun
        obtain rfl := Except.ok.inj (h₁.symm.trans h₁')
        exact hall acts₁ linear physical isGlobal env acts₂ _ _ _ hacts he h₁ h₂ hcr3
    | access _ _ _ => cases he
    | work _ => cases he

end Steps

/-- A guest that reads a page of its own and then switches to another address space. -/
def switchActs (isGlobal : Bool) : List (TlbAct × ExitEnv) :=
  [(.access 0x401000#64 0x9000#64 isGlobal, quietEnv),
    (.work (loadMsr 0 0x7000#64), quietEnv), (.movToCr3 .rax 3, quietEnv)]

theorem noStale_iff_switchActs :
    ∃ s st, Booted vmmVmxImage resetState s ∧
      runSteps (tlbStep vmmVmxImage) { vmx := s, tlb := [] } (switchActs true) = .ok st ∧
      st.vmx.vmcs.read guestCr3 = 0x7000#64 ∧
      ((∀ acts' e st st', acts' ++ [e] <+: switchActs true →
          runSteps (tlbStep vmmVmxImage) { vmx := s, tlb := [] } acts' = .ok st →
          e.1.IsMovToCr3 → tlbStep vmmVmxImage st e = .ok st' → NoStale st st') ↔
        AccessesGlobal vmmVmxImage { vmx := s, tlb := [] } (switchActs true)) := by
  obtain ⟨s, st, hboot, hrun, hcr3⟩ := exists_booted resetState rfl
    (f := fun s => runSteps (tlbStep vmmVmxImage) { vmx := s, tlb := [] } (switchActs true))
    (p := fun st => st.vmx.vmcs.read guestCr3 = 0x7000#64) (by decide +kernel)
  exact ⟨s, st, hboot, hrun, of_decide_eq_true hcr3, noStale_iff hboot (switchActs true)⟩

/-- The translation of the old address space is still there, under the tag of the guest. -/
theorem stale_switchActs :
    ∃ s acts e st st', Booted vmmVmxImage resetState s ∧ acts ++ [e] = switchActs false ∧
      runSteps (tlbStep vmmVmxImage) { vmx := s, tlb := [] } acts = .ok st ∧
      e.1.IsMovToCr3 ∧ tlbStep vmmVmxImage st e = .ok st' ∧ ¬NoStale st st' := by
  obtain ⟨s, ⟨st, st'⟩, hboot, hrun, hp⟩ := exists_booted resetState rfl
    (f := fun s => do
      let st ← runSteps (tlbStep vmmVmxImage) { vmx := s, tlb := [] } ((switchActs false).take 2)
      let st' ← tlbStep vmmVmxImage st (.movToCr3 .rax 3, quietEnv)
      return (st, st'))
    (p := fun sts => sts.2.tlb.any fun x => x.vpid = currentVpid sts.2.vmx.vmcs ∧
      x.cr3 = sts.1.vmx.vmcs.read guestCr3 ∧ x.isGlobal = false) (by decide +kernel)
  obtain ⟨st₁, hst, hrun⟩ := Exec.bind_eq_ok.mp hrun
  obtain ⟨st₂, hst', hrun⟩ := Exec.bind_eq_ok.mp hrun
  obtain ⟨rfl, rfl⟩ := Prod.mk.inj (Except.ok.inj hrun)
  obtain ⟨x, hx, hstale⟩ := List.any_eq_true.mp hp
  obtain ⟨hvpid, hcr3, hglobal⟩ := of_decide_eq_true hstale
  refine ⟨s, (switchActs false).take 2, _, _, _, hboot, rfl, hst, trivial, hst', fun hno => ?_⟩
  rw [hno x hx hvpid hcr3] at hglobal
  cases hglobal

end Lvisor
