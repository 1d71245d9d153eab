import Lvisor.KvmLoop
import Lvisor.Tlb

/-!
# The host after a VM exit (`vmx.c`)

At each VM exit the processor takes its own state back from the VMCS. `vmx_vcpu_setup` fills these
fields in once, and `vmx_vcpu_run` writes only the stack pointer again, if it is another one than
`host_rsp` says.

* `VmxState.loadHost` — what the processor has after an exit;
* `KeepsHost` — the fields of the host and the controls of exits stay as they are;
* `HostFixed` — what is in these fields in every state of the loop, and that `host_rsp` tells the
  stack pointer there;
* `exit_restores_host` — every exit, in whichever run, leaves the processor with what it had when
  the VMCS was set up.
-/

namespace Lvisor

open VmcsField

/-! ## What a VM exit loads

The exit controls say which MSRs are loaded. The fields that the setup does not write have the
value of a cleared VMCS, and an exit loads that too. -/

/-- The state of the host that a VM exit loads. -/
@[ext] structure HostContext where
  longMode : Bool
  cr0 : BitVec 64
  cr3 : BitVec 64
  cr4 : BitVec 64
  es : BitVec 64
  cs : BitVec 64
  ss : BitVec 64
  ds : BitVec 64
  fs : BitVec 64
  gs : BitVec 64
  tr : BitVec 64
  fsBase : BitVec 64
  gsBase : BitVec 64
  trBase : BitVec 64
  gdtrBase : BitVec 64
  idtrBase : BitVec 64
  sysenterCs : BitVec 64
  sysenterEsp : BitVec 64
  sysenterEip : BitVec 64
  efer : BitVec 64
  pat : BitVec 64
  rsp : BitVec 64
  rip : BitVec 64
  /-- the MSRs that are switched through memory -/
  msrs : SavedMsr → BitVec 64

/-- `VM_EXIT_HOST_ADDR_SPACE_SIZE`: exits lead to 64-bit mode. -/
abbrev vmExitHostAddrSpaceSize : BitVec 32 := 0x200#32

/-- `VM_EXIT_LOAD_IA32_PAT`: exits load the PAT of the host. -/
abbrev vmExitLoadIa32Pat : BitVec 32 := 0x80000#32

/-- `VM_EXIT_LOAD_IA32_EFER`: exits load the EFER of the host. -/
abbrev vmExitLoadIa32Efer : BitVec 32 := 0x200000#32

/-- The processor after an exit: what it loads is in the VMCS, and the rest is the guest's. -/
def VmxState.loadHost (img : VmxImage) (s : VmxState) (guest : HostContext) : HostContext where
  longMode := s.vmcs.read32 vmExitControls &&& vmExitHostAddrSpaceSize ≠ 0#32
  cr0 := s.vmcs.read hostCr0
  cr3 := s.vmcs.read hostCr3
  cr4 := s.vmcs.read hostCr4
  es := s.vmcs.read hostEsSelector
  cs := s.vmcs.read hostCsSelector
  ss := s.vmcs.read hostSsSelector
  ds := s.vmcs.read hostDsSelector
  fs := s.vmcs.read hostFsSelector
  gs := s.vmcs.read hostGsSelector
  tr := s.vmcs.read hostTrSelector
  fsBase := s.vmcs.read hostFsBase
  gsBase := s.vmcs.read hostGsBase
  trBase := s.vmcs.read hostTrBase
  gdtrBase := s.vmcs.read hostGdtrBase
  idtrBase := s.vmcs.read hostIdtrBase
  sysenterCs := s.vmcs.read hostIa32SysenterCs
  sysenterEsp := s.vmcs.read hostIa32SysenterEsp
  sysenterEip := s.vmcs.read hostIa32SysenterEip
  efer :=
    if s.vmcs.read32 vmExitControls &&& vmExitLoadIa32Efer ≠ 0#32 then s.vmcs.read hostIa32Efer
    else guest.efer
  pat :=
    if s.vmcs.read32 vmExitControls &&& vmExitLoadIa32Pat ≠ 0#32 then s.vmcs.read hostIa32Pat
    else guest.pat
  rsp := s.vmcs.read VmcsField.hostRsp
  rip := s.vmcs.read hostRip
  msrs :=
    if s.vmcs.read32 vmExitMsrLoadCount = 4#32 ∧ s.vmcs.read vmExitMsrLoadAddr = img.hostMsrs then
      s.hostMsrs
    else guest.msrs

/-- What the processor has before it enters the guest, with the TSS at `trBase` and the stack
pointer `rsp`. If the PAT is not switched, the guest's stays. `trap_init` has put 0 into
`MSR_IA32_SYSENTER_ESP`, the only register here that `vmx_vcpu_setup` has no field written for. -/
def VmxState.hostContext (img : VmxImage) (s : VmxState) (trBase rsp : BitVec 64)
    (guest : HostContext) : HostContext where
  longMode := true
  cr0 := s.host.cr0
  cr3 := s.host.cr3
  cr4 := s.host.cr4
  es := 0x18
  cs := 0x10
  ss := 0x18
  ds := 0x18
  fs := 0
  gs := 0
  tr := 0x40
  fsBase := s.host.msrs msrFsBase
  gsBase := s.host.msrs msrGsBase
  trBase := trBase
  gdtrBase := s.host.gdt
  idtrBase := s.host.idt
  sysenterCs := ((s.host.msrs msrIa32SysenterCs).setWidth 32).setWidth 64
  sysenterEsp := 0
  sysenterEip := s.host.msrs msrIa32SysenterEip
  efer := s.host.msrs msrEfer
  pat :=
    if s.vmcsConfig.vmexitCtrl &&& vmExitLoadIa32Pat ≠ 0#32 then s.host.msrs msrIa32CrPat
    else guest.pat
  rsp := rsp
  rip := img.vmxReturn
  msrs m := s.host.msrs m.index

/-! ## What stays

Neither the guest nor a handler writes a field of the host; the frame of each of them says so,
and a run is the composition of the frames. -/

/-- The fields that an exit loads the host from, and the controls of exits. -/
def VmcsField.isHost : VmcsField → Bool
  | hostEsSelector | hostCsSelector | hostSsSelector | hostDsSelector
  | hostFsSelector | hostGsSelector | hostTrSelector
  | hostIa32Pat | hostIa32Efer | hostIa32SysenterCs
  | hostCr0 | hostCr3 | hostCr4 | hostFsBase | hostGsBase | hostTrBase
  | hostGdtrBase | hostIdtrBase | hostIa32SysenterEsp | hostIa32SysenterEip
  | hostRsp | hostRip
  | vmExitControls | vmExitMsrLoadCount | vmExitMsrLoadAddr => true
  | _ => false

/-- The state of the host is as before: its fields of the VMCS, its MSRs to load, and its stack
pointer. -/
structure KeepsHost (s s' : VmxState) : Prop where
  read : ∀ f : VmcsField, f.isHost = true → s'.vmcs.read f = s.vmcs.read f
  hostMsrs : s'.hostMsrs = s.hostMsrs
  hostRsp : s'.hostRsp = s.hostRsp

section Frames

variable {img : VmxImage} {env : ExitEnv} {s s' s₁ s₂ s₃ : VmxState} {f g : VmcsField}

theorem KeepsHost.refl (s : VmxState) : KeepsHost s s := ⟨fun _ _ => rfl, rfl, rfl⟩

theorem KeepsHost.trans (h : KeepsHost s₁ s₂) (h' : KeepsHost s₂ s₃) : KeepsHost s₁ s₃ :=
  ⟨fun f hf => (h'.read f hf).trans (h.read f hf), h'.hostMsrs.trans h.hostMsrs,
    h'.hostRsp.trans h.hostRsp⟩

theorem ne_of_isHost (hf : f.isHost = true) (hg : g.isHost = false) : f ≠ g := by
  rintro rfl
  simp [hf] at hg

theorem exitWrites_of_isHost (hf : f.isHost = true) : f.exitWrites = false := by
  cases f <;> first | rfl | cases hf

theorem guestOwned_of_isHost (hf : f.isHost = true) : f.guestOwned = false := by
  cases f <;> first | rfl | cases hf

theorem keepsHost_write {x : BitVec 64} (hg : g.isHost = false) :
    KeepsHost s { s with vmcs := s.vmcs.write g x } :=
  ⟨fun _ hf => Vmcs.read_write_ne (ne_of_isHost hf hg), rfl, rfl⟩

theorem keepsHost_recordExit (s : VmxState) (x : ExitInfo) :
    KeepsHost s { s with vmcs := s.vmcs.recordExit x } := by
  refine ⟨fun f hf => ?_, rfl, rfl⟩
  have hne {g : VmcsField} (hg : g.isHost = false) : f ≠ g := ne_of_isHost hf hg
  rw [Vmcs.recordExit, Vmcs.read_write_ne (hne rfl), Vmcs.read_write_ne (hne rfl),
    Vmcs.read_write_ne (hne rfl), Vmcs.read_write_ne (hne rfl), Vmcs.read_write_ne (hne rfl)]

theorem keepsHost_vmxHandleExit (h : vmxHandleExit img env s = .ok s') : KeepsHost s s' :=
  ⟨fun f hf => (vmxHandleExit_frame h).read f (exitWrites_of_isHost hf),
    (vmxHandleExit_frame h).hostMsrs, (vmxHandleExit_frame h).hostRsp⟩

/-- No MSR of the guest is in a field of the host. -/
theorem isHost_of_msrField {msr : BitVec 32} (h : msrField msr = some f) : f.isHost = false := by
  unfold msrField at h
  repeat' split at h
  all_goals cases h
  all_goals rfl

theorem keepsHost_guestDirect (s : VmxState) (a : GuestAct) : KeepsHost s (guestDirect s a) := by
  cases a with
  | work w => exact ⟨fun f hf => w.read_apply (guestOwned_of_isHost hf), rfl, rfl⟩
  | movToCr0 reg len =>
    exact ((keepsHost_write rfl).trans (keepsHost_write rfl)).trans (keepsHost_write rfl)
  | movToCr3 reg len => exact keepsHost_write rfl
  | movToCr4 reg len => exact keepsHost_write rfl
  | wrmsr len =>
    rw [guestDirect, writeMsr]
    split
    · next f hf => exact keepsHost_write (isHost_of_msrField hf)
    · exact ⟨fun _ _ => rfl, rfl, rfl⟩
    · exact ⟨fun _ _ => rfl, rfl, rfl⟩
  | _ => exact KeepsHost.refl s

/-- The guest runs and exits, and reaches none of that. -/
theorem keepsHost_guestRun (x : ExitInfo) (acts : List GuestAct) (s : VmxState) :
    KeepsHost s (guestRun x s acts) := by
  induction acts generalizing s with
  | nil => exact keepsHost_recordExit s x
  | cons a acts ih =>
    rw [guestRun]
    split
    · exact keepsHost_recordExit s _
    · exact (keepsHost_guestDirect s a).trans (ih _)

end Frames

/-! ## What is there

The one field that changes is the stack pointer. `vmx_vcpu_run` remembers what it has written
there in `host_rsp` and leaves out a write of the same value, which is right when the memory of
it is. -/

/-- The VMCS has of the host what it has in `s₂`, and `host_rsp` tells the stack pointer. -/
structure HostFixed (s₂ s : VmxState) : Prop where
  read : ∀ f : VmcsField, f.isHost = true → f ≠ VmcsField.hostRsp →
    s.vmcs.read f = s₂.vmcs.read f
  hostMsrs : s.hostMsrs = s₂.hostMsrs
  rsp : s.vmcs.read VmcsField.hostRsp = s.hostRsp

section Fixed

variable {img : VmxImage} {st st' : LoopState} {i : LoopInput} {s s' s₂ : VmxState}

theorem HostFixed.congr (h : HostFixed s₂ s) (hkeeps : KeepsHost s s') : HostFixed s₂ s' where
  read f hf hne := (hkeeps.read f hf).trans (h.read f hf hne)
  hostMsrs := hkeeps.hostMsrs.trans h.hostMsrs
  rsp := by rw [hkeeps.read _ rfl, h.rsp, hkeeps.hostRsp]

/-- `vmx_vcpu_run` writes the stack pointer if it is not the one that `host_rsp` tells. -/
theorem HostFixed.cacheRsp (h : HostFixed s₂ s) (rsp : BitVec 64) :
    let s₁ := if s.hostRsp = rsp then s
      else { s with hostRsp := rsp, vmcs := s.vmcs.write VmcsField.hostRsp rsp }
    HostFixed s₂ s₁ ∧ s₁.hostRsp = rsp := by
  intro s₁
  by_cases hrsp : s.hostRsp = rsp
  · have hs₁ : s₁ = s := if_pos hrsp
    rw [hs₁]
    exact ⟨h, hrsp⟩
  · have hs₁ : s₁ = { s with hostRsp := rsp, vmcs := s.vmcs.write VmcsField.hostRsp rsp } :=
      if_neg hrsp
    rw [hs₁]
    exact ⟨⟨fun f hf hne => (Vmcs.read_write_ne hne).trans (h.read f hf hne), h.hostMsrs,
      Vmcs.read_write_of_width rfl⟩, rfl⟩

/-- An entry keeps it, whether it fails or not. -/
theorem HostFixed.vmxVcpuRun (h : HostFixed s₂ s) (ls : LaunchState) (i : LoopInput) :
    HostFixed s₂ (vmxVcpuRun ls i s).1 ∧ (vmxVcpuRun ls i s).1.hostRsp = i.rsp := by
  obtain ⟨hcached, hrsp⟩ := h.cacheRsp i.rsp
  unfold Lvisor.vmxVcpuRun
  dsimp only
  generalize (if s.hostRsp = i.rsp then s
    else { s with hostRsp := i.rsp, vmcs := s.vmcs.write VmcsField.hostRsp i.rsp }) = s₁ at *
  split
  · next t ht =>
    have hkeeps : KeepsHost s₁ t := by
      unfold vmEnter at ht
      split at ht
      · rw [Option.ite_none_right_eq_some] at ht
        obtain rfl := Option.some.inj ht.2
        exact keepsHost_guestRun _ _ s₁
      · cases ht
    have hfixed := hcached.congr hkeeps
    exact ⟨⟨hfixed.read, hfixed.hostMsrs, hfixed.rsp⟩, hkeeps.hostRsp.trans hrsp⟩
  · exact ⟨⟨hcached.read, hcached.hostMsrs, hcached.rsp⟩, hrsp⟩

theorem HostFixed.loopStep (h : HostFixed s₂ st.vmx) (hstep : loopStep img st i = .ok st') :
    HostFixed s₂ st'.vmx := by
  obtain ⟨vmx, hvmx, rfl⟩ := loopStep_eq_ok hstep
  exact (h.vmxVcpuRun st.launchState i).1.congr (keepsHost_vmxHandleExit hvmx)

end Fixed

/-! ## What was put there -/

/-- A field that a sequence writes once has what was written, cut to its width. -/
theorem Vmcs.read_writeAll_of_mem {v : Vmcs} {ws : List (VmcsField × BitVec 64)} {f : VmcsField}
    {x : BitVec 64} (hnodup : (ws.map Prod.fst).Nodup) (hmem : (f, x) ∈ ws) :
    (v.writeAll ws).read f = (x.setWidth f.width).setWidth 64 := by
  induction ws generalizing v with
  | nil => cases hmem
  | cons w ws ih =>
    obtain ⟨hnot, hrest⟩ := List.nodup_cons.mp hnodup
    rcases List.mem_cons.mp hmem with rfl | hmem
    · exact (Vmcs.read_writeAll_of_notMem hnot).trans Vmcs.read_write_same
    · exact ih hrest hmem

/-- The host and the controls, as `vmx_vcpu_setup` writes them. -/
def hostWrites (img : VmxImage) (s : VmxState) (trBase : BitVec 64) :
    List (VmcsField × BitVec 64) :=
  setupControls img s.vmcsConfig ++ setupHost img s.vmcsConfig s.host trBase

section Setup

variable {img : VmxImage} {s s' s₀ s₁ s₂ : VmxState} {f : VmcsField} {x trBase : BitVec 64}

theorem nodup_hostWrites (img : VmxImage) (s : VmxState) (trBase : BitVec 64) :
    ((hostWrites img s trBase).map Prod.fst).Nodup := by
  unfold hostWrites setupHost
  split <;> simp [setupControls]

theorem setupControlRegisters_host (v : Vmcs) (hf : f.isHost = true) :
    (setupControlRegisters v).read f = v.read f := by
  have hne {g : VmcsField} (hg : g.isHost = false) : f ≠ g := ne_of_isHost hf hg
  rw [setupControlRegisters, vmxSetCr4, Vmcs.read_write_ne (hne rfl), Vmcs.read_write_ne (hne rfl),
    Vmcs.read_write_ne (hne rfl), Vmcs.read_write_ne (hne rfl),
    vmxSetCr0_read (hne rfl) (hne rfl) (hne rfl) (hne rfl), Vmcs.read_write_ne (hne rfl),
    Vmcs.read_write_ne (hne rfl)]

/-- No field of the guest is one of the host. -/
theorem setupGuest_host (v : Vmcs) (hf : f.isHost = true) :
    (v.writeAll setupGuest).read f = v.read f := by
  have hguest : ∀ g ∈ setupGuest.map Prod.fst, g.isHost = false := by decide
  exact Vmcs.read_writeAll_of_notMem fun hmem => ne_of_isHost hf (hguest f hmem) rfl

/-- What `create_vcpu` leaves of the host: the VMCS has the state of the processor, and the area
of MSRs has its MSRs. -/
theorem createVcpu_host (h : createVcpu img s = .ok s') :
    ∃ trBase, getTrBase s'.host s'.mem = .ok trBase ∧ s'.host.tr = 0x40#16 ∧
      s'.vmcsConfig = s.vmcsConfig ∧ s'.hostRsp = s.hostRsp ∧
      (∀ m, s'.hostMsrs m = s'.host.msrs m.index) ∧
      ∀ f : VmcsField, f.isHost = true →
        s'.vmcs.read f = (s.vmcs.writeAll (hostWrites img s' trBase)).read f := by
  unfold createVcpu at h
  obtain ⟨s₁, henable, h⟩ := Exec.bind_eq_ok.mp h
  obtain ⟨s₂, hsetup, h⟩ := Exec.bind_eq_ok.mp h
  unfold vmxVcpuEnable at henable
  obtain rfl := Except.ok.inj (panicIf_bind_eq_ok.mp henable).2
  unfold vmxVcpuSetup at hsetup
  rw [bugOn_bind_eq_ok, Exec.bind_eq_ok] at hsetup
  obtain ⟨htr, trBase, htrBase, hsetup⟩ := hsetup
  obtain rfl := Except.ok.inj hsetup
  obtain rfl := Except.ok.inj h
  refine ⟨trBase, htrBase, by simpa using htr, rfl, rfl, fun _ => rfl, fun f hf => ?_⟩
  rw [vmxSetTdp, Vmcs.read_write_ne (ne_of_isHost hf rfl), setupControlRegisters_host _ hf,
    setupGuest_host _ hf, hostWrites, Vmcs.writeAll, Vmcs.writeAll, Vmcs.writeAll,
    List.foldl_append]

theorem and_ne_zero_of_getLsbD {w i : ℕ} {y m : BitVec w} (hy : y.getLsbD i = true)
    (hm : m.getLsbD i = true) : y &&& m ≠ 0#w := by
  intro hzero
  have hbit : (y &&& m).getLsbD i = true := by rw [BitVec.getLsbD_and, hy, hm]; rfl
  simp [hzero] at hbit

/-- Exits load `EFER`, and lead to 64-bit mode, since these controls are required. -/
theorem setupVmcsConfig_vmexit {rdmsr : BitVec 32 → BitVec 64} {c : VmcsConfig}
    {cap : VmxCapability} (h : setupVmcsConfig rdmsr = .ok (c, cap)) :
    c.vmexitCtrl &&& vmExitHostAddrSpaceSize ≠ 0#32 ∧
      c.vmexitCtrl &&& vmExitLoadIa32Efer ≠ 0#32 := by
  unfold setupVmcsConfig at h
  obtain ⟨_, -, h⟩ := Exec.bind_eq_ok.mp h
  obtain ⟨_, -, h⟩ := Exec.bind_eq_ok.mp h
  obtain ⟨vmexit, hexit, h⟩ := Exec.bind_eq_ok.mp h
  obtain ⟨_, -, h⟩ := Exec.bind_eq_ok.mp h
  obtain ⟨_, -, h⟩ := Exec.bind_eq_ok.mp h
  obtain ⟨-, h⟩ := panicIf_bind_eq_ok.mp h
  obtain ⟨-, h⟩ := panicIf_bind_eq_ok.mp h
  obtain ⟨rfl, rfl⟩ := Prod.mk.inj (Except.ok.inj h)
  have hlong : vmexit.getLsbD 9 = true := adjustVmxControls_min hexit (by decide)
  have hefer : vmexit.getLsbD 21 = true := adjustVmxControls_min hexit (by decide)
  exact ⟨and_ne_zero_of_getLsbD hlong (by decide), and_ne_zero_of_getLsbD hefer (by decide)⟩

/-- Each field of `setupHost` is one of the host. -/
theorem setupHost_isHost (img : VmxImage) (s : VmxState) (trBase : BitVec 64) :
    (setupHost img s.vmcsConfig s.host trBase).all
      (fun e => e.1.isHost && e.1 != VmcsField.hostRsp) = true := by
  unfold setupHost
  split
  · rfl
  · rfl

/-- What `setupHost` writes fits in its field, so that nothing is cut off. -/
theorem setupHost_fits (img : VmxImage) (s : VmxState) (trBase : BitVec 64) :
    ∀ e ∈ setupHost img s.vmcsConfig s.host trBase,
      (e.2.setWidth e.1.width).setWidth 64 = e.2 := by
  have h64 {f : VmcsField} (x : BitVec 64) (hf : f.width = 64) :
      (x.setWidth f.width).setWidth 64 = x := by
    rw [hf, BitVec.setWidth_eq, BitVec.setWidth_eq]
  have hsmall {n : ℕ} (x : BitVec n) (hn : n ≤ 64) :
      ((x.setWidth 64).setWidth n).setWidth 64 = x.setWidth 64 := by
    rw [BitVec.setWidth_setWidth_of_le _ hn, BitVec.setWidth_eq]
  rw [setupHost, List.forall_mem_append]
  constructor
  · simp only [List.forall_mem_cons, List.not_mem_nil, false_implies, implies_true, and_true]
    exact ⟨rfl, rfl, h64 _ rfl, h64 _ rfl, h64 _ rfl, h64 _ rfl, h64 _ rfl, h64 _ rfl, rfl, rfl,
      rfl, rfl, hsmall s.host.tr (by decide), h64 _ rfl, h64 _ rfl, h64 _ rfl, h64 _ rfl,
      hsmall ((s.host.msrs msrIa32SysenterCs).setWidth 32) (by decide), h64 _ rfl⟩
  · split
    · exact List.forall_mem_singleton.mpr (h64 _ rfl)
    · exact List.forall_mem_nil _

/-- A field of the host that was written, but for the stack pointer. -/
theorem HostFixed.read_hostWrites (hfixed : HostFixed s₂ s) (hcreate : createVcpu img s₁ = .ok s₂)
    (htrBase : getTrBase s₂.host s₂.mem = .ok trBase) (hf : f.isHost = true)
    (hne : f ≠ VmcsField.hostRsp) (hmem : (f, x) ∈ hostWrites img s₂ trBase) :
    s.vmcs.read f = (x.setWidth f.width).setWidth 64 := by
  obtain ⟨trBase', htrBase', -, -, -, -, hread⟩ := createVcpu_host hcreate
  obtain rfl : trBase = trBase' := Except.ok.inj (htrBase.symm.trans htrBase')
  rw [hfixed.read f hf hne, hread f hf,
    Vmcs.read_writeAll_of_mem (nodup_hostWrites img s₂ trBase) hmem]

theorem HostFixed.read_setupHost (hfixed : HostFixed s₂ s) (hcreate : createVcpu img s₁ = .ok s₂)
    (htrBase : getTrBase s₂.host s₂.mem = .ok trBase)
    (hmem : (f, x) ∈ setupHost img s₂.vmcsConfig s₂.host trBase) : s.vmcs.read f = x := by
  obtain ⟨hf, hne⟩ :=
    Bool.and_eq_true_iff.mp (List.all_eq_true.mp (setupHost_isHost img s₂ trBase) (f, x) hmem)
  rw [hfixed.read_hostWrites hcreate htrBase hf (bne_iff_ne.mp hne)
    (List.mem_append_right _ hmem), setupHost_fits img s₂ trBase (f, x) hmem]

/-- The controls of an exit are those that were configured. -/
theorem HostFixed.exitControls (hfixed : HostFixed s₂ s) (hcreate : createVcpu img s₁ = .ok s₂)
    (htrBase : getTrBase s₂.host s₂.mem = .ok trBase) :
    s.vmcs.read32 vmExitControls = s₂.vmcsConfig.vmexitCtrl ∧
      s.vmcs.read32 vmExitMsrLoadCount = 4#32 ∧ s.vmcs.read vmExitMsrLoadAddr = img.hostMsrs := by
  refine ⟨?_, ?_, ?_⟩
  · rw [Vmcs.read32, hfixed.read_hostWrites hcreate htrBase
      (x := s₂.vmcsConfig.vmexitCtrl.setWidth 64) rfl (by decide)
      (by simp [hostWrites, setupControls])]
    simp [VmcsField.width]
  · rw [Vmcs.read32, hfixed.read_hostWrites hcreate htrBase (x := 4) rfl (by decide)
      (by simp [hostWrites, setupControls])]
    rfl
  · rw [hfixed.read_hostWrites hcreate htrBase (x := img.hostMsrs) rfl (by decide)
      (by simp [hostWrites, setupControls])]
    simp [VmcsField.width]

/-- A field of the host that `create_vcpu` does not write has what the VMCS began with. -/
theorem HostFixed.read_unwritten (hfixed : HostFixed s₂ s) (hcreate : createVcpu img s₁ = .ok s₂)
    (hzero : s₁.vmcs = Vmcs.zero) (hf : f.isHost = true) (hne : f ≠ VmcsField.hostRsp)
    (hnot : ∀ trBase, f ∉ (hostWrites img s₂ trBase).map Prod.fst) : s.vmcs.read f = 0#64 := by
  obtain ⟨trBase, -, -, -, -, -, hread⟩ := createVcpu_host hcreate
  rw [hfixed.read f hf hne, hread f hf, Vmcs.read_writeAll_of_notMem (hnot trBase), hzero,
    Vmcs.read_zero]

/-- What an exit loads is what was there at `create_vcpu`. -/
theorem HostFixed.loadHost (hfixed : HostFixed s₂ s) (hcreate : createVcpu img s₁ = .ok s₂)
    (hzero : s₁.vmcs = Vmcs.zero) (htrBase : getTrBase s₂.host s₂.mem = .ok trBase)
    (hlong : s₂.vmcsConfig.vmexitCtrl &&& vmExitHostAddrSpaceSize ≠ 0#32)
    (hefer : s₂.vmcsConfig.vmexitCtrl &&& vmExitLoadIa32Efer ≠ 0#32) (guest : HostContext) :
    s.loadHost img guest = s₂.hostContext img trBase s.hostRsp guest := by
  obtain ⟨-, -, htr, -, -, hmsrs, -⟩ := createVcpu_host hcreate
  obtain ⟨hcontrols, hcount, harea⟩ := hfixed.exitControls hcreate htrBase
  have hhost (f : VmcsField) (x : BitVec 64)
      (hmem : (f, x) ∈ setupHost img s₂.vmcsConfig s₂.host trBase) : s.vmcs.read f = x :=
    hfixed.read_setupHost hcreate htrBase hmem
  ext1
  case longMode => simp [VmxState.loadHost, VmxState.hostContext, hcontrols, hlong]
  case msrs =>
    simp only [VmxState.loadHost, VmxState.hostContext, hcount, harea, and_self, if_true]
    rw [hfixed.hostMsrs]
    exact funext hmsrs
  case rsp => exact hfixed.rsp
  case efer =>
    simp only [VmxState.loadHost, VmxState.hostContext, hcontrols]
    rw [if_pos hefer]
    exact hhost hostIa32Efer _ (by simp [setupHost])
  case pat =>
    simp only [VmxState.loadHost, VmxState.hostContext, hcontrols]
    split_ifs with hload
    · exact hhost hostIa32Pat _ (by simp [setupHost, hload])
    · rfl
  case tr =>
    refine (hhost hostTrSelector (s₂.host.tr.setWidth 64) (by simp [setupHost])).trans ?_
    rw [htr]
    rfl
  case cr0 => exact hhost hostCr0 s₂.host.cr0 (by simp [setupHost])
  case cr3 => exact hhost hostCr3 s₂.host.cr3 (by simp [setupHost])
  case cr4 => exact hhost hostCr4 s₂.host.cr4 (by simp [setupHost])
  case es => exact hhost hostEsSelector 0x18 (by simp [setupHost])
  case cs => exact hhost hostCsSelector 0x10 (by simp [setupHost])
  case ss => exact hhost hostSsSelector 0x18 (by simp [setupHost])
  case ds => exact hhost hostDsSelector 0x18 (by simp [setupHost])
  case fs => exact hhost hostFsSelector 0 (by simp [setupHost])
  case gs => exact hhost hostGsSelector 0 (by simp [setupHost])
  case fsBase => exact hhost hostFsBase (s₂.host.msrs msrFsBase) (by simp [setupHost])
  case gsBase => exact hhost hostGsBase (s₂.host.msrs msrGsBase) (by simp [setupHost])
  case trBase => exact hhost hostTrBase trBase (by simp [setupHost])
  case gdtrBase => exact hhost hostGdtrBase s₂.host.gdt (by simp [setupHost])
  case idtrBase => exact hhost hostIdtrBase s₂.host.idt (by simp [setupHost])
  case sysenterCs =>
    exact hhost hostIa32SysenterCs (((s₂.host.msrs msrIa32SysenterCs).setWidth 32).setWidth 64)
      (by simp [setupHost])
  case sysenterEsp =>
    refine hfixed.read_unwritten (f := hostIa32SysenterEsp) hcreate hzero rfl (by decide)
      fun _ => ?_
    unfold hostWrites setupHost
    split <;> simp [setupControls]
  case sysenterEip =>
    exact hhost hostIa32SysenterEip (s₂.host.msrs msrIa32SysenterEip) (by simp [setupHost])
  case rip => exact hhost hostRip img.vmxReturn (by simp [setupHost])

/-- At the start of the loop the VMCS has the state of the host. -/
theorem HostFixed.of_createVcpu (hcreate : createVcpu img s = .ok s₂) (hzero : s.vmcs = Vmcs.zero)
    (hrsp : s.hostRsp = 0) (startIp : BitVec 32) :
    HostFixed s₂ (runVcpu s₂ startIp) := by
  obtain ⟨trBase, -, -, -, hcached, -, hread⟩ := createVcpu_host hcreate
  have hnot : VmcsField.hostRsp ∉ (hostWrites img s₂ trBase).map Prod.fst := by
    unfold hostWrites setupHost
    split <;> simp [setupControls]
  have hfixed : HostFixed s₂ s₂ := by
    refine ⟨fun _ _ _ => rfl, rfl, ?_⟩
    rw [hread _ rfl, Vmcs.read_writeAll_of_notMem hnot, hzero, Vmcs.read_zero, hcached, hrsp]
    rfl
  refine hfixed.congr ⟨fun f hf => ?_, rfl, rfl⟩
  have hne {g : VmcsField} (hg : g.isHost = false) : f ≠ g := ne_of_isHost hf hg
  rw [runVcpu]
  exact (Vmcs.read_write_ne (hne rfl)).trans
    (vmxSetSegment_read (hne rfl) (hne rfl) (hne rfl) (hne rfl))

end Setup

/-- **The host after an exit.** From boot on, in every state of `kvm_loop`, an exit of the guest
leaves the processor with what it had when the VMCS was set up, and with the stack pointer at which
the guest was entered. The one field of the host that is never written, `HOST_IA32_SYSENTER_ESP`,
loads the zero that the VMCS began with. -/
theorem exit_restores_host {img : VmxImage} {s₀ s₁ s₂ : VmxState} (hzero : s₀.vmcs = Vmcs.zero)
    (hrsp : s₀.hostRsp = 0) (hhw : vmxHardwareSetup s₀ = .ok s₁)
    (hcreate : createVcpu img s₁ = .ok s₂) :
    ∃ trBase, getTrBase s₂.host s₂.mem = .ok trBase ∧
      ∀ (startIp : BitVec 32) (is : List LoopInput) (st : LoopState) (i : LoopInput)
        (guest : HostContext),
        runSteps (loopStep img) (LoopState.init (runVcpu s₂ startIp)) is = .ok st →
          (st.run i).vmx.loadHost img guest = s₂.hostContext img trBase i.rsp guest := by
  obtain ⟨config, cap, bm, rfl, hconfig, -⟩ := vmxHardwareSetup_eq_ok hhw
  obtain ⟨trBase, htrBase, -, hsame, -⟩ := createVcpu_host hcreate
  obtain ⟨hlong, hefer⟩ := setupVmcsConfig_vmexit hconfig
  refine ⟨trBase, htrBase, fun startIp is st i guest hrun => ?_⟩
  have hst : HostFixed s₂ st.vmx :=
    runSteps_invariant (P := fun st => HostFixed s₂ st.vmx) (fun _ _ _ hs h => hs.loopStep h)
      (HostFixed.of_createVcpu hcreate hzero hrsp startIp) hrun
  obtain ⟨hentered, hrsp'⟩ := hst.vmxVcpuRun st.launchState i
  rw [← hrsp']
  exact hentered.loadHost hcreate hzero htrBase (by rw [hsame]; exact hlong)
    (by rw [hsame]; exact hefer) guest

/-- Two iterations, with a stack pointer of their own each, and the exit of the second. -/
theorem exit_restores_host_cpuidInput : ∃ s₁ s₂ trBase st,
    vmxHardwareSetup resetState = .ok s₁ ∧ createVcpu vmmVmxImage s₁ = .ok s₂ ∧
      runSteps (loopStep vmmVmxImage) (LoopState.init (runVcpu s₂ 0xf0000#32)) [cpuidInput] =
        .ok st ∧ st.exits = 1 ∧
      ∀ guest, (st.run { cpuidInput with rsp := 0x2000 }).vmx.loadHost vmmVmxImage guest =
        s₂.hostContext vmmVmxImage trBase 0x2000 guest := by
  obtain ⟨st, hst, hexits⟩ : ∃ st : LoopState, (do
      let s₁ ← vmxHardwareSetup resetState
      let s₂ ← createVcpu vmmVmxImage s₁
      runSteps (loopStep vmmVmxImage) (LoopState.init (runVcpu s₂ 0xf0000#32)) [cpuidInput]) =
        .ok st ∧ decide (st.exits = 1) = true :=
    Exec.exists_of_any (by decide +kernel)
  obtain ⟨s₁, hhw, hst⟩ := Exec.bind_eq_ok.mp hst
  obtain ⟨s₂, hcreate, hrun⟩ := Exec.bind_eq_ok.mp hst
  obtain ⟨trBase, -, hloads⟩ := exit_restores_host rfl rfl hhw hcreate
  exact ⟨s₁, s₂, trBase, st, hhw, hcreate, hrun, of_decide_eq_true hexits,
    fun guest => hloads _ _ _ { cpuidInput with rsp := 0x2000 } guest hrun⟩

end Lvisor
