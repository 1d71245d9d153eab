import Lvisor.KvmLoop

/-!
# The world switch (`vmx_vcpu_run`)

The instructions of `vmx_vcpu_run`, as a program over the registers, the stack and
`struct vcpu_vmx`. The register RCX has the address of the structure, until the guest's RCX takes
its place; it comes back from the stack after the VM exit.

* `RunState.exec`, `runStep` — the instructions, and what the processor does at a VM entry;
* `enter_runs` — at the VM entry the registers are those of `vcpu->regs`;
* `leave_runs` — after it `vcpu->regs` are those that the guest has left;
* `world_switch` — both, for the state after any runs;
* `vmxVcpuRun_refines` — the text does what `vmxVcpuRun` says in the loop of the VMM.
-/

namespace Lvisor

open VmcsField

/-! ## The program -/

/-- The 64-bit fields of `struct vcpu_vmx` that the text uses. -/
inductive VcpuField where
  | reg (r : KvmReg)
  | cr2
  | hostRsp
  deriving DecidableEq

/-- The labels of the text. Numeric labels are told apart by their places. -/
inductive RunLabel where
  /-- the first `1:` -/
  | hostRspSet
  /-- the first `2:` -/
  | cr2Set
  /-- the second `1:` -/
  | resume
  /-- the second `2:`, which is `vmx_return` -/
  | vmxReturn
  deriving DecidableEq

/-- The instructions of the text. Sources stand before destinations, as in the text, and a field
is one of the structure at `%0`, which is RCX. -/
inductive RunInstr where
  | label (l : RunLabel)
  | push (src : KvmReg)
  | pop (dst : KvmReg)
  | popField (dst : VcpuField)
  | load (src : VcpuField) (dst : KvmReg)
  | store (src : KvmReg) (dst : VcpuField)
  | storeStack (src : KvmReg) (disp : ℕ)
  | cmp (src dst : KvmReg)
  | cmpField (src : KvmReg) (dst : VcpuField)
  | vmwrite (src field : KvmReg)
  | movFromCr2 (dst : KvmReg)
  | movToCr2 (src : KvmReg)
  /-- `cmpl $0, %c[launched](%0)` -/
  | cmpLaunched
  | je (l : RunLabel)
  | jne (l : RunLabel)
  | jmp (l : RunLabel)
  | vmlaunch
  | vmresume
  /-- `setbe %c[fail](%0)` -/
  | setbeFail
  /-- `vmx->launched = 1;` -/
  | setLaunched
  deriving DecidableEq

/-- The text of `vmx_vcpu_run`. -/
def vmxVcpuRunText : List RunInstr :=
  [ -- store host registers
    .push .rdx, .push .rbp, .push .rcx, .push .rcx,
    .cmpField .rsp .hostRsp, .je .hostRspSet, .store .rsp .hostRsp, .vmwrite .rsp .rdx,
    .label .hostRspSet,
    -- reload cr2 if changed
    .load .cr2 .rax, .movFromCr2 .rdx, .cmp .rax .rdx, .je .cr2Set, .movToCr2 .rax,
    .label .cr2Set,
    -- check if vmlaunch or vmresume is needed
    .cmpLaunched,
    -- load guest registers; don't clobber flags
    .load (.reg .rax) .rax, .load (.reg .rbx) .rbx, .load (.reg .rdx) .rdx,
    .load (.reg .rsi) .rsi, .load (.reg .rdi) .rdi, .load (.reg .rbp) .rbp,
    .load (.reg .r8) .r8, .load (.reg .r9) .r9, .load (.reg .r10) .r10, .load (.reg .r11) .r11,
    .load (.reg .r12) .r12, .load (.reg .r13) .r13, .load (.reg .r14) .r14,
    .load (.reg .r15) .r15, .load (.reg .rcx) .rcx,
    -- enter guest mode
    .jne .resume, .vmlaunch, .jmp .vmxReturn, .label .resume, .vmresume, .label .vmxReturn,
    -- save guest registers, load host registers, keep flags
    .storeStack .rcx 8, .pop .rcx, .store .rax (.reg .rax), .store .rbx (.reg .rbx),
    .popField (.reg .rcx), .store .rdx (.reg .rdx), .store .rsi (.reg .rsi),
    .store .rdi (.reg .rdi), .store .rbp (.reg .rbp), .store .r8 (.reg .r8),
    .store .r9 (.reg .r9), .store .r10 (.reg .r10), .store .r11 (.reg .r11),
    .store .r12 (.reg .r12), .store .r13 (.reg .r13), .store .r14 (.reg .r14),
    .store .r15 (.reg .r15), .movFromCr2 .rax, .store .rax .cr2, .pop .rbp, .pop .rdx,
    .setbeFail, .setLaunched]

/-- The text from a label on; each label stands in it once. -/
def runTextFrom (l : RunLabel) : List RunInstr := vmxVcpuRunText.dropWhile fun i => i ≠ .label l

/-! ## The machine -/

/-- The state of the machine. The stack is by words. -/
structure RunState where
  gpr : KvmReg → BitVec 64
  cr2 : BitVec 64
  zf : Bool
  cf : Bool
  stack : BitVec 64 → BitVec 64
  vmx : VmxState

/-- How a VM entry ends: what the processor reports, and what a guest has done until then. -/
inductive EntryEnd where
  /-- by a VM exit: the guest leaves the registers, CR2, its memory and the VMCS as in `t` -/
  | exit (t : VmxState)
  | vmFailInvalid
  | vmFailValid

namespace RunState

variable (base : BitVec 64) (s : RunState)

/-- A field of `struct vcpu_vmx`. -/
def field : VcpuField → BitVec 64
  | .reg r => s.vmx.regs r
  | .cr2 => s.vmx.cr2
  | .hostRsp => s.vmx.hostRsp

def setField (f : VcpuField) (w : BitVec 64) : RunState :=
  match f with
  | .reg r => { s with vmx := { s.vmx with regs := Function.update s.vmx.regs r w } }
  | .cr2 => { s with vmx := { s.vmx with cr2 := w } }
  | .hostRsp => { s with vmx := { s.vmx with hostRsp := w } }

def set (r : KvmReg) (w : BitVec 64) : RunState := { s with gpr := Function.update s.gpr r w }

/-- The state where RCX is the address of the structure; an access elsewhere is a fault. -/
def based : Option RunState := if s.gpr .rcx = base then some s else none

/-- The instructions that do not jump. A field is accessed where RCX has the structure, and
nowhere else. -/
def exec : RunInstr → Option RunState
  | .label _ => some s
  | .push src =>
    let sp := s.gpr .rsp - 8
    some { s.set .rsp sp with stack := Function.update s.stack sp (s.gpr src) }
  | .pop dst => some ((s.set .rsp (s.gpr .rsp + 8)).set dst (s.stack (s.gpr .rsp)))
  | .popField f =>
    (s.based base).map fun s => (s.set .rsp (s.gpr .rsp + 8)).setField f (s.stack (s.gpr .rsp))
  | .load src dst => (s.based base).map fun s => s.set dst (s.field src)
  | .store src dst => (s.based base).map fun s => s.setField dst (s.gpr src)
  | .storeStack src disp =>
    some { s with
      stack := Function.update s.stack (s.gpr .rsp + BitVec.ofNat 64 disp) (s.gpr src) }
  | .cmp src dst => some { s with zf := s.gpr dst = s.gpr src, cf := s.gpr dst < s.gpr src }
  | .cmpField src dst =>
    (s.based base).map fun s =>
      { s with zf := s.field dst = s.gpr src, cf := s.field dst < s.gpr src }
  | .vmwrite src f =>
    if s.gpr f = BitVec.ofNat 64 hostRsp.encoding then
      some { s with
        zf := false, cf := false
        vmx := { s.vmx with vmcs := s.vmx.vmcs.write hostRsp (s.gpr src) } }
    else none
  | .movFromCr2 dst => some (s.set dst s.cr2)
  | .movToCr2 src => some { s with cr2 := s.gpr src }
  | .cmpLaunched =>
    (s.based base).map fun s => { s with zf := s.vmx.launched = 0, cf := false }
  | .setbeFail =>
    (s.based base).map fun s =>
      { s with vmx := { s.vmx with fail := setFail s.vmx.fail (s.cf || s.zf) } }
  | .setLaunched => some { s with vmx := { s.vmx with launched := 1 } }
  | _ => none

/-- The state after a VM exit: the flags are clear, RSP is that of the VMCS, and the guest has
left alone what is the VMM's. -/
def afterExit (t : VmxState) : RunState where
  gpr r := if r = .rsp then s.vmx.vmcs.read hostRsp else t.regs r
  cr2 := t.cr2
  zf := false
  cf := false
  stack := s.stack
  vmx :=
    { t with
      regs := s.vmx.regs
      cr2 := s.vmx.cr2
      hostRsp := s.vmx.hostRsp
      fail := s.vmx.fail
      launched := s.vmx.launched
      vmcs := ⟨fun f => if f = hostRsp ∨ f = hostRip then s.vmx.vmcs.field f else t.vmcs.field f⟩ }

end RunState

/-- A VM entry: VMfail goes on with the next instruction, a VM exit with the host's RIP. -/
def enter (vmxReturn : BitVec 64) (e : EntryEnd) (text : List RunInstr) (s : RunState) :
    Option (List RunInstr × RunState) :=
  match e with
  | .exit t =>
    if s.vmx.vmcs.read hostRip = vmxReturn then some (runTextFrom .vmxReturn, s.afterExit t)
    else none
  | .vmFailInvalid => some (text, { s with cf := true, zf := false })
  | .vmFailValid => some (text, { s with cf := false, zf := true })

/-- One instruction of the text. A VM entry is one instruction, the whole run of the guest
included. -/
def runStep (base vmxReturn : BitVec 64) (e : EntryEnd) :
    List RunInstr × RunState → Option (List RunInstr × RunState)
  | ([], _) => none
  | (i :: text, s) =>
    match i with
    | .je l => some (if s.zf then runTextFrom l else text, s)
    | .jne l => some (if s.zf then text else runTextFrom l, s)
    | .jmp l => some (runTextFrom l, s)
    | .vmlaunch | .vmresume => enter vmxReturn e text s
    | i => (s.exec base i).map fun s => (text, s)

/-- The text runs from one state to another, with the given end of its VM entry. -/
def VcpuRuns (base vmxReturn : BitVec 64) (e : EntryEnd) :
    List RunInstr × RunState → List RunInstr × RunState → Prop :=
  Relation.ReflTransGen fun s s' => runStep base vmxReturn e s = some s'

/-! ## Straight code -/

section Straight

variable {b v : BitVec 64} {e : EntryEnd} {s s' : RunState} {is text : List RunInstr}

/-- Instructions one after the other, without jumps; it fails where one of them does. -/
def RunState.execAll (base : BitVec 64) : List RunInstr → RunState → Option RunState
  | [], s => some s
  | i :: is, s => (s.exec base i).bind (execAll base is)

theorem runStep_of_exec {i : RunInstr} (h : s.exec b i = some s') :
    runStep b v e (i :: text, s) = some (text, s') := by
  cases i with
  | je l => cases h
  | jne l => cases h
  | jmp l => cases h
  | vmlaunch => cases h
  | vmresume => cases h
  | _ => exact congrArg (Option.map fun s => (text, s)) h

theorem execAll_append (is' : List RunInstr) (h : s.execAll b is = some s') :
    s.execAll b (is ++ is') = s'.execAll b is' := by
  induction is generalizing s with
  | nil =>
    obtain rfl := Option.some.inj h
    rfl
  | cons i is ih =>
    obtain ⟨s₁, hexec, hrest⟩ := Option.bind_eq_some_iff.mp h
    rw [List.cons_append, RunState.execAll, hexec, Option.bind_some]
    exact ih hrest

theorem runs_of_execAll (h : s.execAll b is = some s') :
    VcpuRuns b v e (is ++ text, s) (text, s') := by
  induction is generalizing s with
  | nil =>
    obtain rfl := Option.some.inj h
    exact .refl
  | cons i is ih =>
    obtain ⟨s₁, hexec, hrest⟩ := Option.bind_eq_some_iff.mp h
    exact .head (runStep_of_exec hexec) (ih hrest)

theorem runStep_je_taken {l : RunLabel} (h : s.zf = true) :
    runStep b v e (.je l :: text, s) = some (runTextFrom l, s) :=
  congrArg (fun t => some (t, s)) (if_pos h)

theorem runStep_je {l : RunLabel} (h : s.zf = false) :
    runStep b v e (.je l :: text, s) = some (text, s) :=
  congrArg (fun t => some (t, s)) (if_neg (by rw [h]; decide))

theorem runStep_jne_taken {l : RunLabel} (h : s.zf = false) :
    runStep b v e (.jne l :: text, s) = some (runTextFrom l, s) :=
  congrArg (fun t => some (t, s)) (if_neg (by rw [h]; decide))

theorem runStep_jne {l : RunLabel} (h : s.zf = true) :
    runStep b v e (.jne l :: text, s) = some (text, s) :=
  congrArg (fun t => some (t, s)) (if_pos h)

theorem RunState.based_eq (h : s.gpr .rcx = b) : s.based b = some s := if_pos h

/-- Registers are loaded one after the other, as long as RCX is not among them. -/
theorem execAll_loads (rs : List KvmReg) (hrcx : .rcx ∉ rs) (hbase : s.gpr .rcx = b) :
    s.execAll b (rs.map fun r => .load (.reg r) r) =
      some { s with gpr := fun r => if r ∈ rs then s.vmx.regs r else s.gpr r } := by
  induction rs generalizing s with
  | nil => simp [RunState.execAll]
  | cons r rs ih =>
    have hr : .rcx ≠ r := List.ne_of_not_mem_cons hrcx
    have hrs : .rcx ∉ rs := List.not_mem_of_not_mem_cons hrcx
    have hbase' : (s.set r (s.vmx.regs r)).gpr .rcx = b :=
      (Function.update_of_ne hr _ _).trans hbase
    rw [List.map_cons, RunState.execAll, RunState.exec, RunState.based_eq hbase, Option.map_some,
      Option.bind_some]
    refine (ih hrs hbase').trans ?_
    congr 2
    funext r'
    by_cases hmem : r' ∈ rs
    · simp [hmem, RunState.set]
    · by_cases hr' : r' = r
      · simp [hr', RunState.set]
      · simp [hmem, hr', RunState.set]

/-- Registers are stored one after the other, with RCX as it is. -/
theorem execAll_stores (rs : List KvmReg) (hbase : s.gpr .rcx = b) :
    s.execAll b (rs.map fun r => .store r (.reg r)) =
      some { s with vmx := { s.vmx with
        regs := fun r => if r ∈ rs then s.gpr r else s.vmx.regs r } } := by
  induction rs generalizing s with
  | nil => simp [RunState.execAll]
  | cons r rs ih =>
    rw [List.map_cons, RunState.execAll, RunState.exec, RunState.based_eq hbase, Option.map_some,
      Option.bind_some]
    have hregs : (fun r' => if r' ∈ r :: rs then s.gpr r' else s.vmx.regs r') =
        fun r' => if r' ∈ rs then s.gpr r' else Function.update s.vmx.regs r (s.gpr r) r' := by
      funext r'
      by_cases hmem : r' ∈ rs
      · simp [hmem]
      · by_cases hr' : r' = r
        · simp [hr']
        · simp [hmem, hr']
    rw [hregs]
    exact ih (s := s.setField (.reg r) (s.gpr r)) hbase

end Straight

/-! ## Up to the VM entry

The host's registers go to the stack and the guest's come in. RCX is the last one, since it is
the pointer through which the others are loaded. -/

/-- The caching of `host_rsp`: the VMCS is written when the stack pointer is not the one of the
last time. -/
def cacheHostRsp (rsp : BitVec 64) (s : VmxState) : VmxState :=
  if s.hostRsp = rsp then s
  else { s with hostRsp := rsp, vmcs := s.vmcs.write hostRsp rsp }

namespace RunState

/-- The state with the host's registers on the stack. -/
def framed (s : RunState) : RunState :=
  let sp := s.gpr .rsp
  { s with
    gpr := Function.update s.gpr .rsp (sp - 32)
    stack := Function.update (Function.update (Function.update (Function.update s.stack
      (sp - 8) (s.gpr .rdx)) (sp - 16) (s.gpr .rbp)) (sp - 24) (s.gpr .rcx))
      (sp - 32) (s.gpr .rcx) }

/-- The state at the VM entry. -/
def entered (s : RunState) : RunState :=
  { s.framed with
    gpr := fun r => if r = .rsp then s.gpr .rsp - 32 else s.vmx.regs r
    cr2 := s.vmx.cr2
    zf := s.vmx.launched = 0
    cf := false
    vmx := cacheHostRsp (s.gpr .rsp - 32) s.vmx }

end RunState

section Enter

variable {b v : BitVec 64} {e : EntryEnd} {s : RunState}

@[simp] theorem cacheHostRsp_regs (rsp : BitVec 64) (s : VmxState) :
    (cacheHostRsp rsp s).regs = s.regs := by
  unfold cacheHostRsp
  split <;> rfl

@[simp] theorem cacheHostRsp_cr2 (rsp : BitVec 64) (s : VmxState) :
    (cacheHostRsp rsp s).cr2 = s.cr2 := by
  unfold cacheHostRsp
  split <;> rfl

@[simp] theorem cacheHostRsp_launched (rsp : BitVec 64) (s : VmxState) :
    (cacheHostRsp rsp s).launched = s.launched := by
  unfold cacheHostRsp
  split <;> rfl

theorem sub_sub_word (x y z : BitVec 64) : x - y - z = x - (y + z) := by
  bv_omega

/-- The host's registers are stored. -/
theorem framed_exec :
    s.execAll b [.push .rdx, .push .rbp, .push .rcx, .push .rcx] = some s.framed := by
  simp [RunState.execAll, RunState.exec, RunState.set, RunState.framed, sub_sub_word]

/-- The stack pointer is in `host_rsp` and in the VMCS. -/
theorem cacheHostRsp_runs (hbase : s.gpr .rcx = b)
    (hrdx : s.gpr .rdx = BitVec.ofNat 64 hostRsp.encoding) :
    ∃ zf cf, VcpuRuns b v e (.cmpField .rsp .hostRsp :: .je .hostRspSet ::
        .store .rsp .hostRsp :: .vmwrite .rsp .rdx :: runTextFrom .hostRspSet, s)
      (runTextFrom .hostRspSet, { s with zf, cf, vmx := cacheHostRsp (s.gpr .rsp) s.vmx }) := by
  have hcmp : s.execAll b [.cmpField .rsp .hostRsp] = some { s with
      zf := s.vmx.hostRsp = s.gpr .rsp, cf := s.vmx.hostRsp < s.gpr .rsp } := by
    rw [RunState.execAll, RunState.exec, RunState.based_eq hbase]
    rfl
  by_cases hsame : s.vmx.hostRsp = s.gpr .rsp
  · rw [cacheHostRsp, if_pos hsame]
    exact ⟨_, _, (runs_of_execAll hcmp).tail (runStep_je_taken (decide_eq_true hsame))⟩
  · have hset : RunState.execAll b [.store .rsp .hostRsp, .vmwrite .rsp .rdx]
        { s with zf := s.vmx.hostRsp = s.gpr .rsp, cf := s.vmx.hostRsp < s.gpr .rsp } =
        some { s with
          zf := false, cf := false, vmx := cacheHostRsp (s.gpr .rsp) s.vmx } := by
      simp [RunState.execAll, RunState.exec, RunState.based_eq, hbase, RunState.setField, hrdx,
        cacheHostRsp, hsame]
    exact ⟨false, false, ((runs_of_execAll hcmp).tail (runStep_je (decide_eq_false hsame))).trans
      (runs_of_execAll hset)⟩

/-- CR2 is that of the guest. -/
theorem reloadCr2_runs (hbase : s.gpr .rcx = b) :
    ∃ zf cf, VcpuRuns b v e (runTextFrom .hostRspSet, s) (runTextFrom .cr2Set,
      { s with
        gpr := Function.update (Function.update s.gpr .rax s.vmx.cr2) .rdx s.cr2
        zf, cf, cr2 := s.vmx.cr2 }) := by
  have hcmp : s.execAll b [.label .hostRspSet, .load .cr2 .rax, .movFromCr2 .rdx,
      .cmp .rax .rdx] = some { s with
        gpr := Function.update (Function.update s.gpr .rax s.vmx.cr2) .rdx s.cr2
        zf := s.cr2 = s.vmx.cr2, cf := s.cr2 < s.vmx.cr2 } := by
    simp [RunState.execAll, RunState.exec, RunState.based_eq hbase, RunState.field, RunState.set]
  have hset : RunState.execAll b [.movToCr2 .rax] { s with
        gpr := Function.update (Function.update s.gpr .rax s.vmx.cr2) .rdx s.cr2
        zf := s.cr2 = s.vmx.cr2, cf := s.cr2 < s.vmx.cr2 } = some { s with
        gpr := Function.update (Function.update s.gpr .rax s.vmx.cr2) .rdx s.cr2
        zf := s.cr2 = s.vmx.cr2, cf := s.cr2 < s.vmx.cr2, cr2 := s.vmx.cr2 } := rfl
  refine ⟨s.cr2 = s.vmx.cr2, s.cr2 < s.vmx.cr2, ?_⟩
  by_cases hsame : s.cr2 = s.vmx.cr2
  · obtain ⟨gpr, cr2, zf, cf, stack, vmx⟩ := s
    obtain rfl : cr2 = vmx.cr2 := hsame
    exact (runs_of_execAll hcmp).tail (runStep_je_taken (decide_eq_true rfl))
  · exact ((runs_of_execAll hcmp).tail (runStep_je (decide_eq_false hsame))).trans
      (runs_of_execAll hset)

/-- The registers that are loaded before RCX, in the order of the text. -/
def loadedRegs : List KvmReg :=
  [.rax, .rbx, .rdx, .rsi, .rdi, .rbp, .r8, .r9, .r10, .r11, .r12, .r13, .r14, .r15]

/-- The text at the VM entry, behind the instruction that enters. -/
def entryTail : EntryInstr → List RunInstr
  | .vmlaunch => .jmp .vmxReturn :: .label .resume :: .vmresume :: runTextFrom .vmxReturn
  | .vmresume => runTextFrom .vmxReturn

/-- The instruction of the text. -/
def EntryInstr.toRun : EntryInstr → RunInstr
  | .vmlaunch => .vmlaunch
  | .vmresume => .vmresume

/-- The guest's registers are loaded, and `launched` has chosen the instruction. -/
theorem loadGuest_runs (hbase : s.gpr .rcx = b) :
    VcpuRuns b v e (runTextFrom .cr2Set, s)
      ((entryInstr s.vmx).toRun :: entryTail (entryInstr s.vmx),
        { s with
          gpr := fun r => if r = .rsp then s.gpr .rsp else s.vmx.regs r
          zf := s.vmx.launched = 0, cf := false }) := by
  have hcmp : s.execAll b [.label .cr2Set, .cmpLaunched] =
      some { s with zf := s.vmx.launched = 0, cf := false } := by
    rw [RunState.execAll, RunState.exec, Option.bind_some, RunState.execAll, RunState.exec,
      RunState.based_eq hbase]
    rfl
  have hloads := execAll_loads (s := { s with zf := s.vmx.launched = 0, cf := false }) loadedRegs
    (by decide) hbase
  have hrcx : RunState.execAll b [.load (.reg .rcx) .rcx] { s with
        gpr := fun r => if r ∈ loadedRegs then s.vmx.regs r else s.gpr r
        zf := s.vmx.launched = 0, cf := false } = some { s with
        gpr := fun r => if r = .rsp then s.gpr .rsp else s.vmx.regs r
        zf := s.vmx.launched = 0, cf := false } := by
    have hgpr : (fun r => if r = .rsp then s.gpr .rsp else s.vmx.regs r) = Function.update
        (fun r => if r ∈ loadedRegs then s.vmx.regs r else s.gpr r) .rcx (s.vmx.regs .rcx) := by
      funext r
      cases r <;> rfl
    rw [RunState.execAll, RunState.exec, RunState.based_eq, hgpr]
    · rfl
    · exact hbase
  have hload : VcpuRuns b v e (runTextFrom .cr2Set, s)
      (.jne .resume :: .vmlaunch :: entryTail .vmlaunch, { s with
        gpr := fun r => if r = .rsp then s.gpr .rsp else s.vmx.regs r
        zf := s.vmx.launched = 0, cf := false }) :=
    ((runs_of_execAll hcmp).trans (runs_of_execAll hloads)).trans (runs_of_execAll hrcx)
  unfold entryInstr
  by_cases hlaunched : s.vmx.launched = 0#32
  · rw [if_pos hlaunched]
    exact hload.tail (runStep_jne (decide_eq_true hlaunched))
  · rw [if_neg hlaunched]
    exact (hload.tail (runStep_jne_taken (decide_eq_false hlaunched))).tail
      (runStep_of_exec (i := .label .resume) rfl)

/-- **Entry**: the text comes to the instruction that enters the guest. -/
theorem enter_runs (hbase : s.gpr .rcx = b)
    (hrdx : s.gpr .rdx = BitVec.ofNat 64 hostRsp.encoding) :
    VcpuRuns b v e (vmxVcpuRunText, s)
      ((entryInstr s.vmx).toRun :: entryTail (entryInstr s.vmx), s.entered) := by
  have hbase₁ : s.framed.gpr .rcx = b := hbase
  have hframe : VcpuRuns b v e (vmxVcpuRunText, s)
      (.cmpField .rsp .hostRsp :: .je .hostRspSet :: .store .rsp .hostRsp ::
        .vmwrite .rsp .rdx :: runTextFrom .hostRspSet, s.framed) := runs_of_execAll framed_exec
  obtain ⟨zf, cf, hcache⟩ :=
    cacheHostRsp_runs (v := v) (e := e) (s := s.framed) hbase hrdx
  obtain ⟨zf₁, cf₁, hcr2⟩ := reloadCr2_runs (b := b) (v := v) (e := e)
    (s := { s.framed with zf, cf, vmx := cacheHostRsp (s.framed.gpr .rsp) s.framed.vmx }) hbase
  have hload := loadGuest_runs (b := b) (v := v) (e := e)
    (s := { s.framed with
      gpr := Function.update (Function.update s.framed.gpr .rax
        (cacheHostRsp (s.framed.gpr .rsp) s.framed.vmx).cr2) .rdx s.framed.cr2
      zf := zf₁, cf := cf₁, cr2 := (cacheHostRsp (s.framed.gpr .rsp) s.framed.vmx).cr2
      vmx := cacheHostRsp (s.framed.gpr .rsp) s.framed.vmx }) hbase
  have hruns := (hframe.trans hcache).trans (hcr2.trans hload)
  simp only [cacheHostRsp_regs, cacheHostRsp_cr2, cacheHostRsp_launched, entryInstr] at hruns
  exact hruns

end Enter

/-! ## From the VM entry on

RCX comes back from the stack first, and the guest's is saved from there. Then the guest's
registers go to the structure and the host's come back. -/

namespace RunState

/-- The state at the end, from that at the second `2:`. -/
def left (base : BitVec 64) (s : RunState) : RunState where
  gpr r :=
    match r with
    | .rsp => s.gpr .rsp + 32
    | .rbp => s.stack (s.gpr .rsp + 16)
    | .rdx => s.stack (s.gpr .rsp + 24)
    | .rcx => base
    | .rax => s.cr2
    | r => s.gpr r
  cr2 := s.cr2
  zf := s.zf
  cf := s.cf
  stack := Function.update s.stack (s.gpr .rsp + 8) (s.gpr .rcx)
  vmx :=
    { s.vmx with
      regs := fun r => if r = .rsp then s.vmx.regs .rsp else s.gpr r
      cr2 := s.cr2
      fail := setFail s.vmx.fail (s.cf || s.zf)
      launched := 1 }

/-- The state when RCX of the guest has been saved. -/
def rcxSaved (base : BitVec 64) (s : RunState) : RunState :=
  { s with
    gpr := Function.update (Function.update s.gpr .rcx base) .rsp (s.gpr .rsp + 16)
    stack := Function.update s.stack (s.gpr .rsp + 8) (s.gpr .rcx)
    vmx := { s.vmx with
      regs := Function.update (Function.update (Function.update s.vmx.regs .rax (s.gpr .rax))
        .rbx (s.gpr .rbx)) .rcx (s.gpr .rcx) } }

end RunState

section Leave

variable {b v : BitVec 64} {e : EntryEnd} {s : RunState}

theorem sub_add_word (x y z : BitVec 64) : x - y + z = x - (y - z) := by
  bv_omega

theorem add_add_word (x y z : BitVec 64) : x + y + z = x + (y + z) := BitVec.add_assoc x y z

theorem ne_add_eight (x : BitVec 64) : x ≠ x + 8 := by
  bv_omega

/-- The structure's address comes back from the stack, and RCX of the guest is saved. -/
theorem rcxSaved_exec (hslot : s.stack (s.gpr .rsp) = b) :
    s.execAll b [.storeStack .rcx 8, .pop .rcx, .store .rax (.reg .rax),
      .store .rbx (.reg .rbx), .popField (.reg .rcx)] = some (s.rcxSaved b) := by
  have hpop : Function.update s.stack (s.gpr .rsp + 8) (s.gpr .rcx) (s.gpr .rsp) = b :=
    (Function.update_of_ne (ne_add_eight _) _ _).trans hslot
  have hgpr : Function.update (Function.update (Function.update s.gpr .rsp (s.gpr .rsp + 8)) .rcx b)
      .rsp (s.gpr .rsp + 8 + 8) =
      Function.update (Function.update s.gpr .rcx b) .rsp (s.gpr .rsp + 16) := by
    have hne : KvmReg.rsp ≠ .rcx := by decide
    rw [Function.update_comm hne, Function.update_idem, add_add_word]
    rfl
  have hload : s.execAll b [.storeStack .rcx 8, .pop .rcx] = some { s with
      gpr := Function.update (Function.update s.gpr .rsp (s.gpr .rsp + 8)) .rcx b
      stack := Function.update s.stack (s.gpr .rsp + 8) (s.gpr .rcx) } := by
    rw [← hpop]
    rfl
  refine (execAll_append [.store .rax (.reg .rax), .store .rbx (.reg .rbx),
    .popField (.reg .rcx)] hload).trans ?_
  have hbase : ∀ s₁ : RunState, s₁.gpr = Function.update (Function.update s.gpr .rsp
      (s.gpr .rsp + 8)) .rcx b → s₁.based b = some s₁ := fun s₁ h =>
    RunState.based_eq (by rw [h, Function.update_self])
  simpa [RunState.execAll, RunState.exec, hbase, RunState.setField, RunState.set,
    RunState.rcxSaved] using hgpr

/-- The registers that are stored behind RCX, in the order of the text. -/
def storedRegs : List KvmReg :=
  [.rdx, .rsi, .rdi, .rbp, .r8, .r9, .r10, .r11, .r12, .r13, .r14, .r15]

/-- CR2 is saved, and the host's registers come back. -/
theorem restoreHost_exec (hbase : s.gpr .rcx = b) :
    s.execAll b [.movFromCr2 .rax, .store .rax .cr2, .pop .rbp, .pop .rdx, .setbeFail,
      .setLaunched] = some { s with
        gpr := Function.update (Function.update (Function.update (Function.update s.gpr .rax s.cr2)
          .rbp (s.stack (s.gpr .rsp))) .rdx (s.stack (s.gpr .rsp + 8))) .rsp (s.gpr .rsp + 16)
        vmx := { s.vmx with
          cr2 := s.cr2, fail := setFail s.vmx.fail (s.cf || s.zf), launched := 1 } } := by
  have hgpr : Function.update (Function.update (Function.update (Function.update (Function.update
      s.gpr .rax s.cr2) .rsp (s.gpr .rsp + 8)) .rbp (s.stack (s.gpr .rsp))) .rsp
      (s.gpr .rsp + 8 + 8)) .rdx (s.stack (s.gpr .rsp + 8)) =
      Function.update (Function.update (Function.update (Function.update s.gpr .rax s.cr2)
        .rbp (s.stack (s.gpr .rsp))) .rdx (s.stack (s.gpr .rsp + 8))) .rsp (s.gpr .rsp + 16) := by
    have hadd : s.gpr .rsp + 8 + 8 = s.gpr .rsp + 16 := add_add_word _ 8 8
    rw [hadd]
    funext r
    cases r <;> rfl
  have hbase₁ : ∀ s₁ : RunState, s₁.gpr .rcx = s.gpr .rcx → s₁.based b = some s₁ :=
    fun s₁ h => RunState.based_eq (h.trans hbase)
  simpa [RunState.execAll, RunState.exec, hbase₁, RunState.setField, RunState.set] using hgpr

/-- **Exit**: the text saves the guest's registers, and restores those of the host. -/
theorem leave_runs (hslot : s.stack (s.gpr .rsp) = b) :
    VcpuRuns b v e (runTextFrom .vmxReturn, s) ([], s.left b) := by
  have hlabel : s.execAll b [.label .vmxReturn] = some s := rfl
  have hstores := execAll_stores (b := b) (s := s.rcxSaved b) storedRegs rfl
  have h16 : Function.update s.stack (s.gpr .rsp + 8) (s.gpr .rcx) (s.gpr .rsp + 16) =
      s.stack (s.gpr .rsp + 16) := Function.update_of_ne (by simp) _ _
  have h24 : Function.update s.stack (s.gpr .rsp + 8) (s.gpr .rcx) (s.gpr .rsp + 16 + 8) =
      s.stack (s.gpr .rsp + 24) := by
    rw [add_add_word]
    exact Function.update_of_ne (by simp) _ _
  have h32 : s.gpr .rsp + 16 + 16 = s.gpr .rsp + 32 := add_add_word _ 16 16
  have hrestore : RunState.execAll b [.movFromCr2 .rax, .store .rax .cr2, .pop .rbp, .pop .rdx,
      .setbeFail, .setLaunched] { s.rcxSaved b with vmx := { (s.rcxSaved b).vmx with
        regs := fun r => if r ∈ storedRegs then (s.rcxSaved b).gpr r
          else (s.rcxSaved b).vmx.regs r } } = some (s.left b) := by
    have hgpr : Function.update (Function.update (Function.update (Function.update
        (s.rcxSaved b).gpr .rax s.cr2) .rbp ((s.rcxSaved b).stack (s.gpr .rsp + 16))) .rdx
        ((s.rcxSaved b).stack (s.gpr .rsp + 16 + 8))) .rsp (s.gpr .rsp + 16 + 16) =
        (s.left b).gpr := by
      funext r
      cases r with
      | rbp => exact h16
      | rdx => exact h24
      | rsp => exact h32
      | _ => rfl
    have hregs : (fun r => if r ∈ storedRegs then (s.rcxSaved b).gpr r
        else (s.rcxSaved b).vmx.regs r) = (s.left b).vmx.regs := by
      funext r
      cases r <;> rfl
    refine (restoreHost_exec rfl).trans (congrArg some ?_)
    rw [hregs]
    exact congrArg (fun gpr => { s.left b with gpr }) hgpr
  exact ((runs_of_execAll hlabel).trans (runs_of_execAll (rcxSaved_exec hslot))).trans
    ((runs_of_execAll hstores).trans (runs_of_execAll hrestore))

end Leave

/-! ## The world switch

Any number of runs, each with an outcome of its own. Between them the host has its registers, the
structure has the guest's, and `host_rsp` is the stack pointer that the VMCS has. -/

/-- The operands of the `asm` statement, on a stack with room for the four words. -/
structure HostCall (base : BitVec 64) (s : RunState) : Prop where
  rcx : s.gpr .rcx = base
  rdx : s.gpr .rdx = BitVec.ofNat 64 hostRsp.encoding
  rsp : s.gpr .rsp - 32 ≠ 0

/-- What holds of the structure and the VMCS between two runs: `host_rsp` is zero or what the VMCS
has, `setbe` alone writes `fail`, and the VMCS goes on at `vmx_return`. -/
structure HostSaved (vmxReturn : BitVec 64) (s : VmxState) : Prop where
  cached : s.hostRsp ≠ 0 → s.vmcs.read hostRsp = s.hostRsp
  fail : s.fail < 256
  hostRip : s.vmcs.read hostRip = vmxReturn

/-- What the VMM leaves alone between two runs: the members and fields of the stack pointer and
the way back. -/
structure BetweenRuns (s s' : VmxState) : Prop where
  hostRsp : s'.hostRsp = s.hostRsp
  fail : s'.fail = s.fail
  vmcsRsp : s'.vmcs.read VmcsField.hostRsp = s.vmcs.read VmcsField.hostRsp
  vmcsRip : s'.vmcs.read hostRip = s.vmcs.read hostRip

/-- The states before and after runs of `vmx_vcpu_run`, each of them from any registers of the host
and any depth of its stack and with any end. -/
inductive VcpuReachable (base vmxReturn : BitVec 64) : VmxState → Prop
  | init {s : VmxState} (hrsp : s.hostRsp = 0) (hfail : s.fail = 0)
      (hrip : s.vmcs.read hostRip = vmxReturn) : VcpuReachable base vmxReturn s
  | run {s s' : RunState} {e : EntryEnd} (h : VcpuReachable base vmxReturn s.vmx)
      (hcall : HostCall base s) (hrun : VcpuRuns base vmxReturn e (vmxVcpuRunText, s) ([], s')) :
      VcpuReachable base vmxReturn s'.vmx
  | between {s s' : VmxState} (h : VcpuReachable base vmxReturn s) (hb : BetweenRuns s s') :
      VcpuReachable base vmxReturn s'

/-- The VM entry: the registers and CR2 are those of `vcpu`, and the VMCS has the stack pointer. -/
structure AtEntry (s s₁ : RunState) : Prop where
  regs : ∀ r, r ≠ .rsp → s₁.gpr r = s.vmx.regs r
  cr2 : s₁.cr2 = s.vmx.cr2
  hostRsp : s₁.vmx.vmcs.read VmcsField.hostRsp = s₁.gpr .rsp

/-- The registers that the guest leaves; where the entry fails, those that it was to have. -/
def EntryEnd.regs (e : EntryEnd) (s : VmxState) : KvmReg → BitVec 64 :=
  match e with
  | .exit t => t.regs
  | _ => s.regs

@[inherit_doc EntryEnd.regs] def EntryEnd.cr2 (e : EntryEnd) (s : VmxState) : BitVec 64 :=
  match e with
  | .exit t => t.cr2
  | _ => s.cr2

/-- The end of the text: `vcpu` has what the guest has left, or what it had before if the entry has
failed, and the host has its registers and its stack. -/
structure AfterSwitch (e : EntryEnd) (s s' : RunState) : Prop where
  regs : ∀ r, r ≠ .rsp → s'.vmx.regs r = e.regs s.vmx r
  cr2 : s'.vmx.cr2 = e.cr2 s.vmx
  rsp : s'.gpr .rsp = s.gpr .rsp
  rbp : s'.gpr .rbp = s.gpr .rbp
  rdx : s'.gpr .rdx = s.gpr .rdx
  rcx : s'.gpr .rcx = s.gpr .rcx
  stack : ∀ a, (∀ k ∈ [8, 16, 24, 32], a ≠ s.gpr .rsp - k) → s'.stack a = s.stack a
  fail : s'.vmx.fail ≠ 0 ↔ e = .vmFailInvalid ∨ e = .vmFailValid

section Switch

variable {b v : BitVec 64} {e : EntryEnd} {s s' : RunState} {t t' : VmxState} {rsp : BitVec 64}

theorem HostSaved.between (h : HostSaved v t) (hb : BetweenRuns t t') : HostSaved v t' where
  cached := by
    rw [hb.hostRsp, hb.vmcsRsp]
    exact h.cached
  fail := by
    rw [hb.fail]
    exact h.fail
  hostRip := hb.vmcsRip.trans h.hostRip

/-- After the caching, the VMCS has the stack pointer. -/
theorem cacheHostRsp_spec (h : HostSaved v t) (hrsp : rsp ≠ 0) :
    (cacheHostRsp rsp t).hostRsp = rsp ∧
      (cacheHostRsp rsp t).vmcs.read hostRsp = rsp ∧
      (cacheHostRsp rsp t).vmcs.read hostRip = v ∧ (cacheHostRsp rsp t).fail = t.fail := by
  unfold cacheHostRsp
  split
  · rename_i heq
    refine ⟨heq, ?_, h.hostRip, rfl⟩
    rw [h.cached (by rwa [heq]), heq]
  · refine ⟨rfl, ?_, ?_, rfl⟩
    · simp [VmcsField.width]
    · exact (Vmcs.read_write_ne (by decide)).trans h.hostRip

/-- The stack at the VM entry. -/
theorem entered_stack (s : RunState) :
    s.entered.stack (s.gpr .rsp - 32) = s.gpr .rcx ∧
      s.entered.stack (s.gpr .rsp - 32 + 16) = s.gpr .rbp ∧
      s.entered.stack (s.gpr .rsp - 32 + 24) = s.gpr .rdx ∧
      ∀ a, (∀ k ∈ [8, 16, 24, 32], a ≠ s.gpr .rsp - k) → s.entered.stack a = s.stack a := by
  have hne : ∀ {x i j : BitVec 64}, i ≠ j → x - i ≠ x - j := fun h heq => h (by bv_omega)
  have h16 : s.gpr .rsp - 32 + 16 = s.gpr .rsp - 16 := sub_add_word _ _ _
  have h24 : s.gpr .rsp - 32 + 24 = s.gpr .rsp - 8 := sub_add_word _ _ _
  rw [h16, h24]
  refine ⟨Function.update_self _ _ _, ?_, ?_, fun a ha => ?_⟩
  · refine (Function.update_of_ne (hne (by decide)) _ _).trans ?_
    exact (Function.update_of_ne (hne (by decide)) _ _).trans (Function.update_self _ _ _)
  · refine (Function.update_of_ne (hne (by decide)) _ _).trans ?_
    refine (Function.update_of_ne (hne (by decide)) _ _).trans ?_
    exact (Function.update_of_ne (hne (by decide)) _ _).trans (Function.update_self _ _ _)
  · simp only [List.mem_cons, List.not_mem_nil, or_false, forall_eq_or_imp, forall_eq] at ha
    refine (Function.update_of_ne ha.2.2.2 _ _).trans ?_
    refine (Function.update_of_ne ha.2.2.1 _ _).trans ?_
    exact (Function.update_of_ne ha.2.1 _ _).trans (Function.update_of_ne ha.1 _ _)

theorem setFail_lt {f : BitVec 32} (h : f < 256) (below : Bool) :
    setFail f below < 256 ∧ (setFail f below ≠ 0 ↔ below = true) := by
  have hmask : f &&& ~~~0xff#32 = 0 := by
    have hlt : f.toNat < 2 ^ 8 := h
    have hclear := toNat_and_not_lowMask (show 8 ≤ 32 by decide) f
    rw [Nat.div_eq_of_lt hlt, Nat.zero_mul] at hclear
    exact BitVec.eq_of_toNat_eq hclear
  rw [setFail, hmask]
  cases below with
  | true => decide
  | false => decide

/-- The state in which the text goes on after the VM entry. -/
def EntryEnd.resumes (e : EntryEnd) (s : RunState) : RunState :=
  match e with
  | .exit t => s.afterExit t
  | .vmFailInvalid => { s with cf := true, zf := false }
  | .vmFailValid => { s with cf := false, zf := true }

/-- Whatever the end, the text goes on at the second `2:`. -/
theorem runs_of_enter (hrip : s.vmx.vmcs.read hostRip = v) (i : EntryInstr) :
    VcpuRuns b v e (i.toRun :: entryTail i, s) (runTextFrom .vmxReturn, e.resumes s) := by
  cases e with
  | exit t =>
    refine .single ?_
    cases i with
    | vmlaunch => exact if_pos hrip
    | vmresume => exact if_pos hrip
  | vmFailInvalid =>
    cases i with
    | vmlaunch => exact .tail (.single rfl) rfl
    | vmresume => exact .single rfl
  | vmFailValid =>
    cases i with
    | vmlaunch => exact .tail (.single rfl) rfl
    | vmresume => exact .single rfl

/-- What is the VMM's is left alone, whatever the end. -/
theorem resumes_between (e : EntryEnd) (s : RunState) : BetweenRuns s.vmx (e.resumes s).vmx := by
  cases e <;> exact ⟨rfl, rfl, rfl, rfl⟩

theorem resumes_rsp (h : s.vmx.vmcs.read hostRsp = s.gpr .rsp) (e : EntryEnd) :
    (e.resumes s).gpr .rsp = s.gpr .rsp := by
  cases e with
  | exit t => exact h
  | _ => rfl

theorem resumes_stack (e : EntryEnd) (s : RunState) : (e.resumes s).stack = s.stack := by
  cases e <;> rfl

theorem resumes_below (e : EntryEnd) (s : RunState) :
    ((e.resumes s).cf || (e.resumes s).zf) = true ↔ e = .vmFailInvalid ∨ e = .vmFailValid := by
  cases e <;> simp [EntryEnd.resumes, RunState.afterExit]

/-- The caching makes the state one between two runs. -/
theorem HostSaved.entered (h : HostSaved v s.vmx) (hcall : HostCall b s) :
    HostSaved v s.entered.vmx := by
  obtain ⟨hcache, hrsp, hrip, hfail⟩ := cacheHostRsp_spec h hcall.rsp
  refine ⟨fun _ => hrsp.trans hcache.symm, ?_, hrip⟩
  rw [show s.entered.vmx.fail = s.vmx.fail from hfail]
  exact h.fail

theorem HostSaved.left (h : HostSaved v s.vmx) : HostSaved v (s.left b).vmx where
  cached := h.cached
  fail := (setFail_lt h.fail _).1
  hostRip := h.hostRip

/-- **Switch**: a run from its beginning to its end. -/
theorem switch_runs (h : HostSaved v s.vmx) (hcall : HostCall b s) (e : EntryEnd) :
    VcpuRuns b v e (vmxVcpuRunText, s)
        ((entryInstr s.vmx).toRun :: entryTail (entryInstr s.vmx), s.entered) ∧
      VcpuRuns b v e ((entryInstr s.vmx).toRun :: entryTail (entryInstr s.vmx), s.entered)
        ([], (e.resumes s.entered).left b) := by
  obtain ⟨-, hrsp, hrip, -⟩ := cacheHostRsp_spec h hcall.rsp
  have hslot : (e.resumes s.entered).stack ((e.resumes s.entered).gpr .rsp) = b := by
    rw [resumes_stack, resumes_rsp hrsp]
    exact (entered_stack s).1.trans hcall.rcx
  exact ⟨enter_runs hcall.rcx hcall.rdx,
    (runs_of_enter hrip (entryInstr s.vmx)).trans (leave_runs hslot)⟩

/-- What a whole run leaves. -/
theorem afterSwitch (h : HostSaved v s.vmx) (hcall : HostCall b s) (e : EntryEnd) :
    AfterSwitch e s ((e.resumes s.entered).left b) := by
  obtain ⟨-, hrsp, -, hfail⟩ := cacheHostRsp_spec h hcall.rsp
  obtain ⟨-, hbp, hdx, hstack⟩ := entered_stack s
  have hsp : (e.resumes s.entered).gpr .rsp = s.gpr .rsp - 32 := resumes_rsp hrsp e
  have hregs : ∀ r, r ≠ .rsp → (e.resumes s.entered).gpr r = e.regs s.vmx r := by
    intro r hr
    cases e <;> exact if_neg hr
  refine ⟨fun r hr => (if_neg hr).trans (hregs r hr), ?_, ?_, ?_, ?_, hcall.rcx.symm,
    fun a ha => ?_, ?_⟩
  · cases e <;> rfl
  · have hback : s.gpr .rsp - 32 + 32 = s.gpr .rsp := BitVec.sub_add_cancel _ _
    exact (congrArg (· + 32) hsp).trans hback
  · have hread : (e.resumes s.entered).stack ((e.resumes s.entered).gpr .rsp + 16) =
        s.gpr .rbp := by
      rw [hsp, resumes_stack, hbp]
    exact hread
  · have hread : (e.resumes s.entered).stack ((e.resumes s.entered).gpr .rsp + 24) =
        s.gpr .rdx := by
      rw [hsp, resumes_stack, hdx]
    exact hread
  · have hne : a ≠ (e.resumes s.entered).gpr .rsp + 8 := by
      rw [hsp, sub_add_word]
      exact ha 24 (by decide)
    refine (Function.update_of_ne hne _ _).trans ?_
    rw [resumes_stack]
    exact hstack a ha
  · have hlt : (e.resumes s.entered).vmx.fail < 256 := by
      rw [(resumes_between e s.entered).fail, show s.entered.vmx.fail = s.vmx.fail from hfail]
      exact h.fail
    exact (setFail_lt hlt _).2.trans (resumes_below e s.entered)

/-- Runs end in one state only. -/
theorem vcpuRuns_unique {s₁ s₂ : RunState} (h₁ : VcpuRuns b v e (vmxVcpuRunText, s) ([], s₁))
    (h₂ : VcpuRuns b v e (vmxVcpuRunText, s) ([], s₂)) : s₁ = s₂ := by
  have hstuck : ∀ {s₁ s₂ : RunState}, VcpuRuns b v e ([], s₁) ([], s₂) → s₁ = s₂ := by
    intro s₁ s₂ h
    rcases h.cases_head with heq | ⟨_, hstep, _⟩
    · exact congrArg Prod.snd heq
    · cases hstep
  have hright : Relator.RightUnique fun s s' => runStep b v e s = some s' :=
    fun _ _ _ h h' => Option.some.inj (h.symm.trans h')
  rcases h₁.total_of_right_unique hright h₂ with h | h
  · exact hstuck h
  · exact (hstuck h).symm

/-- **Reachable states** are as between two runs. -/
theorem hostSaved_of_reachable (h : VcpuReachable b v t) : HostSaved v t := by
  induction h with
  | init hrsp hfail hrip => exact ⟨fun hne => absurd hrsp hne, by rw [hfail]; decide, hrip⟩
  | run h hcall hrun ih =>
    obtain ⟨henter, hleave⟩ := switch_runs ih hcall _
    rw [vcpuRuns_unique hrun (henter.trans hleave)]
    exact ((ih.entered hcall).between (resumes_between _ _)).left
  | between h hb ih => exact ih.between hb

/-- **World switch**: after any runs before it, and from any registers and depth of the host's
stack, a run enters the guest with the registers and CR2 of `vcpu`, by VMLAUNCH exactly if
`launched` is 0, and whatever the end leaves in `vcpu` what the guest has left. -/
theorem world_switch (h : VcpuReachable b v s.vmx) (hcall : HostCall b s) (e : EntryEnd) :
    ∃ i s₁ s', VcpuRuns b v e (vmxVcpuRunText, s) (EntryInstr.toRun i :: entryTail i, s₁) ∧
      VcpuRuns b v e (i.toRun :: entryTail i, s₁) ([], s') ∧
      (i = .vmlaunch ↔ s.vmx.launched = 0) ∧ AtEntry s s₁ ∧ AfterSwitch e s s' := by
  have hsaved := hostSaved_of_reachable h
  obtain ⟨henter, hleave⟩ := switch_runs hsaved hcall e
  obtain ⟨-, hrsp, -, -⟩ := cacheHostRsp_spec hsaved hcall.rsp
  exact ⟨entryInstr s.vmx, _, _, henter, hleave, entryInstr_eq_vmlaunch,
    ⟨fun r hr => if_neg hr, rfl, hrsp⟩, afterSwitch hsaved hcall e⟩

end Switch

/-! ## Two runs -/

/-- A call with a given stack pointer: RCX has the structure, RDX the field `HOST_RSP`, and the
other registers a value without a meaning. -/
def callState (rsp : BitVec 64) (vmx : VmxState) : RunState where
  gpr r := if r = .rsp then rsp else if r = .rcx then 0x5000 else if r = .rdx then 0x6c14 else 0x77
  cr2 := 0
  zf := false
  cf := false
  stack _ := 0
  vmx := vmx

/-- The first call, with `vmx_return` at `0x1000`. -/
def firstCall : RunState :=
  callState 0x8000 { resetState with vmcs := Vmcs.zero.write hostRip 0x1000 }

/-- A second call from elsewhere on the stack, after a VM exit. -/
def secondCall : RunState :=
  callState 0x9000 (((EntryEnd.exit resetState).resumes firstCall.entered).left 0x5000).vmx

theorem world_switch_secondCall : ∃ i s₁ s',
    VcpuRuns 0x5000 0x1000 .vmFailValid (vmxVcpuRunText, secondCall)
      (EntryInstr.toRun i :: entryTail i, s₁) ∧
    VcpuRuns 0x5000 0x1000 .vmFailValid (i.toRun :: entryTail i, s₁) ([], s') ∧
    (i = .vmlaunch ↔ secondCall.vmx.launched = 0) ∧ AtEntry secondCall s₁ ∧
    AfterSwitch .vmFailValid secondCall s' := by
  have hrip : firstCall.vmx.vmcs.read hostRip = 0x1000 := by
    simp [firstCall, callState, VmcsField.width]
  have hfirst : HostCall 0x5000 firstCall := ⟨rfl, rfl, by decide⟩
  have hreach : VcpuReachable 0x5000 0x1000 firstCall.vmx := .init rfl rfl hrip
  obtain ⟨henter, hleave⟩ :=
    switch_runs (hostSaved_of_reachable hreach) hfirst (.exit resetState)
  have hafter := hreach.run hfirst (henter.trans hleave)
  exact world_switch (s := secondCall) hafter ⟨rfl, rfl, by decide⟩ .vmFailValid

/-! ## The run of `kvm_loop`

`vmxVcpuRun` of `Lvisor.KvmLoop` has no registers of the host and no stack. What it says of the
VMCS and of the guest's registers is what the text does. -/

/-- What the guest cannot reach. -/
structure LeavesHost (s t : VmxState) : Prop where
  rsp : t.regs .rsp = s.regs .rsp
  hostRsp : t.hostRsp = s.hostRsp
  fail : t.fail = s.fail
  vmcs : ∀ f, f = VmcsField.hostRsp ∨ f = hostRip → t.vmcs.field f = s.vmcs.field f

section Loop

variable {b v : BitVec 64} {s : RunState} {t t' : VmxState} {ls : LaunchState} {i : LoopInput}

theorem LeavesHost.trans {t₁ t₂ t₃ : VmxState} (h : LeavesHost t₁ t₂) (h' : LeavesHost t₂ t₃) :
    LeavesHost t₁ t₃ :=
  ⟨h'.rsp.trans h.rsp, h'.hostRsp.trans h.hostRsp, h'.fail.trans h.fail,
    fun f hf => (h'.vmcs f hf).trans (h.vmcs f hf)⟩

theorem field_write_host {w : Vmcs} {f g : VmcsField} {x : BitVec 64}
    (hf : f ≠ hostRsp ∧ f ≠ hostRip) (hg : g = hostRsp ∨ g = hostRip) :
    (w.write f x).field g = w.field g := by
  refine Function.update_of_ne ?_ _ _
  rcases hg with rfl | rfl
  · exact hf.1.symm
  · exact hf.2.symm

theorem leavesHost_write {f : VmcsField} {x : BitVec 64} (hf : f ≠ hostRsp ∧ f ≠ hostRip) :
    LeavesHost t { t with vmcs := t.vmcs.write f x } :=
  ⟨rfl, rfl, rfl, fun _ hg => field_write_host hf hg⟩

theorem guestDirect_leavesHost (t : VmxState) (a : GuestAct) : LeavesHost t (guestDirect t a) := by
  cases a with
  | work w =>
    refine ⟨rfl, rfl, rfl, fun f hf => ?_⟩
    rcases hf with rfl | rfl
    · rfl
    · rfl
  | movToCr0 reg len =>
    exact ((leavesHost_write (by decide)).trans (leavesHost_write (by decide))).trans
      (leavesHost_write (by decide))
  | movToCr3 reg len => exact leavesHost_write (by decide)
  | movToCr4 reg len => exact leavesHost_write (by decide)
  | wrmsr len =>
    rw [guestDirect, writeMsr]
    split
    · rename_i f hf
      refine leavesHost_write ?_
      have hhost : ∀ g, msrField ((t.regs .rcx).setWidth 32) = some g →
          g ≠ hostRsp ∧ g ≠ hostRip := by
        intro g hg
        unfold msrField at hg
        repeat' split at hg
        all_goals cases hg
        all_goals decide
      exact hhost f hf
    · exact ⟨rfl, rfl, rfl, fun _ _ => rfl⟩
    · exact ⟨rfl, rfl, rfl, fun _ _ => rfl⟩
  | _ => exact ⟨rfl, rfl, rfl, fun _ _ => rfl⟩

theorem recordExit_leavesHost (t : VmxState) (x : ExitInfo) :
    LeavesHost t { t with vmcs := t.vmcs.recordExit x } := by
  refine ⟨rfl, rfl, rfl, fun g hg => ?_⟩
  rw [Vmcs.recordExit, field_write_host (by decide) hg, field_write_host (by decide) hg,
    field_write_host (by decide) hg, field_write_host (by decide) hg,
    field_write_host (by decide) hg]

/-- The guest cannot reach what is the VMM's. -/
theorem guestRun_leavesHost (x : ExitInfo) (acts : List GuestAct) (t : VmxState) :
    LeavesHost t (guestRun x t acts) := by
  induction acts generalizing t with
  | nil => exact recordExit_leavesHost t x
  | cons a acts ih =>
    rw [guestRun]
    split
    · exact recordExit_leavesHost t _
    · exact (guestDirect_leavesHost t a).trans (ih _)

/-- The end of a VM entry of the loop. -/
def EntryEnd.ofLoop (ls : LaunchState) (i : LoopInput) (t : VmxState) : EntryEnd :=
  match vmEnter (entryInstr t) ls i.outcome (cacheHostRsp i.rsp t) with
  | some t' => .exit t'
  | none => .vmFailValid

/-- **Refinement**: a run of the text leaves the state of `vmxVcpuRun`. -/
theorem vmxVcpuRun_refines (h : HostSaved v s.vmx) (hcall : HostCall b s)
    (hrsp : i.rsp = s.gpr .rsp - 32) :
    ∃ s', VcpuRuns b v (.ofLoop ls i s.vmx) (vmxVcpuRunText, s) ([], s') ∧
      s'.vmx = (vmxVcpuRun ls i s.vmx).1 := by
  obtain ⟨henter, hleave⟩ := switch_runs h hcall (.ofLoop ls i s.vmx)
  refine ⟨_, henter.trans hleave, ?_⟩
  have hcache : s.entered.vmx = cacheHostRsp i.rsp s.vmx := by
    rw [hrsp]
    rfl
  have hinstr : entryInstr (cacheHostRsp i.rsp s.vmx) = entryInstr s.vmx := by
    rw [entryInstr, entryInstr, cacheHostRsp_launched]
  have hfold : (if s.vmx.hostRsp = i.rsp then s.vmx
      else { s.vmx with hostRsp := i.rsp, vmcs := s.vmx.vmcs.write hostRsp i.rsp }) =
      cacheHostRsp i.rsp s.vmx := rfl
  unfold vmxVcpuRun EntryEnd.ofLoop
  dsimp only
  rw [hfold, hinstr]
  rcases hend : vmEnter (entryInstr s.vmx) ls i.outcome (cacheHostRsp i.rsp s.vmx) with _ | t
  · have hregs : (fun r => if r = .rsp then s.entered.vmx.regs .rsp else s.entered.gpr r) =
        (cacheHostRsp i.rsp s.vmx).regs := by
      funext r
      rw [hcache, cacheHostRsp_regs]
      by_cases hr : r = .rsp
      · rw [if_pos hr, hr]
      · rw [if_neg hr]
        exact if_neg hr
    have hleft : (((EntryEnd.vmFailValid.resumes s.entered).left b).vmx) = { s.entered.vmx with
        regs := fun r => if r = .rsp then s.entered.vmx.regs .rsp else s.entered.gpr r
        cr2 := s.vmx.cr2, fail := setFail s.entered.vmx.fail true, launched := 1 } := rfl
    rw [hleft, hregs, hcache, ← cacheHostRsp_cr2 i.rsp s.vmx]
  · have hleaves : LeavesHost (cacheHostRsp i.rsp s.vmx) t := by
      unfold vmEnter at hend
      split at hend
      · split at hend
        · obtain rfl := Option.some.inj hend
          exact guestRun_leavesHost _ _ _
        · cases hend
      · cases hend
    have hregs : (fun r => if r = .rsp then s.entered.vmx.regs .rsp
        else (s.entered.afterExit t).gpr r) = t.regs := by
      funext r
      by_cases hr : r = .rsp
      · rw [if_pos hr, hr, hcache, hleaves.rsp]
      · rw [if_neg hr]
        exact if_neg hr
    have hvmcs : (⟨fun f => if f = hostRsp ∨ f = hostRip then s.entered.vmx.vmcs.field f
        else t.vmcs.field f⟩ : Vmcs) = t.vmcs := by
      refine Vmcs.ext (funext fun f => ?_)
      by_cases hf : f = hostRsp ∨ f = hostRip
      · refine (if_pos hf).trans ?_
        rw [hcache, hleaves.vmcs f hf]
      · exact if_neg hf
    have hleft : ((((EntryEnd.exit t).resumes s.entered).left b).vmx) = { t with
        regs := fun r => if r = .rsp then s.entered.vmx.regs .rsp
          else (s.entered.afterExit t).gpr r
        hostRsp := s.entered.vmx.hostRsp, fail := setFail s.entered.vmx.fail false, launched := 1
        vmcs := ⟨fun f => if f = hostRsp ∨ f = hostRip then s.entered.vmx.vmcs.field f
          else t.vmcs.field f⟩ } := rfl
    rw [hleft, hregs, hvmcs, hcache, ← hleaves.hostRsp, ← hleaves.fail]

end Loop

end Lvisor
