import Lvisor.GuestMode

/-!
# The loop of the VMM

`kvm_loop` alternates `vmx_vcpu_run`, which enters the guest, and `vmx_handle_exit`. The
processor decides how an entry ends:

* the guest runs and later leaves by a VM exit, which fills the exit fields of the VMCS;
* the entry instruction fails (VMfail): the VMCS stays as it is and only the flags of the
  processor tell, which `vmx_vcpu_run` keeps in `fail`. VMLAUNCH always fails on a VMCS
  that is launched, and VMRESUME on one that is clear.

The loop keeps a `trace` of its iterations, and `HandledOnce` says of it that every exit
is handled once. Nothing reads `fail`, and `launched` is set after an entry of either
kind, so the loop meets `HandledOnce` exactly in the runs without a VMfail
(`handledOnce_iff`). What `Guarded` says of the guest's mode holds in the loop whatever
the outcomes (`guarded_of_loop`).
-/

namespace Lvisor

open VmcsField

/-! ## VM entries

The outcome of an entry is an input, as far as the processor may choose it. It may not choose to
accept VMLAUNCH on a launched VMCS, nor VMRESUME on a clear one. -/

/-- The two instructions that enter the guest, for the first entry and for the others. -/
inductive EntryInstr where
  | vmlaunch
  | vmresume
  deriving DecidableEq

/-- The launch state of a VMCS, which the processor keeps. -/
inductive LaunchState where
  | clear
  | launched
  deriving DecidableEq

/-- Whether an instruction is the one for a VMCS in the given state. -/
def EntryInstr.accepts : EntryInstr → LaunchState → Bool
  | vmlaunch, .clear => true
  | vmresume, .launched => true
  | _, _ => false

/-- How a VM entry ends: by an exit of the guest, or in one of the two ways to fail. -/
inductive EntryOutcome where
  /-- the guest acts until there is an exit, at the latest `x` -/
  | exit (acts : List GuestAct) (x : ExitInfo)
  /-- the instruction fails -/
  | vmFail

/-- What one iteration of the loop depends on besides the state. -/
structure LoopInput where
  /-- the outcome of the entry -/
  outcome : EntryOutcome
  /-- the stack pointer at the entry -/
  rsp : BitVec 64
  /-- what the handler of the exit reads from the machine -/
  env : ExitEnv

/-- The guest runs up to the first of its acts that exits, or else up to the exit `x`. -/
def guestRun (x : ExitInfo) : VmxState → List GuestAct → VmxState
  | s, [] => { s with vmcs := s.vmcs.recordExit x }
  | s, a :: acts =>
    match guestExit s a with
    | some y => { s with vmcs := s.vmcs.recordExit y }
    | none => guestRun x (guestDirect s a) acts

/-- A VM entry and what follows it up to the exit; `none` is VMfail. -/
def vmEnter (instr : EntryInstr) (launchState : LaunchState) (outcome : EntryOutcome)
    (s : VmxState) : Option VmxState :=
  match outcome with
  | .exit acts x =>
    if instr.accepts launchState then some (guestRun x s acts) else none
  | .vmFail => none

/-- The instruction that `vmx_vcpu_run` enters the guest with, by its member `launched`. -/
def entryInstr (s : VmxState) : EntryInstr := if s.launched = 0#32 then .vmlaunch else .vmresume

/-- `setbe` of the low byte of `fail`: an exit clears the flags, VMfail sets CF or ZF. -/
def setFail (fail : BitVec 32) (below : Bool) : BitVec 32 :=
  (fail &&& ~~~0xff#32) ||| (if below then 1#32 else 0#32)

/-- `vmx_vcpu_run`: the state that it leaves, and whether the guest was entered. -/
def vmxVcpuRun (launchState : LaunchState) (i : LoopInput) (s : VmxState) : VmxState × Bool :=
  let s :=
    if s.hostRsp = i.rsp then s
    else { s with hostRsp := i.rsp, vmcs := s.vmcs.write hostRsp i.rsp }
  match vmEnter (entryInstr s) launchState i.outcome s with
  | some s => ({ s with fail := setFail s.fail false, launched := 1 }, true)
  | none => ({ s with fail := setFail s.fail true, launched := 1 }, false)

/-! ## The loop -/

/-- What an iteration of the loop did: how it entered the guest, and what it handled then. -/
structure Iteration where
  /-- the instruction it entered the guest with -/
  instr : EntryInstr
  /-- the launch state of the VMCS at that point -/
  before : LaunchState
  /-- whether the entry succeeded -/
  entered : Bool
  /-- the number of the exit that the VMCS then describes -/
  exit : ℕ
  /-- the handler that `vmx_handle_exit` dispatches, if there is one -/
  handler : Option ExitHandler

/-- The state of `kvm_loop`. -/
structure LoopState where
  vmx : VmxState
  launchState : LaunchState
  /-- the number of VM exits so far -/
  exits : ℕ
  /-- the iterations so far, the last one first -/
  trace : List Iteration

/-- The start of the loop: the VMCS has not been used. -/
def LoopState.init (vmx : VmxState) : LoopState where
  vmx := vmx
  launchState := .clear
  exits := 0
  trace := []

/-- An iteration up to the dispatch of `vmx_handle_exit`, with its record. -/
def LoopState.run (st : LoopState) (i : LoopInput) : LoopState :=
  let r := vmxVcpuRun st.launchState i st.vmx
  let exits := if r.2 then st.exits + 1 else st.exits
  let it : Iteration :=
    { instr := entryInstr st.vmx
      before := st.launchState
      entered := r.2
      exit := exits
      handler := vmxExitHandlers (r.1.vmcs.read32 vmExitReason) }
  { vmx := r.1
    launchState := if r.2 then .launched else st.launchState
    exits
    trace := it :: st.trace }

/-- One iteration of `kvm_loop`, which fails where the handling of the exit does. -/
def loopStep (img : VmxImage) (st : LoopState) (i : LoopInput) : Exec LoopState := do
  let st := st.run i
  let vmx ← vmxHandleExit img i.env st.vmx
  return { st with vmx }

/-- Every exit is handled exactly once, and the loop knows the launch state. -/
structure HandledOnce (st : LoopState) : Prop where
  /-- a handler is dispatched only after an entry that succeeded -/
  entered : ∀ it ∈ st.trace, it.handler.isSome = true → it.entered = true
  /-- no exit is handled twice -/
  once : st.trace.Pairwise fun it it' =>
    it.handler.isSome = true → it'.handler.isSome = true → it.exit ≠ it'.exit
  /-- every exit before the present one has been handled -/
  handled : ∀ it ∈ st.trace.tail, it.handler.isSome = true
  /-- `launched` is set exactly when a VMLAUNCH has succeeded -/
  launched : st.vmx.launched ≠ 0#32 ↔ ∃ it ∈ st.trace, it.instr = .vmlaunch ∧ it.entered = true
  /-- VMLAUNCH is used exactly when the VMCS is clear -/
  instr : ∀ it ∈ st.trace, it.instr = .vmlaunch ↔ it.before = .clear

/-! ## One entry -/

section Entry

variable {img : VmxImage} {st st' : LoopState} {i : LoopInput} {ls : LaunchState} {s : VmxState}

/-- Only the outcome and the launch state decide whether the guest is entered. -/
theorem vmxVcpuRun_entered :
    (vmxVcpuRun ls i s).2 = true ↔
      i.outcome ≠ .vmFail ∧ (entryInstr s).accepts ls = true := by
  unfold vmxVcpuRun
  dsimp only
  have hinstr : entryInstr (if s.hostRsp = i.rsp then s else
      { s with hostRsp := i.rsp, vmcs := s.vmcs.write hostRsp i.rsp }) = entryInstr s := by
    split <;> rfl
  rw [hinstr]
  cases i.outcome with
  | vmFail => simp [vmEnter]
  | exit acts x =>
    cases h : (entryInstr s).accepts ls with
    | true => simp [vmEnter, h]
    | false => simp [vmEnter, h]

/-- `launched` is set whether or not the guest was entered. -/
theorem vmxVcpuRun_launched : (vmxVcpuRun ls i s).1.launched = 1#32 := by
  unfold vmxVcpuRun
  dsimp only
  split <;> rfl

/-- A failed entry leaves the exit reason as it was. -/
theorem vmxVcpuRun_reason (h : (vmxVcpuRun ls i s).2 = false) :
    (vmxVcpuRun ls i s).1.vmcs.read vmExitReason = s.vmcs.read vmExitReason := by
  unfold vmxVcpuRun at h ⊢
  dsimp only at h ⊢
  split at h
  · cases h
  · dsimp only
    split
    · rfl
    · exact Vmcs.read_write_ne (by decide)

/-- An instruction is accepted by the launch state it is meant for. -/
theorem entryInstr_accepts :
    (entryInstr s).accepts ls = true ↔ (s.launched = 0#32 ↔ ls = .clear) := by
  unfold entryInstr
  by_cases h : s.launched = 0#32 <;> cases ls <;> simp [h, EntryInstr.accepts]

theorem entryInstr_eq_vmlaunch : entryInstr s = .vmlaunch ↔ s.launched = 0#32 := by
  unfold entryInstr
  by_cases h : s.launched = 0#32 <;> simp [h]

/-- A handler that returns was dispatched by the table. -/
theorem handler_isSome {env : ExitEnv} {s' : VmxState} (h : vmxHandleExit img env s = .ok s') :
    (vmxExitHandlers (s.vmcs.read32 vmExitReason)).isSome = true := by
  unfold vmxHandleExit at h
  dsimp only at h
  split at h
  · rename_i handler hreason
    rw [hreason]
    rfl
  · cases h

/-- What an iteration that returns leaves of the state after its entry. -/
theorem loopStep_eq_ok (h : loopStep img st i = .ok st') :
    ∃ vmx, vmxHandleExit img i.env (st.run i).vmx = .ok vmx ∧ st' = { st.run i with vmx } := by
  unfold loopStep at h
  obtain ⟨vmx, hvmx, h⟩ := Exec.bind_eq_ok.mp h
  exact ⟨vmx, hvmx, (Except.ok.inj h).symm⟩

end Entry

/-! ## Runs of the loop

While no entry fails, `launched` and the launch state of the VMCS agree. After the first VMfail
they do not, if the VMCS was clear, and then every later entry fails as well. -/

/-- Between iterations: every handler has returned, so the reason of the last exit, which
stays in the VMCS, is one that has a handler. -/
structure Settled (st : LoopState) : Prop where
  handled : ∀ it ∈ st.trace, it.handler.isSome = true
  reason : st.vmx.launched ≠ 0#32 →
    (vmxExitHandlers (st.vmx.vmcs.read32 vmExitReason)).isSome = true

/-- The loop before any VMfail: each exit so far was handled once. -/
structure InStep (st : LoopState) : Prop extends HandledOnce st where
  /-- `launched` tells the launch state -/
  flag : st.vmx.launched = 0#32 ↔ st.launchState = .clear
  /-- exits are numbered from one on -/
  exit_le : ∀ it ∈ st.trace, it.exit ≤ st.exits

/-- The loop after a VMfail: a handler has run without an entry before it, or the loop
takes a clear VMCS for a launched one. -/
def OutOfStep (st : LoopState) : Prop :=
  (∃ it ∈ st.trace, it.handler.isSome = true ∧ it.entered = false) ∨
    (st.vmx.launched ≠ 0#32 ∧ st.launchState = .clear ∧
      ∀ it ∈ st.trace, ¬(it.instr = .vmlaunch ∧ it.entered = true))

section Runs

variable {img : VmxImage} {st st' : LoopState} {i : LoopInput} {is : List LoopInput}

theorem launched_run (st : LoopState) (i : LoopInput) : (st.run i).vmx.launched ≠ 0#32 := by
  rw [show (st.run i).vmx.launched = 1#32 from vmxVcpuRun_launched]
  decide

/-- After an iteration that returns, the loop is settled. -/
theorem Settled.step (hst : Settled st) (h : loopStep img st i = .ok st') : Settled st' := by
  obtain ⟨vmx, hvmx, rfl⟩ := loopStep_eq_ok h
  have hsome := handler_isSome hvmx
  constructor
  · intro it hit
    rcases List.mem_cons.mp hit with rfl | hit
    · exact hsome
    · exact hst.handled it hit
  · intro _
    rw [Vmcs.read32, (vmxHandleExit_frame hvmx).read vmExitReason rfl]
    exact hsome

/-- Handlers do not touch `launched`, nor do they touch the record. -/
theorem InStep.of_loopStep (hst : InStep (st.run i)) (h : loopStep img st i = .ok st') :
    InStep st' := by
  obtain ⟨vmx, hvmx, rfl⟩ := loopStep_eq_ok h
  have hlaunched := (vmxHandleExit_frame hvmx).launched
  exact { hst with
    launched := by rw [hlaunched]; exact hst.launched
    flag := by rw [hlaunched]; exact hst.flag }

theorem OutOfStep.of_loopStep (hst : OutOfStep (st.run i)) (h : loopStep img st i = .ok st') :
    OutOfStep st' := by
  obtain ⟨vmx, hvmx, rfl⟩ := loopStep_eq_ok h
  refine hst.imp_right fun ⟨_, hclear, hnone⟩ => ⟨?_, hclear, hnone⟩
  rw [(vmxHandleExit_frame hvmx).launched]
  exact launched_run st i

/-- **Entry**: an entry that does not fail keeps the loop in step. -/
theorem InStep.run (hset : Settled st) (hst : InStep st) (hi : i.outcome ≠ .vmFail) :
    InStep (st.run i) := by
  have hentered : (vmxVcpuRun st.launchState i st.vmx).2 = true :=
    vmxVcpuRun_entered.mpr ⟨hi, entryInstr_accepts.mpr hst.flag⟩
  have hinstr : entryInstr st.vmx = .vmlaunch ↔ st.launchState = .clear :=
    entryInstr_eq_vmlaunch.trans hst.flag
  have hexits : (st.run i).exits = st.exits + 1 := if_pos hentered
  have hstate : (st.run i).launchState = .launched := if_pos hentered
  constructor
  case exit_le =>
    intro it hit
    rw [hexits]
    rcases List.mem_cons.mp hit with rfl | hit
    · exact hexits.le
    · exact (hst.exit_le it hit).trans (Nat.le_succ _)
  case flag => simp [hstate, launched_run st i]
  constructor
  case entered =>
    intro it hit
    rcases List.mem_cons.mp hit with rfl | hit
    · exact fun _ => hentered
    · exact hst.entered it hit
  case once =>
    -- the present exit is later than all others
    refine List.pairwise_cons.mpr ⟨fun it hit _ _ => ?_, hst.once⟩
    have hle := hst.exit_le it hit
    exact (show (st.run i).exits ≠ it.exit by omega)
  case handled => exact hset.handled
  case launched =>
    refine iff_of_true (launched_run st i) ?_
    by_cases hzero : st.vmx.launched = 0#32
    · exact ⟨_, List.mem_cons_self, entryInstr_eq_vmlaunch.mpr hzero, hentered⟩
    · obtain ⟨it, hit, h⟩ := hst.launched.mp hzero
      exact ⟨it, List.mem_cons_of_mem _ hit, h⟩
  case instr =>
    intro it hit
    rcases List.mem_cons.mp hit with rfl | hit
    · exact hinstr
    · exact hst.instr it hit

/-- A failed entry on a clear VMCS leaves it clear, with `launched` set. -/
theorem OutOfStep.of_clear (hentered : (vmxVcpuRun st.launchState i st.vmx).2 = false)
    (hclear : st.launchState = .clear)
    (hnone : ∀ it ∈ st.trace, ¬(it.instr = .vmlaunch ∧ it.entered = true)) :
    OutOfStep (st.run i) := by
  have hstate : (st.run i).launchState = st.launchState := by simp [LoopState.run, hentered]
  refine .inr ⟨launched_run st i, hstate.trans hclear, fun it hit h => ?_⟩
  rcases List.mem_cons.mp hit with rfl | hit
  · rw [show _ = false from hentered] at h
    exact Bool.false_ne_true h.2
  · exact hnone it hit h

/-- **VMfail**: a failed entry brings the loop out of step. A failed VMLAUNCH leaves
`launched` set on a clear VMCS, and a failed VMRESUME has the last exit handled again. -/
theorem InStep.outOfStep (hset : Settled st) (hst : InStep st) (hi : i.outcome = .vmFail) :
    OutOfStep (st.run i) := by
  have hentered : (vmxVcpuRun st.launchState i st.vmx).2 = false := by
    rw [← Bool.not_eq_true, vmxVcpuRun_entered]
    exact fun h => h.1 hi
  by_cases hzero : st.vmx.launched = 0#32
  · exact .of_clear hentered (hst.flag.mp hzero) fun it hit h =>
      hst.launched.mpr ⟨it, hit, h⟩ hzero
  · refine .inl ⟨_, List.mem_cons_self, ?_, hentered⟩
    have hreason := hset.reason hzero
    rw [Vmcs.read32, ← vmxVcpuRun_reason hentered] at hreason
    exact hreason

/-- Out of step, the loop stays so: VMRESUME fails on a clear VMCS. -/
theorem OutOfStep.run (hst : OutOfStep st) (i : LoopInput) : OutOfStep (st.run i) := by
  rcases hst with ⟨it, hit, h⟩ | ⟨hlaunched, hclear, hnone⟩
  · exact .inl ⟨it, List.mem_cons_of_mem _ hit, h⟩
  · refine .of_clear ?_ hclear hnone
    rw [← Bool.not_eq_true, vmxVcpuRun_entered, entryInstr_accepts]
    exact fun h => hlaunched (h.2.mpr hclear)

theorem OutOfStep.not_handledOnce (hst : OutOfStep st) : ¬HandledOnce st := by
  intro hhandled
  rcases hst with ⟨it, hit, hsome, hentered⟩ | ⟨hlaunched, -, hnone⟩
  · rw [hhandled.entered it hit hsome] at hentered
    cases hentered
  · obtain ⟨it, hit, h⟩ := hhandled.launched.mp hlaunched
    exact hnone it hit h

theorem Settled.init {vmx : VmxState} (h : vmx.launched = 0#32) : Settled (LoopState.init vmx) :=
  ⟨nofun, fun hne => absurd h hne⟩

theorem InStep.init {vmx : VmxState} (h : vmx.launched = 0#32) : InStep (LoopState.init vmx) where
  entered := nofun
  once := List.Pairwise.nil
  handled := nofun
  launched := iff_of_false (not_not_intro h) nofun
  instr := nofun
  flag := iff_of_true h rfl
  exit_le := nofun

/-- The loop is settled after every run, by induction over its iterations. -/
theorem Settled.steps (hst : Settled st) (h : runSteps (loopStep img) st is = .ok st') :
    Settled st' :=
  runSteps_invariant (fun _ _ _ hst h => hst.step h) hst h

/-- A run without VMfail keeps the loop in step. -/
theorem InStep.steps (hset : Settled st) (hst : InStep st)
    (h : runSteps (loopStep img) st is = .ok st') (his : ∀ i ∈ is, i.outcome ≠ .vmFail) :
    InStep st' :=
  (runSteps_invariant_along (P := fun st => Settled st ∧ InStep st)
    (C := fun _ i => i.outcome ≠ .vmFail)
    (fun _ _ _ hst hi h => ⟨hst.1.step h, (hst.2.run hst.1 hi).of_loopStep h⟩)
    ⟨hset, hst⟩ (along_of_forall his) h).2

/-- A run with a VMfail leaves the loop out of step. -/
theorem InStep.steps_of_vmFail (hset : Settled st) (hst : InStep st)
    (h : runSteps (loopStep img) st is = .ok st') (hi : i ∈ is) (hfail : i.outcome = .vmFail) :
    OutOfStep st' := by
  obtain ⟨is₁, is₂, rfl⟩ := List.append_of_mem hi
  obtain ⟨st₁, h₁, h⟩ := runSteps_append_eq_ok.mp h
  obtain ⟨st₂, h₂, h₃⟩ := runSteps_cons_eq_ok.mp h
  -- in step or not before the VMfail, the loop is out of step after it
  have hboth : Settled st₁ ∧ (InStep st₁ ∨ OutOfStep st₁) := by
    refine runSteps_invariant (P := fun st => Settled st ∧ (InStep st ∨ OutOfStep st))
      (fun st j st' hst h => ⟨hst.1.step h, ?_⟩) ⟨hset, .inl hst⟩ h₁
    rcases hst.2 with hin | hout
    · by_cases hj : j.outcome = .vmFail
      · exact .inr ((hin.outOfStep hst.1 hj).of_loopStep h)
      · exact .inl ((hin.run hst.1 hj).of_loopStep h)
    · exact .inr ((hout.run j).of_loopStep h)
  have hout : OutOfStep (st₁.run i) :=
    hboth.2.elim (fun hin => hin.outOfStep hboth.1 hfail) fun hout => hout.run i
  exact runSteps_invariant (fun st j _ hst h => (OutOfStep.run hst j).of_loopStep h)
    (hout.of_loopStep h₂) h₃

end Runs

/-! ## The mode of the guest in the loop -/

section Mode

variable {img : VmxImage} {st st' : LoopState} {s s₀ s₁ s₂ : VmxState}

theorem Guarded.recordExit (hs : Guarded s) (x : ExitInfo) :
    Guarded { s with vmcs := s.vmcs.recordExit x } :=
  hs.congr (hs.bits.of_sameMode (SameMode.recordExit s.vmcs x)) (recordExit_sameControls s x)

/-- The guest keeps the invariant up to its exit. -/
theorem Guarded.guestRun (x : ExitInfo) {acts : List GuestAct} (hs : Guarded s) :
    Guarded (guestRun x s acts) := by
  induction acts generalizing s with
  | nil => exact hs.recordExit x
  | cons a acts ih =>
    unfold Lvisor.guestRun
    split
    · exact hs.recordExit _
    · rename_i hx
      exact ih (hs.direct hx)

/-- Fields of `vcpu_vmx` that are no part of the invariant. -/
theorem Guarded.entryFlags (hs : Guarded s) (fail launched : BitVec 32) :
    Guarded { s with fail, launched } :=
  hs.congr hs.bits ⟨fun _ _ => rfl, rfl⟩

/-- An entry keeps the invariant, whether it fails or not. -/
theorem Guarded.vmxVcpuRun (hs : Guarded s) (ls : LaunchState) (i : LoopInput) :
    Guarded (vmxVcpuRun ls i s).1 := by
  unfold Lvisor.vmxVcpuRun
  dsimp only
  have hs' : Guarded (if s.hostRsp = i.rsp then s else
      { s with hostRsp := i.rsp, vmcs := s.vmcs.write hostRsp i.rsp }) := by
    split
    · exact hs
    · exact hs.congr (hs.bits.of_sameMode (SameMode.write nofun nofun nofun nofun))
        ⟨(sameControls_write rfl).read, rfl⟩
  split
  · rename_i s₁ hs₁
    refine Guarded.entryFlags ?_ _ _
    unfold vmEnter at hs₁
    split at hs₁
    · rw [Option.ite_none_right_eq_some] at hs₁
      obtain rfl := Option.some.inj hs₁.2
      exact hs'.guestRun _
    · cases hs₁
  · exact hs'.entryFlags _ _

theorem Guarded.loopStep {i : LoopInput} (hs : Guarded st.vmx)
    (h : loopStep img st i = .ok st') : Guarded st'.vmx := by
  obtain ⟨vmx, hvmx, rfl⟩ := loopStep_eq_ok h
  exact (hs.vmxVcpuRun st.launchState i).handleExit hvmx

/-- `create_vcpu` and `run_vcpu` add nothing to the controls that `vmx_vcpu_setup` leaves. -/
theorem runVcpu_sameControls (img : VmxImage) (s : VmxState) (startIp : BitVec 32) :
    SameControls s (runVcpu
      { s with vmcs := vmxSetTdp s.vmcs img.eptPml4, eptHandler := true } startIp) := by
  refine ⟨fun f hf => ?_, rfl⟩
  unfold runVcpu
  dsimp only
  rw [Vmcs.read_write_ne (ne_of_isStatic hf rfl), vmxSetSegment_read (ne_of_isStatic hf rfl)
    (ne_of_isStatic hf rfl) (ne_of_isStatic hf rfl) (ne_of_isStatic hf rfl), vmxSetTdp,
    Vmcs.read_write_ne (ne_of_isStatic hf rfl)]

/-- `run_vcpu` does not write to the mode of the guest. -/
theorem runVcpu_sameMode (img : VmxImage) (s : VmxState) (startIp : BitVec 32) :
    SameMode s.vmcs (runVcpu
      { s with vmcs := vmxSetTdp s.vmcs img.eptPml4, eptHandler := true } startIp).vmcs :=
  (SameMode.write (f := eptPointer) nofun nofun nofun nofun).trans <|
    SameMode.setSegment.trans (SameMode.write (f := guestRip) nofun nofun nofun nofun)

theorem Guarded.of_createVcpu (hzero : s₀.vmcs = Vmcs.zero) (hhw : vmxHardwareSetup s₀ = .ok s₁)
    (hcreate : createVcpu img s₁ = .ok s₂) (startIp : BitVec 32) :
    Guarded (runVcpu s₂ startIp) := by
  obtain ⟨config, cap, bm, rfl, -, hbitmap⟩ := vmxHardwareSetup_eq_ok hhw
  obtain ⟨host, s₄, hsetup, rfl⟩ := createVcpu_eq_ok hcreate
  have hs₄ : Guarded s₄ := .of_vcpuSetup hsetup (by rw [hzero, Vmcs.read_zero]) hbitmap
  exact hs₄.congr (hs₄.bits.of_sameMode (runVcpu_sameMode img s₄ startIp))
    (runVcpu_sameControls img s₄ startIp)

/-- **The VMM keeps its bits in the loop**: from boot on, in every state of `kvm_loop`,
whatever the guest does and however its entries end. -/
theorem guarded_of_loop {startIp : BitVec 32} {is : List LoopInput}
    (hzero : s₀.vmcs = Vmcs.zero) (hhw : vmxHardwareSetup s₀ = .ok s₁)
    (hcreate : createVcpu img s₁ = .ok s₂)
    (h : runSteps (loopStep img) (LoopState.init (runVcpu s₂ startIp)) is = .ok st) :
    Guarded st.vmx :=
  runSteps_invariant (P := fun st => Guarded st.vmx) (fun _ _ _ hs h => hs.loopStep h)
    (Guarded.of_createVcpu hzero hhw hcreate startIp) h

end Mode

/-! ## Exits are handled once

A failing entry leaves the last exit in the VMCS, and the loop handles it again. Nothing else can
make the trace differ from the exits. -/

section HandledOnce

variable {img : VmxImage} {s₀ s₁ s₂ : VmxState}

/-- Nothing before the loop writes `launched`, so that it is zero at first. -/
theorem launched_runVcpu (hhw : vmxHardwareSetup s₀ = .ok s₁)
    (hcreate : createVcpu img s₁ = .ok s₂) (startIp : BitVec 32) :
    (runVcpu s₂ startIp).launched = s₀.launched := by
  obtain ⟨config, cap, bm, rfl, -⟩ := vmxHardwareSetup_eq_ok hhw
  obtain ⟨host, s₃, hsetup, rfl⟩ := createVcpu_eq_ok hcreate
  obtain ⟨w, hostMsrs, rfl, -⟩ := vmxVcpuSetup_eq_ok hsetup
  rfl

/-- **Exits are handled once exactly without VMfail**: from the zeroed `current_vmx`, through
setup and any number of iterations of `kvm_loop`, both between two iterations and when the
next one dispatches. -/
theorem handledOnce_iff {startIp : BitVec 32} {st : LoopState} {is : List LoopInput}
    (hzero : s₀.launched = 0#32) (hhw : vmxHardwareSetup s₀ = .ok s₁)
    (hcreate : createVcpu img s₁ = .ok s₂)
    (h : runSteps (loopStep img) (LoopState.init (runVcpu s₂ startIp)) is = .ok st)
    (i : LoopInput) :
    (HandledOnce st ↔ ∀ j ∈ is, j.outcome ≠ .vmFail) ∧
      (HandledOnce (st.run i) ↔ ∀ j ∈ is ++ [i], j.outcome ≠ .vmFail) := by
  have hlaunched : (runVcpu s₂ startIp).launched = 0#32 :=
    (launched_runVcpu hhw hcreate startIp).trans hzero
  have hset₀ := Settled.init hlaunched
  have hin₀ := InStep.init hlaunched
  have hset := hset₀.steps h
  by_cases his : ∀ j ∈ is, j.outcome ≠ .vmFail
  · have hin := hin₀.steps hset₀ h his
    refine ⟨iff_of_true hin.toHandledOnce his, ?_⟩
    by_cases hi : i.outcome = .vmFail
    · refine iff_of_false (hin.outOfStep hset hi).not_handledOnce fun hok => ?_
      exact hok i (List.mem_append_right _ List.mem_cons_self) hi
    · refine iff_of_true (hin.run hset hi).toHandledOnce fun j hj => ?_
      rcases List.mem_append.mp hj with hj | hj
      · exact his j hj
      · rw [List.mem_singleton.mp hj]
        exact hi
  · have ⟨j, hj, hfail⟩ : ∃ j ∈ is, j.outcome = .vmFail := by
      simpa only [not_forall, exists_prop, ne_eq, not_not] using his
    have hout := hin₀.steps_of_vmFail hset₀ h hj hfail
    refine ⟨iff_of_false hout.not_handledOnce his, ?_⟩
    refine iff_of_false (hout.run i).not_handledOnce fun hok => ?_
    exact hok j (List.mem_append_left _ hj) hfail

end HandledOnce

/-- An entry after which the guest executes CPUID, and nothing before that. -/
def cpuidInput : LoopInput where
  outcome := .exit [] { reason := 10, instructionLen := 2 }
  rsp := 0x10304000#64
  env := quietEnv

/-- An entry that fails, because the VMCS is not in the right state. -/
def vmFailInput : LoopInput where
  outcome := .vmFail
  rsp := 0x10304000#64
  env := quietEnv

theorem handledOnce_iff_cpuidInput :
    ∃ s₁ s₂ st, vmxHardwareSetup resetState = .ok s₁ ∧ createVcpu vmmVmxImage s₁ = .ok s₂ ∧
      runSteps (loopStep vmmVmxImage) (LoopState.init (runVcpu s₂ 0xf0000#32))
        [cpuidInput, cpuidInput] = .ok st ∧
      st.exits = 2 ∧
      (HandledOnce st ↔ ∀ j ∈ [cpuidInput, cpuidInput], j.outcome ≠ .vmFail) ∧
      (HandledOnce (st.run vmFailInput) ↔
        ∀ j ∈ [cpuidInput, cpuidInput] ++ [vmFailInput], j.outcome ≠ .vmFail) := by
  obtain ⟨st, hst, hexits⟩ : ∃ st : LoopState, (do
      let s₁ ← vmxHardwareSetup resetState
      let s₂ ← createVcpu vmmVmxImage s₁
      runSteps (loopStep vmmVmxImage) (LoopState.init (runVcpu s₂ 0xf0000#32))
        [cpuidInput, cpuidInput]) = .ok st ∧ decide (st.exits = 2) = true :=
    Exec.exists_of_any (by decide +kernel)
  obtain ⟨s₁, hhw, hst⟩ := Exec.bind_eq_ok.mp hst
  obtain ⟨s₂, hcreate, hrun⟩ := Exec.bind_eq_ok.mp hst
  exact ⟨s₁, s₂, st, hhw, hcreate, hrun, of_decide_eq_true hexits,
    handledOnce_iff rfl hhw hcreate hrun vmFailInput⟩

/-- The VMRESUME after a CPUID exit fails: `vmx_handle_exit` handles the exit again, and
skips another two bytes of the guest. -/
theorem not_handledOnce_vmFailInput :
    ∃ s₁ s₂ st, vmxHardwareSetup resetState = .ok s₁ ∧ createVcpu vmmVmxImage s₁ = .ok s₂ ∧
      runSteps (loopStep vmmVmxImage) (LoopState.init (runVcpu s₂ 0xf0000#32))
        [cpuidInput, vmFailInput] = .ok st ∧
      st.exits = 1 ∧ st.trace.map (·.handler) = [some .cpuid, some .cpuid] ∧
      st.vmx.vmcs.read guestRip = 4#64 ∧ ¬HandledOnce st := by
  obtain ⟨st, hst, h⟩ : ∃ st : LoopState, (do
      let s₁ ← vmxHardwareSetup resetState
      let s₂ ← createVcpu vmmVmxImage s₁
      runSteps (loopStep vmmVmxImage) (LoopState.init (runVcpu s₂ 0xf0000#32))
        [cpuidInput, vmFailInput]) = .ok st ∧
        decide (st.exits = 1 ∧ st.trace.map (·.handler) = [some .cpuid, some .cpuid] ∧
          st.vmx.vmcs.read guestRip = 4#64 ∧
          ∃ it ∈ st.trace, it.handler.isSome = true ∧ it.entered = false) = true :=
    Exec.exists_of_any (by decide +kernel)
  obtain ⟨s₁, hhw, hst⟩ := Exec.bind_eq_ok.mp hst
  obtain ⟨s₂, hcreate, hrun⟩ := Exec.bind_eq_ok.mp hst
  obtain ⟨hexits, htrace, hrip, hstale⟩ := of_decide_eq_true h
  exact ⟨s₁, s₂, st, hhw, hcreate, hrun, hexits, htrace, hrip,
    OutOfStep.not_handledOnce (.inl hstale)⟩

end Lvisor
