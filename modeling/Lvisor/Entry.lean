import Lvisor.EntryInterrupt

/-!
# Which entries are transparent (`kernel/entry.S`)

A system call that there is returns to the program that made it with its registers, but for the
result, and an exception or an APIC interrupt leaves no trace in the program that it interrupts.
Two entries do not come back. The test of the number of a system call jumps behind the switch of
CR3 when there is no such call, and an exception of the kernel under the page table of a user
process returns from `error_entry` to an address that is not mapped there.

* `doSyscall64_runs`, `dispatch_runs`, `sysret_runs` — the way of a system call;
* `syscall_returns` — the whole of it;
* `unknown_runs`, `unknown_lost` — the way of one that there is not;
* `exception_transparent_user`, `exception_transparent_kernel`, `apic_transparent` — the ways of
  `Lvisor.EntryInterrupt` on machines;
* `entry_transparent_iff` — all of them, with the condition of each.
-/

namespace Lvisor

/-! ## System calls

The way of a system call through `do_syscall_64`, piece by piece, on views: the frame is built,
the function is called, and the frame is taken down again. The way of a number that is too large
leaves this one at the `jae`. -/

section Syscall

variable {L : Layout} {F : StackArea L} {H : Handlers} {a b : View} {n : BitVec 64} {v : Val}

/-- The registers that `do_syscall_64` saves on the stack and restores from there. -/
def syscallSaved : List Reg := [.r10, .r9, .r8, .rdx, .rsi, .rdi]

/-- The text behind the call of the function: the result, the switch back, and the return. -/
def resultText : List Instr :=
  .pop .rsp :: .store .rax (.stack ptRax) ::
    (switchToUser .rcx .doSyscall64 ++ textFrom .sysret)

/-- The text behind the switch to the kernel: the call of the function, and what follows it. -/
def dispatchText : List Instr := .mov .r10 .rcx :: .push .rsp :: .call .syscallTable :: resultText

/-- The caller, which the view `a` has at the entry, is saved in the view `b`. -/
structure View.InSyscall (a b : View) : Prop where
  kept : ∀ r ∈ calleeSaved, b.regs r = a.regs r
  saved : ∀ r ∈ syscallSaved, b.frame (savedSlot r) = a.regs r
  rip : b.frame 18 = a.regs .rcx
  rflags : b.frame 20 = a.regs .r11
  rsp : b.cells .rspScratch = a.regs .rsp
  gsBase : b.gsBase = .percpu
  kernelGsBase : b.kernelGsBase = a.gsBase

/-- The entry of a system call, up to the test of its number. -/
theorem doSyscall64_runs (hrax : a.regs .rax = .word n) (hfetch : a.shared = true)
    (hkgs : a.kernelGsBase = .percpu) (hsp0 : a.cells .sp0 = .stack true areaWords) :
    ∃ b, EntryRuns L H (doSyscall64, a.machine L F)
        (.jae (.toKernel .doSyscall64) :: (switchToKernel .rcx .doSyscall64 ++ dispatchText),
          b.machine L F) ∧
      a.InSyscall b ∧ b.regs .rsp = .stack true 2 ∧
      (∀ r, r ≠ .rsp → b.regs r = a.regs r) ∧ b.cf = decide (n < nrSyscalls) ∧ b.cr3 = a.cr3 ∧
      b.shared = true := by
  obtain ⟨rs, zf, cf, cr3, gs, kgs, f, c, rest, sh⟩ := a
  obtain ⟨rs, rfl⟩ := exists_update hrax
  obtain ⟨c, rfl⟩ := exists_update hsp0
  obtain rfl : sh = true := hfetch
  obtain rfl : kgs = .percpu := hkgs
  have hruns : ∃ b, View.runs L F 21 (doSyscall64,
        ⟨Function.update rs .rax (.word n), zf, cf, cr3, gs, .percpu, f,
          Function.update c .sp0 (.stack true areaWords), rest, true⟩) =
        some (.jae (.toKernel .doSyscall64) ::
          (switchToKernel .rcx .doSyscall64 ++ dispatchText), b) ∧
      View.InSyscall ⟨Function.update rs .rax (.word n), zf, cf, cr3, gs, .percpu, f,
          Function.update c .sp0 (.stack true areaWords), rest, true⟩ b ∧
      b.regs .rsp = .stack true 2 ∧
      (∀ r, r ≠ .rsp → b.regs r = Function.update rs .rax (.word n) r) ∧
      b.cf = decide (n < nrSyscalls) ∧ b.cr3 = cr3 ∧ b.shared = true := by
    refine ⟨_, rfl, ⟨fun r hr => ?_, fun r hr => ?_, rfl, rfl, rfl, rfl, rfl⟩, rfl,
      fun r hr => ?_, rfl, rfl, rfl⟩
    · cases r <;> first | rfl | exact absurd hr (by decide)
    · cases r <;> first | rfl | exact absurd hr (by decide)
    · cases r <;> first | rfl | exact absurd rfl hr
  obtain ⟨b, hruns, hin⟩ := hruns
  exact ⟨b, entryRuns_of_runs hruns, hin⟩

/-- The call of the function, with the switches around it. -/
theorem dispatch_runs (hin : a.InSyscall b) (hrax : b.regs .rax = .word n)
    (hrsp : b.regs .rsp = .stack true 2) (hfetch : b.shared = true)
    (hconf : Conforms F (H.syscallTable n)) :
    ∃ m₀ m₁ b', EntryRuns L H (switchToKernel .rcx .doSyscall64 ++ dispatchText, b.machine L F)
        (.call .syscallTable :: resultText, m₀) ∧
      (∀ r, r ≠ .rsp → r ≠ .rcx → m₀.regs r = (b.regs r).den L F) ∧
      m₀.regs .rcx = (b.regs .r10).den L F ∧
      entryStep L H (.call .syscallTable :: resultText, m₀) = some (resultText, m₁) ∧
      EntryRuns L H (resultText, m₁) (textFrom .sysret, b'.machine L F) ∧ a.InSyscall b' ∧
      b'.regs .rsp = .stack true 2 ∧ b'.frame (savedSlot .rax) = .word (m₁.regs .rax) ∧
      b'.cr3 = b.cr3 ∧ b'.shared = true := by
  obtain ⟨rs₁, zf₁, cf₁, henter, hrsp₁, hregs₁⟩ := switchToKernel_runs (L := L) (F := F) (H := H)
    (s := .doSyscall64) dispatchText dispatchText (.inl rfl) rfl hrsp hin.gsBase hfetch
  obtain ⟨rs, zf, cf, cr3, gs, kgs, f, c, rest, sh⟩ := b
  obtain ⟨rs₂, harg, hrsp₂, hrcx₂, hregs₂⟩ : ∃ rs₂, View.runs L F 1 (dispatchText,
          ⟨rs₁, zf₁, cf₁, .kpml4, gs, kgs, f, Function.update c .cr3Scratch cr3, rest, false⟩) =
        some (.push .rsp :: .call .syscallTable :: resultText,
          ⟨rs₂, zf₁, cf₁, .kpml4, gs, kgs, f, Function.update c .cr3Scratch cr3, rest, false⟩) ∧
      rs₂ .rsp = .stack false 2 ∧ rs₂ .rcx = rs .r10 ∧
      ∀ r, r ≠ .rsp → r ≠ .rcx → rs₂ r = rs r :=
    ⟨_, rfl, hrsp₁, hregs₁ .r10 (by decide) (by decide),
      fun r hr hc => (Function.update_of_ne hc _ _).trans (hregs₁ r hr hc)⟩
  have hrax₂ : rs₂ .rax = .word n := (hregs₂ .rax (by decide) (by decide)).trans hrax
  obtain ⟨m₀, m₁, b₃, hpush, hargs, hcall, hpop, hkept, hresult⟩ := alignedCall_runs (L := L)
    (F := F) (H := H) (f := .syscallTable) (a := ⟨rs₂, zf₁, cf₁, .kpml4, gs, kgs, f,
      Function.update c .cr3Scratch cr3, rest, false⟩)
    (.store .rax (.stack ptRax) :: (switchToUser .rcx .doSyscall64 ++ textFrom .sysret))
    hrsp₂ rfl rfl fun m hm => by
      rw [Handlers.callee, (hm .rax (by decide)).trans (congrArg (Val.den L F) hrax₂)]
      exact hconf
  have hstore : View.runs L F 1
        (.store .rax (.stack ptRax) :: (switchToUser .rcx .doSyscall64 ++ textFrom .sysret), b₃) =
      some (switchToUser .rcx .doSyscall64 ++ textFrom .sysret,
        { b₃ with frame := Function.update b₃.frame (savedSlot .rax) (.word (m₁.regs .rax)) }) := by
    obtain ⟨rs₃, zf₃, cf₃, cr3₃, gs₃, kgs₃, f₃, c₃, rest₃, sh₃⟩ := b₃
    obtain rfl : sh₃ = false := hkept.shared
    obtain rfl : cr3₃ = .kpml4 := hkept.cr3
    have hrsp₃ : rs₃ .rsp = .stack false 2 := hkept.rsp.trans hrsp₂
    have hrax₃ : rs₃ .rax = .word (m₁.regs .rax) := hresult
    rw [← hrax₃]
    obtain ⟨rs₃, rfl⟩ := exists_update hrsp₃
    rfl
  obtain ⟨rs₄, zf₄, cf₄, hleave, hrsp₄, hregs₄⟩ := switchToUser_runs (L := L) (F := F) (H := H)
    (a := { b₃ with frame := Function.update b₃.frame (savedSlot .rax) (.word (m₁.regs .rax)) })
    (s := .doSyscall64) (textFrom .sysret) (textFrom .sysret) (.inl rfl) rfl
    (hkept.rsp.trans hrsp₂) (hkept.gsBase.trans hin.gsBase) hkept.cr3 hkept.shared
  have hframe : ∀ i, 2 ≤ i → i ≠ savedSlot .rax → i ≠ origAxSlot → i < areaWords →
      Function.update b₃.frame (savedSlot .rax) (.word (m₁.regs .rax)) i = f i := by
    intro i hge hne hne' hlt
    rw [Function.update_of_ne hne]
    exact hkept.frame i hge hne' hlt
  refine ⟨m₀, m₁, _, henter.trans ((entryRuns_of_runs harg).trans hpush), fun r hr hc => ?_, ?_,
    hcall, hpop.trans ((entryRuns_of_runs hstore).trans hleave),
    ⟨fun r hr => ?_, fun r hr => ?_, ?_, ?_, ?_, ?_, ?_⟩, hrsp₄, rfl, ?_, rfl⟩
  · rw [hargs.regs r hr]
    exact congrArg (Val.den L F) (hregs₂ r hr hc)
  · rw [hargs.regs .rcx (by decide)]
    exact congrArg (Val.den L F) hrcx₂
  · have hne : r ≠ .rsp ∧ r ≠ .rcx := by
      constructor <;> rintro rfl <;> exact absurd hr (by decide)
    refine (hregs₄ r hne.1 hne.2).trans ?_
    exact ((hkept.regs r hr).trans (hregs₂ r hne.1 hne.2)).trans (hin.kept r hr)
  · refine (hframe (savedSlot r) ?_ ?_ ?_ ?_).trans (hin.saved r hr) <;> clear hin <;>
      cases r <;> revert hr <;> decide
  · exact (hframe 18 (by decide) (by decide) (by decide) (by decide)).trans hin.rip
  · exact (hframe 20 (by decide) (by decide) (by decide) (by decide)).trans hin.rflags
  · exact (hkept.cells .rspScratch (by decide)).trans hin.rsp
  · exact hkept.gsBase.trans hin.gsBase
  · exact hkept.kernelGsBase.trans hin.kernelGsBase
  · exact hkept.cells .cr3Scratch (by decide)

/-- The return to the caller, from behind the switch to the user. -/
theorem sysret_runs (hin : a.InSyscall b) (hrsp : b.regs .rsp = .stack true 2)
    (hresult : b.frame (savedSlot .rax) = v) (hfetch : b.shared = true) :
    ∃ rs zf cf, EntryRuns L H (textFrom .sysret, b.machine L F) ([.sysretq],
        ({ b with
          regs := rs, zf, cf, gsBase := b.kernelGsBase, kernelGsBase := .percpu } : View).machine
            L F) ∧
      rs .rax = v ∧ ∀ r, r ≠ .rax → rs r = a.regs r := by
  obtain ⟨rs, zf, cf, cr3, gs, kgs, f, c, rest, sh⟩ := b
  obtain ⟨rs, rfl⟩ := exists_update hrsp
  obtain rfl : sh = true := hfetch
  obtain rfl : gs = .percpu := hin.gsBase
  have hruns : ∃ rs' zf' cf', View.runs L F 15 (textFrom .sysret,
        ⟨Function.update rs .rsp (.stack true 2), zf, cf, cr3, .percpu, kgs, f, c, rest, true⟩) =
        some ([.sysretq], ⟨rs', zf', cf', cr3, kgs, .percpu, f, c, rest, true⟩) ∧
      rs' .rax = v ∧ ∀ r, r ≠ .rax → rs' r = a.regs r := by
    refine ⟨_, _, _, rfl, hresult, fun r hr => ?_⟩
    cases r with
    | rax => exact absurd rfl hr
    | rcx => exact hin.rip
    | r11 => exact hin.rflags
    | rsp => exact hin.rsp
    | rdx => exact hin.saved .rdx (by decide)
    | rsi => exact hin.saved .rsi (by decide)
    | rdi => exact hin.saved .rdi (by decide)
    | r8 => exact hin.saved .r8 (by decide)
    | r9 => exact hin.saved .r9 (by decide)
    | r10 => exact hin.saved .r10 (by decide)
    | rbx => exact hin.kept .rbx (by decide)
    | rbp => exact hin.kept .rbp (by decide)
    | r12 => exact hin.kept .r12 (by decide)
    | r13 => exact hin.kept .r13 (by decide)
    | r14 => exact hin.kept .r14 (by decide)
    | r15 => exact hin.kept .r15 (by decide)
  obtain ⟨rs', zf', cf', hruns, hrax, hother⟩ := hruns
  exact ⟨rs', zf', cf', entryRuns_of_runs hruns, hrax, hother⟩

/-- The way of a system call whose number is too high: RSP goes to the identity mapping, though
CR3 has not been switched. -/
theorem unknown_runs (hrsp : b.regs .rsp = .stack true 2) (hfetch : b.shared = true) :
    ∃ b' : View, EntryRuns L H (textFrom (.toKernel .doSyscall64), b.machine L F)
        (.push .rsp :: .call .syscallTable :: resultText, b'.machine L F) ∧
      b'.regs .rsp = .stack false 2 ∧ b'.regs .rax = b.regs .rax ∧ b'.cr3 = b.cr3 := by
  obtain ⟨rs, zf, cf, cr3, gs, kgs, f, c, rest, sh⟩ := b
  obtain ⟨rs, rfl⟩ := exists_update hrsp
  obtain rfl : sh = true := hfetch
  obtain ⟨b', hruns, hb'⟩ : ∃ b', View.runs L F 4 (textFrom (.toKernel .doSyscall64),
        ⟨Function.update rs .rsp (.stack true 2), zf, cf, cr3, gs, kgs, f, c, rest, true⟩) =
        some (.push .rsp :: .call .syscallTable :: resultText, b') ∧
      b'.regs .rsp = .stack false 2 ∧ b'.regs .rax = rs .rax ∧ b'.cr3 = cr3 :=
    ⟨_, rfl, rfl, rfl, rfl⟩
  exact ⟨b', entryRuns_of_runs hruns, hb'⟩

end Syscall

/-! ## Calls of what is behind the table

A machine that cannot fetch the text any more never reaches the SYSRETQ. One way is the page
fault of the PUSH; the other is a `call` of what happens to stand behind `syscall_table`, which
need not return.
-/

section Unknown

variable {L : Layout} {F : StackArea L} {H : Handlers} {m m' : Machine} {w : BitVec 64} {r : Reg}
  {f : Callee} {text : List Instr} {s : List Instr × Machine}

theorem push_regs (h : m.push L w = some m') (hr : r ≠ .rsp) : m'.regs r = m.regs r := by
  obtain ⟨pa, -, rfl⟩ := Option.map_eq_some_iff.mp h
  exact Function.update_of_ne hr _ _

theorem entryStep_push (h : entryStep L H (.push r :: text, m) = some s) :
    ∃ m', m.push L (m.regs r) = some m' ∧ s = (text, m') := by
  unfold entryStep at h
  dsimp only at h
  split at h
  · obtain ⟨m', hpush, rfl⟩ := Option.map_eq_some_iff.mp h
    exact ⟨m', hpush, rfl⟩
  · cases h

theorem entryStep_call (h : entryStep L H (.call f :: text, m) = some s) :
    ∃ m', s = (text, H.callee m f m') := by
  unfold entryStep at h
  dsimp only at h
  split at h
  · obtain ⟨m', -, hs⟩ := Option.bind_eq_some_iff.mp h
    exact ⟨m', (Option.some.inj hs).symm⟩
  · cases h

/-- A PUSH at an address that is not mapped. -/
theorem push_unmapped (hrsp : m.regs .rsp = F.addr false 2)
    (hunmapped : Machine.translate L m.cr3 (F.addr false 1) = none) : m.push L w = none := by
  have hback : F.addr false 2 - 8 = F.addr false 1 := by
    have hslot : slot F.base 1 + 8 = slot F.base 2 := slot_add_word (by decide)
    rw [StackArea.addr, StackArea.addr, ← hslot]
    bv_omega
  have haddr : (m.set .rsp (F.addr false 1)).address L (.stack 0) = F.addr false 1 := by
    rw [Machine.address, Machine.set]
    dsimp only
    rw [Function.update_self]
    exact BitVec.add_zero _
  rw [Machine.push, hrsp, hback, Machine.write, haddr]
  change Option.map _ (Machine.translate L m.cr3 (F.addr false 1)) = none
  rw [hunmapped]
  rfl

/-- A function that returns 7 and does nothing else. -/
def returnSeven (m : Machine) : Machine :=
  (m.set .rsp (m.regs .rsp + 8)).set .rax 7

theorem conforms_returnSeven (F : StackArea L) : Conforms F returnSeven := by
  intro m shared _ _ _
  refine ⟨fun r hr => ?_, rfl, fun _ _ _ => rfl, fun _ _ => rfl, rfl, rfl, rfl, rfl⟩
  cases r <;> first | rfl | exact absurd hr (by decide)

/-- A table of functions that all return 7. What is behind its end loses the machine. -/
def tableOfSevens (L : Layout) : Handlers where
  syscallTable n m :=
    if n < nrSyscalls then returnSeven m else { m with cr3 := L.kpml4 + 1, shared := false }
  exception _ := returnSeven
  apic _ := returnSeven

theorem conforms_tableOfSevens (F : StackArea L) {n : BitVec 64} (hn : n < nrSyscalls) :
    Conforms F ((tableOfSevens L).syscallTable n) := by
  have htable : (tableOfSevens L).syscallTable n = returnSeven := funext fun m => if_pos hn
  rw [htable]
  exact conforms_returnSeven F

/-- The system call does not come back: its text stops at the PUSH, at the `call` or behind it. -/
theorem unknown_lost (hrax : nrSyscalls ≤ m.regs .rax) :
    ∃ t, EntryRuns L (tableOfSevens L) (.push .rsp :: .call .syscallTable :: resultText, m) t ∧
      entryStep L (tableOfSevens L) t = none ∧ t.1 ≠ [.sysretq] := by
  rcases hpush : entryStep L (tableOfSevens L)
      (.push .rsp :: .call .syscallTable :: resultText, m) with _ | s
  · exact ⟨_, .refl, hpush, nofun⟩
  · obtain ⟨m₁, hpushed, rfl⟩ := entryStep_push hpush
    rcases hcall : entryStep L (tableOfSevens L) (.call .syscallTable :: resultText, m₁) with _ | s
    · exact ⟨_, .single hpush, hcall, nofun⟩
    · obtain ⟨m₂, rfl⟩ := entryStep_call hcall
      have hunknown : ¬m₁.regs .rax < nrSyscalls := by
        rw [push_regs hpushed (by decide)]
        exact BitVec.not_lt.mpr hrax
      have hlost : (tableOfSevens L).callee m₁ .syscallTable m₂ =
          { m₂ with cr3 := L.kpml4 + 1, shared := false } := if_neg hunknown
      have hreached : EntryRuns L (tableOfSevens L)
          (.push .rsp :: .call .syscallTable :: resultText, m)
          (resultText, (tableOfSevens L).callee m₁ .syscallTable m₂) :=
        .tail (.single hpush) hcall
      refine ⟨_, hreached, ?_, nofun⟩
      rw [hlost]
      refine entryStep_of_not_canFetch _ (Bool.or_eq_false_iff.mpr ⟨rfl, decide_eq_false ?_⟩)
      intro heq
      have hne : L.kpml4 + 1 ≠ L.kpml4 := by bv_omega
      exact hne heq

end Unknown

/-! ## The entries on machines

A view that agrees with the machine at the entry turns a run of the view into a run of the
machine. `Transparent` and `SyscallReturns` say what the interrupted program sees of it. -/

/-- SYSCALL: RCX and R11 have RIP and RFLAGS of the caller, and RIP is that of `MSR_LSTAR`, in the
shared mapping. -/
def Machine.syscall (m : Machine) (rip rflags : BitVec 64) : Machine :=
  { (m.set .rcx rip).set .r11 rflags with shared := true }

section Machines

variable {L : Layout} (F : StackArea L) (H : Handlers)

/-- The machine when the processor has delivered an exception or an interrupt of user mode: RSP is
at a slot of the stack of the TSS, and RIP is that of the IDT, in the shared mapping. -/
structure EntersUser (i : ℕ) (m : Machine) : Prop where
  rsp : m.regs .rsp = F.addr true i
  cs : m.mem (slot F.base 19) &&& 3 ≠ 0
  kernelGsBase : m.kernelGsBase = L.percpu
  shared : m.shared = true

/-- The machine when the processor has delivered an exception of the kernel: RSP is at a slot of
the kernel's stack, in a mapping that there is. -/
structure EntersKernel (high : Bool) (i : ℕ) (m : Machine) : Prop where
  rsp : m.regs .rsp = F.addr high i
  cs : m.mem (slot F.base 19) &&& 3 = 0
  maps : high = true ∨ m.cr3 = L.kpml4
  shared : m.shared = true

/-- The IRETQ executes, and with the state that `m` had at the entry: all registers, RSP at the
frame of the processor, that frame, CR3 and the GS bases. -/
structure Transparent (high : Bool) (m m' : Machine) : Prop where
  regs : ∀ r, r ≠ .rsp → m'.regs r = m.regs r
  rsp : m'.regs .rsp = F.addr high ripSlot
  frame : ∀ i, ripSlot ≤ i → i < areaWords → m'.mem (slot F.base i) = m.mem (slot F.base i)
  cr3 : m'.cr3 = m.cr3
  gsBase : m'.gsBase = m.gsBase
  kernelGsBase : m'.kernelGsBase = m.kernelGsBase
  fetch : m'.canFetch L = true

/-- The SYSRETQ executes, and with the state of the caller `m`, but for RAX, RCX and R11. -/
structure SyscallReturns (L : Layout) (rip rflags : BitVec 64) (m m' : Machine) : Prop where
  rip : m'.regs .rcx = rip
  rflags : m'.regs .r11 = rflags
  regs : ∀ r, r ∉ [.rax, .rcx, .r11] → m'.regs r = m.regs r
  cr3 : m'.cr3 = m.cr3
  gsBase : m'.gsBase = m.gsBase
  kernelGsBase : m'.kernelGsBase = m.kernelGsBase
  fetch : m'.canFetch L = true

/-- The function of the caller's number is called with the caller's arguments, and its result is
that of the system call. -/
def Dispatches (L : Layout) (rip rflags : BitVec 64) (m m' : Machine) : Prop :=
  ∃ m₀ m₁,
    EntryRuns L H (doSyscall64, m.syscall rip rflags) (.call .syscallTable :: resultText, m₀) ∧
    m₀.regs .rax = m.regs .rax ∧
    [.rdi, .rsi, .rdx, .rcx, .r8, .r9].map m₀.regs =
      [.rdi, .rsi, .rdx, .r10, .r8, .r9].map m.regs ∧
    entryStep L H (.call .syscallTable :: resultText, m₀) = some (resultText, m₁) ∧
    EntryRuns L H (resultText, m₁) ([.sysretq], m') ∧ m'.regs .rax = m₁.regs .rax

variable {F H} {m : Machine} {high : Bool} {i : ℕ} {w : BitVec 64}

/-- A view of a machine in which all values are words. -/
def View.ofMachine (F : StackArea L) (m : Machine) : View where
  regs r := .word (m.regs r)
  zf := m.zf
  cf := m.cf
  cr3 := .word m.cr3
  gsBase := .word m.gsBase
  kernelGsBase := .word m.kernelGsBase
  frame i := .word (m.mem (slot F.base i))
  cells c := .word (m.mem (L.cell c))
  rest := m.mem
  shared := m.shared

/-- The view of a machine whose stack pointer is at a slot. -/
def View.atSlot (F : StackArea L) (m : Machine) (high : Bool) (i : ℕ) : View :=
  (View.ofMachine F m).set .rsp (.stack high i)

theorem atSlot_den (h : m.regs .rsp = F.addr high i) (r : Reg) :
    ((View.atSlot F m high i).regs r).den L F = m.regs r := by
  by_cases hr : r = .rsp
  · rw [hr, h]
    rfl
  · rw [View.atSlot, View.set]
    dsimp only
    rw [Function.update_of_ne hr]
    rfl

theorem user_machine (h : EntersUser F i m) :
    ({ View.atSlot F m true i with kernelGsBase := .percpu } : View).machine L F = m :=
  View.machine_eq (atSlot_den h.rsp) rfl rfl rfl rfl h.kernelGsBase.symm (fun _ _ => rfl)
    (fun _ => rfl) rfl rfl

theorem atSlot_machine (h : m.regs .rsp = F.addr high i) :
    (View.atSlot F m high i).machine L F = m :=
  View.machine_eq (atSlot_den h) rfl rfl rfl rfl rfl (fun _ _ => rfl) (fun _ => rfl) rfl rfl

theorem kernel_machine (h : m.regs .rsp = F.addr high i) (hcr3 : m.cr3 = L.kpml4) :
    ({ View.atSlot F m high i with cr3 := .kpml4 } : View).machine L F = m :=
  View.machine_eq (atSlot_den h) rfl rfl hcr3.symm rfl rfl (fun _ _ => rfl)
    (fun _ => rfl) rfl rfl

/-- The view of a machine at the entry of a system call. -/
def View.atSyscall (F : StackArea L) (m : Machine) : View :=
  { View.ofMachine F m with
    kernelGsBase := .percpu
    cells := Function.update (View.ofMachine F m).cells .sp0 (.stack true areaWords) }

theorem syscall_machine (hkgs : m.kernelGsBase = L.percpu)
    (hsp0 : m.mem (L.cell .sp0) = F.addr true areaWords) :
    (View.atSyscall F m).machine L F = m := by
  refine View.machine_eq (fun _ => rfl) rfl rfl rfl rfl hkgs.symm (fun _ _ => rfl) (fun c => ?_) rfl
    rfl
  by_cases hc : c = .sp0
  · rw [hc, hsp0]
    rfl
  · rw [View.atSyscall]
    dsimp only
    rw [Function.update_of_ne hc]
    rfl

/-- What is known to go on, goes on. -/
theorem transparent_of_resumes {a b : View} (hm : a.machine L F = m) (h : a.Resumes high b) :
    Transparent F high m (b.machine L F) := by
  subst hm
  refine ⟨fun r hr => congrArg (Val.den L F) (h.regs r hr), congrArg (Val.den L F) h.rsp,
    fun i hge hlt => ?_, congrArg (Val.den L F) h.cr3, congrArg (Val.den L F) h.gsBase,
    congrArg (Val.den L F) h.kernelGsBase, View.canFetch_of_maps h.maps⟩
  rw [machine_slot hlt, machine_slot hlt, h.frame i hge hlt]

/-- **Exceptions of the user** are transparent, and their handler is called. -/
theorem exception_transparent_user (e : Exception) (h : EntersUser F e.entrySlot m)
    (hconf : Conforms F (H.exception e)) :
    ∃ m', HandlerCalled H F false (-1) (some (e.errorCode F m)) (.exception e) (idtentry e) m m' ∧
      Transparent F true m m' := by
  have hm := user_machine h
  obtain ⟨b, hcalled, hresumes⟩ := idt_resumes_user (L := L) (H := H)
    (a := { View.atSlot F m true e.entrySlot with kernelGsBase := .percpu }) e rfl h.shared rfl rfl
    h.cs hconf
  rw [hm, textFrom_idt] at hcalled
  exact ⟨_, hcalled, transparent_of_resumes hm hresumes⟩

/-- **Exceptions of the kernel** in its address space are transparent. -/
theorem exception_transparent_kernel (e : Exception) (h : EntersKernel F high e.entrySlot m)
    (hcr3 : m.cr3 = L.kpml4) (hconf : Conforms F (H.exception e)) :
    ∃ m', HandlerCalled H F high (-1) (some (e.errorCode F m)) (.exception e) (idtentry e) m m' ∧
      Transparent F high m m' := by
  have hm := kernel_machine h.rsp hcr3
  obtain ⟨b, hcalled, hresumes⟩ := idt_resumes_kernel (L := L) (H := H)
    (a := { View.atSlot F m high e.entrySlot with cr3 := .kpml4 }) e rfl h.shared rfl rfl h.cs hconf
  rw [hm, textFrom_idt] at hcalled
  exact ⟨_, hcalled, transparent_of_resumes hm hresumes⟩

/-- An exception of the kernel under another page table does not reach its IRETQ. -/
theorem exception_stuck_kernel (H : Handlers) (e : Exception)
    (h : EntersKernel F high e.entrySlot m) (hcr3 : m.cr3 ≠ L.kpml4) (m' : Machine) :
    ¬EntryRuns L H (idtentry e, m) ([.iretq], m') := by
  obtain rfl : high = true := h.maps.resolve_right hcr3
  obtain ⟨m₁, hruns, hstuck⟩ := idt_kernel_stuck (L := L) (F := F) (H := H)
    (a := View.atSlot F m true e.entrySlot) e rfl h.shared hcr3 rfl h.cs
  rw [atSlot_machine h.rsp, textFrom_idt] at hruns
  refine not_entryRuns_of_stuck entryStep_iretq hruns hstuck ?_
  rw [textFrom_errorReturn]
  exact nofun

/-- **APIC interrupts** of the user are transparent, and their handler is called. -/
theorem apic_transparent (s : ApicSym) (h : EntersUser F ripSlot m)
    (hconf : Conforms F (H.apic s)) :
    ∃ m', HandlerCalled H F false (~~~s.num) none (.apic s) (apicinterrupt s) m m' ∧
      Transparent F true m m' := by
  have hm := user_machine h
  obtain ⟨b, hcalled, hresumes⟩ := apic_resumes (L := L) (H := H)
    (a := { View.atSlot F m true ripSlot with kernelGsBase := .percpu }) s rfl h.shared rfl rfl h.cs
    hconf
  rw [hm, textFrom_apic] at hcalled
  exact ⟨_, hcalled, transparent_of_resumes hm hresumes⟩

/-- What SYSRETQ goes on with. -/
theorem returns_of_sysret {a b : View} {rip rflags : BitVec 64} {rs : Reg → Val} {zf cf : Bool}
    (hm : a.machine L F = m.syscall rip rflags) (hin : a.InSyscall b) (hcr3 : b.cr3 = a.cr3)
    (hkgs : a.kernelGsBase = .percpu) (hfetch : b.shared = true)
    (hother : ∀ r, r ≠ .rax → rs r = a.regs r) :
    SyscallReturns L rip rflags m (({ b with
      regs := rs, zf, cf, gsBase := b.kernelGsBase, kernelGsBase := .percpu } : View).machine
        L F) := by
  have hregs : ∀ r, r ≠ .rax → (rs r).den L F = (m.syscall rip rflags).regs r := fun r hr => by
    rw [hother r hr, ← hm]
    rfl
  refine ⟨hregs .rcx (by decide), hregs .r11 (by decide), fun r hr => ?_, ?_, ?_, ?_, ?_⟩
  · have hne : r ≠ .rax ∧ r ≠ .rcx ∧ r ≠ .r11 := by simpa using hr
    refine (hregs r hne.1).trans ?_
    exact (Function.update_of_ne hne.2.2 _ _).trans (Function.update_of_ne hne.2.1 _ _)
  · exact (congrArg (Val.den L F) hcr3).trans (congrArg Machine.cr3 hm)
  · exact (congrArg (Val.den L F) hin.kernelGsBase).trans (congrArg Machine.gsBase hm)
  · exact (congrArg (Val.den L F) hkgs.symm).trans (congrArg Machine.kernelGsBase hm)
  · exact View.canFetch_of_maps (by simp [View.maps, hfetch])

/-- **System calls** that there are return to the caller. -/
theorem syscall_returns (rip rflags : BitVec 64) (hkgs : m.kernelGsBase = L.percpu)
    (hsp0 : m.mem (L.cell .sp0) = F.addr true areaWords) (hn : m.regs .rax < nrSyscalls)
    (hconf : Conforms F (H.syscallTable (m.regs .rax))) :
    ∃ m', EntryRuns L H (doSyscall64, m.syscall rip rflags) ([.sysretq], m') ∧
      SyscallReturns L rip rflags m m' ∧ Dispatches H L rip rflags m m' := by
  have hm := syscall_machine (L := L) (F := F) (m := m.syscall rip rflags) hkgs hsp0
  have hrax : (View.atSyscall F (m.syscall rip rflags)).regs .rax = .word (m.regs .rax) := rfl
  obtain ⟨b, henter, hin, hrsp, hregs, hcf, hcr3, hfetch⟩ :=
    doSyscall64_runs (L := L) (F := F) (H := H) hrax rfl rfl rfl
  rw [hm] at henter
  have hmaps : b.maps b.shared = true := by simp [View.maps, hfetch]
  have hgo : View.runs L F 1 (.jae (.toKernel .doSyscall64) ::
        (switchToKernel .rcx .doSyscall64 ++ dispatchText), b) =
      some (switchToKernel .rcx .doSyscall64 ++ dispatchText, b) := by
    simp [View.runs, View.step, hmaps, hcf, hn]
  obtain ⟨m₀, m₁, b', hdispatch, hargs, hrcx, hcall, hback, hin', hrsp', hresult', hcr3',
    hfetch'⟩ := dispatch_runs (L := L) (F := F) (H := H) hin
      ((hregs .rax (by decide)).trans hrax) hrsp hfetch hconf
  obtain ⟨rs, zf, cf, hleave, hrax', hother⟩ :=
    sysret_runs (L := L) (F := F) (H := H) hin' hrsp' hresult' hfetch'
  have hcalled := (henter.trans (entryRuns_of_runs hgo)).trans hdispatch
  have harg : ∀ r, r ≠ .rsp → (b.regs r).den L F = (m.syscall rip rflags).regs r :=
    fun r hr => by
      rw [hregs r hr, ← hm]
      rfl
  refine ⟨_, (hcalled.tail hcall).trans (hback.trans hleave),
    returns_of_sysret hm hin' (hcr3'.trans hcr3) rfl hfetch' hother, m₀, m₁, hcalled, ?_, ?_,
    hcall, hback.trans hleave, congrArg (Val.den L F) hrax'⟩
  · rw [hargs .rax (by decide) (by decide), harg .rax (by decide)]
    rfl
  · simp only [List.map_cons, List.map_nil, hrcx, hargs .rdi (by decide) (by decide),
      hargs .rsi (by decide) (by decide), hargs .rdx (by decide) (by decide),
      hargs .r8 (by decide) (by decide), hargs .r9 (by decide) (by decide),
      harg .rdi (by decide), harg .rsi (by decide), harg .rdx (by decide),
      harg .r10 (by decide), harg .r8 (by decide), harg .r9 (by decide)]
    rfl

/-- A system call that there is not comes to the PUSH with RSP in the identity mapping and CR3 as
it was. -/
theorem syscall_unknown (H : Handlers) (rip rflags : BitVec 64) (hkgs : m.kernelGsBase = L.percpu)
    (hsp0 : m.mem (L.cell .sp0) = F.addr true areaWords) (hn : nrSyscalls ≤ m.regs .rax) :
    ∃ m₁, EntryRuns L H (doSyscall64, m.syscall rip rflags)
        (.push .rsp :: .call .syscallTable :: resultText, m₁) ∧
      m₁.regs .rsp = F.addr false 2 ∧ m₁.regs .rax = m.regs .rax ∧ m₁.cr3 = m.cr3 := by
  have hm := syscall_machine (L := L) (F := F) (m := m.syscall rip rflags) hkgs hsp0
  have hrax : (View.atSyscall F (m.syscall rip rflags)).regs .rax = .word (m.regs .rax) := rfl
  obtain ⟨b, henter, -, hrsp, hregs, hcf, hcr3, hfetch⟩ :=
    doSyscall64_runs (L := L) (F := F) (H := H) hrax rfl rfl rfl
  rw [hm] at henter
  have hmaps : b.maps b.shared = true := by simp [View.maps, hfetch]
  have hgo : View.runs L F 1 (.jae (.toKernel .doSyscall64) ::
        (switchToKernel .rcx .doSyscall64 ++ dispatchText), b) =
      some (textFrom (.toKernel .doSyscall64), b) := by
    simp [View.runs, View.step, hmaps, hcf, BitVec.not_lt.mpr hn]
  obtain ⟨b', hruns, hrsp', hrax', hcr3'⟩ := unknown_runs (L := L) (F := F) (H := H) hrsp hfetch
  refine ⟨_, (henter.trans (entryRuns_of_runs hgo)).trans hruns, congrArg (Val.den L F) hrsp',
    congrArg (Val.den L F) ((hrax'.trans (hregs .rax (by decide))).trans hrax), ?_⟩
  have hsame : (m.syscall rip rflags).cr3 = m.cr3 := rfl
  rw [← hsame, ← hm]
  exact congrArg (Val.den L F) (hcr3'.trans hcr3)

/-- Where the user has no page at the kernel's stack, it faults there. -/
theorem syscall_faults (rip rflags : BitVec 64) (hkgs : m.kernelGsBase = L.percpu)
    (hsp0 : m.mem (L.cell .sp0) = F.addr true areaWords) (hn : nrSyscalls ≤ m.regs .rax)
    (hunmapped : Machine.translate L m.cr3 (F.addr false 1) = none) (H : Handlers) (m' : Machine) :
    ¬EntryRuns L H (doSyscall64, m.syscall rip rflags) ([.sysretq], m') := by
  obtain ⟨m₁, hruns, hrsp, -, hcr3⟩ := syscall_unknown H rip rflags hkgs hsp0 hn
  refine not_entryRuns_of_stuck entryStep_sysretq hruns ?_ nofun
  rcases hpush : entryStep L H (.push .rsp :: .call .syscallTable :: resultText, m₁) with _ | s
  · rfl
  · obtain ⟨m₂, hpushed, -⟩ := entryStep_push hpush
    rw [← hcr3] at hunmapped
    cases (push_unmapped hrsp hunmapped).symm.trans hpushed

/-- **A system call is transparent**: with every table of conforming functions, the SYSRETQ
executes with the state of the caller, and with the result of the function of its number, or with
`-ENOSYS` if there is no such function. -/
def SyscallTransparent (F : StackArea L) (rip rflags : BitVec 64) (m : Machine) : Prop :=
  ∀ H : Handlers, (∀ n, n < nrSyscalls → Conforms F (H.syscallTable n)) →
    ∃ m', EntryRuns L H (doSyscall64, m.syscall rip rflags) ([.sysretq], m') ∧
      SyscallReturns L rip rflags m m' ∧
      if m.regs .rax < nrSyscalls then Dispatches H L rip rflags m m'
      else m'.regs .rax = -enosys

/-- **An exception is transparent**: every conforming handler of it is called with `struct pt_regs`,
in the mapping `pt`, and its error code, and the IRETQ executes with the state at the entry. -/
def ExceptionTransparent (F : StackArea L) (e : Exception) (high pt : Bool) (m : Machine) : Prop :=
  ∀ H : Handlers, Conforms F (H.exception e) →
    ∃ m', EntryRuns L H (idtentry e, m) ([.iretq], m') ∧ Transparent F high m m' ∧
      HandlerCalled H F pt (-1) (some (e.errorCode F m)) (.exception e) (idtentry e) m m'

/-- **An APIC interrupt is transparent**, and its handler is called. -/
def ApicTransparent (F : StackArea L) (s : ApicSym) (m : Machine) : Prop :=
  ∀ H : Handlers, Conforms F (H.apic s) →
    ∃ m', EntryRuns L H (apicinterrupt s, m) ([.iretq], m') ∧ Transparent F true m m' ∧
      HandlerCalled H F false (~~~s.num) none (.apic s) (apicinterrupt s) m m'

theorem syscallTransparent_iff (rip rflags : BitVec 64) (hkgs : m.kernelGsBase = L.percpu)
    (hsp0 : m.mem (L.cell .sp0) = F.addr true areaWords) :
    SyscallTransparent F rip rflags m ↔ m.regs .rax < nrSyscalls := by
  constructor
  · intro htransparent
    by_contra hn
    have hn := BitVec.not_lt.mp hn
    obtain ⟨m', hreturns, -⟩ := htransparent (tableOfSevens L) fun n => conforms_tableOfSevens F
    obtain ⟨m₁, hruns, -, hrax, -⟩ := syscall_unknown (tableOfSevens L) rip rflags hkgs hsp0 hn
    obtain ⟨t, hlost, hstuck, hne⟩ := unknown_lost (L := L) (hrax ▸ hn)
    exact not_entryRuns_of_stuck entryStep_sysretq (hruns.trans hlost) hstuck hne hreturns
  · intro hn H hconf
    obtain ⟨m', hruns, hreturns, hdispatches⟩ :=
      syscall_returns rip rflags hkgs hsp0 hn (hconf _ hn)
    refine ⟨m', hruns, hreturns, ?_⟩
    rw [if_pos hn]
    exact hdispatches

theorem exceptionTransparent_kernel_iff (e : Exception) (h : EntersKernel F high e.entrySlot m) :
    ExceptionTransparent F e high high m ↔ m.cr3 = L.kpml4 := by
  constructor
  · intro htransparent
    by_contra hcr3
    obtain ⟨m', hruns, -⟩ := htransparent (tableOfSevens L) (conforms_returnSeven F)
    exact exception_stuck_kernel (tableOfSevens L) e h hcr3 m' hruns
  · intro hcr3 H hconf
    obtain ⟨m', hcalled, htransparent⟩ := exception_transparent_kernel e h hcr3 hconf
    exact ⟨m', hcalled.runs, htransparent, hcalled⟩

/-- **Transparency**. A system call is transparent exactly when its number is below `NR_syscalls`,
and with another number it never executes the SYSRETQ, unless the user has a page of its own where
the kernel's stack is in the identity mapping. Exceptions and APIC interrupts of the user are
transparent, and exceptions of the kernel exactly when it is in its own address space. -/
theorem entry_transparent_iff (L : Layout) (F : StackArea L) :
    (∀ (m : Machine) (rip rflags : BitVec 64), m.kernelGsBase = L.percpu →
      m.mem (L.cell .sp0) = F.addr true areaWords →
      (SyscallTransparent F rip rflags m ↔ m.regs .rax < nrSyscalls) ∧
      (nrSyscalls ≤ m.regs .rax → Machine.translate L m.cr3 (F.addr false 1) = none →
        ∀ H m', ¬EntryRuns L H (doSyscall64, m.syscall rip rflags) ([.sysretq], m'))) ∧
    (∀ (e : Exception) (m : Machine), EntersUser F e.entrySlot m →
      ExceptionTransparent F e true false m) ∧
    (∀ (e : Exception) (high : Bool) (m : Machine), EntersKernel F high e.entrySlot m →
      (ExceptionTransparent F e high high m ↔ m.cr3 = L.kpml4)) ∧
    ∀ (s : ApicSym) (m : Machine), EntersUser F ripSlot m → ApicTransparent F s m := by
  refine ⟨fun m rip rflags hkgs hsp0 => ⟨syscallTransparent_iff rip rflags hkgs hsp0,
      fun hn hunmapped => syscall_faults rip rflags hkgs hsp0 hn hunmapped⟩,
    fun e m h H hconf => ?_, fun e high m => exceptionTransparent_kernel_iff e,
    fun s m h H hconf => ?_⟩
  · obtain ⟨m', hcalled, htransparent⟩ := exception_transparent_user e h hconf
    exact ⟨m', hcalled.runs, htransparent, hcalled⟩
  · obtain ⟨m', hcalled, htransparent⟩ := apic_transparent s h hconf
    exact ⟨m', hcalled.runs, htransparent, hcalled⟩

end Machines

/-! ## An instance

A layout with made-up addresses for the labels and the per-CPU variables, and a machine in it
that has just entered the kernel. It is there to show that the hypotheses can be met. -/

theorem textFrom_label (l : Label) : ∃ text, textFrom l = .label l :: text := by
  cases l with
  | apic s => cases s <;> exact ⟨_, rfl⟩
  | spin s => cases s <;> exact ⟨_, rfl⟩
  | idt e => cases e <;> exact ⟨_, rfl⟩
  | errorReturn e => cases e <;> exact ⟨_, rfl⟩
  | toKernel s =>
    cases s with
    | interrupt s => cases s <;> exact ⟨_, rfl⟩
    | _ => exact ⟨_, rfl⟩
  | toUser s => cases s <;> exact ⟨_, rfl⟩
  | _ => exact ⟨_, rfl⟩

/-- The labels 16 bytes from each other, and the other instructions behind them. -/
def labelsAt (text : List Instr) : BitVec 64 :=
  match text with
  | .label l :: _ => 0x100000 + BitVec.ofNat 64 (16 * entryLabels.idxOf l)
  | text => 0x180000 + BitVec.ofNat 64 (16 * text.length)

theorem labelsAt_textFrom (l : Label) :
    ∃ i < 64, entryLabels.idxOf l = i ∧
      labelsAt (textFrom l) = 0x100000 + BitVec.ofNat 64 (16 * i) := by
  have hlength : entryLabels.length ≤ 64 := by decide +kernel
  have hi := List.idxOf_lt_length_of_mem (mem_entryLabels l)
  obtain ⟨text, htext⟩ := textFrom_label l
  exact ⟨entryLabels.idxOf l, by omega, rfl, by rw [htext, labelsAt]⟩

theorem labelsAt_inj (l l' : Label) (h : labelsAt (textFrom l) = labelsAt (textFrom l')) :
    l = l' := by
  obtain ⟨i, hi, hl, heq⟩ := labelsAt_textFrom l
  obtain ⟨i', hi', hl', heq'⟩ := labelsAt_textFrom l'
  rw [heq, heq'] at h
  have hindex : i = i' := by bv_omega
  refine (List.idxOf_inj (mem_entryLabels l)).mp ?_
  rw [hl, hl', hindex]

theorem labelsAt_low (l : Label) : (labelsAt (textFrom l)).toNat < 2 ^ 31 := by
  obtain ⟨i, hi, -, heq⟩ := labelsAt_textFrom l
  rw [heq]
  bv_omega

/-- Per-CPU variables one after the other, eight bytes each. -/
def offsetOf : PerCpu → BitVec 64
  | .rspScratch => 0
  | .cr3Scratch => 8
  | .sp0 => 16

theorem offsetOf_shared (v : PerCpu) : entryOffset ≤ entryOffset + 0x200000 + offsetOf v ∧
    entryOffset + 0x200000 + offsetOf v < entryOffset + sz4G := by
  cases v <;> decide

theorem offsetOf_inj (v v' : PerCpu) (h : offsetOf v = offsetOf v') : v = v' := by
  cases v <;> cases v' <;> first | rfl | exact absurd h (by decide)

/-- A layout with its text at 1 MiB and its per-CPU variables at 2 MiB. A user process has one page,
at 4 MiB. -/
def entryLayout : Layout where
  kpml4 := 0x1000
  percpu := entryOffset + 0x200000
  offset := offsetOf
  user _ va := if 0x400000 ≤ va ∧ va < 0x401000 then some (va - 0x400000 + 0x8000) else none
  here := labelsAt
  percpu_shared := offsetOf_shared
  offset_inj := offsetOf_inj
  label_inj := labelsAt_inj
  label_low := labelsAt_low

/-- The top of a stack below 3 MiB. -/
def entryArea : StackArea entryLayout where
  base := 0x2fff48
  fits := by decide
  apart v := by cases v <;> decide +kernel

/-- A machine that enters with the given CR3, RSP and CS. -/
def enteredMachine (cr3 rsp cs : BitVec 64) : Machine where
  regs r := if r = .rsp then rsp else if r = .rax then 3 else 0x1234
  zf := false
  cf := false
  cr3 := cr3
  gsBase := 0x7000
  kernelGsBase := entryLayout.percpu
  mem a :=
    if a = entryLayout.cell .sp0 then entryArea.addr true areaWords
    else if a = slot entryArea.base 19 then cs else 0
  shared := true

/-- A program that makes a system call, takes a page fault and a timer interrupt, and an invalid
opcode of the kernel. -/
theorem entry_transparent_iff_entryLayout :
    (SyscallTransparent entryArea 0x400000 0x202 (enteredMachine 0x5000 0x7fff0000 0x33) ↔
      (enteredMachine 0x5000 0x7fff0000 0x33).regs .rax < nrSyscalls) ∧
    (∀ H m', ¬EntryRuns entryLayout H
      (doSyscall64, ((enteredMachine 0x5000 0x7fff0000 0x33).set .rax 200).syscall 0x400000 0x202)
      ([.sysretq], m')) ∧
    ExceptionTransparent entryArea .pageFault true false
      (enteredMachine 0x5000 (entryArea.addr true 17) 0x33) ∧
    (ExceptionTransparent entryArea .invalidOp false false
        (enteredMachine 0x1000 (entryArea.addr false 18) 0x8) ↔
      (enteredMachine 0x1000 (entryArea.addr false 18) 0x8).cr3 = entryLayout.kpml4) ∧
    ApicTransparent entryArea .apicTimerInterrupt
      (enteredMachine 0x5000 (entryArea.addr true 18) 0x33) := by
  obtain ⟨hsyscall, huser, hkernel, hapic⟩ := entry_transparent_iff entryLayout entryArea
  have hsp0 : (enteredMachine 0x5000 0x7fff0000 0x33).mem (entryLayout.cell .sp0) =
      entryArea.addr true areaWords := by decide +kernel
  refine ⟨(hsyscall _ 0x400000 0x202 rfl hsp0).1,
    (hsyscall ((enteredMachine 0x5000 0x7fff0000 0x33).set .rax 200) 0x400000 0x202 rfl hsp0).2
      (by decide) (by decide +kernel),
    huser .pageFault _ ?_, hkernel .invalidOp false _ ?_, hapic .apicTimerInterrupt _ ?_⟩
  · exact ⟨rfl, by decide +kernel, rfl, rfl⟩
  · exact ⟨rfl, by decide +kernel, .inr rfl, rfl⟩
  · exact ⟨rfl, by decide +kernel, rfl, rfl⟩

/-- A system call with the number 200 does not return `-ENOSYS`: it does not return. Neither does a
page fault of the kernel under the page table of the user. -/
theorem not_transparent_enteredMachine :
    (((enteredMachine 0x5000 0x7fff0000 0x33).set .rax 200).kernelGsBase = entryLayout.percpu ∧
      ((enteredMachine 0x5000 0x7fff0000 0x33).set .rax 200).mem (entryLayout.cell .sp0) =
        entryArea.addr true areaWords ∧
      ¬SyscallTransparent entryArea 0x400000 0x202
        ((enteredMachine 0x5000 0x7fff0000 0x33).set .rax 200)) ∧
    EntersKernel entryArea true (Exception.entrySlot .pageFault)
        (enteredMachine 0x5000 (entryArea.addr true 17) 0x8) ∧
      ¬ExceptionTransparent entryArea .pageFault true true
        (enteredMachine 0x5000 (entryArea.addr true 17) 0x8) := by
  have hsp0 : ((enteredMachine 0x5000 0x7fff0000 0x33).set .rax 200).mem (entryLayout.cell .sp0) =
      entryArea.addr true areaWords := by decide +kernel
  have henters : EntersKernel entryArea true (Exception.entrySlot .pageFault)
      (enteredMachine 0x5000 (entryArea.addr true 17) 0x8) :=
    ⟨rfl, by decide +kernel, .inl rfl, rfl⟩
  refine ⟨⟨rfl, hsp0, fun h => ?_⟩, henters, fun h => ?_⟩
  · exact absurd ((syscallTransparent_iff _ _ rfl hsp0).mp h) (by decide)
  · exact absurd ((exceptionTransparent_kernel_iff _ henters).mp h) (by decide)

end Lvisor
