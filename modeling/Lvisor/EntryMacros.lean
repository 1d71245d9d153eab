import Lvisor.EntryFrame

/-!
# The macros of the entry code (`kernel/calling.h`)

What the macros of the entry code do to a view, and a call between `ALIGN_STACK_PUSH` and
`ALIGN_STACK_POP`.

* `save_runs`, `pop_runs` — the registers go to `struct pt_regs`, and come back;
* `switchToKernel_runs`, `switchToUser_runs` — the page table, and with it the mapping that RSP
  and RIP are in;
* `alignedCall_runs` — what is known is still known after a handler.
-/

namespace Lvisor

/-! ## The macros

Each macro has a run lemma on views. `SWITCH_TO_KERNEL` and `SWITCH_TO_USER` change CR3 while RIP
and RSP are in the shared mapping, the only one that both page tables have, and move both between
the shared mapping and the identity mapping of the kernel. -/

section Macros

variable {L : Layout} {F : StackArea L} {H : Handlers} {a : View} {shared : Bool} {i : ℕ}

/-- The slot of a register in `struct pt_regs`, which begins at slot 2 of the area. -/
def savedSlot : Reg → ℕ
  | .r15 => 2
  | .r14 => 3
  | .r13 => 4
  | .r12 => 5
  | .rbp => 6
  | .rbx => 7
  | .r11 => 8
  | .r10 => 9
  | .r9 => 10
  | .r8 => 11
  | .rax => 12
  | .rcx => 13
  | .rdx => 14
  | .rsi => 15
  | .rdi => 16
  | .rsp => 21

/-- The slot of `pt_regs->orig_ax`, counted from the bottom of the area. -/
abbrev origAxSlot : ℕ := 17

/-- The lowest slot of the frame that the processor makes: RIP, CS, RFLAGS, RSP and SS. -/
abbrev ripSlot : ℕ := 18

theorem frame_slots {P : ℕ → Prop} (h18 : P 18) (h19 : P 19) (h20 : P 20) (h21 : P 21)
    (h22 : P 22) : ∀ i, ripSlot ≤ i → i < areaWords → P i := by
  intro i hge hlt
  have hcases : i = 18 ∨ i = 19 ∨ i = 20 ∨ i = 21 ∨ i = 22 := by
    have hge' : 18 ≤ i := hge
    have hlt' : i < 23 := hlt
    omega
  rcases hcases with rfl | rfl | rfl | rfl | rfl
  · exact h18
  · exact h19
  · exact h20
  · exact h21
  · exact h22

/-- In the kernel address space, both mappings are there. -/
theorem mapped_of_cr3 (shared : Bool) (h : a.cr3 = .kpml4) :
    shared = true ∨ shared = false ∧ a.cr3 = .kpml4 := by
  cases shared with
  | true => exact .inl rfl
  | false => exact .inr ⟨rfl, h⟩

/-- Registers or slots one of which is known. -/
theorem exists_update {α : Type} [DecidableEq α] {f : α → Val} {x : α} {v : Val} (h : f x = v) :
    ∃ f', f = Function.update f' x v :=
  ⟨f, by rw [← h, Function.update_eq_self]⟩

/-- **Save**: each register is in its slot. -/
theorem save_runs {offset : ℕ} (text : List Instr)
    (hoffset : offset = 0 ∧ i = 2 ∨ offset = 8 ∧ i = 1)
    (hrsp : a.regs .rsp = .stack shared i)
    (hmaps : shared = true ∨ shared = false ∧ a.cr3 = .kpml4) (hfetch : a.shared = true) :
    ∃ f, EntryRuns L H (saveCRegs offset ++ (saveExtraRegs offset ++ text), a.machine L F)
        (text, ({ a with frame := f } : View).machine L F) ∧
      f 1 = a.frame 1 ∧ (∀ r, r ≠ .rsp → f (savedSlot r) = a.regs r) ∧
      f origAxSlot = a.frame origAxSlot ∧
      ∀ j, ripSlot ≤ j → j < areaWords → f j = a.frame j := by
  obtain ⟨rs, zf, cf, cr3, gs, kgs, f, c, rest, sh⟩ := a
  obtain ⟨rs, rfl⟩ := exists_update hrsp
  obtain rfl : sh = true := hfetch
  have hruns : ∃ g, View.runs L F 15 (saveCRegs offset ++ (saveExtraRegs offset ++ text),
        ⟨Function.update rs .rsp (.stack shared i), zf, cf, cr3, gs, kgs, f, c, rest, true⟩) =
        some (text, ⟨Function.update rs .rsp (.stack shared i), zf, cf, cr3, gs, kgs, g, c, rest,
          true⟩) ∧ g 1 = f 1 ∧ (∀ r, r ≠ .rsp → g (savedSlot r) = rs r) ∧
      g origAxSlot = f origAxSlot ∧ ∀ j, ripSlot ≤ j → j < areaWords → g j = f j := by
    rcases hoffset with ⟨rfl, rfl⟩ | ⟨rfl, rfl⟩ <;> rcases hmaps with rfl | ⟨rfl, rfl⟩ <;>
      refine ⟨_, rfl, rfl, fun r hr => ?_, rfl, frame_slots rfl rfl rfl rfl rfl⟩ <;>
      cases r <;> first | rfl | exact absurd rfl hr
  obtain ⟨g, hruns, hlow, hsaved, horig, hupper⟩ := hruns
  refine ⟨g, entryRuns_of_runs hruns, hlow, fun r hr => ?_, horig, hupper⟩
  exact (hsaved r hr).trans (Function.update_of_ne hr _ rs).symm

/-- **To the kernel**: CR3 is saved, and RSP and RIP are in the identity mapping. -/
theorem switchToKernel_runs {s : KernelSite} {scratch : Reg} (text text' : List Instr)
    (hscratch : scratch = .rcx ∨ scratch = .rdi)
    (htext : textFrom (.toKernel s) =
      .label (.toKernel s) :: .movImm entryOffset scratch :: .sub scratch .rsp :: text)
    (hrsp : a.regs .rsp = .stack true i) (hgs : a.gsBase = .percpu) (hfetch : a.shared = true) :
    ∃ rs zf cf, EntryRuns L H (switchToKernel scratch s ++ text', a.machine L F)
        (text, ({ a with
          regs := rs, zf, cf, cr3 := .kpml4, shared := false
          cells := Function.update a.cells .cr3Scratch a.cr3 } : View).machine L F) ∧
      rs .rsp = .stack false i ∧ ∀ r, r ≠ .rsp → r ≠ scratch → rs r = a.regs r := by
  obtain ⟨rs, zf, cf, cr3, gs, kgs, f, c, rest, sh⟩ := a
  obtain ⟨rs, rfl⟩ := exists_update hrsp
  obtain rfl : sh = true := hfetch
  obtain rfl : gs = .percpu := hgs
  have hjump : ∃ rs', View.runs L F 6 (switchToKernel scratch s ++ text',
        ⟨Function.update rs .rsp (.stack true i), zf, cf, cr3, .percpu, kgs, f, c, rest, true⟩) =
        some (textFrom (.toKernel s), ⟨rs', zf, cf, .kpml4, .percpu, kgs, f,
          Function.update c .cr3Scratch cr3, rest, false⟩) ∧
      rs' .rsp = .stack true i ∧ ∀ r, r ≠ .rsp → r ≠ scratch → rs' r = rs r := by
    rcases hscratch with rfl | rfl <;> refine ⟨_, rfl, rfl, fun r hr hs => ?_⟩ <;>
      cases r <;> first | rfl | exact absurd rfl hr | exact absurd rfl hs
  obtain ⟨rs', hjump, hrsp', hother⟩ := hjump
  obtain ⟨rs', rfl⟩ := exists_update hrsp'
  rw [htext] at hjump
  have hland : ∃ rs'' zf' cf', View.runs L F 3
        (.label (.toKernel s) :: .movImm entryOffset scratch :: .sub scratch .rsp :: text,
          ⟨Function.update rs' .rsp (.stack true i), zf, cf, .kpml4, .percpu, kgs, f,
            Function.update c .cr3Scratch cr3, rest, false⟩) =
        some (text, ⟨rs'', zf', cf', .kpml4, .percpu, kgs, f,
          Function.update c .cr3Scratch cr3, rest, false⟩) ∧
      rs'' .rsp = .stack false i ∧ ∀ r, r ≠ .rsp → r ≠ scratch → rs'' r = rs' r := by
    rcases hscratch with rfl | rfl <;> refine ⟨_, _, _, rfl, rfl, fun r hr hs => ?_⟩ <;>
      cases r <;> first | rfl | exact absurd rfl hr | exact absurd rfl hs
  obtain ⟨rs'', zf', cf', hland, hrsp'', hother'⟩ := hland
  refine ⟨rs'', zf', cf', (entryRuns_of_runs hjump).trans (entryRuns_of_runs hland), hrsp'',
    fun r hr hs => ?_⟩
  have hjumped := hother r hr hs
  rw [Function.update_of_ne hr] at hjumped
  rw [hother' r hr hs, hjumped]
  exact (Function.update_of_ne hr _ rs).symm

/-- **To the user**: RSP and RIP are in the shared mapping, and CR3 is the one that was saved. -/
theorem switchToUser_runs {s : UserSite} {scratch : Reg} (text text' : List Instr)
    (hscratch : scratch = .rcx ∨ scratch = .rdi)
    (htext : textFrom (.toUser s) =
      .label (.toUser s) :: .load (.perCpu .cr3Scratch) scratch :: .movToCr3 scratch :: text)
    (hrsp : a.regs .rsp = .stack false i) (hgs : a.gsBase = .percpu) (hcr3 : a.cr3 = .kpml4)
    (hfetch : a.shared = false) :
    ∃ rs zf cf, EntryRuns L H (switchToUser scratch s ++ text', a.machine L F)
        (text, ({ a with
          regs := rs, zf, cf, cr3 := a.cells .cr3Scratch, shared := true } : View).machine L F) ∧
      rs .rsp = .stack true i ∧ ∀ r, r ≠ .rsp → r ≠ scratch → rs r = a.regs r := by
  obtain ⟨rs, zf, cf, cr3, gs, kgs, f, c, rest, sh⟩ := a
  obtain ⟨rs, rfl⟩ := exists_update hrsp
  obtain rfl : sh = false := hfetch
  obtain rfl : gs = .percpu := hgs
  obtain rfl : cr3 = .kpml4 := hcr3
  have hjump : ∃ rs' zf' cf', View.runs L F 4 (switchToUser scratch s ++ text',
        ⟨Function.update rs .rsp (.stack false i), zf, cf, .kpml4, .percpu, kgs, f, c, rest,
          false⟩) =
        some (textFrom (.toUser s), ⟨rs', zf', cf', .kpml4, .percpu, kgs, f, c, rest, true⟩) ∧
      rs' .rsp = .stack true i ∧ ∀ r, r ≠ .rsp → r ≠ scratch → rs' r = rs r := by
    rcases hscratch with rfl | rfl <;> refine ⟨_, _, _, rfl, rfl, fun r hr hs => ?_⟩ <;>
      cases r <;> first | rfl | exact absurd rfl hr | exact absurd rfl hs
  obtain ⟨rs', zf', cf', hjump, hrsp', hother⟩ := hjump
  rw [htext] at hjump
  have hland : ∃ rs'', View.runs L F 3
        (.label (.toUser s) :: .load (.perCpu .cr3Scratch) scratch :: .movToCr3 scratch :: text,
          ⟨rs', zf', cf', .kpml4, .percpu, kgs, f, c, rest, true⟩) =
        some (text, ⟨rs'', zf', cf', c .cr3Scratch, .percpu, kgs, f, c, rest, true⟩) ∧
      ∀ r, r ≠ scratch → rs'' r = rs' r := by
    rcases hscratch with rfl | rfl <;> refine ⟨_, rfl, fun r hs => ?_⟩ <;>
      cases r <;> first | rfl | exact absurd rfl hs
  obtain ⟨rs'', hland, hother'⟩ := hland
  have hne : (.rsp : Reg) ≠ scratch := by
    rcases hscratch with rfl | rfl
    · decide
    · decide
  refine ⟨rs'', zf', cf', (entryRuns_of_runs hjump).trans (entryRuns_of_runs hland),
    (hother' _ hne).trans hrsp', fun r hr hs => ?_⟩
  rw [hother' r hs, hother r hr hs]
  exact (Function.update_of_ne hr _ rs).symm

/-- **Restore**: each register is what is in its slot. -/
theorem pop_runs (text : List Instr) (hrsp : a.regs .rsp = .stack shared 2)
    (hmaps : shared = true ∨ shared = false ∧ a.cr3 = .kpml4)
    (hfetch : a.shared = true ∨ a.shared = false ∧ a.cr3 = .kpml4) :
    ∃ rs, EntryRuns L H (popExtraRegs ++ (popCRegs ++ text), a.machine L F)
        (text, ({ a with regs := rs } : View).machine L F) ∧
      rs .rsp = .stack shared origAxSlot ∧ ∀ r, r ≠ .rsp → rs r = a.frame (savedSlot r) := by
  obtain ⟨rs, zf, cf, cr3, gs, kgs, f, c, rest, sh⟩ := a
  obtain ⟨rs, rfl⟩ := exists_update hrsp
  have hruns : ∃ rs', View.runs L F 15 (popExtraRegs ++ (popCRegs ++ text),
        ⟨Function.update rs .rsp (.stack shared 2), zf, cf, cr3, gs, kgs, f, c, rest, sh⟩) =
        some (text, ⟨rs', zf, cf, cr3, gs, kgs, f, c, rest, sh⟩) ∧
      rs' .rsp = .stack shared origAxSlot ∧ ∀ r, r ≠ .rsp → rs' r = f (savedSlot r) := by
    rcases hmaps with rfl | ⟨rfl, hcr3⟩ <;> rcases hfetch with hsh | ⟨hsh, hcr3'⟩ <;>
      dsimp only at * <;> subst_vars <;>
      refine ⟨_, rfl, rfl, fun r hr => ?_⟩ <;>
      cases r <;> first | rfl | exact absurd rfl hr
  obtain ⟨rs', hruns, hrsp', hsaved⟩ := hruns
  exact ⟨rs', entryRuns_of_runs hruns, hrsp', hsaved⟩

end Macros

/-! ## The text -/

theorem textFrom_idt (e : Exception) : textFrom (.idt e) = idtentry e := by
  cases e <;> rfl

theorem textFrom_apic (s : ApicSym) : textFrom (.apic s) = apicinterrupt s := by
  cases s <;> rfl

theorem textFrom_errorReturn (e : Exception) : textFrom (.errorReturn e) = List.flatten
    [[.label (.errorReturn e), .mov .rsp .rdi],
    if e.hasErrorCode then
      [.load (.stack ptOrigRax) .rsi, .storeImm (-1) (.stack ptOrigRax)]
    else [.xorl .rsi],
    alignStackPush, [.call (.exception e)], alignStackPop, [.jmp .errorExit]] := by
  cases e <;> rfl

theorem textFrom_toKernel_interrupt (s : ApicSym) : textFrom (.toKernel (.interrupt s)) =
    .label (.toKernel (.interrupt s)) :: .movImm entryOffset .rdi :: .sub .rdi .rsp ::
      .mov .rsp .rdi :: .push .rsp :: .call (.apic s) :: .pop .rsp :: [.jmp .retintUser] := by
  cases s <;> rfl

section Paths

variable {L : Layout} {F : StackArea L} {H : Handlers} {a b : View} {shared : Bool}

/-! ## Calls of handlers

`ALIGN_STACK_PUSH` pushes the stack pointer and `ALIGN_STACK_POP` takes it back. `View.Kept` says
what a view still knows behind the call between them. -/

/-- What a handler leaves known, and the code around its call. -/
structure View.Kept (a b : View) : Prop where
  regs : ∀ r ∈ calleeSaved, b.regs r = a.regs r
  rsp : b.regs .rsp = a.regs .rsp
  frame : ∀ i, 2 ≤ i → i ≠ origAxSlot → i < areaWords → b.frame i = a.frame i
  cells : ∀ c, c ≠ .sp0 → b.cells c = a.cells c
  cr3 : b.cr3 = a.cr3
  gsBase : b.gsBase = a.gsBase
  kernelGsBase : b.kernelGsBase = a.kernelGsBase
  shared : b.shared = a.shared

theorem View.Kept.refl (a : View) : a.Kept a :=
  ⟨fun _ _ => rfl, rfl, fun _ _ _ _ => rfl, fun _ _ => rfl, rfl, rfl, rfl, rfl⟩

theorem View.Kept.trans {a b c : View} (h : a.Kept b) (h' : b.Kept c) : a.Kept c where
  regs r hr := (h'.regs r hr).trans (h.regs r hr)
  rsp := h'.rsp.trans h.rsp
  frame i hge hne hlt := (h'.frame i hge hne hlt).trans (h.frame i hge hne hlt)
  cells c hc := (h'.cells c hc).trans (h.cells c hc)
  cr3 := h'.cr3.trans h.cr3
  gsBase := h'.gsBase.trans h.gsBase
  kernelGsBase := h'.kernelGsBase.trans h.kernelGsBase
  shared := h'.shared.trans h.shared

variable (L F) in
/-- The machine `m` is at the call of a function with what the view has in its registers and in
`struct pt_regs`. -/
structure View.AtCall (a : View) (m : Machine) : Prop where
  regs : ∀ r, r ≠ .rsp → m.regs r = (a.regs r).den L F
  frame : ∀ i, 2 ≤ i → i < areaWords → m.mem (slot F.base i) = (a.frame i).den L F
  cr3 : m.cr3 = L.kpml4
  shared : m.shared = false

/-- **Handler**: a call between `ALIGN_STACK_PUSH` and `ALIGN_STACK_POP`. -/
theorem alignedCall_runs {f : Callee} (text : List Instr) (hrsp : a.regs .rsp = .stack shared 2)
    (hcr3 : a.cr3 = .kpml4) (hfetch : a.shared = false)
    (hconf : ∀ m, (∀ r, r ≠ .rsp → m.regs r = (a.regs r).den L F) → Conforms F (H.callee m f)) :
    ∃ m₀ m₁ b, EntryRuns L H (.push .rsp :: .call f :: .pop .rsp :: text, a.machine L F)
        (.call f :: .pop .rsp :: text, m₀) ∧
      a.AtCall L F m₀ ∧
      entryStep L H (.call f :: .pop .rsp :: text, m₀) = some (.pop .rsp :: text, m₁) ∧
      EntryRuns L H (.pop .rsp :: text, m₁) (text, b.machine L F) ∧
      a.Kept b ∧ b.regs .rax = .word (m₁.regs .rax) := by
  obtain ⟨rs, zf, cf, cr3, gs, kgs, fr, c, rest, sh⟩ := a
  obtain ⟨rs, rfl⟩ := exists_update hrsp
  obtain rfl : sh = false := hfetch
  obtain rfl : cr3 = .kpml4 := hcr3
  obtain ⟨a₀, hpush, rfl⟩ : ∃ a₀ : View, View.runs L F 1
        (.push .rsp :: .call f :: .pop .rsp :: text,
        ⟨Function.update rs .rsp (.stack shared 2), zf, cf, .kpml4, gs, kgs, fr, c, rest, false⟩) =
        some (.call f :: .pop .rsp :: text, a₀) ∧
      a₀ = ⟨Function.update rs .rsp (.stack shared 1), zf, cf, .kpml4, gs, kgs,
        Function.update fr 1 (.stack shared 2), c, rest, false⟩ := by
    cases shared <;> refine ⟨_, rfl, ?_⟩ <;> simp [View.set]
  have hregs : ∀ r, r ≠ .rsp → Val.den L F (Function.update rs .rsp (.stack shared 1) r) =
      Val.den L F (Function.update rs .rsp (.stack shared 2) r) := by
    intro r hr
    rw [Function.update_of_ne hr, Function.update_of_ne hr]
  have hrsp₀ : (⟨Function.update rs .rsp (.stack shared 1), zf, cf, .kpml4, gs, kgs,
      Function.update fr 1 (.stack shared 2), c, rest, false⟩ : View).regs .rsp =
      .stack shared 1 := rfl
  obtain ⟨m, -, hstep, hback⟩ := call_runs (f := f) (H := H) (.pop .rsp :: text) hrsp₀ rfl rfl
    (hconf _ hregs)
  obtain ⟨b, hpop, hkept, hrax⟩ : ∃ b, View.runs L F 1 (.pop .rsp :: text, View.returned L F
        ⟨Function.update rs .rsp (.stack shared 1), zf, cf, .kpml4, gs, kgs,
          Function.update fr 1 (.stack shared 2), c, rest, false⟩ m) = some (text, b) ∧
      View.Kept ⟨Function.update rs .rsp (.stack shared 2), zf, cf, .kpml4, gs, kgs, fr, c, rest,
        false⟩ b ∧ b.regs .rax = .word (m.regs .rax) := by
    have hpoprsp : ∀ i, 2 ≤ i → (if i = 0 then Val.word (m.mem (slot F.base 0)) else
        Function.update fr 1 (.stack shared 2) i) = fr i := by
      intro i hi
      rw [if_neg (by omega), Function.update_of_ne (by omega)]
    cases shared <;> refine ⟨_, rfl, ⟨fun r hr => ?_, rfl, fun i hi _ _ => hpoprsp i hi,
      fun c hc => if_neg hc, rfl, rfl, rfl, rfl⟩, rfl⟩ <;>
      cases r <;> first | rfl | exact absurd hr (by decide)
  have hrun := entryRuns_of_runs (H := H) hpop
  rw [hback] at hrun
  refine ⟨_, m, b, entryRuns_of_runs hpush, ⟨hregs, fun i hge hlt => ?_, rfl, rfl⟩, hstep, hrun,
    hkept, hrax⟩
  refine (machine_slot hlt).trans (congrArg (Val.den L F) ?_)
  exact Function.update_of_ne (by omega) _ _

end Paths

end Lvisor
