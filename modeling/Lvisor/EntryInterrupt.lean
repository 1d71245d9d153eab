import Lvisor.EntryMacros

/-!
# Interrupts and exceptions are transparent (`kernel/entry.S`)

The way of an exception through `idtentry`, `error_entry`, its handler and `error_exit`, and that
of an APIC interrupt through `interrupt` and `retint_user`. Between entry and exit the interrupted
program is in the frame: `View.SavedUser` and `View.SavedKernel` say so, and a handler keeps both.

* `idt_user`, `idt_kernel` — an exception saves the program;
* `HandlerArgs` — what its handler is called with;
* `retintUser_resumes`, `retintKernel_resumes` — and the exit restores it;
* `idt_resumes_user`, `idt_resumes_kernel`, `apic_resumes` — the whole ways.
-/

namespace Lvisor

section Interrupts

variable {L : Layout} {F : StackArea L} {H : Handlers} {a b : View} {shared : Bool}

/-! ## Interrupts and exceptions -/

/-- The interrupted program, which the view `a` has, is saved in the view `b`. -/
structure View.Saved (a b : View) : Prop where
  regs : ∀ r, r ≠ .rsp → b.frame (savedSlot r) = a.regs r
  frame : ∀ i, ripSlot ≤ i → i < areaWords → b.frame i = a.frame i
  cr3 : b.cr3 = .kpml4
  shared : b.shared = false

/-- It is saved, and it is a program of the user. -/
structure View.SavedUser (a b : View) : Prop extends View.Saved a b where
  rsp : b.regs .rsp = .stack false 2
  scratch : b.cells .cr3Scratch = a.cr3
  gsBase : b.gsBase = .percpu
  kernelGsBase : b.kernelGsBase = a.gsBase

/-- The interrupted program is saved, and it is the kernel. -/
structure View.SavedKernel (high : Bool) (a b : View) : Prop extends View.Saved a b where
  rsp : b.regs .rsp = .stack high 2
  gsBase : b.gsBase = a.gsBase
  kernelGsBase : b.kernelGsBase = a.kernelGsBase

/-- The interrupted program goes on with the next IRETQ. -/
structure View.Resumes (high : Bool) (a b : View) : Prop where
  regs : ∀ r, r ≠ .rsp → b.regs r = a.regs r
  rsp : b.regs .rsp = .stack high ripSlot
  frame : ∀ i, ripSlot ≤ i → i < areaWords → b.frame i = a.frame i
  cr3 : b.cr3 = a.cr3
  gsBase : b.gsBase = a.gsBase
  kernelGsBase : b.kernelGsBase = a.kernelGsBase
  maps : b.maps b.shared = true

theorem View.Saved.kept {a b b' : View} (h : a.Saved b) (hk : b.Kept b') : a.Saved b' where
  regs r hr := by
    have hlow : 2 ≤ savedSlot r := by cases r <;> decide
    have hother : savedSlot r ≠ origAxSlot := by cases r <;> decide
    have hhigh : savedSlot r < areaWords := by cases r <;> decide
    rw [hk.frame _ hlow hother hhigh, h.regs r hr]
  frame i hge hlt := by
    have hge' : 18 ≤ i := hge
    have hother : i ≠ 17 := by omega
    rw [hk.frame i (by omega) hother hlt, h.frame i hge hlt]
  cr3 := by rw [hk.cr3, h.cr3]
  shared := by rw [hk.shared, h.shared]

theorem View.SavedUser.kept {a b b' : View} (h : a.SavedUser b) (hk : b.Kept b') :
    a.SavedUser b' where
  toSaved := h.toSaved.kept hk
  rsp := by rw [hk.rsp, h.rsp]
  scratch := by rw [hk.cells _ (by decide), h.scratch]
  gsBase := by rw [hk.gsBase, h.gsBase]
  kernelGsBase := by rw [hk.kernelGsBase, h.kernelGsBase]

theorem View.SavedKernel.kept {a b b' : View} (h : a.SavedKernel shared b) (hk : b.Kept b') :
    a.SavedKernel shared b' where
  toSaved := h.toSaved.kept hk
  rsp := by rw [hk.rsp, h.rsp]
  gsBase := by rw [hk.gsBase, h.gsBase]
  kernelGsBase := by rw [hk.kernelGsBase, h.kernelGsBase]

/-- What a handler is called with for the interrupted program `m`: RDI has the address of
`struct pt_regs`, in which are the registers of the program, `orig_ax` and the frame of the
processor, and RSI has the error code, where the handler takes one. -/
structure HandlerArgs (F : StackArea L) (high : Bool) (origAx : BitVec 64)
    (err : Option (BitVec 64)) (m m₀ : Machine) : Prop where
  rdi : m₀.regs .rdi = F.addr high 2
  rsi : ∀ w, err = some w → m₀.regs .rsi = w
  regs : ∀ r, r ≠ .rsp → m₀.mem (slot F.base (savedSlot r)) = m.regs r
  origAx : m₀.mem (slot F.base origAxSlot) = origAx
  frame : ∀ i, ripSlot ≤ i → i < areaWords → m₀.mem (slot F.base i) = m.mem (slot F.base i)
  cr3 : m₀.cr3 = L.kpml4
  shared : m₀.shared = false

theorem HandlerArgs.of_saved {a b b₀ : View} {m₀ : Machine} {origAx : BitVec 64}
    {err : Option (BitVec 64)} (h : a.Saved b) (hkept : b.Kept b₀) (hcall : b₀.AtCall L F m₀)
    (hrdi : b₀.regs .rdi = .stack shared 2) (hrsi : ∀ w, err = some w → b₀.regs .rsi = .word w)
    (horig : b₀.frame origAxSlot = .word origAx) :
    HandlerArgs F shared origAx err (a.machine L F) m₀ where
  rdi := (hcall.regs .rdi (by decide)).trans (congrArg (Val.den L F) hrdi)
  rsi w hw := (hcall.regs .rsi (by decide)).trans (congrArg (Val.den L F) (hrsi w hw))
  regs r hr := by
    have hlow : 2 ≤ savedSlot r := by cases r <;> decide
    have hhigh : savedSlot r < areaWords := by cases r <;> decide
    rw [hcall.frame _ hlow hhigh, (h.kept hkept).regs r hr]
    rfl
  origAx := (hcall.frame _ (by decide) (by decide)).trans (congrArg (Val.den L F) horig)
  frame i hge hlt := by
    have hge' : 18 ≤ i := hge
    rw [hcall.frame i (by omega) hlt, (h.kept hkept).frame i hge hlt, machine_slot hlt]
  cr3 := hcall.cr3
  shared := hcall.shared

/-- On the way from `s` to IRETQ with `m'`, the function `f` is called for the interrupted program
`m`, and the text goes on behind the call. -/
def HandlerCalled (H : Handlers) (F : StackArea L) (high : Bool) (origAx : BitVec 64)
    (err : Option (BitVec 64)) (f : Callee) (start : List Instr) (m m' : Machine) : Prop :=
  ∃ text m₀ m₁, EntryRuns L H (start, m) (.call f :: text, m₀) ∧
    HandlerArgs F high origAx err m m₀ ∧
    entryStep L H (.call f :: text, m₀) = some (text, m₁) ∧
    EntryRuns L H (text, m₁) ([.iretq], m')

theorem HandlerCalled.runs {origAx : BitVec 64} {err : Option (BitVec 64)} {f : Callee}
    {start : List Instr} {high : Bool} {m m' : Machine}
    (h : HandlerCalled H F high origAx err f start m m') :
    EntryRuns L H (start, m) ([.iretq], m') := by
  obtain ⟨text, m₀, m₁, henter, -, hcall, hleave⟩ := h
  exact (henter.tail hcall).trans hleave

/-- The end of both returns: the registers are restored, and RSP is at the processor's frame. -/
theorem retintKernel_runs {a b : View} (hrsp : b.regs .rsp = .stack shared 2)
    (hmaps : shared = true ∨ shared = false ∧ b.cr3 = .kpml4)
    (hfetch : b.shared = true ∨ b.shared = false ∧ b.cr3 = .kpml4)
    (hregs : ∀ r, r ≠ .rsp → b.frame (savedSlot r) = a.regs r) :
    ∃ rs zf cf, EntryRuns L H (textFrom .retintKernel, b.machine L F)
        ([.iretq], ({ b with regs := rs, zf, cf } : View).machine L F) ∧
      rs .rsp = .stack shared ripSlot ∧ ∀ r, r ≠ .rsp → rs r = a.regs r := by
  obtain ⟨rs, zf, cf, cr3, gs, kgs, f, c, rest, sh⟩ := b
  have hlabel : View.runs L F 1
        (textFrom .retintKernel, ⟨rs, zf, cf, cr3, gs, kgs, f, c, rest, sh⟩) =
      some (popExtraRegs ++ (popCRegs ++ [.addImm 8 .rsp, .iretq]),
        ⟨rs, zf, cf, cr3, gs, kgs, f, c, rest, sh⟩) := by
    rcases hfetch with h | ⟨h, h'⟩ <;> dsimp only at * <;> subst_vars <;> rfl
  obtain ⟨rs', hpops, hrsp', hsaved⟩ := pop_runs (L := L) (F := F) (H := H)
    [.addImm 8 .rsp, .iretq] hrsp hmaps hfetch
  obtain ⟨rs', rfl⟩ := exists_update hrsp'
  obtain ⟨rs'', zf', cf', hskip, hrsp'', hother⟩ : ∃ rs'' zf' cf', View.runs L F 1
        ([.addImm 8 .rsp, .iretq], ⟨Function.update rs' .rsp (.stack shared origAxSlot), zf, cf,
          cr3, gs, kgs, f, c, rest, sh⟩) =
        some ([.iretq], ⟨rs'', zf', cf', cr3, gs, kgs, f, c, rest, sh⟩) ∧
      rs'' .rsp = .stack shared ripSlot ∧ ∀ r, r ≠ .rsp → rs'' r = rs' r := by
    rcases hmaps with h | ⟨h, -⟩ <;> rcases hfetch with h' | ⟨h', h''⟩ <;> dsimp only at * <;>
      subst_vars <;> refine ⟨_, _, _, rfl, rfl, fun r hr => ?_⟩ <;>
      cases r <;> first | rfl | exact absurd rfl hr
  refine ⟨rs'', zf', cf', ((entryRuns_of_runs hlabel).trans hpops).trans (entryRuns_of_runs hskip),
    hrsp'', fun r hr => ?_⟩
  have hpopped := hsaved r hr
  rw [Function.update_of_ne hr] at hpopped
  rw [hother r hr, hpopped]
  exact hregs r hr

/-- **Return to the kernel**: without a switch, to where it was interrupted. -/
theorem retintKernel_resumes (h : a.SavedKernel shared b) (hcr3 : a.cr3 = .kpml4) :
    ∃ b', EntryRuns L H (textFrom .retintKernel, b.machine L F) ([.iretq], b'.machine L F) ∧
      a.Resumes shared b' := by
  obtain ⟨rs, zf, cf, hruns, hrsp, hother⟩ := retintKernel_runs (L := L) (F := F) (H := H) h.rsp
    (mapped_of_cr3 shared h.cr3) (.inr ⟨h.shared, h.cr3⟩) h.regs
  exact ⟨_, hruns, hother, hrsp, h.frame, h.cr3.trans hcr3.symm, h.gsBase, h.kernelGsBase, by
    simp [View.maps, h.cr3]⟩

/-- **Return to the user**: through the switch, to where it was interrupted. -/
theorem retintUser_resumes (h : a.SavedUser b) (hkgs : a.kernelGsBase = .percpu) :
    ∃ b', EntryRuns L H (textFrom .retintUser, b.machine L F) ([.iretq], b'.machine L F) ∧
      a.Resumes true b' := by
  have hlabel : View.runs L F 1 (textFrom .retintUser, b) =
      some (switchToUser .rdi .retintUser ++ .swapgs :: textFrom .retintKernel, b) := by
    obtain ⟨rs, zf, cf, cr3, gs, kgs, f, c, rest, sh⟩ := b
    obtain rfl : sh = false := h.shared
    obtain rfl : cr3 = .kpml4 := h.cr3
    rfl
  obtain ⟨rs, zf, cf, hswitch, hrsp, -⟩ := switchToUser_runs (L := L) (F := F) (H := H)
    (s := .retintUser) (.swapgs :: textFrom .retintKernel) (.swapgs :: textFrom .retintKernel)
    (.inr rfl) rfl h.rsp h.gsBase h.cr3 h.shared
  have hgs : View.runs L F 1 (.swapgs :: textFrom .retintKernel,
        { b with regs := rs, zf, cf, cr3 := b.cells .cr3Scratch, shared := true }) =
      some (textFrom .retintKernel, { b with
        regs := rs, zf, cf, cr3 := b.cells .cr3Scratch, shared := true
        gsBase := b.kernelGsBase, kernelGsBase := b.gsBase }) := rfl
  obtain ⟨rs', zf', cf', hrestore, hrsp', hother⟩ := retintKernel_runs (L := L) (F := F) (H := H)
    (b := { b with
      regs := rs, zf, cf, cr3 := b.cells .cr3Scratch, shared := true
      gsBase := b.kernelGsBase, kernelGsBase := b.gsBase }) hrsp (.inl rfl) (.inl rfl) h.regs
  refine ⟨_, ((entryRuns_of_runs hlabel).trans hswitch).trans
    ((entryRuns_of_runs hgs).trans hrestore), hother, hrsp', h.frame, h.scratch, h.kernelGsBase,
    h.gsBase.trans hkgs.symm, rfl⟩

/-- The slot that RSP is at when an exception is entered. -/
def Exception.entrySlot (e : Exception) : ℕ := if e.hasErrorCode then 17 else 18

/-- What `idtentry` leaves in `orig_ax` until the handler is called: the error code of the
processor, or the -1 that it pushes for want of one. -/
def Exception.savedCode (e : Exception) (f : ℕ → Val) : Val :=
  if e.hasErrorCode then f origAxSlot else .word (-1)

/-- What the handler of an exception gets in RSI. -/
def Exception.errorCode (F : StackArea L) (e : Exception) (m : Machine) : BitVec 64 :=
  if e.hasErrorCode then m.mem (slot F.base origAxSlot) else 0

/-- An exception, from its entry point up to `error_entry`. -/
theorem idtentry_runs (e : Exception) (hrsp : a.regs .rsp = .stack shared e.entrySlot)
    (hmaps : shared = true ∨ shared = false ∧ a.cr3 = .kpml4) (hfetch : a.shared = true) :
    ∃ rs zf cf f, EntryRuns L H (textFrom (.idt e), a.machine L F)
        (textFrom .errorEntry,
          ({ a with regs := rs, zf, cf, frame := f } : View).machine L F) ∧
      rs .rsp = .stack shared 1 ∧ (∀ r, r ≠ .rsp → rs r = a.regs r) ∧
      f 1 = .label false (.errorReturn e) ∧ f origAxSlot = e.savedCode a.frame ∧
      ∀ i, ripSlot ≤ i → i < areaWords → f i = a.frame i := by
  obtain ⟨rs, zf, cf, cr3, gs, kgs, f, c, rest, sh⟩ := a
  obtain ⟨rs, rfl⟩ := exists_update hrsp
  obtain rfl : sh = true := hfetch
  rw [textFrom_idt, idtentry]
  have hruns : ∃ n rs' zf' cf' f', View.runs L F n (List.flatten
          [[.label (.idt e)], if e.hasErrorCode then [] else [.pushImm (-1)],
          allocPtGpregsOnStack,
          [.pushLabel (.errorReturn e), .jmp .errorEntry, .label (.errorReturn e), .mov .rsp .rdi],
          if e.hasErrorCode then
            [.load (.stack ptOrigRax) .rsi, .storeImm (-1) (.stack ptOrigRax)]
          else [.xorl .rsi],
          alignStackPush, [.call (.exception e)], alignStackPop, [.jmp .errorExit]],
        ⟨Function.update rs .rsp (.stack shared e.entrySlot), zf, cf, cr3, gs, kgs, f, c, rest,
          true⟩) =
        some (textFrom .errorEntry, ⟨rs', zf', cf', cr3, gs, kgs, f', c, rest, true⟩) ∧
      rs' .rsp = .stack shared 1 ∧ (∀ r, r ≠ .rsp → rs' r = rs r) ∧
      f' 1 = .label false (.errorReturn e) ∧ f' origAxSlot = e.savedCode f ∧
      ∀ i, ripSlot ≤ i → i < areaWords → f' i = f i := by
    unfold Exception.entrySlot Exception.savedCode
    cases e.hasErrorCode with
    | true =>
      rcases hmaps with rfl | ⟨rfl, rfl⟩ <;>
        refine ⟨4, _, _, _, _, rfl, rfl, fun r hr => ?_, rfl, rfl,
          frame_slots rfl rfl rfl rfl rfl⟩ <;>
        cases r <;> first | rfl | exact absurd rfl hr
    | false =>
      rcases hmaps with rfl | ⟨rfl, rfl⟩ <;>
        refine ⟨5, _, _, _, _, rfl, rfl, fun r hr => ?_, rfl, rfl,
          frame_slots rfl rfl rfl rfl rfl⟩ <;>
        cases r <;> first | rfl | exact absurd rfl hr
  obtain ⟨n, rs', zf', cf', f', hruns, hrsp', hother, hreturn, hcode, hframe⟩ := hruns
  refine ⟨rs', zf', cf', f', entryRuns_of_runs hruns, hrsp', fun r hr => ?_, hreturn, hcode,
    hframe⟩
  rw [hother r hr]
  exact (Function.update_of_ne hr _ rs).symm

/-- `error_entry` up to its test of CS. -/
theorem errorEntry_runs {cs : BitVec 64} (hrsp : a.regs .rsp = .stack shared 1)
    (hmaps : shared = true ∨ shared = false ∧ a.cr3 = .kpml4) (hfetch : a.shared = true)
    (hcs : a.frame 19 = .word cs) :
    ∃ rs f, EntryRuns L H (textFrom .errorEntry, a.machine L F)
        (.jz .errorKernelspace :: .swapgs :: (switchToKernel .rdi .errorEntry ++
            [.ret, .label .errorKernelspace, .incl .rbx, .ret]),
          ({ a with regs := rs, zf := cs &&& 3 = 0, cf := false, frame := f } : View).machine
            L F) ∧
      rs .rsp = .stack shared 1 ∧ rs .rbx = .word 0 ∧ f 1 = a.frame 1 ∧
      (∀ r, r ≠ .rsp → f (savedSlot r) = a.regs r) ∧ f origAxSlot = a.frame origAxSlot ∧
      ∀ i, ripSlot ≤ i → i < areaWords → f i = a.frame i := by
  have hlabel : View.runs L F 2 (textFrom .errorEntry, a) =
      some (saveCRegs 8 ++ (saveExtraRegs 8 ++ .xorl .rbx :: .testb 3 (.stack (ptCs + 8)) ::
        .jz .errorKernelspace :: .swapgs :: (switchToKernel .rdi .errorEntry ++
          [.ret, .label .errorKernelspace, .incl .rbx, .ret])), a) := by
    obtain ⟨rs, zf, cf, cr3, gs, kgs, f, c, rest, sh⟩ := a
    obtain rfl : sh = true := hfetch
    rfl
  obtain ⟨f, hsave, hlow, hsaved, horig, hframe⟩ := save_runs (L := L) (F := F) (H := H)
    (.xorl .rbx :: .testb 3 (.stack (ptCs + 8)) :: .jz .errorKernelspace :: .swapgs ::
      (switchToKernel .rdi .errorEntry ++ [.ret, .label .errorKernelspace, .incl .rbx, .ret]))
    (.inr ⟨rfl, rfl⟩) hrsp hmaps hfetch
  have hcs' : f 19 = .word cs := (hframe 19 (by decide) (by decide)).trans hcs
  obtain ⟨rs, htest, hrsp', hrbx⟩ : ∃ rs, View.runs L F 2 (.xorl .rbx ::
          .testb 3 (.stack (ptCs + 8)) :: .jz .errorKernelspace :: .swapgs ::
            (switchToKernel .rdi .errorEntry ++ [.ret, .label .errorKernelspace, .incl .rbx, .ret]),
        { a with frame := f }) =
        some (.jz .errorKernelspace :: .swapgs :: (switchToKernel .rdi .errorEntry ++
            [.ret, .label .errorKernelspace, .incl .rbx, .ret]),
          { a with regs := rs, zf := cs &&& 3 = 0, cf := false, frame := f }) ∧
      rs .rsp = .stack shared 1 ∧ rs .rbx = .word 0 := by
    obtain ⟨f, rfl⟩ := exists_update hcs'
    obtain ⟨rs, zf, cf, cr3, gs, kgs, fr, c, rest, sh⟩ := a
    obtain ⟨rs, rfl⟩ := exists_update hrsp
    obtain rfl : sh = true := hfetch
    rcases hmaps with rfl | ⟨rfl, h⟩
    · exact ⟨_, rfl, rfl, rfl⟩
    · obtain rfl : cr3 = .kpml4 := h
      exact ⟨_, rfl, rfl, rfl⟩
  exact ⟨rs, f, ((entryRuns_of_runs hlabel).trans hsave).trans (entryRuns_of_runs htest), hrsp',
    hrbx, hlow, hsaved, horig, hframe⟩

/-- **From the user**: the exception is in the kernel, and the program is saved. -/
theorem idt_user (e : Exception) {cs : BitVec 64} (hrsp : a.regs .rsp = .stack true e.entrySlot)
    (hfetch : a.shared = true) (hkgs : a.kernelGsBase = .percpu) (hcs : a.frame 19 = .word cs)
    (huser : cs &&& 3 ≠ 0) :
    ∃ b, EntryRuns L H (textFrom (.idt e), a.machine L F)
        (textFrom (.errorReturn e), b.machine L F) ∧
      a.SavedUser b ∧ b.regs .rbx = .word 0 ∧ b.frame origAxSlot = e.savedCode a.frame := by
  obtain ⟨rs, zf, cf, f, hidt, hrsp₁, hregs, hreturn, hcode, hframe⟩ :=
    idtentry_runs (L := L) (F := F) (H := H) e hrsp (.inl rfl) hfetch
  have hcs₁ : f 19 = .word cs := (hframe 19 (by decide) (by decide)).trans hcs
  obtain ⟨rs₂, f₂, hentry, hrsp₂, hrbx, hlow, hsaved, horig, hframe₂⟩ :=
    errorEntry_runs (L := L) (F := F) (H := H) (a := { a with regs := rs, zf, cf, frame := f })
      hrsp₁ (.inl rfl) hfetch hcs₁
  rw [decide_eq_false huser] at hentry
  obtain ⟨rsa, zfa, cfa, cr3, gs, kgs, fa, c, rest, sh⟩ := a
  obtain rfl : sh = true := hfetch
  obtain rfl : kgs = .percpu := hkgs
  have hgs : View.runs L F 2 (.jz .errorKernelspace :: .swapgs ::
          (switchToKernel .rdi .errorEntry ++ [.ret, .label .errorKernelspace, .incl .rbx, .ret]),
        ⟨rs₂, false, false, cr3, gs, .percpu, f₂, c, rest, true⟩) =
      some (switchToKernel .rdi .errorEntry ++ [.ret, .label .errorKernelspace, .incl .rbx, .ret],
        ⟨rs₂, false, false, cr3, .percpu, gs, f₂, c, rest, true⟩) := rfl
  obtain ⟨rs₃, zf₃, cf₃, hswitch, hrsp₃, hother⟩ := switchToKernel_runs (L := L) (F := F) (H := H)
    (a := ⟨rs₂, false, false, cr3, .percpu, gs, f₂, c, rest, true⟩)
    (s := .errorEntry) [.ret, .label .errorKernelspace, .incl .rbx, .ret]
    [.ret, .label .errorKernelspace, .incl .rbx, .ret] (.inr rfl) rfl hrsp₂ rfl rfl
  have hlow₂ : f₂ 1 = .label false (.errorReturn e) := hlow.trans hreturn
  obtain ⟨rs₄, hret, hrsp₄, hrbx₄⟩ : ∃ rs₄, View.runs L F 1
        ([.ret, .label .errorKernelspace, .incl .rbx, .ret],
          ⟨rs₃, zf₃, cf₃, .kpml4, .percpu, gs, f₂, Function.update c .cr3Scratch cr3, rest,
            false⟩) =
        some (textFrom (.errorReturn e),
          ⟨rs₄, zf₃, cf₃, .kpml4, .percpu, gs, f₂, Function.update c .cr3Scratch cr3, rest,
            false⟩) ∧
      rs₄ .rsp = .stack false 2 ∧ rs₄ .rbx = rs₃ .rbx := by
    obtain ⟨f₂, rfl⟩ := exists_update hlow₂
    obtain ⟨rs₃, rfl⟩ := exists_update hrsp₃
    exact ⟨_, rfl, rfl, rfl⟩
  refine ⟨_, ((hidt.trans hentry).trans (entryRuns_of_runs hgs)).trans
    (hswitch.trans (entryRuns_of_runs hret)), ⟨⟨fun r hr => ?_, fun i hge hlt => ?_, rfl, rfl⟩,
      hrsp₄, rfl, rfl, rfl⟩, ?_, horig.trans hcode⟩
  · exact (hsaved r hr).trans (hregs r hr)
  · exact (hframe₂ i hge hlt).trans (hframe i hge hlt)
  · exact (hrbx₄.trans (hother .rbx (by decide) (by decide))).trans hrbx

/-- **From the kernel**: the exception goes on in the identity mapping, with whatever CR3 it came
with, and if that is the kernel's, the program is saved. -/
theorem idt_kernel (e : Exception) {cs : BitVec 64}
    (hrsp : a.regs .rsp = .stack shared e.entrySlot) (hfetch : a.shared = true)
    (hmaps : shared = true ∨ shared = false ∧ a.cr3 = .kpml4) (hcs : a.frame 19 = .word cs)
    (hkernel : cs &&& 3 = 0) :
    ∃ b, EntryRuns L H (textFrom (.idt e), a.machine L F)
        (textFrom (.errorReturn e), b.machine L F) ∧
      b.cr3 = a.cr3 ∧ b.shared = false ∧ (a.cr3 = .kpml4 → a.SavedKernel shared b) ∧
      b.regs .rbx = .word 1 ∧ b.frame origAxSlot = e.savedCode a.frame := by
  obtain ⟨rs, zf, cf, f, hidt, hrsp₁, hregs, hreturn, hcode, hframe⟩ :=
    idtentry_runs (L := L) (F := F) (H := H) e hrsp hmaps hfetch
  have hcs₁ : f 19 = .word cs := (hframe 19 (by decide) (by decide)).trans hcs
  obtain ⟨rs₂, f₂, hentry, hrsp₂, hrbx, hlow, hsaved, horig, hframe₂⟩ :=
    errorEntry_runs (L := L) (F := F) (H := H) (a := { a with regs := rs, zf, cf, frame := f })
      hrsp₁ hmaps hfetch hcs₁
  rw [decide_eq_true hkernel] at hentry
  have hlow₂ : f₂ 1 = .label false (.errorReturn e) := hlow.trans hreturn
  obtain ⟨rsa, zfa, cfa, cr3, gs, kgs, fa, c, rest, sh⟩ := a
  obtain rfl : sh = true := hfetch
  obtain ⟨rs₃, zf₃, hret, hrsp₃, hrbx₃⟩ : ∃ rs₃ zf₃, View.runs L F 4 (.jz .errorKernelspace ::
          .swapgs :: (switchToKernel .rdi .errorEntry ++
            [.ret, .label .errorKernelspace, .incl .rbx, .ret]),
        ⟨rs₂, true, false, cr3, gs, kgs, f₂, c, rest, true⟩) =
      some (textFrom (.errorReturn e),
        ⟨rs₃, zf₃, false, cr3, gs, kgs, f₂, c, rest, false⟩) ∧
      rs₃ .rsp = .stack shared 2 ∧ rs₃ .rbx = .word 1 := by
    obtain ⟨f₂, rfl⟩ := exists_update hlow₂
    obtain ⟨rs₂, rfl⟩ := exists_update hrsp₂
    have hrbx' : rs₂ .rbx = .word 0 := (Function.update_of_ne (by decide) _ _).symm.trans hrbx
    obtain ⟨rs₂, rfl⟩ := exists_update hrbx'
    rcases hmaps with rfl | ⟨rfl, hcr3⟩
    · exact ⟨_, _, rfl, rfl, rfl⟩
    · obtain rfl : cr3 = .kpml4 := hcr3
      exact ⟨_, _, rfl, rfl, rfl⟩
  refine ⟨_, (hidt.trans hentry).trans (entryRuns_of_runs hret), rfl, rfl, fun hcr3 =>
    ⟨⟨fun r hr => ?_, fun i hge hlt => ?_, hcr3, rfl⟩, hrsp₃, rfl, rfl⟩, hrbx₃, horig.trans hcode⟩
  · exact (hsaved r hr).trans (hregs r hr)
  · exact (hframe₂ i hge hlt).trans (hframe i hge hlt)

/-- The handler of an exception, between `error_entry` and `error_exit`: it is called with the
address of `struct pt_regs` and the error code, and finds -1 in `orig_ax`. -/
theorem errorReturn_runs (e : Exception) (hrsp : a.regs .rsp = .stack shared 2)
    (hcr3 : a.cr3 = .kpml4) (hfetch : a.shared = false) {f₀ : ℕ → Val}
    (hcode : a.frame origAxSlot = e.savedCode f₀) (hconf : Conforms F (H.exception e)) :
    ∃ text m₀ m₁ b₀ b, EntryRuns L H (textFrom (.errorReturn e), a.machine L F)
        (.call (.exception e) :: text, m₀) ∧
      a.Kept b₀ ∧ b₀.AtCall L F m₀ ∧ b₀.regs .rdi = .stack shared 2 ∧
      b₀.regs .rsi = (if e.hasErrorCode then f₀ origAxSlot else .word 0) ∧
      b₀.frame origAxSlot = .word (-1) ∧
      entryStep L H (.call (.exception e) :: text, m₀) = some (text, m₁) ∧
      EntryRuns L H (text, m₁) (textFrom .errorExit, b.machine L F) ∧ a.Kept b := by
  obtain ⟨rs, zf, cf, cr3, gs, kgs, f, c, rest, sh⟩ := a
  obtain ⟨rs, rfl⟩ := exists_update hrsp
  obtain rfl : sh = false := hfetch
  obtain rfl : cr3 = .kpml4 := hcr3
  have hargs : ∃ n b₀, View.runs L F n (textFrom (.errorReturn e),
        ⟨Function.update rs .rsp (.stack shared 2), zf, cf, .kpml4, gs, kgs, f, c, rest, false⟩) =
        some (.push .rsp :: .call (.exception e) :: .pop .rsp :: [.jmp .errorExit], b₀) ∧
      View.Kept ⟨Function.update rs .rsp (.stack shared 2), zf, cf, .kpml4, gs, kgs, f, c, rest,
        false⟩ b₀ ∧ b₀.regs .rdi = .stack shared 2 ∧
      b₀.regs .rsi = (if e.hasErrorCode then f₀ origAxSlot else .word 0) ∧
      b₀.frame origAxSlot = .word (-1) := by
    rw [textFrom_errorReturn]
    unfold Exception.savedCode at hcode
    cases herr : e.hasErrorCode with
    | true =>
      rw [herr] at hcode
      cases shared <;> refine ⟨4, _, rfl, ⟨fun r hr => ?_, rfl,
        fun i _ hne _ => Function.update_of_ne hne _ _, fun _ _ => rfl, rfl, rfl, rfl, rfl⟩, rfl,
        hcode, rfl⟩ <;>
        cases r <;> first | rfl | exact absurd hr (by decide)
    | false =>
      rw [herr] at hcode
      cases shared <;> refine ⟨3, _, rfl, ⟨fun r hr => ?_, rfl,
        fun _ _ _ _ => rfl, fun _ _ => rfl, rfl, rfl, rfl, rfl⟩, rfl, rfl, hcode⟩ <;>
        cases r <;> first | rfl | exact absurd hr (by decide)
  obtain ⟨n, b₀, hargs, hkept, hrdi, hrsi, horig⟩ := hargs
  obtain ⟨m₀, m₁, b', hpush, hat, hcall, hpop, hkept', -⟩ := alignedCall_runs (L := L) (F := F)
    (H := H) (f := .exception e) [.jmp .errorExit] (hkept.rsp.trans rfl) hkept.cr3 hkept.shared
    fun _ _ => hconf
  have hjmp : View.runs L F 1 ([.jmp .errorExit], b') = some (textFrom .errorExit, b') := by
    simp [View.runs, View.step, View.maps, hkept'.cr3, hkept.cr3]
  exact ⟨_, m₀, m₁, b₀, b', (entryRuns_of_runs hargs).trans hpush, hkept, hat, hrdi, hrsi, horig,
    hcall, hpop.trans (entryRuns_of_runs hjmp), hkept.trans hkept'⟩

/-- `error_exit`, with the flag that `error_entry` has left in EBX. -/
theorem errorExit_runs {x : BitVec 64} (hx : x = 0 ∨ x = 1) (hrbx : b.regs .rbx = .word x)
    (hcr3 : b.cr3 = .kpml4) (hfetch : b.shared = false) :
    EntryRuns L H (textFrom .errorExit, b.machine L F)
      (textFrom (if x = 0 then .retintUser else .retintKernel),
        ({ b with zf := x = 0, cf := false } : View).machine L F) := by
  obtain ⟨rs, zf, cf, cr3, gs, kgs, f, c, rest, sh⟩ := b
  obtain ⟨rs, rfl⟩ := exists_update hrbx
  obtain rfl : sh = false := hfetch
  obtain rfl : cr3 = .kpml4 := hcr3
  have hruns : View.runs L F 3 (textFrom .errorExit,
        ⟨Function.update rs .rbx (.word x), zf, cf, .kpml4, gs, kgs, f, c, rest, false⟩) =
      some (textFrom (if x = 0 then .retintUser else .retintKernel),
        ⟨Function.update rs .rbx (.word x), x = 0, false, .kpml4, gs, kgs, f, c, rest, false⟩) := by
    rcases hx with rfl | rfl
    · rfl
    · rfl
  exact entryRuns_of_runs hruns

/-- What `errorReturn_runs` says of the call of the handler. -/
theorem handlerArgs_exception (e : Exception) {a b b₀ : View} {m₀ : Machine} (hsaved : a.Saved b)
    (hkept : b.Kept b₀) (hat : b₀.AtCall L F m₀) (hrdi : b₀.regs .rdi = .stack shared 2)
    (hrsi : b₀.regs .rsi = if e.hasErrorCode then a.frame origAxSlot else .word 0)
    (horig : b₀.frame origAxSlot = .word (-1)) :
    HandlerArgs F shared (-1) (some (e.errorCode F (a.machine L F))) (a.machine L F) m₀ := by
  have hargs : HandlerArgs F shared (-1) none (a.machine L F) m₀ :=
    HandlerArgs.of_saved hsaved hkept hat hrdi
      (fun w hw => absurd hw.symm (Option.some_ne_none w)) horig
  refine { hargs with rsi := fun w hw => ?_ }
  obtain rfl := Option.some.inj hw
  rw [hat.regs .rsi (by decide), hrsi, Exception.errorCode]
  cases e.hasErrorCode with
  | true => exact (machine_slot (by decide)).symm
  | false => rfl

/-- **Exception of the user**: its handler is called, and it is transparent to the program that it
interrupts. -/
theorem idt_resumes_user (e : Exception) {cs : BitVec 64}
    (hrsp : a.regs .rsp = .stack true e.entrySlot) (hfetch : a.shared = true)
    (hkgs : a.kernelGsBase = .percpu) (hcs : a.frame 19 = .word cs) (huser : cs &&& 3 ≠ 0)
    (hconf : Conforms F (H.exception e)) :
    ∃ b, HandlerCalled H F false (-1) (some (e.errorCode F (a.machine L F))) (.exception e)
        (textFrom (.idt e)) (a.machine L F) (b.machine L F) ∧ a.Resumes true b := by
  obtain ⟨b, henter, hsaved, hrbx, hcode⟩ :=
    idt_user (L := L) (F := F) (H := H) e hrsp hfetch hkgs hcs huser
  obtain ⟨text, m₀, m₁, b₀, b', hbefore, hkept₀, hat, hrdi, hrsi, horig, hcall, hbehind, hkept⟩ :=
    errorReturn_runs (L := L) e hsaved.rsp hsaved.cr3 hsaved.shared hcode hconf
  have hsaved' := hsaved.kept hkept
  have hexit := errorExit_runs (L := L) (F := F) (H := H) (.inl rfl)
    ((hkept.regs .rbx (by decide)).trans hrbx) hsaved'.cr3 hsaved'.shared
  have hflags : a.SavedUser { b' with zf := (0 : BitVec 64) = 0, cf := false } :=
    ⟨⟨hsaved'.regs, hsaved'.frame, hsaved'.cr3, hsaved'.shared⟩, hsaved'.rsp, hsaved'.scratch,
      hsaved'.gsBase, hsaved'.kernelGsBase⟩
  obtain ⟨b₂, hreturn, hresumes⟩ := retintUser_resumes (L := L) (F := F) (H := H) hflags hkgs
  exact ⟨b₂, ⟨text, m₀, m₁, henter.trans hbefore,
    handlerArgs_exception e hsaved.toSaved hkept₀ hat hrdi hrsi horig, hcall,
    (hbehind.trans hexit).trans hreturn⟩, hresumes⟩

/-- **Exception of the kernel** in its address space: the same. -/
theorem idt_resumes_kernel (e : Exception) {cs : BitVec 64}
    (hrsp : a.regs .rsp = .stack shared e.entrySlot) (hfetch : a.shared = true)
    (hcr3 : a.cr3 = .kpml4) (hcs : a.frame 19 = .word cs) (hkernel : cs &&& 3 = 0)
    (hconf : Conforms F (H.exception e)) :
    ∃ b, HandlerCalled H F shared (-1) (some (e.errorCode F (a.machine L F))) (.exception e)
        (textFrom (.idt e)) (a.machine L F) (b.machine L F) ∧ a.Resumes shared b := by
  obtain ⟨b, henter, -, -, hsaved, hrbx, hcode⟩ := idt_kernel (L := L) (F := F) (H := H) e hrsp
    hfetch (mapped_of_cr3 shared hcr3) hcs hkernel
  have hsaved := hsaved hcr3
  obtain ⟨text, m₀, m₁, b₀, b', hbefore, hkept₀, hat, hrdi, hrsi, horig, hcall, hbehind, hkept⟩ :=
    errorReturn_runs (L := L) e hsaved.rsp hsaved.cr3 hsaved.shared hcode hconf
  have hsaved' := hsaved.kept hkept
  have hexit := errorExit_runs (L := L) (F := F) (H := H) (.inr rfl)
    ((hkept.regs .rbx (by decide)).trans hrbx) hsaved'.cr3 hsaved'.shared
  have hflags : a.SavedKernel shared { b' with zf := (1 : BitVec 64) = 0, cf := false } :=
    ⟨⟨hsaved'.regs, hsaved'.frame, hsaved'.cr3, hsaved'.shared⟩, hsaved'.rsp, hsaved'.gsBase,
      hsaved'.kernelGsBase⟩
  obtain ⟨b₂, hreturn, hresumes⟩ := retintKernel_resumes (L := L) (F := F) (H := H) hflags hcr3
  exact ⟨b₂, ⟨text, m₀, m₁, henter.trans hbefore,
    handlerArgs_exception e hsaved.toSaved hkept₀ hat hrdi hrsi horig, hcall,
    (hbehind.trans hexit).trans hreturn⟩, hresumes⟩

/-- Under another page table the code behind `error_entry` is not mapped where its return address
is, and the exception goes no further. -/
theorem idt_kernel_stuck (e : Exception) {cs : BitVec 64}
    (hrsp : a.regs .rsp = .stack true e.entrySlot) (hfetch : a.shared = true)
    (hcr3 : a.cr3.den L F ≠ L.kpml4) (hcs : a.frame 19 = .word cs) (hkernel : cs &&& 3 = 0) :
    ∃ m, EntryRuns L H (textFrom (.idt e), a.machine L F) (textFrom (.errorReturn e), m) ∧
      entryStep L H (textFrom (.errorReturn e), m) = none := by
  obtain ⟨b, henter, hsame, hshared, -⟩ := idt_kernel (L := L) (F := F) (H := H) e hrsp hfetch
    (.inl rfl) hcs hkernel
  refine ⟨_, henter, entryStep_of_not_canFetch _ ?_⟩
  rw [Machine.canFetch, Bool.or_eq_false_iff]
  refine ⟨hshared, decide_eq_false fun heq => hcr3 ?_⟩
  rw [← hsame]
  exact heq

/-- An APIC interrupt of the user, up to the switch of the page table. -/
theorem interrupt_runs (s : ApicSym) {cs : BitVec 64} (hrsp : a.regs .rsp = .stack true ripSlot)
    (hfetch : a.shared = true) (hcs : a.frame 19 = .word cs) (huser : cs &&& 3 ≠ 0) :
    ∃ rs f, EntryRuns L H (textFrom (.apic s), a.machine L F)
        (switchToKernel .rdi (.interrupt s) ++ (.mov .rsp .rdi :: .push .rsp ::
            .call (.apic s) :: .pop .rsp :: [.jmp .retintUser]),
          ({ a with
            regs := rs, zf := false, cf := false, frame := f
            gsBase := a.kernelGsBase, kernelGsBase := a.gsBase } : View).machine L F) ∧
      rs .rsp = .stack true 2 ∧ (∀ r, r ≠ .rsp → f (savedSlot r) = a.regs r) ∧
      f origAxSlot = .word (~~~s.num) ∧
      ∀ i, ripSlot ≤ i → i < areaWords → f i = a.frame i := by
  obtain ⟨rs, zf, cf, cr3, gs, kgs, f, c, rest, sh⟩ := a
  obtain ⟨rs, rfl⟩ := exists_update hrsp
  obtain rfl : sh = true := hfetch
  obtain ⟨rs₁, zf₁, cf₁, f₁, halloc, hrsp₁, hregs, hnum, hframe⟩ : ∃ rs₁ zf₁ cf₁ f₁,
      View.runs L F 4 (textFrom (.apic s),
        ⟨Function.update rs .rsp (.stack true ripSlot), zf, cf, cr3, gs, kgs, f, c, rest, true⟩) =
        some (saveCRegs 0 ++ (saveExtraRegs 0 ++ .testb 3 (.stack ptCs) :: .label (.spin s) ::
            .jz (.spin s) :: .swapgs :: (switchToKernel .rdi (.interrupt s) ++ (.mov .rsp .rdi ::
              .push .rsp :: .call (.apic s) :: .pop .rsp :: [.jmp .retintUser]))),
          ⟨rs₁, zf₁, cf₁, cr3, gs, kgs, f₁, c, rest, true⟩) ∧
      rs₁ .rsp = .stack true 2 ∧ (∀ r, r ≠ .rsp → rs₁ r = rs r) ∧
      f₁ origAxSlot = .word (~~~s.num) ∧ ∀ i, ripSlot ≤ i → i < areaWords → f₁ i = f i := by
    rw [textFrom_apic]
    refine ⟨_, _, _, _, rfl, rfl, fun r hr => ?_, rfl, frame_slots rfl rfl rfl rfl rfl⟩
    cases r <;> first | rfl | exact absurd rfl hr
  obtain ⟨f₂, hsave, -, hsaved, horig, hframe₂⟩ := save_runs (L := L) (F := F) (H := H)
    (a := ⟨rs₁, zf₁, cf₁, cr3, gs, kgs, f₁, c, rest, true⟩)
    (.testb 3 (.stack ptCs) :: .label (.spin s) :: .jz (.spin s) :: .swapgs ::
      (switchToKernel .rdi (.interrupt s) ++ (.mov .rsp .rdi :: .push .rsp :: .call (.apic s) ::
        .pop .rsp :: [.jmp .retintUser])))
    (.inl ⟨rfl, rfl⟩) hrsp₁ (.inl rfl) rfl
  have hcs₂ : f₂ 19 = .word cs :=
    ((hframe₂ 19 (by decide) (by decide)).trans (hframe 19 (by decide) (by decide))).trans hcs
  have htest : View.runs L F 2 (.testb 3 (.stack ptCs) :: .label (.spin s) ::
          .jz (.spin s) :: .swapgs :: (switchToKernel .rdi (.interrupt s) ++ (.mov .rsp .rdi ::
            .push .rsp :: .call (.apic s) :: .pop .rsp :: [.jmp .retintUser])),
        ⟨rs₁, zf₁, cf₁, cr3, gs, kgs, f₂, c, rest, true⟩) =
      some (.jz (.spin s) :: .swapgs :: (switchToKernel .rdi (.interrupt s) ++ (.mov .rsp .rdi ::
          .push .rsp :: .call (.apic s) :: .pop .rsp :: [.jmp .retintUser])),
        ⟨rs₁, cs &&& 3 = 0, false, cr3, gs, kgs, f₂, c, rest, true⟩) := by
    obtain ⟨f₂, rfl⟩ := exists_update hcs₂
    obtain ⟨rs₁, rfl⟩ := exists_update hrsp₁
    rfl
  -- the interrupt comes from user mode, and the spin is passed
  rw [decide_eq_false huser] at htest
  have hgs : View.runs L F 2 (.jz (.spin s) :: .swapgs :: (switchToKernel .rdi (.interrupt s) ++
          (.mov .rsp .rdi :: .push .rsp :: .call (.apic s) :: .pop .rsp :: [.jmp .retintUser])),
        ⟨rs₁, false, false, cr3, gs, kgs, f₂, c, rest, true⟩) =
      some (switchToKernel .rdi (.interrupt s) ++ (.mov .rsp .rdi :: .push .rsp ::
          .call (.apic s) :: .pop .rsp :: [.jmp .retintUser]),
        ⟨rs₁, false, false, cr3, kgs, gs, f₂, c, rest, true⟩) := rfl
  refine ⟨rs₁, f₂, ((entryRuns_of_runs halloc).trans hsave).trans
    ((entryRuns_of_runs htest).trans (entryRuns_of_runs hgs)), hrsp₁, fun r hr => ?_,
    horig.trans hnum, fun i hge hlt => (hframe₂ i hge hlt).trans (hframe i hge hlt)⟩
  exact ((hsaved r hr).trans (hregs r hr)).trans (Function.update_of_ne hr _ rs).symm

/-- **APIC interrupt** of the user: its handler is called, and it is transparent. -/
theorem apic_resumes (s : ApicSym) {cs : BitVec 64} (hrsp : a.regs .rsp = .stack true ripSlot)
    (hfetch : a.shared = true) (hkgs : a.kernelGsBase = .percpu) (hcs : a.frame 19 = .word cs)
    (huser : cs &&& 3 ≠ 0) (hconf : Conforms F (H.apic s)) :
    ∃ b, HandlerCalled H F false (~~~s.num) none (.apic s) (textFrom (.apic s)) (a.machine L F)
        (b.machine L F) ∧ a.Resumes true b := by
  obtain ⟨rs₁, f₁, henter, hrsp₁, hsaved, hnum, hframe⟩ :=
    interrupt_runs (L := L) (F := F) (H := H) s hrsp hfetch hcs huser
  obtain ⟨rs, zf, cf, cr3, gs, kgs, f, c, rest, sh⟩ := a
  obtain rfl : sh = true := hfetch
  obtain rfl : kgs = .percpu := hkgs
  obtain ⟨rs₂, zf₂, cf₂, hswitch, hrsp₂, -⟩ := switchToKernel_runs (L := L) (F := F) (H := H)
    (a := ⟨rs₁, false, false, cr3, .percpu, gs, f₁, c, rest, true⟩)
    (.mov .rsp .rdi :: .push .rsp :: .call (.apic s) :: .pop .rsp :: [.jmp .retintUser])
    (.mov .rsp .rdi :: .push .rsp :: .call (.apic s) :: .pop .rsp :: [.jmp .retintUser])
    (.inr rfl) (textFrom_toKernel_interrupt s) hrsp₁ rfl rfl
  obtain ⟨b, harg, hin, hrdi, horig⟩ : ∃ b, View.runs L F 1
        (.mov .rsp .rdi :: .push .rsp :: .call (.apic s) :: .pop .rsp :: [.jmp .retintUser],
          ⟨rs₂, zf₂, cf₂, .kpml4, .percpu, gs, f₁, Function.update c .cr3Scratch cr3, rest,
            false⟩) =
        some (.push .rsp :: .call (.apic s) :: .pop .rsp :: [.jmp .retintUser], b) ∧
      View.SavedUser ⟨rs, zf, cf, cr3, gs, .percpu, f, c, rest, true⟩ b ∧
      b.regs .rdi = .stack false 2 ∧ b.frame origAxSlot = .word (~~~s.num) :=
    ⟨_, rfl, ⟨⟨hsaved, hframe, rfl, rfl⟩, hrsp₂, rfl, rfl, rfl⟩, hrsp₂, hnum⟩
  obtain ⟨m₀, m₁, b', hpush, hat, hcall, hpop, hkept, -⟩ := alignedCall_runs (L := L) (F := F)
    (H := H) (f := .apic s) [.jmp .retintUser] hin.rsp hin.cr3 hin.shared fun _ _ => hconf
  have hout := hin.kept hkept
  have hjmp : View.runs L F 1 ([.jmp .retintUser], b') = some (textFrom .retintUser, b') := by
    simp [View.runs, View.step, View.maps, hout.cr3]
  obtain ⟨b₂, hreturn, hresumes⟩ := retintUser_resumes (L := L) (F := F) (H := H) hout rfl
  exact ⟨b₂, ⟨_, m₀, m₁, (henter.trans hswitch).trans ((entryRuns_of_runs harg).trans hpush),
    HandlerArgs.of_saved hin.toSaved (View.Kept.refl b) hat hrdi
      (fun w hw => absurd hw.symm (Option.some_ne_none w)) horig, hcall,
    (hpop.trans (entryRuns_of_runs hjmp)).trans hreturn⟩, hresumes⟩

end Interrupts

end Lvisor
