import Lvisor.Machine
import Mathlib.Logic.Function.Basic
import Mathlib.Logic.Relation

/-!
# The entry code (`kernel/entry.S`, `kernel/calling.h`)

The entry points of the system call, of the exceptions and of the APIC interrupts, as one text
of instructions with labels, and the machine that they run on. Memory is by words: the code
touches 8-byte slots of the stack and a few per-CPU variables only.

* `translate` — `kpml4` maps the first 4 GiB, and the same again at `__ENTRY_OFFSET`; the page
  table of a user process maps the second of the two, and below it what the user has there;
* `Instr`, `entryText` — the instructions, and the text with its macros expanded. A numeric label
  is that of the assembler: `1f` is the next `1:` of the expanded text, also if that stands in a
  macro, and so the `jae 1f` of `do_syscall_64` jumps into `SWITCH_TO_KERNEL`;
* `Machine.exec`, `entryStep` — one instruction;
* `Handlers` — what the code calls.
-/

namespace Lvisor

/-! ## Registers and labels -/

/-- The general registers. RIP is not among them: where the code is stands in the text that is
left. -/
inductive Reg where
  | rax | rcx | rdx | rbx | rsp | rbp | rsi | rdi
  | r8 | r9 | r10 | r11 | r12 | r13 | r14 | r15
  deriving DecidableEq, Repr

/-- The symbols of `apicinterrupt`, one for each interrupt of the local APIC that has a handler. -/
inductive ApicSym where
  | apicTimerInterrupt | errorInterrupt | spuriousInterrupt
  deriving DecidableEq, Repr

/-- The vectors of `apicinterrupt`: `LOCAL_TIMER_VECTOR`, `ERROR_APIC_VECTOR` and
`SPURIOUS_APIC_VECTOR`. -/
def ApicSym.num : ApicSym → BitVec 64
  | .apicTimerInterrupt => 0xee
  | .errorInterrupt => 0xfe
  | .spuriousInterrupt => 0xff

/-- The symbols of `idtentry`, one for each exception that the text has an entry for. -/
inductive Exception where
  | divideError | overflow | bounds | invalidOp | deviceNotAvailable | doubleFault
  | coprocessorSegmentOverrun | invalidTss | segmentNotPresent | spuriousInterruptBug
  | coprocessorError | alignmentCheck | simdCoprocessorError | stackSegment
  | generalProtection | pageFault
  deriving DecidableEq, Repr

/-- `has_error_code`: the processor pushes an error code for these exceptions, and nothing for
the others. -/
def Exception.hasErrorCode : Exception → Bool
  | .doubleFault | .invalidTss | .segmentNotPresent | .alignmentCheck | .stackSegment
  | .generalProtection | .pageFault => true
  | _ => false

/-- The places where `SWITCH_TO_KERNEL` is expanded. Each of them has a label `1:` of its own. -/
inductive KernelSite where
  | doSyscall64
  | interrupt (s : ApicSym)
  | errorEntry
  deriving DecidableEq, Repr

/-- The places where `SWITCH_TO_USER` is expanded. Interrupts and exceptions share the second
one. -/
inductive UserSite where
  | doSyscall64
  | retintUser
  deriving DecidableEq, Repr

/-- The labels of the text after macro expansion, so that labels with a name and numeric ones are
alike. -/
inductive Label where
  | doSyscall64
  /-- the last `1:` in `do_syscall_64`, which no jump has as its target -/
  | sysret
  | apic (s : ApicSym)
  /-- `1:` in `interrupt` -/
  | spin (s : ApicSym)
  | idt (e : Exception)
  /-- `1:` in `idtentry` -/
  | errorReturn (e : Exception)
  | errorEntry
  | errorKernelspace
  | errorExit
  | retintUser
  | retintKernel
  /-- `1:` in `SWITCH_TO_KERNEL` -/
  | toKernel (s : KernelSite)
  /-- `1:` in `SWITCH_TO_USER` -/
  | toUser (s : UserSite)
  deriving DecidableEq, Repr

/-- The per-CPU variables of the text; `sp0` is that of the TSS. -/
inductive PerCpu where
  | rspScratch | cr3Scratch | sp0
  deriving DecidableEq, Repr

/-- A memory operand: `PER_CPU_VAR(var)`, which is relative to GS, or `disp(%rsp)`. -/
inductive Operand where
  | perCpu (v : PerCpu)
  | stack (disp : ℕ)
  deriving DecidableEq, Repr

/-- What a `call` of the text calls: in each case it is a function in C. -/
inductive Callee where
  /-- `*syscall_table(, %rax, 8)` -/
  | syscallTable
  /-- `do_sym` of `idtentry` -/
  | exception (e : Exception)
  /-- `do_sym` of `apicinterrupt` -/
  | apic (s : ApicSym)
  deriving DecidableEq, Repr

/-- The instructions of the text. Sources stand before destinations, as in the text. -/
inductive Instr where
  | label (l : Label)
  | swapgs
  | cld
  | load (src : Operand) (dst : Reg)
  | store (src : Reg) (dst : Operand)
  | storeImm (w : BitVec 64) (dst : Operand)
  | mov (src dst : Reg)
  | movImm (w : BitVec 64) (dst : Reg)
  /-- the address of a label, or its address in the shared mapping -/
  | movLabel (shared : Bool) (l : Label) (dst : Reg)
  | movKpml4 (dst : Reg)
  | movFromCr3 (dst : Reg)
  | movToCr3 (src : Reg)
  | push (src : Reg)
  | pushImm (w : BitVec 64)
  | pushMem (src : Operand)
  | pushLabel (l : Label)
  | pop (dst : Reg)
  | addImm (w : BitVec 64) (dst : Reg)
  | subImm (w : BitVec 64) (dst : Reg)
  | add (src dst : Reg)
  | sub (src dst : Reg)
  | cmpImm (w : BitVec 64) (r : Reg)
  | testb (w : BitVec 64) (src : Operand)
  | testl (r : Reg)
  | xorl (r : Reg)
  | incl (r : Reg)
  | jmp (l : Label)
  | jae (l : Label)
  | jz (l : Label)
  | jnz (l : Label)
  | jmpReg (r : Reg)
  | ret
  | call (f : Callee)
  | sysretq
  | iretq

/-! ## `calling.h`

The macros, as lists of instructions. They are expanded where the text uses them, so that a label
inside of a macro exists once for each use and carries the place of it in its name. -/

/-- `__ENTRY_OFFSET`: the shared mapping begins here. -/
abbrev entryOffset : BitVec 64 := 0xffff800000000000#64

/-- The layout of `struct pt_regs`: `RAX`, `ORIG_RAX`, `RIP`, `CS` and `RFLAGS`. -/
abbrev ptRax : ℕ := 10 * 8

@[inherit_doc ptRax] abbrev ptOrigRax : ℕ := 15 * 8

@[inherit_doc ptRax] abbrev ptRip : ℕ := 16 * 8

@[inherit_doc ptRax] abbrev ptCs : ℕ := 17 * 8

@[inherit_doc ptRax] abbrev ptRflags : ℕ := 18 * 8

/-- `ALLOC_PT_GPREGS_ON_STACK`: room for the fifteen registers of `struct pt_regs`. -/
def allocPtGpregsOnStack : List Instr := [.addImm (-(15 * 8)) .rsp]

/-- `SAVE_C_REGS`: the registers that a function in C may change go to their slots of `struct
pt_regs`. -/
def saveCRegs (offset : ℕ) : List Instr :=
  [.store .r11 (.stack (6 * 8 + offset)), .store .r10 (.stack (7 * 8 + offset)),
    .store .r9 (.stack (8 * 8 + offset)), .store .r8 (.stack (9 * 8 + offset)),
    .store .rax (.stack (10 * 8 + offset)), .store .rcx (.stack (11 * 8 + offset)),
    .store .rdx (.stack (12 * 8 + offset)), .store .rsi (.stack (13 * 8 + offset)),
    .store .rdi (.stack (14 * 8 + offset))]

/-- `SAVE_EXTRA_REGS`: the registers that a function in C preserves go to theirs. -/
def saveExtraRegs (offset : ℕ) : List Instr :=
  [.store .r15 (.stack (0 * 8 + offset)), .store .r14 (.stack (1 * 8 + offset)),
    .store .r13 (.stack (2 * 8 + offset)), .store .r12 (.stack (3 * 8 + offset)),
    .store .rbp (.stack (4 * 8 + offset)), .store .rbx (.stack (5 * 8 + offset))]

/-- `POP_EXTRA_REGS`: the reverse of `SAVE_EXTRA_REGS`, with the stack pointer at the first slot. -/
def popExtraRegs : List Instr :=
  [.pop .r15, .pop .r14, .pop .r13, .pop .r12, .pop .rbp, .pop .rbx]

/-- `POP_C_REGS`: the reverse of `SAVE_C_REGS`, with the stack pointer at the slot of `%r11`. -/
def popCRegs : List Instr :=
  [.pop .r11, .pop .r10, .pop .r9, .pop .r8, .pop .rax, .pop .rcx, .pop .rdx, .pop .rsi, .pop .rdi]

/-- `SWITCH_TO_KERNEL`: to the page table of the kernel, and with text and stack to the identity
mapping. -/
def switchToKernel (scratchReg : Reg) (s : KernelSite) : List Instr :=
  [ -- save cr3 and switch to the kernel page table
    .movFromCr3 scratchReg, .store scratchReg (.perCpu .cr3Scratch), .movKpml4 scratchReg,
    .movToCr3 scratchReg,
    -- relocate to the identity mapping
    .movLabel false (.toKernel s) scratchReg, .jmpReg scratchReg,
    .label (.toKernel s),
    -- reset rsp to the identity mapping
    .movImm entryOffset scratchReg, .sub scratchReg .rsp]

/-- `SWITCH_TO_USER`: with stack and text to the shared mapping, and to the page table that was
there before. -/
def switchToUser (scratchReg : Reg) (s : UserSite) : List Instr :=
  [ -- reset rsp to the shared mapping
    .movImm entryOffset scratchReg, .add scratchReg .rsp,
    -- relocate to the shared mapping
    .movLabel true (.toUser s) scratchReg, .jmpReg scratchReg,
    .label (.toUser s),
    -- restore cr3 and switch back to the user page table
    .load (.perCpu .cr3Scratch) scratchReg, .movToCr3 scratchReg]

/-! ## `entry.S` -/

/-- `NR_syscalls`, the length of the table of system calls. -/
abbrev nrSyscalls : BitVec 64 := 128#64

/-- `ENOSYS`, of which the negative is the result in `struct pt_regs` before the call. -/
abbrev enosys : BitVec 64 := 38#64

/-- `USER_DS`: the descriptor 5 of the GDT, for privilege level 3. -/
abbrev userDs : BitVec 64 := 5 * 8 + 3

/-- `USER_CS`: the descriptor 6 of the GDT, for privilege level 3. -/
abbrev userCs : BitVec 64 := 6 * 8 + 3

/-- `ALIGN_STACK_PUSH`: the stack pointer goes to the stack, as the word below what is there. -/
def alignStackPush : List Instr := [.push .rsp]

/-- `ALIGN_STACK_POP`: the stack pointer is again what it was before `ALIGN_STACK_PUSH`. -/
def alignStackPop : List Instr := [.pop .rsp]

/-- `do_syscall_64`. The test of the number is meant to skip the call of the function, but the
next `1:` behind `jae 1f` is that of `SWITCH_TO_KERNEL`, behind the switch of CR3. -/
def doSyscall64 : List Instr := List.flatten
  [[.label .doSyscall64, .swapgs,
    -- save rsp, and switch to the kernel stack
    .store .rsp (.perCpu .rspScratch), .load (.perCpu .sp0) .rsp,
    -- construct struct pt_regs on the stack
    .pushImm userDs, .pushMem (.perCpu .rspScratch), .push .r11, .pushImm userCs, .push .rcx,
    .push .rax, .push .rdi, .push .rsi, .push .rdx, .push .rcx, .pushImm (-enosys), .push .r8,
    .push .r9, .push .r10, .push .r11, .subImm (6 * 8) .rsp,
    .cmpImm nrSyscalls .rax, .jae (.toKernel .doSyscall64)],
  switchToKernel .rcx .doSyscall64,
  [.mov .r10 .rcx], alignStackPush, [.call .syscallTable], alignStackPop,
  [.store .rax (.stack ptRax)],
  switchToUser .rcx .doSyscall64,
  [.label .sysret, .load (.stack ptRip) .rcx, .load (.stack ptRflags) .r11, .addImm (6 * 8) .rsp,
    .pop .rsi, .pop .r10, .pop .r9, .pop .r8, .pop .rax, .pop .rsi, .pop .rdx, .pop .rsi, .pop .rdi,
    .load (.perCpu .rspScratch) .rsp, .swapgs, .sysretq]]

/-- `interrupt`: saves the registers, switches to the kernel, and calls the handler. When the
interrupted code is not that of a user it jumps to itself. -/
def interrupt (s : ApicSym) : List Instr := List.flatten
  [[.cld], allocPtGpregsOnStack, saveCRegs 0, saveExtraRegs 0,
  [.testb 3 (.stack ptCs), .label (.spin s), .jz (.spin s), .swapgs],
  switchToKernel .rdi (.interrupt s),
  [.mov .rsp .rdi], alignStackPush, [.call (.apic s)], alignStackPop]

/-- `apicinterrupt`: the complement of the vector in the slot of `orig_ax`, and then `interrupt`.
The way back is that of an exception. -/
def apicinterrupt (s : ApicSym) : List Instr := List.flatten
  [[.label (.apic s), .pushImm (~~~s.num)], interrupt s, [.jmp .retintUser]]

/-- `idtentry`: the slot of `orig_ax` has the error code, or -1 where the processor pushes none.
The handler gets the registers and the error code. -/
def idtentry (e : Exception) : List Instr := List.flatten
  [[.label (.idt e)], if e.hasErrorCode then [] else [.pushImm (-1)],
  allocPtGpregsOnStack,
  [.pushLabel (.errorReturn e), .jmp .errorEntry, .label (.errorReturn e), .mov .rsp .rdi],
  if e.hasErrorCode then
    [.load (.stack ptOrigRax) .rsi, .storeImm (-1) (.stack ptOrigRax)]
  else [.xorl .rsi],
  alignStackPush, [.call (.exception e)], alignStackPop, [.jmp .errorExit]]

/-- `error_entry`: saves the registers, and switches to the kernel if the exception is one of the
user. In `%rbx` it returns whether there was nothing to switch. -/
def errorEntry : List Instr := List.flatten
  [[.label .errorEntry, .cld], saveCRegs 8, saveExtraRegs 8,
  [.xorl .rbx, .testb 3 (.stack (ptCs + 8)), .jz .errorKernelspace, .swapgs],
  switchToKernel .rdi .errorEntry,
  [.ret, .label .errorKernelspace, .incl .rbx, .ret]]

/-- `error_exit` with what lies behind it: back to the user through the switch, or to the kernel
without. -/
def errorExit : List Instr := List.flatten
  [[.label .errorExit, .testl .rbx, .jnz .retintKernel, .label .retintUser],
  switchToUser .rdi .retintUser,
  [.swapgs, .label .retintKernel], popExtraRegs, popCRegs, [.addImm 8 .rsp, .iretq]]

/-- The order of the exceptions in the text. It matters to no jump, as each entry ends with one. -/
def idtentries : List Exception :=
  [.divideError, .overflow, .bounds, .invalidOp, .deviceNotAvailable, .doubleFault,
    .coprocessorSegmentOverrun, .invalidTss, .segmentNotPresent, .spuriousInterruptBug,
    .coprocessorError, .alignmentCheck, .simdCoprocessorError, .stackSegment, .generalProtection,
    .pageFault]

/-- The text of `entry.S` from its first entry point to its last instruction. -/
def entryText : List Instr := List.flatten
  [doSyscall64,
  [ApicSym.apicTimerInterrupt, .errorInterrupt, .spuriousInterrupt].flatMap apicinterrupt,
  idtentries.flatMap idtentry, errorEntry, errorExit]

/-- Whether the label stands here. The text has each label once. -/
def Instr.isLabel (l : Label) : Instr → Bool
  | .label l' => l' = l
  | _ => false

/-- The part of the text that a label is in. Each of them ends with a jump. -/
def Label.part : Label → List Instr
  | .doSyscall64 | .sysret | .toKernel .doSyscall64 | .toUser .doSyscall64 => Lvisor.doSyscall64
  | .apic s | .spin s | .toKernel (.interrupt s) => apicinterrupt s
  | .idt e | .errorReturn e => idtentry e
  | .errorEntry | .errorKernelspace | .toKernel .errorEntry => Lvisor.errorEntry
  | .errorExit | .retintUser | .retintKernel | .toUser .retintUser => Lvisor.errorExit

/-- The text from a label on, as far as the part goes that the label is in. -/
def textFrom (l : Label) : List Instr := l.part.dropWhile fun i => !i.isLabel l

/-- The labels of the text, which are the places that a jump through a register may have as its
target. -/
@[irreducible] def entryLabels : List Label :=
  entryText.filterMap fun
    | .label l => some l
    | _ => none

/-! ## The machine

Addresses are translated for every access and every fetch, by the page table that CR3 holds at
that time. Where nothing is mapped the machine has no successor state. -/

/-- The state of the machine, but for the place in the text. The two flags are those that the
text tests. -/
structure Machine where
  regs : Reg → BitVec 64
  zf : Bool
  cf : Bool
  cr3 : BitVec 64
  gsBase : BitVec 64
  kernelGsBase : BitVec 64
  /-- physical memory by words -/
  mem : BitVec 64 → BitVec 64
  /-- whether RIP is in the shared mapping -/
  shared : Bool

/-- What the linker and the set-up of the CPU decide. The fields state that the per-CPU
variables are distinct objects in the shared mapping, and that the labels have addresses of
their own, which `movq $1f` and `pushq $1f` sign-extend from 32 bits. -/
structure Layout where
  kpml4 : BitVec 64
  /-- the GS base of the kernel, in the shared mapping -/
  percpu : BitVec 64
  /-- `var` in `%gs:var` -/
  offset : PerCpu → BitVec 64
  /-- what the page table of a user process, by its CR3, maps outside of the shared mapping -/
  user : BitVec 64 → BitVec 64 → Option (BitVec 64)
  /-- the address of the instruction from which on the text is the given one -/
  here : List Instr → BitVec 64
  percpu_shared : ∀ v, entryOffset ≤ percpu + offset v ∧ percpu + offset v < entryOffset + sz4G
  offset_inj : ∀ v v', offset v = offset v' → v = v'
  label_inj : ∀ l l', here (textFrom l) = here (textFrom l') → l = l'
  label_low : ∀ l, (here (textFrom l)).toNat < 2 ^ 31

namespace Machine

variable (L : Layout)

/-- The physical address of a virtual one; `none` is a page fault. The entry of `kpml4` for the
shared mapping is in every page table. -/
def translate (cr3 va : BitVec 64) : Option (BitVec 64) :=
  if entryOffset ≤ va ∧ va < entryOffset + sz4G then some (va - entryOffset)
  else if cr3 = L.kpml4 then if va < sz4G then some va else none
  else L.user cr3 va

/-- The virtual address of an operand: relative to the base of GS, or to the stack pointer. -/
def address (m : Machine) : Operand → BitVec 64
  | .perCpu v => m.gsBase + L.offset v
  | .stack disp => m.regs .rsp + BitVec.ofNat 64 disp

def read (m : Machine) (o : Operand) : Option (BitVec 64) :=
  (translate L m.cr3 (m.address L o)).map m.mem

def write (m : Machine) (o : Operand) (w : BitVec 64) : Option Machine :=
  (translate L m.cr3 (m.address L o)).map fun pa => { m with mem := Function.update m.mem pa w }

def set (m : Machine) (r : Reg) (w : BitVec 64) : Machine :=
  { m with regs := Function.update m.regs r w }

/-- PUSH: the stack pointer goes down by a word, and the operand, which has been read before,
goes there. -/
def push (m : Machine) (w : BitVec 64) : Option Machine :=
  (m.set .rsp (m.regs .rsp - 8)).write L (.stack 0) w

/-- POP: the word at the stack pointer goes to the register; a POP of RSP takes the word. -/
def pop (m : Machine) (r : Reg) : Option Machine :=
  (m.read L (.stack 0)).map fun w => (m.set .rsp (m.regs .rsp + 8)).set r w

/-- The address of a label, in the identity mapping or in the shared one. -/
def labelAddr (shared : Bool) (l : Label) : BitVec 64 :=
  L.here (textFrom l) + if shared then entryOffset else 0

/-- The flags of ADD: whether the sum is zero, and the carry out of bit 63. -/
def addFlags (m : Machine) (x y : BitVec 64) : Machine :=
  { m with zf := x + y = 0, cf := BitVec.carry 64 x y false }

/-- The flags of SUB and CMP: whether the operands are equal, and the borrow. -/
def subFlags (m : Machine) (x y : BitVec 64) : Machine :=
  { m with zf := x = y, cf := x < y }

/-- The flags of TEST and XOR: whether the result is zero, and no carry. -/
def testFlags (m : Machine) (x : BitVec 64) : Machine :=
  { m with zf := x = 0, cf := false }

/-- The instructions that do not jump, in 64-bit mode. Where an access faults there is no machine
afterwards. -/
def exec (m : Machine) : Instr → Option Machine
  | .label _ => some m
  | .swapgs => some { m with gsBase := m.kernelGsBase, kernelGsBase := m.gsBase }
  | .cld => some m
  | .load src dst => (m.read L src).map (m.set dst)
  | .store src dst => m.write L dst (m.regs src)
  | .storeImm w dst => m.write L dst w
  | .mov src dst => some (m.set dst (m.regs src))
  | .movImm w dst => some (m.set dst w)
  | .movLabel shared l dst => some (m.set dst (labelAddr L shared l))
  | .movKpml4 dst => some (m.set dst L.kpml4)
  | .movFromCr3 dst => some (m.set dst m.cr3)
  | .movToCr3 src => some { m with cr3 := m.regs src }
  | .push src => m.push L (m.regs src)
  | .pushImm w => m.push L w
  | .pushMem src => (m.read L src).bind (m.push L)
  | .pushLabel l => m.push L (labelAddr L false l)
  | .pop dst => m.pop L dst
  | .addImm w dst => some ((m.set dst (m.regs dst + w)).addFlags (m.regs dst) w)
  | .subImm w dst => some ((m.set dst (m.regs dst - w)).subFlags (m.regs dst) w)
  | .add src dst =>
    some ((m.set dst (m.regs dst + m.regs src)).addFlags (m.regs dst) (m.regs src))
  | .sub src dst =>
    some ((m.set dst (m.regs dst - m.regs src)).subFlags (m.regs dst) (m.regs src))
  | .cmpImm w r => some (m.subFlags (m.regs r) w)
  | .testb w src => (m.read L src).map fun x => m.testFlags (x &&& w)
  | .testl r => some (m.testFlags (m.regs r &&& 0xffffffff))
  | .xorl r => some ((m.set r 0).testFlags 0)
  | .incl r =>
    let w := ((m.regs r).setWidth 32 + 1).setWidth 64
    some { m.set r w with zf := w = 0 }
  | _ => none

/-- The processor can fetch an instruction of the text: where a user process has its own pages,
it would fetch something else. -/
def canFetch (m : Machine) : Bool := m.shared || m.cr3 = L.kpml4

/-- A jump to an address: the text and the mapping it is in. -/
def jumpTo (m : Machine) (w : BitVec 64) : Option (List Instr × Machine) :=
  match entryLabels.find? fun l => labelAddr L false l = w with
  | some l => some (textFrom l, { m with shared := false })
  | none =>
    match entryLabels.find? fun l => labelAddr L true l = w with
    | some l => some (textFrom l, { m with shared := true })
    | none => none

end Machine

/-- The functions that the text calls, from their entry to behind their `ret`. -/
structure Handlers where
  /-- `syscall_table[]` -/
  syscallTable : BitVec 64 → Machine → Machine
  exception : Exception → Machine → Machine
  apic : ApicSym → Machine → Machine

/-- The function that a `call` calls. -/
def Handlers.callee (H : Handlers) (m : Machine) : Callee → Machine → Machine
  | .syscallTable => H.syscallTable (m.regs .rax)
  | .exception e => H.exception e
  | .apic s => H.apic s

/-- One instruction of the text. SYSRETQ and IRETQ leave it. -/
def entryStep (L : Layout) (H : Handlers) : List Instr × Machine → Option (List Instr × Machine)
  | ([], _) => none
  | (i :: text, m) =>
    if m.canFetch L then
      match i with
      | .jmp l => some (textFrom l, m)
      | .jae l => some (if m.cf then text else textFrom l, m)
      | .jz l => some (if m.zf then textFrom l else text, m)
      | .jnz l => some (if m.zf then text else textFrom l, m)
      | .jmpReg r => m.jumpTo L (m.regs r)
      | .ret => do
        let w ← m.read L (.stack 0)
        (m.set .rsp (m.regs .rsp + 8)).jumpTo L w
      | .call f => do
        let m' ← m.push L (L.here text + if m.shared then entryOffset else 0)
        return (text, H.callee m f m')
      | i => (m.exec L i).map fun m => (text, m)
    else none

/-- The text runs from one state to another, in any number of instructions. A called function
counts as one. -/
def EntryRuns (L : Layout) (H : Handlers) : List Instr × Machine → List Instr × Machine → Prop :=
  Relation.ReflTransGen fun s s' => entryStep L H s = some s'

end Lvisor
