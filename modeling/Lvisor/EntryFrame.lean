import Lvisor.EntryCode
import Lvisor.Lib.Slots
import Lvisor.Lib.Word

/-!
# The entry code on a known stack

The entry code keeps to an area of 23 words of the stack, and to the per-CPU variables. A `View`
is what is known of the machine while it runs: which values are addresses of slots or labels,
and what the slots hold. It runs the text by itself, without addresses or page tables.

* `View.machine` — the machine that a view describes;
* `View.exec_sound`, `View.step_sound` — a step of the view is one of the machine;
* `entryRuns_of_runs` — and so is a run;
* `View.machine_eq` — a view that agrees with a machine describes it;
* `call_runs` — the text goes on after a `call`, with what a function leaves as it was.
-/

namespace Lvisor

/-- What is known of a 64-bit value: that it is some word, or what it is the address of. The base
of the stack area and the layout are not needed for that. -/
inductive Val where
  | word (w : BitVec 64)
  | kpml4
  | percpu
  /-- the address of a slot, in the shared or in the identity mapping -/
  | stack (shared : Bool) (i : ℕ)
  /-- the address of a label -/
  | label (shared : Bool) (l : Label)
  deriving DecidableEq

/-- The words of the stack that the text uses: `struct pt_regs` and two more. -/
abbrev areaWords : ℕ := 23

/-- The physical address of a per-CPU variable. The offset is from the GS base, which is in the
shared mapping. -/
def Layout.cell (L : Layout) (v : PerCpu) : BitVec 64 := L.percpu + L.offset v - entryOffset

/-- A stack area: it is in the first 4 GiB, and holds no per-CPU variable. -/
structure StackArea (L : Layout) where
  base : BitVec 64
  fits : base.toNat + 8 * areaWords ≤ 2 ^ 32
  apart : ∀ v, ∀ i < areaWords, L.cell v ≠ slot base i

/-- The address of a slot, in the shared or in the identity mapping. -/
def StackArea.addr {L : Layout} (F : StackArea L) (shared : Bool) (i : ℕ) : BitVec 64 :=
  slot F.base i + if shared then entryOffset else 0

/-- What is known of the machine while the entry code runs: the registers and the frame by
values, the page table, and in which of the two mappings RIP is. -/
structure View where
  regs : Reg → Val
  zf : Bool
  cf : Bool
  cr3 : Val
  gsBase : Val
  kernelGsBase : Val
  /-- the slots of the stack area -/
  frame : ℕ → Val
  /-- the per-CPU variables -/
  cells : PerCpu → Val
  /-- the other memory -/
  rest : BitVec 64 → BitVec 64
  shared : Bool

section Meaning

variable (L : Layout) (F : StackArea L)

/-- The value. -/
def Val.den : Val → BitVec 64
  | .word w => w
  | .kpml4 => L.kpml4
  | .percpu => L.percpu
  | .stack shared i => F.addr shared i
  | .label shared l => Machine.labelAddr L shared l

/-- Memory with the given values in the per-CPU variables, and as it is anywhere else. -/
def cellMemory (cells : PerCpu → BitVec 64) (m : BitVec 64 → BitVec 64) : BitVec 64 → BitVec 64 :=
  fun a =>
    match [PerCpu.rspScratch, .cr3Scratch, .sp0].find? fun v => L.cell v = a with
    | some v => cells v
    | none => m a

/-- The words of a stack area, from the lowest slot on, as a list that can be written to memory. -/
def areaList (f : ℕ → BitVec 64) : List (BitVec 64) := (List.range areaWords).map f

/-- The machine that a view describes. Its memory is the one that the view carries, with the
slots and the per-CPU variables on top of it. -/
def View.machine (a : View) : Machine where
  regs := Val.den L F ∘ a.regs
  zf := a.zf
  cf := a.cf
  cr3 := a.cr3.den L F
  gsBase := a.gsBase.den L F
  kernelGsBase := a.kernelGsBase.den L F
  mem := withSlots (cellMemory L (Val.den L F ∘ a.cells) a.rest) F.base
    (areaList (Val.den L F ∘ a.frame))
  shared := a.shared

end Meaning

/-! ## Steps of a view

A view executes the instructions of the text on what it knows. It has no answer where the result
is not known, such as for a load from an unknown address, and says nothing of the machine there. -/

/-- The sum with a word, where the result is known: a stack address moves by whole slots, or from
one mapping to the other. -/
def Val.add : Val → BitVec 64 → Option Val
  | .word x, w => some (.word (x + w))
  | .stack false i, w =>
    if w = entryOffset then some (.stack true i)
    else if w.toInt % 8 = 0 ∧ 0 ≤ i + w.toInt / 8 then some (.stack false (i + w.toInt / 8).toNat)
    else none
  | .stack true i, w =>
    if w.toInt % 8 = 0 ∧ 0 ≤ i + w.toInt / 8 then some (.stack true (i + w.toInt / 8).toNat)
    else none
  | _, _ => none

/-- The difference with a word, where the result is known. It is the sum with the negated word,
but for the change of the mapping. -/
def Val.sub : Val → BitVec 64 → Option Val
  | .stack true i, w =>
    if w = entryOffset then some (.stack false i) else Val.add (.stack true i) (-w)
  | v, w => v.add (-w)

namespace View

/-- Whether the mapping is in the page table. The shared one always is, and the identity mapping
only in that of the kernel. -/
def maps (a : View) (shared : Bool) : Bool := shared || a.cr3 = .kpml4

/-- The slot at `disp(%rsp)`, if RSP is in the area, the displacement leads to a slot of it, and
the mapping is there. -/
def slotAt (a : View) (disp : ℕ) : Option ℕ :=
  match a.regs .rsp with
  | .stack shared i =>
    if a.maps shared ∧ disp % 8 = 0 ∧ i + disp / 8 < areaWords then some (i + disp / 8) else none
  | _ => none

/-- The value of an operand in memory, which is a per-CPU variable or a slot. -/
def read (a : View) : Operand → Option Val
  | .perCpu v => if a.gsBase = .percpu then some (a.cells v) else none
  | .stack disp => (a.slotAt disp).map a.frame

/-- The view after a store to an operand in memory. -/
def write (a : View) (o : Operand) (v : Val) : Option View :=
  match o with
  | .perCpu c =>
    if a.gsBase = .percpu then some { a with cells := Function.update a.cells c v } else none
  | .stack disp =>
    (a.slotAt disp).map fun i => { a with frame := Function.update a.frame i v }

/-- The view with another value in a register. -/
def set (a : View) (r : Reg) (v : Val) : View := { a with regs := Function.update a.regs r v }

/-- The view with RSP moved by a word, as it is by a push and by a pop. -/
def moveRsp (a : View) (w : BitVec 64) : Option View := ((a.regs .rsp).add w).map (a.set .rsp)

/-- A push: RSP goes down by a slot, and the value is stored there. -/
def push (a : View) (v : Val) : Option View := (a.moveRsp (-8)).bind fun a => a.write (.stack 0) v

/-- A pop: the value of the slot is taken first, then RSP goes up by a slot. -/
def pop (a : View) (r : Reg) : Option View :=
  (a.read (.stack 0)).bind fun v => (a.moveRsp 8).map fun a => a.set r v

/-- The view with the flags that a computation on the machine leaves. -/
def flagsOf (a : View) (m : Machine) : View := { a with zf := m.zf, cf := m.cf }

variable (L : Layout) (F : StackArea L)

/-- The instructions that do not jump. The flags are those of the machine that the view
describes, since a view has no arithmetic of its own for them. -/
def exec (a : View) : Instr → Option View
  | .label _ => some a
  | .swapgs => some { a with gsBase := a.kernelGsBase, kernelGsBase := a.gsBase }
  | .cld => some a
  | .load src dst => (a.read src).map (a.set dst)
  | .store src dst => a.write dst (a.regs src)
  | .storeImm w dst => a.write dst (.word w)
  | .mov src dst => some (a.set dst (a.regs src))
  | .movImm w dst => some (a.set dst (.word w))
  | .movLabel shared l dst => some (a.set dst (.label shared l))
  | .movKpml4 dst => some (a.set dst .kpml4)
  | .movFromCr3 dst => some (a.set dst a.cr3)
  | .movToCr3 src => some { a with cr3 := a.regs src }
  | .push src => a.push (a.regs src)
  | .pushImm w => a.push (.word w)
  | .pushMem src => (a.read src).bind a.push
  | .pushLabel l => a.push (.label false l)
  | .pop dst => a.pop dst
  | .addImm w dst => ((a.regs dst).add w).map fun v =>
    (a.set dst v).flagsOf ((a.machine L F).addFlags ((a.machine L F).regs dst) w)
  | .subImm w dst => ((a.regs dst).sub w).map fun v =>
    (a.set dst v).flagsOf ((a.machine L F).subFlags ((a.machine L F).regs dst) w)
  | .add src dst =>
    match a.regs src with
    | .word w => ((a.regs dst).add w).map fun v =>
      (a.set dst v).flagsOf ((a.machine L F).addFlags ((a.machine L F).regs dst) w)
    | _ => none
  | .sub src dst =>
    match a.regs src with
    | .word w => ((a.regs dst).sub w).map fun v =>
      (a.set dst v).flagsOf ((a.machine L F).subFlags ((a.machine L F).regs dst) w)
    | _ => none
  | .cmpImm w r =>
    match a.regs r with
    | .word x => some { a with zf := x = w, cf := x < w }
    | _ => none
  | .testb w src =>
    match a.read src with
    | some (.word x) => some { a with zf := x &&& w = 0, cf := false }
    | _ => none
  | .testl r =>
    match a.regs r with
    | .word x => some { a with zf := x &&& 0xffffffff = 0, cf := false }
    | _ => none
  | .xorl r => some { a.set r (.word 0) with zf := true, cf := false }
  | .incl r =>
    match a.regs r with
    | .word x =>
      let w := (x.setWidth 32 + 1).setWidth 64
      some { a.set r (.word w) with zf := w = 0 }
    | _ => none
  | _ => none

/-- A jump to a known address, that is, to a label in one of the two mappings. -/
def jumpTo (a : View) : Val → Option (List Instr × View)
  | .label shared l => some (textFrom l, { a with shared })
  | _ => none

/-- One instruction of the text, but for `call`. The instruction is fetched first, which needs
the mapping that RIP is in. -/
def step : List Instr × View → Option (List Instr × View)
  | ([], _) => none
  | (i :: text, a) =>
    if a.maps a.shared then
      match i with
      | .jmp l => some (textFrom l, a)
      | .jae l => some (if a.cf then text else textFrom l, a)
      | .jz l => some (if a.zf then textFrom l else text, a)
      | .jnz l => some (if a.zf then text else textFrom l, a)
      | .jmpReg r => a.jumpTo (a.regs r)
      | .ret => (a.read (.stack 0)).bind fun v => (a.moveRsp 8).bind fun a => a.jumpTo v
      | i => (a.exec L F i).map fun a => (text, a)
    else none

/-- The text for a number of instructions, as long as the view knows what each of them does. -/
def runs : ℕ → List Instr × View → Option (List Instr × View)
  | 0, s => some s
  | n + 1, s => (step L F s).bind (runs n)

end View

/-! ## What a view says of the machine

Each value of a view denotes a word of the machine: an address in the area of the stack, in the
shared mapping or in the kernel's own, a label in either, or the word itself. -/

section Sound

variable {L : Layout} {F : StackArea L} {a a' : View} {v v' : Val} {o : Operand} {i : ℕ}
  {c : PerCpu} {w pa cr3 : BitVec 64}

theorem translate_shared (h : pa.toNat < 2 ^ 32) :
    Machine.translate L cr3 (pa + entryOffset) = some pa := by
  have hwindow : entryOffset ≤ pa + entryOffset ∧ pa + entryOffset < entryOffset + sz4G := by
    constructor
    · bv_omega
    · bv_omega
  rw [Machine.translate, if_pos hwindow, BitVec.add_sub_cancel]

theorem translate_identity (h : pa.toNat < 2 ^ 32) :
    Machine.translate L L.kpml4 pa = some pa := by
  have hbelow : ¬(entryOffset ≤ pa ∧ pa < entryOffset + sz4G) := by
    rintro ⟨hge, -⟩
    bv_omega
  have hlow : pa < sz4G := by bv_omega
  rw [Machine.translate, if_neg hbelow, if_pos rfl, if_pos hlow]

theorem toNat_slot_lt (F : StackArea L) (hi : i < areaWords) :
    (slot F.base i).toNat < 2 ^ 32 := by
  have hfits : F.base.toNat + 8 * 23 ≤ 2 ^ 32 := F.fits
  have hi' : i < 23 := hi
  rw [slot, toNat_add_ofNat (by omega)]
  omega

theorem den_stack_false : (Val.stack false i).den L F = slot F.base i :=
  BitVec.add_zero _

theorem den_stack_true : (Val.stack true i).den L F = slot F.base i + entryOffset :=
  rfl

/-- An address of a slot is mapped where the view says so. -/
theorem translate_stack {shared : Bool} (hmaps : a.maps shared = true) (hi : i < areaWords) :
    Machine.translate L (a.machine L F).cr3 ((Val.stack shared i).den L F) =
      some (slot F.base i) := by
  cases shared with
  | true => exact translate_shared (toNat_slot_lt F hi)
  | false =>
    have hcr3 : (a.machine L F).cr3 = L.kpml4 :=
      congrArg (Val.den L F) (of_decide_eq_true hmaps : a.cr3 = .kpml4)
    rw [hcr3, den_stack_false]
    exact translate_identity (toNat_slot_lt F hi)

theorem slotAt_sound {disp : ℕ} (h : a.slotAt disp = some i) :
    i < areaWords ∧
      Machine.translate L (a.machine L F).cr3 ((a.machine L F).address L (.stack disp)) =
        some (slot F.base i) := by
  unfold View.slotAt at h
  split at h
  · rename_i shared j hrsp
    split at h
    · rename_i hcond
      obtain ⟨hmaps, hmod, hlt⟩ := hcond
      obtain rfl := Option.some.inj h
      have haddr : (a.machine L F).address L (.stack disp) =
          (Val.stack shared (j + disp / 8)).den L F := by
        have hdisp : 8 * (disp / 8) = disp := by omega
        have hreg : (a.machine L F).regs .rsp = (Val.stack shared j).den L F :=
          congrArg (Val.den L F) hrsp
        rw [Machine.address, hreg, Val.den, Val.den, StackArea.addr, StackArea.addr, ← slot_add,
          hdisp, BitVec.add_assoc, BitVec.add_comm _ (BitVec.ofNat 64 disp), ← BitVec.add_assoc]
      rw [haddr]
      exact ⟨hlt, translate_stack hmaps hlt⟩
    · cases h
  · cases h

theorem translate_cell (hgs : a.gsBase = .percpu) :
    Machine.translate L (a.machine L F).cr3 ((a.machine L F).address L (.perCpu c)) =
      some (L.cell c) := by
  have haddr : (a.machine L F).address L (.perCpu c) = L.percpu + L.offset c := by
    rw [Machine.address, View.machine, hgs]
    rfl
  rw [haddr, Machine.translate, if_pos (L.percpu_shared c), Layout.cell]

/-! ## Memory

The memory of a view is that of a machine with the slots of the area and the per-CPU variables
written over it. These do not overlap, so that a store to one of them is an update of the view. -/

theorem cell_eq_iff {c' : PerCpu} : L.cell c = L.cell c' ↔ c = c' := by
  constructor
  · intro h
    refine L.offset_inj c c' ?_
    rw [Layout.cell, Layout.cell] at h
    bv_omega
  · rintro rfl
    rfl

theorem cellMemory_cell (f : PerCpu → BitVec 64) (m : BitVec 64 → BitVec 64) :
    cellMemory L f m (L.cell c) = f c := by
  have hfind : ([PerCpu.rspScratch, .cr3Scratch, .sp0].find? fun v => L.cell v = L.cell c) =
      some c := by
    cases c <;> simp [cell_eq_iff]
  rw [cellMemory, hfind]

theorem cellMemory_of_not {f : PerCpu → BitVec 64} {m : BitVec 64 → BitVec 64}
    (h : ∀ c, pa ≠ L.cell c) : cellMemory L f m pa = m pa := by
  have hfind : ([PerCpu.rspScratch, .cr3Scratch, .sp0].find? fun v => L.cell v = pa) = none := by
    simp [(h _).symm]
  rw [cellMemory, hfind]

/-- A store to a per-CPU variable is an update of its value. -/
theorem update_cellMemory (f : PerCpu → BitVec 64) (m : BitVec 64 → BitVec 64) :
    Function.update (cellMemory L f m) (L.cell c) w = cellMemory L (Function.update f c w) m := by
  funext x
  by_cases hx : ∃ c', x = L.cell c'
  · obtain ⟨c', rfl⟩ := hx
    rw [cellMemory_cell]
    by_cases hc : c' = c
    · subst hc
      rw [Function.update_self, Function.update_self]
    · rw [Function.update_of_ne fun heq => hc (cell_eq_iff.mp heq), Function.update_of_ne hc,
        cellMemory_cell]
  · have hall : ∀ c', x ≠ L.cell c' := fun c' heq => hx ⟨c', heq⟩
    rw [Function.update_of_ne (hall c), cellMemory_of_not hall, cellMemory_of_not hall]

theorem length_areaList (f : ℕ → BitVec 64) : (areaList f).length = areaWords := by
  rw [areaList, List.length_map, List.length_range]

theorem areaList_fits (f : ℕ → BitVec 64) : 8 * (areaList f).length ≤ 2 ^ 64 := by
  rw [length_areaList]
  decide

theorem cell_not_slot (F : StackArea L) (f : ℕ → BitVec 64) :
    ∀ i < (areaList f).length, L.cell c ≠ slot F.base i := by
  rw [length_areaList]
  exact F.apart c

theorem machine_mem : (a.machine L F).mem =
    withSlots (cellMemory L (Val.den L F ∘ a.cells) a.rest) F.base
      (areaList (Val.den L F ∘ a.frame)) :=
  rfl

/-- A store in a slot is an update of the list of the words. -/
theorem set_areaList (f : ℕ → BitVec 64) :
    (areaList f).set i w = areaList (Function.update f i w) := by
  refine List.ext_getElem (by rw [List.length_set, length_areaList, length_areaList]) ?_
  intro j hj hj'
  rw [List.getElem_set]
  simp only [areaList, List.getElem_map, List.getElem_range, Function.update_apply, eq_comm]

theorem machine_slot (hi : i < areaWords) :
    (a.machine L F).mem (slot F.base i) = (a.frame i).den L F := by
  have hi' : i < (areaList (Val.den L F ∘ a.frame)).length := by rwa [length_areaList]
  rw [machine_mem, withSlots_slot (areaList_fits _) hi']
  simp only [areaList, List.getElem_map, List.getElem_range, Function.comp_apply]

theorem machine_cell : (a.machine L F).mem (L.cell c) = (a.cells c).den L F := by
  rw [machine_mem, withSlots_of_not (cell_not_slot F _), cellMemory_cell]
  rfl

theorem update_machine_slot (hi : i < areaWords) :
    { a.machine L F with
        mem := Function.update (a.machine L F).mem (slot F.base i) (v.den L F) } =
      ({ a with frame := Function.update a.frame i v } : View).machine L F := by
  have hi' : i < (areaList (Val.den L F ∘ a.frame)).length := by rwa [length_areaList]
  simp only [View.machine, Function.comp_update]
  rw [update_withSlots (areaList_fits _) hi', set_areaList]

theorem update_machine_cell :
    { a.machine L F with
        mem := Function.update (a.machine L F).mem (L.cell c) (v.den L F) } =
      ({ a with cells := Function.update a.cells c v } : View).machine L F := by
  simp only [View.machine, Function.comp_update]
  rw [update_withSlots_of_not (areaList_fits _) (cell_not_slot F _), update_cellMemory]

theorem read_sound (h : a.read o = some v) :
    (a.machine L F).read L o = some (v.den L F) := by
  cases o with
  | perCpu c =>
    rw [View.read] at h
    split at h
    · rename_i hgs
      obtain rfl := Option.some.inj h
      rw [Machine.read, translate_cell hgs, Option.map_some, machine_cell]
    · cases h
  | stack disp =>
    obtain ⟨i, hslot, rfl⟩ := Option.map_eq_some_iff.mp h
    obtain ⟨hi, htrans⟩ := slotAt_sound hslot
    rw [Machine.read, htrans, Option.map_some, machine_slot hi]

theorem write_sound (h : a.write o v = some a') :
    (a.machine L F).write L o (v.den L F) = some (a'.machine L F) := by
  cases o with
  | perCpu c =>
    rw [View.write] at h
    split at h
    · rename_i hgs
      obtain rfl := Option.some.inj h
      rw [Machine.write, translate_cell hgs, Option.map_some, update_machine_cell]
    · cases h
  | stack disp =>
    obtain ⟨i, hslot, rfl⟩ := Option.map_eq_some_iff.mp h
    obtain ⟨hi, htrans⟩ := slotAt_sound hslot
    rw [Machine.write, htrans, Option.map_some, update_machine_slot hi]

theorem set_machine (a : View) (r : Reg) (v : Val) :
    (a.set r v).machine L F = (a.machine L F).set r (v.den L F) := by
  rw [View.set, View.machine, Function.comp_update]
  rfl

/-! ## Arithmetic -/

theorem slot_add_word {j : ℕ} (h : (8 * j : ℤ) = 8 * i + w.toInt) :
    slot F.base i + w = slot F.base j := by
  have hw : w = BitVec.ofInt 64 (8 * j - 8 * i) := by
    rw [show (8 * j - 8 * i : ℤ) = w.toInt by omega, BitVec.ofInt_toInt]
  have hj : BitVec.ofNat 64 (8 * j) = BitVec.ofInt 64 (8 * j) := (BitVec.ofInt_natCast 64 _).symm
  have hi : BitVec.ofNat 64 (8 * i) = BitVec.ofInt 64 (8 * i) := (BitVec.ofInt_natCast 64 _).symm
  rw [slot, slot, hw, hj, hi, BitVec.add_assoc, ← BitVec.ofInt_add]
  congr 2
  omega

/-- A stack pointer that is moved by a word: the address of the slot that it denotes moves by the
same word. -/
theorem stack_add_sound {shared : Bool}
    (h : w.toInt % 8 = 0 ∧ 0 ≤ i + w.toInt / 8) :
    (Val.stack shared (i + w.toInt / 8).toNat).den L F = (Val.stack shared i).den L F + w := by
  have hslot : slot F.base i + w = slot F.base (i + w.toInt / 8).toNat :=
    slot_add_word (by omega)
  rw [Val.den, Val.den, StackArea.addr, StackArea.addr, ← hslot, BitVec.add_assoc,
    BitVec.add_assoc, BitVec.add_comm w]

theorem add_sound (h : v.add w = some v') : v'.den L F = v.den L F + w := by
  cases v with
  | word x =>
    obtain rfl := Option.some.inj h
    rfl
  | stack shared i =>
    cases shared with
    | true =>
      rw [Val.add] at h
      split at h
      · rename_i hw
        obtain rfl := Option.some.inj h
        exact stack_add_sound hw
      · cases h
    | false =>
      rw [Val.add] at h
      split at h
      · rename_i hw
        obtain rfl := Option.some.inj h
        rw [hw, den_stack_true, den_stack_false]
      · split at h
        · rename_i hw
          obtain rfl := Option.some.inj h
          exact stack_add_sound hw
        · cases h
  | _ => cases h

theorem sub_sound (h : v.sub w = some v') : v'.den L F = v.den L F - w := by
  have hneg : ∀ v₁ : Val, v₁.add (-w) = some v' → v'.den L F = v₁.den L F - w := fun v₁ hadd => by
    rw [add_sound hadd, BitVec.sub_eq_add_neg]
  cases v with
  | stack shared i =>
    cases shared with
    | true =>
      rw [Val.sub] at h
      split at h
      · rename_i hw
        obtain rfl := Option.some.inj h
        rw [hw, den_stack_true, den_stack_false, BitVec.add_sub_cancel]
      · exact hneg _ h
    | false => exact hneg _ h
  | _ => exact hneg _ h

/-! ## Instructions

One lemma for each kind of instruction that does more than set a register, and then all of them
together. The flags of a view are those that the machine computes. -/

theorem moveRsp_sound (h : a.moveRsp w = some a') :
    a'.machine L F = (a.machine L F).set .rsp ((a.machine L F).regs .rsp + w) := by
  obtain ⟨v, hadd, rfl⟩ := Option.map_eq_some_iff.mp h
  rw [set_machine, add_sound hadd]
  rfl

theorem push_sound (h : a.push v = some a') :
    (a.machine L F).push L (v.den L F) = some (a'.machine L F) := by
  obtain ⟨a₁, hmove, hwrite⟩ := Option.bind_eq_some_iff.mp h
  have hrsp : (a.machine L F).regs .rsp - 8 = (a.machine L F).regs .rsp + -8 :=
    BitVec.sub_eq_add_neg _ _
  rw [Machine.push, hrsp, ← moveRsp_sound hmove]
  exact write_sound hwrite

theorem pop_sound {r : Reg} (h : a.pop r = some a') :
    (a.machine L F).pop L r = some (a'.machine L F) := by
  obtain ⟨v, hread, hrest⟩ := Option.bind_eq_some_iff.mp h
  obtain ⟨a₁, hmove, rfl⟩ := Option.map_eq_some_iff.mp hrest
  rw [Machine.pop, read_sound hread, Option.map_some, ← moveRsp_sound hmove, set_machine]

theorem flagsOf_machine (a : View) (m : Machine) :
    (a.flagsOf m).machine L F = { a.machine L F with zf := m.zf, cf := m.cf } :=
  rfl

/-- A sum that goes to a register, with the flags that come of it. -/
theorem setSum_sound {dst : Reg} (h : ((a.regs dst).add w).map (fun v =>
      (a.set dst v).flagsOf ((a.machine L F).addFlags ((a.machine L F).regs dst) w)) = some a') :
    some (((a.machine L F).set dst ((a.machine L F).regs dst + w)).addFlags
      ((a.machine L F).regs dst) w) = some (a'.machine L F) := by
  obtain ⟨v, hadd, rfl⟩ := Option.map_eq_some_iff.mp h
  rw [flagsOf_machine, set_machine, add_sound hadd]
  rfl

/-- A difference that goes to a register, with the flags that come of it. -/
theorem setDifference_sound {dst : Reg} (h : ((a.regs dst).sub w).map (fun v =>
      (a.set dst v).flagsOf ((a.machine L F).subFlags ((a.machine L F).regs dst) w)) = some a') :
    some (((a.machine L F).set dst ((a.machine L F).regs dst - w)).subFlags
      ((a.machine L F).regs dst) w) = some (a'.machine L F) := by
  obtain ⟨v, hsub, rfl⟩ := Option.map_eq_some_iff.mp h
  rw [flagsOf_machine, set_machine, sub_sound hsub]
  rfl

/-- A register that holds a word in the view holds it in the machine. -/
theorem regs_of_word {r : Reg} (h : a.regs r = .word w) : (a.machine L F).regs r = w :=
  congrArg (Val.den L F) h

theorem exec_add_sound {src dst : Reg} (h : a.exec L F (.add src dst) = some a') :
    (a.machine L F).exec L (.add src dst) = some (a'.machine L F) := by
  rw [View.exec] at h
  split at h
  · rename_i w hsrc
    rw [Machine.exec, regs_of_word hsrc]
    exact setSum_sound h
  · cases h

theorem exec_sub_sound {src dst : Reg} (h : a.exec L F (.sub src dst) = some a') :
    (a.machine L F).exec L (.sub src dst) = some (a'.machine L F) := by
  rw [View.exec] at h
  split at h
  · rename_i w hsrc
    rw [Machine.exec, regs_of_word hsrc]
    exact setDifference_sound h
  · cases h

theorem exec_cmpImm_sound {r : Reg} (h : a.exec L F (.cmpImm w r) = some a') :
    (a.machine L F).exec L (.cmpImm w r) = some (a'.machine L F) := by
  rw [View.exec] at h
  split at h
  · rename_i x hr
    obtain rfl := Option.some.inj h
    rw [Machine.exec, regs_of_word hr]
    rfl
  · cases h

theorem exec_testb_sound {src : Operand} (h : a.exec L F (.testb w src) = some a') :
    (a.machine L F).exec L (.testb w src) = some (a'.machine L F) := by
  rw [View.exec] at h
  split at h
  · rename_i x hread
    obtain rfl := Option.some.inj h
    rw [Machine.exec, read_sound hread]
    rfl
  · cases h

theorem exec_testl_sound {r : Reg} (h : a.exec L F (.testl r) = some a') :
    (a.machine L F).exec L (.testl r) = some (a'.machine L F) := by
  rw [View.exec] at h
  split at h
  · rename_i x hr
    obtain rfl := Option.some.inj h
    rw [Machine.exec, regs_of_word hr]
    rfl
  · cases h

theorem exec_incl_sound {r : Reg} (h : a.exec L F (.incl r) = some a') :
    (a.machine L F).exec L (.incl r) = some (a'.machine L F) := by
  rw [View.exec] at h
  split at h
  · rename_i x hr
    obtain rfl := Option.some.inj h
    have hset := set_machine (L := L) (F := F) a r (.word ((x.setWidth 32 + 1).setWidth 64))
    rw [Machine.exec, regs_of_word hr]
    dsimp only
    exact congrArg (fun m => some { m with zf := (x.setWidth 32 + 1).setWidth 64 = 0#64 })
      hset.symm
  · cases h

/-- What an instruction leaves in a register, for those that do nothing else. -/
theorem set_sound {r : Reg} {v : Val} (h : some (a.set r v) = some a') :
    some ((a.machine L F).set r (v.den L F)) = some (a'.machine L F) := by
  obtain rfl := Option.some.inj h
  rw [set_machine]

/-- **Instruction**: what the view does, the machine does. The cases are those of the
instructions; where the view has no answer there is nothing to prove. -/
theorem View.exec_sound {ins : Instr} (h : a.exec L F ins = some a') :
    (a.machine L F).exec L ins = some (a'.machine L F) := by
  cases ins with
  | label l =>
    obtain rfl := Option.some.inj h
    rfl
  | swapgs =>
    obtain rfl := Option.some.inj h
    rfl
  | cld =>
    obtain rfl := Option.some.inj h
    rfl
  | load src dst =>
    obtain ⟨v, hread, rfl⟩ := Option.map_eq_some_iff.mp h
    rw [Machine.exec, read_sound hread, Option.map_some, set_machine]
  | store src dst => exact write_sound h
  | storeImm w dst => exact write_sound (v := .word w) h
  | mov src dst => exact set_sound h
  | movImm w dst => exact set_sound (v := .word w) h
  | movLabel shared l dst => exact set_sound (v := .label shared l) h
  | movKpml4 dst => exact set_sound (v := .kpml4) h
  | movFromCr3 dst => exact set_sound h
  | movToCr3 src =>
    obtain rfl := Option.some.inj h
    rfl
  | push src => exact push_sound h
  | pushImm w => exact push_sound (v := .word w) h
  | pushMem src =>
    obtain ⟨v, hread, hpush⟩ := Option.bind_eq_some_iff.mp h
    rw [Machine.exec, read_sound hread, Option.bind_some]
    exact push_sound hpush
  | pushLabel l => exact push_sound (v := .label false l) h
  | pop dst => exact pop_sound h
  | addImm w dst => exact setSum_sound h
  | subImm w dst => exact setDifference_sound h
  | add src dst => exact exec_add_sound h
  | sub src dst => exact exec_sub_sound h
  | cmpImm w r => exact exec_cmpImm_sound h
  | testb w src => exact exec_testb_sound h
  | testl r => exact exec_testl_sound h
  | xorl r =>
    obtain rfl := Option.some.inj h
    exact congrArg (fun m => some (m.testFlags 0)) (set_machine a r (.word 0)).symm
  | incl r => exact exec_incl_sound h
  | _ => cases h

/-! ## Jumps

The addresses of labels are different from one another, in either mapping, so that a jump through
a register finds the place in the text whose address it holds. -/

theorem mem_entryLabels (l : Label) : l ∈ entryLabels := by
  cases l with
  | apic s => cases s <;> decide +kernel
  | spin s => cases s <;> decide +kernel
  | idt e => cases e <;> decide +kernel
  | errorReturn e => cases e <;> decide +kernel
  | toKernel s =>
    cases s with
    | interrupt s => cases s <;> decide +kernel
    | _ => decide +kernel
  | toUser s => cases s <;> decide +kernel
  | _ => decide +kernel

theorem labelAddr_inj {l l' : Label} {shared shared' : Bool}
    (h : Machine.labelAddr L shared l = Machine.labelAddr L shared' l') :
    l = l' ∧ shared = shared' := by
  have hlow := L.label_low l
  have hlow' := L.label_low l'
  have hinj := L.label_inj l l'
  unfold Machine.labelAddr at h
  generalize L.here (textFrom l) = x at *
  generalize L.here (textFrom l') = y at *
  cases shared <;> cases shared'
  · simp only [Bool.false_eq_true, if_false] at h
    exact ⟨hinj (by bv_omega), rfl⟩
  · simp only [Bool.false_eq_true, if_false, if_true] at h
    bv_omega
  · simp only [Bool.false_eq_true, if_false, if_true] at h
    bv_omega
  · simp only [if_true] at h
    exact ⟨hinj (by bv_omega), rfl⟩

theorem find_label (l : Label) (shared : Bool) :
    (entryLabels.find? fun l' => Machine.labelAddr L shared l' = Machine.labelAddr L shared l) =
      some l := by
  rcases hfind : entryLabels.find? fun l' =>
      Machine.labelAddr L shared l' = Machine.labelAddr L shared l with _ | l'
  · have hnone := List.find?_eq_none.mp hfind l (mem_entryLabels l)
    exact absurd (decide_eq_true rfl) hnone
  · have heq := List.find?_some hfind
    rw [(labelAddr_inj (of_decide_eq_true heq)).1]

/-- A jump to the address of a label goes to the text behind that label, and to no other place
that may have the same address. -/
theorem jumpTo_label (m : Machine) (l : Label) (shared : Bool) :
    m.jumpTo L (Machine.labelAddr L shared l) = some (textFrom l, { m with shared }) := by
  have hfind := find_label (L := L) l shared
  unfold Machine.jumpTo
  cases shared with
  | false =>
    generalize entryLabels.find? _ = o at hfind ⊢
    subst hfind
    rfl
  | true =>
    -- no label has this address in the identity mapping
    have hnone : (entryLabels.find? fun l' =>
        Machine.labelAddr L false l' = Machine.labelAddr L true l) = none :=
      List.find?_eq_none.mpr fun l' _ heq =>
        absurd (labelAddr_inj (of_decide_eq_true heq)).2 (by decide)
    generalize (entryLabels.find? fun l' =>
        Machine.labelAddr L false l' = Machine.labelAddr L true l) = o at hnone ⊢
    generalize entryLabels.find? _ = o' at hfind ⊢
    subst hnone hfind
    rfl

theorem View.jumpTo_sound {s' : List Instr × View} (h : a.jumpTo v = some s') :
    (a.machine L F).jumpTo L (v.den L F) = some (s'.1, s'.2.machine L F) := by
  cases v with
  | label shared l =>
    obtain rfl := Option.some.inj h
    exact jumpTo_label _ _ _
  | _ => cases h

theorem View.canFetch_of_maps (h : a.maps a.shared = true) :
    (a.machine L F).canFetch L = true := by
  rw [View.maps, Bool.or_eq_true] at h
  rw [Machine.canFetch, Bool.or_eq_true]
  refine h.imp_right fun hcr3 => decide_eq_true ?_
  exact congrArg (Val.den L F) (of_decide_eq_true hcr3 : a.cr3 = .kpml4)

/-- **Step**: what the view does, the machine does, jumps and returns included. -/
theorem View.step_sound {H : Handlers} {s s' : List Instr × View} (h : View.step L F s = some s') :
    entryStep L H (s.1, s.2.machine L F) = some (s'.1, s'.2.machine L F) := by
  obtain ⟨text, a⟩ := s
  cases text with
  | nil => cases h
  | cons ins text =>
    unfold View.step at h
    unfold entryStep
    dsimp only at h ⊢
    by_cases hmaps : a.maps a.shared = true
    · rw [if_pos hmaps] at h
      rw [if_pos (canFetch_of_maps hmaps)]
      have hexec : ∀ ins, (a.exec L F ins).map (fun a => (text, a)) = some s' →
          ((a.machine L F).exec L ins).map (fun m => (text, m)) =
            some (s'.1, s'.2.machine L F) := by
        intro ins h
        obtain ⟨a', hexec, rfl⟩ := Option.map_eq_some_iff.mp h
        rw [exec_sound hexec, Option.map_some]
      cases ins with
      | jmp l =>
        obtain rfl := Option.some.inj h
        rfl
      | jae l =>
        obtain rfl := Option.some.inj h
        rfl
      | jz l =>
        obtain rfl := Option.some.inj h
        rfl
      | jnz l =>
        obtain rfl := Option.some.inj h
        rfl
      | jmpReg r => exact jumpTo_sound h
      | ret =>
        obtain ⟨v, hread, hrest⟩ := Option.bind_eq_some_iff.mp h
        obtain ⟨a₁, hmove, hjump⟩ := Option.bind_eq_some_iff.mp hrest
        have hjump' := jumpTo_sound (L := L) (F := F) hjump
        rw [moveRsp_sound hmove] at hjump'
        dsimp only
        rw [read_sound hread]
        exact hjump'
      | call f => cases h
      | _ => exact hexec _ h
    · rw [if_neg hmaps] at h
      cases h

/-- **Run**: what the view does in a number of steps, the machine does. -/
theorem entryRuns_of_runs {H : Handlers} {n : ℕ} {s s' : List Instr × View}
    (h : View.runs L F n s = some s') :
    EntryRuns L H (s.1, s.2.machine L F) (s'.1, s'.2.machine L F) := by
  induction n generalizing s with
  | zero =>
    obtain rfl := Option.some.inj h
    exact .refl
  | succ n ih =>
    obtain ⟨s₁, hstep, hrest⟩ := Option.bind_eq_some_iff.mp h
    exact .head (View.step_sound hstep) (ih hrest)

/-! ## Runs that end

The step relation is a function but for the calls. Where it has no successor a run is stuck, and
nothing that lies behind it is reached. -/

/-- The run stops where the text cannot be fetched: the next instruction faults. -/
theorem entryStep_of_not_canFetch {H : Handlers} {m : Machine} (text : List Instr)
    (h : m.canFetch L = false) : entryStep L H (text, m) = none := by
  cases text with
  | nil => rfl
  | cons ins text =>
    unfold entryStep
    dsimp only
    rw [h]
    rfl

/-- A run that stops reaches no other end: the machine is deterministic. -/
theorem entryRuns_stuck {H : Handlers} {s t u : List Instr × Machine} (ht : EntryRuns L H s t)
    (hstuck : entryStep L H t = none) (hu : EntryRuns L H s u) : EntryRuns L H u t := by
  have hunique : Relator.RightUnique fun s s' => entryStep L H s = some s' :=
    fun _ _ _ h h' => Option.some.inj (h.symm.trans h')
  rcases Relation.ReflTransGen.total_of_right_unique hunique ht hu with h | h
  · rcases h.cases_head with rfl | ⟨_, hstep, -⟩
    · exact .refl
    · cases hstuck.symm.trans hstep
  · exact h

/-- SYSRETQ and IRETQ are the ends of the text, so that a run which stops before does not reach
them. -/
theorem not_entryRuns_of_stuck {H : Handlers} {s t : List Instr × Machine} {ins : Instr}
    {m : Machine} (hins : ∀ m, entryStep L H ([ins], m) = none) (ht : EntryRuns L H s t)
    (hstuck : entryStep L H t = none) (hne : t.1 ≠ [ins]) : ¬EntryRuns L H s ([ins], m) := by
  intro hu
  rcases (entryRuns_stuck ht hstuck hu).cases_head with rfl | ⟨_, hstep, -⟩
  · exact hne rfl
  · cases (hins m).symm.trans hstep

theorem entryStep_sysretq {H : Handlers} (m : Machine) :
    entryStep L H ([.sysretq], m) = none := by
  unfold entryStep
  dsimp only
  split <;> rfl

theorem entryStep_iretq {H : Handlers} (m : Machine) : entryStep L H ([.iretq], m) = none := by
  unfold entryStep
  dsimp only
  split <;> rfl

/-! ## Views of a machine -/

/-- A view that agrees with a machine, in the registers, the slots and the per-CPU variables,
describes it. -/
theorem View.machine_eq {m : Machine} (hregs : ∀ r, (a.regs r).den L F = m.regs r)
    (hzf : a.zf = m.zf) (hcf : a.cf = m.cf) (hcr3 : a.cr3.den L F = m.cr3)
    (hgs : a.gsBase.den L F = m.gsBase) (hkgs : a.kernelGsBase.den L F = m.kernelGsBase)
    (hframe : ∀ i < areaWords, (a.frame i).den L F = m.mem (slot F.base i))
    (hcells : ∀ c, (a.cells c).den L F = m.mem (L.cell c)) (hrest : a.rest = m.mem)
    (hshared : a.shared = m.shared) : a.machine L F = m := by
  have hcell : cellMemory L (Val.den L F ∘ a.cells) a.rest = m.mem := by
    funext x
    by_cases hx : ∃ c, x = L.cell c
    · obtain ⟨c, rfl⟩ := hx
      rw [cellMemory_cell, Function.comp_apply, hcells]
    · rw [cellMemory_of_not fun c heq => hx ⟨c, heq⟩, hrest]
  have hslots : areaList (Val.den L F ∘ a.frame) = slotWords m.mem F.base areaWords :=
    List.map_congr_left fun i hi => hframe i (List.mem_range.mp hi)
  have hregs' : Val.den L F ∘ a.regs = m.regs := funext hregs
  rw [View.machine, hcell, hslots, withSlots_slots _ _ (by decide), hzf, hcf, hcr3, hgs, hkgs,
    hshared, hregs']

/-! ## Calls

What a C function may do to the machine, by the calling convention: it returns with the registers
that it must preserve and with the frame above it unchanged, and with everything else as it
likes. -/

/-- The registers that a function preserves by the calling convention. -/
def calleeSaved : List Reg := [.rbx, .rbp, .r12, .r13, .r14, .r15]

/-- What a function leaves as it was, when it has returned: by the C ABI the callee-saved
registers, the stack pointer and the frame of its caller, and beyond it the state that the entry
code keeps for itself. -/
structure Returned (F : StackArea L) (m m' : Machine) : Prop where
  saved : ∀ r ∈ calleeSaved, m'.regs r = m.regs r
  rsp : m'.regs .rsp = m.regs .rsp + 8
  frame : ∀ i, 1 ≤ i → i < areaWords → m'.mem (slot F.base i) = m.mem (slot F.base i)
  scratch : ∀ c, c ≠ .sp0 → m'.mem (L.cell c) = m.mem (L.cell c)
  cr3 : m'.cr3 = m.cr3
  gsBase : m'.gsBase = m.gsBase
  kernelGsBase : m'.kernelGsBase = m.kernelGsBase
  shared : m'.shared = m.shared

/-- A function that returns so, when the entry code calls it: in the kernel address space, with
the return address in the lowest slot of the area. -/
def Conforms (F : StackArea L) (f : Machine → Machine) : Prop :=
  ∀ m shared, m.cr3 = L.kpml4 → m.shared = false → m.regs .rsp = F.addr shared 0 →
    Returned F m (f m)

/-- The view at the entry of a function, with its return address. -/
def View.called (a : View) (shared : Bool) (w : BitVec 64) : View :=
  { a with
    regs := Function.update a.regs .rsp (.stack shared 0)
    frame := Function.update a.frame 0 (.word w) }

variable (L F) in
/-- The view when the function has returned with the machine `m`: what the function may change is
whatever it has there, and the rest is as it was at the call. -/
def View.returned (a : View) (m : Machine) : View where
  regs r := if r ∈ calleeSaved ∨ r = .rsp then a.regs r else .word (m.regs r)
  zf := m.zf
  cf := m.cf
  cr3 := a.cr3
  gsBase := a.gsBase
  kernelGsBase := a.kernelGsBase
  frame i := if i = 0 then .word (m.mem (slot F.base 0)) else a.frame i
  cells c := if c = .sp0 then .word (m.mem (L.cell .sp0)) else a.cells c
  rest := m.mem
  shared := a.shared

theorem called_rsp (a : View) (shared : Bool) :
    ((a.called shared w).machine L F).regs .rsp = F.addr shared 0 :=
  rfl

theorem called_regs (a : View) (shared : Bool) {r : Reg} (hr : r ≠ .rsp) :
    ((a.called shared w).machine L F).regs r = (a.regs r).den L F := by
  have hother : (a.called shared w).regs r = a.regs r := Function.update_of_ne hr _ _
  exact congrArg (Val.den L F) hother

theorem View.push_eq_called {shared : Bool} (hrsp : a.regs .rsp = .stack shared 1)
    (hmaps : a.maps shared = true) : a.push (.word w) = some (a.called shared w) := by
  have hmove : a.moveRsp (-8) = some (a.set .rsp (.stack shared 0)) := by
    rw [View.moveRsp, hrsp]
    cases shared with
    | true => rfl
    | false => rfl
  have hslot : (a.set .rsp (.stack shared 0)).slotAt 0 = some 0 :=
    if_pos ⟨hmaps, rfl, by decide⟩
  rw [View.push, hmove, Option.bind_some, View.write, hslot]
  rfl

theorem View.returned_machine {shared : Bool} {m : Machine}
    (hrsp : a.regs .rsp = .stack shared 1)
    (hret : Returned F ((a.called shared w).machine L F) m) :
    (a.returned L F m).machine L F = m := by
  refine View.machine_eq (fun r => ?_) rfl rfl hret.cr3.symm hret.gsBase.symm
    hret.kernelGsBase.symm (fun i hi => ?_) (fun c => ?_) rfl hret.shared.symm
  · rw [View.returned]
    dsimp only
    split
    · rename_i hr
      rcases hr with hr | rfl
      · have hne : r ≠ .rsp := by
          rintro rfl
          exact absurd hr (by decide)
        rw [hret.saved r hr, called_regs a shared hne]
      · have hnext : (Val.stack shared 1).den L F = F.addr shared 0 + 8 :=
          stack_add_sound (i := 0) (w := 8) (by decide)
        rw [hret.rsp, called_rsp, hrsp, hnext]
    · rfl
  · rw [View.returned]
    dsimp only
    split
    · rename_i hi0
      rw [hi0]
      rfl
    · rename_i hi0
      rw [hret.frame i (Nat.one_le_iff_ne_zero.mpr hi0) hi, machine_slot hi]
      have hother : (a.called shared w).frame i = a.frame i := Function.update_of_ne hi0 _ _
      exact (congrArg (Val.den L F) hother).symm
  · rw [View.returned]
    dsimp only
    split
    · rename_i hc
      rw [hc]
      rfl
    · rename_i hc
      rw [hret.scratch c hc, machine_cell]
      rfl

/-- **Call**: the text goes on with the view of what the function has returned with. -/
theorem call_runs {H : Handlers} {f : Callee} {shared : Bool} (text : List Instr)
    (hrsp : a.regs .rsp = .stack shared 1) (hcr3 : a.cr3 = .kpml4) (hshared : a.shared = false)
    (hconf : Conforms F (H.callee (a.machine L F) f)) :
    ∃ m, H.callee (a.machine L F) f ((a.called shared (L.here text)).machine L F) = m ∧
      entryStep L H (.call f :: text, a.machine L F) = some (text, m) ∧
        (a.returned L F m).machine L F = m := by
  have hmaps : ∀ shared, a.maps shared = true := fun shared => by
    rw [View.maps, hcr3, decide_eq_true rfl, Bool.or_true]
  have hret := hconf ((a.called shared (L.here text)).machine L F) shared
    (congrArg (Val.den L F) hcr3) hshared (called_rsp a shared)
  have hpush := push_sound (L := L) (F := F) (View.push_eq_called (w := L.here text) hrsp (hmaps _))
  refine ⟨_, rfl, ?_, View.returned_machine hrsp hret⟩
  have hadd : (L.here text + if (a.machine L F).shared = true then entryOffset else 0) =
      L.here text := by
    rw [show (a.machine L F).shared = false from hshared, if_neg (by decide)]
    exact BitVec.add_zero _
  unfold entryStep
  dsimp only
  rw [if_pos (View.canFetch_of_maps (hmaps _)), hadd]
  rw [show Val.den L F (.word (L.here text)) = L.here text from rfl] at hpush
  rw [hpush]
  rfl

end Sound

end Lvisor
