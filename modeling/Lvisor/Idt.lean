import Lvisor.EntryCode
import Lvisor.FindBit
import Lvisor.Lib.Run

/-!
# The IDT (`kernel/idt.c`, `asm/desc.h`)

The table of gates is filled by four functions: two for the exceptions, one for the interrupts, and
one that replaces a gate. A bitmap has the vectors that are in use.

* `GateDesc`, `GateDesc.toBits` — the descriptor as C has it, and its 16 bytes;
* `Gate.ofBits` — what the processor reads in them, with `gate_idtInitDesc` for the round trip;
* `IdtCall.run` — the functions; `IdtCall.meant` — what they are meant to do with a table that has
  at most one entry for a vector;
* `idt_of_run` — every sequence of calls does that, and fails exactly where that fails.
-/

namespace Lvisor

/-! ## Descriptors

A gate has the address of its entry point in three pieces. The C structure and the reader of the
processor are written down separately, and the round trip is proved for all addresses. -/

/-- `struct idt_bits`: the attributes of a gate, as bit fields from the lowest on. -/
structure IdtBits where
  ist : BitVec 3
  zero : BitVec 5
  type : BitVec 5
  dpl : BitVec 2
  p : BitVec 1
  deriving DecidableEq, Repr

/-- `struct gate_desc`: a gate of 64-bit mode, with its offset in three pieces. -/
structure GateDesc where
  offsetLow : BitVec 16
  segment : BitVec 16
  bits : IdtBits
  offsetMiddle : BitVec 16
  offsetHigh : BitVec 32
  reserved : BitVec 32
  deriving DecidableEq, Repr

/-- `struct idt_bits` in memory: the first member has the lowest bits. -/
def IdtBits.toBits (b : IdtBits) : BitVec 16 :=
  (b.p ++ b.dpl ++ b.type ++ b.zero ++ b.ist).setWidth 16

/-- `struct gate_desc` in memory, as a number of 16 bytes; the structure is packed. -/
def GateDesc.toBits (g : GateDesc) : BitVec 128 :=
  (g.reserved ++ g.offsetHigh ++ g.offsetMiddle ++ g.bits.toBits ++ g.segment ++
    g.offsetLow).setWidth 128

/-- What the processor reads in the 16 bytes of a gate. -/
structure Gate where
  offset : BitVec 64
  selector : BitVec 16
  ist : BitVec 3
  /-- the type, with the bit S above it -/
  type : BitVec 5
  dpl : BitVec 2
  present : Bool
  deriving DecidableEq, Repr

/-- The fields of a gate of 64-bit mode. -/
def Gate.ofBits (w : BitVec 128) : Gate where
  offset := w.extractLsb' 64 32 ++ w.extractLsb' 48 16 ++ w.extractLsb' 0 16
  selector := w.extractLsb' 16 16
  ist := w.extractLsb' 32 3
  type := w.extractLsb' 40 5
  dpl := w.extractLsb' 45 2
  present := w.getLsbD 47

/-- `__ENTRY_ADDR`: the address of the same place in the shared mapping. -/
def entryAddr (x : BitVec 64) : BitVec 64 := x + entryOffset

/-- The entry points of `entry.S` that the tables name. -/
inductive EntryPoint where
  | idt (e : Exception)
  | apic (s : ApicSym)
  /-- any other address, of a caller of `update_intr_gate` -/
  | other (addr : BitVec 64)
  deriving DecidableEq, Repr

/-- The address of an entry point. -/
def EntryPoint.addr (L : Layout) : EntryPoint → BitVec 64
  | .idt e => Machine.labelAddr L false (.idt e)
  | .apic s => Machine.labelAddr L false (.apic s)
  | .other addr => addr

/-- `struct idt_data`: what the tables have for a vector. -/
structure IdtData where
  vector : BitVec 32
  segment : BitVec 32
  bits : IdtBits
  addr : EntryPoint
  deriving DecidableEq, Repr

/-- `idt_init_desc`: the offset in pieces, and the segment in the width of its member. -/
def idtInitDesc (L : Layout) (d : IdtData) : GateDesc where
  offsetLow := (entryAddr (d.addr.addr L)).setWidth 16
  segment := d.segment.setWidth 16
  bits := d.bits
  offsetMiddle := (entryAddr (d.addr.addr L) >>> 16).setWidth 16
  offsetHigh := (entryAddr (d.addr.addr L) >>> 32).setWidth 32
  reserved := 0

/-- The gate that an entry of the tables stands for. -/
def IdtData.gate (L : Layout) (d : IdtData) : Gate where
  offset := entryAddr (d.addr.addr L)
  selector := d.segment.setWidth 16
  ist := d.bits.ist
  type := d.bits.type
  dpl := d.bits.dpl
  present := d.bits.p = 1

section Codec

/-- A field that starts at `k` ends at `n`. -/
theorem sub_lt_field {i k w n : ℕ} (hw : 0 < w) (hn : k + w = n) : i - k < w ↔ i < n := by
  omega

theorem IdtBits.getLsbD_toBits (b : IdtBits) {i : ℕ} (hi : i < 16) : b.toBits.getLsbD i =
    if i < 3 then b.ist.getLsbD i
    else if i < 8 then b.zero.getLsbD (i - 3)
    else if i < 13 then b.type.getLsbD (i - 8)
    else if i < 15 then b.dpl.getLsbD (i - 13)
    else b.p.getLsbD (i - 15) := by
  rw [IdtBits.toBits, BitVec.getLsbD_setWidth, decide_eq_true hi, Bool.true_and]
  simp only [BitVec.getLsbD_append, Nat.sub_sub,
    sub_lt_field (show 0 < 5 by decide) (show 3 + 5 = 8 by decide),
    sub_lt_field (show 0 < 5 by decide) (show 3 + 5 + 5 = 13 by decide),
    sub_lt_field (show 0 < 2 by decide) (show 3 + 5 + 5 + 2 = 15 by decide)]

theorem GateDesc.getLsbD_toBits (g : GateDesc) {i : ℕ} (hi : i < 128) : g.toBits.getLsbD i =
    if i < 16 then g.offsetLow.getLsbD i
    else if i < 32 then g.segment.getLsbD (i - 16)
    else if i < 48 then g.bits.toBits.getLsbD (i - 32)
    else if i < 64 then g.offsetMiddle.getLsbD (i - 48)
    else if i < 96 then g.offsetHigh.getLsbD (i - 64)
    else g.reserved.getLsbD (i - 96) := by
  rw [GateDesc.toBits, BitVec.getLsbD_setWidth, decide_eq_true hi, Bool.true_and]
  simp only [BitVec.getLsbD_append, Nat.sub_sub,
    sub_lt_field (show 0 < 16 by decide) (show 16 + 16 = 32 by decide),
    sub_lt_field (show 0 < 16 by decide) (show 16 + 16 + 16 = 48 by decide),
    sub_lt_field (show 0 < 16 by decide) (show 16 + 16 + 16 + 16 = 64 by decide),
    sub_lt_field (show 0 < 32 by decide) (show 16 + 16 + 16 + 16 + 32 = 96 by decide)]

/-- A field is read from where it is, when each bit of it is there. -/
theorem extract_field {n w : ℕ} {x : BitVec n} {y : BitVec w} (k : ℕ)
    (h : ∀ i < w, x.getLsbD (k + i) = y.getLsbD i) : x.extractLsb' k w = y := by
  refine BitVec.eq_of_getLsbD_eq fun i hi => ?_
  rw [BitVec.getLsbD_extractLsb', decide_eq_true hi, Bool.true_and, h i hi]

/-- What the processor reads of the bits of a gate. -/
theorem GateDesc.ofBits_toBits (g : GateDesc) : Gate.ofBits g.toBits =
    { offset := g.offsetHigh ++ g.offsetMiddle ++ g.offsetLow
      selector := g.segment
      ist := g.bits.ist
      type := g.bits.type
      dpl := g.bits.dpl
      present := g.bits.p.getLsbD 0 } := by
  have hlow : g.toBits.extractLsb' 0 16 = g.offsetLow := extract_field 0 fun i hi => by
    rw [g.getLsbD_toBits (by omega), Nat.zero_add, if_pos hi]
  have hsegment : g.toBits.extractLsb' 16 16 = g.segment := extract_field 16 fun i hi => by
    rw [g.getLsbD_toBits (by omega), if_neg (by omega), if_pos (by omega),
      Nat.add_sub_cancel_left]
  have hmiddle : g.toBits.extractLsb' 48 16 = g.offsetMiddle := extract_field 48 fun i hi => by
    rw [g.getLsbD_toBits (by omega), if_neg (by omega), if_neg (by omega), if_neg (by omega),
      if_pos (by omega), Nat.add_sub_cancel_left]
  have hhigh : g.toBits.extractLsb' 64 32 = g.offsetHigh := extract_field 64 fun i hi => by
    rw [g.getLsbD_toBits (by omega), if_neg (by omega), if_neg (by omega), if_neg (by omega),
      if_neg (by omega), if_pos (by omega), Nat.add_sub_cancel_left]
  have hbits : ∀ i < 16, g.toBits.getLsbD (32 + i) = g.bits.toBits.getLsbD i := fun i hi => by
    rw [g.getLsbD_toBits (by omega), if_neg (by omega), if_neg (by omega), if_pos (by omega),
      Nat.add_sub_cancel_left]
  have hist : g.toBits.extractLsb' 32 3 = g.bits.ist := extract_field 32 fun i hi => by
    rw [hbits i (by omega), g.bits.getLsbD_toBits (by omega), if_pos hi]
  have htype : g.toBits.extractLsb' 40 5 = g.bits.type := extract_field 40 fun i hi => by
    rw [show 40 + i = 32 + (8 + i) by omega, hbits (8 + i) (by omega),
      g.bits.getLsbD_toBits (by omega), if_neg (by omega), if_neg (by omega), if_pos (by omega),
      Nat.add_sub_cancel_left]
  have hdpl : g.toBits.extractLsb' 45 2 = g.bits.dpl := extract_field 45 fun i hi => by
    rw [show 45 + i = 32 + (13 + i) by omega, hbits (13 + i) (by omega),
      g.bits.getLsbD_toBits (by omega), if_neg (by omega), if_neg (by omega), if_neg (by omega),
      if_pos (by omega), Nat.add_sub_cancel_left]
  have hp : g.toBits.getLsbD 47 = g.bits.p.getLsbD 0 := by
    rw [show 47 = 32 + 15 from rfl, hbits 15 (by omega), g.bits.getLsbD_toBits (by omega)]
    rfl
  rw [Gate.ofBits, hlow, hsegment, hmiddle, hhigh, hist, htype, hdpl, hp]

/-- The three parts of an offset, put together again. -/
theorem offset_parts (x : BitVec 64) :
    (x >>> 32).setWidth 32 ++ (x >>> 16).setWidth 16 ++ x.setWidth 16 = x := by
  refine BitVec.eq_of_getLsbD_eq fun i hi => ?_
  simp only [BitVec.getLsbD_append, BitVec.getLsbD_setWidth, BitVec.getLsbD_ushiftRight]
  by_cases hlow : i < 16
  · simp [hlow]
  · by_cases hmiddle : i < 32
    · simp [hlow, show i - 16 < 16 by omega, show 16 + (i - 16) = i by omega]
    · simp [hlow, show ¬i - 16 < 16 by omega, show i - 16 - 16 < 32 by omega,
        show 32 + (i - 16 - 16) = i by omega]

/-- **Round trip**: the processor reads in a gate what `idt_init_desc` was given, with the entry
point in the shared mapping. -/
theorem gate_idtInitDesc (L : Layout) (d : IdtData) :
    Gate.ofBits (idtInitDesc L d).toBits = d.gate L := by
  rw [GateDesc.ofBits_toBits, idtInitDesc]
  have hp : ∀ p : BitVec 1, p.getLsbD 0 = decide (p = 1) := by decide
  simp only [offset_parts, hp]
  rfl

end Codec

/-! ## The tables -/

/-- `GATE_INTERRUPT`: interrupts are off when the handler starts. -/
abbrev gateInterrupt : BitVec 5 := 0xe#5

/-- `KERNEL_CS`: the descriptor 2 of the GDT. -/
abbrev kernelCs : BitVec 32 := 2 * 8

/-- `DOUBLEFAULT_STACK`: the entry of the interrupt stack table for double faults. -/
abbrev doublefaultStack : BitVec 3 := 1#3

/-- `G`: an entry that is present, with everything else given. -/
def idtG (vector : BitVec 32) (addr : EntryPoint) (ist : BitVec 3) (type : BitVec 5)
    (dpl : BitVec 2) (segment : BitVec 32) : IdtData where
  vector := vector
  segment := segment
  bits := { ist := ist, zero := 0, type := type, dpl := dpl, p := 1 }
  addr := addr

/-- `INTG`: an interrupt gate, which only the processor enters. -/
def idtIntg (vector : BitVec 32) (addr : EntryPoint) : IdtData :=
  idtG vector addr 0 gateInterrupt 0 kernelCs

/-- `SYSG`: an interrupt gate that the user may enter by an INT instruction. -/
def idtSysg (vector : BitVec 32) (addr : EntryPoint) : IdtData :=
  idtG vector addr 0 gateInterrupt 3 kernelCs

/-- `ISTG`: an interrupt gate with a stack of its own. -/
def idtIstg (vector : BitVec 32) (addr : EntryPoint) (ist : BitVec 3) : IdtData :=
  idtG vector addr ist gateInterrupt 0 kernelCs

/-- `def_idts`: the exceptions that the kernel handles. Vectors 1, 2, 3 and 18 are not among
them. -/
def defIdts : List IdtData :=
  [idtIntg 0 (.idt .divideError), idtIntg 5 (.idt .bounds), idtIntg 6 (.idt .invalidOp),
    idtIntg 7 (.idt .deviceNotAvailable), idtIntg 9 (.idt .coprocessorSegmentOverrun),
    idtIntg 10 (.idt .invalidTss), idtIntg 11 (.idt .segmentNotPresent),
    idtIntg 12 (.idt .stackSegment), idtIntg 13 (.idt .generalProtection),
    idtIntg 14 (.idt .pageFault), idtIntg 15 (.idt .spuriousInterruptBug),
    idtIntg 16 (.idt .coprocessorError), idtIntg 17 (.idt .alignmentCheck),
    idtIntg 19 (.idt .simdCoprocessorError), idtIntg 8 (.idt .doubleFault),
    idtSysg 4 (.idt .overflow)]

/-- `apic_idts`: the interrupts of the local APIC. -/
def apicIdts : List IdtData :=
  [idtIntg 0xee (.apic .apicTimerInterrupt), idtIntg 0xff (.apic .spuriousInterrupt),
    idtIntg 0xfe (.apic .errorInterrupt)]

/-- `ist_idts`: the double fault again, now with its own stack. -/
def istIdts : List IdtData := [idtIstg 8 (.idt .doubleFault) doublefaultStack]

/-! ## The functions -/

/-- `idt_table` and `system_vectors`: the gates, and a bit for each vector in use. -/
structure IdtState where
  idtTable : Vector GateDesc 256
  systemVectors : Vector (BitVec 64) 4

/-- The statics are zero at first, which is a table without a gate. -/
def IdtState.zero : IdtState where
  idtTable := Vector.replicate 256 ⟨0, 0, ⟨0, 0, 0, 0, 0⟩, 0, 0, 0⟩
  systemVectors := Vector.replicate 4 0

variable (L : Layout)

/-- One turn of `idt_setup_from_table`: the gate, and the bit of the vector for a system vector. -/
def idtSetupEntry (sys : Bool) (s : IdtState) (t : IdtData) : Exec IdtState := do
  let idt ← store s.idtTable t.vector.toNat (idtInitDesc L t)
  let vectors ← (if sys then setBit (t.vector.setWidth 64) s.systemVectors else .ok s.systemVectors)
  return ⟨idt, vectors⟩

/-- `idt_setup_from_table`: all entries of a table, in the order in which they stand there. -/
def idtSetupFromTable (t : List IdtData) (sys : Bool) (s : IdtState) : Exec IdtState :=
  t.foldlM (idtSetupEntry L sys) s

/-- `set_intr_gate`: an interrupt gate for a vector that fits in a byte. The bit of the vector
stays as it is. -/
def setIntrGate (n : BitVec 32) (addr : EntryPoint) (s : IdtState) : Exec IdtState := do
  bugOn "kernel/idt.c" 120 "set_intr_gate" (n > 0xff#32)
  let bits : IdtBits := { ist := 0, zero := 0, type := gateInterrupt, dpl := 0, p := 1 }
  idtSetupFromTable L [⟨n, kernelCs, bits, addr⟩] false s

/-- `idt_setup_traps`: the gates for exceptions. -/
def idtSetupTraps (s : IdtState) : Exec IdtState := idtSetupFromTable L defIdts true s

/-- `idt_setup_ist_traps`: the gate with a stack of its own, once the TSS is there. -/
def idtSetupIstTraps (s : IdtState) : Exec IdtState := idtSetupFromTable L istIdts true s

/-- `idt_setup_apic_and_irq_gates`. The loop works on the bitmap, and `set_intr_gate` on the
table. -/
def idtSetupApicAndIrqGates (s : IdtState) : Exec IdtState := do
  let s ← idtSetupFromTable L apicIdts true s
  let (vectors, idt) ← idtSetupIrqGates (fun i idt => do
    let s ← setIntrGate L (i.setWidth 32) (.apic .spuriousInterrupt) ⟨idt, s.systemVectors⟩
    return s.idtTable) (s.systemVectors, s.idtTable)
  return ⟨idt, vectors⟩

/-- `test_bit`, for a bit of the bitmap; behind it nothing may be read. -/
def testBit {n : ℕ} (nr : BitVec 64) (bm : Vector (BitVec 64) n) : Exec Bool :=
  if nr.toNat / 64 < n then .ok ((wordsOf bm (nr.toNat / 64)).getLsbD (nr.toNat % 64))
  else .error .outOfBounds

/-- `update_intr_gate`: another entry point for a vector in use. It is a BUG when the vector is
not. -/
def updateIntrGate (n : BitVec 32) (addr : EntryPoint) (s : IdtState) : Exec IdtState := do
  let set ← testBit (n.setWidth 64) s.systemVectors
  bugOn "kernel/idt.c" 163 "update_intr_gate" (!set)
  setIntrGate L n addr s

/-- A call of one of the functions that other code calls, in whatever order. -/
inductive IdtCall where
  | traps
  | istTraps
  | apicAndIrqGates
  | update (n : BitVec 32) (addr : EntryPoint)

/-- What a call does to the two statics, or how it fails. -/
def IdtCall.run (s : IdtState) : IdtCall → Exec IdtState
  | .traps => idtSetupTraps L s
  | .istTraps => idtSetupIstTraps L s
  | .apicAndIrqGates => idtSetupApicAndIrqGates L s
  | .update n addr => updateIntrGate L n addr s

/-! ## What the functions are meant to do

The abstract table is a map from vectors to entry points. The words of the IDT and the bits of
the bitmap are functions of that map, and a call changes both as it changes the map. -/

/-- The entries of a table, one at most for a vector. -/
abbrev IdtMap : Type := ℕ → Option IdtData

/-- Entries are put in a table one after the other; the last one for a vector counts. -/
def IdtMap.put (f : IdtMap) (t : List IdtData) : IdtMap :=
  t.foldl (fun f d => Function.update f d.vector.toNat (some d)) f

/-- What a call is meant to do: nothing else is replaced, vectors from `FIRST_EXTERNAL_VECTOR` on
that have no entry get that of a spurious interrupt, and a vector without an entry does not get
one by an update. -/
def IdtCall.meant (f : IdtMap) : IdtCall → Option IdtMap
  | .traps => some (f.put defIdts)
  | .istTraps => some (f.put istIdts)
  | .apicAndIrqGates =>
    let f := f.put apicIdts
    some fun v => if 0x20 ≤ v ∧ v < 256 ∧ f v = none then
      some (idtIntg (BitVec.ofNat 32 v) (.apic .spuriousInterrupt)) else f v
  | .update n addr =>
    if n.toNat < 256 ∧ (f n.toNat).isSome then some (f.put [idtIntg n addr]) else none

/-- The table and the bitmap are those of the entries. -/
structure IdtState.Holds (s : IdtState) (f : IdtMap) : Prop where
  gate : ∀ v, (hv : v < 256) → s.idtTable[v] =
    (f v).elim (IdtState.zero.idtTable[v]) (idtInitDesc L)
  vectors : ∀ v < 256, IsSet (wordsOf s.systemVectors) v ↔ (f v).isSome = true

section Calls

variable {L : Layout} {s s' : IdtState} {f f' : IdtMap} {d : IdtData} {t : List IdtData}
  {sys : Bool}

/-- No vector is in use at first, and no gate is present. -/
theorem holds_zero : IdtState.zero.Holds L fun _ => none := by
  refine ⟨fun v hv => rfl, fun v hv => iff_of_false ?_ Bool.false_ne_true⟩
  rw [IsSet, wordsBit, wordsOf, IdtState.zero, Vector.getElem?_replicate]
  split
  · simp
  · simp

/-- One entry. Its vector is in use, before or from now on. -/
theorem IdtState.Holds.setupEntry (h : s.Holds L f) (hd : d.vector.toNat < 256)
    (hsys : sys = true ∨ (f d.vector.toNat).isSome = true) :
    ∃ s', idtSetupEntry L sys s d = .ok s' ∧
      s'.Holds L (Function.update f d.vector.toNat (some d)) := by
  have hgate : ∀ v, (hv : v < 256) →
      (s.idtTable.set d.vector.toNat (idtInitDesc L d) hd)[v] =
        (Function.update f d.vector.toNat (some d) v).elim (IdtState.zero.idtTable[v])
          (idtInitDesc L) := by
    intro v hv
    rw [Vector.getElem_set]
    by_cases hvd : d.vector.toNat = v
    · subst hvd
      rw [if_pos rfl, Function.update_self]
      rfl
    · rw [if_neg hvd, Function.update_of_ne (Ne.symm hvd), h.gate v hv]
  have hsome : ∀ v, (Function.update f d.vector.toNat (some d) v).isSome = true ↔
      v = d.vector.toNat ∨ (f v).isSome = true := by
    intro v
    by_cases hvd : v = d.vector.toNat
    · subst hvd
      rw [Function.update_self]
      exact iff_of_true rfl (.inl rfl)
    · rw [Function.update_of_ne hvd]
      exact (or_iff_right hvd).symm
  have hwidth : (d.vector.setWidth 64).toNat = d.vector.toNat :=
    (BitVec.toNat_setWidth_of_le (by decide))
  unfold idtSetupEntry
  rw [store_of_lt _ _ hd, Exec.ok_bind]
  cases sys with
  | true =>
    have hlt : (d.vector.setWidth 64).toNat < 64 * 4 := by rw [hwidth]; exact hd
    obtain ⟨bm, hbm, hset⟩ := setBit_spec s.systemVectors hlt
    refine ⟨_, by rw [if_pos rfl, hbm]; rfl, hgate, fun v hv => ?_⟩
    rw [hset, hsome, hwidth, h.vectors v hv]
  | false =>
    have hused : (f d.vector.toNat).isSome = true := hsys.resolve_left Bool.false_ne_true
    refine ⟨_, rfl, hgate, fun v hv => ?_⟩
    rw [hsome, h.vectors v hv]
    refine (or_iff_right_of_imp ?_).symm
    rintro rfl
    exact hused

/-- An entry without its bit: only the gate changes. -/
theorem idtSetupEntry_false (hd : d.vector.toNat < 256) : idtSetupEntry L false s d =
    .ok ⟨s.idtTable.set d.vector.toNat (idtInitDesc L d) hd, s.systemVectors⟩ := by
  rw [idtSetupEntry, store_of_lt _ _ hd]
  rfl

/-- A table with its bits is put into the map as a whole. -/
theorem IdtState.Holds.setupFromTable (h : s.Holds L f) (ht : ∀ d ∈ t, d.vector.toNat < 256) :
    ∃ s', idtSetupFromTable L t true s = .ok s' ∧ s'.Holds L (f.put t) := by
  induction t generalizing s f with
  | nil => exact ⟨s, rfl, h⟩
  | cons d t ih =>
    obtain ⟨s₁, hs₁, h₁⟩ := h.setupEntry (ht d List.mem_cons_self) (.inl rfl)
    obtain ⟨s', hs', h'⟩ := ih h₁ fun d' hd' => ht d' (List.mem_cons_of_mem d hd')
    refine ⟨s', ?_, h'⟩
    rw [idtSetupFromTable, List.foldlM_cons, hs₁]
    exact hs'

/-- `set_intr_gate` for a vector changes the one gate, and does not fail. -/
theorem setIntrGate_eq {n : BitVec 32} (addr : EntryPoint) (s : IdtState) (hn : n.toNat < 256) :
    setIntrGate L n addr s =
      .ok ⟨s.idtTable.set n.toNat (idtInitDesc L (idtIntg n addr)) hn, s.systemVectors⟩ := by
  have hcheck : decide (n > 0xff#32) = false :=
    decide_eq_false fun hgt => Nat.not_lt.mpr (Nat.le_of_lt_succ hn) (BitVec.lt_def.mp hgt)
  refine bugOn_bind_eq_ok.mpr ⟨hcheck, ?_⟩
  rw [idtSetupFromTable, List.foldlM_cons, idtSetupEntry_false hn]
  rfl

/-- The gates that the loop over the clear bits sets. -/
theorem foldlM_setIntrGate {is : List ℕ} (his : ∀ i ∈ is, i < 256)
    (idt : Vector GateDesc 256) (bm : Vector (BitVec 64) 4) :
    ∃ idt', is.foldlM (fun idt i => do
        let s ← setIntrGate L ((BitVec.ofNat 64 i).setWidth 32) (.apic .spuriousInterrupt) ⟨idt, bm⟩
        return s.idtTable) idt = (.ok idt' : Exec _) ∧
      ∀ v, (hv : v < 256) → idt'[v] = if v ∈ is then
        idtInitDesc L (idtIntg (BitVec.ofNat 32 v) (.apic .spuriousInterrupt)) else idt[v] := by
  induction is generalizing idt with
  | nil => exact ⟨idt, rfl, fun v hv => (if_neg List.not_mem_nil).symm⟩
  | cons i is ih =>
    have hi := his i List.mem_cons_self
    have hwidth : (BitVec.ofNat 64 i).setWidth 32 = BitVec.ofNat 32 i := by
      refine BitVec.eq_of_toNat_eq ?_
      rw [BitVec.toNat_setWidth, BitVec.toNat_ofNat, BitVec.toNat_ofNat]
      omega
    have hnat : (BitVec.ofNat 32 i).toNat = i := by
      rw [BitVec.toNat_ofNat]
      omega
    obtain ⟨idt', hfold, hidt'⟩ := ih (fun j hj => his j (List.mem_cons_of_mem i hj))
      (idt.set i (idtInitDesc L (idtIntg (BitVec.ofNat 32 i) (.apic .spuriousInterrupt))) hi)
    refine ⟨idt', ?_, fun v hv => ?_⟩
    · rw [List.foldlM_cons, hwidth, setIntrGate_eq _ _ (by rw [hnat]; exact hi)]
      simp only [hnat, Exec.ok_bind, Exec.pure_eq_ok]
      exact hfold
    · rw [hidt' v hv, Vector.getElem_set]
      by_cases hvi : i = v
      · subst hvi
        rw [if_pos rfl, if_pos List.mem_cons_self, ite_self]
      · rw [if_neg hvi]
        exact if_congr (by rw [List.mem_cons, or_iff_right (Ne.symm hvi)]) rfl rfl

/-- `idt_setup_apic_and_irq_gates` puts its table there, and then an entry for each vector that
is free. -/
theorem IdtState.Holds.setupApic (h : s.Holds L f)
    (hf' : IdtCall.apicAndIrqGates.meant f = some f') :
    ∃ s', idtSetupApicAndIrqGates L s = .ok s' ∧ s'.Holds L f' := by
  obtain rfl := Option.some.inj hf'
  obtain ⟨s₁, hs₁, h₁⟩ := h.setupFromTable (t := apicIdts) (by decide)
  obtain ⟨bm, hbm, hloop⟩ := idtSetupIrqGates_eq (fun i idt => do
    let s ← setIntrGate L (i.setWidth 32) (.apic .spuriousInterrupt) ⟨idt, s₁.systemVectors⟩
    return s.idtTable) s₁.systemVectors
  obtain ⟨idt, hidt, hgates⟩ := foldlM_setIntrGate (L := L)
    (fun i (hi : i ∈ indicesFrom (fun i => ¬IsSet (wordsOf s₁.systemVectors) i) 0x20 256) =>
      (mem_indicesFrom.mp hi).2.1) s₁.idtTable s₁.systemVectors
  have hfree : ∀ v, v ∈ indicesFrom (fun i => ¬IsSet (wordsOf s₁.systemVectors) i) 0x20 256 ↔
      0x20 ≤ v ∧ v < 256 ∧ f.put apicIdts v = none := by
    intro v
    rw [mem_indicesFrom]
    refine and_congr_right fun _ => and_congr_right fun hv => ?_
    rw [h₁.vectors v hv, Bool.not_eq_true, Option.isSome_eq_false_iff, Option.isNone_iff_eq_none]
  refine ⟨⟨idt, bm⟩, ?_, fun v hv => ?_, fun v hv => ?_⟩
  · rw [idtSetupApicAndIrqGates, hs₁, Exec.ok_bind, hloop, hidt]
    rfl
  · rw [hgates v hv, h₁.gate v hv]
    by_cases hset : 0x20 ≤ v ∧ v < 256 ∧ f.put apicIdts v = none
    · rw [if_pos ((hfree v).mpr hset), if_pos hset]
      rfl
    · rw [if_neg (fun hmem => hset ((hfree v).mp hmem)), if_neg hset]
  · rw [hbm v, h₁.vectors v hv]
    split
    · next hset => exact iff_of_true (.inr ⟨hset.1, hset.2.1⟩) rfl
    · next hset =>
      refine or_iff_left_of_imp fun hin => ?_
      rw [← Option.ne_none_iff_isSome]
      exact fun hnone => hset ⟨hin.1, hin.2, hnone⟩

/-- `update_intr_gate` replaces an entry, and fails where there is none. -/
theorem IdtState.Holds.update (h : s.Holds L f) (n : BitVec 32) (addr : EntryPoint) :
    (∀ f', (IdtCall.update n addr).meant f = some f' →
        ∃ s', updateIntrGate L n addr s = .ok s' ∧ s'.Holds L f') ∧
      ((IdtCall.update n addr).meant f = none → ∃ e, updateIntrGate L n addr s = .error e) := by
  have hwidth : (n.setWidth 64).toNat = n.toNat := BitVec.toNat_setWidth_of_le (by decide)
  by_cases hn : n.toNat < 256
  · have htest : testBit (n.setWidth 64) s.systemVectors = .ok (f n.toNat).isSome := by
      rw [testBit, if_pos (by rw [hwidth]; omega), hwidth]
      exact congrArg Except.ok (Bool.eq_iff_iff.mpr (h.vectors n.toNat hn))
    rw [updateIntrGate, htest, Exec.ok_bind]
    cases hused : (f n.toNat).isSome with
    | true =>
      refine ⟨fun f' hf' => ?_, fun hnone => ?_⟩
      · obtain rfl : f.put [idtIntg n addr] = f' :=
          Option.some.inj ((if_pos ⟨hn, hused⟩).symm.trans hf')
        refine ⟨_, bugOn_bind_eq_ok.mpr ⟨rfl, setIntrGate_eq addr s hn⟩, ?_⟩
        have hentry : ∃ s', idtSetupEntry L false s (idtIntg n addr) = .ok s' ∧ _ :=
          h.setupEntry hn (.inr hused)
        obtain ⟨s', hs', h'⟩ := hentry
        obtain rfl := Except.ok.inj ((idtSetupEntry_false hn).symm.trans hs')
        exact h'
      · exact absurd ((if_pos ⟨hn, hused⟩).symm.trans hnone) (by simp)
    | false =>
      refine ⟨fun f' hf' => ?_, fun _ => ⟨_, rfl⟩⟩
      have hno : ¬(n.toNat < 256 ∧ (f n.toNat).isSome = true) := by
        rw [hused]
        exact fun hand => Bool.false_ne_true hand.2
      exact absurd ((if_neg hno).symm.trans hf') (by simp)
  · have hno : ¬(n.toNat < 256 ∧ (f n.toNat).isSome = true) := fun hand => hn hand.1
    refine ⟨fun f' hf' => absurd ((if_neg hno).symm.trans hf') (by simp), fun _ => ?_⟩
    have htest : testBit (n.setWidth 64) s.systemVectors = .error .outOfBounds := by
      rw [testBit, if_neg (by rw [hwidth]; omega)]
    exact ⟨.outOfBounds, by rw [updateIntrGate, htest]; rfl⟩

/-- **A call** does what it is meant to do, or fails where it is not meant to be made. -/
theorem IdtState.Holds.call (h : s.Holds L f) (c : IdtCall) :
    (∀ f', c.meant f = some f' → ∃ s', c.run L s = .ok s' ∧ s'.Holds L f') ∧
      (c.meant f = none → ∃ e, c.run L s = .error e) := by
  cases c with
  | traps =>
    refine ⟨fun f' hf' => ?_, fun hnone => absurd hnone (Option.some_ne_none _)⟩
    obtain rfl := Option.some.inj hf'
    exact h.setupFromTable (by decide)
  | istTraps =>
    refine ⟨fun f' hf' => ?_, fun hnone => absurd hnone (Option.some_ne_none _)⟩
    obtain rfl := Option.some.inj hf'
    exact h.setupFromTable (by decide)
  | apicAndIrqGates =>
    exact ⟨fun f' hf' => h.setupApic hf', fun hnone => absurd hnone (Option.some_ne_none _)⟩
  | update n addr => exact h.update n addr

/-- Calls one after the other, by induction: those that do not fail have done what they are meant
to do. -/
theorem IdtState.Holds.calls {cs : List IdtCall} (h : s.Holds L f)
    (hrun : runSteps (fun s c => c.run L s) s cs = .ok s') :
    ∃ f', cs.foldlM IdtCall.meant f = some f' ∧ s'.Holds L f' := by
  induction cs generalizing s f with
  | nil =>
    obtain rfl := Except.ok.inj hrun
    exact ⟨f, rfl, h⟩
  | cons c cs ih =>
    obtain ⟨s₁, hs₁, hrest⟩ := runSteps_cons_eq_ok.mp hrun
    obtain ⟨hok, hfail⟩ := h.call c
    cases hmeant : c.meant f with
    | none =>
      obtain ⟨e, he⟩ := hfail hmeant
      exact absurd (hs₁.symm.trans he) (by simp)
    | some f₁ =>
      obtain ⟨s₂, hs₂, h₂⟩ := hok f₁ hmeant
      obtain rfl := Except.ok.inj (hs₁.symm.trans hs₂)
      obtain ⟨f', hf', h'⟩ := ih h₂ hrest
      exact ⟨f', by rw [List.foldlM_cons, hmeant]; exact hf', h'⟩

/-- Calls that are meant to be made do not fail. -/
theorem IdtState.Holds.calls_ok {cs : List IdtCall} (h : s.Holds L f)
    (hmeant : cs.foldlM IdtCall.meant f = some f') :
    ∃ s', runSteps (fun s c => c.run L s) s cs = .ok s' := by
  induction cs generalizing s f with
  | nil => exact ⟨s, rfl⟩
  | cons c cs ih =>
    rw [List.foldlM_cons] at hmeant
    obtain ⟨f₁, hf₁, hrest⟩ := Option.bind_eq_some_iff.mp hmeant
    obtain ⟨s₁, hs₁, h₁⟩ := (h.call c).1 f₁ hf₁
    obtain ⟨s', hs'⟩ := ih h₁ hrest
    exact ⟨s', runSteps_cons_eq_ok.mpr ⟨s₁, hs₁, hs'⟩⟩

end Calls

/-- The gate of a vector: that of its entry, or one that is not present. -/
def IdtMap.gateAt (f : IdtMap) (v : ℕ) : Gate :=
  (f v).elim ⟨0, 0, 0, 0, 0, false⟩ (IdtData.gate L)

/-- The functions fail exactly where one of them is not meant to be called. -/
theorem idtCalls_ok_iff (cs : List IdtCall) :
    (∃ s, runSteps (fun s c => IdtCall.run L s c) IdtState.zero cs = .ok s) ↔
      (cs.foldlM IdtCall.meant fun _ => none).isSome = true := by
  constructor
  · rintro ⟨s, hrun⟩
    obtain ⟨f, hf, -⟩ := holds_zero.calls hrun
    rw [hf]
    rfl
  · intro hsome
    obtain ⟨f, hf⟩ := Option.isSome_iff_exists.mp hsome
    exact (holds_zero (L := L)).calls_ok hf

/-- The gates that they leave are those of the map, as the processor reads them. -/
theorem idtCalls_gates {L : Layout} {cs : List IdtCall} {s : IdtState}
    (hrun : runSteps (fun s c => IdtCall.run L s c) IdtState.zero cs = .ok s) :
    ∃ f, cs.foldlM IdtCall.meant (fun _ => none) = some f ∧
      ∀ v, (hv : v < 256) → Gate.ofBits s.idtTable[v].toBits = f.gateAt L v ∧
        (IsSet (wordsOf s.systemVectors) v ↔ (f v).isSome = true) := by
  obtain ⟨f, hf, hholds⟩ := holds_zero.calls hrun
  refine ⟨f, hf, fun v hv => ⟨?_, hholds.vectors v hv⟩⟩
  rw [hholds.gate v hv, IdtMap.gateAt]
  cases f v with
  | none =>
    rw [Option.elim_none, IdtState.zero, Vector.getElem_replicate]
    rfl
  | some d => exact gate_idtInitDesc L d

/-- **The IDT after any calls** of its functions: they fail exactly where one of them is not meant
to be made, and else the processor reads at each vector the gate of the last entry that was put
there, and none but the vectors in use have one. -/
theorem idt_of_run (L : Layout) (cs : List IdtCall) :
    ((∃ s, runSteps (fun s c => IdtCall.run L s c) IdtState.zero cs = .ok s) ↔
        (cs.foldlM IdtCall.meant fun _ => none).isSome = true) ∧
      ∀ s, runSteps (fun s c => IdtCall.run L s c) IdtState.zero cs = .ok s →
        ∃ f, cs.foldlM IdtCall.meant (fun _ => none) = some f ∧
          ∀ v, (hv : v < 256) → Gate.ofBits s.idtTable[v].toBits = f.gateAt L v ∧
            (IsSet (wordsOf s.systemVectors) v ↔ (f v).isSome = true) :=
  ⟨idtCalls_ok_iff L cs, fun _ hrun => idtCalls_gates hrun⟩

end Lvisor
