import Lvisor.VmxExit
import Mathlib.Tactic.IntervalCases

/-!
# Segment registers, packed and unpacked (`vmx.c`)

`vmx_set_segment` packs the attributes of a `struct kvm_segment` into the access rights of the
VMCS and `vmx_get_segment` unpacks them. The two are inverse to each other where `present` says
nothing that `unusable` does not say.

* `Wellformed` — a `kvm_segment` that a segment register can hold;
* `PlainRights` — access rights of a usable segment, with P set and nothing reserved;
* `get_set`, `set_get` — the round trips, from either side;
* `segment_codec` — both of them, the unusable segments and the frame.
-/

namespace Lvisor

open VmcsField

/-! ## The table -/

/-- `kvm_vmx_segment_fields[seg]`: the four fields of a segment register. -/
def segmentFields (seg : Sreg) : List VmcsField :=
  [guestSelector seg, guestBase seg, guestLimit seg, guestArBytes seg]

theorem Sreg.offset_injective : Function.Injective Sreg.offset := by
  intro a b h
  cases a <;> cases b <;> first | rfl | exact absurd h (by decide)

/-- The macro pastes the name of the register into four names of `enum vmcs_field`; no two of
them have the same value. -/
theorem encoding_segmentFields {seg seg' : Sreg} {f g : VmcsField} (hf : f ∈ segmentFields seg)
    (hg : g ∈ segmentFields seg') (h : f.encoding = g.encoding) : f = g := by
  have hlt : ∀ s : Sreg, s.offset < 0x10 := by
    intro s
    cases s <;> decide
  have hseg := hlt seg
  have hseg' := hlt seg'
  simp only [segmentFields, List.mem_cons, List.not_mem_nil, or_false] at hf hg
  rcases hf with rfl | rfl | rfl | rfl <;> rcases hg with rfl | rfl | rfl | rfl <;>
    simp only [encoding] at h <;>
    first
      | rw [Sreg.offset_injective (Nat.add_left_cancel h)]
      | omega

/-! ## Segments

The access rights are 32 bits with nine fields, and a field that fits comes back as it was. For a
segment that is not usable one bit is set, and the attributes are lost. -/

/-- The bit fields of a present and usable segment are in range. -/
structure KvmSegment.Wellformed (var : KvmSegment) : Prop where
  unusable : var.unusable = 0#8
  present : var.present = 1#8
  type : var.type < 16#8
  s : var.s < 2#8
  dpl : var.dpl < 4#8
  avl : var.avl < 2#8
  l : var.l < 2#8
  db : var.db < 2#8
  g : var.g < 2#8

/-- Access rights with "unusable" clear, P set and the reserved bits 8 to 11 and 17 to 31
clear. -/
structure PlainRights (ar : BitVec 32) : Prop where
  usable : ar.getLsbD 16 = false
  present : ar.getLsbD 7 = true
  reserved : ar &&& 0xfffe0f00#32 = 0#32

/-- The access rights say that the segment is unusable. -/
def UnusableRights (ar : BitVec 32) : Prop := ar.getLsbD 16 = true

section Rights

variable {var : KvmSegment}

/-- The access rights of a segment that is present and usable. -/
theorem rights_of_usable (hu : var.unusable = 0#8) (hp : var.present = 1#8) :
    vmxSegmentAccessRights var =
      (var.type &&& 15#8).setWidth 32 |||
      (var.s &&& 1#8).setWidth 32 <<< 4 |||
      (var.dpl &&& 3#8).setWidth 32 <<< 5 |||
      (1#8).setWidth 32 <<< 7 |||
      (var.avl &&& 1#8).setWidth 32 <<< 12 |||
      (var.l &&& 1#8).setWidth 32 <<< 13 |||
      (var.db &&& 1#8).setWidth 32 <<< 14 |||
      (var.g &&& 1#8).setWidth 32 <<< 15 := by
  rw [vmxSegmentAccessRights, if_neg (by rw [hu, hp]; decide), hp]
  rfl

/-- The access rights of any other segment. -/
theorem rights_of_unusable (h : var.unusable ≠ 0#8 ∨ var.present = 0#8) :
    vmxSegmentAccessRights var = 0x10000#32 := by
  rw [vmxSegmentAccessRights, if_pos h]
  rfl

/-- One bit, unpacked. -/
theorem unpack_bit {ar : BitVec 32} {x : BitVec 8} {i : ℕ} (h : ar.getLsbD i = x.getLsbD 0) :
    ((ar >>> i) &&& 1#32).setWidth 8 = x &&& 1#8 := by
  rw [BitVec.and_one_eq_setWidth_ofBool_getLsbD, BitVec.and_one_eq_setWidth_ofBool_getLsbD,
    BitVec.getLsbD_ushiftRight, Nat.add_zero, h, BitVec.setWidth_setWidth_of_le _ (by decide)]

/-- The rights of a usable segment are unpacked to what was packed. -/
theorem unpack_rights (h : var.Wellformed) :
    let ar := vmxSegmentAccessRights var
    (ar >>> 16) &&& 1#32 = 0#32 ∧
    (ar &&& 15#32).setWidth 8 = var.type &&& 15#8 ∧
    ((ar >>> 4) &&& 1#32).setWidth 8 = var.s &&& 1#8 ∧
    ((ar >>> 5) &&& 3#32).setWidth 8 = var.dpl &&& 3#8 ∧
    ((ar >>> 12) &&& 1#32).setWidth 8 = var.avl &&& 1#8 ∧
    ((ar >>> 13) &&& 1#32).setWidth 8 = var.l &&& 1#8 ∧
    ((ar >>> 14) &&& 1#32).setWidth 8 = var.db &&& 1#8 ∧
    ((ar >>> 15) &&& 1#32).setWidth 8 = var.g &&& 1#8 := by
  rw [rights_of_usable h.unusable h.present]
  refine ⟨?_, ?_, unpack_bit ?_, ?_, unpack_bit ?_, unpack_bit ?_, unpack_bit ?_, unpack_bit ?_⟩
  · rw [BitVec.and_one_eq_setWidth_ofBool_getLsbD, BitVec.getLsbD_ushiftRight]
    simp
  · ext i hi
    interval_cases i <;> simp
  · simp
  · ext i hi
    interval_cases i <;> simp
  · simp
  · simp
  · simp
  · simp

theorem and_three_of_lt {x : BitVec 8} (h : x < 4#8) : x &&& 3#8 = x := by
  revert x
  decide

theorem and_fifteen_of_lt {x : BitVec 8} (h : x < 16#8) : x &&& 15#8 = x := by
  revert x
  decide

theorem and_one_of_lt {x : BitVec 8} (h : x < 2#8) : x &&& 1#8 = x := by
  revert x
  decide

/-- A bit field, unpacked and packed again. -/
theorem repack (ar : BitVec 32) (mask : BitVec 8) (i : ℕ) :
    (((ar >>> i) &&& mask.setWidth 32).setWidth 8 &&& mask).setWidth 32 <<< i =
      ar &&& mask.setWidth 32 <<< i := by
  apply BitVec.eq_of_getLsbD_eq
  intro j hj
  rw [BitVec.getLsbD_shiftLeft, BitVec.getLsbD_and, BitVec.getLsbD_shiftLeft]
  by_cases hji : j < i
  · simp [hji]
  · have hsum : i + (j - i) = j := by omega
    by_cases h8 : j - i < 8
    · have h32 : j - i < 32 := by omega
      simp [hji, hsum, hj, h32, h8]
    · have hmask : mask.getLsbD (j - i) = false := BitVec.getLsbD_of_ge _ _ (by omega)
      simp [hmask]

/-- The bits of a usable segment are those that `vmx_segment_access_rights` writes. -/
theorem PlainRights.and_written {ar : BitVec 32} (h : PlainRights ar) : ar &&& 0xf0ff#32 = ar := by
  have hclear : ar &&& 0x10000#32 = 0#32 := by
    rw [show 0x10000#32 = BitVec.twoPow 32 16 from rfl, BitVec.and_twoPow, h.usable]
    rfl
  calc ar &&& 0xf0ff#32
      = ar &&& 0xf0ff#32 ||| (ar &&& 0xfffe0f00#32 ||| ar &&& 0x10000#32) := by
        rw [h.reserved, hclear, BitVec.or_zero, BitVec.or_zero]
    _ = ar &&& BitVec.allOnes 32 := by
        rw [← BitVec.and_or_distrib_left, ← BitVec.and_or_distrib_left]
        rfl
    _ = ar := BitVec.and_allOnes

/-- The rights of a usable segment are packed again from what was unpacked. -/
theorem rights_unpacked {v : Vmcs} {seg : Sreg} (h : PlainRights (v.read32 (guestArBytes seg))) :
    vmxSegmentAccessRights (vmxGetSegment v seg) = v.read32 (guestArBytes seg) := by
  rw [Vmcs.read32] at h ⊢
  have hclear : ((v.read (guestArBytes seg)).setWidth 32 >>> 16) &&& 1#32 = 0#32 := by
    rw [BitVec.and_one_eq_setWidth_ofBool_getLsbD, BitVec.getLsbD_ushiftRight, Nat.add_zero,
      h.usable]
    rfl
  have husable : (vmxGetSegment v seg).unusable = 0#8 := by
    rw [vmxGetSegment, hclear]
    rfl
  have hpresent : (vmxGetSegment v seg).present = 1#8 := by
    rw [vmxGetSegment, hclear]
    rfl
  rw [rights_of_usable husable hpresent]
  simp only [vmxGetSegment]
  generalize (v.read (guestArBytes seg)).setWidth 32 = ar at h
  have hp : ((1#8).setWidth 32 <<< 7 : BitVec 32) = ar &&& 0x80#32 := by
    rw [show 0x80#32 = BitVec.twoPow 32 7 from rfl, BitVec.and_twoPow, h.present]
    rfl
  have htype : ((ar &&& 15#32).setWidth 8 &&& 15#8).setWidth 32 = ar &&& 0xf#32 := by
    have hall := repack ar 15#8 0
    rwa [BitVec.shiftLeft_zero, BitVec.shiftLeft_zero] at hall
  have hs : (((ar >>> 4) &&& 1#32).setWidth 8 &&& 1#8).setWidth 32 <<< 4 = ar &&& 0x10#32 :=
    repack ar 1#8 4
  have hdpl : (((ar >>> 5) &&& 3#32).setWidth 8 &&& 3#8).setWidth 32 <<< 5 = ar &&& 0x60#32 :=
    repack ar 3#8 5
  have havl : (((ar >>> 12) &&& 1#32).setWidth 8 &&& 1#8).setWidth 32 <<< 12 =
      ar &&& 0x1000#32 := repack ar 1#8 12
  have hl : (((ar >>> 13) &&& 1#32).setWidth 8 &&& 1#8).setWidth 32 <<< 13 =
      ar &&& 0x2000#32 := repack ar 1#8 13
  have hdb : (((ar >>> 14) &&& 1#32).setWidth 8 &&& 1#8).setWidth 32 <<< 14 =
      ar &&& 0x4000#32 := repack ar 1#8 14
  have hg : (((ar >>> 15) &&& 1#32).setWidth 8 &&& 1#8).setWidth 32 <<< 15 =
      ar &&& 0x8000#32 := repack ar 1#8 15
  rw [htype, hs, hdpl, hp, havl, hl, hdb, hg]
  calc ar &&& 0xf#32 ||| ar &&& 0x10#32 ||| ar &&& 0x60#32 ||| ar &&& 0x80#32 |||
        ar &&& 0x1000#32 ||| ar &&& 0x2000#32 ||| ar &&& 0x4000#32 ||| ar &&& 0x8000#32
      = ar &&& 0xf0ff#32 := by
        simp only [← BitVec.and_or_distrib_left]
        rfl
    _ = ar := h.and_written

end Rights

/-! ## The round trips

Packing and unpacking, in either order, and for each of the eight segment registers. The fields
of the other registers and the rest of the VMCS stay as they are. -/

section Codec

variable {v : Vmcs} {var : KvmSegment} {seg : Sreg}

/-- A segment register is read as it was set. -/
theorem get_set (h : var.Wellformed) :
    vmxGetSegment (vmxSetSegment v var seg) seg = var := by
  obtain ⟨hu, htype, hs, hdpl, havl, hl, hdb, hg⟩ := unpack_rights h
  rw [vmxGetSegment, read_base_vmxSetSegment, read_selector_vmxSetSegment, ← Vmcs.read32,
    ← Vmcs.read32, read_limit_vmxSetSegment, read_ar_vmxSetSegment]
  simp only [hu, htype, hs, hdpl, havl, hl, hdb, hg, and_fifteen_of_lt h.type, and_one_of_lt h.s,
    and_three_of_lt h.dpl, and_one_of_lt h.avl, and_one_of_lt h.l, and_one_of_lt h.db,
    and_one_of_lt h.g, if_true]
  obtain ⟨base, limit, selector, type, present, dpl, db, s, l, g, avl, unusable⟩ := var
  have hunusable : unusable = 0#8 := h.unusable
  have hpresent : present = 1#8 := h.present
  rw [hunusable, hpresent]
  rfl

theorem Vmcs.field_write_ne {f f' : VmcsField} {x : BitVec 64} (h : f ≠ f') :
    (v.write f' x).field f = v.field f :=
  Function.update_of_ne h _ _

/-- A field that is written with what is in it. -/
theorem Vmcs.write_read {f : VmcsField} {x : BitVec 64} (h : x.setWidth f.width = v.field f) :
    v.write f x = v := by
  rw [Vmcs.write, h, Function.update_eq_self]

/-- Setting a segment register to what was read changes nothing. -/
theorem set_get (h : PlainRights (v.read32 (guestArBytes seg))) :
    vmxSetSegment v (vmxGetSegment v seg) seg = v := by
  have hself : ∀ f : VmcsField, (v.read f).setWidth f.width = v.field f := fun f => by
    rw [Vmcs.read, BitVec.setWidth_setWidth_of_le _ f.width_le, BitVec.setWidth_eq]
  -- a value that is narrower than 64 bits goes through its own width
  have hnarrow : ∀ f : VmcsField,
      (((v.read f).setWidth f.width).setWidth 64).setWidth f.width = v.field f := fun f => by
    rw [BitVec.setWidth_setWidth_of_le _ f.width_le, BitVec.setWidth_eq, hself]
  have hbase : v.write (guestBase seg) (vmxGetSegment v seg).base = v :=
    Vmcs.write_read (hself _)
  have hlimit : v.write (guestLimit seg) ((vmxGetSegment v seg).limit.setWidth 64) = v :=
    Vmcs.write_read (hnarrow _)
  have hsel : v.write (guestSelector seg) ((vmxGetSegment v seg).selector.setWidth 64) = v :=
    Vmcs.write_read (hnarrow _)
  have har : v.write (guestArBytes seg) ((v.read32 (guestArBytes seg)).setWidth 64) = v :=
    Vmcs.write_read (hnarrow _)
  rw [vmxSetSegment, rights_unpacked h, hbase, hlimit, hsel, har]

/-- Segments that are not present are stored as unusable. -/
theorem unusable_of_set (h : var.unusable ≠ 0#8 ∨ var.present = 0#8) :
    UnusableRights ((vmxSetSegment v var seg).read32 (guestArBytes seg)) := by
  rw [UnusableRights, read_ar_vmxSetSegment, rights_of_unusable h]
  rfl

/-- `vmx_get_segment` reports the bit of an unusable segment. -/
theorem get_unusable (h : UnusableRights (v.read32 (guestArBytes seg))) :
    (vmxGetSegment v seg).unusable = 1#8 := by
  have hbit : ((v.read (guestArBytes seg)).setWidth 32).getLsbD 16 = true := h
  rw [vmxGetSegment, BitVec.and_one_eq_setWidth_ofBool_getLsbD, BitVec.getLsbD_ushiftRight,
    Nat.add_zero, hbit]
  rfl

/-- Only the four fields of the segment register are written. -/
theorem field_vmxSetSegment {f : VmcsField} (h : f ∉ segmentFields seg) :
    (vmxSetSegment v var seg).field f = v.field f := by
  simp only [segmentFields, List.mem_cons, List.not_mem_nil, or_false, not_or] at h
  obtain ⟨hs, hb, hl, ha⟩ := h
  rw [vmxSetSegment, Vmcs.field_write_ne ha, Vmcs.field_write_ne hs, Vmcs.field_write_ne hl,
    Vmcs.field_write_ne hb]

/-- Segment registers share no field. -/
theorem notMem_segmentFields {seg' : Sreg} (hne : seg' ≠ seg) {f : VmcsField}
    (h : f ∈ segmentFields seg') : f ∉ segmentFields seg := by
  simp only [segmentFields, List.mem_cons, List.not_mem_nil, or_false] at h ⊢
  rcases h with rfl | rfl | rfl | rfl <;> simpa using hne

end Codec

/-- **The codec of the segment registers**, in every VMCS and for every register: what is set is
read back; what is read can be set again; an unusable segment stays one; what is not present,
or unusable, reads back as unusable; and the other registers are not touched. -/
theorem segment_codec (v : Vmcs) (seg : Sreg) :
    (∀ var : KvmSegment, var.Wellformed →
      vmxGetSegment (vmxSetSegment v var seg) seg = var) ∧
    (PlainRights (v.read32 (guestArBytes seg)) →
      vmxSetSegment v (vmxGetSegment v seg) seg = v) ∧
    (UnusableRights (v.read32 (guestArBytes seg)) →
      UnusableRights
        ((vmxSetSegment v (vmxGetSegment v seg) seg).read32 (guestArBytes seg))) ∧
    (∀ var : KvmSegment, var.present = 0#8 ∨ var.unusable ≠ 0#8 →
      (vmxGetSegment (vmxSetSegment v var seg) seg).unusable = 1#8) ∧
    (∀ (var : KvmSegment) (seg' : Sreg), seg' ≠ seg → ∀ f ∈ segmentFields seg',
      (vmxSetSegment v var seg).field f = v.field f) := by
  refine ⟨fun var h => get_set h, set_get, fun h => ?_, fun var h => ?_,
    fun var seg' hne f hf => ?_⟩
  · refine unusable_of_set (Or.inl ?_)
    rw [get_unusable h]
    decide
  · exact get_unusable (unusable_of_set h.symm)
  · exact field_vmxSetSegment (notMem_segmentFields hne hf)

/-- The code segment that `run_vcpu` sets for the start address 0x10000. -/
def startCs : KvmSegment :=
  { base := 0x10000, limit := 0xffff, selector := 0x1000, type := 11, s := 1, present := 1,
    dpl := 0, db := 0, l := 0, g := 0, avl := 0, unusable := 0 }

theorem wellformed_startCs : startCs.Wellformed := by
  constructor <;> decide

/-- The codec on this segment: it is read back, and can be set again. -/
theorem segment_codec_startCs :
    vmxGetSegment (vmxSetSegment .zero startCs .cs) .cs = startCs ∧
    vmxSetSegment (vmxSetSegment .zero startCs .cs) startCs .cs =
      vmxSetSegment .zero startCs .cs := by
  have hget := (segment_codec .zero .cs).1 startCs wellformed_startCs
  have hrights : PlainRights ((vmxSetSegment .zero startCs .cs).read32 (guestArBytes .cs)) := by
    rw [read_ar_vmxSetSegment]
    constructor <;> decide
  refine ⟨hget, ?_⟩
  have hset := (segment_codec (vmxSetSegment .zero startCs .cs) .cs).2.1 hrights
  rwa [hget] at hset

end Lvisor
