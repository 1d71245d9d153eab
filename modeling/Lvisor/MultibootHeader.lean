import Lvisor.Lib.Word
import Lvisor.Multiboot

/-!
# The search for the Multiboot header (`firmware/multiboot.c`)

`find_multiboot_header` looks at the aligned words of the first 8072 bytes of the image, the
8192 of the search less the size of a `struct multiboot_info`, and takes the first that is the
magic number.

* `ValidHeader` — what the header is by its own comment: the sum of its first three words is
  0, and it lies in the first 8192 bytes;
* `findMultibootHeader_eq` — the search returns the first word that is the magic number;
* `headerFound_iff` — that word is the header exactly when it begins one, and when there is no
  such word, no header begins in the last 120 bytes.
-/

namespace Lvisor

/-! ## The search -/

/-- `MULTIBOOT_SEARCH`: how many bytes of an image are searched. -/
abbrev multibootSearch : ℕ := 8192

/-- `MULTIBOOT_HEADER_MAGIC`, which the header begins with. -/
abbrev multibootHeaderMagic : BitVec 32 := 0x1BADB002#32

/-- `MULTIBOOT_AOUT_KLUDGE`: the header has the addresses of the image. -/
abbrev multibootAoutKludge : BitVec 32 := 0x00010000#32

/-- `sizeof(struct multiboot_info)`, which the search leaves out at the end. -/
abbrev sizeofMultibootInfo : ℕ := 120

/-- The loop of `find_multiboot_header`, by words of four bytes; `none` is `NULL`. -/
def findHeaderLoop (mem : Memory) (stop : BitVec 64) :
    ℕ → BitVec 64 → Exec (Option (BitVec 64))
  | 0, _ => .error .outOfFuel
  | fuel + 1, start =>
    if start < stop then
      if read32 mem start = multibootHeaderMagic then .ok (some start)
      else findHeaderLoop mem stop fuel (start + 4)
    else .ok none

/-- `find_multiboot_header`: the first aligned word that is the magic number. -/
def findMultibootHeader (mem : Memory) (base : BitVec 64) : Exec (Option (BitVec 64)) :=
  let stop := base + BitVec.ofNat 64 multibootSearch - BitVec.ofNat 64 sizeofMultibootInfo
  findHeaderLoop mem stop (multibootSearch / 4) base

/-! ## The header

By its comment the header is in the first 8192 bytes, is aligned, and has a checksum. The search
asks for the magic number alone, and it does not look at the last bytes. -/

/-- The 32-bit word at an offset of the image. -/
def imageWord (mem : Memory) (base : BitVec 64) (o : ℕ) : BitVec 32 :=
  read32 mem (base + BitVec.ofNat 64 o)

/-- The size of the header: with `MULTIBOOT_AOUT_KLUDGE` the address fields belong to it. -/
def headerSize (flags : BitVec 32) : ℕ := if flags &&& multibootAoutKludge ≠ 0#32 then 32 else 12

/-- A header begins at the offset: aligned, in reach, with the magic number and its checksum. -/
structure ValidHeader (mem : Memory) (base : BitVec 64) (o : ℕ) : Prop where
  aligned : o % 4 = 0
  magic : imageWord mem base o = multibootHeaderMagic
  checksum : imageWord mem base o + imageWord mem base (o + 4) + imageWord mem base (o + 8) = 0#32
  inside : o + headerSize (imageWord mem base (o + 4)) ≤ multibootSearch

/-- The result is the lowest header, `NULL` when there is none. -/
def HeaderFound (mem : Memory) (base : BitVec 64) : Option (BitVec 64) → Prop
  | some p => ∃ o, p = base + BitVec.ofNat 64 o ∧ ValidHeader mem base o ∧
      ∀ o' < o, ¬ValidHeader mem base o'
  | none => ∀ o, ¬ValidHeader mem base o

/-- The first aligned word that is the magic number is at the offset. -/
structure FirstMagic (mem : Memory) (base : BitVec 64) (o : ℕ) : Prop where
  aligned : o % 4 = 0
  magic : imageWord mem base o = multibootHeaderMagic
  first : ∀ o' < o, o' % 4 = 0 → imageWord mem base o' ≠ multibootHeaderMagic

section Search

variable {mem : Memory} {base : BitVec 64}

theorem toNat_imageAddr (hfits : base.toNat + 8192 ≤ 2 ^ 64) {o : ℕ} (ho : o < 8192) :
    (base + BitVec.ofNat 64 o).toNat = base.toNat + o :=
  toNat_add_ofNat (by omega)

/-- The end of the scan, as a number. -/
theorem toNat_stop (hfits : base.toNat + 8192 ≤ 2 ^ 64) :
    (base + BitVec.ofNat 64 multibootSearch - BitVec.ofNat 64 sizeofMultibootInfo).toNat =
      base.toNat + 8072 := by
  change (base + 8192#64 - 120#64).toNat = _
  rw [BitVec.toNat_sub, BitVec.toNat_add, BitVec.toNat_ofNat, BitVec.toNat_ofNat]
  omega

theorem le_headerSize (flags : BitVec 32) : 12 ≤ headerSize flags := by
  unfold headerSize
  split_ifs <;> omega

/-- A header begins within the search. -/
theorem ValidHeader.lt {o : ℕ} (h : ValidHeader mem base o) : o < 8192 := by
  have hinside : o + headerSize (imageWord mem base (o + 4)) ≤ 8192 := h.inside
  have hsize := le_headerSize (imageWord mem base (o + 4))
  omega

variable (mem) in
/-- **The loop** from an offset before which there is no magic number. -/
theorem findHeaderLoop_eq (hfits : base.toNat + 8192 ≤ 2 ^ 64) {stop : BitVec 64}
    (hstop : stop.toNat = base.toNat + 8072) {fuel i : ℕ} (hi : i % 4 = 0) (hle : i ≤ 8072)
    (hfuel : 8072 < i + 4 * fuel)
    (hbefore : ∀ o < i, o % 4 = 0 → imageWord mem base o ≠ multibootHeaderMagic) :
    (∃ o, o < 8072 ∧ FirstMagic mem base o ∧
        findHeaderLoop mem stop fuel (base + BitVec.ofNat 64 i) =
          .ok (some (base + BitVec.ofNat 64 o))) ∨
      ((∀ o < 8072, o % 4 = 0 → imageWord mem base o ≠ multibootHeaderMagic) ∧
        findHeaderLoop mem stop fuel (base + BitVec.ofNat 64 i) = .ok none) := by
  induction fuel generalizing i with
  | zero => omega
  | succ fuel ih =>
    have haddr := toNat_imageAddr hfits (show i < 8192 by omega)
    rw [findHeaderLoop]
    by_cases hend : i < 8072
    · rw [if_pos (BitVec.lt_def.mpr (by omega))]
      by_cases hmagic : imageWord mem base i = multibootHeaderMagic
      · rw [if_pos (show read32 mem (base + BitVec.ofNat 64 i) = _ from hmagic)]
        exact .inl ⟨i, hend, ⟨hi, hmagic, hbefore⟩, rfl⟩
      · have hnext : base + BitVec.ofNat 64 i + 4 = base + BitVec.ofNat 64 (i + 4) := by
          rw [BitVec.ofNat_add, ← BitVec.add_assoc]
          rfl
        rw [if_neg (show ¬read32 mem (base + BitVec.ofNat 64 i) = _ from hmagic), hnext]
        refine ih (by omega) (by omega) (by omega) fun o ho hmod => ?_
        rcases Nat.lt_or_ge o i with hlt | hge
        · exact hbefore o hlt hmod
        · obtain rfl : o = i := by omega
          exact hmagic
    · obtain rfl : i = 8072 := by omega
      rw [if_neg fun hlt => absurd (BitVec.lt_def.mp hlt) (by omega)]
      exact .inr ⟨hbefore, rfl⟩

variable (mem) in
/-- **The search** returns the first word that is the magic number, within 8072 bytes. -/
theorem findMultibootHeader_eq (hfits : base.toNat + multibootSearch ≤ 2 ^ 64) :
    (∃ o, o < 8072 ∧ FirstMagic mem base o ∧
        findMultibootHeader mem base = .ok (some (base + BitVec.ofNat 64 o))) ∨
      ((∀ o < 8072, o % 4 = 0 → imageWord mem base o ≠ multibootHeaderMagic) ∧
        findMultibootHeader mem base = .ok none) := by
  have h := findHeaderLoop_eq mem (i := 0) hfits (toNat_stop hfits) rfl (by omega)
    (show 8072 < 0 + 4 * (8192 / 4) by omega) fun o ho => absurd ho (Nat.not_lt_zero o)
  rw [show base + BitVec.ofNat 64 0 = base from BitVec.add_zero base] at h
  exact h

theorem FirstMagic.unique {o o' : ℕ} (h : FirstMagic mem base o) (h' : FirstMagic mem base o') :
    o = o' := by
  rcases Nat.lt_trichotomy o o' with hlt | heq | hgt
  · exact absurd h.magic (h'.first o hlt h.aligned)
  · exact heq
  · exact absurd h'.magic (h.first o' hgt h'.aligned)

/-- **The header search** finds the lowest header exactly when the first word that is the magic
number, if it is among the words looked at, begins a header, and otherwise no header begins in
the last 120 bytes. -/
theorem headerFound_iff (hfits : base.toNat + multibootSearch ≤ 2 ^ 64) :
    (∃ r, findMultibootHeader mem base = .ok r ∧ HeaderFound mem base r) ↔
      (∀ o < 8072, FirstMagic mem base o → ValidHeader mem base o) ∧
        ((∀ o < 8072, o % 4 = 0 → imageWord mem base o ≠ multibootHeaderMagic) →
          ∀ o, 8072 ≤ o → ¬ValidHeader mem base o) := by
  rcases findMultibootHeader_eq mem hfits with ⟨o, hlt, hfirst, hrun⟩ | ⟨hnone, hrun⟩
  · rw [hrun]
    have hbefore : ∀ o' < o, ¬ValidHeader mem base o' := fun o' ho' hvalid =>
      hfirst.first o' ho' hvalid.aligned hvalid.magic
    constructor
    · rintro ⟨r, hr, hfound⟩
      obtain rfl := Except.ok.inj hr
      obtain ⟨o', heq, hvalid, hlow⟩ := hfound
      -- the offset is that of the pointer
      obtain rfl : o = o' := by
        have hptr := congrArg BitVec.toNat heq
        rw [toNat_imageAddr hfits (by omega), toNat_imageAddr hfits hvalid.lt] at hptr
        omega
      exact ⟨fun o'' _ h => hfirst.unique h ▸ hvalid,
        fun hno => absurd hfirst.magic (hno o hlt hfirst.aligned)⟩
    · rintro ⟨hall, -⟩
      exact ⟨_, rfl, o, rfl, hall o hlt hfirst, hbefore⟩
  · rw [hrun]
    constructor
    · rintro ⟨r, hr, hfound⟩
      obtain rfl := Except.ok.inj hr
      exact ⟨fun o ho h => absurd h.magic (hnone o ho h.aligned), fun _ o _ => hfound o⟩
    · rintro ⟨-, hlast⟩
      refine ⟨_, rfl, fun o hvalid => ?_⟩
      rcases Nat.lt_or_ge o 8072 with hlt | hge
      · exact hnone o hlt hvalid.aligned hvalid.magic
      · exact hlast hnone o hge hvalid

end Search

/-- An image that starts with the magic number as data, 8 bytes of zeros behind it, and has its
header at offset 16. -/
def decoyImage : Memory :=
  wordsMemory [(0x200000, 0x000000001badb002), (0x200010, 0x000000001badb002),
    (0x200018, 0x00000000e4524ffe)]

theorem headerFound_iff_decoyImage :
    (∃ r, findMultibootHeader decoyImage 0x200000 = .ok r ∧ HeaderFound decoyImage 0x200000 r) ↔
      (∀ o < 8072, FirstMagic decoyImage 0x200000 o → ValidHeader decoyImage 0x200000 o) ∧
        ((∀ o < 8072, o % 4 = 0 → imageWord decoyImage 0x200000 o ≠ multibootHeaderMagic) →
          ∀ o, 8072 ≤ o → ¬ValidHeader decoyImage 0x200000 o) :=
  headerFound_iff (by decide)

/-- The search stops at the decoy. The header at offset 16 is not found. -/
theorem not_headerFound_decoyImage :
    ValidHeader decoyImage 0x200000 16 ∧
      findMultibootHeader decoyImage 0x200000 = .ok (some 0x200000) ∧
        ¬∃ r, findMultibootHeader decoyImage 0x200000 = .ok r ∧
          HeaderFound decoyImage 0x200000 r := by
  have hdecoy : FirstMagic decoyImage 0x200000 0 :=
    ⟨rfl, by decide, fun o ho => absurd ho (Nat.not_lt_zero o)⟩
  have hrun : findMultibootHeader decoyImage 0x200000 = .ok (some 0x200000) := by
    have hfits : (0x200000 : BitVec 64).toNat + 8192 ≤ 2 ^ 64 := by decide
    rcases findMultibootHeader_eq decoyImage hfits with ⟨o, -, hfirst, hrun⟩ | ⟨hnone, -⟩
    · obtain rfl := hfirst.unique hdecoy
      exact hrun
    · exact absurd hdecoy.magic (hnone 0 (by omega) rfl)
  refine ⟨⟨by decide, by decide, by decide, by decide⟩, hrun, ?_⟩
  rintro ⟨r, hr, hfound⟩
  obtain rfl := Except.ok.inj (hrun.symm.trans hr)
  obtain ⟨o, heq, hvalid, hlow⟩ := hfound
  -- the decoy is at offset 0, and its checksum is wrong
  obtain rfl : o = 0 := by
    have hptr := congrArg BitVec.toNat heq
    rw [toNat_imageAddr (by decide) hvalid.lt] at hptr
    exact Nat.left_eq_add.mp hptr
  exact absurd hvalid.checksum (by decide)

end Lvisor
