import Lvisor.MultibootHeader
import Lvisor.Elf

/-!
# Loading a Multiboot image (`firmware/multiboot.c`)

`load_multiboot` finds the header of the image and loads it, as an ELF file or, with
`MULTIBOOT_AOUT_KLUDGE`, by the address fields of the header.

* `AoutLoaded` — what the address fields say of the memory and of the stores;
* `loadAout_byte` — the memory that the copy and the fill leave, while they do not get at the
  image;
* `aoutLoaded_iff` — when that is what the address fields say: the copy takes the image from its
  start on, and knows no zero fields.
-/

namespace Lvisor

/-! ## The code -/

/-- `struct multiboot_header`, up to `entry_addr`; the loader reads no more of it. -/
structure MultibootHeader where
  magic : BitVec 32
  flags : BitVec 32
  checksum : BitVec 32
  headerAddr : BitVec 32
  loadAddr : BitVec 32
  loadEndAddr : BitVec 32
  bssEndAddr : BitVec 32
  entryAddr : BitVec 32
  deriving DecidableEq

/-- The header in memory, member by member. -/
def headerAt (mem : Memory) (p : BitVec 64) : MultibootHeader :=
  ⟨read32 mem p, read32 mem (p + 4), read32 mem (p + 8), read32 mem (p + 12),
    read32 mem (p + 16), read32 mem (p + 20), read32 mem (p + 24), read32 mem (p + 28)⟩

/-- What the loader leaves: the memory, `entry`, and the ranges that it has stored to. -/
structure Loaded where
  mem : Memory
  entry : BitVec 32
  written : List (BitVec 64 × ℕ)

/-- The branch of `load_multiboot` for `MULTIBOOT_AOUT_KLUDGE`. The header is a part of the
image, and is read again after the copy and after the fill. -/
def loadAout (mem : Memory) (image header : BitVec 64) : Loaded :=
  let h := headerAt mem header
  let count := (h.loadEndAddr - h.loadAddr).toNat
  let mem := memcpy count mem (h.loadAddr.setWidth 64) image
  let h' := headerAt mem header
  let count' := (h'.bssEndAddr - h'.loadEndAddr).toNat
  let mem := memset count' mem (h'.loadEndAddr.setWidth 64) 0
  { mem, entry := (headerAt mem header).entryAddr
    written := [(h.loadAddr.setWidth 64, count), (h'.loadEndAddr.setWidth 64, count')] }

/-- `ELFMAG` as a word: an image that begins with it is an ELF file. -/
abbrev elfmag : BitVec 32 := 0x464c457f#32

/-- The part of `load_multiboot` up to the entry point; `none` where it returns before that.
`EI_CLASS` is 4. -/
def loadMultibootImage (mem : Memory) (image : BitVec 64) : Exec (Option (Memory × BitVec 32)) := do
  match ← findMultibootHeader mem image with
  | none => return none
  | some header =>
    if (headerAt mem header).flags &&& multibootAoutKludge ≠ 0 then
      let loaded := loadAout mem image header
      return some (loaded.mem, loaded.entry)
    else if read32 mem image ≠ elfmag then
      return none
    else if mem (image + 4) = 1 then
      return some (loadElf .elf32 mem image)
    else if mem (image + 4) = 2 then
      return some (loadElf .elf64 mem image)
    else
      return none

/-! ## What the address fields say

The Multiboot specification describes an image of this kind by five addresses. The file offset of
the first byte follows from where the header is; a load end or a bss end of zero has a meaning of
its own, which the loader does not know. -/

namespace MultibootHeader

variable (h : MultibootHeader)

/-- The offset in the file of the byte for `load_addr`, when the header is at the offset `o`. -/
def fileStart (o : ℕ) : ℕ := o - (h.headerAddr.toNat - h.loadAddr.toNat)

/-- The load size: up to `load_end_addr`, or, when that is 0, up to the end of a file of `n`
bytes. -/
def loadSize (n o : ℕ) : ℕ :=
  if h.loadEndAddr = 0#32 then n - h.fileStart o else h.loadEndAddr.toNat - h.loadAddr.toNat

/-- The end of the loaded part in memory. -/
def loadStop (n o : ℕ) : ℕ := h.loadAddr.toNat + h.loadSize n o

/-- The end of the target range, the part to be cleared included. -/
def targetStop (n o : ℕ) : ℕ := max (h.loadStop n o) h.bssEndAddr.toNat

/-- The target range: the loaded part and the zeros behind it. -/
def Target (n o : ℕ) (a : BitVec 64) : Prop :=
  h.loadAddr.toNat ≤ a.toNat ∧ a.toNat < h.targetStop n o

end MultibootHeader

/-- The `n` bytes at `base` are an image with its header at the offset `o`, with address fields
that say where all of the loaded part is in the file, and with a target range apart from it. -/
structure AoutImage (mem : Memory) (base : BitVec 64) (n o : ℕ) (h : MultibootHeader) : Prop where
  found : findMultibootHeader mem base = .ok (some (base + BitVec.ofNat 64 o))
  header : headerAt mem (base + BitVec.ofNat 64 o) = h
  kludge : h.flags &&& multibootAoutKludge ≠ 0
  fits : base.toNat + n ≤ 2 ^ 64
  header_inside : o + 32 ≤ n
  loadAddr_le : h.loadAddr.toNat ≤ h.headerAddr.toNat
  offset : h.headerAddr.toNat - h.loadAddr.toNat ≤ o
  loaded_inside : h.fileStart o + h.loadSize n o ≤ n
  disjoint : ∀ a, Within base n a → ¬h.Target n o a

/-- The image is loaded by the address fields: the loaded part, the zeros up to `bss_end_addr`,
and nothing else is written. -/
structure AoutLoaded (mem : Memory) (base : BitVec 64) (n o : ℕ) (h : MultibootHeader)
    (l : Loaded) : Prop where
  loaded : ∀ k < h.loadSize n o, l.mem (h.loadAddr.setWidth 64 + BitVec.ofNat 64 k) =
    mem (base + BitVec.ofNat 64 (h.fileStart o + k))
  zeroed : ∀ a : BitVec 64, h.loadStop n o ≤ a.toNat → a.toNat < h.bssEndAddr.toNat →
    l.mem a = 0
  nothing_else : ∀ range ∈ l.written, ∀ a, Within range.1 range.2 a → h.Target n o a

/-- When the copy and the fill do what the address fields say. -/
inductive AoutFits (mem : Memory) (base : BitVec 64) (n o : ℕ) (h : MultibootHeader) : Prop
  /-- All addresses are given, and the loaded part is the start of the file, too. -/
  | given (hend : h.loadEndAddr ≠ 0#32) (hload : h.loadAddr ≤ h.loadEndAddr)
      (hbss : h.loadEndAddr ≤ h.bssEndAddr)
      (hsame : ∀ k < h.loadSize n o, mem (base + BitVec.ofNat 64 k) =
        mem (base + BitVec.ofNat 64 (h.fileStart o + k)))
  /-- The file goes up to the end of the first 4 GiB or over it, and what is over it is there
  before. -/
  | full (hend : h.loadEndAddr = 0#32) (hload : h.loadAddr ≠ 0#32) (hbss : h.bssEndAddr = 0#32)
      (hfull : 2 ^ 32 ≤ h.loadStop n o)
      (hsame : ∀ k < h.loadSize n o,
        (if k < 2 ^ 32 - h.loadAddr.toNat then mem (base + BitVec.ofNat 64 k)
          else mem (h.loadAddr.setWidth 64 + BitVec.ofNat 64 k)) =
        mem (base + BitVec.ofNat 64 (h.fileStart o + k)))
  /-- Nothing is to be copied to 0, where the file is before, zeros apart. -/
  | present (hend : h.loadEndAddr = 0#32) (hload : h.loadAddr = 0#32)
      (hsame : ∀ k < h.loadSize n o,
        (if k < h.bssEndAddr.toNat then 0 else mem (BitVec.ofNat 64 k)) =
        mem (base + BitVec.ofNat 64 (h.fileStart o + k)))

/-! ## The copy and the fill -/

section Copy

variable {mem mem' : Memory} {base p a : BitVec 64} {n o k : ℕ} {h : MultibootHeader}

/-- A header is what its bytes are. -/
theorem headerAt_congr (h : ∀ a, Within p 32 a → mem' a = mem a) :
    headerAt mem' p = headerAt mem p := by
  have hbyte : ∀ a, (a - p).toNat < 32 → mem' a = mem a := h
  have hword : ∀ q : BitVec 64, q.toNat ≤ 28 → read32 mem' (p + q) = read32 mem (p + q) :=
    fun q hq => read32_congr fun a ha => hbyte a (by bv_omega)
  have hmagic : read32 mem' p = read32 mem p := read32_congr fun a ha => hbyte a (by omega)
  rw [headerAt, headerAt, hmagic, hword 4 (by decide), hword 8 (by decide), hword 12 (by decide),
    hword 16 (by decide), hword 20 (by decide), hword 24 (by decide), hword 28 (by decide)]

theorem within_iff_bounds (hfits : p.toNat + n ≤ 2 ^ 64) :
    Within p n a ↔ p.toNat ≤ a.toNat ∧ a.toNat < p.toNat + n := by
  refine ⟨fun h => h.bounds hfits, fun ⟨hle, hlt⟩ => ?_⟩
  rw [Within, BitVec.toNat_sub_of_le (BitVec.le_def.mpr hle)]
  omega

/-- A range from a 32-bit address on, no longer than 4 GiB. -/
theorem within_low {x : BitVec 32} (hn : n ≤ 2 ^ 32) :
    Within (x.setWidth 64) n a ↔ x.toNat ≤ a.toNat ∧ a.toNat < x.toNat + n := by
  have hx := x.isLt
  rw [within_iff_bounds, BitVec.toNat_setWidth_of_le (by decide)]
  rw [BitVec.toNat_setWidth_of_le (by decide)]
  omega

/-- The number of bytes that the loader copies, as it computes it. -/
def MultibootHeader.copied (h : MultibootHeader) : ℕ := (h.loadEndAddr - h.loadAddr).toNat

/-- The number of bytes that the loader clears, as it computes it. -/
def MultibootHeader.cleared (h : MultibootHeader) : ℕ := (h.bssEndAddr - h.loadEndAddr).toNat

/-- What should be at `load_addr + k` after the copy and the fill. -/
def MultibootHeader.storedByte (h : MultibootHeader) (mem : Memory) (base : BitVec 64) (k : ℕ) :
    BitVec 8 :=
  if h.loadEndAddr.toNat ≤ h.loadAddr.toNat + k ∧
      h.loadAddr.toNat + k < h.loadEndAddr.toNat + h.cleared then 0
  else if k < h.copied then mem (base + BitVec.ofNat 64 k)
  else mem (h.loadAddr.setWidth 64 + BitVec.ofNat 64 k)

theorem MultibootHeader.copied_lt (h : MultibootHeader) : h.copied < 2 ^ 32 := BitVec.isLt _

theorem MultibootHeader.cleared_lt (h : MultibootHeader) : h.cleared < 2 ^ 32 := BitVec.isLt _

/-- A target range behind the image or before it. -/
theorem target_apart (hfits : base.toNat + n ≤ 2 ^ 64)
    (hapart : base.toNat + n ≤ h.loadAddr.toNat ∨ h.targetStop n o ≤ base.toNat)
    (ha : Within base n a) : ¬h.Target n o a := by
  obtain ⟨hlow, hhigh⟩ := ha.bounds hfits
  rintro ⟨hload, hstop⟩
  rcases hapart with hbelow | habove
  · omega
  · omega

theorem AoutImage.source_apart (himage : AoutImage mem base n o h) (hle : k ≤ n)
    (ha : Within base k a) : ¬h.Target n o a := by
  have hfits := himage.fits
  obtain ⟨hlow, hhigh⟩ := ha.bounds (by omega)
  exact himage.disjoint a ((within_iff_bounds hfits).mpr (by omega))

theorem AoutImage.header_apart (himage : AoutImage mem base n o h)
    (ha : Within (base + BitVec.ofNat 64 o) 32 a) : ¬h.Target n o a := by
  have hfits := himage.fits
  have hin := himage.header_inside
  have haddr : (base + BitVec.ofNat 64 o).toNat = base.toNat + o := toNat_add_ofNat (by omega)
  obtain ⟨hlow, hhigh⟩ := ha.bounds (by omega)
  refine himage.source_apart le_rfl ((within_iff_bounds hfits).mpr ?_)
  omega

/-- The memory after a copy that does not get at the image, and the fill. -/
theorem loadAout_eq (himage : AoutImage mem base n o h) (hcount : h.copied ≤ n)
    (hcopy : ∀ a, Within (h.loadAddr.setWidth 64) h.copied a → h.Target n o a) :
    (loadAout mem base (base + BitVec.ofNat 64 o)).mem =
        copyTo (copyTo mem (h.loadAddr.setWidth 64) h.copied fun k =>
          mem (base + BitVec.ofNat 64 k)) (h.loadEndAddr.setWidth 64) h.cleared (fun _ => 0) ∧
      (loadAout mem base (base + BitVec.ofNat 64 o)).written =
        [(h.loadAddr.setWidth 64, h.copied), (h.loadEndAddr.setWidth 64, h.cleared)] := by
  have hcopied : h.copied ≤ 2 ^ 64 := (h.copied_lt.trans (by decide)).le
  have hcleared : h.cleared ≤ 2 ^ 64 := (h.cleared_lt.trans (by decide)).le
  have hkept : headerAt (memcpy h.copied mem (h.loadAddr.setWidth 64) base)
      (base + BitVec.ofNat 64 o) = h := by
    rw [headerAt_congr fun a ha => memcpy_frame _ _ hcopied fun hdest =>
      himage.header_apart ha (hcopy a hdest), himage.header]
  have hmemcpy : memcpy h.copied mem (h.loadAddr.setWidth 64) base =
      copyTo mem (h.loadAddr.setWidth 64) h.copied fun k => mem (base + BitVec.ofNat 64 k) :=
    memcpy_eq _ _ hcopied fun a hsrc hdest => himage.source_apart hcount hsrc (hcopy a hdest)
  unfold MultibootHeader.copied at hkept hmemcpy
  simp only [loadAout, himage.header, hkept]
  rw [hmemcpy]
  exact ⟨memset_eq _ _ hcleared, rfl⟩

/-- The byte at `load_addr + k` after the copy and the fill. -/
theorem loadAout_byte (himage : AoutImage mem base n o h) (hcount : h.copied ≤ n)
    (hcopy : ∀ a, Within (h.loadAddr.setWidth 64) h.copied a → h.Target n o a)
    (hk : h.loadAddr.toNat + k < 2 ^ 64) :
    (loadAout mem base (base + BitVec.ofNat 64 o)).mem
        (h.loadAddr.setWidth 64 + BitVec.ofNat 64 k) =
      h.storedByte mem base k := by
  have haddr : (h.loadAddr.setWidth 64 + BitVec.ofNat 64 k).toNat = h.loadAddr.toNat + k := by
    rw [BitVec.toNat_add, BitVec.toNat_setWidth_of_le (by decide), BitVec.toNat_ofNat]
    omega
  have hzero : Within (h.loadEndAddr.setWidth 64) h.cleared
        (h.loadAddr.setWidth 64 + BitVec.ofNat 64 k) ↔
      h.loadEndAddr.toNat ≤ h.loadAddr.toNat + k ∧
        h.loadAddr.toNat + k < h.loadEndAddr.toNat + h.cleared := by
    rw [within_low h.cleared_lt.le, haddr]
  have hoff : (h.loadAddr.setWidth 64 + BitVec.ofNat 64 k - h.loadAddr.setWidth 64).toNat = k :=
    toNat_add_ofNat_sub (by omega)
  rw [(loadAout_eq himage hcount hcopy).1, MultibootHeader.storedByte]
  by_cases hz : Within (h.loadEndAddr.setWidth 64) h.cleared
      (h.loadAddr.setWidth 64 + BitVec.ofNat 64 k)
  · rw [copyTo_of_within hz, if_pos (hzero.mp hz)]
  · rw [copyTo_of_not_within hz, if_neg (mt hzero.mpr hz)]
    unfold copyTo
    rw [hoff]

theorem MultibootHeader.copied_of_le (hle : h.loadAddr ≤ h.loadEndAddr) :
    h.copied = h.loadEndAddr.toNat - h.loadAddr.toNat :=
  BitVec.toNat_sub_of_le hle

/-- The copy goes around when `load_end_addr` is 0, as a number of 32 bits. -/
theorem MultibootHeader.copied_of_zero (hend : h.loadEndAddr = 0#32) (hload : h.loadAddr ≠ 0#32) :
    h.copied = 2 ^ 32 - h.loadAddr.toNat := by
  have hpos : 0 < h.loadAddr.toNat := BitVec.toNat_pos_of_ne_zero hload
  rw [MultibootHeader.copied, hend]
  bv_omega

theorem MultibootHeader.copied_of_zeros (hend : h.loadEndAddr = 0#32)
    (hload : h.loadAddr = 0#32) : h.copied = 0 := by
  rw [MultibootHeader.copied, hend, hload]
  rfl

/-- The fill, when it goes up, has the length that is meant. -/
theorem MultibootHeader.cleared_of_le (hle : h.loadEndAddr ≤ h.bssEndAddr) :
    h.cleared = h.bssEndAddr.toNat - h.loadEndAddr.toNat :=
  BitVec.toNat_sub_of_le hle

/-- The fill begins at 0 when `load_end_addr` is 0. -/
theorem MultibootHeader.cleared_of_zero (hend : h.loadEndAddr = 0#32) :
    h.cleared = h.bssEndAddr.toNat := by
  rw [MultibootHeader.cleared, hend, BitVec.sub_zero]

theorem MultibootHeader.cleared_of_zeros (hend : h.loadEndAddr = 0#32)
    (hbss : h.bssEndAddr = 0#32) : h.cleared = 0 := by
  rw [h.cleared_of_zero hend, hbss]
  rfl

/-- The loaded part ends at `load_end_addr`, when that is not 0. -/
theorem MultibootHeader.loadStop_of_le (hend : h.loadEndAddr ≠ 0#32)
    (hle : h.loadAddr ≤ h.loadEndAddr) : h.loadStop n o = h.loadEndAddr.toNat := by
  rw [MultibootHeader.loadStop, MultibootHeader.loadSize, if_neg hend]
  exact Nat.add_sub_of_le (BitVec.le_def.mp hle)

/-- What a copy that stays in the target says of the address fields. -/
theorem copy_le
    (hcopy : ∀ a, Within (h.loadAddr.setWidth 64) h.copied a → h.Target n o a) :
    (h.loadEndAddr ≠ 0#32 → h.loadAddr ≤ h.loadEndAddr ∧ h.copied = h.loadSize n o) ∧
      (h.loadEndAddr = 0#32 → h.loadAddr ≠ 0#32 →
        h.copied = 2 ^ 32 - h.loadAddr.toNat ∧ 2 ^ 32 ≤ h.loadStop n o) := by
  have hbss := h.bssEndAddr.isLt
  have hlast : h.copied ≠ 0 → h.loadAddr.toNat + h.copied ≤ h.targetStop n o := by
    intro hne
    have hcopied := h.copied_lt
    have hload := h.loadAddr.isLt
    have haddr : (BitVec.ofNat 64 (h.loadAddr.toNat + h.copied - 1)).toNat =
        h.loadAddr.toNat + h.copied - 1 := by
      rw [BitVec.toNat_ofNat]
      omega
    have hin := (hcopy _ ((within_low hcopied.le).mpr (by rw [haddr]; omega))).2
    rw [haddr] at hin
    omega
  unfold MultibootHeader.targetStop at hlast
  constructor
  · intro hend
    have hle : h.loadAddr ≤ h.loadEndAddr := by
      by_contra hlt
      -- the copy would go around
      have hcopied : h.copied = 2 ^ 32 - (h.loadAddr.toNat - h.loadEndAddr.toNat) := by
        unfold MultibootHeader.copied
        bv_omega
      have hsize : h.loadStop n o = h.loadAddr.toNat := by
        rw [MultibootHeader.loadStop, MultibootHeader.loadSize, if_neg hend]
        bv_omega
      have hload := h.loadAddr.isLt
      have hpos : 0 < h.loadEndAddr.toNat := BitVec.toNat_pos_of_ne_zero hend
      have hstop := hlast (by omega)
      rw [hsize] at hstop
      rw [BitVec.le_def] at hlt
      omega
    exact ⟨hle, by rw [h.copied_of_le hle, MultibootHeader.loadSize, if_neg hend]⟩
  · intro hend hload
    have hcopied := h.copied_of_zero hend hload
    have hlt := h.loadAddr.isLt
    have hstop := hlast (by omega)
    exact ⟨hcopied, by omega⟩

/-- What a fill that stays in the target says of the address fields. -/
theorem fill_le (hload : h.loadEndAddr ≠ 0#32 → h.loadAddr ≤ h.loadEndAddr)
    (hfill : ∀ a, Within (h.loadEndAddr.setWidth 64) h.cleared a → h.Target n o a) :
    (h.loadEndAddr ≠ 0#32 → h.loadEndAddr ≤ h.bssEndAddr) ∧
      (h.loadEndAddr = 0#32 → h.loadAddr ≠ 0#32 → h.bssEndAddr = 0#32) := by
  have hfirst : h.cleared ≠ 0 → h.Target n o (h.loadEndAddr.setWidth 64) := fun hne =>
    hfill _ (within_low h.cleared_lt.le |>.mpr (by
      rw [BitVec.toNat_setWidth_of_le (by decide)]
      omega))
  unfold MultibootHeader.Target MultibootHeader.targetStop at hfirst
  rw [BitVec.toNat_setWidth_of_le (by decide)] at hfirst
  constructor
  · intro hend
    by_contra hlt
    have hcleared : h.cleared ≠ 0 := by
      unfold MultibootHeader.cleared
      bv_omega
    have hstop : h.loadStop n o = h.loadEndAddr.toNat := h.loadStop_of_le hend (hload hend)
    have hin := (hfirst hcleared).2
    rw [BitVec.le_def] at hlt
    omega
  · intro hend hne
    by_contra hbss
    have hcleared : h.cleared ≠ 0 := by
      rw [h.cleared_of_zero hend]
      exact fun hzero => hbss (BitVec.eq_of_toNat_eq hzero)
    have hin := (hfirst hcleared).1
    rw [hend] at hin
    exact hne (BitVec.eq_of_toNat_eq (Nat.le_zero.mp hin))

/-- The stores stay in the target for three shapes of the address fields. -/
theorem target_contains_iff :
    ((∀ a, Within (h.loadAddr.setWidth 64) h.copied a → h.Target n o a) ∧
        ∀ a, Within (h.loadEndAddr.setWidth 64) h.cleared a → h.Target n o a) ↔
      (h.loadEndAddr ≠ 0#32 ∧ h.loadAddr ≤ h.loadEndAddr ∧ h.loadEndAddr ≤ h.bssEndAddr) ∨
        (h.loadEndAddr = 0#32 ∧ h.loadAddr ≠ 0#32 ∧ h.bssEndAddr = 0#32 ∧ 2 ^ 32 ≤ h.loadStop n o) ∨
        (h.loadEndAddr = 0#32 ∧ h.loadAddr = 0#32) := by
  have hcopied := h.copied_lt.le
  have hcleared := h.cleared_lt.le
  have hload := h.loadAddr.isLt
  constructor
  · rintro ⟨hcopy, hfill⟩
    have hcopyLe := copy_le hcopy
    have hfillLe := fill_le (fun hend => (hcopyLe.1 hend).1) hfill
    by_cases hend : h.loadEndAddr = 0#32
    · by_cases hzero : h.loadAddr = 0#32
      · exact .inr (.inr ⟨hend, hzero⟩)
      · exact .inr (.inl ⟨hend, hzero, hfillLe.2 hend hzero, (hcopyLe.2 hend hzero).2⟩)
    · exact .inl ⟨hend, (hcopyLe.1 hend).1, hfillLe.1 hend⟩
  · unfold MultibootHeader.Target MultibootHeader.targetStop
    rintro (⟨hend, hle, hbss⟩ | ⟨hend, hne, hbss, hfull⟩ | ⟨hend, hzero⟩)
    · have hstop : h.loadStop n o = h.loadEndAddr.toNat := h.loadStop_of_le hend hle
      constructor
      · intro a ha
        rw [within_low hcopied, h.copied_of_le hle] at ha
        rw [BitVec.le_def] at hle
        omega
      · intro a ha
        rw [within_low hcleared, h.cleared_of_le hbss] at ha
        rw [BitVec.le_def] at hle hbss
        omega
    · have hcopied' : h.copied = 2 ^ 32 - h.loadAddr.toNat := h.copied_of_zero hend hne
      constructor
      · intro a ha
        rw [within_low hcopied] at ha
        omega
      · intro a ha
        rw [within_low hcleared, h.cleared_of_zeros hend hbss] at ha
        omega
    · constructor
      · intro a ha
        rw [within_low hcopied, h.copied_of_zeros hend hzero] at ha
        omega
      · intro a ha
        rw [within_low hcleared, h.cleared_of_zero hend, hend] at ha
        rw [hzero]
        rw [BitVec.toNat_ofNat, Nat.zero_mod] at ha ⊢
        omega

/-- A fill that stays in the target gets at all that is behind the loaded part. -/
theorem within_fill (hcopy : ∀ a, Within (h.loadAddr.setWidth 64) h.copied a → h.Target n o a)
    (hfill : ∀ a, Within (h.loadEndAddr.setWidth 64) h.cleared a → h.Target n o a)
    (hlow : h.loadStop n o ≤ a.toNat) (hhigh : a.toNat < h.bssEndAddr.toNat) :
    Within (h.loadEndAddr.setWidth 64) h.cleared a := by
  rw [within_low h.cleared_lt.le]
  rcases target_contains_iff.mp ⟨hcopy, hfill⟩ with
    ⟨hend, hle, hbss⟩ | ⟨hend, hne, hbss, hfull⟩ | ⟨hend, hzero⟩
  · rw [h.cleared_of_le hbss]
    rw [h.loadStop_of_le hend hle] at hlow
    omega
  · rw [hbss] at hhigh
    exact absurd hhigh (Nat.not_lt_zero _)
  · rw [h.cleared_of_zero hend, hend, BitVec.toNat_ofNat, Nat.zero_mod]
    omega

/-- The bytes at `load_addr`, by the shape of the address fields. -/
theorem storedByte_of_given (hend : h.loadEndAddr ≠ 0#32) (hle : h.loadAddr ≤ h.loadEndAddr)
    (hk : k < h.loadSize n o) : h.storedByte mem base k = mem (base + BitVec.ofNat 64 k) := by
  rw [MultibootHeader.loadSize, if_neg hend] at hk
  rw [MultibootHeader.storedByte, if_neg (by omega), if_pos (by rw [h.copied_of_le hle]; exact hk)]

theorem storedByte_of_full (hend : h.loadEndAddr = 0#32) (hload : h.loadAddr ≠ 0#32)
    (hbss : h.bssEndAddr = 0#32) :
    h.storedByte mem base k =
      if k < 2 ^ 32 - h.loadAddr.toNat then mem (base + BitVec.ofNat 64 k)
      else mem (h.loadAddr.setWidth 64 + BitVec.ofNat 64 k) := by
  rw [MultibootHeader.storedByte, h.cleared_of_zeros hend hbss, if_neg (by omega),
    h.copied_of_zero hend hload]

theorem storedByte_of_present (hend : h.loadEndAddr = 0#32) (hload : h.loadAddr = 0#32) :
    h.storedByte mem base k =
      if k < h.bssEndAddr.toNat then 0 else mem (BitVec.ofNat 64 k) := by
  have haddr : (0#32).setWidth 64 + BitVec.ofNat 64 k = BitVec.ofNat 64 k := BitVec.zero_add _
  rw [MultibootHeader.storedByte, h.cleared_of_zero hend, h.copied_of_zeros hend hload, hend, hload,
    haddr, BitVec.toNat_ofNat, Nat.zero_mod]
  simp only [Nat.zero_add, Nat.zero_le, true_and, Nat.not_lt_zero, if_false]

/-- The copy does not go beyond the end of the file when it stays in the target. -/
theorem AoutImage.copied_le (himage : AoutImage mem base n o h)
    (hcopy : ∀ a, Within (h.loadAddr.setWidth 64) h.copied a → h.Target n o a) :
    h.copied ≤ n := by
  have hinside := himage.loaded_inside
  have hcopyLe := copy_le hcopy
  by_cases hend : h.loadEndAddr = 0#32
  · by_cases hload : h.loadAddr = 0#32
    · rw [h.copied_of_zeros hend hload]
      exact Nat.zero_le _
    · obtain ⟨hcopied, hfull⟩ := hcopyLe.2 hend hload
      unfold MultibootHeader.loadStop at hfull
      omega
  · have hsize := (hcopyLe.1 hend).2
    omega

/-- The loaded part does not wrap: it would get at the end of the image. -/
theorem AoutImage.loadStop_le (himage : AoutImage mem base n o h) : h.loadStop n o ≤ 2 ^ 64 := by
  have hinside := himage.loaded_inside
  have hheader := himage.header_inside
  have hfits := himage.fits
  have hload := h.loadAddr.isLt
  by_contra hwrap
  unfold MultibootHeader.loadStop at hwrap
  have hlast : (BitVec.ofNat 64 (base.toNat + n - 1)).toNat = base.toNat + n - 1 := by
    rw [BitVec.toNat_ofNat]
    omega
  refine himage.disjoint (BitVec.ofNat 64 (base.toNat + n - 1)) ?_ ⟨?_, ?_⟩
  · rw [within_iff_bounds hfits, hlast]
    omega
  · rw [hlast]
    omega
  · rw [hlast, MultibootHeader.targetStop, MultibootHeader.loadStop]
    omega

end Copy

/-! ## The address fields -/

/-- The header that is found has `MULTIBOOT_AOUT_KLUDGE`. -/
theorem loadMultibootImage_of_aout {mem : Memory} {base : BitVec 64} {n o : ℕ}
    {h : MultibootHeader} (himage : AoutImage mem base n o h) :
    loadMultibootImage mem base =
      .ok (some ((loadAout mem base (base + BitVec.ofNat 64 o)).mem,
        (loadAout mem base (base + BitVec.ofNat 64 o)).entry)) := by
  have hkludge := himage.kludge
  rw [← himage.header] at hkludge
  rw [loadMultibootImage, himage.found, Exec.ok_bind]
  exact if_pos hkludge

/-- The loader does what the address fields say when its stores stay in the target, and leave
the right bytes in the loaded part. -/
theorem aoutLoaded_loadAout_iff {mem : Memory} {base : BitVec 64} {n o : ℕ} {h : MultibootHeader}
    (himage : AoutImage mem base n o h) :
    AoutLoaded mem base n o h (loadAout mem base (base + BitVec.ofNat 64 o)) ↔
      ((∀ a, Within (h.loadAddr.setWidth 64) h.copied a → h.Target n o a) ∧
        ∀ a, Within (h.loadEndAddr.setWidth 64) h.cleared a → h.Target n o a) ∧
      ∀ k < h.loadSize n o, h.storedByte mem base k =
        mem (base + BitVec.ofNat 64 (h.fileStart o + k)) := by
  have hstop := himage.loadStop_le
  unfold MultibootHeader.loadStop at hstop
  constructor
  · intro hl
    have hcopy : ∀ a, Within (h.loadAddr.setWidth 64) h.copied a → h.Target n o a := by
      have hfirst := hl.nothing_else _ (List.mem_cons_self ..)
      rw [himage.header] at hfirst
      exact hfirst
    have hcount := himage.copied_le hcopy
    have hfill := hl.nothing_else (h.loadEndAddr.setWidth 64, h.cleared) (by
      rw [(loadAout_eq himage hcount hcopy).2]
      exact List.mem_cons_of_mem _ (List.mem_singleton_self _))
    refine ⟨⟨hcopy, hfill⟩, fun k hk => ?_⟩
    rw [← loadAout_byte himage hcount hcopy (by omega)]
    exact hl.loaded k hk
  · rintro ⟨⟨hcopy, hfill⟩, hsame⟩
    have hcount := himage.copied_le hcopy
    refine ⟨fun k hk => ?_, ?_, ?_⟩
    · rw [loadAout_byte himage hcount hcopy (by omega)]
      exact hsame k hk
    · intro a hlow hhigh
      rw [(loadAout_eq himage hcount hcopy).1, copyTo_of_within]
      exact within_fill hcopy hfill hlow hhigh
    · rw [(loadAout_eq himage hcount hcopy).2]
      intro range hrange
      rcases List.mem_pair.mp hrange with rfl | rfl
      · exact hcopy
      · exact hfill

/-- **The a.out kludge** is followed exactly when all addresses are given, in their order, and
the file begins with what it should be loaded with, but for two accidents with `load_end_addr`
zero. -/
theorem aoutLoaded_iff {mem : Memory} {base : BitVec 64} {n o : ℕ} {h : MultibootHeader}
    (himage : AoutImage mem base n o h) :
    (∃ l, loadMultibootImage mem base = .ok (some (l.mem, l.entry)) ∧
        l = loadAout mem base (base + BitVec.ofNat 64 o) ∧ AoutLoaded mem base n o h l) ↔
      AoutFits mem base n o h := by
  have hshape : (∃ l, loadMultibootImage mem base = .ok (some (l.mem, l.entry)) ∧
        l = loadAout mem base (base + BitVec.ofNat 64 o) ∧ AoutLoaded mem base n o h l) ↔
      AoutLoaded mem base n o h (loadAout mem base (base + BitVec.ofNat 64 o)) := by
    constructor
    · rintro ⟨l, -, rfl, hl⟩
      exact hl
    · exact fun hl => ⟨_, loadMultibootImage_of_aout himage, rfl, hl⟩
  rw [hshape, aoutLoaded_loadAout_iff himage, target_contains_iff]
  constructor
  · rintro ⟨⟨hend, hle, hbss⟩ | ⟨hend, hne, hbss, hfull⟩ | ⟨hend, hzero⟩, hsame⟩
    · exact .given hend hle hbss fun k hk => by
        rw [← hsame k hk, storedByte_of_given hend hle hk]
    · exact .full hend hne hbss hfull fun k hk => by
        rw [← hsame k hk, storedByte_of_full hend hne hbss]
    · exact .present hend hzero fun k hk => by
        rw [← hsame k hk, storedByte_of_present hend hzero]
  · rintro (⟨hend, hle, hbss, hsame⟩ | ⟨hend, hne, hbss, hfull, hsame⟩ | ⟨hend, hzero, hsame⟩)
    · exact ⟨.inl ⟨hend, hle, hbss⟩, fun k hk => by
        rw [storedByte_of_given hend hle hk, hsame k hk]⟩
    · exact ⟨.inr (.inl ⟨hend, hne, hbss, hfull⟩), fun k hk => by
        rw [storedByte_of_full hend hne hbss, hsame k hk]⟩
    · exact ⟨.inr (.inr ⟨hend, hzero⟩), fun k hk => by
        rw [storedByte_of_present hend hzero, hsame k hk]⟩

/-- A file of 48 bytes at 0x400000 with its header at the offset 16, which is to be loaded from
0x100000 to 0x100020 and cleared from there to 0x100040. -/
def aoutFile (headerAddr : BitVec 32) : Memory :=
  wordsMemory [(0x400010, 0x000100001badb002), (0x400018, headerAddr ++ 0xe4514ffe#32),
    (0x400020, 0x0010002000100000), (0x400028, 0x0010000000100040)]

/-- Its header. -/
def aoutHeader (headerAddr : BitVec 32) : MultibootHeader :=
  ⟨0x1badb002, 0x00010000, 0xe4514ffe, headerAddr, 0x100000, 0x100020, 0x100040, 0x100000⟩

/-- With `header_addr` at 0x100010, the loaded part begins where the file does. -/
theorem aoutImage_aoutFile :
    AoutImage (aoutFile 0x100010) 0x400000 48 16 (aoutHeader 0x100010) where
  found := by decide +kernel
  header := by decide +kernel
  kludge := by decide
  fits := by decide
  header_inside := by decide
  loadAddr_le := by decide
  offset := by decide
  loaded_inside := by decide
  disjoint _ := target_apart (by decide) (.inr (by decide))

theorem aoutLoaded_iff_aoutFile :
    (∃ l, loadMultibootImage (aoutFile 0x100010) 0x400000 = .ok (some (l.mem, l.entry)) ∧
        l = loadAout (aoutFile 0x100010) 0x400000 (0x400000 + BitVec.ofNat 64 16) ∧
        AoutLoaded (aoutFile 0x100010) 0x400000 48 16 (aoutHeader 0x100010) l) ↔
      AoutFits (aoutFile 0x100010) 0x400000 48 16 (aoutHeader 0x100010) :=
  aoutLoaded_iff aoutImage_aoutFile

/-- With `header_addr` at 0x100000, it begins with the header. -/
theorem aoutImage_aoutFile_shifted :
    AoutImage (aoutFile 0x100000) 0x400000 48 16 (aoutHeader 0x100000) where
  found := by decide +kernel
  header := by decide +kernel
  kludge := by decide
  fits := by decide
  header_inside := by decide
  loadAddr_le := by decide
  offset := by decide
  loaded_inside := by decide
  disjoint _ := target_apart (by decide) (.inr (by decide))

/-- The file is loaded from its start and not from the header on. -/
theorem not_aoutLoaded_aoutFile :
    AoutImage (aoutFile 0x100000) 0x400000 48 16 (aoutHeader 0x100000) ∧
      ¬∃ l, loadMultibootImage (aoutFile 0x100000) 0x400000 = .ok (some (l.mem, l.entry)) ∧
        l = loadAout (aoutFile 0x100000) 0x400000 (0x400000 + BitVec.ofNat 64 16) ∧
        AoutLoaded (aoutFile 0x100000) 0x400000 48 16 (aoutHeader 0x100000) l := by
  refine ⟨aoutImage_aoutFile_shifted, ?_⟩
  rintro ⟨l, -, rfl, hl⟩
  have hfirst := ((aoutLoaded_loadAout_iff aoutImage_aoutFile_shifted).mp hl).2 0 (by decide)
  exact absurd hfirst (by decide +kernel)

end Lvisor
