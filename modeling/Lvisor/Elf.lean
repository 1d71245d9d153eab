import Lvisor.Lib.Word
import Lvisor.Multiboot
import Mathlib.Data.List.Perm.Basic

/-!
# The ELF loader (`firmware/elfload.h`)

The template is included twice, for `elf32` and for `elf64`. For each program header of type
`PT_LOAD` it copies the bytes of the file to the physical address, clears the rest of the
segment, and moves the entry point when the segment covers it.

* `memcpy_eq`, `memset_eq` — the byte loops of `lib/string.c` as one store of a range;
* `loadLoop_mem` — the memory after the loop is that of the segments stored one after another;
* `loadElf_image` — every segment is in memory as the image describes it;
* `loadLoop_entry` — the entry point goes through the headers in order;
* `entryRight_iff` — when the entry point is right, for this order of the headers and for all.
-/

namespace Lvisor

/-! ## `lib/string.c` -/

/-- `memcpy`: byte by byte, from the low end on. -/
def memcpy : ℕ → Memory → BitVec 64 → BitVec 64 → Memory
  | 0, mem, _, _ => mem
  | count + 1, mem, dest, src =>
    memcpy count (Function.update mem dest (mem src)) (dest + 1) (src + 1)

/-- `memset`: `n` bytes from an address on get the value. -/
def memset : ℕ → Memory → BitVec 64 → BitVec 8 → Memory
  | 0, mem, _, _ => mem
  | count + 1, mem, s, c => memset count (Function.update mem s c) (s + 1) c

/-- The address is one of the `n` from `p` on. -/
def Within (p : BitVec 64) (n : ℕ) (a : BitVec 64) : Prop := (a - p).toNat < n

instance (p : BitVec 64) (n : ℕ) (a : BitVec 64) : Decidable (Within p n a) :=
  inferInstanceAs (Decidable (_ < _))

section Ranges

variable {p a : BitVec 64} {n k : ℕ}

theorem toNat_sub_add_one (h : a ≠ p) : (a - p).toNat = (a - (p + 1)).toNat + 1 := by
  have hne : a.toNat ≠ p.toNat := fun heq => h (BitVec.eq_of_toNat_eq heq)
  have hp : (p + 1).toNat = (p.toNat + 1) % 2 ^ 64 := rfl
  rw [BitVec.toNat_sub, BitVec.toNat_sub, hp]
  omega

theorem toNat_add_ofNat_sub (hk : k < 2 ^ 64) : (p + BitVec.ofNat 64 k - p).toNat = k := by
  rw [BitVec.toNat_sub, BitVec.toNat_add, BitVec.toNat_ofNat]
  omega

theorem add_ofNat_inj {i j : ℕ} (hi : i < 2 ^ 64) (hj : j < 2 ^ 64)
    (h : p + BitVec.ofNat 64 i = p + BitVec.ofNat 64 j) : i = j := by
  rw [← toNat_add_ofNat_sub hi, h, toNat_add_ofNat_sub hj]

theorem add_ofNat_toNat_sub (p a : BitVec 64) : p + BitVec.ofNat 64 (a - p).toNat = a := by
  rw [BitVec.ofNat_toNat, BitVec.setWidth_eq, BitVec.add_comm, BitVec.sub_add_cancel]

theorem within_add (hk : k < n) (hn : n ≤ 2 ^ 64) : Within p n (p + BitVec.ofNat 64 k) := by
  rw [Within, toNat_add_ofNat_sub (by omega)]
  exact hk

theorem within_self (hn : 0 < n) : Within p n p := by
  rw [Within, BitVec.sub_self]
  exact hn

theorem Within.mono {m : ℕ} (h : Within p n a) (hnm : n ≤ m) : Within p m a :=
  Nat.lt_of_lt_of_le h hnm

theorem Within.exists (h : Within p n a) : ∃ k < n, a = p + BitVec.ofNat 64 k :=
  ⟨_, h, (add_ofNat_toNat_sub p a).symm⟩

/-- The rest of a range is within the range. -/
theorem Within.of_succ (h : Within (p + 1) n a) (hn : n + 1 ≤ 2 ^ 64) : Within p (n + 1) a := by
  obtain ⟨k, hk, rfl⟩ := h.exists
  rw [add_one_add_ofNat]
  exact within_add (Nat.succ_lt_succ hk) hn

theorem Within.bounds (h : Within p n a) (hfits : p.toNat + n ≤ 2 ^ 64) :
    p.toNat ≤ a.toNat ∧ a.toNat < p.toNat + n := by
  rw [Within, BitVec.toNat_sub] at h
  omega

/-- A store of the first byte of a range, and then of the others. -/
theorem copyTo_update_succ {mem : Memory} {f : ℕ → BitVec 8} (hn : n < 2 ^ 64) :
    copyTo (Function.update mem p (f 0)) (p + 1) n (fun k => f (k + 1)) =
      copyTo mem p (n + 1) f := by
  funext a
  unfold copyTo
  by_cases hap : a = p
  · subst hap
    have hlast : (a - (a + 1)).toNat = 2 ^ 64 - 1 := by
      rw [← BitVec.sub_sub, BitVec.sub_self]
      rfl
    have hfirst : (a - a).toNat < n + 1 := by
      rw [BitVec.sub_self]
      exact Nat.succ_pos n
    rw [if_neg (by omega), Function.update_self, if_pos hfirst, BitVec.sub_self]
    rfl
  · rw [toNat_sub_add_one hap, Function.update_of_ne hap]
    by_cases hlt : (a - (p + 1)).toNat < n
    · rw [if_pos hlt, if_pos (Nat.succ_lt_succ hlt)]
    · rw [if_neg hlt, if_neg fun h => hlt (Nat.lt_of_succ_lt_succ h)]

/-- Two ranges, the second where the first ends, are one. -/
theorem copyTo_append {mem : Memory} {f g : ℕ → BitVec 8} {m : ℕ} (hnm : n ≤ m)
    (hm : m ≤ 2 ^ 64) :
    copyTo (copyTo mem p n f) (p + BitVec.ofNat 64 n) (m - n) g =
      copyTo mem p m fun k => if k < n then f k else g (k - n) := by
  funext a
  unfold copyTo
  rw [← BitVec.sub_sub, BitVec.toNat_sub, BitVec.toNat_ofNat]
  have hlt := (a - p).isLt
  generalize (a - p).toNat = d at hlt ⊢
  by_cases hd : d < n
  · rw [if_neg (by omega), if_pos hd, if_pos (by omega)]
    exact (if_pos hd).symm
  · have hshift : (2 ^ 64 - n % 2 ^ 64 + d) % 2 ^ 64 = d - n := by omega
    rw [hshift]
    by_cases hdm : d < m
    · rw [if_pos (by omega), if_pos hdm]
      exact (if_neg hd).symm
    · rw [if_neg (by omega), if_neg hd, if_neg hdm]

theorem copyTo_of_within {mem : Memory} {f : ℕ → BitVec 8} (h : Within p n a) :
    copyTo mem p n f a = f (a - p).toNat :=
  if_pos h

theorem copyTo_of_not_within {mem : Memory} {f : ℕ → BitVec 8} (h : ¬Within p n a) :
    copyTo mem p n f a = mem a :=
  if_neg h

end Ranges

section Copies

variable {mem : Memory} {n : ℕ}

/-- **Fill**: `memset` stores the byte in the whole range. -/
theorem memset_eq (dest : BitVec 64) (c : BitVec 8) (hn : n ≤ 2 ^ 64) :
    memset n mem dest c = copyTo mem dest n fun _ => c := by
  induction n generalizing mem dest with
  | zero => rfl
  | succ n ih =>
    rw [memset, ih _ (Nat.le_of_succ_le hn)]
    exact copyTo_update_succ (f := fun _ => c) (Nat.lt_of_succ_le hn)

/-- Bytes behind the destination of `memcpy` are not changed. -/
theorem memcpy_frame (dest src : BitVec 64) (hn : n ≤ 2 ^ 64) {a : BitVec 64}
    (ha : ¬Within dest n a) : memcpy n mem dest src a = mem a := by
  induction n generalizing mem dest src with
  | zero => rfl
  | succ n ih =>
    have hne : a ≠ dest := by
      rintro rfl
      exact ha (within_self (Nat.succ_pos n))
    have hrest : ¬Within (dest + 1) n a := fun h => ha (h.of_succ hn)
    rw [memcpy, ih _ _ (Nat.le_of_succ_le hn) hrest, Function.update_of_ne hne]

/-- **Copy**: `memcpy` of areas that do not overlap leaves at the target what was at the source. -/
theorem memcpy_eq (dest src : BitVec 64) (hn : n ≤ 2 ^ 64)
    (hsep : ∀ a, Within src n a → ¬Within dest n a) :
    memcpy n mem dest src = copyTo mem dest n fun k => mem (src + BitVec.ofNat 64 k) := by
  induction n generalizing mem dest src with
  | zero => rfl
  | succ n ih =>
    have hn' := Nat.le_of_succ_le hn
    -- the byte that is stored first is not one of the bytes still to be copied
    have hsrc : ∀ k < n, src + 1 + BitVec.ofNat 64 k ≠ dest := fun k hk heq =>
      hsep _ ((within_add hk hn').of_succ hn) (heq ▸ within_self (Nat.succ_pos n))
    rw [memcpy, ih (dest + 1) (src + 1) hn' ?_,
      ← copyTo_update_succ (Nat.lt_of_succ_le hn), BitVec.add_zero]
    · funext a
      unfold copyTo
      by_cases ha : (a - (dest + 1)).toNat < n
      · rw [if_pos ha, if_pos ha]
        dsimp only
        rw [Function.update_of_ne (hsrc _ ha), add_one_add_ofNat]
      · rw [if_neg ha, if_neg ha]
    · intro a hs hd
      exact hsep a (hs.of_succ hn) (hd.of_succ hn)

end Copies

/-! ## Headers (`sys/elf.h`) -/

/-- `ELF`, the argument of the template: the source is compiled once for each word size. -/
inductive ElfClass where
  | elf32
  | elf64
  deriving DecidableEq, Repr

/-- The bits of `Elf32_Addr` and `Elf64_Addr`, and of the offsets and sizes. -/
abbrev ElfClass.width : ElfClass → ℕ
  | .elf32 => 32
  | .elf64 => 64

/-- The fields of `elf32_hdr` and `elf64_hdr` that the loader reads. -/
structure Ehdr (w : ℕ) where
  entry : BitVec w
  phoff : BitVec w
  phnum : BitVec 16

/-- The fields of `elf32_phdr` and `elf64_phdr` that the loader reads. -/
structure Phdr (w : ℕ) where
  type : BitVec 32
  offset : BitVec w
  vaddr : BitVec w
  paddr : BitVec w
  filesz : BitVec w
  memsz : BitVec w
  deriving DecidableEq, Repr

/-- `PT_LOAD`: a header of a segment that is to be in memory. -/
abbrev ptLoad : BitVec 32 := 1#32

/-- A little-endian 16-bit load, with the byte at the higher address on top. -/
def read16 (mem : Memory) (p : BitVec 64) : BitVec 16 := mem (p + 1) ++ mem p

/-- `*hdr`: the members of the file header that the loader reads, at their offsets. -/
def ehdrAt (mem : Memory) (p : BitVec 64) : (c : ElfClass) → Ehdr c.width
  | .elf32 => ⟨read32 mem (p + 24), read32 mem (p + 28), read16 mem (p + 44)⟩
  | .elf64 => ⟨read64 mem (p + 24), read64 mem (p + 32), read16 mem (p + 56)⟩

/-- `*phdr`: the members of a program header, whose order is not the same in the two word sizes. -/
def phdrAt (mem : Memory) (p : BitVec 64) : (c : ElfClass) → Phdr c.width
  | .elf32 => ⟨read32 mem p, read32 mem (p + 4), read32 mem (p + 8), read32 mem (p + 12),
      read32 mem (p + 16), read32 mem (p + 20)⟩
  | .elf64 => ⟨read32 mem p, read64 mem (p + 8), read64 mem (p + 16), read64 mem (p + 24),
      read64 mem (p + 32), read64 mem (p + 40)⟩

/-- `sizeof(*phdr)`, by which the loader goes from one header to the next. -/
def ElfClass.sizeofPhdr : ElfClass → ℕ
  | .elf32 => 32
  | .elf64 => 56

namespace Phdr

variable {w : ℕ}

/-- `dest`: the physical address as a pointer. -/
def dest (h : Phdr w) : BitVec 64 := h.paddr.setWidth 64

/-- The bytes of the file in an image at `hdr`. -/
def source (hdr : BitVec 64) (h : Phdr w) : BitVec 64 := hdr + h.offset.setWidth 64

/-- The segment covers the virtual address, by the comparison of the source. -/
def Covers (h : Phdr w) (e : BitVec w) : Prop := h.vaddr ≤ e ∧ e - h.vaddr < h.memsz

instance (h : Phdr w) (e : BitVec w) : Decidable (h.Covers e) := inferInstanceAs (Decidable (_ ∧ _))

/-- The low 32 bits of the physical address of a virtual address. -/
def lowAddr (h : Phdr w) (e : BitVec w) : BitVec 32 := (h.paddr + (e - h.vaddr)).setWidth 32

/-- The last statement of the loop: "check if entry is in va". -/
def translate (h : Phdr w) (entry : BitVec 32) : BitVec 32 :=
  if h.Covers (entry.setWidth w) then h.lowAddr (entry.setWidth w) else entry

end Phdr

/-! ## The loader -/

/-- The bytes of a segment: the copy of the file and the clearing behind it. The header is read
again after the copy. -/
def loadSegment (c : ElfClass) (hdr phdr : BitVec 64) (mem : Memory) : Memory :=
  let h := phdrAt mem phdr c
  let dest := h.dest
  let mem := memcpy h.filesz.toNat mem dest (h.source hdr)
  let h := phdrAt mem phdr c
  memset (h.memsz - h.filesz).toNat mem (dest + h.filesz.setWidth 64) 0

/-- The loop of `load_elf32` and `load_elf64` over the `n` headers from `phdr` on. -/
def loadLoop (c : ElfClass) (hdr : BitVec 64) :
    ℕ → BitVec 64 → Memory → BitVec 32 → Memory × BitVec 32
  | 0, _, mem, entry => (mem, entry)
  | n + 1, phdr, mem, entry =>
    if (phdrAt mem phdr c).type ≠ ptLoad then
      loadLoop c hdr n (phdr + BitVec.ofNat 64 c.sizeofPhdr) mem entry
    else
      let mem := loadSegment c hdr phdr mem
      loadLoop c hdr n (phdr + BitVec.ofNat 64 c.sizeofPhdr) mem
        ((phdrAt mem phdr c).translate entry)

/-- `load_elf32` and `load_elf64`: the memory that they leave, and what they return. -/
def loadElf (c : ElfClass) (mem : Memory) (hdr : BitVec 64) : Memory × BitVec 32 :=
  let h := ehdrAt mem hdr c
  loadLoop c hdr h.phnum.toNat (hdr + h.phoff.setWidth 64) mem (h.entry.setWidth 32)

/-! ## The image

What the headers of an image say of memory, read before anything is stored. The loader reads each
header when its turn comes, and finds the same one unless a segment was written over the table. -/

/-- The `n` headers from `p` on, as memory has them all at one time. -/
def headersFrom (c : ElfClass) (mem : Memory) : BitVec 64 → ℕ → List (Phdr c.width)
  | _, 0 => []
  | p, n + 1 => phdrAt mem p c :: headersFrom c mem (p + BitVec.ofNat 64 c.sizeofPhdr) n

/-- The segments of the headers: those that are to be loaded, in the order of the table. -/
def loads {w : ℕ} (hs : List (Phdr w)) : List (Phdr w) := hs.filter fun h => h.type = ptLoad

/-- Where the program header table of an image is, by the file header. -/
def tableAt (c : ElfClass) (mem : Memory) (hdr : BitVec 64) : BitVec 64 :=
  hdr + (ehdrAt mem hdr c).phoff.setWidth 64

/-- The segments of an image, by its table. -/
def segments (c : ElfClass) (mem : Memory) (hdr : BitVec 64) : List (Phdr c.width) :=
  loads (headersFrom c mem (tableAt c mem hdr) (ehdrAt mem hdr c).phnum.toNat)

namespace Phdr

variable {w : ℕ}

/-- `[p_paddr, p_paddr + p_memsz)`: the bytes that the segment takes in memory. -/
def Target (h : Phdr w) : BitVec 64 → Prop := Within h.dest h.memsz.toNat

/-- The bytes of the segment in the file, as the image has it in memory. -/
def InFile (hdr : BitVec 64) (h : Phdr w) : BitVec 64 → Prop :=
  Within (h.source hdr) h.filesz.toNat

/-- The bytes of the segment as the image describes them. -/
def content (mem : Memory) (hdr : BitVec 64) (h : Phdr w) (k : ℕ) : BitVec 8 :=
  if k < h.filesz.toNat then mem (h.source hdr + BitVec.ofNat 64 k) else 0

/-- The segment in memory: the bytes of the file, and zeros behind them. -/
def place (image : Memory) (hdr : BitVec 64) (mem : Memory) (h : Phdr w) : Memory :=
  copyTo mem h.dest h.memsz.toNat (h.content image hdr)

end Phdr

/-- Segments that do not write to the table, the `bytes` bytes at `p`. -/
structure TableKept {w : ℕ} (hs : List (Phdr w)) (p : BitVec 64) (bytes : ℕ) : Prop where
  filesz_le : ∀ h ∈ hs, h.filesz.toNat ≤ h.memsz.toNat
  table : ∀ h ∈ hs, ∀ a, h.Target a → ¬Within p bytes a

/-- Segments that write neither to the table, nor to a byte of the file, nor to another
segment. -/
structure Apart {w : ℕ} (hdr : BitVec 64) (hs : List (Phdr w)) (p : BitVec 64) (bytes : ℕ) : Prop
    extends TableKept hs p bytes where
  file : ∀ h ∈ hs, ∀ g ∈ hs, ∀ a, h.Target a → ¬g.InFile hdr a
  disjoint : hs.Pairwise fun h g => ∀ a, h.Target a → ¬g.Target a

section Headers

variable {c : ElfClass} {mem mem' : Memory} {p : BitVec 64} {n : ℕ}

theorem ElfClass.toNat_lt (x : BitVec c.width) : x.toNat < 2 ^ 64 := by
  cases c with
  | elf32 => exact lt_trans (BitVec.isLt (w := 32) x) (by decide)
  | elf64 => exact BitVec.isLt (w := 64) x

theorem ElfClass.width_ge (c : ElfClass) : 32 ≤ c.width := by
  cases c with
  | elf32 => exact le_rfl
  | elf64 => exact Nat.le_of_lt (by decide)

theorem ElfClass.toNat_setWidth (x : BitVec c.width) : (x.setWidth 64).toNat = x.toNat := by
  rw [BitVec.toNat_setWidth, Nat.mod_eq_of_lt (c.toNat_lt x)]

/-- A header is what its bytes are: memory elsewhere makes no difference. -/
theorem phdrAt_congr (h : ∀ a, Within p c.sizeofPhdr a → mem' a = mem a) :
    phdrAt mem' p c = phdrAt mem p c := by
  cases c with
  | elf32 =>
    have hbyte : ∀ a, (a - p).toNat < 32 → mem' a = mem a := h
    have hword : ∀ o : BitVec 64, o.toNat ≤ 28 → read32 mem' (p + o) = read32 mem (p + o) :=
      fun o ho => read32_congr fun a ha => hbyte a (by bv_omega)
    have htype : read32 mem' p = read32 mem p :=
      read32_congr fun a ha => hbyte a (by omega)
    rw [phdrAt, phdrAt, htype, hword 4 (by decide), hword 8 (by decide), hword 12 (by decide),
      hword 16 (by decide), hword 20 (by decide)]
  | elf64 =>
    have hbyte : ∀ a, (a - p).toNat < 56 → mem' a = mem a := h
    have hword : ∀ o : BitVec 64, o.toNat ≤ 48 → read64 mem' (p + o) = read64 mem (p + o) :=
      fun o ho => read64_congr fun a ha => hbyte a (by bv_omega)
    have htype : read32 mem' p = read32 mem p :=
      read32_congr fun a ha => hbyte a (by omega)
    rw [phdrAt, phdrAt, htype, hword 8 (by decide), hword 16 (by decide), hword 24 (by decide),
      hword 32 (by decide), hword 40 (by decide)]

theorem within_head {s : ℕ} {a : BitVec 64} (h : Within p s a) : Within p ((n + 1) * s) a :=
  lt_of_lt_of_le h (Nat.le_mul_of_pos_left s (Nat.succ_pos n))

theorem within_tail {s : ℕ} {a : BitVec 64} (hsize : (n + 1) * s ≤ 2 ^ 64)
    (h : Within (p + BitVec.ofNat 64 s) (n * s) a) : Within p ((n + 1) * s) a := by
  obtain ⟨k, hk, rfl⟩ := h.exists
  rw [add_ofNat_add]
  refine within_add ?_ hsize
  rw [Nat.succ_mul, Nat.add_comm]
  exact Nat.add_lt_add_right hk s

/-- The headers are what the bytes of the table are. -/
theorem headersFrom_congr (hsize : n * c.sizeofPhdr ≤ 2 ^ 64)
    (h : ∀ a, Within p (n * c.sizeofPhdr) a → mem' a = mem a) :
    headersFrom c mem' p n = headersFrom c mem p n := by
  induction n generalizing p with
  | zero => rfl
  | succ n ih =>
    have hrest : n * c.sizeofPhdr ≤ 2 ^ 64 :=
      le_trans (Nat.mul_le_mul_right _ (Nat.le_succ n)) hsize
    rw [headersFrom, headersFrom, phdrAt_congr fun a ha => h a (within_head ha),
      ih hrest fun a ha => h a (within_tail hsize ha)]

end Headers

/-! ## One segment -/

section Segment

variable {c : ElfClass} {mem image : Memory} {hdr p : BitVec 64}

/-- The copy is a part of the segment, as the file has no more bytes than memory. -/
theorem Phdr.target_of_copy {h : Phdr c.width} (hle : h.filesz.toNat ≤ h.memsz.toNat)
    {a : BitVec 64} (ha : Within h.dest h.filesz.toNat a) : h.Target a :=
  lt_of_lt_of_le ha hle

/-- What `memset` gets, when the header has not changed. -/
theorem loadSegment_eq_memset (hle : (phdrAt mem p c).filesz.toNat ≤ (phdrAt mem p c).memsz.toNat)
    (hkept : ∀ a, (phdrAt mem p c).Target a → ¬Within p c.sizeofPhdr a) :
    loadSegment c hdr p mem =
      let h := phdrAt mem p c
      copyTo (memcpy h.filesz.toNat mem h.dest (h.source hdr))
        (h.dest + BitVec.ofNat 64 h.filesz.toNat) (h.memsz.toNat - h.filesz.toNat) fun _ => 0 := by
  have hsame : phdrAt (memcpy (phdrAt mem p c).filesz.toNat mem (phdrAt mem p c).dest
      ((phdrAt mem p c).source hdr)) p c = phdrAt mem p c :=
    phdrAt_congr fun a ha => memcpy_frame _ _ (c.toNat_lt _).le fun hcopy =>
      hkept a (Phdr.target_of_copy hle hcopy) ha
  have hoff : (phdrAt mem p c).filesz.setWidth 64 =
      BitVec.ofNat 64 (phdrAt mem p c).filesz.toNat := by
    rw [← c.toNat_setWidth, BitVec.ofNat_toNat, BitVec.setWidth_eq]
  have hlen : ((phdrAt mem p c).memsz - (phdrAt mem p c).filesz).toNat =
      (phdrAt mem p c).memsz.toNat - (phdrAt mem p c).filesz.toNat :=
    BitVec.toNat_sub_of_le (BitVec.le_def.mpr hle)
  rw [loadSegment]
  dsimp only
  rw [hsame, memset_eq _ _ (c.toNat_lt _).le, hoff, hlen]

/-- **Frame**: a segment changes its target only, whatever is there before. -/
theorem loadSegment_frame (hle : (phdrAt mem p c).filesz.toNat ≤ (phdrAt mem p c).memsz.toNat)
    (hkept : ∀ a, (phdrAt mem p c).Target a → ¬Within p c.sizeofPhdr a) {a : BitVec 64}
    (ha : ¬(phdrAt mem p c).Target a) : loadSegment c hdr p mem a = mem a := by
  have hcopy : ¬Within (phdrAt mem p c).dest (phdrAt mem p c).filesz.toNat a := fun h =>
    ha (Phdr.target_of_copy hle h)
  rw [loadSegment_eq_memset hle hkept]
  dsimp only
  rw [copyTo_of_not_within, memcpy_frame _ _ (c.toNat_lt _).le hcopy]
  -- the cleared bytes are the rest of the target
  intro hclear
  obtain ⟨k, hk, rfl⟩ := hclear.exists
  rw [add_ofNat_add] at ha
  exact ha (within_add (by omega) (c.toNat_lt _).le)

/-- **Segment**: when neither image nor header are overwritten, the target has the bytes of the
file, and then zeros. -/
theorem loadSegment_eq_place (hle : (phdrAt mem p c).filesz.toNat ≤ (phdrAt mem p c).memsz.toNat)
    (hkept : ∀ a, (phdrAt mem p c).Target a → ¬Within p c.sizeofPhdr a)
    (hfile : ∀ a, (phdrAt mem p c).Target a → ¬(phdrAt mem p c).InFile hdr a)
    (hagree : ∀ a, (phdrAt mem p c).InFile hdr a → mem a = image a) :
    loadSegment c hdr p mem = (phdrAt mem p c).place image hdr mem := by
  rw [loadSegment_eq_memset hle hkept]
  dsimp only
  rw [memcpy_eq _ _ (c.toNat_lt _).le fun a hsrc hdst =>
      hfile a (Phdr.target_of_copy hle hdst) hsrc,
    copyTo_append hle (c.toNat_lt _).le, Phdr.place]
  refine congrArg _ (funext fun k => ?_)
  rw [Phdr.content]
  by_cases hk : k < (phdrAt mem p c).filesz.toNat
  · rw [if_pos hk, if_pos hk]
    exact hagree _ (within_add hk (c.toNat_lt _).le)
  · rw [if_neg hk, if_neg hk]

end Segment

/-! ## The loop

The invariant of the loop is that memory is the image with the segments so far placed in it, one
after the other. The headers and the bytes that are still to be read are as in the image. -/

section Loop

variable {w : ℕ} {hs : List (Phdr w)} {h : Phdr w} {hdr p q a : BitVec 64} {m n : ℕ}

theorem loads_cons_of_eq (hl : h.type = ptLoad) : loads (h :: hs) = h :: loads hs :=
  List.filter_cons_of_pos (decide_eq_true hl)

theorem loads_cons_of_ne (hl : h.type ≠ ptLoad) : loads (h :: hs) = loads hs :=
  List.filter_cons_of_neg fun hd => hl (of_decide_eq_true hd)

theorem TableKept.mono (hk : TableKept hs p m) (hsub : ∀ a, Within q n a → Within p m a) :
    TableKept hs q n where
  filesz_le := hk.filesz_le
  table g hg a ha hq := hk.table g hg a ha (hsub a hq)

theorem TableKept.tail (hk : TableKept (h :: hs) p m) : TableKept hs p m where
  filesz_le g hg := hk.filesz_le g (List.mem_cons_of_mem h hg)
  table g hg := hk.table g (List.mem_cons_of_mem h hg)

theorem Apart.mono (hk : Apart hdr hs p m) (hsub : ∀ a, Within q n a → Within p m a) :
    Apart hdr hs q n where
  toTableKept := hk.toTableKept.mono hsub
  file := hk.file
  disjoint := hk.disjoint

theorem Apart.tail (hk : Apart hdr (h :: hs) p m) : Apart hdr hs p m where
  toTableKept := hk.toTableKept.tail
  file g hg f hf := hk.file g (List.mem_cons_of_mem h hg) f (List.mem_cons_of_mem h hf)
  disjoint := (List.pairwise_cons.mp hk.disjoint).2

/-- Segments stored one after another do not change the bytes outside them. -/
theorem foldl_place_of_not {image mem : Memory} (ha : ∀ g ∈ hs, ¬g.Target a) :
    hs.foldl (Phdr.place image hdr) mem a = mem a := by
  induction hs generalizing mem with
  | nil => rfl
  | cons h hs ih =>
    rw [List.foldl_cons, ih fun g hg => ha g (List.mem_cons_of_mem h hg)]
    exact copyTo_of_not_within (ha h List.mem_cons_self)

/-- And each of them is there in the end, when they are disjoint. -/
theorem foldl_place_of_mem {image mem : Memory}
    (hdisj : hs.Pairwise fun h g => ∀ a, h.Target a → ¬g.Target a) (hh : h ∈ hs)
    (ha : h.Target a) :
    hs.foldl (Phdr.place image hdr) mem a = h.content image hdr (a - h.dest).toNat := by
  induction hs generalizing mem with
  | nil => exact absurd hh List.not_mem_nil
  | cons g hs ih =>
    obtain ⟨hg, htail⟩ := List.pairwise_cons.mp hdisj
    rw [List.foldl_cons]
    rcases List.mem_cons.mp hh with rfl | hh
    · rw [foldl_place_of_not fun f hf => hg f hf a ha]
      exact copyTo_of_within ha
    · exact ih htail hh

end Loop

section Load

variable {c : ElfClass} {hdr : BitVec 64}

/-- **The memory after the loop** is that of the segments stored one after another. `image` is
the memory before the first of them. -/
theorem loadLoop_mem {image : Memory} {n : ℕ} {p : BitVec 64} {mem : Memory} {entry : BitVec 32}
    (hsize : n * c.sizeofPhdr ≤ 2 ^ 64)
    (happ : Apart hdr (loads (headersFrom c image p n)) p (n * c.sizeofPhdr))
    (htable : ∀ a, Within p (n * c.sizeofPhdr) a → mem a = image a)
    (hfile : ∀ h ∈ loads (headersFrom c image p n), ∀ a, h.InFile hdr a → mem a = image a) :
    (loadLoop c hdr n p mem entry).1 =
      (loads (headersFrom c image p n)).foldl (Phdr.place image hdr) mem := by
  induction n generalizing p mem entry with
  | zero => rfl
  | succ n ih =>
    have hrest : n * c.sizeofPhdr ≤ 2 ^ 64 :=
      le_trans (Nat.mul_le_mul_right _ (Nat.le_succ n)) hsize
    have hsub : ∀ a, Within (p + BitVec.ofNat 64 c.sizeofPhdr) (n * c.sizeofPhdr) a →
        Within p ((n + 1) * c.sizeofPhdr) a := fun a ha => within_tail hsize ha
    have hhead : phdrAt mem p c = phdrAt image p c :=
      phdrAt_congr fun a ha => htable a (within_head ha)
    rw [loadLoop]
    rw [headersFrom] at happ hfile ⊢
    by_cases hl : (phdrAt image p c).type = ptLoad
    · rw [loads_cons_of_eq hl] at happ hfile ⊢
      have hmem := List.mem_cons_self (a := phdrAt image p c)
        (l := loads (headersFrom c image (p + BitVec.ofNat 64 c.sizeofPhdr) n))
      have hle := happ.filesz_le _ hmem
      have hkept : ∀ a, (phdrAt image p c).Target a → ¬Within p c.sizeofPhdr a := fun a ha hp =>
        happ.table _ hmem a ha (within_head hp)
      have hplace : loadSegment c hdr p mem = (phdrAt image p c).place image hdr mem := by
        rw [← hhead] at hle hkept hmem ⊢
        exact loadSegment_eq_place hle hkept (hhead ▸ happ.file _ (hhead ▸ hmem) _ (hhead ▸ hmem))
          (hhead ▸ hfile _ (hhead ▸ hmem))
      rw [hhead, if_neg (not_not.mpr hl), List.foldl_cons]
      dsimp only
      rw [hplace]
      refine ih hrest (happ.tail.mono hsub) (fun a ha => ?_) fun h hh a ha => ?_
      · rw [Phdr.place, copyTo_of_not_within fun ht => happ.table _ hmem a ht (hsub a ha)]
        exact htable a (hsub a ha)
      · have hh' := List.mem_cons_of_mem (phdrAt image p c) hh
        rw [Phdr.place, copyTo_of_not_within fun ht => happ.file _ hmem h hh' a ht ha]
        exact hfile h hh' a ha
    · rw [loads_cons_of_ne hl] at happ hfile ⊢
      rw [hhead, if_pos hl]
      exact ih hrest (happ.mono hsub) (fun a ha => htable a (hsub a ha)) hfile

/-- How many bytes the table of an image has. -/
def tableBytes (c : ElfClass) (mem : Memory) (hdr : BitVec 64) : ℕ :=
  (ehdrAt mem hdr c).phnum.toNat * c.sizeofPhdr

theorem tableBytes_le (mem : Memory) : tableBytes c mem hdr ≤ 2 ^ 64 := by
  have hnum := (ehdrAt mem hdr c).phnum.isLt
  have hsize : c.sizeofPhdr ≤ 56 := by
    cases c with
    | elf32 => decide
    | elf64 => exact Nat.le_refl 56
  exact le_trans (Nat.mul_le_mul hnum.le hsize) (by decide)

/-- **The loader** leaves in memory what the image describes: of each segment the bytes of the
file and then zeros. It changes nothing else. -/
theorem loadElf_image {mem : Memory}
    (happ : Apart hdr (segments c mem hdr) (tableAt c mem hdr) (tableBytes c mem hdr)) :
    (∀ s ∈ segments c mem hdr,
        (∀ k < s.filesz.toNat, (loadElf c mem hdr).1 (s.dest + BitVec.ofNat 64 k) =
          mem (s.source hdr + BitVec.ofNat 64 k)) ∧
        ∀ k, s.filesz.toNat ≤ k → k < s.memsz.toNat →
          (loadElf c mem hdr).1 (s.dest + BitVec.ofNat 64 k) = 0) ∧
      ∀ a, (∀ s ∈ segments c mem hdr, ¬s.Target a) → (loadElf c mem hdr).1 a = mem a := by
  have hmem : (loadElf c mem hdr).1 =
      (segments c mem hdr).foldl (Phdr.place mem hdr) mem :=
    loadLoop_mem (tableBytes_le mem) happ (fun _ _ => rfl) fun _ _ _ _ => rfl
  have hbyte : ∀ s ∈ segments c mem hdr, ∀ k < s.memsz.toNat,
      (loadElf c mem hdr).1 (s.dest + BitVec.ofNat 64 k) = s.content mem hdr k := by
    intro s hs k hk
    have hlt := c.toNat_lt s.memsz
    rw [hmem, foldl_place_of_mem happ.disjoint hs (within_add hk hlt.le),
      toNat_add_ofNat_sub (by omega)]
  refine ⟨fun s hs => ⟨fun k hk => ?_, fun k hfile hk => ?_⟩, fun a ha => ?_⟩
  · rw [hbyte s hs k (lt_of_lt_of_le hk (happ.filesz_le s hs)), Phdr.content, if_pos hk]
  · rw [hbyte s hs k hk, Phdr.content, if_neg (not_lt.mpr hfile)]
  · rw [hmem, foldl_place_of_not ha]

end Load

/-! ## The entry point

The loop translates the entry point with each segment that covers it, and goes on with the
result. It has the low 32 bits of `e_entry` to begin with. So a second segment may move what the
first has moved already, and the address that comes out depends on the order of the headers. -/

/-- The segments as the loop reads them, when it looks at the entry point. -/
def segmentsRead (c : ElfClass) (hdr : BitVec 64) : ℕ → BitVec 64 → Memory → List (Phdr c.width)
  | 0, _, _ => []
  | n + 1, phdr, mem =>
    if (phdrAt mem phdr c).type ≠ ptLoad then
      segmentsRead c hdr n (phdr + BitVec.ofNat 64 c.sizeofPhdr) mem
    else
      let mem := loadSegment c hdr phdr mem
      phdrAt mem phdr c :: segmentsRead c hdr n (phdr + BitVec.ofNat 64 c.sizeofPhdr) mem

/-- The segments of an image as the loader reads them. -/
def segmentsFound (c : ElfClass) (mem : Memory) (hdr : BitVec 64) : List (Phdr c.width) :=
  segmentsRead c hdr (ehdrAt mem hdr c).phnum.toNat (tableAt c mem hdr) mem

/-- No segment moves the address: those that cover it are loaded where they are linked. -/
def Still {w : ℕ} (hs : List (Phdr w)) (x : BitVec 32) : Prop :=
  ∀ g ∈ hs, g.Covers (x.setWidth w) → g.lowAddr (x.setWidth w) = x

/-- In the order of the table, `n` segments move the address `x` to `y`, and no other moves it.
The first of them is the first that covers `x` and is not loaded there. -/
def Moved {w : ℕ} : ℕ → List (Phdr w) → BitVec 32 → BitVec 32 → Prop
  | 0, hs, x, y => x = y ∧ Still hs y
  | n + 1, hs, x, y => ∃ before t after, hs = before ++ t :: after ∧ Still before x ∧
      t.Covers (x.setWidth w) ∧ t.lowAddr (x.setWidth w) ≠ x ∧
      Moved n after (t.lowAddr (x.setWidth w)) y

/-- The entry point of the image is the physical one of the segment that covers it, and what
the image says when there is none. -/
def EntryRight {w : ℕ} (hs : List (Phdr w)) (entry : BitVec w) (r : BitVec 32) : Prop :=
  (∀ s ∈ hs, s.Covers entry → r = s.lowAddr entry) ∧
    ((∀ s ∈ hs, ¬s.Covers entry) → r = entry.setWidth 32)

/-- Segments with disjoint virtual ranges: no two of them cover the same address. -/
def VirtualApart {w : ℕ} (hs : List (Phdr w)) : Prop :=
  hs.Pairwise fun h g => ∀ e, h.Covers e → ¬g.Covers e

/-- No two segments are loaded over one address, by its low 32 bits. -/
def PhysicalApart {w : ℕ} (hs : List (Phdr w)) : Prop :=
  hs.Pairwise fun h g => ∀ x y, h.Covers x → g.Covers y → h.lowAddr x ≠ g.lowAddr y

/-- In the order of the table: no segment moves the low 32 bits of the entry point and they are
right, or the first segment that does makes them right and no segment behind it moves them on.
The headers of `found` are those that the loader reads, those of `hs` say what is right. -/
def SettledInOrder {w : ℕ} (found hs : List (Phdr w)) (entry : BitVec w) : Prop :=
  let low := entry.setWidth 32
  (Still found low ∧ EntryRight hs entry low) ∨
    ∃ before t after, found = before ++ t :: after ∧ Still before low ∧
      t.Covers (low.setWidth w) ∧
      let moved := t.lowAddr (low.setWidth w)
      EntryRight hs entry moved ∧ Still after moved

/-- In any order: what `translate` does to the low 32 bits of the entry point is right, and no
segment but the one that has done it moves the result. -/
def EntrySettled {w : ℕ} (hs : List (Phdr w)) (entry : BitVec w) : Prop :=
  let low := entry.setWidth 32
  ((∀ s ∈ hs, ¬s.Covers (low.setWidth w)) ∧ EntryRight hs entry low) ∨
    ∃ s ∈ hs, s.Covers (low.setWidth w) ∧
      let moved := s.lowAddr (low.setWidth w)
      EntryRight hs entry moved ∧
        ∀ g ∈ hs, g.Covers (moved.setWidth w) → g = s ∨ g.lowAddr (moved.setWidth w) = moved

section Entry

variable {w : ℕ} {hs : List (Phdr w)} {e r r' : BitVec 32} {entry : BitVec w}

/-- What the loop does to the entry point, segment after segment. -/
def translateAll (hs : List (Phdr w)) (e : BitVec 32) : BitVec 32 :=
  hs.foldl (fun e h => h.translate e) e

theorem Phdr.translate_of_covers {h : Phdr w} (hc : h.Covers (e.setWidth w)) :
    h.translate e = h.lowAddr (e.setWidth w) :=
  if_pos hc

theorem still_of_not (hnone : ∀ g ∈ hs, ¬g.Covers (e.setWidth w)) : Still hs e :=
  fun g hg hc => absurd hc (hnone g hg)

theorem translateAll_of_still (hstill : Still hs e) : translateAll hs e = e := by
  induction hs with
  | nil => rfl
  | cons h hs ih =>
    have hhead : h.translate e = e := by
      by_cases hc : h.Covers (e.setWidth w)
      · rw [Phdr.translate_of_covers hc, hstill h List.mem_cons_self hc]
      · exact if_neg hc
    rw [translateAll, List.foldl_cons, hhead]
    exact ih fun g hg => hstill g (List.mem_cons_of_mem h hg)

/-- The first segment that does not leave the address alone moves it. -/
theorem translateAll_append_cons {before after : List (Phdr w)} {h : Phdr w}
    (hbefore : Still before e) (hc : h.Covers (e.setWidth w)) :
    translateAll (before ++ h :: after) e = translateAll after (h.lowAddr (e.setWidth w)) := by
  have hstay : before.foldl (fun e h => h.translate e) e = e := translateAll_of_still hbefore
  rw [translateAll, List.foldl_append, hstay, List.foldl_cons, Phdr.translate_of_covers hc]
  rfl

/-- A segment that leaves the address alone can stand in front. -/
theorem Moved.cons {h : Phdr w} {n : ℕ} {x y : BitVec 32}
    (hstill : h.Covers (x.setWidth w) → h.lowAddr (x.setWidth w) = x) (hm : Moved n hs x y) :
    Moved n (h :: hs) x y := by
  cases n with
  | zero =>
    obtain ⟨rfl, hall⟩ := hm
    exact ⟨rfl, List.forall_mem_cons.mpr ⟨hstill, hall⟩⟩
  | succ n =>
    obtain ⟨before, t, after, rfl, hbefore, hmoves⟩ := hm
    exact ⟨h :: before, t, after, rfl, List.forall_mem_cons.mpr ⟨hstill, hbefore⟩, hmoves⟩

/-- **Moves**: the loop ends at `y` exactly when some number of segments moves the entry point
there. -/
theorem exists_moved_iff : (∃ n, Moved n hs e r) ↔ translateAll hs e = r := by
  constructor
  · rintro ⟨n, hm⟩
    induction n generalizing hs e with
    | zero =>
      obtain ⟨rfl, hstill⟩ := hm
      exact translateAll_of_still hstill
    | succ n ih =>
      obtain ⟨before, t, after, rfl, hbefore, hc, -, hrest⟩ := hm
      rw [translateAll_append_cons hbefore hc]
      exact ih hrest
  · rintro rfl
    induction hs generalizing e with
    | nil => exact ⟨0, rfl, fun g hg => absurd hg List.not_mem_nil⟩
    | cons h hs ih =>
      rw [translateAll, List.foldl_cons, ← translateAll]
      by_cases hc : h.Covers (e.setWidth w)
      · rw [Phdr.translate_of_covers hc]
        by_cases hmove : h.lowAddr (e.setWidth w) = e
        · rw [hmove]
          obtain ⟨n, hm⟩ := ih (e := e)
          exact ⟨n, hm.cons fun _ => hmove⟩
        · obtain ⟨n, hm⟩ := ih (e := h.lowAddr (e.setWidth w))
          have hnone : Still ([] : List (Phdr w)) e := fun g hg => absurd hg List.not_mem_nil
          exact ⟨n + 1, [], h, hs, rfl, hnone, hc, hmove, hm⟩
      · rw [Phdr.translate, if_neg hc]
        obtain ⟨n, hm⟩ := ih (e := e)
        exact ⟨n, hm.cons fun hc' => absurd hc' hc⟩

/-- Two moves or more leave a chain behind; with fewer, the entry point is settled. -/
theorem entryRight_translateAll_iff (found hs : List (Phdr w)) (entry : BitVec w) :
    EntryRight hs entry (translateAll found (entry.setWidth 32)) ↔
      SettledInOrder found hs entry ∨
        ∃ n r, Moved (n + 2) found (entry.setWidth 32) r ∧ EntryRight hs entry r := by
  constructor
  · intro hright
    obtain ⟨n, hm⟩ := exists_moved_iff.mpr (rfl : translateAll found (entry.setWidth 32) = _)
    match n with
    | 0 =>
      obtain ⟨heq, hstill⟩ := hm
      rw [← heq] at hright hstill
      exact .inl (.inl ⟨hstill, hright⟩)
    | 1 =>
      obtain ⟨before, t, after, hfound, hbefore, hc, -, heq, hafter⟩ := hm
      rw [← heq] at hright hafter
      exact .inl (.inr ⟨before, t, after, hfound, hbefore, hc, hright, hafter⟩)
    | n + 2 => exact .inr ⟨n, _, hm, hright⟩
  · rintro ((⟨hstill, hright⟩ | ⟨before, t, after, rfl, hbefore, hc, hright, hafter⟩) |
      ⟨n, r, hm, hright⟩)
    · rwa [translateAll_of_still hstill]
    · rwa [translateAll_append_cons hbefore hc, translateAll_of_still hafter]
    · rwa [exists_moved_iff.mp ⟨n + 2, hm⟩]

/-- The last move is by a segment that is loaded there. -/
theorem Moved.last {n : ℕ} {x y : BitVec 32} (hm : Moved (n + 1) hs x y) :
    ∃ u ∈ hs, ∃ z : BitVec 32, u.Covers (z.setWidth w) ∧ u.lowAddr (z.setWidth w) = y := by
  induction n generalizing hs x with
  | zero =>
    obtain ⟨before, t, after, rfl, -, hc, -, hy, -⟩ := hm
    exact ⟨t, List.mem_append_right before List.mem_cons_self, x, hc, hy⟩
  | succ n ih =>
    obtain ⟨before, t, after, rfl, -, -, -, hrest⟩ := hm
    obtain ⟨u, hu, hlast⟩ := ih hrest
    exact ⟨u, List.mem_append_right before (List.mem_cons_of_mem t hu), hlast⟩

theorem VirtualApart.perm {hs' : List (Phdr w)} (h : VirtualApart hs) (hp : hs'.Perm hs) :
    VirtualApart hs' :=
  (hp.pairwise_iff fun hab e hb ha => hab e ha hb).mpr h

/-- In a list with one segment that covers the address, no other does. -/
theorem VirtualApart.not_covers {before after : List (Phdr w)} {s : Phdr w} {x : BitVec w}
    (h : VirtualApart (before ++ s :: after)) (hc : s.Covers x) :
    (∀ g ∈ before, ¬g.Covers x) ∧ ∀ g ∈ after, ¬g.Covers x := by
  obtain ⟨-, hcons, hcross⟩ := List.pairwise_append.mp h
  exact ⟨fun g hg hgc => hcross g hg s List.mem_cons_self x hgc hc,
    fun g hg hgc => (List.pairwise_cons.mp hcons).1 g hg x hc hgc⟩

/-- A segment takes different low 32 bits to different ones. -/
theorem Phdr.lowAddr_inj {h : Phdr w} (hw : 32 ≤ w) {x y : BitVec w}
    (heq : h.lowAddr x = h.lowAddr y) : x.setWidth 32 = y.setWidth 32 := by
  unfold Phdr.lowAddr at heq
  rw [BitVec.setWidth_add _ _ hw, BitVec.setWidth_add _ _ hw] at heq
  have hsub := (BitVec.add_right_inj _).mp heq
  have hback : ∀ z : BitVec w, (z - h.vaddr).setWidth 32 + h.vaddr.setWidth 32 = z.setWidth 32 :=
    fun z => by rw [← BitVec.setWidth_add _ _ hw, BitVec.sub_add_cancel]
  rw [← hback x, ← hback y, hsub]

/-- **Two moves** do not lead to the right address, unless one segment is loaded over another or
the entry point is above 4 GiB and in no segment. -/
theorem not_moved_two (hw : 32 ≤ w) (hvirtual : VirtualApart hs) (hphysical : PhysicalApart hs)
    (hplace : (∃ s ∈ hs, s.Covers entry) ∨ entry.toNat < 2 ^ 32) (n : ℕ)
    (hm : Moved (n + 2) hs (entry.setWidth 32) r) : ¬EntryRight hs entry r := by
  obtain ⟨before, t, after, rfl, -, ht, -, hrest⟩ := hm
  intro hright
  -- below 4 GiB the segment of the first move covers the entry point itself
  have hcovered : ∃ s ∈ before ++ t :: after, s.Covers entry := by
    refine hplace.elim id fun hlt => ⟨t, List.mem_append_right before List.mem_cons_self, ?_⟩
    have hsame : (entry.setWidth 32).setWidth w = entry := by
      apply BitVec.eq_of_toNat_eq
      rw [BitVec.toNat_setWidth, BitVec.toNat_setWidth, Nat.mod_eq_of_lt hlt,
        Nat.mod_eq_of_lt entry.isLt]
    rwa [hsame] at ht
  obtain ⟨s, hmem, hc⟩ := hcovered
  have hr : r = s.lowAddr entry := hright.1 s hmem hc
  subst hr
  obtain ⟨u, hu, z, hz, hlast⟩ := hrest.last
  have hmemu : u ∈ before ++ t :: after :=
    List.mem_append_right before (List.mem_cons_of_mem t hu)
  -- the segment of the last move is `s`, and so it covers the low 32 bits, as `t` does
  have hsame : u = s := by
    by_contra hne
    have hsymm : Std.Symm fun h g : Phdr w =>
        ∀ x y, h.Covers x → g.Covers y → h.lowAddr x ≠ g.lowAddr y :=
      ⟨fun h g hhg x y hx hy heq => hhg y x hy hx heq.symm⟩
    exact hphysical.forall hmemu hmem hne _ _ hz hc hlast
  subst hsame
  have hlow : (z.setWidth w).setWidth 32 = entry.setWidth 32 := Phdr.lowAddr_inj hw hlast
  rw [BitVec.setWidth_setWidth_of_le _ hw, BitVec.setWidth_eq] at hlow
  rw [hlow] at hz
  exact (VirtualApart.not_covers hvirtual ht).2 u hu hz

theorem EntryRight.unique (h : EntryRight hs entry r) (h' : EntryRight hs entry r') : r = r' := by
  by_cases hsome : ∃ s ∈ hs, s.Covers entry
  · obtain ⟨s, hmem, hc⟩ := hsome
    rw [h.1 s hmem hc, h'.1 s hmem hc]
  · have hnone : ∀ s ∈ hs, ¬s.Covers entry := fun s hmem hc => hsome ⟨s, hmem, hc⟩
    rw [h.2 hnone, h'.2 hnone]

/-- **Any order**: the entry point is right for every order of the headers exactly when it is
settled. -/
theorem forall_perm_iff (hapart : VirtualApart hs) :
    (∀ hs', hs'.Perm hs → EntryRight hs entry (translateAll hs' (entry.setWidth 32))) ↔
      EntrySettled hs entry := by
  constructor
  · intro hall
    by_cases hnone : ∀ s ∈ hs, ¬s.Covers ((entry.setWidth 32).setWidth w)
    · have hright := hall hs (List.Perm.refl hs)
      rw [translateAll_of_still (still_of_not hnone)] at hright
      exact .inl ⟨hnone, hright⟩
    · push Not at hnone
      obtain ⟨s, hmems, hc⟩ := hnone
      have hcons : hs.Perm (s :: hs.erase s) := List.perm_cons_erase hmems
      -- the order with this segment at the end
      have hlast : (hs.erase s ++ [s]).Perm hs := (List.perm_append_singleton s _).trans hcons.symm
      have hmoved := hall _ hlast
      rw [translateAll_append_cons (still_of_not ((hapart.perm hlast).not_covers hc).1) hc]
        at hmoved
      refine .inr ⟨s, hmems, hc, hmoved, fun g hg hgc => ?_⟩
      by_cases hgs : g = s
      · exact .inl hgs
      · -- the order with this segment first and the other one at the end
        have hmem : g ∈ hs.erase s := (List.mem_erase_of_ne hgs).mpr hg
        have hends : (s :: ((hs.erase s).erase g ++ [g])).Perm hs :=
          (((List.perm_append_singleton g _).trans (List.perm_cons_erase hmem).symm).cons s).trans
            hcons.symm
        have htwice := hall _ hends
        have hrest := (List.pairwise_cons.mp (hapart.perm hends)).2
        rw [translateAll, List.foldl_cons, Phdr.translate_of_covers hc, ← translateAll,
          translateAll_append_cons (still_of_not (VirtualApart.not_covers hrest hgc).1) hgc]
          at htwice
        exact .inr (htwice.unique hmoved)
  · rintro (⟨hnone, hright⟩ | ⟨s, hs, hc, hright, hfix⟩) hs' hperm
    · rw [translateAll_of_still (still_of_not fun g hg => hnone g (hperm.mem_iff.mp hg))]
      exact hright
    · obtain ⟨before, after, rfl⟩ := List.append_of_mem (hperm.mem_iff.mpr hs)
      obtain ⟨hbefore, hafter⟩ := (hapart.perm hperm).not_covers hc
      rw [translateAll_append_cons (still_of_not hbefore) hc,
        translateAll_of_still fun g hg hgc => ?_]
      · exact hright
      · have hmem := hperm.mem_iff.mp (List.mem_append_right before (List.mem_cons_of_mem s hg))
        rcases hfix g hmem hgc with rfl | heq
        · exact absurd hc (hafter g hg)
        · exact heq

end Entry

section Loader

variable {c : ElfClass} {hdr : BitVec 64} {mem : Memory}

/-- **The entry point after the loop**: it goes through the segments in order. -/
theorem loadLoop_entry (n : ℕ) (p : BitVec 64) (mem : Memory) (entry : BitVec 32) :
    (loadLoop c hdr n p mem entry).2 = translateAll (segmentsRead c hdr n p mem) entry := by
  induction n generalizing p mem entry with
  | zero => rfl
  | succ n ih =>
    rw [loadLoop, segmentsRead]
    by_cases hl : (phdrAt mem p c).type ≠ ptLoad
    · rw [if_pos hl, if_pos hl, ih]
    · rw [if_neg hl, if_neg hl]
      exact ih _ _ _

theorem loadElf_entry :
    (loadElf c mem hdr).2 =
      translateAll (segmentsFound c mem hdr) ((ehdrAt mem hdr c).entry.setWidth 32) :=
  loadLoop_entry _ _ _ _

/-- The loop reads the segments of the image, if they do not write to the table. -/
theorem segmentsRead_eq {n : ℕ} {p : BitVec 64} (hsize : n * c.sizeofPhdr ≤ 2 ^ 64)
    (hkept : TableKept (loads (headersFrom c mem p n)) p (n * c.sizeofPhdr)) :
    segmentsRead c hdr n p mem = loads (headersFrom c mem p n) := by
  induction n generalizing p mem with
  | zero => rfl
  | succ n ih =>
    have hrest : n * c.sizeofPhdr ≤ 2 ^ 64 :=
      le_trans (Nat.mul_le_mul_right _ (Nat.le_succ n)) hsize
    have hsub : ∀ a, Within (p + BitVec.ofNat 64 c.sizeofPhdr) (n * c.sizeofPhdr) a →
        Within p ((n + 1) * c.sizeofPhdr) a := fun a ha => within_tail hsize ha
    rw [headersFrom] at hkept ⊢
    rw [segmentsRead]
    by_cases hl : (phdrAt mem p c).type = ptLoad
    · rw [loads_cons_of_eq hl] at hkept ⊢
      rw [if_neg (not_not.mpr hl)]
      have hframe : ∀ a, Within p ((n + 1) * c.sizeofPhdr) a →
          loadSegment c hdr p mem a = mem a := fun a ha =>
        loadSegment_frame (hkept.filesz_le _ List.mem_cons_self)
          (fun b hb hp => hkept.table _ List.mem_cons_self b hb (within_head hp))
          fun ht => hkept.table _ List.mem_cons_self a ht ha
      have hhead : phdrAt (loadSegment c hdr p mem) p c = phdrAt mem p c :=
        phdrAt_congr fun a ha => hframe a (within_head ha)
      have htail := headersFrom_congr hrest fun a ha => hframe a (hsub a ha)
      dsimp only
      rw [hhead, ih hrest, htail]
      rw [htail]
      exact hkept.tail.mono hsub
    · rw [loads_cons_of_ne hl] at hkept ⊢
      rw [if_pos hl, ih hrest (hkept.mono hsub)]

/-- **The entry point** of an image is right exactly when it is settled in the order of the
headers, or two or more segments move it to the right address one after the other. The loader
reads the segments of the image, unless one of them is written over the table. When no two
segments are loaded over one address, more than one move never helps. The order of the headers
does not matter exactly when the entry point is settled in any order. -/
theorem entryRight_iff (hapart : VirtualApart (segments c mem hdr)) :
    let entry := (ehdrAt mem hdr c).entry
    let hs := segments c mem hdr
    (EntryRight hs entry (loadElf c mem hdr).2 ↔
        SettledInOrder (segmentsFound c mem hdr) hs entry ∨
          ∃ n r, Moved (n + 2) (segmentsFound c mem hdr) (entry.setWidth 32) r ∧
            EntryRight hs entry r) ∧
      (TableKept hs (tableAt c mem hdr) (tableBytes c mem hdr) →
        segmentsFound c mem hdr = hs ∧
          (PhysicalApart hs → (∃ s ∈ hs, s.Covers entry) ∨ entry.toNat < 2 ^ 32 →
            (EntryRight hs entry (loadElf c mem hdr).2 ↔ SettledInOrder hs hs entry))) ∧
      ((∀ hs', hs'.Perm hs → EntryRight hs entry (translateAll hs' (entry.setWidth 32))) ↔
        EntrySettled hs entry) := by
  intro entry hs
  have hexact := entryRight_translateAll_iff (segmentsFound c mem hdr) hs entry
  rw [← loadElf_entry] at hexact
  refine ⟨hexact, fun hkept => ?_, forall_perm_iff hapart⟩
  have hfound : segmentsFound c mem hdr = hs := segmentsRead_eq (tableBytes_le mem) hkept
  refine ⟨hfound, fun hphysical hplace => ?_⟩
  rw [hfound] at hexact
  rw [hexact, or_iff_left]
  rintro ⟨n, r, hmoved, hright⟩
  exact not_moved_two c.width_ge hapart hphysical hplace n hmoved hright

end Loader

/-! ## An image -/

/-- A segment linked at 0xc0100000 and loaded at 0x100000. -/
def highSegment : Phdr 32 := ⟨1, 0, 0xc0100000, 0x100000, 0x10, 0x1000⟩

/-- A segment linked at 0x100000 and loaded at 0x200000. -/
def lowSegment : Phdr 32 := ⟨1, 0, 0x100000, 0x200000, 0x10, 0x1000⟩

/-- An image of these two segments. The entry point is at the start of the first. -/
def twoSegmentImage : Memory :=
  wordsMemory
    [(0x400000, 0x00010101464c457f), (0x400018, 0x00000034c0100000),
      (0x400028, 0x0000000200000000),
      -- the two program headers
      (0x400034, 0x0000000000000001), (0x40003c, 0x00100000c0100000),
      (0x400044, 0x0000100000000010), (0x400054, 0x0000000000000001),
      (0x40005c, 0x0020000000100000), (0x400064, 0x0000100000000010),
      -- the Multiboot header
      (0x400080, 0x000000001badb002), (0x400088, 0x00000000e4524ffe)]

theorem segments_twoSegmentImage :
    segments .elf32 twoSegmentImage 0x400000 = [highSegment, lowSegment] := by
  decide

theorem apart_twoSegmentImage :
    Apart 0x400000 (segments .elf32 twoSegmentImage 0x400000)
      (tableAt .elf32 twoSegmentImage 0x400000) (tableBytes .elf32 twoSegmentImage 0x400000) := by
  have htable : tableAt .elf32 twoSegmentImage 0x400000 = 0x400034 := by decide
  have hbytes : tableBytes .elf32 twoSegmentImage 0x400000 = 64 := by decide
  rw [segments_twoSegmentImage, htable, hbytes]
  have hhigh : ∀ a, highSegment.Target a → 0x100000 ≤ a.toNat ∧ a.toNat < 0x101000 :=
    fun a ha => Within.bounds ha (by decide)
  have hlow : ∀ a, lowSegment.Target a → 0x200000 ≤ a.toNat ∧ a.toNat < 0x201000 :=
    fun a ha => Within.bounds ha (by decide)
  have hbelow : ∀ h ∈ [highSegment, lowSegment], ∀ a, h.Target a → a.toNat < 0x400000 :=
    List.forall_mem_cons.mpr ⟨fun a ha => (hhigh a ha).2.trans (by decide),
      List.forall_mem_singleton.mpr fun a ha => (hlow a ha).2.trans (by decide)⟩
  have hfile : ∀ h ∈ [highSegment, lowSegment], ∀ a, h.InFile 0x400000 a → 0x400000 ≤ a.toNat :=
    List.forall_mem_cons.mpr ⟨fun a ha => (Within.bounds ha (by decide)).1,
      List.forall_mem_singleton.mpr fun a ha => (Within.bounds ha (by decide)).1⟩
  refine ⟨⟨by decide, fun h hh a ha ht => ?_⟩, fun h hh g hg a ha hf => ?_, ?_⟩
  · have hge := (Within.bounds ht (by decide)).1
    have hlt := hbelow h hh a ha
    exact absurd (lt_of_le_of_lt hge hlt) (by decide)
  · exact absurd (hfile g hg a hf) (not_le.mpr (hbelow h hh a ha))
  · refine List.pairwise_pair.mpr fun a ha hl => ?_
    have hlt := (hhigh a ha).2
    have hge := (hlow a hl).1
    omega

theorem loadElf_image_twoSegmentImage :
    (∀ s ∈ segments .elf32 twoSegmentImage 0x400000,
        (∀ k < s.filesz.toNat,
          (loadElf .elf32 twoSegmentImage 0x400000).1 (s.dest + BitVec.ofNat 64 k) =
            twoSegmentImage (s.source 0x400000 + BitVec.ofNat 64 k)) ∧
        ∀ k, s.filesz.toNat ≤ k → k < s.memsz.toNat →
          (loadElf .elf32 twoSegmentImage 0x400000).1 (s.dest + BitVec.ofNat 64 k) = 0) ∧
      ∀ a, (∀ s ∈ segments .elf32 twoSegmentImage 0x400000, ¬s.Target a) →
        (loadElf .elf32 twoSegmentImage 0x400000).1 a = twoSegmentImage a :=
  loadElf_image apart_twoSegmentImage

theorem virtualApart_twoSegmentImage :
    VirtualApart (segments .elf32 twoSegmentImage 0x400000) := by
  rw [segments_twoSegmentImage]
  refine List.pairwise_pair.mpr fun (e : BitVec 32) hhigh hlow => ?_
  have hge : 0xc0100000#32 ≤ e := hhigh.1
  have hge' : 0x100000#32 ≤ e := hlow.1
  have hlt : e - 0x100000#32 < 0x1000#32 := hlow.2
  bv_omega

theorem entryRight_iff_twoSegmentImage :
    let entry := (ehdrAt twoSegmentImage 0x400000 .elf32).entry
    let hs := segments .elf32 twoSegmentImage 0x400000
    (EntryRight hs entry (loadElf .elf32 twoSegmentImage 0x400000).2 ↔
        SettledInOrder (segmentsFound .elf32 twoSegmentImage 0x400000) hs entry ∨
          ∃ n r, Moved (n + 2) (segmentsFound .elf32 twoSegmentImage 0x400000)
              (entry.setWidth 32) r ∧ EntryRight hs entry r) ∧
      (TableKept hs (tableAt .elf32 twoSegmentImage 0x400000)
          (tableBytes .elf32 twoSegmentImage 0x400000) →
        segmentsFound .elf32 twoSegmentImage 0x400000 = hs ∧
          (PhysicalApart hs → (∃ s ∈ hs, s.Covers entry) ∨ entry.toNat < 2 ^ 32 →
            (EntryRight hs entry (loadElf .elf32 twoSegmentImage 0x400000).2 ↔
              SettledInOrder hs hs entry))) ∧
      ((∀ hs', hs'.Perm hs → EntryRight hs entry (translateAll hs' (entry.setWidth 32))) ↔
        EntrySettled hs entry) :=
  entryRight_iff virtualApart_twoSegmentImage

/-- The first segment moves the entry point to 0x100000, and the second one from there to
0x200000. -/
theorem not_entryRight_twoSegmentImage :
    VirtualApart (segments .elf32 twoSegmentImage 0x400000) ∧
      (loadElf .elf32 twoSegmentImage 0x400000).2 = 0x200000 ∧
        ¬EntryRight (segments .elf32 twoSegmentImage 0x400000)
          (ehdrAt twoSegmentImage 0x400000 .elf32).entry
          (loadElf .elf32 twoSegmentImage 0x400000).2 := by
  have hentry : (ehdrAt twoSegmentImage 0x400000 .elf32).entry = (0xc0100000 : BitVec 32) := by
    decide
  have hread : segmentsFound .elf32 twoSegmentImage 0x400000 = [highSegment, lowSegment] :=
    (segmentsRead_eq (tableBytes_le _) apart_twoSegmentImage.toTableKept).trans
      segments_twoSegmentImage
  have hret : (loadElf .elf32 twoSegmentImage 0x400000).2 = 0x200000 := by
    rw [loadElf_entry, hread, hentry]
    decide
  refine ⟨virtualApart_twoSegmentImage, hret, fun hright => ?_⟩
  rw [hret, segments_twoSegmentImage, hentry] at hright
  exact absurd (hright.1 highSegment List.mem_cons_self (by decide)) (by decide)

end Lvisor
