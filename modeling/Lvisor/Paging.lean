import Lvisor.EntryCode
import Lvisor.GuestPaging
import Lvisor.Multiboot

/-!
# The page tables of `head.S` (`vmm/head.S`, `firmware/head.S`)

The VMM and the firmware each start with page tables that the assembler has laid out: one table at
the top, one below it, and four of entries of 2 MiB. The processor walks them at each access, and
sets the bits "accessed" and "dirty" on its way.

* `BootTables.words` — the tables as they are assembled; `BootTables.At` — in memory, but for the
  two bits;
* `BootTables.walk_of_maps`, `BootTables.walk_of_not_maps` — the walk of `Lvisor.GuestPaging`;
* `Access.step` — an access through the tables, `Access.flat` — the same without them;
* `paging_refines_flat` — runs of one are runs of the other.
-/

namespace Lvisor

/-! ## The tables -/

/-- `PTE_PRESENT`: without it the other bits of an entry mean nothing. -/
abbrev ptePresent : BitVec 64 := 1#64

/-- `PTE_RW`: writes are allowed below this entry. -/
abbrev pteRw : BitVec 64 := 1#64 <<< 1

/-- `PTE_USER`: accesses of the user are allowed below this entry. No entry here has it. -/
abbrev pteUser : BitVec 64 := 1#64 <<< 2

/-- `PTE_ACCESSED`, which the processor sets in each entry of a walk. -/
abbrev pteAccessed : BitVec 64 := 1#64 <<< 5

/-- `PTE_DIRTY`, which the processor sets in the last entry of the walk for a write. -/
abbrev pteDirty : BitVec 64 := 1#64 <<< 6

/-- `PTE_PSE`: the entry maps a page of 2 MiB and names no table. -/
abbrev ptePse : BitVec 64 := 1#64 <<< 7

/-- `pml4_index`: the index of an address in the table at the top. -/
def pml4Index (x : BitVec 64) : ℕ := ((x >>> 39) &&& 0x1ff#64).toNat

/-- `kpml4` of `vmm/head.S`: the same table below it for the first 512 GiB and for those from the
shared mapping on. -/
def kpml4Table (pdpt0 : BitVec 64) : List (BitVec 64) :=
  [pdpt0 + ptePresent + pteRw] ++ List.replicate (pml4Index entryOffset - 1) 0 ++
    [pdpt0 + ptePresent + pteRw] ++ List.replicate (512 - pml4Index entryOffset - 1) 0

/-- `pml4` of `firmware/head.S`: only the first 512 GiB. -/
def pml4Table (pml3 : BitVec 64) : List (BitVec 64) :=
  [pml3 + ptePresent + pteRw] ++ List.replicate (512 - 1) 0

/-- `pdpt0`, and `pml3` of the firmware: four tables of pages for the first 4 GiB, and nothing
above. -/
def pdpt0Table (pd : BitVec 64) : List (BitVec 64) :=
  (List.range 4).map (fun index => pd + BitVec.ofNat 64 (index * 0x1000) + ptePresent + pteRw) ++
    List.replicate (512 - 4) 0

/-- `pd`, and `pml2` of the firmware: the pages of the first 4 GiB, one after the other. -/
def pdTable : List (BitVec 64) :=
  (List.range (512 * 4)).map fun index =>
    BitVec.ofNat 64 (index * 0x200000) + ptePresent + pteRw + ptePse

/-- The two programs with tables of this kind: the VMM and the firmware. -/
inductive BootTables where
  | vmm
  | firmware
  deriving DecidableEq, Repr

namespace BootTables

/-- The table at the top, which names the one at the given address. -/
def top : BootTables → BitVec 64 → List (BitVec 64)
  | vmm => kpml4Table
  | firmware => pml4Table

/-- The tables from the address `base` on, one after the other. -/
def words (b : BootTables) (base : BitVec 64) : List (BitVec 64) :=
  b.top (base + 0x1000) ++ pdpt0Table (base + 0x2000) ++ pdTable

/-- The entries of the table at the top that are present. -/
def indices : BootTables → List ℕ
  | vmm => [0, 256]
  | firmware => [0]

/-- The addresses that are meant to be mapped: 4 GiB from 0 on, and for the VMM another time from
the shared mapping on. -/
def Maps : BootTables → BitVec 64 → Prop
  | vmm, va => Mapped va
  | firmware, va => va.toNat < 2 ^ 32

instance (b : BootTables) (va : BitVec 64) : Decidable (b.Maps va) :=
  match b with
  | vmm => inferInstanceAs (Decidable (Mapped va))
  | firmware => inferInstanceAs (Decidable (va.toNat < 2 ^ 32))

/-- The bits that the processor sets on its own, and that the assembler leaves clear. -/
abbrev touched : BitVec 64 := pteAccessed ||| pteDirty

/-- The tables are in memory from `base` on, as the assembler has laid them out but for those
bits. -/
def At (b : BootTables) (mem : Memory) (base : BitVec 64) : Prop :=
  ∀ i w, (b.words base)[i]? = some w →
    read64 mem (base + BitVec.ofNat 64 (8 * i)) &&& ~~~touched = w

/-- They are aligned (`.balign SZ_4K`), and below 4 GiB: CR3 is loaded by a `movl`. -/
structure Placed (base : BitVec 64) : Prop where
  aligned : base.toNat % 2 ^ 12 = 0
  fits : base.toNat + 0x6000 ≤ 2 ^ 32

/-- The bytes of the tables: six pages from `base` on. -/
def Owns (base a : BitVec 64) : Prop := (a - base).toNat < 0x6000

end BootTables

/-- The physical address that is meant: the tables map both ranges to the first 4 GiB. -/
def physAddr (va : BitVec 64) : BitVec 64 := if va.toNat < 2 ^ 32 then va else va - entryOffset

/-- The addresses of the entries that a walk reads, from the top down. -/
def GuestPath.entries (p : GuestPath) (va : BitVec 64) : List (BitVec 64) :=
  List.zipWith (fun table shift => table + ((va >>> shift) &&& 0x1ff#64) * 8#64) p.tables
    [39, 30, 21, 12]

/-! ## The entries -/

namespace BootTables

section Words

variable {b : BootTables} {base : BitVec 64}

theorem pml4Index_entryOffset : pml4Index entryOffset = 256 := by decide

theorem length_top (b : BootTables) (p : BitVec 64) : (b.top p).length = 512 := by
  cases b with
  | vmm =>
    rw [top, kpml4Table, pml4Index_entryOffset, List.length_append, List.length_append,
      List.length_append, List.length_replicate]
    rfl
  | firmware =>
    rw [top, pml4Table, List.length_append, List.length_replicate]
    rfl

theorem length_pdpt0Table (p : BitVec 64) : (pdpt0Table p).length = 512 := by
  rw [pdpt0Table, List.length_append, List.length_map, List.length_range, List.length_replicate]

theorem top_getElem? (b : BootTables) (p : BitVec 64) {k : ℕ} (hk : k < 512) :
    (b.top p)[k]? = some (if k ∈ b.indices then p + ptePresent + pteRw else 0) := by
  cases b with
  | vmm =>
    rw [top, kpml4Table, pml4Index_entryOffset]
    simp only [List.getElem?_append, List.length_append, List.length_replicate,
      List.length_singleton, List.getElem?_replicate, List.getElem?_singleton, indices,
      List.mem_cons, List.not_mem_nil, or_false]
    split_ifs <;> first | rfl | omega
  | firmware =>
    rw [top, pml4Table]
    simp only [List.getElem?_append, List.length_singleton, List.getElem?_replicate,
      List.getElem?_singleton, indices, List.mem_cons, List.not_mem_nil, or_false]
    split_ifs <;> first | rfl | omega

theorem pdpt0Table_getElem? (p : BitVec 64) {k : ℕ} (hk : k < 512) : (pdpt0Table p)[k]? =
    some (if k < 4 then p + BitVec.ofNat 64 (k * 0x1000) + ptePresent + pteRw else 0) := by
  rw [pdpt0Table, List.getElem?_append, List.length_map, List.length_range]
  by_cases h : k < 4
  · rw [if_pos h, if_pos h, List.getElem?_map, List.getElem?_range h]
    rfl
  · rw [if_neg h, if_neg h, List.getElem?_replicate, if_pos (by omega)]

theorem pdTable_getElem? {k : ℕ} (hk : k < 2048) : pdTable[k]? =
    some (BitVec.ofNat 64 (k * 0x200000) + ptePresent + pteRw + ptePse) := by
  rw [pdTable, List.getElem?_map, List.getElem?_range hk]
  rfl

/-- The entry `k` of the table at the top. -/
theorem words_top (b : BootTables) (base : BitVec 64) {k : ℕ} (hk : k < 512) :
    (b.words base)[k]? =
      some (if k ∈ b.indices then base + 0x1000 + ptePresent + pteRw else 0) := by
  rw [words, List.append_assoc, List.getElem?_append_left (by rw [length_top]; exact hk),
    top_getElem? _ _ hk]

/-- The entry `k` of the table below it: one of the tables of pages, or zero. -/
theorem words_pdpt0 (b : BootTables) (base : BitVec 64) {k : ℕ} (hk : k < 512) :
    (b.words base)[512 + k]? =
      some (if k < 4 then base + 0x2000 + BitVec.ofNat 64 (k * 0x1000) + ptePresent + pteRw
        else 0) := by
  rw [words, List.append_assoc, List.getElem?_append_right (by rw [length_top]; omega), length_top,
    Nat.add_sub_cancel_left,
    List.getElem?_append_left (by rw [length_pdpt0Table]; exact hk), pdpt0Table_getElem? _ hk]

/-- The entry `k` of the four tables of pages. -/
theorem words_pd (b : BootTables) (base : BitVec 64) {k : ℕ} (hk : k < 2048) :
    (b.words base)[1024 + k]? =
      some (BitVec.ofNat 64 (k * 0x200000) + ptePresent + pteRw + ptePse) := by
  rw [words, List.getElem?_append_right (by simp [length_top, length_pdpt0Table])]
  rw [List.length_append, length_top, length_pdpt0Table, Nat.add_sub_cancel_left,
    pdTable_getElem? hk]

end Words

/-! ## The walk

A walk goes by the bits of the address, so that it is enough to know the entries at four indices.
What the two bits of the processor do to an entry makes no difference to where it leads. -/

/-- An entry of the tables at the address `a`, for writes and for the supervisor only. -/
structure EntryAt (mem : Memory) (base a : BitVec 64) : Prop where
  index : ∃ i < 3072, a = base + BitVec.ofNat 64 (8 * i)
  write : read64 mem a &&& pteRw ≠ 0#64
  user : read64 mem a &&& pteUser = 0#64

section Walk

variable {b : BootTables} {mem : Memory} {base va : BitVec 64}

/-- The words of memory, as the walk of `Lvisor.GuestPaging` reads them. -/
abbrev rd (mem : Memory) : BitVec 64 → BitVec 64 := read64 mem

/-- A mask without those bits sees in an entry what the assembler has put there. -/
theorem and_of_touched {e w m : BitVec 64} (h : e &&& ~~~touched = w)
    (hm : ~~~touched &&& m = m) : e &&& m = w &&& m := by
  rw [← h, BitVec.and_assoc, hm]

/-- A mask of low bits sees of a word with an aligned address in it only what was added to the
address. -/
theorem and_of_low {n : ℕ} {w f m : BitVec 64} (h : w.toNat % 2 ^ n = f.toNat) (hn : n ≤ 64)
    (hm : lowMask 64 n &&& m = m) : w &&& m = f &&& m := by
  have hlow : w &&& lowMask 64 n = f := by
    apply BitVec.eq_of_toNat_eq
    rw [toNat_and_lowMask hn, h]
  rw [← hlow, BitVec.and_assoc, hm]

/-- The mask of the address field gives the table that an entry names, whatever the low bits are. -/
theorem and_pteAddrMask {w p : BitVec 64} (hp : p.toNat % 2 ^ 12 = 0) (hlt : p.toNat < 2 ^ 52)
    (h : w.toNat / 2 ^ 12 = p.toNat / 2 ^ 12) : w &&& pteAddrMask = p := by
  have hmask : pteAddrMask = lowMask 64 52 &&& ~~~lowMask 64 12 := by decide
  apply BitVec.eq_of_toNat_eq
  rw [hmask, ← BitVec.and_assoc, toNat_and_not_lowMask (by decide), toNat_and_lowMask (by decide)]
  omega

/-- The index of an address at a level is a number below 512. -/
theorem toNat_tableIndex (va : BitVec 64) (shift : ℕ) :
    ((va >>> shift) &&& 0x1ff#64).toNat = va.toNat / 2 ^ shift % 512 := by
  have hmask : 0x1ff#64 = lowMask 64 9 := by decide
  exact hmask ▸ toNat_shiftRight_and_lowMask (by decide) va

/-- The address of the entry `k` of the table `t`, counted from the first table on. -/
theorem entry_addr (hp : Placed base) {t k : ℕ} (ht : t < 6) {x : BitVec 64} (hx : x.toNat = k)
    (hk : k < 512) : base + BitVec.ofNat 64 (t * 0x1000) + x * 8#64 =
      base + BitVec.ofNat 64 (8 * (512 * t + k)) := by
  subst hx
  have hfits := hp.fits
  apply BitVec.eq_of_toNat_eq
  rw [BitVec.toNat_add, toNat_add_ofNat (by omega), toNat_add_ofNat (by omega), BitVec.toNat_mul]
  have height : (8#64).toNat = 8 := rfl
  rw [height]
  omega

/-- The entry of the table `t` for the address. -/
theorem At.entry (h : b.At mem base) (hp : Placed base) (va : BitVec 64) (shift : ℕ) {t : ℕ}
    (ht : t < 6) {w : BitVec 64}
    (hw : (b.words base)[512 * t + va.toNat / 2 ^ shift % 512]? = some w) :
    rd mem (base + BitVec.ofNat 64 (t * 0x1000) + ((va >>> shift) &&& 0x1ff#64) * 8#64) &&&
      ~~~touched = w := by
  rw [entry_addr hp ht (toNat_tableIndex va shift) (Nat.mod_lt _ (by decide))]
  exact h _ _ hw

/-- An entry that names a table: it is present, it is no page, and its address is that of the
table. It gives the right to write, but not to the user. -/
theorem table_entry {e p : BitVec 64} (hp : p.toNat % 2 ^ 12 = 0) (hlt : p.toNat < 2 ^ 32)
    (h : e &&& ~~~touched = p + ptePresent + pteRw) :
    (e &&& 0x1#64 ≠ 0#64 ∧ e &&& 0x80#64 = 0#64 ∧ e &&& pteAddrMask = p) ∧
      e &&& pteRw ≠ 0#64 ∧ e &&& pteUser = 0#64 := by
  have hsum : (p + ptePresent + pteRw).toNat = p.toNat + 3 := by
    have hone : (ptePresent + pteRw).toNat = 3 := rfl
    rw [BitVec.add_assoc, BitVec.toNat_add, hone]
    omega
  have hlow : (p + ptePresent + pteRw).toNat % 2 ^ 12 = (3#64).toNat := by
    rw [hsum]
    change _ = 3
    omega
  have hmask : ∀ m, ~~~touched &&& m = m → lowMask 64 12 &&& m = m → e &&& m = 3#64 &&& m :=
    fun m hm hm' => (and_of_touched h hm).trans (and_of_low hlow (by decide) hm')
  refine ⟨⟨?_, ?_, ?_⟩, ?_, ?_⟩
  · rw [hmask _ (by decide) (by decide)]
    decide
  · rw [hmask _ (by decide) (by decide)]
    decide
  · rw [and_of_touched h (by decide), and_pteAddrMask hp (by omega) (by omega)]
  · rw [hmask _ (by decide) (by decide)]
    decide
  · rw [hmask _ (by decide) (by decide)]
    decide

/-- The walk goes on at the table that an entry names. -/
theorem walk_table {shift shift' : ℕ} {rest : List ℕ} {table next : BitVec 64}
    (hpresent : rd mem (table + ((va >>> shift) &&& 0x1ff#64) * 8#64) &&& 0x1#64 ≠ 0#64)
    (hsize : rd mem (table + ((va >>> shift) &&& 0x1ff#64) * 8#64) &&& 0x80#64 = 0#64)
    (hnext : rd mem (table + ((va >>> shift) &&& 0x1ff#64) * 8#64) &&& pteAddrMask = next) :
    guestWalk (rd mem) va (shift :: shift' :: rest) table =
      (guestWalk (rd mem) va (shift' :: rest) next).map fun p =>
        { p with tables := table :: p.tables } := by
  rw [guestWalk, if_neg hpresent, if_neg (List.cons_ne_nil _ _), if_neg (not_not.mpr hsize), hnext]

/-- It ends at an entry that maps a page of 2 MiB. -/
theorem walk_page {table : BitVec 64}
    (hpresent : rd mem (table + ((va >>> 21) &&& 0x1ff#64) * 8#64) &&& 0x1#64 ≠ 0#64)
    (hsize : rd mem (table + ((va >>> 21) &&& 0x1ff#64) * 8#64) &&& 0x80#64 ≠ 0#64)
    (hreserved : rd mem (table + ((va >>> 21) &&& 0x1ff#64) * 8#64) &&&
      (lowMask 64 21 &&& ~~~lowMask 64 13) = 0#64) :
    guestWalk (rd mem) va [21, 12] table =
      some ⟨[table], rd mem (table + ((va >>> 21) &&& 0x1ff#64) * 8#64), 21⟩ := by
  have hplain : ¬(21 = 39 ∨ rd mem (table + ((va >>> 21) &&& 0x1ff#64) * 8#64) &&&
      (lowMask 64 21 &&& ~~~lowMask 64 13) ≠ 0#64) := by
    rintro (h | h)
    · exact absurd h (by decide)
    · exact h hreserved
  rw [guestWalk, if_neg hpresent, if_neg (List.cons_ne_nil _ _), if_pos hsize, if_neg hplain]

/-- It ends without a result at an entry that is zero, but for bits that the processor sets. -/
theorem walk_zero {shift : ℕ} {rest : List ℕ} {table : BitVec 64}
    (h : rd mem (table + ((va >>> shift) &&& 0x1ff#64) * 8#64) &&& ~~~touched = 0#64) :
    guestWalk (rd mem) va (shift :: rest) table = none := by
  have habsent : rd mem (table + ((va >>> shift) &&& 0x1ff#64) * 8#64) &&& 0x1#64 = 0#64 := by
    rw [and_of_touched h (by decide)]
    rfl
  rw [guestWalk, if_pos habsent]

/-- An entry that maps a page: it is present, it is a page, and its reserved bits are zero. It
gives the same rights as the tables above it. -/
theorem page_entry {e : BitVec 64} {n : ℕ} (hn : n < 2048)
    (h : e &&& ~~~touched = BitVec.ofNat 64 (n * 0x200000) + ptePresent + pteRw + ptePse) :
    (e &&& 0x1#64 ≠ 0#64 ∧ e &&& 0x80#64 ≠ 0#64 ∧
      e &&& (lowMask 64 21 &&& ~~~lowMask 64 13) = 0#64) ∧
      e &&& pteRw ≠ 0#64 ∧ e &&& pteUser = 0#64 := by
  have hlow : (BitVec.ofNat 64 (n * 0x200000) + ptePresent + pteRw + ptePse).toNat % 2 ^ 21 =
      (0x83#64).toNat := by
    have hsum : (BitVec.ofNat 64 (n * 0x200000) + ptePresent + pteRw + ptePse).toNat =
        n * 0x200000 + 0x83 := by bv_omega
    rw [hsum]
    change _ = 0x83
    omega
  refine ⟨⟨?_, ?_, ?_⟩, ?_, ?_⟩ <;>
    (rw [and_of_touched h (by decide), and_of_low hlow (by decide) (by decide)]; decide)

/-- The walk goes through the tables 0, 1 and one of the four others. -/
theorem walk_of_indices (h : b.At mem base) (hp : Placed base)
    (htop : va.toNat / 2 ^ 39 % 512 ∈ b.indices) (hmid : va.toNat / 2 ^ 30 % 512 < 4) :
    ∃ ts e, guestWalk (rd mem) va [39, 30, 21, 12] base = some ⟨ts, e, 21⟩ ∧
      (∀ a ∈ (⟨ts, e, 21⟩ : GuestPath).entries va, EntryAt mem base a) ∧
      e &&& ~~~touched = BitVec.ofNat 64
        ((512 * (va.toNat / 2 ^ 30 % 512) + va.toNat / 2 ^ 21 % 512) * 0x200000) + ptePresent +
          pteRw + ptePse := by
  have haligned := hp.aligned
  have hfits := hp.fits
  have hlt21 : va.toNat / 2 ^ 21 % 512 < 512 := Nat.mod_lt _ (by decide)
  have hlt30 : va.toNat / 2 ^ 30 % 512 < 512 := Nat.mod_lt _ (by decide)
  have hlt39 : va.toNat / 2 ^ 39 % 512 < 512 := Nat.mod_lt _ (by decide)
  have htop' := h.entry hp va 39 (t := 0) (by decide) (by
    rw [Nat.mul_zero, Nat.zero_add, b.words_top base hlt39, if_pos htop])
  have hmid' := h.entry hp va 30 (t := 1) (by decide) (by
    rw [Nat.mul_one, b.words_pdpt0 base hlt30, if_pos hmid])
  generalize va.toNat / 2 ^ 30 % 512 = k at *
  have hleaf := h.entry hp va 21 (t := 2 + k) (by omega) (by
    have hindex : 512 * (2 + k) + va.toNat / 2 ^ 21 % 512 =
        1024 + (512 * k + va.toNat / 2 ^ 21 % 512) := by omega
    rw [hindex, b.words_pd base (by omega)])
  have hbase : base + BitVec.ofNat 64 (0 * 0x1000) = base := BitVec.add_zero _
  have hone : base + BitVec.ofNat 64 (1 * 0x1000) = base + 0x1000 := rfl
  have hnext : base + 0x2000 + BitVec.ofNat 64 (k * 0x1000) =
      base + BitVec.ofNat 64 ((2 + k) * 0x1000) := by bv_omega
  rw [hbase] at htop'
  rw [hone] at hmid'
  obtain ⟨⟨hpresent₁, hsize₁, htable₁⟩, hrights₁⟩ := table_entry (p := base + 0x1000)
    (by bv_omega) (by bv_omega) htop'
  obtain ⟨⟨hpresent₂, hsize₂, htable₂⟩, hrights₂⟩ := table_entry
    (p := base + 0x2000 + BitVec.ofNat 64 (k * 0x1000)) (by bv_omega) (by bv_omega) hmid'
  rw [hnext] at htable₂
  obtain ⟨⟨hpresent₃, hsize₃, hreserved₃⟩, hrights₃⟩ := page_entry (by omega) hleaf
  refine ⟨[base, base + 0x1000, base + BitVec.ofNat 64 ((2 + k) * 0x1000)], _, ?_, ?_, hleaf⟩
  · rw [walk_table hpresent₁ hsize₁ htable₁, walk_table hpresent₂ hsize₂ htable₂,
      walk_page hpresent₃ hsize₃ hreserved₃]
    rfl
  · have hindex : ∀ t < 6, ∀ shift, ∃ i < 3072,
        base + BitVec.ofNat 64 (t * 0x1000) + ((va >>> shift) &&& 0x1ff#64) * 8#64 =
          base + BitVec.ofNat 64 (8 * i) := fun t ht shift =>
      ⟨512 * t + va.toNat / 2 ^ shift % 512, by omega,
        entry_addr hp ht (toNat_tableIndex va shift) (Nat.mod_lt _ (by decide))⟩
    have hentries : ∀ e, (⟨[base, base + 0x1000, base + BitVec.ofNat 64 ((2 + k) * 0x1000)], e,
        21⟩ : GuestPath).entries va =
          [base + ((va >>> 39) &&& 0x1ff#64) * 8#64,
            base + 0x1000 + ((va >>> 30) &&& 0x1ff#64) * 8#64,
            base + BitVec.ofNat 64 ((2 + k) * 0x1000) + ((va >>> 21) &&& 0x1ff#64) * 8#64] :=
      fun _ => rfl
    rw [hentries]
    simp only [List.forall_mem_cons, List.not_mem_nil, false_implies, implies_true, and_true]
    refine ⟨⟨?_, hrights₁.1, hrights₁.2⟩, ⟨hindex 1 (by decide) 30, hrights₂.1, hrights₂.2⟩,
      hindex (2 + k) (by omega) 21, hrights₃.1, hrights₃.2⟩
    have h₁ := hindex 0 (by decide) 39
    rw [hbase] at h₁
    exact h₁

/-- There is no walk through an entry that is not present. -/
theorem walk_of_not_indices (h : b.At mem base) (hp : Placed base)
    (hno : ¬(va.toNat / 2 ^ 39 % 512 ∈ b.indices ∧ va.toNat / 2 ^ 30 % 512 < 4)) :
    guestWalk (rd mem) va [39, 30, 21, 12] base = none := by
  have haligned := hp.aligned
  have hfits := hp.fits
  have hbase : base + BitVec.ofNat 64 (0 * 0x1000) = base := BitVec.add_zero _
  have hone : base + BitVec.ofNat 64 (1 * 0x1000) = base + 0x1000 := rfl
  have hlt30 : va.toNat / 2 ^ 30 % 512 < 512 := Nat.mod_lt _ (by decide)
  have hlt39 : va.toNat / 2 ^ 39 % 512 < 512 := Nat.mod_lt _ (by decide)
  by_cases htop : va.toNat / 2 ^ 39 % 512 ∈ b.indices
  · have hmid : ¬va.toNat / 2 ^ 30 % 512 < 4 := fun hmid => hno ⟨htop, hmid⟩
    have htop' := h.entry hp va 39 (t := 0) (by decide) (by
      rw [Nat.mul_zero, Nat.zero_add, b.words_top base hlt39, if_pos htop])
    have hmid' := h.entry hp va 30 (t := 1) (by decide) (by
      rw [Nat.mul_one, b.words_pdpt0 base hlt30, if_neg hmid])
    rw [hbase] at htop'
    rw [hone] at hmid'
    obtain ⟨⟨hpresent₁, hsize₁, htable₁⟩, -⟩ := table_entry (p := base + 0x1000) (by bv_omega)
      (by bv_omega) htop'
    rw [walk_table hpresent₁ hsize₁ htable₁, walk_zero hmid']
    rfl
  · have htop' := h.entry hp va 39 (t := 0) (by decide) (by
      rw [Nat.mul_zero, Nat.zero_add, b.words_top base hlt39, if_neg htop])
    rw [hbase] at htop'
    exact walk_zero htop'

end Walk

end BootTables

/-- The addresses of 48-bit paging; any other raises a general-protection exception. -/
def CanonicalAddr (va : BitVec 64) : Prop := va.toNat < 2 ^ 47 ∨ 2 ^ 64 - 2 ^ 47 ≤ va.toNat

instance (va : BitVec 64) : Decidable (CanonicalAddr va) := inferInstanceAs (Decidable (_ ∨ _))

namespace BootTables

section Mapping

variable {b : BootTables} {mem : Memory} {base va : BitVec 64}

theorem maps_iff (hva : CanonicalAddr va) :
    b.Maps va ↔ va.toNat / 2 ^ 39 % 512 ∈ b.indices ∧ va.toNat / 2 ^ 30 % 512 < 4 := by
  unfold CanonicalAddr at hva
  have hlt := va.isLt
  cases b with
  | vmm =>
    simp only [Maps, Mapped, indices, List.mem_cons, List.not_mem_nil, or_false]
    omega
  | firmware =>
    simp only [Maps, indices, List.mem_cons, List.not_mem_nil, or_false]
    omega

theorem canonical_of_maps (h : b.Maps va) : CanonicalAddr va := by
  unfold CanonicalAddr
  cases b with
  | vmm =>
    simp only [Maps, Mapped] at h
    omega
  | firmware =>
    simp only [Maps] at h
    omega

theorem mapped_of_maps (h : b.Maps va) : Mapped va := by
  cases b with
  | vmm => exact h
  | firmware => exact .inl h

/-- Both windows begin at a multiple of 4 GiB. -/
theorem toNat_physAddr (h : Mapped va) : (physAddr va).toNat = va.toNat % 2 ^ 32 := by
  unfold Mapped at h
  unfold physAddr
  have hoffset : entryOffset.toNat = 0xffff800000000000 := rfl
  split_ifs with hlow
  · exact (Nat.mod_eq_of_lt hlow).symm
  · rw [BitVec.toNat_sub, hoffset]
    omega

/-- The address that a walk to a page of 2 MiB ends with. -/
theorem address_of_page {ts : List (BitVec 64)} {e : BitVec 64} {n : ℕ} (hn : n < 2048)
    (h : e &&& ~~~touched = BitVec.ofNat 64 (n * 0x200000) + ptePresent + pteRw + ptePse) :
    ((⟨ts, e, 21⟩ : GuestPath).address va).toNat = n * 0x200000 + va.toNat % 0x200000 := by
  have hmask : pteAddrMask &&& ~~~lowMask 64 21 = lowMask 64 52 &&& ~~~lowMask 64 21 := by decide
  have hsum : (BitVec.ofNat 64 (n * 0x200000) + ptePresent + pteRw + ptePse).toNat =
      n * 0x200000 + 0x83 := by bv_omega
  have hpage : (e &&& pteAddrMask &&& ~~~lowMask 64 21).toNat = n * 0x200000 := by
    rw [BitVec.and_assoc, and_of_touched h (by decide), hmask, ← BitVec.and_assoc,
      toNat_and_not_lowMask (by decide), toNat_and_lowMask (by decide), hsum]
    omega
  have hoffset : (va &&& lowMask 64 21).toNat = va.toNat % 0x200000 :=
    toNat_and_lowMask (by decide) va
  rw [GuestPath.address, toNat_or_of_aligned (k := 21) (by decide), hpage, hoffset]
  · rw [hpage]
    exact Nat.mul_mod_left _ _
  · rw [hoffset]
    exact Nat.mod_lt _ (by decide)

/-- **The walk of an address that is mapped** ends at the physical address that is meant, and all
entries that it reads are entries of the tables. -/
theorem walk_of_maps (h : b.At mem base) (hp : Placed base) (hmaps : b.Maps va) :
    ∃ p, guestWalk (rd mem) va [39, 30, 21, 12] base = some p ∧ p.address va = physAddr va ∧
      ∀ a ∈ p.entries va, EntryAt mem base a := by
  have hva := canonical_of_maps hmaps
  obtain ⟨htop, hmid⟩ := (maps_iff hva).mp hmaps
  obtain ⟨ts, e, hwalk, hentries, hleaf⟩ := walk_of_indices h hp htop hmid
  refine ⟨_, hwalk, ?_, hentries⟩
  apply BitVec.eq_of_toNat_eq
  rw [toNat_physAddr (mapped_of_maps hmaps), address_of_page (by omega) hleaf]
  omega

/-- **Any other address** has no walk, as long as it is canonical. -/
theorem walk_of_not_maps (h : b.At mem base) (hp : Placed base) (hva : CanonicalAddr va)
    (hno : ¬b.Maps va) : guestWalk (rd mem) va [39, 30, 21, 12] base = none :=
  walk_of_not_indices h hp fun hindices => hno ((maps_iff hva).mpr hindices)

end Mapping

end BootTables

/-- What the code of `entry.S` finds in its own address space is what the tables of the VMM map. -/
theorem translate_kpml4 {L : Layout} {mem : Memory} {va : BitVec 64}
    (h : BootTables.vmm.At mem L.kpml4) (hp : BootTables.Placed L.kpml4) (hva : CanonicalAddr va) :
    Machine.translate L L.kpml4 va =
      (guestWalk (read64 mem) va [39, 30, 21, 12] L.kpml4).map fun p => p.address va := by
  have hoffset : entryOffset.toNat = 0xffff800000000000 := rfl
  have htop : (entryOffset + sz4G).toNat = 0xffff800100000000 := rfl
  have h4G : sz4G.toNat = 0x100000000 := rfl
  by_cases hmaps : BootTables.vmm.Maps va
  · obtain ⟨p, hwalk, haddr, -⟩ := BootTables.walk_of_maps h hp hmaps
    rw [hwalk, Option.map_some, haddr, Machine.translate, physAddr]
    simp only [BitVec.le_def, BitVec.lt_def, hoffset, htop, h4G, if_true]
    have hcases : Mapped va := hmaps
    unfold Mapped at hcases
    split_ifs <;> first | rfl | omega
  · rw [BootTables.walk_of_not_maps h hp hva hmaps, Machine.translate]
    have hcases : ¬Mapped va := hmaps
    unfold Mapped at hcases
    simp only [BitVec.le_def, BitVec.lt_def, hoffset, htop, h4G, if_true]
    split_ifs <;> first | rfl | omega

/-! ## Accesses

An access sets the bits on its way and then loads or stores. A store of the program never gets at
the tables, so that the only difference to a machine without them are these bits, which the
program does not see. -/

/-- An access to a byte, of the user or of the supervisor. -/
structure Access where
  va : BitVec 64
  user : Bool
  /-- the byte that is written; `none` for a read -/
  write : Option (BitVec 8)

/-- How an access fails. -/
inductive PagingFault where
  | generalProtection
  /-- with the address that is in CR2 -/
  | page (va : BitVec 64)
  deriving DecidableEq, Repr

/-- The processor sets a bit of an entry. -/
def setEntry (bit : BitVec 64) (mem : Memory) (a : BitVec 64) : Memory :=
  storeLe mem a (read64 mem a ||| bit)

/-- The rights that all entries of a walk give. CR0.WP is set. -/
def Access.allowed (a : Access) (mem : Memory) (entries : List (BitVec 64)) : Bool :=
  (!a.user || entries.all fun e => read64 mem e &&& pteUser ≠ 0#64) &&
    (a.write.isNone || entries.all fun e => read64 mem e &&& pteRw ≠ 0#64)

/-- What the walk leaves in the entries: each is accessed, and the last is dirty if there is a
write. -/
def Access.touch (a : Access) (mem : Memory) (entries : List (BitVec 64)) : Memory :=
  let mem := entries.foldl (setEntry pteAccessed) mem
  if a.write.isSome then entries.getLast?.elim mem (setEntry pteDirty mem) else mem

/-- What an access works on: memory, and the bytes that have been read so far. -/
abbrev PagedState : Type := Memory × List (BitVec 8)

/-- The access itself at its physical address: a byte is read, or it is written. -/
def Access.perform (a : Access) (pa : BitVec 64) (s : PagedState) : PagedState :=
  a.write.elim (s.1, s.2 ++ [s.1 pa]) fun b => (Function.update s.1 pa b, s.2)

/-- An access through the tables that CR3 points to. -/
def Access.step (cr3 : BitVec 64) (s : PagedState) (a : Access) : Except PagingFault PagedState :=
  if ¬CanonicalAddr a.va then .error .generalProtection
  else (guestWalk (read64 s.1) a.va [39, 30, 21, 12] cr3).elim (.error (.page a.va)) fun p =>
    if a.allowed s.1 (p.entries a.va) then
      .ok (a.perform (p.address a.va) (a.touch s.1 (p.entries a.va), s.2))
    else .error (.page a.va)

/-- The access that is meant, on a machine without tables. -/
def Access.flat (s : PagedState) (a : Access) : PagedState := a.perform (physAddr a.va) s

/-- The fault of an access that is not meant. -/
def Access.fault (a : Access) : PagingFault :=
  if CanonicalAddr a.va then .page a.va else .generalProtection

namespace BootTables

/-- The accesses that are meant: those of the supervisor, where memory is mapped. -/
def Allows (b : BootTables) (a : Access) : Prop := b.Maps a.va ∧ a.user = false

instance (b : BootTables) (a : Access) : Decidable (b.Allows a) :=
  inferInstanceAs (Decidable (_ ∧ _))

/-- The state with tables and the state without: they differ in the bytes of the tables, which
are in the first. -/
structure Sim (b : BootTables) (base : BitVec 64) (s s' : PagedState) : Prop where
  tables : b.At s.1 base
  memory : ∀ a, ¬Owns base a → s.1 a = s'.1 a
  outputs : s.2 = s'.2

section Accesses

variable {b : BootTables} {mem : Memory} {base bit : BitVec 64} {s s' : PagedState} {a : Access}

theorem read64_setEntry (mem : Memory) (p : BitVec 64) :
    read64 (setEntry bit mem p) p = read64 mem p ||| bit :=
  read64_storeLe mem p _

theorem read64_setEntry_of_apart {p q : BitVec 64} (h : 8 ≤ (p - q).toNat)
    (h' : 8 ≤ (q - p).toNat) : read64 (setEntry bit mem p) q = read64 mem q := by
  refine read64_congr fun x hx => storeLe_of_le ?_
  bv_omega

/-- The entries are apart from each other, so that a bit of one is in no other. -/
theorem entry_apart (hp : Placed base) {i j : ℕ} (hi : i < 3072) (hj : j < 3072) (hne : i ≠ j) :
    8 ≤ (base + BitVec.ofNat 64 (8 * i) - (base + BitVec.ofNat 64 (8 * j))).toNat := by
  have hfits := hp.fits
  rw [BitVec.toNat_sub, toNat_add_ofNat (by omega), toNat_add_ofNat (by omega)]
  omega

theorem length_words (b : BootTables) (base : BitVec 64) : (b.words base).length = 3072 := by
  rw [words, List.length_append, List.length_append, length_top, length_pdpt0Table, pdTable,
    List.length_map, List.length_range]

/-- The bits of the processor do not change the tables. -/
theorem At.setEntry (h : b.At mem base) (hp : Placed base) (hbit : bit &&& ~~~touched = 0#64)
    {p : BitVec 64} (hentry : ∃ i < 3072, p = base + BitVec.ofNat 64 (8 * i)) :
    b.At (setEntry bit mem p) base := by
  obtain ⟨i, hi, rfl⟩ := hentry
  intro j w hw
  by_cases hji : j = i
  · subst hji
    have hor : ∀ x y m : BitVec 64, (x ||| y) &&& m = (x &&& m) ||| (y &&& m) := fun x y m => by
      rw [BitVec.and_comm, BitVec.and_or_distrib_left, BitVec.and_comm m x, BitVec.and_comm m y]
    rw [read64_setEntry, hor, hbit, BitVec.or_zero, h j w hw]
  · have hj : j < 3072 := by
      rw [← length_words b base]
      exact (List.getElem?_eq_some_iff.mp hw).1
    rw [read64_setEntry_of_apart (entry_apart hp hi hj (Ne.symm hji)) (entry_apart hp hj hi hji),
      h j w hw]

/-- A bit of an entry is in the tables, and memory outside of them stays as it is. -/
theorem setEntry_of_not_owns (hp : Placed base) {p q : BitVec 64}
    (hentry : ∃ i < 3072, p = base + BitVec.ofNat 64 (8 * i)) (hq : ¬Owns base q) :
    Lvisor.setEntry bit mem p q = mem q := by
  obtain ⟨i, hi, rfl⟩ := hentry
  have hfits := hp.fits
  unfold Owns at hq
  refine storeLe_of_le ?_
  bv_omega

theorem foldl_setEntry (hp : Placed base) (bit : BitVec 64) (hbit : bit &&& ~~~touched = 0#64)
    {entries : List (BitVec 64)}
    (hentries : ∀ p ∈ entries, ∃ i < 3072, p = base + BitVec.ofNat 64 (8 * i))
    (h : b.At mem base) : b.At (entries.foldl (Lvisor.setEntry bit) mem) base ∧
      ∀ q, ¬Owns base q → entries.foldl (Lvisor.setEntry bit) mem q = mem q := by
  induction entries generalizing mem with
  | nil => exact ⟨h, fun _ _ => rfl⟩
  | cons p entries ih =>
    rw [List.forall_mem_cons] at hentries
    obtain ⟨htables, hframe⟩ := ih hentries.2 (h.setEntry hp hbit hentries.1)
    exact ⟨htables, fun q hq => (hframe q hq).trans (setEntry_of_not_owns hp hentries.1 hq)⟩

/-- What a walk leaves: the tables are still there, and memory outside of them is as before. -/
theorem touch_spec (a : Access) (hp : Placed base) {entries : List (BitVec 64)}
    (hentries : ∀ p ∈ entries, ∃ i < 3072, p = base + BitVec.ofNat 64 (8 * i))
    (h : b.At mem base) : b.At (a.touch mem entries) base ∧
      ∀ q, ¬Owns base q → a.touch mem entries q = mem q := by
  obtain ⟨htables, hframe⟩ := foldl_setEntry hp pteAccessed (by decide) hentries h
  rw [Access.touch]
  split_ifs
  · cases hlast : entries.getLast? with
    | none => exact ⟨htables, hframe⟩
    | some p =>
      have hentry := hentries p (List.mem_of_getLast? hlast)
      exact ⟨htables.setEntry hp (by decide) hentry,
        fun q hq => (setEntry_of_not_owns hp hentry hq).trans (hframe q hq)⟩
  · exact ⟨htables, hframe⟩

/-- A byte outside of the tables does not change them. -/
theorem At.congr {mem' : Memory} (h : b.At mem base) (hp : Placed base)
    (hframe : ∀ q, Owns base q → mem' q = mem q) : b.At mem' base := by
  intro i w hw
  have hi : i < 3072 := by
    rw [← length_words b base]
    exact (List.getElem?_eq_some_iff.mp hw).1
  have hfits := hp.fits
  have haddr : (base + BitVec.ofNat 64 (8 * i)).toNat = base.toNat + 8 * i :=
    toNat_add_ofNat (by omega)
  have hread : read64 mem' (base + BitVec.ofNat 64 (8 * i)) =
      read64 mem (base + BitVec.ofNat 64 (8 * i)) := by
    generalize base + BitVec.ofNat 64 (8 * i) = p at haddr
    refine read64_congr fun q hq => hframe q ?_
    unfold Owns
    bv_omega
  rw [hread, h i w hw]

/-- The walk allows an access exactly if it is not one of the user, for writes as for reads. -/
theorem allowed_iff {entries : List (BitVec 64)} (hne : entries ≠ [])
    (hentries : ∀ p ∈ entries, EntryAt mem base p) :
    a.allowed mem entries = true ↔ a.user = false := by
  have hwrite : (entries.all fun e => decide (read64 mem e &&& pteRw ≠ 0#64)) = true :=
    List.all_eq_true.mpr fun e he => decide_eq_true (hentries e he).write
  have huser : (entries.all fun e => decide (read64 mem e &&& pteUser ≠ 0#64)) = false := by
    obtain ⟨e, rest, rfl⟩ := List.exists_cons_of_ne_nil hne
    rw [List.all_cons, decide_eq_false (not_not.mpr (hentries e List.mem_cons_self).user),
      Bool.false_and]
  rw [Access.allowed, hwrite, huser]
  simp

theorem entries_ne_nil {rd : BitVec 64 → BitVec 64} {va : BitVec 64} {l : List ℕ} {p : GuestPath}
    (h : guestWalk rd va l base = some p) : p.entries va ≠ [] := by
  obtain ⟨t, ts, htables⟩ := List.exists_cons_of_ne_nil
    (List.ne_nil_of_mem (mem_tables_of_guestWalk h))
  rw [GuestPath.entries, htables]
  exact List.cons_ne_nil _ _

/-- The access itself keeps the two states together, as it is not in the tables. -/
theorem Sim.perform (h : b.Sim base s s') (hp : Placed base) {pa : BitVec 64}
    (hapart : ¬Owns base pa) : b.Sim base (a.perform pa s) (a.perform pa s') := by
  unfold Access.perform
  cases a.write with
  | none =>
    refine ⟨h.tables, h.memory, ?_⟩
    simp only [Option.elim_none, h.outputs, h.memory pa hapart]
  | some byte =>
    refine ⟨h.tables.congr hp fun q hq => ?_, fun q hq => ?_, h.outputs⟩
    · exact Function.update_of_ne (fun heq => hapart (by rw [← heq]; exact hq)) _ _
    · simp only [Option.elim_some, Function.update_apply, h.memory q hq]

/-- **An access that is meant** goes through, and the states stay together. -/
theorem Sim.step (h : b.Sim base s s') (hp : Placed base) (hallows : b.Allows a)
    (hapart : ¬Owns base (physAddr a.va)) :
    ∃ t, a.step base s = .ok t ∧ b.Sim base t (a.flat s') := by
  obtain ⟨p, hwalk, haddr, hentries⟩ := walk_of_maps h.tables hp hallows.1
  obtain ⟨htables, hframe⟩ := touch_spec a hp (fun e he => (hentries e he).index) h.tables
  have htouched : b.Sim base (a.touch s.1 (p.entries a.va), s.2) s' :=
    ⟨htables, fun q hq => (hframe q hq).trans (h.memory q hq), h.outputs⟩
  refine ⟨_, ?_, htouched.perform hp hapart⟩
  have hallowed := (allowed_iff (a := a) (entries_ne_nil hwalk) hentries).mpr hallows.2
  rw [Access.step, if_neg (not_not.mpr (canonical_of_maps hallows.1)), hwalk, Option.elim_some,
    if_pos hallowed, haddr]

/-- **Any other access** faults, with the address that it was made at. -/
theorem Sim.step_fault (h : b.Sim base s s') (hp : Placed base) (hno : ¬b.Allows a) :
    a.step base s = .error a.fault := by
  by_cases hva : CanonicalAddr a.va
  · rw [Access.step, if_neg (not_not.mpr hva), Access.fault, if_pos hva]
    by_cases hmaps : b.Maps a.va
    · obtain ⟨p, hwalk, -, hentries⟩ := walk_of_maps h.tables hp hmaps
      have hdenied : ¬a.allowed s.1 (p.entries a.va) = true := fun hallowed =>
        hno ⟨hmaps, (allowed_iff (entries_ne_nil hwalk) hentries).mp hallowed⟩
      rw [hwalk, Option.elim_some, if_neg hdenied]
    · rw [walk_of_not_maps h.tables hp hva hmaps, Option.elim_none]
  · rw [Access.step, if_pos hva, Access.fault, if_neg hva]

/-- A run of accesses that are meant goes through, by induction over the accesses. -/
theorem Sim.run (h : b.Sim base s s') (hp : Placed base) {accesses : List Access}
    (hallows : ∀ a ∈ accesses, b.Allows a) (hapart : ∀ a ∈ accesses, ¬Owns base (physAddr a.va)) :
    ∃ t, runSteps (fun s a => Access.step base s a) s accesses = .ok t ∧
      b.Sim base t (accesses.foldl Access.flat s') := by
  induction accesses generalizing s s' with
  | nil => exact ⟨s, rfl, h⟩
  | cons a accesses ih =>
    rw [List.forall_mem_cons] at hallows hapart
    obtain ⟨s₁, hstep, hsim⟩ := h.step hp hallows.1 hapart.1
    obtain ⟨t, hrun, hend⟩ := ih hsim hallows.2 hapart.2
    exact ⟨t, runSteps_cons_eq_ok.mpr ⟨s₁, hstep, hrun⟩, hend⟩

end Accesses

end BootTables

/-- **Paging.** Through the tables of `head.S`, with the bits that the processor sets in them, the
accesses of the supervisor to the windows of 4 GiB go where the same access goes without tables,
as long as none is to the tables; the first other access of a run faults. -/
theorem paging_refines_flat (b : BootTables) (base : BitVec 64) (hp : BootTables.Placed base)
    (mem : Memory) (h : b.At mem base) (accesses : List Access)
    (hapart : ∀ a ∈ accesses, b.Allows a → ¬BootTables.Owns base (physAddr a.va)) :
    ((∀ a ∈ accesses, b.Allows a) →
      ∃ s, runSteps (fun s a => Access.step base s a) (mem, []) accesses = .ok s ∧
        b.Sim base s (accesses.foldl Access.flat (mem, []))) ∧
    ∀ before a after, accesses = before ++ a :: after → (∀ a ∈ before, b.Allows a) →
      ¬b.Allows a →
      runSteps (fun s a => Access.step base s a) (mem, []) accesses = .error a.fault := by
  have hinit : b.Sim base (mem, []) (mem, []) := ⟨h, fun _ _ => rfl, rfl⟩
  refine ⟨fun hallows => hinit.run hp hallows fun a ha => hapart a ha (hallows a ha), ?_⟩
  rintro before a after rfl hbefore hno
  have hmem : ∀ x ∈ before, x ∈ before ++ a :: after := fun x hx => List.mem_append_left _ hx
  obtain ⟨s, hrun, hsim⟩ := hinit.run hp hbefore fun x hx => hapart x (hmem x hx) (hbefore x hx)
  rw [runSteps_append_of_ok hrun, runSteps, hsim.step_fault hp hno]

/-! ## An instance -/

/-- The tables as they are loaded at `base`, and zeros. -/
def BootTables.image (b : BootTables) (base : BitVec 64) : Memory := fun a =>
  GuestParams.leByte ((b.words base).getD ((a - base).toNat / 8) 0) ((a - base).toNat % 8)

theorem BootTables.read64_image (b : BootTables) {base : BitVec 64} (hp : BootTables.Placed base)
    {i : ℕ} {w : BitVec 64} (hw : (b.words base)[i]? = some w) :
    read64 (b.image base) (base + BitVec.ofNat 64 (8 * i)) = w := by
  have hi : i < 3072 := by
    rw [← length_words b base]
    exact (List.getElem?_eq_some_iff.mp hw).1
  have hfits := hp.fits
  have hbyte : ∀ j < 8, b.image base (base + BitVec.ofNat 64 (8 * i) + BitVec.ofNat 64 j) =
      GuestParams.leByte w j := by
    intro j hj
    have hoffset : (base + BitVec.ofNat 64 (8 * i) + BitVec.ofNat 64 j - base).toNat =
        8 * i + j := by
      have haddr : (base + BitVec.ofNat 64 (8 * i)).toNat = base.toNat + 8 * i :=
        toNat_add_ofNat (by omega)
      rw [BitVec.toNat_sub, toNat_add_ofNat (by omega), haddr]
      omega
    have hword : (b.words base).getD i 0 = w := by
      rw [List.getD_eq_getElem?_getD, hw]
      rfl
    rw [image, hoffset, Nat.mul_add_div (by decide), Nat.div_eq_of_lt hj, Nat.add_zero, hword,
      Nat.mul_add_mod, Nat.mod_eq_of_lt hj]
  have hzero := hbyte 0 (by decide)
  rw [BitVec.add_zero] at hzero
  generalize base + BitVec.ofNat 64 (8 * i) = p at hbyte hzero
  rw [read64, read32, read32]
  simp only [BitVec.add_assoc]
  rw [hzero]
  refine Eq.trans ?_ (leBytes_append64 w)
  rw [← hbyte 1 (by decide), ← hbyte 2 (by decide), ← hbyte 3 (by decide), ← hbyte 4 (by decide),
    ← hbyte 5 (by decide), ← hbyte 6 (by decide), ← hbyte 7 (by decide)]
  rfl

/-- No entry has a bit that the processor sets. -/
theorem BootTables.and_touched_of_words (b : BootTables) {base : BitVec 64}
    (hp : BootTables.Placed base) {i : ℕ} {w : BitVec 64} (hw : (b.words base)[i]? = some w) :
    w &&& ~~~touched = w := by
  have haligned := hp.aligned
  have hfits := hp.fits
  have hi : i < 3072 := by
    rw [← length_words b base]
    exact (List.getElem?_eq_some_iff.mp hw).1
  have hlow : w.toNat % 2 ^ 7 = (0#64).toNat ∨ w.toNat % 2 ^ 7 = (3#64).toNat := by
    change w.toNat % 2 ^ 7 = 0 ∨ w.toNat % 2 ^ 7 = 3
    by_cases htop : i < 512
    · rw [b.words_top base htop] at hw
      obtain rfl := Option.some.inj hw
      split_ifs
      · right
        bv_omega
      · exact .inl rfl
    · by_cases hmid : i < 1024
      · have hindex : 512 + (i - 512) = i := by omega
        rw [← hindex, b.words_pdpt0 base (by omega)] at hw
        obtain rfl := Option.some.inj hw
        split_ifs
        · right
          bv_omega
        · exact .inl rfl
      · have hindex : 1024 + (i - 1024) = i := by omega
        rw [← hindex, b.words_pd base (by omega)] at hw
        obtain rfl := Option.some.inj hw
        right
        bv_omega
  have htouched : w &&& touched = 0#64 := by
    rcases hlow with hlow | hlow <;> (rw [and_of_low hlow (by decide) (by decide)]; decide)
  have hsplit := and_not_or_and w touched
  rw [htouched, BitVec.or_zero] at hsplit
  exact hsplit

/-- **The tables as they are loaded** are the tables that are walked. -/
theorem BootTables.at_image (b : BootTables) {base : BitVec 64} (hp : BootTables.Placed base) :
    b.At (b.image base) base := by
  intro i w hw
  rw [b.read64_image hp hw, b.and_touched_of_words hp hw]

instance (base a : BitVec 64) : Decidable (BootTables.Owns base a) :=
  inferInstanceAs (Decidable (_ < _))

theorem bootPlaced : BootTables.Placed 0x10100000 := ⟨by decide, by decide⟩

/-- A write through the shared mapping, a read of what was written, an access of the user to it,
and one outside of both windows. -/
def bootAccesses : List Access :=
  [⟨entryOffset + 0x5000, false, some 7⟩, ⟨0x5000, false, none⟩, ⟨0x5000, true, none⟩,
    ⟨0x100000000, false, none⟩]

theorem paging_refines_flat_bootAccesses :
    (∃ s, runSteps (fun s a => Access.step 0x10100000 s a)
        (BootTables.vmm.image 0x10100000, []) (bootAccesses.take 2) = .ok s ∧
      BootTables.vmm.Sim 0x10100000 s
        ((bootAccesses.take 2).foldl Access.flat (BootTables.vmm.image 0x10100000, []))) ∧
    runSteps (fun s a => Access.step 0x10100000 s a)
      (BootTables.vmm.image 0x10100000, []) bootAccesses = .error (.page 0x5000) := by
  have hat := BootTables.vmm.at_image bootPlaced
  constructor
  · exact (paging_refines_flat .vmm 0x10100000 bootPlaced _ hat (bootAccesses.take 2)
      (by decide)).1 (by decide)
  · exact (paging_refines_flat .vmm 0x10100000 bootPlaced _ hat bootAccesses (by decide)).2
      (bootAccesses.take 2) ⟨0x5000, true, none⟩ [⟨0x100000000, false, none⟩] rfl (by decide)
      (by decide)

end Lvisor
