import Lvisor.EptFrames
import Lvisor.GuestView

/-!
# The guest's page tables

`gva2hva` walks the guest's own page tables in software, with one `gpa2hpa` for each table.
`guestWalk` is the walk of the processor: 4-level paging of a 64-bit guest, where bit 7 of an
entry makes a leaf at the two middle levels, is reserved at the top and is PAT at the bottom,
where bits 51:12 are the address and bits 63:52 are not.

* `gva2hva_eq` — what `gva2hva` returns on a present address, through the leaf of the walk;
* `gva2hva_iff` — it is the translation of the processor exactly when the leaf is plain: bits
  63:52 are clear, and PAT is in a leaf of 4 KiB;
* `guestWalk_congr` — addresses in one page of the leaf have one walk;
* `guestCode_split`, `codeAt_split` — the bytes of an instruction up to the end of the page of
  RIP are the same for the guest and in memory; behind it the guest goes on in its next page, and
  `handle_exception_nmi` with what follows in memory;
* `decodesGuest_iff` — so the handler sees the code of the guest when the leaf of RIP is plain and
  these bytes agree on the instruction, or its first bytes are not there anyway.
-/

namespace Lvisor

open VmcsField

/-! ## The walk of the processor

A path has the tables that the walk goes through and the leaf that it ends in. The tables are at
guest-physical addresses, which the EPT translates; in this VMM that is the identity on what it
has mapped. -/

/-- Bits 51:12, which are the address in an entry. -/
abbrev pteAddrMask : BitVec 64 := 0x000ffffffffff000#64

/-- The walk of an address that is present: the tables on its way, the last entry, and the size
of the page. -/
structure GuestPath where
  /-- the tables it reads, from the top -/
  tables : List (BitVec 64)
  /-- the entry that maps the page -/
  leaf : BitVec 64
  /-- the leaf maps `2 ^ shift` bytes -/
  shift : ℕ
  deriving DecidableEq, Repr

/-- The processor's walk of the guest's page tables, one entry for each level of the list. A
leaf of 2 MiB or 1 GiB has PAT in bit 12, and the bits from there to its address are
reserved. -/
def guestWalk (rd : BitVec 64 → BitVec 64) (gva : BitVec 64) :
    List ℕ → BitVec 64 → Option GuestPath
  | [], _ => none
  | shift :: rest, table =>
    let entry := rd (table + ((gva >>> shift) &&& 0x1ff#64) * 8#64)
    if entry &&& 0x1#64 = 0#64 then none
    else if rest = [] then some ⟨[table], entry, shift⟩
    else if entry &&& 0x80#64 ≠ 0#64 then
      if shift = 39 ∨ entry &&& (lowMask 64 shift &&& ~~~lowMask 64 13) ≠ 0#64 then none
      else some ⟨[table], entry, shift⟩
    else (guestWalk rd gva rest (entry &&& pteAddrMask)).map fun p =>
      { p with tables := table :: p.tables }

/-- The walk from the guest's CR3. Guest-physical memory is physical memory: where the EPT maps
an address, it maps it to itself. -/
def guestPath (img : VmxImage) (s : VmxState) (gva : BitVec 64) : Option GuestPath :=
  guestWalk (s.word img) gva [39, 30, 21, 12] (s.vmcs.read guestCr3 &&& pteAddrMask)

namespace GuestPath

/-- The physical address: the page of the last entry, and the offset in it. -/
def address (p : GuestPath) (gva : BitVec 64) : BitVec 64 :=
  (p.leaf &&& pteAddrMask &&& ~~~lowMask 64 p.shift) ||| (gva &&& lowMask 64 p.shift)

/-- The pointer that `gva2hva` computes from the leaf, bits 63:52 included. -/
def pointer (p : GuestPath) (gva : BitVec 64) : BitVec 64 :=
  (p.leaf &&& ~~~lowMask 64 p.shift) ||| (gva &&& lowMask 64 p.shift)

/-- Nothing in the leaf that `gva2hva` mistakes for something else: bits 63:52 are clear, and
so is bit 7 at the lowest level. -/
def Plain (p : GuestPath) : Prop :=
  p.leaf &&& ~~~lowMask 64 52 = 0#64 ∧ (p.shift = 12 → p.leaf &&& 0x80#64 = 0#64)

instance (p : GuestPath) : Decidable p.Plain := inferInstanceAs (Decidable (_ ∧ _))

end GuestPath

/-- The EPT maps the guest-physical address to itself, as `gpa2hpa` reads it. -/
def EptIdentity (img : VmxImage) (s : VmxState) (a : BitVec 64) : Prop :=
  a.toNat < 2 ^ 48 ∧
    ∃ perm shift, eptTranslate (s.word img) img.eptPml4 a = some ⟨a, perm, shift⟩

/-- The EPT of the guest is what faults at some addresses have built, and the VMCS points to
it. -/
structure EptBuilt (img : VmxImage) (s : VmxState) : Prop where
  built : ∃ gs, runSteps (handleEptViolation img.toImage) Ept.zero gs = .ok s.ept
  pointer : s.vmcs.read eptPointer &&& ~~~0xfff#64 = img.eptPml4

/-- The walk of the processor finds `gva` present, and the EPT maps the tables it reads and the
page it ends in. -/
structure GuestMapped (img : VmxImage) (s : VmxState) (gva : BitVec 64) (p : GuestPath) : Prop where
  built : EptBuilt img s
  path : guestPath img s gva = some p
  tables : ∀ t ∈ p.tables, EptIdentity img s t
  page : EptIdentity img s (p.address gva)

/-! ## `gpa2hpa` on the tables of the guest -/

section Gpa

variable {rd : BitVec 64 → BitVec 64}

/-- The walk looks at the indices and the offset of the address only. -/
theorem gpa2hpaLoop_congr {g g' : BitVec 64}
    (hidx : ∀ i : Fin 4, (g >>> shifts i) &&& 0x1ff#64 = (g' >>> shifts i) &&& 0x1ff#64)
    (hoff : ∀ i : Fin 4, g &&& ~~~masks i = g' &&& ~~~masks i) (l : List (Fin 4))
    (entries entry : BitVec 64) :
    gpa2hpaLoop rd g l entries entry = gpa2hpaLoop rd g' l entries entry := by
  induction l generalizing entries entry with
  | nil =>
    rw [gpa2hpaLoop, gpa2hpaLoop]
    exact congrArg (fun x => Except.ok ((entry &&& ~~~0xfff#64) ||| x)) (hoff 3)
  | cons i l ih =>
    rw [gpa2hpaLoop, gpa2hpaLoop]
    simp only [hidx i, hoff i, ih]

/-- Nine bits of a number do not depend on the bits above them. -/
theorem mod_div_mod (x : ℕ) {k w : ℕ} (h : k + 9 ≤ w) :
    x % 2 ^ w / 2 ^ k % 512 = x / 2 ^ k % 512 := by
  have hpow : 2 ^ w = 2 ^ k * 2 ^ (w - k) := by rw [← Nat.pow_add, Nat.add_sub_cancel' (by omega)]
  rw [hpow, Nat.mod_mul_right_div_self]
  exact Nat.mod_mod_of_dvd _ (Nat.pow_dvd_pow 2 (by omega : 9 ≤ w - k))

theorem not_masks (i : Fin 4) : ~~~masks i = lowMask 64 (shifts i) := by
  revert i
  decide

/-- Bits 63:48 of a guest-physical address are not looked at. -/
theorem gpa2hpa_and_lowMask (eptp g : BitVec 64) :
    gpa2hpa rd eptp (g &&& lowMask 64 48) = gpa2hpa rd eptp g := by
  refine gpa2hpaLoop_congr (fun i => ?_) (fun i => ?_) levels eptp 0#64
  · have hle : ∀ i : Fin 4, shifts i + 9 ≤ 48 := by decide
    apply BitVec.eq_of_toNat_eq
    rw [toNat_index, toNat_index, toNat_and_lowMask (by decide)]
    exact mod_div_mod _ (hle i)
  · have hmask : ∀ i : Fin 4, lowMask 64 48 &&& lowMask 64 (shifts i) = lowMask 64 (shifts i) := by
      decide
    rw [not_masks, BitVec.and_assoc, hmask]

variable {img : VmxImage} {s : VmxState}

/-- What the EPT maps lies in a frame that a fault has added. -/
theorem EptIdentity.frame (h : EptBuilt img s) {a : BitVec 64} (ha : EptIdentity img s a) :
    ∃ F, s.ept = Ept.ofFrames img.toImage F ∧ a.toNat < 2 ^ 32 ∧ Lvisor.frame a ∈ F := by
  obtain ⟨gs, hgs⟩ := h.built
  rw [← Ept.ofFrames_empty img.toImage] at hgs
  obtain ⟨-, hept⟩ := runSteps_handleEptViolation_iff.mp hgs
  obtain ⟨hlt, perm, shift, htr⟩ := ha
  refine ⟨_, hept, ?_⟩
  by_contra hno
  unfold VmxState.word at htr
  rw [hept, eptTranslate_ofFrames hlt, if_neg hno] at htr
  cases htr

/-- **The tables of the guest**: `gpa2hpa` of an entry is the table it names, whatever its other
bits are. -/
theorem gpa2hpa_of_identity (h : EptBuilt img s) {t entry : BitVec 64}
    (ht : EptIdentity img s t) (he : entry &&& pteAddrMask = t) :
    gpa2hpa (s.word img) (s.vmcs.read eptPointer &&& ~~~0xfff#64) (entry &&& ~~~0xfff#64) =
      .ok t := by
  obtain ⟨F, hept, hlt, hF⟩ := ht.frame h
  have hne : F ≠ ∅ := fun h0 => absurd (h0 ▸ hF) (Finset.notMem_empty _)
  have haddr : (entry &&& ~~~0xfff#64) &&& lowMask 64 48 = t := by
    have hsplit : ~~~0xfff#64 &&& lowMask 64 48 = pteAddrMask &&& lowMask 64 48 := by decide
    rw [BitVec.and_assoc, hsplit, ← BitVec.and_assoc, he]
    exact and_lowMask_of_lt (by decide) ht.1
  rw [h.pointer, ← gpa2hpa_and_lowMask, haddr]
  unfold VmxState.word
  rw [hept]
  exact gpa2hpa_of_maps (Ept.ofFrames_linked _ hne) (Ept.ofFrames_maps _) hlt hF

end Gpa

/-! ## `gva2hva`

The loop of `gva2hva` follows the path of the processor and ends at the same leaf. What it does
with the leaf is different: it keeps the bits above the address field, and below a leaf of 4 KiB
the bit that means PAT there. -/

section Gva

variable {rd : BitVec 64 → BitVec 64} {eptr gva : BitVec 64}

theorem suffix_levels {i : Fin 4} {l : List (Fin 4)} (h : i :: l <:+ levels) :
    (i = 3 ∧ l = []) ∨ (i < 3 ∧ l ≠ []) := by
  rw [levels, List.suffix_cons_iff, List.suffix_cons_iff, List.suffix_cons_iff,
    List.suffix_cons_iff] at h
  rcases h with h | h | h | h | h
  · obtain ⟨rfl, rfl⟩ := List.cons.inj h
    exact .inr ⟨by decide, by simp⟩
  · obtain ⟨rfl, rfl⟩ := List.cons.inj h
    exact .inr ⟨by decide, by simp⟩
  · obtain ⟨rfl, rfl⟩ := List.cons.inj h
    exact .inr ⟨by decide, by simp⟩
  · obtain ⟨rfl, rfl⟩ := List.cons.inj h
    exact .inl ⟨rfl, rfl⟩
  · exact absurd (List.suffix_nil.mp h) (by simp)

/-- A walk reads the table it starts from, whatever it ends with. -/
theorem mem_tables_of_guestWalk {l : List ℕ} {table : BitVec 64} {p : GuestPath}
    (h : guestWalk rd gva l table = some p) : table ∈ p.tables := by
  cases l with
  | nil => cases h
  | cons shift l =>
    rw [guestWalk] at h
    split_ifs at h
    · obtain rfl := Option.some.inj h
      exact List.mem_singleton_self _
    · obtain rfl := Option.some.inj h
      exact List.mem_singleton_self _
    · obtain ⟨q, -, rfl⟩ := Option.map_eq_some_iff.mp h
      exact List.mem_cons_self ..

/-- What `gva2hva` makes of a last entry: it masks by the size of the page. -/
def leafResult (gva : BitVec 64) (p : GuestPath) : Exec (BitVec 64) :=
  if p.shift = 12 ∧ p.leaf &&& 0x80#64 ≠ 0#64 then .error (.bug "vmm/vmx.c" 1247 "gva2hva")
  else .ok (p.pointer gva)

/-- **The loop** reaches the last entry of the walk of the processor. -/
theorem gva2hvaLoop_of_walk {l : List (Fin 4)} (hl : l <:+ levels) {table : BitVec 64}
    {p : GuestPath} (hwalk : guestWalk rd gva (l.map shifts) table = some p)
    (hmap : ∀ t ∈ p.tables, ∀ x, x &&& pteAddrMask = t →
      gpa2hpa rd (eptr &&& ~~~0xfff#64) (x &&& ~~~0xfff#64) = .ok t) (entry : BitVec 64) :
    gva2hvaLoop rd eptr gva l table entry = leafResult gva p := by
  induction l generalizing table entry p with
  | nil => cases hwalk
  | cons i l ih =>
    have hpse : (1#64 <<< 7 : BitVec 64) = 0x80#64 := by decide
    have hmask : masks i = ~~~lowMask 64 (shifts i) := by rw [← not_masks, BitVec.not_not]
    rw [List.map_cons, guestWalk] at hwalk
    have hloop : gva2hvaLoop rd eptr gva (i :: l) table entry = (do
        let e := rd (table + ((gva >>> shifts i) &&& 0x1ff#64) * 8#64)
        bugOn "vmm/vmx.c" 1245 "gva2hva" (e &&& 0x1#64 = 0#64)
        if e &&& (1#64 <<< 7) ≠ 0#64 then
          bugOn "vmm/vmx.c" 1247 "gva2hva" (¬(i = 1 ∨ i = 2))
          return (e &&& masks i) ||| (gva &&& ~~~masks i)
        else if i < 3 then
          let entries ← gpa2hpa rd (eptr &&& ~~~0xfff#64) (e &&& ~~~0xfff#64)
          gva2hvaLoop rd eptr gva l entries e
        else
          gva2hvaLoop rd eptr gva l table e) := rfl
    rw [hloop, hmask, hpse]
    generalize rd (table + ((gva >>> shifts i) &&& 0x1ff#64) * 8#64) = e at hwalk ⊢
    by_cases hp : e &&& 0x1#64 = 0#64
    · rw [if_pos hp] at hwalk
      cases hwalk
    rw [if_neg hp] at hwalk
    simp only [hp, bugOn, decide_false, Bool.false_eq_true, if_false, Exec.ok_bind,
      BitVec.not_not]
    rcases suffix_levels hl with ⟨rfl, rfl⟩ | ⟨hlt, hne⟩
    · -- the lowest level, where bit 7 is PAT
      rw [List.map_nil, if_pos rfl] at hwalk
      obtain rfl := Option.some.inj hwalk
      by_cases h7 : e &&& 0x80#64 = 0#64
      · rw [if_neg (not_not.mpr h7), if_neg (by decide), leafResult, if_neg fun h => h.2 h7]
        rfl
      · rw [if_pos h7]
        exact (if_pos (⟨rfl, h7⟩ : shifts 3 = 12 ∧ e &&& 0x80#64 ≠ 0#64)).symm
    · rw [if_neg (by simpa using hne)] at hwalk
      by_cases h7 : e &&& 0x80#64 = 0#64
      · -- a table
        rw [if_neg (not_not.mpr h7), Option.map_eq_some_iff] at hwalk
        obtain ⟨q, hq, rfl⟩ := hwalk
        have hnext := hmap _ (List.mem_cons_of_mem _ (mem_tables_of_guestWalk hq)) e rfl
        rw [if_neg (not_not.mpr h7), if_pos hlt, hnext]
        exact ih ((List.suffix_cons _ _).trans hl) hq
          (fun t ht => hmap t (List.mem_cons_of_mem _ ht)) e
      · -- a leaf of 2 MiB or 1 GiB
        have h39 : ∀ i : Fin 4, i < 3 → shifts i ≠ 39 → (i = 1 ∨ i = 2) ∧ shifts i ≠ 12 := by
          decide
        rw [if_pos h7] at hwalk
        split_ifs at hwalk with hres
        obtain rfl := Option.some.inj hwalk
        obtain ⟨hi, h12⟩ := h39 i hlt fun h => hres (Or.inl h)
        rw [if_pos h7, leafResult]
        simp [hi, h12, GuestPath.pointer]

variable {img : VmxImage} {s : VmxState} {p : GuestPath}

/-- **`gva2hva`** on an address that is present returns what it makes of the last entry. -/
theorem gva2hva_eq (h : GuestMapped img s gva p) : gva2hva img s gva = leafResult gva p := by
  have hmap : ∀ t ∈ p.tables, ∀ x, x &&& pteAddrMask = t →
      gpa2hpa (s.word img) (s.vmcs.read eptPointer &&& ~~~0xfff#64) (x &&& ~~~0xfff#64) =
        .ok t := fun t ht x hx => gpa2hpa_of_identity h.built (h.tables t ht) hx
  have hroot := hmap _ (mem_tables_of_guestWalk h.path) _ rfl
  unfold gva2hva
  dsimp only
  rw [hroot]
  exact gva2hvaLoop_of_walk (List.suffix_refl levels) h.path hmap 0#64

/-- The leaf of a walk is not at the top level. -/
theorem shift_of_guestPath (hp : guestPath img s gva = some p) : p.shift ∈ [30, 21, 12] := by
  have hstep : ∀ {shift : ℕ} {l : List ℕ} {table : BitVec 64} {p : GuestPath},
      guestWalk (s.word img) gva (shift :: l) table = some p →
      (p.shift = shift ∧ (l = [] ∨ shift ≠ 39)) ∨
        ∃ table' q, guestWalk (s.word img) gva l table' = some q ∧ p.shift = q.shift := by
    intro shift l table p h
    rw [guestWalk] at h
    split_ifs at h with h₁ h₂ h₃ h₄
    · obtain rfl := Option.some.inj h
      exact .inl ⟨rfl, .inl h₂⟩
    · obtain rfl := Option.some.inj h
      exact .inl ⟨rfl, .inr fun h39 => h₄ (.inl h39)⟩
    · obtain ⟨q, hq, rfl⟩ := Option.map_eq_some_iff.mp h
      exact .inr ⟨_, q, hq, rfl⟩
  rcases hstep hp with ⟨-, h | h⟩ | ⟨t₁, q₁, h₁, he₁⟩
  · cases h
  · exact absurd rfl h
  rw [he₁]
  rcases hstep h₁ with ⟨h, -⟩ | ⟨t₂, q₂, h₂, he₂⟩
  · simp [h]
  rw [he₂]
  rcases hstep h₂ with ⟨h, -⟩ | ⟨t₃, q₃, h₃, he₃⟩
  · simp [h]
  rw [he₃]
  rcases hstep h₃ with ⟨h, -⟩ | ⟨t₄, q₄, h₄, -⟩
  · simp [h]
  · cases h₄

/-- The address bits above the offset, without the flags. -/
theorem pteAddrMask_and {k : ℕ} (hk : k ∈ [30, 21, 12]) :
    pteAddrMask &&& ~~~lowMask 64 k = lowMask 64 52 &&& ~~~lowMask 64 k := by
  revert k
  decide

/-- The result has bits 63:52 of the leaf and below them the physical address. -/
theorem pointer_and (gva : BitVec 64) (hshift : p.shift ∈ [30, 21, 12]) :
    p.pointer gva &&& ~~~lowMask 64 52 = p.leaf &&& ~~~lowMask 64 52 ∧
      p.pointer gva &&& lowMask 64 52 = p.address gva := by
  have hconst : ∀ k ∈ [30, 21, 12], ~~~lowMask 64 k &&& ~~~lowMask 64 52 = ~~~lowMask 64 52 ∧
      lowMask 64 k &&& ~~~lowMask 64 52 = 0#64 ∧ lowMask 64 k &&& lowMask 64 52 = lowMask 64 k := by
    decide
  obtain ⟨h₁, h₂, h₃⟩ := hconst _ hshift
  rw [GuestPath.pointer, BitVec.and_or_distrib_right, BitVec.and_or_distrib_right,
    BitVec.and_assoc, BitVec.and_assoc, BitVec.and_assoc, BitVec.and_assoc]
  constructor
  · rw [h₁, h₂, BitVec.and_zero, BitVec.or_zero]
  · rw [h₃, BitVec.and_comm (~~~lowMask 64 p.shift), ← pteAddrMask_and hshift,
      ← BitVec.and_assoc]
    rfl

/-- The result is the physical address when it has none of the bits 63:52. -/
theorem pointer_eq_address_iff (gva : BitVec 64) (hshift : p.shift ∈ [30, 21, 12]) :
    p.pointer gva = p.address gva ↔ p.leaf &&& ~~~lowMask 64 52 = 0#64 := by
  obtain ⟨hhigh, hlow⟩ := pointer_and gva hshift
  have hsplit := and_not_or_and (p.pointer gva) (lowMask 64 52)
  rw [hhigh, hlow] at hsplit
  constructor
  · intro h
    rw [← hhigh, h, ← hlow, BitVec.and_assoc, BitVec.and_not_self]
    exact BitVec.and_zero
  · intro h
    rw [← hsplit, h, BitVec.zero_or]

/-- **Guest-virtual translation**: on an address that is present, through tables that the EPT
maps, `gva2hva` returns the physical address of the processor exactly when the leaf is plain. -/
theorem gva2hva_iff (h : GuestMapped img s gva p) :
    gva2hva img s gva = .ok (p.address gva) ↔ p.Plain := by
  rw [gva2hva_eq h, leafResult, GuestPath.Plain,
    ← pointer_eq_address_iff gva (shift_of_guestPath h.path)]
  split_ifs with hpat
  · simp [hpat]
  · rw [Except.ok.injEq]
    exact ⟨fun heq => ⟨heq, fun h12 => not_not.mp fun h7 => hpat ⟨h12, h7⟩⟩, fun heq => heq.1⟩

/-- A guest with pages of 4 KiB: the page at 0x4000 is mapped by `leaf`, the page behind it is
at 0x9000. The last byte of the one and the first of the other are a SYSCALL, and RIP is
there. -/
def pagedState (leaf : BitVec 64) : VmxState :=
  { userState 0 with
    vmcs := (userState 0).vmcs.write guestRip 0x4fff
    mem := wordsMemory
      [(0x1000, 0x2007), (0x2000, 0x3007), (0x3000, 0x5007), (0x5020, leaf), (0x5028, 0x9007),
       (0x4ff8, 0x0f00000000000000), (0x9000, 0x05)] }

theorem pagedState_ept (leaf : BitVec 64) :
    handleEptViolation vmmImage Ept.zero 0x1000 = .ok (pagedState leaf).ept ∧
      (pagedState leaf).ept = Ept.ofFrames vmmImage {0} := by
  have hframe : (insert (frame 0x1000) ∅ : Finset ℕ) = {0} := by decide
  have hept : handleEptViolation vmmImage Ept.zero 0x1000 =
      .ok (Ept.ofFrames vmmImage (insert (frame 0x1000) ∅)) := by
    rw [← Ept.ofFrames_empty vmmImage, handleEptViolation_ofFrames, if_neg (by decide),
      if_neg (by decide)]
  have heq : (pagedState leaf).ept = Ept.ofFrames vmmImage {0} := by
    change (handleEptViolation vmmImage Ept.zero 0x1000).toOption.getD Ept.zero = _
    rw [hept, hframe]
    rfl
  exact ⟨by rw [hept, heq, hframe], heq⟩

/-- Its first frame is mapped in the EPT, so that the walk can read its tables. -/
theorem pagedState_mapped (leaf gva : BitVec 64) {p : GuestPath}
    (hp : guestPath vmmVmxImage (pagedState leaf) gva = some p)
    (hlow : (p.address gva :: p.tables).all (·.toNat < 2 ^ 21) = true) :
    GuestMapped vmmVmxImage (pagedState leaf) gva p := by
  obtain ⟨hept, heq⟩ := pagedState_ept leaf
  have hid : ∀ a ∈ p.address gva :: p.tables, EptIdentity vmmVmxImage (pagedState leaf) a := by
    intro a ha
    have hlt : a.toNat < 2 ^ 21 := of_decide_eq_true (List.all_eq_true.mp hlow a ha)
    have hframe : frame a ∈ ({0} : Finset ℕ) := by
      rw [Finset.mem_singleton, frame]
      omega
    refine ⟨by omega, epteRwx, 21, ?_⟩
    unfold VmxState.word
    rw [heq]
    exact (eptTranslate_ofFrames (by omega)).trans (if_pos ⟨by omega, hframe⟩)
  have hptr : ((userState 0).vmcs.write guestRip 0x4fff).read eptPointer &&& ~~~0xfff#64 =
      vmmVmxImage.eptPml4 := by decide +kernel
  refine ⟨⟨⟨[0x1000], ?_⟩, hptr⟩, hp, fun t ht => hid t (List.mem_cons_of_mem _ ht),
    hid _ (List.mem_cons_self ..)⟩
  exact runSteps_cons_eq_ok.mpr ⟨_, hept, rfl⟩

/-- A last entry with the plain bits only, for which `gva2hva` is right. -/
theorem gva2hva_iff_pagedState :
    ∃ p, GuestMapped vmmVmxImage (pagedState 0x4007) 0x4fff p ∧
      (gva2hva vmmVmxImage (pagedState 0x4007) 0x4fff = .ok (p.address 0x4fff) ↔ p.Plain) := by
  have hmapped := pagedState_mapped 0x4007 0x4fff
    (p := ⟨[0x1000, 0x2000, 0x3000, 0x5000], 0x4007, 12⟩) (by decide +kernel) (by decide +kernel)
  exact ⟨_, hmapped, gva2hva_iff hmapped⟩

/-- A leaf with NX ends up in the pointer, and one with PAT trips the assertion. -/
theorem gva2hva_ne_pagedState :
    (∃ p, GuestMapped vmmVmxImage (pagedState 0x8000000000004007) 0x4fff p ∧
      gva2hva vmmVmxImage (pagedState 0x8000000000004007) 0x4fff = .ok 0x8000000000004fff ∧
      gva2hva vmmVmxImage (pagedState 0x8000000000004007) 0x4fff ≠ .ok (p.address 0x4fff)) ∧
    ∃ p, GuestMapped vmmVmxImage (pagedState 0x4087) 0x4fff p ∧
      gva2hva vmmVmxImage (pagedState 0x4087) 0x4fff =
        .error (.bug "vmm/vmx.c" 1247 "gva2hva") := by
  have hnx := pagedState_mapped 0x8000000000004007 0x4fff
    (p := ⟨[0x1000, 0x2000, 0x3000, 0x5000], 0x8000000000004007, 12⟩) (by decide +kernel)
    (by decide +kernel)
  have hpat := pagedState_mapped 0x4087 0x4fff
    (p := ⟨[0x1000, 0x2000, 0x3000, 0x5000], 0x4087, 12⟩) (by decide +kernel) (by decide +kernel)
  have hptr : gva2hva vmmVmxImage (pagedState 0x8000000000004007) 0x4fff =
      .ok 0x8000000000004fff := by
    rw [gva2hva_eq hnx, leafResult, if_neg (by decide)]
    exact congrArg Except.ok (by decide)
  refine ⟨⟨_, hnx, hptr, ?_⟩, _, hpat, ?_⟩
  · rw [hptr]
    exact fun h => absurd (Except.ok.inj h) (by decide)
  · rw [gva2hva_eq hpat, leafResult, if_pos (by decide)]

end Gva

/-! ## One page -/

section Page

variable {rd : BitVec 64 → BitVec 64} {img : VmxImage} {s : VmxState} {p : GuestPath}
  {gva gva' : BitVec 64}

/-- The leaf is at one of the levels of the walk. -/
theorem shift_mem_of_guestWalk {l : List ℕ} {table : BitVec 64}
    (h : guestWalk rd gva l table = some p) : p.shift ∈ l := by
  induction l generalizing table p with
  | nil => cases h
  | cons shift l ih =>
    rw [guestWalk] at h
    split_ifs at h
    · obtain rfl := Option.some.inj h
      exact List.mem_cons_self ..
    · obtain rfl := Option.some.inj h
      exact List.mem_cons_self ..
    · obtain ⟨q, hq, rfl⟩ := Option.map_eq_some_iff.mp h
      have hmem : q.shift ∈ l := ih hq
      exact List.mem_cons_of_mem _ hmem

/-- **One walk for one page**: above the leaf the indices of the two addresses agree. -/
theorem guestWalk_congr {l : List ℕ} (hl : l.Pairwise (· ≥ ·)) {table : BitVec 64}
    (h : guestWalk rd gva l table = some p)
    (hpage : gva'.toNat / 2 ^ p.shift = gva.toNat / 2 ^ p.shift) :
    guestWalk rd gva' l table = some p := by
  induction l generalizing table p with
  | nil => cases h
  | cons shift l ih =>
    obtain ⟨hfirst, hrest⟩ := List.pairwise_cons.mp hl
    have hle : p.shift ≤ shift := by
      rcases List.mem_cons.mp (shift_mem_of_guestWalk h) with heq | hmem
      · exact Nat.le_of_eq heq
      · exact hfirst _ hmem
    have hidx : (gva' >>> shift) &&& 0x1ff#64 = (gva >>> shift) &&& 0x1ff#64 := by
      have hdiv : ∀ x : ℕ, x / 2 ^ shift = x / 2 ^ p.shift / 2 ^ (shift - p.shift) := by
        intro x
        rw [Nat.div_div_eq_div_mul, ← Nat.pow_add, Nat.add_sub_cancel' hle]
      apply BitVec.eq_of_toNat_eq
      rw [toNat_index, toNat_index, hdiv, hdiv gva.toNat, hpage]
    rw [guestWalk] at h ⊢
    rw [hidx]
    generalize rd (table + ((gva >>> shift) &&& 0x1ff#64) * 8#64) = entry at h ⊢
    split_ifs at h ⊢ with h₁ h₂ h₃ h₄
    · exact h
    · exact h
    · obtain ⟨q, hq, rfl⟩ := Option.map_eq_some_iff.mp h
      rw [ih hrest hq hpage]
      rfl

namespace GuestPath

/-- The `n` bytes from `gva` lie in the page of the leaf. -/
def Fits (p : GuestPath) (gva : BitVec 64) (n : ℕ) : Prop :=
  gva.toNat % 2 ^ p.shift + n ≤ 2 ^ p.shift

instance (p : GuestPath) (gva : BitVec 64) (n : ℕ) : Decidable (p.Fits gva n) :=
  inferInstanceAs (Decidable (_ ≤ _))

/-- Where the page of the last entry begins in memory. -/
def base (p : GuestPath) : ℕ := p.leaf.toNat % 2 ^ 52 / 2 ^ p.shift * 2 ^ p.shift

theorem toNat_address (p : GuestPath) (hshift : p.shift ∈ [30, 21, 12]) (gva : BitVec 64) :
    (p.address gva).toNat = p.base + gva.toNat % 2 ^ p.shift := by
  have hle : p.shift ≤ 64 := by
    revert hshift
    generalize p.shift = k
    revert k
    decide
  have hbase : (p.leaf &&& lowMask 64 52 &&& ~~~lowMask 64 p.shift).toNat = p.base := by
    rw [toNat_and_not_lowMask hle, toNat_and_lowMask (by decide)]
    rfl
  have hoff : (gva &&& lowMask 64 p.shift).toNat = gva.toNat % 2 ^ p.shift :=
    toNat_and_lowMask hle gva
  rw [address, BitVec.and_assoc p.leaf, pteAddrMask_and hshift, ← BitVec.and_assoc,
    toNat_or_of_aligned hle, hbase, hoff]
  · rw [hbase]
    exact Nat.mul_mod_left _ _
  · rw [hoff]
    exact Nat.mod_lt _ (Nat.two_pow_pos _)

/-- The next byte is in the same page, when one more fits. -/
theorem Fits.next (hshift : p.shift ∈ [30, 21, 12]) {n : ℕ} (h : p.Fits gva (n + 1 + 1)) :
    (gva + 1).toNat / 2 ^ p.shift = gva.toNat / 2 ^ p.shift ∧
      (gva + 1).toNat % 2 ^ p.shift = gva.toNat % 2 ^ p.shift + 1 := by
  have hlt := gva.isLt
  have hone : (1 : BitVec 64).toNat = 1 := rfl
  rw [BitVec.toNat_add, hone]
  unfold Fits at h
  generalize p.shift = k at hshift h ⊢
  simp only [List.mem_cons, List.not_mem_nil, or_false] at hshift
  rcases hshift with rfl | rfl | rfl <;> omega

end GuestPath

end Page

/-! ## The code of the guest

The bytes of an instruction, as the guest fetches them, each through its own walk; and as the
handler compares them, one after the other behind the translation of the first. -/

/-- The guest has the byte `b` at `gva`, by its own tables. -/
def GuestByte (img : VmxImage) (s : VmxState) (gva : BitVec 64) (b : BitVec 8) : Prop :=
  ∃ p, guestPath img s gva = some p ∧ s.byte img (p.address gva) = b

/-- The guest has the bytes at `gva`, each translated by its page tables. -/
def GuestCode (img : VmxImage) (s : VmxState) : List (BitVec 8) → BitVec 64 → Prop
  | [], _ => True
  | c :: cs, gva => GuestByte img s gva c ∧ GuestCode img s cs (gva + 1)

section Code

variable {img : VmxImage} {env : ExitEnv} {s : VmxState} {p : GuestPath} {gva : BitVec 64}

theorem guestByte_iff (hp : guestPath img s gva = some p) {b : BitVec 8} :
    GuestByte img s gva b ↔ s.byte img (p.address gva) = b := by
  constructor
  · rintro ⟨q, hq, hb⟩
    obtain rfl := Option.some.inj (hp.symm.trans hq)
    exact hb
  · exact fun hb => ⟨p, hp, hb⟩

/-- Physical memory has the bytes from `a` on, one behind the other. -/
def BytesAre (img : VmxImage) (s : VmxState) : List (BitVec 8) → BitVec 64 → Prop
  | [], _ => True
  | c :: cs, a => s.byte img a = c ∧ BytesAre img s cs (a + 1)

/-- The next address of a page is the next one in memory. -/
theorem address_next (hshift : p.shift ∈ [30, 21, 12]) {n : ℕ} (h : p.Fits gva (n + 1 + 1)) :
    p.address (gva + 1) = p.address gva + 1 := by
  obtain ⟨-, hmod⟩ := h.next hshift
  have hbase : p.base < 2 ^ 52 :=
    Nat.lt_of_le_of_lt (Nat.div_mul_le_self _ _) (Nat.mod_lt _ (Nat.two_pow_pos 52))
  have hoff : gva.toNat % 2 ^ p.shift < 2 ^ 30 := by
    refine Nat.lt_of_lt_of_le (Nat.mod_lt _ (Nat.two_pow_pos _)) ?_
    revert hshift
    generalize p.shift = k
    revert k
    decide
  have hone : (1 : BitVec 64).toNat = 1 := rfl
  apply BitVec.eq_of_toNat_eq
  rw [BitVec.toNat_add, hone, p.toNat_address hshift, p.toNat_address hshift, hmod]
  omega

/-- **Inside of a page** the bytes of the guest are those that follow in memory. -/
theorem guestCode_iff_bytesAre (hp : guestPath img s gva = some p) {cs : List (BitVec 8)}
    (hfits : p.Fits gva cs.length) :
    GuestCode img s cs gva ↔ BytesAre img s cs (p.address gva) := by
  have hshift := shift_of_guestPath hp
  induction cs generalizing gva with
  | nil => exact Iff.rfl
  | cons c cs ih =>
    rw [GuestCode, BytesAre, guestByte_iff hp]
    refine and_congr_right fun _ => ?_
    cases cs with
    | nil => exact Iff.rfl
    | cons c' cs =>
      obtain ⟨hdiv, hmod⟩ := hfits.next hshift
      rw [← address_next hshift hfits]
      refine ih (guestWalk_congr (by decide) hp hdiv) ?_
      unfold GuestPath.Fits at hfits ⊢
      rw [hmod]
      simp only [List.length_cons] at hfits ⊢
      omega

/-- Below 4 GiB all memory is mapped for the handler. -/
theorem codeAt_iff_bytesAre {cs : List (BitVec 8)} {a : BitVec 64}
    (hlow : a.toNat + cs.length ≤ 2 ^ 32) : CodeAt img s cs a ↔ BytesAre img s cs a := by
  induction cs generalizing a with
  | nil => exact Iff.rfl
  | cons c cs ih =>
    rw [List.length_cons] at hlow
    have hmapped : Mapped a := Or.inl (by omega)
    have hone : (1 : BitVec 64).toNat = 1 := rfl
    have hnext : (a + 1).toNat = a.toNat + 1 := by
      rw [BitVec.toNat_add, hone]
      omega
    rw [CodeAt, BytesAre, and_iff_right hmapped, ih (by omega)]

theorem guestCode_append (cs ds : List (BitVec 8)) (gva : BitVec 64) :
    GuestCode img s (cs ++ ds) gva ↔
      GuestCode img s cs gva ∧ GuestCode img s ds (gva + BitVec.ofNat 64 cs.length) := by
  induction cs generalizing gva with
  | nil => simp [GuestCode]
  | cons c cs ih =>
    have haddr : gva + 1 + BitVec.ofNat 64 cs.length = gva + BitVec.ofNat 64 (cs.length + 1) := by
      rw [BitVec.ofNat_add]
      bv_omega
    rw [List.cons_append, GuestCode, GuestCode, ih, List.length_cons, haddr, and_assoc]

theorem codeAt_append (cs ds : List (BitVec 8)) (a : BitVec 64) :
    CodeAt img s (cs ++ ds) a ↔
      CodeAt img s cs a ∧ CodeAt img s ds (a + BitVec.ofNat 64 cs.length) := by
  induction cs generalizing a with
  | nil => simp [CodeAt]
  | cons c cs ih =>
    have haddr : a + 1 + BitVec.ofNat 64 cs.length = a + BitVec.ofNat 64 (cs.length + 1) := by
      rw [BitVec.ofNat_add]
      bv_omega
    rw [List.cons_append, CodeAt, CodeAt, ih, List.length_cons, haddr]
    exact and_assoc.symm

/-! ## Instructions across two pages

Up to the end of the page both sides read the same bytes. Behind it the guest goes on in the page
that its own tables say, or faults, and the handler reads what is next in physical memory. So the
two decisions differ by the bytes in these two places. -/

/-- The number of bytes from `gva` to the end of its page. -/
def GuestPath.pageRest (p : GuestPath) (gva : BitVec 64) : ℕ :=
  2 ^ p.shift - gva.toNat % 2 ^ p.shift

/-- The bytes of the instruction up to the end of the page of `gva` are at its address. -/
def HeadAt (img : VmxImage) (s : VmxState) (p : GuestPath) (code : List (BitVec 8))
    (gva : BitVec 64) : Prop :=
  BytesAre img s (code.take (p.pageRest gva)) (p.address gva)

/-- The bytes of the instruction behind the page of `gva`, if there are such, are at the beginning
of the next page of the guest, wherever its page tables have that in memory. -/
def TailNext (img : VmxImage) (s : VmxState) (p : GuestPath) (code : List (BitVec 8))
    (gva : BitVec 64) : Prop :=
  code.length ≤ p.pageRest gva ∨
    ∃ q, guestPath img s (gva + BitVec.ofNat 64 (p.pageRest gva)) = some q ∧
      BytesAre img s (code.drop (p.pageRest gva))
        (q.address (gva + BitVec.ofNat 64 (p.pageRest gva)))

/-- The bytes of the instruction behind the page of `gva`, if there are such, are in memory behind
that page. -/
def TailBehind (img : VmxImage) (s : VmxState) (p : GuestPath) (code : List (BitVec 8))
    (gva : BitVec 64) : Prop :=
  CodeAt img s (code.drop (p.pageRest gva))
    (p.address gva + BitVec.ofNat 64 (p.pageRest gva))

/-- The head of an instruction is in the page. -/
theorem fits_take (code : List (BitVec 8)) :
    p.Fits gva (code.take (p.pageRest gva)).length := by
  have hlt := Nat.mod_lt gva.toNat (Nat.two_pow_pos p.shift)
  rw [GuestPath.Fits, List.length_take, GuestPath.pageRest]
  omega

/-- The next page begins with a multiple of 4096, so that it has room for the tail. -/
theorem fits_tail {q : GuestPath} (hp : p.shift ∈ [30, 21, 12]) (hq : q.shift ∈ [30, 21, 12])
    {n : ℕ} (hn : n ≤ 4096) : q.Fits (gva + BitVec.ofNat 64 (p.pageRest gva)) n := by
  have hlt := gva.isLt
  rw [GuestPath.Fits, GuestPath.pageRest, BitVec.toNat_add, BitVec.toNat_ofNat]
  simp only [List.mem_cons, List.not_mem_nil, or_false] at hp hq
  rcases hp with hp | hp | hp <;> rcases hq with hq | hq | hq <;> rw [hp, hq] <;> omega

/-- **For the guest** an instruction goes on in its next page. -/
theorem guestCode_split (hp : guestPath img s gva = some p) {code : List (BitVec 8)}
    (hcode : code.length ≤ 4096) :
    GuestCode img s code gva ↔ HeadAt img s p code gva ∧ TailNext img s p code gva := by
  have hshift := shift_of_guestPath hp
  have hsplit := @guestCode_append img s (code.take (p.pageRest gva))
    (code.drop (p.pageRest gva)) gva
  rw [List.take_append_drop] at hsplit
  rw [hsplit, guestCode_iff_bytesAre hp (fits_take code), HeadAt]
  refine and_congr_right fun _ => ?_
  by_cases hshort : code.length ≤ p.pageRest gva
  · rw [List.drop_eq_nil_of_le hshort]
    exact ⟨fun _ => .inl hshort, fun _ => trivial⟩
  · have hlength : (code.take (p.pageRest gva)).length = p.pageRest gva :=
      List.length_take_of_le (by omega)
    have hdrop : (code.drop (p.pageRest gva)).length ≤ 4096 := by
      rw [List.length_drop]
      omega
    rw [hlength, TailNext, or_iff_right hshort]
    constructor
    · intro htail
      -- the first byte of the tail is present, and so the page is
      obtain ⟨c, cs, hcs⟩ : ∃ c cs, code.drop (p.pageRest gva) = c :: cs :=
        List.exists_cons_of_ne_nil fun h => hshort (List.drop_eq_nil_iff.mp h)
      obtain ⟨q, hq, -⟩ : GuestByte img s (gva + BitVec.ofNat 64 (p.pageRest gva)) c := by
        rw [hcs] at htail
        exact htail.1
      exact ⟨q, hq, (guestCode_iff_bytesAre hq
        (fits_tail hshift (shift_of_guestPath hq) hdrop)).mp htail⟩
    · rintro ⟨q, hq, hbytes⟩
      exact (guestCode_iff_bytesAre hq
        (fits_tail hshift (shift_of_guestPath hq) hdrop)).mpr hbytes

/-- **In memory** the comparison goes on behind the page, with the bytes that physically follow. -/
theorem codeAt_split (hp : guestPath img s gva = some p) (hlow : (p.address gva).toNat < 2 ^ 32)
    (code : List (BitVec 8)) :
    CodeAt img s code (p.address gva) ↔ HeadAt img s p code gva ∧ TailBehind img s p code gva := by
  have hshift := shift_of_guestPath hp
  have hsplit := @codeAt_append img s (code.take (p.pageRest gva))
    (code.drop (p.pageRest gva)) (p.address gva)
  rw [List.take_append_drop] at hsplit
  have hpage : (p.address gva).toNat + (code.take (p.pageRest gva)).length ≤ 2 ^ 32 := by
    have hfits : p.Fits gva (code.take (p.pageRest gva)).length := fits_take code
    rw [p.toNat_address hshift] at hlow ⊢
    unfold GuestPath.Fits at hfits
    unfold GuestPath.base at hlow ⊢
    generalize p.shift = k at hshift hlow hfits ⊢
    simp only [List.mem_cons, List.not_mem_nil, or_false] at hshift
    rcases hshift with rfl | rfl | rfl <;> omega
  rw [hsplit, codeAt_iff_bytesAre hpage, HeadAt]
  refine and_congr_right fun _ => ?_
  by_cases hshort : code.length ≤ p.pageRest gva
  · rw [TailBehind, List.drop_eq_nil_of_le hshort]
    exact Iff.rfl
  · rw [List.length_take_of_le (by omega : p.pageRest gva ≤ code.length)]
    exact Iff.rfl

/-- A pointer with a bit of 63:52 is not mapped, as long as the physical address below is. -/
theorem not_mapped_of_high {q : BitVec 64} (hhigh : q &&& ~~~lowMask 64 52 ≠ 0#64)
    (hlow : q.toNat % 2 ^ 52 < 2 ^ 32) : ¬Mapped q := by
  have hge : 2 ^ 52 ≤ q.toNat := by
    by_contra hlt
    refine hhigh (BitVec.eq_of_toNat_eq ?_)
    rw [toNat_and_not_lowMask (by decide), Nat.div_eq_of_lt (by omega)]
    rfl
  rintro (h | h) <;> omega

/-- **What the handler compares**: the bytes in memory from the address of RIP on, if the leaf
is plain; otherwise `gva2hva` trips its assertion or the load faults. -/
theorem codeAt_gva2hva_iff (h : GuestMapped img s gva p) {c : BitVec 8} {cs : List (BitVec 8)} :
    (∃ q, gva2hva img s gva = .ok q ∧ CodeAt img s (c :: cs) q) ↔
      p.Plain ∧ CodeAt img s (c :: cs) (p.address gva) := by
  obtain ⟨-, -, hlow, -⟩ := h.page.frame h.built
  have hshift := shift_of_guestPath h.path
  rw [gva2hva_eq h, leafResult]
  by_cases hplain : p.Plain
  · rw [if_neg fun hpat => hpat.2 (hplain.2 hpat.1),
      (pointer_eq_address_iff gva hshift).mpr hplain.1]
    simp [hplain]
  · simp only [hplain, false_and, iff_false, not_exists, not_and]
    intro q hq hcode
    have hmapped : Mapped q := hcode.1.1
    split_ifs at hq with hpat
    obtain rfl := Except.ok.inj hq
    obtain ⟨hhigh, hlow'⟩ := pointer_and gva hshift
    refine not_mapped_of_high (fun h0 => hplain ⟨hhigh ▸ h0, ?_⟩) ?_ hmapped
    · exact fun h12 => not_not.mp fun h7 => hpat ⟨h12, h7⟩
    · rw [← toNat_and_lowMask (by decide), hlow']
      exact hlow

end Code

/-- On an invalid-opcode exit the handler takes the branch of SYSCALL, or of SYSRETQ, when the
guest has its bytes at RIP. -/
def DecodesGuest (img : VmxImage) (env : ExitEnv) (s : VmxState) : Prop :=
  (handleExceptionNmi img env s = .ok (handleSyscall env s) ↔
      GuestCode img s syscallCode (s.vmcs.read guestRip)) ∧
    (handleExceptionNmi img env s = .ok (handleSysret env s) ↔
      GuestCode img s sysretCode (s.vmcs.read guestRip))

/-- When the handler sees an instruction where the guest has it. If the leaf of RIP is plain, either
the head of the instruction is not there at all, or its tail is in the next page of the guest
exactly when it is behind the page in memory, as both are for an instruction without a tail. If
the leaf is not plain, the handler sees no instruction, and the guest must have none. -/
def DecodedRight (img : VmxImage) (s : VmxState) (p : GuestPath) (code : List (BitVec 8))
    (gva : BitVec 64) : Prop :=
  if p.Plain then
    HeadAt img s p code gva → (TailNext img s p code gva ↔ TailBehind img s p code gva)
  else ¬(HeadAt img s p code gva ∧ TailNext img s p code gva)

section Decode

variable {img : VmxImage} {s : VmxState} {p : GuestPath} (env : ExitEnv)

/-- The two branches of `handle_exception_nmi`, by the bytes in memory. -/
theorem branches_iff (hud : IsUd s.vmcs) (h : GuestMapped img s (s.vmcs.read guestRip) p) :
    (handleExceptionNmi img env s = .ok (handleSyscall env s) ↔
        p.Plain ∧ CodeAt img s syscallCode (p.address (s.vmcs.read guestRip))) ∧
      (handleExceptionNmi img env s = .ok (handleSysret env s) ↔
        p.Plain ∧ CodeAt img s sysretCode (p.address (s.vmcs.read guestRip))) := by
  rw [← codeAt_gva2hva_iff h, ← codeAt_gva2hva_iff h, handleExceptionNmi_eq_ok,
    handleExceptionNmi_eq_ok]
  have hne : handleSyscall env s ≠ handleSysret env s := handleSyscall_ne_handleSysret
  constructor
  · simp only [hud, true_and, hne, and_true, and_false, or_false]
    rfl
  · simp only [hud, true_and, hne.symm, and_true, and_false, false_or]
    rfl

/-- An instruction that lies in one page with a plain leaf is seen where it is. -/
theorem decodedRight_of_fits {code : List (BitVec 8)} {gva : BitVec 64} (hplain : p.Plain)
    (hfits : p.Fits gva code.length) : DecodedRight img s p code gva := by
  have hshort : code.length ≤ p.pageRest gva := by
    unfold GuestPath.Fits at hfits
    unfold GuestPath.pageRest
    omega
  rw [DecodedRight, if_pos hplain, TailBehind, List.drop_eq_nil_of_le hshort]
  exact fun _ => ⟨fun _ => trivial, fun _ => .inl hshort⟩

/-- **The emulator decodes what the guest executed** exactly when, for each of the two
instructions, the bytes that it reads behind the page of RIP say the same of the instruction as
those of the guest's next page. -/
theorem decodesGuest_iff (hud : IsUd s.vmcs)
    (h : GuestMapped img s (s.vmcs.read guestRip) p) :
    DecodesGuest img env s ↔
      ∀ code ∈ [syscallCode, sysretCode], DecodedRight img s p code (s.vmcs.read guestRip) := by
  obtain ⟨-, -, hlow, -⟩ := h.page.frame h.built
  obtain ⟨hcall, hret⟩ := branches_iff env hud h
  have hcode : ∀ code : List (BitVec 8), code.length ≤ 4096 →
      ((p.Plain ∧ CodeAt img s code (p.address (s.vmcs.read guestRip)) ↔
        GuestCode img s code (s.vmcs.read guestRip)) ↔
      DecodedRight img s p code (s.vmcs.read guestRip)) := by
    intro code hlength
    rw [guestCode_split h.path hlength, codeAt_split h.path hlow, DecodedRight]
    by_cases hplain : p.Plain
    · rw [if_pos hplain, and_iff_right hplain, and_congr_right_iff]
      exact forall_congr' fun _ => iff_comm
    · rw [if_neg hplain]
      simp only [hplain, false_and, false_iff]
  rw [DecodesGuest, hcall, hret, hcode _ (by decide), hcode _ (by decide)]
  simp

end Decode

/-- The code of the guest at RIP, by its walks. -/
theorem guestCode_pagedState : GuestCode vmmVmxImage (pagedState 0x4007) syscallCode 0x4fff := by
  refine ⟨⟨⟨[0x1000, 0x2000, 0x3000, 0x5000], 0x4007, 12⟩, ?_, ?_⟩,
    ⟨⟨[0x1000, 0x2000, 0x3000, 0x5000], 0x9007, 12⟩, ?_, ?_⟩, trivial⟩ <;> decide +kernel

/-- At the RIP of this guest. -/
theorem decodesGuest_iff_pagedState :
    ∃ p, IsUd (pagedState 0x4007).vmcs ∧ GuestMapped vmmVmxImage (pagedState 0x4007) 0x4fff p ∧
      (DecodesGuest vmmVmxImage quietEnv (pagedState 0x4007) ↔
        ∀ code ∈ [syscallCode, sysretCode],
          DecodedRight vmmVmxImage (pagedState 0x4007) p code 0x4fff) := by
  have hud : IsUd (pagedState 0x4007).vmcs := by decide +kernel
  have hrip : (pagedState 0x4007).vmcs.read guestRip = 0x4fff := by decide +kernel
  have hmapped := pagedState_mapped 0x4007 ((pagedState 0x4007).vmcs.read guestRip)
    (p := ⟨[0x1000, 0x2000, 0x3000, 0x5000], 0x4007, 12⟩) (by decide +kernel)
    (by decide +kernel)
  have hiff := decodesGuest_iff quietEnv hud hmapped
  rw [hrip] at hmapped hiff
  exact ⟨_, hud, hmapped, hiff⟩

/-- A SYSCALL across two pages that are not adjacent in memory ends in the panic. -/
theorem not_decodesGuest_pagedState :
    ∃ p, IsUd (pagedState 0x4007).vmcs ∧ GuestMapped vmmVmxImage (pagedState 0x4007) 0x4fff p ∧
      (pagedState 0x4007).vmcs.read guestRip = 0x4fff ∧
      ¬DecodesGuest vmmVmxImage quietEnv (pagedState 0x4007) := by
  have hud : IsUd (pagedState 0x4007).vmcs := by decide +kernel
  have hrip : (pagedState 0x4007).vmcs.read guestRip = 0x4fff := by decide +kernel
  have hmapped := pagedState_mapped 0x4007 ((pagedState 0x4007).vmcs.read guestRip)
    (p := ⟨[0x1000, 0x2000, 0x3000, 0x5000], 0x4007, 12⟩) (by decide +kernel)
    (by decide +kernel)
  have hiff := (branches_iff quietEnv hud hmapped).1
  rw [hrip] at hmapped hiff
  refine ⟨_, hud, hmapped, hrip, fun hdec => ?_⟩
  have hcode := guestCode_pagedState
  rw [← hrip] at hcode
  exact absurd (hiff.mp (hdec.1.mpr hcode)).2 (by decide +kernel)

end Lvisor
