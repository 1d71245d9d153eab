import Lvisor.Boot
import Lvisor.E820Range
import Lvisor.EptFrames
import Mathlib.Data.List.Pairwise

/-!
# The memory map given to the guest

`multibootInit` masks the VMM out of the sanitised map of the boot loader, and `kvmInit`
reports the result to the guest. This module relates three descriptions of guest memory:
the sanitised map, the reported map, and what the EPT backs on demand.

* `reported_eq` — the reported map is the sanitised one retyped on `[_start, _end)`, as much
  of it as the table holds;
* `masked_iff_hasRoom` — nothing is lost exactly when the table has room for the parts the
  mask splits off;
* `ram_backed_iff` — the reported RAM that can be backed is the part below 4 GiB.
-/

namespace Lvisor

/-! ## What boot leaves behind -/

/-- The table that `e820_update_table` accepts is sanitised. -/
theorem e820UpdateTable_sanitized {newEntries : Vector E820Entry e820MaxEntries}
    {t t' : E820Table} (h : t.e820UpdateTable newEntries = .ok t') : t'.Sanitized := by
  unfold E820Table.e820UpdateTable at h
  by_cases hacc : 2 ≤ t.nrEntries ∧ ∀ e ∈ t.entries, ¬e.Wraps
  · obtain ⟨t₁, runs, heq, hsane, -⟩ := updateTable_spec newEntries hacc.1 hacc.2
    rw [heq] at h
    obtain rfl : t₁ = t' := Except.ok.inj h
    exact hsane
  · have href : t.nrEntries < 2 ∨ ∃ e ∈ t.entries, e.Wraps := by
      by_contra hno
      push Not at hno
      exact hacc hno
    rw [updateTable_of_refused newEntries href, Exec.ok_bind] at h
    exact absurd (panicIf_bind_eq_ok.mp h).1 (by decide)

theorem bootMap_sanitized {info : BitVec 64} {st : BootState} {t : E820Table}
    (h : bootMap info st = .ok t) : t.Sanitized := by
  obtain ⟨t₀, -, h₀⟩ := Exec.bind_eq_ok.mp h
  exact e820UpdateTable_sanitized h₀

section Mask

variable {img : Image} {t t' : E820Table}

/-- The end of the masked range, as `rangeUpdate` computes it. -/
theorem Image.start_add_size (img : Image) : img.start + (img.stop - img.start) = img.stop := by
  bv_omega

theorem Image.stop_toNat (img : Image) :
    img.stop.toNat = img.start.toNat + (img.stop - img.start).toNat := by
  have hle := img.start_le_stop
  rw [BitVec.toNat_sub_of_le (BitVec.le_def.mpr hle)]
  omega

/-- What is left of the entries of a table when the VMM is masked out and everything
fits. -/
def maskedEntries (img : Image) (es : List E820Entry) : List E820Entry :=
  retypedEntries img.start img.stop (img.stop - img.start) e820TypeRam e820TypeReserved es

/-- The mask: the checks passed, and the table holds the masked entries, as many as
fit. -/
theorem maskVmm_eq_ok (h : maskVmm img t = .ok t') :
    img.Aligned ∧ t.mappedAll img.start img.stop e820TypeRam = true ∧
      t'.entries = (maskedEntries img t.entries).take e820MaxEntries := by
  have hlt := img.stop.isLt
  have hstop := img.stop_toNat
  obtain ⟨t₁, hupdate, hentries⟩ := rangeUpdate_eq
    (show img.start.toNat + (img.stop - img.start).toNat < 2 ^ 64 by omega)
    (show e820TypeRam ≠ e820TypeReserved by decide) t
  rw [img.start_add_size] at hupdate hentries
  unfold maskVmm at h
  obtain ⟨hs, h⟩ := bugOn_bind_eq_ok.mp h
  obtain ⟨he, h⟩ := bugOn_bind_eq_ok.mp h
  obtain ⟨hmap, h⟩ := bugOn_bind_eq_ok.mp h
  rw [hupdate] at h
  obtain rfl : t₁ = t' := Except.ok.inj h
  refine ⟨⟨?_, ?_⟩, by simpa using hmap, hentries⟩
  · simpa [BitVec.toNat_umod] using congrArg BitVec.toNat (not_not.mp (of_decide_eq_false hs))
  · simpa [BitVec.toNat_umod] using congrArg BitVec.toNat (not_not.mp (of_decide_eq_false he))

end Mask

section Boot

variable {img : BootImage} {magic : BitVec 32} {info : BitVec 64} {st st₁ st₂ : BootState}

/-- A boot that does not panic sanitises the map and masks the VMM out of it. -/
theorem multibootInit_eq_ok (h : multibootInit img magic info st = .ok st₁) :
    ∃ t, bootMap info st = .ok t ∧ maskVmm img.image t = .ok st₁.e820 := by
  unfold multibootInit at h
  obtain ⟨-, h⟩ := bugOn_bind_eq_ok.mp h
  obtain ⟨-, h⟩ := bugOn_bind_eq_ok.mp h
  obtain ⟨-, h⟩ := panicIf_bind_eq_ok.mp h
  obtain ⟨t, ht, h⟩ := Exec.bind_eq_ok.mp h
  obtain ⟨st', -, h⟩ := Exec.bind_eq_ok.mp h
  obtain ⟨t', ht', h⟩ := Exec.bind_eq_ok.mp h
  obtain rfl := Except.ok.inj h
  exact ⟨t, ht, ht'⟩

/-- The guest is told the entries of the table. -/
theorem GuestParams.fill_reported (g : GuestParams) (t : E820Table) :
    (g.fill t).reported = t.entries := by
  have hle : t.entries.length ≤ 128 := t.length_le
  have hnr : (BitVec.ofNat 32 t.nrEntries).toNat = t.entries.length := by
    rw [BitVec.toNat_ofNat]
    exact Nat.mod_eq_of_lt (show t.entries.length < 2 ^ 32 by omega)
  unfold GuestParams.reported GuestParams.fill
  simp only [hnr]
  refine List.ext_getElem (by simpa using hle) fun i h₁ h₂ => ?_
  simp [h₂]

/-- `kvm_init` reports the table it finds, and nothing else. -/
theorem kvmInit_eq_ok {σ : Type} {ops : KvmX86Ops σ} {vmx vmx' : σ}
    (h : kvmInit ops img vmx st₁ = .ok (vmx', st₂)) :
    st₂.guestParams.reported = st₁.e820.entries := by
  unfold kvmInit at h
  obtain ⟨-, h⟩ := panicIf_bind_eq_ok.mp h
  obtain ⟨-, h⟩ := panicIf_bind_eq_ok.mp h
  obtain ⟨vmx₁, -, h⟩ := Exec.bind_eq_ok.mp h
  obtain ⟨-, h⟩ := bugOn_bind_eq_ok.mp h
  obtain ⟨-, h⟩ := panicIf_bind_eq_ok.mp h
  obtain ⟨-, rfl⟩ := Prod.mk.inj (Except.ok.inj h)
  exact GuestParams.fill_reported _ _

end Boot

/-! ## Masking loses nothing when there is room

A range that lies inside of one entry splits it into three parts at most. In a sanitised table at
most one entry contains the VMM, so the mask needs two more slots at most, and it drops what
finds none. -/

/-- The map `es` is the map `T` with the VMM masked out: its bytes are reserved, every other
byte is described as in `T`, and none twice. -/
structure Masked (img : Image) (T es : List E820Entry) : Prop where
  reserved : ∀ a, img.Owns a → (∃ e ∈ es, e.Covers a ∧ e.type = e820TypeReserved) ∧
    ∀ e ∈ es, e.Covers a → e.type ≠ e820TypeRam
  others : ∀ a, ¬img.Owns a → ∀ type,
    (∃ e ∈ es, e.Covers a ∧ e.type = type) ↔ ∃ e ∈ T, e.Covers a ∧ e.type = type
  once : es.Pairwise E820Entry.Disjoint

/-- The table has room for the parts that the mask splits off the entry around the VMM: one
for each side on which the entry extends beyond it. -/
def HasRoom (img : Image) (T : E820Table) : Prop :=
  ∀ e ∈ T.entries, e.type = e820TypeRam → e.addr ≤ img.start → img.stop ≤ e.stop →
    T.nrEntries + (if e.addr < img.start then 1 else 0) + (if img.stop < e.stop then 1 else 0) ≤
      e820MaxEntries

instance (img : Image) (T : E820Table) : Decidable (HasRoom img T) :=
  inferInstanceAs (Decidable (∀ e ∈ _, _))

/-- The parts of one entry among the appended ones. -/
theorem flatMap_eq_of_unique {α β : Type} {l : List α} (hnd : l.Nodup) {x : α} (hx : x ∈ l)
    {f : α → List β} (h : ∀ y ∈ l, y ≠ x → f y = []) : l.flatMap f = f x := by
  obtain ⟨pre, post, rfl⟩ := List.append_of_mem hx
  obtain ⟨-, hpost, hpre⟩ := List.nodup_append.mp hnd
  have hpre' : pre.flatMap f = [] := List.flatMap_eq_nil_iff.mpr fun y hy =>
    h y (List.mem_append_left _ hy) (hpre y hy x (List.mem_cons_self ..))
  have hpost' : post.flatMap f = [] := List.flatMap_eq_nil_iff.mpr fun y hy =>
    h y (List.mem_append_right _ (List.mem_cons_of_mem _ hy)) fun heq =>
      (List.nodup_cons.mp hpost).1 (heq ▸ hy)
  rw [List.flatMap_append, List.flatMap_cons, hpre', hpost', List.append_nil, List.nil_append]

section Room

variable {img : Image} {T : E820Table}

/-- Two entries of a sanitised table that share a byte are one. -/
theorem E820Table.Sanitized.eq_of_covers (hT : T.Sanitized) {e f : E820Entry} (he : e ∈ T.entries)
    (hf : f ∈ T.entries) {a : ℕ} (hea : e.Covers a) (hfa : f.Covers a) : e = f := by
  by_contra hne
  have hsymm : Std.Symm E820Entry.Disjoint := ⟨fun _ _ h => h.symm⟩
  have hdis : T.entries.Pairwise E820Entry.Disjoint := hT.disjoint
  exact hdis.forall he hf hne a ⟨hea, hfa⟩

theorem E820Table.Sanitized.nodup (hT : T.Sanitized) : T.entries.Nodup :=
  hT.increasing.imp fun {e f} hlt heq => by
    rw [heq] at hlt
    exact BitVec.lt_irrefl _ hlt

/-- The entry around the VMM, and what the mask does to the table: only this entry is
split. -/
theorem exists_split (hT : T.Sanitized)
    (hmap : T.mappedAll img.start img.stop e820TypeRam = true) :
    ∃ E ∈ T.entries, E.type = e820TypeRam ∧ E.addr ≤ img.start ∧ img.stop ≤ E.stop ∧
      (∀ e ∈ T.entries, e.type = e820TypeRam → e.addr ≤ img.start → img.stop ≤ e.stop → e = E) ∧
      ∃ added, maskedEntries img T.entries = T.entries.map (fun e =>
          (rangeCut img.start img.stop (img.stop - img.start) e820TypeRam e820TypeReserved e).kept)
            ++ added ∧
        added.length =
          (if E.addr < img.start then 1 else 0) + (if img.stop < E.stop then 1 else 0) ∧
        ∀ init x, added = init ++ [x] → ∃ a, x.Covers a := by
  obtain ⟨E, hE, htype, hlo, hlo', hhi', hhi⟩ := exists_of_mappedAll hT (by decide) hmap
  have hle := img.start_le_stop
  have hstop := img.stop_toNat
  have hEend := E820Entry.stop_toNat (hT.not_wraps E hE)
  have h₁ : E.addr.toNat ≤ img.start.toNat := hlo
  have h₂ : E.addr.toNat < img.stop.toNat := hlo'
  have h₃ : img.start.toNat < E.stop.toNat := hhi'
  have h₄ : img.stop.toNat ≤ E.stop.toNat := hhi
  have hshape : ∀ e ∈ T.entries, CutShape img.start.toNat img.stop.toNat e820TypeRam
      e820TypeReserved e e.addr.toNat (e.addr.toNat + e.size.toNat)
      (rangeCut img.start img.stop (img.stop - img.start) e820TypeRam e820TypeReserved e) :=
    fun e he => rangeCut_shape hstop (hT.not_wraps e he)
  -- an entry that is split shares a byte with `E`
  have hadded : ∀ e ∈ T.entries, e ≠ E → (rangeCut img.start img.stop (img.stop - img.start)
      e820TypeRam e820TypeReserved e).added = [] := by
    intro e he hne
    by_contra hsplit
    obtain ⟨-, a, h₅, h₆, h₇, h₈⟩ := (hshape e he).exists_covers_of_added hle hsplit
    exact hne (hT.eq_of_covers he hE ⟨h₅, h₆⟩ ⟨by omega, by omega⟩)
  refine ⟨E, hE, htype, hlo, hhi, ?_, _,
    congrArg (_ ++ ·) (flatMap_eq_of_unique hT.nodup hE hadded), ?_, ?_⟩
  · -- a RAM entry around the range shares a byte with `E`, also when the range is empty
    intro e he _ helo hehi
    have he₁ : e.addr.toNat ≤ img.start.toNat := helo
    have he₂ : img.stop.toNat ≤ e.stop.toNat := hehi
    have hlt : e.addr.toNat < e.stop.toNat := hT.order.1 e he
    have hend := E820Entry.stop_toNat (hT.not_wraps e he)
    by_cases hin : img.start.toNat < e.stop.toNat
    · exact hT.eq_of_covers he hE (a := img.start.toNat) ⟨by omega, by omega⟩ ⟨by omega, by omega⟩
    · exact hT.eq_of_covers he hE (a := img.start.toNat - 1) ⟨by omega, by omega⟩
        ⟨by omega, by omega⟩
  · rw [(hshape E hE).added_length htype h₁ (by omega) (by omega) h₂]
    simp only [BitVec.lt_def, hEend]
  · exact fun init x hx => (hshape E hE).exists_covers_last hx

/-- What the masked entries say about a byte. -/
theorem masked_describes (hT : T.Sanitized) (a : ℕ) (type : BitVec 32) :
    (∃ x ∈ maskedEntries img T.entries, x.Covers a ∧ x.type = type) ↔
      ∃ e ∈ T.entries, e.Covers a ∧ type =
        if e.type = e820TypeRam ∧ img.Owns a then e820TypeReserved else e.type :=
  retyped_describes img.stop_toNat hT.not_wraps a type

theorem masked_disjoint (img : Image) (hT : T.Sanitized) :
    (maskedEntries img T.entries).Pairwise E820Entry.Disjoint :=
  retyped_disjoint img.stop_toNat hT.not_wraps hT.disjoint

/-- No masked entry describes a byte of the VMM as RAM. -/
theorem not_owns_of_masked_ram (hT : T.Sanitized) {x : E820Entry}
    (hx : x ∈ maskedEntries img T.entries) (htype : x.type = e820TypeRam) {a : ℕ}
    (ha : x.Covers a) : ¬img.Owns a := by
  intro hown
  obtain ⟨e, -, -, heq⟩ := (masked_describes hT a e820TypeRam).mp ⟨x, hx, ha, htype⟩
  by_cases hram : e.type = e820TypeRam
  · rw [if_pos ⟨hram, hown⟩] at heq
    exact absurd heq (by decide)
  · rw [if_neg fun hh => hram hh.1] at heq
    exact hram heq.symm

/-- With room for everything nothing is lost. -/
theorem masked_maskedEntries (hT : T.Sanitized)
    (hmap : T.mappedAll img.start img.stop e820TypeRam = true) :
    Masked img T.entries (maskedEntries img T.entries) := by
  obtain ⟨E, hE, htype, hlo, hhi, -⟩ := exists_split hT hmap
  have h₁ : E.addr.toNat ≤ img.start.toNat := hlo
  have h₂ : img.stop.toNat ≤ E.stop.toNat := hhi
  rw [E820Entry.stop_toNat (hT.not_wraps E hE)] at h₂
  refine ⟨fun a hown => ⟨?_, fun x hx ha htype' => ?_⟩, fun a hown type => ?_,
    masked_disjoint img hT⟩
  · refine (masked_describes hT a e820TypeReserved).mpr ⟨E, hE, ?_, (if_pos ⟨htype, hown⟩).symm⟩
    exact ⟨Nat.le_trans h₁ hown.1, Nat.lt_of_lt_of_le hown.2 h₂⟩
  · exact not_owns_of_masked_ram hT hx htype' ha hown
  · rw [masked_describes hT a type]
    simp only [hown, and_false, if_false, eq_comm]

/-- A masked map describes every byte the map described. -/
theorem Masked.exists_covers {es es' : List E820Entry} (h : Masked img es es') {e : E820Entry}
    (he : e ∈ es) {a : ℕ} (ha : e.Covers a) : ∃ x ∈ es', x.Covers a := by
  by_cases hown : img.Owns a
  · obtain ⟨x, hx, hxa, -⟩ := (h.reserved a hown).1
    exact ⟨x, hx, hxa⟩
  · obtain ⟨x, hx, hxa, -⟩ := (h.others a hown e.type).mpr ⟨e, he, ha, rfl⟩
    exact ⟨x, hx, hxa⟩

/-- **Masking loses nothing exactly when there is room** for the parts that are split
off. -/
theorem masked_take_iff (hT : T.Sanitized)
    (hmap : T.mappedAll img.start img.stop e820TypeRam = true) :
    Masked img T.entries ((maskedEntries img T.entries).take e820MaxEntries) ↔ HasRoom img T := by
  obtain ⟨E, hE, htype, hlo, hhi, huniq, added, hsplit, hlen, hlast⟩ := exists_split hT hmap
  have hroom : HasRoom img T ↔ T.nrEntries + added.length ≤ e820MaxEntries := by
    rw [hlen, ← Nat.add_assoc]
    constructor
    · exact fun h => h E hE htype hlo hhi
    · intro h e he htype' hlo' hhi'
      obtain rfl := huniq e he htype' hlo' hhi'
      exact h
  have hlength : (maskedEntries img T.entries).length = T.nrEntries + added.length := by
    rw [hsplit, List.length_append, List.length_map]
    rfl
  rw [hroom]
  constructor
  · -- without room the last part is dropped, and nothing else describes its bytes
    intro hmask
    by_contra hno
    have hne : added ≠ [] := by
      rintro rfl
      exact hno T.length_le
    obtain ⟨init, x, hadded⟩ := (List.eq_nil_or_concat added).resolve_left hne
    rw [List.concat_eq_append] at hadded
    obtain ⟨a, ha⟩ := hlast init x hadded
    rw [hadded, ← List.append_assoc] at hsplit
    have hdis := masked_disjoint img hT
    rw [hsplit] at hmask hdis hlength
    rw [List.length_append, List.length_singleton] at hlength
    rw [List.take_append_of_le_length (by omega)] at hmask
    have hx : x ∈ maskedEntries img T.entries := by
      rw [hsplit]
      exact List.mem_append_right _ (List.mem_singleton_self x)
    obtain ⟨e, he, hea, -⟩ := (masked_describes hT a x.type).mp ⟨x, hx, ha, rfl⟩
    obtain ⟨y, hy, hya⟩ := hmask.exists_covers he hea
    exact (List.pairwise_append.mp hdis).2.2 y (List.mem_of_mem_take hy) x
      (List.mem_singleton_self x) a ⟨hya, ha⟩
  · intro h
    rw [List.take_of_length_le (hlength ▸ h)]
    exact masked_maskedEntries hT hmap

end Room

/-! ## The two claims of boot -/

section Report

variable {σ : Type} {ops : KvmX86Ops σ} {img : BootImage} {magic : BitVec 32} {info : BitVec 64}
  {st st₁ st₂ : BootState} {vmx vmx' : σ} {T : E820Table}

/-- What boot reports, in terms of the sanitised map of the boot loader. -/
theorem reported_eq (hT : bootMap info st = .ok T)
    (hboot : multibootInit img magic info st = .ok st₁)
    (hkvm : kvmInit ops img vmx st₁ = .ok (vmx', st₂)) :
    T.Sanitized ∧ img.image.Aligned ∧
      T.mappedAll img.image.start img.image.stop e820TypeRam = true ∧
      st₂.guestParams.reported = (maskedEntries img.image T.entries).take e820MaxEntries := by
  obtain ⟨T', hT', hmask⟩ := multibootInit_eq_ok hboot
  obtain rfl : T = T' := Except.ok.inj (hT.symm.trans hT')
  obtain ⟨haligned, hmap, hentries⟩ := maskVmm_eq_ok hmask
  exact ⟨bootMap_sanitized hT, haligned, hmap, (kvmInit_eq_ok hkvm).trans hentries⟩

/-- **Masking the VMM out of the memory map loses nothing exactly when the sanitised table
has room** for the parts it splits off: the table reported to the guest then reserves the
VMM and describes every other byte as before, once. -/
theorem masked_iff_hasRoom (hT : bootMap info st = .ok T)
    (hboot : multibootInit img magic info st = .ok st₁)
    (hkvm : kvmInit ops img vmx st₁ = .ok (vmx', st₂)) :
    Masked img.image T.entries st₂.guestParams.reported ↔ HasRoom img.image T := by
  obtain ⟨hsane, -, hmap, hrep⟩ := reported_eq hT hboot hkvm
  rw [hrep]
  exact masked_take_iff hsane hmap

/-- **The memory map given to the guest agrees with the EPT below 4 GiB, and there only**:
a byte reported as RAM is never one of the VMM, and at any time a fault on it is accepted
and leaves it mapped exactly when it lies below 4 GiB. -/
theorem ram_backed_iff (mem : BitVec 64 → BitVec 64)
    (hboot : multibootInit img magic info st = .ok st₁)
    (hkvm : kvmInit ops img vmx st₁ = .ok (vmx', st₂)) {e : E820Entry}
    (he : e ∈ st₂.guestParams.reported) (hram : e.type = e820TypeRam) {a : BitVec 64}
    (ha : e.Covers a.toNat) {gs : List (BitVec 64)} {s : Ept}
    (hrun : runSteps (handleEptViolation img.image) Ept.zero gs = .ok s) :
    ¬img.image.Owns a.toNat ∧
      ((∃ s', handleEptViolation img.image s a = .ok s' ∧
        eptTranslate (s'.word img.image mem) img.image.eptPml4 a = some ⟨a, epteRwx, 21⟩) ↔
        a.toNat < 2 ^ 32) := by
  obtain ⟨T, hT, -⟩ := multibootInit_eq_ok hboot
  obtain ⟨hsane, -, -, hrep⟩ := reported_eq hT hboot hkvm
  have hown := not_owns_of_masked_ram hsane (List.mem_of_mem_take (hrep ▸ he)) hram ha
  rw [← Ept.ofFrames_empty img.image] at hrun
  obtain ⟨-, rfl⟩ := runSteps_handleEptViolation_iff.mp hrun
  refine ⟨hown, ?_, fun hlt => ?_⟩
  · rintro ⟨s', hs', -⟩
    exact (handleEptViolation_ofFrames_eq_ok.mp hs').1.2
  · refine ⟨_, handleEptViolation_ofFrames_eq_ok.mpr ⟨⟨hown, hlt⟩, rfl⟩, ?_⟩
    rw [eptTranslate_ofFrames (by omega), if_pos ⟨hlt, Finset.mem_insert_self _ _⟩]

end Report

/-! ## Two machines

A map with RAM on both sides of 4 GiB, and a full table, in which the parts that the mask appends
find no room and are lost. -/

/-- The memory a boot loader leaves: `struct multiboot_info` at `0x9000`, one module at
`0x9100` with an empty command line at `0x9200`, and the records of the memory map from
`0xa000` on. -/
def loaderMemory (records : List E820Entry) : Memory := fun p =>
  if p.toNat < 0xa000 then
    match p.toNat - 0x9000 with
    | 0 => 0x40
    | 20 => 1
    | 25 => 0x91
    | 44 => GuestParams.leByte (BitVec.ofNat 32 (24 * records.length)) 0
    | 45 => GuestParams.leByte (BitVec.ofNat 32 (24 * records.length)) 1
    | 49 => 0xa0
    | 258 => 0x20
    | 262 => 0x30
    | 265 => 0x92
    | _ => 0
  else
    let e := records.getD ((p.toNat - 0xa000) / 24) default
    let r := (p.toNat - 0xa000) % 24
    if r < 4 then GuestParams.leByte (20 : BitVec 32) r
    else if r < 12 then GuestParams.leByte e.addr (r - 4)
    else if r < 20 then GuestParams.leByte e.size (r - 12)
    else GuestParams.leByte e.type (r - 20)

/-- The state at boot, with the records of the boot loader. -/
def bootState (records : List E820Entry) : BootState where
  e820 := E820Table.empty
  newEntries := Vector.replicate _ default
  guestParams := ⟨Vector.replicate _ 0, 0, 0, 0, 0, fun _ => 0, 0, Vector.replicate _ default⟩
  mem := loaderMemory records

/-- The image of `vmmImage` with a firmware that begins with the expected header. -/
def vmmBootImage : BootImage where
  image := vmmImage
  guestParams := 0x10001000
  firmware := [0xe9, 0x29, 0x0e, 0, 0, 0, 0, 0]

/-- A processor with the extension enabled, of which nothing else is known. -/
def readyOps : KvmX86Ops Unit where
  cpuHasKvmSupport := fun _ => true
  disabledByBios := fun _ => false
  hardwareSetup := fun s => .ok s

/-- A machine with 512 MiB of RAM around the VMM and 256 MiB above 4 GiB. -/
def highMap : E820Table where
  entries := [⟨0x0, 0x20000000, 1⟩, ⟨0x100000000, 0x10000000, 1⟩]
  length_le := by decide

/-- A machine with the same RAM around the VMM and 127 reserved ranges above it: a full
table. -/
def fullMap : E820Table where
  entries := ⟨0x0, 0x20000000, 1⟩ :: (List.range 127).map fun k =>
    ⟨BitVec.ofNat 64 (0x20001000 + k * 0x2000), 0x1000, 2⟩
  length_le := by simp

/-- Boot behind the sanitised memory map `T`: the mask, and the report. -/
def bootRest (T : E820Table) : Exec (Unit × BootState) := do
  let st ← bootModules vmmBootImage 0x9000 (bootState T.entries)
  let t ← maskVmm vmmImage T
  kvmInit readyOps vmmBootImage () { st with e820 := t }

/-- A boot on records that are sanitised already. -/
theorem exists_boot {T : E820Table}
    (hread : E820Table.rangeAddRecords (loaderMemory T.entries)
      (read32 (loaderMemory T.entries) (0x9000 + 44)).toNat
      ((read32 (loaderMemory T.entries) (0x9000 + 44)).toNat / 4 + 2) 0
      ((read32 (loaderMemory T.entries) (0x9000 + 48)).setWidth 64) E820Table.empty = .ok T)
    (hnr : 2 ≤ T.nrEntries) (hw : ∀ e ∈ T.entries, ¬e.Wraps)
    (hc : Canonical (T.entries.map E820Entry.piece))
    (hflags : read32 (loaderMemory T.entries) 0x9000 &&& multibootInfoMemMap ≠ 0)
    (hrest : (bootRest T).isOk = true) :
    ∃ st₁ st₂, bootMap 0x9000 (bootState T.entries) = .ok T ∧
      multibootInit vmmBootImage multibootBootloaderMagic 0x9000 (bootState T.entries) = .ok st₁ ∧
      kvmInit readyOps vmmBootImage () st₁ = .ok ((), st₂) := by
  have hmap : bootMap 0x9000 (bootState T.entries) = .ok T := by
    refine Exec.bind_eq_ok.mpr ⟨T, hread, ?_⟩
    rw [E820Table.e820UpdateTable, updateTable_of_canonical _ hnr hw hc]
    rfl
  obtain ⟨⟨⟨⟩, st₂⟩, hok⟩ : ∃ r, bootRest T = .ok r := by
    rcases hb : bootRest T with f | r
    · rw [hb] at hrest
      cases hrest
    · exact ⟨r, rfl⟩
  obtain ⟨st, hst, hok⟩ := Exec.bind_eq_ok.mp hok
  obtain ⟨t, ht, hok⟩ := Exec.bind_eq_ok.mp hok
  refine ⟨_, st₂, hmap, ?_, hok⟩
  unfold multibootInit
  refine bugOn_bind_eq_ok.mpr ⟨by decide, bugOn_bind_eq_ok.mpr ⟨by decide, ?_⟩⟩
  refine panicIf_bind_eq_ok.mpr ⟨decide_eq_false hflags, ?_⟩
  refine Exec.bind_eq_ok.mpr ⟨T, hmap, Exec.bind_eq_ok.mpr ⟨st, hst, ?_⟩⟩
  exact Exec.bind_eq_ok.mpr ⟨t, ht, rfl⟩

theorem highMap_boot :
    ∃ st₁ st₂, bootMap 0x9000 (bootState highMap.entries) = .ok highMap ∧
      multibootInit vmmBootImage multibootBootloaderMagic 0x9000 (bootState highMap.entries) =
        .ok st₁ ∧
      kvmInit readyOps vmmBootImage () st₁ = .ok ((), st₂) :=
  exists_boot (by decide +kernel) (by decide) (by decide) ⟨by decide, by decide⟩
    (by decide +kernel) (by decide +kernel)

theorem fullMap_boot :
    ∃ st₁ st₂, bootMap 0x9000 (bootState fullMap.entries) = .ok fullMap ∧
      multibootInit vmmBootImage multibootBootloaderMagic 0x9000 (bootState fullMap.entries) =
        .ok st₁ ∧
      kvmInit readyOps vmmBootImage () st₁ = .ok ((), st₂) :=
  exists_boot (by decide +kernel) (by decide +kernel) (by decide +kernel)
    ⟨by decide +kernel, by decide +kernel⟩ (by decide +kernel) (by decide +kernel)

theorem masked_iff_hasRoom_highMap :
    ∃ st₁ st₂, bootMap 0x9000 (bootState highMap.entries) = .ok highMap ∧
      multibootInit vmmBootImage multibootBootloaderMagic 0x9000 (bootState highMap.entries) =
        .ok st₁ ∧
      kvmInit readyOps vmmBootImage () st₁ = .ok ((), st₂) ∧
      (Masked vmmImage highMap.entries st₂.guestParams.reported ↔ HasRoom vmmImage highMap) := by
  obtain ⟨st₁, st₂, hT, hboot, hkvm⟩ := highMap_boot
  exact ⟨st₁, st₂, hT, hboot, hkvm, masked_iff_hasRoom hT hboot hkvm⟩

/-- On a full table the mask drops both parts it splits off. -/
theorem not_masked_fullMap :
    ∃ st₁ st₂, bootMap 0x9000 (bootState fullMap.entries) = .ok fullMap ∧
      fullMap.nrEntries = 128 ∧
      multibootInit vmmBootImage multibootBootloaderMagic 0x9000 (bootState fullMap.entries) =
        .ok st₁ ∧
      kvmInit readyOps vmmBootImage () st₁ = .ok ((), st₂) ∧
      ¬Masked vmmImage fullMap.entries st₂.guestParams.reported := by
  obtain ⟨st₁, st₂, hT, hboot, hkvm⟩ := fullMap_boot
  obtain ⟨hsane, -, hmap, hrep⟩ := reported_eq hT hboot hkvm
  refine ⟨st₁, st₂, hT, by decide +kernel, hboot, hkvm, ?_⟩
  rw [hrep]
  exact fun hmask => absurd ((masked_take_iff hsane hmap).mp hmask) (by decide +kernel)

theorem ram_backed_iff_highMap :
    ∃ st₁ st₂, multibootInit vmmBootImage multibootBootloaderMagic 0x9000
        (bootState highMap.entries) = .ok st₁ ∧
      kvmInit readyOps vmmBootImage () st₁ = .ok ((), st₂) ∧
      (⟨0x0, 0x10000000, 1⟩ : E820Entry) ∈ st₂.guestParams.reported ∧
      ¬vmmImage.Owns 0x200000 ∧
      ((∃ s', handleEptViolation vmmImage Ept.zero 0x200000 = .ok s' ∧
        eptTranslate (s'.word vmmImage fun _ => 0) vmmImage.eptPml4 0x200000 =
          some ⟨0x200000, epteRwx, 21⟩) ↔ 0x200000 < 2 ^ 32) := by
  obtain ⟨st₁, st₂, hT, hboot, hkvm⟩ := highMap_boot
  obtain ⟨-, -, -, hrep⟩ := reported_eq hT hboot hkvm
  have he : (⟨0x0, 0x10000000, 1⟩ : E820Entry) ∈ st₂.guestParams.reported := by
    rw [hrep]
    decide
  refine ⟨st₁, st₂, hboot, hkvm, he, ?_⟩
  exact ram_backed_iff (fun _ => 0) hboot hkvm he rfl (a := 0x200000) (by decide)
    (show runSteps (handleEptViolation vmmImage) Ept.zero [] = .ok Ept.zero from rfl)

/-- A machine with RAM above 4 GiB reports it, and a fault on it stops the machine. -/
theorem ram_not_backed_highMap :
    ∃ st₁ st₂, multibootInit vmmBootImage multibootBootloaderMagic 0x9000
        (bootState highMap.entries) = .ok st₁ ∧
      kvmInit readyOps vmmBootImage () st₁ = .ok ((), st₂) ∧
      ∃ e ∈ st₂.guestParams.reported, e.type = e820TypeRam ∧
        e.Covers (0x100000000 : BitVec 64).toNat ∧
        handleEptViolation vmmImage Ept.zero 0x100000000 =
          .error (.panic "cannot write to physmem higher than 4G\n") := by
  obtain ⟨st₁, st₂, hT, hboot, hkvm⟩ := highMap_boot
  obtain ⟨-, -, -, hrep⟩ := reported_eq hT hboot hkvm
  refine ⟨st₁, st₂, hboot, hkvm, ⟨0x100000000, 0x10000000, 1⟩, ?_, rfl, by decide, ?_⟩
  · rw [hrep]
    decide
  · rw [← Ept.ofFrames_empty vmmImage, handleEptViolation_ofFrames]
    rfl

end Lvisor
