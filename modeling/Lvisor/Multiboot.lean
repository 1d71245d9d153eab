import Lvisor.Boot
import Lvisor.E820Sanitize

/-!
# The memory map of a boot loader

The records of `struct multiboot_mmap_entry` are written by one program, `load_multiboot` of
the firmware, and read by another, `e820_range_add_multiboot`. A record starts with its own
size, which does not count the size field, so the reader finds the next one `size + 4` bytes
on.

* `Tiles` — memory holds a sequence of records from some address on, of any sizes;
* `recordWalk_of_tiles` — the loop of the reader visits the start of each record once, in
  order, and stops at the end of the last;
* `loadMultiboot_decoded` — what the firmware writes is what the reader finds;
* `rangeAddMultiboot_of_tiles` — the reader leaves the first 128 runs of the map.
-/

namespace Lvisor

/-! ## Records

A record has its own size in front, and the next record begins behind it. Records may be longer
than the fields that are known, and what is behind those is skipped. -/

/-- A record of the map: what an entry of the E820 map is, and how far the next record is away. -/
structure MmapRecord where
  /-- the size of the record behind this field -/
  size : BitVec 32
  /-- `addr`, `len` and `type` -/
  entry : E820Entry
  size_ge : 20 ≤ size.toNat

/-- `addr`, `len` and `type` of the record at `p`. -/
def entryAt (mem : Memory) (p : BitVec 64) : E820Entry :=
  ⟨read64 mem (p + 4), read64 mem (p + 12), read32 mem (p + 20)⟩

/-- The record at `p` is `r`: its size field and its three members. -/
def RecordAt (mem : Memory) (p : BitVec 64) (r : MmapRecord) : Prop :=
  read32 mem p = r.size ∧ entryAt mem p = r.entry

/-- The distance from a record to the next one. -/
def MmapRecord.skip (r : MmapRecord) : ℕ := r.size.toNat + 4

/-- The records from `p` on are `rs`, without gaps. -/
def Tiles (mem : Memory) : BitVec 64 → List MmapRecord → Prop
  | _, [] => True
  | p, r :: rs => RecordAt mem p r ∧ Tiles mem (p + BitVec.ofNat 64 r.skip) rs

/-- The number of bytes of the records, each with its size field. -/
def mmapLength (rs : List MmapRecord) : ℕ := (rs.map MmapRecord.skip).sum

/-- The offsets of the starts of the records, where the first is at `i`. -/
def recordStarts : ℕ → List MmapRecord → List ℕ
  | _, [] => []
  | i, r :: rs => i :: recordStarts (i + r.skip) rs

/-- Each start is behind those before, as no record is empty. -/
theorem recordStarts_increasing (i : ℕ) (rs : List MmapRecord) :
    (recordStarts i rs).Pairwise (· < ·) ∧ ∀ j ∈ recordStarts i rs, i ≤ j := by
  induction rs generalizing i with
  | nil => exact ⟨.nil, nofun⟩
  | cons r rs ih =>
    obtain ⟨hpair, hge⟩ := ih (i + r.skip)
    have hlt : i < i + r.skip := by
      rw [MmapRecord.skip]
      omega
    refine ⟨List.pairwise_cons.mpr ⟨fun j hj => hlt.trans_le (hge j hj), hpair⟩, ?_⟩
    rintro j hj
    rcases List.mem_cons.mp hj with rfl | hj
    · exact Nat.le_refl _
    · exact hlt.le.trans (hge j hj)

/-! ## The reader -/

/-- The loop of `e820_range_add_multiboot` without what it does at a record: the offsets of
the records that it visits, and the one at which it stops. -/
def recordWalk (mem : Memory) (len : ℕ) : ℕ → ℕ → BitVec 64 → Exec (List ℕ × ℕ)
  | 0, _, _ => .error .outOfFuel
  | fuel + 1, i, e =>
    if i < len then do
      let skip := (read32 mem e).toNat + 4
      let (starts, stop) ← recordWalk mem len fuel (i + skip) (e + BitVec.ofNat 64 skip)
      return (i :: starts, stop)
    else
      return ([], i)

/-- Append the records at the given offsets to the table, in this order. -/
def addRecords (mem : Memory) (p : BitVec 64) (starts : List ℕ) (t : E820Table) : E820Table :=
  starts.foldl (fun t i =>
    let e := entryAt mem (p + BitVec.ofNat 64 i)
    t.rangeAdd e.addr e.size e.type) t

theorem add_ofNat_add (p : BitVec 64) (i j : ℕ) :
    p + BitVec.ofNat 64 i + BitVec.ofNat 64 j = p + BitVec.ofNat 64 (i + j) := by
  rw [BitVec.ofNat_add, BitVec.add_assoc]

/-- **The loop is its walk**: it appends the records that it visits. -/
theorem rangeAddRecords_eq_walk (mem : Memory) (len fuel i : ℕ) (p : BitVec 64) (t : E820Table) :
    E820Table.rangeAddRecords mem len fuel i (p + BitVec.ofNat 64 i) t =
      (recordWalk mem len fuel i (p + BitVec.ofNat 64 i)).map fun w => addRecords mem p w.1 t := by
  induction fuel generalizing i t with
  | zero => rfl
  | succ fuel ih =>
    unfold E820Table.rangeAddRecords recordWalk
    by_cases hi : i < len
    · dsimp only
      rw [if_pos hi, if_pos hi, add_ofNat_add, ih]
      rcases recordWalk mem len fuel _ _ with f | ⟨starts, stop⟩
      · rfl
      · rfl
    · rw [if_neg hi, if_neg hi]
      rfl

/-- **Walk**: the loop visits the start of each record once, in order, and stops where the
last one ends. -/
theorem recordWalk_of_tiles {mem : Memory} {rs : List MmapRecord} {p : BitVec 64}
    (h : Tiles mem p rs) (i : ℕ) {fuel : ℕ} (hfuel : rs.length < fuel) :
    recordWalk mem (i + mmapLength rs) fuel i p = .ok (recordStarts i rs, i + mmapLength rs) := by
  induction rs generalizing p i fuel with
  | nil =>
    obtain ⟨fuel, rfl⟩ := Nat.exists_eq_add_one_of_ne_zero (Nat.ne_of_gt hfuel)
    rw [recordWalk, if_neg (by simp [mmapLength])]
    rfl
  | cons r rs ih =>
    obtain ⟨fuel, rfl⟩ := Nat.exists_eq_add_one_of_ne_zero (Nat.ne_of_gt (Nat.zero_lt_of_lt hfuel))
    have hlen : mmapLength (r :: rs) = r.skip + mmapLength rs := by
      rw [mmapLength, List.map_cons, List.sum_cons, mmapLength]
    have hskip : (read32 mem p).toNat + 4 = r.skip := by rw [h.1.1, MmapRecord.skip]
    have hpos : 0 < r.skip := by
      rw [MmapRecord.skip]
      omega
    rw [recordWalk, if_pos (by omega), hskip, hlen, ← Nat.add_assoc]
    dsimp only
    rw [ih h.2 (i + r.skip) (Nat.lt_of_succ_lt_succ hfuel)]
    rfl

/-- The entries that are appended are those of the records. -/
theorem addRecords_of_tiles {mem : Memory} {rs : List MmapRecord} {p : BitVec 64} {i : ℕ}
    (h : Tiles mem (p + BitVec.ofNat 64 i) rs) (t : E820Table) :
    addRecords mem p (recordStarts i rs) t =
      rs.foldl (fun t r => t.rangeAdd r.entry.addr r.entry.size r.entry.type) t := by
  induction rs generalizing i t with
  | nil => rfl
  | cons r rs ih =>
    obtain ⟨⟨-, hentry⟩, htail⟩ := h
    rw [add_ofNat_add] at htail
    rw [recordStarts, addRecords, List.foldl_cons, ← addRecords, hentry, ih htail, List.foldl_cons]

/-- Records that fit are appended as they are, in their order. -/
theorem foldl_rangeAdd {rs : List MmapRecord} {t : E820Table}
    (h : t.entries.length + rs.length ≤ e820MaxEntries) :
    (rs.foldl (fun t r => t.rangeAdd r.entry.addr r.entry.size r.entry.type) t).entries =
      t.entries ++ rs.map MmapRecord.entry := by
  induction rs generalizing t with
  | nil => rw [List.map_nil, List.append_nil]; rfl
  | cons r rs ih =>
    rw [List.length_cons] at h
    have hadd : (t.rangeAdd r.entry.addr r.entry.size r.entry.type).entries =
        t.entries ++ [r.entry] := by
      rw [E820Table.rangeAdd, dif_pos (by omega)]
    rw [List.foldl_cons, ih (by rw [hadd, List.length_append, List.length_singleton]; omega), hadd,
      List.append_assoc, List.map_cons]
    rfl

/-- A record takes at least 24 bytes, so the fuel of the model is enough. -/
theorem length_lt_fuel (rs : List MmapRecord) : rs.length < mmapLength rs / 4 + 2 := by
  have hlen : 24 * rs.length ≤ mmapLength rs := by
    induction rs with
    | nil => exact Nat.zero_le _
    | cons r rs ih =>
      have hge := r.size_ge
      rw [mmapLength, List.map_cons, List.sum_cons, ← mmapLength, MmapRecord.skip, List.length_cons]
      omega
  omega

/-- **Reader**: from records in memory to the entries of the table. -/
theorem rangeAddRecords_of_tiles {mem : Memory} {rs : List MmapRecord} {p : BitVec 64}
    (h : Tiles mem p rs) (t : E820Table) :
    E820Table.rangeAddRecords mem (mmapLength rs) (mmapLength rs / 4 + 2) 0 p t =
      .ok (rs.foldl (fun t r => t.rangeAdd r.entry.addr r.entry.size r.entry.type) t) := by
  have hp : p + BitVec.ofNat 64 0 = p := by simp
  have hwalk := recordWalk_of_tiles h 0 (length_lt_fuel rs)
  rw [Nat.zero_add] at hwalk
  rw [← hp, rangeAddRecords_eq_walk, hp, hwalk]
  have hadd := addRecords_of_tiles (p := p) (i := 0) (by rw [hp]; exact h) t
  exact congrArg Except.ok hadd

/-! ## The writer

The firmware stores a field at a time. Each record is 24 bytes and has 20 in its size, so that
the reader, which adds 4 to that, finds the next one. -/

/-- A little-endian store of a value of any width in bytes. -/
def storeLe {w : ℕ} (mem : Memory) (p : BitVec 64) (x : BitVec w) : Memory :=
  copyTo mem p (w / 8) (GuestParams.leByte x)

/-- The body of the loop of `load_multiboot`: the four fields of `mmap[i]`, which is at `p`.
`sizeof(mmap[i]) - sizeof(mmap[i].size)` is 20. -/
def storeMmapEntry (mem : Memory) (p : BitVec 64) (e : E820Entry) : Memory :=
  let mem := storeLe mem p 20#32
  let mem := storeLe mem (p + 4) e.addr
  let mem := storeLe mem (p + 12) e.size
  storeLe mem (p + 20) e.type

/-- The fields of `multiboot_info` for the memory map: its length and its address. -/
structure MmapInfo where
  mmapAddr : BitVec 32
  mmapLength : BitVec 32

/-- The part of `load_multiboot` that writes the memory map to the array at `mmap`. The
counter is an `int`; reading an entry behind the table is out of bounds. -/
def loadMultiboot (params : GuestParams) (mmap : BitVec 32) (mem : Memory) :
    Exec (Memory × MmapInfo) := do
  let n := params.e820Entries.toInt.toNat
  let mem ← (List.range n).foldlM (fun mem i =>
    if h : i < e820MaxEntries then
      .ok (storeMmapEntry mem (mmap.setWidth 64 + BitVec.ofNat 64 (i * 24))
        (params.e820Table.get ⟨i, h⟩))
    else .error .outOfBounds) mem
  return (mem, { mmapAddr := mmap, mmapLength := params.e820Entries * 24 })

section Bytes

variable {mem mem' : Memory} {p q : BitVec 64}

/-- The four bytes of a word, put together again. -/
theorem leBytes_append32 (x : BitVec 32) :
    GuestParams.leByte x 3 ++ GuestParams.leByte x 2 ++ GuestParams.leByte x 1 ++
      GuestParams.leByte x 0 = x := by
  refine BitVec.eq_of_getLsbD_eq fun i hi => ?_
  simp only [GuestParams.leByte, BitVec.getLsbD_append, BitVec.getLsbD_setWidth,
    BitVec.getLsbD_ushiftRight]
  split_ifs <;> (rw [decide_eq_true (by omega), Bool.true_and]; congr 1; omega)

theorem leBytes_append64 (x : BitVec 64) :
    (GuestParams.leByte x 7 ++ GuestParams.leByte x 6 ++ GuestParams.leByte x 5 ++
      GuestParams.leByte x 4) ++ (GuestParams.leByte x 3 ++ GuestParams.leByte x 2 ++
      GuestParams.leByte x 1 ++ GuestParams.leByte x 0) = x := by
  refine BitVec.eq_of_getLsbD_eq fun i hi => ?_
  simp only [GuestParams.leByte, BitVec.getLsbD_append, BitVec.getLsbD_setWidth,
    BitVec.getLsbD_ushiftRight]
  split_ifs <;> (rw [decide_eq_true (by omega), Bool.true_and]; congr 1; omega)

/-- A byte of a store is the byte of the value. -/
theorem storeLe_of_lt {w : ℕ} {x : BitVec w} (h : (q - p).toNat < w / 8) :
    storeLe mem p x q = GuestParams.leByte x (q - p).toNat :=
  if_pos h

/-- A store leaves the bytes outside of it as they are. -/
theorem storeLe_of_le {w : ℕ} {x : BitVec w} (h : w / 8 ≤ (q - p).toNat) :
    storeLe mem p x q = mem q :=
  if_neg (Nat.not_lt.mpr h)

theorem read32_storeLe (mem : Memory) (p : BitVec 64) (x : BitVec 32) :
    read32 (storeLe mem p x) p = x := by
  have h0 : (p - p).toNat = 0 := by simp
  have h1 : (p + 1 - p).toNat = 1 := by bv_omega
  have h2 : (p + 2 - p).toNat = 2 := by bv_omega
  have h3 : (p + 3 - p).toNat = 3 := by bv_omega
  rw [read32, storeLe_of_lt (by rw [h3]; decide), storeLe_of_lt (by rw [h2]; decide),
    storeLe_of_lt (by rw [h1]; decide), storeLe_of_lt (by rw [h0]; decide), h0, h1, h2, h3]
  exact leBytes_append32 x

theorem read64_storeLe (mem : Memory) (p : BitVec 64) (x : BitVec 64) :
    read64 (storeLe mem p x) p = x := by
  have hbyte (j : BitVec 64) (hj : j.toNat < 8) :
      storeLe mem p x (p + j) = GuestParams.leByte x j.toNat := by
    have hoff : p + j - p = j := by rw [BitVec.add_comm, BitVec.add_sub_cancel]
    rw [storeLe_of_lt (by rw [hoff]; exact hj), hoff]
  have hzero : storeLe mem p x p = GuestParams.leByte x 0 := by simpa using hbyte 0 (by decide)
  simp only [read64, read32, BitVec.add_assoc]
  rw [hzero, hbyte _ (by decide), hbyte _ (by decide), hbyte _ (by decide), hbyte _ (by decide),
    hbyte _ (by decide), hbyte _ (by decide), hbyte _ (by decide)]
  exact leBytes_append64 x

/-- A read depends on the bytes that it reads. -/
theorem read32_congr (h : ∀ a, (a - q).toNat < 4 → mem' a = mem a) :
    read32 mem' q = read32 mem q := by
  rw [read32, read32, h q (by simp), h (q + 1) (by bv_omega), h (q + 2) (by bv_omega),
    h (q + 3) (by bv_omega)]

theorem read64_congr (h : ∀ a, (a - q).toNat < 8 → mem' a = mem a) :
    read64 mem' q = read64 mem q := by
  have hlow : read32 mem' q = read32 mem q := read32_congr fun a ha => h a (by omega)
  have hhigh : read32 mem' (q + 4) = read32 mem (q + 4) :=
    read32_congr fun a ha => h a (by bv_omega)
  rw [read64, read64, hlow, hhigh]

/-- A record stays where its bytes stay. -/
theorem RecordAt.congr {r : MmapRecord} (hr : RecordAt mem q r)
    (h : ∀ a, (a - q).toNat < 24 → mem' a = mem a) : RecordAt mem' q r := by
  have hsize : read32 mem' q = read32 mem q := read32_congr fun a ha => h a (by omega)
  have haddr : read64 mem' (q + 4) = read64 mem (q + 4) :=
    read64_congr fun a ha => h a (by bv_omega)
  have hlen : read64 mem' (q + 12) = read64 mem (q + 12) :=
    read64_congr fun a ha => h a (by bv_omega)
  have htype : read32 mem' (q + 20) = read32 mem (q + 20) :=
    read32_congr fun a ha => h a (by bv_omega)
  rw [RecordAt, entryAt, hsize, haddr, hlen, htype]
  exact hr

/-- The record that `load_multiboot` makes of an entry, with a size of 20. -/
def E820Entry.record (e : E820Entry) : MmapRecord where
  size := 20#32
  entry := e
  size_ge := by decide

/-- An element of `mmap` that is stored is a record. -/
theorem recordAt_storeMmapEntry (mem : Memory) (p : BitVec 64) (e : E820Entry) :
    RecordAt (storeMmapEntry mem p e) p e.record := by
  have hsize : read32 (storeMmapEntry mem p e) p = 20#32 := by
    rw [← read32_storeLe mem p 20#32]
    refine read32_congr fun a ha => ?_
    rw [storeMmapEntry, storeLe_of_le (by bv_omega), storeLe_of_le (by bv_omega),
      storeLe_of_le (by bv_omega)]
  have haddr : read64 (storeMmapEntry mem p e) (p + 4) = e.addr := by
    rw [← read64_storeLe (storeLe mem p 20#32) (p + 4) e.addr]
    refine read64_congr fun a ha => ?_
    rw [storeMmapEntry, storeLe_of_le (by bv_omega), storeLe_of_le (by bv_omega)]
  have hlen : read64 (storeMmapEntry mem p e) (p + 12) = e.size := by
    rw [← read64_storeLe (storeLe (storeLe mem p 20#32) (p + 4) e.addr) (p + 12) e.size]
    refine read64_congr fun a ha => ?_
    rw [storeMmapEntry, storeLe_of_le (by bv_omega)]
  rw [RecordAt, entryAt, hsize, haddr, hlen]
  exact ⟨rfl, congrArg (E820Entry.mk e.addr e.size) (read32_storeLe _ _ _)⟩

/-- It is 24 bytes long, and nothing behind it changes. -/
theorem storeMmapEntry_of_le {e : E820Entry} {a : BitVec 64} (h : 24 ≤ (a - p).toNat) :
    storeMmapEntry mem p e a = mem a := by
  rw [storeMmapEntry, storeLe_of_le (by bv_omega), storeLe_of_le (by bv_omega),
    storeLe_of_le (by bv_omega), storeLe_of_le (by bv_omega)]

end Bytes

section Writer

variable {params : GuestParams} {mmap : BitVec 32} {mem : Memory}

/-- **Loop of the writer**: after `n` rounds, the first `n` elements of `mmap` are there. -/
theorem foldlM_storeMmapEntry (es : Vector E820Entry e820MaxEntries) (p : BitVec 64)
    (mem : Memory) {n : ℕ} (hn : n ≤ e820MaxEntries) :
    ∃ mem', (List.range n).foldlM (fun mem i =>
        if h : i < e820MaxEntries then
          (.ok (storeMmapEntry mem (p + BitVec.ofNat 64 (i * 24)) (es.get ⟨i, h⟩)) : Exec Memory)
        else .error .outOfBounds) mem = .ok mem' ∧
      ∀ i (h : i < n), RecordAt mem' (p + BitVec.ofNat 64 (i * 24))
        (es.get ⟨i, h.trans_le hn⟩).record := by
  induction n with
  | zero => exact ⟨mem, rfl, nofun⟩
  | succ n ih =>
    obtain ⟨mem₁, hmem₁, hrec⟩ := ih (Nat.le_of_succ_le hn)
    refine ⟨storeMmapEntry mem₁ (p + BitVec.ofNat 64 (n * 24)) (es.get ⟨n, hn⟩), ?_, ?_⟩
    · rw [List.range_succ, List.foldlM_append, hmem₁]
      simp only [Exec.ok_bind, List.foldlM_cons, List.foldlM_nil, dif_pos (show n < _ from hn)]
      rfl
    · intro i hi
      rcases Nat.lt_succ_iff_lt_or_eq.mp hi with hlt | rfl
      · -- the elements before are left as they were
        refine (hrec i hlt).congr fun a ha => storeMmapEntry_of_le ?_
        have hsplit : n * 24 = i * 24 + (n - i) * 24 := by omega
        have hsub : a - (p + BitVec.ofNat 64 (n * 24)) =
            (a - (p + BitVec.ofNat 64 (i * 24))) - BitVec.ofNat 64 ((n - i) * 24) := by
          rw [hsplit, ← add_ofNat_add]
          grind
        have hlt' : n < 128 := hn
        have hback : (n - i) * 24 < 2 ^ 64 := by omega
        rw [hsub, BitVec.toNat_sub, BitVec.toNat_ofNat, Nat.mod_eq_of_lt hback,
          Nat.mod_eq_of_lt (by omega)]
        omega
      · exact recordAt_storeMmapEntry _ _ _

/-- Elements of an array of records tile it, as each is followed by the next. -/
theorem tiles_of_recordAt {es : List E820Entry} {p : BitVec 64}
    (h : ∀ i (hi : i < es.length), RecordAt mem (p + BitVec.ofNat 64 (i * 24)) es[i].record) :
    Tiles mem p (es.map E820Entry.record) := by
  induction es generalizing p with
  | nil => trivial
  | cons e es ih =>
    refine ⟨by simpa using h 0 (Nat.succ_pos _), ih fun i hi => ?_⟩
    have hnext := h (i + 1) (Nat.succ_lt_succ hi)
    rw [Nat.succ_mul, Nat.add_comm (i * 24), ← add_ofNat_add] at hnext
    exact hnext

theorem mmapLength_map_record (es : List E820Entry) :
    mmapLength (es.map E820Entry.record) = es.length * 24 := by
  induction es with
  | nil => rfl
  | cons e es ih =>
    rw [List.map_cons, mmapLength, List.map_cons, List.sum_cons, ← mmapLength, ih, List.length_cons,
      Nat.succ_mul, Nat.add_comm]
    rfl

theorem recordStarts_map_record (es : List E820Entry) :
    recordStarts 0 (es.map E820Entry.record) = (List.range es.length).map (· * 24) := by
  have hfrom (es : List E820Entry) (i : ℕ) : recordStarts (i * 24) (es.map E820Entry.record) =
      (List.range' i es.length).map (· * 24) := by
    induction es generalizing i with
    | nil => rfl
    | cons e es ih =>
      have hnext : i * 24 + e.record.skip = (i + 1) * 24 := by
        rw [Nat.succ_mul]
        rfl
      rw [List.map_cons, recordStarts, hnext, ih, List.length_cons, List.range'_succ,
        List.map_cons]
  rw [List.range_eq_range', ← hfrom es 0, Nat.zero_mul]

/-- **Writer**: the buffer of `load_multiboot` is tiled by the entries that are reported. -/
theorem loadMultiboot_tiles (params : GuestParams)
    (hn : params.e820Entries.toNat ≤ e820MaxEntries) (mmap : BitVec 32) (mem : Memory) :
    ∃ mem', loadMultiboot params mmap mem =
        .ok (mem', { mmapAddr := mmap, mmapLength := params.e820Entries * 24 }) ∧
      Tiles mem' (mmap.setWidth 64) (params.reported.map E820Entry.record) ∧
      (params.e820Entries * 24).toNat = mmapLength (params.reported.map E820Entry.record) := by
  have hn' : params.e820Entries.toNat ≤ 128 := hn
  have hint : params.e820Entries.toInt.toNat = params.e820Entries.toNat := by
    rw [BitVec.toInt_eq_toNat_of_lt (by omega)]
    rfl
  obtain ⟨mem', hmem', hrec⟩ :=
    foldlM_storeMmapEntry params.e820Table (mmap.setWidth 64) mem hn
  have hlen : params.reported.length = params.e820Entries.toNat := by
    rw [GuestParams.reported, List.length_take, Vector.length_toList, Nat.min_eq_left hn]
  refine ⟨mem', ?_, tiles_of_recordAt fun i hi => ?_, ?_⟩
  · rw [loadMultiboot, hint, hmem']
    rfl
  · have hget : params.reported[i] = params.e820Table.get ⟨i, (hlen ▸ hi).trans_le hn⟩ := by
      simp [GuestParams.reported, Vector.get]
    rw [hget]
    exact hrec i (hlen ▸ hi)
  · rw [mmapLength_map_record, hlen, BitVec.toNat_mul]
    exact Nat.mod_eq_of_lt (by change _ * 24 < _; omega)

end Writer

/-- **Round trip**: for at most 128 entries, the loop of `e820_range_add_multiboot` visits the
records that `load_multiboot` has written, stops at `mmap_length` and appends the entries that
were reported, in order. On any sequence of records, it visits the start of each once, in
order, stops where the last one ends, and appends what it finds. -/
theorem loadMultiboot_decoded :
    (∀ (params : GuestParams) (mmap : BitVec 32) (mem : Memory),
      params.e820Entries.toNat ≤ 128 → ∃ mem' info t,
        loadMultiboot params mmap mem = .ok (mem', info) ∧
        recordWalk mem' info.mmapLength.toNat (info.mmapLength.toNat / 4 + 2) 0
            (info.mmapAddr.setWidth 64) =
          .ok ((List.range params.e820Entries.toNat).map (· * 24), info.mmapLength.toNat) ∧
        E820Table.rangeAddRecords mem' info.mmapLength.toNat (info.mmapLength.toNat / 4 + 2) 0
            (info.mmapAddr.setWidth 64) E820Table.empty = .ok t ∧
        t.entries = params.reported) ∧
    (∀ (mem : Memory) (p : BitVec 64) (rs : List MmapRecord), Tiles mem p rs →
      recordWalk mem (mmapLength rs) (mmapLength rs / 4 + 2) 0 p =
        .ok (recordStarts 0 rs, mmapLength rs) ∧
      (recordStarts 0 rs).Pairwise (· < ·) ∧
      ∀ t, E820Table.rangeAddRecords mem (mmapLength rs) (mmapLength rs / 4 + 2) 0 p t =
        .ok (rs.foldl (fun t r => t.rangeAdd r.entry.addr r.entry.size r.entry.type) t)) := by
  have hgeneral (mem : Memory) (p : BitVec 64) (rs : List MmapRecord) (h : Tiles mem p rs) :
      recordWalk mem (mmapLength rs) (mmapLength rs / 4 + 2) 0 p =
        .ok (recordStarts 0 rs, mmapLength rs) := by
    simpa only [Nat.zero_add] using recordWalk_of_tiles h 0 (length_lt_fuel rs)
  refine ⟨fun params mmap mem hn => ?_, fun mem p rs h => ?_⟩
  · obtain ⟨mem', hload, htiles, hlen⟩ := loadMultiboot_tiles params hn mmap mem
    have hnr : params.reported.length = params.e820Entries.toNat := by
      rw [GuestParams.reported, List.length_take, Vector.length_toList, Nat.min_eq_left hn]
    have hread := rangeAddRecords_of_tiles htiles E820Table.empty
    have hwalk := hgeneral _ _ _ htiles
    rw [recordStarts_map_record, hnr] at hwalk
    rw [← hlen] at hread hwalk
    refine ⟨mem', _, _, hload, hwalk, hread, ?_⟩
    rw [foldl_rangeAdd (by rw [List.length_map, hnr]; simpa [E820Table.empty] using hn)]
    simp [E820Table.empty, Function.comp_def, E820Entry.record]
  · exact ⟨hgeneral mem p rs h, (recordStarts_increasing 0 rs).1, rangeAddRecords_of_tiles h⟩

/-- A map of two ranges, and what the firmware makes of it. -/
def twoRangeParams : GuestParams where
  magic := Vector.replicate _ 0
  kernelStart := 0
  kernelEnd := 0
  initrdStart := 0
  initrdEnd := 0
  cmdline _ := 0
  e820Entries := 2
  e820Table := ((Vector.replicate _ default).set 0 ⟨0, 0x9fc00, 1⟩).set 1 ⟨0x100000, 0x7f00000, 1⟩

/-- A record with four bytes behind its fields, as the size field allows. -/
def longRecord : MmapRecord where
  size := 24
  entry := ⟨0, 0x9f000, 1⟩
  size_ge := by decide

/-- Memory that holds `longRecord` at 0x5000, and nothing else. -/
def longRecordMemory : Memory := fun p =>
  if p = 0x5000#64 then 24 else if p = 0x500d#64 then 0xf0 else if p = 0x500e#64 then 9 else
    if p = 0x5014#64 then 1 else 0

theorem loadMultiboot_decoded_twoRangeParams :
    (∃ mem' info t, loadMultiboot twoRangeParams 0x5000 (fun _ => 0) = .ok (mem', info) ∧
      recordWalk mem' info.mmapLength.toNat (info.mmapLength.toNat / 4 + 2) 0
          (info.mmapAddr.setWidth 64) = .ok ([0, 24], info.mmapLength.toNat) ∧
      E820Table.rangeAddRecords mem' info.mmapLength.toNat (info.mmapLength.toNat / 4 + 2) 0
          (info.mmapAddr.setWidth 64) E820Table.empty = .ok t ∧
      t.entries = [⟨0, 0x9fc00, 1⟩, ⟨0x100000, 0x7f00000, 1⟩]) ∧
    recordWalk longRecordMemory 28 9 0 0x5000 = .ok ([0], 28) :=
  ⟨loadMultiboot_decoded.1 twoRangeParams 0x5000 (fun _ => 0) (by decide),
    (loadMultiboot_decoded.2 longRecordMemory 0x5000 [longRecord]
      ⟨⟨by decide, by decide⟩, trivial⟩).1⟩

/-! ## What the reader leaves

The table is sanitised once all records are in it. A map of more than 128 runs is cut, and a
table that is full before the last record has no room for the rest. -/

theorem typeAt_eq_zero {es : List E820Entry} {a : ℕ} (h : ∀ e ∈ es, ¬e.Covers a) :
    typeAt es a = 0 := by
  induction es with
  | nil => rfl
  | cons e es ih =>
    obtain ⟨he, hes⟩ := List.forall_mem_cons.mp h
    have hcons : typeAt (e :: es) a =
        if e.Covers a then max e.type.toNat (typeAt es a) else typeAt es a := rfl
    rw [hcons, if_neg he, ih hes]

section Reader

variable {mem : Memory} {p : BitVec 64} {rs : List MmapRecord}

/-- Two or more records, none of which wraps, are read and sanitised: what is left is their
exact map, or its first 128 runs. -/
theorem rangeAddMultiboot_of_tiles (newEntries : Vector E820Entry e820MaxEntries)
    (h : Tiles mem p rs) (hmin : 2 ≤ rs.length) (hmax : rs.length ≤ 128)
    (hw : ∀ r ∈ rs, ¬r.entry.Wraps) :
    ∃ t runs, E820Table.rangeAddMultiboot mem newEntries p (mmapLength rs) E820Table.empty = .ok t ∧
      IsExactMap (typeAt (rs.map MmapRecord.entry)) runs ∧
      t.entries.map E820Entry.piece = runs.take 128 := by
  have hread := rangeAddRecords_of_tiles h E820Table.empty
  have hentries : (rs.foldl (fun t r => t.rangeAdd r.entry.addr r.entry.size r.entry.type)
      E820Table.empty).entries = rs.map MmapRecord.entry := by
    rw [foldl_rangeAdd (by simpa [E820Table.empty] using hmax)]
    rfl
  obtain ⟨t, runs, hupdate, -, hexact, hpieces⟩ := updateTable_spec newEntries
    (t := rs.foldl (fun t r => t.rangeAdd r.entry.addr r.entry.size r.entry.type) E820Table.empty)
    (by rw [E820Table.nrEntries, hentries, List.length_map]; exact hmin)
    (by rw [hentries]; exact List.forall_mem_map.mpr hw)
  rw [hentries] at hexact
  refine ⟨t, runs, ?_, hexact, hpieces⟩
  rw [E820Table.rangeAddMultiboot, hread, Exec.ok_bind, E820Table.e820UpdateTable, hupdate]
  rfl

/-- **Reading a map**: from two records on, and without a panic, the table is left with the
first 128 runs of the map; each address below the first run that does not fit, and so every
address if all do, has the largest type of the records that cover it. -/
theorem rangeAddMultiboot_typeAt (newEntries : Vector E820Entry e820MaxEntries)
    (h : Tiles mem p rs) (hmin : 2 ≤ rs.length) (hmax : rs.length ≤ 128)
    (hw : ∀ r ∈ rs, ¬r.entry.Wraps) :
    ∃ t runs, E820Table.rangeAddMultiboot mem newEntries p (mmapLength rs) E820Table.empty = .ok t ∧
      IsExactMap (typeAt (rs.map MmapRecord.entry)) runs ∧
      t.entries.map E820Entry.piece = runs.take 128 ∧
      ∀ a, (∀ q ∈ runs.drop 128, a < q.lo) →
        typeAt t.entries a = typeAt (rs.map MmapRecord.entry) a := by
  obtain ⟨t, runs, hread, hexact, hpieces⟩ := rangeAddMultiboot_of_tiles newEntries h hmin hmax hw
  refine ⟨t, runs, hread, hexact, hpieces, fun a ha => ?_⟩
  have hbound : ∀ b, 2 ^ 64 ≤ b → typeAt (rs.map MmapRecord.entry) b = 0 := by
    refine fun b hb => typeAt_eq_zero (List.forall_mem_map.mpr fun r hr hc => ?_)
    exact hw r hr (hb.trans (Nat.le_of_lt hc.2))
  have hcanon : Canonical (t.entries.map E820Entry.piece) := by
    rw [hpieces]
    exact hexact.canonical.take 128
  calc typeAt t.entries a
      = lookup (runs.take 128) a := by rw [← lookup_piece_eq_typeAt hcanon, hpieces]
    _ = lookup (runs.take 128 ++ runs.drop 128) a :=
        (lookup_append_left fun q hq hc => absurd (ha q hq) (Nat.not_lt.mpr hc.1)).symm
    _ = typeAt (rs.map MmapRecord.entry) a := by
        rw [List.take_append_drop, hexact.lookup_eq hbound]

end Reader

theorem rangeAddMultiboot_typeAt_twoRangeParams :
    ∃ mem info t runs, loadMultiboot twoRangeParams 0x5000 (fun _ => 0) = .ok (mem, info) ∧
      E820Table.rangeAddMultiboot mem (Vector.replicate _ default) 0x5000 48 E820Table.empty =
        .ok t ∧
      IsExactMap (typeAt [⟨0, 0x9fc00, 1⟩, ⟨0x100000, 0x7f00000, 1⟩]) runs ∧
      t.entries.map E820Entry.piece = runs.take 128 := by
  obtain ⟨mem, hload, htiles, -⟩ :=
    loadMultiboot_tiles twoRangeParams (by decide) 0x5000 (fun _ => 0)
  obtain ⟨t, runs, hread, hexact, hpieces, -⟩ :=
    rangeAddMultiboot_typeAt (Vector.replicate _ default) htiles (by decide) (by decide) (by decide)
  exact ⟨mem, _, t, runs, hload, hread, hexact, hpieces⟩

/-- A map whose exact map has 129 runs: 64 reserved pages in the middle of RAM. -/
def combEntries : List E820Entry :=
  ⟨0, 0x81000, 1⟩ :: (List.range 64).map fun i =>
    ⟨BitVec.ofNat 64 (0x1000 + 0x2000 * i), 0x1000, 2⟩

/-- The same as the firmware finds it. -/
def combParams : GuestParams :=
  { twoRangeParams with
    e820Entries := 65
    e820Table := Vector.ofFn fun i => combEntries.getD i default }

/-- The last run of a map of 65 records is lost. -/
theorem not_typeAt_combParams :
    ∃ mem info t, loadMultiboot combParams 0x5000 (fun _ => 0) = .ok (mem, info) ∧
      Tiles mem 0x5000 (combEntries.map E820Entry.record) ∧
      (∀ e ∈ combEntries, ¬e.Wraps) ∧ (∃ e ∈ combEntries, e.size ≠ 0) ∧
      E820Table.rangeAddMultiboot mem (Vector.replicate _ default) 0x5000
          (mmapLength (combEntries.map E820Entry.record)) E820Table.empty = .ok t ∧
      ¬∀ a, typeAt t.entries a = typeAt combEntries a := by
  have hreported : combParams.reported = combEntries := by decide +kernel
  have hentry : (combEntries.map E820Entry.record).map MmapRecord.entry = combEntries := by
    rw [List.map_map]
    exact List.map_id _
  have hw : ∀ e ∈ combEntries, ¬e.Wraps := by decide +kernel
  obtain ⟨mem, hload, htiles, -⟩ :=
    loadMultiboot_tiles combParams (by decide) 0x5000 (fun _ => 0)
  rw [hreported] at htiles
  obtain ⟨t, runs, hread, hexact, hpieces⟩ := rangeAddMultiboot_of_tiles
    (Vector.replicate _ default) htiles (by decide) (by decide) (List.forall_mem_map.mpr hw)
  refine ⟨mem, _, t, hload, htiles, hw, ⟨_, List.mem_cons_self .., by decide⟩, hread, ?_⟩
  intro hall
  -- the table is canonical, and would change its type at 129 addresses
  have hcanon : Canonical (t.entries.map E820Entry.piece) := by
    rw [hpieces]
    exact hexact.canonical.take 128
  have hlookup : lookup (t.entries.map E820Entry.piece) = typeAt combEntries :=
    funext fun a => (lookup_piece_eq_typeAt hcanon a).trans (hall a)
  have hlen : ((List.range 129).map (0x1000 * ·)).length ≤
      (t.entries.map E820Entry.piece).length := by
    refine hcanon.length_le_of_isChain ?_ ?_ ?_
    · rw [hlookup]
      decide +kernel
    · decide +kernel
    · rw [hlookup]
      decide +kernel
  rw [List.length_map, List.length_range, List.length_map] at hlen
  exact absurd t.length_le (Nat.not_le.mpr hlen)

end Lvisor
