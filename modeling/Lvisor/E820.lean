import Lvisor.Machine
import Lvisor.Sort

/-!
# The memory map (`kernel/e820.c`)

`struct e820_table` is an array of 128 entries with a count. The model keeps the
entries in use, a list of at most 128; what the array holds behind them is never
read. Entries are ranges `[addr, addr + size)` with a 32-bit type.

* `rangeAdd` — append, or drop the range when the table is full;
* `mappedAll` — is a range covered;
* `updateTable` — sort the change points and rebuild the table without overlaps;
* `rangeUpdate` — change the type of a range, splitting entries at its ends;
* `rangeAddMultiboot` — read the records of the boot loader.
-/

namespace Lvisor

/-- `E820_MAX_ENTRIES`: the length of each table. -/
abbrev e820MaxEntries : ℕ := 128

/-- `E820_TYPE_RAM`: memory that anything may use. -/
abbrev e820TypeRam : BitVec 32 := 1#32

/-- `E820_TYPE_RESERVED`: memory that is not to be used. -/
abbrev e820TypeReserved : BitVec 32 := 2#32

/-- `struct e820_entry`: a range by its address and its size, and what it is. -/
structure E820Entry where
  addr : BitVec 64
  size : BitVec 64
  type : BitVec 32
  deriving DecidableEq, Repr, Inhabited

/-- `entry->addr + entry->size`, which may wrap around. -/
def E820Entry.stop (e : E820Entry) : BitVec 64 := e.addr + e.size

/-- `struct e820_table`, as the entries in use; there is room for no more than 128. -/
structure E820Table where
  /-- the entries `[0, nr_entries)` -/
  entries : List E820Entry
  length_le : entries.length ≤ e820MaxEntries
  deriving DecidableEq

namespace E820Table

/-- The zeroed `.bss`. -/
def empty : E820Table := ⟨[], Nat.zero_le _⟩

/-- `nr_entries`: how many entries are in use. -/
def nrEntries (t : E820Table) : ℕ := t.entries.length

/-- `__e820_range_add`: the range is appended, and a full table drops it. -/
def rangeAdd (t : E820Table) (start size : BitVec 64) (type : BitVec 32) : E820Table :=
  if h : t.entries.length < e820MaxEntries then
    ⟨t.entries ++ [⟨start, size, type⟩], by rw [List.length_append]; exact h⟩
  else t

/-! ## Coverage -/

/-- The loop of `e820_mapped_all`, over the entries that are left, with the start moved on. -/
def mappedAllLoop (stop : BitVec 64) (type : BitVec 32) : List E820Entry → BitVec 64 → Bool
  | [], _ => false
  | e :: es, start =>
    if type ≠ 0 ∧ e.type ≠ type then mappedAllLoop stop type es start
    else if e.addr ≥ stop ∨ e.stop ≤ start then mappedAllLoop stop type es start
    else
      let start := if e.addr ≤ start then e.stop else start
      if start ≥ stop then true else mappedAllLoop stop type es start

/-- `e820_mapped_all`: the range is covered by entries of the type, as far as one pass over the
table sees it. -/
def mappedAll (t : E820Table) (start stop : BitVec 64) (type : BitVec 32) : Bool :=
  mappedAllLoop stop type t.entries start

end E820Table

/-! ## Sanitising

The sweep of `__e820_update_table`: the starts and stops of all entries in order, a list of the
entries that are active at the current address, and the entry that is being built. Pointers into
the table are entries with their index, since the source compares them. -/

/-- A pointer `&entries[i]`, with the entry it points to. -/
abbrev EntryPtr : Type := E820Entry × ℕ

/-- `struct change_member`: an address where an entry begins or ends, and which entry that is. -/
structure ChangeMember where
  /-- the original entry -/
  entry : EntryPtr
  /-- the address of the change point -/
  addr : BitVec 64
  deriving DecidableEq, Repr, Inhabited

/-- The change points of the entries, omitting empty ones. -/
def changePoints (es : List EntryPtr) : List ChangeMember :=
  es.flatMap fun p => if p.1.size ≠ 0 then [⟨p, p.1.addr⟩, ⟨p, p.1.stop⟩] else []

/-- `cpcompare`: by address, and the end of a region after the start of one. -/
def cpcompare (a b : ChangeMember) : ℤ :=
  if a.addr ≠ b.addr then (if a.addr > b.addr then 1 else -1)
  else (if a.addr ≠ a.entry.1.addr then 1 else 0) - (if b.addr ≠ b.entry.1.addr then 1 else 0)

/-- `overlap_list` after a change point. A removal copies the last pointer over the
one that ends and drops the last. -/
def trackOverlap (overlap : List EntryPtr) (c : ChangeMember) : List EntryPtr :=
  if c.addr = c.entry.1.addr then overlap ++ [c.entry]
  else (overlap.map fun p => if p = c.entry then overlap.getLastD p else p).dropLast

/-- `current_type`: the largest type in `overlap_list`, and zero if the list is empty. -/
def currentType (overlap : List EntryPtr) : BitVec 32 :=
  overlap.foldl (fun cur p => if p.1.type > cur then p.1.type else cur) 0

/-- The variables of the loop over the change points. -/
structure UpdateState where
  /-- `overlap_list[0 .. overlap_entries)` -/
  overlap : List EntryPtr
  newEntries : Vector E820Entry e820MaxEntries
  /-- `new_nr_entries` -/
  newNr : ℕ
  lastType : BitVec 32
  lastAddr : BitVec 64

/-- The entry being built, `new_entries[new_nr_entries]`. -/
def UpdateState.current (st : UpdateState) : E820Entry := st.newEntries.getD st.newNr default

/-- Close the entry being built: its size is stored, and the index moves on unless the
size is zero. -/
def UpdateState.closeEntry (st : UpdateState) (addr : BitVec 64) : Exec UpdateState := do
  let size := addr - st.lastAddr
  let newEntries ← store st.newEntries st.newNr { st.current with size := size }
  return { st with newEntries, newNr := if size ≠ 0 then st.newNr + 1 else st.newNr }

/-- Open an entry of type `type` at `addr`, in the slot behind the finished ones. -/
def UpdateState.openEntry (st : UpdateState) (addr : BitVec 64) (type : BitVec 32) :
    Exec UpdateState := do
  let newEntries ← store st.newEntries st.newNr { st.current with addr := addr, type := type }
  return { st with newEntries, lastAddr := addr }

/-- `if (last_type != 0)`: close the entry being built, if there is one. -/
def UpdateState.closeLast (st : UpdateState) (addr : BitVec 64) : Exec UpdateState :=
  if st.lastType ≠ 0 then st.closeEntry addr else .ok st

/-- `if (current_type != 0)`: open the next entry, if there is one. -/
def UpdateState.openNext (st : UpdateState) (addr : BitVec 64) (type : BitVec 32) :
    Exec UpdateState :=
  if type ≠ 0 then st.openEntry addr type else .ok st

/-- The loop over the change points. It stops early when `new_entries` is full. -/
def updateLoop : List ChangeMember → UpdateState → Exec UpdateState
  | [], st => .ok st
  | c :: cs, st =>
    let st := { st with overlap := trackOverlap st.overlap c }
    let type := currentType st.overlap
    if type ≠ st.lastType then do
      let st' ← st.closeLast c.addr
      if st'.newNr > st.newNr ∧ st'.newNr ≥ e820MaxEntries then
        .ok st'
      else do
        let st' ← st'.openNext c.addr type
        updateLoop cs { st' with lastType := type }
    else
      updateLoop cs st

namespace E820Table

/-- `__e820_update_table`, its return value and the table it leaves. The static array
`new_entries` starts with whatever the call before left in it. -/
def updateTable (newEntries : Vector E820Entry e820MaxEntries) (t : E820Table) :
    Exec (ℤ × E820Table) := do
  if t.nrEntries < 2 then
    return (-1, t)
  bugOn "kernel/e820.c" 199 "__e820_update_table" (t.nrEntries > e820MaxEntries)
  if t.entries.any fun e => e.stop < e.addr then
    return (-1, t)
  let cps := changePoints t.entries.zipIdx
  let sorted ← sort (elementOps cpcompare 8 cps.length) cps.length 8 fun i => cps.getD i default
  let st ← updateLoop ((List.range cps.length).map sorted) ⟨[], newEntries, 0, 0, 0⟩
  return (0, ⟨st.newEntries.toList.take st.newNr, by simp⟩)

/-- `e820_update_table`, which panics when the table cannot be sanitised. -/
def e820UpdateTable (newEntries : Vector E820Entry e820MaxEntries) (t : E820Table) :
    Exec E820Table := do
  let (ret, t) ← t.updateTable newEntries
  panicIf "e820: fail to sanitize the physical RAM map\n" (ret ≠ 0)
  return t

/-! ## Retyping a range -/

/-- `table->entries[i] = e`, for an entry in use. -/
def setEntry (t : E820Table) (i : ℕ) (e : E820Entry) : E820Table :=
  ⟨t.entries.set i e, by simpa using t.length_le⟩

/-- The body of the loop of `__e820_range_update` at index `i`, where `e` is the entry
there; also the bytes retyped. -/
def rangeUpdateBody (start stop size : BitVec 64) (old new : BitVec 32) (i : ℕ) (e : E820Entry)
    (t : E820Table) : E820Table × BitVec 64 :=
  if e.type ≠ old then (t, 0)
  else if e.addr ≥ start ∧ e.stop ≤ stop then
    (t.setEntry i { e with type := new }, e.size)
  else if e.addr < start ∧ e.stop > stop then
    let t := t.rangeAdd start size new
    let t := t.rangeAdd stop (e.stop - stop) e.type
    (t.setEntry i { e with size := start - e.addr }, size)
  else
    let finalStart := if start > e.addr then start else e.addr
    let finalEnd := if stop < e.stop then stop else e.stop
    if finalStart ≥ finalEnd then (t, 0)
    else
      let t := t.rangeAdd finalStart (finalEnd - finalStart) new
      let e := { e with size := e.size - (finalEnd - finalStart) }
      if e.addr < finalStart then (t.setEntry i e, finalEnd - finalStart)
      else (t.setEntry i { e with addr := finalEnd }, finalEnd - finalStart)

/-- The loop of `__e820_range_update`, which also visits the entries it appends. -/
def rangeUpdateLoop (start stop size : BitVec 64) (old new : BitVec 32) :
    ℕ → ℕ → E820Table → BitVec 64 → Exec (E820Table × BitVec 64)
  | 0, _, _, _ => .error .outOfFuel
  | fuel + 1, i, t, updated =>
    match t.entries[i]? with
    | none => .ok (t, updated)
    | some e =>
      let (t, n) := rangeUpdateBody start stop size old new i e t
      rangeUpdateLoop start stop size old new fuel (i + 1) t (updated + n)

/-- `__e820_range_update`: the table with the range retyped, and `real_updated_size`. -/
def rangeUpdate (t : E820Table) (start size : BitVec 64) (old new : BitVec 32) :
    Exec (E820Table × BitVec 64) := do
  bugOn "kernel/e820.c" 306 "__e820_range_update" (old = new)
  let size := if size > BitVec.allOnes 64 - start then BitVec.allOnes 64 - start else size
  let stop := start + size
  rangeUpdateLoop start stop size old new (e820MaxEntries + 1) 0 t 0

/-! ## The records of the boot loader -/

/-- The loop of `e820_range_add_multiboot` over the packed records of
`struct multiboot_mmap_entry`: `size` at 0, `addr` at 4, `len` at 12, `type` at 20.
The next record is `size + 4` bytes on. -/
def rangeAddRecords (mem : Memory) (len : ℕ) :
    ℕ → ℕ → BitVec 64 → E820Table → Exec E820Table
  | 0, _, _, _ => .error .outOfFuel
  | fuel + 1, i, e, t =>
    if i < len then
      let t := t.rangeAdd (read64 mem (e + 4)) (read64 mem (e + 12)) (read32 mem (e + 20))
      let skip := (read32 mem e).toNat + 4
      rangeAddRecords mem len fuel (i + skip) (e + BitVec.ofNat 64 skip) t
    else
      .ok t

/-- `e820_range_add_multiboot`. A record takes at least four bytes, which bounds the
number of rounds. -/
def rangeAddMultiboot (mem : Memory) (newEntries : Vector E820Entry e820MaxEntries)
    (e : BitVec 64) (len : ℕ) (t : E820Table) : Exec E820Table := do
  let t ← rangeAddRecords mem len (len / 4 + 2) 0 e t
  t.e820UpdateTable newEntries

end E820Table

end Lvisor
