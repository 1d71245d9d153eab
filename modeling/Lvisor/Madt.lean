import Mathlib.Algebra.GroupWithZero.Nat
import Lvisor.Acpi

/-!
# The walk over the subtables of a table (`acpi.c`)

`acpi_table_parse_entries_array` goes from subtable to subtable by the length in each of them,
and gives those with a type that it looks for to a handler. The handlers are parameters, with
their effect on an environment; they do not write to the table.

* `walkLoop_terminates` — the loop ends, whatever the lengths are;
* `Walk.inside` — the headers that it inspects are inside when its first test does not wrap;
* `walkLoop_subtables` — on a list of subtables, it calls the handlers one after the other;
* `walk_right` — what the function does for every `table_size`.
-/

namespace Lvisor

variable {σ : Type}

/-! ## The code

Each handler has a counter in its entry of the array, and the loop counts up the one that it
calls. When a handler returns an error the VMM panics. -/

/-- `struct acpi_subtable_proc`. The handler gets the environment, `entry` and `table_end`. -/
structure AcpiSubtableProc (σ : Type) where
  id : BitVec 32
  handler : σ → BitVec 64 → BitVec 64 → Exec (BitVec 32 × σ)
  count : BitVec 32

/-- The loop over the array, which is `proc` from the index `i` on: the index at which it breaks
off, if it does, the array and the environment. -/
def procLoop (mem : Memory) (entry tableEnd : BitVec 64) :
    ℕ → List (AcpiSubtableProc σ) → σ → Exec (Option ℕ × List (AcpiSubtableProc σ) × σ)
  | _, [], env => .ok (none, [], env)
  | i, p :: ps, env => do
    let type ← load8 mem entry
    if type.setWidth 32 ≠ p.id then
      let (found, ps, env) ← procLoop mem entry tableEnd (i + 1) ps env
      return (found, p :: ps, env)
    else
      let (r, env) ← p.handler env entry tableEnd
      panicIf "acpi: parsing error\n" (r ≠ 0#32)
      return (some i, { p with count := p.count + 1 } :: ps, env)

/-- What the loop of `acpi_table_parse_entries_array` works on; `calls` is the history of the
calls of handlers, by index and entry. -/
structure WalkState (σ : Type) where
  entry : BitVec 64
  count : BitVec 32
  proc : List (AcpiSubtableProc σ)
  env : σ
  calls : List (ℕ × BitVec 64)

/-- The condition of the loop, and that it is not left at the first statement. -/
def Inspects (tableEnd : BitVec 64) (maxEntries : BitVec 32) (s : WalkState σ) : Prop :=
  s.entry + 2 < tableEnd ∧ ¬(maxEntries ≠ 0#32 ∧ maxEntries ≤ s.count)

instance Inspects.decidable (tableEnd : BitVec 64) (maxEntries : BitVec 32) (s : WalkState σ) :
    Decidable (Inspects tableEnd maxEntries s) :=
  inferInstanceAs (Decidable (_ ∧ _))

/-- The body of the loop, after its first statement; a header has the type at 0 and the length
at 1. -/
def walkBody (mem : Memory) (tableEnd : BitVec 64) (s : WalkState σ) : Exec (WalkState σ) := do
  let (found, proc, env) ← procLoop mem s.entry tableEnd 0 s.proc s.env
  let count := if found.isSome then s.count + 1 else s.count
  let length ← load8 mem (s.entry + 1)
  bugOn "kernel/acpi.c" 236 "acpi_table_parse_entries_array" (length = 0#8)
  return { entry := s.entry + length.setWidth 64, count, proc, env
           calls := s.calls ++ (found.map fun i => (i, s.entry)).toList }

/-- The loop of `acpi_table_parse_entries_array`, turn by turn. -/
def walkLoop (mem : Memory) (tableEnd : BitVec 64) (maxEntries : BitVec 32) :
    ℕ → WalkState σ → Exec (WalkState σ)
  | 0, _ => .error .outOfFuel
  | fuel + 1, s =>
    if Inspects tableEnd maxEntries s then
      walkBody mem tableEnd s >>= walkLoop mem tableEnd maxEntries fuel
    else .ok s

/-- `table_end`: the address behind the table, by its length. -/
def tableEndOf (mem : Memory) (table : BitVec 64) : BitVec 64 :=
  table + (read32 mem (table + 4)).setWidth 64

/-- The state before the loop: the first subtable, and no call so far. -/
def walkStart (table tableSize : BitVec 64) (proc : List (AcpiSubtableProc σ)) (env : σ) :
    WalkState σ :=
  { entry := table + tableSize, count := 0, proc, env, calls := [] }

/-- `ENODEV`: the result when there is no table. -/
abbrev enodev : BitVec 32 := 19#32

/-- `acpi_table_parse_entries_array`: what it returns, and the array, the environment and the
calls in the end. It cannot take more turns than `table_end`. -/
def acpiTableParseEntriesArray (mem : Memory) (tables : InitialTables) (id : AcpiName)
    (tableSize : BitVec 64) (proc : List (AcpiSubtableProc σ)) (maxEntries : BitVec 32) (env : σ) :
    Exec (BitVec 32 × WalkState σ) := do
  let (table, _) ← acpiFindTable mem tables id
  if table = 0 then
    return (-enodev, walkStart table tableSize proc env)
  else
    let _ ← load32 mem (table + 4)
    let tableEnd := tableEndOf mem table
    let s ← walkLoop mem tableEnd maxEntries (tableEnd.toNat + 1)
      (walkStart table tableSize proc env)
    return (s.count, s)

/-! ## What should be called

The subtables that memory has from the start of the walk on, as a list, and the calls that such a
list stands for: the first entry of the array that wants the type is called, up to a limit of
all. -/

/-- The type is the one that the element looks for. -/
def AcpiSubtableProc.wants (type : BitVec 8) (p : AcpiSubtableProc σ) : Bool :=
  type.setWidth 32 = p.id

/-- The first element of the array with the type. -/
def firstMatch (type : BitVec 8) (proc : List (AcpiSubtableProc σ)) : Option ℕ :=
  proc.findIdx? fun p => p.wants type

/-- `proc[i].count++`, in the width of the member. -/
def AcpiSubtableProc.bump (p : AcpiSubtableProc σ) : AcpiSubtableProc σ :=
  { p with count := p.count + 1 }

/-- A call of a handler that does not fail. -/
def callHandler (proc : List (AcpiSubtableProc σ)) (tableEnd : BitVec 64) (env : σ)
    (call : ℕ × BitVec 64) : Exec σ :=
  (proc[call.1]?).elim (.ok env) fun p => do
    let (r, env) ← p.handler env call.2 tableEnd
    panicIf "acpi: parsing error\n" (r ≠ 0#32)
    return env

/-- Calls one after the other, by the index of the element and the subtable. -/
def callHandlers (proc : List (AcpiSubtableProc σ)) (tableEnd : BitVec 64) (env : σ)
    (calls : List (ℕ × BitVec 64)) : Exec σ :=
  calls.foldlM (callHandler proc tableEnd) env

/-- The bytes of the table at `table` from the offset `o` on are subtables of at least three
bytes, with headers that can be read, at the offsets of the list, and end at the offset `stop`. -/
inductive Subtables (mem : Memory) (table : BitVec 64) : ℕ → List ℕ → ℕ → Prop
  | nil (o : ℕ) : Subtables mem table o [] o
  | cons {o : ℕ} {os : List ℕ} {stop : ℕ}
      (htype : Mapped (table + BitVec.ofNat 64 o))
      (hlength : Mapped (table + BitVec.ofNat 64 o + 1))
      (hthree : 3 ≤ (mem (table + BitVec.ofNat 64 o + 1)).toNat)
      (hrest : Subtables mem table (o + (mem (table + BitVec.ofNat 64 o + 1)).toNat) os stop) :
      Subtables mem table o (o :: os) stop

/-- The calls for the subtables with a type that is looked for, in order. -/
def matchingCalls (mem : Memory) (table : BitVec 64) (proc : List (AcpiSubtableProc σ))
    (os : List ℕ) : List (ℕ × BitVec 64) :=
  os.filterMap fun o =>
    (firstMatch (mem (table + BitVec.ofNat 64 o)) proc).map fun i => (i, table + BitVec.ofNat 64 o)

/-- No more than `max_entries` when there is a maximum, less those that were made. -/
def limited (maxEntries : BitVec 32) (made : ℕ) (calls : List (ℕ × BitVec 64)) :
    List (ℕ × BitVec 64) :=
  if maxEntries = 0#32 then calls else calls.take (maxEntries.toNat - made)

/-- The sum of the increments of `proc[i].count` over the array. -/
def increments (proc proc' : List (AcpiSubtableProc σ)) : ℕ :=
  (List.zipWith (fun p p' => (p'.count - p.count).toNat) proc proc').sum

/-- The states in which the test of the loop is made. -/
inductive Walk (mem : Memory) (table tableSize : BitVec 64) (proc : List (AcpiSubtableProc σ))
    (maxEntries : BitVec 32) (env : σ) : WalkState σ → Prop
  | start : Walk mem table tableSize proc maxEntries env (walkStart table tableSize proc env)
  | turn {s s' : WalkState σ} (hs : Walk mem table tableSize proc maxEntries env s)
      (hin : Inspects (tableEndOf mem table) maxEntries s)
      (h : walkBody mem (tableEndOf mem table) s = .ok s') :
      Walk mem table tableSize proc maxEntries env s'

/-- The table is found, and its header can be read, so that the loop is reached. -/
structure Found (mem : Memory) (tables : InitialTables) (id : AcpiName) (table : BitVec 64) :
    Prop where
  find : ∃ headers, acpiFindTable mem tables id = .ok (table, headers)
  ne_zero : table ≠ 0
  header : HeaderMapped table

/-- Where the loop is reached, `table + table_size + 2` does not wrap, or does not pass the first
test when it does. -/
def FirstTestFits (mem : Memory) (tables : InitialTables) (id : AcpiName)
    (tableSize : BitVec 64) : Prop :=
  ∀ table, Found mem tables id table →
    table + tableSize + 2 < tableEndOf mem table → table.toNat + tableSize.toNat + 2 < 2 ^ 64

/-- The handlers return: none of them runs on for ever. -/
def HandlersReturn (proc : List (AcpiSubtableProc σ)) : Prop :=
  ∀ h ∈ proc.map AcpiSubtableProc.handler, ∀ env entry tableEnd,
    h env entry tableEnd ≠ .error .outOfFuel

section Right

variable (mem : Memory) (tables : InitialTables) (id : AcpiName) (tableSize : BitVec 64)
  (proc : List (AcpiSubtableProc σ)) (maxEntries : BitVec 32) (env : σ)

/-- The function ends, if its handlers return. -/
def WalkTerminates : Prop :=
  HandlersReturn proc →
    acpiTableParseEntriesArray mem tables id tableSize proc maxEntries env ≠ .error .outOfFuel

/-- The headers that it inspects are between `table + table_size` and the end of the table. -/
def WalkInside : Prop :=
  ∀ table, Found mem tables id table →
    ∀ s, Walk mem table tableSize proc maxEntries env s →
      Inspects (tableEndOf mem table) maxEntries s →
      table.toNat + tableSize.toNat ≤ s.entry.toNat ∧
        s.entry.toNat + 2 ≤ table.toNat + (read32 mem (table + 4)).toNat

/-- When there are subtables up to the end and no handler fails, then it has called the right
handlers and counted the calls. -/
def WalkComplete : Prop :=
  ∀ table, Found mem tables id table →
    ∀ os, Subtables mem table tableSize.toNat os (read32 mem (table + 4)).toNat →
    ∀ calls, calls = limited maxEntries 0 (matchingCalls mem table proc os) →
    ∀ env', callHandlers proc (tableEndOf mem table) env calls = .ok env' →
    ∃ r s, acpiTableParseEntriesArray mem tables id tableSize proc maxEntries env = .ok (r, s) ∧
      s.calls = calls ∧ s.env = env' ∧ r.toInt = calls.length ∧
      increments proc s.proc = calls.length

/-- What the function should do for every `table_size`: which calls it makes, and in which order. -/
structure Walked : Prop where
  terminates : WalkTerminates mem tables id tableSize proc maxEntries env
  inside : WalkInside mem tables id tableSize proc maxEntries env
  complete : WalkComplete mem tables id tableSize proc maxEntries env

end Right

/-! ## One turn

A turn looks at one header, calls a handler or none, and goes on by the length in the header. A
length of zero is a BUG. -/

section Turn

variable {mem : Memory} {type : BitVec 8} {entry tableEnd : BitVec 64} {k i : ℕ}
  {ps qs : List (AcpiSubtableProc σ)} {env : σ} {s s' : WalkState σ}

theorem procLoop_of_none (hm : Mapped entry) (h : firstMatch (mem entry) ps = none) :
    procLoop mem entry tableEnd k ps env = .ok (none, ps, env) := by
  induction ps generalizing k with
  | nil => rfl
  | cons p ps ih =>
    rw [firstMatch, List.findIdx?_cons] at h
    by_cases hp : (mem entry).setWidth 32 = p.id
    · simp [AcpiSubtableProc.wants, hp] at h
    · rw [AcpiSubtableProc.wants, decide_eq_false hp, if_neg Bool.false_ne_true,
        Option.map_eq_none_iff] at h
      rw [procLoop, load8_eq_ok.mpr ⟨hm, rfl⟩, Exec.ok_bind, if_pos hp, ih h]
      rfl

/-- The handler of the first element with the type is called, and its count goes up. -/
theorem procLoop_of_some (hm : Mapped entry) (h : firstMatch (mem entry) ps = some i) :
    procLoop mem entry tableEnd k ps env =
      (callHandler ps tableEnd env (i, entry) >>= fun env =>
        .ok (some (k + i), ps.modify i AcpiSubtableProc.bump, env)) := by
  induction ps generalizing k i with
  | nil => cases h
  | cons p ps ih =>
    rw [firstMatch, List.findIdx?_cons] at h
    rw [procLoop, load8_eq_ok.mpr ⟨hm, rfl⟩, Exec.ok_bind]
    by_cases hp : (mem entry).setWidth 32 = p.id
    · rw [AcpiSubtableProc.wants, decide_eq_true hp, if_pos rfl] at h
      obtain rfl := Option.some.inj h
      rw [if_neg (not_not_intro hp), callHandler, List.getElem?_cons_zero, Option.elim_some]
      rcases p.handler env entry tableEnd with e | ⟨r, env'⟩
      · rfl
      · by_cases hr : r = 0#32
        · subst hr
          rfl
        · simp [panicIf, hr]
    · rw [AcpiSubtableProc.wants, decide_eq_false hp, if_neg Bool.false_ne_true,
        Option.map_eq_some_iff] at h
      obtain ⟨j, hj, rfl⟩ := h
      have hcall : callHandler (p :: ps) tableEnd env (j + 1, entry) =
          callHandler ps tableEnd env (j, entry) := rfl
      have hindex : k + 1 + j = k + (j + 1) := by omega
      rw [if_pos hp, ih hj, hcall, hindex]
      rcases callHandler ps tableEnd env (j, entry) with e | env'
      · rfl
      · rfl

/-- The handlers stay in the array; only counts change. -/
theorem procLoop_handlers {found : Option ℕ} {env' : σ}
    (h : procLoop mem entry tableEnd k ps env = .ok (found, qs, env')) :
    qs.map AcpiSubtableProc.handler = ps.map AcpiSubtableProc.handler := by
  induction ps generalizing k found qs with
  | nil =>
    cases h
    rfl
  | cons p ps ih =>
    rw [procLoop] at h
    obtain ⟨type, -, h⟩ := Exec.bind_eq_ok.mp h
    by_cases hp : type.setWidth 32 ≠ p.id
    · rw [if_pos hp] at h
      obtain ⟨⟨found, qs, env'⟩, hloop, h⟩ := Exec.bind_eq_ok.mp h
      cases h
      rw [List.map_cons, List.map_cons, ih hloop]
    · rw [if_neg hp] at h
      obtain ⟨⟨r, env'⟩, -, h⟩ := Exec.bind_eq_ok.mp h
      obtain ⟨-, h⟩ := panicIf_bind_eq_ok.mp h
      cases h
      rfl

theorem procLoop_ne_outOfFuel (hreturn : HandlersReturn ps) :
    procLoop mem entry tableEnd k ps env ≠ .error .outOfFuel := by
  induction ps generalizing k with
  | nil => simp [procLoop]
  | cons p ps ih =>
    have hp := hreturn p.handler (List.mem_cons_self ..) env entry tableEnd
    have hps : HandlersReturn ps := fun h hh => hreturn h (List.mem_cons_of_mem _ hh)
    rw [procLoop]
    refine Exec.bind_ne_error (load8_ne_error fun _ => Fault.noConfusion) fun type _ => ?_
    by_cases htype : type.setWidth 32 ≠ p.id
    · rw [if_pos htype]
      exact Exec.bind_ne_error (ih hps) fun _ _ => Exec.pure_ne_error
    · rw [if_neg htype]
      refine Exec.bind_ne_error hp fun _ _ => ?_
      exact Exec.bind_ne_error panicIf_ne_outOfFuel fun _ _ => Exec.pure_ne_error

/-- What a turn does to the entry: a stride that is not zero, and fits in a byte. -/
theorem walkBody_eq_ok (h : walkBody mem tableEnd s = .ok s') :
    ∃ length : BitVec 8, length ≠ 0#8 ∧ s'.entry = s.entry + length.setWidth 64 ∧
      s'.proc.map AcpiSubtableProc.handler = s.proc.map AcpiSubtableProc.handler := by
  rw [walkBody] at h
  obtain ⟨⟨found, qs, env'⟩, hloop, h⟩ := Exec.bind_eq_ok.mp h
  obtain ⟨length, -, h⟩ := Exec.bind_eq_ok.mp h
  obtain ⟨hlength, h⟩ := bugOn_bind_eq_ok.mp h
  obtain rfl := Except.ok.inj h
  exact ⟨length, of_decide_eq_false hlength, rfl, procLoop_handlers hloop⟩

theorem walkBody_ne_outOfFuel (hreturn : HandlersReturn s.proc) :
    walkBody mem tableEnd s ≠ .error .outOfFuel := by
  refine Exec.bind_ne_error (procLoop_ne_outOfFuel hreturn) fun _ _ => ?_
  refine Exec.bind_ne_error (load8_ne_error fun _ => Fault.noConfusion) fun _ _ => ?_
  exact Exec.bind_ne_error bugOn_ne_outOfFuel fun _ _ => Exec.pure_ne_error

/-- Before a table ends, a turn goes forward without wrapping. -/
theorem walkBody_forward (hend : tableEnd.toNat + 255 < 2 ^ 64) {maxEntries : BitVec 32}
    (hin : Inspects tableEnd maxEntries s) (h : walkBody mem tableEnd s = .ok s') :
    (s.entry + 2).toNat < (s'.entry + 2).toNat ∧
      (s.entry.toNat + 2 < 2 ^ 64 → s.entry.toNat < s'.entry.toNat ∧
        s'.entry.toNat + 2 < 2 ^ 64) := by
  obtain ⟨length, hne, hentry, -⟩ := walkBody_eq_ok h
  have hlt := hin.1
  have hpos : 0 < length.toNat := BitVec.toNat_pos_of_ne_zero hne
  have hbyte := length.isLt
  rw [BitVec.lt_def] at hlt
  rw [hentry]
  constructor
  · bv_omega
  · intro hwrap
    bv_omega

end Turn

/-! ## Every run

Nothing is assumed of the memory here. The address only grows, and so the walk ends; and it is
inside of the table at each header, provided that the end less the size of a header does not
wrap. -/

section Runs

variable {mem : Memory} {tables : InitialTables} {id : AcpiName}
  {table tableSize tableEnd : BitVec 64} {maxEntries : BitVec 32}
  {proc : List (AcpiSubtableProc σ)} {env : σ} {s : WalkState σ}

/-- A table is too far from the end of memory for its end to wrap. -/
theorem tableEndOf_toNat (mem : Memory) (h : Mapped table) :
    (tableEndOf mem table).toNat = table.toNat + (read32 mem (table + 4)).toNat ∧
      (tableEndOf mem table).toNat + 255 < 2 ^ 64 := by
  have hlen := (read32 mem (table + 4)).isLt
  unfold Mapped at h
  have hadd : (tableEndOf mem table).toNat = table.toNat + (read32 mem (table + 4)).toNat := by
    rw [tableEndOf, BitVec.toNat_add, BitVec.toNat_setWidth_of_le (by decide)]
    omega
  refine ⟨hadd, ?_⟩
  omega

/-- **The loop ends**: each turn takes the entry closer to the end. -/
theorem walkLoop_terminates (hend : tableEnd.toNat + 255 < 2 ^ 64) {fuel : ℕ}
    (hfuel : tableEnd.toNat - (s.entry + 2).toNat < fuel) (hreturn : HandlersReturn s.proc) :
    walkLoop mem tableEnd maxEntries fuel s ≠ .error .outOfFuel := by
  induction fuel generalizing s with
  | zero => omega
  | succ fuel ih =>
    rw [walkLoop]
    by_cases hin : Inspects tableEnd maxEntries s
    · rw [if_pos hin]
      refine Exec.bind_ne_error (walkBody_ne_outOfFuel hreturn) fun s' hs' => ?_
      obtain ⟨_, -, -, hhandlers⟩ := walkBody_eq_ok hs'
      have hforward := (walkBody_forward hend hin hs').1
      have hlt := hin.1
      rw [BitVec.lt_def] at hlt
      apply ih
      · omega
      · unfold HandlersReturn
        rw [hhandlers]
        exact hreturn
    · rw [if_neg hin]
      exact Exec.pure_ne_error

theorem acpiTableParseEntriesArray_terminates :
    WalkTerminates mem tables id tableSize proc maxEntries env := by
  intro hreturn
  refine Exec.bind_ne_error findLoop_ne_outOfFuel fun found hfound => ?_
  by_cases hzero : found.1 = 0
  · simp only [if_pos hzero]
    exact Exec.pure_ne_error
  · simp only [if_neg hzero]
    refine Exec.bind_ne_error (load32_ne_error fun _ => Fault.noConfusion) fun length _ => ?_
    have hend := (tableEndOf_toNat mem (mapped_of_findLoop hfound hzero)).2
    refine Exec.bind_ne_error (walkLoop_terminates hend ?_ hreturn) fun _ _ => Exec.pure_ne_error
    omega

/-- While nothing wraps, the entries go up from the first one. -/
theorem Walk.advanced (h : Walk mem table tableSize proc maxEntries env s)
    (hm : Mapped table) (hwrap : table.toNat + tableSize.toNat + 2 < 2 ^ 64) :
    table.toNat + tableSize.toNat ≤ s.entry.toNat ∧ s.entry.toNat + 2 < 2 ^ 64 := by
  induction h with
  | start =>
    have hstart : (table + tableSize).toNat = table.toNat + tableSize.toNat := by
      rw [BitVec.toNat_add]
      omega
    simp only [walkStart, hstart]
    omega
  | turn hs hin hbody ih =>
    obtain ⟨hle, hlt⟩ := ih
    obtain ⟨hup, hlt'⟩ := (walkBody_forward (tableEndOf_toNat mem hm).2 hin hbody).2 hlt
    omega

/-- **The headers are inside**: when the first test does not wrap, every header that is inspected
lies between `table + table_size` and the end of the table. -/
theorem Walk.inside (h : Walk mem table tableSize proc maxEntries env s)
    (hm : Mapped table) (hwrap : table.toNat + tableSize.toNat + 2 < 2 ^ 64)
    (hin : Inspects (tableEndOf mem table) maxEntries s) :
    table.toNat + tableSize.toNat ≤ s.entry.toNat ∧
      s.entry.toNat + 2 ≤ table.toNat + (read32 mem (table + 4)).toNat := by
  obtain ⟨hle, hlt⟩ := h.advanced hm hwrap
  have hend := hin.1
  rw [BitVec.lt_def, (tableEndOf_toNat mem hm).1] at hend
  have hadd : (s.entry + 2).toNat = s.entry.toNat + 2 := by bv_omega
  omega

/-- When the first test fails, nothing is inspected and nothing called. -/
theorem Walk.eq_start (h : Walk mem table tableSize proc maxEntries env s)
    (hin : ¬Inspects (tableEndOf mem table) maxEntries (walkStart table tableSize proc env)) :
    s = walkStart table tableSize proc env := by
  induction h with
  | start => rfl
  | turn hs hin' hbody ih =>
    rw [ih] at hin'
    exact absurd hin' hin

end Runs

/-! ## A run over subtables -/

section Complete

variable {mem : Memory} {type : BitVec 8} {table tableEnd entry : BitVec 64} {i : ℕ}
  {ps : List (AcpiSubtableProc σ)} {env env' : σ} {s : WalkState σ} {maxEntries : BitVec 32}
  {call : ℕ × BitVec 64} {calls : List (ℕ × BitVec 64)}

@[simp] theorem firstMatch_bump :
    firstMatch type (ps.modify i AcpiSubtableProc.bump) = firstMatch type ps := by
  unfold firstMatch
  induction ps generalizing i with
  | nil => rw [List.modify_nil]
  | cons p ps ih =>
    cases i with
    | zero => rfl
    | succ i => rw [List.modify_succ_cons, List.findIdx?_cons, List.findIdx?_cons, ih]

@[simp] theorem callHandler_bump :
    callHandler (ps.modify i AcpiSubtableProc.bump) tableEnd env call =
      callHandler ps tableEnd env call := by
  unfold callHandler
  rw [List.getElem?_modify]
  cases ps[call.1]? with
  | none => rfl
  | some p =>
    by_cases hi : i = call.1
    · simp only [if_pos hi, Option.map_eq_map, Option.map_some, Option.elim_some]
      rfl
    · simp only [if_neg hi, Option.map_eq_map, Option.map_some, Option.elim_some]

@[simp] theorem callHandlers_bump :
    callHandlers (ps.modify i AcpiSubtableProc.bump) tableEnd env calls =
      callHandlers ps tableEnd env calls := by
  unfold callHandlers
  congr 1
  funext env call
  exact callHandler_bump

/-- The array after the calls, with its counts. -/
def bumped (ps : List (AcpiSubtableProc σ)) (calls : List (ℕ × BitVec 64)) :
    List (AcpiSubtableProc σ) :=
  calls.foldl (fun ps call => ps.modify call.1 AcpiSubtableProc.bump) ps

/-- The address of the next subtable, by the length in the header of this one. -/
def WalkState.advance (mem : Memory) (s : WalkState σ) : BitVec 64 :=
  s.entry + (mem (s.entry + 1)).setWidth 64

/-- The state after a turn that calls nothing. -/
def WalkState.skipped (mem : Memory) (s : WalkState σ) : WalkState σ :=
  { s with entry := s.advance mem }

/-- The state after a turn that calls the handler of the element `i`, which leaves `env`. -/
def WalkState.called (mem : Memory) (s : WalkState σ) (i : ℕ) (env : σ) : WalkState σ :=
  { entry := s.advance mem
    count := s.count + 1
    proc := s.proc.modify i AcpiSubtableProc.bump
    env
    calls := s.calls ++ [(i, s.entry)] }

/-- A turn at a subtable with a type that is not looked for. -/
theorem walkBody_of_none (hm : Mapped s.entry) (hm1 : Mapped (s.entry + 1))
    (hlen : mem (s.entry + 1) ≠ 0#8) (h : firstMatch (mem s.entry) s.proc = none) :
    walkBody mem tableEnd s = .ok (s.skipped mem) := by
  rw [walkBody, procLoop_of_none hm h]
  simp only [Exec.ok_bind, load8_eq_ok.mpr ⟨hm1, rfl⟩, bugOn, decide_eq_false hlen]
  simp only [Option.map_none, Option.toList_none, List.append_nil]
  rfl

/-- A turn at a subtable with a type that is looked for. -/
theorem walkBody_of_some (hm : Mapped s.entry) (hm1 : Mapped (s.entry + 1))
    (hlen : mem (s.entry + 1) ≠ 0#8) (h : firstMatch (mem s.entry) s.proc = some i) :
    walkBody mem tableEnd s =
      (callHandler s.proc tableEnd s.env (i, s.entry) >>= fun env => .ok (s.called mem i env)) := by
  rw [walkBody, procLoop_of_some hm h]
  rcases callHandler s.proc tableEnd s.env (i, s.entry) with e | env'
  · rfl
  · simp only [Exec.ok_bind, load8_eq_ok.mpr ⟨hm1, rfl⟩, bugOn, decide_eq_false hlen]
    rw [Nat.zero_add]
    rfl

theorem matchingCalls_cons (o : ℕ) (os : List ℕ) :
    matchingCalls mem table ps (o :: os) =
      ((firstMatch (mem (table + BitVec.ofNat 64 o)) ps).map
        fun i => (i, table + BitVec.ofNat 64 o)).toList ++ matchingCalls mem table ps os := by
  unfold matchingCalls
  rw [List.filterMap_cons]
  cases firstMatch (mem (table + BitVec.ofNat 64 o)) ps <;> rfl

@[simp] theorem matchingCalls_bump (os : List ℕ) :
    matchingCalls mem table (ps.modify i AcpiSubtableProc.bump) os =
      matchingCalls mem table ps os := by
  unfold matchingCalls
  simp only [firstMatch_bump]

/-- The maximum is not reached when one more call can be made. -/
theorem limited_cons {made : ℕ} (h : maxEntries = 0#32 ∨ made < maxEntries.toNat) :
    limited maxEntries made (call :: calls) = call :: limited maxEntries (made + 1) calls := by
  unfold limited
  rcases h with rfl | h
  · rfl
  · have hne : maxEntries ≠ 0#32 := by
      rintro rfl
      simp at h
    have hsucc : maxEntries.toNat - made = maxEntries.toNat - (made + 1) + 1 := by omega
    rw [if_neg hne, if_neg hne, hsucc, List.take_succ_cons]

theorem limited_eq_nil {made : ℕ} (h : ¬(maxEntries = 0#32 ∨ made < maxEntries.toNat)) :
    limited maxEntries made calls = [] := by
  obtain ⟨hne, hfull⟩ := not_or.mp h
  rw [limited, if_neg hne, Nat.sub_eq_zero_of_le (Nat.le_of_not_lt hfull), List.take_zero]

theorem limited_nil (made : ℕ) : limited maxEntries made [] = [] := by
  unfold limited
  split
  · rfl
  · exact List.take_nil

theorem Subtables.le {o stop : ℕ} {os : List ℕ} (h : Subtables mem table o os stop) :
    o ≤ stop := by
  induction h with
  | nil => exact Nat.le_refl _
  | cons _ _ _ _ ih => omega

/-- The loop is at the offset `o` of a table that ends at the offset `stop`, after some calls. A
call takes three bytes, so that their number fits. -/
structure WalkAt (table tableEnd : BitVec 64) (o stop made : ℕ) (s : WalkState σ) : Prop where
  tableEnd_eq : tableEnd = table + BitVec.ofNat 64 stop
  stop_lt : stop < 2 ^ 32
  fits : table.toNat + stop + 2 < 2 ^ 64
  entry : s.entry = table + BitVec.ofNat 64 o
  count : s.count = BitVec.ofNat 32 made
  made_le : 3 * made ≤ o

theorem WalkAt.not_inspects {stop made : ℕ} (h : WalkAt table tableEnd stop stop made s) :
    ¬Inspects tableEnd maxEntries s := by
  have hfits := h.fits
  rintro ⟨hlt, -⟩
  rw [h.entry, h.tableEnd_eq] at hlt
  bv_omega

theorem WalkAt.inspects_iff {o stop made : ℕ} (h : WalkAt table tableEnd o stop made s)
    (hlt : o + 3 ≤ stop) :
    Inspects tableEnd maxEntries s ↔ maxEntries = 0#32 ∨ made < maxEntries.toNat := by
  have hstop := h.stop_lt
  have hfits := h.fits
  have hmade := h.made_le
  have hcount : s.count.toNat = made := by
    rw [h.count, BitVec.toNat_ofNat, Nat.mod_eq_of_lt (by omega)]
  have hbefore : s.entry + 2 < tableEnd := by
    rw [h.entry, h.tableEnd_eq]
    bv_omega
  rw [Inspects, and_iff_right hbefore, BitVec.le_def, hcount, not_and_or, not_not, Nat.not_le]

theorem WalkAt.advance {o stop made : ℕ} (h : WalkAt table tableEnd o stop made s)
    (mem : Memory) :
    s.advance mem = table +
      BitVec.ofNat 64 (o + (mem (table + BitVec.ofNat 64 o + 1)).toNat) := by
  rw [WalkState.advance, h.entry, BitVec.ofNat_add, ← BitVec.add_assoc, BitVec.ofNat_toNat]

theorem WalkAt.skipped {o stop made : ℕ} (h : WalkAt table tableEnd o stop made s) :
    WalkAt table tableEnd (o + (mem (table + BitVec.ofNat 64 o + 1)).toNat) stop made
      (s.skipped mem) :=
  { h with
    entry := h.advance mem
    made_le := h.made_le.trans (Nat.le_add_right ..) }

theorem WalkAt.called {o stop made : ℕ} (h : WalkAt table tableEnd o stop made s)
    (hthree : 3 ≤ (mem (table + BitVec.ofNat 64 o + 1)).toNat) (i : ℕ) (env : σ) :
    WalkAt table tableEnd (o + (mem (table + BitVec.ofNat 64 o + 1)).toNat) stop (made + 1)
      (s.called mem i env) :=
  { h with
    entry := h.advance mem
    count := by
      rw [WalkState.called, h.count, BitVec.ofNat_add]
      rfl
    made_le := Nat.add_le_add h.made_le hthree }

/-- The loop over subtables that end where the table does, from the offset `o` on. -/
theorem walkLoop_subtables {o stop made fuel : ℕ} {os : List ℕ}
    (hsub : Subtables mem table o os stop) (hat : WalkAt table tableEnd o stop made s)
    (hfuel : stop - o < fuel)
    (hcalls : calls = limited maxEntries made (matchingCalls mem table s.proc os))
    (h : callHandlers s.proc tableEnd s.env calls = .ok env') :
    ∃ s', walkLoop mem tableEnd maxEntries fuel s = .ok s' ∧
      s'.count = BitVec.ofNat 32 (made + calls.length) ∧ 3 * (made + calls.length) ≤ stop ∧
      s'.proc = bumped s.proc calls ∧ s'.env = env' ∧ s'.calls = s.calls ++ calls := by
  induction hsub generalizing s made calls fuel with
  | nil o =>
    obtain ⟨fuel, rfl⟩ := Nat.exists_eq_succ_of_ne_zero (Nat.ne_of_gt (Nat.zero_lt_of_lt hfuel))
    obtain rfl : calls = [] := hcalls.trans (limited_nil made)
    rw [walkLoop, if_neg hat.not_inspects]
    exact ⟨s, rfl, hat.count, hat.made_le, rfl, Except.ok.inj h, (List.append_nil _).symm⟩
  | @cons o os stop htype hlength hthree hrest ih =>
    obtain ⟨fuel, rfl⟩ := Nat.exists_eq_succ_of_ne_zero (Nat.ne_of_gt (Nat.zero_lt_of_lt hfuel))
    have hle := hrest.le
    have hfuel' : stop - (o + (mem (table + BitVec.ofNat 64 o + 1)).toNat) < fuel := by omega
    by_cases hmore : maxEntries = 0#32 ∨ made < maxEntries.toNat
    · have hin : Inspects tableEnd maxEntries s := (hat.inspects_iff (by omega)).mpr hmore
      have hne : mem (s.entry + 1) ≠ 0#8 := by
        rw [hat.entry]
        intro hzero
        rw [hzero] at hthree
        exact absurd hthree (by decide)
      rw [← hat.entry] at htype hlength
      rw [matchingCalls_cons, ← hat.entry] at hcalls
      rw [walkLoop, if_pos hin]
      cases hmatch : firstMatch (mem s.entry) s.proc with
      | none =>
        rw [hmatch] at hcalls
        rw [walkBody_of_none htype hlength hne hmatch, Exec.ok_bind]
        exact ih hat.skipped hfuel' hcalls h
      | some i =>
        rw [hmatch] at hcalls
        simp only [Option.map_some, Option.toList_some, List.singleton_append] at hcalls
        rw [limited_cons hmore] at hcalls
        subst hcalls
        rw [callHandlers, List.foldlM_cons] at h
        obtain ⟨env₁, hcall, h⟩ := Exec.bind_eq_ok.mp h
        rw [walkBody_of_some htype hlength hne hmatch, hcall, Exec.ok_bind, Exec.ok_bind]
        obtain ⟨s', hloop, hcount, hmade, hproc, henv, hcalls'⟩ :=
          ih (hat.called hthree i env₁) hfuel' (by rw [WalkState.called, matchingCalls_bump])
            (by rw [WalkState.called, callHandlers_bump]; exact h)
        have hlen (l : List (ℕ × BitVec 64)) :
            made + 1 + l.length = made + ((i, s.entry) :: l).length := by
          rw [List.length_cons]
          omega
        rw [hlen] at hcount hmade
        refine ⟨s', hloop, hcount, hmade, hproc, henv, ?_⟩
        rw [hcalls', WalkState.called, List.append_assoc, List.singleton_append]
    · -- the maximum is reached
      obtain rfl : calls = [] := hcalls.trans (limited_eq_nil hmore)
      rw [walkLoop, if_neg (mt (hat.inspects_iff (by omega)).mp hmore)]
      exact ⟨s, rfl, hat.count, hat.made_le.trans (by omega), rfl, Except.ok.inj h,
        (List.append_nil _).symm⟩

theorem increments_self (ps : List (AcpiSubtableProc σ)) : increments ps ps = 0 := by
  unfold increments
  induction ps with
  | nil => rfl
  | cons p ps ih => rw [List.zipWith_cons_cons, List.sum_cons, ih, BitVec.sub_self]; rfl

/-- One more call, while the sum fits in 32 bits. -/
theorem increments_bump {qs : List (AcpiSubtableProc σ)} (hlen : qs.length = ps.length)
    (hi : i < ps.length) (hfit : increments ps qs + 1 < 2 ^ 32) :
    increments ps (qs.modify i AcpiSubtableProc.bump) = increments ps qs + 1 := by
  unfold increments at hfit ⊢
  induction ps generalizing qs i with
  | nil => cases hi
  | cons p ps ih =>
    obtain ⟨q, qs, rfl⟩ : ∃ q qs', qs = q :: qs' :=
      List.exists_cons_of_length_pos (by rw [hlen]; exact Nat.succ_pos _)
    rw [List.zipWith_cons_cons, List.sum_cons] at hfit ⊢
    cases i with
    | zero =>
      have hone : (q.bump.count - p.count).toNat = (q.count - p.count).toNat + 1 := by
        unfold AcpiSubtableProc.bump
        bv_omega
      rw [List.modify_zero_cons, List.zipWith_cons_cons, List.sum_cons, hone]
      omega
    | succ i =>
      have hrest := ih (Nat.succ.inj hlen) (Nat.lt_of_succ_lt_succ hi) (by omega)
      rw [List.modify_succ_cons, List.zipWith_cons_cons, List.sum_cons, hrest]
      omega

/-- The counts sum up to the number of calls. -/
theorem increments_bumped {qs : List (AcpiSubtableProc σ)} (hlen : qs.length = ps.length)
    (hcalls : ∀ call ∈ calls, call.1 < ps.length)
    (hfit : increments ps qs + calls.length < 2 ^ 32) :
    increments ps (bumped qs calls) = increments ps qs + calls.length := by
  induction calls generalizing qs with
  | nil => rfl
  | cons call calls ih =>
    obtain ⟨hcall, hcalls⟩ := List.forall_mem_cons.mp hcalls
    rw [List.length_cons] at hfit ⊢
    have hone := increments_bump hlen hcall (by omega)
    have hlen' : (qs.modify call.1 AcpiSubtableProc.bump).length = ps.length := by
      rw [List.length_modify, hlen]
    have hrest := ih hlen' hcalls (by omega)
    rw [bumped, List.foldl_cons]
    rw [bumped] at hrest
    omega

/-- The calls are of elements of the array, also when they are cut off. -/
theorem index_lt_of_mem_limited {made : ℕ} {os : List ℕ}
    (h : call ∈ limited maxEntries made (matchingCalls mem table ps os)) :
    call.1 < ps.length := by
  have hmem : call ∈ matchingCalls mem table ps os := by
    unfold limited at h
    split at h
    · exact h
    · exact List.mem_of_mem_take h
  obtain ⟨o, -, hcall⟩ := List.mem_filterMap.mp hmem
  obtain ⟨i, hi, rfl⟩ := Option.map_eq_some_iff.mp hcall
  exact (List.findIdx?_eq_some_iff_getElem.mp hi).1

end Complete

/-! ## The function -/

section Function

variable {mem : Memory} {tables : InitialTables} {id : AcpiName} {table tableSize : BitVec 64}
  {maxEntries : BitVec 32} {proc : List (AcpiSubtableProc σ)} {env : σ}

theorem Found.mapped (h : Found mem tables id table) : Mapped table := h.header.1

/-- Where the loop is reached, the function is the loop. -/
theorem acpiTableParseEntriesArray_of_found (h : Found mem tables id table) :
    acpiTableParseEntriesArray mem tables id tableSize proc maxEntries env =
      (walkLoop mem (tableEndOf mem table) maxEntries ((tableEndOf mem table).toNat + 1)
        (walkStart table tableSize proc env) >>= fun s => .ok (s.count, s)) := by
  obtain ⟨headers, hfind⟩ := h.find
  have hload : load32 mem (table + 4) = .ok (read32 mem (table + 4)) := by
    refine load32_eq_ok.mpr ⟨h.header.add (i := 4) (by decide), ?_, rfl⟩
    rw [BitVec.add_assoc]
    exact h.header.2
  rw [acpiTableParseEntriesArray, hfind, Exec.ok_bind]
  simp only [if_neg h.ne_zero, hload, Exec.ok_bind]
  rfl

theorem inspects_walkStart :
    Inspects (tableEndOf mem table) maxEntries (walkStart table tableSize proc env) ↔
      table + tableSize + 2 < tableEndOf mem table := by
  refine and_iff_left ?_
  rintro ⟨hne, hle⟩
  exact hne (BitVec.le_zero_iff.mp hle)

/-- **Subtables**: the right handlers are called when there are subtables up to the end. -/
theorem acpiTableParseEntriesArray_complete :
    WalkComplete mem tables id tableSize proc maxEntries env := by
  intro table hfound os hsub calls hcalls env' h
  have hstop : (read32 mem (table + 4)).toNat < 2 ^ 32 := (read32 mem (table + 4)).isLt
  obtain ⟨hend, hfits⟩ := tableEndOf_toNat mem hfound.mapped
  have hendOf : tableEndOf mem table =
      table + BitVec.ofNat 64 (read32 mem (table + 4)).toNat := by
    rw [tableEndOf, BitVec.ofNat_toNat]
  have hat : WalkAt table (tableEndOf mem table) tableSize.toNat
      (read32 mem (table + 4)).toNat 0 (walkStart table tableSize proc env) :=
    { tableEnd_eq := hendOf
      stop_lt := hstop
      fits := by omega
      entry := by rw [BitVec.ofNat_toNat, BitVec.setWidth_eq]; rfl
      count := rfl
      made_le := Nat.zero_le _ }
  have hfuel : (read32 mem (table + 4)).toNat - tableSize.toNat <
      (tableEndOf mem table).toNat + 1 := by omega
  obtain ⟨s, hloop, hcount, hthird, hproc, henv, hscalls⟩ :=
    walkLoop_subtables hsub hat hfuel hcalls h
  rw [Nat.zero_add] at hcount hthird
  refine ⟨s.count, s, ?_, hscalls, henv, ?_, ?_⟩
  · rw [acpiTableParseEntriesArray_of_found hfound, hloop, Exec.ok_bind]
  · rw [hcount, BitVec.toInt_eq_toNat_of_lt, BitVec.toNat_ofNat, Nat.mod_eq_of_lt (by omega)]
    rw [BitVec.toNat_ofNat, Nat.mod_eq_of_lt (by omega)]
    omega
  · have hindex : ∀ call ∈ calls, call.1 < proc.length := by
      rw [hcalls]
      exact fun call hcall => index_lt_of_mem_limited hcall
    rw [hproc]
    change increments proc (bumped proc calls) = calls.length
    rw [increments_bumped rfl hindex (by rw [increments_self]; omega), increments_self,
      Nat.zero_add]

/-- The headers are inside exactly when the first test does not wrap. -/
theorem walkInside_iff :
    WalkInside mem tables id tableSize proc maxEntries env ↔
      FirstTestFits mem tables id tableSize := by
  constructor
  · intro hinside table hfound hlt
    have hin : Inspects (tableEndOf mem table) maxEntries (walkStart table tableSize proc env) :=
      inspects_walkStart.mpr hlt
    obtain ⟨hle, hend⟩ := hinside table hfound _ .start hin
    have hfits := tableEndOf_toNat mem hfound.mapped
    simp only [walkStart] at hle hend
    omega
  · intro hfits table hfound s hs hin
    by_cases hlt : table + tableSize + 2 < tableEndOf mem table
    · exact hs.inside hfound.mapped (hfits table hfound hlt) hin
    · have hout : ¬Inspects (tableEndOf mem table) maxEntries
          (walkStart table tableSize proc env) := fun h => hlt (inspects_walkStart.mp h)
      rw [hs.eq_start hout] at hin
      exact absurd hin hout

/-- **The walk over a table** always ends, and is right about subtables up to the end of the
table; the headers that it inspects are inside exactly when its first test does not wrap. -/
theorem walk_right (mem : Memory) (tables : InitialTables) (id : AcpiName)
    (tableSize : BitVec 64) (proc : List (AcpiSubtableProc σ)) (maxEntries : BitVec 32) (env : σ) :
    WalkTerminates mem tables id tableSize proc maxEntries env ∧
      (WalkInside mem tables id tableSize proc maxEntries env ↔
        FirstTestFits mem tables id tableSize) ∧
      WalkComplete mem tables id tableSize proc maxEntries env :=
  ⟨acpiTableParseEntriesArray_terminates, walkInside_iff, acpiTableParseEntriesArray_complete⟩

/-- An empty table of 44 bytes at `0x1000`, with its signature. -/
def apicMemory : Memory := wordsMemory [(0x1000, 0x0000002c43495041)]

/-- The table is the only one that is installed. -/
def apicTables : InitialTables := (Vector.replicate acpiMaxTables 0).set 0 0x1000

/-- With a `table_size` of `-0x1002`, a header at the top of memory is inspected. -/
theorem not_walked_wrap : ¬Walked apicMemory apicTables acpiSigMadt (-0x1002) [] 0 () := by
  intro h
  have hfound : Found apicMemory apicTables acpiSigMadt 0x1000 :=
    ⟨⟨[0x1000], by decide +kernel⟩, by decide, by decide, by decide⟩
  have hin : Inspects (tableEndOf apicMemory 0x1000) 0
      (walkStart (0x1000 : BitVec 64) (-0x1002) ([] : List (AcpiSubtableProc Unit)) ()) := by
    decide +kernel
  have hinside := (h.inside 0x1000 hfound _ .start hin).2
  exact absurd hinside (by decide +kernel)

end Function

end Lvisor
