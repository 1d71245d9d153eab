import Mathlib.Data.Nat.Bitwise

/-!
# The machine under the VMM

What every module of the model shares: the ways a C function of the VMM can fail
to return (`Fault`), the size constants of `io/sizes.h`, and the linked image.

All host code runs under an identity mapping (`__va` and `__pa` of `sys/types.h`
are casts), so a host pointer *is* a physical address, a `BitVec 64`.
-/

namespace Lvisor

/-- How a C function fails to return. `panic` and `BUG` (which panics with the
place of the failed check) are the source's own; `pageFault` is a load from an
address that is not mapped; `undefined` is a step to which C gives no meaning; `outOfBounds`
marks an access past the end of an array and `outOfFuel` a loop that was cut short, neither of
which the source can observe. -/
inductive Fault where
  /-- `panic(msg)` -/
  | panic (msg : String)
  /-- `BUG()`, by `BUG_ON` or `assert`, at `file:line/func` -/
  | bug (file : String) (line : ℕ) (func : String)
  /-- a load from `addr`, which is not mapped -/
  | pageFault (addr : BitVec 64)
  /-- a WRMSR that the processor does not accept -/
  | generalProtection (msr : BitVec 32)
  /-- an argument that was not passed, or a value that its `int` cannot hold -/
  | undefined
  /-- an access outside the array it names -/
  | outOfBounds
  /-- a loop did not end within the fuel given -/
  | outOfFuel
  deriving DecidableEq, Repr

/-- The result of a C function: it returns, or it stops the machine. -/
abbrev Exec (α : Type) : Type := Except Fault α

namespace Exec

variable {α β : Type}

@[simp] theorem ok_bind (a : α) (f : α → Exec β) : ((.ok a : Exec α) >>= f) = f a := rfl

@[simp] theorem error_bind (e : Fault) (f : α → Exec β) :
    ((.error e : Exec α) >>= f) = .error e := rfl

@[simp] theorem pure_eq_ok (a : α) : (pure a : Exec α) = .ok a := rfl

@[simp] theorem throw_eq_error (e : Fault) : (throw e : Exec α) = .error e := rfl

/-- A sequence returns when both of its parts do. -/
theorem bind_eq_ok {x : Exec α} {f : α → Exec β} {b : β} :
    (x >>= f) = .ok b ↔ ∃ a, x = .ok a ∧ f a = .ok b := by
  rcases x with e | a
  · simp
  · simp

theorem pure_ne_error {a : α} {e : Fault} : (pure a : Exec α) ≠ .error e := by
  intro h
  cases h

/-- A sequence fails in one of its parts, so that it does not when neither does. -/
theorem bind_ne_error {x : Exec α} {f : α → Exec β} {e : Fault} (hx : x ≠ .error e)
    (hf : ∀ a, x = .ok a → f a ≠ .error e) : (x >>= f) ≠ .error e := by
  rcases x with e' | a
  · intro h
    exact hx (congrArg Except.error (Except.error.inj h))
  · exact hf a rfl

/-- A run that evaluates to a value with a decidable property. -/
theorem exists_of_any {x : Exec α} {p : α → Bool} (h : x.toOption.any p = true) :
    ∃ a, x = .ok a ∧ p a = true := by
  rcases x with e | a
  · cases h
  · exact ⟨a, rfl, h⟩

end Exec

/-- `BUG_ON(cond)` at the given place of the source, which is a part of what it prints. -/
def bugOn (file : String) (line : ℕ) (func : String) (cond : Bool) : Exec Unit :=
  if cond then .error (.bug file line func) else .ok ()

/-- `if (cond) panic(msg)`: the VMM stops with the message. -/
def panicIf (msg : String) (cond : Bool) : Exec Unit :=
  if cond then .error (.panic msg) else .ok ()

section Checks

variable {α : Type} {cond : Bool} {f : Unit → Exec α} {a : α}

/-- A `BUG_ON` that is passed leaves no trace. -/
theorem bugOn_bind_eq_ok {file func : String} {line : ℕ} :
    (bugOn file line func cond >>= f) = .ok a ↔ cond = false ∧ f () = .ok a := by
  unfold bugOn
  cases cond <;> simp

/-- A check before a panic that is passed leaves no trace. -/
theorem panicIf_bind_eq_ok {msg : String} :
    (panicIf msg cond >>= f) = .ok a ↔ cond = false ∧ f () = .ok a := by
  unfold panicIf
  cases cond <;> simp

theorem bugOn_ne_outOfFuel {file func : String} {line : ℕ} :
    bugOn file line func cond ≠ .error .outOfFuel := by
  unfold bugOn
  cases cond <;> simp

theorem panicIf_ne_outOfFuel {msg : String} : panicIf msg cond ≠ .error .outOfFuel := by
  unfold panicIf
  cases cond <;> simp

end Checks

/-- `SZ_2M`: the size of a large page. -/
abbrev sz2M : BitVec 64 := 0x00200000#64

/-- `SZ_4G`: the end of the memory that the VMM maps. -/
abbrev sz4G : BitVec 64 := 0x100000000#64

/-- `PAGE_SIZE`, in bytes. -/
abbrev pageSize : BitVec 64 := 0x1000#64

/-- A store `a[i] = x` into an array of `n` elements. -/
def store {α : Type} {n : ℕ} (a : Vector α n) (i : ℕ) (x : α) : Exec (Vector α n) :=
  if h : i < n then .ok (a.set i x h) else .error .outOfBounds

theorem store_of_lt {α : Type} {n : ℕ} (a : Vector α n) {i : ℕ} (x : α) (h : i < n) :
    store a i x = .ok (a.set i x h) :=
  dif_pos h

/-- Physical memory, by bytes. Every address has one. -/
abbrev Memory : Type := BitVec 64 → BitVec 8

/-- What the page table of `head.S` maps: the first 4 GiB, and the same again at
`__ENTRY_OFFSET`. -/
def Mapped (a : BitVec 64) : Prop :=
  a.toNat < 2 ^ 32 ∨ 0xffff800000000000 ≤ a.toNat ∧ a.toNat < 0xffff800100000000

instance (a : BitVec 64) : Decidable (Mapped a) := inferInstanceAs (Decidable (_ ∨ _))

/-- A little-endian 32-bit load; at the end of the address space it wraps around. -/
def read32 (mem : Memory) (p : BitVec 64) : BitVec 32 :=
  mem (p + 3) ++ mem (p + 2) ++ mem (p + 1) ++ mem p

/-- A little-endian 64-bit load; at the end of the address space it wraps around. -/
def read64 (mem : Memory) (p : BitVec 64) : BitVec 64 :=
  read32 mem (p + 4) ++ read32 mem p

/-- Memory that holds the given 64-bit words and is 0 elsewhere. -/
def wordsMemory (ws : List (BitVec 64 × BitVec 64)) : Memory := fun p =>
  match ws.find? fun w => (p - w.1).toNat < 8 with
  | some w => (w.2 >>> (8 * (p - w.1).toNat)).setWidth 8
  | none => 0

/-- The placement of the linked image: the bounds `_start` and `_end` of the VMM
and the addresses of the three EPT arrays of `kvm.c`. The fields state what the
compiler and the linker guarantee: the arrays are page aligned
(`__aligned(PAGE_SIZE)`), they are distinct objects, and physical addresses have
at most 52 bits. That `_start` and `_end` are 2 MiB aligned is *not* a field: the
code checks it. -/
structure Image where
  start : BitVec 64
  /-- `_end` -/
  stop : BitVec 64
  /-- the address of `ept_pml4[512]` -/
  eptPml4 : BitVec 64
  /-- the address of `ept_pdpt_0_512g[512]` -/
  eptPdpt : BitVec 64
  /-- the address of `ept_pd_0_4g[4 * 512]` -/
  eptPd : BitVec 64
  start_le_stop : start.toNat ≤ stop.toNat
  eptPml4_aligned : eptPml4.toNat % 2 ^ 12 = 0
  eptPdpt_aligned : eptPdpt.toNat % 2 ^ 12 = 0
  eptPd_aligned : eptPd.toNat % 2 ^ 12 = 0
  eptPml4_top : eptPml4.toNat + 512 * 8 ≤ 2 ^ 52
  eptPdpt_top : eptPdpt.toNat + 512 * 8 ≤ 2 ^ 52
  eptPd_top : eptPd.toNat + 4 * 512 * 8 ≤ 2 ^ 52
  pml4_disjoint_pdpt :
    eptPml4.toNat + 512 * 8 ≤ eptPdpt.toNat ∨ eptPdpt.toNat + 512 * 8 ≤ eptPml4.toNat
  pml4_disjoint_pd :
    eptPml4.toNat + 512 * 8 ≤ eptPd.toNat ∨ eptPd.toNat + 4 * 512 * 8 ≤ eptPml4.toNat
  pdpt_disjoint_pd :
    eptPdpt.toNat + 512 * 8 ≤ eptPd.toNat ∨ eptPd.toNat + 4 * 512 * 8 ≤ eptPdpt.toNat

namespace Image

/-- The byte range `[_start, _end)` of the VMM. -/
def Owns (img : Image) (a : ℕ) : Prop := img.start.toNat ≤ a ∧ a < img.stop.toNat

instance (img : Image) (a : ℕ) : Decidable (img.Owns a) :=
  inferInstanceAs (Decidable (_ ∧ _))

/-- What the two `BUG_ON`s of `multiboot_init` on `_start` and `_end` establish. -/
def Aligned (img : Image) : Prop :=
  img.start.toNat % 2 ^ 21 = 0 ∧ img.stop.toNat % 2 ^ 21 = 0

instance (img : Image) : Decidable img.Aligned :=
  inferInstanceAs (Decidable (_ ∧ _))

end Image

/-- An image of 4 MiB at `VMM_START` with the EPT arrays in its last frame. -/
def vmmImage : Image where
  start := 0x10000000#64
  stop := 0x10400000#64
  eptPml4 := 0x10200000#64
  eptPdpt := 0x10201000#64
  eptPd := 0x10204000#64
  start_le_stop := by decide
  eptPml4_aligned := by decide
  eptPdpt_aligned := by decide
  eptPd_aligned := by decide
  eptPml4_top := by decide
  eptPdpt_top := by decide
  eptPd_top := by decide
  pml4_disjoint_pdpt := by decide
  pml4_disjoint_pd := by decide
  pdpt_disjoint_pd := by decide

theorem vmmImage_aligned : vmmImage.Aligned := by decide

end Lvisor
