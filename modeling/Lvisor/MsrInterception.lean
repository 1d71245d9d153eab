import Lvisor.GuestMode
import Mathlib.Data.List.Induction

/-!
# The MSR bitmap as a map (`vmx.c`)

The 4 KiB of `msr_bitmap` are four bitmaps of 1 KiB each, for the reads and the writes of the
low and of the high MSRs. `set_msr_interception` sets or clears two bits, at offsets that its
bit instructions take from anywhere.

* `msrExits` — whether an access to an MSR exits, from the bytes of the page;
* `InterceptMap` — the map that the page stands for, and its update;
* `exists_exec` — a call is the update of the map at its MSR;
* `msr_interception` — any sequence of calls, and the map that `vmx_hardware_setup` leaves.
-/

namespace Lvisor

/-! ## The page, as the processor reads it

The processor finds the bit of an MSR by its number and the kind of the access. An MSR in neither
of the two ranges always exits. -/

/-- The accesses that the bitmap tells apart: RDMSR and WRMSR. -/
inductive MsrAccess where
  | read | write
  deriving DecidableEq, Repr

/-- The byte at an offset of the page, out of the word that it is in. -/
def bitmapByte (bm : MsrBitmap) (i : ℕ) : BitVec 8 :=
  (bm.getD (i / 8) 0#64 >>> (8 * (i % 8))).setWidth 8

/-- Where the bitmap of the low MSRs starts, as a byte of the page. -/
def MsrAccess.low : MsrAccess → ℕ
  | read => 0x000
  | write => 0x800

/-- Where the bitmap of the high MSRs starts, as a byte of the page. -/
def MsrAccess.high : MsrAccess → ℕ
  | read => 0x400
  | write => 0xc00

/-- The bit of an MSR in the bitmap that starts at a byte. -/
def bitmapBit (bm : MsrBitmap) (start : ℕ) (msr : BitVec 32) : Bool :=
  let n := (msr &&& 0x1fff#32).toNat
  (bitmapByte bm (start + n / 8)).getLsbD (n % 8)

/-- Whether an access exits, as the processor reads it from the page: without a bit it does. -/
def msrExits (bm : MsrBitmap) (access : MsrAccess) (msr : BitVec 32) : Bool :=
  if msr ≤ 0x1fff#32 then bitmapBit bm access.low msr
  else if 0xc0000000#32 ≤ msr ∧ msr ≤ 0xc0001fff#32 then bitmapBit bm access.high msr
  else true

/-- The MSRs that have bits: 8192 from 0 on, and as many from 0xc0000000 on. -/
def MsrInRange (msr : BitVec 32) : Prop :=
  msr ≤ 0x1fff#32 ∨ 0xc0000000#32 ≤ msr ∧ msr ≤ 0xc0001fff#32

instance (msr : BitVec 32) : Decidable (MsrInRange msr) := inferInstanceAs (Decidable (_ ∨ _))

/-- The byte has the bits of the word at its place. -/
theorem bitmapByte_getLsbD (bm : MsrBitmap) {i b : ℕ} (hb : b < 8) :
    (bitmapByte bm i).getLsbD b = (bm.getD (i / 8) 0#64).getLsbD (8 * (i % 8) + b) := by
  rw [bitmapByte, BitVec.getLsbD_setWidth, BitVec.getLsbD_ushiftRight, decide_eq_true hb,
    Bool.true_and]

theorem toNat_and_0x1fff (msr : BitVec 32) : (msr &&& 0x1fff#32).toNat = msr.toNat % 0x2000 := by
  rw [BitVec.toNat_and]
  exact Nat.and_two_pow_sub_one_eq_mod msr.toNat 13

/-! ## Positions in the page

Each MSR in range has one bit for reads and one for writes, and no two of these are the same bit.
The code goes through words of 64 bits and the processor through bytes; the bit is the same. -/

/-- The number of the bit of an MSR, from the start of the page. -/
def bitPosition (access : MsrAccess) (msr : BitVec 32) : ℕ :=
  if msr ≤ 0x1fff#32 then 8 * access.low + msr.toNat % 0x2000
  else 8 * access.high + msr.toNat % 0x2000

/-- **No aliasing**: no two accesses to MSRs in range have the same bit. -/
theorem bitPosition_inj {access access' : MsrAccess} {msr msr' : BitVec 32} (h : MsrInRange msr)
    (h' : MsrInRange msr') (heq : bitPosition access msr = bitPosition access' msr') :
    access = access' ∧ msr = msr' := by
  have hlow : ∀ m : BitVec 32, m ≤ 0x1fff#32 ↔ m.toNat ≤ 0x1fff := fun m => BitVec.le_def
  have hhigh : ∀ m : BitVec 32, 0xc0000000#32 ≤ m ∧ m ≤ 0xc0001fff#32 ↔
      0xc0000000 ≤ m.toNat ∧ m.toNat ≤ 0xc0001fff := fun m => Iff.rfl
  rw [MsrInRange, hlow, hhigh] at h h'
  simp only [bitPosition, hlow] at heq
  have hmod := Nat.mod_lt msr.toNat (show 0 < 0x2000 by decide)
  have hmod' := Nat.mod_lt msr'.toNat (show 0 < 0x2000 by decide)
  cases access <;> cases access' <;> simp only [MsrAccess.low, MsrAccess.high] at heq <;>
    split_ifs at heq <;>
    first
      | exact ⟨rfl, BitVec.eq_of_toNat_eq (by omega)⟩
      | omega

section Bits

variable {bm bm' : MsrBitmap} {msr : BitVec 32}

/-- A bit stays when another one is put. -/
theorem bitmapTest_putBit_of_ne {on : Bool} {nr nr' addr addr' : ℕ}
    (h : putBit on nr' addr' bm = .ok bm')
    (hne : addr' + nr' / 64 ≠ addr + nr / 64 ∨ nr' % 64 ≠ nr % 64) :
    bitmapTest bm' nr addr = bitmapTest bm nr addr := by
  unfold putBit store at h
  dsimp only at h
  split at h
  · rename_i hlt
    obtain rfl := Except.ok.inj h
    unfold bitmapTest
    by_cases hword : addr' + nr' / 64 = addr + nr / 64
    · have hbit : nr' % 64 ≠ nr % 64 := hne.resolve_left (not_not_intro hword)
      have hother : (1#64 <<< (nr' % 64)).getLsbD (nr % 64) = false := by
        rw [← BitVec.twoPow_eq, BitVec.getLsbD_twoPow, decide_eq_false hbit, Bool.and_false]
      have hmod : nr % 64 < 64 := Nat.mod_lt _ (by decide)
      have hget (x : BitVec 64) :
          (bm.set (addr' + nr' / 64) x hlt).getD (addr + nr / 64) 0#64 = x := by
        rw [← hword]
        simp [Vector.getD, hlt]
      rw [hget, hword]
      cases on
      · rw [if_neg Bool.false_ne_true, BitVec.getLsbD_and, BitVec.getLsbD_not, hother]
        simp [hmod]
      · rw [if_pos rfl, BitVec.getLsbD_or, hother, Bool.or_false]
    · simp [Vector.getD, hword]
  · cases h

/-- A bit after a bit was put: that one, or as before. -/
theorem bitmapTest_putBit {on : Bool} {n n' : ℕ} (h : putBit on n' 0 bm = .ok bm') :
    bitmapTest bm' n 0 = if n = n' then on else bitmapTest bm n 0 := by
  by_cases heq : n = n'
  · subst heq
    rw [if_pos rfl, bitmapTest_of_putBit h]
  · rw [if_neg heq]
    exact bitmapTest_putBit_of_ne h (by omega)

theorem bitmapTest_zero (n addr : ℕ) :
    bitmapTest (Vector.replicate 512 0#64) n addr = false := by
  have hword : (Vector.replicate 512 0#64).getD (addr + n / 64) 0#64 = 0#64 := by
    by_cases h : addr + n / 64 < 512
    · simp [Vector.getD, h]
    · simp [Vector.getD, h]
  rw [bitmapTest, hword, BitVec.getLsbD_zero]

/-- Bits are put inside of the page, so that the store does not fail. -/
theorem exists_putBit (on : Bool) (bm : MsrBitmap) {n : ℕ} (hn : n < 32768) :
    ∃ bm', putBit on n 0 bm = .ok bm' := by
  unfold putBit store
  dsimp only
  rw [dif_pos (by omega)]
  exact ⟨_, rfl⟩

theorem bitPosition_lt (access : MsrAccess) (msr : BitVec 32) : bitPosition access msr < 32768 := by
  have hmod := Nat.mod_lt msr.toNat (show 0 < 0x2000 by decide)
  unfold bitPosition
  cases access <;> simp only [MsrAccess.low, MsrAccess.high] <;> split_ifs <;> omega

/-- The byte and the bit that the processor tests, in the words of the bitmap. -/
theorem bitmapBit_eq (bm : MsrBitmap) {start : ℕ} (hstart : start % 8 = 0) (msr : BitVec 32) :
    bitmapBit bm start msr = bitmapTest bm (msr &&& 0x1fff#32).toNat (start / 8) := by
  unfold bitmapBit bitmapTest
  dsimp only
  generalize (msr &&& 0x1fff#32).toNat = n
  have hword : (start + n / 8) / 8 = start / 8 + n / 64 := by omega
  have hbit : 8 * ((start + n / 8) % 8) + n % 8 = n % 64 := by omega
  rw [bitmapByte_getLsbD bm (Nat.mod_lt n (by decide)), hword, hbit]

theorem MsrAccess.low_mod (access : MsrAccess) : access.low % 8 = 0 := by
  cases access <;> rfl

theorem MsrAccess.high_mod (access : MsrAccess) : access.high % 8 = 0 := by
  cases access <;> rfl

/-- `rdmsrExits` and `wrmsrExits` look at the bitmap in this way. -/
theorem bitmapExits_eq (bm : MsrBitmap) (access : MsrAccess) (msr : BitVec 32) :
    bitmapExits bm (access.low / 8) (access.high / 8) msr = msrExits bm access msr := by
  unfold bitmapExits msrExits
  rw [bitmapBit_eq bm access.low_mod, bitmapBit_eq bm access.high_mod]
  by_cases hlow : msr ≤ 0x1fff#32
  · have hmod : (msr &&& 0x1fff#32).toNat = msr.toNat := by
      rw [toNat_and_0x1fff]
      exact Nat.mod_eq_of_lt (Nat.lt_succ_of_le hlow)
    rw [if_pos hlow, if_pos hlow, hmod]
  · rw [if_neg hlow, if_neg hlow]

/-- The processor tests the bit at the position of the MSR. -/
theorem msrExits_of_inRange (h : MsrInRange msr) (bm : MsrBitmap) (access : MsrAccess) :
    msrExits bm access msr = bitmapTest bm (bitPosition access msr) 0 := by
  have hbit : ∀ start, start % 8 = 0 →
      bitmapBit bm start msr = bitmapTest bm (8 * start + msr.toNat % 0x2000) 0 := by
    intro start hstart
    rw [bitmapBit_eq bm hstart, toNat_and_0x1fff]
    unfold bitmapTest
    generalize msr.toNat % 0x2000 = n
    have hword : start / 8 + n / 64 = 0 + (8 * start + n) / 64 := by omega
    have hin : n % 64 = (8 * start + n) % 64 := by omega
    rw [hword, hin]
  unfold msrExits bitPosition
  by_cases hlow : msr ≤ 0x1fff#32
  · rw [if_pos hlow, if_pos hlow, hbit _ access.low_mod]
  · rw [if_neg hlow, if_neg hlow, if_pos (h.resolve_left hlow), hbit _ access.high_mod]

theorem msrExits_of_not_inRange (h : ¬MsrInRange msr) (bm : MsrBitmap) (access : MsrAccess) :
    msrExits bm access msr = true := by
  rw [MsrInRange, not_or] at h
  rw [msrExits, if_neg h.1, if_neg h.2]

/-- `set_msr_interception` puts the two bits of the MSR, and no others. -/
theorem setMsrInterception_of_inRange (h : MsrInRange msr) (bm : MsrBitmap) (read write : Bool) :
    setMsrInterception bm msr read write =
      (putBit read (bitPosition .read msr) 0 bm >>= fun bm =>
        putBit write (bitPosition .write msr) 0 bm) := by
  have hput : ∀ (on : Bool) (n start : ℕ) (bm : MsrBitmap), start % 8 = 0 →
      putBit on n (start / 8) bm = putBit on (8 * start + n) 0 bm := by
    intro on n start bm hstart
    have hword : start / 8 + n / 64 = 0 + (8 * start + n) / 64 := by omega
    have hbit : n % 64 = (8 * start + n) % 64 := by omega
    rw [putBit, putBit, hword, hbit]
  unfold setMsrInterception bitPosition
  by_cases hlow : msr ≤ 0x1fff#32
  · have hmod : msr.toNat % 0x2000 = msr.toNat := Nat.mod_eq_of_lt (Nat.lt_succ_of_le hlow)
    rw [if_pos hlow, if_pos hlow, if_pos hlow, hmod, hput _ _ _ _ rfl]
    exact congrArg _ (funext fun bm => hput _ _ _ _ rfl)
  · rw [if_neg hlow, if_neg hlow, if_neg hlow, if_pos (h.resolve_left hlow)]
    dsimp only
    rw [toNat_and_0x1fff, hput _ _ _ _ rfl]
    exact congrArg _ (funext fun bm => hput _ _ _ _ rfl)

theorem setMsrInterception_of_not_inRange (h : ¬MsrInRange msr) (bm : MsrBitmap)
    (read write : Bool) : setMsrInterception bm msr read write = .ok bm := by
  rw [MsrInRange, not_or] at h
  rw [setMsrInterception, if_neg h.1, if_neg h.2]
  rfl

end Bits

/-! ## The map

A call updates the map at its MSR, or does nothing when the MSR is out of range. After a sequence
of calls the last call for an MSR decides. -/

/-- Which accesses exit, as a map instead of a page. -/
abbrev InterceptMap : Type := MsrAccess → BitVec 32 → Bool

/-- A call `set_msr_interception(msr, read, write)`, with its arguments. -/
structure MsrCall where
  msr : BitVec 32
  read : BitVec 32
  write : BitVec 32
  deriving DecidableEq, Repr

/-- What the call says about an access: the arguments are truth values of C. -/
def MsrCall.on (c : MsrCall) : MsrAccess → Bool
  | .read => c.read ≠ 0#32
  | .write => c.write ≠ 0#32

/-- The call, on the page. -/
def MsrCall.exec (bm : MsrBitmap) (c : MsrCall) : Exec MsrBitmap :=
  setMsrInterception bm c.msr (c.on .read) (c.on .write)

/-- Calls one after the other, on the page. -/
def execCalls (bm : MsrBitmap) (calls : List MsrCall) : Exec MsrBitmap :=
  calls.foldlM MsrCall.exec bm

/-- The update of the map at one MSR; there is nothing to update at one without bits. -/
def InterceptMap.update (m : InterceptMap) (c : MsrCall) : InterceptMap := fun access msr =>
  if msr = c.msr ∧ MsrInRange msr then c.on access else m access msr

/-- The last call that names an MSR, if there is one. -/
def lastCall (calls : List MsrCall) (msr : BitVec 32) : Option MsrCall :=
  calls.reverse.find? fun c => c.msr = msr

section Calls

variable {bm bm' : MsrBitmap} {c : MsrCall} {calls : List MsrCall} {access : MsrAccess}
  {msr : BitVec 32}

/-- **One call**: it stays inside of the page, and updates the map at its MSR. -/
theorem exists_exec (bm : MsrBitmap) (c : MsrCall) :
    ∃ bm', c.exec bm = .ok bm' ∧ msrExits bm' = InterceptMap.update (msrExits bm) c := by
  by_cases hc : MsrInRange c.msr
  · obtain ⟨bm₁, h₁⟩ := exists_putBit (c.on .read) bm (bitPosition_lt .read c.msr)
    obtain ⟨bm₂, h₂⟩ := exists_putBit (c.on .write) bm₁ (bitPosition_lt .write c.msr)
    refine ⟨bm₂, ?_, ?_⟩
    · rw [MsrCall.exec, setMsrInterception_of_inRange hc, h₁]
      exact h₂
    · funext access msr
      by_cases hmsr : MsrInRange msr
      · rw [msrExits_of_inRange hmsr, bitmapTest_putBit h₂, bitmapTest_putBit h₁,
          InterceptMap.update, msrExits_of_inRange hmsr]
        by_cases heq : msr = c.msr
        · subst heq
          rw [if_pos (show c.msr = c.msr ∧ MsrInRange c.msr from ⟨rfl, hmsr⟩)]
          cases access with
          | write => rw [if_pos rfl]
          | read =>
            have hne : bitPosition .read c.msr ≠ bitPosition .write c.msr := fun h => by
              cases (bitPosition_inj hmsr hmsr h).1
            rw [if_neg hne, if_pos rfl]
        · have hne : ∀ a : MsrAccess, bitPosition access msr ≠ bitPosition a c.msr :=
            fun a h => heq (bitPosition_inj hmsr hc h).2
          rw [if_neg (hne _), if_neg (hne _), if_neg fun h => heq h.1]
      · rw [InterceptMap.update, if_neg fun h => hmsr h.2, msrExits_of_not_inRange hmsr,
          msrExits_of_not_inRange hmsr]
  · refine ⟨bm, setMsrInterception_of_not_inRange hc _ _ _, ?_⟩
    funext access msr
    rw [InterceptMap.update, if_neg]
    rintro ⟨rfl, hmsr⟩
    exact hc hmsr

/-- **Any sequence of calls** updates the map call by call. -/
theorem exists_execCalls (bm : MsrBitmap) (calls : List MsrCall) :
    ∃ bm', execCalls bm calls = .ok bm' ∧
      msrExits bm' = calls.foldl InterceptMap.update (msrExits bm) := by
  induction calls generalizing bm with
  | nil => exact ⟨bm, rfl, rfl⟩
  | cons c calls ih =>
    obtain ⟨bm₁, h₁, hmap⟩ := exists_exec bm c
    obtain ⟨bm', h', hcalls⟩ := ih bm₁
    refine ⟨bm', ?_, ?_⟩
    · rw [execCalls, List.foldlM_cons, h₁]
      exact h'
    · rw [hcalls, hmap, List.foldl_cons]

/-- The last update of an MSR is the one that stays. -/
theorem foldl_update_apply (calls : List MsrCall) (m : InterceptMap) (hmsr : MsrInRange msr) :
    calls.foldl InterceptMap.update m access msr =
      (lastCall calls msr).elim (m access msr) fun c => c.on access := by
  induction calls using List.reverseRecOn with
  | nil => rfl
  | append_singleton calls c ih =>
    rw [List.foldl_append, List.foldl_cons, List.foldl_nil, InterceptMap.update, lastCall,
      List.reverse_append, List.reverse_singleton, List.singleton_append, List.find?_cons]
    by_cases heq : msr = c.msr
    · rw [if_pos ⟨heq, hmsr⟩, decide_eq_true heq.symm]
      rfl
    · rw [if_neg fun h => heq h.1, decide_eq_false (Ne.symm heq), ih]
      rfl

end Calls

/-! ## `vmx_hardware_setup`

The bitmap is zero at first, so that no MSR in range exits, and the setup makes a few of them
exit. Which ones these are can be read from its list of calls. -/

/-- The calls of `vmx_hardware_setup`, in their order. -/
def setupCalls : List MsrCall :=
  ⟨msrIa32Apicbase, 0, 1⟩ :: ⟨msrX2apicIcr, 0, 1⟩ ::
    (vmxMsrs.map (fun msr => ⟨msr, 1, 1⟩) ++ [⟨msrEfer, 0, 1⟩])

/-- The accesses to MSRs in range that `vmx_hardware_setup` intercepts. -/
def SetupExits (access : MsrAccess) (msr : BitVec 32) : Prop :=
  (0x480#32 ≤ msr ∧ msr ≤ 0x491#32) ∨
    access = .write ∧ (msr = msrIa32Apicbase ∨ msr = msrX2apicIcr ∨ msr = msrEfer)

section Hardware

variable {access : MsrAccess} {msr : BitVec 32}

theorem execCalls_vmxMsrs (bm : MsrBitmap) (l : List (BitVec 32)) :
    execCalls bm (l.map fun msr => ⟨msr, 1, 1⟩) =
      l.foldlM (fun bm msr => setMsrInterception bm msr true true) bm := by
  rw [execCalls, List.foldlM_map]
  rfl

/-- The page that `vmx_hardware_setup` leaves is that after these calls. -/
theorem execCalls_of_hardwareSetup {s s' : VmxState} (h : vmxHardwareSetup s = .ok s') :
    execCalls s.msrBitmap setupCalls = .ok s'.msrBitmap := by
  unfold vmxHardwareSetup at h
  obtain ⟨⟨config, cap⟩, -, h⟩ := Exec.bind_eq_ok.mp h
  dsimp only at h
  rw [panicIf_bind_eq_ok, panicIf_bind_eq_ok] at h
  simp only [Exec.bind_eq_ok] at h
  obtain ⟨-, -, bm₁, hbase, bm₂, hicr, bm₃, hvmx, bm₄, hefer, h⟩ := h
  obtain rfl := Except.ok.inj h
  rw [← execCalls_vmxMsrs] at hvmx
  have hlast : execCalls bm₃ [⟨msrEfer, 0, 1⟩] = .ok bm₄ := by
    rw [execCalls, List.foldlM_cons]
    exact Exec.bind_eq_ok.mpr ⟨bm₄, hefer, rfl⟩
  have hrest : execCalls bm₂ (vmxMsrs.map (fun msr => ⟨msr, 1, 1⟩) ++ [⟨msrEfer, 0, 1⟩]) =
      .ok bm₄ := by
    rw [execCalls, List.foldlM_append]
    exact Exec.bind_eq_ok.mpr ⟨bm₃, hvmx, hlast⟩
  rw [execCalls, setupCalls, List.foldlM_cons]
  refine Exec.bind_eq_ok.mpr ⟨bm₁, hbase, ?_⟩
  rw [List.foldlM_cons]
  exact Exec.bind_eq_ok.mpr ⟨bm₂, hicr, hrest⟩

/-- The page after `vmx_hardware_setup`, whatever it was before. -/
theorem msrExits_of_hardwareSetup {s s' : VmxState} (h : vmxHardwareSetup s = .ok s') :
    msrExits s'.msrBitmap = setupCalls.foldl InterceptMap.update (msrExits s.msrBitmap) := by
  obtain ⟨bm', hok, hmap⟩ := exists_execCalls s.msrBitmap setupCalls
  rw [execCalls_of_hardwareSetup h] at hok
  obtain rfl := Except.ok.inj hok
  exact hmap

theorem mem_vmxMsrs_iff : msr ∈ vmxMsrs ↔ 0x480#32 ≤ msr ∧ msr ≤ 0x491#32 := by
  rw [vmxMsrs, List.mem_map, BitVec.le_def, BitVec.le_def]
  constructor
  · rintro ⟨n, hn, rfl⟩
    rw [List.mem_range'_1] at hn
    simp only [BitVec.toNat_ofNat]
    omega
  · rintro ⟨hlow, hhigh⟩
    simp only [BitVec.toNat_ofNat] at hlow hhigh
    refine ⟨msr.toNat, List.mem_range'_1.mpr (by omega), ?_⟩
    rw [BitVec.ofNat_toNat, BitVec.setWidth_eq]

/-- Calls for both accesses of all MSRs of a list. -/
theorem foldl_update_map (hmsr : MsrInRange msr) (l : List (BitVec 32)) (m : InterceptMap) :
    (l.map fun msr => (⟨msr, 1, 1⟩ : MsrCall)).foldl InterceptMap.update m access msr =
      (decide (msr ∈ l) || m access msr) := by
  induction l generalizing m with
  | nil => rfl
  | cons x l ih =>
    rw [List.map_cons, List.foldl_cons, ih, InterceptMap.update]
    by_cases hx : msr = x
    · have hon : MsrCall.on ⟨x, 1, 1⟩ access = true := by cases access <;> rfl
      rw [if_pos ⟨hx, hmsr⟩, hon, Bool.or_true, decide_eq_true (List.mem_cons.mpr (.inl hx)),
        Bool.true_or]
    · rw [if_neg fun h => hx h.1]
      simp [hx]

/-- The map that the calls make of the one where nothing exits. -/
theorem foldl_setupCalls_iff (hmsr : MsrInRange msr) {m : InterceptMap}
    (hm : m access msr = false) :
    setupCalls.foldl InterceptMap.update m access msr = true ↔ SetupExits access msr := by
  have hwrite : ∀ x : BitVec 32, MsrCall.on ⟨x, 0, 1⟩ access = decide (access = .write) :=
    fun x => by cases access <;> rfl
  rw [setupCalls, List.foldl_cons, List.foldl_cons, List.foldl_append, List.foldl_cons,
    List.foldl_nil, InterceptMap.update, foldl_update_map hmsr, InterceptMap.update,
    InterceptMap.update, hm, hwrite, hwrite, hwrite]
  simp only [hmsr, and_true]
  rw [SetupExits, ← mem_vmxMsrs_iff]
  split_ifs with hefer hicr hbase
  · -- the last call decides, and `MSR_EFER` is not a capability MSR
    have hnot : msrEfer ∉ vmxMsrs := by
      rw [mem_vmxMsrs_iff]
      decide
    simp [hnot, hefer]
  · simp [hicr]
  · simp [hbase]
  · simp [hefer, hicr, hbase]

end Hardware

/-- **MSR interception**, as the processor reads the page. After any sequence of calls an access
to an MSR in range exits as the last call that names the MSR says, and as before when none does;
a call for another MSR changes nothing. After `vmx_hardware_setup` on a zeroed page exactly the
accesses of `SetupExits` exit. -/
theorem msr_interception :
    (∀ (bm : MsrBitmap) (calls : List MsrCall), ∃ bm', execCalls bm calls = .ok bm' ∧
      ∀ (access : MsrAccess) (msr : BitVec 32), MsrInRange msr →
        msrExits bm' access msr =
          (lastCall calls msr).elim (msrExits bm access msr) fun c => c.on access) ∧
    (∀ (bm : MsrBitmap) (c : MsrCall), ¬MsrInRange c.msr → c.exec bm = .ok bm) ∧
    ∀ s s' : VmxState, s.msrBitmap = Vector.replicate 512 0#64 → vmxHardwareSetup s = .ok s' →
      ∀ (access : MsrAccess) (msr : BitVec 32), MsrInRange msr →
        (msrExits s'.msrBitmap access msr = true ↔ SetupExits access msr) := by
  refine ⟨fun bm calls => ?_, fun bm c hc => ?_, fun s s' hzero hsetup access msr hmsr => ?_⟩
  · obtain ⟨bm', hok, hmap⟩ := exists_execCalls bm calls
    exact ⟨bm', hok, fun access msr hmsr => by rw [hmap, foldl_update_apply calls _ hmsr]⟩
  · exact setMsrInterception_of_not_inRange hc _ _ _
  · rw [msrExits_of_hardwareSetup hsetup]
    refine foldl_setupCalls_iff hmsr ?_
    rw [msrExits_of_inRange hmsr, hzero, bitmapTest_zero]

/-- On the machine after reset, writes of `EFER` exit and reads do not. -/
theorem msr_interception_resetState :
    ∃ s', vmxHardwareSetup resetState = .ok s' ∧
      msrExits s'.msrBitmap .write msrEfer = true ∧
        ¬msrExits s'.msrBitmap .read msrEfer = true := by
  obtain ⟨s', hsetup, -⟩ : ∃ s', vmxHardwareSetup resetState = .ok s' ∧ true = true :=
    Exec.exists_of_any (by decide +kernel)
  have hexits := msr_interception.2.2 resetState s' rfl hsetup
  refine ⟨s', hsetup, (hexits .write msrEfer (by decide)).mpr (Or.inr ⟨rfl, by decide⟩), ?_⟩
  intro h
  rcases (hexits .read msrEfer (by decide)).mp h with ⟨-, hle⟩ | ⟨hwrite, -⟩
  · exact absurd hle (by decide)
  · cases hwrite

end Lvisor
