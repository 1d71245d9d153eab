import Mathlib.Data.BitVec
import Mathlib.Data.List.GetD
import Mathlib.Logic.Function.Basic

/-!
# Stack slots

Code that saves registers on a stack reads and writes 64-bit words at multiples of 8 from one
address. For such code a memory of words is a list of slots over a memory that it does not touch.

* `slot` — the address of a slot, with the arithmetic of a stack pointer;
* `withSlots` — the memory that has the words of a list in its slots;
* `withSlots_slot`, `update_withSlots` — a load and a store at a slot are those of the list;
* `withSlots_of_not`, `update_withSlots_of_not` — and elsewhere those of the memory below;
* `withSlots_slots` — every memory has what its slots hold.
-/

namespace Lvisor

variable {b a v : BitVec 64} {m : BitVec 64 → BitVec 64} {ws : List (BitVec 64)} {i j k n : ℕ}

/-- The address of slot `i` of a stack area at `b`. -/
def slot (b : BitVec 64) (i : ℕ) : BitVec 64 := b + BitVec.ofNat 64 (8 * i)

/-- The memory with the words `ws` in the slots from `b` on. -/
def withSlots (m : BitVec 64 → BitVec 64) (b : BitVec 64) (ws : List (BitVec 64)) :
    BitVec 64 → BitVec 64 := fun a =>
  if (a - b).toNat % 8 = 0 then ws.getD ((a - b).toNat / 8) (m a) else m a

theorem slot_add (b : BitVec 64) (i j : ℕ) :
    slot b i + BitVec.ofNat 64 (8 * j) = slot b (i + j) := by
  rw [slot, slot, BitVec.add_assoc, ← BitVec.ofNat_add, Nat.mul_add]

/-- Slots of an area that fits do not wrap around. -/
theorem toNat_slot_sub (hn : 8 * n ≤ 2 ^ 64) (hi : i < n) : (slot b i - b).toNat = 8 * i := by
  rw [slot, BitVec.toNat_sub, BitVec.toNat_add, BitVec.toNat_ofNat]
  omega

theorem withSlots_slot (hn : 8 * ws.length ≤ 2 ^ 64) (hi : i < ws.length) :
    withSlots m b ws (slot b i) = ws[i] := by
  rw [withSlots, toNat_slot_sub hn hi, if_pos (Nat.mul_mod_right 8 i),
    Nat.mul_div_cancel_left i (by decide), List.getD_eq_getElem _ _ hi]

theorem withSlots_of_not (ha : ∀ i < ws.length, a ≠ slot b i) : withSlots m b ws a = m a := by
  rw [withSlots]
  by_cases hmod : (a - b).toNat % 8 = 0
  · rw [if_pos hmod]
    refine List.getD_eq_default _ _ (not_lt.mp fun hlt => ha _ hlt ?_)
    rw [slot, Nat.mul_div_cancel' (Nat.dvd_of_mod_eq_zero hmod), BitVec.ofNat_toNat,
      BitVec.setWidth_eq, BitVec.add_comm, BitVec.sub_add_cancel]
  · exact if_neg hmod

/-- A store at a slot. -/
theorem update_withSlots (hn : 8 * ws.length ≤ 2 ^ 64) (hi : i < ws.length) :
    Function.update (withSlots m b ws) (slot b i) v = withSlots m b (ws.set i v) := by
  have hn' : 8 * (ws.set i v).length ≤ 2 ^ 64 := by rwa [List.length_set]
  funext a
  by_cases ha : ∃ j < ws.length, a = slot b j
  · obtain ⟨j, hj, rfl⟩ := ha
    have hj' : j < (ws.set i v).length := by rwa [List.length_set]
    rw [withSlots_slot hn' hj', List.getElem_set]
    by_cases hij : i = j
    · subst hij
      rw [Function.update_self, if_pos rfl]
    · have hne : slot b j ≠ slot b i := fun heq => hij (by
        have hsub := congrArg (fun x => (x - b).toNat) heq
        rw [toNat_slot_sub hn hj, toNat_slot_sub hn hi] at hsub
        omega)
      rw [Function.update_of_ne hne, withSlots_slot hn hj, if_neg hij]
  · have hall : ∀ j < ws.length, a ≠ slot b j := fun j hj heq => ha ⟨j, hj, heq⟩
    rw [Function.update_of_ne (hall i hi), withSlots_of_not hall, withSlots_of_not]
    rwa [List.length_set]

/-- A store elsewhere. -/
theorem update_withSlots_of_not (hn : 8 * ws.length ≤ 2 ^ 64)
    (ha : ∀ i < ws.length, a ≠ slot b i) :
    Function.update (withSlots m b ws) a v = withSlots (Function.update m a v) b ws := by
  funext x
  by_cases hx : ∃ j < ws.length, x = slot b j
  · obtain ⟨j, hj, rfl⟩ := hx
    rw [Function.update_of_ne (ha j hj).symm, withSlots_slot hn hj, withSlots_slot hn hj]
  · have hall : ∀ j < ws.length, x ≠ slot b j := fun j hj heq => hx ⟨j, hj, heq⟩
    rw [withSlots_of_not hall]
    by_cases hax : x = a
    · subst hax
      rw [Function.update_self, Function.update_self]
    · rw [Function.update_of_ne hax, Function.update_of_ne hax, withSlots_of_not hall]

/-- The words of the slots. -/
def slotWords (m : BitVec 64 → BitVec 64) (b : BitVec 64) (n : ℕ) : List (BitVec 64) :=
  (List.range n).map fun i => m (slot b i)

/-- A memory with what its slots hold is that memory. -/
theorem withSlots_slots (m : BitVec 64 → BitVec 64) (b : BitVec 64) (hn : 8 * n ≤ 2 ^ 64) :
    withSlots m b (slotWords m b n) = m := by
  have hlen : (slotWords m b n).length = n := by rw [slotWords, List.length_map, List.length_range]
  funext a
  by_cases ha : ∃ j < n, a = slot b j
  · obtain ⟨j, hj, rfl⟩ := ha
    rw [withSlots_slot (by rw [hlen]; exact hn) (by rw [hlen]; exact hj)]
    simp [slotWords]
  · exact withSlots_of_not fun j hj heq => ha ⟨j, hlen ▸ hj, heq⟩

end Lvisor
