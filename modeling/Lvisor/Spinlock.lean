import Lvisor.Lib.Critical
import Lvisor.Machine

/-!
# Spinlocks (`sys/spinlock.h`)

A spinlock is a flag that one instruction reads and sets. `spin_lock` tries that until the flag
was clear.

* `spinlock` — the lock of `spin_trylock` and `spin_unlock`; a step of a processor that finds it
  held is one turn of the loop of `spin_lock`;
* `spinlock_sections` — code between `spin_lock` and `spin_unlock` runs on one processor at a
  time, and what it does is what it does when nothing else runs.

The steps of the processors come one after the other: the order of the accesses of one processor
inside of a section is of no matter for another one, which acquires the lock after its release.
-/

namespace Lvisor

/-- `struct spinlock`: an atomic flag. -/
structure Spinlock where
  val : Bool
  deriving DecidableEq, Repr

/-- `SPINLOCK_INIT`, and `spinlock_init`: the flag is clear. -/
def spinlockInit : Spinlock := ⟨false⟩

/-- `atomic_flag_test_and_set_explicit`: the flag before, and the flag set. -/
def atomicFlagTestAndSet (lock : Spinlock) : Bool × Spinlock := (lock.val, ⟨true⟩)

/-- `spin_trylock`: whether the flag was clear, and the flag set. -/
def spinTrylock (lock : Spinlock) : Bool × Spinlock :=
  let (val, lock) := atomicFlagTestAndSet lock
  (!val, lock)

/-- `spin_unlock`: the flag is clear, whatever it was. -/
def spinUnlock (_ : Spinlock) : Spinlock := ⟨false⟩

/-- A lock that is clear is taken. -/
theorem spinTrylock_clear (lock : Spinlock) (h : lock.val = false) :
    (spinTrylock lock).1 = true ∧ ¬(spinTrylock lock).2.val = false := by
  rw [spinTrylock, atomicFlagTestAndSet, h]
  decide

/-- A lock that is set is not taken, and stays set. -/
theorem spinTrylock_set (lock : Spinlock) (h : ¬lock.val = false) :
    (spinTrylock lock).1 = false ∧ ¬(spinTrylock lock).2.val = false := by
  rw [spinTrylock, atomicFlagTestAndSet, Bool.eq_true_of_not_eq_false h]
  decide

/-- The lock that `spin_lock` and `spin_unlock` make, for `Lvisor.Lib.Critical`. -/
def spinlock : TryLock Spinlock where
  tryLock := spinTrylock
  unlock := spinUnlock
  Free lock := lock.val = false
  tryLock_free := spinTrylock_clear
  tryLock_held := spinTrylock_set
  unlock_free _ := rfl

/-- **Sections behind a spinlock.** In every run, one processor at most is in its section, and it
holds the lock; each processor goes through its sections in their order; and with the lock
released the shared state is what the sections make of it one after the other, in the order in
which they got the lock. -/
theorem spinlock_sections {ι ρ σ : Type} [DecidableEq ι] (body : ρ → σ → Exec (Option ρ × σ))
    (todo : ι → List ρ) (s₀ : σ) (sched : List ι) (m : Smp ι Spinlock ρ σ)
    (hrun : runSteps (Smp.step spinlock body) (Smp.start spinlockInit todo s₀) sched = .ok m) :
    (∀ i j, m.place i ≠ .outside → m.place j ≠ .outside → i = j) ∧
      (m.lock.val = true ↔ ∃ i, m.place i ≠ .outside) ∧
      (∀ i, m.entered i ++ m.todo i = todo i) ∧
      (m.lock.val = false → Serial body (m.log.map Prod.snd) s₀ m.shared) := by
  have hinv : Smp.Inv spinlock body todo s₀ m := Smp.inv_of_run rfl hrun
  refine ⟨fun i j => hinv.exclusive, ?_, hinv.order, hinv.serial⟩
  rw [← hinv.held_iff]
  exact (Bool.not_eq_false m.lock.val).symm ▸ Iff.rfl

/-- A counter that two processors increment, in two steps each. -/
def twoSteps : Option ℕ → ℕ → Exec (Option (Option ℕ) × ℕ)
  | none, n => .ok (some (some n), n)
  | some k, _ => .ok (none, k + 1)

/-- Both increments are counted, although the second processor tries in the middle of the
first one. -/
theorem spinlock_sections_counter :
    ∃ m, runSteps (Smp.step spinlock twoSteps) (Smp.start spinlockInit (fun _ : Bool => [none]) 0)
        [true, true, false, true, true, false, false, false, false] = .ok m ∧
      m.shared = 2 ∧ Serial twoSteps (m.log.map Prod.snd) 0 m.shared := by
  refine ⟨_, rfl, rfl, ?_⟩
  exact (spinlock_sections twoSteps (fun _ : Bool => [none]) 0
    [true, true, false, true, true, false, false, false, false] _ rfl).2.2.2 rfl

end Lvisor
