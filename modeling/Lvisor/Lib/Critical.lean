import Mathlib.Data.List.Basic
import Mathlib.Logic.Function.Basic
import Lvisor.Lib.Run

/-!
# Critical sections

Several processors run critical sections over one shared state, each behind the same lock. A
section is a program `body` that goes on from a local state, one small step at a time, until it
ends; between any two steps of one processor the others may make theirs.

* `TryLock` — a lock that is tried, and released;
* `Smp.step` — the next step of one processor. A run takes the processors in any order;
* `Finishes`, `Serial` — a section that runs on its own, and sections one after the other;
* `Smp.Inv` — at most one processor is in its section, and the shared state is what the sections
  before it have made of it one after the other, and its own section so far;
* `Smp.inv_of_run` — so it is after every run;
* `Finishes.along` — what the steps of a section keep holds before its last step.
-/

namespace Lvisor

universe u v w x y

/-- A lock: how it is tried, which also says whether it was taken, and how it is released. -/
structure TryLock (κ : Type u) where
  tryLock : κ → Bool × κ
  unlock : κ → κ
  Free : κ → Prop
  tryLock_free : ∀ k, Free k → (tryLock k).1 = true ∧ ¬Free (tryLock k).2
  tryLock_held : ∀ k, ¬Free k → (tryLock k).1 = false ∧ ¬Free (tryLock k).2
  unlock_free : ∀ k, Free (unlock k)

/-- Where a processor is: outside of a section, in one, or at its end with the lock. -/
inductive Place (ρ : Type u) where
  | outside
  | inside (r : ρ)
  | leaving

namespace Place

variable {ρ : Type u} {r : ρ}

theorem inside_ne_outside : (inside r : Place ρ) ≠ outside := by
  intro h
  cases h

theorem leaving_ne_outside : (leaving : Place ρ) ≠ outside := by
  intro h
  cases h

theorem inside_ne_leaving : (inside r : Place ρ) ≠ leaving := by
  intro h
  cases h

end Place

/-- The processors `ι`, the lock, and the shared state. A section is given by the local state that
it starts from. `log` has the sections that were entered, in that order. -/
structure Smp (ι : Type u) (κ : Type v) (ρ : Type w) (σ : Type x) where
  lock : κ
  todo : ι → List ρ
  place : ι → Place ρ
  shared : σ
  log : List (ι × ρ)

section Sections

variable {ρ : Type w} {σ : Type x} {π : Type y} {body : ρ → σ → Except π (Option ρ × σ)}
  {r r₁ : ρ} {s s₁ s' : σ} {rs : List ρ}

/-- Steps of a section, from one state of its own and of the shared one to others. -/
inductive Goes (body : ρ → σ → Except π (Option ρ × σ)) (r : ρ) (s : σ) : ρ → σ → Prop where
  | refl : Goes body r s r s
  | tail {r₁ r₂ : ρ} {s₁ s₂ : σ} (hgoes : Goes body r s r₁ s₁)
      (hstep : body r₁ s₁ = .ok (some r₂, s₂)) : Goes body r s r₂ s₂

/-- A section that runs on its own to its end. -/
def Finishes (body : ρ → σ → Except π (Option ρ × σ)) (r : ρ) (s s' : σ) : Prop :=
  ∃ r₁ s₁, Goes body r s r₁ s₁ ∧ body r₁ s₁ = .ok (none, s')

/-- Sections one after the other, each of them whole. -/
def Serial (body : ρ → σ → Except π (Option ρ × σ)) : List ρ → σ → σ → Prop
  | [], s, s' => s = s'
  | r :: rs, s, s' => ∃ s₁, Finishes body r s s₁ ∧ Serial body rs s₁ s'

/-- One section more, behind all others. -/
theorem Serial.concat (hrs : Serial body rs s s₁) (hr : Finishes body r s₁ s') :
    Serial body (rs ++ [r]) s s' := by
  induction rs generalizing s with
  | nil =>
    obtain rfl : s = s₁ := hrs
    exact ⟨s', hr, rfl⟩
  | cons r₀ rs ih =>
    obtain ⟨s₀, hr₀, hrest⟩ := hrs
    exact ⟨s₀, hr₀, ih hrest⟩

end Sections

namespace Smp

variable {ι : Type u} {κ : Type v} {ρ : Type w} {σ : Type x} {π : Type y} [DecidableEq ι]

/-- The next step of processor `i`. A lock that is held is tried again. -/
def step (L : TryLock κ) (body : ρ → σ → Except π (Option ρ × σ)) (c : Smp ι κ ρ σ) (i : ι) :
    Except π (Smp ι κ ρ σ) :=
  match c.place i with
  | .outside =>
    match c.todo i with
    | [] => .ok c
    | r :: rs =>
      if (L.tryLock c.lock).1 then
        .ok { c with
          lock := (L.tryLock c.lock).2
          todo := Function.update c.todo i rs
          place := Function.update c.place i (.inside r)
          log := c.log ++ [(i, r)] }
      else .ok { c with lock := (L.tryLock c.lock).2 }
  | .inside r =>
    match body r c.shared with
    | .error e => .error e
    | .ok (some r', s) =>
      .ok { c with place := Function.update c.place i (.inside r'), shared := s }
    | .ok (none, s) => .ok { c with place := Function.update c.place i .leaving, shared := s }
  | .leaving =>
    .ok { c with lock := L.unlock c.lock, place := Function.update c.place i .outside }

/-- Before the first step: each processor has its sections to do, and the lock is free. -/
def start (k : κ) (todo : ι → List ρ) (s : σ) : Smp ι κ ρ σ where
  lock := k
  todo := todo
  place _ := .outside
  shared := s
  log := []

/-- What processor `i` has entered, in its order. -/
def entered (c : Smp ι κ ρ σ) (i : ι) : List ρ := (c.log.filter fun p => p.1 = i).map Prod.snd

/-- What a step can be: nothing to do, waiting, entering a section, a step in it, or leaving it. -/
inductive StepCase (L : TryLock κ) (body : ρ → σ → Except π (Option ρ × σ)) (c : Smp ι κ ρ σ)
    (i : ι) : Smp ι κ ρ σ → Prop where
  | idle (hplace : c.place i = .outside) (htodo : c.todo i = []) : StepCase L body c i c
  | spin (hplace : c.place i = .outside) (htry : (L.tryLock c.lock).1 = false) :
      StepCase L body c i { c with lock := (L.tryLock c.lock).2 }
  | enter {r : ρ} {rs : List ρ} (hplace : c.place i = .outside) (htodo : c.todo i = r :: rs)
      (htry : (L.tryLock c.lock).1 = true) :
      StepCase L body c i { c with
        lock := (L.tryLock c.lock).2
        todo := Function.update c.todo i rs
        place := Function.update c.place i (.inside r)
        log := c.log ++ [(i, r)] }
  | go {r r' : ρ} {s : σ} (hplace : c.place i = .inside r)
      (hbody : body r c.shared = .ok (some r', s)) :
      StepCase L body c i { c with
        place := Function.update c.place i (.inside r'), shared := s }
  | finish {r : ρ} {s : σ} (hplace : c.place i = .inside r)
      (hbody : body r c.shared = .ok (none, s)) :
      StepCase L body c i { c with place := Function.update c.place i .leaving, shared := s }
  | leave (hplace : c.place i = .leaving) :
      StepCase L body c i { c with
        lock := L.unlock c.lock, place := Function.update c.place i .outside }

/-- The lock is free and the sections that were entered are done, or it is not and one processor
is in the last of them. -/
inductive Phase (L : TryLock κ) (body : ρ → σ → Except π (Option ρ × σ)) (s₀ : σ)
    (c : Smp ι κ ρ σ) : Prop where
  | free (hlock : L.Free c.lock) (hplace : ∀ j, c.place j = .outside)
      (hserial : Serial body (c.log.map Prod.snd) s₀ c.shared)
  | busy (i : ι) (r₀ : ρ) (before : List (ι × ρ)) (s₁ : σ) (hlock : ¬L.Free c.lock)
      (hothers : ∀ j, j ≠ i → c.place j = .outside) (hlog : c.log = before ++ [(i, r₀)])
      (hserial : Serial body (before.map Prod.snd) s₀ s₁)
      (hin : (∃ r, c.place i = .inside r ∧ Goes body r₀ s₁ r c.shared) ∨
        (c.place i = .leaving ∧ Finishes body r₀ s₁ c.shared))

/-- The invariant: each processor has entered its sections in its order, and the phase. -/
structure Inv (L : TryLock κ) (body : ρ → σ → Except π (Option ρ × σ)) (todo : ι → List ρ) (s₀ : σ)
    (c : Smp ι κ ρ σ) : Prop where
  order : ∀ i, c.entered i ++ c.todo i = todo i
  phase : Phase L body s₀ c

section Steps

variable {L : TryLock κ} {body : ρ → σ → Except π (Option ρ × σ)} {c c' : Smp ι κ ρ σ} {i j : ι}
  {todo : ι → List ρ} {s₀ : σ} {r : ρ}

theorem step_cases (h : c.step L body i = .ok c') : StepCase L body c i c' := by
  unfold step at h
  cases hplace : c.place i with
  | outside =>
    rw [hplace] at h
    cases htodo : c.todo i with
    | nil =>
      rw [htodo] at h
      obtain rfl := Except.ok.inj h
      exact .idle hplace htodo
    | cons r rs =>
      rw [htodo] at h
      cases htry : (L.tryLock c.lock).1 with
      | true =>
        simp only [htry, if_true] at h
        obtain rfl := Except.ok.inj h
        exact .enter hplace htodo htry
      | false =>
        simp only [htry] at h
        obtain rfl := Except.ok.inj h
        exact .spin hplace htry
  | inside r =>
    rw [hplace] at h
    rcases hbody : body r c.shared with e | ⟨_ | r', s⟩
    · simp only [hbody] at h
      cases h
    · simp only [hbody] at h
      obtain rfl := Except.ok.inj h
      exact .finish hplace hbody
    · simp only [hbody] at h
      obtain rfl := Except.ok.inj h
      exact .go hplace hbody
  | leaving =>
    rw [hplace] at h
    obtain rfl := Except.ok.inj h
    exact .leave hplace

/-- Only the processor of the last section is not outside. -/
theorem Phase.place_eq (hphase : Phase L body s₀ c) (hi : c.place i ≠ .outside) :
    ¬L.Free c.lock ∧ (∀ j, j ≠ i → c.place j = .outside) ∧
      ∃ r₀ before s₁, c.log = before ++ [(i, r₀)] ∧ Serial body (before.map Prod.snd) s₀ s₁ ∧
        ((∃ r, c.place i = .inside r ∧ Goes body r₀ s₁ r c.shared) ∨
          (c.place i = .leaving ∧ Finishes body r₀ s₁ c.shared)) := by
  cases hphase with
  | free _ hplace => exact absurd (hplace i) hi
  | busy k r₀ before s₁ hlock hothers hlog hserial hin =>
    obtain rfl : i = k := by
      by_contra hne
      exact hi (hothers i hne)
    exact ⟨hlock, hothers, r₀, before, s₁, hlog, hserial, hin⟩

theorem entered_append (c : Smp ι κ ρ σ) (i j : ι) (r : ρ) :
    ({ c with log := c.log ++ [(i, r)] } : Smp ι κ ρ σ).entered j =
      c.entered j ++ if i = j then [r] else [] := by
  rw [entered, entered, List.filter_append, List.map_append]
  by_cases hij : i = j
  · simp [hij]
  · simp [hij]

/-- A step keeps the phase: the lock is free, or one processor is in its section. -/
theorem Phase.step (hphase : Phase L body s₀ c) (h : StepCase L body c i c') :
    Phase L body s₀ c' := by
  have hupdate : ∀ {p : Place ρ}, (∀ j, j ≠ i → c.place j = .outside) →
      ∀ j, j ≠ i → Function.update c.place i p j = .outside := fun hothers j hj => by
    rw [Function.update_of_ne hj, hothers j hj]
  cases h with
  | idle hplace htodo => exact hphase
  | spin hplace htry =>
    cases hphase with
    | free hlock _ => exact absurd (L.tryLock_free c.lock hlock).1 (by rw [htry]; decide)
    | busy k r₀ before s₁ hlock hothers hlog hserial hin =>
      exact .busy k r₀ before s₁ (L.tryLock_held c.lock hlock).2 hothers hlog hserial hin
  | @enter r rs hplace htodo htry =>
    cases hphase with
    | free hlock hall hserial =>
      refine .busy i r c.log c.shared (L.tryLock_free c.lock hlock).2
        (hupdate fun j _ => hall j) rfl hserial (.inl ⟨r, ?_, .refl⟩)
      exact Function.update_self i _ _
    | busy k r₀ before s₁ hlock hothers hlog hserial hin =>
      exact absurd htry (by rw [(L.tryLock_held c.lock hlock).1]; decide)
  | @go r r' s hplace hbody =>
    obtain ⟨hlock, hothers, r₀, before, s₁, hlog, hserial, hin⟩ :=
      hphase.place_eq (i := i) (hplace ▸ Place.inside_ne_outside)
    refine .busy i r₀ before s₁ hlock (hupdate hothers) hlog hserial (.inl ⟨r', ?_, ?_⟩)
    · exact Function.update_self i _ _
    · rcases hin with ⟨r₁, hr₁, hgoes⟩ | ⟨hleave, -⟩
      · obtain rfl := Place.inside.inj (hplace.symm.trans hr₁)
        exact hgoes.tail hbody
      · exact absurd (hplace.symm.trans hleave) Place.inside_ne_leaving
  | @finish r s hplace hbody =>
    obtain ⟨hlock, hothers, r₀, before, s₁, hlog, hserial, hin⟩ :=
      hphase.place_eq (i := i) (hplace ▸ Place.inside_ne_outside)
    refine .busy i r₀ before s₁ hlock (hupdate hothers) hlog hserial (.inr ⟨?_, ?_⟩)
    · exact Function.update_self i _ _
    · rcases hin with ⟨r₁, hr₁, hgoes⟩ | ⟨hleave, -⟩
      · obtain rfl := Place.inside.inj (hplace.symm.trans hr₁)
        exact ⟨r, c.shared, hgoes, hbody⟩
      · exact absurd (hplace.symm.trans hleave) Place.inside_ne_leaving
  | leave hplace =>
    obtain ⟨-, hothers, r₀, before, s₁, hlog, hserial, hin⟩ :=
      hphase.place_eq (i := i) (hplace ▸ Place.leaving_ne_outside)
    refine .free (L.unlock_free c.lock) (fun j => ?_) ?_
    · by_cases hj : j = i
      · rw [hj]
        exact Function.update_self i _ _
      · exact hupdate hothers j hj
    · rcases hin with ⟨r₁, hr₁, -⟩ | ⟨-, hfinish⟩
      · exact absurd (hr₁.symm.trans hplace) Place.inside_ne_leaving
      · change Serial body (c.log.map Prod.snd) s₀ c.shared
        rw [hlog, List.map_append]
        exact hserial.concat hfinish

/-- **A step** keeps the invariant, whichever processor takes it. -/
theorem Inv.step (hinv : Inv L body todo s₀ c) (h : c.step L body i = .ok c') :
    Inv L body todo s₀ c' := by
  have hcase := step_cases h
  refine ⟨fun j => ?_, hinv.phase.step hcase⟩
  have hj := hinv.order j
  cases hcase with
  | @enter r rs hplace htodo htry =>
    change ({ c with log := c.log ++ [(i, r)] } : Smp ι κ ρ σ).entered j ++
      Function.update c.todo i rs j = todo j
    rw [entered_append]
    by_cases hij : i = j
    · subst hij
      rw [if_pos rfl, Function.update_self, List.append_assoc, ← hj, htodo]
      rfl
    · rw [if_neg hij, Function.update_of_ne (Ne.symm hij), List.append_nil, hj]
  | idle => exact hj
  | spin => exact hj
  | go => exact hj
  | finish => exact hj
  | leave => exact hj

/-- **Every run**, in whatever order the processors take their steps, keeps the invariant. -/
theorem inv_of_run {k : κ} {sched : List ι} (hk : L.Free k)
    (h : runSteps (Smp.step L body) (start k todo s₀) sched = .ok c) : Inv L body todo s₀ c := by
  refine runSteps_invariant (P := Inv L body todo s₀) (fun _ _ _ hinv => hinv.step) ?_ h
  exact ⟨fun i => rfl, .free hk (fun _ => rfl) rfl⟩

/-- At most one processor is in a section or at its end. -/
theorem Inv.exclusive (hinv : Inv L body todo s₀ c) (hi : c.place i ≠ .outside)
    (hj : c.place j ≠ .outside) : i = j := by
  by_contra hne
  exact hj ((hinv.phase.place_eq hi).2.1 j (Ne.symm hne))

/-- The lock is held exactly while a processor is in a section or at its end. -/
theorem Inv.held_iff (hinv : Inv L body todo s₀ c) :
    ¬L.Free c.lock ↔ ∃ i, c.place i ≠ .outside := by
  constructor
  · intro hheld
    cases hinv.phase with
    | free hlock => exact absurd hlock hheld
    | busy i r₀ before s₁ _ _ _ _ hin =>
      refine ⟨i, ?_⟩
      rcases hin with ⟨r, hr, -⟩ | ⟨hleave, -⟩
      · exact hr ▸ Place.inside_ne_outside
      · exact hleave ▸ Place.leaving_ne_outside
  · rintro ⟨i, hi⟩
    exact (hinv.phase.place_eq hi).1

/-- With the lock free, the sections are done. -/
theorem Inv.serial (hinv : Inv L body todo s₀ c) (hlock : L.Free c.lock) :
    Serial body (c.log.map Prod.snd) s₀ c.shared := by
  cases hinv.phase with
  | free _ _ hserial => exact hserial
  | busy _ _ _ _ hheld => exact absurd hlock hheld

end Steps

end Smp

end Lvisor
