import Mathlib.Data.List.Basic

/-!
# Runs of a fallible step function

A component that takes one input at a time and may refuse one is a step function
`step : σ → ε → Except π σ`. A *run* feeds it a list of inputs and stops at the
first refusal. The rules that carry every run-level result:

* `runSteps_invariant` — what each accepted step preserves, every accepted run
  preserves;
* `runSteps_invariant_along` — the same, when a step preserves the property only
  under a condition on the state and the input, for the runs all of whose steps
  meet the condition (`Along`); `forall_reached_iff_along` when the condition is exact.

Every prefix of a run is a run, so a statement about the last state of every run
is a statement about every state reached.
-/

namespace Lvisor

universe u v w

variable {σ : Type u} {ε : Type v} {π : Type w}

/-- Feed the inputs one at a time; the first refusal ends the run. -/
def runSteps (step : σ → ε → Except π σ) : σ → List ε → Except π σ
  | s, [] => .ok s
  | s, e :: es =>
    match step s e with
    | .error p => .error p
    | .ok s' => runSteps step s' es

variable {step : σ → ε → Except π σ}

@[simp] theorem runSteps_nil (s : σ) : runSteps step s [] = .ok s := rfl

/-- A non-empty run is accepted when its first step and the rest of it are. -/
theorem runSteps_cons_eq_ok {s s' : σ} {e : ε} {es : List ε} :
    runSteps step s (e :: es) = .ok s' ↔
      ∃ s₁, step s e = .ok s₁ ∧ runSteps step s₁ es = .ok s' := by
  rw [runSteps]
  rcases step s e with p | s₁
  · simp
  · simp

/-- Runs compose. -/
theorem runSteps_append_eq_ok {s s' : σ} {es fs : List ε} :
    runSteps step s (es ++ fs) = .ok s' ↔
      ∃ s₁, runSteps step s es = .ok s₁ ∧ runSteps step s₁ fs = .ok s' := by
  induction es generalizing s with
  | nil => simp
  | cons e es ih =>
    rw [List.cons_append, runSteps_cons_eq_ok]
    constructor
    · rintro ⟨s₁, h₁, h⟩
      obtain ⟨s₂, h₂, h₃⟩ := ih.mp h
      exact ⟨s₂, runSteps_cons_eq_ok.mpr ⟨s₁, h₁, h₂⟩, h₃⟩
    · rintro ⟨s₂, h, h₃⟩
      obtain ⟨s₁, h₁, h₂⟩ := runSteps_cons_eq_ok.mp h
      exact ⟨s₁, h₁, ih.mpr ⟨s₂, h₂, h₃⟩⟩

/-- A run goes on from where a first part of it ends. -/
theorem runSteps_append_of_ok {s s' : σ} {es fs : List ε} (h : runSteps step s es = .ok s') :
    runSteps step s (es ++ fs) = runSteps step s' fs := by
  induction es generalizing s with
  | nil =>
    obtain rfl := Except.ok.inj h
    rfl
  | cons e es ih =>
    obtain ⟨s₁, h₁, h₂⟩ := runSteps_cons_eq_ok.mp h
    rw [List.cons_append, runSteps, h₁]
    exact ih h₂

/-- **Invariant rule**: what every accepted step preserves holds at the end of
every accepted run. -/
theorem runSteps_invariant {P : σ → Prop}
    (hstep : ∀ s e s', P s → step s e = .ok s' → P s') :
    ∀ {es : List ε} {s s' : σ}, P s → runSteps step s es = .ok s' → P s' := by
  intro es
  induction es with
  | nil =>
    intro s s' hs h
    obtain rfl := Except.ok.inj h
    exact hs
  | cons e es ih =>
    intro s s' hs h
    obtain ⟨s₁, h₁, h₂⟩ := runSteps_cons_eq_ok.mp h
    exact ih (hstep s e s₁ hs h₁) h₂

/-- Every step of the run from `s` on `es` meets the condition `C`. -/
def Along (step : σ → ε → Except π σ) (C : σ → ε → Prop) : σ → List ε → Prop
  | _, [] => True
  | s, e :: es => C s e ∧ ∀ s', step s e = .ok s' → Along step C s' es

/-- The condition is met at every step that the run makes or attempts. -/
theorem along_iff {C : σ → ε → Prop} :
    ∀ {es : List ε} {s : σ}, Along step C s es ↔
      ∀ es' e s', es' ++ [e] <+: es → runSteps step s es' = .ok s' → C s' e := by
  intro es
  induction es with
  | nil =>
    intro s
    refine iff_of_true trivial fun es' e s' hes => ?_
    exact absurd (List.prefix_nil.mp hes) (by simp)
  | cons e es ih =>
    intro s
    constructor
    · rintro ⟨hC, hrest⟩ es' e' s' hes h
      cases es' with
      | nil =>
        obtain ⟨rfl, -⟩ := List.cons_prefix_cons.mp hes
        obtain rfl := Except.ok.inj h
        exact hC
      | cons e₁ es' =>
        obtain ⟨rfl, hes'⟩ := List.cons_prefix_cons.mp hes
        obtain ⟨s₁, h₁, h₂⟩ := runSteps_cons_eq_ok.mp h
        exact ih.mp (hrest s₁ h₁) es' e' s' hes' h₂
    · intro hall
      refine ⟨hall [] e s (List.cons_prefix_cons.mpr ⟨rfl, List.nil_prefix⟩) rfl, fun s₁ h₁ => ?_⟩
      refine ih.mpr fun es' e' s' hes' h₂ => ?_
      exact hall (e :: es') e' s' (List.cons_prefix_cons.mpr ⟨rfl, hes'⟩)
        (runSteps_cons_eq_ok.mpr ⟨s₁, h₁, h₂⟩)

/-- A condition on the inputs alone. -/
theorem along_of_forall {C : ε → Prop} :
    ∀ {es : List ε} {s : σ}, (∀ e ∈ es, C e) → Along step (fun _ e => C e) s es := by
  intro es
  induction es with
  | nil => exact fun _ => trivial
  | cons e es ih =>
    intro s h
    exact ⟨h e List.mem_cons_self, fun _ _ => ih fun e' he' => h e' (List.mem_cons_of_mem e he')⟩

/-- **Conditional invariant rule**: for the runs whose steps all meet `C`. -/
theorem runSteps_invariant_along {P : σ → Prop} {C : σ → ε → Prop}
    (hstep : ∀ s e s', P s → C s e → step s e = .ok s' → P s') :
    ∀ {es : List ε} {s s' : σ}, P s → Along step C s es →
      runSteps step s es = .ok s' → P s' := by
  intro es
  induction es with
  | nil =>
    intro s s' hs _ h
    obtain rfl := Except.ok.inj h
    exact hs
  | cons e es ih =>
    intro s s' hs hC h
    obtain ⟨s₁, h₁, h₂⟩ := runSteps_cons_eq_ok.mp h
    exact ih (hstep s e s₁ hs hC.1 h₁) (hC.2 s₁ h₁) h₂

/-- **Exact condition rule**: where a step keeps `P` exactly when it meets `C`, and a step
that does not meet `C` is accepted, `P` holds in every state that a run reaches exactly
when all its steps meet `C`. `I` is an invariant that the argument may use. -/
theorem forall_reached_iff_along {P I : σ → Prop} {C : σ → ε → Prop}
    (hI : ∀ s e s', I s → step s e = .ok s' → I s')
    (hstep : ∀ s e s', I s → P s → step s e = .ok s' → (P s' ↔ C s e))
    (haccept : ∀ s e, I s → P s → ¬C s e → ∃ s', step s e = .ok s') :
    ∀ {es : List ε} {s : σ}, I s → P s →
      ((∀ es' s', es' <+: es → runSteps step s es' = .ok s' → P s') ↔ Along step C s es) := by
  intro es
  induction es with
  | nil =>
    intro s _ hP
    refine iff_of_true (fun es' s' hes h => ?_) trivial
    obtain rfl := List.prefix_nil.mp hes
    obtain rfl := Except.ok.inj h
    exact hP
  | cons e es ih =>
    intro s hs hP
    constructor
    · intro hall
      have hC : C s e := by
        by_contra hC
        obtain ⟨s₁, h₁⟩ := haccept s e hs hP hC
        have hP₁ := hall [e] s₁ ⟨es, rfl⟩ (runSteps_cons_eq_ok.mpr ⟨s₁, h₁, rfl⟩)
        exact hC ((hstep s e s₁ hs hP h₁).mp hP₁)
      refine ⟨hC, fun s₁ h₁ => ?_⟩
      refine (ih (hI s e s₁ hs h₁) ((hstep s e s₁ hs hP h₁).mpr hC)).mp fun es' s' hes h => ?_
      exact hall (e :: es') s' (List.cons_prefix_cons.mpr ⟨rfl, hes⟩)
        (runSteps_cons_eq_ok.mpr ⟨s₁, h₁, h⟩)
    · rintro ⟨hC, hrest⟩ es' s' hes h
      cases es' with
      | nil =>
        obtain rfl := Except.ok.inj h
        exact hP
      | cons e' es' =>
        obtain ⟨rfl, hes'⟩ := List.cons_prefix_cons.mp hes
        obtain ⟨s₁, h₁, h₂⟩ := runSteps_cons_eq_ok.mp h
        have hP₁ := (hstep s e' s₁ hs hP h₁).mpr hC
        exact (ih (hI s e' s₁ hs h₁) hP₁).mpr (hrest s₁ h₁) es' s' hes' h₂

end Lvisor
