import Mathlib.Data.List.Basic

namespace PgRouter.Library.Runs

variable {σ ε : Type}

/-- A run of a transition function in which every step meets a condition on the state before it. -/
inductive Run (step : σ → ε → Option σ) (guard : σ → ε → Bool) : σ → List ε → σ → Prop
  | nil (s : σ) : Run step guard s [] s
  | cons {s t u : σ} {e : ε} {es : List ε} :
      guard s e = true → step s e = some t → Run step guard t es u → Run step guard s (e :: es) u

def anyStep : σ → ε → Bool := fun _ _ ↦ true

variable {step : σ → ε → Option σ} {guard : σ → ε → Bool}

/-- What every allowed step keeps, a run keeps. -/
theorem Run.invariant {inv : σ → Prop}
    (hstep : ∀ s e t, inv s → guard s e = true → step s e = some t → inv t)
    {s t : σ} {es : List ε} (h : Run step guard s es t) (hs : inv s) : inv t := by
  induction h with
  | nil => exact hs
  | cons hg he _ ih => exact ih (hstep _ _ _ hs hg he)

theorem Run.split {s t : σ} {es es' : List ε} (h : Run step guard s (es ++ es') t) :
    ∃ u, Run step guard s es u ∧ Run step guard u es' t := by
  induction es generalizing s with
  | nil => exact ⟨s, .nil s, h⟩
  | cons e es ih =>
    cases h with
    | cons hg he h =>
      obtain ⟨u, hu, ht⟩ := ih h
      exact ⟨u, .cons hg he hu, ht⟩

theorem Run.snoc {s t u : σ} {es : List ε} {e : ε} (h : Run step guard s es t) (hg : guard t e = true)
    (he : step t e = some u) : Run step guard s (es ++ [e]) u := by
  induction h with
  | nil => exact .cons hg he (.nil u)
  | cons hg' he' _ ih => exact .cons hg' he' (ih hg he)

theorem Run.of_events {guard' : σ → ε → Bool} {s t : σ} {es : List ε} (h : Run step guard s es t)
    (hes : ∀ e ∈ es, ∀ s, guard' s e = true) : Run step guard' s es t := by
  induction h with
  | nil s => exact .nil s
  | cons _ he _ ih =>
    exact .cons (hes _ List.mem_cons_self _) he (ih fun e h ↦ hes e (List.mem_cons_of_mem _ h))

def exec (step : σ → ε → Option σ) (guard : σ → ε → Bool) : σ → List ε → Option σ
  | s, [] => some s
  | s, e :: es => if guard s e then (step s e).bind fun t ↦ exec step guard t es else none

theorem run_of_exec {s t : σ} {es : List ε} (h : exec step guard s es = some t) :
    Run step guard s es t := by
  induction es generalizing s with
  | nil =>
    obtain rfl : s = t := Option.some.inj h
    exact .nil s
  | cons e es ih =>
    rw [exec] at h
    split at h
    · obtain ⟨u, hu, ht⟩ := Option.bind_eq_some_iff.mp h
      exact .cons ‹_› hu (ih ht)
    · cases h

theorem exists_run_of_exec {s : σ} {es : List ε} {P : σ → Bool} (h : (exec step guard s es).any P = true) :
    ∃ t, Run step guard s es t ∧ P t = true := by
  cases hexec : exec step guard s es with
  | none =>
    rw [hexec] at h
    cases h
  | some t =>
    rw [hexec] at h
    exact ⟨t, run_of_exec hexec, h⟩

end PgRouter.Library.Runs
