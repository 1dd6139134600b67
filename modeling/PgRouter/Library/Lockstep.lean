import Mathlib.Data.List.Forall2
import PgRouter.Library.Records

namespace PgRouter.Library.Lockstep

open Runs Records

variable {σ τ ε α β : Type} {step : σ → ε → Option (σ × α)} {step' : τ → ε → Option (τ × β)}
  {guard : Record σ ε α → ε → Bool} {Rel : σ → τ → Prop} {Good : Entry σ ε α → Entry τ ε β → Prop}

section

variable (hkeep : ∀ c e r t, Rel c.current t → guard c e = true → step c.current e = some r →
  ∃ r', step' t e = some r' ∧ Rel r.1 r'.1 ∧ Good ⟨c.current, e, r.1, r.2⟩ ⟨t, e, r'.1, r'.2⟩)

include hkeep

/-- A second machine follows the first one event by event. -/
theorem lockstep_from
    {c₀ c : Record σ ε α} {es : List ε} (hrun : Run (recorded step) guard c₀ es c)
    (d₀ : Record τ ε β) (hrel : Rel c₀.current d₀.current) (hpast : List.Forall₂ Good c₀.past d₀.past) :
    ∃ d, Run (recorded step') anyStep d₀ es d ∧ Rel c.current d.current ∧ List.Forall₂ Good c.past d.past := by
  induction hrun generalizing d₀ with
  | nil => exact ⟨d₀, .nil d₀, hrel, hpast⟩
  | cons hguard hstep _ ih =>
    obtain ⟨r, hr, rfl⟩ := Option.map_eq_some_iff.mp hstep
    obtain ⟨r', hr', hrel', hgood⟩ := hkeep _ _ r d₀.current hrel hguard hr
    obtain ⟨d, hrun', hd⟩ := ih ⟨r'.1, _⟩ hrel' (List.rel_append hpast (.cons hgood .nil))
    exact ⟨d, .cons rfl (Option.map_eq_some_iff.mpr ⟨r', hr', rfl⟩) hrun', hd⟩

theorem lockstep {s : σ} {t : τ} (hrel : Rel s t) {c : Record σ ε α} {es : List ε}
    (hrun : Run (recorded step) guard (start s) es c) :
    ∃ d, Run (recorded step') anyStep (start t) es d ∧ List.Forall₂ Good c.past d.past := by
  obtain ⟨d, hrun', -, hpast⟩ := lockstep_from hkeep hrun (start t) hrel .nil
  exact ⟨d, hrun', hpast⟩

end

end PgRouter.Library.Lockstep
