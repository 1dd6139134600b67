import PgRouter.Library.Runs

namespace PgRouter.Library.Records

open Runs

variable {σ ε α : Type}

/-- One step of a machine: the state before it, the event, the state after it and what it put out. -/
structure Entry (σ ε α : Type) where
  before : σ
  event : ε
  after : σ
  output : α

/-- A machine with the record of its steps. -/
structure Record (σ ε α : Type) where
  current : σ
  past : List (Entry σ ε α)

def start (s : σ) : Record σ ε α := ⟨s, []⟩

def recorded (step : σ → ε → Option (σ × α)) (c : Record σ ε α) (e : ε) : Option (Record σ ε α) :=
  (step c.current e).map fun r ↦ ⟨r.1, c.past ++ [⟨c.current, e, r.1, r.2⟩]⟩

variable {step : σ → ε → Option (σ × α)} {guard : Record σ ε α → ε → Bool}

theorem recorded_invariant {Inv : Record σ ε α → Prop} {s : σ} {es : List ε} {c : Record σ ε α}
    (hkeep : ∀ c e r, Inv c → guard c e = true → step c.current e = some r →
      Inv ⟨r.1, c.past ++ [⟨c.current, e, r.1, r.2⟩]⟩)
    (hstart : Inv (start s)) (hrun : Run (recorded step) guard (start s) es c) : Inv c := by
  refine hrun.invariant (fun c e c' hc hguard hstep ↦ ?_) hstart
  obtain ⟨r, hr, rfl⟩ := Option.map_eq_some_iff.mp hstep
  exact hkeep c e r hc hguard hr

/-- What an invariant of the record makes true of each new entry, given the entries before it, is true
of every entry of a run. -/
theorem recorded_each {Inv : Record σ ε α → Prop}
    {Good : List (Entry σ ε α) → Entry σ ε α → Prop} {s : σ} {es : List ε} {c : Record σ ε α}
    (hkeep : ∀ c e r, Inv c → guard c e = true → step c.current e = some r →
      Inv ⟨r.1, c.past ++ [⟨c.current, e, r.1, r.2⟩]⟩ ∧ Good c.past ⟨c.current, e, r.1, r.2⟩)
    (hstart : Inv (start s)) (hrun : Run (recorded step) guard (start s) es c)
    {before after : List (Entry σ ε α)} {x : Entry σ ε α} (hsplit : c.past = before ++ x :: after) :
    Good before x := by
  let Each (c : Record σ ε α) : Prop := Inv c ∧ ∀ before x after, c.past = before ++ x :: after → Good before x
  have hinv : Each c := by
    refine recorded_invariant ?_ ?_ hrun
    · rintro c e r ⟨hc, hall⟩ hguard hr
      obtain ⟨hinv, hgood⟩ := hkeep c e r hc hguard hr
      refine ⟨hinv, fun before x after heq ↦ ?_⟩
      -- the entry is the last one, or it was there before
      rcases List.eq_nil_or_concat after with rfl | ⟨after, y, rfl⟩
      · obtain ⟨rfl, hx⟩ := List.append_inj' heq rfl
        obtain rfl : _ = x := List.cons.inj hx |>.1
        exact hgood
      · rw [List.concat_eq_append, ← List.cons_append, ← List.append_assoc] at heq
        exact hall before x after (List.append_inj' heq rfl).1
    · exact ⟨hstart, by simp [start]⟩
  exact hinv.2 before x after hsplit

end PgRouter.Library.Records
