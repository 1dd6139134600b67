import PgRouter.Library.Records

namespace PgRouter.Library.Leasing

open Runs Records

variable {κ σ ρ ε α ξ : Type}

/-- Parties that borrow resources: how one starts, what it does, the event in which it is handed a
resource, whether it takes the one that is offered, and what it gives back in a step. A resource is
made from its number and what is left open about it. -/
structure Trade (κ σ ρ ε α ξ : Type) where
  join : ℕ → κ → σ
  step : σ → ε → Option (σ × α)
  lend : ρ → ε
  lending : ε → Bool
  accepts : σ → ρ → Bool
  returned : ε → σ → α → List ρ
  make : ℕ → ξ → ρ

structure System (σ ρ : Type) where
  parties : List σ
  idle : List ρ
  made : ℕ

def empty : System σ ρ := ⟨[], [], 0⟩

inductive Event (κ ε ξ : Type)
  | join (k : κ)
  | act (i : ℕ) (e : ε)
  | take (i k : ℕ)
  | make (i : ℕ) (x : ξ)
  | drop (k : ℕ)

abbrev Output (σ ε α : Type) := Option (ℕ × Entry σ ε α)

abbrev History (κ σ ρ ε α ξ : Type) := Record (System σ ρ) (Event κ ε ξ) (Output σ ε α)

variable (T : Trade κ σ ρ ε α ξ)

def advance (i : ℕ) (e : ε) (sys : System σ ρ) : Option (System σ ρ × Output σ ε α) :=
  sys.parties[i]?.bind fun s ↦ (T.step s e).map fun r ↦
    ({ sys with parties := sys.parties.set i r.1, idle := sys.idle ++ T.returned e r.1 r.2 },
      some (i, ⟨s, e, r.1, r.2⟩))

def step (sys : System σ ρ) : Event κ ε ξ → Option (System σ ρ × Output σ ε α)
  | .join k => some ({ sys with parties := sys.parties ++ [T.join sys.parties.length k] }, none)
  | .act i e => if T.lending e then none else advance T i e sys
  | .take i k => sys.idle[k]?.bind fun x ↦
      if sys.parties[i]?.any fun s ↦ T.accepts s x then
        advance T i (T.lend x) { sys with idle := sys.idle.eraseIdx k }
      else none
  | .make i x => advance T i (T.lend (T.make sys.made x)) { sys with made := sys.made + 1 }
  | .drop k => some ({ sys with idle := sys.idle.eraseIdx k }, none)

/-- Conditions on those who join, on the steps and on what is made. -/
structure Terms (κ σ ε ξ : Type) where
  joins : κ → Bool
  acts : σ → ε → Bool
  makes : ξ → Bool

def meets (terms : Terms κ σ ε ξ) (c : History κ σ ρ ε α ξ) : Event κ ε ξ → Bool
  | .join k => terms.joins k
  | .act i e => c.current.parties[i]?.all fun s ↦ terms.acts s e
  | .take i k => c.current.idle[k]?.all fun x ↦ c.current.parties[i]?.all fun s ↦ terms.acts s (T.lend x)
  | .make i x => terms.makes x &&
      c.current.parties[i]?.all fun s ↦ terms.acts s (T.lend (T.make c.current.made x))
  | .drop _ => true

/-- Each party on its own keeps its invariant, as long as what it is lent is fit, and gives back only what
is fit. -/
structure Keeps (terms : Terms κ σ ε ξ) (Inv : σ → Prop) (Fit : ρ → Prop)
    (Good : Entry σ ε α → Prop) : Prop where
  joins : ∀ i k, terms.joins k = true → Inv (T.join i k)
  makes : ∀ n x, terms.makes x = true → Fit (T.make n x)
  steps : ∀ s e r, Inv s → terms.acts s e = true → (T.lending e = true → ∃ x, Fit x ∧ e = T.lend x) →
    T.step s e = some r → Inv r.1 ∧ (∀ x ∈ T.returned e r.1 r.2, Fit x) ∧ Good ⟨s, e, r.1, r.2⟩

structure Holds (Inv : σ → Prop) (Fit : ρ → Prop) (sys : System σ ρ) : Prop where
  parties : ∀ s ∈ sys.parties, Inv s
  idle : ∀ x ∈ sys.idle, Fit x

variable {T} {terms : Terms κ σ ε ξ} {Inv : σ → Prop} {Fit : ρ → Prop} {Good : Entry σ ε α → Prop}

variable {c : History κ σ ρ ε α ξ} {i : ℕ} {r : System σ ρ × Output σ ε α} {es : List (Event κ ε ξ)}

theorem Keeps.advance (hkeeps : Keeps T terms Inv Fit Good) {sys : System σ ρ} (hsys : Holds Inv Fit sys) {e : ε}
    (hterms : (sys.parties[i]?.all fun s ↦ terms.acts s e) = true)
    (hlent : T.lending e = true → ∃ x, Fit x ∧ e = T.lend x) (h : advance T i e sys = some r) :
    Holds Inv Fit r.1 ∧ ∀ j y, r.2 = some (j, y) → Good y := by
  obtain ⟨s, hs, h⟩ := Option.bind_eq_some_iff.mp h
  obtain ⟨q, hq, rfl⟩ := Option.map_eq_some_iff.mp h
  rw [hs, Option.all_some] at hterms
  obtain ⟨hinv, hfit, hgood⟩ := hkeeps.steps s e q (hsys.parties s (List.mem_of_getElem? hs)) hterms hlent hq
  refine ⟨⟨fun t ht ↦ ?_, fun x hx ↦ ?_⟩, ?_⟩
  · rcases List.mem_or_eq_of_mem_set ht with ht | rfl
    · exact hsys.parties t ht
    · exact hinv
  · rcases List.mem_append.mp hx with hx | hx
    · exact hsys.idle x hx
    · exact hfit x hx
  · rintro j y ⟨⟩
    exact hgood

theorem Keeps.step (hkeeps : Keeps T terms Inv Fit Good) (hc : Holds Inv Fit c.current) {e : Event κ ε ξ}
    (hmeets : meets T terms c e = true) (hstep : Leasing.step T c.current e = some r) :
    Holds Inv Fit r.1 ∧ ∀ j y, r.2 = some (j, y) → Good y := by
  cases e with
  | join k =>
    cases hstep
    refine ⟨⟨fun s hs ↦ ?_, hc.idle⟩, nofun⟩
    rcases List.mem_append.mp hs with hs | hs
    · exact hc.parties s hs
    · cases List.mem_singleton.mp hs
      exact hkeeps.joins _ k hmeets
  | drop k =>
    cases hstep
    exact ⟨⟨hc.parties, fun x hx ↦ hc.idle x (List.mem_of_mem_eraseIdx hx)⟩, nofun⟩
  | act i e =>
    simp only [Leasing.step] at hstep
    split at hstep
    · cases hstep
    · exact hkeeps.advance hc hmeets (fun h ↦ absurd h ‹_›) hstep
  | take i k =>
    obtain ⟨x, hx, hstep⟩ := Option.bind_eq_some_iff.mp hstep
    split at hstep
    · have hless : Holds Inv Fit { c.current with idle := c.current.idle.eraseIdx k } :=
        ⟨hc.parties, fun y hy ↦ hc.idle y (List.mem_of_mem_eraseIdx hy)⟩
      simp only [meets, hx, Option.all_some] at hmeets
      exact hkeeps.advance hless hmeets (fun _ ↦ ⟨x, hc.idle x (List.mem_of_getElem? hx), rfl⟩) hstep
    · cases hstep
  | make i x =>
    have hmore : Holds Inv Fit { c.current with made := c.current.made + 1 } := ⟨hc.parties, hc.idle⟩
    obtain ⟨hmakes, hacts⟩ := Bool.and_eq_true_iff.mp hmeets
    exact hkeeps.advance hmore hacts (fun _ ↦ ⟨_, hkeeps.makes _ x hmakes, rfl⟩) hstep

theorem holds_empty : Holds Inv Fit (empty : System σ ρ) := ⟨List.forall_mem_nil _, List.forall_mem_nil _⟩

/-- Parties that each keep to the terms keep the whole in order, in any interleaving. -/
theorem Keeps.run (hkeeps : Keeps T terms Inv Fit Good)
    (hrun : Run (recorded (Leasing.step T)) (meets T terms) (start empty) es c) : Holds Inv Fit c.current := by
  have hkeep (c : History κ σ ρ ε α ξ) (e : Event κ ε ξ) (r : System σ ρ × Output σ ε α)
      (hc : Holds Inv Fit c.current) (hmeets : meets T terms c e = true)
      (hstep : Leasing.step T c.current e = some r) :=
    (hkeeps.step hc hmeets hstep).1
  exact @recorded_invariant _ _ _ _ _ (fun c ↦ Holds Inv Fit c.current) _ _ _ hkeep holds_empty hrun

theorem Keeps.each (hkeeps : Keeps T terms Inv Fit Good)
    (hrun : Run (recorded (Leasing.step T)) (meets T terms) (start empty) es c)
    {before after : List (Entry (System σ ρ) (Event κ ε ξ) (Output σ ε α))}
    {x : Entry (System σ ρ) (Event κ ε ξ) (Output σ ε α)} (hsplit : c.past = before ++ x :: after) {y : Entry σ ε α}
    (hy : x.output = some (i, y)) : Good y := by
  have hkeep (c : History κ σ ρ ε α ξ) (e : Event κ ε ξ) (r : System σ ρ × Output σ ε α)
      (hc : Holds Inv Fit c.current) (hmeets : meets T terms c e = true)
      (hstep : Leasing.step T c.current e = some r) := hkeeps.step hc hmeets hstep
  exact @recorded_each _ _ _ _ _ (fun c ↦ Holds Inv Fit c.current)
    (fun _ x ↦ ∀ j y, x.output = some (j, y) → Good y) _ _ _ hkeep holds_empty hrun before after x hsplit i y hy

end PgRouter.Library.Leasing
