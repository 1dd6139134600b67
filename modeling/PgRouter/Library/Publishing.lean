import Mathlib.Data.List.Basic

namespace PgRouter.Library.Publishing

variable {σ α κ ρ : Type}

/-- A value that is computed from cells by reading them one after the other. -/
structure Computation (σ α ρ : Type) where
  target : σ → α
  first : σ → ρ
  read : σ → ρ → ρ ⊕ α
  Reads : σ → ρ → Prop
  reads_first : ∀ s, Reads s (first s)
  reads_read : ∀ {s r r'}, Reads s r → read s r = .inl r' → Reads s r'
  target_read : ∀ {s r a}, Reads s r → read s r = .inr a → a = target s

/-- Where a process stands between a write to the cells and the publication that it may owe for it. -/
inductive Phase (κ ρ α : Type)
  | done
  | deciding (k : κ)
  | due
  | reading (r : ρ)
  | ready (a : α)

namespace Phase

def rebuilding : Phase κ ρ α → Bool
  | .reading _ | .ready _ => true
  | _ => false

/-- The process will publish, if the cells stay as they are. -/
def committed (owes : σ → κ → Bool) (s : σ) : Phase κ ρ α → Bool
  | .done => false
  | .deciding k => owes s k
  | _ => true

end Phase

structure Board (σ α κ ρ : Type) where
  cells : σ
  published : α
  phases : List (Phase κ ρ α)

namespace Board

def put (b : Board σ α κ ρ) (i : ℕ) (p : Phase κ ρ α) : Board σ α κ ρ := { b with phases := b.phases.set i p }

def write (b : Board σ α κ ρ) (i : ℕ) (s : σ) (p : Phase κ ρ α) : Board σ α κ ρ :=
  ⟨s, b.published, b.phases.set i p⟩

end Board

variable (C : Computation σ α ρ) (owes : σ → κ → Bool)

/-- The steps of a process behind its write: what is published then, and the next phase. -/
def next (s : σ) (published : α) : Phase κ ρ α → Option (α × Phase κ ρ α)
  | .done => none
  | .deciding k => some (published, if owes s k then .due else .done)
  | .due => some (published, .reading (C.first s))
  | .reading r =>
    match C.read s r with
    | .inl r' => some (published, .reading r')
    | .inr a => some (published, .ready a)
  | .ready a => some (a, .done)

/-- What has been read is true of the cells, and what is published is up to date or will be replaced. -/
structure Current (b : Board σ α κ ρ) : Prop where
  reads : ∀ (i : ℕ) r, b.phases[i]? = some (.reading r) → C.Reads b.cells r
  ready : ∀ (i : ℕ) a, b.phases[i]? = some (.ready a) → a = C.target b.cells
  published : b.published = C.target b.cells ∨
    ∃ (i : ℕ) (p : Phase κ ρ α), b.phases[i]? = some p ∧ p.committed owes b.cells = true

variable {C owes} {b : Board σ α κ ρ} {i : ℕ}

theorem getElem?_put {p : Phase κ ρ α} (h : b.phases[i]? = some p) (q : Phase κ ρ α) (j : ℕ) :
    (b.phases.set i q)[j]? = if i = j then some q else b.phases[j]? := by
  obtain ⟨hlt, -⟩ := List.getElem?_eq_some_iff.mp h
  rw [List.getElem?_set]
  simp [hlt]

section

variable (h : Current C owes b)

include h

variable {p q : Phase κ ρ α}

theorem Current.put (hi : b.phases[i]? = some p)
    (hreads : ∀ r, q = .reading r → C.Reads b.cells r) (hready : ∀ a, q = .ready a → a = C.target b.cells)
    (hcommitted : p.committed owes b.cells = true → q.committed owes b.cells = true) :
    Current C owes (b.put i q) where
  reads := by
    intro j r hj
    rw [Board.put, getElem?_put hi] at hj
    split at hj
    · exact hreads r (Option.some.inj hj)
    · exact h.reads j r hj
  ready := by
    intro j a hj
    rw [Board.put, getElem?_put hi] at hj
    split at hj
    · exact hready a (Option.some.inj hj)
    · exact h.ready j a hj
  published := by
    rcases h.published with hpub | ⟨j, p', hj, hp'⟩
    · exact .inl hpub
    · by_cases hij : i = j
      · subst hij
        obtain rfl : p = p' := Option.some.inj (hi.symm.trans hj)
        exact .inr ⟨i, q, by rw [Board.put, getElem?_put hi, if_pos rfl], hcommitted hp'⟩
      · exact .inr ⟨j, p', by rw [Board.put, getElem?_put hi, if_neg hij, hj], hp'⟩

theorem Current.next {a : α} (hi : b.phases[i]? = some p)
    (hnext : next C owes b.cells b.published p = some (a, q)) :
    Current C owes { b.put i q with published := a } := by
  cases p with
  | done => cases hnext
  | deciding k =>
    obtain ⟨rfl, rfl⟩ := Prod.mk.inj (Option.some.inj hnext)
    refine h.put hi ?_ ?_ ?_
    · intro r hr
      split at hr <;> cases hr
    · intro a ha
      split at ha <;> cases ha
    · intro howes
      change owes b.cells k = true at howes
      rw [if_pos howes]
      rfl
  | due =>
    obtain ⟨rfl, rfl⟩ := Prod.mk.inj (Option.some.inj hnext)
    refine h.put hi ?_ ?_ fun _ ↦ rfl
    · rintro r ⟨⟩
      exact C.reads_first b.cells
    · rintro a ⟨⟩
  | reading r =>
    have hr := h.reads i r hi
    rw [Publishing.next] at hnext
    split at hnext
    case h_1 r' hread =>
      obtain ⟨rfl, rfl⟩ := Prod.mk.inj (Option.some.inj hnext)
      refine h.put hi ?_ ?_ fun _ ↦ rfl
      · rintro r ⟨⟩
        exact C.reads_read hr hread
      · rintro a ⟨⟩
    case h_2 a' hread =>
      obtain ⟨rfl, rfl⟩ := Prod.mk.inj (Option.some.inj hnext)
      refine h.put hi ?_ ?_ fun _ ↦ rfl
      · rintro r ⟨⟩
      · rintro a ⟨⟩
        exact C.target_read hr hread
  | ready a' =>
    obtain ⟨rfl, rfl⟩ := Prod.mk.inj (Option.some.inj hnext)
    refine ⟨fun j r hj ↦ ?_, fun j c hj ↦ ?_, .inl (h.ready i a' hi)⟩
    · rw [Board.put, getElem?_put hi] at hj
      split at hj
      · cases hj
      · exact h.reads j r hj
    · rw [Board.put, getElem?_put hi] at hj
      split at hj
      · cases hj
      · exact h.ready j c hj

/-- A write that comes while nobody reads: the writer is committed where the value changes, and where the
writer is not, nobody else's commitment is lost. -/
theorem Current.write {s : σ} (hi : b.phases[i]? = some p)
    (hquiet : ∀ p ∈ b.phases, p.rebuilding = false) (hq : q.rebuilding = false)
    (howed : q.committed owes s = true ∨
      p = .done ∧ C.target s = C.target b.cells ∧ ∀ k, owes b.cells k = true → owes s k = true) :
    Current C owes (b.write i s q) := by
  have hnone : ∀ (j : ℕ) (p : Phase κ ρ α), (b.phases.set i q)[j]? = some p → p.rebuilding = false := by
    intro j p hj
    rw [getElem?_put hi] at hj
    split at hj
    · cases hj
      exact hq
    · exact hquiet p (List.mem_of_getElem? hj)
  refine ⟨fun j r hj ↦ (by cases hnone j _ hj), fun j a hj ↦ (by cases hnone j _ hj), ?_⟩
  rcases howed with hcommitted | ⟨rfl, htarget, hkeep⟩
  · exact .inr ⟨i, q, by rw [Board.write, getElem?_put hi, if_pos rfl], hcommitted⟩
  · rcases h.published with hpub | ⟨j, p, hj, hp⟩
    · exact .inl (hpub.trans htarget.symm)
    · have hij : i ≠ j := by
        rintro rfl
        obtain rfl : Phase.done = p := Option.some.inj (hi.symm.trans hj)
        cases hp
      refine .inr ⟨j, p, by rw [Board.write, getElem?_put hi, if_neg hij, hj], ?_⟩
      cases p with
      | done => cases hp
      | deciding k => exact hkeep k hp
      | due | reading r | ready a => rfl

theorem Current.enter {q : Phase κ ρ α} (hq : q.rebuilding = false) :
    Current C owes { b with phases := b.phases ++ [q] } := by
  have hold : ∀ (j : ℕ) (p : Phase κ ρ α), (b.phases ++ [q])[j]? = some p → p.rebuilding = true →
      b.phases[j]? = some p := by
    intro j p hj hp
    rw [List.getElem?_append] at hj
    split at hj
    · exact hj
    · cases List.mem_singleton.mp (List.mem_of_getElem? hj)
      rw [hq] at hp
      cases hp
  refine ⟨fun j r hj ↦ h.reads j r (hold j _ hj rfl), fun j a hj ↦ h.ready j a (hold j _ hj rfl), ?_⟩
  rcases h.published with hpub | ⟨j, p, hj, hp⟩
  · exact .inl hpub
  · obtain ⟨hlt, -⟩ := List.getElem?_eq_some_iff.mp hj
    exact .inr ⟨j, p, by rw [List.getElem?_append_left hlt, hj], hp⟩

theorem Current.published_of_done (hdone : ∀ p ∈ b.phases, p = .done) :
    b.published = C.target b.cells := by
  rcases h.published with hpub | ⟨j, p, hj, hp⟩
  · exact hpub
  · obtain rfl := hdone p (List.mem_of_getElem? hj)
    cases hp

end

end PgRouter.Library.Publishing
