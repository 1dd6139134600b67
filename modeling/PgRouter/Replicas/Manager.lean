import PgRouter.Library.Publishing
import PgRouter.Library.Runs
import Mathlib.Data.Int.Notation

namespace PgRouter.Replicas.Manager

open Library.Publishing

/-- One replica entry; `id` stands for its address, by which the live state is kept. -/
structure Replica where
  id : ℕ
  host : String
  port : ℤ
  weight : ℤ
deriving DecidableEq, Repr

/-- The atomics that the probes write and `rebuildSnapshot` reads. -/
structure Cells where
  healthy : ℕ → Bool
  lagBytes : ℕ → ℤ
  maxLag : ℤ

namespace Cells

def setHealthy (s : Cells) (r : Replica) (ok : Bool) : Cells :=
  { s with healthy := Function.update s.healthy r.id ok }

def setLag (s : Cells) (r : Replica) (val : ℤ) : Cells :=
  { s with lagBytes := Function.update s.lagBytes r.id val }

def candidate (s : Cells) (r : Replica) : Bool :=
  s.healthy r.id && (decide (s.maxLag ≤ 0) || decide (s.lagBytes r.id ≤ s.maxLag))

end Cells

structure PickSnapshot where
  cands : List Replica
  expanded : List Replica
deriving DecidableEq, Repr

def normalizeWeight (w : ℤ) : ℤ := if w < 1 then 1 else w

def expand (cands : List Replica) : PickSnapshot :=
  ⟨cands, cands.foldl (fun expanded r ↦ expanded ++ List.replicate (normalizeWeight r.weight).toNat r) []⟩

/-- Where a `rebuildSnapshot` stands: the cap that it loaded, the candidates so far, the replicas that
are left, and whether the first of those was found healthy and its lag comes next. -/
structure Rebuild where
  maxLag : ℤ
  cands : List Replica
  rest : List Replica
  atLag : Bool
deriving DecidableEq, Repr

/-- One read of `rebuildSnapshot`; at the end of the replicas the snapshot is ready to be stored. -/
def Rebuild.read (s : Cells) (m : Rebuild) : Rebuild ⊕ PickSnapshot :=
  match m.rest with
  | [] => .inr (expand m.cands)
  | r :: rest =>
    if m.atLag then
      if s.lagBytes r.id > m.maxLag then .inl { m with rest := rest, atLag := false }
      else .inl ⟨m.maxLag, m.cands ++ [r], rest, false⟩
    else if !s.healthy r.id then .inl { m with rest := rest }
    else if m.maxLag > 0 then .inl { m with atLag := true }
    else .inl ⟨m.maxLag, m.cands ++ [r], rest, false⟩

section Rebuilding

variable (replicas : List Replica)

def rebuildSnapshot (s : Cells) : PickSnapshot :=
  expand (replicas.foldl (fun cands r ↦
    if !s.healthy r.id then cands
    else if s.maxLag > 0 ∧ s.lagBytes r.id > s.maxLag then cands
    else cands ++ [r]) [])

/-- The reads of a rebuild hold in the cells: the replicas that it went past are sorted as they stand. -/
structure Rebuild.Reads (s : Cells) (m : Rebuild) : Prop where
  maxLag : m.maxLag = s.maxLag
  sorted : m.cands ++ m.rest.filter s.candidate = replicas.filter s.candidate
  atLag : m.atLag = true → 0 < s.maxLag ∧ ∀ r ∈ m.rest.head?, s.healthy r.id = true

end Rebuilding

variable {replicas : List Replica} {s : Cells}

theorem candidate_iff {r : Replica} :
    s.candidate r = true ↔ s.healthy r.id = true ∧ (s.maxLag ≤ 0 ∨ s.lagBytes r.id ≤ s.maxLag) := by
  simp only [Cells.candidate, Bool.and_eq_true, Bool.or_eq_true, decide_eq_true_eq]

theorem candidate_of_lag {r : Replica} (hcap : 0 < s.maxLag) (hhealthy : s.healthy r.id = true) :
    s.candidate r = decide (s.lagBytes r.id ≤ s.maxLag) := by
  have hlimited : ¬ s.maxLag ≤ 0 := by omega
  simp [Cells.candidate, hhealthy, hlimited]

theorem foldl_expand (cands expanded : List Replica) :
    cands.foldl (fun expanded r ↦ expanded ++ List.replicate (normalizeWeight r.weight).toNat r) expanded =
      expanded ++ cands.flatMap fun r ↦ List.replicate (max 1 r.weight).toNat r := by
  induction cands generalizing expanded with
  | nil => simp
  | cons r cands ih =>
    have hweight : normalizeWeight r.weight = max 1 r.weight := by
      rw [normalizeWeight]
      split <;> omega
    rw [List.foldl_cons, ih, hweight, List.flatMap_cons, List.append_assoc]

theorem foldl_candidate (s : Cells) (rest cands : List Replica) :
    rest.foldl (fun cands r ↦
      if !s.healthy r.id then cands
      else if s.maxLag > 0 ∧ s.lagBytes r.id > s.maxLag then cands
      else cands ++ [r]) cands = cands ++ rest.filter s.candidate := by
  induction rest generalizing cands with
  | nil => simp
  | cons r rest ih =>
    rw [List.foldl_cons, ih]
    by_cases hhealthy : s.healthy r.id = true
    · by_cases hlag : s.maxLag > 0 ∧ s.lagBytes r.id > s.maxLag
      · have hout : s.candidate r = false := by simp [Cells.candidate, hhealthy, hlag]
        simp [hhealthy, hlag, hout]
      · have hin : s.candidate r = true := candidate_iff.mpr ⟨hhealthy, by omega⟩
        simp [hhealthy, hlag, hin]
    · have hout : s.candidate r = false := by simp [Cells.candidate, hhealthy]
      simp [hhealthy, hout]

theorem rebuildSnapshot_eq (s : Cells) : rebuildSnapshot replicas s = expand (replicas.filter s.candidate) := by
  rw [rebuildSnapshot, foldl_candidate, List.nil_append]

theorem expanded_rebuildSnapshot (s : Cells) :
    (rebuildSnapshot replicas s).expanded =
      (replicas.filter s.candidate).flatMap fun r ↦ List.replicate (max 1 r.weight).toNat r := by
  rw [rebuildSnapshot_eq, expand, foldl_expand, List.nil_append]

theorem Rebuild.reads_read {m m' : Rebuild} (h : m.Reads replicas s) (hread : m.read s = .inl m') :
    m'.Reads replicas s := by
  obtain ⟨maxLag, cands, rest, atLag⟩ := m
  obtain ⟨rfl, hsorted, hlag⟩ := h
  cases rest with
  | nil => cases hread
  | cons r rest =>
    simp only [Rebuild.read] at hread
    simp only [List.filter_cons] at hsorted
    split at hread
    case isTrue hat =>
      obtain ⟨hcap, hhealthy⟩ := hlag hat
      have hcandidate := candidate_of_lag hcap (hhealthy r rfl)
      split at hread
      case isTrue hover =>
        obtain rfl := Sum.inl.inj hread
        refine ⟨rfl, ?_, fun h ↦ by cases h⟩
        have hout : s.candidate r = false := by simp [hcandidate, hover]
        rw [← hsorted, hout]
        rfl
      case isFalse hunder =>
        obtain rfl := Sum.inl.inj hread
        refine ⟨rfl, ?_, fun h ↦ by cases h⟩
        have hin : s.candidate r = true := by simpa [hcandidate] using hunder
        rw [← hsorted, hin, List.append_assoc]
        rfl
    case isFalse hat =>
      split at hread
      case isTrue hhealthy =>
        obtain rfl := Sum.inl.inj hread
        refine ⟨rfl, ?_, fun h ↦ absurd h hat⟩
        have hout : s.candidate r = false := by simp_all [Cells.candidate]
        rw [← hsorted, hout]
        rfl
      case isFalse hhealthy =>
        split at hread
        case isTrue hcap =>
          obtain rfl := Sum.inl.inj hread
          refine ⟨rfl, ?_, ?_⟩
          · rw [← hsorted, List.filter_cons]
          · rintro -
            exact ⟨hcap, by simpa using hhealthy⟩
        case isFalse hcap =>
          obtain rfl := Sum.inl.inj hread
          refine ⟨rfl, ?_, fun h ↦ by cases h⟩
          have hin : s.candidate r = true := by simp_all [Cells.candidate]
          rw [← hsorted, hin, List.append_assoc]
          rfl

theorem Rebuild.eq_of_read {m : Rebuild} {snap : PickSnapshot} (h : m.Reads replicas s)
    (hread : m.read s = .inr snap) : snap = rebuildSnapshot replicas s := by
  obtain ⟨maxLag, cands, rest, atLag⟩ := m
  cases rest with
  | nil =>
    obtain rfl := Sum.inr.inj hread
    have hsorted := h.sorted
    rw [List.filter_nil, List.append_nil] at hsorted
    rw [rebuildSnapshot_eq, ← hsorted]
  | cons r rest =>
    simp only [Rebuild.read] at hread
    repeat' split at hread
    all_goals cases hread

def rebuild (replicas : List Replica) : Computation Cells PickSnapshot Rebuild where
  target := rebuildSnapshot replicas
  first s := ⟨s.maxLag, [], replicas, false⟩
  read s m := m.read s
  Reads s m := m.Reads replicas s
  reads_first s := ⟨rfl, List.nil_append _, fun h ↦ by cases h⟩
  reads_read := Rebuild.reads_read
  target_read := Rebuild.eq_of_read

/-- `lagProbe` behind its store: the change crosses the cap that is loaded now. -/
def crosses (s : Cells) (k : ℤ × ℤ) : Bool :=
  decide (s.maxLag > 0) && (decide (k.1 ≤ s.maxLag) != decide (k.2 ≤ s.maxLag))

/-- Where a call of `Start`, `probe`, `lagProbe` or `SetMaxLag` stands. -/
inductive Proc
  | starting (rest : List Replica)
  | probing (r : Replica)
  | lagProbing (r : Replica)
  | measuring (r : Replica)
  | setting (n : ℤ)
  | behind (p : Phase (ℤ × ℤ) Rebuild PickSnapshot)

def Proc.phase : Proc → Phase (ℤ × ℤ) Rebuild PickSnapshot
  | .starting _ => .due
  | .behind p => p
  | _ => .done

/-- What a call gets from its backend: `fail` is a failed Acquire, ping or lag query. -/
inductive Input
  | go
  | fail
  | value (val : ℤ)
deriving DecidableEq, Repr

inductive Event
  | start
  | probe (r : Replica)
  | lagProbe (r : Replica)
  | setMaxLag (n : ℤ)
  | act (i : ℕ) (input : Input)
deriving DecidableEq, Repr

structure State where
  cells : Cells
  snapshot : PickSnapshot
  started : Bool
  procs : List Proc

namespace State

def goTo (s : State) (i : ℕ) (p : Proc) : State := { s with procs := s.procs.set i p }

def store (s : State) (i : ℕ) (cells : Cells) (p : Proc) : State :=
  { s with cells := cells, procs := s.procs.set i p }

def enter (s : State) (p : Proc) : State := { s with procs := s.procs ++ [p] }

def swapHealthy (s : State) (i : ℕ) (r : Replica) (ok : Bool) : State :=
  s.store i (s.cells.setHealthy r ok) (.behind (if s.cells.healthy r.id = ok then .done else .due))

def board (s : State) : Board Cells PickSnapshot (ℤ × ℤ) Rebuild :=
  ⟨s.cells, s.snapshot, s.procs.map Proc.phase⟩

def quiescent (s : State) : Bool :=
  s.procs.all fun
    | .behind .done => true
    | _ => false

end State

section Machine

variable (replicas : List Replica)

/-- The next step of the call `i`. -/
def act (s : State) (i : ℕ) : Proc → Input → Option State
  | .starting [], .go => some (s.goTo i (.behind .due))
  | .starting (r :: rest), .go => some (s.store i (s.cells.setHealthy r true) (.starting rest))
  | .probing r, .go => some (s.swapHealthy i r true)
  | .probing r, .fail => some (s.swapHealthy i r false)
  | .lagProbing r, .go => some (s.goTo i (if s.cells.healthy r.id then .measuring r else .behind .done))
  | .measuring _, .fail => some (s.goTo i (.behind .done))
  | .measuring r, .value val =>
    some (s.store i (s.cells.setLag r val) (.behind (.deciding (s.cells.lagBytes r.id, val))))
  | .setting n, .go => some (s.store i { s.cells with maxLag := n } (.behind .due))
  | .behind p, .go =>
    (next (rebuild replicas) crosses s.cells s.snapshot p).map fun
      | (snap, p') => { s.goTo i (.behind p') with snapshot := snap }
  | _, _ => none

def step (s : State) : Event → Option State
  | .start => if s.started then none else some { s.enter (.starting replicas) with started := true }
  | .probe r => if r ∈ replicas then some (s.enter (.probing r)) else none
  | .lagProbe r => if r ∈ replicas then some (s.enter (.lagProbing r)) else none
  | .setMaxLag n => some (s.enter (.setting n))
  | .act i input => s.procs[i]?.bind fun p ↦ act replicas s i p input

def newManager (healthy : ℕ → Bool) (lagBytes : ℕ → ℤ) : State :=
  ⟨⟨healthy, lagBytes, 0⟩, rebuildSnapshot replicas ⟨healthy, lagBytes, 0⟩, false, []⟩

end Machine

/-- The call's next step changes a health flag, a lag reading or the cap. -/
def changes (s : Cells) : Proc → Input → Bool
  | .starting (r :: _), .go => s.healthy r.id != true
  | .probing r, .go => s.healthy r.id != true
  | .probing r, .fail => s.healthy r.id != false
  | .measuring r, .value val => s.lagBytes r.id != val
  | .setting n, .go => s.maxLag != n
  | _, _ => false

/-- No health flag, lag reading or cap changes while a snapshot is being rebuilt. -/
def apart (s : State) : Event → Bool
  | .act i input =>
    match s.procs[i]? with
    | some p => !changes s.cells p input || s.procs.all fun q ↦ !q.phase.rebuilding
    | none => true
  | _ => true

end PgRouter.Replicas.Manager
