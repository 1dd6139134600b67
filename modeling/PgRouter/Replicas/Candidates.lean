import PgRouter.Replicas.Manager

namespace PgRouter.Replicas.Candidates

open Library.Publishing Library.Runs Manager

variable {replicas : List Replica} {s t : State} {i : ℕ} {p q : Proc}

/-- The snapshot is up to date or will be replaced, and every rebuild under way has read what still holds. -/
abbrev UpToDate (replicas : List Replica) (s : State) : Prop := Current (rebuild replicas) crosses s.board

theorem board_goTo : (s.goTo i p).board = s.board.put i p.phase := by
  rw [State.board, State.goTo, Board.put, State.board, List.map_set]

variable {cells : Cells} {ok : Bool} {r : Replica} {input : Input} {val : ℤ}

theorem board_store : (s.store i cells p).board = s.board.write i cells p.phase := by
  rw [State.board, State.store, Board.write, State.board, List.map_set]

theorem board_enter : (s.enter p).board = { s.board with phases := s.board.phases ++ [p.phase] } := by
  rw [State.board, State.enter, State.board, List.map_append]
  rfl

theorem phase_getElem? (hi : s.procs[i]? = some p) : s.board.phases[i]? = some p.phase := by
  rw [State.board, List.getElem?_map, hi]
  rfl

theorem upToDate_goTo (h : UpToDate replicas s) (hi : s.procs[i]? = some p) (hq : q.phase.rebuilding = false)
    (hcommitted : p.phase.committed crosses s.cells = true → q.phase.committed crosses s.cells = true) :
    UpToDate replicas (s.goTo i q) := by
  rw [UpToDate, board_goTo]
  refine h.put (phase_getElem? hi) ?_ ?_ hcommitted
  · intro r hr
    rw [hr] at hq
    cases hq
  · intro a ha
    rw [ha] at hq
    cases hq

theorem upToDate_store (h : UpToDate replicas s) (hi : s.procs[i]? = some p)
    (hquiet : cells = s.cells ∨ ∀ p ∈ s.procs, p.phase.rebuilding = false) (hq : q.phase.rebuilding = false)
    (howed : q.phase.committed crosses cells = true ∨ p.phase = .done ∧
      rebuildSnapshot replicas cells = rebuildSnapshot replicas s.cells ∧
        ∀ k, crosses s.cells k = true → crosses cells k = true) :
    UpToDate replicas (s.store i cells q) := by
  rcases hquiet with rfl | hquiet
  · refine upToDate_goTo h hi hq fun hp ↦ ?_
    rcases howed with hcommitted | ⟨hdone, -, -⟩
    · exact hcommitted
    · rw [hdone] at hp
      cases hp
  · rw [UpToDate, board_store]
    refine h.write (phase_getElem? hi) ?_ hq howed
    intro p hp
    obtain ⟨proc, hproc, rfl⟩ := List.mem_map.mp hp
    exact hquiet proc hproc

theorem setHealthy_self (h : cells.healthy r.id = ok) : cells.setHealthy r ok = cells := by
  rw [Cells.setHealthy, ← h, Function.update_eq_self]

theorem setLag_self (h : cells.lagBytes r.id = val) : cells.setLag r val = cells := by
  rw [Cells.setLag, ← h, Function.update_eq_self]

section

variable (hsame : crosses cells (cells.lagBytes r.id, val) = false)

include hsame

theorem candidate_setLag :
    (cells.setLag r val).candidate = cells.candidate := by
  funext r'
  rw [Bool.eq_iff_iff, candidate_iff, candidate_iff]
  simp only [Cells.setLag]
  by_cases hid : r'.id = r.id
  · simp only [crosses, Bool.and_eq_false_iff, decide_eq_false_iff_not, bne_eq_false_iff_eq,
      decide_eq_decide] at hsame
    rw [hid, Function.update_self]
    rcases hsame with hcap | hside
    · have hnone : cells.maxLag ≤ 0 := by omega
      simp only [hnone, true_or]
    · rw [hside]
  · rw [Function.update_of_ne hid]

theorem rebuildSnapshot_setLag :
    rebuildSnapshot replicas (cells.setLag r val) = rebuildSnapshot replicas cells := by
  rw [rebuildSnapshot_eq, rebuildSnapshot_eq, candidate_setLag hsame]

end

theorem upToDate_swapHealthy (h : UpToDate replicas s) (hi : s.procs[i]? = some (.probing r))
    (hquiet : s.cells.healthy r.id = ok ∨ ∀ p ∈ s.procs, p.phase.rebuilding = false) :
    UpToDate replicas (s.swapHealthy i r ok) := by
  by_cases hsame : s.cells.healthy r.id = ok
  · rw [State.swapHealthy, if_pos hsame]
    refine upToDate_store h hi (.inl (setHealthy_self hsame)) rfl (.inr ⟨rfl, ?_, ?_⟩)
    · rw [setHealthy_self hsame]
    · intro k hk
      exact hk
  · rw [State.swapHealthy, if_neg hsame]
    exact upToDate_store h hi (hquiet.imp_left setHealthy_self) rfl (.inl rfl)

theorem quiet_of_apart (hi : s.procs[i]? = some p) (hapart : apart s (.act i input) = true) :
    changes s.cells p input = false ∨ ∀ q ∈ s.procs, q.phase.rebuilding = false := by
  simpa [apart, hi] using hapart

theorem upToDate_act (h : UpToDate replicas s) (hi : s.procs[i]? = some p)
    (hquiet : changes s.cells p input = false ∨ ∀ q ∈ s.procs, q.phase.rebuilding = false)
    (hact : act replicas s i p input = some t) : UpToDate replicas t := by
  unfold act at hact
  split at hact
  case h_1 =>
    cases hact
    exact upToDate_goTo h hi rfl fun _ ↦ rfl
  case h_2 r rest =>
    cases hact
    refine upToDate_store h hi (hquiet.imp_left fun hsame ↦ setHealthy_self ?_) rfl (.inl rfl)
    simpa [changes] using hsame
  case h_3 r =>
    cases hact
    refine upToDate_swapHealthy h hi (hquiet.imp_left fun hsame ↦ ?_)
    simpa [changes] using hsame
  case h_4 r =>
    cases hact
    refine upToDate_swapHealthy h hi (hquiet.imp_left fun hsame ↦ ?_)
    simpa [changes] using hsame
  case h_5 r =>
    cases hact
    refine upToDate_goTo h hi ?_ fun hp ↦ by cases hp
    split <;> rfl
  case h_6 r =>
    cases hact
    exact upToDate_goTo h hi rfl fun hp ↦ by cases hp
  case h_7 r val =>
    cases hact
    have hsame := hquiet.imp_left fun hsame ↦ setLag_self (by simpa [changes] using hsame)
    refine upToDate_store h hi hsame rfl ?_
    -- The rebuild comes where the reading crosses the cap; where it does not, the candidates stay.
    cases hcrosses : crosses s.cells (s.cells.lagBytes r.id, val) with
    | true => exact .inl hcrosses
    | false => exact .inr ⟨rfl, rebuildSnapshot_setLag hcrosses, fun k hk ↦ hk⟩
  case h_8 n =>
    cases hact
    refine upToDate_store h hi (hquiet.imp_left fun hsame ↦ ?_) rfl (.inl rfl)
    obtain rfl : s.cells.maxLag = n := by simpa [changes] using hsame
    rfl
  case h_9 p =>
    obtain ⟨⟨snap, p'⟩, hnext, rfl⟩ := Option.map_eq_some_iff.mp hact
    have hcurrent := Current.next h (phase_getElem? hi) hnext
    have hboard : ({ s.goTo i (.behind p') with snapshot := snap } : State).board =
        { s.board.put i p' with published := snap } :=
      congrArg (Board.mk s.cells snap) List.map_set
    rw [UpToDate, hboard]
    exact hcurrent
  case h_10 => cases hact

theorem upToDate_step {e : Event} (h : UpToDate replicas s) (hapart : apart s e = true)
    (hstep : step replicas s e = some t) : UpToDate replicas t := by
  have henter : ∀ q : Proc, q.phase.rebuilding = false → UpToDate replicas (s.enter q) := by
    intro q hq
    rw [UpToDate, board_enter]
    exact Current.enter h hq
  cases e with
  | start =>
    rw [step] at hstep
    split at hstep
    · cases hstep
    · cases hstep
      exact henter (.starting replicas) rfl
  | probe r =>
    rw [step] at hstep
    split at hstep
    · cases hstep
      exact henter (.probing r) rfl
    · cases hstep
  | lagProbe r =>
    rw [step] at hstep
    split at hstep
    · cases hstep
      exact henter (.lagProbing r) rfl
    · cases hstep
  | setMaxLag n =>
    cases hstep
    exact henter (.setting n) rfl
  | act i input =>
    obtain ⟨p, hi, hact⟩ := Option.bind_eq_some_iff.mp hstep
    exact upToDate_act h hi (quiet_of_apart hi hapart) hact

theorem upToDate_newManager (healthy : ℕ → Bool) (lagBytes : ℕ → ℤ) :
    UpToDate replicas (newManager replicas healthy lagBytes) :=
  ⟨fun i r h ↦ (by cases h), fun i a h ↦ (by cases h), .inl rfl⟩

theorem upToDate_of_run {healthy : ℕ → Bool} {lagBytes : ℕ → ℤ} {es : List Event}
    (hrun : Run (step replicas) apart (newManager replicas healthy lagBytes) es s) : UpToDate replicas s :=
  hrun.invariant (fun _ _ _ h hapart hstep ↦ upToDate_step h hapart hstep) (upToDate_newManager healthy lagBytes)

theorem done_of_quiescent (hquiescent : s.quiescent = true) : ∀ p ∈ s.board.phases, p = .done := by
  intro p hp
  obtain ⟨proc, hproc, rfl⟩ := List.mem_map.mp hp
  have hdone := List.all_eq_true.mp hquiescent proc hproc
  split at hdone
  · rfl
  · cases hdone

/-- When no flag, reading or cap changes while a snapshot is being rebuilt, the ring that Pick reads
between the calls holds each replica that is healthy and within the cap, by its weight and in the order
of the declaration. -/
theorem expanded_of_apart {healthy : ℕ → Bool} {lagBytes : ℕ → ℤ} {es : List Event}
    (hrun : Run (step replicas) apart (newManager replicas healthy lagBytes) es s)
    (hquiescent : s.quiescent = true) :
    s.snapshot.expanded =
      (replicas.filter fun r ↦
        s.cells.healthy r.id && (decide (s.cells.maxLag ≤ 0) ||
          decide (s.cells.lagBytes r.id ≤ s.cells.maxLag))).flatMap
        fun r ↦ List.replicate (max 1 r.weight).toNat r := by
  have hsnapshot : s.snapshot = rebuildSnapshot replicas s.cells :=
    (upToDate_of_run hrun).published_of_done (done_of_quiescent hquiescent)
  rw [hsnapshot, expanded_rebuildSnapshot]
  rfl

def pair : List Replica := [⟨0, "replica-a", 5432, 1⟩, ⟨1, "replica-b", 5432, 2⟩]

def orderly : List Event :=
  .setMaxLag 10 :: List.replicate 8 (.act 0 .go) ++
    .lagProbe ⟨0, "replica-a", 5432, 1⟩ :: .act 1 .go :: .act 1 (.value 50) :: List.replicate 8 (.act 1 .go)

theorem orderly_run :
    Run (step pair) apart (newManager pair (fun _ ↦ true) fun _ ↦ 0) orderly
      ⟨⟨fun _ ↦ true, Function.update (fun _ ↦ 0) 0 50, 10⟩,
        expand [⟨1, "replica-b", 5432, 2⟩], false, [.behind .done, .behind .done]⟩ :=
  run_of_exec rfl

theorem expanded_orderly :
    (expand [⟨1, "replica-b", 5432, 2⟩]).expanded = [⟨1, "replica-b", 5432, 2⟩, ⟨1, "replica-b", 5432, 2⟩] :=
  expanded_of_apart orderly_run rfl

def overtaken : List Event :=
  [.probe ⟨0, "replica-a", 5432, 1⟩, .probe ⟨1, "replica-b", 5432, 2⟩,
    .act 0 .fail, .act 0 .go, .act 0 .go, .act 0 .go,
    .act 1 .fail, .act 1 .go, .act 1 .go, .act 1 .go, .act 1 .go, .act 1 .go,
    .act 0 .go, .act 0 .go]

/-- No replica is healthy and no call is in progress, yet Pick goes on to hand out the second replica. -/
theorem overtaken_stale :
    ∃ s, Run (step pair) anyStep (newManager pair (fun _ ↦ true) fun _ ↦ 0) overtaken s ∧ s.quiescent = true ∧
      (∀ r ∈ pair, s.cells.healthy r.id = false) ∧
      s.snapshot.expanded = [⟨1, "replica-b", 5432, 2⟩, ⟨1, "replica-b", 5432, 2⟩] := by
  refine ⟨⟨⟨Function.update (Function.update (fun _ ↦ true) 0 false) 1 false, fun _ ↦ 0, 0⟩,
    expand [⟨1, "replica-b", 5432, 2⟩], false, [.behind .done, .behind .done]⟩, run_of_exec rfl, rfl, ?_, rfl⟩
  decide

end PgRouter.Replicas.Candidates
