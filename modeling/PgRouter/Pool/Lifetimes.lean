import PgRouter.Pool.Eviction
import PgRouter.Pool.Stamps

namespace PgRouter.Pool.Lifetimes

open Library.Accounts Library.Runs Model Weights Slots Channels Ownership Shape Eviction Stamps

section Sweeps

variable {cfg : Config} {now keepCount : ℤ} {pc : PooledConn}

theorem decisions_append (kept : ℕ) (before after : List PooledConn) :
    decisions cfg now keepCount kept (before ++ after) =
      decisions cfg now keepCount kept before ++
        decisions cfg now keepCount (kept + (chosen true (decisions cfg now keepCount kept before)).length) after := by
  induction before generalizing kept with
  | nil => rfl
  | cons pc before ih =>
    rw [List.cons_append, decisions, decisions, ih, List.cons_append]
    cases keeps cfg now keepCount kept pc with
    | true =>
      simp only [chosen, List.filter_cons, beq_self_eq_true, if_true, List.map_cons, List.length_cons, Bool.toNat_true]
      rw [Nat.add_assoc, Nat.add_comm 1]
    | false => rfl

theorem length_kept_le (kept : ℕ) (queue : List PooledConn) :
    (chosen true (decisions cfg now keepCount kept queue)).length ≤
      queue.countP fun pc ↦ ¬PastLifetime cfg now pc := by
  induction queue generalizing kept with
  | nil => exact Nat.le_refl 0
  | cons pc queue ih =>
    have hrest := ih (kept + (keeps cfg now keepCount kept pc).toNat)
    rw [decisions, List.countP_cons]
    cases hk : keeps cfg now keepCount kept pc with
    | true =>
      have hlife : ¬PastLifetime cfg now pc := (of_decide_eq_true hk).1
      rw [hk] at hrest
      simpa [chosen, hlife] using hrest
    | false =>
      rw [hk] at hrest
      exact Nat.le_add_right_of_le hrest

theorem le_kept_iff (queue : List PooledConn) :
    keepCount ≤ (chosen true (decisions cfg now keepCount 0 queue)).length ↔
      keepCount ≤ queue.countP fun pc ↦ ¬PastLifetime cfg now pc := by
  have hle := le_length_kept cfg now keepCount 0 queue
  have hkept : (chosen true (decisions cfg now keepCount 0 queue)).length ≤
      queue.countP fun pc ↦ ¬PastLifetime cfg now pc := length_kept_le 0 queue
  rw [Nat.cast_zero, zero_add, zero_add] at hle
  omega

theorem mem_sweep_iff (cfg : Config) (now keepCount : ℤ) (queue : List PooledConn) (pc : PooledConn) :
    pc ∈ (sweep cfg now keepCount queue [] []).1 ↔
      ∃ before after, queue = before ++ pc :: after ∧ ¬PastLifetime cfg now pc ∧
        (PastIdle cfg now pc → (before.countP fun pc ↦ ¬PastLifetime cfg now pc) < keepCount) := by
  have hkeeps (before : List PooledConn) :
      keeps cfg now keepCount (0 + (chosen true (decisions cfg now keepCount 0 before)).length) pc = true ↔
        ¬PastLifetime cfg now pc ∧
          (PastIdle cfg now pc → (before.countP fun pc ↦ ¬PastLifetime cfg now pc) < keepCount) := by
    rw [keeps, decide_eq_true_iff, Nat.zero_add, ← not_le, le_kept_iff, not_le, ← imp_iff_not_or]
  rw [sweep_eq]
  change pc ∈ chosen true (decisions cfg now keepCount 0 queue) ↔ _
  constructor
  · intro hmem
    obtain ⟨⟨pc', keep⟩, hd, rfl⟩ := List.mem_map.mp hmem
    obtain ⟨hd, hkeep⟩ := List.mem_filter.mp hd
    obtain rfl : keep = true := beq_iff_eq.mp hkeep
    obtain ⟨ds, ds', hsplit⟩ := List.append_of_mem hd
    have hqueue : queue = ds.map Prod.fst ++ pc' :: ds'.map Prod.fst := by
      have hmap : (decisions cfg now keepCount 0 queue).map Prod.fst = queue := map_decisions 0 queue
      rw [← hmap, hsplit, List.map_append, List.map_cons]
    refine ⟨_, _, hqueue, (hkeeps _).mp ?_⟩
    -- the decisions about the connections before it are those of the whole queue
    have hds : decisions cfg now keepCount 0 (ds.map Prod.fst) = ds := by
      rw [hqueue, decisions_append] at hsplit
      refine (List.append_inj hsplit ?_).1
      rw [← List.length_map (f := Prod.fst), map_decisions, List.length_map]
    rw [hds]
    exact (decisions_at hsplit).symm
  · intro hmem
    obtain ⟨before, after, rfl, hkept⟩ := hmem
    refine List.mem_map.mpr ⟨(pc, true), List.mem_filter.mpr ⟨?_, rfl⟩, rfl⟩
    rw [decisions_append, decisions, (hkeeps before).mpr hkept]
    exact List.mem_append_right _ List.mem_cons_self

end Sweeps

section Histories

/-- A pool, when each of its connections was dialed, and when `Release`, or `EnsureWarm` after its dial, last took one
in to queue it. -/
structure Timed where
  state : State
  dialedAt : ℕ → ℤ
  queuedAt : ℕ → ℤ

/-- What is dialed or wrapped in a step is so at the time of the step. -/
def Timed.step (s : Timed) (e : Event) : Option Timed :=
  (s.state.step e).map fun t ↦
    match e with
    | .step i _ now =>
      { state := t
        dialedAt := if t.shared.dialed = s.state.shared.dialed then s.dialedAt
          else Function.update s.dialedAt s.state.shared.dialed now
        queuedAt := ((pointOf s.state i).bind (wraps s.state.shared)).elim s.queuedAt
          (Function.update s.queuedAt · now) }
    | _ => { s with state := t }

def Timed.new (cfg : Config) : Timed := ⟨Model.new cfg, fun _ ↦ 0, fun _ ↦ 0⟩

variable {s t : Timed} {es : List Event}

theorem Timed.state_run (h : Run Timed.step anyStep s es t) : Run State.step anyStep s.state es t.state := by
  induction h with
  | nil => exact .nil _
  | @cons s t u e es _ hstep _ ih =>
    obtain ⟨v, hv, rfl⟩ := Option.map_eq_some_iff.mp hstep
    refine .cons rfl ?_ ih
    cases e <;> exact hv

theorem Timed.exists_run {u v : State} (h : Run State.step anyStep u es v) (hs : s.state = u) :
    ∃ t, Run Timed.step anyStep s es t ∧ t.state = v := by
  induction h generalizing s with
  | nil u => exact ⟨s, .nil _, hs⟩
  | @cons u w v e es _ hstep _ ih =>
    cases hw : Timed.step s e with
    | none => simp [Timed.step, hs, hstep] at hw
    | some w' =>
      have hstate : w'.state = w := by
        simp only [Timed.step, hs, hstep, Option.map_some, Option.some.injEq] at hw
        rw [← hw]
        cases e <;> rfl
      obtain ⟨t, hrun, ht⟩ := ih hstate
      exact ⟨t, .cons rfl hw hrun, ht⟩

theorem dialed_step {u v : State} {e : Event} (h : u.step e = some v) : u.shared.dialed ≤ v.shared.dialed := by
  obtain ⟨i, c, now, rfl, h⟩ | rfl | ⟨pc, -, rfl⟩ | ⟨conn, -, call, -, rfl⟩ := step_cases h
  · obtain ⟨call, p, todo, o, -, -, -, -, hfire, rfl⟩ := advance_cases h
    change _ ≤ o.shared.dialed
    obtain ⟨-, hd⟩ | ⟨-, hd⟩ | ⟨conn, -, hd⟩ := fire_live hfire <;> omega
  all_goals exact Nat.le_refl _

theorem Timed.dialedAt_run (h : Run Timed.step anyStep s es t) {c : ℕ} (hc : c < s.state.shared.dialed) :
    t.dialedAt c = s.dialedAt c := by
  induction h with
  | nil => rfl
  | @cons s t u e es _ hstep _ ih =>
    obtain ⟨v, hv, rfl⟩ := Option.map_eq_some_iff.mp hstep
    have hle := dialed_step hv
    cases e with
    | step i choice now =>
      have hnext := ih (Nat.lt_of_lt_of_le hc hle)
      rw [hnext]
      dsimp only
      split
      · rfl
      · exact Function.update_of_ne (Nat.ne_of_lt hc) _ _
    | _ => exact ih (Nat.lt_of_lt_of_le hc hle)

/-- Every connection is wrapped as it was when it was last taken in. -/
structure Stamped (s : Timed) : Prop where
  sound : Sound s.state
  stamp : ∀ pc, Has s.state pc → pc = fresh pc.conn (s.queuedAt pc.conn)

theorem stamped_step (s : Timed) (e : Event) (t : Timed) (hs : Stamped s) (h : s.step e = some t) : Stamped t := by
  obtain ⟨v, hv, rfl⟩ := Option.map_eq_some_iff.mp h
  have hsound : Sound v := step_sound s.state e v hs.sound hv
  cases e with
  | step i c now =>
    refine ⟨hsound, fun pc hpc ↦ ?_⟩
    obtain hpc | ⟨_, _, _, conn, he, hwraps, rfl⟩ := has_of_step hv hpc
    · refine (hs.stamp pc hpc).trans (congrArg (fresh pc.conn) ?_)
      dsimp only
      cases hwraps : (pointOf s.state i).bind (wraps s.state.shared) with
      | none => rfl
      | some conn =>
        have hne : pc.conn ≠ conn := by
          rintro rfl
          exact not_has_of_wraps hs.sound hwraps hpc
        exact (Function.update_of_ne hne _ _).symm
    · cases he
      dsimp only
      rw [hwraps, Option.elim_some]
      exact congrArg (fresh conn) (Function.update_self conn now s.queuedAt).symm
  | _ =>
    refine ⟨hsound, fun pc hpc ↦ ?_⟩
    obtain hpc | ⟨_, _, _, _, he, -⟩ := has_of_step hv hpc
    · exact hs.stamp pc hpc
    · cases he

theorem stamped_run {cfg : Config} (h : Run Timed.step anyStep (Timed.new cfg) es s) : Stamped s := by
  refine h.invariant (fun s e t hs _ hstep ↦ stamped_step s e t hs hstep) ⟨sound_new cfg, fun pc hpc ↦ ?_⟩
  simp [Has, pooled, stock, Timed.new, Model.new] at hpc

end Histories

section Lifetimes

variable {cfg : Config} {es : List Event} {s : Timed}

/-- Every idle connection that was dialed a lifetime ago was queued a lifetime ago as well, or it has been idle for too
long and enough connections in front of it were queued less than a lifetime ago. -/
def Aged (s : Timed) (now : ℤ) : Prop :=
  ∀ before pc after, idleQueue s.state = before ++ pc :: after →
    s.state.shared.cfg.serverLifetime ≤ now - s.dialedAt pc.conn →
    s.state.shared.cfg.serverLifetime ≤ now - s.queuedAt pc.conn ∨
      (0 < s.state.shared.cfg.serverIdle ∧ s.state.shared.cfg.serverIdle ≤ now - s.queuedAt pc.conn) ∧
        keepCount s.state ≤ before.countP fun pc ↦ now - s.queuedAt pc.conn < s.state.shared.cfg.serverLifetime

theorem total_only_pos {pc : PooledConn} {l : List PooledConn} (h : pc ∈ l) : 0 < total (only pc) l := by
  induction l with
  | nil => exact absurd h List.not_mem_nil
  | cons first l ih =>
    rw [total_cons]
    obtain rfl | h := List.mem_cons.mp h
    · exact Nat.add_pos_left (Nat.lt_of_lt_of_eq Nat.one_pos (if_pos rfl).symm) _
    · exact Nat.add_pos_right _ (ih h)

theorem has_of_idle {s : State} (hs : Formed s) {pc : PooledConn} (hpc : pc ∈ idleQueue s) : Has s pc := by
  have hstock := stock_setQueue (only pc) hs.shaped.idle_lt []
  have hpos : 0 < total (only pc) (s.shared.channel s.shared.idle).queue := total_only_pos hpc
  rw [total_nil] at hstock
  unfold Has pooled
  omega

/-- After `EvictIdleOnce` every idle connection was dialed less than the lifetime ago if and only if the idle
connections were `Aged` before it. -/
theorem evictIdleOnce_lifetime (h : Run Timed.step anyStep (Timed.new cfg) es s)
    (hwmu : s.state.shared.wmuHeld = false) (hpanicked : s.state.shared.panicked = false)
    (hlifetime : 0 < s.state.shared.cfg.serverLifetime) (now : ℤ) :
    ∃ t closed, Run Timed.step anyStep s (.evictIdleOnce now :: steps s.state.calls.length (closed.length + 1)) t ∧
      t.state.calls[s.state.calls.length]? = some ⟨.straight, [], {}⟩ ∧
      sweep s.state.shared.cfg now (keepCount s.state) (idleQueue s.state) [] [] = (idleQueue t.state, closed) ∧
      ((∀ pc ∈ idleQueue t.state, now - t.dialedAt pc.conn < s.state.shared.cfg.serverLifetime) ↔ Aged s now) := by
  have hformed := formed_of_run (Timed.state_run h)
  have hquiet := quiet_of_formed hformed hwmu hpanicked
  obtain ⟨v, closed, hrun, hdone, hsweep, -⟩ := run_evictIdleOnce hquiet (.inr hlifetime) now
  obtain ⟨t, hrun', rfl⟩ := Timed.exists_run hrun rfl
  refine ⟨t, closed, hrun', hdone, hsweep, ?_⟩
  have hkept := mem_sweep_iff s.state.shared.cfg now (keepCount s.state) (idleQueue s.state)
  rw [hsweep] at hkept
  have hdialed : ∀ pc ∈ idleQueue s.state, t.dialedAt pc.conn = s.dialedAt pc.conn := by
    intro pc hpc
    exact Timed.dialedAt_run hrun' (hformed.sound.fresh pc.conn ((has_of_idle hformed hpc).mem_live hformed.sound))
  -- the sweep goes by the times at which the connections were queued
  have hstamp (pc : PooledConn) (hpc : pc ∈ idleQueue s.state) : pc = fresh pc.conn (s.queuedAt pc.conn) :=
    (stamped_run h).stamp pc (has_of_idle hformed hpc)
  have hlife (pc : PooledConn) (hpc : pc ∈ idleQueue s.state) :
      PastLifetime s.state.shared.cfg now pc ↔ s.state.shared.cfg.serverLifetime ≤ now - s.queuedAt pc.conn := by
    rw [PastLifetime, hstamp pc hpc]
    exact and_iff_right hlifetime
  have hidle (pc : PooledConn) (hpc : pc ∈ idleQueue s.state) : PastIdle s.state.shared.cfg now pc ↔
      0 < s.state.shared.cfg.serverIdle ∧ s.state.shared.cfg.serverIdle ≤ now - s.queuedAt pc.conn := by
    rw [PastIdle, hstamp pc hpc]
    exact and_congr_right fun _ ↦ and_iff_right rfl
  have hcount {before rest : List PooledConn} (hqueue : idleQueue s.state = before ++ rest) :
      (before.countP fun pc ↦ ¬PastLifetime s.state.shared.cfg now pc) =
        before.countP fun pc ↦ now - s.queuedAt pc.conn < s.state.shared.cfg.serverLifetime := by
    refine List.countP_congr fun pc hpc ↦ ?_
    rw [decide_eq_true_iff, decide_eq_true_iff, hlife pc (by rw [hqueue]; exact List.mem_append_left _ hpc), not_le]
  constructor
  · intro hyoung before pc after hqueue hold
    have hmem : pc ∈ idleQueue s.state := by rw [hqueue]; simp
    by_contra hnot
    rw [← hlife pc hmem, ← hidle pc hmem, ← hcount hqueue, not_or, not_and, not_le] at hnot
    have hlt := hyoung pc ((hkept pc).mpr ⟨before, after, hqueue, hnot⟩)
    rw [hdialed pc hmem] at hlt
    omega
  · intro haged pc hpc
    obtain ⟨before, after, hqueue, hpast, hpastIdle⟩ := (hkept pc).mp hpc
    have hmem : pc ∈ idleQueue s.state := by rw [hqueue]; simp
    rw [hdialed pc hmem]
    by_contra hold
    have hqueued := haged before pc after hqueue (by omega)
    rw [← hlife pc hmem, ← hidle pc hmem, ← hcount hqueue] at hqueued
    obtain hpast' | ⟨hpast', hle⟩ := hqueued
    · exact hpast hpast'
    · have hlt := hpastIdle hpast'
      omega

def lifetimeTwelve : Config := ⟨1, 0, 0, 0, 0, 0, 12⟩

def stepsAt (i n : ℕ) (now : ℤ) : List Event := List.replicate n (.step i .go now)

def releasedAtOnce : List Event := .acquire :: stepsAt 0 9 5 ++ .release 0 false :: stepsAt 1 7 5

theorem evictIdleOnce_lifetime_released :
    ∃ s t n, Run Timed.step anyStep (Timed.new lifetimeTwelve) releasedAtOnce s ∧
      (idleQueue s.state).map PooledConn.conn = [0] ∧
      Run Timed.step anyStep s (.evictIdleOnce 20 :: steps 2 n) t ∧
      ((∀ pc ∈ idleQueue t.state, 20 - t.dialedAt pc.conn < 12) ↔ Aged s 20) := by
  have h : Run Timed.step anyStep (Timed.new lifetimeTwelve) releasedAtOnce _ := run_of_exec rfl
  obtain ⟨t, closed, hrun, -, -, hiff⟩ := evictIdleOnce_lifetime h rfl rfl (by decide) 20
  exact ⟨_, t, closed.length + 1, h, by decide, hrun, hiff⟩

def releasedLate : List Event :=
  .acquire :: stepsAt 0 9 5 ++ .release 0 false :: stepsAt 1 7 15 ++ .evictIdleOnce 20 :: stepsAt 2 1 20

theorem evictIdleOnce_keeps_old :
    ∃ s, Run Timed.step anyStep (Timed.new lifetimeTwelve) releasedLate s ∧
      s.state.calls[2]? = some ⟨.straight, [], {}⟩ ∧ s.state.shared.cfg.serverLifetime = 12 ∧
      (idleQueue s.state).map PooledConn.conn = [0] ∧ s.dialedAt 0 = 5 := by
  have h : Run Timed.step anyStep (Timed.new lifetimeTwelve) releasedLate _ := run_of_exec rfl
  exact ⟨_, h, rfl, rfl, by decide, by decide⟩

end Lifetimes

end PgRouter.Pool.Lifetimes
