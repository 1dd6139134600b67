import PgRouter.Pool.Shape

namespace PgRouter.Pool.Eviction

open Library.Runs Model Slots Channels Shape

section Sweeps

variable {cfg : Config} {now : ℤ} {keepCount : ℤ} {pc : PooledConn} {queue : List PooledConn}

def PastLifetime (cfg : Config) (now : ℤ) (pc : PooledConn) : Prop :=
  0 < cfg.serverLifetime ∧ cfg.serverLifetime ≤ now - pc.lifecycle.createdAt

def PastIdle (cfg : Config) (now : ℤ) (pc : PooledConn) : Prop :=
  0 < cfg.serverIdle ∧ pc.lifecycle.state = .idle ∧ cfg.serverIdle ≤ now - pc.lifecycle.lastActive

instance : Decidable (PastLifetime cfg now pc) := inferInstanceAs (Decidable (_ ∧ _))

instance : Decidable (PastIdle cfg now pc) := inferInstanceAs (Decidable (_ ∧ _ ∧ _))

theorem shouldRecycle_iff :
    (0 < cfg.serverLifetime ∧ pc.lifecycle.shouldRecycle now cfg.serverLifetime = true) ↔ PastLifetime cfg now pc := by
  rw [PastLifetime, Lifecycle.shouldRecycle]
  refine and_congr_right fun hpos ↦ ?_
  rw [if_neg (by omega), decide_eq_true_iff]

theorem shouldEvict_iff :
    (0 < cfg.serverIdle ∧ pc.lifecycle.shouldEvict now cfg.serverIdle = true) ↔ PastIdle cfg now pc := by
  rw [PastIdle, Lifecycle.shouldEvict]
  refine and_congr_right fun hpos ↦ ?_
  by_cases hstate : pc.lifecycle.state = .idle
  · rw [if_neg (by simp [hstate]; omega), decide_eq_true_iff]
    simp [hstate]
  · rw [if_pos (.inr hstate)]
    simp [hstate]

def keeps (cfg : Config) (now keepCount : ℤ) (kept : ℕ) (pc : PooledConn) : Bool :=
  ¬PastLifetime cfg now pc ∧ (¬PastIdle cfg now pc ∨ (kept : ℤ) < keepCount)

def decisions (cfg : Config) (now keepCount : ℤ) : ℕ → List PooledConn → List (PooledConn × Bool)
  | _, [] => []
  | kept, pc :: queue =>
    let keep := keeps cfg now keepCount kept pc
    (pc, keep) :: decisions cfg now keepCount (kept + keep.toNat) queue

def chosen (keep : Bool) (l : List (PooledConn × Bool)) : List PooledConn := (l.filter (·.2 == keep)).map Prod.fst

theorem sweep_eq (queue kept evicted : List PooledConn) :
    sweep cfg now keepCount queue kept evicted =
      (kept ++ chosen true (decisions cfg now keepCount kept.length queue),
        evicted ++ chosen false (decisions cfg now keepCount kept.length queue)) := by
  induction queue generalizing kept evicted with
  | nil => simp [sweep, decisions, chosen]
  | cons pc queue ih =>
    rw [sweep, decisions]
    simp only [shouldRecycle_iff, shouldEvict_iff, keeps]
    by_cases hlife : PastLifetime cfg now pc
    · rw [if_neg (by simp [hlife]), if_neg (by simp [hlife]), ih]
      simp [chosen, hlife]
    · by_cases hidle : PastIdle cfg now pc
      · by_cases hroom : (kept.length : ℤ) < keepCount
        · rw [if_neg (by simp [hidle]), if_pos ⟨hidle, hlife, hroom⟩, ih]
          simp [chosen, hlife, hidle, hroom]
        · rw [if_neg (by simp [hidle]), if_neg (by simp [hroom]), ih]
          simp [chosen, hlife, hidle, hroom]
      · rw [if_pos ⟨hlife, hidle⟩, ih]
        simp [chosen, hlife, hidle]

theorem map_decisions (kept : ℕ) (queue : List PooledConn) :
    (decisions cfg now keepCount kept queue).map Prod.fst = queue := by
  induction queue generalizing kept with
  | nil => rfl
  | cons pc queue ih => rw [decisions, List.map_cons, ih]

theorem decisions_at {kept : ℕ} {before after : List (PooledConn × Bool)} {keep : Bool}
    (h : decisions cfg now keepCount kept queue = before ++ (pc, keep) :: after) :
    keep = keeps cfg now keepCount (kept + (chosen true before).length) pc := by
  induction queue generalizing kept before with
  | nil => simp [decisions] at h
  | cons first queue ih =>
    rw [decisions] at h
    cases before with
    | nil =>
      obtain ⟨hfirst, -⟩ := List.cons.inj h
      obtain ⟨rfl, rfl⟩ := Prod.mk.inj hfirst
      rfl
    | cons d before =>
      obtain ⟨rfl, hrest⟩ := List.cons.inj h
      have hkeep := ih hrest
      cases hk : keeps cfg now keepCount kept first <;> simp [hk, chosen] at hkeep ⊢
      · exact hkeep
      · rw [hkeep]
        congr 1
        omega

theorem le_length_kept (cfg : Config) (now keepCount : ℤ) (kept : ℕ) (queue : List PooledConn) :
    min keepCount (kept + queue.countP fun pc ↦ ¬PastLifetime cfg now pc) ≤
      kept + (chosen true (decisions cfg now keepCount kept queue)).length := by
  induction queue generalizing kept with
  | nil => simp [decisions, chosen]
  | cons pc queue ih =>
    have hrest := ih (kept + (keeps cfg now keepCount kept pc).toNat)
    rw [decisions, List.countP_cons]
    cases hk : keeps cfg now keepCount kept pc with
    | true =>
      simp only [hk, Bool.toNat_true, chosen, List.filter_cons, beq_self_eq_true, if_true, List.map_cons,
        List.length_cons, Nat.cast_add, Nat.cast_one] at hrest ⊢
      split <;> omega
    | false =>
      simp only [hk, Bool.toNat_false, Nat.add_zero] at hrest
      simp only [chosen, List.filter_cons, Bool.false_eq_true, if_false, beq_iff_eq] at hrest ⊢
      -- what is not kept is past the lifetime, or enough are kept without it
      by_cases hlife : PastLifetime cfg now pc
      · simpa [hlife] using hrest
      · have hfull : keepCount ≤ kept := by
          simp only [keeps, hlife, not_false_eq_true, true_and, decide_eq_false_iff_not, not_or, not_lt] at hk
          exact hk.2
        omega

theorem chosen_perm (ds : List (PooledConn × Bool)) : (chosen true ds ++ chosen false ds).Perm (ds.map Prod.fst) := by
  induction ds with
  | nil => exact .nil
  | cons d ds ih =>
    obtain ⟨pc, keep⟩ := d
    cases keep with
    | true => exact ih.cons pc
    | false =>
      refine List.Perm.trans ?_ (ih.cons pc)
      exact List.perm_middle

/-- What a sweep makes of the idle queue. It decides about one connection after the other, so that which ones are
kept before a connection is known when it comes to it. -/
structure Swept (cfg : Config) (now keepCount : ℤ) (queue kept closed : List PooledConn) : Prop where
  split : (kept ++ closed).Perm queue
  order : kept.Sublist queue
  decided : ∃ ds : List (PooledConn × Bool), ds.map Prod.fst = queue ∧ chosen true ds = kept ∧
    chosen false ds = closed ∧
    ∀ before pc keep after, ds = before ++ (pc, keep) :: after →
      (PastLifetime cfg now pc → keep = false) ∧ (¬PastLifetime cfg now pc → ¬PastIdle cfg now pc → keep = true) ∧
        (¬PastLifetime cfg now pc → keep = false → keepCount ≤ (chosen true before).length)
  floor : min keepCount (queue.countP fun pc ↦ ¬PastLifetime cfg now pc) ≤ kept.length

theorem sweep_swept (cfg : Config) (now keepCount : ℤ) (queue : List PooledConn) :
    Swept cfg now keepCount queue (sweep cfg now keepCount queue [] []).1 (sweep cfg now keepCount queue [] []).2 := by
  have hmap : (decisions cfg now keepCount 0 queue).map Prod.fst = queue := map_decisions 0 queue
  rw [sweep_eq]
  refine ⟨?_, ?_, ⟨decisions cfg now keepCount 0 queue, hmap, rfl, rfl, ?_⟩, ?_⟩
  · have hperm := chosen_perm (decisions cfg now keepCount 0 queue)
    rw [hmap] at hperm
    exact hperm
  · have hsub : (chosen true (decisions cfg now keepCount 0 queue)).Sublist _ := List.filter_sublist.map Prod.fst
    rw [hmap] at hsub
    exact hsub
  · intro before pc keep after hds
    have hkeep := decisions_at hds
    rw [Nat.zero_add] at hkeep
    rw [hkeep]
    refine ⟨fun hlife ↦ ?_, fun hlife hidle ↦ ?_, fun hlife hfalse ↦ ?_⟩
    · simp [keeps, hlife]
    · simp [keeps, hlife, hidle]
    · simp only [keeps, hlife, not_false_eq_true, true_and, decide_eq_false_iff_not, not_or, not_lt] at hfalse
      exact hfalse.2
  · have hle := le_length_kept cfg now keepCount 0 queue
    simpa using hle

end Sweeps

section Calls

variable {s t : State} {i : ℕ}

/-- A pool nobody else is using: `wmu` is free, the idle connections fit, and no connection is dialed twice. -/
structure Quiet (s : State) : Prop where
  wmu : s.shared.wmuHeld = false
  panicked : s.shared.panicked = false
  fits : (idleQueue s).length ≤ s.shared.cfg.defaultPoolSize
  nodup : s.shared.live.Nodup

theorem quiet_of_formed (hs : Formed s) (hwmu : s.shared.wmuHeld = false) (hpanicked : s.shared.panicked = false) :
    Quiet s := ⟨hwmu, hpanicked, hs.shaped.length_idle, hs.sound.nodup⟩

def closings (closed : List PooledConn) : List Op := closed.map fun pc ↦ .close pc.conn

theorem run_closings (hs : s.shared.panicked = false) (hnodup : s.shared.live.Nodup) {closed : List PooledConn}
    {own : Waiter} (hcall : s.calls[i]? = some ⟨.straight, closings closed, own⟩) :
    ∃ t, Run State.step anyStep s (steps i closed.length) t ∧ t.calls[i]? = some ⟨.straight, [], own⟩ ∧
      idleQueue t = idleQueue s ∧ ∀ c, c ∈ t.shared.live ↔ c ∈ s.shared.live ∧ c ∉ closed.map PooledConn.conn := by
  induction closed generalizing s with
  | nil => exact ⟨s, .nil s, hcall, rfl, by simp⟩
  | cons pc closed ih =>
    let next := s.proceed i (closings closed) (perform s.shared s.waiterOf own (.close pc.conn))
    have hstep : s.step (.step i .go 0) = some next := step_eq hs hcall rfl rfl
    have hlt : i < s.calls.length := (List.getElem?_eq_some_iff.mp hcall).1
    have hnext : next.calls[i]? = some ⟨.straight, closings closed, own⟩ := List.getElem?_set_self hlt
    have hlive : next.shared.live = s.shared.live.erase pc.conn := rfl
    obtain ⟨t, hrun, hdone, hqueue, hclosed⟩ := ih (s := next) hs (hlive ▸ hnodup.erase pc.conn) hnext
    refine ⟨t, .cons rfl hstep hrun, hdone, hqueue, fun c ↦ ?_⟩
    rw [hclosed c, hlive, hnodup.mem_erase_iff, List.map_cons, List.mem_cons, not_or, and_comm (a := c ≠ pc.conn),
      and_assoc]

def keepCount (s : State) : ℤ := max (s.shared.cfg.minPoolSize - s.shared.active) 0

theorem evictIdleOnce_eq {s : Shared} {own : Waiter} {now : ℤ} {kept closed : List PooledConn}
    (hsweep : sweep s.cfg now (max (s.cfg.minPoolSize - s.active) 0) (s.channel s.idle).queue [] [] = (kept, closed))
    (hfits : (kept.length : ℤ) ≤ s.cfg.defaultPoolSize) :
    evictIdleOnce s own now =
      some { shared := s.swapIdle s.cfg.defaultPoolSize.toNat kept, waiter := own, todo := closings closed } := by
  simp only [evictIdleOnce, hsweep]
  exact if_pos hfits

theorem run_evictIdleOnce (hs : Quiet s) (hlimits : 0 < s.shared.cfg.serverIdle ∨ 0 < s.shared.cfg.serverLifetime)
    (now : ℤ) :
    ∃ t closed, Run State.step anyStep s (.evictIdleOnce now :: steps s.calls.length (closed.length + 1)) t ∧
      t.calls[s.calls.length]? = some ⟨.straight, [], {}⟩ ∧
      sweep s.shared.cfg now (keepCount s) (idleQueue s) [] [] = (idleQueue t, closed) ∧
      ∀ c, c ∈ t.shared.live ↔ c ∈ s.shared.live ∧ c ∉ closed.map PooledConn.conn := by
  obtain ⟨kept, closed, hsweep⟩ : ∃ kept closed,
      sweep s.shared.cfg now (keepCount s) (idleQueue s) [] [] = (kept, closed) := ⟨_, _, rfl⟩
  let begun : State := s.enter ⟨.evict now, [], {}⟩
  have hstep₁ : s.step (.evictIdleOnce now) = some begun := by
    rw [State.step, if_neg (by omega)]
  have hcall₁ : begun.calls[s.calls.length]? = some ⟨.evict now, [], {}⟩ := List.getElem?_concat_length
  let o : Outcome :=
    { shared := s.shared.swapIdle s.shared.cfg.defaultPoolSize.toNat kept, waiter := {}, todo := closings closed }
  have hfits : (kept.length : ℤ) ≤ s.shared.cfg.defaultPoolSize := by
    have hle := length_sweep_le s.shared.cfg now (keepCount s) (idleQueue s)
    have hqueue := hs.fits
    rw [hsweep] at hle
    change kept.length ≤ _ at hle
    omega
  have hfire : fire begun.shared begun.waiterOf s.calls.length 0 {} .go (.at (.evict now)) = some o := by
    have hfree : ¬begun.shared.wmuHeld = true := by
      rw [show begun.shared.wmuHeld = false from hs.wmu]
      exact Bool.false_ne_true
    simp only [fire, act]
    rw [if_neg hfree]
    exact evictIdleOnce_eq (s := begun.shared) hsweep hfits
  let swept : State := begun.proceed s.calls.length [] o
  have hstep₂ : begun.step (.step s.calls.length .go 0) = some swept :=
    step_eq (s := begun) hs.panicked hcall₁ rfl hfire
  have hlt : s.calls.length < begun.calls.length := (List.getElem?_eq_some_iff.mp hcall₁).1
  have hcall₂ : swept.calls[s.calls.length]? = some ⟨.straight, closings closed, {}⟩ := by
    change (begun.calls.set s.calls.length ⟨.straight, closings closed ++ [], {}⟩)[s.calls.length]? = _
    rw [List.append_nil, List.getElem?_set_self hlt]
  obtain ⟨t, hrun, hdone, hqueue, hlive⟩ := run_closings (s := swept) hs.panicked hs.nodup hcall₂
  have hidle : idleQueue swept = kept := congrArg Channel.queue (channel_swapIdle s.shared _ kept)
  refine ⟨t, closed, .cons rfl hstep₁ (.cons rfl hstep₂ hrun), hdone, ?_, hlive⟩
  rw [hqueue, hidle]
  exact hsweep

/-- The sweep of `EvictIdleOnce` respects the floor. -/
theorem evictIdleOnce_floor (hs : Quiet s) (hlimits : 0 < s.shared.cfg.serverIdle ∨ 0 < s.shared.cfg.serverLifetime)
    (now : ℤ) :
    ∃ t closed, Run State.step anyStep s (.evictIdleOnce now :: steps s.calls.length (closed.length + 1)) t ∧
      t.calls[s.calls.length]? = some ⟨.straight, [], {}⟩ ∧
      Swept s.shared.cfg now (keepCount s) (idleQueue s) (idleQueue t) closed ∧
      ∀ c, c ∈ t.shared.live ↔ c ∈ s.shared.live ∧ c ∉ closed.map PooledConn.conn := by
  obtain ⟨t, closed, hrun, hdone, hsweep, hlive⟩ := run_evictIdleOnce hs hlimits now
  have hswept := sweep_swept s.shared.cfg now (keepCount s) (idleQueue s)
  rw [hsweep] at hswept
  exact ⟨t, closed, hrun, hdone, hswept, hlive⟩

def mixed : State :=
  let s := new ⟨4, 1, 0, 0, 0, 10, 100⟩
  { s with
    shared := { s.shared with
      chans := [⟨4, [⟨0, ⟨0, 50, .idle⟩⟩, ⟨1, ⟨60, 60, .idle⟩⟩, ⟨2, ⟨70, 70, .idle⟩⟩, ⟨3, ⟨95, 95, .idle⟩⟩]⟩]
      dialed := 4
      live := [3, 2, 1, 0] } }

theorem evictIdleOnce_floor_mixed :
    ∃ t closed, Run State.step anyStep mixed (.evictIdleOnce 100 :: steps 0 (closed.length + 1)) t ∧
      Swept mixed.shared.cfg 100 1 (idleQueue mixed) (idleQueue t) closed := by
  have hquiet : Quiet mixed := ⟨rfl, rfl, by decide, by decide⟩
  obtain ⟨t, closed, hrun, -, hswept, -⟩ := evictIdleOnce_floor hquiet (.inl (by decide)) 100
  exact ⟨t, closed, hrun, hswept⟩

end Calls

end PgRouter.Pool.Eviction
