import PgRouter.Library.Accounts
import PgRouter.Pool.Firing

namespace PgRouter.Pool.Weights

open Library.Accounts Model Firing

/-- The call will still receive from the channel of its waiter. -/
def listens : Pc → Bool
  | .wait _ | .reserveCheck | .closeCanceled | .dequeue | .drainCh => true
  | _ => false

variable {M : Type} [AddCommMonoid M]

@[simp] theorem elim_zero (w : Option PooledConn) : w.elim (0 : M) (fun _ ↦ 0) = 0 := by
  cases w <;> rfl

/-- What a call accounts for at each of its points, for each thing it has still to do, and for a
connection in a channel it listens to. -/
structure Weight (M : Type) [Zero M] where
  pc : Pc → M
  op : Op → M
  boxed : PooledConn → M
  straight : pc .straight = 0
  awake : pc .drainAsleep = pc .drainLoad

namespace Weight

variable (v : Weight M)

@[simp] def box (pc : Pc) (w : Waiter) : M := if listens pc then w.ch.elim 0 v.boxed else 0

def call (c : Call) : M := v.pc c.pc + total v.op c.todo + v.box c.pc c.waiter

@[simp] def ofEffect (calls : List Call) : Effect → M
  | .send w pc =>
    match calls[w]? with
    | some c => if listens c.pc then v.boxed pc else 0
    | none => 0
  | .spawn cs => total v.call cs
  | _ => 0

theorem call_wake (c : Call) : v.call c.wake = v.call c := by
  unfold Call.wake
  split
  · rename_i h
    simp [call, box, h, v.awake, listens]
  · rfl

theorem total_apply [IsRightCancelAdd M] (e : Effect) (calls : List Call)
    (h : ∀ w pc c, e = .send w pc → calls[w]? = some c → listens c.pc → c.waiter.ch = none) :
    total v.call (e.apply calls) = total v.call calls + v.ofEffect calls e := by
  cases e with
  | none | spawn cs => simp [Effect.apply, ofEffect]
  | wake =>
    have hwake : v.ofEffect calls .wake = 0 := rfl
    rw [Effect.apply, total_map, hwake, add_zero]
    exact total_congr fun c _ ↦ v.call_wake c
  | closeCh w =>
    have hzero : v.ofEffect calls (.closeCh w) = 0 := rfl
    rw [Effect.apply, hzero, add_zero]
    cases hc : calls[w]? with
    | none => rw [List.modify_eq_self (by simpa using hc)]
    | some c =>
      have hm := total_modify v.call hc fun c ↦ { c with waiter := { c.waiter with chClosed := true } }
      exact add_right_cancel hm
  | send w pc =>
    rw [Effect.apply, ofEffect]
    cases hc : calls[w]? with
    | none => simp [List.modify_eq_self (by simpa using hc)]
    | some c =>
      have hm := total_modify v.call hc fun c ↦ { c with waiter := { c.waiter with ch := some pc } }
      have hch := h w pc c rfl hc
      refine add_right_cancel (hm.trans ?_)
      rw [add_assoc]
      congr 1
      by_cases hl : listens c.pc = true
      · simp only [call, box, hl, if_true, hch hl, Option.elim]
        rw [add_zero, add_comm]
      · simp [call, box, hl]

@[simp] def point (own : Waiter) : Point → M
  | .at pc => v.pc pc + v.box pc own
  | .op op => v.op op

@[simp] def outcome (o : Outcome) : M := v.pc o.pc + total v.op o.todo + v.box o.pc o.waiter

theorem call_point {c : Call} {p : Point} {todo : List Op} (h : c.point = some (p, todo)) :
    v.call c = v.point c.waiter p + total v.op todo := by
  rcases c with ⟨pc, todo', w⟩
  unfold Call.point at h
  split at h
  · cases h
  · rename_i op todo'' hpc htodo
    simp only at hpc htodo
    cases h
    simp [call, point, hpc, htodo, v.straight, box, listens]
  · cases h
    simp only [call, point]
    rw [add_right_comm]

theorem call_outcome (o : Outcome) (todo : List Op) :
    v.call ⟨o.pc, o.todo ++ todo, o.waiter⟩ = v.outcome o + total v.op todo := by
  simp only [call, outcome, total_append]
  rw [← add_assoc, add_right_comm]

end Weight

variable {p : Point} {c : Choice} {i w : ℕ} {s : State} {waiterOf : ℕ → Waiter} {own : Waiter} {now : ℤ} {o : Outcome}

theorem fire_send {s : Shared} (h : fire s waiterOf i now own c p = some o) {pc : PooledConn}
    (he : o.effect = .send w pc) : p = .at (.handOff pc w) ∧ (waiterOf w).ch = none ∧ o.pc = .straight := by
  cases fired h with
  | sends _ hch =>
    cases he
    exact ⟨rfl, hch, rfl⟩
  | _ => cases he

/-- Who waits after a step waited before it, unless the step parks a call. `active` only falls at a
decrement, and the size only changes at a `Resize`. -/
theorem fire_capacity {s : Shared} (h : fire s waiterOf i now own c p = some o) :
    (p = .at .parkWaiter ∨ (s.waiters = [] → o.shared.waiters = [])) ∧
      (p = .op .decActive ∧ o.shared.active = s.active - 1 ∨ s.active ≤ o.shared.active) ∧
      ((∃ n, p = .at (.resize n) ∧ o.shared.cfg.defaultPoolSize = max n 1) ∨
        o.shared.cfg = s.cfg) := by
  cases fired h with
  | decActive => exact ⟨.inr id, .inl ⟨rfl, rfl⟩, .inr rfl⟩
  | parks => exact ⟨.inl rfl, .inr le_rfl, .inr rfl⟩
  | resizes hsize => exact ⟨.inr id, .inr le_rfl, .inl ⟨_, rfl, hsize⟩⟩
  | countIdle | swaps | reserveAdd | warmAdd => exact ⟨.inr id, .inr (Int.le_add_one le_rfl), .inr rfl⟩
  | popsWaiter | reserves | dequeue | takesWaiters => exact ⟨.inr fun hw ↦ by simp_all, .inr le_rfl, .inr rfl⟩
  | _ => exact ⟨.inr id, .inr le_rfl, .inr rfl⟩

/-- What a step leaves as it is, unless it is one of a few. -/
theorem fire_fields {s : Shared} (h : fire s waiterOf i now own c p = some o) :
    (o.shared.closed = s.closed ∨ ∃ idle deadline, o.pc = .closeReadIdle idle deadline) ∧
      (p = .at .preAcquire ∨ p = .op .postRelease ∨
        o.shared.preAcquired = s.preAcquired ∧ o.shared.postReleased = s.postReleased) ∧
      ((∃ now, p = .at (.evict now)) ∨ (∃ n, p = .at (.resize n)) ∨ o.shared.cfg = s.cfg ∧ o.shared.idle = s.idle) ∧
      o.shared.held = match p with
        | .op (.returnConn conn) => conn :: s.held
        | _ => s.held := by
  cases fired h with
  | admitted => exact ⟨.inl rfl, .inl rfl, .inr (.inr ⟨rfl, rfl⟩), rfl⟩
  | postRelease => exact ⟨.inl rfl, .inr (.inl rfl), .inr (.inr ⟨rfl, rfl⟩), rfl⟩
  | evicts => exact ⟨.inl rfl, .inr (.inr ⟨rfl, rfl⟩), .inl ⟨_, rfl⟩, rfl⟩
  | resizes => exact ⟨.inl rfl, .inr (.inr ⟨rfl, rfl⟩), .inr (.inl ⟨_, rfl⟩), rfl⟩
  | swapClosed => exact ⟨.inr ⟨_, _, rfl⟩, .inr (.inr ⟨rfl, rfl⟩), .inr (.inr ⟨rfl, rfl⟩), rfl⟩
  | _ => exact ⟨.inl rfl, .inr (.inr ⟨rfl, rfl⟩), .inr (.inr ⟨rfl, rfl⟩), rfl⟩

def pointOf (s : State) (i : ℕ) : Option Point :=
  (s.calls[i]?).bind fun call ↦ call.point.map Prod.fst

def listening (s : State) (w : ℕ) : Bool :=
  match s.calls[w]? with
  | some call => listens call.pc
  | none => false

theorem exists_of_listening (h : listening s w = true) : ∃ call, s.calls[w]? = some call ∧ listens call.pc := by
  unfold listening at h
  split at h
  · exact ⟨_, ‹_›, h⟩
  · cases h

theorem advance_cases {t : State} (h : s.advance i c now = some t) :
    ∃ call p todo o, s.calls[i]? = some call ∧ s.waiterOf i = call.waiter ∧
      call.point = some (p, todo) ∧ pointOf s i = some p ∧
      fire s.shared s.waiterOf i now call.waiter c p = some o ∧ t = s.proceed i todo o := by
  unfold State.advance at h
  split at h
  · cases h
  · obtain ⟨call, hcall, h⟩ := Option.bind_eq_some_iff.mp h
    obtain ⟨⟨p, todo⟩, hpoint, h⟩ := Option.bind_eq_some_iff.mp h
    obtain ⟨o, ho, rfl⟩ := Option.map_eq_some_iff.mp h
    refine ⟨call, p, todo, o, hcall, ?_, hpoint, ?_, ho, rfl⟩
    · simp [State.waiterOf, hcall]
    · simp [pointOf, hcall, hpoint]

def opening : Pc → Bool
  | .preAcquire | .evict _ | .resize _ | .swapClosed _ | .warmLoadActive _ => true
  | _ => false

def Returning (conn : ℕ) (call : Call) : Prop :=
  call = ⟨.resetState conn, [], {}⟩ ∨ call = ⟨.releaseLoadClosed conn, [], {}⟩ ∨
    call = ⟨.straight, [.close conn, .decActive, .broadcast, .postRelease], {}⟩

theorem step_cases {t : State} {e : Event} (h : s.step e = some t) :
    (∃ i c now, e = .step i c now ∧ s.advance i c now = some t) ∨ t = s ∨
      (∃ pc, opening pc ∧ t = s.enter ⟨pc, [], {}⟩) ∨
      ∃ conn ∈ s.shared.held, ∃ call, Returning conn call ∧ t = (s.letGo conn).enter call := by
  cases e with
  | step i c now => exact Or.inl ⟨i, c, now, rfl, h⟩
  | release conn resetSession =>
    simp only [State.step] at h
    split at h
    · cases h
      refine Or.inr (Or.inr (Or.inr ⟨conn, ‹_›, _, ?_, rfl⟩))
      cases resetSession
      · exact Or.inr (Or.inl rfl)
      · exact Or.inl rfl
    · cases h
  | discard conn =>
    simp only [State.step] at h
    split at h
    · cases h
      exact Or.inr (Or.inr (Or.inr ⟨conn, ‹_›, _, Or.inr (Or.inr rfl), rfl⟩))
    · cases h
  | _ =>
    simp only [State.step] at h
    try split at h
    all_goals cases h
    all_goals first
      | exact Or.inr (Or.inl rfl)
      | exact Or.inr (Or.inr (Or.inl ⟨_, rfl, rfl⟩))

namespace Weight

variable (v : Weight M)

variable {call : Call} {todo : List Op}

theorem pc_of_point {c : Call} {pc : Pc} (h : c.point = some (.at pc, todo)) : c.pc = pc := by
  rcases c with ⟨pc', todo', w⟩
  unfold Call.point at h
  split at h <;> cases h
  rfl

theorem total_eq_add_point {calls : List Call} (hcall : calls[i]? = some call) (hpoint : call.point = some (p, todo)) :
    ∃ rest, total v.call calls = rest + v.point call.waiter p := by
  have hset := total_set v.call hcall ⟨.straight, [], {}⟩
  have hzero : v.call ⟨.straight, [], {}⟩ = 0 := by
    simp [Weight.call, v.straight, listens]
  rw [hzero, add_zero, v.call_point hpoint, add_comm (v.point _ _), ← add_assoc] at hset
  exact ⟨_, hset.symm⟩

theorem ofEffect_set (hcall : s.calls[i]? = some call) (hpoint : call.point = some (p, todo))
    (h : fire s.shared s.waiterOf i now call.waiter c p = some o) (todo' : List Op) :
    v.ofEffect (s.calls.set i ⟨o.pc, todo', o.waiter⟩) o.effect = v.ofEffect s.calls o.effect := by
  cases he : o.effect with
  | send w pc =>
    obtain ⟨rfl, -, hpc⟩ := fire_send h he
    have hlt : i < s.calls.length := (List.getElem?_eq_some_iff.mp hcall).1
    by_cases hw : i = w
    · subst hw
      have hold : ¬ listens call.pc = true := by simp [pc_of_point hpoint, listens]
      have hnew : ¬ listens o.pc = true := by simp [hpc, listens]
      simp only [ofEffect, List.getElem?_set_self hlt, hcall, hold, hnew]
    · simp only [ofEffect, List.getElem?_set_ne hw]
  | _ => rfl

/-- A step changes what all calls together account for by what the one call gives up and takes
on, and by what it does to others. -/
theorem total_proceed [IsRightCancelAdd M] (hcall : s.calls[i]? = some call) (hpoint : call.point = some (p, todo))
    (h : fire s.shared s.waiterOf i now call.waiter c p = some o) :
    total v.call (s.proceed i todo o).calls + v.point call.waiter p =
      total v.call s.calls + v.outcome o + v.ofEffect s.calls o.effect := by
  have hset := total_set v.call hcall ⟨o.pc, o.todo ++ todo, o.waiter⟩
  have happly := v.total_apply o.effect (s.calls.set i ⟨o.pc, o.todo ++ todo, o.waiter⟩) (by
    intro w pc c' he hc' hl
    obtain ⟨-, hch, hpc⟩ := fire_send h he
    by_cases hw : i = w
    · subst hw
      have hlt : i < s.calls.length := (List.getElem?_eq_some_iff.mp hcall).1
      rw [List.getElem?_set_self hlt] at hc'
      cases hc'
      rw [hpc] at hl
      cases hl
    · rw [List.getElem?_set_ne hw] at hc'
      simpa [State.waiterOf, hc'] using hch)
  rw [v.ofEffect_set hcall hpoint h] at happly
  rw [v.call_point hpoint, v.call_outcome, ← add_assoc, ← add_assoc] at hset
  apply add_right_cancel (b := total v.op todo)
  calc total v.call (s.proceed i todo o).calls + v.point call.waiter p + total v.op todo
      = total v.call (s.calls.set i ⟨o.pc, o.todo ++ todo, o.waiter⟩) + v.point call.waiter p +
          total v.op todo + v.ofEffect s.calls o.effect := by
        rw [State.proceed, happly]
        simp only [add_assoc, add_left_comm, add_comm]
    _ = total v.call s.calls + v.outcome o + total v.op todo + v.ofEffect s.calls o.effect := by
        rw [hset]
    _ = total v.call s.calls + v.outcome o + v.ofEffect s.calls o.effect + total v.op todo := by
        rw [add_right_comm]

end Weight

end PgRouter.Pool.Weights
