import PgRouter.Pool.Closing
import PgRouter.Pool.Registry

namespace PgRouter.Pool.Shutdown

open Client.Protocol Library.Accounts Library.Runs Model Firing Weights Slots Promises Closing
open Registry (Key ResizeRecord mergeConfig splitName want)

section Code

/-- The janitor's `janitorStop`: nil, open, or closed and not yet set to nil. -/
inductive Janitor
  | absent
  | running
  | stopping
  deriving DecidableEq

/-- The parts of `Stats` that the pool's state has; its totals are left out. -/
structure Stats where
  name : Text
  active : ℤ
  idle : ℕ
  waiters : ℕ

/-- Where a call of an operation of the manager is. A `Get` is at its read section or at its write
section, for itself or for an `Acquire`, of which it is known whether `CloseWithDeadline` had begun
before it. `CloseWithDeadline` is at one of the steps that stop the janitor, takes its snapshot,
starts the goroutines that close the pools and waits for them, or clears the map. `ApplyDefaultSize`
and `AllStats` take their snapshot and then go through it, the former with the call of `Resize` it
is in. -/
inductive Op
  | get (k : Key) (acquire : Option Bool)
  | create (k : Key) (acquire : Option Bool)
  | checkJanitor (deadline : Bool)
  | stopJanitor (deadline : Bool)
  | awaitJanitor (deadline : Bool)
  | snapshot (deadline : Bool)
  | closing (deadline : Bool) (pending : List ℕ) (calls : List (ℕ × ℕ))
  | clear
  | applySize (defaultSize : ℤ) (perKey : Option (Key → ℤ))
  | resizing (defaultSize : ℤ) (perKey : Option (Key → ℤ)) (pending : List ℕ) (call : Option (ℕ × ℕ))
      (out : List ResizeRecord)
  | allStats
  | stats (pending : List ℕ) (out : List Stats)
  | returned

structure Entry where
  key : Key
  pool : State

/-- The manager: every pool that has been created, whether the map is nil, the janitor, and the calls
of its operations. By pool and number, `late` are the calls of `Acquire` that were issued once
`CloseWithDeadline` had begun, and `closers` those by which it closes the pools. -/
structure Manager where
  defaultCfg : Config
  configFor : Key → Option Config
  entries : List Entry
  isNil : Bool
  janitor : Janitor
  ops : List Op
  begun : Bool
  late : List (ℕ × ℕ)
  closers : List (ℕ × ℕ)
  panicked : Bool

/-- A call of an operation, a step of one, or an event of one pool: a step of a call there, or an
operation of its own by somebody who has got the pool from `Get`, or by the janitor. -/
inductive Event
  | get (k : Key)
  | acquire (k : Key)
  | release (k : Key) (c : ℕ) (reset : Bool)
  | applyDefaultSize (defaultSize : ℤ) (perKey : Option (Key → ℤ))
  | allStats
  | closeWithDeadline (deadline : Bool)
  | step (n : ℕ)
  | pool (j : ℕ) (e : Model.Event)

namespace Manager

def lookup (m : Manager) (k : Key) : Option ℕ :=
  if m.isNil then none else m.entries.findIdx? fun e ↦ e.key = k

def pools (m : Manager) : List ℕ := if m.isNil then [] else List.range m.entries.length

def issue (m : Manager) (op : Op) : Manager := { m with ops := m.ops ++ [op] }

def setOp (m : Manager) (n : ℕ) (op : Op) : Manager := { m with ops := m.ops.set n op }

def panic (m : Manager) : Manager := { m with panicked := true }

def put (m : Manager) (j : ℕ) (entry : Entry) (pool : State) : Manager :=
  { m with entries := m.entries.set j { entry with pool := pool } }

/-- An event of pool `j`, with the number that a new call there gets. -/
def poolStep (m : Manager) (j : ℕ) (e : Model.Event) : Option (Manager × ℕ) :=
  (m.entries[j]?).bind fun entry ↦
    (entry.pool.step e).map fun pool ↦ (m.put j entry pool, entry.pool.calls.length)

def markLate (m : Manager) (late : Bool) (x : ℕ × ℕ) : Manager :=
  if late then { m with late := m.late ++ [x] } else m

def enterAcquire (m : Manager) (late : Bool) (j : ℕ) : Option Manager :=
  (m.poolStep j .acquire).map fun r ↦ r.1.markLate late (j, r.2)

def got (m : Manager) (n j : ℕ) : Option Bool → Option Manager
  | none => some (m.setOp n .returned)
  | some late => (m.setOp n .returned).enterAcquire late j

def returned (m : Manager) (x : ℕ × ℕ) : Bool :=
  (m.entries[x.1]?).any fun entry ↦ (entry.pool.calls[x.2]?).any fun call ↦ call.point.isNone

def newPool (m : Manager) (k : Key) : Entry :=
  ⟨k, new (mergeConfig m.defaultCfg (m.configFor k))⟩

def statsOf (entry : Entry) : Stats :=
  ⟨entry.key.string, entry.pool.shared.active,
    (entry.pool.shared.channel entry.pool.shared.idle).queue.length, entry.pool.shared.waiters.length⟩

/-- One step of an operation. An assignment to a nil map panics, as does closing a channel that is
nil or closed. -/
def perform (m : Manager) (n : ℕ) : Op → Option Manager
  | .get k acquire =>
    match m.lookup k with
    | some j => m.got n j acquire
    | none => some (m.setOp n (.create k acquire))
  | .create k acquire =>
    match m.lookup k with
    | some j => m.got n j acquire
    | none =>
      if m.isNil then some m.panic
      else ({ m with entries := m.entries ++ [m.newPool k] }).got n m.entries.length acquire
  | .checkJanitor deadline =>
    some (m.setOp n (if m.janitor = .absent then .snapshot deadline else .stopJanitor deadline))
  | .stopJanitor deadline =>
    if m.janitor = .running then
      some { m.setOp n (.awaitJanitor deadline) with janitor := .stopping }
    else some m.panic
  | .awaitJanitor deadline => some { m.setOp n (.snapshot deadline) with janitor := .absent }
  | .snapshot deadline => some (m.setOp n (.closing deadline m.pools []))
  | .closing deadline (j :: pending) calls =>
    (m.poolStep j (.close deadline)).map fun r ↦
      { r.1.setOp n (.closing deadline pending (calls ++ [(j, r.2)])) with closers := m.closers ++ [(j, r.2)] }
  | .closing _ [] calls => if calls.all m.returned then some (m.setOp n .clear) else none
  | .clear => some { m.setOp n .returned with isNil := true }
  | .applySize defaultSize perKey => some (m.setOp n (.resizing defaultSize perKey m.pools none []))
  | .resizing defaultSize perKey (j :: pending) none out => (m.entries[j]?).bind fun entry ↦
    let k := splitName entry.key.string
    let size := want defaultSize perKey k
    if size ≤ 0 then some (m.setOp n (.resizing defaultSize perKey pending none out))
    else if entry.pool.shared.wmuHeld then none
    else
      let prev := entry.pool.shared.cfg.defaultPoolSize
      if prev = size then some (m.setOp n (.resizing defaultSize perKey pending none out))
      else (m.poolStep j (.resize size)).map fun r ↦
        r.1.setOp n (.resizing defaultSize perKey pending (some (j, r.2)) (out ++ [⟨k, prev, size⟩]))
  | .resizing defaultSize perKey pending (some call) out =>
    if m.returned call then some (m.setOp n (.resizing defaultSize perKey pending none out))
    else none
  | .resizing defaultSize _ [] none _ =>
    some { m.setOp n .returned with defaultCfg := { m.defaultCfg with defaultPoolSize := defaultSize } }
  | .allStats => some (m.setOp n (.stats m.pools []))
  | .stats (j :: pending) out =>
    (m.entries[j]?).map fun entry ↦ m.setOp n (.stats pending (out ++ [statsOf entry]))
  | .stats [] _ => some (m.setOp n .returned)
  | .returned => none

def crashed (m : Manager) : Bool := m.panicked || m.entries.any fun e ↦ e.pool.shared.panicked

def step (m : Manager) (event : Event) : Option Manager :=
  if m.crashed then none
  else match event with
    | .get k => some (m.issue (.get k none))
    | .acquire k => some (m.issue (.get k (some m.begun)))
    | .release k c reset =>
      match m.lookup k with
      | some j => (m.poolStep j (.release c reset)).map Prod.fst
      | none => some m
    | .applyDefaultSize defaultSize perKey => some (m.issue (.applySize defaultSize perKey))
    | .allStats => some (m.issue .allStats)
    | .closeWithDeadline deadline => some { m.issue (.checkJanitor deadline) with begun := true }
    | .step n => (m.ops[n]?).bind (m.perform n)
    | .pool j .acquire => m.enterAcquire m.begun j
    | .pool j e => (m.poolStep j e).map Prod.fst

end Manager

def newManager (defaultCfg : Config) (configFor : Key → Option Config) (janitor : Bool) : Manager :=
  ⟨defaultCfg, configFor, [], false, if janitor then .running else .absent, [], false, [], [], false⟩

end Code

section Refusal

/-- The number of steps an `Acquire` that gets no connection has left: `PreAcquire`, the look at `closed`,
`PostRelease`. -/
def left (call : Call) : Option ℕ :=
  match call.pc, call.todo with
  | .preAcquire, [] => some 3
  | .loadClosed, [] => some 2
  | .straight, [.postRelease] => some 1
  | .straight, [] => some 0
  | _, _ => none

variable {s t : State} {i : ℕ} {call : Call} {n : ℕ}

theorem left_cases (h : left call = some n) :
    call.pc = .preAcquire ∧ call.todo = [] ∧ n = 3 ∨ call.pc = .loadClosed ∧ call.todo = [] ∧ n = 2 ∨
      call.pc = .straight ∧ call.todo = [.postRelease] ∧ n = 1 ∨ call.pc = .straight ∧ call.todo = [] ∧ n = 0 := by
  unfold left at h
  split at h <;> simp_all

theorem fire_left {c : Choice} {now : ℤ} {p : Point} {todo : List Model.Op} {o : Outcome}
    (hleft : left call = some n) (hpoint : call.point = some (p, todo)) (hclosed : s.shared.closed = true)
    (hfire : fire s.shared s.waiterOf i now call.waiter c p = some o) :
    o.effect = .none ∧ ∃ k < n, left ⟨o.pc, o.todo ++ todo, o.waiter⟩ = some k := by
  obtain ⟨pc, rest, waiter⟩ := call
  obtain ⟨hpc, hrest, rfl⟩ | ⟨hpc, hrest, rfl⟩ | ⟨hpc, hrest, rfl⟩ | ⟨hpc, hrest, rfl⟩ := left_cases hleft
  · cases hpc
    cases hrest
    cases hpoint
    cases fired hfire with
    | refused => exact ⟨rfl, 0, by omega, rfl⟩
    | admitted => exact ⟨rfl, 2, by omega, rfl⟩
  · cases hpc
    cases hrest
    cases hpoint
    cases fired hfire with
    | shut => exact ⟨rfl, 1, by omega, rfl⟩
    | unshut hopen => cases hopen.symm.trans hclosed
  · cases hpc
    cases hrest
    cases hpoint
    cases hfire
    exact ⟨rfl, 0, by omega, rfl⟩
  · cases hpc
    cases hrest
    cases hpoint

theorem left_touch {j : ℕ} {e : Effect} (h : left call = some n) : left (touch j call e) = some n := by
  cases e with
  | wake =>
    have hpc : call.pc ≠ .drainAsleep := by
      intro hpc
      simp [left, hpc] at h
    rw [touch, Call.wake]
    split
    · exact absurd ‹_› hpc
    · exact h
  | send w pc | closeCh w =>
    rw [touch]
    split <;> exact h
  | _ => exact h

section

variable (hcall : s.calls[i]? = some call)

include hcall

theorem step_left {e : Model.Event} (hleft : left call = some n) (hclosed : s.shared.closed = true)
    (h : s.step e = some t) : ∃ call' k, t.calls[i]? = some call' ∧ left call' = some k := by
  obtain ⟨i', c, now, rfl, h⟩ | rfl | ⟨pc, -, rfl⟩ | ⟨conn, -, call', -, rfl⟩ := step_cases h
  · obtain ⟨call', p, todo, o, hcall', -, hpoint, -, hfire, rfl⟩ := advance_cases h
    by_cases hi : i' = i
    · subst hi
      obtain rfl : call' = call := Option.some.inj (hcall'.symm.trans hcall)
      obtain ⟨heffect, k, -, hk⟩ := fire_left hleft hpoint hclosed hfire
      refine ⟨_, k, getElem?_apply (List.getElem?_set_self (List.getElem?_eq_some_iff.mp hcall).1), ?_⟩
      exact left_touch hk
    · refine ⟨_, n, getElem?_apply ((List.getElem?_set_ne hi).trans hcall), left_touch hleft⟩
  · exact ⟨call, n, hcall, hleft⟩
  · exact ⟨call, n, (List.getElem?_append_left (List.getElem?_eq_some_iff.mp hcall).1).trans hcall, hleft⟩
  · exact ⟨call, n, (List.getElem?_append_left (List.getElem?_eq_some_iff.mp hcall).1).trans hcall, hleft⟩

theorem step_go (hleft : left call = some (n + 1)) (hclosed : s.shared.closed = true)
    (hpanicked : s.shared.panicked = false) (now : ℤ) :
    ∃ t call', s.step (.step i .go now) = some t ∧ t.calls[i]? = some call' ∧ left call' = some n ∧
      t.shared.closed = true ∧ t.shared.panicked = false ∧ t.shared.dialed = s.shared.dialed ∧
      t.shared.held = s.shared.held := by
  have hset (b : Call) : (s.calls.set i b)[i]? = some b := List.getElem?_set_self (List.getElem?_eq_some_iff.mp hcall).1
  obtain ⟨pc, todo, waiter⟩ := call
  obtain ⟨hpc, htodo, hn⟩ | ⟨hpc, htodo, hn⟩ | ⟨hpc, htodo, hn⟩ | ⟨hpc, htodo, hn⟩ := left_cases hleft
  · cases hpc
    cases htodo
    cases hn
    refine ⟨⟨{ s.shared with preAcquired := s.shared.preAcquired + 1 }, s.calls.set i ⟨.loadClosed, [], waiter⟩⟩,
      ⟨.loadClosed, [], waiter⟩, ?_, hset _, rfl, hclosed, hpanicked, rfl, rfl⟩
    rw [State.step, State.advance, if_neg (by simp [hpanicked]), hcall]
    rfl
  · cases hpc
    cases htodo
    cases hn
    refine ⟨⟨s.shared, s.calls.set i ⟨.straight, [.postRelease], waiter⟩⟩, ⟨.straight, [.postRelease], waiter⟩, ?_,
      hset _, rfl, hclosed, hpanicked, rfl, rfl⟩
    simp only [State.step, State.advance, hpanicked, hcall, Call.point, fire, act, hclosed]
    rfl
  · cases hpc
    cases htodo
    cases hn
    refine ⟨⟨{ s.shared with postReleased := s.shared.postReleased + 1 }, s.calls.set i ⟨.straight, [], waiter⟩⟩,
      ⟨.straight, [], waiter⟩, ?_, hset _, rfl, hclosed, hpanicked, rfl, rfl⟩
    rw [State.step, State.advance, if_neg (by simp [hpanicked]), hcall]
    rfl
  · cases hn

theorem returns_of_left (hleft : left call = some n) (hclosed : s.shared.closed = true)
    (hpanicked : s.shared.panicked = false) (now : ℤ) :
    ∃ t call', Run State.step anyStep s (List.replicate n (.step i .go now)) t ∧ t.calls[i]? = some call' ∧
      left call' = some 0 ∧ t.shared.dialed = s.shared.dialed ∧ t.shared.held = s.shared.held := by
  induction n generalizing s call with
  | zero => exact ⟨s, call, .nil s, hcall, hleft, rfl, rfl⟩
  | succ n ih =>
    obtain ⟨u, call', hstep, hcall', hleft', hclosed', hpanicked', hdialed, hheld⟩ :=
      step_go hcall hleft hclosed hpanicked now
    obtain ⟨t, call'', hrun, hcall'', hleft'', hdialed', hheld'⟩ := ih hcall' hleft' hclosed' hpanicked'
    exact ⟨t, call'', .cons rfl hstep hrun, hcall'', hleft'', hdialed'.trans hdialed, hheld'.trans hheld⟩

end

end Refusal

section Patience

/-- The call has given up waiting and has not yet looked into the channel of its waiter. -/
def givesUp : Pc → Bool
  | .closeCanceled | .dequeue | .drainCh => true
  | _ => false

/-- No waiter gives up once its channel is closed, and the channel of one that is giving up is not closed. -/
def waitsOut (s : State) : Model.Event → Bool
  | .step i c _ =>
    match pointOf s i with
    | some (.at (.wait _)) => !(s.waiterOf i).chClosed || c ≠ .cancel && c ≠ .timeout
    | some (.op (.closeCh w)) => !(s.calls[w]?).any fun call ↦ givesUp call.pc
    | _ => true
  | _ => true

structure Patient (s : State) : Prop extends Unharmed s where
  waits : ∀ call ∈ s.calls, givesUp call.pc = true → call.waiter.chClosed = false

/-- What a step does about `closed` and about those who wait. -/
structure Shuts (s : Shared) (own : Waiter) (c : Choice) (p : Point) (o : Outcome) : Prop where
  closed : s.closed = true → o.shared.closed = true
  waits : givesUp o.pc = true → o.waiter.chClosed = own.chClosed ∧ o.effect = .none ∧
    ((∃ armed, p = .at (.wait armed) ∧ (c = .cancel ∨ c = .timeout)) ∨ ∃ pc, p = .at pc ∧ givesUp pc = true)
  effect : ∀ w, o.effect = .closeCh w → p = .op (.closeCh w)

theorem fire_shuts {s : Shared} {waiterOf : ℕ → Waiter} {i : ℕ} {now : ℤ} {own : Waiter} {c : Choice} {p : Point}
    {o : Outcome} (h : fire s waiterOf i now own c p = some o) : Shuts s own c p o := by
  cases fired h with
  | closeCh =>
    refine ⟨id, nofun, fun w hw ↦ ?_⟩
    cases hw
    rfl
  | swapClosed => exact ⟨fun _ ↦ rfl, nofun, nofun⟩
  | closeCanceled | dequeue => exact ⟨id, fun _ ↦ ⟨rfl, rfl, .inr ⟨_, rfl, rfl⟩⟩, nofun⟩
  | givesUp hc => exact ⟨id, fun _ ↦ ⟨rfl, rfl, .inl ⟨_, rfl, hc⟩⟩, nofun⟩
  | _ => exact ⟨id, nofun, nofun⟩

variable {s t : State}

theorem step_closed {e : Model.Event} (h : s.step e = some t) (hclosed : s.shared.closed = true) :
    t.shared.closed = true := by
  obtain ⟨i, c, now, rfl, h⟩ | rfl | ⟨pc, -, rfl⟩ | ⟨conn, -, call, -, rfl⟩ := step_cases h
  · obtain ⟨call, p, todo, o, -, -, -, -, hfire, rfl⟩ := advance_cases h
    exact (fire_shuts hfire).closed hclosed
  · exact hclosed
  · exact hclosed
  · exact hclosed

theorem drainsOpen_of_patient (hs : Patient s) (e : Model.Event) : drainsOpen s e = true := by
  cases e with
  | step i c now =>
    simp only [drainsOpen]
    split
    · next hp =>
      obtain ⟨call, hcall, hpoint⟩ := Option.bind_eq_some_iff.mp hp
      obtain ⟨⟨p, todo⟩, hpoint, rfl⟩ := Option.map_eq_some_iff.mp hpoint
      have hopen := hs.waits call (List.mem_of_getElem? hcall) (by rw [Weight.pc_of_point hpoint]; rfl)
      simpa [State.waiterOf, hcall] using hopen
    · rfl
  | _ => rfl

theorem step_patient (s : State) (e : Model.Event) (t : State) (hs : Patient s) (hg : waitsOut s e = true)
    (h : s.step e = some t) : Patient t := by
  refine ⟨step_unharmed s e t hs.toUnharmed (drainsOpen_of_patient hs e) h, fun c' hc' hgives ↦ ?_⟩
  have hold {call : Call} (hnew : givesUp call.pc = false) (hc : c' ∈ s.calls ++ [call]) :
      c'.waiter.chClosed = false := by
    rcases List.mem_append.mp hc with hc | hc
    · exact hs.waits c' hc hgives
    · rw [List.mem_singleton.mp hc, hnew] at hgives
      cases hgives
  obtain ⟨i, c, now, rfl, h⟩ | rfl | ⟨pc, hpc, rfl⟩ | ⟨conn, -, call, hcall, rfl⟩ := step_cases h
  · obtain ⟨call, p, todo, o, hcall, hown, hpoint, hp, hfire, rfl⟩ := advance_cases h
    have hshuts := fire_shuts hfire
    obtain ⟨j, hj⟩ := List.getElem?_of_mem hc'
    rcases proceed_call hcall hj with ⟨b, rfl, hb⟩ | ⟨cs, hspawn, hmem⟩
    · rw [touch_congr _ _ _ givesUp rfl] at hgives
      rcases hb with ⟨-, rfl⟩ | ⟨-, hb⟩
      · obtain ⟨hsame, heffect, hwhence⟩ := hshuts.waits hgives
        rw [heffect]
        refine hsame.trans ?_
        rcases hwhence with ⟨armed, rfl, hc⟩ | ⟨pc, rfl, hpc⟩
        · simp only [waitsOut, hp, hown] at hg
          rcases hc with rfl | rfl <;> simpa using hg
        · exact hs.waits call (List.mem_of_getElem? hcall) (by rw [Weight.pc_of_point hpoint, hpc])
      · have hopen := hs.waits b (List.mem_of_getElem? hb) hgives
        have hclose (w : ℕ) (he : o.effect = .closeCh w) : w ≠ j := by
          rintro rfl
          simp [waitsOut, hp, hshuts.effect w he, hb, hgives] at hg
        cases he : o.effect with
        | closeCh w => rwa [touch, if_neg (hclose w he)]
        | send w pc =>
          rw [touch]
          split <;> exact hopen
        | wake =>
          rw [touch, Call.wake]
          split <;> exact hopen
        | _ => exact hopen
    · cases (fire_course hfire).spawns cs hspawn c' hmem <;> cases hgives
  · exact hs.waits c' hc' hgives
  · refine hold ?_ hc'
    cases pc <;> first | rfl | cases hpc
  · refine hold ?_ hc'
    rcases hcall with rfl | rfl | rfl <;> rfl

theorem patient_new (cfg : Config) : Patient (new cfg) :=
  ⟨unharmed_new cfg, fun _ hcall ↦ absurd hcall List.not_mem_nil⟩

/-- `CloseWithDeadline` has not yet taken its first step. -/
def starts : Pc → Bool
  | .swapClosed _ => true
  | _ => false

/-- Call `i` is to close the pool by its first step, or has done so. -/
def Closes (s : State) (i : ℕ) : Prop :=
  s.shared.closed = true ∨ ∃ call, s.calls[i]? = some call ∧ starts call.pc = true

theorem step_closes {e : Model.Event} {i : ℕ} (h : s.step e = some t) (hs : Closes s i) : Closes t i := by
  rcases hs with hclosed | ⟨call, hcall, hstarts⟩
  · exact Or.inl (step_closed h hclosed)
  have hlt := (List.getElem?_eq_some_iff.mp hcall).1
  obtain ⟨i', c, now, rfl, h⟩ | rfl | ⟨pc, -, rfl⟩ | ⟨conn, -, new, -, rfl⟩ := step_cases h
  · obtain ⟨call', p, todo, o, hcall', -, hpoint, -, hfire, rfl⟩ := advance_cases h
    by_cases hi : i' = i
    · subst hi
      left
      obtain rfl : call' = call := Option.some.inj (hcall'.symm.trans hcall)
      obtain ⟨pc, rest, waiter⟩ := call'
      cases pc <;> first | (cases hstarts; done) | cases hpoint
      cases fired hfire with
      | closedBefore hclosed => exact hclosed
      | swapClosed => rfl
    · refine Or.inr ⟨_, getElem?_apply ((List.getElem?_set_ne hi).trans hcall), ?_⟩
      rw [touch_congr _ _ _ starts rfl, hstarts]
  · exact Or.inr ⟨call, hcall, hstarts⟩
  · exact Or.inr ⟨call, (List.getElem?_append_left hlt).trans hcall, hstarts⟩
  · exact Or.inr ⟨call, (List.getElem?_append_left hlt).trans hcall, hstarts⟩

end Patience

section Condition

def looksUp : Op → Bool
  | .get _ _ | .create _ _ => true
  | _ => false

def stopsJanitor : Op → Bool
  | .checkJanitor _ | .stopJanitor _ | .awaitJanitor _ => true
  | _ => false

def started (m : Manager) (x : ℕ × ℕ) : Bool :=
  (m.entries[x.1]?).any fun entry ↦ (entry.pool.calls[x.2]?).any fun call ↦ !starts call.pc

/-- A goroutine of `CloseWithDeadline` has taken its first step in pool `j`. -/
def shutting (m : Manager) (j : ℕ) : Bool := m.closers.any fun x ↦ x.1 = j && started m x

/-- No `Get` and no `Acquire` is issued once `CloseWithDeadline` has cleared the map, which it does while none of
them looks its key up. A late `Acquire` is issued once `CloseWithDeadline` has started in its pool. No
`CloseWithDeadline` is issued while another one stops the janitor. No waiter gives up once its channel is closed,
and no channel of one that is giving up is closed. -/
def orderly (m : Manager) : Event → Bool
  | .get _ => !m.isNil
  | .acquire k => !m.isNil && (!m.begun || (m.lookup k).any (shutting m))
  | .closeWithDeadline _ => !m.ops.any stopsJanitor
  | .step n =>
    match m.ops[n]? with
    | some .clear => !m.ops.any looksUp
    | _ => true
  | .pool j .acquire => !m.begun || shutting m j
  | .pool j e => (m.entries[j]?).all fun entry ↦ waitsOut entry.pool e
  | _ => true

end Condition

section Pools

def ClosedAt (entries : List Entry) (j : ℕ) : Prop :=
  ∃ entry, entries[j]? = some entry ∧ entry.pool.shared.closed = true

def ClosingAt (entries : List Entry) (x : ℕ × ℕ) : Prop :=
  ∃ entry, entries[x.1]? = some entry ∧ Closes entry.pool x.2

/-- The call gets no connection: its pool is closed, and it has so many steps left. -/
def Refused (entries : List Entry) (x : ℕ × ℕ) : Prop :=
  ∃ entry, entries[x.1]? = some entry ∧ entry.pool.shared.closed = true ∧
    ∃ call n, entry.pool.calls[x.2]? = some call ∧ left call = some n

/-- The pools have gone on, and there may be one more. -/
structure Goes (entries entries' : List Entry) : Prop where
  found : ∀ k j, entries.findIdx? (fun e ↦ decide (e.key = k)) = some j →
    entries'.findIdx? (fun e ↦ decide (e.key = k)) = some j
  patient : (∀ entry ∈ entries, Patient entry.pool) → ∀ entry ∈ entries', Patient entry.pool
  closed : ∀ j, ClosedAt entries j → ClosedAt entries' j
  closing : ∀ x, ClosingAt entries x → ClosingAt entries' x
  refused : ∀ x, Refused entries x → Refused entries' x

variable {entries : List Entry} {j : ℕ} {entry : Entry} {pool : State} {e : Model.Event}

theorem Goes.refl (entries : List Entry) : Goes entries entries :=
  ⟨fun _ _ h ↦ h, fun h ↦ h, fun _ h ↦ h, fun _ h ↦ h, fun _ h ↦ h⟩

theorem Goes.append (entries : List Entry) {entry : Entry} (hnew : Patient entry.pool) :
    Goes entries (entries ++ [entry]) := by
  have hold {i : ℕ} {e : Entry} (h : entries[i]? = some e) : (entries ++ [entry])[i]? = some e :=
    (List.getElem?_append_left (List.getElem?_eq_some_iff.mp h).1).trans h
  refine ⟨fun k i h ↦ ?_, fun h e he ↦ ?_, ?_, ?_, ?_⟩
  · rw [List.findIdx?_append, h]
    rfl
  · rcases List.mem_append.mp he with he | he
    · exact h e he
    · rw [List.mem_singleton.mp he]
      exact hnew
  · rintro i ⟨e, he, h⟩
    exact ⟨e, hold he, h⟩
  · rintro x ⟨e, he, h⟩
    exact ⟨e, hold he, h⟩
  · rintro x ⟨e, he, h⟩
    exact ⟨e, hold he, h⟩

theorem Goes.put (hentry : entries[j]? = some entry) (hg : waitsOut entry.pool e = true)
    (h : entry.pool.step e = some pool) : Goes entries (entries.set j { entry with pool := pool }) := by
  have hlt := (List.getElem?_eq_some_iff.mp hentry).1
  have hput {P : Entry → Prop} (hP : P entry → P { entry with pool := pool }) {i : ℕ}
      (hi : ∃ e, entries[i]? = some e ∧ P e) :
      ∃ e, (entries.set j { entry with pool := pool })[i]? = some e ∧ P e := by
    obtain ⟨e, he, hPe⟩ := hi
    by_cases hij : j = i
    · subst hij
      obtain rfl : entry = e := Option.some.inj (hentry.symm.trans he)
      exact ⟨_, List.getElem?_set_self hlt, hP hPe⟩
    · exact ⟨e, (List.getElem?_set_ne hij).trans he, hPe⟩
  refine ⟨fun k i hi ↦ ?_, fun hall e he ↦ ?_, fun i ↦ hput (step_closed h), fun x ↦ hput (step_closes h), ?_⟩
  · have hfind (l : List Entry) : l.findIdx? (fun e ↦ decide (e.key = k)) =
        (l.map Entry.key).findIdx? (fun k' ↦ decide (k' = k)) := by
      rw [List.findIdx?_map]
      rfl
    have hkeys : (entries.set j { entry with pool := pool }).map Entry.key = entries.map Entry.key := by
      rw [List.map_set]
      refine List.ext_getElem? fun i ↦ ?_
      by_cases hij : j = i
      · subst hij
        rw [List.getElem?_set_self (by simpa using hlt), List.getElem?_map, hentry]
        rfl
      · rw [List.getElem?_set_ne hij]
    rw [← hi, hfind, hfind, hkeys]
  · rcases List.mem_or_eq_of_mem_set he with he | rfl
    · exact hall e he
    · exact step_patient entry.pool _ pool (hall entry (List.mem_of_getElem? hentry)) hg h
  · intro x hx
    refine hput (P := fun e ↦ e.pool.shared.closed = true ∧
      ∃ call n, e.pool.calls[x.2]? = some call ∧ left call = some n) ?_ hx
    rintro ⟨hclosed, call, n, hcall, hleft⟩
    exact ⟨step_closed h hclosed, step_left hcall hleft hclosed h⟩

end Pools

section Operations

/-- What an operation of the manager relies on: a `Get` finds the map, and that of a late `Acquire` its pool, which is
closed. -/
def Op.Sound (m : Manager) : Op → Prop
  | .get k acquire | .create k acquire => m.isNil = false ∧ (acquire = some true →
      ∃ j, m.entries.findIdx? (fun e ↦ decide (e.key = k)) = some j ∧ ClosedAt m.entries j)
  | _ => True

def checks : Op → ℕ
  | .checkJanitor _ => 1
  | _ => 0

def stops : Op → ℕ
  | .stopJanitor _ => 1
  | _ => 0

def awaits : Op → ℕ
  | .awaitJanitor _ => 1
  | _ => 0

/-- One `CloseWithDeadline` at a time stops the janitor. -/
structure Stopping (janitor : Janitor) (ops : List Op) : Prop where
  single : total checks ops + total stops ops + total awaits ops ≤ 1
  running : 0 < total stops ops → janitor = .running
  awaited : janitor = .stopping → 0 < total awaits ops

section

variable {janitor janitor' : Janitor} {ops : List Op} {n : ℕ} {op op' : Op}

theorem weights_of_plain (h : stopsJanitor op = false) : checks op = 0 ∧ stops op = 0 ∧ awaits op = 0 := by
  cases op <;> first | (cases h; done) | exact ⟨rfl, rfl, rfl⟩

theorem weights_le (op : Op) : checks op + stops op + awaits op ≤ 1 := by
  cases op <;> first | exact le_rfl | exact Nat.zero_le 1

theorem le_total (f : Op → ℕ) (hf : f .returned = 0) (hop : ops[n]? = some op) : f op ≤ total f ops := by
  have hset := total_set f hop .returned
  omega

theorem Stopping.set (h : Stopping janitor ops) (hop : ops[n]? = some op) (hplain : stopsJanitor op = false)
    (hplain' : stopsJanitor op' = false) : Stopping janitor (ops.set n op') := by
  have hzero := weights_of_plain hplain
  have hzero' := weights_of_plain hplain'
  have hset (f : Op → ℕ) (hf : f op = 0) (hf' : f op' = 0) : total f (ops.set n op') = total f ops := by
    have := total_set f hop op'
    omega
  obtain ⟨hsingle, hrunning, hawaited⟩ := h
  constructor <;> simpa only [hset checks hzero.1 hzero'.1, hset stops hzero.2.1 hzero'.2.1,
    hset awaits hzero.2.2 hzero'.2.2]

/-- The `CloseWithDeadline` that stops the janitor goes on. -/
theorem Stopping.go (h : Stopping janitor ops) (hop : ops[n]? = some op)
    (hone : checks op + stops op + awaits op = 1) (hrunning : 0 < stops op' → janitor' = .running)
    (hawaited : janitor' = .stopping → 0 < awaits op') :
    Stopping janitor' (ops.set n op') := by
  have hsingle := h.single
  have hle := weights_le op'
  have hchecks := total_set checks hop op'
  have hstops := total_set stops hop op'
  have hawaits := total_set awaits hop op'
  have hchecks' := le_total checks rfl hop
  have hstops' := le_total stops rfl hop
  have hawaits' := le_total awaits rfl hop
  refine ⟨by omega, fun hpos ↦ hrunning (by omega), fun hj ↦ ?_⟩
  have := hawaited hj
  omega

theorem Stopping.issue (h : Stopping janitor ops) (hplain : stops op = 0)
    (hop : stopsJanitor op = true → ops.any stopsJanitor = false) : Stopping janitor (ops ++ [op]) := by
  obtain ⟨hsingle, hrunning, hawaited⟩ := h
  have hle := weights_le op
  have hzero (hs : stopsJanitor op = true) :
      total checks ops = 0 ∧ total stops ops = 0 ∧ total awaits ops = 0 := by
    have hall (o : Op) (ho : o ∈ ops) := weights_of_plain (by simpa using List.any_eq_false.mp (hop hs) o ho)
    exact ⟨total_zero fun o ho ↦ (hall o ho).1, total_zero fun o ho ↦ (hall o ho).2.1,
      total_zero fun o ho ↦ (hall o ho).2.2⟩
  have hcases : checks op = 0 ∧ awaits op = 0 ∨ total checks ops = 0 ∧ total stops ops = 0 ∧ total awaits ops = 0 := by
    cases hs : stopsJanitor op with
    | false => exact Or.inl ⟨(weights_of_plain hs).1, (weights_of_plain hs).2.2⟩
    | true => exact Or.inr (hzero hs)
  constructor <;> simp only [total_append, total_cons, total_nil, add_zero, hplain]
  · omega
  · exact hrunning
  · intro hj
    have := hawaited hj
    omega

end

structure Sane (m : Manager) : Prop where
  unpanicked : m.panicked = false
  pools : ∀ entry ∈ m.entries, Patient entry.pool
  refused : ∀ x ∈ m.late, Refused m.entries x
  closers : ∀ x ∈ m.closers, ClosingAt m.entries x
  ops : ∀ op ∈ m.ops, op.Sound m
  janitor : Stopping m.janitor m.ops

variable {m m' : Manager} {n j : ℕ} {op op' : Op}

theorem Op.Sound.goes (h : op.Sound m) (hgoes : Goes m.entries m'.entries)
    (hnil : m'.isNil = m.isNil ∨ looksUp op = false) : op.Sound m' := by
  cases op with
  | get k acquire | create k acquire =>
    refine ⟨(hnil.resolve_right nofun).trans h.1, fun hlate ↦ ?_⟩
    obtain ⟨j, hj, hclosed⟩ := h.2 hlate
    exact ⟨j, hgoes.found k j hj, hgoes.closed j hclosed⟩
  | _ => trivial

section

variable (hm : Sane m)

include hm

/-- A step that leaves the map in place. -/
theorem Sane.goes (hgoes : Goes m.entries m'.entries) (hnil : m'.isNil = m.isNil) (hlate : m'.late = m.late)
    (hclosers : m'.closers = m.closers) (hpanicked : m'.panicked = m.panicked)
    (hops : ∀ op ∈ m'.ops, op ∈ m.ops ∨ op.Sound m') (hjanitor : Stopping m'.janitor m'.ops) : Sane m' where
  unpanicked := hpanicked.trans hm.unpanicked
  pools := hgoes.patient hm.pools
  refused x hx := hgoes.refused x (hm.refused x (hlate ▸ hx))
  closers x hx := hgoes.closing x (hm.closers x (hclosers ▸ hx))
  ops op hop := (hops op hop).elim (fun hold ↦ (hm.ops op hold).goes hgoes (Or.inl hnil)) id
  janitor := hjanitor

theorem Sane.setOp (hop : m.ops[n]? = some op) (hplain : stopsJanitor op = false)
    (hplain' : stopsJanitor op' = false) (hsound : op'.Sound m) : Sane (m.setOp n op') := by
  refine hm.goes (.refl _) rfl rfl rfl rfl (fun o ho ↦ ?_) (hm.janitor.set hop hplain hplain')
  refine (List.mem_or_eq_of_mem_set ho).imp_right ?_
  rintro rfl
  exact hsound

/-- A step of the `CloseWithDeadline` that stops the janitor. -/
theorem Sane.stop {janitor : Janitor} (hop : m.ops[n]? = some op)
    (hone : checks op + stops op + awaits op = 1) (hrunning : 0 < stops op' → janitor = .running)
    (hawaited : janitor = .stopping → 0 < awaits op') (hsound : op'.Sound m) :
    Sane { m.setOp n op' with janitor := janitor } := by
  refine hm.goes (.refl _) rfl rfl rfl rfl (fun o ho ↦ ?_) (hm.janitor.go hop hone hrunning hawaited)
  refine (List.mem_or_eq_of_mem_set ho).imp_right ?_
  rintro rfl
  exact hsound

variable {e : Model.Event} {r : Manager × ℕ}

theorem Sane.poolStep (hg : ∀ entry, m.entries[j]? = some entry → waitsOut entry.pool e = true)
    (h : m.poolStep j e = some r) : Sane r.1 := by
  obtain ⟨entry, hentry, hmap⟩ := Option.bind_eq_some_iff.mp h
  obtain ⟨pool, hstep, rfl⟩ := Option.map_eq_some_iff.mp hmap
  exact hm.goes (.put hentry (hg entry hentry) hstep) rfl rfl rfl rfl (fun _ ↦ Or.inl) hm.janitor

theorem Sane.enterAcquire {late : Bool} (hlate : late = true → ClosedAt m.entries j)
    (h : m.enterAcquire late j = some m') : Sane m' := by
  obtain ⟨r, hr, rfl⟩ := Option.map_eq_some_iff.mp h
  have hsane : Sane r.1 := hm.poolStep (fun _ _ ↦ rfl) hr
  obtain ⟨entry, hentry, hmap⟩ := Option.bind_eq_some_iff.mp hr
  obtain ⟨pool, hstep, rfl⟩ := Option.map_eq_some_iff.mp hmap
  cases late with
  | false => exact hsane
  | true =>
    obtain ⟨entry', hentry', hclosed⟩ := hlate rfl
    obtain rfl : entry = entry' := Option.some.inj (hentry.symm.trans hentry')
    cases hstep
    refine ⟨hsane.unpanicked, hsane.pools, fun x hx ↦ ?_, hsane.closers, hsane.ops, hsane.janitor⟩
    rcases List.mem_append.mp hx with hx | hx
    · exact hsane.refused x hx
    · rw [List.mem_singleton.mp hx]
      exact ⟨_, List.getElem?_set_self (List.getElem?_eq_some_iff.mp hentry).1, hclosed, ⟨.preAcquire, [], {}⟩, 3,
        List.getElem?_concat_length, rfl⟩

theorem Sane.got {acquire : Option Bool} (hop : m.ops[n]? = some op) (hplain : stopsJanitor op = false)
    (hlate : acquire = some true → ClosedAt m.entries j) (h : m.got n j acquire = some m') : Sane m' := by
  have hset : Sane (m.setOp n .returned) := hm.setOp hop hplain rfl trivial
  cases acquire with
  | none =>
    cases h
    exact hset
  | some late => exact hset.enterAcquire (fun hl ↦ hlate (congrArg some hl)) h

theorem Sane.get {k : Key} {acquire : Option Bool} (hop : m.ops[n]? = some op) (hplain : stopsJanitor op = false)
    (hsound : (Op.get k acquire).Sound m) (hj : m.lookup k = some j) (h : m.got n j acquire = some m') : Sane m' := by
  refine hm.got hop hplain (fun hl ↦ ?_) h
  obtain ⟨j', hj', hclosed⟩ := hsound.2 hl
  rw [Manager.lookup, hsound.1] at hj
  obtain rfl : j' = j := Option.some.inj (hj'.symm.trans hj)
  exact hclosed

theorem Sane.perform (hop : m.ops[n]? = some op) (hg : orderly m (.step n) = true)
    (h : m.perform n op = some m') : Sane m' := by
  have hsound := hm.ops op (List.mem_of_getElem? hop)
  simp only [orderly, hop] at hg
  cases op with
  | get k acquire =>
    simp only [Manager.perform] at h
    split at h
    · exact hm.get hop rfl hsound ‹_› h
    · cases h
      exact hm.setOp hop rfl rfl hsound
  | create k acquire =>
    simp only [Manager.perform] at h
    split at h
    · exact hm.get hop rfl hsound ‹_› h
    · next hnone =>
      rw [if_neg (by simp [hsound.1])] at h
      rw [Manager.lookup, hsound.1] at hnone
      have hgoes : Goes m.entries (m.entries ++ [m.newPool k]) := .append m.entries (patient_new _)
      have happend : Sane { m with entries := m.entries ++ [m.newPool k] } :=
        hm.goes hgoes rfl rfl rfl rfl (fun _ ↦ Or.inl) hm.janitor
      refine happend.got hop rfl (fun hl ↦ ?_) h
      obtain ⟨j, hj, -⟩ := hsound.2 hl
      cases hj.symm.trans hnone
  | checkJanitor deadline =>
    cases h
    change Sane { m.setOp n _ with janitor := m.janitor }
    split
    · next hj => exact hm.stop hop rfl nofun (by simp [hj]) trivial
    · next hj =>
      have hsingle := hm.janitor.single
      have hlooks := le_total checks rfl hop
      have hidle : m.janitor ≠ .stopping := fun hstopping ↦ by
        have := hm.janitor.awaited hstopping
        simp only [checks] at hlooks
        omega
      refine hm.stop hop rfl (fun _ ↦ ?_) (fun h ↦ absurd h hidle) trivial
      cases hjanitor : m.janitor <;> simp_all
  | stopJanitor deadline =>
    have hstops := le_total stops rfl hop
    simp only [Manager.perform, hm.janitor.running hstops, if_true] at h
    cases h
    exact hm.stop hop rfl nofun (fun _ ↦ Nat.one_pos) trivial
  | awaitJanitor deadline =>
    cases h
    exact hm.stop hop rfl nofun nofun trivial
  | snapshot deadline =>
    cases h
    exact hm.setOp hop rfl rfl trivial
  | closing deadline pending calls =>
    cases pending with
    | nil =>
      simp only [Manager.perform] at h
      split at h <;> cases h
      exact hm.setOp hop rfl rfl trivial
    | cons j pending =>
      obtain ⟨r, hr, rfl⟩ := Option.map_eq_some_iff.mp h
      have hsane : Sane r.1 := hm.poolStep (fun _ _ ↦ rfl) hr
      obtain ⟨entry, hentry, hmap⟩ := Option.bind_eq_some_iff.mp hr
      obtain ⟨pool, hstep, rfl⟩ := Option.map_eq_some_iff.mp hmap
      cases hstep
      have hset : Sane (Manager.setOp _ n (.closing deadline pending (calls ++ [(j, entry.pool.calls.length)]))) :=
        hsane.setOp hop rfl rfl trivial
      refine ⟨hset.unpanicked, hset.pools, hset.refused, fun x hx ↦ ?_, hset.ops, hset.janitor⟩
      rcases List.mem_append.mp hx with hx | hx
      · exact hset.closers x hx
      · rw [List.mem_singleton.mp hx]
        exact ⟨_, List.getElem?_set_self (List.getElem?_eq_some_iff.mp hentry).1,
          Or.inr ⟨⟨.swapClosed deadline, [], {}⟩, List.getElem?_concat_length, rfl⟩⟩
  | clear =>
    cases h
    have hset : Sane (m.setOp n .returned) := hm.setOp hop rfl rfl trivial
    refine ⟨hset.unpanicked, hset.pools, hset.refused, hset.closers, fun o ho ↦ ?_, hset.janitor⟩
    refine (hset.ops o ho).goes (.refl _) (Or.inr ?_)
    rcases List.mem_or_eq_of_mem_set ho with ho | rfl
    · have hnone := List.any_eq_false.mp (Bool.not_eq_true' _ ▸ hg) o ho
      simpa using hnone
    · rfl
  | applySize defaultSize perKey =>
    cases h
    exact hm.setOp hop rfl rfl trivial
  | resizing defaultSize perKey pending call out =>
    cases call with
    | some call =>
      have h : (if m.returned call then some (m.setOp n (.resizing defaultSize perKey pending none out)) else none) =
          some m' := by
        cases pending <;> exact h
      split at h <;> cases h
      exact hm.setOp hop rfl rfl trivial
    | none =>
      cases pending with
      | nil =>
        cases h
        have hset : Sane (m.setOp n .returned) := hm.setOp hop rfl rfl trivial
        exact hset.goes (.refl _) rfl rfl rfl rfl (fun _ ↦ Or.inl) hset.janitor
      | cons j pending =>
        obtain ⟨entry, -, h⟩ := Option.bind_eq_some_iff.mp h
        simp only at h
        split at h
        · cases h
          exact hm.setOp hop rfl rfl trivial
        split at h
        · cases h
        split at h
        · cases h
          exact hm.setOp hop rfl rfl trivial
        · obtain ⟨r, hr, rfl⟩ := Option.map_eq_some_iff.mp h
          have hsane : Sane r.1 := hm.poolStep (fun _ _ ↦ rfl) hr
          obtain ⟨entry, hentry, hmap⟩ := Option.bind_eq_some_iff.mp hr
          obtain ⟨pool, hstep, rfl⟩ := Option.map_eq_some_iff.mp hmap
          exact hsane.setOp hop rfl rfl trivial
  | allStats =>
    cases h
    exact hm.setOp hop rfl rfl trivial
  | stats pending out =>
    cases pending with
    | nil =>
      cases h
      exact hm.setOp hop rfl rfl trivial
    | cons j pending =>
      obtain ⟨entry, -, rfl⟩ := Option.map_eq_some_iff.mp h
      exact hm.setOp hop rfl rfl trivial
  | returned => cases h

theorem Sane.uncrashed : m.crashed = false := by
  rw [Manager.crashed, hm.unpanicked, Bool.false_or, List.any_eq_false]
  intro entry hentry
  rw [(hm.pools entry hentry).unpanicked]
  exact Bool.false_ne_true

theorem Sane.issue {begun : Bool} (hplain : stops op = 0)
    (hstops : stopsJanitor op = true → m.ops.any stopsJanitor = false) (hsound : op.Sound m) :
    Sane { m.issue op with begun := begun } := by
  refine hm.goes (.refl _) rfl rfl rfl rfl (fun o ho ↦ ?_) (hm.janitor.issue hplain hstops)
  refine (List.mem_append.mp ho).imp_right fun ho ↦ ?_
  rw [List.mem_singleton.mp ho]
  exact hsound

/-- A goroutine of `CloseWithDeadline` that is past its first step has closed its pool. -/
theorem Sane.closed_of_shutting (h : shutting m j = true) : ClosedAt m.entries j := by
  obtain ⟨x, hx, h⟩ := List.any_eq_true.mp h
  rw [Bool.and_eq_true, decide_eq_true_eq] at h
  obtain ⟨rfl, hstarted⟩ := h
  obtain ⟨entry, hentry, hcloses⟩ := hm.closers x hx
  refine ⟨entry, hentry, hcloses.elim id ?_⟩
  rintro ⟨call, hcall, hstarts⟩
  rw [started, hentry, Option.any_some, hcall, Option.any_some, hstarts] at hstarted
  cases hstarted

theorem Sane.step {e : Event} (hg : orderly m e = true) (h : m.step e = some m') : Sane m' := by
  unfold Manager.step at h
  rw [if_neg (by simp [hm.uncrashed])] at h
  cases e with
  | get k =>
    cases h
    exact hm.issue rfl nofun ⟨by simpa [orderly] using hg, nofun⟩
  | acquire k =>
    cases h
    simp only [orderly, Bool.and_eq_true, Bool.not_eq_true', Bool.or_eq_true] at hg
    refine hm.issue rfl nofun ⟨hg.1, fun hbegun ↦ ?_⟩
    have hshutting := hg.2.resolve_left (by simp [Option.some.inj hbegun])
    cases hj : m.lookup k with
    | none =>
      rw [hj] at hshutting
      cases hshutting
    | some j =>
      rw [hj, Option.any_some] at hshutting
      rw [Manager.lookup, hg.1] at hj
      exact ⟨j, hj, hm.closed_of_shutting hshutting⟩
  | closeWithDeadline deadline =>
    cases h
    exact hm.issue rfl (fun _ ↦ by simpa [orderly] using hg) trivial
  | applyDefaultSize defaultSize perKey | allStats =>
    cases h
    exact hm.issue rfl nofun trivial
  | release k c reset =>
    simp only at h
    split at h
    · obtain ⟨r, hr, rfl⟩ := Option.map_eq_some_iff.mp h
      exact hm.poolStep (fun _ _ ↦ rfl) hr
    · cases h
      exact hm
  | step n =>
    obtain ⟨op, hop, h⟩ := Option.bind_eq_some_iff.mp h
    exact hm.perform hop hg h
  | pool j e =>
    cases e with
    | acquire =>
      refine hm.enterAcquire (fun hbegun ↦ hm.closed_of_shutting ?_) h
      simpa [orderly, hbegun] using hg
    | _ =>
      obtain ⟨r, hr, rfl⟩ := Option.map_eq_some_iff.mp h
      refine hm.poolStep (fun entry hentry ↦ ?_) hr
      simpa only [orderly, hentry, Option.all_some] using hg

end

theorem sane_newManager (defaultCfg : Config) (configFor : Key → Option Config) (janitor : Bool) :
    Sane (newManager defaultCfg configFor janitor) where
  unpanicked := rfl
  pools _ h := absurd h List.not_mem_nil
  refused _ h := absurd h List.not_mem_nil
  closers _ h := absurd h List.not_mem_nil
  ops _ h := absurd h List.not_mem_nil
  janitor := ⟨Nat.zero_le 1, nofun, by cases janitor <;> nofun⟩

/-- In an orderly run no operation panics, and a late `Acquire` is on its way to an error: by its own next steps it
returns without a connection, and nothing is dialed for it. -/
theorem shutdown_safe {defaultCfg : Config} {configFor : Key → Option Config} {janitor : Bool} {es : List Event}
    (h : Run Manager.step orderly (newManager defaultCfg configFor janitor) es m) :
    m.crashed = false ∧ ∀ x ∈ m.late, ∃ entry call n,
      m.entries[x.1]? = some entry ∧ entry.pool.calls[x.2]? = some call ∧ left call = some n ∧
      ∀ now, ∃ t call', Run State.step anyStep entry.pool (List.replicate n (.step x.2 .go now)) t ∧
        t.calls[x.2]? = some call' ∧ left call' = some 0 ∧ t.shared.dialed = entry.pool.shared.dialed ∧
        t.shared.held = entry.pool.shared.held := by
  have hm : Sane m :=
    h.invariant (fun _ _ _ hm hg hstep ↦ hm.step hg hstep) (sane_newManager defaultCfg configFor janitor)
  refine ⟨hm.uncrashed, fun x hx ↦ ?_⟩
  obtain ⟨entry, hentry, hclosed, call, n, hcall, hleft⟩ := hm.refused x hx
  refine ⟨entry, call, n, hentry, hcall, hleft, fun now ↦ ?_⟩
  exact returns_of_left hcall hleft hclosed (hm.pools entry (List.mem_of_getElem? hentry)).unpanicked now

def key : Key := ⟨[0x64], [0x75]⟩

def lateRefused : List Event :=
  .acquire key :: .step 0 :: .step 0 :: (steps 0 9).map (.pool 0) ++ .closeWithDeadline false :: .step 1 :: .step 1 ::
    .step 1 :: (steps 1 1).map (.pool 0) ++ .acquire key :: .step 2 :: (steps 2 3).map (.pool 0)

theorem shutdown_safe_lateRefused :
    ∃ m, Run Manager.step orderly (newManager oneSlot (fun _ ↦ none) false) lateRefused m ∧ m.late = [(0, 2)] ∧
      m.crashed = false ∧ ∃ entry call n,
        m.entries[0]? = some entry ∧ entry.pool.calls[2]? = some call ∧ left call = some n := by
  have h : Run Manager.step orderly (newManager oneSlot (fun _ ↦ none) false) lateRefused _ := run_of_exec rfl
  obtain ⟨hcrashed, hlate⟩ := shutdown_safe h
  obtain ⟨entry, call, n, hentry, hcall, hleft, -⟩ := hlate (0, 2) (List.mem_singleton.mpr rfl)
  exact ⟨_, h, rfl, hcrashed, entry, call, n, hentry, hcall, hleft⟩

def getAfterClose : List Event :=
  .closeWithDeadline false :: List.replicate 4 (.step 0) ++ .get key :: List.replicate 2 (.step 1)

def acquireDuringClose : List Event :=
  .closeWithDeadline false :: List.replicate 2 (.step 0) ++ .acquire key :: List.replicate 2 (.step 1) ++
    (steps 0 9).map (.pool 0)

/-- The former assigns to a nil map, and the latter dials in a pool that nobody closes. -/
theorem shutdown_unsafe :
    (∃ m, Run Manager.step anyStep (newManager oneSlot (fun _ ↦ none) false) getAfterClose m ∧ m.panicked = true) ∧
    ∃ m, Run Manager.step anyStep (newManager oneSlot (fun _ ↦ none) false) acquireDuringClose m ∧ m.late = [(0, 0)] ∧
      (m.entries.map fun e ↦ (e.pool.shared.closed, e.pool.shared.dialed, e.pool.shared.held)) = [(false, 1, [0])] := by
  have hget : Run Manager.step anyStep (newManager oneSlot (fun _ ↦ none) false) getAfterClose _ := run_of_exec rfl
  have hacquire : Run Manager.step anyStep (newManager oneSlot (fun _ ↦ none) false) acquireDuringClose _ :=
    run_of_exec rfl
  exact ⟨⟨_, hget, rfl⟩, _, hacquire, rfl, rfl⟩

end Operations

end PgRouter.Pool.Shutdown
