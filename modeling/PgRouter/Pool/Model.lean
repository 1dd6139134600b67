import Mathlib.Data.List.Basic
import Mathlib.Data.Int.Order.Basic

namespace PgRouter.Pool.Model

/-- Sizes, and durations in nanoseconds. -/
structure Config where
  defaultPoolSize : ℤ
  minPoolSize : ℤ
  reservePoolSize : ℤ
  reservePoolTimeout : ℤ
  queryWait : ℤ
  serverIdle : ℤ
  serverLifetime : ℤ

inductive LifecycleState
  | new
  | active
  | idle
  | closed
  deriving DecidableEq

structure Lifecycle where
  createdAt : ℤ
  lastActive : ℤ
  state : LifecycleState
  deriving DecidableEq

def Lifecycle.init (now : ℤ) : Lifecycle := ⟨now, now, .new⟩

def Lifecycle.markIdle (l : Lifecycle) (now : ℤ) : Lifecycle :=
  { l with state := .idle, lastActive := now }

def Lifecycle.shouldRecycle (l : Lifecycle) (now maxLifetime : ℤ) : Bool :=
  if maxLifetime ≤ 0 then false else maxLifetime ≤ now - l.createdAt

def Lifecycle.shouldEvict (l : Lifecycle) (now maxIdle : ℤ) : Bool :=
  if maxIdle ≤ 0 ∨ l.state ≠ .idle then false else maxIdle ≤ now - l.lastActive

structure PooledConn where
  conn : ℕ
  lifecycle : Lifecycle
  deriving DecidableEq

structure Channel where
  cap : ℕ
  queue : List PooledConn

/-- The waiter of an `Acquire` call: its buffered channel, and whether either channel is closed. -/
structure Waiter where
  ch : Option PooledConn := none
  chClosed : Bool := false
  canceled : Bool := false

/-- The points of a call at which it goes on in more than one way or holds something in a local
variable. Every atomic operation, channel operation, read of `p.idle` and `wmu` section is one. -/
inductive Pc
  | preAcquire
  | loadClosed
  | readIdle
  | popIdle (ch : ℕ)
  | countIdle (pc : PooledConn)
  | loadActive
  | compareSize (cur : ℤ)
  | casActive (cur : ℤ)
  | dial
  | parkWaiter
  | wait (reserveArmed : Bool)
  | reserveCheck
  | reserveAdd
  | closeCanceled
  | dequeue
  | drainCh
  | cancelLoadClosed (pc : Option PooledConn)
  | cancelReadIdle (pc : PooledConn)
  | cancelPush (pc : PooledConn) (ch : ℕ)
  | resetState (c : ℕ)
  | releaseLoadClosed (c : ℕ)
  | popWaiter (pc : PooledConn)
  | handOff (pc : PooledConn) (w : ℕ)
  | releaseReadIdle (pc : PooledConn)
  | releasePush (pc : PooledConn) (ch : ℕ)
  | evict (now : ℤ)
  | resize (newSize : ℤ)
  | swapClosed (deadline : Bool)
  | closeReadIdle (idle : List PooledConn) (deadline : Bool)
  | closePop (idle : List PooledConn) (ch : ℕ) (deadline : Bool)
  | closeTakeWaiters (idle : List PooledConn) (deadline : Bool)
  | awaitDrain
  | drainLoad
  | drainWait
  | drainAsleep
  | warmLoadActive (floor : ℤ)
  | warmReadIdle (floor : ℤ) (active : ℤ)
  | warmLen (floor : ℤ) (active : ℤ) (ch : ℕ)
  | warmLoadClosed (floor : ℤ)
  | warmAdd (floor : ℤ)
  | warmDial (floor : ℤ)
  | straight

/-- What a call does on its way to the return, one step each. -/
inductive Op
  | close (c : ℕ)
  | decActive
  | broadcast
  | postRelease
  | returnConn (c : ℕ)
  | closeCh (w : ℕ)
  | startDrain
  | warm (floor : ℤ)

structure Call where
  pc : Pc
  todo : List Op := []
  waiter : Waiter := {}

/-- The fields of `Pool`, the connections that are dialed and not closed, and those that callers
hold. A waiter is named by the call it belongs to. -/
structure Shared where
  cfg : Config
  chans : List Channel
  idle : ℕ
  active : ℤ
  closed : Bool
  waiters : List ℕ
  wmuHeld : Bool
  drained : Bool
  dialed : ℕ
  live : List ℕ
  held : List ℕ
  preAcquired : ℕ
  postReleased : ℕ
  panicked : Bool

structure State where
  shared : Shared
  calls : List Call

/-- What the runtime and the outside world decide at a step. -/
inductive Choice
  | go
  | fail
  | receive
  | cancel
  | timeout
  | reserve
  | skip
  deriving DecidableEq

inductive Effect
  | none
  | send (w : ℕ) (pc : PooledConn)
  | closeCh (w : ℕ)
  | wake
  | spawn (calls : List Call)

structure Outcome where
  shared : Shared
  waiter : Waiter
  pc : Pc := .straight
  todo : List Op := []
  effect : Effect := .none

namespace Shared

def channel (s : Shared) (ch : ℕ) : Channel := s.chans.getD ch ⟨0, []⟩

def setQueue (s : Shared) (ch : ℕ) (queue : List PooledConn) : Shared :=
  { s with chans := s.chans.set ch ⟨(s.channel ch).cap, queue⟩ }

def HasRoom (s : Shared) (ch : ℕ) : Prop := (s.channel ch).queue.length < (s.channel ch).cap

instance (s : Shared) (ch : ℕ) : Decidable (s.HasRoom ch) := Nat.decLt _ _

def push (s : Shared) (ch : ℕ) (pc : PooledConn) : Shared :=
  s.setQueue ch ((s.channel ch).queue ++ [pc])

/-- The old channel has been drained; a new one with the connections in `kept` takes its place. -/
def swapIdle (s : Shared) (cap : ℕ) (kept : List PooledConn) : Shared :=
  { s.setQueue s.idle [] with
    chans := (s.setQueue s.idle []).chans ++ [⟨cap, kept⟩]
    idle := s.chans.length }

def panic (s : Shared) : Shared := { s with panicked := true }

end Shared

def dial (s : Shared) (own : Waiter) : Choice → Option Outcome
  | .go => some
    { shared := { s with dialed := s.dialed + 1, live := s.dialed :: s.live }
      waiter := own
      todo := [.returnConn s.dialed] }
  | .fail => some { shared := s, waiter := own, todo := [.decActive, .broadcast, .postRelease] }
  | _ => none

def wait (s : Shared) (own : Waiter) (reserveArmed : Bool) : Choice → Option Outcome
  | .receive =>
    match own.ch with
    | some pc =>
      some { shared := s, waiter := { own with ch := none }, todo := [.returnConn pc.conn] }
    | none =>
      if own.chClosed then some { shared := s, waiter := own, todo := [.postRelease] } else none
  | .cancel => some { shared := s, waiter := own, pc := .closeCanceled }
  | .timeout =>
    if 0 < s.cfg.queryWait then some { shared := s, waiter := own, pc := .closeCanceled } else none
  | .reserve =>
    if reserveArmed ∧ 0 < s.cfg.reservePoolSize then
      some { shared := s, waiter := own, pc := .reserveCheck }
    else none
  | _ => none

def reserveCheck (s : Shared) (i : ℕ) (own : Waiter) : Outcome :=
  if s.closed then { shared := s, waiter := own, todo := [.postRelease] }
  else if s.cfg.defaultPoolSize + s.cfg.reservePoolSize ≤ s.active then
    { shared := s, waiter := own, pc := .wait false }
  else { shared := { s with waiters := s.waiters.erase i }, waiter := own, pc := .reserveAdd }

def drainCh (s : Shared) (own : Waiter) : Outcome :=
  match own.ch with
  | some pc =>
    { shared := s, waiter := { own with ch := none }, pc := .cancelLoadClosed (some pc) }
  | none =>
    if own.chClosed then { shared := s, waiter := own, pc := .cancelLoadClosed none }
    else { shared := s, waiter := own, todo := [.postRelease] }

def handOff (s : Shared) (waiterOf : ℕ → Waiter) (own : Waiter) (pc : PooledConn) (w : ℕ) :
    Choice → Option Outcome
  | .go =>
    if (waiterOf w).chClosed then some { shared := s.panic, waiter := own, pc := .handOff pc w }
    else match (waiterOf w).ch with
      | none => some { shared := s, waiter := own, todo := [.postRelease], effect := .send w pc }
      | some _ => none
  | .skip =>
    if (waiterOf w).canceled then some { shared := s, waiter := own, pc := .popWaiter pc } else none
  | _ => none

/-- The loop of `EvictIdleOnce` over the drained connections. -/
def sweep (cfg : Config) (now : ℤ) (keepCount : ℤ) :
    List PooledConn → List PooledConn → List PooledConn → List PooledConn × List PooledConn
  | [], kept, evicted => (kept, evicted)
  | pc :: rest, kept, evicted =>
    let expiredLifetime := 0 < cfg.serverLifetime ∧ pc.lifecycle.shouldRecycle now cfg.serverLifetime
    let expiredIdle := 0 < cfg.serverIdle ∧ pc.lifecycle.shouldEvict now cfg.serverIdle
    if ¬ expiredLifetime ∧ ¬ expiredIdle then sweep cfg now keepCount rest (kept ++ [pc]) evicted
    else if expiredIdle ∧ ¬ expiredLifetime ∧ (kept.length : ℤ) < keepCount then
      sweep cfg now keepCount rest (kept ++ [pc]) evicted
    else sweep cfg now keepCount rest kept (evicted ++ [pc])

/-- The `wmu` section of `EvictIdleOnce`. A refill that does not fit blocks. -/
def evictIdleOnce (s : Shared) (own : Waiter) (now : ℤ) : Option Outcome :=
  let split := sweep s.cfg now (max (s.cfg.minPoolSize - s.active) 0) (s.channel s.idle).queue [] []
  if (split.1.length : ℤ) ≤ s.cfg.defaultPoolSize then
    some
      { shared := s.swapIdle s.cfg.defaultPoolSize.toNat split.1
        waiter := own
        todo := split.2.map fun pc ↦ .close pc.conn }
  else none

/-- The `wmu` section of `Resize`. Each connection in excess gets a goroutine that closes it. -/
def resize (s : Shared) (own : Waiter) (newSize : ℤ) : Option Outcome :=
  let size := max newSize 1
  let idle := (s.channel s.idle).queue
  let excess := (s.active + idle.length - size).toNat
  if ((idle.drop excess).length : ℤ) ≤ size then
    some
      { shared :=
          { s.swapIdle size.toNat (idle.drop excess) with
            cfg := { s.cfg with defaultPoolSize := size, minPoolSize := min s.cfg.minPoolSize size } }
        waiter := own
        todo := [.broadcast]
        effect := .spawn ((idle.take excess).map fun pc ↦ ⟨.straight, [.close pc.conn], {}⟩) }
  else none

/-- One step at a control point. A `wmu` section is entered only while nobody holds `wmu`. -/
def act (s : Shared) (waiterOf : ℕ → Waiter) (i : ℕ) (now : ℤ) (own : Waiter) (c : Choice) :
    Pc → Option Outcome
  | .preAcquire =>
    if c = .fail then some { shared := s, waiter := own }
    else some
      { shared := { s with preAcquired := s.preAcquired + 1 }, waiter := own, pc := .loadClosed }
  | .loadClosed =>
    if s.closed then some { shared := s, waiter := own, todo := [.postRelease] }
    else some { shared := s, waiter := own, pc := .readIdle }
  | .readIdle => some { shared := s, waiter := own, pc := .popIdle s.idle }
  | .popIdle ch =>
    match (s.channel ch).queue with
    | pc :: queue => some { shared := s.setQueue ch queue, waiter := own, pc := .countIdle pc }
    | [] => some { shared := s, waiter := own, pc := .loadActive }
  | .countIdle pc => some
    { shared := { s with active := s.active + 1 }, waiter := own, todo := [.returnConn pc.conn] }
  | .loadActive => some { shared := s, waiter := own, pc := .compareSize s.active }
  | .compareSize cur =>
    if cur < s.cfg.defaultPoolSize then some { shared := s, waiter := own, pc := .casActive cur }
    else some { shared := s, waiter := own, pc := .parkWaiter }
  | .casActive cur =>
    if s.active = cur then
      some { shared := { s with active := s.active + 1 }, waiter := own, pc := .dial }
    else some { shared := s, waiter := own, pc := .loadClosed }
  | .dial => dial s own c
  | .parkWaiter =>
    if s.wmuHeld then none
    else some
      { shared := { s with waiters := s.waiters ++ [i] }, waiter := {}, pc := .wait true }
  | .wait reserveArmed => wait s own reserveArmed c
  | .reserveCheck => if s.wmuHeld then none else some (reserveCheck s i own)
  | .reserveAdd => some { shared := { s with active := s.active + 1 }, waiter := own, pc := .dial }
  | .closeCanceled => some { shared := s, waiter := { own with canceled := true }, pc := .dequeue }
  | .dequeue =>
    if s.wmuHeld then none
    else some { shared := { s with waiters := s.waiters.erase i }, waiter := own, pc := .drainCh }
  | .drainCh => some (drainCh s own)
  | .cancelLoadClosed pc =>
    match pc with
    | some pc =>
      if s.closed then
        some { shared := s, waiter := own, todo := [.close pc.conn, .postRelease] }
      else some { shared := s, waiter := own, pc := .cancelReadIdle pc }
    | none => some { shared := s.panic, waiter := own, pc := .cancelLoadClosed none }
  | .cancelReadIdle pc => some { shared := s, waiter := own, pc := .cancelPush pc s.idle }
  | .cancelPush pc ch =>
    if s.HasRoom ch then some { shared := s.push ch pc, waiter := own, todo := [.postRelease] }
    else some { shared := s, waiter := own, todo := [.close pc.conn, .postRelease] }
  | .resetState conn =>
    if c = .fail then some
      { shared := s, waiter := own, todo := [.close conn, .decActive, .broadcast, .postRelease] }
    else some { shared := s, waiter := own, pc := .releaseLoadClosed conn }
  | .releaseLoadClosed conn =>
    if s.closed then some
      { shared := s, waiter := own, todo := [.decActive, .broadcast, .close conn, .postRelease] }
    else some
      { shared := s, waiter := own, pc := .popWaiter ⟨conn, (Lifecycle.init now).markIdle now⟩ }
  | .popWaiter pc =>
    if s.wmuHeld then none
    else match s.waiters with
      | w :: ws => some { shared := { s with waiters := ws }, waiter := own, pc := .handOff pc w }
      | [] => some { shared := s, waiter := own, pc := .releaseReadIdle pc }
  | .handOff pc w => handOff s waiterOf own pc w c
  | .releaseReadIdle pc => some { shared := s, waiter := own, pc := .releasePush pc s.idle }
  | .releasePush pc ch =>
    if s.HasRoom ch then some
      { shared := s.push ch pc, waiter := own, todo := [.decActive, .broadcast, .postRelease] }
    else some
      { shared := s, waiter := own
        todo := [.decActive, .broadcast, .close pc.conn, .postRelease] }
  | .evict now => if s.wmuHeld then none else evictIdleOnce s own now
  | .resize newSize => if s.wmuHeld then none else resize s own newSize
  | .swapClosed deadline =>
    if s.closed then some { shared := s, waiter := own }
    else some
      { shared := { s with closed := true }, waiter := own, pc := .closeReadIdle [] deadline }
  | .closeReadIdle idle deadline =>
    some { shared := s, waiter := own, pc := .closePop idle s.idle deadline }
  | .closePop idle ch deadline =>
    match (s.channel ch).queue with
    | pc :: queue => some
      { shared := s.setQueue ch queue, waiter := own, pc := .closeReadIdle (idle ++ [pc]) deadline }
    | [] => some { shared := s, waiter := own, pc := .closeTakeWaiters idle deadline }
  | .closeTakeWaiters idle deadline =>
    if s.wmuHeld then none
    else some
      { shared := { s with waiters := [] }
        waiter := own
        todo := (idle.map fun pc ↦ .close pc.conn) ++ s.waiters.map .closeCh ++
          if deadline then [.startDrain] else [] }
  | .awaitDrain =>
    if s.drained ∨ c = .timeout then some { shared := s, waiter := own } else none
  | .drainLoad =>
    if s.wmuHeld then none
    else if 0 < s.active then
      some { shared := { s with wmuHeld := true }, waiter := own, pc := .drainWait }
    else some { shared := { s with drained := true }, waiter := own }
  | .drainWait => some { shared := { s with wmuHeld := false }, waiter := own, pc := .drainAsleep }
  | .drainAsleep => none
  | .warmLoadActive floor => some { shared := s, waiter := own, pc := .warmReadIdle floor s.active }
  | .warmReadIdle floor active =>
    some { shared := s, waiter := own, pc := .warmLen floor active s.idle }
  | .warmLen floor active ch =>
    if floor ≤ active + (s.channel ch).queue.length then some { shared := s, waiter := own }
    else some { shared := s, waiter := own, pc := .warmLoadClosed floor }
  | .warmLoadClosed floor =>
    if s.closed then some { shared := s, waiter := own }
    else some { shared := s, waiter := own, pc := .warmAdd floor }
  | .warmAdd floor =>
    some { shared := { s with active := s.active + 1 }, waiter := own, pc := .warmDial floor }
  | .warmDial floor =>
    if c = .fail then some { shared := s, waiter := own, todo := [.decActive, .broadcast] }
    else some
      { shared := { s with dialed := s.dialed + 1, live := s.dialed :: s.live }
        waiter := own
        pc := .releaseLoadClosed s.dialed
        todo := [.warm floor] }
  | .straight => none

/-- One step on the way to the return. -/
def perform (s : Shared) (waiterOf : ℕ → Waiter) (own : Waiter) : Op → Outcome
  | .close c => { shared := { s with live := s.live.erase c }, waiter := own }
  | .decActive => { shared := { s with active := s.active - 1 }, waiter := own }
  | .broadcast => { shared := s, waiter := own, effect := .wake }
  | .postRelease => { shared := { s with postReleased := s.postReleased + 1 }, waiter := own }
  | .returnConn c => { shared := { s with held := c :: s.held }, waiter := own }
  | .closeCh w =>
    if (waiterOf w).chClosed then { shared := s.panic, waiter := own }
    else { shared := s, waiter := own, effect := .closeCh w }
  | .startDrain =>
    { shared := s, waiter := own, pc := .awaitDrain, effect := .spawn [⟨.drainLoad, [], {}⟩] }
  | .warm floor => { shared := s, waiter := own, pc := .warmLoadActive floor }

inductive Point
  | at (pc : Pc)
  | op (op : Op)

def Call.point (c : Call) : Option (Point × List Op) :=
  match c.pc, c.todo with
  | .straight, [] => none
  | .straight, op :: todo => some (.op op, todo)
  | pc, todo => some (.at pc, todo)

def fire (s : Shared) (waiterOf : ℕ → Waiter) (i : ℕ) (now : ℤ) (own : Waiter) (c : Choice) :
    Point → Option Outcome
  | .at pc => act s waiterOf i now own c pc
  | .op op => some (perform s waiterOf own op)

def Call.wake (c : Call) : Call :=
  match c.pc with
  | .drainAsleep => { c with pc := .drainLoad }
  | _ => c

def Effect.apply (calls : List Call) : Effect → List Call
  | .none => calls
  | .send w pc => calls.modify w fun c ↦ { c with waiter := { c.waiter with ch := some pc } }
  | .closeCh w => calls.modify w fun c ↦ { c with waiter := { c.waiter with chClosed := true } }
  | .wake => calls.map Call.wake
  | .spawn cs => calls ++ cs

namespace State

def waiterOf (s : State) (w : ℕ) : Waiter := ((s.calls[w]?).map Call.waiter).getD {}

def proceed (s : State) (i : ℕ) (todo : List Op) (o : Outcome) : State :=
  ⟨o.shared, o.effect.apply (s.calls.set i ⟨o.pc, o.todo ++ todo, o.waiter⟩)⟩

/-- One step of call `i`. Nothing happens after a panic. -/
def advance (s : State) (i : ℕ) (c : Choice) (now : ℤ) : Option State :=
  if s.shared.panicked then none
  else
    (s.calls[i]?).bind fun call ↦ call.point.bind fun p ↦
      (fire s.shared s.waiterOf i now call.waiter c p.1).map (s.proceed i p.2)

end State

/-- A new call, or a step of one that is under way. Only a connection that a caller holds is
released or discarded, and it is then no longer held. -/
inductive Event
  | acquire
  | release (c : ℕ) (resetSession : Bool)
  | discard (c : ℕ)
  | evictIdleOnce (now : ℤ)
  | resize (newSize : ℤ)
  | close (deadline : Bool)
  | ensureWarm
  | step (i : ℕ) (choice : Choice) (now : ℤ)

namespace State

def enter (s : State) (c : Call) : State := { s with calls := s.calls ++ [c] }

def letGo (s : State) (c : ℕ) : State :=
  { s with shared := { s.shared with held := s.shared.held.erase c } }

def step (s : State) : Event → Option State
  | .acquire => some (s.enter ⟨.preAcquire, [], {}⟩)
  | .release c resetSession =>
    if c ∈ s.shared.held then
      some ((s.letGo c).enter
        ⟨if resetSession then .resetState c else .releaseLoadClosed c, [], {}⟩)
    else none
  | .discard c =>
    if c ∈ s.shared.held then
      some ((s.letGo c).enter
        ⟨.straight, [.close c, .decActive, .broadcast, .postRelease], {}⟩)
    else none
  | .evictIdleOnce now =>
    if s.shared.cfg.serverIdle ≤ 0 ∧ s.shared.cfg.serverLifetime ≤ 0 then some s
    else some (s.enter ⟨.evict now, [], {}⟩)
  | .resize newSize => some (s.enter ⟨.resize newSize, [], {}⟩)
  | .close deadline => some (s.enter ⟨.swapClosed deadline, [], {}⟩)
  | .ensureWarm =>
    if s.shared.cfg.minPoolSize ≤ 0 then some s
    else some (s.enter ⟨.warmLoadActive s.shared.cfg.minPoolSize, [], {}⟩)
  | .step i choice now => s.advance i choice now

end State

def Config.normalized (cfg : Config) : Config :=
  { cfg with
    defaultPoolSize := max cfg.defaultPoolSize 1
    minPoolSize := min (max cfg.minPoolSize 0) (max cfg.defaultPoolSize 1)
    reservePoolSize := max cfg.reservePoolSize 0
    reservePoolTimeout :=
      if cfg.reservePoolTimeout ≤ 0 then 5000000000 else cfg.reservePoolTimeout }

def new (cfg : Config) : State where
  shared :=
    { cfg := cfg.normalized
      chans := [⟨cfg.normalized.defaultPoolSize.toNat, []⟩]
      idle := 0
      active := 0
      closed := false
      waiters := []
      wmuHeld := false
      drained := false
      dialed := 0
      live := []
      held := []
      preAcquired := 0
      postReleased := 0
      panicked := false }
  calls := []

end PgRouter.Pool.Model
