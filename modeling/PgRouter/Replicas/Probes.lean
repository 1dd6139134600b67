import PgRouter.Library.Texts
import PgRouter.Pool.Ownership
import PgRouter.Sql.Lexing

namespace PgRouter.Replicas.Probes

open Library.Texts Sql.Lexing Pool.Ownership

/-- What a server answers to a simple query, as far as `DrainSimpleQuery` tells the messages apart. -/
inductive Reply
  | errorResponse
  | dataRow (values : List (Option Bytes))
  | readyForQuery (txStatus : UInt8)
  | other
deriving DecidableEq

def Reply.isReady : Reply → Bool
  | .readyForQuery _ => true
  | _ => false

/-- `probe` pings, `lagProbe` runs the lag query. -/
inductive Kind
  | health
  | lag
deriving DecidableEq

/-- Where a probe stands: in its `Acquire`, with the query unsent, in the drain, behind the drain with or
without an error, in its `Release`, or returned. A call of the pool is given by its number. -/
inductive Stage
  | acquiring (call : ℕ)
  | sending (conn : ℕ)
  | receiving (conn : ℕ) (out : Option ℤ)
  | drained (conn : ℕ) (err : Bool)
  | releasing (conn call : ℕ) (err : Bool)
  | returned
deriving DecidableEq

structure Probe where
  kind : Kind
  stage : Stage
deriving DecidableEq

def Stage.holds : Stage → Option ℕ
  | .sending conn | .receiving conn _ | .drained conn _ => some conn
  | _ => none

def Probe.closes (p : Probe) (conn : ℕ) : Bool :=
  match p.kind, p.stage with
  | .health, .drained c err | .health, .releasing c _ err => err && c == conn
  | _, _ => false

/-- The callback of `scalarInt`: the first column of the first row that has one. -/
def onRow (out : Option ℤ) : List (Option Bytes) → Option (Option ℤ)
  | [] => some out
  | value :: _ =>
    match out with
    | some _ => some out
    | none => (atoi (trimSpace (value.getD []))).map some

def heard (kind : Kind) (conn : ℕ) (out : Option ℤ) : Reply → Stage
  | .errorResponse => .drained conn true
  | .dataRow values =>
    match kind with
    | .health => .receiving conn out
    | .lag =>
      match onRow out values with
      | some out => .receiving conn out
      | none => .drained conn true
  | .readyForQuery _ => .drained conn (kind == .lag && out.isNone)
  | .other => .receiving conn out

/-- The pool of a replica with its clients, the probes that use it too, the replies to probe queries that
nobody has read yet, and the backends that a probe has closed. -/
structure State where
  pool : Pool.Model.State
  probes : List Probe
  unread : ℕ → List Reply
  closed : List ℕ

def new (cfg : Pool.Model.Config) : State := ⟨Pool.Model.new cfg, [], fun _ ↦ [], []⟩

/-- What happens to a probe: `go` is its next step, at the time that a pool call reads; `sent` a query that
reached the server, with its answer; `fail` a failed flush or receive. -/
inductive Input
  | go (now : ℤ)
  | sent (body : List Reply) (txStatus : UInt8)
  | fail

inductive Event
  | pool (e : Pool.Model.Event)
  | start (kind : Kind)
  | probe (k : ℕ) (input : Input)
  | read (conn : ℕ)

namespace State

def borrowed (s : State) (conn : ℕ) : Bool := s.probes.any fun p ↦ p.stage.holds == some conn

def goTo (s : State) (k : ℕ) (p : Probe) : State := { s with probes := s.probes.set k p }

def finished (s : State) (call : ℕ) : Bool := s.pool.calls[call]?.any fun c ↦ c.point.isNone

/-- The events of the pool that are not a probe's own: a client gives back only what it has got itself. -/
def allows (s : State) : Pool.Model.Event → Bool
  | .release conn _ | .discard conn => !s.borrowed conn
  | .step i _ _ => (returns s.pool i).isNone || s.probes.all fun p ↦ p.stage != .acquiring i
  | _ => true

def act (s : State) (k : ℕ) (kind : Kind) : Stage → Input → Option State
  | .acquiring call, .go now =>
    match returns s.pool call with
    | some conn => (s.pool.step (.step call .go now)).map fun pool ↦
        { s.goTo k ⟨kind, .sending conn⟩ with pool := pool }
    | none => if s.finished call then some (s.goTo k ⟨kind, .returned⟩) else none
  | .sending conn, .sent body txStatus =>
    if body.any Reply.isReady then none
    else some { s.goTo k ⟨kind, .receiving conn none⟩ with
      unread := Function.update s.unread conn (s.unread conn ++ body ++ [.readyForQuery txStatus]) }
  | .sending conn, .fail => some (s.goTo k ⟨kind, .drained conn true⟩)
  | .receiving conn out, .go _ =>
    match s.unread conn with
    | [] => none
    | reply :: rest => some { s.goTo k ⟨kind, heard kind conn out reply⟩ with
        unread := Function.update s.unread conn rest }
  | .receiving conn _, .fail => some (s.goTo k ⟨kind, .drained conn true⟩)
  | .drained conn err, .go _ =>
    (s.pool.step (.release conn false)).map fun pool ↦
      { s.goTo k ⟨kind, .releasing conn s.pool.calls.length err⟩ with pool := pool }
  | .releasing conn call err, .go _ =>
    if s.finished call then
      if kind == .health && err then some { s.goTo k ⟨kind, .returned⟩ with closed := conn :: s.closed }
      else some (s.goTo k ⟨kind, .returned⟩)
    else none
  | _, _ => none

/-- The pool takes a step, a probe begins or goes on, or a client reads a reply that a probe has left. -/
def step (s : State) : Event → Option State
  | .pool e => if s.allows e then (s.pool.step e).map fun pool ↦ { s with pool := pool } else none
  | .start kind =>
    (s.pool.step .acquire).map fun pool ↦
      { s with pool := pool, probes := s.probes ++ [⟨kind, .acquiring s.pool.calls.length⟩] }
  | .probe k input => s.probes[k]?.bind fun p ↦ s.act k p.kind p.stage input
  | .read conn =>
    if conn ∈ s.pool.shared.held ∧ s.borrowed conn = false ∧ s.unread conn ≠ [] then
      some { s with unread := Function.update s.unread conn (s.unread conn).tail }
    else none

end State

/-- No probe has closed the backend or will close it, and no reply to a probe is left on it. -/
structure Clean (s : State) (conn : ℕ) : Prop where
  closed : conn ∉ s.closed
  closes : ∀ p ∈ s.probes, p.closes conn = false
  unread : s.unread conn = []

/-- The reply ends the drain before its `ReadyForQuery`. -/
def spoils (kind : Kind) (out : Option ℤ) : Reply → Bool
  | .errorResponse => true
  | .dataRow values => kind == .lag && (onRow out values).isNone
  | _ => false

/-- The query of a ping reaches the server, and a query that does is answered up to its `ReadyForQuery`
without an error, a failed receive or a lag that is no number. -/
def answered (s : State) : Event → Bool
  | .probe k input =>
    s.probes[k]?.all fun p ↦
      match p.stage, input with
      | .sending _, .fail => p.kind == .lag
      | .receiving _ _, .fail => false
      | .receiving conn out, .go _ => (s.unread conn).head?.all fun reply ↦ !spoils p.kind out reply
      | _, _ => true
  | _ => true

end PgRouter.Replicas.Probes
