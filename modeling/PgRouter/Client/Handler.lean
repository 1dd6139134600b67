import Mathlib.Algebra.Order.Ring.Nat
import PgRouter.Client.Servers

namespace PgRouter.Client.Handler

open Protocol Prepared Servers

inductive PoolMode
  | session
  | transaction
  | statement
  deriving DecidableEq

/-- The parts of `PooledConfig` and `PooledConn` that decide what `Serve` does. Durations are in
nanoseconds; `splice` says that the splice forwarder is configured and enabled, `logInfo` that the
log level includes `Info`. -/
structure PooledConfig where
  database : String
  user : String
  resetOnRelease : Bool
  resetQuery : Text
  queryTimeout : ℤ
  clientIdleTimeout : ℤ
  idleTxTimeout : ℤ
  slowQuery : ℤ
  poolMode : PoolMode
  splice : Bool
  preparedCache : Bool
  rawPassthrough : Bool
  gucTracking : Bool
  logInfo : Bool

namespace PooledConfig

def isStatementMode (cfg : PooledConfig) : Bool := cfg.poolMode == .statement

def hasIdleDeadline (cfg : PooledConfig) : Bool := 0 < cfg.clientIdleTimeout || 0 < cfg.idleTxTimeout

end PooledConfig

def fraction (digits v : ℕ) : String :=
  let ds := (((toString (10 ^ digits + v % 10 ^ digits)).toList.drop 1).reverse.dropWhile (· == '0')).reverse
  if ds.isEmpty then "" else String.ofList ('.' :: ds)

def durationString (d : ℤ) : String :=
  let u := d.natAbs
  let secs := u / 10 ^ 9
  let seconds := s!"{secs % 60}{fraction 9 u}s"
  let size :=
    if u = 0 then "0s"
    else if u < 10 ^ 3 then s!"{u}ns"
    else if u < 10 ^ 6 then s!"{u / 10 ^ 3}{fraction 3 u}µs"
    else if u < 10 ^ 9 then s!"{u / 10 ^ 6}{fraction 6 u}ms"
    else if secs < 60 then seconds
    else if secs < 3600 then s!"{secs / 60}m{seconds}"
    else s!"{secs / 3600}h{secs / 60 % 60}m{seconds}"
  if d < 0 then s!"-{size}" else size

inductive SQLOp
  | unknown
  | read
  | write
  deriving DecidableEq

structure SQLInfo where
  op : SQLOp
  isROBegin : Bool
  needsPin : Bool
  needsGUC : Bool
  deriving DecidableEq

/-- What `Serve` asks about the text of a statement, and the cache of session settings. -/
structure SQL (γ : Type) where
  analyzeSQL : Text → SQLInfo
  classifyDetail : Text → SQLOp × Bool
  isExplicitBeginSQL : Text → Bool
  queryFirstKeywordRaw : Text → Text
  serverNameFor : Text → Text
  newGUCCache : γ
  observeQueryWithInfo : γ → Text → SQLInfo → γ
  hasUnrecognizedSet : γ → Bool
  replayQuery : γ → Text

/-- Where a session waits for its client, the pool or its backend. `leaving` says that `Serve`
returns once the backend is released. -/
inductive Phase
  | welcome
  | greeting
  | top
  | polling
  | acquiring (msg : FrontendMessage) (pool : ℕ)
  | replayFlush (msg : FrontendMessage)
  | replaying (msg : FrontendMessage)
  | flushing
  | draining (splicing : Bool)
  | resetFlush (leaving : Bool)
  | resetting (leaving : Bool)
  | returned

/-- The local variables of `Serve` or `serveRaw`, the output buffer of the client's `Backend` with
the backend each message comes from, and whether a read deadline is set on the client connection.
Pool 0 is the primary's. -/
structure Session (γ : Type) where
  id : ℕ
  cfg : PooledConfig
  phase : Phase
  state : ClientState
  guc : γ
  prepCache : Option PrepareCache
  sessionPinned : Bool
  bConn : Option Backend
  bConnPool : Option ℕ
  spliceReader : Bool
  pendingEvictCC : ℕ
  pendingParsePC : ℕ
  out : List (Option ℕ × BackendMessage)
  writeBuf : List FrontendMessage
  lastWriteAt : Option ℤ
  lastClientMsgAt : ℤ
  deadline : Bool

/-- What a step does to the outside: a message delivered to the client (and the backend it comes
from), a message of the client passed on to a backend, a message written to a backend (and the
client that put it into the send buffer), a backend returned to a pool, a query timeout. -/
inductive Act
  | deliver (src : Option ℕ) (m : BackendMessage)
  | forward (b : ℕ) (m : FrontendMessage)
  | wrote (owner b : ℕ) (m : FrontendMessage)
  | put (pool : ℕ) (b : Backend)
  | timedOut

/-- The circumstances in which a client message is handled: the time, whether writes to the client
succeed, whether the rate limit admits the message, the primary's health, the replica that the
picker offers and the sticky window. -/
structure Env where
  now : ℤ
  ok : Bool
  takeQPS : Bool
  primaryHealthy : Bool
  replica : Option ℕ
  stickyWindow : ℤ

/-- What a session waits for. `ok` says whether the writes to the client succeed that follow. -/
inductive Input
  | acquired (b : Backend)
  | acquireFailed (err : String) (ok : Bool)
  | greeted (params : List (Text × Text)) (key : UInt32 × Text) (ok : Bool)
  | ctxDone
  | clientEOF
  | clientFailed
  | clientTimeout (now : ℤ) (ok : Bool)
  | message (msg : FrontendMessage) (env : Env)
  | sent (ok : Bool)
  | sendFailed (err : String) (ok : Bool)
  | received (m : BackendMessage) (ok : Bool)
  | receiveTimeout (ok : Bool)
  | receiveEOF (ok : Bool)
  | receiveFailed (err : String) (ok : Bool)

abbrev Res (γ : Type) := Session γ × List Act

def Res.andThen {γ : Type} (r : Res γ) (f : Session γ → Res γ) : Res γ :=
  ((f r.1).1, r.2 ++ (f r.1).2)

namespace Session

variable {γ : Type}

def beSend (s : Session γ) (m : BackendMessage) : Session γ := { s with out := s.out ++ [(none, m)] }

def beFlush (ok : Bool) (s : Session γ) : Res γ :=
  ({ s with out := [] }, if ok then s.out.map fun p ↦ .deliver p.1 p.2 else [])

def sendErrorRFQ (code msg : String) (ok : Bool) (s : Session γ) : Res γ :=
  ((s.beSend (.errorResponse "ERROR" code msg)).beSend (.readyForQuery txIdle)).beFlush ok

def sendFatalError (code msg : String) (ok : Bool) (s : Session γ) : Res γ :=
  (s.beSend (.errorResponse "FATAL" code msg)).beFlush ok

/-- Back to the top of the loop, where the read deadline is set for the next message. -/
def loop (s : Session γ) : Session γ :=
  { s with
    phase := .top
    deadline :=
      if !s.cfg.rawPassthrough && s.sessionPinned && s.bConn.isSome && s.state.isIdle then true
      else if !s.cfg.hasIdleDeadline then s.deadline
      else if s.state.isIdle then 0 < s.cfg.clientIdleTimeout
      else 0 < s.cfg.idleTxTimeout }

def send (ms : List FrontendMessage) (s : Session γ) : Res γ :=
  match s.bConn with
  | none => (s, [])
  | some b =>
    ({ s with bConn := some { b with sendBuf := b.sendBuf ++ ms.map fun m ↦ (s.id, m) } },
      ms.map fun m ↦ .forward b.id m)

def ask (query : Text) (s : Session γ) : Session γ :=
  { s with bConn := s.bConn.map fun b ↦ { b with sendBuf := b.sendBuf ++ [(s.id, .query query)] } }

def flush (s : Session γ) : Res γ :=
  match s.bConn with
  | none => (s, [])
  | some b =>
    ({ s with bConn := some { b with sendBuf := [] } },
      b.sendBuf.map fun p ↦ .wrote p.1 b.id p.2)

/-- `Frontend.Flush` that fails. The buffer is empty afterwards too. -/
def loseBuf (s : Session γ) : Session γ :=
  { s with bConn := s.bConn.map fun b ↦ { b with sendBuf := [] } }

/-- `Discard`, or `Close` of a backend that is not to be used again: what is in the send buffer
goes out with the `Terminate`. -/
def discard (s : Session γ) : Res γ :=
  match s.bConn with
  | none => (s, [])
  | some b =>
    ({ s with bConn := none, bConnPool := none },
      b.sendBuf.map (fun p ↦ .wrote p.1 b.id p.2) ++ [.wrote s.id b.id .terminate])

def resume (leaving : Bool) (s : Session γ) : Session γ :=
  if leaving then { s with phase := .returned } else s.loop

def putBack (leaving : Bool) (s : Session γ) : Res γ :=
  match s.bConn with
  | none => (s.resume leaving, [])
  | some b =>
    (({ s with bConn := none, bConnPool := none } : Session γ).resume leaving,
      [.put (s.bConnPool.getD 0) b])

def release (leaving : Bool) (s : Session γ) : Res γ :=
  if s.cfg.resetOnRelease then
    let query := if s.cfg.resetQuery = [] then ascii "DISCARD ALL" else s.cfg.resetQuery
    ({ s.ask query with phase := .resetFlush leaving }, [])
  else s.putBack leaving

def leave (s : Session γ) : Res γ :=
  if s.bConn.isNone then ({ s with phase := .returned }, [])
  else if s.state.isIdle then s.release true
  else ({ s with phase := .returned } : Session γ).discard

def resetFailed (leaving : Bool) (s : Session γ) : Res γ :=
  s.discard.andThen fun s ↦ (s.resume leaving, [])

end Session

end PgRouter.Client.Handler
