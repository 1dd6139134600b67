import PgRouter.Client.Handler

namespace PgRouter.Client.Handler.Session

open Protocol Prepared Servers

variable {γ : Type} (sql : SQL γ)

def statementOf : FrontendMessage → Option Text
  | .query text => some text
  | .parse _ text _ => some text
  | _ => none

def pin (needsPin : Bool) (s : Session γ) : Session γ :=
  { s with sessionPinned := s.sessionPinned || needsPin }

def observeStatement (msg : FrontendMessage) (s : Session γ) : Session γ :=
  match msg with
  | .query text =>
    ({ s with guc := sql.observeQueryWithInfo s.guc text (sql.analyzeSQL text) } : Session γ).pin
      (sql.analyzeSQL text).needsPin
  | .parse name text paramOIDs =>
    ({ s with
        prepCache := s.prepCache.map fun c ↦ c.observe sql.serverNameFor name text paramOIDs } :
      Session γ).pin (sql.analyzeSQL text).needsPin
  | .close objectType name =>
    if objectType = objectStatement then { s with prepCache := s.prepCache.map fun c ↦ c.close name }
    else s
  | _ => s

def pinUnrecognizedSet (s : Session γ) : Session γ := s.pin (sql.hasUnrecognizedSet s.guc)

def countMessage (msg : FrontendMessage) (s : Session γ) : Session γ :=
  { s with state := s.state.observeClientMessage msg }

def observeClientMessage (msg : FrontendMessage) (s : Session γ) : Session γ :=
  ((s.countMessage msg).observeStatement sql msg).pinUnrecognizedSet sql

def stickyToPrimary (env : Env) (lastWrite : Option ℤ) : Bool :=
  match lastWrite with
  | none => false
  | some t => 0 < env.stickyWindow && env.now - t < env.stickyWindow

def selectPoolForMsg (env : Env) (s : Session γ) (info : SQLOp × Bool) : ℕ :=
  if s.sessionPinned || !(info.1 == .read || info.2) then 0
  else if stickyToPrimary env s.lastWriteAt then 0
  else env.replica.getD 0

def afterForward (msg : FrontendMessage) (s : Session γ) : Session γ :=
  if triggersBackendDrain msg then { s with phase := .flushing } else s.loop

def applyIntercept (i : Intercept) (s : Session γ) : Session γ :=
  { s with
    prepCache := some i.clientPrep
    bConn := s.bConn.map fun b ↦ { b with prepared := i.prepared }
    out := s.out ++ i.reply.map fun m ↦ (none, m)
    pendingEvictCC := s.pendingEvictCC + i.evictCC
    pendingParsePC := s.pendingParsePC + i.parsePC }

def intercept (clientPrep : PrepareCache) (msg : FrontendMessage) (s : Session γ) : Intercept :=
  prepareInterceptForward sql.serverNameFor clientPrep (s.bConn.bind Backend.prepared) msg

/-- The message goes to the attached backend. In raw mode it waits in `writeBuf`. -/
def forwardMessage (msg : FrontendMessage) (s : Session γ) : Res γ :=
  if s.cfg.rawPassthrough then
    (({ s with writeBuf := s.writeBuf ++ [msg] } : Session γ).afterForward msg, [])
  else match s.prepCache with
    | none => (s.send [msg]).andThen fun s ↦ (s.afterForward msg, [])
    | some clientPrep =>
      ((s.applyIntercept (s.intercept sql clientPrep msg)).send
        ((s.intercept sql clientPrep msg).injected ++
          (s.intercept sql clientPrep msg).forward.toList)).andThen fun s ↦ (s.afterForward msg, [])

/-- A backend is acquired from `pool`, unless the primary is known to be down. -/
def acquire (env : Env) (msg : FrontendMessage) (pool : ℕ) (s : Session γ) : Res γ :=
  if pool = 0 ∧ !env.primaryHealthy then
    (s.sendErrorRFQ "08006"
      s!"pgrouter: primary for \"{s.cfg.database}\" is unhealthy (failover); retry later"
      env.ok).andThen fun s ↦ (s.loop, [])
  else ({ s with phase := .acquiring msg pool }, [])

/-- The part of an iteration that both loops share, from the choice of a pool on. -/
def dispatch (env : Env) (msg : FrontendMessage) (needs : Bool) (info : SQLOp × Bool)
    (s : Session γ) : Res γ :=
  if needs && s.bConn.isNone then s.acquire env msg (selectPoolForMsg env s info)
  else if s.bConn.isSome then s.forwardMessage sql msg
  else if msg = .sync then
    ((s.beSend (.readyForQuery txIdle)).beFlush env.ok).andThen fun s ↦ (s.loop, [])
  else (s.loop, [])

def rejectBegin (env : Env) (s : Session γ) : Res γ :=
  (s.sendErrorRFQ "25001"
    "pgrouter: explicit transactions are not allowed in statement-mode pool" env.ok).andThen
    fun s ↦ (s.loop, [])

def rejectQPS (env : Env) (s : Session γ) : Res γ :=
  (s.sendErrorRFQ "53300"
    s!"pgrouter: per-tenant QPS cap exceeded (db={s.cfg.database} user={s.cfg.user})"
    env.ok).andThen fun s ↦ (s.loop, [])

def noteWrite (env : Env) (info : SQLOp × Bool) (s : Session γ) : Session γ :=
  if info.1 = .write ∧ !info.2 then { s with lastWriteAt := some env.now } else s

def serveObserved (env : Env) (msg : FrontendMessage) (s : Session γ) : Res γ :=
  match statementOf msg with
  | none => s.dispatch sql env msg (messageNeedsBackend msg) (.unknown, false)
  | some text =>
    if s.cfg.isStatementMode && sql.isExplicitBeginSQL text then s.rejectBegin env
    else if !env.takeQPS then s.rejectQPS env
    else
      (s.noteWrite env ((sql.analyzeSQL text).op, (sql.analyzeSQL text).isROBegin)).dispatch sql env msg
        (messageNeedsBackend msg) ((sql.analyzeSQL text).op, (sql.analyzeSQL text).isROBegin)

def extracted (cfg : PooledConfig) : FrontendMessage → Option Text
  | .query text =>
    let kw := sql.queryFirstKeywordRaw text
    let needsGUC := kw == ascii "SET" || kw == ascii "DISCARD" || kw == ascii "RESET"
    let needsPin := kw == ascii "LISTEN" || kw == ascii "CREATE" || kw == ascii "DECLARE"
    if cfg.gucTracking && (needsGUC || needsPin || cfg.isStatementMode || cfg.logInfo ||
      0 < cfg.slowQuery) then some text else none
  | .parse _ text _ => if cfg.gucTracking then some text else none
  | _ => none

def observeRaw (msg : FrontendMessage) (s : Session γ) : Session γ :=
  if s.cfg.gucTracking then
    match extracted sql s.cfg msg with
    | some text => ((s.countMessage msg).observeStatement sql (.query text)).pinUnrecognizedSet sql
    | none => (s.countMessage msg).pinUnrecognizedSet sql
  else s.countMessage msg

def isQuery : FrontendMessage → Bool
  | .query _ => true
  | _ => false

def classifyRaw (cfg : PooledConfig) (msg : FrontendMessage) : SQLOp × Bool :=
  if !cfg.gucTracking then (.unknown, false)
  else match extracted sql cfg msg with
    | some text => ((sql.analyzeSQL text).op, (sql.analyzeSQL text).isROBegin)
    | none => sql.classifyDetail []

def serveRawObserved (env : Env) (msg : FrontendMessage) (s : Session γ) : Res γ :=
  if s.cfg.gucTracking && s.cfg.isStatementMode && isQuery msg &&
      sql.isExplicitBeginSQL ((extracted sql s.cfg msg).getD []) then s.rejectBegin env
  else if (statementOf msg).isNone then
    s.dispatch sql env msg (needsBackend msg) (.unknown, false)
  else if !env.takeQPS then s.rejectQPS env
  else (s.noteWrite env (classifyRaw sql s.cfg msg)).dispatch sql env msg (needsBackend msg)
    (classifyRaw sql s.cfg msg)

/-- The backend is there: `setupSplice` gives it a new `Frontend`, unless in raw mode. -/
def adopt (pool : ℕ) (b : Backend) (s : Session γ) : Session γ :=
  { s with
    bConn := some (if s.cfg.splice && !s.cfg.rawPassthrough then { b with sendBuf := [] } else b)
    bConnPool := some pool
    spliceReader := s.cfg.splice }

/-- The message that needs a backend goes out, after a replay of the session settings. -/
def attach (msg : FrontendMessage) (pool : ℕ) (b : Backend) (s : Session γ) : Res γ :=
  if sql.replayQuery s.guc = [] then (s.adopt pool b).forwardMessage sql msg
  else ({ (s.adopt pool b).ask (sql.replayQuery s.guc) with phase := .replayFlush msg }, [])

def replayFailed (err : String) (ok : Bool) (s : Session γ) : Res γ :=
  (s.discard.andThen fun s ↦
    s.sendFatalError "57P03" s!"pgrouter: backend replay failed: replay: {err}" ok).andThen leave

def replayReceived (msg : FrontendMessage) (m : BackendMessage) (ok : Bool) (s : Session γ) : Res γ :=
  match m with
  | .errorResponse severity _ text => s.replayFailed s!"server error {severity}: {text}" ok
  | .readyForQuery _ => s.forwardMessage sql msg
  | _ => (s, [])

def writeBatch (s : Session γ) : Res γ :=
  if s.cfg.rawPassthrough then
    match s.bConn with
    | none => (s, [])
    | some b =>
      ({ s with writeBuf := [] },
        s.writeBuf.flatMap fun m ↦ [.forward b.id m, .wrote s.id b.id m])
  else s.flush

/-- `drainBackendUntilRFQ` begins. The splice forwarder first flushes what the client is still to
be told. -/
def startDrain (ok : Bool) (s : Session γ) : Res γ :=
  if s.spliceReader && s.pendingEvictCC == 0 && s.pendingParsePC == 0 then
    (s.beFlush ok).andThen fun s ↦ if ok then ({ s with phase := .draining true }, []) else s.leave
  else ({ s with phase := .draining false }, [])

def finalizeRFQ (s : Session γ) : Res γ :=
  if !s.sessionPinned && (s.cfg.isStatementMode || s.state.isIdle) then s.release false
  else (s.loop, [])

def pass (m : BackendMessage) (ok : Bool) (s : Session γ) : Res γ :=
  beFlush ok { s with out := s.out ++ [(s.bConn.map Backend.id, m)] }

def note (m : BackendMessage) (s : Session γ) : Session γ :=
  { s with state := s.state.observeBackendMessage m }

def observe (m : BackendMessage) (s : Session γ) : Res γ :=
  match m with
  | .readyForQuery _ => (s.note m).finalizeRFQ
  | .copyInResponse => ((s.note m).loop, [])
  | _ => (s.note m, [])

/-- One message of the backend in a drain. Only the decoding drain filters. -/
def drainReceived (splicing : Bool) (m : BackendMessage) (ok : Bool) (s : Session γ) : Res γ :=
  if !splicing && m = .closeComplete && 0 < s.pendingEvictCC then
    ({ s with pendingEvictCC := s.pendingEvictCC - 1 }, [])
  else if !splicing && m = .parseComplete && 0 < s.pendingParsePC then
    ({ s with pendingParsePC := s.pendingParsePC - 1 }, [])
  else (s.pass m ok).andThen fun s ↦ if ok then s.observe m else s.leave

def queryTimeout (ok : Bool) (s : Session γ) : Res γ :=
  (s.discard.andThen fun s ↦
    Res.andThen (s, [.timedOut]) fun s ↦
      s.sendFatalError "57014"
        s!"pgrouter: query_timeout ({durationString s.cfg.queryTimeout}) exceeded" ok).andThen
    fun s ↦ (s.loop, [])

def resetReceived (leaving : Bool) (m : BackendMessage) (s : Session γ) : Res γ :=
  match m with
  | .errorResponse .. => s.resetFailed leaving
  | .readyForQuery txStatus =>
    if txStatus = txIdle then
      ({ s with
          bConn := s.bConn.map fun b ↦ { b with prepared := b.prepared.map PreparedCache.clear } } :
        Session γ).putBack leaving
    else s.resetFailed leaving
  | _ => (s, [])

/-- A pinned session that times out looks for notifications of its backend. -/
def polls (now : ℤ) (s : Session γ) : Bool :=
  !s.cfg.rawPassthrough && s.sessionPinned && s.bConn.isSome && s.state.isIdle &&
    (s.cfg.clientIdleTimeout ≤ 0 || now - s.lastClientMsgAt < s.cfg.clientIdleTimeout)

def clientTimeout (now : ℤ) (ok : Bool) (s : Session γ) : Res γ :=
  if s.polls now then
    ({ s with phase := .polling, deadline := !s.cfg.hasIdleDeadline && s.deadline }, [])
  else if s.state.isIdle then
    (s.sendFatalError "57P05" "pgrouter: client_idle_timeout" ok).andThen leave
  else (s.sendFatalError "25P03" "pgrouter: idle_transaction_timeout" ok).andThen leave

def clearDeadline (now : ℤ) (s : Session γ) : Session γ :=
  { s with deadline := !s.cfg.hasIdleDeadline && s.deadline, lastClientMsgAt := now }

def clientMessage (env : Env) (msg : FrontendMessage) (s : Session γ) : Res γ :=
  if msg = .terminate then s.leave
  else if s.cfg.rawPassthrough then
    ((s.clearDeadline env.now).observeRaw sql msg).serveRawObserved sql env msg
  else ((s.clearDeadline env.now).observeClientMessage sql msg).serveObserved sql env msg

def welcome (params : List (Text × Text)) (key : UInt32 × Text) : List BackendMessage :=
  .authenticationOk :: params.map (fun p ↦ .parameterStatus p.1 p.2) ++ [.backendKeyData key.1 key.2]

def greet (params : List (Text × Text)) (key : UInt32 × Text) (ok : Bool) (s : Session γ) : Res γ :=
  ((({ s with out := s.out ++ (welcome params key).map fun m ↦ (none, m) } : Session γ).beSend
    (.readyForQuery txIdle)).beFlush ok).andThen fun s ↦
      if ok then ((s.note (.readyForQuery txIdle)).loop, []) else ({ s with phase := .returned }, [])

def pollReceived (m : BackendMessage) (ok : Bool) (s : Session γ) : Res γ :=
  (s.pass m ok).andThen fun s ↦
    if ok then (s.note m, []) else ({ s with phase := .returned } : Session γ).discard

/-- One step of `Serve` or `serveRaw`, up to the next point where it has to wait. -/
def step (s : Session γ) (input : Input) : Option (Res γ) :=
  match s.phase, input with
  | .welcome, .acquired b => some ({ s with phase := .greeting }, [.put 0 b])
  | .welcome, .acquireFailed _ _ => some ({ s with phase := .greeting }, [])
  | .welcome, .greeted params key ok | .greeting, .greeted params key ok =>
    some (s.greet params key ok)
  | .top, .ctxDone | .top, .clientEOF | .top, .clientFailed => some s.leave
  | .top, .clientTimeout now ok => if s.deadline then some (s.clientTimeout now ok) else none
  | .top, .message msg env => some (s.clientMessage sql env msg)
  | .polling, .received m ok => some (s.pollReceived m ok)
  | .polling, .receiveTimeout _ => some (s.loop, [])
  | .polling, .receiveEOF _ | .polling, .receiveFailed _ _ =>
    some ({ s with phase := .returned } : Session γ).discard
  | .acquiring msg pool, .acquired b => some (s.attach sql msg pool b)
  | .acquiring _ _, .acquireFailed err ok =>
    some ((s.sendFatalError "08006" s!"pgrouter: cannot acquire backend: {err}" ok).andThen leave)
  | .replayFlush msg, .sent _ => some ({ s with phase := .replaying msg } : Session γ).flush
  | .replayFlush _, .sendFailed err ok => some (s.loseBuf.replayFailed s!"flush: {err}" ok)
  | .replaying msg, .received m ok => some (s.replayReceived sql msg m ok)
  | .replaying _, .receiveEOF ok => some (s.replayFailed "recv: unexpected EOF" ok)
  | .replaying _, .receiveFailed err ok => some (s.replayFailed s!"recv: {err}" ok)
  | .flushing, .sent ok => some (s.writeBatch.andThen fun s ↦ s.startDrain ok)
  | .flushing, .sendFailed _ _ => some s.loseBuf.leave
  | .draining splicing, .received m ok => some (s.drainReceived splicing m ok)
  | .draining _, .receiveTimeout ok =>
    if 0 < s.cfg.queryTimeout then some (s.queryTimeout ok) else none
  | .draining true, .receiveEOF _ => some (s.loop, [])
  | .draining false, .receiveEOF _ | .draining _, .receiveFailed _ _ => some s.leave
  | .resetFlush leaving, .sent _ => some ({ s with phase := .resetting leaving } : Session γ).flush
  | .resetFlush leaving, .sendFailed _ _ => some (s.loseBuf.resetFailed leaving)
  | .resetting leaving, .received m _ => some (s.resetReceived leaving m)
  | .resetting leaving, .receiveEOF _ | .resetting leaving, .receiveFailed _ _ =>
    some (s.resetFailed leaving)
  | _, _ => none

def new (id : ℕ) (cfg : PooledConfig) : Session γ where
  id := id
  cfg := cfg
  phase := .welcome
  state := {}
  guc := sql.newGUCCache
  prepCache := if cfg.preparedCache && !cfg.rawPassthrough then some {} else none
  sessionPinned := false
  bConn := none
  bConnPool := none
  spliceReader := false
  pendingEvictCC := 0
  pendingParsePC := 0
  out := []
  writeBuf := []
  lastWriteAt := none
  lastClientMsgAt := 0
  deadline := false

end PgRouter.Client.Handler.Session

namespace PgRouter.Client.Handler

open Protocol

def plainSQL : SQL Unit where
  analyzeSQL _ := ⟨.unknown, false, false, false⟩
  classifyDetail _ := (.unknown, false)
  isExplicitBeginSQL _ := false
  queryFirstKeywordRaw _ := []
  serverNameFor query := query
  newGUCCache := ()
  observeQueryWithInfo _ _ _ := ()
  hasUnrecognizedSet _ := false
  replayQuery _ := []

def pooling : PooledConfig where
  database := "app"
  user := "app"
  resetOnRelease := true
  resetQuery := []
  queryTimeout := 1000
  clientIdleTimeout := 0
  idleTxTimeout := 0
  slowQuery := 0
  poolMode := .transaction
  splice := false
  preparedCache := false
  rawPassthrough := false
  gucTracking := true
  logInfo := false

def unreset : PooledConfig := { pooling with resetOnRelease := false }

def calm : Env := ⟨0, true, true, true, none, 0⟩

def welcomed : List Input := [.acquireFailed "" true, .greeted [] (0, []) true]

end PgRouter.Client.Handler
