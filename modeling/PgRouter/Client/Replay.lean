import PgRouter.Client.Readiness
import PgRouter.Client.Status
import PgRouter.Sql.Router
import PgRouter.Sql.Sessions

namespace PgRouter.Client.Replay

open Library.Runs Library.Records Library.Transactions Protocol Servers Handler Sharing Handling Attachment Turns
  Exchange Splicing Sql.Settings Sql.Sessions
open Status hiding inStep

variable {V : Type}

/-- A session of `Serve` and the settings that its client has: those of the backend it holds, or held
last. -/
structure Tenant (V : Type) where
  session : Session GUCCache
  settings : Variables V

/-- Each `Query` that is sent succeeds or fails and is answered with some messages. A backend comes with
its settings. -/
inductive Event (V : Type)
  | input (i : Input)
  | sent (ok : Bool) (answers : List (Bool × List BackendMessage))
  | acquired (b : Backend) (settings : Variables V)
  | notice (m : BackendMessage)

def isError : BackendMessage → Bool
  | .errorResponse .. => true
  | _ => false

variable (pg : Postgres V) (order : List (Text × Text) → List (Text × Text))

/-- How the queries of a batch are executed. An error is reported, and the transaction status is. -/
def replies : List FrontendMessage → List (Bool × List BackendMessage) → Variables V →
    Option (Variables V × List BackendMessage)
  | [], [], settings => some (settings, [])
  | .query text :: ms, (fails, body) :: answers, settings =>
    if body.any endMarker || body.any isError == (execute pg fails (pg.reads text) settings).2 then none
    else (replies ms answers (execute pg fails (pg.reads text) settings).1).map fun r ↦
      (r.1, body ++ .readyForQuery (txStatus (execute pg fails (pg.reads text) settings).1) :: r.2)
  | _, _, _ => none

/-- What a batch comes to. Once the backend is reset, or its connection has failed, it is of no concern to
the client. -/
def heard (t : Tenant V) (answers : List (Bool × List BackendMessage)) :
    Option (Variables V × List BackendMessage) :=
  match t.session.bConn with
  | none => some (t.settings, [])
  | some b =>
    if isOver t.session.phase || b.peer.broken then some (t.settings, answers.flatMap Prod.snd)
    else replies pg (outgoing t.session b) answers t.settings

def keeping (settings : Variables V) (r : Res GUCCache) : Tenant V × List Act :=
  (⟨r.1, if r.1.bConn.isNone then settings.abort else settings⟩, r.2)

def step (t : Tenant V) : Event V → Option (Tenant V × List Act)
  | .input i =>
    match i with
    | .sent _ | .acquired _ => none
    | _ => (Exchange.step (Sql.routerSQL order) anything t.session (.input i [])).map (keeping t.settings)
  | .sent ok answers => (heard pg t answers).bind fun h ↦
      (Exchange.step (Sql.routerSQL order) anything t.session (.input (.sent ok) h.2)).map (keeping h.1)
  | .acquired b settings =>
    (Exchange.step (Sql.routerSQL order) anything t.session (.input (.acquired b) [])).map
      (keeping (match t.session.phase with | .acquiring .. => settings | _ => t.settings))
  | .notice m =>
    (Exchange.step (Sql.routerSQL order) anything t.session (.notice m)).map (keeping t.settings)

def noteOf (text : Text) : GUCOp :=
  if ((Sql.routerSQL order).analyzeSQL text).needsGUC then gucOp text else .none

/-- The statement is one, and the cache takes it for what it is. -/
def understood (text : Text) : Bool :=
  match pg.reads text with
  | [c] => takenFor (noteOf order text) c
  | _ => false

/-- A whitelisted variable is set to a valid value, as a whole. -/
def validNote : GUCOp → Bool
  | .set name val => !replayable name || pg.whole val && (pg.assigned name val).isSome
  | _ => true

/-- A replay on a backend that is fresh from a reset succeeds and brings the client's settings back. -/
def Faithful (t : Tenant V) : Prop :=
  ∀ fails, ∃ s, execute pg fails (pg.reads ((Sql.routerSQL order).replayQuery t.session.guc)) (fresh pg) =
    (s, true) ∧ ∀ name, replayable name = true → shown s name = shown t.settings name

variable {pg order} {t : Tenant V}

variable {m : BackendMessage} {msg : FrontendMessage} {i : Input} {b : Backend} {ok splicing : Bool}
  {settings' : Variables V} {rest reply : List BackendMessage}
  {answers : List (Bool × List BackendMessage)} {text name : Text} {op : GUCOp}

def Leads (pg : Postgres V) (order : List (Text × Text) → List (Text × Text)) (text : Text) (c : GUCCache)
    (settings : Variables V) : Prop :=
  ∀ name, tracked name = true →
    becomes pg (noteOf order text) name (settings.values name) = settled pg c.vars pg.default name

def Heeds (pg : Postgres V) (order : List (Text × Text) → List (Text × Text)) (text : Text)
    (c : GUCCache) : Prop :=
  ∀ name, tracked name = true →
    becomes pg (noteOf order text) name (settled pg c.vars pg.default name) = settled pg c.vars pg.default name

def Stage (pg : Postgres V) (order : List (Text × Text) → List (Text × Text)) (s : Session GUCCache)
    (settings : Variables V) : Prop :=
  match s.phase with
  | .acquiring msg _ => ∃ text, msg = .query text ∧ understood pg order text = true ∧
      Heeds pg order text s.guc
  | .replayFlush msg => ∃ text b, msg = .query text ∧ s.bConn = some b ∧
      b.sendBuf.map Prod.snd = [.query (GUCCache.replayText (order s.guc.vars))] ∧
      understood pg order text = true ∧ Heeds pg order text s.guc ∧ settings.block = none ∧
      ∀ name, replayable name = true → settings.values name = pg.default name
  | .replaying msg => ∃ text b, msg = .query text ∧ s.bConn = some b ∧ b.sendBuf = [] ∧
      understood pg order text = true ∧ Heeds pg order text s.guc ∧ settings.block = none ∧
      Agrees pg s.guc settings
  | .flushing => ∃ text b, s.bConn = some b ∧ b.sendBuf.map Prod.snd = [.query text] ∧
      understood pg order text = true ∧ Leads pg order text s.guc settings
  | .resetFlush leaving | .resetting leaving =>
    leaving = true ∨ Agrees pg s.guc settings ∧ settings.block = none
  | .returned => True
  | .welcome | .greeting => Agrees pg s.guc settings ∧ s.bConn = none
  | _ => Agrees pg s.guc settings ∧ ∀ b, s.bConn = some b → b.sendBuf = []

structure Steady (pg : Postgres V) (order : List (Text × Text) → List (Text × Text)) (s : Session GUCCache)
    (settings : Variables V) : Prop where
  honest : Honest s
  raw : s.cfg.rawPassthrough = false
  mode : s.cfg.isStatementMode = false
  cache : Replayable pg s.guc
  free : s.bConn = none → settings.block = none
  linked : ∀ b, s.bConn = some b → isOver s.phase = false →
    b.peer.broken = false ∧ b.peer.server = ⟨txStatus settings, none⟩
  stage : Stage pg order s settings

variable {s s' : Session GUCCache} {settings : Variables V} {r : Res GUCCache}

def left (settings : Variables V) (r : Res GUCCache) : Variables V :=
  if r.1.bConn.isNone then settings.abort else settings

/-- A step keeps the session steady, and tells the client that it is idle only with settings that a replay
would bring back. -/
structure Goes (pg : Postgres V) (order : List (Text × Text) → List (Text × Text)) (settings : Variables V)
    (r : Res GUCCache) : Prop where
  steady : Steady pg order r.1 (left settings r)
  told : txIdle ∈ tells r.2 → Agrees pg r.1.guc (left settings r) ∧ (left settings r).block = none

section

variable (hs : Steady pg order s settings)

include hs

end

section Condition

variable (pg order) [DecidableEq V]

/-- The end of the transaction would take back what it has set. -/
def pending (settings : Variables V) : Bool :=
  defaultReplayable.any fun name ↦
    tracked (ascii name) && settings.abort.values (ascii name) != settings.values (ascii name)

/-- A `SET` of a whitelisted variable assigns what it would assign to the default value. A `DateStyle` does not
if it leaves a part as it is that has been set to something else. -/
def outright (settings : Variables V) : GUCOp → Bool
  | .set name val => !replayable name || pg.evaluate name val (present settings name) == pg.assigned name val
  | _ => true

/-- A `SET`, `RESET` or `DISCARD ALL` that the cache takes note of succeeds, and another statement does not
take any of them back. -/
def lasting (t : Tenant V) (answers : List (Bool × List BackendMessage)) : Bool :=
  match t.session.bConn.map (outgoing t.session), answers with
  | some [.query text], [(fails, _)] =>
    if noted (noteOf order text) then
      (execute pg fails (pg.reads text) t.settings).2 && outright pg t.settings (noteOf order text)
    else !undoes pg fails (pg.reads text) t.settings
  | _, _ => true

def pristine (b : Backend) (settings : Variables V) : Bool :=
  b.sendBuf.isEmpty && !b.peer.broken && markers b.peer.unread == 0 && b.peer.server == ⟨txIdle, none⟩ &&
    settings.block.isNone && defaultReplayable.all fun name ↦
      settings.values (ascii name) == pg.default (ascii name)

/-- The client sends queries of one statement that the cache understands; what the cache takes note of is
valid, says the whole value, both to the client and on the backend, is not turned down, succeeds and is not
taken back; backends come out of a reset; the client is not told that it is idle inside of a transaction, and a
dead connection is not taken for an idle one. -/
def steady (t : Tenant V) : Event V → Bool
  | .input (.message msg env) =>
    match msg with
    | .query text =>
      understood pg order text && validNote pg (noteOf order text) &&
        outright pg t.settings (noteOf order text) &&
        (!Readiness.turnedDown (Sql.routerSQL order) env msg t.session || !noted (noteOf order text)) &&
        (!gated (Sql.routerSQL order) t.session.cfg env msg ||
          t.session.bConn.all fun b ↦ b.peer.server == ⟨txIdle, none⟩)
    | .terminate => true
    | _ => false
  | .input (.receiveTimeout _) =>
    match t.session.phase with
    | .draining _ => !pending t.settings
    | _ => true
  | .input (.receiveEOF _) =>
    match t.session.phase with
    | .draining true => false
    | _ => true
  | .sent _ answers =>
    match t.session.phase with
    | .flushing => lasting pg order t answers
    | _ => true
  | .acquired b settings =>
    match t.session.phase with
    | .acquiring .. => pristine pg b settings
    | _ => true
  | _ => true

end Condition

variable [DecidableEq V]

section

variable (horder : ∀ vars, (order vars).Perm vars)

include horder

section

variable (hs : Steady pg order t.session t.settings)

include hs

end

end

def rounds (t : Tenant V) : Event V → Bool
  | .input i => takes t.session i
  | _ => false

abbrev Chronicle (V : Type) := Journal (Tenant V) (Event V)

def inStep (pg : Postgres V) (order : List (Text × Text) → List (Text × Text)) (c : Chronicle V)
    (e : Framed (Event V)) : Bool :=
  steady pg order c.current.state e.event && fitting rounds c.current e

def answered (txStatus : UInt8) : List (Event Text) :=
  [.sent true [(false, [.other 0x43])], .input (.received (.other 0x43) true),
    .input (.received (.readyForQuery txStatus) true)]

def attached : Event Text := .acquired (.dialed 7 none) (fresh samplePostgres)

end PgRouter.Client.Replay
