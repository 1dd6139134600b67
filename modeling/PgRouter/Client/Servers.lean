import PgRouter.Client.Prepared

namespace PgRouter.Client.Servers

open Protocol Prepared

/-- How a `COPY ... FROM STDIN` was started. -/
inductive CopyMode
  | simple
  | extended
  deriving DecidableEq

/-- The transaction status that the server last reported, and whether it waits for copy data. -/
structure Server where
  txStatus : UInt8
  copying : Option CopyMode
  deriving DecidableEq

inductive Ending
  | none
  | ready (txStatus : UInt8)
  | copyIn

structure Answer where
  body : List BackendMessage
  ending : Ending

def endMarker : BackendMessage → Bool
  | .readyForQuery _ | .copyInResponse => true
  | _ => false

def Ending.messages : Ending → List BackendMessage
  | .none => []
  | .ready txStatus => [.readyForQuery txStatus]
  | .copyIn => [.copyInResponse]

namespace Server

/-- How a server may end its answer to a message: one `ReadyForQuery` for each `Query`, `Sync` and
`FunctionCall` outside of `COPY`, and one at the end of a `COPY` that a `Query` has started. A
message that has no place in a `COPY` aborts it. -/
def ends (srv : Server) (m : FrontendMessage) (e : Ending) : Option Server :=
  match srv.copying with
  | none =>
    match m, e with
    | .query _, .ready txStatus | .sync, .ready txStatus | .functionCall, .ready txStatus =>
      some ⟨txStatus, none⟩
    | .query _, .copyIn => some { srv with copying := some .simple }
    | .execute _, .copyIn => some { srv with copying := some .extended }
    | .query _, .none | .sync, .none | .functionCall, .none => none
    | _, .none => some srv
    | _, _ => none
  | some mode =>
    match m, e with
    | .copyData _, .none | .flush, .none | .sync, .none => some srv
    | .copyData _, _ | .flush, _ | .sync, _ => none
    | _, .ready txStatus => if mode = .simple then some ⟨txStatus, none⟩ else none
    | _, .none => if mode = .extended then some ⟨srv.txStatus, none⟩ else none
    | _, .copyIn => none

def answer (srv : Server) (m : FrontendMessage) (a : Answer) : Option (Server × List BackendMessage) :=
  if a.body.any endMarker then none
  else (srv.ends m a.ending).map fun srv ↦ (srv, a.body ++ a.ending.messages)

def answers : Server → List FrontendMessage → List Answer → Option (Server × List BackendMessage)
  | srv, [], [] => some (srv, [])
  | srv, m :: ms, a :: as =>
    (srv.answer m a).bind fun first ↦
      (answers first.1 ms as).map fun rest ↦ (rest.1, first.2 ++ rest.2)
  | _, _, _ => none

end Server

/-- The far end of a backend connection: what it has answered and nobody has read yet, and whether a
read or a write on the connection has failed. -/
structure Peer where
  unread : List BackendMessage
  server : Server
  broken : Bool

/-- A backend connection: the messages in the send buffer of its `Frontend`, each with the client
that put it there, and its prepared statements. -/
structure Backend where
  id : ℕ
  sendBuf : List (ℕ × FrontendMessage)
  prepared : Option PreparedCache
  peer : Peer

def Backend.dialed (id : ℕ) (prepared : Option PreparedCache) : Backend :=
  ⟨id, [], prepared, [], ⟨txIdle, none⟩, false⟩

end PgRouter.Client.Servers
