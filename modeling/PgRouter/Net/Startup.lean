import PgRouter.Net.Proxy

namespace PgRouter.Net.Startup

open Client.Protocol Proxy

/-- What `ReceiveStartupMessage` gives. -/
inductive Request
  | sslRequest
  | gssEncRequest
  | cancelRequest (processID : UInt32) (secretKey : Text)
  | startupMessage (user database : Text)
  | unknown
  deriving DecidableEq

/-- Where a call of `Handle` is: before a message, at one of the two steps of a TLS upgrade, at the refusal of
encryption, at a cancel request, at the authentication, in the admin console, or in `servePooled`. -/
inductive Place
  | receiving
  | accepting
  | upgrading
  | declining
  | cancelling (processID : UInt32) (secretKey : Text)
  | authenticating (user database : Text)
  | console
  | pooled (user database : Text)
  | returned
  deriving DecidableEq

/-- What a call learns: the next message, none on an error, or whether what it has been doing went well. -/
inductive Outcome
  | received (request : Option Request)
  | finished (ok : Bool)
  deriving DecidableEq

/-- Whether there is a `TLSConfig`, and `Auth`. -/
structure Options where
  tlsConfig : Bool
  auth : Bool
  deriving DecidableEq

def dispatch (user database : Text) : Place :=
  if database = ascii "pgbouncer" then .console else .pooled user database

def Options.handle (o : Options) : Place → Outcome → Option Place
  | .receiving, .received none => some .returned
  | .receiving, .received (some .sslRequest) => some (if o.tlsConfig then .accepting else .declining)
  | .receiving, .received (some .gssEncRequest) => some .declining
  | .receiving, .received (some (.cancelRequest processID secretKey)) => some (.cancelling processID secretKey)
  | .receiving, .received (some (.startupMessage user database)) =>
    some (if o.auth then .authenticating user database else dispatch user database)
  | .receiving, .received (some .unknown) => some .returned
  | .accepting, .finished ok => some (if ok then .upgrading else .returned)
  | .upgrading, .finished ok => some (if ok then .receiving else .returned)
  | .declining, .finished ok => some (if ok then .receiving else .returned)
  | .authenticating user database, .finished ok => some (if ok then dispatch user database else .returned)
  | .cancelling _ _, .finished _ | .console, .finished _ | .pooled _ _, .finished _ => some .returned
  | _, _ => none

/-- A message before the session. The flag says whether the answer to a request for encryption could be written
and, where TLS is accepted, whether the handshake went through. -/
structure StartupMessage where
  request : Request
  completed : Bool := true
  deriving DecidableEq

inductive Arrival
  | closed
  | cancel (processID : UInt32) (secretKey : Text)
  | session (conn : Conn) (user database : Text)
  deriving DecidableEq

/-- The loop of `Handle`, with or without a `TLSConfig`, up to the authentication. The client may hang up
after any message. -/
def handle (tlsConfig : Bool) (conn : Conn) : List StartupMessage → Arrival
  | [] => .closed
  | m :: rest =>
    match (Options.mk tlsConfig true).handle .receiving (.received (some m.request)) with
    | some .accepting => if m.completed then handle tlsConfig (.tlsConn conn) rest else .closed
    | some .declining => if m.completed then handle tlsConfig conn rest else .closed
    | some (.cancelling processID secretKey) => .cancel processID secretKey
    | some (.authenticating user database) => .session conn user database
    | _ => .closed

variable {parseIP : Text → Option IP} {l : Listener} {ip : IP} {port : ℤ} {stream : Text} {conn : Conn} {c : Conn}

variable {messages : List StartupMessage} {user database : Text} {tlsConfig : Bool}

end PgRouter.Net.Startup
