import PgRouter.Auth.Hba
import PgRouter.Library.Searches
import PgRouter.Net.Startup

namespace PgRouter.Auth.Selection

open Client.Protocol Net.Proxy Net.Startup Hba Library.Searches

section Code

end Code

section Meaning

/-- How a client has reached the router. -/
inductive Transport
  | unixSocket
  | tcp (peer : Option IP) (encrypted : Bool)
  deriving DecidableEq

namespace Transport

end Transport

def admits : RuleType → Transport → Bool
  | .local, .unixSocket => true
  | .host, .tcp .. => true
  | .hostssl, .tcp _ encrypted => encrypted
  | .hostnossl, .tcp _ encrypted => !encrypted
  | _, _ => false

def within (r : HBARule) : Transport → Bool
  | .unixSocket => true
  | .tcp peer _ => peer.any fun ip ↦ r.cidr.any (·.contains ip)

def named : Text → Text
  | 0x2b :: role => role
  | name => name

def lists (entries : List Text) (v : Text) : Bool := entries.any fun x ↦ x == ascii "all" || named x == v

def covers (r : HBARule) (db user : Text) : Bool := lists r.databases db && lists r.users user

def meets (r : HBARule) (t : Transport) (db user : Text) : Bool :=
  admits r.type t && covers r db user && within r t

end Meaning

section

variable (rules : List HBARule)

end

variable {parseIP : Text → Option IP} {l : Listener} {tlsConfig : Bool} {ip : IP} {port : ℤ} {stream : Text}
  {messages : List StartupMessage} {conn : Conn} {user db : Text}

section Cases

end Cases

end PgRouter.Auth.Selection
