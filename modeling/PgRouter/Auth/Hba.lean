import PgRouter.Net.Proxy
import PgRouter.Sql.Lexing

namespace PgRouter.Auth.Hba

open Client.Protocol Net.Proxy

structure IPNet where
  ip : IP
  mask : List UInt8
  deriving DecidableEq

def to4 (ip : IP) : Option IP :=
  if ip.length = 4 then some ip
  else if ip.length = 16 ∧ ip.take 12 = List.replicate 10 0 ++ [0xff, 0xff] then some (ip.drop 12)
  else none

namespace IPNet

def networkNumberAndMask (n : IPNet) : Option (IP × List UInt8) :=
  match to4 n.ip with
  | some ip =>
    if n.mask.length = 4 then some (ip, n.mask)
    else if n.mask.length = 16 then some (ip, n.mask.drop 12)
    else none
  | none => if n.ip.length = 16 ∧ n.mask.length = 16 then some (n.ip, n.mask) else none

def contains (n : IPNet) (ip : IP) : Bool :=
  let ip := (to4 ip).getD ip
  match n.networkNumberAndMask with
  | some (nn, m) => ip.length = nn.length && (nn.zip (ip.zip m)).all fun (a, b, m) ↦ a &&& m == b &&& m
  | none => ip.isEmpty

end IPNet

inductive RuleType
  | «local»
  | host
  | hostssl
  | hostnossl
  deriving DecidableEq

structure HBARule where
  type : RuleType
  databases : List Text
  users : List Text
  cidr : Option IPNet
  method : Text
  lineNum : ℕ
  deriving DecidableEq

def matchType (type : RuleType) (isLocal tls : Bool) : Bool :=
  match type with
  | .local => isLocal
  | .host => !isLocal
  | .hostssl => !isLocal && tls
  | .hostnossl => !isLocal && !tls

def inListWildcard (list : List Text) (v : Text) : Bool :=
  list.any fun x ↦
    if x = ascii "all" then true
    else
      match x with
      | 0x2b :: role => role == v
      | _ => x == v

def HBARule.accepts (r : HBARule) (db user : Text) (ip : Option IP) (tls : Bool) : Bool :=
  matchType r.type ip.isNone tls && inListWildcard r.databases db && inListWildcard r.users user &&
    match ip with
    | none => true
    | some ip => r.cidr.any (·.contains ip)

def «match» (rules : List HBARule) (db user : Text) (ip : Option IP) (tls : Bool) : Option HBARule :=
  rules.find? (·.accepts db user ip tls)

end PgRouter.Auth.Hba
