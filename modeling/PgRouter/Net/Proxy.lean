import PgRouter.Client.Protocol
import PgRouter.Library.Texts

namespace PgRouter.Net.Proxy

open Client.Protocol Library.Texts

abbrev IP := List UInt8

structure TCPAddr where
  ip : Option IP
  port : ℤ
  deriving DecidableEq

structure ProxyInfo where
  version : ℕ
  family : Text
  sourceAddr : Option TCPAddr
  destAddr : Option TCPAddr
  bytes : ℕ
  deriving DecidableEq

inductive ProxyError
  | peek
  | noProxyHeader
  | v1LineTooLong
  | v1ReadByte
  | v1TooShort (line : Text)
  | v1Fields (count : ℕ) (line : Text)
  | v1SrcPort (port : Text)
  | v1DstPort (port : Text)
  | v2Header
  | v2AddrTooLarge (length : ℕ)
  | v2AddrBlock
  | v2BadVersion (nibble : UInt8)
  | v2UnknownCommand (command : UInt8)
  | v2AddrTooShort (family : Text) (length : ℕ)
  deriving DecidableEq

def v2Sig : Text := [0x0d, 0x0a, 0x0d, 0x0a, 0x00, 0x0d, 0x0a, 0x51, 0x55, 0x49, 0x54, 0x0a]

def v1Sig : Text := ascii "PROXY "

def maxProxyV1Line : ℕ := 128

def maxProxyV2Addr : ℕ := 1024

/-- Reads up to the line feed, one byte at a time. -/
def readLine (lineBuf : Text) : Text → Except ProxyError (Text × Text)
  | [] => if maxProxyV1Line ≤ lineBuf.length then .error .v1LineTooLong else .error .v1ReadByte
  | b :: rest =>
    if maxProxyV1Line ≤ lineBuf.length then .error .v1LineTooLong
    else if b = 0x0a then .ok (lineBuf ++ [b], rest)
    else readLine (lineBuf ++ [b]) rest

def trimLineEnd (line : Text) : Text := (line.reverse.dropWhile fun c ↦ c == 0x0d || c == 0x0a).reverse

section Parsing

-- `net.ParseIP`; a text that is no address has none
variable (parseIP : Text → Option IP)

/-- What follows the family in a line of version 1. The texts of the addresses are not checked: one that
is no address leaves the address of the client without an IP. -/
def parseProxyV1Fields (info : ProxyInfo) (line : Text) (count : ℕ) :
    List Text → Except ProxyError ProxyInfo
  | [srcIP, dstIP, srcPort, dstPort] =>
    match atoi srcPort, atoi dstPort with
    | none, _ => .error (.v1SrcPort srcPort)
    | some _, none => .error (.v1DstPort dstPort)
    | some src, some dst =>
      .ok { info with
        sourceAddr := some ⟨parseIP srcIP, src⟩
        destAddr := some ⟨parseIP dstIP, dst⟩ }
  | _ => .error (.v1Fields count line)

def parseProxyV1Line (line : Text) : Except ProxyError ProxyInfo :=
  let parts := line.splitOn 0x20
  match parts with
  | _ :: family :: rest =>
    let info : ProxyInfo := ⟨1, family, none, none, line.length + 2⟩
    if family = ascii "UNKNOWN" then .ok info
    else parseProxyV1Fields parseIP info line parts.length rest
  | _ => .error (.v1TooShort line)

def parseProxyV1 (stream : Text) : Except ProxyError (ProxyInfo × Text) := do
  let (lineBuf, rest) ← readLine [] stream
  let info ← parseProxyV1Line parseIP (trimLineEnd lineBuf)
  return (info, rest)

/-- The families of version 2: the name, the bytes of an address and those of the whole block. -/
def famSpec (famProto : UInt8) : Option (Text × ℕ × ℕ) :=
  if famProto = 0x11 then some (ascii "TCP4", 4, 12)
  else if famProto = 0x21 then some (ascii "TCP6", 16, 36)
  else none

def uint16 (b : Text) : ℤ := b.foldl (fun n c ↦ 256 * n + c.toNat) 0

def hex (b : UInt8) : Text := ascii (String.ofList (Nat.toDigits 16 b.toNat))

def parseProxyV2Addr (info : ProxyInfo) (famProto : UInt8) (addrBuf : Text) : Except ProxyError ProxyInfo :=
  match famSpec famProto with
  | none => .ok { info with family := ascii "UNKNOWN(" ++ hex famProto ++ ascii ")" }
  | some (family, ipLen, minBlock) =>
    if addrBuf.length < minBlock then .error (.v2AddrTooShort family addrBuf.length)
    else
      let ports := addrBuf.drop (2 * ipLen)
      .ok { info with
        family := family
        sourceAddr := some ⟨some (addrBuf.take ipLen), uint16 (ports.take 2)⟩
        destAddr := some ⟨some ((addrBuf.drop ipLen).take ipLen), uint16 ((ports.drop 2).take 2)⟩ }

def parseProxyV2Block (verCmd famProto : UInt8) (addrBuf : Text) : Except ProxyError ProxyInfo :=
  let info : ProxyInfo := ⟨2, [], none, none, 16 + addrBuf.length⟩
  let command := verCmd &&& 0x0f
  if verCmd >>> 4 ≠ 2 then .error (.v2BadVersion (verCmd >>> 4))
  else if command = 0 then .ok { info with family := ascii "LOCAL" }
  else if command ≠ 1 then .error (.v2UnknownCommand command)
  else parseProxyV2Addr info famProto addrBuf

def parseProxyV2 (stream : Text) : Except ProxyError (ProxyInfo × Text) :=
  match stream.drop 12 with
  | verCmd :: famProto :: hi :: lo :: rest =>
    let addrLen := 256 * hi.toNat + lo.toNat
    if maxProxyV2Addr < addrLen then .error (.v2AddrTooLarge addrLen)
    else if rest.length < addrLen then .error .v2AddrBlock
    else (parseProxyV2Block verCmd famProto (rest.take addrLen)).map fun info ↦ (info, rest.drop addrLen)
  | _ => .error .v2Header

def readProxyHeader (stream : Text) : Except ProxyError (ProxyInfo × Text) :=
  if stream.length < 12 then .error .peek
  else if stream.take 12 = v2Sig then parseProxyV2 stream
  else if stream.take 6 = v1Sig then parseProxyV1 parseIP stream
  else .error .noProxyHeader

end Parsing

inductive Conn
  | tcpConn (ip : IP) (port : ℤ)
  | unixConn
  | readerConn (conn : Conn)
  | proxyConn (conn : Conn) (remote : TCPAddr)
  | tlsConn (conn : Conn)
  deriving DecidableEq

namespace Conn

end Conn

inductive Network
  | tcp
  | unix
  deriving DecidableEq

/-- A listener. The PROXY protocol is switched on for TCP listeners only. -/
structure Listener where
  network : Network
  proxyProtocol : Bool
  proxyProtocolStrict : Bool
  tcp_of_proxyProtocol : proxyProtocol = true → network = .tcp

namespace Listener

/-- The connection of an accepted socket; a Unix socket has no address of the peer. -/
def accept (l : Listener) (ip : IP) (port : ℤ) : Conn :=
  match l.network with
  | .tcp => .tcpConn ip port
  | .unix => .unixConn

def parsePROXYOrWrap (parseIP : Text → Option IP) (l : Listener) (c : Conn) (stream : Text) :
    Option (Conn × Text) :=
  match readProxyHeader parseIP stream with
  | .ok (info, rest) =>
    match info.sourceAddr with
    | some source => some (.proxyConn c source, rest)
    | none => some (.readerConn c, rest)
  | .error .noProxyHeader => if l.proxyProtocolStrict then none else some (.readerConn c, stream)
  | .error _ => none

def serve (parseIP : Text → Option IP) (l : Listener) (ip : IP) (port : ℤ) (stream : Text) :
    Option (Conn × Text) :=
  if l.proxyProtocol then l.parsePROXYOrWrap parseIP (l.accept ip port) stream
  else some (l.accept ip port, stream)

end Listener

end PgRouter.Net.Proxy
