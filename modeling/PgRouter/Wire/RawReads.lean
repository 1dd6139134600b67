import PgRouter.Library.Reads
import PgRouter.Library.Windows
import PgRouter.Wire.Framing

namespace PgRouter.Wire.RawReads

open Library.Reads Library.Reads.Reader Library.Slices Library.Windows Framing

/-- `RawConn`. Its `bufioReader` reads from the same socket as `ReadMessage` itself. -/
structure RawConn where
  conn : Conn UInt8
  window : Window UInt8

namespace RawConn

def new (conn : Conn UInt8) : RawConn := ⟨conn, Window.empty (List.replicate (64 * 1024) 0)⟩

def compacted (w : Window UInt8) : Window UInt8 := if 0 < w.rp then w.compact else w

def grown (w : Window UInt8) (n : ℕ) : Window UInt8 :=
  if w.buf.length < n then
    w.onto (List.replicate (max (w.buf.length * 2) n) 0) (by
      have := w.available_le
      rw [List.length_replicate]
      omega)
  else w

def readOnce (rc : RawConn) (n : ℕ) : Option IoErr × RawConn :=
  let w := grown (compacted rc.window) n
  let got := read rc.conn w.room
  (got.2.1, ⟨got.2.2, w.fill got.1 (read_length rc.conn w.room)⟩)

def peekLoop (n : ℕ) : ℕ → RawConn → List UInt8 × Option IoErr × RawConn
  | 0, rc => (rc.window.filled.take n, none, rc)
  | fuel + 1, rc =>
    if n ≤ rc.window.available then (rc.window.filled.take n, none, rc)
    else match rc.readOnce n with
      | (none, rc) => peekLoop n fuel rc
      | (some e, rc) =>
        if n ≤ rc.window.available then (rc.window.filled.take n, none, rc) else ([], some e, rc)

/-- `bufioReader.Peek`. A read without an error brings a byte, so `n` rounds suffice. -/
def peek (rc : RawConn) (n : ℕ) : List UInt8 × Option IoErr × RawConn := peekLoop n n rc

def discard (rc : RawConn) (n : ℕ) : RawConn := { rc with window := rc.window.skip n }

def readBuffered (rc : RawConn) (tag : UInt8) (msgLen : ℕ) :
    Except IoErr (UInt8 × List UInt8) × RawConn :=
  match rc.peek msgLen with
  | (_, some e, rc) => (.error e, rc)
  | (msg, none, rc) => (.ok (tag, msg), rc.discard msgLen)

def readDirect (rc : RawConn) (tag : UInt8) (hdr : List UInt8) (bodyLen : ℕ) :
    Except IoErr (UInt8 × List UInt8) × RawConn :=
  if 0 < bodyLen then
    match readFull rc.conn bodyLen with
    | (_, some e, conn) => (.error e, { rc.discard headerSize with conn := conn })
    | (body, none, conn) => (.ok (tag, hdr ++ body), { rc.discard headerSize with conn := conn })
  else (.ok (tag, hdr), rc.discard headerSize)

def readMessage (rc : RawConn) : Except IoErr (UInt8 × List UInt8) × RawConn :=
  match rc.peek headerSize with
  | (_, some e, rc) => (.error e, rc)
  | (hdr, none, rc) =>
    if uint32 (slice hdr 1 5) < 4 then (.error .unexpectedEOF, rc)
    else if uint32 (slice hdr 1 5) - 4 ≤ rc.window.available then
      rc.readBuffered (hdr.getD 0 0) (headerSize + (uint32 (slice hdr 1 5) - 4))
    else rc.readDirect (hdr.getD 0 0) hdr (uint32 (slice hdr 1 5) - 4)

def rest (rc : RawConn) : List UInt8 := rc.window.filled ++ pending rc.conn

/-- Successive calls return the messages, and then `io.EOF`. -/
def ReadsExactly (rc : RawConn) : List Message → Prop
  | [] => ∃ rc', rc.readMessage = (.error .eof, rc')
  | m :: ms => ∃ rc', rc.readMessage = (.ok (m.tag, m.encode), rc') ∧ ReadsExactly rc' ms

end RawConn

end PgRouter.Wire.RawReads
