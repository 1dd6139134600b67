import PgRouter.Library.Reads
import PgRouter.Library.Slices
import PgRouter.Wire.Framing

namespace PgRouter.Wire.Splice

open Library.Reads Library.Reads.Reader Library.Slices Framing

def tagReadyForQuery : UInt8 := 0x5a

def tagCopyInResponse : UInt8 := 0x47

structure RawForwardResult where
  tag : UInt8 := 0
  txStatus : UInt8 := 0
  copyIn : Bool := false
  eof : Bool := false
  deriving DecidableEq

/-- A byte slice: its backing array up to its capacity, and its length. -/
structure Buffer where
  store : List UInt8
  len : ℕ
  len_le : len ≤ store.length

def Buffer.full (store : List UInt8) : Buffer := ⟨store, store.length, Nat.le_refl _⟩

/-- How a call ends. A slice or index expression out of range panics. -/
inductive Outcome (σ : Type)
  | returned (res : RawForwardResult) (err : Option IoErr) (dst : Writer UInt8) (src : σ)
  | panicked
  | running

/-- One round of the loop of `RawForwardAll` up to its `switch`: the call ends,
or one more message has been taken from the source. -/
inductive Round (σ : Type)
  | done (o : Outcome σ)
  | message (tag : UInt8) (bodyLen : ℕ) (dst : Writer UInt8) (src : σ) (store : List UInt8)
      (woff : ℕ)

section

variable {σ : Type} [Reader σ UInt8]

def readBody (src : σ) (bodyLen : ℕ) : List UInt8 × Option IoErr × σ :=
  if 0 < bodyLen then readFull src bodyLen else ([], none, src)

def copyBody (dst : Writer UInt8) (src : σ) (bodyLen : ℕ) : Option IoErr × Writer UInt8 × σ :=
  if 0 < bodyLen then copyN dst src bodyLen else (none, dst, src)

def writeBuffered (dst : Writer UInt8) (store : List UInt8) (woff : ℕ) :
    Option IoErr × Writer UInt8 :=
  if 0 < woff then dst.write (store.take woff) else (none, dst)

/-- The message fits: its body is read behind its header. -/
def forwardFitting (dst : Writer UInt8) (src : σ) (store : List UInt8) (woff : ℕ) (tag : UInt8)
    (bodyLen : ℕ) (res : RawForwardResult) : Round σ :=
  match readBody src bodyLen with
  | (_, some e, src) => .done (.returned res (some e) dst src)
  | (body, none, src) => .message tag bodyLen dst src
      (overwrite store (woff + headerSize) body) (woff + (headerSize + bodyLen))

/-- The message does not fit: flush, then write `buf[:HeaderSize]` and copy the body. -/
def forwardGiant (dst : Writer UInt8) (src : σ) (store : List UInt8) (woff : ℕ) (tag : UInt8)
    (bodyLen : ℕ) (res : RawForwardResult) : Round σ :=
  match writeBuffered dst store woff with
  | (some e, dst) => .done (.returned res (some e) dst src)
  | (none, dst) =>
    match dst.write (store.take headerSize) with
    | (some e, dst) => .done (.returned res (some e) dst src)
    | (none, dst) =>
      match copyBody dst src bodyLen with
      | (some e, dst, src) => .done (.returned res (some e) dst src)
      | (none, dst, src) => .message tag bodyLen dst src store 0

/-- Header, length check and body of one message, read at `buf[woff:]`. -/
def takeMessage (len : ℕ) (dst : Writer UInt8) (src : σ) (store : List UInt8) (woff : ℕ)
    (res : RawForwardResult) : Round σ :=
  if store.length < woff + headerSize then .done .panicked
  else match readFull src headerSize with
    | (_, some .eof, src) =>
      .done (.returned { res with eof := true } none (writeBuffered dst store woff).2 src)
    | (_, some e, src) => .done (.returned res (some e) dst src)
    | (hdr, none, src) =>
      let store := overwrite store woff hdr
      if len ≤ woff then .done .panicked
      else
        let tag := store.getD woff 0
        let length := uint32 (slice store (woff + 1) (woff + 5))
        if length < 4 then .done (.returned res (some .other) dst src)
        else if woff + (headerSize + (length - 4)) ≤ len then
          forwardFitting dst src store woff tag (length - 4) res
        else forwardGiant dst src store woff tag (length - 4) res

def finish (dst : Writer UInt8) (src : σ) (store : List UInt8) (woff : ℕ)
    (res : RawForwardResult) : Outcome σ :=
  match writeBuffered dst store woff with
  | (e, dst) => .returned res e dst src

/-- The `Z` case: the status is looked up at `buf[woff-bodyLen]`. -/
def readyForQuery (len : ℕ) (dst : Writer UInt8) (src : σ) (store : List UInt8) (woff bodyLen : ℕ)
    (res : RawForwardResult) : Outcome σ :=
  if 1 ≤ bodyLen then
    if woff < bodyLen ∨ len ≤ woff - bodyLen then .panicked
    else finish dst src store woff
      { res with txStatus := store.getD (woff - bodyLen) 0, tag := tagReadyForQuery }
  else finish dst src store woff { res with tag := tagReadyForQuery }

def forwardLoop (len : ℕ) :
    ℕ → Writer UInt8 → σ → List UInt8 → ℕ → RawForwardResult → Outcome σ
  | 0, _, _, _, _, _ => .running
  | fuel + 1, dst, src, store, woff, res =>
    match takeMessage len dst src store woff res with
    | .done o => o
    | .message tag bodyLen dst src store woff =>
      if tag = tagReadyForQuery then readyForQuery len dst src store woff bodyLen res
      else if tag = tagCopyInResponse then
        finish dst src store woff { res with copyIn := true, tag := tag }
      else forwardLoop len fuel dst src store woff { res with tag := tag }

def workBuffer (buf : Buffer) : Buffer :=
  if buf.len < headerSize then Buffer.full (List.replicate (8 * 1024) 0) else buf

/-- `RawForwardAll`. Every round takes at least a header from the source, which bounds the rounds. -/
def rawForwardAll (dst : Writer UInt8) (src : σ) (buf : Buffer) : Outcome σ :=
  forwardLoop (workBuffer buf).len ((pending src).length + 1) dst src (workBuffer buf).store 0 {}

end

end PgRouter.Wire.Splice
