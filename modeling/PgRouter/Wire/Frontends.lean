import PgRouter.Wire.ChunkReader
import PgRouter.Wire.Framing

namespace PgRouter.Wire.Frontends

open Library.Reads Library.Reads.Reader Library.Slices ChunkReader Framing

/-- `pgproto3.Frontend`, as far as it reads. A header that has been taken off the buffer is kept until the
body is there. -/
structure Frontend where
  partialMsg : Option (List UInt8)
  cr : ChunkReaderMirror
  header_length : ∀ header ∈ partialMsg, header.length = headerSize

inductive ReceiveError
  | io (e : IoErr)
  | invalidLength
  deriving DecidableEq

namespace Frontend

def between (cr : ChunkReaderMirror) : Frontend := ⟨none, cr, by simp⟩

def new (r : Conn UInt8) : Frontend := between (.new r 8192)

def bodyLen (header : List UInt8) : ℕ := uint32 (slice header 1 5) - 4

def receiveBody (header : List UInt8) (hheader : header.length = headerSize) (cr : ChunkReaderMirror) :
    Except ReceiveError (List UInt8) × Frontend :=
  match cr.next (bodyLen header) with
  | (_, some e, cr) => (.error (.io e), ⟨some header, cr, by simpa using hheader⟩)
  | (body, none, cr) => (.ok (header ++ body), ⟨none, cr, by simp⟩)

def receive (f : Frontend) : Except ReceiveError (List UInt8) × Frontend :=
  match f with
  | ⟨some header, cr, h⟩ => receiveBody header (h header rfl) cr
  | ⟨none, cr, _⟩ =>
    match cr.next headerSize with
    | (_, some e, cr) => (.error (.io e), ⟨none, cr, by simp⟩)
    | (header, none, cr) =>
      if h : header.length = headerSize ∧ 4 ≤ uint32 (slice header 1 5) then receiveBody header h.1 cr
      else (.error .invalidLength, ⟨none, cr, by simp⟩)

/-- What the backend has sent behind the last message that was returned. -/
def owed (f : Frontend) : List UInt8 := f.partialMsg.getD [] ++ f.cr.rest

section Receiving

variable {cr cr' : ChunkReaderMirror} {n : ℕ} {bytes msg : List UInt8} {f f' : Frontend}

theorem next_inv (h : cr.next n = (bytes, none, cr')) : bytes.length = n ∧ bytes ++ cr'.rest = cr.rest := by
  obtain ⟨hle, m, hnext, hrest⟩ | ⟨-, e, m, hnext, -⟩ := cr.next_eq n
  · rw [hnext] at h
    cases h
    rw [List.length_take, Nat.min_eq_left hle, hrest, List.take_append_drop]
    exact ⟨rfl, rfl⟩
  · rw [hnext] at h
    cases h

theorem receiveBody_inv {header : List UInt8} {hheader : header.length = headerSize}
    (h : receiveBody header hheader cr = (.ok msg, f)) :
    f.partialMsg = none ∧ msg ++ f.cr.rest = header ++ cr.rest := by
  unfold receiveBody at h
  rcases hnext : cr.next (bodyLen header) with ⟨body, _ | e, cr'⟩
  · rw [hnext] at h
    cases h
    refine ⟨rfl, ?_⟩
    rw [List.append_assoc, (next_inv hnext).2]
  · rw [hnext] at h
    cases h

theorem receive_inv (hbetween : f.partialMsg = none) (h : f.receive = (.ok msg, f')) :
    f'.partialMsg = none ∧ msg ++ f'.cr.rest = f.cr.rest := by
  obtain ⟨partialMsg, cr, hheader⟩ := f
  cases hbetween
  unfold receive at h
  rcases hnext : cr.next headerSize with ⟨header, _ | e, cr'⟩
  · simp only [hnext] at h
    split at h
    · obtain ⟨hnone, hrest⟩ := receiveBody_inv h
      exact ⟨hnone, hrest.trans (next_inv hnext).2⟩
    · cases h
  · simp only [hnext] at h
    cases h

theorem next_append (h : cr.rest = bytes ++ msg) :
    ∃ cr', cr.next bytes.length = (bytes, none, cr') ∧ cr'.rest = msg ∧ cr.r.Later cr'.r := by
  have hle : bytes.length ≤ cr.rest.length := by
    rw [h, List.length_append]
    omega
  obtain ⟨-, cr', hnext, hrest⟩ := (cr.next_eq bytes.length).resolve_right fun hlt ↦ by omega
  have hlater := cr.next_later bytes.length
  rw [h, List.take_left] at hnext
  rw [h, List.drop_left] at hrest
  rw [hnext] at hlater
  exact ⟨cr', hnext, hrest, hlater⟩

theorem receive_message (hbetween : f.partialMsg = none) {m : Message} {rest : List UInt8}
    (hrest : f.cr.rest = m.encode ++ rest) :
    ∃ f', f.receive = (.ok m.encode, f') ∧ f'.cr.rest = rest ∧ f.cr.r.Later f'.cr.r := by
  obtain ⟨partialMsg, cr, hheader⟩ := f
  cases hbetween
  rw [Message.encode, List.append_assoc] at hrest
  obtain ⟨cr₁, hnext, hrest₁, hlater₁⟩ := next_append hrest
  have hlength : uint32 (slice m.header 1 5) = m.body.length + 4 := header_length_field m
  have hbody : bodyLen m.header = m.body.length := by rw [bodyLen, hlength, Nat.add_sub_cancel]
  obtain ⟨cr₂, hnext₂, hrest₂, hlater₂⟩ := next_append hrest₁
  refine ⟨between cr₂, ?_, hrest₂, hlater₁.trans hlater₂⟩
  have hsize : cr.next headerSize = (m.header, none, cr₁) := hnext
  have hgood : m.header.length = headerSize ∧ 4 ≤ uint32 (slice m.header 1 5) := ⟨rfl, by omega⟩
  unfold receive
  simp only [hsize]
  rw [dif_pos hgood, receiveBody, hbody, hnext₂]
  rfl

end Receiving

end Frontend

/-- A backend as a session has it: its frontend, and whether a raw reader shares the frontend's buffer. -/
structure Spliced where
  frontend : Frontend
  spliceReader : Bool

/-- `setupSplice`, where the layout of the frontend is the one that the raw reader expects. Outside raw
passthrough the frontend is replaced by one that reads from the connection itself. -/
def setupSplice (enabled rawPassthrough : Bool) (frontend : Frontend) : Spliced :=
  if enabled then
    if rawPassthrough then ⟨frontend, true⟩ else ⟨Frontend.new frontend.cr.r, true⟩
  else ⟨frontend, false⟩

/-- The two ways to read from the backend. -/
inductive Op
  | receive
  | rawRead (n : ℕ)

namespace Spliced

def step (s : Spliced) : Op → Option (List UInt8 × Spliced)
  | .receive =>
    match s.frontend.receive with
    | (.error _, _) => none
    | (.ok msg, frontend) => some (msg, { s with frontend := frontend })
  | .rawRead n =>
    if s.spliceReader then
      match rawRead s.frontend.cr n with
      | (_, some _, _) => none
      | (bytes, none, cr) => some (bytes, { s with frontend := { s.frontend with cr := cr } })
    else none

def deliver : List Op → Spliced → Option (List UInt8 × Spliced)
  | [], s => some ([], s)
  | op :: ops, s => do
    let (bytes, s) ← s.step op
    let (more, s) ← deliver ops s
    return (bytes ++ more, s)

/-- However the two readers are mixed, they deliver `bytes` in their order: what has been delivered is a
beginning, as many of the rest as are asked for can be read raw, and a message that comes next can be
received. -/
def Delivers (s : Spliced) (bytes : List UInt8) : Prop :=
  ∀ ops delivered s', s.deliver ops = some (delivered, s') → ∃ left, delivered ++ left = bytes ∧
    (∀ n ≤ left.length, ∃ s'', s'.step (.rawRead n) = some (left.take n, s'')) ∧
      ∀ m rest, left = Message.encode m ++ rest → ∃ s'', s'.step .receive = some (m.encode, s'')

section Ready

variable {s s' : Spliced} {left bytes : List UInt8}

/-- The buffer that both readers share begins at the bytes that are left. -/
structure Ready (s : Spliced) (left : List UInt8) : Prop where
  spliceReader : s.spliceReader = true
  partialMsg : s.frontend.partialMsg = none
  rest : s.frontend.cr.rest = left

section

variable (h : Ready s left)

include h

theorem Ready.rawRead {n : ℕ} (hn : n ≤ left.length) :
    ∃ s', s.step (.rawRead n) = some (left.take n, s') ∧ Ready s' (left.drop n) := by
  rw [← h.rest] at hn ⊢
  obtain ⟨-, cr, hread, hrest⟩ := (rawRead_eq s.frontend.cr n).resolve_right fun hlt ↦ by omega
  refine ⟨{ s with frontend := { s.frontend with cr := cr } }, ?_, h.spliceReader, h.partialMsg, hrest⟩
  rw [step, if_pos h.spliceReader, hread]

theorem Ready.rawRead_inv {n : ℕ} (hstep : s.step (.rawRead n) = some (bytes, s')) :
    bytes ++ left.drop n = left ∧ Ready s' (left.drop n) := by
  by_cases hn : n ≤ left.length
  · obtain ⟨s'', hread, hready⟩ := h.rawRead hn
    rw [hread] at hstep
    cases hstep
    exact ⟨List.take_append_drop n left, hready⟩
  · rw [← h.rest] at hn
    obtain ⟨-, e, cr, hread, -⟩ := (rawRead_eq s.frontend.cr n).resolve_left fun hle ↦ hn hle.1
    rw [step, if_pos h.spliceReader, hread] at hstep
    cases hstep

theorem Ready.receive_inv (hstep : s.step .receive = some (bytes, s')) :
    ∃ left', bytes ++ left' = left ∧ Ready s' left' := by
  rcases hreceive : s.frontend.receive with ⟨e | msg, frontend⟩
  · rw [step, hreceive] at hstep
    cases hstep
  · rw [step, hreceive] at hstep
    cases hstep
    obtain ⟨hnone, hrest⟩ := Frontend.receive_inv h.partialMsg hreceive
    exact ⟨frontend.cr.rest, hrest.trans h.rest, h.spliceReader, hnone, rfl⟩

theorem Ready.receive {m : Message} {rest : List UInt8} (hleft : left = m.encode ++ rest) :
    ∃ s', s.step .receive = some (m.encode, s') := by
  obtain ⟨frontend, hreceive, -⟩ := Frontend.receive_message h.partialMsg (h.rest.trans hleft)
  refine ⟨{ s with frontend := frontend }, ?_⟩
  rw [step, hreceive]

theorem Ready.step_inv {op : Op} (hstep : s.step op = some (bytes, s')) :
    ∃ left', bytes ++ left' = left ∧ Ready s' left' := by
  cases op with
  | receive => exact h.receive_inv hstep
  | rawRead n => exact ⟨left.drop n, h.rawRead_inv hstep⟩

theorem Ready.deliver_inv {ops : List Op} (hdeliver : s.deliver ops = some (bytes, s')) :
    ∃ left', bytes ++ left' = left ∧ Ready s' left' := by
  induction ops generalizing s s' left bytes with
  | nil =>
    cases hdeliver
    exact ⟨left, rfl, h⟩
  | cons op ops ih =>
    cases hstep : s.step op with
    | none =>
      rw [deliver, hstep] at hdeliver
      cases hdeliver
    | some read =>
      obtain ⟨got, s₁⟩ := read
      cases hmore : deliver ops s₁ with
      | none =>
        simp [deliver, hstep, hmore] at hdeliver
      | some rest =>
        obtain ⟨more, s₂⟩ := rest
        obtain ⟨left₁, rfl, h₁⟩ := h.step_inv hstep
        obtain ⟨left₂, rfl, h₂⟩ := ih h₁ hmore
        simp only [deliver, hstep, hmore, Option.bind_eq_bind, Option.bind_some, Option.pure_def,
          Option.some.injEq, Prod.mk.injEq] at hdeliver
        obtain ⟨rfl, rfl⟩ := hdeliver
        exact ⟨left₂, List.append_assoc _ _ _, h₂⟩

theorem Ready.delivers : s.Delivers left := by
  intro ops delivered s' hdeliver
  obtain ⟨left', hleft, h'⟩ := h.deliver_inv hdeliver
  refine ⟨left', hleft, fun n hn ↦ ?_, fun m rest hmessage ↦ h'.receive hmessage⟩
  obtain ⟨s'', hread, -⟩ := h'.rawRead hn
  exact ⟨s'', hread⟩

end

theorem Delivers.length_le (h : s.Delivers bytes) : bytes.length ≤ s.frontend.cr.rest.length := by
  obtain ⟨left, hleft, hraw, -⟩ := h [] [] s rfl
  obtain rfl : left = bytes := hleft
  obtain ⟨s', hread⟩ := hraw left.length (Nat.le_refl _)
  by_contra hlt
  obtain ⟨-, e, cr, hfail, -⟩ := (rawRead_eq s.frontend.cr left.length).resolve_left fun hle ↦ hlt hle.1
  rw [step, hfail] at hread
  split at hread <;> cases hread

end Ready

end Spliced

section Attaching

open Spliced

variable (frontend : Frontend) {rawPassthrough : Bool}

theorem ready_setupSplice (hbetween : frontend.partialMsg = none)
    (hbuffer : rawPassthrough = true ∨ frontend.cr.window.filled = []) :
    Ready (setupSplice true rawPassthrough frontend) frontend.owed := by
  cases rawPassthrough with
  | true => exact ⟨rfl, hbetween, by rw [Frontend.owed, hbetween]; rfl⟩
  | false =>
    have hfilled := hbuffer.resolve_left (by simp)
    refine ⟨rfl, rfl, ?_⟩
    rw [Frontend.owed, hbetween, ChunkReaderMirror.rest, ChunkReaderMirror.rest, hfilled]
    rfl

theorem length_owed (rawPassthrough : Bool) :
    frontend.owed.length = (frontend.partialMsg.getD []).length +
      ((if rawPassthrough then 0 else frontend.cr.window.filled.length) +
        (setupSplice true rawPassthrough frontend).frontend.cr.rest.length) := by
  rw [Frontend.owed, List.length_append]
  cases rawPassthrough with
  | true => simp [setupSplice]
  | false =>
    have hnew : (setupSplice true false frontend).frontend.cr.rest = pending frontend.cr.r := rfl
    rw [hnew, ChunkReaderMirror.rest, List.length_append]
    rfl

theorem exact_of_delivers
    (h : (setupSplice true rawPassthrough frontend).Delivers frontend.owed) :
    frontend.partialMsg = none ∧ (rawPassthrough = true ∨ frontend.cr.window.filled = []) := by
  have hlength := h.length_le
  rw [length_owed frontend rawPassthrough] at hlength
  constructor
  · cases hbetween : frontend.partialMsg with
    | none => rfl
    | some header =>
      have hfive := frontend.header_length header hbetween
      rw [hbetween, Option.getD_some, hfive, headerSize] at hlength
      omega
  · cases rawPassthrough with
    | true => exact .inl rfl
    | false =>
      refine .inr (List.length_eq_zero_iff.mp ?_)
      simp only [Bool.false_eq_true, if_false] at hlength
      omega

/-- The two readers deliver what the backend has sent behind the last message exactly where no part of a
message has been taken off the buffer and, outside raw passthrough, nothing has been read ahead. -/
theorem setupSplice_delivers_iff (rawPassthrough : Bool) :
    (setupSplice true rawPassthrough frontend).Delivers frontend.owed ↔
      frontend.partialMsg = none ∧ (rawPassthrough = true ∨ frontend.cr.window.filled = []) :=
  ⟨exact_of_delivers frontend, fun h ↦ (ready_setupSplice frontend h.1 h.2).delivers⟩

def answered : Conn UInt8 :=
  ⟨[[0x5a, 0, 0, 0, 5, 0x49, 0x53, 0, 0, 0], [8, 0x61, 0, 0x62, 0]], .timeout, by decide⟩

/-- The message that has been read ahead is torn: its last bytes are taken for a header. -/
theorem setupSplice_torn :
    (Frontend.new answered).receive.1 = .ok [0x5a, 0, 0, 0, 5, 0x49] ∧
      (Frontend.new answered).receive.2.owed = [0x53, 0, 0, 0, 8, 0x61, 0, 0x62, 0] ∧
        ((setupSplice true false (Frontend.new answered).receive.2).step (.rawRead 5)).map Prod.fst =
          some [8, 0x61, 0, 0x62, 0] ∧
            ¬(setupSplice true false (Frontend.new answered).receive.2).Delivers
              (Frontend.new answered).receive.2.owed := by
  refine ⟨by decide +kernel, by decide +kernel, by decide +kernel, fun h ↦ ?_⟩
  have hfilled := (exact_of_delivers _ h).2
  revert hfilled
  decide +kernel

end Attaching

end PgRouter.Wire.Frontends
