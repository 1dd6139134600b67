import PgRouter.Client.Protocol
import PgRouter.Wire.Frontends
import PgRouter.Wire.Safety

namespace PgRouter.Client.Drains

open Library.Reads Library.Reads.Reader Library.Slices Protocol Wire.Framing Wire.Splice Wire.Forwarding
open Wire.Exactness Wire.ChunkReader Wire.Frontends

section Code

def tagParseComplete : UInt8 := 0x31

def tagCloseComplete : UInt8 := 0x33

/-- What `drainBackendUntilRFQ` works with. The client connection takes whatever is written to it; `queued` has
been sent to the client and not been flushed. -/
structure DrainInput where
  queryTimeout : ℤ
  isStatementMode : Bool
  sessionPinned : Bool
  state : ClientState
  queued : List Message
  spliceBuf : Buffer
  pendingEvictCC : ℕ
  pendingParsePC : ℕ

structure DrainOutcome where
  queryTimedOut : Bool := false
  shouldRelease : Bool := false

/-- How a drain ends, with the bytes that the client has got. -/
inductive Drained
  | returned (out : DrainOutcome) (err : Option IoErr) (state : ClientState) (delivered : List UInt8)
  | panicked
  | running

namespace DrainInput

def failed (x : DrainInput) (err : IoErr) (delivered : List UInt8) : Drained :=
  if err = .timeout ∧ 0 < x.queryTimeout then .returned { queryTimedOut := true } none x.state delivered
  else .returned {} (some err) x.state delivered

/-- The transaction status is noted, and `finalizeRFQ`. -/
def finalizeRFQ (x : DrainInput) (txStatus : UInt8) (delivered : List UInt8) : Drained :=
  let state := (x.state.observeTxStatus txStatus).1
  .returned { shouldRelease := !x.sessionPinned && (x.isStatementMode || state.isIdle) } none state delivered

/-- The drain with a `spliceReader`. -/
def spliceDrain (x : DrainInput) (src : ChunkReaderMirror) : Drained :=
  match rawForwardAll ⟨encodeAll x.queued, none⟩ src x.spliceBuf with
  | .panicked => .panicked
  | .running => .running
  | .returned res (some err) dst _ =>
    if res.eof then .returned {} none x.state dst.out else x.failed err dst.out
  | .returned res none dst _ =>
    if res.copyIn then .returned {} none x.state dst.out
    else if res.tag = tagReadyForQuery then x.finalizeRFQ res.txStatus dst.out
    else .returned {} none x.state dst.out

end DrainInput

def translateEOF (err : IoErr) : IoErr := if err = .eof then .unexpectedEOF else err

/-- `Frontend.Receive` between two messages. `codec` gives the bytes that a message is encoded to once it has been
decoded. -/
def receive (codec : UInt8 → List UInt8 → Option (List UInt8)) (src : ChunkReaderMirror) :
    Except IoErr (UInt8 × List UInt8 × List UInt8) × ChunkReaderMirror :=
  match (Frontend.between src).receive with
  | (.error (.io err), f) => (.error (translateEOF err), f.cr)
  | (.error .invalidLength, f) => (.error .other, f.cr)
  | (.ok msg, f) => match codec (msg.headD 0) (msg.drop headerSize) with
    | none => (.error .other, f.cr)
    | some bytes => (.ok (msg.headD 0, msg.drop headerSize, bytes), f.cr)

def decodeLoop (codec : UInt8 → List UInt8 → Option (List UInt8)) (x : DrainInput) :
    ℕ → ChunkReaderMirror → ℕ → ℕ → List UInt8 → List UInt8 → Drained
  | 0, _, _, _, _, _ => .running
  | fuel + 1, src, pendingEvictCC, pendingParsePC, buffered, delivered =>
    match receive codec src with
    | (.error err, _) => x.failed err delivered
    | (.ok (tag, body, bytes), src) =>
      if tag = tagCloseComplete ∧ 0 < pendingEvictCC then
        decodeLoop codec x fuel src (pendingEvictCC - 1) pendingParsePC buffered delivered
      else if tag = tagParseComplete ∧ 0 < pendingParsePC then
        decodeLoop codec x fuel src pendingEvictCC (pendingParsePC - 1) buffered delivered
      else if tag = tagCopyInResponse then .returned {} none x.state (delivered ++ (buffered ++ bytes))
      else if tag = tagReadyForQuery then x.finalizeRFQ (body.headD 0) (delivered ++ (buffered ++ bytes))
      else decodeLoop codec x fuel src pendingEvictCC pendingParsePC [] (delivered ++ (buffered ++ bytes))

/-- The drain without a `spliceReader`. Every round takes a header from the source. -/
def decodeDrain (codec : UInt8 → List UInt8 → Option (List UInt8)) (x : DrainInput) (src : ChunkReaderMirror) :
    Drained :=
  decodeLoop codec x ((pending src).length + 1) src x.pendingEvictCC x.pendingParsePC (encodeAll x.queued) []

def drainBackendUntilRFQ (codec : UInt8 → List UInt8 → Option (List UInt8)) (spliceReader : Bool)
    (x : DrainInput) (src : ChunkReaderMirror) : Drained :=
  if spliceReader && x.pendingEvictCC == 0 && x.pendingParsePC == 0 then x.spliceDrain src
  else decodeDrain codec x src

end Code

section Stream

def terminal (m : Message) : Bool := m.tag == tagReadyForQuery || m.tag == tagCopyInResponse

def replies : List Message → List Message
  | [] => []
  | m :: ms => if terminal m then [m] else m :: replies ms

theorem replies_cases (ms : List Message) :
    (replies ms = ms ∧ ∀ m ∈ ms, terminal m = false) ∨
      ∃ before last after, ms = before ++ last :: after ∧ replies ms = before ++ [last] ∧
        (∀ m ∈ before, terminal m = false) ∧ terminal last = true := by
  induction ms with
  | nil => exact .inl ⟨rfl, by simp⟩
  | cons m ms ih =>
    cases hm : terminal m with
    | true => exact .inr ⟨[], m, ms, rfl, by simp [replies, hm], by simp, hm⟩
    | false =>
      rcases ih with ⟨hall, hnone⟩ | ⟨before, last, after, rfl, hreplies, hbefore, hlast⟩
      · refine .inl ⟨by simp [replies, hm, hall], ?_⟩
        simpa [hm] using hnone
      · refine .inr ⟨m :: before, last, after, rfl, by simp [replies, hm, hreplies], ?_, hlast⟩
        simpa [hm] using hbefore

/-- The backend has stopped in the middle, not sent a message of an impossible length. -/
def Stalls (tail : List UInt8) (ending : IoErr) : Prop :=
  ending = .timeout ∧ (tail.length < 5 ∨ 4 ≤ uint32 ((tail.drop 1).take 4))

theorem translateEOF_timeout {err : IoErr} : translateEOF err = .timeout ↔ err = .timeout := by
  unfold translateEOF
  split
  · rename_i h
    simp [h]
  · rfl

/-- The fuel of a drain is enough for the messages and a round more. -/
theorem exists_fuel {src : ChunkReaderMirror} {ms : List Message} {tail : List UInt8}
    (hp : pending src = encodeAll ms ++ tail) : ∃ fuel, (pending src).length + 1 = fuel + 1 + ms.length := by
  have hsize := length_le_sizeAll ms
  rw [hp, List.length_append, encodeAll_length]
  exact ⟨sizeAll ms + tail.length - ms.length, by omega⟩

end Stream

section Decoding

variable {codec : UInt8 → List UInt8 → Option (List UInt8)} {x : DrainInput} {src : ChunkReaderMirror}

theorem receive_message {m : Message} {tail : List UInt8}
    (hp : pending src = m.encode ++ tail) (hcodec : codec m.tag m.body = some m.encode) :
    ∃ src', receive codec src = (.ok (m.tag, m.body, m.encode), src') ∧ pending src' = tail ∧
      src.r.Later src'.r := by
  obtain ⟨f, hreceive, hrest, hlater⟩ := Frontend.receive_message (f := .between src) rfl hp
  refine ⟨f.cr, ?_, hrest, hlater⟩
  have hparts : m.encode.headD 0 = m.tag ∧ m.encode.drop headerSize = m.body := ⟨rfl, rfl⟩
  rw [receive, hreceive]
  simp only [hparts, hcodec]

theorem receive_io {err : IoErr} {f : Frontend} (h : (Frontend.between src).receive = (.error (.io err), f)) :
    receive codec src = (.error (translateEOF err), f.cr) := by
  rw [receive, h]

theorem receive_cut (hp : parseMessage (pending src) = none) :
    ∃ err src', receive codec src = (.error err, src') ∧
      (err = .timeout ↔ Stalls (pending src) src.r.ending) := by
  unfold Stalls
  by_cases h5 : (pending src).length < 5
  · obtain ⟨src', hnext, -⟩ := src.next_short headerSize h5
    have hfails : (Frontend.between src).receive = (.error (.io src.r.fault), .between src') := by
      simp only [Frontend.between, Frontend.receive, hnext]
    refine ⟨_, src', receive_io hfails, ?_⟩
    rw [translateEOF_timeout, fault_timeout]
    simp [h5]
  · obtain ⟨src₁, hhdr, hrest₁⟩ := ((src.next_eq headerSize).resolve_right fun h ↦ h5 h.1).2
    have hlater := src.next_later headerSize
    have hlength : (src.rest.take headerSize).length = headerSize :=
      List.length_take_of_le (Nat.le_of_not_lt h5)
    have hslice : slice (src.rest.take headerSize) 1 5 = ((pending src).drop 1).take 4 := by
      rw [slice, List.take_take, List.drop_take]
      rfl
    rw [hhdr] at hlater
    by_cases hshort : uint32 (((pending src).drop 1).take 4) < 4
    · have hfails : (Frontend.between src).receive = (.error .invalidLength, .between src₁) := by
        simp only [Frontend.between, Frontend.receive, hhdr, hslice]
        rw [dif_neg (by omega)]
      refine ⟨.other, src₁, by rw [receive, hfails]; rfl, ?_⟩
      simp only [reduceCtorEq, false_iff]
      omega
    · have hbad := (parseMessage_none hp (by omega)).resolve_left hshort
      have hrest : src₁.rest.length < uint32 (((pending src).drop 1).take 4) - 4 := by
        have hpending : src.rest = pending src := rfl
        rw [hrest₁, headerSize, List.length_drop, hpending]
        omega
      obtain ⟨src', hnext, -⟩ := src₁.next_short _ hrest
      have hfails : (Frontend.between src).receive =
          (.error (.io src₁.r.fault), ⟨some (src.rest.take headerSize), src', by simpa using hlength⟩) := by
        simp only [Frontend.between, Frontend.receive, hhdr, hslice]
        rw [dif_pos ⟨hlength, Nat.le_of_not_lt hshort⟩]
        simp only [Frontend.receiveBody, Frontend.bodyLen, hslice, hnext]
      refine ⟨_, src', receive_io hfails, ?_⟩
      rw [translateEOF_timeout, fault_timeout, hlater.ending]
      exact ⟨fun h ↦ ⟨h, .inr (Nat.le_of_not_lt hshort)⟩, And.left⟩

def ended (x : DrainInput) (last : Message) (delivered : List UInt8) : Drained :=
  if last.tag = tagCopyInResponse then .returned {} none x.state delivered
  else x.finalizeRFQ (last.body.headD 0) delivered

section

variable (ms : List Message)

theorem decodeLoop_through (hms : ∀ m ∈ ms, terminal m = false)
    (hcodec : ∀ m ∈ ms, codec m.tag m.body = some m.encode) (fuel : ℕ) (src : ChunkReaderMirror) (tail : List UInt8)
    (hp : pending src = encodeAll ms ++ tail) (buffered delivered : List UInt8) :
    ∃ src', pending src' = tail ∧ src.r.Later src'.r ∧
      decodeLoop codec x (fuel + ms.length) src 0 0 buffered delivered =
        decodeLoop codec x fuel src' 0 0 (if ms = [] then buffered else [])
          (if ms = [] then delivered else delivered ++ (buffered ++ encodeAll ms)) := by
  induction ms generalizing src buffered delivered with
  | nil => exact ⟨src, hp, .refl _, rfl⟩
  | cons m ms ih =>
    rw [encodeAll_cons, List.append_assoc] at hp
    obtain ⟨src₁, hreceive, hp₁, hlater₁⟩ := receive_message hp (hcodec m List.mem_cons_self)
    obtain ⟨src', hp', hlater, hloop⟩ := ih (fun m' hm' ↦ hms m' (List.mem_cons_of_mem m hm'))
      (fun m' hm' ↦ hcodec m' (List.mem_cons_of_mem m hm')) src₁ hp₁ [] (delivered ++ (buffered ++ m.encode))
    have hm := hms m List.mem_cons_self
    simp only [terminal, Bool.or_eq_false_iff, beq_eq_false_iff_ne] at hm
    refine ⟨src', hp', hlater₁.trans hlater, ?_⟩
    rw [List.length_cons, ← Nat.add_assoc, decodeLoop, hreceive]
    simp only [Nat.lt_irrefl, and_false, if_false, hm.1, hm.2, hloop, reduceCtorEq]
    by_cases hnil : ms = []
    · subst hnil
      simp
    · simp only [hnil, if_false, List.nil_append, encodeAll_cons, List.append_assoc]

theorem decodeLoop_cut (hms : ∀ m ∈ ms, terminal m = false)
    (hcodec : ∀ m ∈ ms, codec m.tag m.body = some m.encode) (fuel : ℕ) (src : ChunkReaderMirror) (tail : List UInt8)
    (hp : pending src = encodeAll ms ++ tail) (htail : parseMessage tail = none) (buffered : List UInt8) :
    ∃ err, decodeLoop codec x (fuel + 1 + ms.length) src 0 0 buffered [] =
        x.failed err (if ms = [] then [] else buffered ++ encodeAll ms) ∧
      (err = .timeout ↔ Stalls tail src.r.ending) := by
  obtain ⟨src', hp', hlater, hloop⟩ := decodeLoop_through (x := x) ms hms hcodec (fuel + 1) src tail hp buffered []
  have hcut : parseMessage (pending src') = none := by rw [hp', htail]
  obtain ⟨err, src'', hreceive, herr⟩ : ∃ err src'', receive codec src' = (.error err, src'') ∧
    (err = .timeout ↔ Stalls (pending src') src'.r.ending) := receive_cut hcut
  refine ⟨err, ?_, by rw [herr, hp', hlater.ending]⟩
  rw [hloop, decodeLoop, hreceive]
  rfl

theorem decodeLoop_ended (last : Message) (hms : ∀ m ∈ ms, terminal m = false)
    (hlast : terminal last = true) (hcodec : ∀ m ∈ ms ++ [last], codec m.tag m.body = some m.encode) (fuel : ℕ)
    (src : ChunkReaderMirror) (tail : List UInt8) (hp : pending src = encodeAll (ms ++ [last]) ++ tail)
    (buffered : List UInt8) :
    decodeLoop codec x (fuel + 1 + ms.length) src 0 0 buffered [] =
      ended x last (buffered ++ encodeAll (ms ++ [last])) := by
  have hp₀ : pending src = encodeAll ms ++ (last.encode ++ tail) := by
    rw [hp, encodeAll_append, encodeAll_cons, encodeAll_nil, List.append_nil, List.append_assoc]
  obtain ⟨src', hp', -, hloop⟩ := decodeLoop_through (x := x) ms hms
    (fun m hm ↦ hcodec m (List.mem_append_left _ hm)) (fuel + 1) src _ hp₀ buffered []
  obtain ⟨src'', hreceive, -⟩ := receive_message hp' (hcodec last (by simp))
  rw [hloop, decodeLoop, hreceive, ended]
  simp only [terminal, Bool.or_eq_true, beq_iff_eq] at hlast
  have hdelivered : (if ms = [] then ([] : List UInt8) else [] ++ (buffered ++ encodeAll ms)) ++
      ((if ms = [] then buffered else []) ++ last.encode) = buffered ++ encodeAll (ms ++ [last]) := by
    by_cases hnil : ms = []
    · simp [hnil]
    · simp [hnil]
  simp only [Nat.lt_irrefl, and_false, if_false, hdelivered]
  split
  · rfl
  · rename_i hcopy
    rw [if_pos (hlast.resolve_right hcopy)]

end

end Decoding

section Splicing

variable {x : DrainInput} {len : ℕ}

variable {store store' tail : List UInt8} {src' src : ChunkReaderMirror} {acc ms : List Message}
  {woff' bodyLen woff : ℕ} {tag : UInt8} {dst' dst : Writer UInt8} {res : RawForwardResult}

theorem forwardFitting_later {bodyLen' : ℕ} {tag' : UInt8}
    (h : forwardFitting dst src store woff tag bodyLen res = .message tag' bodyLen' dst' src' store' woff') :
    src.r.Later src'.r := by
  have hbody := readFull_later src bodyLen
  rw [forwardFitting, readBody_eq] at h
  rcases hr : readFull src bodyLen with ⟨body, _ | err, src₁⟩
  · rw [hr] at h hbody
    cases h
    exact hbody
  · rw [hr] at h
    cases h

theorem forwardGiant_later {bodyLen' : ℕ} {tag' : UInt8}
    (h : forwardGiant dst src store woff tag bodyLen res = .message tag' bodyLen' dst' src' store' woff') :
    src.r.Later src'.r := by
  unfold forwardGiant at h
  rcases hflush : writeBuffered dst store woff with ⟨_ | err, dst₁⟩
  · rcases hwrite : dst₁.write (store.take headerSize) with ⟨_ | err, dst₂⟩
    · have hbody := copyN_later dst₂ src bodyLen
      rcases hcopy : copyN dst₂ src bodyLen with ⟨_ | err, dst₃, src₁⟩
      · simp only [hflush, hwrite, copyBody_eq, hcopy] at h
        rw [hcopy] at hbody
        cases h
        exact hbody
      · simp only [hflush, hwrite, copyBody_eq, hcopy] at h
        cases h
    · simp only [hflush, hwrite] at h
      cases h
  · simp only [hflush] at h
    cases h

theorem takeMessage_later (h : takeMessage len dst src store woff res = .message tag bodyLen dst' src' store' woff') :
    src.r.Later src'.r := by
  have hhdr := readFull_later src headerSize
  unfold takeMessage at h
  split at h
  · cases h
  · rcases hr : readFull src headerSize with ⟨hdr, _ | err, src₁⟩
    · rw [hr] at h hhdr
      simp only at h hhdr
      split at h
      · cases h
      · split at h
        · cases h
        · split at h
          · exact hhdr.trans (forwardFitting_later h)
          · exact hhdr.trans (forwardGiant_later h)
    · rw [hr] at h
      cases err <;> cases h

def held (len : ℕ) (acc ms : List Message) : List Message := ms.foldl (waiting len) acc

theorem forwardLoop_through (ms : List Message) (hms : ∀ m ∈ ms, terminal m = false) (h : Holds len store acc)
    (fuel : ℕ) (out : List UInt8) (src : ChunkReaderMirror) (res : RawForwardResult) (tail : List UInt8)
    (hp : pending src = encodeAll ms ++ tail)
    (ho : ¬ Overruns len store.length acc ms) :
    ∃ src' store' out' res', pending src' = tail ∧ src.r.Later src'.r ∧ store'.length = store.length ∧
      Holds len store' (held len acc ms) ∧ sizeAll (held len acc ms) + 5 ≤ store'.length ∧
      (res.tag ≠ tagReadyForQuery → res'.tag ≠ tagReadyForQuery) ∧ res'.copyIn = res.copyIn ∧ res'.eof = res.eof ∧
      forwardLoop len (fuel + ms.length) ⟨out, none⟩ src store (sizeAll acc) res =
        forwardLoop len fuel ⟨out ++ out', none⟩ src' store' (sizeAll (held len acc ms)) res' ∧
      emitted len acc ms = out' ++ encodeAll (held len acc ms) := by
  induction ms generalizing store acc out src res with
  | nil =>
    refine ⟨src, store, [], res, hp, .refl _, rfl, h, ?_, id, rfl, rfl, by simp [held], rfl⟩
    have hcap : ¬ store.length < sizeAll acc + headerSize := ho
    rw [headerSize] at hcap
    exact Nat.le_of_not_lt hcap
  | cons m ms ih =>
    have hm := hms m List.mem_cons_self
    simp only [terminal, Bool.or_eq_false_iff, beq_eq_false_iff_ne] at hm
    simp only [Overruns, headerSize, not_or, if_neg hm.1, not_and] at ho
    obtain ⟨hs, hw, hrest⟩ := ho
    rw [encodeAll_cons, List.append_assoc] at hp
    obtain ⟨src₁, store₁, out₁, hp₁, hlen₁, hh, ht, hem⟩ :=
      takeMessage_waiting h out src res m _ hp (by omega) (by omega)
    obtain ⟨src', store', out', res', hp', hlater, hlen, hholds, hroom, htag, hcopy, heof, hloop, hemit⟩ :=
      ih (fun m' hm' ↦ hms m' (List.mem_cons_of_mem m hm')) hh (out ++ out₁) src₁ { res with tag := m.tag } hp₁
        (hlen₁ ▸ hrest hm.2)
    refine ⟨src', store', out₁ ++ out', res', hp', (takeMessage_later ht).trans hlater, hlen.trans hlen₁, hholds,
      hroom, fun _ ↦ htag hm.1, hcopy, heof, ?_, ?_⟩
    · rw [List.length_cons, ← Nat.add_assoc, forwardLoop, ht]
      simp only [hm.1, hm.2, if_false, hloop, List.append_assoc]
      rfl
    · rw [hem, hemit, List.append_assoc]
      rfl

/-- The header of a cut message is there, and the message would not fit into the buffer behind `acc`. -/
def Spills (len : ℕ) (acc : List Message) (tail : List UInt8) : Prop :=
  5 ≤ tail.length ∧ 4 ≤ uint32 ((tail.drop 1).take 4) ∧
    len < sizeAll acc + (5 + (uint32 ((tail.drop 1).take 4) - 4))

instance (len : ℕ) (acc : List Message) (tail : List UInt8) : Decidable (Spills len acc tail) :=
  inferInstanceAs (Decidable (_ ∧ _ ∧ _))

/-- The first bytes of the buffer in the place of the header of a cut message, and what is copied of its body. -/
def fragment (acc : List Message) (tail : List UInt8) : List UInt8 :=
  (encodeAll acc ++ tail).take 5 ++ copied (tail.drop 5)

def spilt (len : ℕ) (acc : List Message) (tail : List UInt8) : List UInt8 :=
  if Spills len acc tail then encodeAll acc ++ fragment acc tail else []

theorem Holds.first (h : Holds len store acc) (h5 : 5 ≤ tail.length) :
    (overwrite store (sizeAll acc) (tail.take 5)).take 5 = (encodeAll acc ++ tail).take 5 := by
  have hle := h.acc_le.trans h.len_le
  have hlen : (tail.take 5).length = 5 := by
    rw [List.length_take]
    omega
  have htake := take_overwrite store (sizeAll acc) (tail.take 5) hle
  rw [hlen, h.content] at htake
  calc (overwrite store (sizeAll acc) (tail.take 5)).take 5
      = ((overwrite store (sizeAll acc) (tail.take 5)).take (sizeAll acc + 5)).take 5 := by
        rw [List.take_take, Nat.min_eq_left (by omega)]
    _ = (encodeAll acc ++ tail.take 5).take 5 := by rw [htake]
    _ = (encodeAll acc ++ tail).take 5 := by
        rw [List.take_append, List.take_append, List.take_take, Nat.min_eq_left (by omega)]

theorem takeMessage_cut (h : Holds len store acc) (out : List UInt8) (src : ChunkReaderMirror)
    (res : RawForwardResult) (hp : parseMessage (pending src) = none) (hs : sizeAll acc + 5 ≤ store.length)
    (hw : 5 ≤ (pending src).length → sizeAll acc < len) :
    ((pending src).length < 5 ∧ src.r.fault = .eof ∧ ∃ src',
      takeMessage len ⟨out, none⟩ src store (sizeAll acc) res =
        .done (.returned { res with eof := true } none ⟨out ++ encodeAll acc, none⟩ src')) ∨
    (¬ ((pending src).length < 5 ∧ src.r.fault = .eof) ∧ ∃ err src',
      takeMessage len ⟨out, none⟩ src store (sizeAll acc) res =
        .done (.returned res (some err) ⟨out ++ spilt len acc (pending src), none⟩ src') ∧
      (err = .timeout ↔ Stalls (pending src) src.r.ending)) := by
  have hcap : ¬ store.length < sizeAll acc + headerSize := by
    rw [headerSize]
    omega
  by_cases h5 : (pending src).length < 5
  · obtain ⟨src', hread⟩ := readFull_short src headerSize h5
    have hspilt : spilt len acc (pending src) = [] := if_neg fun hspills ↦ by
      have := hspills.1
      omega
    by_cases heof : src.r.fault = .eof
    · refine .inl ⟨h5, heof, src', ?_⟩
      unfold takeMessage
      rw [if_neg hcap, hread, heof]
      simp only [writeBuffered_eq, h.content]
    · refine .inr ⟨fun hboth ↦ heof hboth.2, src.r.fault, src', ?_, ?_⟩
      · unfold takeMessage
        rw [if_neg hcap, hread, hspilt, List.append_nil]
        cases hfault : src.r.fault <;> first | exact absurd hfault heof | rfl
      · rw [fault_timeout, Stalls]
        exact ⟨fun htime ↦ ⟨htime, .inl h5⟩, And.left⟩
  · obtain ⟨src₁, hhdr, hrest⟩ := readFull_eq src 5 (by omega)
    have hlater := readFull_later src 5
    rw [hhdr] at hlater
    have hslice := Wire.Safety.slice_header store (pending src) (sizeAll acc) (by omega) (by omega)
    refine .inr ⟨fun hboth ↦ h5 hboth.1, ?_⟩
    unfold takeMessage
    rw [if_neg hcap, headerSize, hhdr]
    simp only [hslice]
    rw [if_neg (by have := hw (by omega); omega)]
    by_cases hlow : uint32 (((pending src).drop 1).take 4) < 4
    · have hspilt : spilt len acc (pending src) = [] := if_neg fun hspills ↦ by
        have := hspills.2.1
        omega
      refine ⟨.other, src₁, by rw [if_pos hlow, hspilt, List.append_nil], ?_⟩
      simp only [reduceCtorEq, false_iff, Stalls]
      omega
    · have hstalls : src.r.ending = .timeout ↔ Stalls (pending src) src.r.ending :=
        ⟨fun htime ↦ ⟨htime, .inr (Nat.le_of_not_lt hlow)⟩, And.left⟩
      have hbad := (parseMessage_none hp (by omega)).resolve_left hlow
      have hshort : (pending src₁).length < uint32 (((pending src).drop 1).take 4) - 4 := by
        rw [hrest, List.length_drop]
        omega
      rw [if_neg hlow]
      by_cases hfit : sizeAll acc + (5 + (uint32 (((pending src).drop 1).take 4) - 4)) ≤ len
      · have hspilt : spilt len acc (pending src) = [] := if_neg fun hspills ↦ by
          have := hspills.2.2
          omega
        obtain ⟨src', hbody⟩ := readFull_short src₁ _ hshort
        refine ⟨src₁.r.fault, src', ?_, by rw [fault_timeout, hlater.ending, hstalls]⟩
        rw [if_pos hfit, forwardFitting, readBody_eq, hbody, hspilt, List.append_nil]
      · have hspilt : spilt len acc (pending src) = encodeAll acc ++ fragment acc (pending src) :=
          if_pos ⟨by omega, by omega, by omega⟩
        obtain ⟨err, src', hcopy, herr⟩ := copyLoop_short _ _
          (out ++ encodeAll acc ++ (encodeAll acc ++ pending src).take 5)
          src₁ le_rfl hshort
        refine ⟨err, src', ?_, by rw [herr, hlater.ending, hstalls]⟩
        rw [if_neg hfit]
        unfold forwardGiant
        rw [writeBuffered_eq, take_overwrite_le store _ _ _ (by omega) (Nat.le_refl _), h.content]
        simp only [headerSize, Writer.write_room_none, Holds.first h (Nat.le_of_not_lt h5), copyBody_eq, copyN, hcopy]
        rw [hspilt, fragment, hrest]
        simp only [List.append_assoc]

theorem workBuffer_len (buf : Buffer) : 5 ≤ (workBuffer buf).len := by
  unfold workBuffer
  split
  · change 5 ≤ (List.replicate (8 * 1024) (0 : UInt8)).length
    rw [List.length_replicate]
    omega
  · rename_i h
    rw [headerSize] at h
    omega

theorem rawForwardAll_workBuffer (dst : Writer UInt8) (src : ChunkReaderMirror) (buf : Buffer) :
    rawForwardAll dst src (workBuffer buf) = rawForwardAll dst src buf := by
  have hwork : workBuffer (workBuffer buf) = workBuffer buf :=
    if_neg (by have := workBuffer_len buf; rw [headerSize]; omega)
  rw [rawForwardAll, hwork, rawForwardAll]

theorem rawForwardAll_through (hms : ∀ m ∈ ms, terminal m = false) (out : List UInt8) (buf : Buffer)
    (hp : pending src = encodeAll ms ++ tail)
    (ho : ¬ Overruns (workBuffer buf).len (workBuffer buf).store.length [] ms) :
    ∃ fuel src' store' written res', pending src' = tail ∧ src.r.Later src'.r ∧
      Holds (workBuffer buf).len store' (held (workBuffer buf).len [] ms) ∧
      sizeAll (held (workBuffer buf).len [] ms) + 5 ≤ store'.length ∧ res'.tag ≠ tagReadyForQuery ∧
      res'.copyIn = false ∧ res'.eof = false ∧
      rawForwardAll ⟨out, none⟩ src buf = forwardLoop (workBuffer buf).len (fuel + 1) ⟨out ++ written, none⟩ src' store'
        (sizeAll (held (workBuffer buf).len [] ms)) res' ∧
      emitted (workBuffer buf).len [] ms = written ++ encodeAll (held (workBuffer buf).len [] ms) := by
  obtain ⟨fuel, hfuel⟩ := exists_fuel hp
  obtain ⟨src', store', written, res', hp', hlater, -, hholds, hroom, htag, hcopy, heof, hloop, hemit⟩ :=
    forwardLoop_through ms hms (holds_nil (workBuffer buf)) (fuel + 1) out src {} tail hp ho
  refine ⟨fuel, src', store', written, res', hp', hlater, hholds, hroom, htag (by decide), hcopy, heof, ?_, hemit⟩
  rw [rawForwardAll, hfuel, ← hloop]
  rfl

theorem spliceDrain_panicked (hp : pending src = encodeAll ms ++ tail)
    (ho : Overruns (workBuffer x.spliceBuf).len (workBuffer x.spliceBuf).store.length [] ms) :
    x.spliceDrain src = .panicked := by
  rw [DrainInput.spliceDrain, rawForwardAll_panicked _ src x.spliceBuf ms tail hp ho]

section

variable (hms : ∀ m ∈ ms, terminal m = false)

include hms

theorem spliceDrain_ended {last : Message} (hlast : EndsForward last)
    (hp : pending src = encodeAll (ms ++ [last]) ++ tail)
    (ho : ¬ Overruns (workBuffer x.spliceBuf).len (workBuffer x.spliceBuf).store.length [] (ms ++ [last])) :
    x.spliceDrain src =
      ended x last (encodeAll x.queued ++ emitted (workBuffer x.spliceBuf).len [] (ms ++ [last])) := by
  have hplain (m : Message) (hm : m ∈ ms) : m.tag ≠ tagReadyForQuery ∧ m.tag ≠ tagCopyInResponse := by
    simpa [terminal] using hms m hm
  obtain ⟨src', -, hforward⟩ := rawForwardAll_returned (encodeAll x.queued) src (workBuffer x.spliceBuf)
    (workBuffer_len _) ms last hplain hlast tail hp ho
  obtain ⟨htag, hcopy, hstatus⟩ := finalResult_spec last hlast
  rw [rawForwardAll_workBuffer] at hforward
  rw [DrainInput.spliceDrain, hforward, ended]
  simp only [hcopy, htag]
  split
  · rfl
  · rename_i hne
    have hready := (hlast.resolve_right hne).1
    rw [if_pos hready]
    have hbody := hstatus hready
    rw [hbody]
    rfl

theorem spliceDrain_cut (hp : pending src = encodeAll ms ++ tail)
    (htail : parseMessage tail = none)
    (ho : ¬ Overruns (workBuffer x.spliceBuf).len (workBuffer x.spliceBuf).store.length [] ms)
    (hw : 5 ≤ tail.length → sizeAll (held (workBuffer x.spliceBuf).len [] ms) < (workBuffer x.spliceBuf).len) :
    ∃ written, emitted (workBuffer x.spliceBuf).len [] ms =
        written ++ encodeAll (held (workBuffer x.spliceBuf).len [] ms) ∧
      ((tail.length < 5 ∧ src.r.ending = .eof ∧ ∃ delivered, x.spliceDrain src = .returned {} none x.state delivered) ∨
        (¬ (tail.length < 5 ∧ src.r.ending = .eof ∧ src.r.pieces = []) ∧ ∃ err,
          x.spliceDrain src = x.failed err (encodeAll x.queued ++ (written ++
            spilt (workBuffer x.spliceBuf).len (held (workBuffer x.spliceBuf).len [] ms) tail)) ∧
          (err = .timeout ↔ Stalls tail src.r.ending))) := by
  obtain ⟨fuel, src', store', written, res', hp', hlater, hholds, hroom, htag, hcopy, heof, hforward, hemit⟩ :=
    rawForwardAll_through hms (encodeAll x.queued) x.spliceBuf hp ho
  refine ⟨written, hemit, ?_⟩
  have hcut : parseMessage (pending src') = none := by rw [hp', htail]
  rw [DrainInput.spliceDrain, hforward, forwardLoop]
  rcases takeMessage_cut hholds (encodeAll x.queued ++ written) src' res' hcut hroom (by rwa [hp']) with
    ⟨h5, hfault, src'', ht⟩ | ⟨hnot, err, src'', ht, herr⟩
  · rw [hp'] at h5
    have hending : src.r.ending = .eof := by
      rw [← hlater.ending]
      unfold Conn.fault at hfault
      split at hfault
      · cases hfault
      · exact hfault
    refine .inl ⟨h5, hending, encodeAll x.queued ++ written ++ encodeAll (held (workBuffer x.spliceBuf).len [] ms), ?_⟩
    rw [ht]
    simp only [hcopy, htag, if_false, Bool.false_eq_true]
  · rw [hp', hlater.ending] at herr
    refine .inr ⟨?_, err, ?_, herr⟩
    · rintro ⟨h5, hending, hdry⟩
      refine hnot ⟨by rwa [hp'], ?_⟩
      rw [Conn.fault, if_neg (fun hpieces ↦ hpieces.1 (hlater.dry hdry)), hlater.ending, hending]
    · rw [ht, hp']
      simp only [heof, Bool.false_eq_true, if_false, List.append_assoc]

theorem spliceDrain_full (hp : pending src = encodeAll ms ++ tail)
    (h5 : 5 ≤ tail.length) (hw : (workBuffer x.spliceBuf).len ≤ sizeAll (held (workBuffer x.spliceBuf).len [] ms)) :
    x.spliceDrain src = .panicked := by
  by_cases ho : Overruns (workBuffer x.spliceBuf).len (workBuffer x.spliceBuf).store.length [] ms
  · exact spliceDrain_panicked hp ho
  · obtain ⟨fuel, src', store', written, res', hp', -, -, -, -, -, -, hforward, -⟩ :=
      rawForwardAll_through hms (encodeAll x.queued) x.spliceBuf hp ho
    have hfull := takeMessage_full ⟨encodeAll x.queued ++ written, none⟩ src' store' _ res' (by rwa [hp']) hw
    rw [DrainInput.spliceDrain, hforward, forwardLoop, hfull]

end

end Splicing

section Delivered

variable {len : ℕ}

theorem emitted_length (acc ms : List Message) : (emitted len acc ms).length = sizeAll acc + sizeAll ms := by
  induction ms generalizing acc with
  | nil => rw [emitted, encodeAll_length, sizeAll_nil, Nat.add_zero]
  | cons m ms ih =>
    rw [emitted, sizeAll_cons]
    split
    · rw [ih, sizeAll_append, sizeAll_cons, sizeAll_nil]
      omega
    · simp only [List.length_append, encodeAll_length, header_length, ih, sizeAll_nil, Message.size, headerSize]
      omega

variable {ms : List Message}

theorem sizeAll_eq_zero (h : sizeAll ms = 0) : ms = [] := by
  have hlen := length_le_sizeAll ms
  exact List.length_eq_zero_iff.mp (by omega)

variable {front back : List UInt8}

theorem frames_append_eq (hlen : front.length = sizeAll ms) :
    frames (front ++ back) = ms ↔ front = encodeAll ms ∧ parseMessage back = none := by
  constructor
  · intro h
    obtain ⟨tail, htail, hnone⟩ := frames_split (front ++ back)
    rw [h] at htail
    obtain ⟨hfront, rfl⟩ := List.append_inj htail (by rw [hlen, encodeAll_length])
    exact ⟨hfront, hnone⟩
  · rintro ⟨rfl, hnone⟩
    rw [frames_encodeAll, frames_of_none hnone, List.append_nil]

theorem parseMessage_left (h : parseMessage (front ++ back) = none) :
    parseMessage front = none := by
  cases hp : parseMessage front with
  | none => rfl
  | some p =>
    rw [parseMessage_some hp, List.append_assoc, parseMessage_encode] at h
    cases h

theorem parseMessage_fragment {tail : List UInt8} (h : parseMessage tail = none) :
    parseMessage (fragment [] tail) = none := by
  have hsplit : fragment [] tail ++ (tail.drop 5).drop ((tail.drop 5).length - (tail.drop 5).length % (32 * 1024)) =
      tail := by
    rw [fragment, copied, encodeAll_nil, List.nil_append, List.append_assoc, List.take_append_drop,
      List.take_append_drop]
  rw [← hsplit] at h
  exact parseMessage_left h

theorem headersKept_iff (ms : List Message) : HeadersKept len [] ms ↔ emitted len [] ms = encodeAll ms := by
  rw [← emitted_eq_iff, encodeAll_nil, List.nil_append]

variable {tail written : List UInt8}

/-- The client gets every complete message, and nothing else that it could take for one, if nothing is left in the
buffer when the stream is cut, or what is left is written ahead of a message that is too long. -/
theorem frames_spilt (htail : parseMessage tail = none)
    (hemit : emitted len [] ms = written ++ encodeAll (held len [] ms)) :
    frames (written ++ spilt len (held len [] ms) tail) = ms ↔
      HeadersKept len [] ms ∧ (held len [] ms = [] ∨
        Spills len (held len [] ms) tail ∧ parseMessage (fragment (held len [] ms) tail) = none) := by
  have hlength : (emitted len [] ms).length = sizeAll [] + sizeAll ms := emitted_length [] ms
  rw [sizeAll_nil, Nat.zero_add] at hlength
  rw [headersKept_iff]
  by_cases hspills : Spills len (held len [] ms) tail
  · have hspilt : written ++ spilt len (held len [] ms) tail = emitted len [] ms ++ fragment (held len [] ms) tail := by
      rw [spilt, if_pos hspills, hemit, List.append_assoc]
    rw [hspilt, frames_append_eq hlength]
    refine and_congr_right fun _ ↦ ⟨fun h ↦ .inr ⟨hspills, h⟩, ?_⟩
    rintro (hnil | ⟨-, h⟩)
    · rw [hnil]
      exact parseMessage_fragment htail
    · exact h
  · have hspilt : written ++ spilt len (held len [] ms) tail = written ++ [] := by rw [spilt, if_neg hspills]
    have hwritten : written.length + sizeAll (held len [] ms) = sizeAll ms := by
      rw [← hlength, hemit, List.length_append, encodeAll_length]
    rw [hspilt]
    simp only [hspills, false_and, or_false]
    constructor
    · intro h
      obtain ⟨rest, hrest, -⟩ := frames_split (written ++ [])
      rw [h, List.append_nil] at hrest
      have hle : sizeAll ms ≤ written.length := by
        rw [hrest, List.length_append, encodeAll_length]
        omega
      have hnil := sizeAll_eq_zero (show sizeAll (held len [] ms) = 0 by omega)
      rw [hnil, encodeAll_nil] at hemit
      rw [hnil, sizeAll_nil] at hwritten
      refine ⟨?_, hnil⟩
      rw [hemit, List.append_nil]
      exact ((frames_append_eq hwritten).mp h).1
    · rintro ⟨hkept, hnil⟩
      rw [hnil, encodeAll_nil, List.append_nil] at hemit
      rw [← hemit, hkept, List.append_nil, frames_all]

theorem frames_queued {queued ms : List Message} (htail : parseMessage tail = none)
    (hemit : emitted len [] ms = written ++ encodeAll (held len [] ms)) :
    frames (encodeAll queued ++ (written ++ spilt len (held len [] ms) tail)) =
        frames (if ms = [] then [] else encodeAll queued ++ encodeAll ms) ↔
      HeadersKept len [] ms ∧ (queued = [] ∨ ms ≠ []) ∧ (held len [] ms = [] ∨
        Spills len (held len [] ms) tail ∧ parseMessage (fragment (held len [] ms) tail) = none) := by
  have hspilt := frames_spilt htail hemit
  rw [frames_encodeAll]
  by_cases hnil : ms = []
  · have hempty : frames [] = [] := rfl
    rw [if_pos hnil, hempty, List.append_eq_nil_iff]
    rw [hnil] at hspilt ⊢
    rw [hspilt]
    simp only [ne_eq, not_true_eq_false, or_false]
    exact and_left_comm
  · rw [if_neg hnil, frames_encodeAll, frames_all, List.append_cancel_left_eq, hspilt]
    simp only [ne_eq, hnil, not_false_eq_true, or_true, true_and]

end Delivered

section Comparison

variable {x : DrainInput}

/-- Two drains end in the same way, and the client has got the same messages. -/
inductive Agree : Drained → Drained → Prop
  | returned {out out' : DrainOutcome} {err err' : Option IoErr} {state state' : ClientState}
      {delivered delivered' : List UInt8} (herr : err.isSome = err'.isSome)
      (hrelease : out.shouldRelease = out'.shouldRelease) (htimeout : out.queryTimedOut = out'.queryTimedOut)
      (htx : state.tx = state'.tx) (hdelivered : frames delivered = frames delivered') :
      Agree (.returned out err state delivered) (.returned out' err' state' delivered')

theorem agree_returned {out out' : DrainOutcome} {err err' : Option IoErr} {state : ClientState}
    (herr : err.isSome = err'.isSome) (hrelease : out.shouldRelease = out'.shouldRelease)
    (htimeout : out.queryTimedOut = out'.queryTimedOut) (delivered delivered' : List UInt8) :
    Agree (.returned out err state delivered) (.returned out' err' state delivered') ↔
      frames delivered = frames delivered' := by
  constructor
  · rintro ⟨-, -, -, -, hdelivered⟩
    exact hdelivered
  · exact .returned herr hrelease htimeout rfl

theorem agree_failed {err err' : IoErr} (h : err = .timeout ↔ err' = .timeout) (delivered delivered' : List UInt8) :
    Agree (x.failed err delivered) (x.failed err' delivered') ↔ frames delivered = frames delivered' := by
  unfold DrainInput.failed
  by_cases htime : err = .timeout ∧ 0 < x.queryTimeout
  · rw [if_pos htime, if_pos ⟨h.mp htime.1, htime.2⟩]
    exact agree_returned rfl rfl rfl delivered delivered'
  · rw [if_neg htime, if_neg fun htime' ↦ htime ⟨h.mpr htime'.1, htime'.2⟩]
    have hsome : (some err).isSome = (some err').isSome := rfl
    exact agree_returned hsome rfl rfl delivered delivered'

theorem agree_ended (last : Message) (delivered delivered' : List UInt8) :
    Agree (ended x last delivered) (ended x last delivered') ↔ frames delivered = frames delivered' := by
  unfold ended
  split <;> exact agree_returned rfl rfl rfl delivered delivered'

/-- The stream is cut where both drains notice it, no message is left behind in a buffer, and no remains of
one look like a message. -/
def CutAlike (x : DrainInput) (ms : List Message) (tail : List UInt8) (ending : IoErr) : Prop :=
  (ending = .eof → 5 ≤ tail.length) ∧ (x.queued = [] ∨ ms ≠ []) ∧
    (held (workBuffer x.spliceBuf).len [] ms = [] ∨
      sizeAll (held (workBuffer x.spliceBuf).len [] ms) < (workBuffer x.spliceBuf).len ∧
        Spills (workBuffer x.spliceBuf).len (held (workBuffer x.spliceBuf).len [] ms) tail ∧
        parseMessage (fragment (held (workBuffer x.spliceBuf).len [] ms) tail) = none)

/-- The reply stays within the splice buffer and keeps its headers, and it is complete or cut alike. -/
def Interchangeable (x : DrainInput) (bs : List UInt8) (ending : IoErr) : Prop :=
  ¬ Overruns (workBuffer x.spliceBuf).len (workBuffer x.spliceBuf).store.length [] (replies (frames bs)) ∧
    HeadersKept (workBuffer x.spliceBuf).len [] (replies (frames bs)) ∧
    ((replies (frames bs)).any terminal = true ∨
      CutAlike x (replies (frames bs)) (bs.drop (sizeAll (replies (frames bs)))) ending)

variable {codec : UInt8 → List UInt8 → Option (List UInt8)}

theorem drain_spliced (hcc : x.pendingEvictCC = 0) (hpc : x.pendingParsePC = 0) (src : ChunkReaderMirror) :
    drainBackendUntilRFQ codec true x src = x.spliceDrain src := by
  simp [drainBackendUntilRFQ, hcc, hpc]

theorem drain_decoded (src : ChunkReaderMirror) :
    drainBackendUntilRFQ codec false x src = decodeDrain codec x src := rfl

variable {src : ChunkReaderMirror} {ms : List Message} {tail : List UInt8}

theorem agree_complete {last : Message}
    (hcc : x.pendingEvictCC = 0) (hpc : x.pendingParsePC = 0) (hms : ∀ m ∈ ms, terminal m = false)
    (hlast : terminal last = true) (hready : last.tag = tagReadyForQuery → last.body.length = 1)
    (hcodec : ∀ m ∈ ms ++ [last], codec m.tag m.body = some m.encode)
    (hp : pending src = encodeAll (ms ++ [last]) ++ tail) :
    Agree (x.spliceDrain src) (decodeDrain codec x src) ↔
      ¬ Overruns (workBuffer x.spliceBuf).len (workBuffer x.spliceBuf).store.length [] (ms ++ [last]) ∧
        HeadersKept (workBuffer x.spliceBuf).len [] (ms ++ [last]) := by
  by_cases ho : Overruns (workBuffer x.spliceBuf).len (workBuffer x.spliceBuf).store.length [] (ms ++ [last])
  · rw [spliceDrain_panicked hp ho]
    exact ⟨nofun, fun h ↦ absurd ho h.1⟩
  · have hends : EndsForward last := by
      simp only [terminal, Bool.or_eq_true, beq_iff_eq] at hlast
      exact hlast.imp_left fun h ↦ ⟨h, hready h⟩
    obtain ⟨fuel, hfuel⟩ := exists_fuel hp
    have hdecode : decodeDrain codec x src = ended x last (encodeAll x.queued ++ encodeAll (ms ++ [last])) := by
      rw [decodeDrain, hcc, hpc, hfuel, List.length_append, ← Nat.add_assoc, Nat.add_right_comm]
      exact decodeLoop_ended ms last hms hlast hcodec (fuel + 1) src tail hp _
    have hemit : (emitted (workBuffer x.spliceBuf).len [] (ms ++ [last])).length = sizeAll (ms ++ [last]) := by
      rw [emitted_length, sizeAll_nil, Nat.zero_add]
    have hall : frames (emitted (workBuffer x.spliceBuf).len [] (ms ++ [last]) ++ []) = ms ++ [last] ↔
        emitted (workBuffer x.spliceBuf).len [] (ms ++ [last]) = encodeAll (ms ++ [last]) ∧ parseMessage [] = none :=
      frames_append_eq hemit
    rw [List.append_nil] at hall
    have hdelivered : frames (encodeAll x.queued ++ encodeAll (ms ++ [last])) = x.queued ++ (ms ++ [last]) := by
      rw [frames_encodeAll, frames_all]
    rw [spliceDrain_ended hms hends hp ho, hdecode, agree_ended, hdelivered, frames_encodeAll,
      List.append_cancel_left_eq, headersKept_iff, hall]
    simp [ho, parseMessage]

theorem agree_cut
    (hcc : x.pendingEvictCC = 0) (hpc : x.pendingParsePC = 0) (hms : ∀ m ∈ ms, terminal m = false)
    (hcodec : ∀ m ∈ ms, codec m.tag m.body = some m.encode) (hp : pending src = encodeAll ms ++ tail)
    (htail : parseMessage tail = none) :
    ((¬ Overruns (workBuffer x.spliceBuf).len (workBuffer x.spliceBuf).store.length [] ms ∧
        HeadersKept (workBuffer x.spliceBuf).len [] ms ∧ CutAlike x ms tail src.r.ending) →
      Agree (x.spliceDrain src) (decodeDrain codec x src)) ∧
    (src.r.pieces = [] → Agree (x.spliceDrain src) (decodeDrain codec x src) →
      ¬ Overruns (workBuffer x.spliceBuf).len (workBuffer x.spliceBuf).store.length [] ms ∧
        HeadersKept (workBuffer x.spliceBuf).len [] ms ∧ CutAlike x ms tail src.r.ending) := by
  obtain ⟨fuel, hfuel⟩ := exists_fuel hp
  obtain ⟨err, hdecode, herr⟩ := decodeLoop_cut (x := x) ms hms hcodec fuel src tail hp htail (encodeAll x.queued)
  have hdecode : decodeDrain codec x src =
      x.failed err (if ms = [] then [] else encodeAll x.queued ++ encodeAll ms) := by
    rw [decodeDrain, hcc, hpc, hfuel, hdecode]
  rw [hdecode]
  have hlen := workBuffer_len x.spliceBuf
  by_cases ho : Overruns (workBuffer x.spliceBuf).len (workBuffer x.spliceBuf).store.length [] ms
  · rw [spliceDrain_panicked hp ho]
    exact ⟨fun h ↦ absurd ho h.1, nofun⟩
  · by_cases hfull : 5 ≤ tail.length ∧
        (workBuffer x.spliceBuf).len ≤ sizeAll (held (workBuffer x.spliceBuf).len [] ms)
    · rw [spliceDrain_full hms hp hfull.1 hfull.2]
      refine ⟨?_, nofun⟩
      rintro ⟨-, -, -, -, hnil | ⟨hroom, -⟩⟩
      · rw [hnil, sizeAll_nil] at hfull
        omega
      · omega
    · have hw (h5 : 5 ≤ tail.length) :
          sizeAll (held (workBuffer x.spliceBuf).len [] ms) < (workBuffer x.spliceBuf).len := by
        by_contra hc
        exact hfull ⟨h5, by omega⟩
      obtain ⟨written, hemit, ⟨h5, hending, delivered, hsplice⟩ | ⟨hdry, err', hsplice, herr'⟩⟩ :=
        spliceDrain_cut hms hp htail ho hw
      · -- the splice drain takes the end of the stream for the end of the reply
        refine ⟨fun h ↦ ?_, fun _ h ↦ ?_⟩
        · have := h.2.2.1 hending
          omega
        · have hother : err ≠ .timeout := by
            rw [ne_eq, herr, hending]
            exact fun hstalls ↦ by cases hstalls.1
          rw [hsplice, DrainInput.failed, if_neg fun htime ↦ hother htime.1] at h
          cases h with
          | returned herr => cases herr
      · rw [hsplice, agree_failed (herr'.trans herr.symm), frames_queued htail hemit]
        constructor
        · rintro ⟨-, hkept, -, hqueued, hheld⟩
          exact ⟨hkept, hqueued, hheld.imp_right And.right⟩
        · rintro hpieces ⟨hkept, hqueued, hheld⟩
          refine ⟨ho, hkept, fun hending ↦ ?_, hqueued, hheld.imp_right fun hspills ↦ ⟨hw hspills.1.1, hspills⟩⟩
          by_contra h5
          exact hdry ⟨by omega, hending, hpieces⟩

def arrived (bs : List UInt8) (ending : IoErr) : ChunkReaderMirror where
  r := ⟨[], ending, by simp⟩
  window := ⟨bs, 0, bs.length, Nat.zero_le _, le_rfl⟩
  minBufSize := 8 * 1024

theorem pending_arrived (bs : List UInt8) (ending : IoErr) : pending (arrived bs ending) = bs := by
  change slice bs 0 bs.length ++ [] = bs
  simp [slice]

/-- Both drains agree on a stream, however its bytes arrive, exactly if it is one that they are interchangeable on. -/
theorem drains_agree_iff (hcc : x.pendingEvictCC = 0) (hpc : x.pendingParsePC = 0) (bs : List UInt8) (ending : IoErr)
    (hcodec : ∀ m ∈ replies (frames bs), codec m.tag m.body = some m.encode)
    (hready : ∀ m ∈ replies (frames bs), m.tag = tagReadyForQuery → m.body.length = 1) :
    (∀ src, pending src = bs → src.r.ending = ending →
      Agree (drainBackendUntilRFQ codec true x src) (drainBackendUntilRFQ codec false x src)) ↔
      Interchangeable x bs ending := by
  simp only [drain_spliced hcc hpc, drain_decoded]
  obtain ⟨tail, hsplit, htail⟩ := frames_split bs
  unfold Interchangeable
  rcases replies_cases (frames bs) with ⟨hall, hms⟩ | ⟨ms, last, after, hframes, hreplies, hms, hlast⟩
  · rw [hall] at hcodec hready ⊢
    have hany : (frames bs).any terminal = false := by simpa using hms
    have hdrop : bs.drop (sizeAll (frames bs)) = tail := by
      nth_rewrite 2 [hsplit]
      rw [List.drop_left' (encodeAll_length _)]
    simp only [hany, Bool.false_eq_true, false_or, hdrop]
    constructor
    · intro h
      exact (agree_cut hcc hpc hms hcodec (by rw [pending_arrived]; exact hsplit) htail).2 rfl
        (h (arrived bs ending) (pending_arrived bs ending) rfl)
    · rintro h src hp rfl
      exact (agree_cut hcc hpc hms hcodec (by rw [hp]; exact hsplit) htail).1 h
  · rw [hreplies] at hcodec hready ⊢
    have hany : (ms ++ [last]).any terminal = true := by simp [hlast]
    have hbs : bs = encodeAll (ms ++ [last]) ++ (encodeAll after ++ tail) := by
      rw [hframes] at hsplit
      simpa using hsplit
    have hagree (src : ChunkReaderMirror) (hp : pending src = bs) :
        Agree (x.spliceDrain src) (decodeDrain codec x src) ↔ _ :=
      agree_complete hcc hpc hms hlast (hready last (by simp)) hcodec (hp.trans hbs)
    simp only [hany, true_or, and_true]
    constructor
    · intro h
      exact (hagree (arrived bs ending) (pending_arrived bs ending)).mp
        (h (arrived bs ending) (pending_arrived bs ending) rfl)
    · rintro h src hp -
      exact (hagree src hp).mpr h

/-- Messages are encoded as they were read. A `ReadyForQuery` has one status byte. -/
def pgproto3 (tag : UInt8) (body : List UInt8) : Option (List UInt8) :=
  if tag = tagReadyForQuery ∧ body.length ≠ 1 then none else some (tag :: putUint32 (body.length + 4) ++ body)

def waitingClient : DrainInput where
  queryTimeout := 1000
  isStatementMode := false
  sessionPinned := false
  state := {}
  queued := []
  spliceBuf := spliceBuf
  pendingEvictCC := 0
  pendingParsePC := 0

theorem workBuffer_spliceBuf : workBuffer spliceBuf = spliceBuf :=
  if_neg (by rw [spliceBuf_len]; decide)

theorem pending_new (c : Conn UInt8) (minBufSize : ℕ) : pending (ChunkReaderMirror.new c minBufSize) = pending c := by
  change (Library.Windows.Window.empty _).filled ++ pending c = pending c
  rw [Library.Windows.Window.filled_empty, List.nil_append]

def rowReply : List Message := [dataRow 3 (by decide), readyIdle]

theorem replies_rowReply : replies (frames (encodeAll rowReply)) = rowReply := by
  rw [frames_all]
  decide

theorem interchangeable_rowReply : Interchangeable waitingClient (encodeAll rowReply) .eof := by
  have hwork : workBuffer waitingClient.spliceBuf = spliceBuf := workBuffer_spliceBuf
  unfold Interchangeable
  rw [replies_rowReply, hwork, spliceBuf_len, spliceBuf_cap]
  exact ⟨by decide, by decide, .inl (by decide)⟩

theorem drains_agree_rowReply :
    Agree (drainBackendUntilRFQ pgproto3 true waitingClient
        (.new (atOnce (dataRow 3 (by decide)) [readyIdle]) 8192))
      (drainBackendUntilRFQ pgproto3 false waitingClient
        (.new (atOnce (dataRow 3 (by decide)) [readyIdle]) 8192)) := by
  have hiff : (∀ src, pending src = encodeAll rowReply → src.r.ending = .eof →
      Agree (drainBackendUntilRFQ pgproto3 true waitingClient src)
        (drainBackendUntilRFQ pgproto3 false waitingClient src)) ↔
      Interchangeable waitingClient (encodeAll rowReply) .eof :=
    drains_agree_iff rfl rfl _ _ (by rw [replies_rowReply]; decide) (by rw [replies_rowReply]; decide)
  apply hiff.mpr interchangeable_rowReply
  · rw [pending_new, atOnce_pending, List.append_nil]
    rfl
  · rfl

/-- The backend closes its connection after a row. The splice drain has nothing to say about it. -/
theorem end_of_stream_unnoticed :
    ∃ delivered err delivered',
      drainBackendUntilRFQ pgproto3 true waitingClient (arrived (encodeAll [dataRow 3 (by decide)]) .eof) =
        .returned {} none {} delivered ∧
      drainBackendUntilRFQ pgproto3 false waitingClient (arrived (encodeAll [dataRow 3 (by decide)]) .eof) =
        .returned {} (some err) {} delivered' ∧
      ¬ Agree (drainBackendUntilRFQ pgproto3 true waitingClient (arrived (encodeAll [dataRow 3 (by decide)]) .eof))
        (drainBackendUntilRFQ pgproto3 false waitingClient (arrived (encodeAll [dataRow 3 (by decide)]) .eof)) := by
  have hms : ∀ m ∈ [dataRow 3 (by decide)], terminal m = false := by decide
  have hp : pending (arrived (encodeAll [dataRow 3 (by decide)]) .eof) = encodeAll [dataRow 3 (by decide)] ++ [] := by
    rw [pending_arrived, List.append_nil]
  have hwork : workBuffer waitingClient.spliceBuf = spliceBuf := workBuffer_spliceBuf
  have ho : ¬ Overruns (workBuffer waitingClient.spliceBuf).len (workBuffer waitingClient.spliceBuf).store.length []
      [dataRow 3 (by decide)] := by
    rw [hwork, spliceBuf_len, spliceBuf_cap]
    decide
  have hcounters : waitingClient.pendingEvictCC = 0 ∧ waitingClient.pendingParsePC = 0 := ⟨rfl, rfl⟩
  rw [drain_spliced hcounters.1 hcounters.2, drain_decoded, decodeDrain, hcounters.1, hcounters.2]
  obtain ⟨-, -, ⟨-, -, delivered, hsplice⟩ | ⟨hnot, -⟩⟩ := spliceDrain_cut hms hp rfl ho (by decide)
  · obtain ⟨err, hdecode, herr⟩ : ∃ err, decodeLoop pgproto3 waitingClient (7 + 1 + 1)
        (arrived (encodeAll [dataRow 3 (by decide)]) .eof) 0 0 (encodeAll waitingClient.queued) [] =
          waitingClient.failed err _ ∧ (err = .timeout ↔ Stalls [] .eof) :=
      decodeLoop_cut _ hms (by decide) 7 _ [] hp rfl (encodeAll waitingClient.queued)
    have hother : err ≠ .timeout := fun h ↦ by cases (herr.mp h).1
    have hfuel : (pending (arrived (encodeAll [dataRow 3 (by decide)]) .eof)).length + 1 = 7 + 1 + 1 := by
      rw [pending_arrived]
      decide
    rw [DrainInput.failed, if_neg fun h ↦ hother h.1] at hdecode
    rw [hfuel]
    refine ⟨delivered, err, _, hsplice, hdecode, ?_⟩
    rw [hsplice, hdecode]
    rintro ⟨herr⟩
    cases herr
  · exact absurd ⟨by decide, rfl, rfl⟩ hnot

end Comparison

end PgRouter.Client.Drains
