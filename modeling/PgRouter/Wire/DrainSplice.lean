import PgRouter.Wire.Exactness

namespace PgRouter.Wire.DrainSplice

open Library.Reads Library.Reads.Reader Library.Slices Library.Windows Framing Splice Forwarding Exactness ChunkReader

section Classes

inductive TagClass
  | boring
  | interesting
  | error
  | terminator
  | copyIn
  | unknown
  deriving DecidableEq

/-- The tags `D`, `T`, `C`, `1`, `2`, `n`, `I` and `s`, then `S`, `K`, `A`, `N`, `W` and `v`, then `E`, `Z`, `G`
and `H`. -/
def tagClassTable : List (UInt8 × TagClass) :=
  [(0x44, .boring), (0x54, .boring), (0x43, .boring), (0x31, .boring), (0x32, .boring), (0x6e, .boring),
    (0x49, .boring), (0x73, .boring), (0x53, .interesting), (0x4b, .interesting), (0x41, .interesting),
    (0x4e, .interesting), (0x57, .interesting), (0x76, .interesting), (0x45, .error), (0x5a, .terminator),
    (0x47, .copyIn), (0x48, .interesting)]

def classify (tag : UInt8) : TagClass := (tagClassTable.lookup tag).getD .boring

def boring (m : Message) : Bool := classify m.tag = .boring

end Classes

section Drains

/-- A source that can take a header back. Where it ends by `io.EOF`, a read behind its last byte says so. -/
class SpliceReader (σ : Type) extends Reader σ UInt8 where
  rewind : σ → List UInt8 → σ
  endsByEOF : σ → Prop
  pending_rewind : ∀ {s s' : σ} {hdr : List UInt8}, readFull s headerSize = (hdr, none, s') →
    pending (rewind s' hdr) = hdr ++ pending s'
  endsByEOF_read : ∀ (s : σ) (k : ℕ), endsByEOF s → endsByEOF (read s k).2.2
  read_eof : ∀ (s : σ) (k : ℕ), endsByEOF s → 0 < k → pending s = [] → (read s k).2.1 = some .eof

open SpliceReader

inductive SpliceErr
  | stop
  | negativeLength
  | io (e : IoErr)
  deriving DecidableEq

/-- One round of the loop: the call returns, or one more message has been taken from the source. -/
inductive Round (σ : Type)
  | done (err : SpliceErr) (dst : Writer UInt8) (src : σ)
  | next (dst : Writer UInt8) (src : σ) (store : List UInt8) (woff : ℕ)

variable {σ : Type} [SpliceReader σ]

/-- The message goes into the buffer at `off`: its header is copied there and its body read behind it. -/
def keepMessage (dst : Writer UInt8) (src : σ) (store hdr : List UInt8) (off bodyLen : ℕ) : Round σ :=
  let store := overwrite store off hdr
  match readBody src bodyLen with
  | (_, some e, src) => .done (.io e) dst src
  | (body, none, src) =>
    .next dst src (overwrite store (off + headerSize) body) (off + (headerSize + bodyLen))

/-- The message is larger than the buffer: its header is written, and its body copied. -/
def copyMessage (dst : Writer UInt8) (src : σ) (store hdr : List UInt8) (bodyLen : ℕ) : Round σ :=
  match dst.write hdr with
  | (some e, dst) => .done (.io e) dst src
  | (none, dst) =>
    match copyN dst src bodyLen with
    | (some e, dst, src) => .done (.io e) dst src
    | (none, dst, src) => .next dst src store 0

/-- A boring message, by the room there is for it in front of the region of the header. -/
def forwardBoring (size : ℕ) (dst : Writer UInt8) (src : σ) (store hdr : List UInt8) (woff bodyLen : ℕ) : Round σ :=
  let msgTotal := headerSize + bodyLen
  if woff + msgTotal ≤ size - headerSize then keepMessage dst src store hdr woff bodyLen
  else
    match writeBuffered dst store woff with
    | (some e, dst) => .done (.io e) dst src
    | (none, dst) =>
      if msgTotal ≤ size - headerSize then keepMessage dst src store hdr 0 bodyLen
      else copyMessage dst src store hdr bodyLen

def round (size : ℕ) (dst : Writer UInt8) (src : σ) (store : List UInt8) (woff : ℕ) : Round σ :=
  match readFull src headerSize with
  | (_, some .eof, src) => .done (.io .eof) (writeBuffered dst store woff).2 src
  | (_, some e, src) => .done (.io e) dst src
  | (bs, none, src) =>
    let store := overwrite store (size - headerSize) bs
    let hdr := store.drop (size - headerSize)
    let length := uint32 (slice hdr 1 5)
    if length < 4 then .done .negativeLength dst (rewind src hdr)
    else if classify (hdr.getD 0 0) = .boring then forwardBoring size dst src store hdr woff (length - 4)
    else
      match writeBuffered dst store woff with
      | (some e, dst) => .done (.io e) dst src
      | (none, dst) => .done .stop dst (rewind src hdr)

def drainLoop (size : ℕ) : ℕ → Writer UInt8 → σ → List UInt8 → ℕ → Option (SpliceErr × Writer UInt8 × σ)
  | 0, _, _, _, _ => none
  | fuel + 1, dst, src, store, woff =>
    match round size dst src store woff with
    | .done err dst src => some (err, dst, src)
    | .next dst src store woff => drainLoop size fuel dst src store woff

def spliceSize (bufsize : ℤ) : ℕ := if bufsize < headerSize then headerSize else bufsize.toNat

/-- `DrainSplice` with a buffer from the pool. Every round takes at least a header from the source, which bounds the
rounds. -/
def drainSplice (dst : Writer UInt8) (src : σ) (bufsize : ℤ) (store : List UInt8) :
    Option (SpliceErr × Writer UInt8 × σ) :=
  drainLoop (spliceSize bufsize) ((pending src).length + 1) dst src store 0

end Drains

section Rounds

open SpliceReader

variable {σ : Type} [SpliceReader σ] {size woff : ℕ} {store : List UInt8} {src : σ} {m : Message}
  {tail : List UInt8}

theorem endsByEOF_readFull (src : σ) (n : ℕ) (h : endsByEOF src) : endsByEOF (readFull src n).2.2 := by
  refine readFull_keeps (R := fun s t : σ ↦ endsByEOF s → endsByEOF t) (fun _ ↦ id) ?_ ?_ src n h
  · intro s t u hst htu hs
    exact htu (hst hs)
  · exact endsByEOF_read

theorem endsByEOF_copyN (dst : Writer UInt8) (src : σ) (n : ℕ) (h : endsByEOF src) :
    endsByEOF (copyN dst src n).2.2 := by
  refine copyN_keeps (R := fun s t : σ ↦ endsByEOF s → endsByEOF t) (fun _ ↦ id) ?_ ?_ dst src n h
  · intro s t u hst htu hs
    exact htu (hst hs)
  · exact endsByEOF_read

/-- What a round leaves to be done, where it does not end the call. -/
structure Taken (size : ℕ) (src src' : σ) (bytes : List UInt8) (tail : List UInt8) (out' store' : List UInt8)
    (woff' : ℕ) : Prop where
  rest : pending src' = tail
  eof : endsByEOF src → endsByEOF src'
  length : store'.length = size
  room : woff' ≤ size - headerSize
  bytes : out' ++ store'.take woff' = bytes

section

variable (out : List UInt8)

theorem keepMessage_taken (hp : pending src = m.body ++ tail) (hstore : store.length = size) (off : ℕ)
    (hfits : off + m.size ≤ size - headerSize) :
    ∃ src' store', keepMessage ⟨out, none⟩ src store m.header off m.body.length =
        .next ⟨out, none⟩ src' store' (off + m.size) ∧
      Taken size src src' (out ++ store.take off ++ m.encode) tail out store' (off + m.size) := by
  have hlen : m.body.length ≤ (pending src).length := by
    rw [hp, List.length_append]
    omega
  obtain ⟨src', hread, hrest⟩ := readFull_eq src m.body.length hlen
  have heof := endsByEOF_readFull src m.body.length
  have hoff : off ≤ store.length := by omega
  have hstore' := overwrite_overwrite store off m.header m.body hoff
  have hsize : off + m.encode.length ≤ store.length := by
    rw [encode_length]
    omega
  rw [hp, List.take_left] at hread
  rw [hp, List.drop_left] at hrest
  rw [hread] at heof
  refine ⟨src', overwrite store off m.encode, ?_, hrest, heof, ?_, hfits, ?_⟩
  · rw [keepMessage, readBody_eq, hread]
    exact congrArg (Round.next _ src' · _) hstore'
  · rw [overwrite_length store off m.encode hsize, hstore]
  · have htake := take_overwrite store off m.encode hoff
    rw [encode_length] at htake
    rw [htake, List.append_assoc]

theorem copyMessage_taken (hp : pending src = m.body ++ tail) (hstore : store.length = size) :
    ∃ src', copyMessage ⟨out, none⟩ src store m.header m.body.length = .next ⟨out ++ m.encode, none⟩ src' store 0 ∧
      Taken size src src' (out ++ m.encode) tail (out ++ m.encode) store 0 := by
  have hlen : m.body.length ≤ (pending src).length := by
    rw [hp, List.length_append]
    omega
  obtain ⟨src', hcopy, hrest⟩ := copyN_eq (out ++ m.header) src m.body.length hlen
  have heof := endsByEOF_copyN ⟨out ++ m.header, none⟩ src m.body.length
  rw [hp, List.take_left, List.append_assoc] at hcopy
  rw [hp, List.drop_left] at hrest
  rw [hcopy] at heof
  refine ⟨src', ?_, hrest, heof, hstore, Nat.zero_le _, ?_⟩
  · rw [copyMessage, Writer.write_room_none]
    simp only [hcopy]
    rfl
  · rw [List.take_zero, List.append_nil]

section

variable (hp : pending src = m.encode ++ tail)

include hp

section

variable (hstore : store.length = size)

include hstore

section

variable (hsize : headerSize ≤ size)

include hsize

section

variable (hwoff : woff ≤ size - headerSize)

include hwoff

theorem round_header :
    ∃ src' store', pending src' = m.body ++ tail ∧ readFull src headerSize = (m.header, none, src') ∧
      store'.length = size ∧ store'.take woff = store.take woff ∧
      round size ⟨out, none⟩ src store woff =
        if boring m then forwardBoring size ⟨out, none⟩ src' store' m.header woff m.body.length
        else .done .stop ⟨out ++ store.take woff, none⟩ (rewind src' m.header) := by
  have hlen : headerSize ≤ (pending src).length := by
    rw [hp, List.length_append, encode_length, Message.size]
    omega
  obtain ⟨src', hread, hrest⟩ := readFull_eq src headerSize hlen
  have hheader : m.header.length = headerSize := header_length m
  rw [hp, Message.encode, List.append_assoc, List.take_left' hheader] at hread
  rw [hp, Message.encode, List.append_assoc, List.drop_left' hheader] at hrest
  have hoff : size - headerSize ≤ store.length := by omega
  have hend : size - headerSize + m.header.length = size := by
    rw [hheader]
    exact Nat.sub_add_cancel hsize
  have htake := take_overwrite_le store (size - headerSize) woff m.header hoff hwoff
  have hregion : (overwrite store (size - headerSize) m.header).drop (size - headerSize) = m.header := by
    have hbehind : store.drop (size - headerSize + m.header.length) = [] := List.drop_eq_nil_of_le (by omega)
    rw [overwrite, hbehind, List.append_nil]
    exact List.drop_left' (by rw [List.length_take]; omega)
  have hlength : uint32 (slice m.header 1 5) = m.body.length + 4 := header_length_field m
  have htag : m.header.getD 0 0 = m.tag := rfl
  refine ⟨src', overwrite store (size - headerSize) m.header, hrest, hread, ?_, htake, ?_⟩
  · rw [overwrite_length store _ m.header (by omega), hstore]
  · rw [round, hread]
    simp only [hregion, hlength, htag, writeBuffered_eq, htake, Nat.add_sub_cancel, boring, decide_eq_true_eq]
    rw [if_neg (by omega)]

theorem round_boring (hm : boring m = true) :
    ∃ src' out' store' woff', round size ⟨out, none⟩ src store woff = .next ⟨out', none⟩ src' store' woff' ∧
      Taken size src src' (out ++ store.take woff ++ m.encode) tail out' store' woff' := by
  obtain ⟨src₁, store₁, hp₁, hread, hstore₁, htake, hround⟩ := round_header out hp hstore hsize hwoff
  have heof := endsByEOF_readFull src headerSize
  rw [hread] at heof
  rw [if_pos hm, forwardBoring, writeBuffered_eq, htake] at hround
  -- with what is in the buffer, in a buffer of its own, or past the buffer
  by_cases hfits : woff + m.size ≤ size - headerSize
  · obtain ⟨src', store', hkeep, htaken⟩ := keepMessage_taken out hp₁ hstore₁ woff hfits
    rw [htake] at htaken
    refine ⟨src', out, store', woff + m.size, ?_, { htaken with eof := fun h ↦ htaken.eof (heof h) }⟩
    rw [hround, ← hkeep]
    exact if_pos hfits
  · by_cases halone : m.size ≤ size - headerSize
    · obtain ⟨src', store', hkeep, htaken⟩ :=
        keepMessage_taken (out ++ store.take woff) hp₁ hstore₁ 0 (by omega)
      rw [List.take_zero, List.append_nil] at htaken
      refine ⟨src', _, store', 0 + m.size, ?_, { htaken with eof := fun h ↦ htaken.eof (heof h) }⟩
      rw [hround, ← hkeep]
      exact (if_neg hfits).trans (if_pos halone)
    · obtain ⟨src', hcopy, htaken⟩ := copyMessage_taken (out ++ store.take woff) hp₁ hstore₁
      refine ⟨src', _, store₁, 0, ?_, { htaken with eof := fun h ↦ htaken.eof (heof h) }⟩
      rw [hround, ← hcopy]
      exact (if_neg hfits).trans (if_neg halone)

theorem round_stop (hm : boring m = false) :
    ∃ src', round size ⟨out, none⟩ src store woff = .done .stop ⟨out ++ store.take woff, none⟩ src' ∧
      pending src' = m.encode ++ tail := by
  obtain ⟨src₁, store₁, hp₁, hread, -, -, hround⟩ := round_header out hp hstore hsize hwoff
  rw [hm, if_neg Bool.false_ne_true] at hround
  refine ⟨_, hround, ?_⟩
  rw [pending_rewind hread, hp₁, Message.encode, List.append_assoc]

end

end

end

end

end

theorem round_eof (size woff : ℕ) (out store : List UInt8) (hp : pending src = []) (heof : endsByEOF src) :
    ∃ src', round size ⟨out, none⟩ src store woff = .done (.io .eof) ⟨out ++ store.take woff, none⟩ src' ∧
      pending src' = [] := by
  have hread := read_eof src headerSize heof (by decide) hp
  have happend := read_append src headerSize
  rw [hp, List.append_eq_nil_iff] at happend
  have hfull : readFull src headerSize = ([], some .eof, (read src headerSize).2.2) := by
    obtain ⟨got, e, src', hr⟩ : ∃ got e src', read src headerSize = (got, e, src') := ⟨_, _, _, rfl⟩
    rw [hr] at hread happend ⊢
    obtain rfl : e = some .eof := hread
    obtain rfl : got = [] := happend.1
    have hloop : readLoop headerSize headerSize headerSize [] src = ([], some .eof, src') := by
      have hfirst : read src (headerSize - ([] : List UInt8).length) = ([], some .eof, src') := hr
      change readLoop headerSize headerSize (4 + 1) [] src = _
      rw [readLoop, if_neg (by decide), hfirst]
      rfl
    rw [readFull, readAtLeast, hloop]
    rfl
  refine ⟨_, ?_, happend.2⟩
  rw [round, hfull]
  simp only [writeBuffered_eq]

theorem drainLoop_eq (out : List UInt8) (ms : List Message) (fuel : ℕ) (hp : pending src = encodeAll ms)
    (heof : endsByEOF src)
    (hstore : store.length = size) (hsize : headerSize ≤ size) (hwoff : woff ≤ size - headerSize)
    (hfuel : ms.length < fuel) :
    ∃ src', drainLoop size fuel ⟨out, none⟩ src store woff =
        some (if ms.dropWhile boring = [] then .io .eof else .stop,
          ⟨out ++ store.take woff ++ encodeAll (ms.takeWhile boring), none⟩, src') ∧
      pending src' = encodeAll (ms.dropWhile boring) := by
  induction ms generalizing fuel src out store woff with
  | nil =>
    obtain ⟨fuel, rfl⟩ := Nat.exists_eq_add_one.mpr hfuel
    obtain ⟨src', hround, hrest⟩ := round_eof size woff out store hp heof
    refine ⟨src', ?_, hrest⟩
    rw [drainLoop, hround, List.takeWhile_nil, encodeAll_nil, List.append_nil]
    rfl
  | cons m ms ih =>
    obtain ⟨fuel, rfl⟩ := Nat.exists_eq_add_one.mpr (Nat.zero_lt_of_lt hfuel)
    rw [encodeAll_cons] at hp
    cases hm : boring m with
    | true =>
      obtain ⟨src₁, out₁, store₁, woff₁, hround, htaken⟩ := round_boring out hp hstore hsize hwoff hm
      obtain ⟨src', hloop, hrest⟩ := ih out₁ fuel htaken.rest (htaken.eof heof) htaken.length htaken.room
        (by rw [List.length_cons] at hfuel; omega)
      refine ⟨src', ?_, ?_⟩
      · rw [drainLoop, hround]
        simp only [hloop]
        rw [List.dropWhile_cons_of_pos hm, List.takeWhile_cons_of_pos hm, encodeAll_cons, htaken.bytes,
          List.append_assoc _ m.encode]
      · rw [List.dropWhile_cons_of_pos hm, hrest]
    | false =>
      have hneg : ¬boring m = true := by
        rw [hm]
        exact Bool.false_ne_true
      obtain ⟨src', hround, hrest⟩ := round_stop out hp hstore hsize hwoff hm
      refine ⟨src', ?_, ?_⟩
      · rw [drainLoop, hround, List.dropWhile_cons_of_neg hneg, List.takeWhile_cons_of_neg hneg, encodeAll_nil,
          List.append_nil]
        rfl
      · rw [hrest, List.dropWhile_cons_of_neg hneg, encodeAll_cons]

theorem headerSize_le_spliceSize (bufsize : ℤ) : headerSize ≤ spliceSize bufsize := by
  rw [spliceSize]
  split <;> omega

/-- `DrainSplice` writes the boring messages in front and nothing else, and leaves the source in front of the first
other one. -/
theorem drainSplice_exact (src : σ) (ms : List Message) (hp : pending src = encodeAll ms) (heof : endsByEOF src)
    (bufsize : ℤ) (store : List UInt8) (hstore : store.length = spliceSize bufsize) (out : List UInt8) :
    ∃ src', drainSplice ⟨out, none⟩ src bufsize store =
        some (if ms.dropWhile boring = [] then .io .eof else .stop,
          ⟨out ++ encodeAll (ms.takeWhile boring), none⟩, src') ∧
      pending src' = encodeAll (ms.dropWhile boring) := by
  have hfuel : ms.length < (pending src).length + 1 := by
    rw [hp, encodeAll_length]
    exact Nat.lt_succ_of_le (length_le_sizeAll ms)
  obtain ⟨src', hloop, hrest⟩ := drainLoop_eq out ms _ hp heof hstore (headerSize_le_spliceSize bufsize)
    (Nat.zero_le _) hfuel
  refine ⟨src', ?_, hrest⟩
  rw [drainSplice, hloop, List.take_zero, List.append_nil]

end Rounds

section Frontends

variable {m m' : ChunkReaderMirror} {bs : List UInt8}

theorem read_of_readFull (h : readFull m headerSize = (bs, none, m')) : read m headerSize = (bs, none, m') := by
  have hlen : headerSize ≤ (pending m).length := by
    by_contra hlt
    have hsome := readFull_some m headerSize (by omega)
    rw [h] at hsome
    exact hsome rfl
  obtain ⟨-, m₁, hread, -⟩ | ⟨hlt, -⟩ := rawRead_eq m headerSize
  · have hgot : headerSize ≤ (m.rest.take headerSize).length := by
      rw [List.length_take]
      exact Nat.le_min.mpr ⟨Nat.le_refl _, hlen⟩
    have hfirst : read m (headerSize - ([] : List UInt8).length) = (m.rest.take headerSize, none, m₁) := hread
    have hloop : readLoop headerSize headerSize headerSize [] m = (m.rest.take headerSize, none, m₁) := by
      change readLoop headerSize headerSize (4 + 1) [] m = _
      rw [readLoop, if_neg (by decide), hfirst]
      simp only [List.nil_append]
      rw [readLoop, if_pos hgot]
    rw [readFull, readAtLeast, hloop] at h
    simp only [if_pos hgot] at h
    rw [← h]
    exact hread
  · exact absurd hlen (Nat.not_le.mpr hlt)

/-- A `RawReader` takes a header back by moving its read position. -/
instance : SpliceReader ChunkReaderMirror where
  rewind m hdr := { m with window := m.window.back hdr.length }
  endsByEOF m := m.r.ending = .eof
  pending_rewind := by
    intro m m' hdr h
    have hread := read_of_readFull h
    obtain ⟨w, hwindow, hle, hhdr⟩ := next_skip (next_of_read (by decide) hread)
    have hlen : hdr.length = headerSize := by
      rw [hhdr, List.length_take, Window.filled_length]
      exact Nat.min_eq_left hle
    change (m'.window.back hdr.length).filled ++ pending m'.r = hdr ++ (m'.window.filled ++ pending m'.r)
    rw [hwindow, hlen, Window.back_skip w hle, Window.filled_skip, hhdr, ← List.append_assoc, List.take_append_drop]
  endsByEOF_read := by
    intro m k heof
    exact (rawRead_later m k).ending.trans heof
  read_eof := by
    intro m k heof hk hp
    obtain ⟨m', hread, -⟩ := read_short m k (by rw [hp]; exact hk)
    rw [hread]
    have hdry : m.r.pieces = [] := by
      have hrest : pending m.r = [] := (List.append_eq_nil_iff.mp hp).2
      rw [List.eq_nil_iff_forall_not_mem]
      intro p hmem
      exact m.r.nonempty p hmem (List.flatten_eq_nil_iff.mp hrest p hmem)
    change some m.r.fault = _
    rw [Conn.fault, if_neg (by rw [hdry]; simp), heof]

/-- Two rows in front of a `ReadyForQuery`, with room for one of them. -/
theorem drainSplice_exact_rows :
    ∃ src', drainSplice ⟨[], none⟩
        (ChunkReaderMirror.new (atOnce (dataRow 3 (by decide)) [dataRow 4 (by decide), readyIdle])
        8192) 14 (List.replicate 14 0) =
          some (.stop, ⟨encodeAll [dataRow 3 (by decide), dataRow 4 (by decide)], none⟩, src') ∧
      pending src' = encodeAll [readyIdle] := by
  have hp : pending (ChunkReaderMirror.new (atOnce (dataRow 3 (by decide)) [dataRow 4 (by decide), readyIdle]) 8192) =
      encodeAll [dataRow 3 (by decide), dataRow 4 (by decide), readyIdle] := atOnce_pending _ _
  obtain ⟨src', hdrain, hrest⟩ := drainSplice_exact _ _ hp rfl 14 (List.replicate 14 0) rfl []
  exact ⟨src', hdrain, hrest⟩

end Frontends

end PgRouter.Wire.DrainSplice
