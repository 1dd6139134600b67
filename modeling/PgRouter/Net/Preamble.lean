import Mathlib.Data.List.GetD
import PgRouter.Library.Buffered
import PgRouter.Net.Proxy

namespace PgRouter.Net.Preamble

open Client.Protocol Library.Buffered Proxy

open Library.Reads (Conn IoErr readFull readFull_eq readFull_some Reader)

open Library.Reads.Reader (pending)

section Reading

variable {σ : Type} [Reader σ UInt8] [Eager σ]

/-- The loop of `parseProxyV1` over a buffered reader; `room` bytes are left of `MaxProxyV1Line`. -/
def readLine : ℕ → Text → Buffer σ UInt8 → Except ProxyError Text × Buffer σ UInt8
  | 0, _, br => (.error .v1LineTooLong, br)
  | room + 1, lineBuf, br =>
    match br.readByte with
    | (.error _, br) => (.error .v1ReadByte, br)
    | (.ok b, br) => if b = 0x0a then (.ok (lineBuf ++ [b]), br) else readLine room (lineBuf ++ [b]) br

variable (parseIP : Text → Option IP)

def parseProxyV1 (br : Buffer σ UInt8) : Except ProxyError ProxyInfo × Buffer σ UInt8 :=
  match readLine maxProxyV1Line [] br with
  | (.error e, br) => (.error e, br)
  | (.ok lineBuf, br) => (parseProxyV1Line parseIP (trimLineEnd lineBuf), br)

def parseProxyV2 (br : Buffer σ UInt8) : Except ProxyError ProxyInfo × Buffer σ UInt8 :=
  match readFull br 16 with
  | (_, some _, br) => (.error .v2Header, br)
  | (hdr, none, br) =>
    match hdr.drop 12 with
    | [verCmd, famProto, hi, lo] =>
      let addrLen := 256 * hi.toNat + lo.toNat
      if maxProxyV2Addr < addrLen then (.error (.v2AddrTooLarge addrLen), br)
      else
        match readFull br addrLen with
        | (_, some _, br) => (.error .v2AddrBlock, br)
        | (addrBuf, none, br) => (parseProxyV2Block verCmd famProto addrBuf, br)
    | _ => (.error .v2Header, br)

/-- `ReadProxyHeader`: the header, or why there is none, and the buffered reader behind it. -/
def readProxyHeader (r : σ) : Except ProxyError ProxyInfo × Buffer σ UInt8 :=
  match (Buffer.newReader r).peek 12 with
  | (_, some _, br) => (.error .peek, br)
  | (head, none, br) =>
    if head = v2Sig then parseProxyV2 br
    else if head.take 6 = v1Sig then parseProxyV1 parseIP br
    else (.error .noProxyHeader, br)

end Reading

/-- `parsePROXYOrWrap` on a socket from which `early` arrives before the deadline and `late` after it: the
connection for the handler and the reader that it reads from, behind which the deadline is lifted, or none
where the socket has been closed. -/
def parsePROXYOrWrap (parseIP : Text → Option IP) (l : Listener) (c : Proxy.Conn) (early late : Conn UInt8) :
    Option (Proxy.Conn × Buffer (Conn UInt8) UInt8) :=
  match readProxyHeader parseIP early with
  | (.ok info, br) =>
    match info.sourceAddr with
    | some source => some (.proxyConn c source, ⟨br.held, followedBy br.rd late⟩)
    | none => some (.readerConn c, ⟨br.held, followedBy br.rd late⟩)
  | (.error .noProxyHeader, br) =>
    if l.proxyProtocolStrict then none else some (.readerConn c, ⟨br.held, followedBy br.rd late⟩)
  | (.error _, _) => none

section Refinement

variable {σ : Type} [Reader σ UInt8] [Eager σ]

/-- A reader has done what a parser does with the whole stream: the same result and the same rest, or the
same failure. -/
def Agrees {α : Type} (x : Except ProxyError α × Buffer σ UInt8) : Except ProxyError (α × Text) → Prop
  | .ok (a, rest) => x.1 = .ok a ∧ x.2.contents = rest
  | .error e => x.1 = .error e

theorem readLine_agrees (room : ℕ) (lineBuf : Text) (br : Buffer σ UInt8)
    (hroom : room + lineBuf.length = maxProxyV1Line) :
    Agrees (readLine room lineBuf br) (Proxy.readLine lineBuf br.contents) := by
  induction room generalizing lineBuf br with
  | zero =>
    have hfull : maxProxyV1Line ≤ lineBuf.length := by omega
    cases br.contents with
    | nil | cons b rest =>
      rw [Proxy.readLine, if_pos hfull]
      rfl
  | succ room ih =>
    have hless : ¬maxProxyV1Line ≤ lineBuf.length := by omega
    cases hcontents : br.contents with
    | nil =>
      obtain ⟨e, br', hread⟩ := Buffer.readByte_nil hcontents
      rw [Proxy.readLine, if_neg hless, readLine, hread]
      rfl
    | cons b rest =>
      obtain ⟨br', hread, hrest⟩ := Buffer.readByte_cons hcontents
      rw [Proxy.readLine, if_neg hless, readLine, hread]
      by_cases hb : b = 0x0a
      · simp only [if_pos hb]
        exact ⟨rfl, hrest⟩
      · simp only [if_neg hb]
        have hrest' := ih (lineBuf ++ [b]) br' (by rw [List.length_append, List.length_singleton]; omega)
        rwa [hrest] at hrest'

variable (parseIP : Text → Option IP)

theorem parseProxyV1_agrees (br : Buffer σ UInt8) :
    Agrees (parseProxyV1 parseIP br) (Proxy.parseProxyV1 parseIP br.contents) := by
  have hline := readLine_agrees maxProxyV1Line [] br rfl
  unfold parseProxyV1 Proxy.parseProxyV1
  rcases hread : readLine maxProxyV1Line [] br with ⟨_ | lineBuf, br'⟩
  · rcases hstream : Proxy.readLine [] br.contents with e | ⟨line, rest⟩
    · rw [hread, hstream] at hline
      cases hline
      rfl
    · rw [hread, hstream] at hline
      cases hline.1
  · rcases hstream : Proxy.readLine [] br.contents with e | ⟨line, rest⟩
    · rw [hread, hstream] at hline
      cases hline
    · rw [hread, hstream] at hline
      obtain ⟨hsame, hrest⟩ := hline
      cases hsame
      change Agrees (parseProxyV1Line parseIP (trimLineEnd lineBuf), br')
        (parseProxyV1Line parseIP (trimLineEnd lineBuf) >>= fun info ↦ .ok (info, rest))
      cases parseProxyV1Line parseIP (trimLineEnd lineBuf) with
      | error e => rfl
      | ok info => exact ⟨rfl, hrest⟩

theorem readFull_short (br : Buffer σ UInt8) {n : ℕ} (h : br.contents.length < n) :
    ∃ got e br', readFull br n = (got, some e, br') := by
  have hsome := readFull_some br n h
  rcases hread : readFull br n with ⟨got, _ | e, br'⟩
  · rw [hread] at hsome
    exact absurd rfl hsome
  · exact ⟨got, e, br', rfl⟩

theorem parseProxyV2_short {stream : Text} (h : stream.length < 16) :
    Proxy.parseProxyV2 stream = .error .v2Header := by
  have hlength := List.length_drop (l := stream) (i := 12)
  unfold Proxy.parseProxyV2
  split
  · next hdrop =>
    rw [hdrop] at hlength
    simp only [List.length_cons] at hlength
    omega
  · rfl

theorem exists_fixedPart {stream : Text} (h : 16 ≤ stream.length) :
    ∃ verCmd famProto hi lo, stream.drop 12 = verCmd :: famProto :: hi :: lo :: stream.drop 16 := by
  have hlength := List.length_drop (l := stream) (i := 12)
  match hdrop : stream.drop 12 with
  | verCmd :: famProto :: hi :: lo :: rest =>
    have hrest : stream.drop 16 = rest := by
      rw [← List.drop_drop (i := 4) (j := 12), hdrop]
      rfl
    rw [hrest]
    exact ⟨verCmd, famProto, hi, lo, rfl⟩
  | [] | [_] | [_, _] | [_, _, _] =>
    rw [hdrop] at hlength
    simp only [List.length_cons, List.length_nil] at hlength
    omega

theorem parseProxyV2_agrees (br : Buffer σ UInt8) :
    Agrees (parseProxyV2 br) (Proxy.parseProxyV2 br.contents) := by
  by_cases hshort : br.contents.length < 16
  · obtain ⟨got, e, br', hread⟩ := readFull_short br hshort
    rw [parseProxyV2_short hshort, parseProxyV2, hread]
    rfl
  · have hlong : 16 ≤ br.contents.length := Nat.le_of_not_lt hshort
    obtain ⟨verCmd, famProto, hi, lo, hdrop⟩ := exists_fixedPart hlong
    obtain ⟨br₁, hread, hbehind⟩ := readFull_eq br 16 hlong
    have hheader : ((pending br).take 16).drop 12 = [verCmd, famProto, hi, lo] := by
      rw [List.drop_take]
      change (br.contents.drop 12).take 4 = _
      rw [hdrop]
      rfl
    change br₁.contents = br.contents.drop 16 at hbehind
    unfold parseProxyV2 Proxy.parseProxyV2
    simp only [hread, hheader, hdrop]
    by_cases hlarge : maxProxyV2Addr < 256 * hi.toNat + lo.toNat
    · simp only [if_pos hlarge]
      rfl
    · simp only [if_neg hlarge]
      by_cases hblock : (br.contents.drop 16).length < 256 * hi.toNat + lo.toNat
      · obtain ⟨got, e, br₂, hread₂⟩ := readFull_short br₁ (hbehind ▸ hblock)
        simp only [hread₂, if_pos hblock]
        rfl
      · obtain ⟨br₂, hread₂, hbehind₂⟩ := readFull_eq br₁ (256 * hi.toNat + lo.toNat) (by
          change _ ≤ br₁.contents.length
          rw [hbehind]
          exact Nat.le_of_not_lt hblock)
        change br₂.contents = br₁.contents.drop _ at hbehind₂
        simp only [hread₂, if_neg hblock]
        change Agrees (parseProxyV2Block verCmd famProto (br₁.contents.take _), br₂) _
        rw [hbehind] at hbehind₂ ⊢
        cases parseProxyV2Block verCmd famProto ((br.contents.drop 16).take (256 * hi.toNat + lo.toNat)) with
        | error e => rfl
        | ok info => exact ⟨rfl, hbehind₂⟩

/-- Whatever the pieces in which the bytes arrive, the reader finds the header that stands at their
beginning and keeps what follows it. -/
theorem readProxyHeader_agrees (r : σ) :
    Agrees (readProxyHeader parseIP r) (Proxy.readProxyHeader parseIP (pending r)) := by
  have hnew : (Buffer.newReader r : Buffer σ UInt8).contents = pending r := rfl
  unfold readProxyHeader Proxy.readProxyHeader
  by_cases hshort : (pending r).length < 12
  · obtain ⟨got, e, br, hpeek⟩ := (Buffer.newReader r : Buffer σ UInt8).peek_short (n := 12) (by decide) hshort
    rw [if_pos hshort, hpeek]
    rfl
  · obtain ⟨br, hpeek, hsame⟩ := (Buffer.newReader r : Buffer σ UInt8).peek_eq (n := 12) (by decide)
      (Nat.le_of_not_lt hshort)
    rw [hnew] at hpeek hsame
    have hhead : ((pending r).take 12).take 6 = (pending r).take 6 := List.take_take
    rw [if_neg hshort, hpeek]
    simp only [hhead]
    by_cases hv2 : (pending r).take 12 = v2Sig
    · rw [if_pos hv2, if_pos hv2, ← hsame]
      exact parseProxyV2_agrees br
    · rw [if_neg hv2, if_neg hv2]
      by_cases hv1 : (pending r).take 6 = v1Sig
      · rw [if_pos hv1, if_pos hv1, ← hsame]
        exact parseProxyV1_agrees parseIP br
      · rw [if_neg hv1, if_neg hv1]
        rfl

theorem readProxyHeader_bare (r : σ) (hlength : 12 ≤ (pending r).length) (hv2 : (pending r).take 12 ≠ v2Sig)
    (hv1 : (pending r).take 6 ≠ v1Sig) :
    ∃ br, readProxyHeader parseIP r = (.error .noProxyHeader, br) ∧ br.contents = pending r := by
  obtain ⟨br, hpeek, hsame⟩ := (Buffer.newReader r : Buffer σ UInt8).peek_eq (n := 12) (by decide) hlength
  have hhead : ((pending r).take 12).take 6 = (pending r).take 6 := List.take_take
  refine ⟨br, ?_, hsame⟩
  change (Buffer.newReader r).peek 12 = ((pending r).take 12, none, br) at hpeek
  unfold readProxyHeader
  rw [hpeek]
  simp only [hhead]
  rw [if_neg hv2, if_neg hv1]

end Refinement

section Streams

variable {parseIP : Text → Option IP} {stream : Text}

theorem readLine_ne_bare (lineBuf : Text) : Proxy.readLine lineBuf stream ≠ .error .noProxyHeader := by
  induction stream generalizing lineBuf with
  | nil =>
    unfold Proxy.readLine
    split <;> simp
  | cons b stream ih =>
    unfold Proxy.readLine
    split
    · simp
    · split
      · simp
      · exact ih (lineBuf ++ [b])

theorem parseProxyV1Line_ne_bare (line : Text) : parseProxyV1Line parseIP line ≠ .error .noProxyHeader := by
  unfold parseProxyV1Line
  simp only
  split
  · split
    · simp
    · unfold parseProxyV1Fields
      split
      · split <;> simp
      · simp
  · simp

theorem parseProxyV2Block_ne_bare (verCmd famProto : UInt8) (addrBuf : Text) :
    parseProxyV2Block verCmd famProto addrBuf ≠ .error .noProxyHeader := by
  unfold parseProxyV2Block
  simp only
  split
  · simp
  · split
    · simp
    · split
      · simp
      · unfold parseProxyV2Addr
        split
        · simp
        · split <;> simp

theorem parseProxyV1_ne_bare : Proxy.parseProxyV1 parseIP stream ≠ .error .noProxyHeader := by
  intro h
  have hline : Proxy.readLine [] stream ≠ .error .noProxyHeader := readLine_ne_bare []
  unfold Proxy.parseProxyV1 at h
  rcases hread : Proxy.readLine [] stream with e | ⟨lineBuf, rest⟩
  · rw [hread] at h hline
    cases h
    exact hline rfl
  · have hfields : parseProxyV1Line parseIP (trimLineEnd lineBuf) ≠ .error .noProxyHeader :=
      parseProxyV1Line_ne_bare (trimLineEnd lineBuf)
    rw [hread] at h
    change (parseProxyV1Line parseIP (trimLineEnd lineBuf) >>= fun info ↦ .ok (info, rest)) = _ at h
    cases hparse : parseProxyV1Line parseIP (trimLineEnd lineBuf) with
    | error e =>
      rw [hparse] at h hfields
      cases h
      exact hfields rfl
    | ok info =>
      rw [hparse] at h
      cases h

theorem parseProxyV2_ne_bare : Proxy.parseProxyV2 stream ≠ .error .noProxyHeader := by
  unfold Proxy.parseProxyV2
  split
  · simp only
    split
    · simp
    · split
      · simp
      · next verCmd famProto hi lo rest _ _ _ =>
        have hblock := parseProxyV2Block_ne_bare verCmd famProto (rest.take (256 * hi.toNat + lo.toNat))
        cases hparse : parseProxyV2Block verCmd famProto (rest.take (256 * hi.toNat + lo.toNat)) with
        | error e =>
          rw [hparse] at hblock
          intro h
          cases h
          exact hblock rfl
        | ok info =>
          intro h
          cases h
  · simp

theorem readProxyHeader_bare_iff :
    Proxy.readProxyHeader parseIP stream = .error .noProxyHeader ↔
      12 ≤ stream.length ∧ stream.take 12 ≠ v2Sig ∧ stream.take 6 ≠ v1Sig := by
  unfold Proxy.readProxyHeader
  by_cases hshort : stream.length < 12
  · rw [if_pos hshort]
    exact iff_of_false (by rintro ⟨⟩) fun h ↦ absurd h.1 (Nat.not_le_of_gt hshort)
  · rw [if_neg hshort]
    by_cases hv2 : stream.take 12 = v2Sig
    · rw [if_pos hv2]
      exact iff_of_false parseProxyV2_ne_bare fun h ↦ h.2.1 hv2
    · rw [if_neg hv2]
      by_cases hv1 : stream.take 6 = v1Sig
      · rw [if_pos hv1]
        exact iff_of_false parseProxyV1_ne_bare fun h ↦ h.2.2 hv1
      · rw [if_neg hv1]
        exact iff_of_true rfl ⟨Nat.le_of_not_lt hshort, hv2, hv1⟩

/-- The length of the header that a stream begins with: a line up to its line feed, or 16 bytes and as
many as they announce. -/
def preambleLength (stream : Text) : ℕ :=
  if v2Sig.isPrefixOf stream then 16 + (256 * (stream.getD 14 0).toNat + (stream.getD 15 0).toNat)
  else if v1Sig.isPrefixOf stream then (stream.takeWhile (· != 0x0a)).length + 1
  else 0

theorem readLine_ok {lineBuf line rest : Text} (h : Proxy.readLine lineBuf stream = .ok (line, rest)) :
    rest = stream.drop ((stream.takeWhile (· != 0x0a)).length + 1) ∧ 0x0a ∈ stream := by
  induction stream generalizing lineBuf with
  | nil =>
    unfold Proxy.readLine at h
    split at h <;> cases h
  | cons b stream ih =>
    unfold Proxy.readLine at h
    split at h
    · cases h
    · by_cases hb : b = 0x0a
      · rw [if_pos hb] at h
        cases h
        simp [hb]
      · rw [if_neg hb] at h
        obtain ⟨hrest, hmem⟩ := ih h
        refine ⟨?_, List.mem_cons_of_mem b hmem⟩
        rw [hrest]
        simp [hb]

variable {info : ProxyInfo} {rest : Text}

theorem parseProxyV1_ok (h : Proxy.parseProxyV1 parseIP stream = .ok (info, rest)) :
    rest = stream.drop ((stream.takeWhile (· != 0x0a)).length + 1) ∧ 0x0a ∈ stream := by
  unfold Proxy.parseProxyV1 at h
  rcases hread : Proxy.readLine [] stream with e | ⟨lineBuf, rest₁⟩
  · rw [hread] at h
    cases h
  · have hrest := readLine_ok hread
    rw [hread] at h
    change (parseProxyV1Line parseIP (trimLineEnd lineBuf) >>= fun info ↦ .ok (info, rest₁)) = _ at h
    cases hparse : parseProxyV1Line parseIP (trimLineEnd lineBuf) with
    | error e =>
      rw [hparse] at h
      cases h
    | ok info₁ =>
      rw [hparse] at h
      cases h
      exact hrest

theorem parseProxyV2_ok (h : Proxy.parseProxyV2 stream = .ok (info, rest)) :
    16 + (256 * (stream.getD 14 0).toNat + (stream.getD 15 0).toNat) ≤ stream.length ∧
      rest = stream.drop (16 + (256 * (stream.getD 14 0).toNat + (stream.getD 15 0).toNat)) := by
  by_cases hshort : stream.length < 16
  · rw [parseProxyV2_short hshort] at h
    cases h
  · obtain ⟨verCmd, famProto, hi, lo, hdrop⟩ := exists_fixedPart (Nat.le_of_not_lt hshort)
    have hhi : stream.getD 14 0 = hi := by
      have hget : (stream.drop 12)[2]? = some hi := by rw [hdrop]; rfl
      rw [List.getElem?_drop] at hget
      rw [List.getD_eq_getElem?_getD, hget]
      rfl
    have hlo : stream.getD 15 0 = lo := by
      have hget : (stream.drop 12)[3]? = some lo := by rw [hdrop]; rfl
      rw [List.getElem?_drop] at hget
      rw [List.getD_eq_getElem?_getD, hget]
      rfl
    rw [hhi, hlo]
    unfold Proxy.parseProxyV2 at h
    simp only [hdrop] at h
    split at h
    · cases h
    · split at h
      · cases h
      · next hblock =>
        rw [List.length_drop] at hblock
        refine ⟨by omega, ?_⟩
        cases hparse : parseProxyV2Block verCmd famProto ((stream.drop 16).take (256 * hi.toNat + lo.toNat)) with
        | error e =>
          rw [hparse] at h
          cases h
        | ok info₁ =>
          rw [hparse] at h
          cases h
          rw [List.drop_drop]

theorem isPrefixOf_append (sig : Text) (h : sig.length ≤ stream.length) (late : Text) :
    sig.isPrefixOf (stream ++ late) = decide (stream.take sig.length = sig) := by
  rw [Bool.eq_iff_iff, List.isPrefixOf_iff_prefix, decide_eq_true_iff, List.prefix_iff_eq_take,
    List.take_append_of_le_length h, eq_comm]

theorem v2Sig_isPrefixOf (h : 12 ≤ stream.length) (late : Text) :
    v2Sig.isPrefixOf (stream ++ late) = decide (stream.take 12 = v2Sig) :=
  isPrefixOf_append v2Sig h late

theorem v1Sig_isPrefixOf (h : 12 ≤ stream.length) (late : Text) :
    v1Sig.isPrefixOf (stream ++ late) = decide (stream.take 6 = v1Sig) :=
  isPrefixOf_append v1Sig (Nat.le_trans (by decide) h) late

theorem takeWhile_append_of_mem {b : UInt8} (h : b ∈ stream) (late : Text) :
    (stream ++ late).takeWhile (· != b) = stream.takeWhile (· != b) := by
  rw [List.takeWhile_append, if_neg]
  intro hlength
  have hall : stream.takeWhile (· != b) = stream := (List.takeWhile_prefix _).eq_of_length hlength
  have hb := List.takeWhile_eq_self_iff.mp hall b h
  simp at hb

theorem length_takeWhile_lt {b : UInt8} (h : b ∈ stream) : (stream.takeWhile (· != b)).length < stream.length := by
  refine lt_of_le_of_ne (List.takeWhile_prefix _).length_le fun hlength ↦ ?_
  have hall : stream.takeWhile (· != b) = stream := (List.takeWhile_prefix _).eq_of_length hlength
  have hb := List.takeWhile_eq_self_iff.mp hall b h
  simp at hb

theorem readProxyHeader_rest (late : Text)
    (h : Proxy.readProxyHeader parseIP stream = .ok (info, rest)) :
    rest ++ late = (stream ++ late).drop (preambleLength (stream ++ late)) := by
  unfold Proxy.readProxyHeader at h
  by_cases hshort : stream.length < 12
  · rw [if_pos hshort] at h
    cases h
  · rw [if_neg hshort] at h
    have hlong := Nat.le_of_not_lt hshort
    unfold preambleLength
    rw [v2Sig_isPrefixOf hlong, v1Sig_isPrefixOf hlong]
    by_cases hsig₂ : stream.take 12 = v2Sig
    · rw [if_pos hsig₂] at h
      obtain ⟨hle, rfl⟩ := parseProxyV2_ok h
      have hhi : (stream ++ late).getD 14 0 = stream.getD 14 0 := List.getD_append _ _ _ _ (by omega)
      have hlo : (stream ++ late).getD 15 0 = stream.getD 15 0 := List.getD_append _ _ _ _ (by omega)
      rw [if_pos (decide_eq_true hsig₂), hhi, hlo, List.drop_append_of_le_length hle]
    · rw [if_neg hsig₂] at h
      by_cases hsig₁ : stream.take 6 = v1Sig
      · rw [if_pos hsig₁] at h
        obtain ⟨rfl, hmem⟩ := parseProxyV1_ok h
        rw [if_neg (by simpa using hsig₂), if_pos (decide_eq_true hsig₁), takeWhile_append_of_mem hmem,
          List.drop_append_of_le_length (length_takeWhile_lt hmem)]
      · rw [if_neg hsig₁] at h
        cases h

theorem preambleLength_bare (late : Text) (h : Proxy.readProxyHeader parseIP stream = .error .noProxyHeader) :
    preambleLength (stream ++ late) = 0 := by
  obtain ⟨hlong, hsig₂, hsig₁⟩ := readProxyHeader_bare_iff.mp h
  rw [preambleLength, v2Sig_isPrefixOf hlong, v1Sig_isPrefixOf hlong, if_neg (by simpa using hsig₂),
    if_neg (by simpa using hsig₁)]

end Streams

section Connections

variable (parseIP : Text → Option IP) (l : Listener) (c : Proxy.Conn) (early late : Conn UInt8)

theorem contents_lifted (br : Buffer (Conn UInt8) UInt8) :
    (⟨br.held, followedBy br.rd late⟩ : Buffer (Conn UInt8) UInt8).contents = br.contents ++ pending late := by
  rw [Buffer.contents, pending_followedBy, ← List.append_assoc]
  rfl

/-- The connection for the handler, over what the reader will hand out, is the one that the whole stream
gives. -/
theorem parsePROXYOrWrap_refines :
    (parsePROXYOrWrap parseIP l c early late).map (fun wrapped ↦ (wrapped.1, wrapped.2.contents)) =
      (l.parsePROXYOrWrap parseIP c (pending early)).map fun wrapped ↦ (wrapped.1, wrapped.2 ++ pending late) := by
  have hagrees := readProxyHeader_agrees parseIP early
  unfold parsePROXYOrWrap Listener.parsePROXYOrWrap
  cases hstream : Proxy.readProxyHeader parseIP (pending early) with
  | ok header =>
    obtain ⟨info, rest⟩ := header
    rw [hstream] at hagrees
    obtain ⟨hinfo, hrest⟩ := hagrees
    rcases hread : readProxyHeader parseIP early with ⟨_ | info₁, br⟩
    · rw [hread] at hinfo
      cases hinfo
    · rw [hread] at hinfo hrest
      cases hinfo
      cases hsource : info.sourceAddr with
      | none | some source => simp [hsource, contents_lifted, hrest]
  | error e =>
    by_cases hbare : e = .noProxyHeader
    · obtain ⟨hlong, hsig₂, hsig₁⟩ := readProxyHeader_bare_iff.mp (hbare ▸ hstream)
      obtain ⟨br, hread, hsame⟩ := readProxyHeader_bare parseIP early hlong hsig₂ hsig₁
      rw [hread, hbare]
      cases hstrict : l.proxyProtocolStrict with
      | true => simp
      | false => simp [contents_lifted, hsame]
    · rw [hstream] at hagrees
      rcases hread : readProxyHeader parseIP early with ⟨e₁ | info, br⟩
      · rw [hread] at hagrees
        cases hagrees
        cases e <;> first | rfl | exact absurd rfl hbare
      · rw [hread] at hagrees
        cases hagrees

theorem parsePROXYOrWrap_rest {conn : Proxy.Conn} {stream rest : Text} (more : Text)
    (h : l.parsePROXYOrWrap parseIP c stream = some (conn, rest)) :
    rest ++ more = (stream ++ more).drop (preambleLength (stream ++ more)) := by
  unfold Listener.parsePROXYOrWrap at h
  split at h
  · next info rest₁ hstream =>
    have hrest := readProxyHeader_rest more hstream
    split at h <;> (cases h; exact hrest)
  · next hstream =>
    have hlength := preambleLength_bare more hstream
    split at h
    · cases h
    · cases h
      rw [hlength, List.drop_zero]
  · cases h

/-- Where a connection is handed on, it reads what the client has sent without its preamble. -/
theorem parsePROXYOrWrap_reads {conn : Proxy.Conn} {br : Buffer (Conn UInt8) UInt8}
    (h : parsePROXYOrWrap parseIP l c early late = some (conn, br)) :
    ReadsExactly br ((pending early ++ pending late).drop (preambleLength (pending early ++ pending late))) := by
  have hrefines := parsePROXYOrWrap_refines parseIP l c early late
  rw [h, Option.map_some, eq_comm, Option.map_eq_some_iff] at hrefines
  obtain ⟨⟨conn₁, rest⟩, hstream, heq⟩ := hrefines
  have hcontents : rest ++ pending late = br.contents := (Prod.mk.inj heq).2
  rw [← parsePROXYOrWrap_rest parseIP l c (pending late) hstream, hcontents]
  exact readsExactly_pending br

def lax : Listener := ⟨.tcp, true, false, fun _ ↦ rfl⟩

/-- A header of version 1 in three pieces, the last of which goes on with the startup packet. -/
theorem parsePROXYOrWrap_reads_line :
    ∃ conn br, parsePROXYOrWrap (fun _ ↦ none) lax (.tcpConn [10, 0, 0, 1] 5000)
        ⟨[ascii "PROXY UNK", ascii "NOWN\r", ascii "\nab"], .timeout, by decide⟩ ⟨[ascii "c"], .eof, by decide⟩ =
          some (conn, br) ∧ ReadsExactly br (ascii "abc") := by
  refine ⟨_, _, rfl, ?_⟩
  exact parsePROXYOrWrap_reads (fun _ ↦ none) lax (.tcpConn [10, 0, 0, 1] 5000)
    ⟨[ascii "PROXY UNK", ascii "NOWN\r", ascii "\nab"], .timeout, by decide⟩ ⟨[ascii "c"], .eof, by decide⟩ rfl

/-- A client whose first bytes are no header is let through exactly where they are as many as the reader
looks ahead. -/
theorem parsePROXYOrWrap_bare_iff {b : UInt8} {group : Text} (hlax : l.proxyProtocolStrict = false)
    (hgroup : pending early = b :: group) (hb₂ : b ≠ 0x0d) (hb₁ : b ≠ 0x50) :
    (∃ conn br, parsePROXYOrWrap parseIP l c early late = some (conn, br) ∧
      ReadsExactly br (pending early ++ pending late)) ↔ 12 ≤ (pending early).length := by
  constructor
  · intro h
    obtain ⟨conn, br, hparse, -⟩ := h
    by_contra hshort
    have hagrees := parsePROXYOrWrap_refines parseIP l c early late
    have hpeek : Proxy.readProxyHeader parseIP (pending early) = .error .peek := if_pos (Nat.lt_of_not_le hshort)
    rw [hparse, Listener.parsePROXYOrWrap, hpeek] at hagrees
    cases hagrees
  · intro hlong
    have hsig₂ : (pending early).take 12 ≠ v2Sig := by
      rw [hgroup]
      exact fun h ↦ hb₂ (List.cons.inj h).1
    have hsig₁ : (pending early).take 6 ≠ v1Sig := by
      rw [hgroup]
      exact fun h ↦ hb₁ (List.cons.inj h).1
    obtain ⟨br, hread, hsame⟩ := readProxyHeader_bare parseIP early hlong hsig₂ hsig₁
    refine ⟨.readerConn c, ⟨br.held, followedBy br.rd late⟩, ?_, ?_⟩
    · simp [parsePROXYOrWrap, hread, hlax]
    · rw [← hsame, ← contents_lifted]
      exact readsExactly_pending _

/-- A client that asks for TLS sends eight bytes and waits: its connection is closed. -/
theorem parsePROXYOrWrap_sslRequest :
    parsePROXYOrWrap (fun _ ↦ none) lax (.tcpConn [10, 0, 0, 1] 5000)
      ⟨[[0, 0, 0, 8, 4, 0xd2, 0x16, 0x2f]], .timeout, by decide⟩ ⟨[ascii "rest"], .eof, by decide⟩ = none := by
  rfl

/-- A cancel request is long enough. -/
theorem parsePROXYOrWrap_bare_cancel :
    ∃ conn br, parsePROXYOrWrap (fun _ ↦ none) lax (.tcpConn [10, 0, 0, 1] 5000)
        ⟨[[0, 0, 0, 16, 4, 0xd2, 0x16], [0x2e, 1, 2, 3, 4, 5, 6, 7, 8]], .timeout, by decide⟩ ⟨[], .eof, by decide⟩ =
          some (conn, br) ∧ ReadsExactly br [0, 0, 0, 16, 4, 0xd2, 0x16, 0x2e, 1, 2, 3, 4, 5, 6, 7, 8] := by
  exact (parsePROXYOrWrap_bare_iff (fun _ ↦ none) lax (.tcpConn [10, 0, 0, 1] 5000)
    ⟨[[0, 0, 0, 16, 4, 0xd2, 0x16], [0x2e, 1, 2, 3, 4, 5, 6, 7, 8]], .timeout, by decide⟩ ⟨[], .eof, by decide⟩
    rfl rfl (by decide) (by decide)).mpr (by decide)

end Connections

end PgRouter.Net.Preamble
