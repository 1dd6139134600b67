import PgRouter.Net.Proxy

namespace PgRouter.Net.Proxy

open Client.Protocol Library.Texts

/-- How `net.IP` holds an address of version 4 in 16 bytes. -/
def v4InV6Prefix : IP := List.replicate 10 0 ++ [0xff, 0xff]

def OfFamily (family : Text) (ip : IP) : Prop :=
  (family = ascii "TCP4" ∧ (ip.length = 4 ∨ ip.length = 16 ∧ v4InV6Prefix <+: ip)) ∨
    (family = ascii "TCP6" ∧ ip.length = 16)

/-- An address with an IP of the family and a port. -/
def TCPAddr.Sound (family : Text) (a : TCPAddr) : Prop :=
  (∃ ip, a.ip = some ip ∧ OfFamily family ip) ∧ 0 ≤ a.port ∧ a.port ≤ 65535

def ProxyInfo.Sound (info : ProxyInfo) : Prop :=
  (∃ a, info.sourceAddr = some a ∧ a.Sound info.family) ∧ ∃ a, info.destAddr = some a ∧ a.Sound info.family

/-- The fields of the line of version 1 that a stream begins with. -/
def lineFields (stream : Text) : Option (List Text) :=
  if 12 ≤ stream.length ∧ stream.take 6 = v1Sig then
    match cut 0x0a stream with
    | some (line, _) => if line.length < maxProxyV1Line then some ((trimLineEnd line).splitOn 0x20) else none
    | none => none
  else none

/-- A line of version 1 declares an address of a client and one of the server. -/
structure Declares (stream family srcIP dstIP : Text) (src dst : ℤ) : Prop where
  fields : ∃ word srcPort dstPort, lineFields stream = some [word, family, srcIP, dstIP, srcPort, dstPort] ∧
    atoi srcPort = some src ∧ atoi dstPort = some dst
  known : family ≠ ascii "UNKNOWN"

section Lines

variable {stream lineBuf line rest : Text}

theorem readLine_append (hline : 0x0a ∉ line) (h : (lineBuf ++ line).length < maxProxyV1Line) :
    readLine lineBuf (line ++ 0x0a :: rest) = .ok (lineBuf ++ line ++ [0x0a], rest) := by
  induction line generalizing lineBuf with
  | nil =>
    rw [List.append_nil] at h ⊢
    rw [List.nil_append, readLine, if_neg (Nat.not_le_of_lt h), if_pos rfl]
  | cons b line ih =>
    rw [List.mem_cons, not_or] at hline
    have hroom : lineBuf.length < maxProxyV1Line := by
      rw [List.length_append] at h
      omega
    rw [List.append_cons lineBuf b line] at h ⊢
    rw [List.cons_append, readLine, if_neg (Nat.not_le_of_lt hroom), if_neg (Ne.symm hline.1), ih hline.2 h]

theorem cut_of_readLine {lineEnd : Text} (h : readLine lineBuf stream = .ok (lineEnd, rest)) :
    ∃ line, cut 0x0a stream = some (line, rest) ∧ (lineBuf ++ line).length < maxProxyV1Line ∧
      lineEnd = lineBuf ++ line ++ [0x0a] := by
  induction stream generalizing lineBuf with
  | nil =>
    rw [readLine] at h
    split at h <;> cases h
  | cons b stream ih =>
    rw [readLine] at h
    split at h
    · cases h
    case isFalse hroom =>
      by_cases hb : b = 0x0a
      · rw [if_pos hb] at h
        cases h
        subst hb
        exact ⟨[], cut_append rest List.not_mem_nil, by simpa using hroom, by simp⟩
      · rw [if_neg hb] at h
        obtain ⟨line, hcut, hlen, rfl⟩ := ih h
        obtain ⟨rfl, hline⟩ := cut_spec hcut
        refine ⟨b :: line, ?_, by simpa using hlen, by simp⟩
        have hcons : 0x0a ∉ b :: line := by
          rw [List.mem_cons, not_or]
          exact ⟨Ne.symm hb, hline⟩
        exact cut_append rest hcons

theorem trimLineEnd_newline (line : Text) : trimLineEnd (line ++ [0x0a]) = trimLineEnd line := by
  simp [trimLineEnd]

end Lines

section Headers

variable {parseIP : Text → Option IP} {stream : Text}

theorem Declares.readProxyHeader {family srcIP dstIP : Text} {src dst : ℤ}
    (h : Declares stream family srcIP dstIP src dst)
    (parseIP : Text → Option IP) :
    ∃ bytes rest, readProxyHeader parseIP stream =
      .ok (⟨1, family, some ⟨parseIP srcIP, src⟩, some ⟨parseIP dstIP, dst⟩, bytes⟩, rest) := by
  obtain ⟨⟨word, srcPort, dstPort, hfields, hsrc, hdst⟩, hknown⟩ := h
  rw [lineFields] at hfields
  split at hfields
  case isFalse => cases hfields
  case isTrue hstart =>
    cases hcut : cut 0x0a stream with
    | none => simp [hcut] at hfields
    | some p =>
      obtain ⟨line, rest⟩ := p
      simp only [hcut] at hfields
      split at hfields
      case isFalse => cases hfields
      case isTrue hlen =>
        obtain ⟨hstream, hline⟩ := cut_spec hcut
        have hread : readLine [] stream = .ok (line ++ [0x0a], rest) := by
          rw [hstream]
          exact readLine_append hline hlen
        have hv2 : stream.take 12 ≠ v2Sig := by
          intro hv2
          have htake : (stream.take 12).take 6 = v1Sig := by
            rw [List.take_take]
            exact hstart.2
          rw [hv2] at htake
          cases htake
        refine ⟨(trimLineEnd line).length + 2, rest, ?_⟩
        rw [Proxy.readProxyHeader, if_neg (Nat.not_lt_of_le hstart.1), if_neg hv2, if_pos hstart.2, parseProxyV1, hread]
        simp only [bind, Except.bind, trimLineEnd_newline, parseProxyV1Line, Option.some.inj hfields, if_neg hknown,
          parseProxyV1Fields, hsrc, hdst]
        rfl

theorem uint16_le {b : Text} (h : b.length ≤ 2) : 0 ≤ uint16 b ∧ uint16 b ≤ 65535 := by
  match b with
  | [] => exact ⟨by decide, by decide⟩
  | [x] =>
    have hx := x.toNat_lt
    simp only [uint16, List.foldl]
    omega
  | [x, y] =>
    have hx := x.toNat_lt
    have hy := y.toNat_lt
    simp only [uint16, List.foldl]
    omega
  | _ :: _ :: _ :: _ =>
    simp at h

theorem ofFamily_of_famSpec {famProto : UInt8} {family : Text} {ipLen minBlock : ℕ}
    (h : famSpec famProto = some (family, ipLen, minBlock)) {ip : IP} (hip : ip.length = ipLen) :
    minBlock = 2 * ipLen + 4 ∧ OfFamily family ip := by
  rw [famSpec] at h
  split at h
  · cases h
    exact ⟨rfl, .inl ⟨rfl, .inl hip⟩⟩
  · split at h
    · cases h
      exact ⟨rfl, .inr ⟨rfl, hip⟩⟩
    · cases h

variable {info : ProxyInfo}

/-- What version 2 declares is an address: its families fix the lengths. -/
theorem sound_of_parseProxyV2Block {verCmd famProto : UInt8} {addrBuf : Text}
    (h : parseProxyV2Block verCmd famProto addrBuf = .ok info) (hsource : info.sourceAddr ≠ none) : info.Sound := by
  rw [parseProxyV2Block] at h
  split at h
  · cases h
  · split at h
    · cases h
      exact absurd rfl hsource
    · split at h
      · cases h
      · rw [parseProxyV2Addr] at h
        split at h
        · cases h
          exact absurd rfl hsource
        case h_2 family ipLen minBlock hspec =>
          split at h
          · cases h
          case isFalse hblock =>
            cases h
            have hlen (ip : IP) (hip : ip.length = ipLen) := ofFamily_of_famSpec hspec hip
            obtain ⟨rfl, -⟩ := hlen (List.replicate ipLen 0) List.length_replicate
            refine ⟨⟨_, rfl, ⟨_, rfl, (hlen _ ?_).2⟩, uint16_le (List.length_take_le _ _)⟩,
              ⟨_, rfl, ⟨_, rfl, (hlen _ ?_).2⟩, uint16_le (List.length_take_le _ _)⟩⟩
            · rw [List.length_take]
              omega
            · rw [List.length_take, List.length_drop]
              omega

theorem parseProxyV1Line_source {line : Text} (h : parseProxyV1Line parseIP line = .ok info)
    (hsource : info.sourceAddr ≠ none) :
    ∃ word family srcIP dstIP srcPort dstPort src dst,
      line.splitOn 0x20 = [word, family, srcIP, dstIP, srcPort, dstPort] ∧ family ≠ ascii "UNKNOWN" ∧
      atoi srcPort = some src ∧ atoi dstPort = some dst ∧
      info = ⟨1, family, some ⟨parseIP srcIP, src⟩, some ⟨parseIP dstIP, dst⟩, line.length + 2⟩ := by
  rw [parseProxyV1Line] at h
  simp only at h
  split at h
  case h_2 => cases h
  case h_1 word family fields hsplit =>
    split at h
    · cases h
      exact absurd rfl hsource
    case isFalse hknown =>
      rw [parseProxyV1Fields.eq_def] at h
      split at h
      case h_2 => cases h
      case h_1 srcIP dstIP srcPort dstPort =>
        split at h
        · cases h
        · cases h
        case h_3 src dst hsrc hdst =>
          cases h
          exact ⟨word, family, srcIP, dstIP, srcPort, dstPort, src, dst, hsplit, hknown, hsrc, hdst, rfl⟩

theorem declares_of_parseProxyV1 {rest : Text} (hlength : 12 ≤ stream.length)
    (hv1 : stream.take 6 = v1Sig) (h : parseProxyV1 parseIP stream = .ok (info, rest))
    (hsource : info.sourceAddr ≠ none) :
    ∃ family srcIP dstIP src dst, Declares stream family srcIP dstIP src dst ∧ info.family = family ∧
      info.sourceAddr = some ⟨parseIP srcIP, src⟩ ∧ info.destAddr = some ⟨parseIP dstIP, dst⟩ := by
  rw [parseProxyV1] at h
  cases hread : readLine [] stream with
  | error e =>
    rw [hread] at h
    cases h
  | ok p =>
    obtain ⟨lineEnd, rest₁⟩ := p
    obtain ⟨line, hcut, hlen, rfl⟩ := cut_of_readLine hread
    have hfields : lineFields stream = some ((trimLineEnd line).splitOn 0x20) := by
      rw [lineFields, if_pos ⟨hlength, hv1⟩, hcut]
      exact if_pos hlen
    rw [hread] at h
    simp only [bind, Except.bind, List.nil_append, trimLineEnd_newline] at h
    cases hline : parseProxyV1Line parseIP (trimLineEnd line) with
    | error e =>
      rw [hline] at h
      cases h
    | ok info₁ =>
      rw [hline] at h
      cases h
      obtain ⟨word, family, srcIP, dstIP, srcPort, dstPort, src, dst, hsplit, hknown, hsrc, hdst, rfl⟩ :=
        parseProxyV1Line_source hline hsource
      rw [hsplit] at hfields
      exact ⟨family, srcIP, dstIP, src, dst, ⟨⟨word, srcPort, dstPort, hfields, hsrc, hdst⟩, hknown⟩, rfl, rfl, rfl⟩

theorem readProxyHeader_source {rest : Text} (h : readProxyHeader parseIP stream = .ok (info, rest))
    (hsource : info.sourceAddr ≠ none) :
    info.Sound ∨ ∃ family srcIP dstIP src dst, Declares stream family srcIP dstIP src dst ∧ info.family = family ∧
      info.sourceAddr = some ⟨parseIP srcIP, src⟩ ∧ info.destAddr = some ⟨parseIP dstIP, dst⟩ := by
  rw [readProxyHeader] at h
  split at h
  · cases h
  case isFalse hlength =>
    split at h
    · rw [parseProxyV2] at h
      split at h
      case h_2 => cases h
      case h_1 verCmd famProto hi lo block _ =>
        simp only at h
        split at h
        · cases h
        · split at h
          · cases h
          · cases hblock : parseProxyV2Block verCmd famProto (block.take (256 * hi.toNat + lo.toNat)) with
            | error e =>
              rw [hblock] at h
              cases h
            | ok info₁ =>
              rw [hblock] at h
              cases h
              exact .inl (sound_of_parseProxyV2Block hblock hsource)
    · split at h
      case isTrue hv1 => exact .inr (declares_of_parseProxyV1 (Nat.le_of_not_lt hlength) hv1 h hsource)
      case isFalse => cases h

/-- A header that is accepted carries sound addresses exactly where a line of version 1 names a family and
two addresses of it, and its ports are ports: nothing of this is checked, while version 2 leaves no choice. -/
theorem readProxyHeader_sound_iff (parseIP : Text → Option IP) (stream : Text) :
    (∀ info rest, readProxyHeader parseIP stream = .ok (info, rest) → info.sourceAddr ≠ none → info.Sound) ↔
    ∀ family srcIP dstIP src dst, Declares stream family srcIP dstIP src dst →
      (∃ ip, parseIP srcIP = some ip ∧ OfFamily family ip) ∧ (∃ ip, parseIP dstIP = some ip ∧ OfFamily family ip) ∧
      (0 ≤ src ∧ src ≤ 65535) ∧ 0 ≤ dst ∧ dst ≤ 65535 := by
  constructor
  · intro h family srcIP dstIP src dst hdeclares
    obtain ⟨bytes, rest, hread⟩ := hdeclares.readProxyHeader parseIP
    obtain ⟨⟨a, ha, hip, hport⟩, ⟨a', ha', hip', hport'⟩⟩ := h _ rest hread (Option.some_ne_none _)
    cases ha
    cases ha'
    exact ⟨hip, hip', hport, hport'⟩
  · intro h info rest hread hsource
    obtain hsound | ⟨family, srcIP, dstIP, src, dst, hdeclares, rfl, hsrc, hdst⟩ := readProxyHeader_source hread hsource
    · exact hsound
    · obtain ⟨hip, hip', hport, hport'⟩ := h _ _ _ _ _ hdeclares
      exact ⟨⟨_, hsrc, hip, hport⟩, ⟨_, hdst, hip', hport'⟩⟩

/-- Two texts that are no addresses, and a port that is none. -/
theorem readProxyHeader_unsound : ∃ info,
    readProxyHeader (fun _ ↦ none) (ascii "PROXY TCP4 x y 1 70000\r\n") = .ok (info, []) ∧
      info.sourceAddr = some ⟨none, 1⟩ ∧ info.destAddr = some ⟨none, 70000⟩ ∧ ¬ info.Sound := by
  refine ⟨⟨1, ascii "TCP4", some ⟨none, 1⟩, some ⟨none, 70000⟩, 24⟩, by decide, rfl, rfl, ?_⟩
  rintro ⟨⟨a, ha, ⟨ip, hip, -⟩, -⟩, -⟩
  cases ha
  cases hip

end Headers

end PgRouter.Net.Proxy
