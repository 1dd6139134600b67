import PgRouter.Wire.ChunkReader
import PgRouter.Wire.Forwarding

namespace PgRouter.Wire.Exactness

open Library.Reads Library.Reads.Reader Framing Splice Forwarding ChunkReader

section

variable {σ : Type} [Reader σ UInt8]

variable {store : List UInt8} {acc : List Message} {len : ℕ} (out : List UInt8) (ms : List Message) (src : σ)
  (buf : Buffer)

theorem forwardLoop_panicked (h : Holds len store acc) (fuel : ℕ) (out : List UInt8) (src : σ)
    (res : RawForwardResult) (tail : List UInt8) (hp : pending src = encodeAll ms ++ tail) (hfuel : ms.length < fuel)
    (ho : Overruns len store.length acc ms) :
    forwardLoop len fuel ⟨out, none⟩ src store (sizeAll acc) res = .panicked := by
  induction ms generalizing store acc fuel out src res with
  | nil =>
    obtain ⟨fuel, rfl⟩ := Nat.exists_eq_add_of_lt hfuel
    have hs : store.length < sizeAll acc + headerSize := ho
    simp only [forwardLoop, takeMessage, hs, if_true]
  | cons m ms ih =>
    obtain ⟨fuel, rfl⟩ := Nat.exists_eq_add_one.mpr (Nat.zero_lt_of_lt hfuel)
    rw [encodeAll_cons, List.append_assoc] at hp
    by_cases hs : store.length < sizeAll acc + headerSize
    · simp only [forwardLoop, takeMessage, hs, if_true]
    · by_cases hw : len ≤ sizeAll acc
      · have hlen : 5 ≤ (pending src).length := by
          rw [hp, List.length_append, encode_length, Message.size, headerSize]
          omega
        simp only [forwardLoop, takeMessage_full _ src store _ res hlen hw]
      · have hrest := (ho.resolve_left hs).resolve_left hw
        rw [headerSize] at hs
        obtain ⟨src', store', out', hp', hlen, hh, ht, -⟩ :=
          takeMessage_waiting h out src res m _ hp (by omega) (by omega)
        simp only [forwardLoop, ht]
        split
        · rename_i hz
          rw [if_pos hz] at hrest
          have hpos := List.length_pos_iff.mpr hrest.2
          have hwait : waiting len acc m = [] := if_neg (by omega)
          rw [hwait, sizeAll_nil, readyForQuery, if_pos (by omega), if_pos (Or.inl (by omega))]
        · rename_i hz
          rw [if_neg hz] at hrest
          rw [if_neg hrest.1]
          simp only [List.length_cons] at hfuel
          exact ih hh fuel _ src' _ hp' (by omega) (hlen ▸ hrest.2)

def finalResult (res : RawForwardResult) (last : Message) : RawForwardResult :=
  if last.tag = tagReadyForQuery then
    { res with txStatus := last.body.headD 0, tag := tagReadyForQuery }
  else { res with copyIn := true, tag := last.tag }

/-- A `ReadyForQuery` with a one-byte body, or a `CopyInResponse`. -/
def EndsForward (m : Message) : Prop :=
  (m.tag = tagReadyForQuery ∧ m.body.length = 1) ∨ m.tag = tagCopyInResponse

theorem forwardLoop_returned (last : Message) (hms : ∀ m ∈ ms, m.tag ≠ tagReadyForQuery ∧ m.tag ≠ tagCopyInResponse)
    (hlast : EndsForward last) (h : Holds len store acc) (fuel : ℕ) (out : List UInt8) (src : σ)
    (res : RawForwardResult) (tail : List UInt8) (hp : pending src = encodeAll (ms ++ [last]) ++ tail)
    (hfuel : ms.length < fuel) (ho : ¬ Overruns len store.length acc (ms ++ [last])) :
    ∃ src', pending src' = tail ∧
      forwardLoop len fuel ⟨out, none⟩ src store (sizeAll acc) res =
        .returned (finalResult res last) none ⟨out ++ emitted len acc (ms ++ [last]), none⟩ src' := by
  obtain ⟨fuel, rfl⟩ := Nat.exists_eq_succ_of_ne_zero (Nat.ne_of_gt (Nat.zero_lt_of_lt hfuel))
  induction ms generalizing store acc fuel out src res with
  | nil =>
    rw [List.nil_append] at hp ho ⊢
    rw [encodeAll_cons, encodeAll_nil, List.append_nil] at hp
    simp only [Overruns, headerSize, not_or] at ho
    obtain ⟨hs, hw, hz⟩ := ho
    obtain ⟨src', store', out', hp', hlen, hh, ht, hem⟩ :=
      takeMessage_waiting h out src res last tail hp (by omega) (by omega)
    refine ⟨src', hp', ?_⟩
    rw [hem []]
    simp only [forwardLoop, ht]
    rcases hlast with ⟨htag, hbody⟩ | htag
    · rw [if_pos htag] at hz ⊢
      have hfit : sizeAll acc + last.size ≤ len := by
        by_contra hc
        exact hz ⟨by omega, List.length_pos_iff.mp (by omega)⟩
      have hwait : waiting len acc last = acc ++ [last] := if_pos hfit
      rw [hwait] at hh ⊢
      have hle := hh.acc_le
      have hpos : 1 ≤ sizeAll (acc ++ [last]) := by
        simp only [sizeAll_append, sizeAll_cons, Message.size, headerSize]
        omega
      rw [readyForQuery, hbody, if_pos (Nat.le_refl 1), if_neg (by omega), finish_eq hh,
        hh.status hbody, finalResult, if_pos htag, List.append_assoc]
      rfl
    · have hne : ¬ last.tag = tagReadyForQuery := by rw [htag]; decide
      rw [if_neg hne, if_pos htag, finish_eq hh, finalResult, if_neg hne, List.append_assoc]
      rfl
  | cons m ms ih =>
    obtain ⟨hz, hg⟩ := hms m List.mem_cons_self
    rw [List.cons_append] at hp ho ⊢
    rw [encodeAll_cons, List.append_assoc] at hp
    simp only [Overruns, headerSize, not_or, if_neg hz, not_and] at ho
    obtain ⟨hs, hw, hrest⟩ := ho
    obtain ⟨src', store', out', hp', hlen, hh, ht, hem⟩ :=
      takeMessage_waiting h out src res m _ hp (by omega) (by omega)
    simp only [List.length_cons] at hfuel
    obtain ⟨fuel, rfl⟩ := Nat.exists_eq_succ_of_ne_zero (show fuel ≠ 0 by omega)
    obtain ⟨src'', hp'', hl⟩ := ih (fun m' hm' ↦ hms m' (List.mem_cons_of_mem m hm')) hh
      (out ++ out') src' { res with tag := m.tag } hp' (hlen ▸ hrest hg) fuel (by omega)
    refine ⟨src'', hp'', ?_⟩
    rw [forwardLoop, ht]
    simp only [hz, hg, if_false]
    rw [hl, hem, List.append_assoc]
    rfl

theorem emitted_eq_iff (len : ℕ) (acc ms : List Message) :
    emitted len acc ms = encodeAll acc ++ encodeAll ms ↔ HeadersKept len acc ms := by
  induction ms generalizing acc with
  | nil => simp [emitted, HeadersKept]
  | cons m ms ih =>
    rw [HeadersKept, emitted, encodeAll_cons]
    split
    · rename_i hfit
      have hw : waiting len acc m = acc ++ [m] := if_pos hfit
      have hn : ¬ len < sizeAll acc + m.size := by omega
      rw [hw, ← ih, encodeAll_append]
      simp [hn]
    · rename_i hfit
      have hw : waiting len acc m = [] := if_neg hfit
      have hn : len < sizeAll acc + m.size := by omega
      rw [hw, ← ih, Message.encode, encodeAll_nil, List.nil_append]
      simp only [List.append_assoc, List.append_cancel_left_eq, hn, forall_const]
      constructor
      · intro he
        obtain ⟨h₁, h₂⟩ := List.append_inj he (by simp)
        exact ⟨h₁, List.append_cancel_left h₂⟩
      · rintro ⟨h₁, h₂⟩
        rw [h₁, h₂]

theorem length_le_sizeAll : ms.length ≤ sizeAll ms := by
  induction ms with
  | nil => exact Nat.zero_le _
  | cons m ms ih =>
    rw [List.length_cons, sizeAll_cons, Message.size, headerSize]
    omega

theorem holds_nil : Holds buf.len buf.store [] := ⟨buf.len_le, Nat.zero_le _, rfl⟩

theorem rawForwardAll_panicked (ms : List Message) (tail : List UInt8) (hp : pending src = encodeAll ms ++ tail)
    (ho : Overruns (workBuffer buf).len (workBuffer buf).store.length [] ms) :
    rawForwardAll ⟨out, none⟩ src buf = .panicked := by
  refine forwardLoop_panicked ms (holds_nil _) _ out src {} tail hp ?_ ho
  have h := length_le_sizeAll ms
  rw [hp, List.length_append, encodeAll_length]
  omega

theorem rawForwardAll_returned (hbuf : 5 ≤ buf.len) (ms : List Message) (last : Message)
    (hms : ∀ m ∈ ms, m.tag ≠ tagReadyForQuery ∧ m.tag ≠ tagCopyInResponse) (hlast : EndsForward last)
    (tail : List UInt8) (hp : pending src = encodeAll (ms ++ [last]) ++ tail)
    (ho : ¬ Overruns buf.len buf.store.length [] (ms ++ [last])) :
    ∃ src', pending src' = tail ∧ rawForwardAll ⟨out, none⟩ src buf =
      .returned (finalResult {} last) none ⟨out ++ emitted buf.len [] (ms ++ [last]), none⟩ src' := by
  have hwork : workBuffer buf = buf := if_neg (by rw [headerSize]; omega)
  rw [rawForwardAll, hwork]
  refine forwardLoop_returned ms last hms hlast (holds_nil buf) _ out src {} tail hp ?_ ho
  have h := length_le_sizeAll (ms ++ [last])
  rw [hp, List.length_append, encodeAll_length]
  rw [List.length_append] at h
  omega

/-- If the call returns, the sink has got exactly the messages, the source stands behind the last
of them, and the result tells which one that was. -/
def ForwardsExactly (out : List UInt8) (src : σ) (buf : Buffer) (ms : List Message)
    (last : Message) (tail : List UInt8) : Prop :=
  ∀ res err dst src', rawForwardAll ⟨out, none⟩ src buf = .returned res err dst src' →
    dst.out = out ++ encodeAll (ms ++ [last]) ∧ pending src' = tail ∧ res.tag = last.tag ∧
      (res.copyIn = true ↔ last.tag = tagCopyInResponse) ∧
      (last.tag = tagReadyForQuery → last.body = [res.txStatus])

theorem finalResult_spec (last : Message) (hlast : EndsForward last) :
    (finalResult {} last).tag = last.tag ∧
      ((finalResult {} last).copyIn = true ↔ last.tag = tagCopyInResponse) ∧
      (last.tag = tagReadyForQuery → last.body = [(finalResult {} last).txStatus]) := by
  rcases hlast with ⟨htag, hbody⟩ | htag
  · obtain ⟨b, hb⟩ := List.length_eq_one_iff.mp hbody
    have hne : tagReadyForQuery ≠ tagCopyInResponse := by decide
    simp [finalResult, htag, hb, hne]
  · have hne : last.tag ≠ tagReadyForQuery := by rw [htag]; decide
    simp [finalResult, htag, show tagCopyInResponse ≠ tagReadyForQuery by decide]

/-- Forwarding is byte exact unless a message that does not fit behind others has
a header different from the first of them. Where the loop leaves its buffer it never returns. -/
theorem rawForwardAll_exact_iff (out : List UInt8) (src : σ) (buf : Buffer) (hbuf : 5 ≤ buf.len)
    (ms : List Message) (last : Message)
    (hms : ∀ m ∈ ms, m.tag ≠ tagReadyForQuery ∧ m.tag ≠ tagCopyInResponse)
    (hlast : EndsForward last) (tail : List UInt8)
    (hp : pending src = encodeAll (ms ++ [last]) ++ tail) :
    ForwardsExactly out src buf ms last tail ↔
      (Overruns buf.len buf.store.length [] (ms ++ [last]) ∨
        HeadersKept buf.len [] (ms ++ [last])) := by
  by_cases ho : Overruns buf.len buf.store.length [] (ms ++ [last])
  · have hwork : workBuffer buf = buf := if_neg (by rw [headerSize]; omega)
    have hpanic := rawForwardAll_panicked out src buf (ms ++ [last]) tail hp (by rwa [hwork])
    refine ⟨fun _ ↦ Or.inl ho, fun _ res err dst src' hr ↦ ?_⟩
    rw [hpanic] at hr
    cases hr
  · obtain ⟨src', hp', hret⟩ :=
      rawForwardAll_returned out src buf hbuf ms last hms hlast tail hp ho
    have hem := emitted_eq_iff buf.len [] (ms ++ [last])
    rw [encodeAll_nil, List.nil_append] at hem
    constructor
    · intro h
      obtain ⟨hout, -⟩ := h _ _ _ _ hret
      exact Or.inr (hem.mp (List.append_cancel_left hout))
    · rintro (h | h) res err dst src'' hr
      · exact absurd h ho
      · rw [hret] at hr
        cases hr
        refine ⟨?_, hp', finalResult_spec last hlast⟩
        simp only [hem.mpr h]

end

def dataRow (n : ℕ) (h : n + 4 < 2 ^ 32) : Message :=
  ⟨0x44, List.replicate n 0, by rwa [List.length_replicate]⟩

def readyIdle : Message := ⟨tagReadyForQuery, [0x49], by decide⟩

def atOnce (m : Message) (ms : List Message) : Conn UInt8 :=
  ⟨[encodeAll (m :: ms)], .eof, by simp [Message.encode, Message.header]⟩

def spliceBuf : Buffer := Buffer.full (List.replicate (8 * 1024) 0)

theorem spliceBuf_len : spliceBuf.len = 8192 := List.length_replicate

theorem spliceBuf_cap : spliceBuf.store.length = 8192 := List.length_replicate

theorem atOnce_pending (m : Message) (ms : List Message) :
    pending (atOnce m ms) = encodeAll (m :: ms) ++ [] := rfl

theorem rawForwardAll_exact_small :
    ForwardsExactly [] (ChunkReaderMirror.new (atOnce (dataRow 3 (by decide)) [readyIdle]) 8192)
      spliceBuf [dataRow 3 (by decide)] readyIdle [] :=
  (rawForwardAll_exact_iff [] _ spliceBuf (by rw [spliceBuf_len]; decide) [dataRow 3 (by decide)]
    readyIdle (by decide) (Or.inl ⟨rfl, rfl⟩) [] rfl).mpr
      (Or.inr (by rw [spliceBuf_len]; decide))

theorem dataRow_size (n : ℕ) (h : n + 4 < 2 ^ 32) : (dataRow n h).size = n + 5 := by
  rw [Message.size, dataRow, List.length_replicate, headerSize, Nat.add_comm]

theorem dataRow_tag (n : ℕ) (h : n + 4 < 2 ^ 32) : (dataRow n h).tag = 0x44 := rfl

theorem dataRow_header (n : ℕ) (h : n + 4 < 2 ^ 32) :
    (dataRow n h).header = 0x44 :: putUint32 (n + 4) := by
  rw [Message.header, dataRow, List.length_replicate]

theorem not_forwardsExactly_dataRow (n k : ℕ) (hn : n + 4 < 2 ^ 32) (hk : k + 4 < 2 ^ 32)
    (hfits : n + 10 ≤ 8192) (hover : 8192 < n + k + 10)
    (hne : putUint32 (n + 4) ≠ putUint32 (k + 4)) :
    ¬ ForwardsExactly [] (atOnce (dataRow n hn) [dataRow k hk, readyIdle])
      spliceBuf [dataRow n hn, dataRow k hk] readyIdle [] := by
  intro h
  have hz : readyIdle.tag = tagReadyForQuery := rfl
  have hrow : (0x44 : UInt8) ≠ tagReadyForQuery ∧ (0x44 : UInt8) ≠ tagCopyInResponse := by decide
  have hsize : readyIdle.size = 6 := rfl
  have hfirst : waiting 8192 [] (dataRow n hn) = [dataRow n hn] :=
    if_pos (by rw [sizeAll_nil, dataRow_size]; omega)
  have hsecond : waiting 8192 [dataRow n hn] (dataRow k hk) = [] :=
    if_neg (by rw [sizeAll_cons, sizeAll_nil, dataRow_size, dataRow_size]; omega)
  obtain ⟨src', -, hret⟩ := rawForwardAll_returned []
    (atOnce (dataRow n hn) [dataRow k hk, readyIdle]) spliceBuf
    (by rw [spliceBuf_len]; decide) [dataRow n hn, dataRow k hk] readyIdle
    (by simpa [dataRow_tag] using hrow) (Or.inl ⟨rfl, rfl⟩) [] (atOnce_pending _ _)
    (by
      rw [spliceBuf_len, spliceBuf_cap]
      simp only [Overruns, List.cons_append, List.nil_append, hfirst, hsecond, dataRow_tag,
        dataRow_size, hz, hrow, hsize, headerSize, sizeAll_cons, sizeAll_nil, if_true, if_false]
      omega)
  have hem := (emitted_eq_iff _ _ _).mp (h _ _ _ _ hret).1
  rw [spliceBuf_len] at hem
  simp only [HeadersKept, List.cons_append, hfirst, sizeAll_cons, sizeAll_nil, dataRow_size,
    List.headD_cons, dataRow_header, List.cons.injEq, true_and] at hem
  exact hne (hem.2.1 (by omega))

/-- Two rows of 5005 and 4005 bytes: the second goes out under the header of the first. -/
theorem rawForwardAll_wrong_header :
    ¬ ForwardsExactly [] (atOnce (dataRow 5000 (by decide)) [dataRow 4000 (by decide), readyIdle])
      spliceBuf [dataRow 5000 (by decide), dataRow 4000 (by decide)] readyIdle [] :=
  not_forwardsExactly_dataRow 5000 4000 (by decide) (by decide) (by decide) (by decide) (by decide)

end PgRouter.Wire.Exactness
