import PgRouter.Wire.Splice

namespace PgRouter.Wire.Forwarding

open Library.Reads Library.Reads.Reader Library.Slices Framing Splice

section

variable {σ : Type} [Reader σ UInt8]

variable (len : ℕ) (out : List UInt8) (dst : Writer UInt8) (src : σ) (n : ℕ) (store : List UInt8) (woff : ℕ)
  (res : RawForwardResult) (m : Message) (tail : List UInt8)

theorem readBody_eq : readBody src n = readFull src n := by
  unfold readBody
  split
  · rfl
  · rename_i h
    obtain rfl : n = 0 := by omega
    rfl

theorem copyBody_eq : copyBody dst src n = copyN dst src n := by
  unfold copyBody
  split
  · rfl
  · rename_i h
    obtain rfl : n = 0 := by omega
    rfl

theorem writeBuffered_eq : writeBuffered ⟨out, none⟩ store woff = (none, ⟨out ++ store.take woff, none⟩) := by
  unfold writeBuffered
  split
  · rfl
  · rename_i h
    obtain rfl : woff = 0 := by omega
    simp

section

variable (hp : pending src = m.encode ++ tail)

include hp

section

variable (hs : woff + 5 ≤ store.length)

include hs

theorem takeMessage_header (hw : woff < len) :
    ∃ src', pending src' = m.body ++ tail ∧
      takeMessage len dst src store woff res =
        if woff + m.size ≤ len then
          forwardFitting dst src' (overwrite store woff m.header) woff m.tag m.body.length res
        else forwardGiant dst src' (overwrite store woff m.header) woff m.tag m.body.length res := by
  have hl : (pending src).length = 5 + m.body.length + tail.length := by
    rw [hp, List.length_append, encode_length, Message.size, headerSize]
  obtain ⟨src', hr, hrest⟩ := readFull_eq src headerSize (by rw [headerSize]; omega)
  rw [hp, Message.encode, List.append_assoc, headerSize,
    List.take_append_of_le_length (by simp), List.take_of_length_le (by simp)] at hr
  rw [hp, Message.encode, List.append_assoc, headerSize, List.drop_left' (header_length m)] at hrest
  refine ⟨src', hrest, ?_⟩
  have htag : (overwrite store woff m.header).getD woff 0 = m.tag :=
    getD_overwrite store woff m.tag _ 0 (by omega)
  have hlen : uint32 (slice (overwrite store woff m.header) (woff + 1) (woff + 5)) =
      m.body.length + 4 := by
    have h := slice_overwrite_tail store woff m.tag (putUint32 (m.body.length + 4)) (by omega)
    rw [Message.header]
    exact (congrArg uint32 h).trans (uint32_putUint32 _ m.fits)
  unfold takeMessage
  simp only [headerSize, hr, htag, hlen, Nat.add_sub_cancel, Message.size]
  rw [if_neg (by omega), if_neg (by omega), if_neg (by omega)]
  rfl

theorem takeMessage_fits (hfit : woff + m.size ≤ len) :
    ∃ src', pending src' = tail ∧ takeMessage len dst src store woff res =
      .message m.tag m.body.length dst src' (overwrite store woff m.encode) (woff + m.size) := by
  have hpos : 0 < m.size := by rw [Message.size, headerSize]; omega
  obtain ⟨src₁, hp₁, ht⟩ := takeMessage_header len dst src store woff res m tail hp hs (by omega)
  obtain ⟨src', hr, hrest⟩ := readFull_eq src₁ m.body.length (by rw [hp₁, List.length_append]; omega)
  rw [hp₁, List.take_left] at hr
  rw [hp₁, List.drop_left] at hrest
  refine ⟨src', hrest, ?_⟩
  have ho := overwrite_overwrite store woff m.header m.body (by omega)
  rw [header_length] at ho
  rw [ht, if_pos hfit, forwardFitting, readBody_eq, hr, Message.encode]
  simp only [headerSize, ho, Message.size]

theorem takeMessage_giant (hw : woff < len)
    (hfit : len < woff + m.size) :
    ∃ src', pending src' = tail ∧ takeMessage len ⟨out, none⟩ src store woff res =
      .message m.tag m.body.length
        ⟨out ++ (store.take woff ++ (overwrite store woff m.header).take 5 ++ m.body), none⟩ src'
        (overwrite store woff m.header) 0 := by
  obtain ⟨src₁, hp₁, ht⟩ := takeMessage_header len ⟨out, none⟩ src store woff res m tail hp hs hw
  obtain ⟨src', hc, hrest⟩ := copyN_eq (out ++ store.take woff ++
    (overwrite store woff m.header).take 5) src₁ m.body.length (by rw [hp₁, List.length_append]; omega)
  rw [hp₁, List.take_left] at hc
  rw [hp₁, List.drop_left] at hrest
  refine ⟨src', hrest, ?_⟩
  rw [ht, if_neg (by omega)]
  unfold forwardGiant
  rw [writeBuffered_eq, take_overwrite_le store woff woff m.header (by omega) (Nat.le_refl _)]
  simp only [headerSize, Writer.write_room_none, copyBody_eq, hc]
  simp only [List.append_assoc]

end

end

end

/-- The messages that wait in a buffer of length `len` once `m` has been taken in
behind those in `acc`. One that does not fit leaves the buffer empty. -/
def waiting (len : ℕ) (acc : List Message) (m : Message) : List Message :=
  if sizeAll acc + m.size ≤ len then acc ++ [m] else []

/-- Behind the messages in `acc` the buffer has no room for the next header, or a
`ReadyForQuery` with a status does not fit into it. -/
def Overruns (len cap : ℕ) : List Message → List Message → Prop
  | acc, [] => cap < sizeAll acc + headerSize
  | acc, m :: ms =>
    cap < sizeAll acc + headerSize ∨ len ≤ sizeAll acc ∨
      if m.tag = tagReadyForQuery then len < sizeAll acc + m.size ∧ m.body ≠ []
      else m.tag ≠ tagCopyInResponse ∧ Overruns len cap (waiting len acc m) ms

/-- Every message that does not fit behind others has the header of the first of them. -/
def HeadersKept (len : ℕ) : List Message → List Message → Prop
  | _, [] => True
  | acc, m :: ms =>
    (len < sizeAll acc + m.size → (acc.headD m).header = m.header) ∧
      HeadersKept len (waiting len acc m) ms

/-- What is written for the messages in `acc` and those that follow. -/
def emitted (len : ℕ) : List Message → List Message → List UInt8
  | acc, [] => encodeAll acc
  | acc, m :: ms =>
    if sizeAll acc + m.size ≤ len then emitted len (acc ++ [m]) ms
    else encodeAll acc ++ (acc.headD m).header ++ m.body ++ emitted len [] ms

instance decidableOverruns (len cap : ℕ) :
    (acc ms : List Message) → Decidable (Overruns len cap acc ms)
  | acc, [] => inferInstanceAs (Decidable (cap < sizeAll acc + headerSize))
  | acc, m :: ms =>
    have := decidableOverruns len cap (waiting len acc m) ms
    inferInstanceAs (Decidable (cap < sizeAll acc + headerSize ∨ len ≤ sizeAll acc ∨
      if m.tag = tagReadyForQuery then len < sizeAll acc + m.size ∧ m.body ≠ []
      else m.tag ≠ tagCopyInResponse ∧ Overruns len cap (waiting len acc m) ms))

instance decidableHeadersKept (len : ℕ) :
    (acc ms : List Message) → Decidable (HeadersKept len acc ms)
  | _, [] => inferInstanceAs (Decidable True)
  | acc, m :: ms =>
    have := decidableHeadersKept len (waiting len acc m) ms
    inferInstanceAs (Decidable ((len < sizeAll acc + m.size → (acc.headD m).header = m.header) ∧
      HeadersKept len (waiting len acc m) ms))

section

variable {σ : Type} [Reader σ UInt8]

/-- The buffer holds the messages in `acc` and nothing else before its write offset. -/
structure Holds (len : ℕ) (store : List UInt8) (acc : List Message) : Prop where
  len_le : len ≤ store.length
  acc_le : sizeAll acc ≤ len
  content : store.take (sizeAll acc) = encodeAll acc

variable {store : List UInt8} {acc : List Message} {len : ℕ}

theorem Holds.header (h : Holds len store acc) (m : Message) :
    (overwrite store (sizeAll acc) m.header).take 5 = (acc.headD m).header := by
  have hle := h.acc_le.trans h.len_le
  cases acc with
  | nil => exact take_overwrite store 0 m.header (Nat.zero_le _)
  | cons a as =>
    have h5 : 5 ≤ sizeAll (a :: as) := by
      rw [sizeAll_cons, Message.size, headerSize]
      omega
    rw [take_overwrite_le _ _ _ _ hle h5, ← Nat.min_eq_left h5, ← List.take_take, h.content,
      encodeAll_cons, Message.encode, List.append_assoc,
      List.take_append_of_le_length (by simp), List.take_of_length_le (by simp)]
    rfl

theorem Holds.status {m : Message} (h : Holds len store (acc ++ [m])) (hb : m.body.length = 1) :
    store.getD (sizeAll (acc ++ [m]) - 1) 0 = m.body.headD 0 := by
  obtain ⟨b, hb⟩ := List.length_eq_one_iff.mp hb
  have hsize : sizeAll (acc ++ [m]) = sizeAll acc + 6 := by simp [Message.size, headerSize, hb]
  have hget : (store.take (sizeAll (acc ++ [m]))).getD (sizeAll acc + 5) 0 = b := by
    rw [h.content, encodeAll_append, encodeAll_cons, encodeAll_nil, List.append_nil,
      Message.encode, hb, ← List.append_assoc, List.getD_eq_getElem?_getD,
      List.getElem?_append_right (by simp)]
    simp
  rw [List.getD_eq_getElem?_getD, List.getElem?_take_of_lt (by omega)] at hget
  rw [hsize, List.getD_eq_getElem?_getD, hb]
  exact hget

theorem takeMessage_waiting (h : Holds len store acc) (out : List UInt8) (src : σ) (res : RawForwardResult)
    (m : Message) (tail : List UInt8) (hp : pending src = m.encode ++ tail) (hs : sizeAll acc + 5 ≤ store.length)
    (hw : sizeAll acc < len) :
    ∃ src' store' out', pending src' = tail ∧ store'.length = store.length ∧
      Holds len store' (waiting len acc m) ∧
      takeMessage len ⟨out, none⟩ src store (sizeAll acc) res =
        .message m.tag m.body.length ⟨out ++ out', none⟩ src' store' (sizeAll (waiting len acc m)) ∧
      ∀ ms, emitted len acc (m :: ms) = out' ++ emitted len (waiting len acc m) ms := by
  by_cases hfit : sizeAll acc + m.size ≤ len
  · obtain ⟨src', hp', ht⟩ :=
      takeMessage_fits len ⟨out, none⟩ src store (sizeAll acc) res m tail hp hs hfit
    have hwait : waiting len acc m = acc ++ [m] := if_pos hfit
    have hsize : sizeAll (acc ++ [m]) = sizeAll acc + m.size := by simp
    have hfits : sizeAll acc + m.encode.length ≤ store.length := by
      rw [encode_length]
      exact hfit.trans h.len_le
    have hlen := overwrite_length store (sizeAll acc) m.encode hfits
    refine ⟨src', _, [], hp', hlen, ?_, ?_, ?_⟩
    · rw [hwait]
      refine ⟨hlen ▸ h.len_le, hsize ▸ hfit, ?_⟩
      have htake := take_overwrite store (sizeAll acc) m.encode (by omega)
      rw [encode_length, h.content] at htake
      rw [hsize, htake, encodeAll_append, encodeAll_cons, encodeAll_nil, List.append_nil]
    · rw [ht, hwait, hsize, List.append_nil]
    · intro ms
      rw [hwait, emitted, if_pos hfit, List.nil_append]
  · obtain ⟨src', hp', ht⟩ :=
      takeMessage_giant len out src store (sizeAll acc) res m tail hp hs hw (by omega)
    have hwait : waiting len acc m = [] := if_neg hfit
    have hlen := overwrite_length store (sizeAll acc) m.header (by rw [header_length]; exact hs)
    refine ⟨src', _, encodeAll acc ++ (acc.headD m).header ++ m.body, hp', hlen, ?_, ?_, ?_⟩
    · rw [hwait]
      exact ⟨hlen ▸ h.len_le, Nat.zero_le _, rfl⟩
    · rw [ht, hwait, h.content, h.header m, sizeAll_nil]
    · intro ms
      rw [hwait, emitted, if_neg hfit]

theorem takeMessage_full (dst : Writer UInt8) (src : σ) (store : List UInt8) (woff : ℕ) (res : RawForwardResult)
    (hp : 5 ≤ (pending src).length) (hw : len ≤ woff) : takeMessage len dst src store woff res = .done .panicked := by
  obtain ⟨src', hr, -⟩ := readFull_eq src 5 hp
  unfold takeMessage
  rw [headerSize, hr]
  simp only [hw, if_true, ite_self]

omit [Reader σ UInt8] in
theorem finish_eq {len : ℕ} {store : List UInt8} {acc : List Message} (h : Holds len store acc)
    (out : List UInt8) (src : σ) (res : RawForwardResult) :
    finish ⟨out, none⟩ src store (sizeAll acc) res =
      .returned res none ⟨out ++ encodeAll acc, none⟩ src := by
  rw [finish, writeBuffered_eq, h.content]

end

end PgRouter.Wire.Forwarding
