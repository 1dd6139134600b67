import Mathlib.Algebra.Order.Ring.Nat
import Mathlib.Data.List.Basic

namespace PgRouter.Wire.Framing

def headerSize : ℕ := 5

def uint32 : List UInt8 → ℕ
  | [a, b, c, d] => a.toNat * 2 ^ 24 + b.toNat * 2 ^ 16 + c.toNat * 2 ^ 8 + d.toNat
  | _ => 0

def putUint32 (n : ℕ) : List UInt8 :=
  [UInt8.ofNat (n / 2 ^ 24), UInt8.ofNat (n / 2 ^ 16), UInt8.ofNat (n / 2 ^ 8), UInt8.ofNat n]

theorem uint32_lt (bs : List UInt8) : uint32 bs < 2 ^ 32 := by
  unfold uint32
  split
  · rename_i a b c d
    have ha := a.toNat_lt
    have hb := b.toNat_lt
    have hc := c.toNat_lt
    have hd := d.toNat_lt
    omega
  · decide

theorem uint32_putUint32 (n : ℕ) (h : n < 2 ^ 32) : uint32 (putUint32 n) = n := by
  simp only [putUint32, uint32, UInt8.toNat_ofNat']
  omega

theorem putUint32_uint32 (bs : List UInt8) (h : bs.length = 4) : putUint32 (uint32 bs) = bs := by
  match bs, h with
  | [a, b, c, d], _ =>
    have ha := a.toNat_lt
    have hb := b.toNat_lt
    have hc := c.toNat_lt
    have hd := d.toNat_lt
    simp only [putUint32, uint32, List.cons.injEq, and_true]
    refine ⟨?_, ?_, ?_, ?_⟩ <;> apply UInt8.toNat_inj.mp <;> rw [UInt8.toNat_ofNat'] <;> omega

/-- A message of either direction: its length field counts itself and the body. -/
structure Message where
  tag : UInt8
  body : List UInt8
  fits : body.length + 4 < 2 ^ 32
  deriving DecidableEq

def Message.header (m : Message) : List UInt8 := m.tag :: putUint32 (m.body.length + 4)

def Message.encode (m : Message) : List UInt8 := m.header ++ m.body

def Message.size (m : Message) : ℕ := headerSize + m.body.length

def encodeAll (ms : List Message) : List UInt8 := ms.flatMap Message.encode

def sizeAll (ms : List Message) : ℕ := (ms.map Message.size).sum

variable {bs : List UInt8} (m : Message) (ms : List Message) (rest : List UInt8)

@[simp] theorem header_length : m.header.length = 5 := rfl

@[simp] theorem encode_length : m.encode.length = m.size := by
  rw [Message.encode, List.length_append, header_length, Message.size, headerSize]

theorem header_length_field : uint32 (m.header.tail.take 4) = m.body.length + 4 := uint32_putUint32 _ m.fits

@[simp] theorem encodeAll_nil : encodeAll [] = [] := rfl

@[simp] theorem encodeAll_cons : encodeAll (m :: ms) = m.encode ++ encodeAll ms := rfl

@[simp] theorem encodeAll_append (ns : List Message) :
    encodeAll (ms ++ ns) = encodeAll ms ++ encodeAll ns := List.flatMap_append

@[simp] theorem sizeAll_nil : sizeAll [] = 0 := rfl

@[simp] theorem sizeAll_cons : sizeAll (m :: ms) = m.size + sizeAll ms := by simp [sizeAll]

@[simp] theorem sizeAll_append (ns : List Message) : sizeAll (ms ++ ns) = sizeAll ms + sizeAll ns := by simp [sizeAll]

@[simp] theorem encodeAll_length : (encodeAll ms).length = sizeAll ms := by
  induction ms with
  | nil => rfl
  | cons m ms ih => rw [encodeAll_cons, List.length_append, encode_length, ih, sizeAll_cons]

theorem body_lt (h : 4 ≤ rest.length ∧ 4 ≤ uint32 (rest.take 4) ∧ uint32 (rest.take 4) ≤ rest.length) :
    ((rest.drop 4).take (uint32 (rest.take 4) - 4)).length + 4 < 2 ^ 32 := by
  have hl := uint32_lt (rest.take 4)
  rw [List.length_take, List.length_drop]
  omega

/-- The message a byte string starts with, if it is there in full. -/
def parseMessage (bs : List UInt8) : Option (Message × List UInt8) :=
  match bs with
  | [] => none
  | tag :: rest =>
    if h : 4 ≤ rest.length ∧ 4 ≤ uint32 (rest.take 4) ∧ uint32 (rest.take 4) ≤ rest.length then
      some (⟨tag, (rest.drop 4).take (uint32 (rest.take 4) - 4), body_lt rest h⟩, rest.drop (uint32 (rest.take 4)))
    else none

def framesFuel : ℕ → List UInt8 → List Message
  | 0, _ => []
  | fuel + 1, bs =>
    match parseMessage bs with
    | none => []
    | some (m, rest) => m :: framesFuel fuel rest

def frames (bs : List UInt8) : List Message := framesFuel bs.length bs

theorem parseMessage_some {rest : List UInt8} {m : Message} (h : parseMessage bs = some (m, rest)) :
    bs = m.encode ++ rest := by
  match bs with
  | [] => simp [parseMessage] at h
  | tag :: bs =>
    simp only [parseMessage] at h
    split at h
    · rename_i hl
      obtain ⟨h4, hn, hle⟩ := hl
      simp only [Option.some.injEq, Prod.mk.injEq] at h
      obtain ⟨rfl, rfl⟩ := h
      have hlen : ((bs.drop 4).take (uint32 (bs.take 4) - 4)).length + 4 = uint32 (bs.take 4) := by
        rw [List.length_take, List.length_drop]
        omega
      have hdrop : bs.drop (uint32 (bs.take 4)) = (bs.drop 4).drop (uint32 (bs.take 4) - 4) := by
        rw [List.drop_drop]
        congr 1
        omega
      simp only [Message.encode, Message.header, hlen]
      rw [putUint32_uint32 _ (by rw [List.length_take]; omega), hdrop]
      simp only [List.cons_append, List.append_assoc, List.take_append_drop]
    · simp at h

theorem parseMessage_none (h : parseMessage bs = none) (h5 : 5 ≤ bs.length) :
    uint32 ((bs.drop 1).take 4) < 4 ∨ bs.length < 5 + (uint32 ((bs.drop 1).take 4) - 4) := by
  match bs with
  | [] => simp at h5
  | tag :: bs =>
    simp only [parseMessage] at h
    split at h
    · simp at h
    · rename_i hl
      simp only [List.length_cons] at h5
      rw [List.drop_succ_cons, List.drop_zero, List.length_cons]
      omega

theorem framesFuel_append (fuel : ℕ) (bs : List UInt8) :
    ∃ tail, bs = encodeAll (framesFuel fuel bs) ++ tail := by
  induction fuel generalizing bs with
  | zero => exact ⟨bs, rfl⟩
  | succ fuel ih =>
    unfold framesFuel
    cases hp : parseMessage bs with
    | none => exact ⟨bs, rfl⟩
    | some p =>
      obtain ⟨m, rest⟩ := p
      obtain ⟨tail, ht⟩ := ih rest
      refine ⟨tail, ?_⟩
      rw [parseMessage_some hp, encodeAll_cons, List.append_assoc, ← ht]

theorem parseMessage_length {rest : List UInt8} {m : Message} (h : parseMessage bs = some (m, rest)) :
    bs.length = m.size + rest.length := by
  rw [parseMessage_some h, List.length_append, encode_length]

theorem parseMessage_encode : parseMessage (m.encode ++ rest) = some (m, rest) := by
  have hput : (putUint32 (m.body.length + 4)).length = 4 := rfl
  have htake : (putUint32 (m.body.length + 4) ++ m.body ++ rest).take 4 = putUint32 (m.body.length + 4) := by
    rw [List.append_assoc, List.take_left' hput]
  have hlength := uint32_putUint32 (m.body.length + 4) m.fits
  have hdrop : (putUint32 (m.body.length + 4) ++ m.body ++ rest).drop 4 = m.body ++ rest := by
    rw [List.append_assoc, List.drop_left' hput]
  have hrest : (putUint32 (m.body.length + 4) ++ m.body ++ rest).drop (m.body.length + 4) = rest := by
    rw [List.drop_left' (by rw [List.length_append, hput, Nat.add_comm])]
  have hlen : (putUint32 (m.body.length + 4) ++ m.body ++ rest).length = 4 + m.body.length + rest.length := by
    rw [List.length_append, List.length_append, hput]
  simp only [Message.encode, Message.header, List.cons_append, parseMessage, htake, hlength, hdrop, hrest, hlen,
    Nat.add_sub_cancel, List.take_left]
  rw [dif_pos (by omega)]

theorem framesFuel_enough {fuel : ℕ} (h : bs.length ≤ fuel) : framesFuel fuel bs = frames bs := by
  suffices hfuel : ∀ fuel fuel' (bs : List UInt8), bs.length ≤ fuel → bs.length ≤ fuel' →
      framesFuel fuel bs = framesFuel fuel' bs from hfuel fuel bs.length bs h le_rfl
  intro fuel
  induction fuel with
  | zero =>
    intro fuel' bs h _
    obtain rfl : bs = [] := List.length_eq_zero_iff.mp (by omega)
    cases fuel' <;> rfl
  | succ fuel ih =>
    intro fuel' bs h h'
    cases hp : parseMessage bs with
    | none => cases fuel' <;> simp only [framesFuel, hp]
    | some p =>
      have hlen := parseMessage_length hp
      have hsize : p.1.size = 5 + p.1.body.length := rfl
      obtain ⟨fuel', rfl⟩ := Nat.exists_eq_succ_of_ne_zero (show fuel' ≠ 0 by omega)
      simp only [framesFuel, hp]
      rw [ih fuel' p.2 (by omega) (by omega)]

theorem frames_of_none (h : parseMessage bs = none) : frames bs = [] := by
  unfold frames
  cases bs.length with
  | zero => rfl
  | succ n => simp only [framesFuel, h]

theorem frames_encode : frames (m.encode ++ rest) = m :: frames rest := by
  have hlen : (m.encode ++ rest).length = 5 + m.body.length + rest.length := by
    rw [List.length_append, encode_length, Message.size, headerSize]
  rw [frames, hlen, show 5 + m.body.length + rest.length = (4 + m.body.length + rest.length) + 1 by omega, framesFuel,
    parseMessage_encode]
  simp only [framesFuel_enough (show rest.length ≤ 4 + m.body.length + rest.length by omega)]

theorem frames_encodeAll : frames (encodeAll ms ++ rest) = ms ++ frames rest := by
  induction ms with
  | nil => rfl
  | cons m ms ih => rw [encodeAll_cons, List.append_assoc, frames_encode, ih, List.cons_append]

theorem frames_all : frames (encodeAll ms) = ms := by
  have h := frames_encodeAll ms []
  have hnil : frames [] = [] := rfl
  rwa [List.append_nil, hnil, List.append_nil] at h

/-- A stream is the messages it starts with and a rest that no message starts. -/
theorem frames_split (bs : List UInt8) : ∃ tail, bs = encodeAll (frames bs) ++ tail ∧ parseMessage tail = none := by
  suffices h : ∀ n (bs : List UInt8), bs.length ≤ n →
      ∃ tail, bs = encodeAll (frames bs) ++ tail ∧ parseMessage tail = none from h bs.length bs le_rfl
  intro n
  induction n with
  | zero =>
    intro bs h
    obtain rfl : bs = [] := List.length_eq_zero_iff.mp (by omega)
    exact ⟨[], rfl, rfl⟩
  | succ n ih =>
    intro bs h
    cases hp : parseMessage bs with
    | none => exact ⟨bs, by rw [frames_of_none hp]; rfl, hp⟩
    | some p =>
      have hlen := parseMessage_length hp
      have hsize : p.1.size = 5 + p.1.body.length := rfl
      obtain ⟨tail, htail, hnone⟩ := ih p.2 (by omega)
      have hbs : bs = p.1.encode ++ p.2 := parseMessage_some hp
      refine ⟨tail, ?_, hnone⟩
      rw [hbs, frames_encode, encodeAll_cons, List.append_assoc, ← htail]

end PgRouter.Wire.Framing
