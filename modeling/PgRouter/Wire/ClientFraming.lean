import Mathlib.Data.List.SplitLengths
import PgRouter.Wire.ReadSizes

namespace PgRouter.Wire.ClientFraming

open Library.Reads Library.Reads.Reader Library.Slices Library.Windows Framing RawReads ReadSizes

variable (c : Conn UInt8) (rc : RawConn) (ms : List Message) (m : Message) (tail : List UInt8)

theorem readMessage_header (h : rc.rest = m.encode ++ tail) :
    ∃ rc', rc'.rest = rc.rest ∧ sizes rc' = (sizes rc).peek 5 ∧
      rc'.conn.ending = rc.conn.ending ∧ 5 ≤ rc'.window.available ∧
      rc.readMessage =
        if m.body.length ≤ rc'.window.available then rc'.readBuffered m.tag m.size
        else rc'.readDirect m.tag m.header m.body.length := by
  have hlen : 5 ≤ rc.rest.length := by
    rw [h, List.length_append, encode_length, Message.size, headerSize]
    omega
  obtain ⟨rc', hp, hrest, hs, he, hle⟩ := peek_eq rc 5 hlen
  have htake : rc.rest.take 5 = m.header := by
    rw [h, Message.encode, List.append_assoc, List.take_append_of_le_length (by simp),
      List.take_of_length_le (by simp)]
  have hfield : uint32 (slice m.header 1 5) = m.body.length + 4 := header_length_field m
  refine ⟨rc', hrest, hs, he, hle, ?_⟩
  rw [RawConn.readMessage, headerSize, hp]
  simp only [htake, hfield]
  rw [if_neg (by omega), Nat.add_sub_cancel]
  rfl

theorem rest_discard (n : ℕ) (h : n ≤ rc.window.available) : (rc.discard n).rest = rc.rest.drop n := by
  rw [RawConn.rest, RawConn.discard, Window.filled_skip, RawConn.rest,
    List.drop_append_of_le_length (by rw [Window.filled_length]; exact h)]

theorem readBuffered_eq (h : rc.rest = m.encode ++ tail) :
    ∃ rc', rc.readBuffered m.tag m.size = (.ok (m.tag, m.encode), rc') ∧ rc'.rest = tail ∧
      sizes rc' = { (sizes rc).peek m.size with avail := ((sizes rc).peek m.size).avail - m.size } ∧
      rc'.conn.ending = rc.conn.ending := by
  obtain ⟨rc₁, hp, hrest, hs, he, hle⟩ := peek_eq rc m.size (by
    rw [h, List.length_append, encode_length]
    omega)
  have htake : rc.rest.take m.size = m.encode := by rw [h, List.take_left' (encode_length m)]
  refine ⟨rc₁.discard m.size, ?_, ?_, ?_, he⟩
  · rw [RawConn.readBuffered, hp, htake]
  · rw [rest_discard rc₁ _ hle, hrest, h, List.drop_left' (encode_length m)]
  · rw [← hs]
    simp only [sizes, RawConn.discard, Window.available_skip]
    rfl

theorem pending_conn : pending rc.conn = rc.rest.drop rc.window.available := by
  rw [RawConn.rest, List.drop_left' rc.window.filled_length]

theorem readDirect_eq (h : rc.rest = m.encode ++ tail) (h5 : rc.window.available = 5) (hpos : 0 < m.body.length) :
    ∃ rc', rc.readDirect m.tag m.header m.body.length = (.ok (m.tag, m.encode), rc') ∧
      rc'.rest = tail ∧
      sizes rc' = { sizes rc with avail := (sizes rc).avail - 5
                                  reads := Sizes.dropReads m.body.length (sizes rc).reads } ∧
      rc'.conn.ending = rc.conn.ending := by
  have hconn : pending rc.conn = m.body ++ tail := by
    rw [pending_conn, h, h5, Message.encode, List.append_assoc, List.drop_left' (header_length m)]
  obtain ⟨c', hr, hp, hs, he⟩ := readFull_sizes rc.conn m.body.length (by
    rw [hconn, List.length_append]
    omega)
  rw [hconn, List.take_left] at hr
  rw [hconn, List.drop_left] at hp
  have hempty : (rc.discard 5).window.filled = [] := by
    rw [RawConn.discard, Window.filled_skip, List.drop_eq_nil_iff, Window.filled_length, h5]
  refine ⟨{ rc.discard 5 with conn := c' }, ?_, ?_, ?_, he⟩
  · rw [RawConn.readDirect, if_pos hpos, hr]
    rfl
  · rw [RawConn.rest, hempty, hp, List.nil_append]
  · simp only [sizes, RawConn.discard, Window.available_skip, hs]
    rfl

theorem readMessage_aligned (h : rc.rest = m.encode ++ tail)
    (ha : ((sizes rc).peek 5).avail = 5 ∨ m.body.length ≤ ((sizes rc).peek 5).avail) :
    ∃ rc', rc.readMessage = (.ok (m.tag, m.encode), rc') ∧ rc'.rest = tail ∧
      sizes rc' = ((sizes rc).peek 5).message m.body.length ∧
      rc'.conn.ending = rc.conn.ending := by
  obtain ⟨rc₁, hrest, hs, he, -, hm⟩ := readMessage_header rc m tail h
  have hav : (sizes rc₁).avail = rc₁.window.available := rfl
  rw [← hs, hav] at ha
  rw [← hs, Sizes.message, hav, ← he]
  rw [← hrest] at h
  by_cases hle : m.body.length ≤ rc₁.window.available
  · rw [if_pos hle] at hm ⊢
    rw [hm]
    exact readBuffered_eq rc₁ m tail h
  · rw [if_neg hle] at hm ⊢
    rw [hm]
    exact readDirect_eq rc₁ m tail h (ha.resolve_right hle) (by omega)

theorem readMessage_misaligned (rc' : RawConn) (m : Message) (tail : List UInt8) (h : rc.rest = m.encode ++ tail)
    (h5 : ((sizes rc).peek 5).avail ≠ 5) (hn : ((sizes rc).peek 5).avail < m.body.length)
    (hr : rc.readMessage = (.ok (m.tag, m.encode), rc')) :
    ∃ i, 0 < i ∧ i < m.body.length ∧ m.body[0]? = m.body[i]? := by
  obtain ⟨rc₁, hrest, hs, he, hle, hm⟩ := readMessage_header rc m tail h
  have hav : (sizes rc₁).avail = rc₁.window.available := rfl
  rw [← hs, hav] at h5 hn
  refine ⟨rc₁.window.available - 5, by omega, by omega, ?_⟩
  have hconn : pending rc₁.conn = (m.body ++ tail).drop (rc₁.window.available - 5) := by
    rw [pending_conn, hrest, h, Message.encode, List.append_assoc, List.drop_append, header_length,
      List.drop_of_length_le (by rw [header_length]; exact hle), List.nil_append]
  rw [hm, if_neg (by omega), RawConn.readDirect, if_pos (by omega)] at hr
  by_cases hall : m.body.length ≤ (pending rc₁.conn).length
  · obtain ⟨c', hfull, -⟩ := readFull_eq rc₁.conn m.body.length hall
    rw [hfull] at hr
    simp only [Prod.mk.injEq, Except.ok.injEq, true_and, Message.encode,
      List.append_cancel_left_eq] at hr
    calc m.body[0]? = ((pending rc₁.conn).take m.body.length)[0]? := by rw [hr.1]
      _ = (pending rc₁.conn)[0]? := List.getElem?_take_of_lt (by omega)
      _ = (m.body ++ tail)[rc₁.window.available - 5]? := by
        rw [hconn, List.getElem?_drop, Nat.add_zero]
      _ = m.body[rc₁.window.available - 5]? := List.getElem?_append_left (by omega)
  · have hsome := readFull_some rc₁.conn m.body.length (by omega)
    rcases hfull : readFull rc₁.conn m.body.length with ⟨body, _ | e, c'⟩
    · rw [hfull] at hsome
      exact absurd rfl hsome
    · rw [hfull] at hr
      cases congrArg Prod.fst hr

theorem readsExactly_of_aligned (rc : RawConn) (h : rc.rest = encodeAll ms) (he : rc.conn.ending = .eof)
    (ha : (sizes rc).Aligned (ms.map fun m ↦ m.body.length)) : rc.ReadsExactly ms := by
  induction ms generalizing rc with
  | nil =>
    obtain ⟨rc', hp⟩ := peek_nil rc 4 h
    refine ⟨rc', ?_⟩
    rw [RawConn.readMessage, headerSize, hp, he]
  | cons m ms ih =>
    obtain ⟨rc', hr, hrest, hs, he'⟩ := readMessage_aligned rc m (encodeAll ms) h ha.1
    exact ⟨rc', hr, ih rc' hrest (he'.trans he) (hs ▸ ha.2)⟩

/-- A body whose first byte does not occur in it again. -/
def Marked (m : Message) : Prop := ∀ i, 0 < i → i < m.body.length → m.body[0]? ≠ m.body[i]?

theorem aligned_of_readsExactly (rc : RawConn) (h : rc.rest = encodeAll ms) (hm : ∀ m ∈ ms, Marked m)
    (hr : rc.ReadsExactly ms) : (sizes rc).Aligned (ms.map fun m ↦ m.body.length) := by
  induction ms generalizing rc with
  | nil => trivial
  | cons m ms ih =>
    obtain ⟨rc', hread, hrest'⟩ := hr
    have ha : ((sizes rc).peek 5).avail = 5 ∨ m.body.length ≤ ((sizes rc).peek 5).avail := by
      by_contra hc
      rw [not_or, Nat.not_le] at hc
      obtain ⟨i, hpos, hi, heq⟩ :=
        readMessage_misaligned rc rc' m (encodeAll ms) h hc.1 hc.2 hread
      exact hm m List.mem_cons_self i hpos hi heq
    obtain ⟨rc'', hread', hrest, hs, -⟩ := readMessage_aligned rc m (encodeAll ms) h ha
    rw [hread] at hread'
    cases hread'
    refine ⟨ha, ?_⟩
    rw [← hs]
    exact ih rc' hrest (fun m' hm' ↦ hm m' (List.mem_cons_of_mem m hm')) hrest'

/-- Messages of the same tags and lengths, which arrive in reads of the same sizes. -/
structure SameShape (c : Conn UInt8) (ms : List Message) (c' : Conn UInt8) (ms' : List Message) :
    Prop where
  messages : ms'.map (fun m ↦ (m.tag, m.body.length)) = ms.map (fun m ↦ (m.tag, m.body.length))
  reads : c'.pieces.map List.length = c.pieces.map List.length
  ending : c'.ending = .eof
  content : pending c' = encodeAll ms'

def mark (m : Message) : Message :=
  ⟨m.tag, (List.replicate m.body.length 0).set 0 1, by
    rw [List.length_set, List.length_replicate]
    exact m.fits⟩

theorem mark_marked : Marked (mark m) := by
  intro i hpos hi
  have hlen : (mark m).body.length = m.body.length := by simp [mark]
  rw [hlen] at hi
  simp only [mark, List.getElem?_set, List.length_replicate, List.getElem?_replicate]
  simp [hi, show 0 < m.body.length by omega]
  omega

theorem mark_size : (mark m).size = m.size := by simp [mark, Message.size]

theorem sizeAll_mark : sizeAll (ms.map mark) = sizeAll ms := by
  induction ms with
  | nil => rfl
  | cons m ms ih => rw [List.map_cons, sizeAll_cons, sizeAll_cons, mark_size, ih]

theorem exists_marked (hp : pending c = encodeAll ms) : ∃ c', SameShape c ms c' (ms.map mark) := by
  have hsum : (c.pieces.map List.length).sum = (encodeAll (ms.map mark)).length := by
    rw [← List.length_flatten, encodeAll_length, sizeAll_mark, ← encodeAll_length, ← hp]
    rfl
  have hlen := List.map_splitLengths_length (encodeAll (ms.map mark)) _ hsum.le
  have hpos := sizes_pos c
  rw [← hlen] at hpos
  refine ⟨⟨(c.pieces.map List.length).splitLengths (encodeAll (ms.map mark)), .eof, ?_⟩, ?_, hlen,
    rfl, List.flatten_splitLengths _ _ hsum.ge⟩
  · intro p hm
    exact List.length_pos_iff.mp (hpos _ (List.mem_map_of_mem hm))
  · simp [mark]

theorem rest_new : (RawConn.new c).rest = pending c := rfl

/-- The messages come back exactly, whatever their bodies, precisely if the reads never leave a
header in the buffer with a part of its body. -/
theorem readMessage_exact_iff (c : Conn UInt8) (ms : List Message)
    (hp : pending c = encodeAll ms) :
    (∀ c' ms', SameShape c ms c' ms' → (RawConn.new c').ReadsExactly ms') ↔
      (sizes (RawConn.new c)).Aligned (ms.map fun m ↦ m.body.length) := by
  have hshape {c' : Conn UInt8} {ms' : List Message} (h : SameShape c ms c' ms') :
      sizes (RawConn.new c') = sizes (RawConn.new c) ∧
        (ms'.map fun m ↦ m.body.length) = ms.map fun m ↦ m.body.length := by
    refine ⟨congrArg (Sizes.mk _ 0) h.reads, ?_⟩
    simpa [Function.comp_def] using congrArg (List.map Prod.snd) h.messages
  constructor
  · intro h
    obtain ⟨c', hc'⟩ := exists_marked c ms hp
    obtain ⟨hs, hl⟩ := hshape hc'
    rw [← hs, ← hl]
    refine aligned_of_readsExactly _ _ hc'.content ?_ (h c' _ hc')
    intro m hm
    obtain ⟨m', -, rfl⟩ := List.mem_map.mp hm
    exact mark_marked m'
  · intro ha c' ms' h
    obtain ⟨hs, hl⟩ := hshape h
    refine readsExactly_of_aligned ms' _ h.content h.ending ?_
    rw [hs, hl]
    exact ha

def selectOne : Message :=
  ⟨0x51, [0x53, 0x45, 0x4c, 0x45, 0x43, 0x54, 0x20, 0x31, 0x3b, 0x00], by decide⟩

def oneRead : Conn UInt8 := ⟨[selectOne.encode], .eof, by decide⟩

def twoReads : Conn UInt8 := ⟨[selectOne.encode.take 6, selectOne.encode.drop 6], .eof, by decide⟩

theorem sizes_new : sizes (RawConn.new c) = ⟨65536, 0, c.pieces.map List.length⟩ :=
  congrArg (fun n ↦ Sizes.mk n 0 _) List.length_replicate

theorem oneRead_exact : (RawConn.new oneRead).ReadsExactly [selectOne] :=
  (readMessage_exact_iff oneRead [selectOne] (by decide)).mpr
    (by rw [sizes_new]; exact ⟨by decide, trivial⟩) oneRead [selectOne] ⟨rfl, rfl, rfl, by decide⟩

theorem twoReads_not_exact : ¬ (RawConn.new twoReads).ReadsExactly [selectOne] := by
  rintro ⟨rc', hr, -⟩
  obtain ⟨i, hpos, hi, heq⟩ := readMessage_misaligned (RawConn.new twoReads) rc' selectOne []
    (by rw [rest_new]; decide) (by rw [sizes_new]; decide) (by rw [sizes_new]; decide) hr
  have hmarked : ∀ i < selectOne.body.length, 0 < i → selectOne.body[0]? ≠ selectOne.body[i]? := by
    decide
  exact hmarked i hi hpos heq

end PgRouter.Wire.ClientFraming
