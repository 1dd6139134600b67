import PgRouter.Library.Reads
import PgRouter.Library.Windows

namespace PgRouter.Wire.ChunkReader

open Library.Reads Library.Reads.Reader Library.Windows

/-- `chunkReaderMirror`. -/
structure ChunkReaderMirror where
  r : Conn UInt8
  window : Window UInt8
  minBufSize : ℕ

namespace ChunkReaderMirror

def new (r : Conn UInt8) (minBufSize : ℕ) : ChunkReaderMirror :=
  ⟨r, Window.empty (List.replicate minBufSize 0), minBufSize⟩

def rest (m : ChunkReaderMirror) : List UInt8 := m.window.filled ++ pending m.r

def restart (m : ChunkReaderMirror) : Window UInt8 :=
  if m.window.rp = m.window.wp then
    if m.window.buf.length ≠ m.minBufSize then Window.empty (List.replicate m.minBufSize 0)
    else Window.empty m.window.buf
  else m.window

def grow (w : Window UInt8) (n : ℕ) : Window UInt8 :=
  if h : w.buf.length < n then
    w.onto (List.replicate n 0) (by
      have := w.available_le
      rw [List.length_replicate]
      omega)
  else w

/-- A buffer that can hold `n` bytes from its read position on. -/
def shift (w : Window UInt8) (n : ℕ) : Window UInt8 :=
  if w.room < n - w.available then w.compact else w

/-- Read on until the window holds `n` bytes, and hand them out. -/
def readAhead (m : ChunkReaderMirror) (w : Window UInt8) (n : ℕ) :
    List UInt8 × Option IoErr × ChunkReaderMirror :=
  let got := readAtLeast m.r w.room (n - w.available)
  let w := w.fill got.1 (readAtLeast_length m.r w.room (n - w.available))
  match got.2.1 with
  | some e => ([], some e, { m with r := got.2.2, window := w })
  | none => (w.filled.take n, none, { m with r := got.2.2, window := w.skip n })

def next (m : ChunkReaderMirror) (n : ℕ) : List UInt8 × Option IoErr × ChunkReaderMirror :=
  if n ≤ m.restart.available then
    (m.restart.filled.take n, none, { m with window := m.restart.skip n })
  else m.readAhead (shift (grow m.restart n) n) n

variable (m : ChunkReaderMirror) (w : Window UInt8) (n : ℕ)

theorem filled_restart : m.restart.filled = m.window.filled := by
  unfold restart
  split
  · rename_i h
    have hz : m.window.filled = [] := List.length_eq_zero_iff.mp (by
      rw [Window.filled_length, Window.available, h, Nat.sub_self])
    split <;> rw [Window.filled_empty, hz]
  · rfl

theorem filled_shift_grow : (shift (grow w n) n).filled = w.filled := by
  unfold shift grow
  split <;> split <;> simp

theorem room_shift_grow : n - (shift (grow w n) n).available ≤ (shift (grow w n) n).room := by
  have hg : n ≤ (grow w n).buf.length := by
    unfold grow
    split
    · rw [Window.length_onto, List.length_replicate]
    · omega
  unfold shift
  split
  · rw [Window.available_compact, Window.room, Window.length_compact]
    have hwp : (grow w n).compact.wp = (grow w n).available := rfl
    omega
  · omega

theorem readAtLeast_none_iff (c : Conn UInt8) (room least : ℕ) (hroom : least ≤ room) :
    (readAtLeast c room least).2.1 = none ↔ least ≤ (pending c).length := by
  constructor
  · intro h
    have hle := readAtLeast_enough c room least hroom h
    have happ := congrArg List.length (readAtLeast_append c room least)
    rw [List.length_append] at happ
    omega
  · refine readAtLeast_none c room least fun t k hk ht ↦ Conn.read_eager t _ ?_
    intro hnil
    rw [hnil, List.length_nil] at ht
    omega

theorem readAhead_eq (hroom : n - w.available ≤ w.room) (hw : w.filled ++ pending m.r = m.rest) :
    (n ≤ m.rest.length ∧
      ∃ m', m.readAhead w n = (m.rest.take n, none, m') ∧ m'.rest = m.rest.drop n) ∨
    (m.rest.length < n ∧ ∃ e m', m.readAhead w n = ([], some e, m') ∧ m'.rest = m.rest) := by
  have happ := readAtLeast_append m.r w.room (n - w.available)
  have hiff := readAtLeast_none_iff m.r w.room (n - w.available) hroom
  have henough := readAtLeast_enough m.r w.room (n - w.available) hroom
  have hlen : m.rest.length = w.available + (pending m.r).length := by
    rw [← hw, List.length_append, Window.filled_length]
  have hall : (w.filled ++ (readAtLeast m.r w.room (n - w.available)).1) ++
      pending (readAtLeast m.r w.room (n - w.available)).2.2 = m.rest := by
    rw [List.append_assoc, happ, hw]
  unfold readAhead
  cases he : (readAtLeast m.r w.room (n - w.available)).2.1 with
  | none =>
    have hle := hiff.mp he
    have hgot := henough he
    have hn : n ≤ (w.filled ++ (readAtLeast m.r w.room (n - w.available)).1).length := by
      rw [List.length_append, Window.filled_length]
      omega
    simp only [he, Window.filled_fill]
    rw [← List.take_append_of_le_length hn, hall]
    refine Or.inl ⟨by omega, _, rfl, ?_⟩
    rw [rest, Window.filled_skip, Window.filled_fill, ← hall, List.drop_append_of_le_length hn]
  | some e =>
    have hlt : ¬ n - w.available ≤ (pending m.r).length := by
      rw [← hiff, he]
      simp
    simp only [he]
    refine Or.inr ⟨by omega, e, _, rfl, ?_⟩
    rw [rest, Window.filled_fill, hall]

/-- A request that can be met hands out the next bytes; one that cannot fails and keeps them. -/
theorem next_eq :
    (n ≤ m.rest.length ∧ ∃ m', m.next n = (m.rest.take n, none, m') ∧ m'.rest = m.rest.drop n) ∨
    (m.rest.length < n ∧ ∃ e m', m.next n = ([], some e, m') ∧ m'.rest = m.rest) := by
  have hfill := filled_restart m
  unfold next
  split
  · rename_i h
    rw [← Window.filled_length] at h
    refine Or.inl ⟨?_, { m with window := m.restart.skip n }, ?_, ?_⟩
    · rw [rest, ← hfill, List.length_append]
      omega
    · rw [rest, ← hfill, List.take_append_of_le_length h]
    · rw [rest, Window.filled_skip, rest, ← hfill, List.drop_append_of_le_length h]
  · refine m.readAhead_eq _ n (room_shift_grow m.restart n) ?_
    rw [filled_shift_grow, hfill, rest]

theorem readAhead_later : m.r.Later (m.readAhead w n).2.2.r := by
  have h := m.r.readAtLeast_later w.room (n - w.available)
  unfold readAhead
  cases he : (readAtLeast m.r w.room (n - w.available)).2.1 <;> simp only [he] <;> exact h

theorem next_later : m.r.Later (m.next n).2.2.r := by
  unfold next
  split
  · exact .refl _
  · exact m.readAhead_later _ n

theorem next_short (h : m.rest.length < n) :
    ∃ m', m.next n = ([], some m.r.fault, m') ∧ m'.rest = m.rest ∧ m.r.Later m'.r := by
  obtain ⟨e, m', hnext, hrest⟩ := ((next_eq m n).resolve_left fun hle ↦ by omega).2
  have hlater := m.next_later n
  have hlen : m.rest.length = m.restart.available + (pending m.r).length := by
    rw [rest, List.length_append, ← filled_restart, Window.filled_length]
  have havail : (shift (grow m.restart n) n).available = m.restart.available := by
    rw [← Window.filled_length, filled_shift_grow, Window.filled_length]
  have hroom := room_shift_grow m.restart n
  obtain ⟨c', hread, -⟩ := m.r.readAtLeast_short (shift (grow m.restart n) n).room
    (n - (shift (grow m.restart n) n).available) hroom (by omega)
  have herr : (m.next n).2.1 = some m.r.fault := by
    unfold next
    rw [if_neg (by omega)]
    unfold readAhead
    simp only [hread]
  rw [hnext] at herr hlater
  obtain rfl : e = m.r.fault := Option.some.inj herr
  exact ⟨m', hnext, hrest, hlater⟩

end ChunkReaderMirror

open ChunkReaderMirror

/-- The loop of `RawReader.Read` over `p[total:]`. -/
def rawReadLoop (size : ℕ) :
    ℕ → List UInt8 → ChunkReaderMirror → List UInt8 × Option IoErr × ChunkReaderMirror
  | 0, p, m => (p, none, m)
  | fuel + 1, p, m =>
    if p.length < size then
      match m.next (size - p.length) with
      | (_, some e, m) => (p, some e, m)
      | (bs, none, m) => rawReadLoop size fuel (p ++ bs.take (size - p.length)) m
    else (p, none, m)

/-- `RawReader.Read`. Every round without an error adds a byte, so `size` rounds suffice. -/
def rawRead (m : ChunkReaderMirror) (size : ℕ) : List UInt8 × Option IoErr × ChunkReaderMirror :=
  rawReadLoop size size [] m

variable (m : ChunkReaderMirror) (n : ℕ)

theorem rawRead_eq :
    (n ≤ m.rest.length ∧ ∃ m', rawRead m n = (m.rest.take n, none, m') ∧ m'.rest = m.rest.drop n) ∨
    (m.rest.length < n ∧ ∃ e m', rawRead m n = ([], some e, m') ∧ m'.rest = m.rest) := by
  match n with
  | 0 => exact Or.inl ⟨Nat.zero_le _, m, rfl, rfl⟩
  | n + 1 =>
    rw [rawRead, rawReadLoop, if_pos (by simp)]
    rcases next_eq m (n + 1) with ⟨hle, m', hn, hrest⟩ | ⟨hlt, e, m', hn, hrest⟩
    · refine Or.inl ⟨hle, m', ?_, hrest⟩
      have hlen : (m.rest.take (n + 1)).length = n + 1 := by
        rw [List.length_take]
        omega
      simp only [List.length_nil, Nat.sub_zero, hn, List.nil_append, List.take_take, Nat.min_self]
      cases n with
      | zero => rfl
      | succ n => rw [rawReadLoop, if_neg (by omega)]
    · refine Or.inr ⟨hlt, e, m', ?_, hrest⟩
      simp only [List.length_nil, Nat.sub_zero, hn]

/-- The splice path reads a backend through its `Frontend`'s own buffer. -/
instance : Reader ChunkReaderMirror UInt8 where
  read := rawRead
  pending := rest
  read_append m n := by
    rcases rawRead_eq m n with ⟨-, m', h, hrest⟩ | ⟨-, e, m', h, hrest⟩
    · rw [h, hrest, List.take_append_drop]
    · rw [h, hrest, List.nil_append]
  read_length m n := by
    rcases rawRead_eq m n with ⟨-, m', h, -⟩ | ⟨-, e, m', h, -⟩
    · rw [h]
      exact List.length_take_le _ _
    · rw [h]
      exact Nat.zero_le _
  read_none m n _ hle := by
    rcases rawRead_eq m n with ⟨-, m', h, -⟩ | ⟨hlt, -⟩
    · rw [h]
    · omega
  read_ne_nil m n hn hnone := by
    rcases rawRead_eq m n with ⟨hle, m', h, -⟩ | ⟨-, e, m', h, -⟩
    · rw [h, ne_eq, List.take_eq_nil_iff, not_or]
      exact ⟨by omega, List.length_pos_iff.mp (by omega)⟩
    · rw [h] at hnone
      cases hnone

theorem rawRead_later : m.r.Later (read m n).2.2.r := by
  change m.r.Later (rawReadLoop n n [] m).2.2.r
  suffices h : ∀ fuel p (m : ChunkReaderMirror), m.r.Later (rawReadLoop n fuel p m).2.2.r from h n [] m
  intro fuel
  induction fuel with
  | zero => exact fun _ m ↦ .refl m.r
  | succ fuel ih =>
    intro p m
    have hnext := m.next_later (n - p.length)
    unfold rawReadLoop
    split
    · rcases hr : m.next (n - p.length) with ⟨bs, _ | e, m'⟩
      · rw [hr] at hnext
        exact hnext.trans (ih _ m')
      · rw [hr] at hnext
        exact hnext
    · exact .refl m.r

theorem read_short (h : (pending m).length < n) :
    ∃ m', read m n = ([], some m.r.fault, m') ∧ pending m' = pending m := by
  obtain ⟨m', hnext, hrest, -⟩ := m.next_short n h
  refine ⟨m', ?_, hrest⟩
  obtain ⟨n, rfl⟩ := Nat.exists_eq_succ_of_ne_zero (show n ≠ 0 by omega)
  change rawReadLoop (n + 1) (n + 1) [] m = _
  rw [rawReadLoop, if_pos (by simp)]
  simp only [List.length_nil, Nat.sub_zero, hnext]

theorem next_skip {m m' : ChunkReaderMirror} {n : ℕ} {bs : List UInt8} (h : m.next n = (bs, none, m')) :
    ∃ w : Window UInt8, m'.window = w.skip n ∧ n ≤ w.available ∧ bs = w.filled.take n := by
  unfold next at h
  split at h
  · next hle =>
    cases h
    exact ⟨m.restart, rfl, hle, rfl⟩
  · let w := shift (grow m.restart n) n
    have hroom : n - w.available ≤ w.room := room_shift_grow m.restart n
    have henough := readAtLeast_enough m.r w.room (n - w.available) hroom
    change m.readAhead w n = _ at h
    unfold readAhead at h
    cases he : (readAtLeast m.r w.room (n - w.available)).2.1 with
    | some e =>
      simp only [he] at h
      cases h
    | none =>
      have hgot := henough he
      simp only [he] at h
      cases h
      refine ⟨w.fill _ (readAtLeast_length m.r w.room (n - w.available)), rfl, ?_, rfl⟩
      rw [Window.available_fill]
      omega

theorem next_of_read {m m' : ChunkReaderMirror} {n : ℕ} {bs : List UInt8} (hn : 0 < n)
    (h : read m n = (bs, none, m')) : m.next n = (bs, none, m') := by
  obtain ⟨n, rfl⟩ := Nat.exists_eq_add_one.mpr hn
  change rawReadLoop (n + 1) (n + 1) [] m = _ at h
  rw [rawReadLoop, if_pos (by simp)] at h
  obtain ⟨hle, m₁, hnext, -⟩ | ⟨-, e, m₁, hnext, -⟩ := next_eq m (n + 1)
  · have hlen : (m.rest.take (n + 1)).length = n + 1 := by
      rw [List.length_take]
      omega
    simp only [List.length_nil, Nat.sub_zero, hnext, List.nil_append, List.take_take, Nat.min_self] at h
    rw [hnext, ← h]
    cases n with
    | zero => rfl
    | succ n => rw [rawReadLoop, if_neg (by omega)]
  · simp only [List.length_nil, Nat.sub_zero, hnext] at h
    cases h

theorem readFull_later : m.r.Later (readFull m n).2.2.r :=
  readFull_keeps (R := fun m m' ↦ m.r.Later m'.r) (fun m ↦ .refl m.r) .trans rawRead_later m n

theorem copyN_later (dst : Writer UInt8) (m : ChunkReaderMirror) (n : ℕ) : m.r.Later (copyN dst m n).2.2.r :=
  copyN_keeps (R := fun m m' ↦ m.r.Later m'.r) (fun m ↦ .refl m.r) .trans rawRead_later dst m n

theorem readFull_short (h : (pending m).length < n) : ∃ m', readFull m n = ([], some m.r.fault, m') := by
  obtain ⟨m', hread, -⟩ := read_short m n h
  refine ⟨m', ?_⟩
  obtain ⟨n, rfl⟩ := Nat.exists_eq_succ_of_ne_zero (show n ≠ 0 by omega)
  have hloop : readLoop (n + 1) (n + 1) (n + 1) [] m = ([], some m.r.fault, m') := by
    rw [readLoop, if_neg (by simp)]
    simp only [List.length_nil, Nat.sub_zero, hread, List.append_nil]
  unfold readFull readAtLeast
  rw [hloop]
  simp

theorem fault_timeout {c : Conn UInt8} : c.fault = .timeout ↔ c.ending = .timeout := by
  unfold Conn.fault
  split
  · rename_i h
    simp [h.2]
  · rfl

/-- What `io.CopyN` has copied of the bytes that are there when it fails for want of more. -/
def copied (bs : List UInt8) : List UInt8 := bs.take (bs.length - bs.length % (32 * 1024))

theorem copyLoop_short (fuel left : ℕ) (out : List UInt8) (m : ChunkReaderMirror) (hfuel : left ≤ fuel)
    (h : (pending m).length < left) :
    ∃ err m', copyLoop (32 * 1024) fuel left ⟨out, none⟩ m = (some err, ⟨out ++ copied (pending m), none⟩, m') ∧
      (err = .timeout ↔ m.r.ending = .timeout) := by
  induction fuel generalizing left out m with
  | zero => omega
  | succ fuel ih =>
    rw [copyLoop, if_neg (by omega)]
    by_cases hshort : (pending m).length < min (32 * 1024) left
    · obtain ⟨m', hread, -⟩ := read_short m _ hshort
      have hnone : copied (pending m) = [] := by
        rw [copied, Nat.mod_eq_of_lt (by omega), Nat.sub_self, List.take_zero]
      refine ⟨m.r.fault, m', ?_, fault_timeout⟩
      simp only [hread, Writer.write_room_none, List.length_nil, hnone]
      rw [if_neg (by omega)]
    · have hmin : min (32 * 1024) left = 32 * 1024 := by omega
      have hlater := rawRead_later m (32 * 1024)
      have hread : ∃ m', read m (32 * 1024) = ((pending m).take (32 * 1024), none, m') ∧
          pending m' = (pending m).drop (32 * 1024) :=
        ((rawRead_eq m (32 * 1024)).resolve_right fun hlt ↦ by
          have hlt : (pending m).length < 32 * 1024 := hlt.1
          omega).2
      obtain ⟨m₁, hread, hrest⟩ := hread
      have htake : ((pending m).take (32 * 1024)).length = 32 * 1024 := by
        rw [List.length_take]
        omega
      have hdrop : (pending m₁).length = (pending m).length - 32 * 1024 := by rw [hrest, List.length_drop]
      rw [hread] at hlater
      obtain ⟨err, m', hloop, herr⟩ := ih (left - 32 * 1024) (out ++ (pending m).take (32 * 1024)) m₁ (by omega)
        (by omega)
      have hcopied : copied (pending m) = (pending m).take (32 * 1024) ++ copied (pending m₁) := by
        have hmod : ((pending m).length - 32 * 1024) % (32 * 1024) = (pending m).length % (32 * 1024) :=
          (Nat.mod_eq_sub_mod (by omega)).symm
        have hle := Nat.mod_le ((pending m).length - 32 * 1024) (32 * 1024)
        rw [hmod] at hle
        have hsum : (pending m).length - (pending m).length % (32 * 1024) =
            32 * 1024 + ((pending m).length - 32 * 1024 - (pending m).length % (32 * 1024)) := by omega
        rw [copied, copied, hdrop, hmod, hrest, hsum, List.take_add]
      refine ⟨err, m', ?_, by rw [herr, hlater.ending]⟩
      simp only [hmin, hread, Writer.write_room_none, htake, hloop, hcopied, List.append_assoc]

end PgRouter.Wire.ChunkReader
