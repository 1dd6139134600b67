import PgRouter.Library.Runs
import PgRouter.Wire.ChunkReader

namespace PgRouter.Wire.RawStreams

open ChunkReader Library.Reads Library.Reads.Reader Library.Runs Library.Windows

/-- A `RawReader` in use: the reader, all bytes of the connection up to its next error, the bytes that were
returned and not taken back, and the size of the `Read` just before if it succeeded. -/
structure Tap where
  reader : ChunkReaderMirror
  stream : List UInt8
  taken : List UInt8
  last : ℕ

inductive Event
  | read (n : ℕ)
  | rewind (k : ℕ)
  | resume (c : Conn UInt8)

def Tap.start (m : ChunkReaderMirror) : Tap := ⟨m, m.rest, [], 0⟩

/-- `Read` returns its bytes together with its error. A connection that has failed goes on after a while, with
more bytes up to its next error. -/
def step (t : Tap) : Event → Option Tap
  | .read n =>
    let (bs, err, m) := rawRead t.reader n
    some { t with reader := m, taken := t.taken ++ bs, last := if err.isNone then n else 0 }
  | .rewind k =>
    if k ≤ t.last then
      some { t with
        reader := { t.reader with window := t.reader.window.back k }
        taken := t.taken.take (t.taken.length - k)
        last := 0 }
    else none
  | .resume c =>
    if t.reader.r.pieces = [] then
      some { t with reader := { t.reader with r := c }, stream := t.stream ++ pending c }
    else none

/-- The window behind the last `Read` is the one before it, moved on by what was returned. -/
structure Faithful (t : Tap) : Prop where
  whole : t.taken ++ t.reader.rest = t.stream
  behind : ∃ (w : Window UInt8) (start : List UInt8), t.reader.window = w.skip t.last ∧ t.last ≤ w.available ∧
    t.taken = start ++ w.filled.take t.last

variable {t t' : Tap}

theorem faithful_of_whole (h : t.taken ++ t.reader.rest = t.stream) (hlast : t.last = 0) : Faithful t := by
  refine ⟨h, t.reader.window, t.taken, ?_, ?_, ?_⟩
  · rw [hlast, Window.skip_zero]
  · rw [hlast]
    exact Nat.zero_le _
  · rw [hlast, List.take_zero, List.append_nil]

section

variable (h : Faithful t)

include h

theorem faithful_read (n : ℕ) (hstep : step t (.read n) = some t') : Faithful t' := by
  obtain ⟨hle, m', hread, hrest⟩ | ⟨hlt, e, m', hread, hrest⟩ := rawRead_eq t.reader n
  · simp only [step, hread, Option.isNone_none, if_true, Option.some.injEq] at hstep
    subst hstep
    constructor
    · rw [← h.whole, hrest, List.append_assoc, List.take_append_drop]
    · obtain rfl | hn := Nat.eq_zero_or_pos n
      · exact ⟨m'.window, t.taken, (Window.skip_zero _).symm, Nat.zero_le _, by simp⟩
      · obtain ⟨w, hwindow, havailable, hbs⟩ := next_skip (next_of_read hn hread)
        exact ⟨w, t.taken, hwindow, havailable, by rw [hbs]⟩
  · simp only [step, hread, Option.isNone_some, Bool.false_eq_true, if_false, Option.some.injEq] at hstep
    subst hstep
    refine faithful_of_whole ?_ rfl
    rw [hrest, List.append_nil]
    exact h.whole

theorem faithful_rewind (k : ℕ) (hstep : step t (.rewind k) = some t') : Faithful t' := by
  obtain ⟨w, start, hwindow, havailable, htaken⟩ := h.behind
  rw [step] at hstep
  split at hstep
  case isFalse => cases hstep
  case isTrue hk =>
    cases hstep
    refine faithful_of_whole ?_ rfl
    have hback : t.reader.window.back k = w.skip (t.last - k) := by
      rw [hwindow, Window.back_skip_of_le w havailable hk]
    have hkept : t.taken.take (t.taken.length - k) = start ++ w.filled.take (t.last - k) := by
      have hlength : t.taken.length - k = start.length + (t.last - k) := by
        rw [htaken, List.length_append, List.length_take, Window.filled_length]
        omega
      rw [hlength, htaken, List.take_length_add_append, List.take_take, Nat.min_eq_left (Nat.sub_le _ _)]
    have hwhole := h.whole
    rw [htaken, ChunkReaderMirror.rest, hwindow, Window.filled_skip, List.append_assoc,
      ← List.append_assoc (w.filled.take _),
      List.take_append_drop] at hwhole
    rw [ChunkReaderMirror.rest, hback, hkept, Window.filled_skip, List.append_assoc,
      ← List.append_assoc (w.filled.take _),
      List.take_append_drop]
    exact hwhole

theorem faithful_resume (c : Conn UInt8) (hstep : step t (.resume c) = some t') : Faithful t' := by
  rw [step] at hstep
  split at hstep
  case isFalse => cases hstep
  case isTrue hdry =>
    cases hstep
    have hnone : pending t.reader.r = [] := by
      change t.reader.r.pieces.flatten = []
      rw [hdry]
      rfl
    have hwhole := h.whole
    rw [ChunkReaderMirror.rest, hnone, List.append_nil] at hwhole
    refine ⟨?_, h.behind⟩
    rw [← hwhole, List.append_assoc]
    rfl

theorem faithful_step {e : Event} (hstep : step t e = some t') : Faithful t' := by
  cases e with
  | read n => exact faithful_read h n hstep
  | rewind k => exact faithful_rewind h k hstep
  | resume c => exact faithful_resume h c hstep

end

/-- However the stream is cut, whenever it fails and however much is read and taken back: what was returned and
what is still to come make up the stream, the read position can be moved back by the last `Read`, and a
`Read` returns the next bytes or none. -/
theorem raw_stream {m : ChunkReaderMirror} {es : List Event} (hrun : Run step anyStep (Tap.start m) es t) :
    t.taken ++ t.reader.rest = t.stream ∧
    (t.last ≤ t.reader.window.rp ∧ t.reader.window.rp ≤ t.reader.window.wp ∧
      t.reader.window.wp ≤ t.reader.window.buf.length) ∧
    ∀ n bs err m', rawRead t.reader n = (bs, err, m') →
      (err = none → bs = t.reader.rest.take n ∧ bs.length = n ∧ m'.rest = t.reader.rest.drop n) ∧
      (err ≠ none → bs = [] ∧ m'.rest = t.reader.rest) := by
  have hfaithful : Faithful t :=
    hrun.invariant (fun _ _ _ h _ hstep ↦ faithful_step h hstep) (faithful_of_whole (List.nil_append _) rfl)
  obtain ⟨w, start, hwindow, havailable, -⟩ := hfaithful.behind
  refine ⟨hfaithful.whole, ⟨?_, t.reader.window.rp_le, t.reader.window.wp_le⟩, ?_⟩
  · have hwp := w.rp_le
    rw [Window.available] at havailable
    rw [hwindow]
    simp only [Window.skip]
    omega
  · intro n bs err m' hread
    obtain ⟨hle, m'', hread', hrest⟩ | ⟨hlt, e, m'', hread', hrest⟩ := rawRead_eq t.reader n
    · rw [hread'] at hread
      cases hread
      refine ⟨fun _ ↦ ⟨rfl, ?_, hrest⟩, fun h ↦ absurd rfl h⟩
      rw [List.length_take, Nat.min_eq_left hle]
    · rw [hread'] at hread
      cases hread
      exact ⟨fun h ↦ (by cases h), fun _ ↦ ⟨rfl, hrest⟩⟩

section Cases

/-- Three bytes in two pieces, and then nothing for a while. -/
def dripping : ChunkReaderMirror := .new ⟨[[1, 2], [3]], .timeout, by decide⟩ 4

def interrupted : List Event :=
  [.read 2, .rewind 1, .read 1, .read 2, .resume ⟨[[4]], .eof, by decide⟩, .read 2]

theorem raw_stream_interrupted : ∃ t, Run step anyStep (Tap.start dripping) interrupted t ∧
    (t.taken == [1, 2, 3, 4]) = true ∧ t.taken ++ t.reader.rest = t.stream := by
  have htaken : (exec step anyStep (Tap.start dripping) interrupted).any (fun t ↦ t.taken == [1, 2, 3, 4]) = true := by
    decide
  obtain ⟨t, hrun, htaken⟩ := exists_run_of_exec htaken
  exact ⟨t, hrun, htaken, (raw_stream hrun).1⟩

end Cases

end PgRouter.Wire.RawStreams
