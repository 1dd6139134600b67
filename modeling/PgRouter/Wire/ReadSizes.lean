import PgRouter.Wire.RawReads

namespace PgRouter.Wire.ReadSizes

open Library.Reads Library.Reads.Reader Library.Windows RawReads

/-- The sizes of a reader: its buffer, the bytes in it, and the reads to come. -/
structure Sizes where
  cap : ℕ
  avail : ℕ
  reads : List ℕ

def sizes (rc : RawConn) : Sizes :=
  ⟨rc.window.buf.length, rc.window.available, rc.conn.pieces.map List.length⟩

namespace Sizes

def grown (s : Sizes) (n : ℕ) : ℕ := if s.cap < n then max (s.cap * 2) n else s.cap

def readOnce (s : Sizes) (n : ℕ) : Sizes :=
  match s.reads with
  | [] => { s with cap := s.grown n }
  | p :: ps =>
    if p ≤ s.grown n - s.avail then ⟨s.grown n, s.avail + p, ps⟩
    else ⟨s.grown n, s.grown n, (p - (s.grown n - s.avail)) :: ps⟩

theorem le_grown (s : Sizes) (n : ℕ) : n ≤ s.grown n := by
  unfold grown
  split <;> omega

theorem readOnce_cons {s : Sizes} {p : ℕ} {ps : List ℕ} (h : s.reads = p :: ps) (n : ℕ)
    (hle : s.avail ≤ s.grown n) :
    s.readOnce n = ⟨s.grown n, s.avail + min p (s.grown n - s.avail),
      if p ≤ s.grown n - s.avail then ps else (p - (s.grown n - s.avail)) :: ps⟩ := by
  rw [readOnce, h]
  simp only
  split
  · rename_i hp
    rw [Nat.min_eq_left hp]
  · rename_i hp
    rw [Nat.min_eq_right (by omega), Nat.add_sub_cancel' hle]

def peekLoop (n : ℕ) : ℕ → Sizes → Sizes
  | 0, s => s
  | fuel + 1, s => if n ≤ s.avail then s else peekLoop n fuel (s.readOnce n)

def peek (s : Sizes) (n : ℕ) : Sizes := peekLoop n n s

/-- The reads to come once `n` bytes have been read from the socket. -/
def dropReads : ℕ → List ℕ → List ℕ
  | _, [] => []
  | n, p :: ps => if p ≤ n then dropReads (n - p) ps else (p - n) :: ps

def message (s : Sizes) (n : ℕ) : Sizes :=
  if n ≤ s.avail then
    { s.peek (5 + n) with avail := (s.peek (5 + n)).avail - (5 + n) }
  else { s with avail := s.avail - 5, reads := dropReads n s.reads }

/-- Whenever a header is complete in the buffer, none of the body or all of it but
at most a header's length is there too. -/
def Aligned : Sizes → List ℕ → Prop
  | _, [] => True
  | s, n :: ns => ((s.peek 5).avail = 5 ∨ n ≤ (s.peek 5).avail) ∧ Aligned ((s.peek 5).message n) ns

end Sizes

variable {c : Conn UInt8} (rc : RawConn) (n fuel : ℕ)

theorem read_cons {p : List UInt8} {ps : List (List UInt8)} (h : c.pieces = p :: ps) (k : ℕ) :
    (read c k).1.length = min p.length k ∧ (read c k).2.1 = none ∧
      (read c k).2.2.pieces.map List.length =
        (if p.length ≤ k then ps.map List.length else (p.length - k) :: ps.map List.length) ∧
      (read c k).2.2.ending = c.ending := by
  rcases c with ⟨pieces, ending, hne⟩
  cases h
  change (Conn.read _ k).1.length = _ ∧ (Conn.read _ k).2.1 = none ∧
    (Conn.read _ k).2.2.pieces.map List.length = _ ∧ (Conn.read _ k).2.2.ending = _
  simp only [Conn.read]
  split
  · rename_i hk
    exact ⟨(Nat.min_eq_left hk).symm, rfl, rfl, rfl⟩
  · refine ⟨by rw [List.length_take, Nat.min_comm], rfl, ?_, rfl⟩
    rw [List.map_cons, List.length_drop]

theorem pieces_cons (h : 0 < (pending c).length) : ∃ p ps, c.pieces = p :: ps ∧ 0 < p.length := by
  rcases c with ⟨_ | ⟨p, ps⟩, e, hne⟩
  · exact absurd h (by simp [pending])
  · exact ⟨p, ps, rfl, List.length_pos_iff.mpr (hne p List.mem_cons_self)⟩

theorem compacted_spec (w : Window UInt8) :
    (RawConn.compacted w).filled = w.filled ∧ (RawConn.compacted w).buf.length = w.buf.length ∧
      (RawConn.compacted w).available = w.available ∧ (RawConn.compacted w).wp = w.available := by
  unfold RawConn.compacted
  split
  · exact ⟨w.filled_compact, w.length_compact, w.available_compact, rfl⟩
  · refine ⟨rfl, rfl, rfl, ?_⟩
    rw [Window.available]
    omega

theorem grown_spec :
    (RawConn.grown (RawConn.compacted rc.window) n).filled = rc.window.filled ∧
      (RawConn.grown (RawConn.compacted rc.window) n).buf.length = (sizes rc).grown n ∧
      (RawConn.grown (RawConn.compacted rc.window) n).wp = rc.window.available := by
  obtain ⟨hf, hl, ha, hw⟩ := compacted_spec rc.window
  unfold RawConn.grown
  split
  · rename_i h
    rw [Window.filled_onto, Window.length_onto, List.length_replicate]
    refine ⟨hf, ?_, ha⟩
    rw [hl] at h ⊢
    exact (if_pos h).symm
  · rename_i h
    rw [hl] at h
    exact ⟨hf, hl.trans (if_neg h).symm, hw⟩

theorem rest_length : rc.rest.length = rc.window.available + (pending rc.conn).length := by
  rw [RawConn.rest, List.length_append, Window.filled_length]

theorem readOnce_eq (hn : rc.window.available < n) (hrest : n ≤ rc.rest.length) :
    ∃ rc', rc.readOnce n = (none, rc') ∧ rc'.rest = rc.rest ∧
      sizes rc' = (sizes rc).readOnce n ∧ rc'.conn.ending = rc.conn.ending ∧
      rc.window.available < rc'.window.available := by
  obtain ⟨hf, hl, hw⟩ := grown_spec rc n
  have hroom : (RawConn.grown (RawConn.compacted rc.window) n).room =
      (sizes rc).grown n - rc.window.available := by rw [Window.room, hl, hw]
  have havail : (RawConn.grown (RawConn.compacted rc.window) n).available = rc.window.available := by
    rw [← Window.filled_length, hf, Window.filled_length]
  have hg := (sizes rc).le_grown n
  rw [rest_length] at hrest
  obtain ⟨p, ps, hp, hpos⟩ := pieces_cons (show 0 < (pending rc.conn).length by omega)
  obtain ⟨hlen, hnone, hpieces, hend⟩ :=
    read_cons hp (RawConn.grown (RawConn.compacted rc.window) n).room
  refine ⟨_, by rw [RawConn.readOnce, hnone], ?_, ?_, hend, ?_⟩
  · rw [RawConn.rest, Window.filled_fill, hf, List.append_assoc, read_append, RawConn.rest]
  · have hreads : (sizes rc).reads = p.length :: ps.map List.length := by
      rw [sizes, hp, List.map_cons]
    have hav : (sizes rc).avail = rc.window.available := rfl
    rw [Sizes.readOnce_cons hreads n (by omega), sizes]
    simp only [Window.length_fill, Window.available_fill, hl, havail, hlen, hpieces, hav]
    rw [hroom]
  · simp only [Window.available_fill, havail, hlen]
    omega

theorem peekLoop_eq (rc : RawConn) (hfuel : n ≤ rc.window.available + fuel) (hn : n ≤ rc.rest.length) :
    ∃ rc', RawConn.peekLoop n fuel rc = (rc.rest.take n, none, rc') ∧ rc'.rest = rc.rest ∧
      sizes rc' = (sizes rc).peekLoop n fuel ∧ rc'.conn.ending = rc.conn.ending ∧
      n ≤ rc'.window.available := by
  have hpeek (h : n ≤ rc.window.available) : rc.window.filled.take n = rc.rest.take n := by
    rw [RawConn.rest, List.take_append_of_le_length (by rw [Window.filled_length]; omega)]
  induction fuel generalizing rc with
  | zero => exact ⟨rc, by rw [RawConn.peekLoop, hpeek (by omega)], rfl, rfl, rfl, by omega⟩
  | succ fuel ih =>
    have hav : (sizes rc).avail = rc.window.available := rfl
    rw [RawConn.peekLoop, Sizes.peekLoop, hav]
    split
    · rename_i h
      exact ⟨rc, by rw [hpeek h], rfl, rfl, rfl, h⟩
    · rename_i h
      obtain ⟨rc₁, hr, hrest, hs, hend, hlt⟩ := readOnce_eq rc n (by omega) hn
      obtain ⟨rc', hloop, hrest', hs', hend', hle⟩ := ih rc₁ (by omega) (by rw [hrest]; exact hn) (by
        intro h
        rw [RawConn.rest, List.take_append_of_le_length (by rw [Window.filled_length]; omega)])
      refine ⟨rc', ?_, hrest'.trans hrest, by rw [hs', hs], hend'.trans hend, hle⟩
      rw [hr, ← hrest]
      exact hloop

theorem peek_eq (hn : n ≤ rc.rest.length) :
    ∃ rc', rc.peek n = (rc.rest.take n, none, rc') ∧ rc'.rest = rc.rest ∧
      sizes rc' = (sizes rc).peek n ∧ rc'.conn.ending = rc.conn.ending ∧
      n ≤ rc'.window.available :=
  peekLoop_eq n n rc (by omega) hn

theorem read_nil (h : pending c = []) (k : ℕ) : (read c k).1 = [] ∧ (read c k).2.1 = some c.ending := by
  rcases c with ⟨_ | ⟨p, ps⟩, e, hne⟩
  · exact ⟨rfl, rfl⟩
  · exact absurd (List.append_eq_nil_iff.mp h).1 (hne p List.mem_cons_self)

theorem peek_nil (h : rc.rest = []) : ∃ rc', rc.peek (n + 1) = ([], some rc.conn.ending, rc') := by
  obtain ⟨hfilled, hpending⟩ := List.append_eq_nil_iff.mp h
  obtain ⟨hf, -, -⟩ := grown_spec rc (n + 1)
  obtain ⟨hgot, herr⟩ :=
    read_nil hpending (RawConn.grown (RawConn.compacted rc.window) (n + 1)).room
  have hzero : rc.window.available = 0 := by rw [← Window.filled_length, hfilled, List.length_nil]
  have hzero' : (rc.readOnce (n + 1)).2.window.available = 0 := by
    rw [← Window.filled_length]
    simp only [RawConn.readOnce, Window.filled_fill, hgot, hf, hfilled, List.append_nil,
      List.length_nil]
  have herr' : (rc.readOnce (n + 1)).1 = some rc.conn.ending := herr
  rcases hr : rc.readOnce (n + 1) with ⟨e, rc'⟩
  rw [hr] at hzero' herr'
  simp only at hzero' herr'
  refine ⟨rc', ?_⟩
  rw [RawConn.peek, RawConn.peekLoop, if_neg (by omega), hr, herr']
  simp only
  rw [if_neg (by omega)]

theorem dropReads_zero (ps : List ℕ) (h : ∀ p ∈ ps, 0 < p) : Sizes.dropReads 0 ps = ps := by
  cases ps with
  | nil => rfl
  | cons p ps =>
    have hp := h p List.mem_cons_self
    rw [Sizes.dropReads, if_neg (by omega), Nat.sub_zero]

theorem sizes_pos (c : Conn UInt8) : ∀ p ∈ c.pieces.map List.length, 0 < p := by
  intro p hp
  obtain ⟨q, hq, rfl⟩ := List.mem_map.mp hp
  exact List.length_pos_iff.mpr (c.nonempty q hq)

theorem readLoop_sizes (got : List UInt8) (c : Conn UInt8) (hfuel : n ≤ got.length + fuel) (hgot : got.length ≤ n)
    (hn : n ≤ got.length + (pending c).length) :
    (readLoop n n fuel got c).2.2.pieces.map List.length =
        Sizes.dropReads (n - got.length) (c.pieces.map List.length) ∧
      (readLoop n n fuel got c).2.2.ending = c.ending := by
  induction fuel generalizing got c with
  | zero =>
    rw [readLoop, show n - got.length = 0 by omega, dropReads_zero _ (sizes_pos c)]
    exact ⟨rfl, rfl⟩
  | succ fuel ih =>
    rw [readLoop]
    split
    · rw [show n - got.length = 0 by omega, dropReads_zero _ (sizes_pos c)]
      exact ⟨rfl, rfl⟩
    · obtain ⟨p, ps, hp, hpos⟩ := pieces_cons (show 0 < (pending c).length by omega)
      obtain ⟨hlen, hnone, hpieces, hend⟩ := read_cons hp (n - got.length)
      have happ := congrArg List.length (read_append c (n - got.length))
      rcases hr : read c (n - got.length) with ⟨more, _ | e, c'⟩
      · simp only [hr, List.length_append] at hlen hpieces hend happ ⊢
        obtain ⟨hs, he⟩ := ih (got ++ more) c' (by rw [List.length_append]; omega)
          (by rw [List.length_append]; omega) (by rw [List.length_append]; omega)
        refine ⟨?_, he.trans hend⟩
        rw [hs, hp, List.map_cons, Sizes.dropReads, List.length_append, hlen]
        split
        · rename_i hle
          rw [hpieces, if_pos hle, Nat.min_eq_left hle, Nat.sub_add_eq]
        · rename_i hle
          rw [Nat.min_eq_right (by omega), show n - (got.length + (n - got.length)) = 0 by omega,
            dropReads_zero _ (sizes_pos c'), hpieces, if_neg hle]
      · rw [hr] at hnone
        cases hnone

theorem readFull_sizes (c : Conn UInt8) (n : ℕ) (hn : n ≤ (pending c).length) :
    ∃ c', readFull c n = ((pending c).take n, none, c') ∧ pending c' = (pending c).drop n ∧
      c'.pieces.map List.length = Sizes.dropReads n (c.pieces.map List.length) ∧
      c'.ending = c.ending := by
  obtain ⟨c', hr, hp⟩ := readFull_eq c n hn
  obtain ⟨hs, he⟩ := readLoop_sizes n n [] c (by simp) (Nat.zero_le _) (by simpa using hn)
  have hc : (readFull c n).2.2 = (readLoop n n n [] c).2.2 := by
    unfold readFull readAtLeast
    rcases readLoop n n n [] c with ⟨got, e, s⟩
    simp only
    split
    · rfl
    · split <;> rfl
  rw [hr] at hc
  refine ⟨c', hr, hp, ?_, ?_⟩
  · exact (congrArg (fun d : Conn UInt8 ↦ d.pieces.map List.length) hc).trans hs
  · exact (congrArg Conn.ending hc).trans he

end PgRouter.Wire.ReadSizes
