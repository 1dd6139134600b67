import PgRouter.Library.Reads

namespace PgRouter.Library.Buffered

open Reads Reads.Reader

/-- A source that fails only when nothing is left. -/
class Eager (σ : Type) {α : outParam Type} [Reader σ α] : Prop where
  read_eager : ∀ (s : σ) (k : ℕ), pending s ≠ [] → (read s k).2.1 = none

open Eager

section Sequences

variable {σ α : Type} [Reader σ α]

/-- Reads of the given sizes, one after the other, up to the first that fails. -/
def reads : List ℕ → σ → List α × Option IoErr × σ
  | [], s => ([], none, s)
  | k :: ks, s =>
    match read s k with
    | (got, some e, s') => (got, some e, s')
    | (got, none, s') =>
      match reads ks s' with
      | (more, e, s'') => (got ++ more, e, s'')

/-- However it is read, the source hands out `bytes` and nothing else, and all of it before it fails. -/
def ReadsExactly (s : σ) (bytes : List α) : Prop :=
  ∀ ks : List ℕ, (reads ks s).1 <+: bytes ∧ ((reads ks s).2.1 ≠ none → (reads ks s).1 = bytes) ∧
    ((∀ k ∈ ks, 0 < k) → bytes.length < ks.length → (reads ks s).1 = bytes)

theorem reads_append (ks : List ℕ) (s : σ) : (reads ks s).1 ++ pending (reads ks s).2.2 = pending s := by
  induction ks generalizing s with
  | nil => rfl
  | cons k ks ih =>
    have happend := read_append s k
    unfold reads
    rcases hread : read s k with ⟨got, _ | e, s'⟩
    · rw [hread] at happend
      simp only [List.append_assoc, ih]
      exact happend
    · rw [hread] at happend
      exact happend

theorem reads_fail (ks : List ℕ) (s : σ) (hpos : ∀ k ∈ ks, 0 < k) (h : (pending s).length < ks.length) :
    (reads ks s).2.1 ≠ none := by
  induction ks generalizing s with
  | nil => exact absurd h (Nat.not_lt_zero _)
  | cons k ks ih =>
    have happend := congrArg List.length (read_append s k)
    have hne := read_ne_nil s k (hpos k List.mem_cons_self)
    unfold reads
    rcases hread : read s k with ⟨got, _ | e, s'⟩
    · simp only [hread, List.length_append, forall_const] at happend hne ⊢
      have hgot := List.length_pos_iff.mpr hne
      rw [List.length_cons] at h
      exact ih s' (fun j hj ↦ hpos j (List.mem_cons_of_mem k hj)) (by omega)
    · simp

variable [Eager σ]

theorem pending_of_error {s : σ} {k : ℕ} (h : (read s k).2.1 ≠ none) : pending s = [] := by
  by_contra hne
  exact h (read_eager s k hne)

theorem reads_of_error (ks : List ℕ) (s : σ) (h : (reads ks s).2.1 ≠ none) : (reads ks s).1 = pending s := by
  induction ks generalizing s with
  | nil => exact absurd rfl h
  | cons k ks ih =>
    have happend := read_append s k
    unfold reads at h ⊢
    rcases hread : read s k with ⟨got, _ | e, s'⟩
    · simp only [hread] at happend h ⊢
      rw [ih s' h, happend]
    · have hnil : pending s = [] := pending_of_error (k := k) (by simp [hread])
      rw [hread, hnil] at happend
      simp only [hnil]
      exact (List.append_eq_nil_iff.mp happend).1

theorem readsExactly_pending (s : σ) : ReadsExactly s (pending s) := by
  intro ks
  refine ⟨⟨_, reads_append ks s⟩, reads_of_error ks s, fun hpos hlt ↦ ?_⟩
  exact reads_of_error ks s (reads_fail ks s hpos hlt)

end Sequences

section Connections

variable {α : Type}

instance : Eager (Conn α) where
  read_eager := Conn.read_eager

/-- What a connection hands out and then, past its end, another one: a connection that is read again
after a deadline has been lifted. -/
def followedBy (early late : Conn α) : Conn α :=
  ⟨early.pieces ++ late.pieces, late.ending,
    fun p hp ↦ (List.mem_append.mp hp).elim (early.nonempty p) (late.nonempty p)⟩

theorem pending_followedBy (early late : Conn α) :
    pending (followedBy early late) = pending early ++ pending late :=
  List.flatten_append

end Connections

/-- `bufio.Reader` over a source that hands out its error alone: the call that meets an error reports it,
so none is kept from one call to the next. -/
structure Buffer (σ α : Type) where
  held : List α
  rd : σ

def size : ℕ := 4096

namespace Buffer

variable {σ α : Type} [Reader σ α]

def newReader (rd : σ) : Buffer σ α := ⟨[], rd⟩

def fill (b : Buffer σ α) : Option IoErr × Buffer σ α :=
  match read b.rd (size - b.held.length) with
  | (got, e, rd) => (e, ⟨b.held ++ got, rd⟩)

def peekLoop (n : ℕ) : ℕ → Buffer σ α → Option IoErr × Buffer σ α
  | 0, b => (none, b)
  | fuel + 1, b =>
    if n ≤ b.held.length then (none, b)
    else match b.fill with
      | (none, b') => peekLoop n fuel b'
      | (some e, b') => (some e, b')

/-- `Peek` of no more than the buffer holds. A fill without an error makes progress, so `n` rounds suffice. -/
def peek (b : Buffer σ α) (n : ℕ) : List α × Option IoErr × Buffer σ α :=
  match peekLoop n n b with
  | (e, b') => (b'.held.take n, e, b')

def readByte (b : Buffer σ α) : Except IoErr α × Buffer σ α :=
  match b.held with
  | c :: held => (.ok c, ⟨held, b.rd⟩)
  | [] =>
    match b.fill with
    | (some e, b') => (.error e, b')
    | (none, ⟨[], rd⟩) => (.error .other, ⟨[], rd⟩)
    | (none, ⟨c :: held, rd⟩) => (.ok c, ⟨held, rd⟩)

/-- `Read`. A large read of an empty buffer goes to the source itself, a small one fills the buffer first. -/
def read (b : Buffer σ α) (k : ℕ) : List α × Option IoErr × Buffer σ α :=
  if k = 0 then ([], none, b)
  else match b.held with
    | [] =>
      if size ≤ k then
        match Reader.read b.rd k with
        | (got, e, rd) => (got, e, ⟨[], rd⟩)
      else
        match Reader.read b.rd size with
        | (got, e, rd) => (got.take k, e, ⟨got.drop k, rd⟩)
    | c :: held => ((c :: held).take k, none, ⟨(c :: held).drop k, b.rd⟩)

def contents (b : Buffer σ α) : List α := b.held ++ pending b.rd

theorem read_contents (b : Buffer σ α) (k : ℕ) : (b.read k).1 ++ (b.read k).2.2.contents = b.contents := by
  unfold read contents
  split
  · rfl
  · split
    · next hheld =>
      split
      · have happend := read_append b.rd k
        rcases hread : Reader.read b.rd k with ⟨got, e, rd⟩
        rw [hread] at happend
        rw [hheld]
        exact happend
      · have happend := read_append b.rd size
        rcases hread : Reader.read b.rd size with ⟨got, e, rd⟩
        rw [hread] at happend
        rw [hheld, ← List.append_assoc, List.take_append_drop]
        exact happend
    · next hheld => rw [← List.append_assoc, List.take_append_drop, hheld]

theorem read_length_le (b : Buffer σ α) (k : ℕ) : (b.read k).1.length ≤ k := by
  unfold read
  split
  · exact Nat.zero_le _
  · split
    · split
      · exact Reader.read_length b.rd k
      · exact List.length_take_le _ _
    · exact List.length_take_le _ _

theorem read_eager [Eager σ] (b : Buffer σ α) (k : ℕ) (h : b.contents ≠ []) : (b.read k).2.1 = none := by
  unfold read
  split
  · rfl
  · split
    · next hheld =>
      have hpending : pending b.rd ≠ [] := by
        rw [contents, hheld] at h
        exact h
      split
      · exact Eager.read_eager b.rd k hpending
      · exact Eager.read_eager b.rd size hpending
    · rfl

theorem read_progress (b : Buffer σ α) {k : ℕ} (hk : 0 < k) (h : (b.read k).2.1 = none) : (b.read k).1 ≠ [] := by
  unfold read at h ⊢
  rw [if_neg (Nat.ne_of_gt hk)] at h ⊢
  split
  · next hheld =>
    rw [hheld] at h
    split
    · next hsize =>
      simp only [hsize, if_true] at h
      exact read_ne_nil b.rd k hk h
    · next hsize =>
      simp only [hsize, if_false] at h
      have hne := read_ne_nil b.rd size (by decide) h
      rcases hread : Reader.read b.rd size with ⟨got, e, rd⟩
      rw [hread] at hne
      simp only [ne_eq, List.take_eq_nil_iff, not_or]
      exact ⟨Nat.ne_of_gt hk, hne⟩
  · simp
    omega

instance [Eager σ] : Reader (Buffer σ α) α where
  read := read
  pending := contents
  read_append := read_contents
  read_length := read_length_le
  read_none b k hk hle := read_eager b k fun h ↦ by
    rw [h] at hle
    exact absurd hle (Nat.not_le_of_gt hk)
  read_ne_nil b k hk h := read_progress b hk h

instance [Eager σ] : Eager (Buffer σ α) where
  read_eager := read_eager

section Filling

theorem fill_contents (b : Buffer σ α) : b.fill.2.contents = b.contents := by
  have happend := read_append b.rd (size - b.held.length)
  unfold fill contents
  rcases hread : Reader.read b.rd (size - b.held.length) with ⟨got, e, rd⟩
  rw [hread] at happend
  simp only [List.append_assoc]
  rw [happend]

theorem fill_progress (b : Buffer σ α) (hroom : b.held.length < size) (h : b.fill.1 = none) :
    b.held.length < b.fill.2.held.length := by
  have hne := read_ne_nil b.rd (size - b.held.length) (by omega)
  unfold fill at h ⊢
  rcases hread : Reader.read b.rd (size - b.held.length) with ⟨got, e, rd⟩
  simp only [hread] at hne h ⊢
  have hgot := List.length_pos_iff.mpr (hne h)
  rw [List.length_append]
  omega

variable {b : Buffer σ α}

theorem readByte_nil (h : b.contents = []) : ∃ e b', b.readByte = (.error e, b') := by
  unfold readByte
  have hheld : b.held = [] := (List.append_eq_nil_iff.mp h).1
  have hcontents := b.fill_contents
  rw [hheld]
  rcases hfill : b.fill with ⟨_ | e, ⟨_ | ⟨d, held⟩, rd⟩⟩
  · exact ⟨_, _, rfl⟩
  · rw [hfill, h] at hcontents
    cases hcontents
  · exact ⟨_, _, rfl⟩
  · exact ⟨_, _, rfl⟩

variable [Eager σ]

theorem held_of_fill_error {e : IoErr} (h : b.fill.1 = some e) : b.held = b.contents := by
  have hnil : pending b.rd = [] := by
    apply pending_of_error (k := size - b.held.length)
    unfold fill at h
    rcases hread : Reader.read b.rd (size - b.held.length) with ⟨got, e', rd⟩
    simp only [hread] at h
    simp [h]
  rw [contents, hnil, List.append_nil]

variable {n : ℕ}

theorem peekLoop_spec (hn : n ≤ size) (fuel : ℕ) (b : Buffer σ α) (hfuel : n ≤ b.held.length + fuel) :
    (peekLoop n fuel b).2.contents = b.contents ∧
      ((peekLoop n fuel b).1 = none ∧ n ≤ (peekLoop n fuel b).2.held.length ∨
        (peekLoop n fuel b).1 ≠ none ∧ b.contents.length < n) := by
  induction fuel generalizing b with
  | zero => exact ⟨rfl, .inl ⟨rfl, hfuel⟩⟩
  | succ fuel ih =>
    unfold peekLoop
    split
    · next henough => exact ⟨rfl, .inl ⟨rfl, henough⟩⟩
    · next hless =>
      have hcontents := b.fill_contents
      rcases hfill : b.fill with ⟨_ | e, b'⟩
      · have hprogress := b.fill_progress (by omega) (by rw [hfill])
        simp only [hfill] at hcontents hprogress
        obtain ⟨hsame, hends⟩ := ih b' (by omega)
        rw [hcontents] at hsame hends
        exact ⟨hsame, hends⟩
      · have hheld := held_of_fill_error (b := b) (e := e) (by rw [hfill])
        rw [hfill] at hcontents
        exact ⟨hcontents, .inr ⟨by simp, by rw [← hheld]; omega⟩⟩

theorem peek_eq (b : Buffer σ α) (hn : n ≤ size) (h : n ≤ b.contents.length) :
    ∃ b', b.peek n = (b.contents.take n, none, b') ∧ b'.contents = b.contents := by
  obtain ⟨hsame, ⟨hnone, henough⟩ | ⟨-, hless⟩⟩ := peekLoop_spec hn n b (Nat.le_add_left n _)
  · refine ⟨(peekLoop n n b).2, ?_, hsame⟩
    have hheld : (peekLoop n n b).2.held.take n = b.contents.take n := by
      rw [← hsame, contents, List.take_append_of_le_length henough]
    unfold peek
    rw [← hheld, ← hnone]
  · exact absurd h (Nat.not_le_of_gt hless)

theorem peek_short (b : Buffer σ α) (hn : n ≤ size) (h : b.contents.length < n) :
    ∃ got e b', b.peek n = (got, some e, b') := by
  obtain ⟨hsame, ⟨-, henough⟩ | ⟨hsome, -⟩⟩ := peekLoop_spec hn n b (Nat.le_add_left n _)
  · rw [← hsame, contents, List.length_append] at h
    omega
  · obtain ⟨e, he⟩ := Option.ne_none_iff_exists'.mp hsome
    refine ⟨(peekLoop n n b).2.held.take n, e, (peekLoop n n b).2, ?_⟩
    unfold peek
    rw [← he]

theorem readByte_cons {c : α} {rest : List α} (h : b.contents = c :: rest) :
    ∃ b', b.readByte = (.ok c, b') ∧ b'.contents = rest := by
  unfold readByte
  cases hheld : b.held with
  | cons d held =>
    rw [contents, hheld] at h
    cases h
    exact ⟨_, rfl, rfl⟩
  | nil =>
    have hcontents := b.fill_contents
    have hprogress := b.fill_progress (by rw [hheld]; exact Nat.zero_lt_succ 4095)
    rcases hfill : b.fill with ⟨_ | e, ⟨_ | ⟨d, held⟩, rd⟩⟩
    · simp [hfill, hheld] at hprogress
    · rw [hfill, h] at hcontents
      cases hcontents
      exact ⟨_, rfl, rfl⟩
    all_goals
      have hnil := held_of_fill_error (b := b) (e := e) (by rw [hfill])
      rw [hheld, h] at hnil
      cases hnil

end Filling

end Buffer

end PgRouter.Library.Buffered
