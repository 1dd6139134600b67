import Mathlib.Data.List.Basic
import Mathlib.Order.Nat

namespace PgRouter.Library.Reads

/-- The errors a source or a sink can report. -/
inductive IoErr
  | eof
  | unexpectedEOF
  | timeout
  | shortWrite
  | other
  deriving DecidableEq, Repr

/-- A source of elements, read through calls that each ask for at most `k`
of them. `pending` is all it will still hand out. How a call splits it is free,
except that a call fails only when fewer than `k` elements are left. -/
class Reader (σ : Type) (α : outParam Type) where
  read : σ → ℕ → List α × Option IoErr × σ
  pending : σ → List α
  read_append : ∀ s k, (read s k).1 ++ pending (read s k).2.2 = pending s
  read_length : ∀ s k, (read s k).1.length ≤ k
  read_none : ∀ s k, 0 < k → k ≤ (pending s).length → (read s k).2.1 = none
  read_ne_nil : ∀ s k, 0 < k → (read s k).2.1 = none → (read s k).1 ≠ []

open Reader

section

variable {σ α : Type} [Reader σ α]

/-- The loop of `io.ReadAtLeast`: at most `room` elements, until `least` are there. -/
def readLoop (room least : ℕ) : ℕ → List α → σ → List α × Option IoErr × σ
  | 0, got, s => (got, none, s)
  | fuel + 1, got, s =>
    if least ≤ got.length then (got, none, s)
    else match read s (room - got.length) with
      | (more, none, s') => readLoop room least fuel (got ++ more) s'
      | (more, some e, s') => (got ++ more, some e, s')

/-- `io.ReadAtLeast`. A call without an error makes progress, so `least` rounds suffice. -/
def readAtLeast (s : σ) (room least : ℕ) : List α × Option IoErr × σ :=
  match readLoop room least least [] s with
  | (got, e, s') =>
    if least ≤ got.length then (got, none, s')
    else if got ≠ [] ∧ e = some .eof then (got, some .unexpectedEOF, s')
    else (got, e, s')

def readFull (s : σ) (n : ℕ) : List α × Option IoErr × σ := readAtLeast s n n

variable (out : List α) (size room : ℕ) (s : σ) (n least : ℕ)

theorem readLoop_append (fuel : ℕ) (got : List α) (s : σ) :
    (readLoop room least fuel got s).1 ++ pending (readLoop room least fuel got s).2.2 =
      got ++ pending s := by
  fun_induction readLoop room least fuel got s with
  | case1 | case2 => rfl
  | case3 fuel got s hlt more s' hr ih =>
    have h := read_append s (room - got.length)
    simp only [hr] at h
    rw [ih, List.append_assoc, h]
  | case4 fuel got s hlt more e s' hr =>
    have h := read_append s (room - got.length)
    simp only [hr] at h
    rw [List.append_assoc, h]

theorem readLoop_length (fuel : ℕ) (got : List α) (s : σ) (hg : got.length ≤ room) :
    (readLoop room least fuel got s).1.length ≤ room := by
  fun_induction readLoop room least fuel got s with
  | case1 | case2 => exact hg
  | case3 fuel got s hlt more s' hr ih =>
    have h := read_length s (room - got.length)
    simp only [hr] at h
    apply ih
    rw [List.length_append]
    omega
  | case4 fuel got s hlt more e s' hr =>
    have h := read_length s (room - got.length)
    simp only [hr] at h
    rw [List.length_append]
    omega

theorem readLoop_enough (hroom : least ≤ room) (fuel : ℕ) (got : List α) (s : σ) (hfuel : least ≤ got.length + fuel)
    (hn : (readLoop room least fuel got s).2.1 = none) : least ≤ (readLoop room least fuel got s).1.length := by
  fun_induction readLoop room least fuel got s with
  | case1 => exact hfuel
  | case2 => assumption
  | case3 fuel got s hlt more s' hr ih =>
    have hne := read_ne_nil s (room - got.length) (by omega)
    simp only [hr, forall_const] at hne
    have hpos := List.length_pos_iff.mpr hne
    exact ih (by rw [List.length_append]; omega) hn
  | case4 => cases hn

theorem readLoop_none
    (hok : ∀ (t : σ) (n : ℕ), n < least → least ≤ n + (pending t).length → (read t (room - n)).2.1 = none) (fuel : ℕ)
    (got : List α) (s : σ) (hl : least ≤ got.length + (pending s).length) :
    (readLoop room least fuel got s).2.1 = none := by
  fun_induction readLoop room least fuel got s with
  | case1 | case2 => rfl
  | case3 fuel got s hlt more s' hr ih =>
    have ha := congrArg List.length (read_append s (room - got.length))
    simp only [hr, List.length_append] at ha
    exact ih (by rw [List.length_append]; omega)
  | case4 fuel got s hlt more e s' hr =>
    have hn := hok s got.length (by omega) hl
    rw [hr] at hn
    cases hn

theorem readAtLeast_loop (room least : ℕ) : (readAtLeast s room least).1 = (readLoop room least least [] s).1 ∧
    (readAtLeast s room least).2.2 = (readLoop room least least [] s).2.2 := by
  unfold readAtLeast
  rcases readLoop room least least [] s with ⟨got, e, s'⟩
  dsimp only
  split
  · exact ⟨rfl, rfl⟩
  · split <;> exact ⟨rfl, rfl⟩

theorem readAtLeast_append (room least : ℕ) :
    (readAtLeast s room least).1 ++ pending (readAtLeast s room least).2.2 = pending s := by
  obtain ⟨hgot, hs⟩ := readAtLeast_loop s room least
  rw [hgot, hs]
  exact readLoop_append room least least [] s

theorem readAtLeast_length (room least : ℕ) : (readAtLeast s room least).1.length ≤ room := by
  rw [(readAtLeast_loop s room least).1]
  exact readLoop_length room least least [] s (Nat.zero_le _)

theorem readAtLeast_enough (room least : ℕ) (hroom : least ≤ room) (hn : (readAtLeast s room least).2.1 = none) :
    least ≤ (readAtLeast s room least).1.length := by
  have h := readLoop_enough room least hroom least [] s (by simp)
  unfold readAtLeast at hn ⊢
  rcases hr : readLoop room least least [] s with ⟨got, e, s'⟩
  simp only [hr] at h hn ⊢
  split
  · assumption
  · rename_i hlt
    simp only [hlt, if_false] at hn
    split at hn
    · simp at hn
    · exact absurd (h hn) hlt

theorem readAtLeast_none (room least : ℕ)
    (hok : ∀ (t : σ) (n : ℕ), n < least → least ≤ n + (pending t).length → (read t (room - n)).2.1 = none)
    (hl : least ≤ (pending s).length) : (readAtLeast s room least).2.1 = none := by
  have h := readLoop_none room least hok least [] s (by simpa using hl)
  unfold readAtLeast
  rcases hr : readLoop room least least [] s with ⟨got, e, s'⟩
  simp only [hr] at h ⊢
  simp only [h]
  split
  · rfl
  · simp

theorem readFull_none (h : n ≤ (pending s).length) : (readFull s n).2.1 = none :=
  readAtLeast_none s n n (fun t k _ _ ↦ read_none t (n - k) (by omega) (by omega)) h

theorem readFull_some (h : (pending s).length < n) : (readFull s n).2.1 ≠ none := by
  intro hn
  have hl := readAtLeast_enough s n n (Nat.le_refl n) hn
  have ha := congrArg List.length (readAtLeast_append s n n)
  rw [List.length_append] at ha
  omega

theorem readFull_eq (h : n ≤ (pending s).length) :
    ∃ s', readFull s n = ((pending s).take n, none, s') ∧ pending s' = (pending s).drop n := by
  have hnone := readFull_none s n h
  have hlen := readAtLeast_enough s n n (Nat.le_refl n) hnone
  have hle := readAtLeast_length s n n
  have happ := readAtLeast_append s n n
  unfold readFull at hnone ⊢
  rcases hr : readAtLeast s n n with ⟨got, e, s'⟩
  simp only [hr] at hnone hlen hle happ
  have hn : n = got.length := by omega
  refine ⟨s', ?_, ?_⟩
  · rw [hnone, ← happ, hn, List.take_left]
  · rw [← happ, hn, List.drop_left]

/-- A sink that takes `room` more elements, or any number, and then fails for good. -/
structure Writer (α : Type) where
  out : List α
  room : Option ℕ

def Writer.write (w : Writer α) (p : List α) : Option IoErr × Writer α :=
  match w.room with
  | none => (none, ⟨w.out ++ p, none⟩)
  | some n =>
    if p.length ≤ n then (none, ⟨w.out ++ p, some (n - p.length)⟩)
    else (some .shortWrite, ⟨w.out ++ p.take n, some 0⟩)

theorem Writer.write_room_none (p : List α) : (⟨out, none⟩ : Writer α).write p = (none, ⟨out ++ p, none⟩) := rfl

/-- The loop of `io.Copy` behind a limited reader, with a buffer of `size` elements. -/
def copyLoop (size : ℕ) : ℕ → ℕ → Writer α → σ → Option IoErr × Writer α × σ
  | 0, _, dst, s => (none, dst, s)
  | fuel + 1, left, dst, s =>
    if left = 0 then (none, dst, s)
    else match read s (min size left) with
      | (got, e, s') =>
        match dst.write got, e with
        | (some ew, dst'), _ => (some ew, dst', s')
        | (none, dst'), none => copyLoop size fuel (left - got.length) dst' s'
        | (none, dst'), some e => (if left = got.length then none else some e, dst', s')

def copyN (dst : Writer α) (s : σ) (n : ℕ) : Option IoErr × Writer α × σ :=
  copyLoop (32 * 1024) n n dst s

theorem copyLoop_eq (hsize : 0 < size) (fuel left : ℕ) (out : List α) (s : σ) (hfuel : left ≤ fuel)
    (h : left ≤ (pending s).length) :
    ∃ s', copyLoop size fuel left ⟨out, none⟩ s =
      (none, ⟨out ++ (pending s).take left, none⟩, s') ∧ pending s' = (pending s).drop left := by
  induction fuel generalizing left out s with
  | zero =>
    obtain rfl : left = 0 := by omega
    exact ⟨s, by simp [copyLoop], rfl⟩
  | succ fuel ih =>
    unfold copyLoop
    split
    · rename_i h0
      subst h0
      exact ⟨s, by simp, rfl⟩
    · rename_i h0
      have hk : 0 < min size left := by omega
      have hn := read_none s (min size left) hk (by omega)
      have hne := read_ne_nil s (min size left) hk hn
      have hlen := read_length s (min size left)
      have happ := read_append s (min size left)
      rcases hr : read s (min size left) with ⟨got, e, s₁⟩
      simp only [hr] at hn hne hlen happ
      subst hn
      have hpos := List.length_pos_iff.mpr hne
      have hall := congrArg List.length happ
      rw [List.length_append] at hall
      obtain ⟨s', hs', hp'⟩ := ih (left - got.length) (out ++ got) s₁ (by omega) (by omega)
      refine ⟨s', ?_, ?_⟩
      · simp only [Writer.write_room_none, hs', ← happ, List.append_assoc]
        rw [List.take_append, List.take_of_length_le (by omega : got.length ≤ left)]
      · rw [hp', ← happ, List.drop_append, List.drop_of_length_le (by omega : got.length ≤ left),
          List.nil_append]

theorem copyN_eq (h : n ≤ (pending s).length) :
    ∃ s', copyN ⟨out, none⟩ s n = (none, ⟨out ++ (pending s).take n, none⟩, s') ∧
      pending s' = (pending s).drop n :=
  copyLoop_eq _ (by decide) n n out s (Nat.le_refl n) h

theorem copyLoop_none (hsize : 0 < size) (fuel left : ℕ) (dst : Writer α) (s : σ) (hfuel : left ≤ fuel)
    (hn : (copyLoop size fuel left dst s).1 = none) :
    left ≤ (pending s).length ∧
      pending (copyLoop size fuel left dst s).2.2 = (pending s).drop left := by
  induction fuel generalizing left dst s with
  | zero =>
    obtain rfl : left = 0 := by omega
    exact ⟨Nat.zero_le _, rfl⟩
  | succ fuel ih =>
    unfold copyLoop at hn ⊢
    split
    · rename_i h0
      subst h0
      exact ⟨Nat.zero_le _, rfl⟩
    · rename_i h0
      simp only [h0, if_false] at hn
      have hk : 0 < min size left := by omega
      have hne := read_ne_nil s (min size left) hk
      have hlen := read_length s (min size left)
      have happ := read_append s (min size left)
      rcases hr : read s (min size left) with ⟨got, e, s₁⟩
      simp only [hr] at hn hne hlen happ ⊢
      have hall := congrArg List.length happ
      rw [List.length_append] at hall
      rcases hw : dst.write got with ⟨_ | ew, dst'⟩
      · cases e with
        | none =>
          simp only [hw] at hn ⊢
          have hpos := List.length_pos_iff.mpr (hne rfl)
          obtain ⟨hl, hp⟩ := ih (left - got.length) dst' s₁ (by omega) hn
          refine ⟨by omega, ?_⟩
          rw [hp, ← happ, List.drop_append, List.drop_of_length_le (by omega : got.length ≤ left),
            List.nil_append]
        | some e =>
          simp only [hw] at hn ⊢
          have hl : left = got.length := by
            by_contra hc
            simp [hc] at hn
          refine ⟨by omega, ?_⟩
          rw [← happ, hl, List.drop_left]
      · simp [hw] at hn

theorem copyN_none (dst : Writer α) (s : σ) (n : ℕ) (hn : (copyN dst s n).1 = none) :
    n ≤ (pending s).length ∧ pending (copyN dst s n).2.2 = (pending s).drop n :=
  copyLoop_none _ (by decide) n n dst s (Nat.le_refl n) hn

section Kept

variable {R : σ → σ → Prop} (hrefl : ∀ s, R s s) (htrans : ∀ {s t u}, R s t → R t u → R s u)
  (hread : ∀ s k, R s (read s k).2.2)

include hrefl htrans hread

theorem readLoop_keeps (room least fuel : ℕ) (got : List α) (s : σ) :
    R s (readLoop room least fuel got s).2.2 := by
  fun_induction readLoop room least fuel got s with
  | case1 | case2 => exact hrefl _
  | case3 fuel got s hlt more s' hr ih =>
    have h := hread s (room - got.length)
    simp only [hr] at h
    exact htrans h ih
  | case4 fuel got s hlt more e s' hr =>
    have h := hread s (room - got.length)
    simp only [hr] at h
    exact h

theorem readAtLeast_keeps (s : σ) (room least : ℕ) : R s (readAtLeast s room least).2.2 := by
  rw [(readAtLeast_loop s room least).2]
  exact readLoop_keeps hrefl htrans hread room least least [] s

theorem readFull_keeps (s : σ) (n : ℕ) : R s (readFull s n).2.2 := readAtLeast_keeps hrefl htrans hread s n n

theorem copyLoop_keeps (size fuel left : ℕ) (dst : Writer α) (s : σ) :
    R s (copyLoop size fuel left dst s).2.2 := by
  induction fuel generalizing left dst s with
  | zero => exact hrefl s
  | succ fuel ih =>
    unfold copyLoop
    split
    · exact hrefl s
    · have h := hread s (min size left)
      rcases hr : read s (min size left) with ⟨got, e, s'⟩
      rw [hr] at h
      rcases hw : dst.write got with ⟨_ | ew, dst'⟩
      · cases e with
        | none =>
          simp only [hw]
          exact htrans h (ih _ dst' s')
        | some e =>
          simp only [hw]
          exact h
      · simp only [hw]
        exact h

theorem copyN_keeps (dst : Writer α) (s : σ) (n : ℕ) : R s (copyN dst s n).2.2 :=
  copyLoop_keeps hrefl htrans hread _ n n dst s

end Kept

end

/-- A connection hands out what arrives in non-empty pieces, and then fails. -/
structure Conn (α : Type) where
  pieces : List (List α)
  ending : IoErr
  nonempty : ∀ p ∈ pieces, p ≠ []

variable {α : Type}

def Conn.read (c : Conn α) (k : ℕ) : List α × Option IoErr × Conn α :=
  match c with
  | ⟨[], e, h⟩ => ([], some e, ⟨[], e, h⟩)
  | ⟨p :: ps, e, h⟩ =>
    if hk : p.length ≤ k then (p, none, ⟨ps, e, fun q hq ↦ h q (List.mem_cons_of_mem p hq)⟩)
    else (p.take k, none, ⟨p.drop k :: ps, e, by
      intro q hq
      rcases List.mem_cons.mp hq with rfl | hq
      · simpa using hk
      · exact h q (List.mem_cons_of_mem p hq)⟩)

instance : Reader (Conn α) α where
  read := Conn.read
  pending c := c.pieces.flatten
  read_append c k := by
    rcases c with ⟨_ | ⟨p, ps⟩, e, h⟩
    · rfl
    · simp only [Conn.read]
      split
      · rfl
      · simp only [List.flatten_cons, ← List.append_assoc, List.take_append_drop]
  read_length c k := by
    rcases c with ⟨_ | ⟨p, ps⟩, e, h⟩
    · exact Nat.zero_le _
    · simp only [Conn.read]
      split
      · assumption
      · exact List.length_take_le _ _
  read_none c k hk hl := by
    rcases c with ⟨_ | ⟨p, ps⟩, e, h⟩
    · simp at hl
      omega
    · simp only [Conn.read]
      split <;> rfl
  read_ne_nil c k hk hn := by
    rcases c with ⟨_ | ⟨p, ps⟩, e, h⟩
    · simp [Conn.read] at hn
    · have hp := h p List.mem_cons_self
      simp only [Conn.read]
      split
      · exact hp
      · simp only [ne_eq, List.take_eq_nil_iff, hp, or_false]
        omega

theorem Conn.read_eager (c : Conn α) (k : ℕ) (h : pending c ≠ []) :
    (Reader.read c k).2.1 = none := by
  rcases c with ⟨_ | ⟨p, ps⟩, e, hne⟩
  · exact absurd rfl h
  · change (Conn.read _ k).2.1 = none
    simp only [Conn.read]
    split <;> rfl

/-- The error of a read that asks for more than will arrive. -/
def Conn.fault (c : Conn α) : IoErr :=
  if c.pieces ≠ [] ∧ c.ending = .eof then .unexpectedEOF else c.ending

/-- A later state of the same connection. -/
structure Conn.Later (c c' : Conn α) : Prop where
  ending : c'.ending = c.ending
  dry : c.pieces = [] → c'.pieces = []

theorem Conn.Later.refl (c : Conn α) : c.Later c := ⟨rfl, id⟩

theorem Conn.Later.trans {c c' c'' : Conn α} (h : c.Later c') (h' : c'.Later c'') : c.Later c'' :=
  ⟨h'.ending.trans h.ending, h'.dry ∘ h.dry⟩

theorem Conn.read_later (c : Conn α) (k : ℕ) : c.Later (Reader.read c k).2.2 := by
  rcases c with ⟨_ | ⟨p, ps⟩, e, hne⟩
  · exact .refl _
  · change (⟨p :: ps, e, hne⟩ : Conn α).Later (Conn.read _ k).2.2
    simp only [Conn.read]
    split <;> exact ⟨rfl, fun h ↦ by cases h⟩

theorem Conn.readAtLeast_later (c : Conn α) (room least : ℕ) : c.Later (readAtLeast c room least).2.2 :=
  readAtLeast_keeps Conn.Later.refl Conn.Later.trans Conn.read_later c room least

theorem Conn.readLoop_short (room least : ℕ) (hroom : least ≤ room) (fuel : ℕ) (got : List α) (c : Conn α)
    (hfuel : c.pieces.length < fuel) (h : got.length + (pending c).length < least) :
    ∃ c', readLoop room least fuel got c = (got ++ pending c, some c.ending, c') ∧ c'.ending = c.ending ∧
      c'.pieces = [] := by
  rcases c with ⟨ps, e, hne⟩
  induction ps generalizing fuel got with
  | nil =>
    obtain ⟨fuel, rfl⟩ := Nat.exists_eq_add_one.mpr (Nat.zero_lt_of_lt hfuel)
    refine ⟨⟨[], e, hne⟩, ?_, rfl, rfl⟩
    rw [readLoop, if_neg (by omega)]
    rfl
  | cons p ps ih =>
    obtain ⟨fuel, rfl⟩ := Nat.exists_eq_add_one.mpr (Nat.zero_lt_of_lt hfuel)
    have hlen : (pending (⟨p :: ps, e, hne⟩ : Conn α)).length = p.length + ps.flatten.length := by
      change (p ++ ps.flatten).length = _
      rw [List.length_append]
    -- all that is left fits, so the piece is read as a whole
    have hread : Reader.read (⟨p :: ps, e, hne⟩ : Conn α) (room - got.length) =
        (p, none, ⟨ps, e, fun q hq ↦ hne q (List.mem_cons_of_mem p hq)⟩) := by
      change Conn.read _ _ = _
      rw [Conn.read, dif_pos (by omega)]
    obtain ⟨c', hc, hending, hpieces⟩ := ih fuel (got ++ p) (fun q hq ↦ hne q (List.mem_cons_of_mem p hq))
      (Nat.lt_of_succ_lt_succ hfuel) (by
        change (got ++ p).length + ps.flatten.length < least
        rw [List.length_append]
        omega)
    refine ⟨c', ?_, hending, hpieces⟩
    rw [readLoop, if_neg (by omega), hread]
    simp only [hc]
    change (got ++ p ++ ps.flatten, some e, c') = (got ++ (p ++ ps.flatten), some e, c')
    rw [List.append_assoc]

theorem Conn.pieces_length_le (c : Conn α) : c.pieces.length ≤ (pending c).length := by
  rcases c with ⟨ps, e, hne⟩
  change ps.length ≤ ps.flatten.length
  induction ps with
  | nil => exact Nat.zero_le _
  | cons p ps ih =>
    have hp := List.length_pos_iff.mpr (hne p List.mem_cons_self)
    have hps := ih fun q hq ↦ hne q (List.mem_cons_of_mem p hq)
    rw [List.length_cons, List.flatten_cons, List.length_append]
    omega

theorem Conn.readAtLeast_short (c : Conn α) (room least : ℕ) (hroom : least ≤ room)
    (h : (pending c).length < least) :
    ∃ c', readAtLeast c room least = (pending c, some c.fault, c') ∧ c'.ending = c.ending ∧ c'.pieces = [] := by
  have hpieces := c.pieces_length_le
  obtain ⟨c', hloop, hending, hnil⟩ := Conn.readLoop_short room least hroom least [] c (by omega) (by simpa using h)
  refine ⟨c', ?_, hending, hnil⟩
  have hempty : pending c = [] ↔ c.pieces = [] := by
    constructor
    · intro hp
      rw [hp] at hpieces
      exact List.length_eq_zero_iff.mp (by simpa using hpieces)
    · intro hp
      change c.pieces.flatten = []
      rw [hp, List.flatten_nil]
  unfold readAtLeast
  rw [hloop]
  simp only [List.nil_append, Option.some.injEq, ne_eq, hempty]
  rw [if_neg (by omega), Conn.fault]
  split <;> simp_all

end PgRouter.Library.Reads
