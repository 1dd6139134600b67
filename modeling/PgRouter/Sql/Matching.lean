import PgRouter.Sql.Regexp

namespace PgRouter.Sql.Matching

open Client.Protocol Regexp Pattern

variable {l : Option UInt8} {g : List (ℕ × Text)} {k : Continue} {text rest : Text}

def past (l : Option UInt8) (text : Text) : Option UInt8 := text.getLast?.or l

@[simp] theorem past_nil (l : Option UInt8) : past l [] = l := rfl

@[simp] theorem past_cons (l : Option UInt8) (x : UInt8) (text : Text) : past l (x :: text) = past (some x) text := by
  unfold past
  cases text with
  | nil => rfl
  | cons y text => simp [List.getLast?_cons]

theorem past_append (l : Option UInt8) (a b : Text) : past l (a ++ b) = past (past l a) b := by
  rw [past, List.getLast?_append, Option.or_assoc, past, past]

theorem isWord_past (hne : text ≠ []) (htext : ∀ c ∈ text, isWord c = true) : (past l text).any isWord = true := by
  rw [past, List.getLast?_eq_some_getLast hne, Option.some_or]
  exact htext _ (List.getLast_mem hne)

theorem run_all_cons (a : Pattern) (as : List Pattern) (c : Cursor) (k : Continue) :
    (all (a :: as)).run c k = a.run c fun c' ↦ (all as).run c' k := rfl

theorem run_all_nil (c : Cursor) (k : Continue) : (all []).run c k = k c := rfl

section Repetition

variable {once : Cursor → Continue → Option Cursor} {res : Cursor} {n : ℕ}

theorem iterate_succ {x : UInt8} {text : Text} (hstep : ∀ k, once ⟨l, x :: text, g⟩ k = k ⟨some x, text, g⟩) :
    iterate once true (n + 1) ⟨l, x :: text, g⟩ k =
      (iterate once true n ⟨some x, text, g⟩ k).or (k ⟨l, x :: text, g⟩) := by
  simp only [iterate, if_true, hstep]
  rw [if_pos (by simp)]

/-- A repetition reads byte after byte up to a place where it cannot go on. If nothing else works before, it has to
stop there. -/
theorem iterate_only (text rest : Text)
    (hstep : ∀ a x b, text = a ++ x :: b → ∀ k, once ⟨past l a, x :: (b ++ rest), g⟩ k = k ⟨some x, b ++ rest, g⟩)
    (hstop : ∀ k, once ⟨past l text, rest, g⟩ k = none)
    (hk : ∀ a x b, text = a ++ x :: b → k ⟨past l a, x :: (b ++ rest), g⟩ = none) (hn : text.length ≤ n) :
    iterate once true n ⟨l, text ++ rest, g⟩ k = k ⟨past l text, rest, g⟩ := by
  induction text generalizing l n with
  | nil =>
    cases n with
    | zero => rfl
    | succ n =>
      have hnone := hstop fun c' ↦ if c'.rest.length < rest.length then iterate once true n c' k else none
      simp only [past_nil] at hnone
      simp only [iterate, List.nil_append, if_true, hnone, Option.none_or, past_nil]
  | cons x text ih =>
    obtain ⟨n, rfl⟩ := Nat.exists_eq_add_one.mpr (Nat.lt_of_lt_of_le (Nat.succ_pos _) hn)
    have hfirst := hk [] x text rfl
    rw [past_nil] at hfirst
    have hrest : iterate once true n ⟨some x, text ++ rest, g⟩ k = k ⟨past (some x) text, rest, g⟩ := by
      refine ih (fun a y b h ↦ ?_) (by simpa using hstop) (fun a y b h ↦ ?_) (by simpa using hn)
      · have := hstep (x :: a) y b (by rw [h]; rfl)
        simpa using this
      · have := hk (x :: a) y b (by rw [h]; rfl)
        simpa using this
    rw [List.cons_append, iterate_succ (by simpa using hstep [] x text rfl), hrest, hfirst, Option.or_none, past_cons]

theorem iterate_hit (text rest : Text)
    (hstep : ∀ a x b, text = a ++ x :: b → ∀ k, once ⟨past l a, x :: (b ++ rest), g⟩ k = k ⟨some x, b ++ rest, g⟩)
    (hstop : ∀ k, once ⟨past l text, rest, g⟩ k = none) (hk : k ⟨past l text, rest, g⟩ = some res)
    (hn : text.length ≤ n) : iterate once true n ⟨l, text ++ rest, g⟩ k = some res := by
  induction text generalizing l n with
  | nil =>
    rw [iterate_only [] rest hstep hstop (by simp) hn, hk]
  | cons x text ih =>
    obtain ⟨n, rfl⟩ := Nat.exists_eq_add_one.mpr (Nat.lt_of_lt_of_le (Nat.succ_pos _) hn)
    have hrest : iterate once true n ⟨some x, text ++ rest, g⟩ k = some res := by
      refine ih (fun a y b h ↦ ?_) (by simpa using hstop) (by simpa using hk) (by simpa using hn)
      have := hstep (x :: a) y b (by rw [h]; rfl)
      simpa using this
    rw [List.cons_append, iterate_succ (by simpa using hstep [] x text rfl), hrest, Option.some_or]

variable {p : UInt8 → Bool}

theorem run_byte_cons (x : UInt8) (text : Text) :
    (byte p).run ⟨l, x :: text, g⟩ k = if p x then k ⟨some x, text, g⟩ else none := rfl

theorem run_byte_stop (h : rest.head?.any p = false) : (byte p).run ⟨l, rest, g⟩ k = none := by
  cases rest with
  | nil => rfl
  | cons x rest =>
    have hx : p x = false := by simpa using h
    rw [run_byte_cons, hx, if_neg Bool.false_ne_true]

section

variable (htext : text.all p = true)

include htext

theorem run_byte_step {a b : Text} {x : UInt8} (h : text = a ++ x :: b) (l : Option UInt8)
    (k : Continue) : (byte p).run ⟨l, x :: (b ++ rest), g⟩ k = k ⟨some x, b ++ rest, g⟩ := by
  have hx : p x = true := by
    rw [h, List.all_append, List.all_cons, Bool.and_eq_true, Bool.and_eq_true] at htext
    exact htext.2.1
  rw [run_byte_cons, if_pos hx]

section

variable (hrest : rest.head?.any p = false)

include hrest

theorem run_many_only (hk : ∀ l x r, p x = true → k ⟨l, x :: r, g⟩ = none) :
    (many (byte p)).run ⟨l, text ++ rest, g⟩ k = k ⟨past l text, rest, g⟩ := by
  refine iterate_only text rest (fun a x b h ↦ run_byte_step htext h _) (fun k ↦ run_byte_stop hrest)
    (fun a x b h ↦ hk _ x _ ?_) (by simp)
  rw [h, List.all_append, List.all_cons, Bool.and_eq_true, Bool.and_eq_true] at htext
  exact htext.2.1

theorem run_many_hit
    (hk : k ⟨past l text, rest, g⟩ = some res) : (many (byte p)).run ⟨l, text ++ rest, g⟩ k = some res :=
  iterate_hit text rest (fun _ _ _ h ↦ run_byte_step htext h _) (fun _ ↦ run_byte_stop hrest) hk (by simp)

theorem run_many_none (hk : ∀ a b, text = a ++ b → k ⟨past l a, b ++ rest, g⟩ = none) :
    (many (byte p)).run ⟨l, text ++ rest, g⟩ k = none := by
  have hlast := hk text [] (by simp)
  refine (iterate_only text rest (fun a x b h ↦ run_byte_step htext h _) (fun k ↦ run_byte_stop hrest)
    (fun a x b h ↦ ?_) (by simp)).trans hlast
  exact hk a (x :: b) h

end

theorem run_plus_only (hne : text ≠ []) (hrest : rest.head?.any p = false)
    (hk : ∀ l x r, p x = true → k ⟨l, x :: r, g⟩ = none) :
    (plus (byte p)).run ⟨l, text ++ rest, g⟩ k = k ⟨past l text, rest, g⟩ := by
  cases text with
  | nil => exact absurd rfl hne
  | cons x text =>
    rw [List.all_cons, Bool.and_eq_true] at htext
    change (byte p).run ⟨l, x :: (text ++ rest), g⟩ (fun c' ↦ (many (byte p)).run c' k) = _
    rw [run_byte_cons, if_pos htext.1, run_many_only htext.2 hrest hk, past_cons]

end

theorem run_plus_stop (hrest : rest.head?.any p = false) : (plus (byte p)).run ⟨l, rest, g⟩ k = none := by
  change (byte p).run ⟨l, rest, g⟩ (fun c' ↦ (many (byte p)).run c' k) = none
  exact run_byte_stop hrest

theorem iterate_lazy_hit (text rest : Text) (htext : text.all p = true)
    (hshort : ∀ a x b, text = a ++ x :: b → k ⟨past l a, x :: (b ++ rest), g⟩ = none)
    (hk : k ⟨past l text, rest, g⟩ = some res) (hn : text.length ≤ n) :
    iterate (byte p).run false n ⟨l, text ++ rest, g⟩ k = some res := by
  induction text generalizing l n with
  | nil =>
    simp only [past_nil] at hk
    cases n with
    | zero => exact hk
    | succ n => simp only [iterate, List.nil_append, Bool.false_eq_true, if_false, hk, Option.some_or]
  | cons x text ih =>
    obtain ⟨n, rfl⟩ := Nat.exists_eq_add_one.mpr (Nat.lt_of_lt_of_le (Nat.succ_pos _) hn)
    rw [List.all_cons, Bool.and_eq_true] at htext
    have hfirst := hshort [] x text rfl
    simp only [past_nil] at hfirst
    have hrest : iterate (byte p).run false n ⟨some x, text ++ rest, g⟩ k = some res := by
      refine ih htext.2 (fun a y b h ↦ ?_) (by simpa using hk) (by simpa using hn)
      have := hshort (x :: a) y b (by rw [h]; rfl)
      simpa using this
    simp only [iterate, List.cons_append, Bool.false_eq_true, if_false, hfirst, Option.none_or, run_byte_cons, htext.1,
      if_true]
    rw [if_pos (by simp), hrest]

theorem iterate_lazy_none (text : Text)
    (hk : ∀ a b, text = a ++ b → a.all p = true → k ⟨past l a, b, g⟩ = none) (n : ℕ) :
    iterate (byte p).run false n ⟨l, text, g⟩ k = none := by
  induction n generalizing l text with
  | zero => exact hk [] text rfl rfl
  | succ n ih =>
    have hfirst := hk [] text rfl rfl
    simp only [past_nil] at hfirst
    simp only [iterate, Bool.false_eq_true, if_false, hfirst, Option.none_or]
    cases text with
    | nil => rfl
    | cons x text =>
      rw [run_byte_cons]
      by_cases hx : p x = true
      · rw [if_pos hx, if_pos (by simp)]
        refine ih text fun a b h ha ↦ ?_
        have := hk (x :: a) b (by rw [h]; rfl) (by rw [List.all_cons, hx, ha]; rfl)
        simpa using this
      · rw [if_neg hx]

end Repetition

section Words

/-- The text begins with one of the characters beyond ASCII that `(?i)` folds to a letter. -/
def folds (text : Text) : Bool := [0xc5, 0xbf].isPrefixOf text || [0xe2, 0x84, 0xaa].isPrefixOf text

theorem run_longS (h : folds text = false) : longS.run ⟨l, text, g⟩ k = none := by
  have hnot : [0xc5, 0xbf].isPrefixOf text = false := (Bool.or_eq_false_iff.mp h).1
  match text with
  | [] => rfl
  | [x] => by_cases hx : x = 0xc5 <;> simp [longS, all, lit, Pattern.run, hx]
  | x :: y :: text =>
    by_cases hx : x = 0xc5
    · have hy : y ≠ 0xbf := by
        rintro rfl
        rw [hx] at hnot
        cases hnot
      simp [longS, all, lit, Pattern.run, hx, hy]
    · simp [longS, all, lit, Pattern.run, hx]

theorem run_kelvin (h : folds text = false) : kelvin.run ⟨l, text, g⟩ k = none := by
  have hnot : [0xe2, 0x84, 0xaa].isPrefixOf text = false := (Bool.or_eq_false_iff.mp h).2
  match text with
  | [] => rfl
  | [x] => by_cases hx : x = 0xe2 <;> simp [kelvin, all, lit, Pattern.run, hx]
  | [x, y] => by_cases hx : x = 0xe2 <;> by_cases hy : y = 0x84 <;> simp [kelvin, all, lit, Pattern.run, hx, hy]
  | x :: y :: z :: text =>
    by_cases hx : x = 0xe2 <;> by_cases hy : y = 0x84 <;> try simp [kelvin, all, lit, Pattern.run, hx, hy]
    rintro rfl
    rw [hx, hy] at hnot
    cases hnot

theorem run_letter_plain {c : UInt8} (hs : lowerByte c ≠ 0x73) (hk : lowerByte c ≠ 0x6b) (x : UInt8) (text : Text) :
    (letter c).run ⟨l, x :: text, g⟩ k = if lowerByte x == lowerByte c then k ⟨some x, text, g⟩ else none := by
  unfold letter
  simp only [beq_eq_false_iff_ne.mpr hs, beq_eq_false_iff_ne.mpr hk, Bool.false_eq_true, if_false]
  rfl

theorem run_letter (c : UInt8) {x : UInt8} (h : folds (x :: text) = false) :
    (letter c).run ⟨l, x :: text, g⟩ k = if lowerByte x == lowerByte c then k ⟨some x, text, g⟩ else none := by
  unfold letter
  simp only
  split
  · simp only [Pattern.run, run_longS h, Option.or_none]
  · split
    · simp only [Pattern.run, run_kelvin h, Option.or_none]
    · rfl

theorem folds_ascii {x : UInt8} (h : x < 0x80) (text : Text) : folds (x :: text) = false := by
  have h1 : x ≠ 0xc5 := by
    rintro rfl
    exact absurd h (by decide)
  have h2 : x ≠ 0xe2 := by
    rintro rfl
    exact absurd h (by decide)
  simp [folds, List.isPrefixOf, h1.symm, h2.symm]

theorem run_letters {cs word : Text} (hword : word.map lowerByte = cs.map lowerByte)
    (hascii : ∀ x ∈ word, x < 0x80) :
    (all (cs.map letter)).run ⟨l, word ++ rest, g⟩ k = k ⟨past l word, rest, g⟩ := by
  induction cs generalizing l word with
  | nil =>
    obtain rfl : word = [] := by simpa using hword
    rfl
  | cons c cs ih =>
    cases word with
    | nil => cases hword
    | cons x word =>
      rw [List.map_cons, List.map_cons, List.cons.injEq] at hword
      have hx := hascii x List.mem_cons_self
      rw [List.map_cons, run_all_cons, List.cons_append, run_letter c (folds_ascii hx _), hword.1, beq_self_eq_true,
        if_pos rfl, ih hword.2 (fun y hy ↦ hascii y (List.mem_cons_of_mem x hy)), past_cons]

theorem run_letters_miss {c x : UInt8} (cs : Text) (hfolds : folds (x :: text) = false)
    (hx : lowerByte x ≠ lowerByte c) : (all ((c :: cs).map letter)).run ⟨l, x :: text, g⟩ k = none := by
  rw [List.map_cons, run_all_cons, run_letter c hfolds, if_neg (by simpa using hx)]

end Words

end PgRouter.Sql.Matching
