import Mathlib.Data.List.TakeWhile
import Mathlib.Data.Nat.Digits.Lemmas

namespace PgRouter.Library.Texts

section Cutting

variable {α : Type} [DecidableEq α]

def cut (sep : α) (s : List α) : Option (List α × List α) :=
  match s.dropWhile (· != sep) with
  | [] => none
  | _ :: rest => some (s.takeWhile (· != sep), rest)

variable {sep : α}

theorem cut_append {s : List α} (t : List α) (h : sep ∉ s) :
    cut sep (s ++ sep :: t) = some (s, t) := by
  have hs : ∀ a ∈ s, (a != sep) = true := by
    intro a ha
    exact bne_iff_ne.mpr fun heq ↦ h (heq ▸ ha)
  rw [cut, List.dropWhile_append_of_pos hs, List.takeWhile_append_of_pos hs]
  simp

theorem cut_spec {s before after : List α} (h : cut sep s = some (before, after)) :
    s = before ++ sep :: after ∧ sep ∉ before := by
  unfold cut at h
  cases hrest : s.dropWhile (· != sep) with
  | nil =>
    rw [hrest] at h
    cases h
  | cons c rest =>
    rw [hrest] at h
    cases h
    have hc := List.head?_dropWhile_not (· != sep) s
    rw [hrest] at hc
    have hsep : c = sep := by simpa using hc
    refine ⟨?_, fun hmem ↦ ?_⟩
    · have hwhole := List.takeWhile_append_dropWhile (p := (· != sep)) (l := s)
      rw [hrest, hsep] at hwhole
      exact hwhole.symm
    · simpa using List.mem_takeWhile_imp hmem

theorem isPrefixOf_splitOn {pattern s first : List α} {rest : List (List α)}
    (hsplit : s.splitOn sep = first :: rest) (hsep : sep ∉ pattern) :
    pattern.isPrefixOf first = pattern.isPrefixOf s := by
  induction pattern generalizing s first rest with
  | nil => rfl
  | cons c pattern ih =>
    cases s with
    | nil =>
      cases hsplit
      rfl
    | cons d s =>
      by_cases hd : d = sep
      · have hfirst : first = [] := by
          simp only [List.splitOn_cons_eq_if_modifyHead, hd, beq_self_eq_true, if_true, List.cons.injEq] at hsplit
          exact hsplit.1.symm
        have hc : (c == d) = false := by
          rw [hd, beq_eq_false_iff_ne]
          exact fun h ↦ hsep (h ▸ List.mem_cons_self)
        simp [hfirst, List.isPrefixOf, hc]
      · cases hs : s.splitOn sep with
        | nil => exact absurd hs (List.splitOn_ne_nil sep s)
        | cons first' rest' =>
          simp only [List.splitOn_cons_eq_if_modifyHead, beq_iff_eq, hd, if_false, hs, List.modifyHead_cons,
            List.cons.injEq] at hsplit
          have htail := ih hs fun h ↦ hsep (List.mem_cons_of_mem c h)
          rw [← hsplit.1, List.isPrefixOf, List.isPrefixOf, htail]

/-- `strings.Index`: what stands before and after the first occurrence of a text. -/
def cutText (pattern : List α) : List α → Option (List α × List α)
  | [] => if pattern.isPrefixOf [] then some ([], []) else none
  | c :: s =>
    if pattern.isPrefixOf (c :: s) then some ([], (c :: s).drop pattern.length)
    else (cutText pattern s).map fun r ↦ (c :: r.1, r.2)

variable {pattern s before after : List α}

theorem cutText_append (h : cutText pattern s = some (before, after)) :
    before ++ pattern ++ after = s := by
  induction s generalizing before with
  | nil =>
    unfold cutText at h
    split at h
    · next hpattern =>
      cases h
      simpa using hpattern
    · cases h
  | cons c s ih =>
    unfold cutText at h
    split at h
    · next hpattern =>
      cases h
      obtain ⟨rest, hrest⟩ := List.isPrefixOf_iff_prefix.mp hpattern
      rw [← hrest, List.drop_left]
      rfl
    · obtain ⟨r, hr, heq⟩ := Option.map_eq_some_iff.mp h
      cases heq
      rw [← ih hr]
      simp

end Cutting

abbrev Bytes := List UInt8

theorem forall_byte {p : UInt8 → Bool} (h : ((List.range 256).all fun n ↦ p (UInt8.ofNat n)) = true) (c : UInt8) :
    p c = true := by
  have hc := List.all_eq_true.mp h c.toNat (List.mem_range.mpr c.toNat_lt)
  rwa [UInt8.ofNat_toNat] at hc

def isDigit (c : UInt8) : Bool := 0x30 ≤ c && c ≤ 0x39

def isHex (c : UInt8) : Bool := isDigit c || (0x61 ≤ c && c ≤ 0x66) || (0x41 ≤ c && c ≤ 0x46)

def digit (d : ℕ) : UInt8 := 0x30 + d.toUInt8

def value (c : UInt8) : ℕ := c.toNat - 0x30

def decimal (n : ℕ) : Bytes := if n = 0 then [digit 0] else ((Nat.digits 10 n).reverse.map digit)

def itoa (v : ℤ) : Bytes := if v < 0 then 0x2d :: decimal v.natAbs else decimal v.natAbs

def number (s : Bytes) : Option ℕ :=
  if s ≠ [] ∧ s.all isDigit = true then some (s.foldl (fun n c ↦ 10 * n + value c) 0) else none

def maxInt : ℤ := 2 ^ 63 - 1

def minInt : ℤ := -2 ^ 63

def signed (negative : Bool) (n : ℕ) : Option ℤ :=
  let v : ℤ := if negative then -n else n
  if minInt ≤ v ∧ v ≤ maxInt then some v else none

def atoi (s : Bytes) : Option ℤ :=
  match s with
  | 0x2d :: digits => (number digits).bind (signed true)
  | 0x2b :: digits => (number digits).bind (signed false)
  | _ => (number s).bind (signed false)

theorem digit_facts : ∀ d < 10, isDigit (digit d) = true ∧ value (digit d) = d := by decide

theorem decimal_digits (n : ℕ) : ∃ ds : List ℕ,
    ds ≠ [] ∧ (∀ d ∈ ds, d < 10) ∧ decimal n = ds.reverse.map digit ∧ Nat.ofDigits 10 ds = n := by
  rcases Nat.eq_zero_or_pos n with rfl | hn
  · exact ⟨[0], by simp, by simp, rfl, by simp⟩
  · refine ⟨Nat.digits 10 n, ?_, ?_, ?_, Nat.ofDigits_digits 10 n⟩
    · exact Nat.digits_ne_nil_iff_ne_zero.mpr hn.ne'
    · intro d hd
      exact Nat.digits_lt_base (by decide) hd
    · rw [decimal, if_neg hn.ne']

theorem foldl_values (ds : List ℕ) (h : ∀ d ∈ ds, d < 10) :
    (ds.reverse.map digit).foldl (fun n c ↦ 10 * n + value c) 0 = Nat.ofDigits 10 ds := by
  induction ds with
  | nil => rfl
  | cons d ds ih =>
    have hd : value (digit d) = d := (digit_facts d (h d (by simp))).2
    have ih := ih fun e he ↦ h e (by simp [he])
    rw [List.reverse_cons, List.map_append, List.foldl_append, ih, Nat.ofDigits_cons]
    simp [hd, Nat.add_comm]

theorem number_decimal (n : ℕ) : number (decimal n) = some n := by
  obtain ⟨ds, hne, hlt, hdec, hval⟩ := decimal_digits n
  have hall : (ds.reverse.map digit).all isDigit = true := by
    rw [List.all_eq_true]
    intro c hc
    obtain ⟨d, hd, rfl⟩ := List.mem_map.mp hc
    exact (digit_facts d (hlt d (List.mem_reverse.mp hd))).1
  rw [number, hdec, if_pos ⟨by simpa using hne, hall⟩, foldl_values ds hlt, hval]

theorem atoi_decimal (n : ℕ) : atoi (decimal n) = signed false n := by
  have hn := number_decimal n
  have hsign : ∀ c rest, decimal n = c :: rest → isDigit c = true := by
    intro c rest hc
    rw [number] at hn
    split at hn
    case isTrue h => simpa [hc] using List.all_eq_true.mp h.2 c (by simp [hc])
    case isFalse => cases hn
  unfold atoi
  split
  case h_1 rest hc => exact absurd (hsign _ _ hc) (by decide)
  case h_2 rest hc => exact absurd (hsign _ _ hc) (by decide)
  case h_3 => rw [hn, Option.bind_some]

theorem atoi_itoa {v : ℤ} (hmin : minInt ≤ v) (hmax : v ≤ maxInt) : atoi (itoa v) = some v := by
  rw [itoa]
  split
  case isTrue h =>
    have hv : -(v.natAbs : ℤ) = v := by omega
    rw [atoi, number_decimal, Option.bind_some, signed, if_pos rfl, hv, if_pos ⟨hmin, hmax⟩]
  case isFalse h =>
    have hv : (v.natAbs : ℤ) = v := by omega
    rw [atoi_decimal, signed, if_neg Bool.false_ne_true, hv, if_pos ⟨hmin, hmax⟩]

theorem isDigit_of_mem_decimal {n : ℕ} {c : UInt8} (h : c ∈ decimal n) : isDigit c = true := by
  obtain ⟨ds, -, hlt, hdec, -⟩ := decimal_digits n
  rw [hdec] at h
  obtain ⟨d, hd, rfl⟩ := List.mem_map.mp h
  exact (digit_facts d (hlt d (List.mem_reverse.mp hd))).1

theorem comma_not_mem_itoa (v : ℤ) : 0x2c ∉ itoa v := by
  have hdec : 0x2c ∉ decimal v.natAbs := fun h ↦ by cases isDigit_of_mem_decimal h
  rw [itoa]
  split
  · simpa using hdec
  · exact hdec

end PgRouter.Library.Texts
