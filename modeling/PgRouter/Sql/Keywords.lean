import Mathlib.Data.List.TakeWhile
import PgRouter.Sql.Lexing

namespace PgRouter.Sql.Keywords

open Client.Protocol Lexing

section Words

variable {s word : Text}

/-- `kw` is the longest beginning of `s` that is made of identifier bytes, with ASCII letters in upper
case. -/
def IsFirstWord (s kw : Text) : Prop :=
  ∃ word rest, s = word ++ rest ∧ (∀ c ∈ word, isIdentByte c = true) ∧
    (∀ c ∈ rest.head?, isIdentByte c = false) ∧ kw = word.map upperByte

theorem isFirstWord_iff (s kw : Text) : IsFirstWord s kw ↔ kw = (s.takeWhile isIdentByte).map upperByte := by
  constructor
  · intro h
    obtain ⟨word, rest, rfl, hword, hrest, rfl⟩ := h
    rw [List.takeWhile_append_of_pos hword]
    cases rest with
    | nil => rw [List.takeWhile_nil, List.append_nil]
    | cons c rest =>
      have hc : ¬isIdentByte c = true := by simp [hrest c rfl]
      rw [List.takeWhile_cons_of_neg hc, List.append_nil]
  · intro hkw
    refine ⟨s.takeWhile isIdentByte, s.dropWhile isIdentByte, List.takeWhile_append_dropWhile.symm,
      fun c hc ↦ List.mem_takeWhile_imp hc, fun c hc ↦ ?_, hkw⟩
    have hnot := List.head?_dropWhile_not isIdentByte s
    rw [Option.mem_def.mp hc] at hnot
    exact hnot

def isLower (c : UInt8) : Bool := 0x61 ≤ c && c ≤ 0x7a

theorem eqFold_table : ((List.range 256).all fun a ↦ (List.range 26).all fun n ↦
    !isIdentByte (UInt8.ofNat a) || eqFold (UInt8.ofNat a) (UInt8.ofNat (97 + n)) ==
      (upperByte (UInt8.ofNat (97 + n)) == upperByte (UInt8.ofNat a))) = true := by
  decide +kernel

theorem eqFold_eq {c l : UInt8} (hl : isLower l = true) (hc : isIdentByte c = true) :
    eqFold c l = (upperByte l == upperByte c) := by
  have hrange : 97 ≤ l.toNat ∧ l.toNat ≤ 122 := by
    simpa [isLower, UInt8.le_iff_toNat_le] using hl
  have hbyte : UInt8.ofNat c.toNat = c := UInt8.ofNat_toNat
  have hletter : UInt8.ofNat (97 + (l.toNat - 97)) = l := by
    rw [Nat.add_sub_cancel' hrange.1]
    exact UInt8.ofNat_toNat
  have hrow := List.all_eq_true.mp eqFold_table c.toNat (List.mem_range.mpr c.toNat_lt)
  have hentry := List.all_eq_true.mp hrow (l.toNat - 97) (List.mem_range.mpr (by omega))
  rw [hbyte, hletter, hc] at hentry
  exact eq_of_beq hentry

theorem zip_all_eqFold {letters : Text} (hletters : letters.all isLower = true)
    (hword : ∀ c ∈ word, isIdentByte c = true) (hlength : letters.length ≤ word.length) :
    ((letters.zip word).all fun p ↦ eqFold p.2 p.1) =
      (letters.map upperByte).isPrefixOf (word.map upperByte) := by
  induction letters generalizing word with
  | nil => rfl
  | cons l letters ih =>
    cases word with
    | nil => cases hlength
    | cons c word =>
      rw [List.all_cons, Bool.and_eq_true] at hletters
      have htail := ih hletters.2 (fun d hd ↦ hword d (List.mem_cons_of_mem c hd))
        (Nat.le_of_succ_le_succ hlength)
      have hhead := eqFold_eq hletters.1 (hword c List.mem_cons_self)
      simp only [List.zip_cons_cons, List.all_cons, List.map_cons, List.isPrefixOf, hhead, htail]

end Words

section Table

variable {k : Known} {word : Text}

def capitals (k : Known) : Text := (ascii k.letters).map upperByte

/-- The comparison looks at all of the word and returns the letters that it has compared. -/
def faithful (k : Known) : Bool :=
  k.width == (capitals k).length && ascii k.keyword == capitals k

section

variable (hk : k ∈ known)

include hk

theorem letters_of_known :
    (ascii k.letters).all isLower = true ∧ (ascii k.letters).length ≤ k.width ∧ k.width ≤ 32 := by
  have htable : (known.all fun k ↦ (ascii k.letters).all isLower &&
      decide ((ascii k.letters).length ≤ k.width ∧ k.width ≤ 32)) = true := by
    decide
  simpa using List.all_eq_true.mp htable k hk

theorem faithful_of_known :
    faithful k = true ∨ k = ⟨7, "insert", "INSERT"⟩ ∨ k = ⟨9, "deallocat", "DEALLOCATE"⟩ := by
  have htable : (known.all fun k ↦ faithful k ||
      (k.width == 7 && k.letters == "insert" && k.keyword == "INSERT") ||
      (k.width == 9 && k.letters == "deallocat" && k.keyword == "DEALLOCATE")) = true := by
    decide
  have hentry := List.all_eq_true.mp htable k hk
  cases k with
  | mk width letters keyword => simpa [and_assoc, or_assoc] using hentry

theorem fits_eq (hword : ∀ c ∈ word, isIdentByte c = true) :
    k.fits word = (k.width == word.length && (capitals k).isPrefixOf (word.map upperByte)) := by
  obtain ⟨hletters, hle, -⟩ := letters_of_known hk
  by_cases hwidth : k.width = word.length
  · unfold Known.fits capitals
    rw [zip_all_eqFold hletters hword (hwidth ▸ hle)]
  · have hne : (k.width == word.length) = false := beq_eq_false_iff_ne.mpr hwidth
    rw [Known.fits, hne, Bool.false_and, Bool.false_and]

theorem keyword_of_faithful (hfaithful : faithful k = true)
    (hword : ∀ c ∈ word, isIdentByte c = true) (hfits : k.fits word = true) :
    ascii k.keyword = word.map upperByte := by
  simp only [faithful, Bool.and_eq_true, beq_iff_eq] at hfaithful
  rw [fits_eq hk hword, Bool.and_eq_true, beq_iff_eq, List.isPrefixOf_iff_prefix] at hfits
  rw [hfaithful.2]
  apply hfits.2.eq_of_length
  rw [← hfaithful.1, hfits.1, List.length_map]

/-- The words, in upper case, on which the comparisons go wrong: `INSERT` with one byte more and
`DEALLOCAT`. -/
def mistaken (word : Text) : Bool :=
  (word.length == 7 && (ascii "INSERT").isPrefixOf word) || word == ascii "DEALLOCAT"

theorem not_mistaken_of_faithful (hfaithful : faithful k = true) :
    mistaken (ascii k.keyword) = false := by
  have htable : (known.all fun k ↦ !faithful k || !mistaken (ascii k.keyword)) = true := by
    decide
  have hentry := List.all_eq_true.mp htable k hk
  simpa [hfaithful] using hentry

theorem mistaken_of_fits (hunfaithful : faithful k = false)
    (hword : ∀ c ∈ word, isIdentByte c = true) (hfits : k.fits word = true) :
    mistaken (word.map upperByte) = true ∧ ascii k.keyword ≠ word.map upperByte := by
  rw [fits_eq hk hword, Bool.and_eq_true, beq_iff_eq] at hfits
  have hlength : (word.map upperByte).length = k.width := by rw [List.length_map, hfits.1]
  obtain h | rfl | rfl := faithful_of_known hk
  · rw [hunfaithful] at h
    cases h
  · refine ⟨?_, fun h ↦ ?_⟩
    · have hinsert : (ascii "INSERT").isPrefixOf (word.map upperByte) = true := hfits.2
      simp [mistaken, hlength, hinsert]
    · have hseven : (ascii "INSERT").length = 7 := h ▸ hlength
      cases hseven
  · have hwhole : ascii "DEALLOCAT" = word.map upperByte :=
      (List.isPrefixOf_iff_prefix.mp hfits.2).eq_of_length hlength.symm
    refine ⟨by simp [mistaken, hwhole], fun h ↦ ?_⟩
    have hnine : (ascii "DEALLOCATE").length = 9 := h ▸ hlength
    cases hnine

end

theorem fits_of_mistaken (hword : ∀ c ∈ word, isIdentByte c = true)
    (hmistaken : mistaken (word.map upperByte) = true) : ∃ k ∈ known, k.fits word = true := by
  simp only [mistaken, Bool.or_eq_true, Bool.and_eq_true, beq_iff_eq, List.length_map] at hmistaken
  obtain ⟨hseven, hinsert⟩ | hwhole := hmistaken
  · have hk : ⟨7, "insert", "INSERT"⟩ ∈ known := by simp [known]
    refine ⟨_, hk, ?_⟩
    rw [fits_eq hk hword, hseven]
    exact hinsert
  · have hk : ⟨9, "deallocat", "DEALLOCATE"⟩ ∈ known := by simp [known]
    have hlength : word.length = 9 := by
      rw [← List.length_map upperByte, hwhole]
      rfl
    refine ⟨_, hk, ?_⟩
    rw [fits_eq hk hword, hlength, hwhole]
    rfl

end Table

section Results

variable {s : Text}

theorem isIdentByte_of_mem_takeWhile : ∀ c ∈ s.takeWhile isIdentByte, isIdentByte c = true :=
  fun _ hc ↦ List.mem_takeWhile_imp hc

theorem firstKeyword_eq_iff (s : Text) :
    firstKeyword s = some ((s.takeWhile isIdentByte).map upperByte) ↔
      (s.takeWhile isIdentByte).length ≤ 32 ∧
        mistaken ((s.takeWhile isIdentByte).map upperByte) = false := by
  have hword := isIdentByte_of_mem_takeWhile (s := s)
  cases hfound : known.find? (·.fits (s.takeWhile isIdentByte)) with
  | none =>
    -- no comparison fits, so the word goes through the buffer and is not mistaken
    have hnot : mistaken ((s.takeWhile isIdentByte).map upperByte) = false := by
      by_contra hmistaken
      obtain ⟨k, hk, hfits⟩ := fits_of_mistaken hword (by simpa using hmistaken)
      exact List.find?_eq_none.mp hfound k hk hfits
    simp [firstKeyword, hfound, hnot]
  | some k =>
    have hk := List.mem_of_find?_eq_some hfound
    have hfits := List.find?_some hfound
    have hbuffer : (s.takeWhile isIdentByte).length ≤ 32 := by
      have hwidth := hfits
      rw [fits_eq hk hword, Bool.and_eq_true, beq_iff_eq] at hwidth
      exact hwidth.1 ▸ (letters_of_known hk).2.2
    have hreturned : firstKeyword s = some (ascii k.keyword) := by simp [firstKeyword, hfound]
    rw [hreturned, Option.some_inj]
    cases hfaithful : faithful k with
    | true =>
      have hkeyword := keyword_of_faithful hk hfaithful hword hfits
      have hnot := not_mistaken_of_faithful hk hfaithful
      exact ⟨fun _ ↦ ⟨hbuffer, hkeyword ▸ hnot⟩, fun _ ↦ hkeyword⟩
    | false =>
      obtain ⟨hmistaken, hother⟩ := mistaken_of_fits hk hfaithful hword hfits
      exact ⟨fun h ↦ absurd h hother, fun h ↦ by rw [hmistaken] at h; cases h.2⟩

/-- The keyword is the first word in upper case exactly where the word fits into the buffer and is not
one of those that the comparisons take for another. -/
theorem firstKeyword_isFirstWord_iff (s : Text) :
    (∃ kw, firstKeyword s = some kw ∧ IsFirstWord s kw) ↔
      (s.takeWhile isIdentByte).length ≤ 32 ∧
        mistaken ((s.takeWhile isIdentByte).map upperByte) = false := by
  simp only [isFirstWord_iff, exists_eq_right]
  exact firstKeyword_eq_iff s

/-- A word of 33 letters is a slice out of range, and `INSERTX` is taken for `INSERT`. -/
theorem firstKeyword_mistakes :
    firstKeyword (List.replicate 33 0x61) = none ∧
      firstKeyword (ascii "INSERTX") = some (ascii "INSERT") ∧
        ¬IsFirstWord (ascii "INSERTX") (ascii "INSERT") := by
  refine ⟨by decide, by decide, ?_⟩
  rw [isFirstWord_iff]
  decide

end Results

end PgRouter.Sql.Keywords
