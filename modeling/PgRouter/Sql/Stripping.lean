import PgRouter.Sql.Keywords
import PgRouter.Sql.Leads

namespace PgRouter.Sql.Stripping

open Client.Protocol Library.Texts Lexing Keywords Leads

section Words

variable {s word kw : Text} {keyword : String} {c : UInt8}

theorem word_of_firstKeyword (h : firstKeyword s = some kw) :
    kw = (s.takeWhile isIdentByte).map upperByte ∨ kw = ascii "INSERT" ∨ kw = ascii "DEALLOCATE" := by
  have hword := isIdentByte_of_mem_takeWhile (s := s)
  unfold firstKeyword at h
  simp only at h
  split at h
  · next k hfind =>
    have hk := List.mem_of_find?_eq_some hfind
    cases h
    obtain hfaithful | rfl | rfl := faithful_of_known hk
    · have hfits : k.fits (s.takeWhile isIdentByte) = true := by
        have hsome := List.find?_some hfind
        exact hsome
      exact .inl (keyword_of_faithful hk hfaithful hword hfits)
    · exact .inr (.inl rfl)
    · exact .inr (.inr rfl)
  · split at h <;> cases h
    exact .inl rfl

theorem firstKeyword_of_wordless (h : s.takeWhile isIdentByte = []) : firstKeyword s = some [] := by
  have hfind : known.find? (·.fits []) = none := by decide
  simp only [firstKeyword, h, hfind]
  rfl

theorem isIdentByte_of_upperByte (h : isLetter (upperByte c) = true) : isIdentByte c = true := by
  have htable := forall_byte (p := fun c ↦ !isLetter (upperByte c) || isIdentByte c) (by decide +kernel) c
  simpa [h] using htable

theorem ident_of_spells (h : spells keyword word = true) (hletters : (ascii keyword).all isLetter = true) :
    ∀ c ∈ word, isIdentByte c = true := by
  intro c hc
  have hmem : upperByte c ∈ ascii keyword := beq_iff_eq.mp h ▸ List.mem_map_of_mem hc
  exact isIdentByte_of_upperByte (List.all_eq_true.mp hletters _ hmem)

end Words

end PgRouter.Sql.Stripping
