import PgRouter.Sql.Classifier
import PgRouter.Sql.SetPattern

namespace PgRouter.Sql.Assignments

open Client.Protocol Client.Handler Lexing Regexp Pattern Settings

section Operations

theorem toUpper_trimSpace_ne {x : UInt8} (hx : lowerByte x = 0x73) (s : Text) :
    toUpper (trimSpace (x :: s)) ≠ ascii "LOCAL" := by
  have hleft : trimLeft (x :: s) = x :: s := by
    rcases lowerByte_cases hx with rfl | rfl <;> rfl
  rw [trimSpace, hleft]
  have hbefore := trimRight_isPrefix (x :: s)
  rcases h : trimRight (x :: s) with - | ⟨y, t⟩
  · exact List.cons_ne_nil _ _ ∘ Eq.symm
  · rw [h] at hbefore
    obtain rfl : y = x := (List.cons_prefix_cons.mp hbefore).1
    rcases lowerByte_cases hx with rfl | rfl <;> simp [toUpper, upperByte, ascii]

namespace Assignment

variable (a : Assignment)

theorem scope_not_local (l : Option UInt8) (v : Text) :
    toUpper (trimSpace (Cursor.submatch ⟨l, [], (3, v) :: (2, a.name) :: a.scopeGroups⟩ 1)) ≠ ascii "LOCAL" := by
  have hsub : Cursor.submatch ⟨l, [], (3, v) :: (2, a.name) :: a.scopeGroups⟩ 1 =
      a.scope.elim [] fun s ↦ s.1 ++ s.2 := by
    rw [scopeGroups]
    cases a.scope <;> rfl
  rw [hsub]
  cases hs : a.scope with
  | none => decide
  | some s =>
    have hword := (a.word_scope s hs).1
    rcases hsess : s.1 with - | ⟨x, rest⟩
    · rw [hsess] at hword
      cases hword
    · rw [hsess, List.map_cons] at hword
      simp only [Option.elim_some, hsess, List.cons_append]
      exact toUpper_trimSpace_ne (List.cons.inj hword).1 _

theorem gucOp_text : gucOp a.text =
    if a.legible then .set (toLower a.name) (trimSpace a.val) else .none := by
  have hdiscard : discardRe.find a.text = none :=
    a.find_other (c := 0x44) (ascii "ISCARD") _ rfl (by decide)
  have hreset : resetRe.find a.text = none :=
    a.find_other (c := 0x52) (ascii "ESET") _ rfl (by decide)
  rw [gucOp, matchString, hdiscard, Option.isSome_none, if_neg Bool.false_ne_true, hreset]
  simp only
  rw [a.find_setRe]
  cases a.legible with
  | false => rfl
  | true =>
    have hlocal := a.scope_not_local (a.val ++ a.closing).getLast? a.val
    simp only [if_true]
    rw [if_neg (mt beq_iff_eq.mp hlocal)]
    rfl

end Assignment

end Operations

section Classes

variable {rest : Text}

theorem stripNoise_blanks {lead : Text} (hlead : lead.all (fun c ↦ isSpace c && c != 0x0c) = true) {x : UInt8} {n : ℕ}
    (hn : lead.length < n) (hx : x = 0x0c ∨ isWord x = true) : stripNoise n (lead ++ x :: rest) = x :: rest := by
  induction lead generalizing n with
  | nil =>
    obtain ⟨n, rfl⟩ := Nat.exists_eq_add_one.mpr hn
    have hne (c : UInt8) (hc : c ≠ 0x0c) (hword : isWord c = false) : (x == c) = false := by
      rw [beq_eq_false_iff_ne]
      rintro rfl
      rcases hx with h | h
      · exact hc h
      · rw [hword] at h
        cases h
    simp [stripNoise, isBlank, hne 0x20, hne 0x09, hne 0x0a, hne 0x0d, hne 0x2d, hne 0x2f, isWord]
  | cons c lead ih =>
    obtain ⟨n, rfl⟩ := Nat.exists_eq_add_one.mpr (Nat.lt_of_le_of_lt (Nat.zero_le _) hn)
    rw [List.all_cons, Bool.and_eq_true, Bool.and_eq_true] at hlead
    have hblank : isBlank c = true := by
      rcases cases_of_isSpace hlead.1.1 with rfl | rfl | rfl | rfl | rfl
      · rfl
      · rfl
      · rfl
      · cases hlead.1.2
      · rfl
    rw [List.cons_append, stripNoise, if_pos hblank]
    exact ih hlead.2 (Nat.lt_of_succ_lt_succ hn)

namespace Assignment

variable (a : Assignment)

theorem firstKeyword_set : firstKeyword (a.set ++ (a.gap ++ a.assigned)) = some (ascii "SET") := by
  have hword : a.set.all isWord = true := all_isWord_of_lowerByte a.word_set (by decide)
  obtain ⟨c, tail, hgap, hc, -⟩ : Apart (a.gap ++ a.assigned) := a.noise_gap.apart a.gap_ne _
  rw [firstKeyword, takeWhile_word (List.all_eq_true.mp hword) (by rw [hgap]; exact hc)]
  obtain ⟨x, y, z, hset, hx, hy, hz⟩ := a.set_eq_cons
  rw [hset]
  rcases lowerByte_cases hx with rfl | rfl <;> rcases lowerByte_cases hy with rfl | rfl <;>
    rcases lowerByte_cases hz with rfl | rfl <;> decide

theorem analyzeSQL_blanks (hlead : a.lead.all (fun c ↦ isSpace c && c != 0x0c) = true) :
    Classifier.analyzeSQL a.text = some ⟨.write, false, Classifier.needsPin a.text (ascii "SET"), true⟩ := by
  have hstrip : stripLeadingNoise a.text = a.set ++ (a.gap ++ a.assigned) := by
    obtain ⟨x, y, z, hset, hx, -, -⟩ := a.set_eq_cons
    rw [stripLeadingNoise, text, hset]
    exact stripNoise_blanks hlead (by simp) (.inr (isWord_of_lowerByte hx rfl))
  rw [Classifier.analyzeSQL, hstrip, a.firstKeyword_set]
  rfl

theorem analyzeSQL_feed (hspace : a.lead.all isSpace = true) (hfeed : a.lead.all (· != 0x0c) = false) :
    Classifier.analyzeSQL a.text = some ⟨.unknown, false, false, false⟩ := by
  obtain ⟨p, x, q, hlead, hp, hx⟩ := exists_first_not hfeed
  obtain rfl : x = 0x0c := by simpa using hx
  have hblanks : p.all (fun c ↦ isSpace c && c != 0x0c) = true := by
    rw [hlead, List.all_append, Bool.and_eq_true] at hspace
    rw [List.all_eq_true] at hp ⊢
    intro c hc
    rw [hp c hc, List.all_eq_true.mp hspace.1 c hc]
    rfl
  have hstrip : stripLeadingNoise a.text = 0x0c :: (q ++ (a.set ++ (a.gap ++ a.assigned))) := by
    rw [stripLeadingNoise, text, hlead, List.append_assoc, List.cons_append]
    exact stripNoise_blanks hblanks (by simp) (.inl rfl)
  rw [Classifier.analyzeSQL, hstrip]
  rfl

/-- The statement is recorded with its value, or the settings of the session count as unknown from then on. -/
def Tracked : Prop :=
  ∃ info, Classifier.analyzeSQL a.text = some info ∧ ∀ c : GUCCache,
    replayable (toLower a.name) = true ∧
        (c.observeQueryWithInfo a.text info).lookup (toLower a.name) = some a.val ∨
      (c.observeQueryWithInfo a.text info).unrecognized = true

/-- The statement begins with spaces, tabs and line breaks only, it has no other white space than `\s` and no
comments between its words, the name is a word, and the value stands on one line. Where the name is replayable, the
value has no white space at its ends. -/
def Recordable : Prop :=
  a.legible = true ∧ a.lead.all (· != 0x0c) = true ∧ (replayable (toLower a.name) = true → trimSpace a.val = a.val)

theorem lead_of_legible (h : a.legible = true) : a.lead.all isSpace = true := by
  simp only [legible, Bool.and_eq_true] at h
  exact h.1.1.1.1.1

theorem observe_blanks (hlegible : a.legible = true) (hfeed : a.lead.all (· != 0x0c) = true) :
    ∃ info, Classifier.analyzeSQL a.text = some info ∧ ∀ c : GUCCache,
      c.observeQueryWithInfo a.text info = c.apply (.set (toLower a.name) (trimSpace a.val)) := by
  have hblanks : a.lead.all (fun c ↦ isSpace c && c != 0x0c) = true := by
    have hspace := a.lead_of_legible hlegible
    rw [List.all_eq_true] at hspace hfeed ⊢
    intro c hc
    rw [hspace c hc, hfeed c hc]
    rfl
  refine ⟨_, a.analyzeSQL_blanks hblanks, fun c ↦ ?_⟩
  rw [GUCCache.observeQueryWithInfo, if_pos rfl, GUCCache.applyGUC, a.gucOp_text, hlegible, if_pos rfl]

theorem observe_of_not {sql : Text} (h : gucOp sql = .none) (c : GUCCache) (info : SQLInfo) :
    c.observeQueryWithInfo sql info = c := by
  rw [GUCCache.observeQueryWithInfo, GUCCache.applyGUC, h]
  exact ite_self c

/-- A statement that sets a variable is tracked exactly if it is recordable. -/
theorem tracked_iff : a.Tracked ↔ a.Recordable := by
  constructor
  · rintro ⟨info, hinfo, htracked⟩
    -- The cache of a new session tells what the statement did.
    have hnew := htracked {}
    have hlegible : a.legible = true := by
      cases hl : a.legible with
      | true => rfl
      | false =>
        have hop := a.gucOp_text
        rw [hl, if_neg Bool.false_ne_true] at hop
        rw [observe_of_not hop] at hnew
        rcases hnew with ⟨-, h⟩ | h <;> cases h
    have hfeed : a.lead.all (· != 0x0c) = true := by
      cases hl : a.lead.all (· != 0x0c) with
      | true => rfl
      | false =>
        rw [a.analyzeSQL_feed (a.lead_of_legible hlegible) hl] at hinfo
        cases hinfo
        rcases hnew with ⟨-, h⟩ | h <;> cases h
    refine ⟨hlegible, hfeed, fun hname ↦ ?_⟩
    obtain ⟨info', hinfo', hobserve⟩ := a.observe_blanks hlegible hfeed
    obtain rfl : info' = info := Option.some.inj (hinfo'.symm.trans hinfo)
    rw [hobserve, GUCCache.apply, if_pos hname, GUCCache.lookup_store, if_pos rfl] at hnew
    rcases hnew with ⟨-, h⟩ | h
    · exact Option.some.inj h
    · cases h
  · rintro ⟨hlegible, hfeed, htrim⟩
    obtain ⟨info, hinfo, hobserve⟩ := a.observe_blanks hlegible hfeed
    refine ⟨info, hinfo, fun c ↦ ?_⟩
    rw [hobserve, GUCCache.apply]
    cases hname : replayable (toLower a.name) with
    | true => exact .inl ⟨rfl, by rw [if_pos rfl, GUCCache.lookup_store, if_pos rfl, htrim hname]⟩
    | false => exact .inr (by rw [if_neg Bool.false_ne_true])

def utc : Assignment where
  lead := []
  set := ascii "SET"
  gap := ascii " "
  scope := some (ascii "SESSION", ascii " ")
  name := ascii "timezone"
  margin := ascii " "
  toWord := some (ascii "TO")
  indent := ascii " "
  val := ascii "'UTC'"
  closing := []
  noise_lead := .nil
  word_set := by decide
  noise_gap := .blank rfl .nil
  gap_ne := by decide
  word_scope := by
    rintro s hs
    cases hs
    exact ⟨by decide, .blank rfl .nil, by decide⟩
  name_begins := by decide
  name_in := by decide
  name_folds := by decide
  name_scope := nofun
  name_to := by decide
  noise_margin := .blank rfl .nil
  word_toWord := by
    rintro t ht
    cases ht
    exact ⟨by decide, by decide, .inl (by decide)⟩
  space_indent := by decide
  val_ne := by decide
  val_begins := by decide
  val_ends := by decide
  is_closing := by decide

theorem tracked_utc : utc.Recordable ∧ utc.Tracked := by
  have hrecordable : utc.Recordable := ⟨by decide, by decide, fun _ ↦ by decide⟩
  exact ⟨hrecordable, utc.tracked_iff.mpr hrecordable⟩

def commented : Assignment :=
  { utc with
    lead := ascii "/* app */ "
    noise_lead := .block (show closed 1 (ascii " app */") = some [] by decide) (.blank rfl .nil) }

/-- A comment in front hides the statement from the cache, and nothing is marked. -/
theorem commented_untracked :
    commented.text = ascii "/* app */ SET SESSION timezone TO 'UTC'" ∧
      replayable (toLower commented.name) = true ∧
      (∀ info, ({} : GUCCache).observeQueryWithInfo commented.text info = {}) ∧ ¬ commented.Tracked := by
  have hop : gucOp commented.text = .none := by
    rw [gucOp_text]
    decide
  refine ⟨by decide, by decide, fun info ↦ observe_of_not hop {} info, ?_⟩
  rintro ⟨info, -, htracked⟩
  have hnew := htracked {}
  rw [observe_of_not hop] at hnew
  rcases hnew with ⟨-, h⟩ | h <;> cases h

end Assignment

end Classes

end PgRouter.Sql.Assignments
