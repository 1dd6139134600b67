import PgRouter.Sql.Analysis

namespace PgRouter.Sql.Pins

open Client.Protocol Client.Handler Lexing Regexp Classifier Keywords Leads Stripping Noise Matching Reading Analysis

section Comments

/-- What follows the end of a block comment. Comments inside of it do not count. -/
def skipFlat : Text → Text
  | [] => []
  | [_] => []
  | c :: d :: rest => if c == 0x2a && d == 0x2f then rest else skipFlat (d :: rest)

/-- The loop of `stripSQLComments`. Every pass takes at least one byte. -/
def stripComments : ℕ → Text → Text
  | 0, _ => []
  | _ + 1, [] => []
  | n + 1, c :: rest =>
    if c == 0x2d && rest.head? == some 0x2d then stripComments n (skipLine rest.tail)
    else if c == 0x2f && rest.head? == some 0x2a then stripComments n (skipFlat rest.tail)
    else c :: stripComments n rest

def stripSQLComments (sql : Text) : Text := stripComments sql.length sql

end Comments

section Patterns

open Pattern

def nameStart : Pattern := anyOf [byte fun c ↦ isWord c && !(0x30 ≤ c && c ≤ 0x39), longS, kelvin]

def nameByte : Pattern := anyOf [byte isWord, longS, kelvin]

def lockCall (name : String) : Pattern := all [wordBoundary, word name, many space, lit 0x28]

def spaced (name : String) : Pattern := all [word name, plus space]

def pinPatterns : List Pattern :=
  [all [wordBoundary, word "LISTEN", plus space, nameStart],
    lockCall "pg_advisory_lock",
    lockCall "pg_advisory_lock_shared",
    lockCall "pg_try_advisory_lock",
    lockCall "pg_try_advisory_lock_shared",
    all [wordBoundary, word "CREATE", plus space, opt (alt (spaced "GLOBAL") (spaced "LOCAL")),
      alt (word "TEMP") (word "TEMPORARY"), plus space, word "TABLE", wordBoundary],
    all [wordBoundary, word "DECLARE", plus space, plus nameByte, plus space,
      many (anyOf [spaced "BINARY", spaced "INSENSITIVE", spaced "SCROLL", seq (spaced "NO") (spaced "SCROLL")]),
      word "CURSOR", wordBoundary]]

/-- `MatchString` of a pattern that is not anchored: it is tried from one position after the other, with `last`
before the first. -/
def search (a : Pattern) : Option UInt8 → Text → Bool
  | last, [] => (a.run ⟨last, [], []⟩ some).isSome
  | last, c :: rest => (a.run ⟨last, c :: rest, []⟩ some).isSome || search a (some c) rest

/-- One of the patterns matches the text without its comments. -/
def triggers (sql : Text) : Bool := pinPatterns.any fun re ↦ search re none (stripSQLComments sql)

end Patterns

section Checks

/-- The keywords after which `maybeNeedsPin` looks no further. -/
def unpinned : List Text :=
  [ascii "SELECT", ascii "INSERT", ascii "UPDATE", ascii "DELETE", ascii "VALUES", ascii "TABLE", ascii "SHOW",
    ascii "EXPLAIN", ascii "WITH", ascii "COMMIT", ascii "ROLLBACK", ascii "BEGIN", ascii "ANALYZE", ascii "VACUUM",
    ascii "COPY", ascii "LOCK", ascii "FETCH", ascii "MOVE", ascii "CLOSE", ascii "DEALLOCATE", ascii "PREPARE",
    ascii "DO", ascii "GRANT", ascii "REVOKE", ascii "COMMENT", ascii "REFRESH", ascii "CLUSTER", ascii "REINDEX",
    ascii "CHECKPOINT", ascii "NOTIFY", ascii "UNLISTEN", ascii "SAVEPOINT", ascii "RELEASE"]

def maybeNeedsPin (sql : Text) : Option Bool :=
  if containsSessionAdvisoryCall sql then some true
  else (firstKeyword (stripLeadingNoise sql)).map fun kw ↦ !unpinned.contains kw

def needsSessionPin (sql : Text) : Option Bool := (maybeNeedsPin sql).map fun maybe ↦ maybe && triggers sql

end Checks

section Announcements

variable {sql u rest : Text} {l : Option UInt8}

def stems : List Text := [ascii "pg_advisory_", ascii "pg_try_advisory_"]

/-- The text holds the name of an advisory lock, in letters of ASCII. -/
def NamesLock (sql : Text) : Prop := ∃ u, u <:+: sql ∧ u.map Pattern.lowerByte ∈ stems

def pinning : List Text := [ascii "LISTEN", ascii "CREATE", ascii "DECLARE"]

/-- What the fast path goes by. -/
def Announced (sql : Text) : Prop := NamesLock sql ∨ ∃ kw ∈ pinning, IsFirstWord (stripLeadingNoise sql) kw

theorem NamesLock.mono {sql' : Text} (h : NamesLock sql) (hwithin : sql <:+: sql') : NamesLock sql' := by
  obtain ⟨u, hu, hstem⟩ := h
  exact ⟨u, hu.trans hwithin, hstem⟩

theorem containsSessionAdvisoryCall_iff : containsSessionAdvisoryCall sql = true ↔ NamesLock sql := by
  have hat (s needle : Text) : matchFoldAt s needle = true ↔ ∃ u, u <+: s ∧ u.map Pattern.lowerByte = needle := by
    rw [matchFoldAt, List.isPrefixOf_iff_prefix]
    constructor
    · rintro ⟨t, ht⟩
      obtain ⟨u, v, rfl, hu, -⟩ := List.append_eq_map_iff.mp ht
      exact ⟨u, List.prefix_append u v, hu⟩
    · rintro ⟨u, ⟨v, rfl⟩, rfl⟩
      rw [List.map_append]
      exact List.prefix_append _ _
  simp only [containsSessionAdvisoryCall, List.any_eq_true, List.mem_tails, Bool.or_eq_true, hat, NamesLock, stems,
    List.mem_cons, List.not_mem_nil, or_false, List.infix_iff_prefix_suffix]
  constructor
  · rintro ⟨s, hs, ⟨u, hu, heq⟩ | ⟨u, hu, heq⟩⟩
    · exact ⟨u, ⟨s, hu, hs⟩, .inl heq⟩
    · exact ⟨u, ⟨s, hu, hs⟩, .inr heq⟩
  · rintro ⟨u, ⟨s, hu, hs⟩, heq | heq⟩
    · exact ⟨s, hs, .inl ⟨u, hu, heq⟩⟩
    · exact ⟨s, hs, .inr ⟨u, hu, heq⟩⟩

def longSign : Text := [0xc5, 0xbf]

theorem reads_of_search {a : Pattern} {text : Text} (h : search a l text = true) :
    ∃ before u rest, text = before ++ (u ++ rest) ∧ Reads a (past l before) u rest := by
  induction text generalizing l with
  | nil =>
    obtain ⟨u, rest, htext, hreads⟩ := reads_of_run h
    exact ⟨[], u, rest, htext, hreads⟩
  | cons x text ih =>
    rw [search, Bool.or_eq_true] at h
    obtain h | h := h
    · obtain ⟨u, rest, htext, hreads⟩ := reads_of_run h
      exact ⟨[], u, rest, htext, hreads⟩
    · obtain ⟨before, u, rest, rfl, hreads⟩ := ih h
      exact ⟨x :: before, u, rest, rfl, by rwa [past_cons]⟩

/-- A lock is called by its name. -/
theorem namesLock_of_lockCall {name : String} (hname : ∃ stem ∈ stems, stem <+: ascii name)
    (hlong : ¬longSign <:+: u) (h : Reads (lockCall name) l u rest) : NamesLock u := by
  obtain ⟨stem, hstem, more, hmore⟩ := hname
  obtain ⟨b, u, rfl, hb, h⟩ := reads_all_cons h
  cases hb
  obtain ⟨v, w, rfl, hword, -⟩ := reads_all_cons h
  rw [Pattern.word, ← hmore, List.map_append] at hword
  obtain ⟨v, v', rfl, hv, -⟩ := reads_all_append hword
  rw [List.nil_append, List.append_assoc] at hlong ⊢
  have hplain : stem.all (Pattern.lowerByte · != 0x6b) = true ∧ stem.map Pattern.lowerByte = stem := by
    have htable : ∀ stem ∈ stems, stem.all (Pattern.lowerByte · != 0x6b) = true ∧
      stem.map Pattern.lowerByte = stem := by decide
    exact htable stem hstem
  have hletters := reads_letters hplain.1 (fun hwithin ↦ hlong (hwithin.trans (List.prefix_append _ _).isInfix)) hv
  refine ⟨v, (List.prefix_append _ _).isInfix, ?_⟩
  rw [hletters, hplain.2]
  exact hstem

/-- A statement begins with its keyword. -/
theorem isFirstWord_of_statement {keyword : String} {more : List Pattern}
    (hupper : (ascii keyword).map upperByte = ascii keyword) (hletters : (ascii keyword).all isLetter = true)
    (hplain : (ascii keyword).all (Pattern.lowerByte · != 0x6b) = true) (hlong : ¬longSign <:+: u)
    (h : Reads (.all (.wordBoundary :: .word keyword :: .plus .space :: more)) l u rest) :
    IsFirstWord (u ++ rest) (ascii keyword) := by
  obtain ⟨b, u, rfl, hb, h⟩ := reads_all_cons h
  cases hb
  obtain ⟨v, w, rfl, hword, h⟩ := reads_all_cons h
  obtain ⟨w, t, rfl, hspaces, -⟩ := reads_all_cons h
  rw [List.nil_append] at hlong
  have hv := reads_letters hplain (fun hwithin ↦ hlong (hwithin.trans (List.prefix_append _ _).isInfix)) hword
  rw [List.nil_append, List.append_assoc, List.append_assoc]
  exact isFirstWord_of_spells (spells_of_lowerByte hv hupper) hletters (head_spaces hspaces)

theorem announced_of_reads {re : Pattern} (hre : re ∈ pinPatterns) (hlong : ¬longSign <:+: u)
    (h : Reads re l u rest) : NamesLock u ∨ ∃ kw ∈ pinning, IsFirstWord (u ++ rest) kw := by
  simp only [pinPatterns, List.mem_cons, List.not_mem_nil, or_false] at hre
  obtain rfl | rfl | rfl | rfl | rfl | rfl | rfl := hre
  · exact .inr ⟨_, by decide, isFirstWord_of_statement (by decide) (by decide) (by decide) hlong h⟩
  · exact .inl (namesLock_of_lockCall (by decide) hlong h)
  · exact .inl (namesLock_of_lockCall (by decide) hlong h)
  · exact .inl (namesLock_of_lockCall (by decide) hlong h)
  · exact .inl (namesLock_of_lockCall (by decide) hlong h)
  · exact .inr ⟨_, by decide, isFirstWord_of_statement (by decide) (by decide) (by decide) hlong h⟩
  · exact .inr ⟨_, by decide, isFirstWord_of_statement (by decide) (by decide) (by decide) hlong h⟩

def lockNames : List String :=
  ["pg_advisory_lock", "pg_advisory_lock_shared", "pg_try_advisory_lock", "pg_try_advisory_lock_shared"]

/-- A trigger is in the open: in a text without a long `s` a pattern matches right behind the leading noise, or a
lock is called and there is no comment that could be in its name. -/
def Apparent (sql : Text) : Prop :=
  ¬longSign <:+: sql ∧
    ((∃ re ∈ pinPatterns, re.matchString (stripLeadingNoise sql) = true) ∨
      stripSQLComments sql = sql ∧ ∃ name ∈ lockNames, search (lockCall name) none sql = true)

theorem announced_of_apparent (h : Apparent sql) : Announced sql := by
  obtain ⟨hlong, ⟨re, hre, hmatch⟩ | ⟨-, name, hname, hsearch⟩⟩ := h
  · obtain ⟨u, rest, hrest, hreads⟩ := reads_of_matchString hmatch
    have hstrip := (strip_suffix sql).isInfix
    rw [hrest] at hstrip
    have hu : u <:+: sql := (List.prefix_append u rest).isInfix.trans hstrip
    obtain hlock | hword := announced_of_reads hre (fun hwithin ↦ hlong (hwithin.trans hu)) hreads
    · exact .inl (hlock.mono hu)
    · rw [← hrest] at hword
      exact .inr hword
  · obtain ⟨before, u, rest, rfl, hreads⟩ := reads_of_search hsearch
    have hu : u <:+: before ++ (u ++ rest) := ⟨before, rest, List.append_assoc _ _ _⟩
    have hstems : ∀ name ∈ lockNames, ∃ stem ∈ stems, stem <+: ascii name := by decide
    have hlock := namesLock_of_lockCall (hstems name hname) (fun hwithin ↦ hlong (hwithin.trans hu)) hreads
    exact .inl (hlock.mono hu)

end Announcements

section Results

variable {sql : Text} {info : SQLInfo}

/-- The text begins with a word behind its leading noise, and no word is too long for the classifier. -/
def Readable (sql : Text) : Prop :=
  (stripLeadingNoise sql).head?.any isIdentByte = true ∧ (classifySQL sql).isSome = true

theorem certain_pinning {kw : Text} (h : kw ∈ pinning) : certain kw = true ∧ kw ∉ unpinned := by
  have htable : ∀ kw ∈ pinning, certain kw = true ∧ kw ∉ unpinned := by decide
  exact htable kw h

theorem firstKeyword_ne_nil {s kw : Text} (h : firstKeyword s = some kw) :
    kw ≠ [] ↔ s.head?.any isIdentByte = true := by
  cases s with
  | nil =>
    rw [firstKeyword_of_wordless rfl] at h
    cases h
    simp
  | cons c rest =>
    cases hc : isIdentByte c with
    | false =>
      rw [firstKeyword_of_wordless (by rw [List.takeWhile_cons, hc]; rfl)] at h
      cases h
      simp [hc]
    | true =>
      have hne : kw ≠ [] := by
        obtain rfl | rfl | rfl := word_of_firstKeyword h
        · rw [List.takeWhile_cons, hc]
          simp
        · decide
        · decide
      simp [hc, hne]

theorem needsPin_analyzeSQL (h : analyzeSQL sql = some info) :
    info.needsPin = true ↔ (stripLeadingNoise sql).head?.any isIdentByte = true ∧ Announced sql := by
  obtain ⟨kw, hkw, -, hpin⟩ := analyzeSQL_keyword h
  have hfirst : (∃ kw' ∈ pinning, IsFirstWord (stripLeadingNoise sql) kw') ↔ kw ∈ pinning := by
    constructor
    · intro h
      obtain ⟨kw', hmem, hword⟩ := h
      rw [← firstKeyword_eq_some_iff (certain_pinning hmem).1, hkw, Option.some_inj] at hword
      rwa [hword]
    · intro hmem
      exact ⟨kw, hmem, (firstKeyword_eq_some_iff (certain_pinning hmem).1).mp hkw⟩
  rw [Announced, ← containsSessionAdvisoryCall_iff, ← firstKeyword_ne_nil hkw, hfirst, hpin, Bool.and_eq_true,
    bne_iff_ne]
  simp [needsPin, pinning, or_assoc]

theorem needsSessionPin_of_announced (h : Announced sql) : needsSessionPin sql = some (triggers sql) := by
  have hmaybe : maybeNeedsPin sql = some true := by
    obtain hlock | ⟨kw, hmem, hword⟩ := h
    · rw [maybeNeedsPin, if_pos (containsSessionAdvisoryCall_iff.mpr hlock)]
    · obtain ⟨hcertain, hpinned⟩ := certain_pinning hmem
      have hkw := (firstKeyword_eq_some_iff hcertain).mpr hword
      simp [maybeNeedsPin, hkw, hpinned]
  rw [needsSessionPin, hmaybe]
  rfl

/-- Both checks find every trigger that is in the open, if the text begins with a word and no word is too long. Of
the others they find those in a text that is announced all the same, by its first word or by the name of a lock. -/
theorem pin_found_iff (sql : Text) :
    (triggers sql = true →
        needsSessionPin sql = some true ∧ ∃ info, analyzeSQL sql = some info ∧ info.needsPin = true) ↔
      (triggers sql = true → Readable sql ∧ (¬Apparent sql → Announced sql)) := by
  apply imp_congr_right
  intro htriggers
  rw [Readable, ← op_analyzeSQL, Option.isSome_map]
  constructor
  · intro h
    obtain ⟨-, info, hinfo, hpin⟩ := h
    obtain ⟨hword, hannounced⟩ := (needsPin_analyzeSQL hinfo).mp hpin
    exact ⟨⟨hword, by rw [hinfo]; rfl⟩, fun _ ↦ hannounced⟩
  · intro h
    obtain ⟨⟨hword, hreturns⟩, hhidden⟩ := h
    obtain ⟨info, hinfo⟩ := Option.isSome_iff_exists.mp hreturns
    have hannounced : Announced sql := by
      by_cases hopen : Apparent sql
      · exact announced_of_apparent hopen
      · exact hhidden hopen
    refine ⟨?_, info, hinfo, (needsPin_analyzeSQL hinfo).mpr ⟨hword, hannounced⟩⟩
    rw [needsSessionPin_of_announced hannounced, htriggers]

/-- `SELECT 1; LISTEN x` matches a pattern, and neither check finds it. -/
theorem pin_lost :
    triggers (ascii "SELECT 1; LISTEN x") = true ∧ needsSessionPin (ascii "SELECT 1; LISTEN x") = some false ∧
      analyzeSQL (ascii "SELECT 1; LISTEN x") = some ⟨.read, false, false, false⟩ :=
  ⟨by rfl, by rfl, by rfl⟩

end Results

end PgRouter.Sql.Pins
