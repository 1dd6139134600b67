import PgRouter.Sql.Reading
import PgRouter.Sql.CteLists
import PgRouter.Sql.Noise

namespace PgRouter.Sql.Analysis

open Client.Protocol Client.Handler Library.Texts Lexing Regexp Classifier Keywords Leads Stripping CteLists Noise
open Reading

section Lengths

variable {s : Text}

theorem length_strip_le (s : Text) : (stripLeadingNoise s).length ≤ s.length := (strip_suffix s).length_le

theorem length_closeParen_le (depth : ℕ) (s : Text) : (closeParen depth s).2.length ≤ s.length := by
  have hlength := congrArg List.length (closeParen_append depth s)
  rw [List.length_append] at hlength
  omega

theorem length_skipMaterialized_le (s : Text) : (skipMaterialized s).length ≤ s.length := by
  have hdrop (n : ℕ) : (stripLeadingNoise (s.drop n)).length ≤ s.length :=
    (length_strip_le _).trans (List.drop_sublist _ _).length_le
  unfold skipMaterialized
  split
  · exact hdrop _
  · split
    · exact hdrop _
    · exact Nat.le_refl _

end Lengths

section Fuel

variable {cls cls' : Text → Option SQLOp} {b n : ℕ} {s : Text}

def Agree (b : ℕ) (cls cls' : Text → Option SQLOp) : Prop := ∀ t : Text, t.length ≤ b → cls t = cls' t

theorem explained_congr (h : Agree b cls cls') (hs : s.length ≤ b) : explained cls n s = explained cls' n s := by
  induction n generalizing s with
  | zero => rfl
  | succ n ih =>
    rw [explained_succ, explained_succ]
    have hstrip := (length_strip_le s).trans hs
    cases hc : stripLeadingNoise s with
    | nil => rfl
    | cons c rest =>
      rw [hc] at hstrip
      have hclose := (length_closeParen_le 1 rest).trans ((Nat.le_succ _).trans hstrip)
      rw [explainedFrom, explainedFrom, ih hclose, h _ hstrip]

theorem afterCTEs_congr (h : Agree b cls cls') (hs : s.length ≤ b) : afterCTEs cls n s = afterCTEs cls' n s := by
  induction n generalizing s with
  | zero => rfl
  | succ n ih =>
    rw [afterCTEs_succ, afterCTEs_succ, afterName, afterName]
    have hname : (stripLeadingNoise (s.dropWhile isNameByte)).length ≤ b :=
      (length_strip_le _).trans ((List.dropWhile_suffix _).length_le.trans hs)
    generalize stripLeadingNoise (s.dropWhile isNameByte) = s at hname
    have hbody : (skipMaterialized (stripLeadingNoise (s.drop 2))).length ≤ b :=
      (length_skipMaterialized_le _).trans ((length_strip_le _).trans ((List.drop_sublist 2 s).length_le.trans hname))
    cases hc : skipMaterialized (stripLeadingNoise (s.drop 2)) with
    | nil => rfl
    | cons c rest =>
      rw [hc] at hbody
      have hafter : (stripLeadingNoise (closeParen 1 rest).2).length ≤ b :=
        (length_strip_le _).trans ((length_closeParen_le 1 rest).trans ((Nat.le_succ _).trans hbody))
      have hnext : (stripLeadingNoise (stripLeadingNoise (closeParen 1 rest).2).tail).length ≤ b :=
        (length_strip_le _).trans ((List.tail_sublist _).length_le.trans hafter)
      rw [atBody, atBody, afterBody, afterBody, ih hnext, h _ hafter]

theorem classOf_congr {kw : Text} (hs : s ≠ []) (h : Agree (s.length - 1) cls cls') :
    classOf cls kw s = classOf cls' kw s := by
  have hpos : 0 < s.length := List.length_pos_iff.mpr hs
  have hdrop {m : ℕ} (hm : 0 < m) : (trimSpace (s.drop m)).length ≤ s.length - 1 := by
    refine (length_trimSpace_le _).trans ?_
    rw [List.length_drop]
    omega
  have hexplain : classifyExplain cls s = classifyExplain cls' s := explained_congr h (hdrop (by decide))
  have hwith : classifyCTE cls s = classifyCTE cls' s := by
    rw [classifyCTE_eq, classifyCTE_eq, afterWith, afterWith]
    have hlist := (length_strip_le _).trans (hdrop (show 0 < (ascii "WITH").length by decide))
    generalize stripLeadingNoise (trimSpace (s.drop (ascii "WITH").length)) = t at hlist
    have hrecursive :=
      (length_strip_le _).trans ((List.drop_sublist (ascii "RECURSIVE").length t).length_le.trans hlist)
    simp only [afterCTEs_congr h hlist, afterCTEs_congr h hrecursive]
  rw [classOf, classOf, hexplain, hwith]

theorem classifyFrom_congr {m : ℕ} (h : Agree (s.length - 1) (classify n) (classify m)) :
    classifyFrom n s = classifyFrom m s := by
  cases s with
  | nil => rfl
  | cons c rest =>
    have hkw (kw : Text) : classOf (classify n) kw (c :: rest) = classOf (classify m) kw (c :: rest) :=
      classOf_congr (List.cons_ne_nil c rest) h
    rw [classifyFrom, classifyFrom]
    · simp only [hkw]
    · simp
    · simp

/-- With more than the length of the text the fuel does not matter. -/
theorem classify_eq {m : ℕ} (hn : s.length < n) (hm : s.length < m) : classify n s = classify m s := by
  induction n generalizing s m with
  | zero => cases hn
  | succ n ih =>
    cases m with
    | zero => cases hm
    | succ m =>
      rw [classify_succ, classify_succ]
      have hstrip := length_strip_le s
      cases hc : stripLeadingNoise s with
      | nil => rfl
      | cons c rest =>
        rw [hc] at hstrip
        apply classifyFrom_congr
        intro t ht
        rw [List.length_cons] at hstrip ht
        exact ih (by omega) (by omega)

/-- The statements inside of `EXPLAIN` and `WITH` are classified with the same outcome. -/
theorem op_analyzeSQL (sql : Text) : (analyzeSQL sql).map SQLInfo.op = classifySQL sql := by
  have hstrip := length_strip_le sql
  rw [classifySQL, classify_succ, analyzeSQL]
  cases hs : stripLeadingNoise sql with
  | nil => rfl
  | cons c rest =>
    rw [hs, List.length_cons] at hstrip
    have hagree : Agree ((c :: rest).length - 1) classifySQL (classify sql.length) := by
      intro t ht
      rw [List.length_cons] at ht
      exact classify_eq (Nat.lt_succ_self _) (by omega)
    rw [classifyFrom]
    · cases firstKeyword (c :: rest) with
      | none => rfl
      | some kw =>
        simp only [Option.bind_some]
        split
        · next hkw =>
          rw [eq_of_beq hkw]
          rfl
        · rw [Option.map_map, ← classOf_congr (List.cons_ne_nil c rest) hagree]
          exact Option.map_id'
    · simp

end Fuel

section Keywords

variable {s kw : Text}

def certain (kw : Text) : Bool :=
  kw.length ≤ 32 && !mistaken kw && kw != ascii "INSERT" && kw != ascii "DEALLOCATE"

theorem firstKeyword_eq_some_iff (hkw : certain kw = true) : firstKeyword s = some kw ↔ IsFirstWord s kw := by
  simp only [certain, Bool.and_eq_true, decide_eq_true_eq, Bool.not_eq_true', bne_iff_ne] at hkw
  obtain ⟨⟨⟨hlength, hmistaken⟩, hinsert⟩, hdeallocate⟩ := hkw
  rw [isFirstWord_iff]
  constructor
  · intro h
    obtain h | h | h := word_of_firstKeyword h
    · exact h
    · exact absurd h hinsert
    · exact absurd h hdeallocate
  · intro h
    have hword := (firstKeyword_eq_iff s).mpr
    rw [← h] at hword
    refine hword ⟨?_, hmistaken⟩
    rw [h, List.length_map] at hlength
    exact hlength

theorem upperByte_lowerByte (c : UInt8) : upperByte (Pattern.lowerByte c) = upperByte c :=
  eq_of_beq (forall_byte (p := fun c ↦ upperByte (Pattern.lowerByte c) == upperByte c) (by decide +kernel) c)

variable {keyword : String}

theorem spells_of_lowerByte {word : Text}
    (hword : word.map Pattern.lowerByte = (ascii keyword).map Pattern.lowerByte)
    (hkeyword : (ascii keyword).map upperByte = ascii keyword) : spells keyword word = true := by
  have h := congrArg (List.map upperByte) hword
  simp only [List.map_map, Function.comp_def, upperByte_lowerByte, hkeyword] at h
  exact beq_iff_eq.mpr h

theorem isFirstWord_of_spells {word X : Text} (h : spells keyword word = true)
    (hletters : (ascii keyword).all isLetter = true) (hX : X.head?.any isIdentByte = false) :
    IsFirstWord (word ++ X) (ascii keyword) := by
  rw [isFirstWord_iff, takeWhile_word (ident_of_spells h hletters) hX]
  exact (beq_iff_eq.mp h).symm

theorem isFirstWord_unique {kw' : Text} (h : IsFirstWord s kw) (h' : IsFirstWord s kw') : kw = kw' := by
  rw [isFirstWord_iff] at h h'
  rw [h, h']

theorem isFirstWord_nil {c : UInt8} {rest : Text} (hc : isIdentByte c = false) : IsFirstWord (c :: rest) [] := by
  rw [isFirstWord_iff, List.takeWhile_cons, hc]
  rfl

end Keywords

section Openings

variable {s : Text}

def isExplicitReadOnlyBeginSQL (sql : Text) : Bool := readOnlyBeginRE.matchString (stripLeadingNoise sql)

/-- The text begins with a form feed, with a long `s`, or with the word `SET`. -/
def Overlooked (s : Text) : Prop := s.head? = some 0x0c ∨ [0xc5, 0xbf] <+: s ∨ IsFirstWord s (ascii "SET")

variable {l : Option UInt8}

theorem head_spaces {w rest X : Text} (h : Reads (Pattern.plus Pattern.space) l w rest) :
    (w ++ X).head?.any isIdentByte = false := by
  obtain ⟨x, w, rfl, hx⟩ := reads_plus h
  have hcases : x = 0x20 ∨ x = 0x09 ∨ x = 0x0a ∨ x = 0x0c ∨ x = 0x0d := by simpa [isSpace, or_assoc] using hx
  obtain rfl | rfl | rfl | rfl | rfl := hcases <;> rfl

theorem opening_of_s (keyword : String) {c : UInt8} {cs : Text} {u rest : Text}
    (hkeyword : ascii keyword = c :: cs) (hc : Pattern.lowerByte c = 0x73) (hcs : cs.all plain = true)
    (hupper : (ascii keyword).map upperByte = ascii keyword) (hletters : (ascii keyword).all isLetter = true)
    (h : Reads (Pattern.all [Pattern.word keyword, Pattern.plus Pattern.space, Pattern.word "TRANSACTION"]) l u rest) :
    [0xc5, 0xbf] <+: u ++ rest ∨ IsFirstWord (u ++ rest) (ascii keyword) := by
  obtain ⟨v, w, rfl, hword, hrest⟩ := reads_all_cons h
  obtain ⟨w, t, rfl, hspaces, -⟩ := reads_all_cons hrest
  rw [Pattern.word, hkeyword] at hword
  obtain hlong | hword := reads_s hc hcs hword
  · rw [List.append_assoc]
    exact .inl (hlong.trans (List.prefix_append _ _))
  · rw [← hkeyword] at hword
    rw [List.append_assoc, List.append_assoc]
    exact .inr (isFirstWord_of_spells (spells_of_lowerByte hword hupper) hletters (head_spaces hspaces))

theorem opening_of_begin {u w rest : Text} (h : Reads (Pattern.word "BEGIN") l u (w ++ rest))
    (hend : Reads .wordBoundary (Matching.past l u) w rest) : IsFirstWord (u ++ (w ++ rest)) (ascii "BEGIN") := by
  have hletters : u.map Pattern.lowerByte = (ascii "BEGIN").map Pattern.lowerByte := reads_plains (by decide) h
  have hspells : spells "BEGIN" u = true := spells_of_lowerByte hletters (by decide)
  have hne : u ≠ [] := by
    intro hu
    rw [hu] at hspells
    cases hspells
  obtain ⟨rfl, hrest⟩ := reads_wordBoundary hne (ident_of_spells hspells (by decide)) hend
  exact isFirstWord_of_spells hspells (by decide) hrest

/-- Of the white space that the pattern skips, only a form feed can still be there. -/
theorem opening_of_match {verb : Pattern} {more : List Pattern} (hs : s.head?.any isBlank = false)
    (h : (Pattern.all (.textStart :: .many .space :: verb :: .wordBoundary :: more)).matchString s = true) :
    s.head? = some 0x0c ∨ ∃ l u w rest, s = u ++ (w ++ rest) ∧ Reads verb l u (w ++ rest) ∧
      Reads .wordBoundary (Matching.past l u) w rest := by
  obtain ⟨u, rest, rfl, hreads⟩ := reads_of_matchString h
  obtain ⟨start, u, rfl, hstart, hreads⟩ := reads_all_cons hreads
  cases hstart
  obtain ⟨blanks, u, rfl, hblanks, hreads⟩ := reads_all_cons hreads
  replace hblanks := reads_many hblanks
  cases blanks with
  | cons c blanks =>
    rw [List.all_cons, Bool.and_eq_true] at hblanks
    have hc : isBlank c = false := hs
    simp only [isBlank, Bool.or_eq_false_iff, beq_eq_false_iff_ne] at hc
    have hfeed : c = 0x0c := by simpa [isSpace, hc] using hblanks.1
    exact .inl (congrArg some hfeed)
  | nil =>
    obtain ⟨v, w, rfl, hverb, hreads⟩ := reads_all_cons hreads
    obtain ⟨b, w, rfl, hend, -⟩ := reads_all_cons hreads
    simp only [List.nil_append, List.append_assoc] at hverb hend ⊢
    exact .inr ⟨_, v, b, _, rfl, hverb, hend⟩

theorem opening_cases (hs : s.head?.any isBlank = false) (h : readOnlyBeginRE.matchString s = true) :
    Overlooked s ∨ IsFirstWord s (ascii "BEGIN") ∨ IsFirstWord s (ascii "START") := by
  obtain hfeed | ⟨l, u, w, rest, rfl, hverb, hend⟩ := opening_of_match hs h
  · exact .inl (.inl hfeed)
  cases hverb with
  | left hbegin => exact .inr (.inl (opening_of_begin hbegin hend))
  | right hverb =>
    cases hverb with
    | left hstart =>
      obtain h | h := opening_of_s "START" rfl rfl (by decide) (by decide) (by decide) hstart
      · exact .inl (.inr (.inl h))
      · exact .inr (.inr h)
    | right hset =>
      obtain h | h := opening_of_s "SET" rfl rfl (by decide) (by decide) (by decide) hset
      · exact .inl (.inr (.inl h))
      · exact .inl (.inr (.inr h))

theorem Overlooked.not_isFirstWord (h : Overlooked s) :
    ¬IsFirstWord s (ascii "BEGIN") ∧ ¬IsFirstWord s (ascii "START") := by
  have hother {kw kw' : Text} (hkw : IsFirstWord s kw) (hne : kw ≠ kw') : ¬IsFirstWord s kw' :=
    fun hkw' ↦ hne (isFirstWord_unique hkw hkw')
  obtain hfeed | ⟨rest, rfl⟩ | hset := h
  · obtain ⟨rest, rfl⟩ := List.head?_eq_some_iff.mp hfeed
    have hnil : IsFirstWord (0x0c :: rest) [] := isFirstWord_nil (by decide)
    exact ⟨hother hnil (by decide), hother hnil (by decide)⟩
  · have hnil : IsFirstWord (0xc5 :: 0xbf :: rest) [] := isFirstWord_nil (by decide)
    exact ⟨hother hnil (by decide), hother hnil (by decide)⟩
  · exact ⟨hother hset (by decide), hother hset (by decide)⟩

end Openings

section Beginnings

variable {s name rest : Text} {keyword : String}

/-- What the fence sees begins with `BEGIN` or `START`, but for a form feed or a long `s` in front. -/
theorem firstWord_of_isExplicitBeginSQL {sql : Text} (h : isExplicitBeginSQL sql = true) :
    Overlooked (stripLeadingNoise sql) ∨ IsFirstWord (stripLeadingNoise sql) (ascii "BEGIN") ∨
      IsFirstWord (stripLeadingNoise sql) (ascii "START") := by
  obtain hfeed | ⟨l, u, w, rest, hs, hverb, hend⟩ := opening_of_match (bare_strip sql).blank h
  · exact .inl (.inl hfeed)
  rw [hs]
  cases hverb with
  | left hbegin => exact .inr (.inl (opening_of_begin hbegin hend))
  | right hstart =>
    obtain h | h := opening_of_s "START" rfl rfl (by decide) (by decide) (by decide) hstart
    · exact .inl (.inr (.inl h))
    · exact .inr (.inr h)

/-- A word of letters, and what follows it is not part of it. -/
structure Spelled (keyword : String) (name rest : Text) : Prop where
  spells : spells keyword name = true
  letters : (ascii keyword).all isLetter = true
  ne_nil : ascii keyword ≠ []
  ends : rest.head?.any isWord = false

namespace Spelled

theorem isWord (h : Spelled keyword name rest) : ∀ c ∈ name, Regexp.isWord c = true :=
  ident_of_spells h.spells h.letters

theorem name_ne (h : Spelled keyword name rest) : name ≠ [] := by
  rintro rfl
  exact h.ne_nil (beq_iff_eq.mp h.spells).symm

theorem head (h : Spelled keyword name rest) : (name ++ rest).head?.any isSpace = false := by
  obtain ⟨c, name, rfl⟩ := List.exists_cons_of_ne_nil h.name_ne
  have hbyte := forall_byte (p := fun c ↦ !Regexp.isWord c || !isSpace c) (by decide +kernel) c
  simpa [h.isWord c List.mem_cons_self] using hbyte

theorem run {l : Option UInt8} {g : List (ℕ × Text)} {k : Continue} (h : Spelled keyword name rest) :
    (Pattern.word keyword).run ⟨l, name ++ rest, g⟩ k = k ⟨Matching.past l name, rest, g⟩ := by
  have hbyte (c : UInt8) := forall_byte (p := fun c ↦ Pattern.lowerByte (upperByte c) == Pattern.lowerByte c &&
    (!Regexp.isWord c || c < 0x80)) (by decide +kernel) c
  simp only [Bool.and_eq_true, beq_iff_eq, Bool.or_eq_true, Bool.not_eq_true', decide_eq_true_eq] at hbyte
  refine Matching.run_letters ?_ fun c hc ↦ ?_
  · rw [← beq_iff_eq.mp h.spells, List.map_map]
    exact List.map_congr_left fun c _ ↦ (hbyte c).1.symm
  · exact (hbyte c).2.resolve_left (by simp [h.isWord c hc])

end Spelled

theorem isSome_run_spaces {x : UInt8} {spaces : Text} {k : Continue} {l : Option UInt8}
    (hspaces : (x :: spaces).all isSpace = true) (hrest : rest.head?.any isSpace = false)
    (hk : (k ⟨Matching.past (some x) spaces, rest, []⟩).isSome = true) :
    ((Pattern.plus .space).run ⟨l, x :: (spaces ++ rest), []⟩ k).isSome = true := by
  rw [List.all_cons, Bool.and_eq_true] at hspaces
  obtain ⟨c, hc⟩ := Option.isSome_iff_exists.mp hk
  change ((Pattern.byte isSpace).run ⟨l, x :: (spaces ++ rest), []⟩ fun c' ↦
    (Pattern.many (.byte isSpace)).run c' k).isSome = true
  rw [Matching.run_byte_cons, if_pos hspaces.1, Matching.run_many_hit hspaces.2 hrest hc]
  rfl

/-- With the white space in front gone, what the fence sees has one of the verbs there, and then its end. -/
theorem isExplicitBeginSQL_of_run {sql : Text} {l : Option UInt8} (hsql : stripLeadingNoise sql = s)
    (hspace : s.head?.any isSpace = false) (hl : l.any Regexp.isWord = true)
    (hrest : rest.head?.any Regexp.isWord = false)
    (hverb : ∀ k : Continue, (k ⟨l, rest, []⟩).isSome = true →
      ((Pattern.word "BEGIN").run ⟨none, s, []⟩ k).isSome = true ∨
      ((Pattern.all [.word "START", .plus .space, .word "TRANSACTION"]).run ⟨none, s, []⟩ k).isSome = true) :
    isExplicitBeginSQL sql = true := by
  have hend : ((Pattern.all [.wordBoundary]).run ⟨l, rest, []⟩ some).isSome = true := by
    rw [Matching.run_all_cons, Pattern.run, if_pos (by rw [hl, hrest]; rfl)]
    rfl
  have hverb := hverb (fun c ↦ (Pattern.all [.wordBoundary]).run c some) hend
  rw [← Bool.or_eq_true_iff, ← Option.isSome_or] at hverb
  obtain ⟨c, hc⟩ := Option.isSome_iff_exists.mp hverb
  rw [isExplicitBeginSQL, hsql]
  exact Option.isSome_iff_exists.mpr ⟨c, Matching.run_many_hit (show ([] : Text).all isSpace = true from rfl) hspace hc⟩

theorem isExplicitBeginSQL_begin {sql : Text} (hsql : stripLeadingNoise sql = name ++ rest)
    (h : Spelled "BEGIN" name rest) : isExplicitBeginSQL sql = true := by
  refine isExplicitBeginSQL_of_run hsql h.head (Matching.isWord_past (l := none) h.name_ne h.isWord)
    h.ends fun k hk ↦ .inl ?_
  rw [h.run]
  exact hk

theorem isExplicitBeginSQL_start {sql name' spaces : Text} {x : UInt8}
    (hsql : stripLeadingNoise sql = name ++ x :: (spaces ++ (name' ++ rest)))
    (h : Spelled "START" name (x :: (spaces ++ (name' ++ rest)))) (hspaces : (x :: spaces).all isSpace = true)
    (h' : Spelled "TRANSACTION" name' rest) : isExplicitBeginSQL sql = true := by
  refine isExplicitBeginSQL_of_run hsql h.head
    (Matching.isWord_past (l := Matching.past (some x) spaces) h'.name_ne h'.isWord) h'.ends fun k hk ↦ .inr ?_
  rw [Matching.run_all_cons, h.run, Matching.run_all_cons]
  refine isSome_run_spaces hspaces h'.head ?_
  rw [Matching.run_all_cons, h'.run]
  exact hk

end Beginnings

section Results

variable {sql : Text} {info : SQLInfo}

theorem analyzeSQL_keyword (h : analyzeSQL sql = some info) :
    ∃ kw, firstKeyword (stripLeadingNoise sql) = some kw ∧
      info.isROBegin = ((kw == ascii "BEGIN" || kw == ascii "START") && isExplicitReadOnlyBeginSQL sql) ∧
        info.needsPin = (kw != [] && needsPin sql kw) := by
  unfold analyzeSQL at h
  simp only [Option.bind_eq_some_iff] at h
  obtain ⟨kw, hkw, h⟩ := h
  refine ⟨kw, hkw, ?_⟩
  split at h
  · next hnil =>
    cases h
    rw [eq_of_beq hnil]
    exact ⟨rfl, rfl⟩
  · next hne =>
    obtain ⟨op, -, rfl⟩ := Option.map_eq_some_iff.mp h
    have hword : (kw != []) = true := by simpa using hne
    rw [hword]
    exact ⟨rfl, rfl⟩

theorem isROBegin_analyzeSQL (h : analyzeSQL sql = some info) :
    info.isROBegin = true ↔
      isExplicitReadOnlyBeginSQL sql = true ∧
        (IsFirstWord (stripLeadingNoise sql) (ascii "BEGIN") ∨
          IsFirstWord (stripLeadingNoise sql) (ascii "START")) := by
  obtain ⟨kw, hkw, hbegin, -⟩ := analyzeSQL_keyword h
  have hword (word : Text) (hword : certain word = true) :
      IsFirstWord (stripLeadingNoise sql) word ↔ kw = word := by
    rw [← firstKeyword_eq_some_iff hword, hkw, Option.some_inj]
  rw [hword _ (by decide), hword _ (by decide), hbegin]
  simp [and_comm]

/-- The analysis in one pass gives the class that the classifier gives. It overlooks a read-only transaction that
begins with a form feed or a long `s`, and one that is set. -/
theorem analyzeSQL_eq_classifyDetail_iff {op : SQLOp} {isROBegin : Bool} (hinfo : analyzeSQL sql = some info)
    (hdetail : classifyDetail sql = some (op, isROBegin)) :
    info.op = op ∧ info.isROBegin = isROBegin ↔
      ¬(isExplicitReadOnlyBeginSQL sql = true ∧ Overlooked (stripLeadingNoise sql)) := by
  have hop := op_analyzeSQL sql
  rw [hinfo, Option.map_some] at hop
  rw [classifyDetail, ← hop, Option.map_some, Option.some_inj, Prod.mk.injEq] at hdetail
  obtain ⟨rfl, rfl⟩ := hdetail
  change _ ∧ info.isROBegin = isExplicitReadOnlyBeginSQL sql ↔ _
  rw [and_iff_right rfl, Bool.eq_iff_iff, isROBegin_analyzeSQL hinfo]
  constructor
  · intro h hoverlooked
    obtain ⟨hbegin, hstart⟩ := hoverlooked.2.not_isFirstWord
    obtain hword | hword := (h.mpr hoverlooked.1).2
    · exact hbegin hword
    · exact hstart hword
  · intro h
    refine ⟨fun hseen ↦ hseen.1, fun hmatch ↦ ⟨hmatch, ?_⟩⟩
    obtain hoverlooked | hword := opening_cases (bare_strip sql).blank hmatch
    · exact absurd ⟨hmatch, hoverlooked⟩ h
    · exact hword

theorem analyzeSQL_eq_classifyDetail_begin :
    analyzeSQL (ascii "BEGIN READ ONLY") = some ⟨.write, true, false, false⟩ ∧
      classifyDetail (ascii "BEGIN READ ONLY") = some (.write, true) ∧
        ¬(isExplicitReadOnlyBeginSQL (ascii "BEGIN READ ONLY") = true ∧
          Overlooked (stripLeadingNoise (ascii "BEGIN READ ONLY"))) := by
  have hinfo : analyzeSQL (ascii "BEGIN READ ONLY") = some ⟨.write, true, false, false⟩ := by rfl
  have hdetail : classifyDetail (ascii "BEGIN READ ONLY") = some (.write, true) := by rfl
  exact ⟨hinfo, hdetail, (analyzeSQL_eq_classifyDetail_iff hinfo hdetail).mp ⟨rfl, rfl⟩⟩

/-- `SET TRANSACTION READ ONLY` is taken for a read-only transaction by one of the two alone. -/
theorem analyzeSQL_overlooks_set :
    analyzeSQL (ascii "SET TRANSACTION READ ONLY") = some ⟨.write, false, false, true⟩ ∧
      classifyDetail (ascii "SET TRANSACTION READ ONLY") = some (.write, true) :=
  ⟨by rfl, by rfl⟩

end Results

end PgRouter.Sql.Analysis
