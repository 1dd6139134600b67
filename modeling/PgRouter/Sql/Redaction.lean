import PgRouter.Library.Texts
import PgRouter.Sql.Lexing

namespace PgRouter.Sql.Redaction

open Client.Protocol Lexing Library.Texts

section Lexemes

def prepend (taken : Text) (r : Text × Text) : Text × Text := (taken ++ r.1, r.2)

/-- What follows an opening quote, up to and with the closing one, and the rest. A doubled quote does not
close. -/
def quotedBody (quote : UInt8) : Text → Text × Text
  | [] => ([], [])
  | [c] => ([c], [])
  | c :: d :: s =>
    if c = quote then
      if d = quote then prepend [c, d] (quotedBody quote s) else ([c], d :: s)
    else prepend [c] (quotedBody quote (d :: s))

/-- The same for a string with backslash escapes. -/
def escapedBody : Text → Text × Text
  | [] => ([], [])
  | [c] => ([c], [])
  | c :: d :: s =>
    if c = 0x5c then prepend [c, d] (escapedBody s)
    else if c = 0x27 then
      if d = 0x27 then prepend [c, d] (escapedBody s) else ([c], d :: s)
    else prepend [c] (escapedBody (d :: s))

/-- What follows the opening of a block comment, up to and with its end, and the rest. -/
def blockBody (s : Text) : Text × Text := (s.take (s.length - (skipBlock 1 s).length), skipBlock 1 s)

def exponent : Text → Text × Text
  | c :: s =>
    if c = 0x65 ∨ c = 0x45 then
      match s with
      | d :: s' =>
        if d = 0x2b ∨ d = 0x2d then prepend [c, d] (s'.span isDigit) else prepend [c] ((d :: s').span isDigit)
      | [] => ([c], [])
    else ([], c :: s)
  | [] => ([], [])

/-- A number: in hexadecimal digits, or digits and points with an exponent. -/
def numberBody (s : Text) : Text × Text :=
  if s.head? = some 0x30 ∧ (s.tail.head? = some 0x78 ∨ s.tail.head? = some 0x58) then
    prepend (s.take 2) ((s.drop 2).span isHex)
  else
    prepend (s.takeWhile fun c ↦ isDigit c || c == 0x2e) (exponent (s.dropWhile fun c ↦ isDigit c || c == 0x2e))

end Lexemes

/-- The state of the loop: `sql[:i]`, `sql[i:]` and what has been written. -/
structure Scan where
  before : Text
  rest : Text
  out : Text

namespace Scan

def advance (st : Scan) (r : Text × Text) (written : Text) : Scan := ⟨st.before ++ r.1, r.2, st.out ++ written⟩

def keep (st : Scan) (r : Text × Text) : Scan := st.advance r r.1

/-- Where the loop over a tag ends: the tag so far, what follows it, how far `i` has been moved and what has
been written meanwhile. -/
structure TagEnd where
  tag : Text
  rest : Text
  moved : ℕ
  written : Text

/-- The loop over the tag of a dollar quote. At a byte that belongs to no tag it moves `i` and goes on,
without moving on itself. -/
def tagLoop : ℕ → TagEnd → Option TagEnd
  | 0, _ => none
  | fuel + 1, t =>
    match t.rest with
    | [] => some t
    | c :: s =>
      if c = 0x24 then some t
      else if isIdentByte c then tagLoop fuel { t with tag := t.tag ++ [c], rest := s }
      else tagLoop fuel { t with moved := t.moved + 1, written := t.written ++ [0x24] }

def dollar (fuel : ℕ) (st : Scan) (s : Text) : Option Scan :=
  if s.head?.any isDigit then some (st.keep (prepend [0x24] (s.span isDigit)))
  else
    (tagLoop fuel ⟨[], s, 0, []⟩).map fun t ↦
      let whole := st.advance (0x24 :: s, []) (t.written ++ (0x24 :: s).drop t.moved)
      match t.rest with
      | [] => whole
      | _ :: inside =>
        let tag := (0x24 :: t.tag ++ [0x24]).drop t.moved
        match cutText tag inside with
        | none => whole
        | some (body, after) => st.advance (0x24 :: t.tag ++ [0x24] ++ body ++ tag, after) (t.written ++ [0x3f])

/-- A digit, or a point before a digit. After an identifier byte it belongs to the identifier. -/
def number (st : Scan) : Scan :=
  if st.before.getLast?.any isIdentByte then st.keep (st.rest.span fun c ↦ isDigit c || isIdentByte c)
  else st.advance (numberBody st.rest) [0x3f]

/-- One iteration of the outer loop. -/
def iteration (fuel : ℕ) (st : Scan) : Option Scan :=
  match st.rest with
  | [] => some st
  | c :: s =>
    if c = 0x27 then some (st.advance (prepend [c] (quotedBody 0x27 s)) [0x3f])
    else if (c = 0x45 ∨ c = 0x65) ∧ s.head? = some 0x27 then
      some (st.advance (prepend [c, 0x27] (escapedBody s.tail)) [0x3f])
    else if c = 0x24 then st.dollar fuel s
    else if c = 0x2d ∧ s.head? = some 0x2d then some (st.keep (prepend [c, 0x2d] (s.tail.span (· != 0x0a))))
    else if c = 0x2f ∧ s.head? = some 0x2a then some (st.keep (prepend [c, 0x2a] (blockBody s.tail)))
    else if isDigit c ∨ c = 0x2e ∧ s.head?.any isDigit then some st.number
    else if c = 0x22 then some (st.keep (prepend [c] (quotedBody 0x22 s)))
    else some (st.keep ([c], s))

/-- The outer loop; with too little fuel there is no result. -/
def run : ℕ → Scan → Option Text
  | 0, _ => none
  | fuel + 1, st => if st.rest = [] then some st.out else (st.iteration fuel).bind (run fuel)

end Scan

def redactSQL (fuel : ℕ) (sql : Text) : Option Text := Scan.run fuel ⟨[], sql, []⟩

section Cutting

def tagOf (s : Text) : Text := 0x24 :: s.takeWhile isIdentByte ++ [0x24]

def dollarLexeme (s : Text) : Text × Text :=
  if s.head?.any isDigit then prepend [0x24] (s.span isDigit)
  else
    match s.dropWhile isIdentByte with
    | [] => (0x24 :: s, [])
    | _ :: inside =>
      match cutText (tagOf s) inside with
      | none => (0x24 :: s, [])
      | some (body, after) => (tagOf s ++ body ++ tagOf s, after)

/-- The first lexeme of a text, and the rest: a string, a parameter, a dollar quote, a comment, a number,
the end of an identifier, a quoted identifier, or a byte. -/
def lexeme (before : Text) : Text → Text × Text
  | [] => ([], [])
  | c :: s =>
    if c = 0x27 then prepend [c] (quotedBody 0x27 s)
    else if (c = 0x45 ∨ c = 0x65) ∧ s.head? = some 0x27 then prepend [c, 0x27] (escapedBody s.tail)
    else if c = 0x24 then dollarLexeme s
    else if c = 0x2d ∧ s.head? = some 0x2d then prepend [c, 0x2d] (s.tail.span (· != 0x0a))
    else if c = 0x2f ∧ s.head? = some 0x2a then prepend [c, 0x2a] (blockBody s.tail)
    else if isDigit c ∨ c = 0x2e ∧ s.head?.any isDigit then
      if before.getLast?.any isIdentByte then (c :: s).span isIdentByte else numberBody (c :: s)
    else if c = 0x22 then prepend [c] (quotedBody 0x22 s)
    else ([c], s)

def dollarWritten (s : Text) : Text :=
  if s.head?.any isDigit then (dollarLexeme s).1
  else
    match s.dropWhile isIdentByte with
    | [] => (dollarLexeme s).1
    | _ :: inside => if (cutText (tagOf s) inside).isSome then [0x3f] else (dollarLexeme s).1

def written (before : Text) : Text → Text
  | [] => []
  | c :: s =>
    if c = 0x27 ∨ (c = 0x45 ∨ c = 0x65) ∧ s.head? = some 0x27 then [0x3f]
    else if c = 0x24 then dollarWritten s
    else if (isDigit c ∨ c = 0x2e ∧ s.head?.any isDigit) ∧ ¬before.getLast?.any isIdentByte then [0x3f]
    else (lexeme before (c :: s)).1

/-- A dollar that begins neither a parameter nor a tag that is closed or runs to the end. -/
def strayDollar (s : Text) : Bool := !s.head?.any isDigit && (s.dropWhile isIdentByte).head?.any (· != 0x24)

/-- The lexeme is a dollar of no use, or a point between an identifier and a digit. -/
def stray (before : Text) : Text → Bool
  | [] => false
  | c :: s => (c == 0x24 && strayDollar s) ||
      (c == 0x2e && s.head?.any isDigit && before.getLast?.any isIdentByte)

/-- Cut from left to right, the text has no stray lexeme. -/
def unstrayed : ℕ → Text → Text → Bool
  | _, _, [] => true
  | 0, _, _ :: _ => true
  | fuel + 1, before, c :: s =>
    !stray before (c :: s) &&
      unstrayed fuel (before ++ (lexeme before (c :: s)).1) (lexeme before (c :: s)).2

def clean (sql : Text) : Bool := unstrayed sql.length [] sql

end Cutting

section Lexemes

@[simp] theorem prepend_append (taken : Text) (r : Text × Text) :
    (prepend taken r).1 ++ (prepend taken r).2 = taken ++ (r.1 ++ r.2) := List.append_assoc _ _ _

theorem quotedBody_append (quote : UInt8) (s : Text) : (quotedBody quote s).1 ++ (quotedBody quote s).2 = s := by
  fun_induction quotedBody quote s <;> simp_all

theorem escapedBody_append (s : Text) : (escapedBody s).1 ++ (escapedBody s).2 = s := by
  fun_induction escapedBody s <;> simp_all

theorem closed_suffix {depth : ℕ} {s t : Text} (h : closed depth s = some t) : t <:+ s := by
  induction depth, s using closed.induct with
  | case1 s =>
    rw [closed] at h
    cases h
    exact List.suffix_refl _
  | case2 depth => cases h
  | case3 depth c => cases h
  | case4 depth c d s hopen ih =>
    rw [closed, if_pos hopen] at h
    exact (ih h).trans (List.suffix_append [c, d] s)
  | case5 depth c d s hopen hclose ih =>
    rw [closed, if_neg hopen, if_pos hclose] at h
    exact (ih h).trans (List.suffix_append [c, d] s)
  | case6 depth c d s hopen hclose ih =>
    rw [closed, if_neg hopen, if_neg hclose] at h
    exact (ih h).trans (List.suffix_cons c (d :: s))

theorem blockBody_append (s : Text) : (blockBody s).1 ++ (blockBody s).2 = s := by
  apply List.suffix_iff_eq_append.mp
  unfold skipBlock
  cases h : closed 1 s with
  | none => exact List.nil_suffix
  | some t => exact closed_suffix h

@[simp] theorem span_append {p : UInt8 → Bool} (s : Text) : (s.span p).1 ++ (s.span p).2 = s := by
  rw [List.span_eq_takeWhile_dropWhile, List.takeWhile_append_dropWhile]

theorem exponent_append (s : Text) : (exponent s).1 ++ (exponent s).2 = s := by
  fun_cases exponent s <;> simp

theorem numberBody_append (s : Text) : (numberBody s).1 ++ (numberBody s).2 = s := by
  unfold numberBody
  split
  · simp
  · simp [exponent_append]

theorem prepend_fst_ne_nil {taken : Text} (h : taken ≠ []) (r : Text × Text) : (prepend taken r).1 ≠ [] :=
  fun hnil ↦ h (List.append_eq_nil_iff.mp hnil).1

variable {s : Text}

theorem tag_of_not_stray (hdigit : s.head?.any isDigit = false) (h : strayDollar s = false) :
    s.dropWhile isIdentByte = [] ∨ ∃ inside, s.dropWhile isIdentByte = 0x24 :: inside := by
  rw [strayDollar, hdigit, Bool.not_false, Bool.true_and] at h
  cases hrest : s.dropWhile isIdentByte with
  | nil => exact .inl rfl
  | cons c inside =>
    rw [hrest] at h
    have hc : c = 0x24 := by simpa using h
    exact .inr ⟨inside, by rw [hc]⟩

theorem dollarLexeme_spec (h : strayDollar s = false) :
    (dollarLexeme s).1 ++ (dollarLexeme s).2 = 0x24 :: s ∧ (dollarLexeme s).1 ≠ [] := by
  unfold dollarLexeme
  cases hdigit : s.head?.any isDigit with
  | true => exact ⟨by simp, prepend_fst_ne_nil (by simp) _⟩
  | false =>
    simp only [Bool.false_eq_true, if_false]
    obtain hnil | ⟨inside, hinside⟩ := tag_of_not_stray hdigit h
    · simp [hnil]
    · have hwhole : tagOf s ++ inside = 0x24 :: s := by
        rw [tagOf, List.append_assoc, List.singleton_append, List.cons_append, ← hinside,
          List.takeWhile_append_dropWhile]
      rw [hinside]
      cases hcut : cutText (tagOf s) inside with
      | none => simp [hcut]
      | some r =>
        obtain ⟨body, after⟩ := r
        have hbody := cutText_append hcut
        simp only [hcut]
        refine ⟨?_, by simp [tagOf]⟩
        rw [← hwhole, ← hbody, List.append_assoc, List.append_assoc, List.append_assoc]

variable {c : UInt8}

theorem numberBody_ne_nil (h : isDigit c = true ∨ c = 0x2e) : (numberBody (c :: s)).1 ≠ [] := by
  unfold numberBody
  split
  · exact prepend_fst_ne_nil (by simp) _
  · refine prepend_fst_ne_nil ?_ _
    have hc : (isDigit c || c == 0x2e) = true := by simpa using h
    rw [List.takeWhile_cons, if_pos hc]
    simp

theorem isIdentByte_of_isDigit (h : isDigit c = true) : isIdentByte c = true := by
  simp only [isDigit, Bool.and_eq_true] at h
  simp [isIdentByte, h]

theorem lexeme_spec {before s : Text} (h : stray before (c :: s) = false) :
    (lexeme before (c :: s)).1 ++ (lexeme before (c :: s)).2 = c :: s ∧ (lexeme before (c :: s)).1 ≠ [] := by
  rw [lexeme]
  split
  · exact ⟨by simp [quotedBody_append], prepend_fst_ne_nil (by simp) _⟩
  split
  · next hc =>
    obtain ⟨t, rfl⟩ : ∃ t, s = 0x27 :: t := List.head?_eq_some_iff.mp hc.2
    exact ⟨by simp [escapedBody_append], prepend_fst_ne_nil (by simp) _⟩
  split
  · next hc =>
    have hstray : strayDollar s = false := by
      simp only [stray, Bool.or_eq_false_iff, hc] at h
      simpa using h.1
    rw [hc]
    exact dollarLexeme_spec hstray
  split
  · next hc =>
    obtain ⟨t, rfl⟩ : ∃ t, s = 0x2d :: t := List.head?_eq_some_iff.mp hc.2
    exact ⟨by simp, prepend_fst_ne_nil (by simp) _⟩
  split
  · next hc =>
    obtain ⟨t, rfl⟩ : ∃ t, s = 0x2a :: t := List.head?_eq_some_iff.mp hc.2
    exact ⟨by simp [blockBody_append], prepend_fst_ne_nil (by simp) _⟩
  split
  · next hc =>
    split
    · next hprev =>
      -- a point between an identifier and a digit is stray, so this is a digit
      have hdigit : isDigit c = true := by
        by_contra hnot
        obtain ⟨rfl, hnext⟩ := hc.resolve_left hnot
        simp [stray, hnext, hprev] at h
      refine ⟨span_append _, ?_⟩
      rw [List.span_eq_takeWhile_dropWhile, List.takeWhile_cons, if_pos (isIdentByte_of_isDigit hdigit)]
      simp
    · exact ⟨numberBody_append _, numberBody_ne_nil (hc.imp_right And.left)⟩
  split
  · exact ⟨by simp [quotedBody_append], prepend_fst_ne_nil (by simp) _⟩
  · exact ⟨rfl, by simp⟩

theorem lexeme_shorter {before s : Text} (h : stray before (c :: s) = false) :
    (lexeme before (c :: s)).2.length < (c :: s).length := by
  obtain ⟨happend, hne⟩ := lexeme_spec h
  have hlength := congrArg List.length happend
  have hpos := List.length_pos_iff.mpr hne
  rw [List.length_append] at hlength
  omega

end Lexemes

section Progress

variable {fuel : ℕ}

open Scan

variable {t : TagEnd}

theorem tagLoop_stuck {c : UInt8} {s : Text} (hrest : t.rest = c :: s) (hdollar : c ≠ 0x24)
    (hident : isIdentByte c = false) : tagLoop fuel t = none := by
  induction fuel generalizing t with
  | zero => rfl
  | succ fuel ih =>
    simp only [tagLoop, hrest, hdollar, hident, if_false, Bool.false_eq_true]
    exact ih rfl

theorem tagLoop_eq :
    tagLoop fuel t =
      if (t.rest.dropWhile isIdentByte).head?.any (· != 0x24) = false ∧
        (t.rest.takeWhile isIdentByte).length < fuel then
        some { t with tag := t.tag ++ t.rest.takeWhile isIdentByte, rest := t.rest.dropWhile isIdentByte }
      else none := by
  obtain ⟨tag, s, moved, written⟩ := t
  induction s generalizing fuel tag with
  | nil => cases fuel <;> simp [tagLoop]
  | cons c s ih =>
    cases hident : isIdentByte c with
    | false =>
      by_cases hdollar : c = 0x24
      · cases fuel <;> simp [tagLoop, hdollar, show isIdentByte 0x24 = false from rfl]
      · rw [tagLoop_stuck rfl hdollar hident]
        simp [hident, hdollar]
    | true =>
      cases fuel with
      | zero => simp [tagLoop]
      | succ fuel =>
        have hdollar : c ≠ 0x24 := by
          rintro rfl
          cases hident
        simp only [tagLoop, hdollar, hident, if_false, if_true]
        rw [ih (tag ++ [c])]
        simp [hident]

theorem tagLoop_stray (h : (t.rest.dropWhile isIdentByte).head?.any (· != 0x24) = true) :
    tagLoop fuel t = none := by
  simp [tagLoop_eq, h]

variable {st st' : Scan} {before s out : Text} {c : UInt8}

theorem dollar_eq (hdigit : s.head?.any isDigit = false) (h : strayDollar s = false) :
    st.dollar fuel s = if (s.takeWhile isIdentByte).length < fuel then
      some (st.advance (dollarLexeme s) (dollarWritten s)) else none := by
  have htag := tag_of_not_stray hdigit h
  rw [strayDollar, hdigit, Bool.not_false, Bool.true_and] at h
  unfold Scan.dollar dollarLexeme dollarWritten
  rw [hdigit, tagLoop_eq, h]
  simp only [Bool.false_eq_true, if_false, List.nil_append, true_and]
  split
  · obtain hnil | ⟨inside, hinside⟩ := htag
    · simp [hnil, dollarLexeme, hdigit]
    · have htag : 0x24 :: (s.takeWhile isIdentByte ++ [0x24]) = tagOf s := rfl
      simp only [Option.map_some, hinside, List.drop_zero, List.nil_append, List.cons_append, htag]
      cases hcut : cutText (tagOf s) inside with
      | none => simp [dollarLexeme, hdigit, hinside, hcut]
      | some r => rfl
  · rfl

theorem dollar_inv (h : st.dollar fuel s = some st') : st' = st.advance (dollarLexeme s) (dollarWritten s) := by
  cases hdigit : s.head?.any isDigit with
  | true =>
    simp only [Scan.dollar, hdigit, if_true, Option.some.injEq] at h
    simp [← h, Scan.keep, dollarLexeme, dollarWritten, hdigit]
  | false =>
    cases hstray : strayDollar s with
    | true =>
      rw [strayDollar, hdigit, Bool.not_false, Bool.true_and] at hstray
      rw [Scan.dollar, hdigit, tagLoop_stray (t := ⟨[], s, 0, []⟩) hstray] at h
      cases h
    | false =>
      rw [dollar_eq hdigit hstray] at h
      split at h
      · exact (Option.some.inj h).symm
      · cases h

theorem span_digits (s : Text) : (s.span fun c ↦ isDigit c || isIdentByte c) = s.span isIdentByte := by
  congr
  funext c
  cases hc : isDigit c with
  | true => rw [isIdentByte_of_isDigit hc, Bool.true_or]
  | false => rfl

theorem iteration_inv (h : iteration fuel ⟨before, c :: s, out⟩ = some st') :
    st' = advance ⟨before, c :: s, out⟩ (lexeme before (c :: s)) (written before (c :: s)) := by
  simp only [iteration] at h
  by_cases hquote : c = 0x27
  · simp only [if_pos hquote, Option.some.injEq] at h
    simp [← h, lexeme, written, hquote]
  by_cases hescape : (c = 0x45 ∨ c = 0x65) ∧ s.head? = some 0x27
  · simp only [if_neg hquote, if_pos hescape, Option.some.injEq] at h
    simp [← h, lexeme, written, hquote, hescape]
  by_cases hdollar : c = 0x24
  · simp only [if_neg hquote, if_neg hescape, if_pos hdollar] at h
    simp [dollar_inv h, lexeme, written, hdollar]
  have hwritten : ¬(c = 0x27 ∨ (c = 0x45 ∨ c = 0x65) ∧ s.head? = some 0x27) := fun h ↦ h.elim hquote hescape
  by_cases hline : c = 0x2d ∧ s.head? = some 0x2d
  · simp only [if_neg hquote, if_neg hescape, if_neg hdollar, if_pos hline, Option.some.injEq] at h
    simp [← h, lexeme, written, hline, Scan.keep, isDigit]
  by_cases hblock : c = 0x2f ∧ s.head? = some 0x2a
  · simp only [if_neg hquote, if_neg hescape, if_neg hdollar, if_neg hline, if_pos hblock,
      Option.some.injEq] at h
    simp [← h, lexeme, written, hblock, Scan.keep, isDigit]
  by_cases hnumber : isDigit c ∨ c = 0x2e ∧ s.head?.any isDigit
  · simp only [if_neg hquote, if_neg hescape, if_neg hdollar, if_neg hline, if_neg hblock, if_pos hnumber,
      Option.some.injEq] at h
    have hlexeme : lexeme before (c :: s) = if before.getLast?.any isIdentByte then (c :: s).span isIdentByte
        else numberBody (c :: s) := by
      rw [lexeme, if_neg hquote, if_neg hescape, if_neg hdollar, if_neg hline, if_neg hblock, if_pos hnumber]
    rw [← h, written, if_neg hwritten, if_neg hdollar, hlexeme, Scan.number]
    cases hprev : before.getLast?.any isIdentByte with
    | true => simp only [Scan.keep, span_digits, if_true, not_true_eq_false, and_false, if_false]
    | false => simp [hnumber]
  have hwrite : written before (c :: s) = (lexeme before (c :: s)).1 := by
    rw [written, if_neg hwritten, if_neg hdollar, if_neg fun hn ↦ hnumber hn.1]
  rw [hwrite, lexeme, if_neg hquote, if_neg hescape, if_neg hdollar, if_neg hline, if_neg hblock, if_neg hnumber]
  simp only [if_neg hquote, if_neg hescape, if_neg hdollar, if_neg hline, if_neg hblock, if_neg hnumber] at h
  by_cases hident : c = 0x22
  · rw [if_pos hident] at h ⊢
    exact (Option.some.inj h).symm
  · rw [if_neg hident] at h ⊢
    exact (Option.some.inj h).symm

theorem iteration_isSome (before out : Text) (hstray : c = 0x24 → strayDollar s = false) (hfuel : s.length < fuel) :
    (iteration fuel ⟨before, c :: s, out⟩).isSome = true := by
  simp only [iteration]
  split
  · rfl
  split
  · rfl
  split
  · next hdollar =>
    cases hdigit : s.head?.any isDigit with
    | true => simp [Scan.dollar, hdigit]
    | false =>
      have hless : (s.takeWhile isIdentByte).length < fuel :=
        Nat.lt_of_le_of_lt (List.takeWhile_prefix _).length_le hfuel
      rw [dollar_eq hdigit (hstray hdollar), if_pos hless]
      rfl
  split
  · rfl
  split
  · rfl
  split
  · rfl
  split <;> rfl

theorem iteration_stray (hstray : strayDollar s = true) : iteration fuel ⟨before, 0x24 :: s, out⟩ = none := by
  have hdollar : iteration fuel ⟨before, 0x24 :: s, out⟩ = dollar fuel ⟨before, 0x24 :: s, out⟩ s := by
    simp [iteration]
  rw [strayDollar, Bool.and_eq_true, Bool.not_eq_true'] at hstray
  rw [hdollar, Scan.dollar, hstray.1, tagLoop_stray (t := ⟨[], s, 0, []⟩) hstray.2]
  rfl

inductive Reaches (st₀ : Scan) : Scan → Prop
  | start : Reaches st₀ st₀
  | next {st st' : Scan} (fuel : ℕ) : Reaches st₀ st → st.rest ≠ [] → st.iteration fuel = some st' → Reaches st₀ st'

/-- Every iteration of the loop ends, and has moved the index. -/
def Progresses (st₀ : Scan) : Prop :=
  ∀ st, Reaches st₀ st → st.rest ≠ [] →
    ∃ fuel st', st.iteration fuel = some st' ∧ st.before.length < st'.before.length

theorem strayDollar_of_not_stray (h : stray before (c :: s) = false) (hc : c = 0x24) : strayDollar s = false := by
  subst hc
  simpa [stray] using h

theorem lexeme_of_stray (hstray : stray before (c :: s) = true)
    (h : iteration fuel ⟨before, c :: s, out⟩ = some st') : st' = ⟨before, c :: s, out⟩ := by
  have hcases : (c == 0x24 && strayDollar s) = true ∨
      (c == 0x2e && s.head?.any isDigit && before.getLast?.any isIdentByte) = true :=
    Bool.or_eq_true_iff.mp hstray
  obtain hdollar | hpoint := hcases
  · obtain ⟨hc, hdollar⟩ : c = 0x24 ∧ strayDollar s = true := by simpa using hdollar
    rw [hc, iteration_stray hdollar] at h
    cases h
  · obtain ⟨⟨rfl, hdigit⟩, hprev⟩ : (c = 0x2e ∧ s.head?.any isDigit = true) ∧
        before.getLast?.any isIdentByte = true := by simpa using hpoint
    have hlexeme : lexeme before (0x2e :: s) = ([], 0x2e :: s) := by
      simp [lexeme, hdigit, hprev, show isIdentByte 0x2e = false from rfl]
    have hwritten : written before (0x2e :: s) = [] := by simp [written, hprev, hlexeme]
    rw [iteration_inv h, hlexeme, hwritten, advance, List.append_nil, List.append_nil]

theorem iteration_progress :
    (∃ fuel st', iteration fuel ⟨before, c :: s, out⟩ = some st' ∧ before.length < st'.before.length) ↔
      stray before (c :: s) = false := by
  constructor
  · intro h
    obtain ⟨fuel, st', hiteration, hlength⟩ := h
    by_contra hstray
    rw [lexeme_of_stray (Bool.eq_true_of_not_eq_false hstray) hiteration] at hlength
    exact absurd hlength (Nat.lt_irrefl _)
  · intro hstray
    have hdollar := strayDollar_of_not_stray hstray
    obtain ⟨st', hst'⟩ := Option.isSome_iff_exists.mp
      (iteration_isSome before out hdollar (Nat.lt_succ_self s.length))
    refine ⟨s.length + 1, st', hst', ?_⟩
    have hne := List.length_pos_iff.mpr (lexeme_spec hstray).2
    rw [iteration_inv hst', advance, List.length_append]
    exact Nat.lt_add_of_pos_right hne

theorem Reaches.of_next {st₁ : Scan} (hrest : st.rest ≠ []) (hnext : st.iteration fuel = some st₁)
    (h : Reaches st₁ st') : Reaches st st' := by
  induction h with
  | start => exact .next fuel .start hrest hnext
  | next fuel' _ hrest' hnext' ih => exact .next fuel' ih hrest' hnext'

theorem Reaches.cases_cons (h : Reaches ⟨before, c :: s, out⟩ st) :
    st = ⟨before, c :: s, out⟩ ∨
      Reaches (advance ⟨before, c :: s, out⟩ (lexeme before (c :: s)) (written before (c :: s))) st := by
  induction h with
  | start => exact .inl rfl
  | next fuel _ hrest hnext ih =>
    obtain rfl | h := ih
    · rw [iteration_inv hnext]
      exact .inr .start
    · exact .inr (.next fuel h hrest hnext)

theorem Reaches.rest_of_nil (h : Reaches ⟨before, [], out⟩ st) : st.rest = [] := by
  induction h with
  | start => rfl
  | next fuel _ hrest _ ih => exact absurd ih hrest

theorem progresses_nil : Progresses ⟨before, [], out⟩ :=
  fun _ hreach hrest ↦ absurd hreach.rest_of_nil hrest

theorem progresses_cons : Progresses ⟨before, c :: s, out⟩ ↔ stray before (c :: s) = false ∧
    Progresses (advance ⟨before, c :: s, out⟩ (lexeme before (c :: s)) (written before (c :: s))) := by
  constructor
  · intro h
    have hfirst := h _ .start (List.cons_ne_nil c s)
    obtain ⟨fuel, st', hnext, hlength⟩ := hfirst
    refine ⟨iteration_progress.mp ⟨fuel, st', hnext, hlength⟩, fun st hreach ↦ h st ?_⟩
    rw [iteration_inv hnext] at hnext
    exact hreach.of_next (List.cons_ne_nil c s) hnext
  · intro h st hreach hrest
    obtain rfl | hreach := hreach.cases_cons
    · exact iteration_progress.mpr h.1
    · exact h.2 st hreach hrest

/-- The loop makes progress exactly on a text that has no stray lexeme. -/
theorem progresses_iff_unstrayed (hfuel : s.length ≤ fuel) :
    Progresses ⟨before, s, out⟩ ↔ unstrayed fuel before s = true := by
  induction fuel generalizing before s out with
  | zero =>
    obtain rfl := List.length_eq_zero_iff.mp (Nat.le_zero.mp hfuel)
    exact iff_of_true progresses_nil rfl
  | succ fuel ih =>
    cases s with
    | nil => exact iff_of_true progresses_nil rfl
    | cons c s =>
      rw [progresses_cons, unstrayed, Bool.and_eq_true, Bool.not_eq_true']
      refine and_congr_right fun hstray ↦ ih ?_
      exact Nat.le_of_lt_succ (Nat.lt_of_lt_of_le (lexeme_shorter hstray) hfuel)

end Progress

section Returning

open Scan

variable {fuel : ℕ} {before s out result : Text} {c : UInt8}

inductive Redacts : Text → Text → Text → Prop
  | nil (before : Text) : Redacts before [] []
  | cons {before s result : Text} {c : UInt8} (hstray : stray before (c :: s) = false)
      (h : Redacts (before ++ (lexeme before (c :: s)).1) (lexeme before (c :: s)).2 result) :
      Redacts before (c :: s) (written before (c :: s) ++ result)

theorem Redacts.run (h : Redacts before s result) (hfuel : s.length < fuel) :
    Scan.run fuel ⟨before, s, out⟩ = some (out ++ result) := by
  induction h generalizing fuel out with
  | nil before =>
    obtain ⟨fuel, rfl⟩ := Nat.exists_eq_add_one.mpr (Nat.zero_lt_of_lt hfuel)
    simp [Scan.run]
  | @cons before s result c hstray h ih =>
    obtain ⟨fuel, rfl⟩ := Nat.exists_eq_add_one.mpr (Nat.zero_lt_of_lt hfuel)
    have hless : s.length < fuel := Nat.lt_of_succ_lt_succ hfuel
    obtain ⟨st, hnext⟩ := Option.isSome_iff_exists.mp
      (iteration_isSome before out (strayDollar_of_not_stray hstray) hless)
    rw [Scan.run, if_neg (List.cons_ne_nil c s), hnext, Option.bind_some, iteration_inv hnext, ← List.append_assoc]
    exact ih (Nat.lt_of_lt_of_le (lexeme_shorter hstray) (Nat.le_of_lt_succ hfuel))

theorem redacts_iff_unstrayed (hfuel : s.length ≤ fuel) :
    (∃ result, Redacts before s result) ↔ unstrayed fuel before s = true := by
  induction fuel generalizing before s with
  | zero =>
    obtain rfl := List.length_eq_zero_iff.mp (Nat.le_zero.mp hfuel)
    exact iff_of_true ⟨[], .nil before⟩ rfl
  | succ fuel ih =>
    cases s with
    | nil => exact iff_of_true ⟨[], .nil before⟩ rfl
    | cons c s =>
      rw [unstrayed, Bool.and_eq_true, Bool.not_eq_true']
      have hshorter (hstray : stray before (c :: s) = false) : (lexeme before (c :: s)).2.length ≤ fuel :=
        Nat.le_of_lt_succ (Nat.lt_of_lt_of_le (lexeme_shorter hstray) hfuel)
      constructor
      · intro h
        obtain ⟨result, hresult⟩ := h
        cases hresult with
        | cons hstray hrest => exact ⟨hstray, (ih (hshorter hstray)).mp ⟨_, hrest⟩⟩
      · intro h
        obtain ⟨result, hrest⟩ := (ih (hshorter h.1)).mpr h.2
        exact ⟨_, .cons h.1 hrest⟩

/-- The redaction returns, and makes progress on the way, exactly where no lexeme of the text is stray. -/
theorem redactSQL_terminates_iff (sql : Text) :
    ((∃ fuel result, redactSQL fuel sql = some result) ∧ Progresses ⟨[], sql, []⟩) ↔ clean sql = true := by
  rw [progresses_iff_unstrayed (Nat.le_refl _)]
  refine and_iff_right_of_imp fun h ↦ ?_
  obtain ⟨result, hresult⟩ := (redacts_iff_unstrayed (Nat.le_refl _)).mpr h
  exact ⟨_, _, hresult.run (Nat.lt_succ_self _)⟩

/-- A dollar before a bracket keeps the loop over its tag, and a point between an identifier and a digit
keeps the outer loop. -/
theorem redactSQL_strays :
    ¬Progresses ⟨[], ascii "$(1)", []⟩ ∧ ¬Progresses ⟨[], ascii "SELECT a.5", []⟩ := by
  have hbracket : (ascii "$(1)").length ≤ 4 := by decide
  have hpoint : (ascii "SELECT a.5").length ≤ 10 := by decide
  rw [progresses_iff_unstrayed hbracket, progresses_iff_unstrayed hpoint]
  decide

end Returning

end PgRouter.Sql.Redaction
