import PgRouter.Library.Base64
import PgRouter.Library.Texts
import PgRouter.Sql.Lexing

namespace PgRouter.Auth.Secrets

open Client.Protocol Library.Texts Sql.Lexing

structure SCRAMVerifier where
  iterations : ℤ
  salt : Text
  storedKey : Text
  serverKey : Text
  deriving DecidableEq

inductive VerifierError
  | notVerifier
  | missingSeparator
  | iterSalt
  | badIterations (iterStr : Text)
  | storedServer
  | salt
  | storedKey
  | serverKey
  deriving DecidableEq

def verifierPrefix : Text := ascii "SCRAM-SHA-256$"

section Verifiers

-- `base64.StdEncoding`
variable (encode : Text → Text) (decode : Text → Option Text)

def parseSCRAMVerifier (s : Text) : Except VerifierError SCRAMVerifier :=
  if !verifierPrefix.isPrefixOf s then .error .notVerifier
  else
    match cut 0x24 (s.drop verifierPrefix.length) with
    | none => .error .missingSeparator
    | some (left, right) =>
      match cut 0x3a left with
      | none => .error .iterSalt
      | some (iterStr, saltB64) =>
        match (atoi iterStr).filter (1 ≤ ·) with
        | none => .error (.badIterations iterStr)
        | some iterations =>
          match cut 0x3a right with
          | none => .error .storedServer
          | some (storedB64, serverB64) =>
            match decode saltB64, decode storedB64, decode serverB64 with
            | none, _, _ => .error .salt
            | _, none, _ => .error .storedKey
            | _, _, none => .error .serverKey
            | some salt, some storedKey, some serverKey => .ok ⟨iterations, salt, storedKey, serverKey⟩

def SCRAMVerifier.string (v : SCRAMVerifier) : Text :=
  verifierPrefix ++ (itoa v.iterations ++ 0x3a :: encode v.salt) ++
    0x24 :: (encode v.storedKey ++ 0x3a :: encode v.serverKey)

variable {encode decode}

/-- A verifier is read back from the form in which it is stored. -/
theorem parseSCRAMVerifier_string (hdecode : ∀ x, decode (encode x) = some x)
    (hletters : ∀ x, 0x24 ∉ encode x ∧ 0x3a ∉ encode x) (v : SCRAMVerifier)
    (hone : 1 ≤ v.iterations) (hmax : v.iterations ≤ maxInt) :
    parseSCRAMVerifier decode (v.string encode) = .ok v := by
  have hplain (c : UInt8) (hc : isDigit c = false) : c ∉ itoa v.iterations := by
    rw [itoa, if_neg (by omega)]
    intro hmem
    rw [isDigit_of_mem_decimal hmem] at hc
    cases hc
  have hbody : (v.string encode).drop verifierPrefix.length =
      (itoa v.iterations ++ 0x3a :: encode v.salt) ++ 0x24 :: (encode v.storedKey ++ 0x3a :: encode v.serverKey) := by
    rw [SCRAMVerifier.string, List.append_assoc, List.drop_left]
  have hleft : 0x24 ∉ itoa v.iterations ++ 0x3a :: encode v.salt := by
    have hcolon : (0x24 : UInt8) ≠ 0x3a := by decide
    simp [hplain 0x24 rfl, hcolon, (hletters v.salt).1]
  have hbefore : verifierPrefix.isPrefixOf (v.string encode) = true := by
    rw [List.isPrefixOf_iff_prefix, SCRAMVerifier.string, List.append_assoc]
    exact List.prefix_append _ _
  have hint : atoi (itoa v.iterations) = some v.iterations := by
    refine atoi_itoa ?_ hmax
    simp only [minInt]
    omega
  simp only [parseSCRAMVerifier, hbefore, hbody, cut_append _ hleft, cut_append _ (hplain 0x3a rfl),
    cut_append _ (hletters v.storedKey).2, hint, hdecode, Bool.not_true, Bool.false_eq_true, if_false,
    Option.filter_some, hone, decide_true, if_true]

theorem parseSCRAMVerifier_string_base64 :
    parseSCRAMVerifier Library.Base64.decode
      ((⟨4096, [1, 2], [0x24, 0x3a], []⟩ : SCRAMVerifier).string Library.Base64.encode) =
      .ok ⟨4096, [1, 2], [0x24, 0x3a], []⟩ := by
  refine parseSCRAMVerifier_string Library.Base64.decode_encode (fun x ↦ ?_) _ (by decide) (by decide)
  exact ⟨Library.Base64.not_mem_encode (by decide) (by decide) x,
    Library.Base64.not_mem_encode (by decide) (by decide) x⟩

end Verifiers

structure UserEntry where
  username : Text
  plainPassword : Text
  md5Hash : Text
  scramVerifier : Option SCRAMVerifier
  deriving DecidableEq

def md5Prefix : Text := ascii "md5"

section Entries

variable (decode : Text → Option Text)

def classifySecret (user secret : Text) : UserEntry :=
  if verifierPrefix.isPrefixOf secret then
    match parseSCRAMVerifier decode secret with
    | .ok v => ⟨user, [], [], some v⟩
    | .error _ => ⟨user, secret, [], none⟩
  else if secret.length = 35 ∧ md5Prefix.isPrefixOf secret then ⟨user, [], secret, none⟩
  else ⟨user, secret, [], none⟩

/-- A decoder for examples in which nothing is encoded. -/
def noBytes : Text → Option Text := fun _ ↦ some []

/-- The stored form of an MD5 hash: the prefix and 32 more bytes. -/
def IsHash (secret : Text) : Prop := secret.length = 35 ∧ md5Prefix.isPrefixOf secret

instance (secret : Text) : Decidable (IsHash secret) := inferInstanceAs (Decidable (_ ∧ _))

variable {secret : Text}

theorem not_isHash_of_verifier (h : verifierPrefix.isPrefixOf secret = true) : ¬ IsHash secret := by
  rintro ⟨-, hmd5⟩
  obtain ⟨a, rfl⟩ := List.isPrefixOf_iff_prefix.mp h
  cases hmd5

theorem classifySecret_of_parse {v : SCRAMVerifier} (h : parseSCRAMVerifier decode secret = .ok v)
    (user : Text) : classifySecret decode user secret = ⟨user, [], [], some v⟩ := by
  have hbefore : verifierPrefix.isPrefixOf secret = true := by
    by_contra hno
    rw [Bool.not_eq_true] at hno
    simp only [parseSCRAMVerifier, hno, Bool.not_false, if_true] at h
    cases h
  rw [classifySecret, if_pos hbefore, h]

theorem classifySecret_of_plain (hparse : ∀ v, parseSCRAMVerifier decode secret ≠ .ok v)
    (hhash : ¬ IsHash secret) (user : Text) : classifySecret decode user secret = ⟨user, secret, [], none⟩ := by
  rw [classifySecret]
  split
  · split
    case h_1 v hv => exact absurd hv (hparse v)
    case h_2 => rfl
  · exact if_neg hhash

theorem classifySecret_of_hash (hhash : IsHash secret) (user : Text) :
    classifySecret decode user secret = ⟨user, [], secret, none⟩ := by
  rw [classifySecret, if_neg fun h ↦ not_isHash_of_verifier h hhash]
  exact if_pos hhash

end Entries

section Files

inductive UserlistError
  | expectedQuoted (rest : Text)
  | trailingBackslash
  | unterminated
  | expectedSecond (first : Text)
  | trailingData (tail : Text)
  | scan
  deriving DecidableEq

def trimBlanks (s : Text) : Text := s.dropWhile fun c ↦ c == 0x20 || c == 0x09

/-- The loop of `readQuoted` behind the opening quote. -/
def readBody (b : Text) : Text → Except UserlistError (Text × Text)
  | [] => .error .unterminated
  | [c] => if c = 0x5c then .error .trailingBackslash else if c = 0x22 then .ok (b, []) else .error .unterminated
  | c :: d :: rest =>
    if c = 0x5c then readBody (b ++ [d]) rest
    else if c = 0x22 then .ok (b, d :: rest)
    else readBody (b ++ [c]) (d :: rest)

def readQuoted (s : Text) : Except UserlistError (Text × Text) :=
  match trimBlanks s with
  | 0x22 :: rest => readBody [] rest
  | t => .error (.expectedQuoted t)

def splitTwoQuotedFields (line : Text) : Except UserlistError (Text × Text) := do
  let (a, rest) ← readQuoted line
  let rest := trimBlanks rest
  if rest = [] then throw (.expectedSecond a)
  let (b, tail) ← readQuoted rest
  if trimSpace tail ≠ [] then throw (.trailingData tail)
  return (a, b)

def maxScanTokenSize : ℕ := 65536

def dropCR (data : Text) : Text := if data.getLast? = some 0x0d then data.dropLast else data

/-- `bufio.Scanner` behind the start of a line: the lines that it yields, and its error. A line is read where
it and its end fit into the buffer. -/
def scanLines (line : Text) : Text → List Text × Option UserlistError
  | [] =>
    if line = [] then ([], none)
    else if line.length < maxScanTokenSize then ([dropCR line], none)
    else ([], some .scan)
  | c :: rest =>
    if c ≠ 0x0a then scanLines (line ++ [c]) rest
    else if line.length < maxScanTokenSize then
      let (lines, err) := scanLines [] rest
      (dropCR line :: lines, err)
    else ([], some .scan)

/-- The loop of `parseUserlist` over the lines that the scanner yields, after `lineNum` of them. -/
def parseEntries (decode : Text → Option Text) (lineNum : ℕ) :
    List Text → Except (ℕ × UserlistError) (List (Text × UserEntry))
  | [] => .ok []
  | raw :: lines =>
    let line := trimSpace raw
    if line = [] ∨ line.head? = some 0x3b ∨ line.head? = some 0x23 then parseEntries decode (lineNum + 1) lines
    else
      match splitTwoQuotedFields line with
      | .error e => .error (lineNum + 1, e)
      | .ok (user, secret) =>
        (parseEntries decode (lineNum + 1) lines).map ((user, classifySecret decode user secret) :: ·)

/-- `parseUserlist`: the entries in the order of the file. The error of the scanner is the only one without the
number of a line. -/
def parseUserlist (decode : Text → Option Text) (r : Text) :
    Except (Option ℕ × UserlistError) (List (Text × UserEntry)) :=
  let (lines, err) := scanLines [] r
  match parseEntries decode 0 lines with
  | .error (lineNum, e) => .error (some lineNum, e)
  | .ok entries =>
    match err with
    | some e => .error (none, e)
    | none => .ok entries

def lookup (entries : List (Text × UserEntry)) (username : Text) : Option UserEntry :=
  entries.reverse.lookup username

def escape (c : UInt8) : Text := if c = 0x5c ∨ c = 0x22 then [0x5c, c] else [c]

def quote (s : Text) : Text := 0x22 :: (s.flatMap escape ++ [0x22])

variable {c : UInt8}

theorem readBody_plain (b rest : Text) (hslash : c ≠ 0x5c) (hquote : c ≠ 0x22) (hrest : rest ≠ []) :
    readBody b (c :: rest) = readBody (b ++ [c]) rest := by
  cases rest with
  | nil => exact absurd rfl hrest
  | cons d rest => rw [readBody, if_neg hslash, if_neg hquote]

theorem readBody_quote (b rest : Text) : readBody b (0x22 :: rest) = .ok (b, rest) := by
  cases rest <;> rfl

theorem readBody_escaped (s b rest : Text) :
    readBody b (s.flatMap escape ++ 0x22 :: rest) = .ok (b ++ s, rest) := by
  induction s generalizing b with
  | nil =>
    rw [List.flatMap_nil, List.nil_append, List.append_nil]
    exact readBody_quote b rest
  | cons c s ih =>
    have hstep : readBody b ((c :: s).flatMap escape ++ 0x22 :: rest) =
        readBody (b ++ [c]) (s.flatMap escape ++ 0x22 :: rest) := by
      rw [List.flatMap_cons, escape, List.append_assoc]
      split
      · rfl
      case isFalse h =>
        obtain ⟨hslash, hquote⟩ := not_or.mp h
        exact readBody_plain b _ hslash hquote (by simp)
    rw [hstep, ih, List.append_assoc]
    rfl

theorem readQuoted_quote (s rest : Text) : readQuoted (quote s ++ rest) = .ok (s, rest) := by
  have hread := readBody_escaped s [] rest
  rw [readQuoted, quote, List.cons_append, List.append_assoc]
  exact hread

theorem trimBlanks_quote {gap : Text} (h : Blanks gap) (s rest : Text) :
    trimBlanks (gap ++ (quote s ++ rest)) = quote s ++ rest := by
  induction gap with
  | nil => rfl
  | cons c gap ih =>
    have hgap : Blanks gap := fun d hd ↦ h d (List.mem_cons_of_mem c hd)
    obtain rfl | rfl := h c List.mem_cons_self
    · exact ih hgap
    · exact ih hgap

theorem splitTwoQuotedFields_quote {gap : Text} (h : Blanks gap) (user secret : Text) :
    splitTwoQuotedFields (quote user ++ (gap ++ quote secret)) = .ok (user, secret) := by
  have hsecond : readQuoted (quote secret) = .ok (secret, []) := by
    have h := readQuoted_quote secret []
    rwa [List.append_nil] at h
  have htrim : trimBlanks (gap ++ quote secret) = quote secret := by
    have h := trimBlanks_quote h secret []
    rwa [List.append_nil] at h
  simp only [splitTwoQuotedFields, readQuoted_quote, bind, Except.bind, htrim, hsecond]
  rfl

/-- A line of a userlist file: two quoted fields, nothing but blanks, or a comment. -/
inductive FileLine
  | entry (lead gap tail user secret : Text)
  | blank (text : Text)
  | comment (lead : Text) (mark : UInt8) (text : Text)

def FileLine.text : FileLine → Text
  | .entry lead gap tail user secret => lead ++ (quote user ++ (gap ++ quote secret)) ++ tail
  | .blank text => text
  | .comment lead mark text => lead ++ mark :: text

def FileLine.pair : FileLine → Option (Text × Text)
  | .entry _ _ _ user secret => some (user, secret)
  | _ => none

def FileLine.WellFormed : FileLine → Prop
  | .entry lead gap tail user secret => Blanks lead ∧ Blanks gap ∧ Blanks tail ∧ 0x0a ∉ user ∧ 0x0a ∉ secret
  | .blank text => Blanks text
  | .comment lead mark text => Blanks lead ∧ (mark = 0x3b ∨ mark = 0x23) ∧ 0x0a ∉ text

instance : DecidablePred FileLine.WellFormed
  | .entry _ _ _ _ _ => inferInstanceAs (Decidable (_ ∧ _))
  | .blank text => inferInstanceAs (Decidable (Blanks text))
  | .comment _ _ _ => inferInstanceAs (Decidable (_ ∧ _))

/-- A file that ends each of its lines. -/
def fileText (lines : List FileLine) : Text := lines.flatMap fun l ↦ l.text ++ [0x0a]

variable {s : Text}

theorem newline_not_mem_blanks (h : Blanks s) : 0x0a ∉ s := by
  intro hmem
  obtain h | h := h 0x0a hmem <;> cases h

theorem newline_not_mem_quote (h : 0x0a ∉ s) : 0x0a ∉ quote s := by
  have hbody : 0x0a ∉ s.flatMap escape := by
    intro hmem
    obtain ⟨c, hc, hin⟩ := List.mem_flatMap.mp hmem
    rw [escape] at hin
    split at hin
    · have hne : (0x0a : UInt8) ≠ 0x5c := by decide
      obtain rfl : 0x0a = c := by simpa [hne] using hin
      exact h hc
    · obtain rfl : 0x0a = c := by simpa using hin
      exact h hc
  simp [quote, hbody]

theorem FileLine.WellFormed.newline_not_mem {l : FileLine} (h : l.WellFormed) : 0x0a ∉ l.text := by
  cases l with
  | entry lead gap tail user secret =>
    obtain ⟨hlead, hgap, htail, huser, hsecret⟩ := h
    simp [FileLine.text, newline_not_mem_blanks hlead, newline_not_mem_blanks hgap, newline_not_mem_blanks htail,
      newline_not_mem_quote huser, newline_not_mem_quote hsecret]
  | blank text => exact newline_not_mem_blanks h
  | comment lead mark text =>
    obtain ⟨hlead, hmark, htext⟩ := h
    have hne : (0x0a : UInt8) ≠ mark := by
      obtain rfl | rfl := hmark <;> decide
    simp [FileLine.text, newline_not_mem_blanks hlead, hne, htext]

theorem scanLines_line {s line : Text} (rest : Text) (hs : 0x0a ∉ s) (hlen : (line ++ s).length < maxScanTokenSize) :
    scanLines line (s ++ 0x0a :: rest) = (dropCR (line ++ s) :: (scanLines [] rest).1, (scanLines [] rest).2) := by
  induction s generalizing line with
  | nil =>
    rw [List.append_nil] at hlen ⊢
    rw [List.nil_append, scanLines, if_neg (not_not.mpr rfl), if_pos hlen]
  | cons c s ih =>
    rw [List.mem_cons, not_or] at hs
    rw [List.append_cons line c s] at hlen ⊢
    rw [List.cons_append, scanLines, if_pos (Ne.symm hs.1), ih hs.2 hlen]

theorem scanLines_fileText {lines : List FileLine}
    (h : ∀ l ∈ lines, l.WellFormed ∧ l.text.length < maxScanTokenSize) :
    scanLines [] (fileText lines) = (lines.map fun l ↦ dropCR l.text, none) := by
  induction lines with
  | nil => rfl
  | cons l lines ih =>
    obtain ⟨hl, hlen⟩ := h l List.mem_cons_self
    have hrest := ih fun l hl ↦ h l (List.mem_cons_of_mem _ hl)
    have htext : fileText (l :: lines) = l.text ++ 0x0a :: fileText lines := by
      simp [fileText]
    rw [htext, scanLines_line _ hl.newline_not_mem hlen, hrest]
    rfl

theorem dropCR_append (h : c ≠ 0x0d) : dropCR (s ++ [c]) = s ++ [c] := by
  rw [dropCR, List.getLast?_append, List.getLast?_singleton, if_neg]
  simpa using h

theorem dropCR_blanks {start tail : Text} (hc : c ≠ 0x0d) (h : Blanks tail) :
    dropCR (start ++ [c] ++ tail) = start ++ [c] ++ tail := by
  induction tail using List.reverseRecOn with
  | nil => rw [List.append_nil, dropCR_append hc]
  | append_singleton tail d _ =>
    have hd : d ≠ 0x0d := by
      obtain rfl | rfl := h d (by simp) <;> decide
    rw [← List.append_assoc, dropCR_append hd]

theorem dropCR_isPrefix (s : Text) : dropCR s <+: s := by
  rw [dropCR]
  split
  · exact List.dropLast_prefix s
  · exact List.prefix_rfl

theorem trimSpace_fields {lead gap tail : Text} (hlead : Blanks lead) (htail : Blanks tail) (user secret : Text) :
    trimSpace (lead ++ (quote user ++ (gap ++ quote secret)) ++ tail) = quote user ++ (gap ++ quote secret) := by
  have hopen (n : ℕ) (t : Text) : dropAny spaces n (0x22 :: t) = 0x22 :: t := by cases n <;> rfl
  have hclose (n : ℕ) (t : Text) : dropAny (spaces.map List.reverse) n (0x22 :: t) = 0x22 :: t := by cases n <;> rfl
  have hleft (t : Text) : trimLeft (quote user ++ t) = quote user ++ t := hopen _ _
  have hright (t : Text) : trimRight (t ++ [0x22]) = t ++ [0x22] := by
    rw [trimRight, List.reverse_append]
    refine (congrArg List.reverse (hclose _ t.reverse)).trans ?_
    simp
  have hend : quote user ++ (gap ++ quote secret) = quote user ++ gap ++ 0x22 :: secret.flatMap escape ++ [0x22] := by
    simp [quote]
  rw [trimSpace, List.append_assoc, hlead.trimLeft, List.append_assoc, hleft, ← List.append_assoc, htail.trimRight,
    hend, hright]

theorem trimSpace_blanks (h : Blanks s) : trimSpace s = [] := by
  have hleft := h.trimLeft []
  rw [List.append_nil] at hleft
  rw [trimSpace, hleft]
  rfl

section

variable (decode : Text → Option Text)

theorem parseEntries_entry (n : ℕ) {lead gap tail : Text} (user secret : Text)
    (hlead : Blanks lead) (hgap : Blanks gap) (htail : Blanks tail) (rest : List Text) :
    parseEntries decode n (dropCR (FileLine.entry lead gap tail user secret).text :: rest) =
      (parseEntries decode (n + 1) rest).map ((user, classifySecret decode user secret) :: ·) := by
  have hend : lead ++ (quote user ++ (gap ++ quote secret)) =
      lead ++ (quote user ++ (gap ++ 0x22 :: secret.flatMap escape)) ++ [0x22] := by
    simp [quote]
  have hdrop : dropCR (FileLine.entry lead gap tail user secret).text =
      lead ++ (quote user ++ (gap ++ quote secret)) ++ tail := by
    rw [FileLine.text, hend, dropCR_blanks (by decide) htail]
  have htrim : trimSpace (lead ++ (quote user ++ (gap ++ quote secret)) ++ tail) =
      quote user ++ (gap ++ quote secret) :=
    trimSpace_fields hlead htail user secret
  have hfirst : ¬ (quote user ++ (gap ++ quote secret) = [] ∨
      (quote user ++ (gap ++ quote secret)).head? = some 0x3b ∨
      (quote user ++ (gap ++ quote secret)).head? = some 0x23) := by
    simp [quote]
  rw [hdrop, parseEntries]
  simp only [htrim, if_neg hfirst, splitTwoQuotedFields_quote hgap]

/-- What begins with the mark of a comment, or is cut short of it, is passed over. -/
theorem parseEntries_comment (n : ℕ) {lead : Text} {mark : UInt8} (text : Text)
    (hlead : Blanks lead) (hmark : mark = 0x3b ∨ mark = 0x23) (rest : List Text) :
    parseEntries decode n (dropCR (FileLine.comment lead mark text).text :: rest) =
      parseEntries decode (n + 1) rest := by
  have hdrop : ∃ u, u <+: mark :: text ∧ dropCR (lead ++ mark :: text) = lead ++ u := by
    rw [dropCR]
    split
    · exact ⟨_, List.dropLast_prefix _, List.dropLast_append_of_ne_nil (List.cons_ne_nil _ _)⟩
    · exact ⟨_, List.prefix_rfl, rfl⟩
  obtain ⟨u, hu, hdrop⟩ := hdrop
  have hskip : trimSpace (lead ++ u) = [] ∨ (trimSpace (lead ++ u)).head? = some mark := by
    rw [trimSpace, hlead.trimLeft]
    cases u with
    | nil => exact .inl rfl
    | cons d v =>
      obtain ⟨rfl, -⟩ := List.cons_prefix_cons.mp hu
      have hleft : trimLeft (d :: v) = d :: v := by
        obtain rfl | rfl := hmark <;> rfl
      have hbefore := trimRight_isPrefix (d :: v)
      rw [hleft]
      cases htrim : trimRight (d :: v) with
      | nil => exact .inl rfl
      | cons e w =>
        rw [htrim] at hbefore
        exact .inr (congrArg some (List.cons_prefix_cons.mp hbefore).1)
  rw [FileLine.text, hdrop, parseEntries, if_pos]
  obtain hnil | hhead := hskip
  · exact .inl hnil
  · obtain rfl | rfl := hmark
    · exact .inr (.inl hhead)
    · exact .inr (.inr hhead)

theorem parseEntries_lines (n : ℕ) {lines : List FileLine} (h : ∀ l ∈ lines, l.WellFormed) :
    parseEntries decode n (lines.map fun l ↦ dropCR l.text) =
      .ok ((lines.filterMap FileLine.pair).map fun p ↦ (p.1, classifySecret decode p.1 p.2)) := by
  induction lines generalizing n with
  | nil => rfl
  | cons l lines ih =>
    have hl := h l List.mem_cons_self
    have hrest := ih (n + 1) fun l hl ↦ h l (List.mem_cons_of_mem _ hl)
    rw [List.map_cons]
    cases l with
    | entry lead gap tail user secret =>
      obtain ⟨hlead, hgap, htail, -, -⟩ := hl
      rw [parseEntries_entry decode n user secret hlead hgap htail, hrest]
      rfl
    | blank text =>
      have hblank : Blanks (dropCR text) := fun c hc ↦ hl c ((dropCR_isPrefix text).subset hc)
      rw [FileLine.text, parseEntries, if_pos (.inl (trimSpace_blanks hblank)), hrest]
      rfl
    | comment lead mark text =>
      obtain ⟨hlead, hmark, -⟩ := hl
      rw [parseEntries_comment decode n text hlead hmark, hrest]
      rfl

theorem lookup_classified (pairs : List (Text × Text)) (user : Text) :
    lookup (pairs.map fun p ↦ (p.1, classifySecret decode p.1 p.2)) user =
      (pairs.reverse.lookup user).map (classifySecret decode user) := by
  rw [lookup, ← List.map_reverse]
  induction pairs.reverse with
  | nil => rfl
  | cons p pairs ih =>
    rw [List.map_cons, List.lookup_cons, List.lookup_cons, ih]
    by_cases hp : user = p.1
    · subst hp
      simp
    · have hne : (user == p.1) = false := by simpa using hp
      rw [hne]

end

/-- A userlist is read back from its file: each user has the entry of the last secret that stands there for
them. -/
theorem parseUserlist_fileText (decode : Text → Option Text) {lines : List FileLine}
    (h : ∀ l ∈ lines, l.WellFormed ∧ l.text.length < maxScanTokenSize) :
    ∃ entries, parseUserlist decode (fileText lines) = .ok entries ∧
      ∀ user, lookup entries user = ((lines.filterMap FileLine.pair).reverse.lookup user).map
        (classifySecret decode user) := by
  have hentries := parseEntries_lines decode 0 fun l hl ↦ (h l hl).1
  refine ⟨_, ?_, lookup_classified decode (lines.filterMap FileLine.pair)⟩
  simp only [parseUserlist, scanLines_fileText h, hentries]

/-- A comment, a blank line, and two secrets of one user. -/
def twoSecrets : List FileLine :=
  [.comment [] 0x23 (ascii " users"), .entry [] [0x20] [] (ascii "al\"ice") (ascii "one;"), .blank [0x09],
    .entry [0x20] [] [0x09] (ascii "al\"ice") (ascii "#two")]

theorem parseUserlist_twoSecrets : ∃ entries,
    parseUserlist (fun _ ↦ none) (fileText twoSecrets) = .ok entries ∧
      lookup entries (ascii "al\"ice") = some ⟨ascii "al\"ice", ascii "#two", [], none⟩ := by
  have hlines : ∀ l ∈ twoSecrets, l.WellFormed ∧ l.text.length < maxScanTokenSize := by decide +kernel
  obtain ⟨entries, hparse, hlookup⟩ := parseUserlist_fileText (fun _ ↦ none) hlines
  exact ⟨entries, hparse, (hlookup _).trans (by decide)⟩

end Files

end PgRouter.Auth.Secrets
