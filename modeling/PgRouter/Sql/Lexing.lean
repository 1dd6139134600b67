import Mathlib.Data.List.Infix
import PgRouter.Client.Protocol

namespace PgRouter.Sql.Lexing

open Client.Protocol

def isIdentByte (c : UInt8) : Bool :=
  (0x61 ≤ c && c ≤ 0x7a) || (0x41 ≤ c && c ≤ 0x5a) || (0x30 ≤ c && c ≤ 0x39) || c == 0x5f

theorem takeWhile_word {word X : Text} (hword : ∀ c ∈ word, isIdentByte c = true)
    (hX : X.head?.any isIdentByte = false) : (word ++ X).takeWhile isIdentByte = word := by
  rw [List.takeWhile_append_of_pos hword]
  cases X with
  | nil => simp
  | cons c X =>
    have hc : isIdentByte c = false := hX
    simp [hc]

def eqFold (a b : UInt8) : Bool := a == b || (a ||| 0x20) == (b ||| 0x20)

def isBlank (c : UInt8) : Bool := c == 0x20 || c == 0x09 || c == 0x0a || c == 0x0d

/-- The white space of PostgreSQL. -/
def isWhite (c : UInt8) : Bool :=
  c == 0x20 || c == 0x09 || c == 0x0a || c == 0x0b || c == 0x0c || c == 0x0d

/-- What follows the end of a block comment of which `depth` levels are open, if it has an end. -/
def closed : ℕ → Text → Option Text
  | 0, sql => some sql
  | _ + 1, [] => none
  | _ + 1, [_] => none
  | depth + 1, c :: d :: rest =>
    if c == 0x2f && d == 0x2a then closed (depth + 2) rest
    else if c == 0x2a && d == 0x2f then closed depth rest
    else closed (depth + 1) (d :: rest)

def skipBlock (depth : ℕ) (sql : Text) : Text := (closed depth sql).getD []

def skipLine (sql : Text) : Text := sql.dropWhile (· != 0x0a)

/-- The loop of `stripLeadingNoise`. Every pass takes at least one byte. -/
def stripNoise : ℕ → Text → Text
  | 0, sql => sql
  | _ + 1, [] => []
  | n + 1, c :: rest =>
    if isBlank c then stripNoise n rest
    else if c == 0x2d && rest.head? == some 0x2d then stripNoise n (skipLine rest.tail)
    else if c == 0x2f && rest.head? == some 0x2a then stripNoise n (skipBlock 1 rest.tail)
    else c :: rest

def stripLeadingNoise (sql : Text) : Text := stripNoise sql.length sql

/-- A comparison in `firstKeyword`: the length of the word, the letters it is compared with and the
keyword that is returned. -/
structure Known where
  width : ℕ
  letters : String
  keyword : String

/-- The comparisons in their order. `insert` is looked for among the words of seven letters and
`deallocat` among those of nine. -/
def known : List Known :=
  [⟨2, "do", "DO"⟩, ⟨3, "set", "SET"⟩, ⟨4, "show", "SHOW"⟩, ⟨4, "call", "CALL"⟩, ⟨4, "copy", "COPY"⟩,
    ⟨4, "lock", "LOCK"⟩, ⟨5, "begin", "BEGIN"⟩, ⟨5, "fetch", "FETCH"⟩, ⟨5, "merge", "MERGE"⟩,
    ⟨5, "close", "CLOSE"⟩, ⟨5, "start", "START"⟩, ⟨5, "table", "TABLE"⟩, ⟨5, "reset", "RESET"⟩,
    ⟨6, "select", "SELECT"⟩, ⟨6, "update", "UPDATE"⟩, ⟨6, "delete", "DELETE"⟩, ⟨6, "values", "VALUES"⟩,
    ⟨6, "create", "CREATE"⟩, ⟨6, "revoke", "REVOKE"⟩, ⟨6, "commit", "COMMIT"⟩, ⟨6, "listen", "LISTEN"⟩,
    ⟨7, "insert", "INSERT"⟩, ⟨7, "explain", "EXPLAIN"⟩, ⟨7, "declare", "DECLARE"⟩,
    ⟨7, "cluster", "CLUSTER"⟩, ⟨7, "prepare", "PREPARE"⟩, ⟨7, "reindex", "REINDEX"⟩,
    ⟨7, "comment", "COMMENT"⟩, ⟨7, "refresh", "REFRESH"⟩, ⟨7, "discard", "DISCARD"⟩,
    ⟨7, "analyze", "ANALYZE"⟩, ⟨7, "release", "RELEASE"⟩, ⟨8, "rollback", "ROLLBACK"⟩,
    ⟨8, "truncate", "TRUNCATE"⟩, ⟨8, "unlisten", "UNLISTEN"⟩, ⟨8, "security", "SECURITY"⟩,
    ⟨9, "savepoint", "SAVEPOINT"⟩, ⟨9, "deallocat", "DEALLOCATE"⟩, ⟨10, "checkpoint", "CHECKPOINT"⟩]

def Known.fits (k : Known) (word : Text) : Bool :=
  k.width == word.length && ((ascii k.letters).zip word).all fun p ↦ eqFold p.2 p.1

def upperByte (c : UInt8) : UInt8 := if 0x61 ≤ c && c ≤ 0x7a then c - 32 else c

/-- The first word in upper case. A word that no comparison knows and that does not fit into the
buffer of 32 bytes is a run-time panic. -/
def firstKeyword (s : Text) : Option Text :=
  let word := s.takeWhile isIdentByte
  match known.find? (·.fits word) with
  | some k => some (ascii k.keyword)
  | none => if word.length ≤ 32 then some (word.map upperByte) else none

/-- `strings.ToUpper`, up to characters without an upper case in ASCII. -/
def toUpper : Text → Text
  | 0xc5 :: 0xbf :: rest => 0x53 :: toUpper rest
  | 0xc4 :: 0xb1 :: rest => 0x49 :: toUpper rest
  | c :: rest => upperByte c :: toUpper rest
  | [] => []

/-- `strings.ToLower` on the names that the patterns admit. -/
def toLower : Text → Text
  | 0xe2 :: 0x84 :: 0xaa :: rest => 0x6b :: toLower rest
  | c :: rest => (if 0x41 ≤ c && c ≤ 0x5a then c + 32 else c) :: toLower rest
  | [] => []

/-- The encodings of the characters that `unicode.IsSpace` counts as white space. -/
def spaces : List Text :=
  [[0x09], [0x0a], [0x0b], [0x0c], [0x0d], [0x20], [0xc2, 0x85], [0xc2, 0xa0], [0xe1, 0x9a, 0x80],
    [0xe2, 0x80, 0xa8], [0xe2, 0x80, 0xa9], [0xe2, 0x80, 0xaf], [0xe2, 0x81, 0x9f], [0xe3, 0x80, 0x80]] ++
    [0x80, 0x81, 0x82, 0x83, 0x84, 0x85, 0x86, 0x87, 0x88, 0x89, 0x8a].map fun c ↦ [0xe2, 0x80, c]

/-- Drops the leading strings of a set, as often as the fuel allows. -/
def dropAny (strings : List Text) : ℕ → Text → Text
  | 0, s => s
  | n + 1, s =>
    match strings.find? (·.isPrefixOf s) with
    | none => s
    | some p => dropAny strings n (s.drop p.length)

def trimLeft (s : Text) : Text := dropAny spaces s.length s

def trimRight (s : Text) : Text := (dropAny (spaces.map List.reverse) s.length s.reverse).reverse

def trimSpace (s : Text) : Text := trimRight (trimLeft s)

theorem dropAny_suffix (strings : List Text) (n : ℕ) (s : Text) : dropAny strings n s <:+ s := by
  induction n generalizing s with
  | zero => exact List.suffix_rfl
  | succ n ih =>
    unfold dropAny
    split
    · exact List.suffix_rfl
    · exact (ih _).trans (List.drop_suffix _ s)

theorem trimRight_isPrefix (s : Text) : trimRight s <+: s := by
  have h := dropAny_suffix (spaces.map List.reverse) s.length s.reverse
  rw [trimRight]
  rwa [← List.reverse_suffix, List.reverse_reverse]

theorem length_trimSpace_le (s : Text) : (trimSpace s).length ≤ s.length :=
  (trimRight_isPrefix _).length_le.trans (dropAny_suffix spaces s.length s).length_le

/-- Spaces and tabs. -/
def Blanks (s : Text) : Prop := ∀ c ∈ s, c = 0x20 ∨ c = 0x09

instance (s : Text) : Decidable (Blanks s) := inferInstanceAs (Decidable (∀ c ∈ s, _))

variable {s : Text}

theorem Blanks.dropAny {strings : List Text} (h : Blanks s)
    (hblank : ∀ c, c = 0x20 ∨ c = 0x09 → ∀ n t, dropAny strings (n + 1) (c :: t) = dropAny strings n t)
    (n : ℕ) (rest : Text) : dropAny strings (s.length + n) (s ++ rest) = dropAny strings n rest := by
  induction s with
  | nil => rw [List.length_nil, Nat.zero_add, List.nil_append]
  | cons c s ih =>
    have hrest : Blanks s := fun d hd ↦ h d (List.mem_cons_of_mem c hd)
    rw [List.length_cons, Nat.add_right_comm, List.cons_append, hblank c (h c List.mem_cons_self), ih hrest]

theorem Blanks.trimLeft (h : Blanks s) (rest : Text) : trimLeft (s ++ rest) = trimLeft rest := by
  rw [Lexing.trimLeft, List.length_append]
  refine h.dropAny ?_ _ rest
  rintro c (rfl | rfl) n t <;> rfl

theorem Blanks.trimRight (h : Blanks s) (start : Text) : trimRight (start ++ s) = trimRight start := by
  have hreverse : Blanks s.reverse := fun c hc ↦ h c (List.mem_reverse.mp hc)
  have hlength : (start ++ s).length = s.reverse.length + start.length := by simp [Nat.add_comm]
  rw [Lexing.trimRight, List.reverse_append, hlength]
  refine congrArg List.reverse (hreverse.dropAny ?_ _ _)
  rintro c (rfl | rfl) n t <;> rfl

end PgRouter.Sql.Lexing
