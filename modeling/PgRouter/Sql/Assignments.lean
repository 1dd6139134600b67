import PgRouter.Sql.Lexing
import PgRouter.Sql.Matching

namespace PgRouter.Sql.Assignments

open Client.Protocol Lexing Regexp Pattern Matching

section Texts

/-- White space and comments, as they may stand between two words. -/
inductive Noise : Text → Prop
  | nil : Noise []
  | blank {c : UInt8} {rest : Text} (hc : isWhite c = true) (hrest : Noise rest) : Noise (c :: rest)
  | line {body rest : Text} (hbody : 0x0a ∉ body) (hrest : Noise rest) :
      Noise (0x2d :: 0x2d :: (body ++ 0x0a :: rest))
  | block {body rest : Text} (hbody : closed 1 body = some []) (hrest : Noise rest) :
      Noise (0x2f :: 0x2a :: (body ++ rest))

/-- What may come after the value: white space, with one semicolon in it or none. -/
def isClosing (text : Text) : Bool :=
  match text.dropWhile isSpace with
  | [] => true
  | c :: rest => c == 0x3b && rest.all isSpace

def beginsName (c : UInt8) : Bool := isWord c && !(0x30 ≤ c && c ≤ 0x39) || 0x80 ≤ c

def inName (c : UInt8) : Bool := isWord c || c == 0x24 || c == 0x2e || 0x80 ≤ c

def beginsTo : Text → Bool
  | x :: y :: rest => lowerByte x == 0x74 && lowerByte y == 0x6f && !rest.head?.any isWord
  | _ => false

/-- A statement that sets a variable for the session, piece by piece. -/
structure Assignment where
  lead : Text
  set : Text
  gap : Text
  /-- The word `SESSION` and what separates it from the name. -/
  scope : Option (Text × Text)
  name : Text
  margin : Text
  /-- The word `TO`, otherwise it is the sign. -/
  toWord : Option Text
  indent : Text
  val : Text
  closing : Text
  noise_lead : Noise lead
  word_set : set.map lowerByte = ascii "set"
  noise_gap : Noise gap
  gap_ne : gap ≠ []
  word_scope : ∀ s ∈ scope, s.1.map lowerByte = ascii "session" ∧ Noise s.2 ∧ s.2 ≠ []
  name_begins : name.head?.any beginsName = true
  name_in : name.all inName = true
  name_folds : name.tails.any folds = false
  /-- Without a scope the name is none of the words for a scope. -/
  name_scope : scope = none → name.map lowerByte ≠ ascii "local" ∧ name.map lowerByte ≠ ascii "session"
  /-- After `SESSION` the name does not begin with the word `TO`. -/
  name_to : scope.isSome → beginsTo name = false
  noise_margin : Noise margin
  word_toWord : ∀ t ∈ toWord, t.map lowerByte = ascii "to" ∧ margin ≠ [] ∧ (indent ≠ [] ∨ val.head?.any inName = false)
  space_indent : indent.all isSpace = true
  val_ne : val ≠ []
  val_begins : val.head?.any isSpace = false
  val_ends : val.getLast?.any (fun c ↦ isSpace c || c == 0x3b) = false
  is_closing : isClosing closing = true

namespace Assignment

def valued (a : Assignment) : Text := a.toWord.getD [0x3d] ++ (a.indent ++ (a.val ++ a.closing))

def named (a : Assignment) : Text := a.name ++ (a.margin ++ a.valued)

def assigned (a : Assignment) : Text :=
  match a.scope with
  | none => a.named
  | some s => s.1 ++ (s.2 ++ a.named)

def text (a : Assignment) : Text := a.lead ++ (a.set ++ (a.gap ++ a.assigned))

/-- `setRe` reads the statement. -/
def legible (a : Assignment) : Bool :=
  a.lead.all isSpace && a.gap.all isSpace && (a.scope.all fun s ↦ s.2.all isSpace) && a.name.all isWord &&
    a.margin.all isSpace && a.val.all (· != 0x0a)

end Assignment

end Texts

section Bytes

variable {x c : UInt8} {text : Text}

theorem cases_of_isSpace (h : isSpace c = true) : c = 0x20 ∨ c = 0x09 ∨ c = 0x0a ∨ c = 0x0c ∨ c = 0x0d := by
  simpa [isSpace, or_assoc] using h

theorem lowerByte_of_not_isWord (h : isWord c = false) : lowerByte c = c := by
  unfold lowerByte
  unfold isWord at h
  simp only [Bool.or_eq_false_iff] at h
  rw [h.1.1.2, if_neg Bool.false_ne_true]

theorem isWord_of_lowerByte {d : UInt8} (h : lowerByte c = d) (hd : isWord d = true) : isWord c = true := by
  cases hc : isWord c with
  | true => rfl
  | false =>
    rw [lowerByte_of_not_isWord hc] at h
    rw [← hc, h, hd]

theorem lowerByte_ne (hx : isWord x = false) (hc : isWord (lowerByte c) = true) : lowerByte x ≠ lowerByte c := by
  intro h
  rw [isWord_of_lowerByte h hc] at hx
  cases hx

theorem all_isWord_of_lowerByte {word cs : Text} (h : word.map lowerByte = cs) (hcs : cs.all isWord = true) :
    word.all isWord = true := by
  refine List.all_eq_true.mpr fun c hc ↦ isWord_of_lowerByte rfl (List.all_eq_true.mp hcs _ ?_)
  rw [← h]
  exact List.mem_map_of_mem hc

theorem lowerByte_cases {d : UInt8} (h : lowerByte c = d) : c = d ∨ c = d - 0x20 := by
  unfold lowerByte at h
  split at h
  · right
    rw [← h]
    grind
  · exact .inl h

theorem isSpace_of_isWord (h : isWord c = true) : isSpace c = false := by
  cases hc : isSpace c with
  | false => rfl
  | true => rcases cases_of_isSpace hc with rfl | rfl | rfl | rfl | rfl <;> cases h

theorem ascii_of_isWord (h : isWord c = true) : c < 0x80 := by
  simp only [isWord, Bool.or_eq_true, Bool.and_eq_true, decide_eq_true_eq, beq_iff_eq] at h
  rcases h with ((h | h) | h) | rfl
  · exact UInt8.lt_of_le_of_lt h.2 (by decide)
  · exact UInt8.lt_of_le_of_lt h.2 (by decide)
  · exact UInt8.lt_of_le_of_lt h.2 (by decide)
  · decide

theorem isSpace_of_inName (h : inName x = true) : isSpace x = false := by
  cases hx : isSpace x with
  | false => rfl
  | true => rcases cases_of_isSpace hx with rfl | rfl | rfl | rfl | rfl <;> cases h

def Apart (rest : Text) : Prop := ∃ c text, rest = c :: text ∧ isWord c = false ∧ c < 0x80

theorem Apart.of_isSpace (h : isSpace c = true) (text : Text) : Apart (c :: text) := by
  refine ⟨c, text, rfl, ?_⟩
  rcases cases_of_isSpace h with rfl | rfl | rfl | rfl | rfl <;> decide

theorem folds_append {rest : Text} (h : folds text = false) (hne : text ≠ []) (hrest : Apart rest) :
    folds (text ++ rest) = false := by
  obtain ⟨c, tail, rfl, -, hc⟩ := hrest
  have h1 : c ≠ 0xbf := by
    rintro rfl
    exact absurd hc (by decide)
  have h2 : c ≠ 0x84 := by
    rintro rfl
    exact absurd hc (by decide)
  have h3 : c ≠ 0xaa := by
    rintro rfl
    exact absurd hc (by decide)
  match text with
  | [] => exact absurd rfl hne
  | [x] => simp [folds, List.isPrefixOf, h1.symm, h2.symm]
  | [x, y] =>
    simp only [folds, List.isPrefixOf] at h ⊢
    simpa [List.isPrefixOf, h3.symm] using h
  | x :: y :: z :: text =>
    simp only [folds, List.isPrefixOf] at h ⊢
    simpa [List.isPrefixOf] using h

/-- The bytes other than `\s` that white space and comments begin with. -/
def halts (c : UInt8) : Bool := c == 0x0b || c == 0x2d || c == 0x2f

theorem class_of_halts (h : halts c = true) : isSpace c = false ∧ isWord c = false := by
  have hcases : c = 0x0b ∨ c = 0x2d ∨ c = 0x2f := by simpa [halts, or_assoc] using h
  rcases hcases with rfl | rfl | rfl <;> decide

theorem Noise.split (h : Noise text) :
    text.all isSpace = true ∨
      ∃ spaces c rest, text = spaces ++ c :: rest ∧ spaces.all isSpace = true ∧ halts c = true := by
  induction h with
  | nil => exact .inl rfl
  | @blank c rest hc hrest ih =>
    by_cases hspace : isSpace c = true
    · rcases ih with hall | ⟨spaces, d, tail, rfl, hall, hd⟩
      · exact .inl (by rw [List.all_cons, hspace, hall]; rfl)
      · exact .inr ⟨c :: spaces, d, tail, rfl, by rw [List.all_cons, hspace, hall]; rfl, hd⟩
    · refine .inr ⟨[], c, rest, rfl, rfl, ?_⟩
      grind [isWhite, isSpace, halts]
  | line | block => exact .inr ⟨[], _, _, rfl, rfl, rfl⟩

theorem Apart.of_halts (h : halts c = true) (text : Text) : Apart (c :: text) := by
  refine ⟨c, text, rfl, ?_⟩
  have hcases : c = 0x0b ∨ c = 0x2d ∨ c = 0x2f := by simpa [halts, or_assoc] using h
  rcases hcases with rfl | rfl | rfl <;> decide

theorem Noise.apart (h : Noise text) (hne : text ≠ []) (rest : Text) : Apart (text ++ rest) := by
  rcases h.split with hall | ⟨spaces, c, tail, rfl, hall, hc⟩
  · cases text with
    | nil => exact absurd rfl hne
    | cons c text => exact .of_isSpace (by simpa using (List.all_eq_true.mp hall c List.mem_cons_self)) _
  · cases spaces with
    | nil => exact .of_halts hc _
    | cons d spaces => exact .of_isSpace (List.all_eq_true.mp hall d List.mem_cons_self) _

end Bytes

end PgRouter.Sql.Assignments
