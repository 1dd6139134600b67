import PgRouter.Sql.Assignments
import PgRouter.Sql.Settings

namespace PgRouter.Sql.Assignments

open Client.Protocol Regexp Pattern Settings Matching

section Ends

variable {l : Option UInt8} {g : List (ℕ × Text)} {text : Text}

theorem all_isSpace_append {a b : Text} {c : UInt8} (hc : isSpace c = false) : (a ++ c :: b).all isSpace = false := by
  rw [List.all_append, List.all_cons, hc, Bool.false_and, Bool.and_false]

theorem exists_spaces (text : Text) :
    ∃ spaces rest, text = spaces ++ rest ∧ spaces.all isSpace = true ∧ rest.head?.any isSpace = false := by
  refine ⟨text.takeWhile isSpace, text.dropWhile isSpace, List.takeWhile_append_dropWhile.symm, ?_, ?_⟩
  · exact List.all_takeWhile
  · have := List.head?_dropWhile_not isSpace text
    cases h : (text.dropWhile isSpace).head? with
    | none => rfl
    | some c =>
      rw [h] at this
      simpa using this

theorem run_blanks_end (text : Text) : (all [many space, textEnd]).run ⟨l, text, g⟩ Option.some =
    if text.all isSpace then some ⟨past l text, [], g⟩ else none := by
  obtain ⟨spaces, rest, rfl, hspaces, hrest⟩ := exists_spaces text
  rw [run_all_cons]
  cases rest with
  | nil =>
    rw [List.append_nil, hspaces, if_pos rfl]
    have := @run_many_hit l g (fun c' ↦ (all [textEnd]).run c' Option.some) spaces [] _ isSpace hspaces rfl rfl
    rwa [List.append_nil] at this
  | cons c rest =>
    have hc : isSpace c = false := by simpa using hrest
    rw [all_isSpace_append hc, if_neg Bool.false_ne_true]
    refine run_many_none hspaces hrest fun a b h ↦ ?_
    rw [run_all_cons, Pattern.run, if_neg (by simp)]

def tail : List Pattern := [many space, opt (lit 0x3b), many space, textEnd]

theorem isClosing_append {a b : Text} {c : UInt8} (hc : (isSpace c || c == 0x3b) = false) :
    isClosing (a ++ c :: b) = false := by
  rw [Bool.or_eq_false_iff] at hc
  induction a with
  | nil =>
    rw [List.nil_append, isClosing, List.dropWhile_cons, hc.1, if_neg Bool.false_ne_true]
    simp only [hc.2, Bool.false_and]
  | cons d a ih =>
    by_cases hd : isSpace d = true
    · rwa [List.cons_append, isClosing, List.dropWhile_cons, if_pos hd]
    · rw [List.cons_append, isClosing, List.dropWhile_cons, if_neg hd]
      simp only [all_isSpace_append hc.1, Bool.and_false]

theorem isClosing_spaces {spaces rest : Text} (h : spaces.all isSpace = true) :
    isClosing (spaces ++ rest) = isClosing rest := by
  unfold isClosing
  rw [List.dropWhile_append_of_pos (List.all_eq_true.mp h)]

theorem run_semicolon (text : Text) : (all (opt (lit 0x3b) :: [many space, textEnd])).run ⟨l, text, g⟩ Option.some =
    if text.all isSpace || (text.head? == some 0x3b && text.tail.all isSpace) then some ⟨past l text, [], g⟩
    else none := by
  have hrun : (all (opt (lit 0x3b) :: [many space, textEnd])).run ⟨l, text, g⟩ Option.some =
      ((lit 0x3b).run ⟨l, text, g⟩ fun c' ↦ (all [many space, textEnd]).run c' Option.some).or
        ((all [many space, textEnd]).run ⟨l, text, g⟩ Option.some) := rfl
  rw [hrun, run_blanks_end]
  cases text with
  | nil => rfl
  | cons c text =>
    rw [lit, run_byte_cons, run_blanks_end]
    by_cases hc : c = 0x3b
    · subst hc
      have hnot : (0x3b :: text).all isSpace = false := all_isSpace_append (a := []) rfl
      cases htext : text.all isSpace <;> simp [hnot, htext]
    · simp [hc]

theorem run_tail (text : Text) :
    (all tail).run ⟨l, text, g⟩ Option.some = if isClosing text then some ⟨past l text, [], g⟩ else none := by
  obtain ⟨spaces, rest, rfl, hspaces, hrest⟩ := exists_spaces text
  rw [isClosing_spaces hspaces]
  have hclosing : isClosing rest = (rest.all isSpace || (rest.head? == some 0x3b && rest.tail.all isSpace)) := by
    cases rest with
    | nil => rfl
    | cons c rest =>
      have hc : isSpace c = false := by simpa using hrest
      simp [isClosing, hc]
  change (many (byte isSpace)).run ⟨l, spaces ++ rest, g⟩
    (fun c' ↦ (all (opt (lit 0x3b) :: [many space, textEnd])).run c' Option.some) = _
  cases h : isClosing rest with
  | true =>
    rw [if_pos rfl]
    refine run_many_hit hspaces hrest ?_
    rw [run_semicolon, ← hclosing, h, if_pos rfl, past_append]
  | false =>
    rw [if_neg Bool.false_ne_true]
    refine run_many_none hspaces hrest fun a b hab ↦ ?_
    rw [run_semicolon, if_neg]
    rw [hclosing, Bool.or_eq_false_iff] at h
    have hnot : (b ++ rest).all isSpace = false := by rw [List.all_append, h.1, Bool.and_false]
    rw [hnot, Bool.false_or]
    cases b with
    | nil => simpa using h.2
    | cons c b =>
      have hc : isSpace c = true := by
        rw [hab] at hspaces
        simp at hspaces
        exact hspaces.2.1
      have hne : c ≠ 0x3b := by
        rintro rfl
        cases hc
      simp [hne]

end Ends

section Values

variable {l : Option UInt8} {g : List (ℕ × Text)}

def fromValue : List Pattern := group 3 (seq (byte (· != 0x0a)) (star false (byte (· != 0x0a)))) :: tail

def Solid (val : Text) : Prop := ∃ init z, val = init ++ [z] ∧ (isSpace z || z == 0x3b) = false

theorem Solid.suffix {a b : Text} {x : UInt8} (h : Solid (a ++ x :: b)) : Solid (x :: b) := by
  obtain ⟨init, z, hval, hz⟩ := h
  refine ⟨(x :: b).dropLast, z, ?_, hz⟩
  have hlast : (x :: b).getLast (by simp) = z := by
    have := congrArg List.getLast? hval
    rw [List.getLast?_append_of_ne_nil _ (by simp), List.getLast?_concat,
      List.getLast?_eq_getLast_of_ne_nil (by simp)] at this
    simpa using this
  rw [← hlast, List.dropLast_append_getLast]

theorem Solid.append {val : Text} (h : Solid val) (a : Text) : Solid (a ++ val) := by
  obtain ⟨init, z, rfl, hz⟩ := h
  exact ⟨a ++ init, z, by rw [List.append_assoc], hz⟩

theorem Solid.not_closing {val : Text} (h : Solid val) (rest : Text) : isClosing (val ++ rest) = false := by
  obtain ⟨init, z, rfl, hz⟩ := h
  rw [List.append_assoc]
  exact isClosing_append hz

/-- The value ends where the rest of the text is a closing. A line break is beyond it. -/
theorem run_fromValue {val closing : Text} (hval : Solid val) (hclosing : isClosing closing = true) :
    (all fromValue).run ⟨l, val ++ closing, g⟩ Option.some =
      if val.all (· != 0x0a) then some ⟨past l (val ++ closing), [], (3, val) :: g⟩ else none := by
  rcases val with - | ⟨x, val⟩
  · obtain ⟨init, z, h, -⟩ := hval
    simp at h
  let text := x :: (val ++ closing)
  let k : Continue := fun c' ↦
    (all tail).run { c' with groups := (3, text.take (text.length - c'.rest.length)) :: c'.groups } Option.some
  have hk (l : Option UInt8) (rest : Text) : k ⟨l, rest, g⟩ =
      if isClosing rest then some ⟨past l rest, [], (3, text.take (text.length - rest.length)) :: g⟩ else none :=
    run_tail rest
  have hrun : (all fromValue).run ⟨l, x :: val ++ closing, g⟩ Option.some =
      (byte (· != 0x0a)).run ⟨l, text, g⟩ fun c' ↦
        iterate (byte (· != 0x0a)).run false c'.rest.length c' k := rfl
  have hopen (a b : Text) (y : UInt8) (h : val = a ++ y :: b) : isClosing (y :: (b ++ closing)) = false := by
    rw [h] at hval
    have hsolid : Solid (y :: b) := hval.suffix (a := x :: a)
    exact hsolid.not_closing closing
  rw [hrun, run_byte_cons]
  by_cases hx : (x != 0x0a) = true
  · rw [if_pos hx, List.all_cons, hx, Bool.true_and]
    cases hall : val.all (· != 0x0a) with
    | true =>
      rw [if_pos rfl]
      refine iterate_lazy_hit val closing hall (fun a y b h ↦ ?_) ?_ (by simp)
      · rw [hk, hopen a b y h, if_neg Bool.false_ne_true]
      · have htake : text.take (text.length - closing.length) = x :: val := by
          change (x :: val ++ closing).take ((x :: val ++ closing).length - closing.length) = x :: val
          rw [List.length_append, Nat.add_sub_cancel, List.take_left]
        have hpast : past (past (some x) val) closing = past l (x :: val ++ closing) := by
          rw [List.cons_append, past_cons, past_append]
        rw [hk, hclosing, if_pos rfl, htake, hpast]
    | false =>
      rw [if_neg Bool.false_ne_true]
      -- The repetition stops before the line break, and that is before the end of the value.
      refine iterate_lazy_none (val ++ closing) (fun a b h ha ↦ ?_) _
      rcases List.append_eq_append_iff.mp h with ⟨c, rfl, -⟩ | ⟨c, rfl, rfl⟩
      · rw [List.all_append, hall, Bool.false_and] at ha
        cases ha
      · rcases c with - | ⟨y, c⟩
        · rw [List.append_nil, ha] at hall
          cases hall
        · rw [hk, List.cons_append, hopen a c y rfl, if_neg Bool.false_ne_true]
  · rw [if_neg hx, List.all_cons, Bool.eq_false_iff.mpr hx, Bool.false_and, if_neg Bool.false_ne_true]

theorem run_indent {indent val closing : Text} (hindent : indent.all isSpace = true) (hval : Solid val)
    (hbegins : val.head?.any isSpace = false) (hclosing : isClosing closing = true) :
    (all (many space :: fromValue)).run ⟨l, indent ++ (val ++ closing), g⟩ Option.some =
      if val.all (· != 0x0a) then some ⟨past l (indent ++ (val ++ closing)), [], (3, val) :: g⟩ else none := by
  have hhead : (val ++ closing).head?.any isSpace = false := by
    rcases val with - | ⟨x, val⟩
    · obtain ⟨init, z, h, -⟩ := hval
      simp at h
    · exact hbegins
  rw [run_all_cons]
  cases hall : val.all (· != 0x0a) with
  | true =>
    rw [if_pos rfl]
    refine run_many_hit hindent hhead ?_
    rw [run_fromValue hval hclosing, hall, if_pos rfl, past_append l indent]
  | false =>
    rw [if_neg Bool.false_ne_true]
    -- White space that is left to the value does not help.
    refine run_many_none hindent hhead fun a b _ ↦ ?_
    rw [← List.append_assoc, run_fromValue (hval.append b) hclosing, List.all_append, hall, Bool.and_false,
      if_neg Bool.false_ne_true]

end Values

section Signs

variable {l : Option UInt8} {g : List (ℕ × Text)} {k : Continue} {text rest : Text}

theorem any_past {p : UInt8 → Bool} (h : text.all p = true) (hl : l.any p = true) : (past l text).any p = true := by
  induction text generalizing l with
  | nil => exact hl
  | cons x text ih =>
    rw [List.all_cons, Bool.and_eq_true] at h
    rw [past_cons]
    exact ih h.2 h.1

theorem not_isWord_past (h : text.all isSpace = true) (hne : text ≠ []) : (past l text).any isWord = false := by
  cases text with
  | nil => exact absurd rfl hne
  | cons x text =>
    rw [List.all_cons, Bool.and_eq_true] at h
    have hspace : (past l (x :: text)).any isSpace = true := by
      rw [past_cons]
      exact any_past h.2 h.1
    cases hpast : past l (x :: text) with
    | none => rfl
    | some c =>
      rw [hpast, Option.any_some] at hspace
      rw [Option.any_some]
      cases hc : isWord c with
      | false => rfl
      | true =>
        rw [isSpace_of_isWord hc] at hspace
        cases hspace

def signs : Pattern := alt (lit 0x3d) (all [wordBoundary, word "TO", wordBoundary])

def fromSign : List Pattern := signs :: many space :: fromValue

theorem run_fromSign (l : Option UInt8) (text : Text) (g : List (ℕ × Text)) :
    (all fromSign).run ⟨l, text, g⟩ Option.some =
      ((lit 0x3d).run ⟨l, text, g⟩ fun c ↦ (all (many space :: fromValue)).run c Option.some).or
        ((all [wordBoundary, word "TO", wordBoundary]).run ⟨l, text, g⟩ fun c ↦
          (all (many space :: fromValue)).run c Option.some) := rfl

theorem run_to (l : Option UInt8) (text : Text) (g : List (ℕ × Text)) (k : Continue) :
    (all [wordBoundary, word "TO", wordBoundary]).run ⟨l, text, g⟩ k =
      if (l.any isWord) != (text.head?.any isWord) then
        (word "TO").run ⟨l, text, g⟩ fun c ↦ wordBoundary.run c k
      else none := rfl

variable {x : UInt8}

theorem run_to_miss (h : lowerByte x ≠ 0x74 ∨ l.any isWord = true ∧ isWord x = true) :
    (all [wordBoundary, word "TO", wordBoundary]).run ⟨l, x :: text, g⟩ k = none := by
  rw [run_to]
  rcases h with hx | ⟨hl, hx⟩
  · have hmiss : (word "TO").run ⟨l, x :: text, g⟩ (fun c ↦ wordBoundary.run c k) = none := by
      change (all [letter 0x54, letter 0x4f]).run ⟨l, x :: text, g⟩ (fun c ↦ wordBoundary.run c k) = none
      rw [run_all_cons, run_letter_plain (by decide) (by decide), if_neg (mt (beq_iff_eq (b := lowerByte 0x54)).mp hx)]
    rw [hmiss, ite_self]
  · have hsame : ((l.any isWord) != ((x :: text).head?.any isWord)) = false := by
      rw [hl, List.head?_cons, Option.any_some, hx, bne_self_eq_false]
    rw [hsame, if_neg Bool.false_ne_true]

theorem run_fromSign_miss (hx : x ≠ 0x3d)
    (h : lowerByte x ≠ 0x74 ∨ l.any isWord = true ∧ isWord x = true) :
    (all fromSign).run ⟨l, x :: text, g⟩ Option.some = none := by
  rw [run_fromSign, run_to_miss h, lit, run_byte_cons, if_neg (by simpa using hx), Option.none_or]

theorem run_fromSign_space (h : isSpace x = true) :
    (all fromSign).run ⟨l, x :: text, g⟩ Option.some = none := by
  refine run_fromSign_miss ?_ (.inl ?_)
  · rintro rfl
    cases h
  · rcases cases_of_isSpace h with rfl | rfl | rfl | rfl | rfl <;> decide

theorem run_fromSign_halts (h : halts x = true) :
    (all fromSign).run ⟨l, x :: text, g⟩ Option.some = none := by
  have hcases : x = 0x0b ∨ x = 0x2d ∨ x = 0x2f := by simpa [halts, or_assoc] using h
  refine run_fromSign_miss ?_ (.inl ?_)
  · rintro rfl
    cases h
  · rcases hcases with rfl | rfl | rfl <;> decide

def fromMargin : List Pattern := many space :: fromSign

theorem run_fromMargin {spaces : Text} (hspaces : spaces.all isSpace = true) (hrest : rest.head?.any isSpace = false) :
    (all fromMargin).run ⟨l, spaces ++ rest, g⟩ Option.some =
      (all fromSign).run ⟨past l spaces, rest, g⟩ Option.some :=
  run_many_only hspaces hrest fun _ _ _ h ↦ run_fromSign_space h

theorem run_fromMargin_inside (hl : l.any isWord = true) (hx : isWord x = true) :
    (all fromMargin).run ⟨l, x :: text, g⟩ Option.some = none := by
  have hrun := @run_fromMargin l g (x :: text) [] rfl (by simpa using isSpace_of_isWord hx)
  rw [List.nil_append] at hrun
  rw [hrun]
  refine run_fromSign_miss ?_ (.inr ⟨hl, hx⟩)
  rintro rfl
  cases hx

namespace Assignment

variable (a : Assignment)

def outcome (g : List (ℕ × Text)) : Option Cursor :=
  if a.val.all (· != 0x0a) then some ⟨(a.val ++ a.closing).getLast?, [], (3, a.val) :: g⟩ else none

theorem solid : Solid a.val := by
  have hends := a.val_ends
  rw [List.getLast?_eq_getLast_of_ne_nil a.val_ne, Option.any_some] at hends
  exact ⟨a.val.dropLast, a.val.getLast a.val_ne, (List.dropLast_append_getLast a.val_ne).symm, hends⟩

theorem run_indent : (all (many space :: fromValue)).run ⟨l, a.indent ++ (a.val ++ a.closing), g⟩ Option.some =
    a.outcome g := by
  have hne : a.val ++ a.closing ≠ [] := by simp [a.val_ne]
  have hpast : past l (a.indent ++ (a.val ++ a.closing)) = (a.val ++ a.closing).getLast? := by
    rw [past_append, past, List.getLast?_eq_getLast_of_ne_nil hne, Option.some_or]
  rw [Assignments.run_indent a.space_indent a.solid a.val_begins a.is_closing, hpast, outcome]

theorem head_valued : a.valued.head?.any isSpace = false := by
  unfold valued
  cases ht : a.toWord with
  | none => rfl
  | some t =>
    obtain ⟨hword, -, -⟩ := a.word_toWord t ht
    cases t with
    | nil => cases hword
    | cons x t =>
      have hx : isWord x = true := isWord_of_lowerByte (List.cons.inj hword).1 rfl
      simpa using isSpace_of_isWord hx

theorem head_indent (h : a.indent ≠ [] ∨ a.val.head?.any inName = false) :
    (a.indent ++ (a.val ++ a.closing)).head?.any isWord = false := by
  have hspace := a.space_indent
  cases hindent : a.indent with
  | cons x indent =>
    rw [hindent, List.all_cons, Bool.and_eq_true] at hspace
    cases hx : isWord x with
    | false => simpa using hx
    | true =>
      rw [isSpace_of_isWord hx] at hspace
      cases hspace.1
  | nil =>
    have hval := h.resolve_left (not_not_intro hindent)
    cases hv : a.val with
    | nil => exact absurd hv a.val_ne
    | cons x val =>
      rw [hv, List.head?_cons, Option.any_some, inName, Bool.or_eq_false_iff, Bool.or_eq_false_iff,
        Bool.or_eq_false_iff] at hval
      simpa using hval.1.1.1

theorem run_valued (hl : a.toWord.isSome → l.any isWord = false) :
    (all fromSign).run ⟨l, a.valued, g⟩ Option.some = a.outcome g := by
  unfold valued
  cases ht : a.toWord with
  | none =>
    change (all fromSign).run ⟨l, 0x3d :: (a.indent ++ (a.val ++ a.closing)), g⟩ Option.some = _
    rw [run_fromSign, run_to_miss (.inl (by decide)), Option.or_none, lit, run_byte_cons, beq_self_eq_true,
      if_pos rfl, a.run_indent]
  | some t =>
    obtain ⟨hword, -, hafter⟩ := a.word_toWord t ht
    have hlast := hl (by rw [ht]; rfl)
    obtain ⟨x, y, rfl⟩ : ∃ x y, t = [x, y] := by
      rw [← List.length_eq_two, ← @List.length_map _ _ t lowerByte, hword]
      rfl
    have hx : lowerByte x = 0x74 := (List.cons.inj hword).1
    have hy : lowerByte y = 0x6f := (List.cons.inj (List.cons.inj hword).2).1
    have hwx : isWord x = true := isWord_of_lowerByte hx rfl
    have hwy : isWord y = true := isWord_of_lowerByte hy rfl
    have hsign : x ≠ 0x3d := by
      rintro rfl
      cases hwx
    have hascii : ∀ c ∈ [x, y], c < 0x80 := by
      intro c hc
      rcases List.mem_pair.mp hc with rfl | rfl
      · exact ascii_of_isWord hwx
      · exact ascii_of_isWord hwy
    have hboundary : ((past l [x, y]).any isWord != (a.indent ++ (a.val ++ a.closing)).head?.any isWord) = true := by
      rw [a.head_indent hafter, past_cons, past_cons, past_nil, Option.any_some, hwy]
      rfl
    have hto : (all [wordBoundary, word "TO", wordBoundary]).run ⟨l, [x, y] ++ (a.indent ++ (a.val ++ a.closing)), g⟩
        (fun c ↦ (all (many space :: fromValue)).run c Option.some) = a.outcome g := by
      rw [run_to, if_pos (by simp [hlast, hwx]), word, run_letters hword hascii, Pattern.run, if_pos hboundary,
        a.run_indent]
    rw [Option.getD_some, run_fromSign, hto, List.cons_append, lit, run_byte_cons, if_neg (by simpa using hsign),
      Option.none_or]

theorem run_margin : (all fromMargin).run ⟨l, a.margin ++ a.valued, g⟩ Option.some =
    if a.margin.all isSpace then a.outcome g else none := by
  rcases a.noise_margin.split with hall | ⟨spaces, c, rest, hmargin, hspaces, hc⟩
  · rw [run_fromMargin hall a.head_valued, hall, if_pos rfl]
    refine a.run_valued fun hto ↦ ?_
    obtain ⟨t, ht⟩ := Option.isSome_iff_exists.mp hto
    obtain ⟨-, hne, -⟩ := a.word_toWord t ht
    exact not_isWord_past hall hne
  · have hspace : isSpace c = false := (class_of_halts hc).1
    rw [hmargin, all_isSpace_append hspace, if_neg Bool.false_ne_true, List.append_assoc, List.cons_append,
      run_fromMargin hspaces (by simpa using hspace), run_fromSign_halts hc]

end Assignment

end Signs

section Names

variable {l : Option UInt8} {g : List (ℕ × Text)} {k : Continue} {text rest : Text}

theorem Apart.folds (h : Apart rest) : folds rest = false := by
  obtain ⟨c, text, rfl, -, hc⟩ := h
  exact folds_ascii hc text

variable {p : UInt8 → Bool}

theorem run_once (hfolds : folds text = false) :
    (anyOf [byte p, longS, kelvin]).run ⟨l, text, g⟩ k = (byte p).run ⟨l, text, g⟩ k := by
  change ((byte p).run ⟨l, text, g⟩ k).or ((longS.run ⟨l, text, g⟩ k).or (kelvin.run ⟨l, text, g⟩ k)) = _
  rw [run_longS hfolds, run_kelvin hfolds, Option.or_none, Option.or_none]

theorem run_identifier {name : Text} (hname : name.all isWord = true)
    (hbegins : name.head?.any beginsName = true) (hword : rest.head?.any isWord = false) (hrest : folds rest = false)
    (hk : ∀ l x r, l.any isWord = true → isWord x = true → k ⟨l, x :: r, g⟩ = none) :
    identifier.run ⟨l, name ++ rest, g⟩ k = k ⟨past l name, rest, g⟩ := by
  cases name with
  | nil => cases hbegins
  | cons x name =>
    rw [List.all_cons, Bool.and_eq_true] at hname
    have hfirst : (isWord x && !(0x30 ≤ x && x ≤ 0x39)) = true := by
      have hx : ¬ (0x80 : UInt8) ≤ x := UInt8.not_le.mpr (ascii_of_isWord hname.1)
      simpa [beginsName, hx] using hbegins
    have hrun : identifier.run ⟨l, x :: (name ++ rest), g⟩ k =
        (anyOf [byte fun c ↦ isWord c && !(0x30 ≤ c && c ≤ 0x39), longS, kelvin]).run ⟨l, x :: (name ++ rest), g⟩
          fun c ↦ iterate (anyOf [byte isWord, longS, kelvin]).run true c.rest.length c k := rfl
    have hmem (a b : Text) (y : UInt8) (h : name = a ++ y :: b) : a.all isWord = true ∧ isWord y = true := by
      have hall := hname.2
      rw [h, List.all_append, List.all_cons, Bool.and_eq_true, Bool.and_eq_true] at hall
      exact ⟨hall.1, hall.2.1⟩
    rw [List.cons_append, hrun, run_once (folds_ascii (ascii_of_isWord hname.1) _), run_byte_cons, hfirst, if_pos rfl,
      past_cons]
    refine iterate_only name rest (fun a y b h k ↦ ?_) (fun k ↦ ?_) (fun a y b h ↦ ?_) (by simp)
    · have hy := (hmem a b y h).2
      rw [run_once (folds_ascii (ascii_of_isWord hy) _), run_byte_cons, if_pos hy]
    · rw [run_once hrest, run_byte_stop hword]
    · exact hk _ y _ (any_past (hmem a b y h).1 hname.1) (hmem a b y h).2

theorem run_identifier_stop (hword : text.head?.any isWord = false) (hfolds : folds text = false) :
    identifier.run ⟨l, text, g⟩ k = none := by
  have hrun : identifier.run ⟨l, text, g⟩ k =
      (anyOf [byte fun c ↦ isWord c && !(0x30 ≤ c && c ≤ 0x39), longS, kelvin]).run ⟨l, text, g⟩
        fun c ↦ (many (anyOf [byte isWord, longS, kelvin])).run c k := rfl
  rw [hrun, run_once hfolds]
  cases text with
  | nil => rfl
  | cons x text =>
    have hx : isWord x = false := hword
    rw [run_byte_cons, hx, Bool.false_and, if_neg Bool.false_ne_true]

def fromName : List Pattern := group 2 identifier :: fromMargin

theorem run_fromName (l : Option UInt8) (text : Text) (g : List (ℕ × Text)) :
    (all fromName).run ⟨l, text, g⟩ Option.some = identifier.run ⟨l, text, g⟩ fun c ↦
      (all fromMargin).run { c with groups := (2, text.take (text.length - c.rest.length)) :: c.groups }
        Option.some := rfl

theorem run_fromName_stop (hword : text.head?.any isWord = false) (hfolds : folds text = false) :
    (all fromName).run ⟨l, text, g⟩ Option.some = none := by
  rw [run_fromName, run_identifier_stop hword hfolds]

theorem run_fromName_apart (h : Apart rest) : (all fromName).run ⟨l, rest, g⟩ Option.some = none := by
  have hfolds := h.folds
  obtain ⟨c, text, rfl, hc, -⟩ := h
  exact run_fromName_stop hc hfolds

theorem run_fromName_word {name : Text} (hname : name.all isWord = true) (hbegins : name.head?.any beginsName = true)
    (hword : rest.head?.any isWord = false) (hrest : folds rest = false) :
    (all fromName).run ⟨l, name ++ rest, g⟩ Option.some =
      (all fromMargin).run ⟨past l name, rest, (2, name) :: g⟩ Option.some := by
  rw [run_fromName, run_identifier hname hbegins hword hrest fun l x r hl hx ↦ run_fromMargin_inside hl hx]
  simp only [List.length_append, Nat.add_sub_cancel, List.take_left]

theorem exists_first_not (h : text.all p = false) :
    ∃ a x b, text = a ++ x :: b ∧ a.all p = true ∧ p x = false := by
  induction text with
  | nil => cases h
  | cons x text ih =>
    cases hx : p x with
    | false => exact ⟨[], x, text, rfl, rfl, hx⟩
    | true =>
      rw [List.all_cons, hx, Bool.true_and] at h
      obtain ⟨a, y, b, rfl, ha, hy⟩ := ih h
      exact ⟨x :: a, y, b, rfl, by rw [List.all_cons, hx, ha]; rfl, hy⟩

theorem folds_of_suffix {a b : Text} (h : text.tails.any folds = false) (hb : text = a ++ b) : folds b = false := by
  rw [List.any_eq_false] at h
  simpa using h b ((List.mem_tails b text).mpr ⟨a, hb.symm⟩)

theorem run_fromMargin_inName {x : UInt8} (hx : inName x = true) (hword : isWord x = false) :
    (all fromMargin).run ⟨l, x :: text, g⟩ Option.some = none := by
  have hrun := @run_fromMargin l g (x :: text) [] rfl (by simpa using isSpace_of_inName hx)
  rw [List.nil_append] at hrun
  rw [hrun]
  refine run_fromSign_miss ?_ (.inl ?_)
  · rintro rfl
    cases hx
  · rw [lowerByte_of_not_isWord hword]
    rintro rfl
    cases hword

namespace Assignment

variable (a : Assignment)

theorem margin_apart : Apart (a.margin ++ a.valued) := by
  by_cases hmargin : a.margin = []
  · rw [hmargin, List.nil_append, valued]
    cases ht : a.toWord with
    | none => exact ⟨0x3d, _, rfl, rfl, by decide⟩
    | some t =>
      obtain ⟨-, hne, -⟩ := a.word_toWord t ht
      exact absurd hmargin hne
  · exact a.noise_margin.apart hmargin _

theorem run_named : (all fromName).run ⟨l, a.named, g⟩ Option.some =
    if a.name.all isWord && a.margin.all isSpace then a.outcome ((2, a.name) :: g) else none := by
  unfold named
  cases hname : a.name.all isWord with
  | true =>
    have hword : (a.margin ++ a.valued).head?.any isWord = false := by
      obtain ⟨c, text, h, hc, -⟩ := a.margin_apart
      rw [h]
      exact hc
    rw [Bool.true_and, run_fromName_word hname a.name_begins hword a.margin_apart.folds, a.run_margin]
  | false =>
    rw [Bool.false_and, if_neg Bool.false_ne_true]
    -- The first byte that is not of a word ends what the pattern can read.
    obtain ⟨p, x, q, hsplit, hp, hx⟩ : ∃ p x q, a.name = p ++ x :: q ∧ p.all isWord = true ∧ isWord x = false :=
      exists_first_not hname
    have hin : inName x = true := by
      have hall := a.name_in
      rw [hsplit, List.all_append, List.all_cons, Bool.and_eq_true, Bool.and_eq_true] at hall
      exact hall.2.1
    have hfolds : folds (x :: q ++ (a.margin ++ a.valued)) = false :=
      folds_append (folds_of_suffix a.name_folds hsplit) (by simp) a.margin_apart
    rw [hsplit, List.append_assoc]
    by_cases hne : p = []
    · rw [hne, List.nil_append]
      exact run_fromName_stop hx hfolds
    · have hbegins : p.head?.any beginsName = true := by
        have h := a.name_begins
        rwa [hsplit, List.head?_append_of_ne_nil _ hne] at h
      have hword : (x :: q ++ (a.margin ++ a.valued)).head?.any isWord = false := hx
      rw [run_fromName_word hp hbegins hword hfolds]
      exact run_fromMargin_inName hin hx

end Assignment

end Names

section Scopes

variable {l : Option UInt8} {g : List (ℕ × Text)} {k : Continue} {text rest : Text}

theorem run_keyword_none (cs name : Text) (hcs : cs.all (fun c ↦ isWord (lowerByte c)) = true)
    (hname : name.all inName = true) (hfolds : name.tails.any folds = false) (hrest : Apart rest)
    (hne : name.map lowerByte ≠ cs.map lowerByte) :
    (seq (all (cs.map letter)) (plus space)).run ⟨l, name ++ rest, g⟩ k = none := by
  change (all (cs.map letter)).run ⟨l, name ++ rest, g⟩ (fun c ↦ (plus space).run c k) = none
  induction cs generalizing l name with
  | nil =>
    cases name with
    | nil => exact absurd rfl hne
    | cons x name =>
      rw [List.all_cons, Bool.and_eq_true] at hname
      have hhead : (x :: (name ++ rest)).head?.any isSpace = false := isSpace_of_inName hname.1
      exact run_plus_stop hhead
  | cons c cs ih =>
    rw [List.all_cons, Bool.and_eq_true] at hcs
    rw [List.map_cons, run_all_cons]
    cases name with
    | nil =>
      have hf := hrest.folds
      obtain ⟨x, tail, rfl, hx, -⟩ := hrest
      rw [List.nil_append, run_letter c hf, if_neg (mt beq_iff_eq.mp (lowerByte_ne hx hcs.1))]
    | cons x name =>
      rw [List.all_cons, Bool.and_eq_true] at hname
      have hf : folds (x :: (name ++ rest)) = false :=
        folds_append (folds_of_suffix (a := []) hfolds rfl) (by simp) hrest
      rw [List.cons_append, run_letter c hf]
      split
      · rename_i hx
        refine ih name hcs.2 hname.2 ?_ fun h ↦ hne ?_
        · rw [List.tails_cons, List.any_cons, Bool.or_eq_false_iff] at hfolds
          exact hfolds.2
        · rw [List.map_cons, List.map_cons, beq_iff_eq.mp hx, h]
      · rfl

theorem run_gap {gap : Text} (hgap : Noise gap) (hne : gap ≠ []) (hrest : rest.head?.any isSpace = false)
    (hk : ∀ l rest, Apart rest → k ⟨l, rest, g⟩ = none) :
    (plus space).run ⟨l, gap ++ rest, g⟩ k = if gap.all isSpace then k ⟨past l gap, rest, g⟩ else none := by
  rcases hgap.split with hall | ⟨spaces, c, tail, rfl, hspaces, hc⟩
  · rw [hall, if_pos rfl]
    exact run_plus_only hall hne hrest fun l x r hx ↦ hk l _ (.of_isSpace hx r)
  · have hspace : isSpace c = false := (class_of_halts hc).1
    have hhead : (c :: (tail ++ rest)).head?.any isSpace = false := by simpa using hspace
    rw [all_isSpace_append hspace, if_neg Bool.false_ne_true, List.append_assoc, List.cons_append]
    by_cases hspaces' : spaces = []
    · rw [hspaces', List.nil_append]
      exact run_plus_stop hhead
    · exact (run_plus_only hspaces hspaces' hhead fun l x r hx ↦ hk l _ (.of_isSpace hx r)).trans
        (hk _ _ (.of_halts hc _))

def fromScope : List Pattern :=
  opt (group 1 (alt (seq (word "LOCAL") (plus space)) (seq (word "SESSION") (plus space)))) :: fromName

def scopedName (text : Text) : Continue := fun c ↦
  (all fromName).run { c with groups := (1, text.take (text.length - c.rest.length)) :: c.groups } Option.some

theorem run_fromScope (l : Option UInt8) (text : Text) (g : List (ℕ × Text)) :
    (all fromScope).run ⟨l, text, g⟩ Option.some =
      (((seq (word "LOCAL") (plus space)).run ⟨l, text, g⟩ (scopedName text)).or
        ((seq (word "SESSION") (plus space)).run ⟨l, text, g⟩ (scopedName text))).or
        ((all fromName).run ⟨l, text, g⟩ Option.some) := rfl

theorem run_fromScope_apart (h : Apart rest) : (all fromScope).run ⟨l, rest, g⟩ Option.some = none := by
  have hnone (s : String) (hs : (ascii s).all (fun c ↦ isWord (lowerByte c)) = true)
      (hne : ([] : Text) ≠ (ascii s).map lowerByte) :
      (seq (word s) (plus space)).run ⟨l, rest, g⟩ (scopedName rest) = none :=
    run_keyword_none (ascii s) [] hs rfl rfl h hne
  rw [run_fromScope, hnone "LOCAL" (by decide) (by decide), hnone "SESSION" (by decide) (by decide),
    run_fromName_apart h, Option.none_or, Option.none_or]

namespace Assignment

variable (a : Assignment)

theorem name_eq_cons : ∃ x name, a.name = x :: name := by
  have h := a.name_begins
  cases hname : a.name with
  | nil =>
    rw [hname] at h
    cases h
  | cons x name => exact ⟨x, name, rfl⟩

theorem head_named : a.named.head?.any isSpace = false := by
  obtain ⟨x, name, hname⟩ := a.name_eq_cons
  have hin := a.name_in
  rw [hname, List.all_cons, Bool.and_eq_true] at hin
  rw [named, hname]
  simpa using isSpace_of_inName hin.1

theorem run_fromSign_named (hscope : a.scope.isSome) : (all fromSign).run ⟨l, a.named, g⟩ Option.some = none := by
  obtain ⟨x, name, hname⟩ := a.name_eq_cons
  have hin := a.name_in
  have hto := a.name_to hscope
  rw [hname, List.all_cons, Bool.and_eq_true] at hin
  have hx : x ≠ 0x3d := by
    rintro rfl
    cases hin.1
  rw [named, hname, List.cons_append]
  by_cases ht : lowerByte x = 0x74
  swap
  · exact run_fromSign_miss hx (.inl ht)
  have hword : (all [letter 0x54, letter 0x4f]).run ⟨l, x :: (name ++ (a.margin ++ a.valued)), g⟩
      (fun c ↦ wordBoundary.run c fun c ↦ (all (many space :: fromValue)).run c Option.some) = none := by
    rw [run_all_cons, run_letter_plain (by decide) (by decide)]
    split
    swap
    · rfl
    rw [run_all_cons]
    rcases name with - | ⟨y, name⟩
    · obtain ⟨c, tail, h, hc, -⟩ := a.margin_apart
      have hmiss : lowerByte c ≠ lowerByte 0x4f := lowerByte_ne hc rfl
      rw [List.nil_append, h, run_letter_plain (by decide) (by decide), if_neg (mt beq_iff_eq.mp hmiss)]
    · rw [List.cons_append, run_letter_plain (by decide) (by decide)]
      split
      swap
      · rfl
      rename_i hy
      have hy : lowerByte y = 0x6f := beq_iff_eq.mp hy
      have hafter : name.head?.any isWord = true := by
        rw [hname, beginsTo, ht, hy] at hto
        simpa using hto
      have hsame : (some y).any isWord = (name ++ (a.margin ++ a.valued)).head?.any isWord := by
        rw [Option.any_some, isWord_of_lowerByte hy rfl]
        cases name with
        | nil => cases hafter
        | cons z name => exact hafter.symm
      rw [run_all_nil, Pattern.run, hsame, bne_self_eq_false, if_neg Bool.false_ne_true]
  rw [run_fromSign, lit, run_byte_cons, if_neg (mt beq_iff_eq.mp hx), Option.none_or, run_to]
  exact ite_eq_right_iff.mpr fun _ ↦ hword

def scopeGroups : List (ℕ × Text) := a.scope.elim [] fun s ↦ [(1, s.1 ++ s.2)]

variable {s : Text × Text}

theorem session_word (hs : a.scope = some s) : s.1.all isWord = true :=
  all_isWord_of_lowerByte (a.word_scope s hs).1 (by decide)

theorem run_fromName_session (hs : a.scope = some s) :
    (all fromName).run ⟨l, s.1 ++ (s.2 ++ a.named), g⟩ Option.some = none := by
  obtain ⟨hword, hnoise, hne⟩ := a.word_scope s hs
  have hapart : Apart (s.2 ++ a.named) := hnoise.apart hne _
  have hhead : (s.2 ++ a.named).head?.any isWord = false := by
    obtain ⟨c, tail, h, hc, -⟩ := hapart
    rw [h]
    exact hc
  have hbegins : s.1.head?.any beginsName = true := by
    rcases hsess : s.1 with - | ⟨x, rest⟩
    · rw [hsess] at hword
      cases hword
    · rw [hsess, List.map_cons] at hword
      rcases lowerByte_cases (List.cons.inj hword).1 with rfl | rfl <;> rfl
  rw [run_fromName_word (a.session_word hs) hbegins hhead hapart.folds]
  rcases hnoise.split with hall | ⟨spaces, c, rest, hgap, hspaces, hc⟩
  · rw [run_fromMargin hall a.head_named, a.run_fromSign_named (by rw [hs]; rfl)]
  · have hspace : (c :: (rest ++ a.named)).head?.any isSpace = false := (class_of_halts hc).1
    rw [hgap, List.append_assoc, List.cons_append, run_fromMargin hspaces hspace, run_fromSign_halts hc]

theorem run_assigned : (all fromScope).run ⟨l, a.assigned, []⟩ Option.some =
    if (a.scope.all fun s ↦ s.2.all isSpace) && (a.name.all isWord && a.margin.all isSpace)
    then a.outcome ((2, a.name) :: a.scopeGroups) else none := by
  unfold assigned
  cases hs : a.scope with
  | none =>
    obtain ⟨hlocal, hsession⟩ := a.name_scope hs
    have hnone (s : String) (hs : (ascii s).all (fun c ↦ isWord (lowerByte c)) = true)
        (hne : a.name.map lowerByte ≠ (ascii s).map lowerByte) :
        (seq (word s) (plus space)).run ⟨l, a.named, []⟩ (scopedName a.named) = none :=
      run_keyword_none (ascii s) a.name hs a.name_in a.name_folds a.margin_apart hne
    have hgroups : a.scopeGroups = [] := by rw [scopeGroups, hs]; rfl
    simp only
    rw [run_fromScope, hnone "LOCAL" (by decide) hlocal, hnone "SESSION" (by decide) hsession, Option.none_or,
      Option.none_or, a.run_named, hgroups, Option.all_none, Bool.true_and]
  | some s =>
    obtain ⟨hword, hnoise, hne⟩ := a.word_scope s hs
    have hgroups : a.scopeGroups = [(1, s.1 ++ s.2)] := by rw [scopeGroups, hs]; rfl
    have hascii : ∀ c ∈ s.1, c < 0x80 := fun c hc ↦ ascii_of_isWord (List.all_eq_true.mp (a.session_word hs) c hc)
    have hlocal (k : Continue) :
        (seq (word "LOCAL") (plus space)).run ⟨l, s.1 ++ (s.2 ++ a.named), []⟩ k = none := by
      rcases hsess : s.1 with - | ⟨x, rest⟩
      · rw [hsess] at hword
        cases hword
      · rw [hsess, List.map_cons] at hword
        have hx : lowerByte x = 0x73 := (List.cons.inj hword).1
        have hmiss : lowerByte x ≠ lowerByte 0x4c := by
          rw [hx]
          decide
        exact run_letters_miss (c := 0x4c) (ascii "OCAL") (folds_ascii (hascii x (by rw [hsess]; simp)) _) hmiss
    let text := s.1 ++ (s.2 ++ a.named)
    have hsession : (seq (word "SESSION") (plus space)).run ⟨l, text, []⟩ (scopedName text) =
        if s.2.all isSpace then scopedName text ⟨past (past l s.1) s.2, a.named, []⟩ else none := by
      change (all ((ascii "SESSION").map letter)).run ⟨l, text, []⟩ (fun c ↦ (plus space).run c (scopedName text)) = _
      rw [run_letters hword hascii]
      exact run_gap hnoise hne a.head_named fun l rest hrest ↦ run_fromName_apart hrest
    have hscoped (l : Option UInt8) : scopedName text ⟨l, a.named, []⟩ =
        (all fromName).run ⟨l, a.named, [(1, s.1 ++ s.2)]⟩ Option.some := by
      have htake : text.take (text.length - a.named.length) = s.1 ++ s.2 := by
        change (s.1 ++ (s.2 ++ a.named)).take ((s.1 ++ (s.2 ++ a.named)).length - a.named.length) = _
        rw [← List.append_assoc, List.length_append, Nat.add_sub_cancel, List.take_left]
      rw [scopedName]
      simp only [htake]
    simp only
    rw [run_fromScope, hlocal, Option.none_or, hsession, a.run_fromName_session hs, Option.or_none, hscoped,
      a.run_named, hgroups, Option.all_some]
    cases s.2.all isSpace <;> rfl

end Assignment

end Scopes

section Whole

variable {text rest : Text}

theorem find_leading {c x : UInt8} (cs : Text) (ps : List Pattern) {spaces : Text} (hc : isWord (lowerByte c) = true)
    (hspaces : spaces.all isSpace = true) (hx : isSpace x = false) :
    (all (textStart :: many space :: all ((c :: cs).map letter) :: ps)).find (spaces ++ x :: rest) =
      (all (all ((c :: cs).map letter) :: ps)).run ⟨past none spaces, x :: rest, []⟩ Option.some := by
  have hhead : (x :: rest).head?.any isSpace = false := hx
  refine run_many_only (k := fun c' ↦ (all (all ((c :: cs).map letter) :: ps)).run c' Option.some) hspaces hhead
    fun l y r hy ↦ ?_
  have hword : isWord y = false := by
    rcases cases_of_isSpace hy with rfl | rfl | rfl | rfl | rfl <;> rfl
  exact run_letters_miss cs (Apart.of_isSpace hy r).folds (lowerByte_ne hword hc)

namespace Assignment

variable (a : Assignment)

theorem set_eq_cons : ∃ x y z, a.set = [x, y, z] ∧ lowerByte x = 0x73 ∧ lowerByte y = 0x65 ∧ lowerByte z = 0x74 := by
  have hword := a.word_set
  obtain ⟨x, y, z, hset⟩ : ∃ x y z, a.set = [x, y, z] := by
    rw [← List.length_eq_three, ← @List.length_map _ _ a.set lowerByte, hword]
    rfl
  rw [hset] at hword
  simp only [List.map_cons, List.map_nil] at hword
  exact ⟨x, y, z, hset, (List.cons.inj hword).1, (List.cons.inj (List.cons.inj hword).2).1,
    (List.cons.inj (List.cons.inj (List.cons.inj hword).2).2).1⟩

theorem head_assigned : a.assigned.head?.any isSpace = false := by
  unfold assigned
  cases hs : a.scope with
  | none => exact a.head_named
  | some s =>
    have hword := a.session_word hs
    rcases hsess : s.1 with - | ⟨x, rest⟩
    · have h := (a.word_scope s hs).1
      rw [hsess] at h
      cases h
    · rw [hsess, List.all_cons, Bool.and_eq_true] at hword
      simpa [hsess] using isSpace_of_isWord hword.1

theorem text_split : ∃ spaces x rest, a.text = spaces ++ x :: rest ∧ spaces.all isSpace = true ∧
    isSpace x = false ∧ (a.lead.all isSpace = true ∧ spaces = a.lead ∧ lowerByte x = 0x73 ∧
      x :: rest = a.set ++ (a.gap ++ a.assigned) ∨ a.lead.all isSpace = false ∧ halts x = true) := by
  obtain ⟨x, y, z, hset, hx, -, -⟩ := a.set_eq_cons
  rcases a.noise_lead.split with hall | ⟨spaces, c, rest, hlead, hspaces, hc⟩
  · refine ⟨a.lead, x, [y, z] ++ (a.gap ++ a.assigned), ?_, hall, isSpace_of_isWord (isWord_of_lowerByte hx rfl),
      .inl ⟨hall, rfl, hx, ?_⟩⟩
    · rw [text, hset]
      rfl
    · rw [hset]
      rfl
  · refine ⟨spaces, c, rest ++ (a.set ++ (a.gap ++ a.assigned)), ?_, hspaces, (class_of_halts hc).1, .inr ⟨?_, hc⟩⟩
    · rw [text, hlead, List.append_assoc, List.cons_append]
    · rw [hlead]
      exact all_isSpace_append (class_of_halts hc).1

theorem find_other {c : UInt8} (cs : Text) (ps : List Pattern) (hc : isWord (lowerByte c) = true)
    (hs : lowerByte c ≠ 0x73) :
    (all (textStart :: many space :: all ((c :: cs).map letter) :: ps)).find a.text = none := by
  obtain ⟨spaces, x, rest, htext, hspaces, hspace, hx⟩ := a.text_split
  rw [htext, find_leading cs ps hc hspaces hspace]
  rcases hx with ⟨-, -, hx, -⟩ | ⟨-, hx⟩
  · refine run_letters_miss cs (folds_ascii (ascii_of_isWord (isWord_of_lowerByte hx rfl)) rest) ?_
    rw [hx]
    exact hs.symm
  · exact run_letters_miss cs (Apart.of_halts hx rest).folds (lowerByte_ne (class_of_halts hx).2 hc)

/-- The pattern reads the statement exactly if it is legible. -/
theorem find_setRe : setRe.find a.text = if a.legible then
    some ⟨(a.val ++ a.closing).getLast?, [], (3, a.val) :: (2, a.name) :: a.scopeGroups⟩ else none := by
  obtain ⟨spaces, x, rest, htext, hspaces, hspace, hx⟩ := a.text_split
  have hfind : setRe.find (spaces ++ x :: rest) = (all ((ascii "SET").map letter)).run ⟨past none spaces, x :: rest, []⟩
      fun c ↦ (plus space).run c fun c ↦ (all fromScope).run c Option.some :=
    find_leading (c := 0x53) (ascii "ET") (plus space :: fromScope) rfl hspaces hspace
  rw [htext, hfind]
  rcases hx with ⟨hlead, -, -, hrest⟩ | ⟨hlead, hx⟩
  · have hascii : ∀ c ∈ a.set, c < 0x80 := fun c hc ↦
      ascii_of_isWord (List.all_eq_true.mp (all_isWord_of_lowerByte a.word_set (by decide)) c hc)
    rw [hrest, run_letters a.word_set hascii, run_gap a.noise_gap a.gap_ne a.head_assigned
      (fun l rest hrest ↦ run_fromScope_apart hrest), a.run_assigned, outcome, legible, hlead]
    cases a.gap.all isSpace <;> cases (a.scope.all fun s ↦ s.2.all isSpace) <;> cases a.name.all isWord <;>
      cases a.margin.all isSpace <;> rfl
  · have hmiss : lowerByte x ≠ lowerByte 0x53 := lowerByte_ne (class_of_halts hx).2 rfl
    have hnot : a.legible = false := by
      rw [legible, hlead]
      rfl
    rw [hnot, if_neg Bool.false_ne_true]
    exact run_letters_miss (c := 0x53) (ascii "ET") (Apart.of_halts hx rest).folds hmiss

end Assignment

end Whole

end PgRouter.Sql.Assignments
