import PgRouter.Sql.CteLists
import PgRouter.Sql.Noise

namespace PgRouter.Sql.Recursion

open Client.Protocol Client.Handler Lexing Classifier Leads Noise Stripping

open CteLists (closeParen_append)

inductive Panic
  | sliceOutOfRange
  | firstKeyword

/-- `s[i:]`. -/
def sliceFrom (s : Text) (i : ℕ) : Except Panic Text := if i ≤ s.length then .ok (s.drop i) else .error .sliceOutOfRange

/-- `s[:i]`. -/
def sliceTo (s : Text) (i : ℕ) : Except Panic Text := if i ≤ s.length then .ok (s.take i) else .error .sliceOutOfRange

section Indices

/-- An index that is moved from `j` on while the byte there is of a kind, over what follows `j`. -/
def scanWhile (p : UInt8 → Bool) : Text → ℕ → ℕ
  | [], j => j
  | c :: rest, j => if p c then scanWhile p rest (j + 1) else j

def blockEnd : ℕ → Text → ℕ → ℕ
  | 0, _, j => j
  | _, [], j => j
  | _, [_], j => j + 1
  | depth + 1, c :: d :: rest, j =>
    if c == 0x2f && d == 0x2a then blockEnd (depth + 2) rest (j + 2)
    else if c == 0x2a && d == 0x2f then blockEnd depth rest (j + 2)
    else blockEnd (depth + 1) (d :: rest) (j + 1)

def parenEnd : ℕ → Text → ℕ → ℕ
  | 0, _, j => j
  | _, [], j => j
  | depth + 1, c :: rest, j =>
    parenEnd (if c == 0x28 then depth + 2 else if c == 0x29 then depth else depth + 1) rest (j + 1)

end Indices

section Stripping

def stripPass (sql : Text) : Except Panic (Option Text) :=
  match sql with
  | [] => .ok none
  | c :: rest =>
    if isBlank c then some <$> sliceFrom sql 1
    else if c == 0x2d && rest.head? == some 0x2d then some <$> sliceFrom sql (scanWhile (· != 0x0a) (sql.drop 2) 2)
    else if c == 0x2f && rest.head? == some 0x2a then some <$> sliceFrom sql (blockEnd 1 (sql.drop 2) 2)
    else .ok none

def stripLoop : ℕ → Text → Except Panic Text
  | 0, sql => .ok sql
  | n + 1, sql => do
    match ← stripPass sql with
    | none => return sql
    | some sql => stripLoop n sql

def strip (sql : Text) : Except Panic Text := stripLoop sql.length sql

end Stripping

/-- The functions and loops of the classifier that a string is passed to. -/
inductive Head
  | classifySQL
  | classifyStripped
  | classifyExplain
  | explainLoop
  | classifyCTE
  | cteLoop

structure Call where
  head : Head
  text : Text

inductive Next
  | returns (op : SQLOp)
  | calls (head : Head) (text : Text)

section Machine

-- `strings.ToUpper`
variable (upper : Text → Text)

def keyword (s : Text) : Except Panic Text := (firstKeyword s).elim (.error .firstKeyword) .ok

def hasPrefix (s : Text) (keyword : String) : Bool := (ascii keyword).isPrefixOf (upper s)

/-- `stripLeadingNoise(s[len(keyword):])`. -/
def behind (s : Text) (keyword : String) : Except Panic Text := do strip (← sliceFrom s (ascii keyword).length)

/-- What follows the first of the keywords that stands in front, or all if there is none. -/
def skipOptional (s : Text) : List String → Except Panic Text
  | [] => .ok s
  | kw :: kws => if hasPrefix upper s kw then behind s kw else skipOptional s kws

def classifySQL (sql : Text) : Except Panic Next := do
  let s ← strip sql
  return .calls .classifyStripped s

def classifyStripped (s : Text) : Except Panic Next := do
  if s = [] then return .returns .unknown
  let kw ← keyword s
  if [ascii "SELECT", ascii "VALUES", ascii "TABLE", ascii "SHOW"].contains kw then return .returns .read
  else if kw == ascii "EXPLAIN" then return .calls .classifyExplain s
  else if kw == ascii "WITH" then return .calls .classifyCTE s
  else if kw == [] then return .returns .unknown
  else return .returns .write

def classifyExplain (s : Text) : Except Panic Next := do
  let s ← sliceFrom s (ascii "EXPLAIN").length
  return .calls .explainLoop (trimSpace s)

def explainLoop (s : Text) : Except Panic Next := do
  match ← strip s with
  | [] => return .returns .unknown
  | c :: rest =>
    if c == 0x28 then
      let options ← sliceTo (c :: rest) (parenEnd 1 rest 1)
      if containsKeyword (upper options) (ascii "ANALYZE") then return .returns .write
      let s ← sliceFrom (c :: rest) (parenEnd 1 rest 1)
      return .calls .explainLoop s
    else
      let kw ← keyword (c :: rest)
      if kw == ascii "ANALYZE" then return .returns .write
      return .calls .classifySQL (c :: rest)

def classifyCTE (s : Text) : Except Panic Next := do
  let s ← sliceFrom s (ascii "WITH").length
  let s ← strip (trimSpace s)
  let s ← skipOptional upper s ["RECURSIVE"]
  return .calls .cteLoop s

/-- The part of a round of `classifyCTE` behind `AS`. -/
def cteBody (s : Text) : Except Panic Next := do
  match s with
  | [] => return .returns .unknown
  | c :: rest =>
    if c != 0x28 then return .returns .unknown
    let s ← sliceFrom (c :: rest) (parenEnd 1 rest 1)
    let s ← strip s
    if s.head? == some 0x2c then
      let s ← behind s ","
      return .calls .cteLoop s
    return .calls .classifySQL s

def cteLoop (s : Text) : Except Panic Next := do
  let s ← sliceFrom s (scanWhile isNameByte s 0)
  let s ← strip s
  if !hasPrefix upper s "AS" then return .returns .unknown
  let s ← behind s "AS"
  let s ← skipOptional upper s ["NOT MATERIALIZED", "MATERIALIZED"]
  cteBody s

def step : Call → Except Panic Next
  | ⟨.classifySQL, sql⟩ => classifySQL sql
  | ⟨.classifyStripped, s⟩ => classifyStripped s
  | ⟨.classifyExplain, s⟩ => classifyExplain s
  | ⟨.explainLoop, s⟩ => explainLoop upper s
  | ⟨.classifyCTE, s⟩ => classifyCTE upper s
  | ⟨.cteLoop, s⟩ => cteLoop upper s

def Calls (c c' : Call) : Prop := step upper c = .ok (.calls c'.head c'.text)

end Machine

/-- `strings.ToUpper` goes character by character: what comes of one is a single byte or none of ASCII. -/
inductive Upper : Text → Text → Prop
  | nil : Upper [] []
  | single {r s t : Text} (c : UInt8) : r ≠ [] → Upper s t → Upper (r ++ s) (c :: t)
  | wide {r b s t : Text} : r ≠ [] → (∀ c ∈ b, 0x80 ≤ c) → Upper s t → Upper (r ++ s) (b ++ t)

/-- Whatever becomes longer or shorter in upper case: a keyword in front of the one text needs its length in the
other. -/
theorem Upper.length_le {s t kw : Text} (h : Upper s t) (hascii : ∀ c ∈ kw, c < 0x80) (hkw : kw <+: t) :
    kw.length ≤ s.length := by
  induction h generalizing kw with
  | nil => exact hkw.length_le
  | @single r s t c hr _ ih =>
    have hpos := List.length_pos_iff.mpr hr
    cases kw with
    | nil => exact Nat.zero_le _
    | cons d kw =>
      have hrest := ih (fun c hc ↦ hascii c (List.mem_cons_of_mem _ hc)) (List.cons_prefix_cons.mp hkw).2
      rw [List.length_cons, List.length_append]
      omega
  | @wide r b s t hr hb _ ih =>
    cases b with
    | nil =>
      rw [List.length_append]
      exact (ih hascii hkw).trans (Nat.le_add_left _ _)
    | cons c b =>
      cases kw with
      | nil => exact Nat.zero_le _
      | cons d kw =>
        obtain ⟨rfl, -⟩ := List.cons_prefix_cons.mp hkw
        exact absurd (hascii d List.mem_cons_self) (UInt8.not_lt.mpr (hb d List.mem_cons_self))

section Outcomes

variable {α β : Type}

/-- A computation that meets its slices: it yields a value of a kind, or `firstKeyword` does not return. -/
def Meets (P : α → Prop) : Except Panic α → Prop
  | .ok a => P a
  | .error e => e = .firstKeyword

theorem Meets.bind {P : α → Prop} {Q : β → Prop} {x : Except Panic α} {f : α → Except Panic β} (h : Meets P x)
    (hf : ∀ a, P a → Meets Q (f a)) : Meets Q (x >>= f) := by
  cases x with
  | ok a => exact hf a h
  | error e => exact h

theorem meets_sliceFrom {s : Text} {i : ℕ} (h : i ≤ s.length) : Meets (· = s.drop i) (sliceFrom s i) := by
  rw [sliceFrom, if_pos h]
  rfl

theorem meets_sliceTo {s : Text} {i : ℕ} (h : i ≤ s.length) : Meets (· = s.take i) (sliceTo s i) := by
  rw [sliceTo, if_pos h]
  rfl

end Outcomes

section Loops

theorem scanWhile_eq (p : UInt8 → Bool) (s : Text) (j : ℕ) : scanWhile p s j = j + (s.takeWhile p).length := by
  induction s generalizing j with
  | nil => rfl
  | cons c s ih =>
    rw [scanWhile]
    split
    case isTrue hc => rw [ih, List.takeWhile_cons_of_pos hc, List.length_cons, Nat.add_assoc, Nat.add_comm 1]
    case isFalse hc => rw [List.takeWhile_cons_of_neg hc, List.length_nil, Nat.add_zero]

theorem parenEnd_eq (d : ℕ) (s : Text) (j : ℕ) : parenEnd d s j = j + (closeParen d s).1.length := by
  induction s generalizing d j with
  | nil => cases d <;> rfl
  | cons c s ih =>
    cases d with
    | zero => rfl
    | succ d =>
      rw [parenEnd, ih, closeParen, List.length_cons, Nat.add_assoc, Nat.add_comm 1]

theorem blockEnd_length (d : ℕ) (s : Text) (j : ℕ) :
    blockEnd d s j + (skipBlock d s).length = j + s.length := by
  induction d, s using closed.induct generalizing j with
  | case1 s => cases s <;> rfl
  | case2 d => rfl
  | case3 d c => rfl
  | case4 d c e rest h ih =>
    have hrest := ih (j + 2)
    simp only [blockEnd, skipBlock, closed, h, if_true, List.length_cons] at hrest ⊢
    omega
  | case5 d c e rest h h' ih =>
    have hrest := ih (j + 2)
    simp only [blockEnd, skipBlock, closed, h, h', if_true, if_neg Bool.false_ne_true, List.length_cons] at hrest ⊢
    omega
  | case6 d c e rest h h' ih =>
    have hrest := ih (j + 1)
    simp only [blockEnd, skipBlock, closed, h, h', if_neg Bool.false_ne_true, List.length_cons] at hrest ⊢
    omega

theorem sliceFrom_append (front rest : Text) : sliceFrom (front ++ rest) front.length = .ok rest := by
  rw [sliceFrom, if_pos (by simp), List.drop_left]

/-- No slice of a pass is out of range. -/
theorem stripPass_eq (s : Text) : stripPass s = .ok (pass s) := by
  cases s with
  | nil => rfl
  | cons c rest =>
    rw [stripPass, Noise.pass]
    split
    · exact congrArg (some <$> ·) (sliceFrom_append [c] rest)
    · split
      case isTrue hline =>
        cases rest with
        | nil => simp at hline
        | cons d rest =>
          have hslice := sliceFrom_append (c :: d :: rest.takeWhile (· != 0x0a)) (skipLine rest)
          have htext : c :: d :: rest.takeWhile (· != 0x0a) ++ skipLine rest = c :: d :: rest := by
            rw [List.cons_append, List.cons_append, skipLine, List.takeWhile_append_dropWhile]
          have hindex : scanWhile (· != 0x0a) ((c :: d :: rest).drop 2) 2 =
              (c :: d :: rest.takeWhile (· != 0x0a)).length := by
            rw [scanWhile_eq, List.length_cons, List.length_cons, Nat.add_comm]
            rfl
          rw [htext] at hslice
          rw [hindex]
          exact congrArg (some <$> ·) hslice
      case isFalse =>
        split
        case isFalse => rfl
        case isTrue hblock =>
          cases rest with
          | nil => simp at hblock
          | cons d rest =>
            obtain ⟨body, hbody, -⟩ := splits 1 rest
            have hslice := sliceFrom_append (c :: d :: body) (skipBlock 1 rest)
            have hend : blockEnd 1 rest 2 + (skipBlock 1 rest).length = 2 + rest.length := blockEnd_length 1 rest 2
            have hlength := congrArg List.length hbody
            rw [List.cons_append, List.cons_append, ← hbody] at hslice
            rw [List.length_append] at hlength
            have hindex : blockEnd 1 ((c :: d :: rest).drop 2) 2 = (c :: d :: body).length := by
              change blockEnd 1 rest 2 = body.length + 2
              omega
            rw [hindex]
            exact congrArg (some <$> ·) hslice

theorem strip_eq (s : Text) : strip s = .ok (stripLeadingNoise s) := by
  have hloop (n : ℕ) (s : Text) : stripLoop n s = .ok (stripNoise n s) := by
    induction n generalizing s with
    | zero => rfl
    | succ n ih =>
      rw [stripLoop, stripPass_eq, stripNoise_succ]
      cases pass s with
      | none => rfl
      | some t => exact ih t
  exact hloop _ s

end Loops

section Rounds

def Head.rank : Head → ℕ
  | .classifyExplain | .classifyCTE => 0
  | .classifyStripped => 1
  | .classifySQL => 2
  | .explainLoop | .cteLoop => 3

def Call.weight (c : Call) : ℕ := 5 * c.text.length + c.head.rank

/-- A string that begins with the keyword that it was passed on for. -/
def Call.Fits : Call → Prop
  | ⟨.classifyExplain, s⟩ => (ascii "EXPLAIN").length ≤ s.length
  | ⟨.classifyCTE, s⟩ => (ascii "WITH").length ≤ s.length
  | _ => True

def Next.Below (n : ℕ) : Next → Prop
  | .returns _ => True
  | .calls head text => (⟨head, text⟩ : Call).Fits ∧ (⟨head, text⟩ : Call).weight < n

variable {upper : Text → Text} {s : Text} {n : ℕ}

theorem meets_behind {keyword : String} (h : (ascii keyword).length ≤ s.length) :
    Meets (fun t ↦ t.length + (ascii keyword).length ≤ s.length) (behind s keyword) := by
  refine (meets_sliceFrom h).bind ?_
  rintro t rfl
  rw [strip_eq]
  have hle := (strip_suffix (s.drop (ascii keyword).length)).length_le
  rw [List.length_drop] at hle
  change (stripLeadingNoise _).length + _ ≤ _
  omega

theorem length_of_keyword {kw : String} (h : firstKeyword s = some (ascii kw)) (hinsert : ascii kw ≠ ascii "INSERT")
    (hdealloc : ascii kw ≠ ascii "DEALLOCATE") : (ascii kw).length ≤ s.length := by
  obtain hword | h | h := word_of_firstKeyword h
  · rw [hword, List.length_map]
    exact (List.takeWhile_prefix _).length_le
  · exact absurd h hinsert
  · exact absurd h hdealloc

theorem meets_keyword (s : Text) : Meets (fun kw ↦ firstKeyword s = some kw) (keyword s) := by
  rw [keyword]
  cases h : firstKeyword s with
  | none => rfl
  | some kw => rfl

theorem meets_classifyStripped (h : 5 * s.length + 1 ≤ n) : Meets (Next.Below n) (classifyStripped s) := by
  rw [classifyStripped]
  split
  · trivial
  · refine (meets_keyword s).bind ?_
    intro kw hkw
    split
    · trivial
    · split
      case isTrue hexplain =>
        obtain rfl := beq_iff_eq.mp hexplain
        exact ⟨length_of_keyword hkw (by decide) (by decide), h⟩
      case isFalse =>
        split
        case isTrue hwith =>
          obtain rfl := beq_iff_eq.mp hwith
          exact ⟨length_of_keyword hkw (by decide) (by decide), h⟩
        case isFalse => split <;> trivial

theorem parenEnd_le (c : UInt8) (rest : Text) : parenEnd 1 rest 1 ≤ (c :: rest).length := by
  have hlength := congrArg List.length (closeParen_append 1 rest)
  rw [List.length_append] at hlength
  rw [parenEnd_eq, List.length_cons]
  omega

theorem one_le_parenEnd (rest : Text) : 1 ≤ parenEnd 1 rest 1 := by
  rw [parenEnd_eq]
  exact Nat.le_add_right _ _

theorem meets_explainLoop (h : 5 * s.length + 3 ≤ n) : Meets (Next.Below n) (explainLoop upper s) := by
  have hstrip := (strip_suffix s).length_le
  rw [explainLoop, strip_eq]
  generalize stripLeadingNoise s = t at hstrip
  cases t with
  | nil => trivial
  | cons c rest =>
    change Meets (Next.Below n) (ite _ _ _)
    have hle := parenEnd_le c rest
    have hone := one_le_parenEnd rest
    split
    · refine (meets_sliceTo hle).bind ?_
      rintro options -
      split
      · trivial
      · refine (meets_sliceFrom hle).bind ?_
        rintro t rfl
        refine ⟨trivial, ?_⟩
        simp only [Call.weight, Head.rank, List.length_drop]
        omega
    · refine (meets_keyword (c :: rest)).bind ?_
      intro kw hkw
      split
      · trivial
      · refine ⟨trivial, ?_⟩
        simp only [Call.weight, Head.rank]
        omega

theorem meets_classifyExplain (hfits : (ascii "EXPLAIN").length ≤ s.length) (h : 5 * s.length ≤ n) :
    Meets (Next.Below n) (classifyExplain s) := by
  refine (meets_sliceFrom hfits).bind ?_
  rintro t rfl
  have hseven : (ascii "EXPLAIN").length = 7 := by decide
  have hdrop : (s.drop (ascii "EXPLAIN").length).length = s.length - 7 := by rw [List.length_drop, hseven]
  have htrim := length_trimSpace_le (s.drop (ascii "EXPLAIN").length)
  refine ⟨trivial, ?_⟩
  simp only [Call.weight, Head.rank]
  omega

theorem meets_cteBody (h : 5 * s.length + 3 ≤ n) : Meets (Next.Below n) (cteBody s) := by
  cases s with
  | nil => trivial
  | cons c rest =>
    rw [cteBody]
    split
    · trivial
    · refine (meets_sliceFrom (parenEnd_le c rest)).bind ?_
      rintro t rfl
      rw [strip_eq]
      have hone := one_le_parenEnd rest
      have hle := parenEnd_le c rest
      have hstrip := (strip_suffix ((c :: rest).drop (parenEnd 1 rest 1))).length_le
      rw [List.length_drop] at hstrip
      generalize stripLeadingNoise ((c :: rest).drop (parenEnd 1 rest 1)) = t at hstrip
      change Meets (Next.Below n) (ite _ _ _)
      split
      case isTrue hcomma =>
        have hpos : (ascii ",").length ≤ t.length := by
          cases t with
          | nil => simp at hcomma
          | cons => exact Nat.succ_le_succ (Nat.zero_le _)
        refine (meets_behind hpos).bind ?_
        intro t' ht'
        refine ⟨trivial, ?_⟩
        simp only [Call.weight, Head.rank]
        omega
      case isFalse =>
        refine ⟨trivial, ?_⟩
        simp only [Call.weight, Head.rank]
        omega

section Keywords

variable (hupper : ∀ s, Upper s (upper s))

include hupper

theorem length_of_hasPrefix {keyword : String} (hascii : ∀ c ∈ ascii keyword, c < 0x80)
    (h : hasPrefix upper s keyword = true) : (ascii keyword).length ≤ s.length :=
  (hupper s).length_le hascii (List.isPrefixOf_iff_prefix.mp h)

theorem meets_skipOptional {kws : List String} (hascii : ∀ kw ∈ kws, ∀ c ∈ ascii kw, c < 0x80) (s : Text) :
    Meets (·.length ≤ s.length) (skipOptional upper s kws) := by
  induction kws with
  | nil => exact Nat.le_refl _
  | cons kw kws ih =>
    rw [skipOptional]
    split
    case isTrue h =>
      have hbehind := meets_behind (length_of_hasPrefix hupper (hascii kw List.mem_cons_self) h)
      generalize behind s kw = x at hbehind
      cases x with
      | ok t => exact Nat.le_of_add_right_le hbehind
      | error e => exact hbehind
    case isFalse => exact ih fun kw hkw ↦ hascii kw (List.mem_cons_of_mem _ hkw)

theorem meets_classifyCTE (hfits : (ascii "WITH").length ≤ s.length) (h : 5 * s.length ≤ n) :
    Meets (Next.Below n) (classifyCTE upper s) := by
  refine (meets_sliceFrom hfits).bind ?_
  rintro t rfl
  have hfour : (ascii "WITH").length = 4 := by decide
  have htrim := length_trimSpace_le (s.drop (ascii "WITH").length)
  have hstrip := (strip_suffix (trimSpace (s.drop (ascii "WITH").length))).length_le
  have hdrop : (s.drop (ascii "WITH").length).length = s.length - 4 := by rw [List.length_drop, hfour]
  rw [strip_eq]
  generalize stripLeadingNoise (trimSpace (s.drop (ascii "WITH").length)) = t at hstrip
  refine (meets_skipOptional hupper (by decide +kernel) t).bind ?_
  intro t' ht'
  refine ⟨trivial, ?_⟩
  simp only [Call.weight, Head.rank]
  omega

theorem meets_cteLoop (h : 5 * s.length + 3 ≤ n) : Meets (Next.Below n) (cteLoop upper s) := by
  have hscan : scanWhile isNameByte s 0 ≤ s.length := by
    rw [scanWhile_eq, Nat.zero_add]
    exact (List.takeWhile_prefix _).length_le
  refine (meets_sliceFrom hscan).bind ?_
  rintro t rfl
  rw [strip_eq]
  have hstrip := (strip_suffix (s.drop (scanWhile isNameByte s 0))).length_le
  rw [List.length_drop] at hstrip
  generalize stripLeadingNoise (s.drop (scanWhile isNameByte s 0)) = t at hstrip
  change Meets (Next.Below n) (ite _ _ _)
  split
  · trivial
  case isFalse has =>
    have has : hasPrefix upper t "AS" = true := by simpa using has
    refine (meets_behind (length_of_hasPrefix hupper (by decide +kernel) has)).bind ?_
    intro t' ht'
    refine (meets_skipOptional hupper (by decide +kernel) t').bind ?_
    intro t'' ht''
    exact meets_cteBody (by omega)

/-- What one call does: it stays within its string, and what it calls is lighter. -/
theorem meets_step {c : Call} (hfits : c.Fits) : Meets (Next.Below c.weight) (step upper c) := by
  obtain ⟨head, s⟩ := c
  cases head with
  | classifySQL =>
    rw [step, classifySQL, strip_eq]
    have hstrip := (strip_suffix s).length_le
    refine ⟨trivial, ?_⟩
    simp only [Call.weight, Head.rank]
    omega
  | classifyStripped => exact meets_classifyStripped (Nat.le_refl _)
  | classifyExplain => exact meets_classifyExplain hfits (Nat.le_refl _)
  | explainLoop => exact meets_explainLoop (Nat.le_refl _)
  | classifyCTE => exact meets_classifyCTE hupper hfits (Nat.le_refl _)
  | cteLoop => exact meets_cteLoop hupper (Nat.le_refl _)

variable {c c' : Call}

theorem fits_of_calls (hfits : c.Fits) (h : Calls upper c c') : c'.Fits ∧ c'.weight < c.weight := by
  have hmeets := meets_step hupper hfits
  rw [Calls] at h
  rw [h] at hmeets
  exact hmeets

theorem fits_of_run (hfits : c.Fits) (h : Relation.ReflTransGen (Calls upper) c c') : c'.Fits := by
  induction h with
  | refl => exact hfits
  | tail _ hcalls ih => exact (fits_of_calls hupper ih hcalls).1

theorem weight_of_run (hfits : c.Fits) (h : Relation.TransGen (Calls upper) c c') : c'.weight < c.weight := by
  induction h with
  | single hcalls => exact (fits_of_calls hupper hfits hcalls).2
  | tail hrun hcalls ih =>
    exact (fits_of_calls hupper (fits_of_run hupper hfits hrun.to_reflTransGen) hcalls).2.trans ih

theorem exists_end {c : Call} (hfits : c.Fits) : ∃ c', Relation.ReflTransGen (Calls upper) c c' ∧
    ((∃ op, step upper c' = .ok (.returns op)) ∨ step upper c' = .error .firstKeyword) := by
  induction hweight : c.weight using Nat.strong_induction_on generalizing c with
  | _ n ih =>
    subst hweight
    have hmeets := meets_step hupper hfits
    cases hstep : step upper c with
    | error e =>
      rw [hstep] at hmeets
      obtain rfl : e = .firstKeyword := hmeets
      exact ⟨c, .refl, .inr hstep⟩
    | ok next =>
      cases next with
      | returns op => exact ⟨c, .refl, .inl ⟨op, hstep⟩⟩
      | calls head text =>
        rw [hstep] at hmeets
        obtain ⟨c', hrun, hend⟩ := ih _ hmeets.2 hmeets.1 rfl
        have hcalls : Calls upper c ⟨head, text⟩ := hstep
        exact ⟨c', .head hcalls hrun, hend⟩

end Keywords

end Rounds

/-- The classification of any text comes to an end: it returns, or `firstKeyword` does not. No slice on the way is
out of range, and where a function or loop is entered again, its string has become shorter. -/
theorem classification_ends {upper : Text → Text} (hupper : ∀ s, Upper s (upper s)) (sql : Text) :
    (∃ c, Relation.ReflTransGen (Calls upper) ⟨.classifySQL, sql⟩ c ∧
      ((∃ op, step upper c = .ok (.returns op)) ∨ step upper c = .error .firstKeyword)) ∧
    (∀ c, Relation.ReflTransGen (Calls upper) ⟨.classifySQL, sql⟩ c →
      step upper c ≠ .error .sliceOutOfRange ∧
      ∀ c', Relation.TransGen (Calls upper) c c' → c'.head = c.head → c'.text.length < c.text.length) ∧
    ∀ s, ∃ left, stripPass s = .ok left ∧ ∀ t ∈ left, t.length < s.length := by
  refine ⟨exists_end hupper trivial, ?_, ?_⟩
  · intro c hrun
    have hstart : (⟨.classifySQL, sql⟩ : Call).Fits := trivial
    have hfits := fits_of_run hupper hstart hrun
    refine ⟨?_, ?_⟩
    · intro hslice
      have hmeets := meets_step hupper hfits
      rw [hslice] at hmeets
      cases hmeets
    · intro c' hrun' hhead
      have hweight := weight_of_run hupper hfits hrun'
      rw [Call.weight, Call.weight, hhead] at hweight
      omega
  · intro s
    exact ⟨pass s, stripPass_eq s, fun t ht ↦ (passes_of_pass ht).length_lt⟩

theorem upper_toUpper (s : Text) : Upper s (toUpper s) := by
  induction s using toUpper.induct with
  | case1 rest ih => exact .single 0x53 (List.cons_ne_nil 0xc5 [0xbf]) ih
  | case2 rest ih => exact .single 0x49 (List.cons_ne_nil 0xc4 [0xb1]) ih
  | case3 c rest h h' ih =>
    rw [toUpper]
    · exact .single (upperByte c) (List.cons_ne_nil c []) ih
    · exact h
    · exact h'
  | case4 => exact .nil

/-- A long s stands for the second letter of `AS`. -/
def longS : Text := ascii "WITH x a" ++ [0xc5, 0xbf] ++ ascii " (SELECT 1) SELECT 2"

theorem classification_ends_longS : hasPrefix toUpper ([0x61, 0xc5, 0xbf] : Text) "AS" = true ∧
    ∃ c, Relation.ReflTransGen (Calls toUpper) ⟨.classifySQL, longS⟩ c ∧
      ((∃ op, step toUpper c = .ok (.returns op)) ∨ step toUpper c = .error .firstKeyword) :=
  ⟨by decide, (classification_ends upper_toUpper longS).1⟩

end PgRouter.Sql.Recursion
