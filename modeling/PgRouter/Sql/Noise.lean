import PgRouter.Sql.Leads

namespace PgRouter.Sql.Noise

open Client.Protocol Lexing Leads

def marksBlock (s : Text) : Prop := [0x2f, 0x2a] <+: s ∨ [0x2a, 0x2f] <+: s

/-- What stands in `d` open block comments and leaves `d'` of them open. It ends with the last of them. -/
inductive Inside : ℕ → Text → ℕ → Prop
  | nil (d : ℕ) : Inside d [] d
  | opens {d d' : ℕ} {s : Text} : Inside (d + 2) s d' → Inside (d + 1) (0x2f :: 0x2a :: s) d'
  | closes {d d' : ℕ} {s : Text} : Inside d s d' → Inside (d + 1) (0x2a :: 0x2f :: s) d'
  | byte {d d' : ℕ} {c : UInt8} {s : Text} : ¬ marksBlock (c :: s) → Inside (d + 1) s d' → Inside (d + 1) (c :: s) d'

/-- Blanks and comments, each of which has its end. -/
inductive Closed : Text → Prop
  | nil : Closed []
  | blank {c : UInt8} {s : Text} : isBlank c = true → Closed s → Closed (c :: s)
  | line {body s : Text} : 0x0a ∉ body → Closed s → Closed (0x2d :: 0x2d :: (body ++ 0x0a :: s))
  | block {body s : Text} : Inside 1 body 0 → Closed s → Closed (0x2f :: 0x2a :: (body ++ s))

/-- A comment that is still open at the end of the text. -/
inductive Unclosed : Text → Prop
  | line {body : Text} : 0x0a ∉ body → Unclosed (0x2d :: 0x2d :: body)
  | block {d : ℕ} {body : Text} : Inside 1 body (d + 1) → Unclosed (0x2f :: 0x2a :: body)

/-- One pass of the loop in `stripLeadingNoise`: what it leaves, or none where it returns. -/
def pass : Text → Option Text
  | [] => none
  | c :: rest =>
    if isBlank c then some rest
    else if c == 0x2d && rest.head? == some 0x2d then some (skipLine rest.tail)
    else if c == 0x2f && rest.head? == some 0x2a then some (skipBlock 1 rest.tail)
    else none

variable {s t : Text}

theorem stripNoise_succ (n : ℕ) (s : Text) : stripNoise (n + 1) s = (pass s).elim s (stripNoise n) := by
  cases s with
  | nil => rfl
  | cons c rest =>
    rw [stripNoise, pass]
    split
    · rfl
    · split
      · rfl
      · split <;> rfl

theorem not_marksBlock {c d : UInt8} {rest : Text} (hopen : ¬ (c == 0x2f && d == 0x2a) = true)
    (hclose : ¬ (c == 0x2a && d == 0x2f) = true) (h : s <+: d :: rest) : ¬ marksBlock (c :: s) := by
  rintro (hmark | hmark)
  · obtain ⟨rfl, hnext⟩ := List.cons_prefix_cons.mp hmark
    obtain ⟨rfl, -⟩ := List.cons_prefix_cons.mp (hnext.trans h)
    exact hopen rfl
  · obtain ⟨rfl, hnext⟩ := List.cons_prefix_cons.mp hmark
    obtain ⟨rfl, -⟩ := List.cons_prefix_cons.mp (hnext.trans h)
    exact hclose rfl

/-- `skipBlock` takes what stands inside of the open comments up to their end, or everything. -/
def Splits (d : ℕ) (s : Text) : Prop :=
  ∃ body, s = body ++ skipBlock d s ∧ (Inside d body 0 ∨ skipBlock d s = [] ∧ ∃ d', Inside d body (d' + 1))

theorem Splits.extend {d e : ℕ} (h : Splits d s) (front : Text)
    (hfront : ∀ body d', body <+: s → Inside d body d' → Inside e (front ++ body) d')
    (hskip : skipBlock e (front ++ s) = skipBlock d s) : Splits e (front ++ s) := by
  obtain ⟨body, hbody, hinside⟩ := h
  have hbefore : body <+: s := ⟨_, hbody.symm⟩
  refine ⟨front ++ body, ?_, ?_⟩
  · rw [hskip, List.append_assoc, ← hbody]
  · rw [hskip]
    obtain hinside | ⟨hnil, d', hinside⟩ := hinside
    · exact .inl (hfront body 0 hbefore hinside)
    · exact .inr ⟨hnil, d', hfront body _ hbefore hinside⟩

theorem splits (d : ℕ) (s : Text) : Splits d s := by
  induction d, s using closed.induct with
  | case1 s => exact ⟨[], by rw [skipBlock, closed]; rfl, .inl (.nil 0)⟩
  | case2 d => exact ⟨[], rfl, .inr ⟨rfl, d, .nil _⟩⟩
  | case3 d c =>
    have hmark : ¬ marksBlock [c] := by
      rintro (h | h)
      · exact absurd h.length_le (Nat.not_succ_le_self 1)
      · exact absurd h.length_le (Nat.not_succ_le_self 1)
    exact ⟨[c], rfl, .inr ⟨rfl, d, .byte hmark (.nil _)⟩⟩
  | case4 d c e rest h ih =>
    obtain ⟨rfl, rfl⟩ : c = 0x2f ∧ e = 0x2a := by simpa using h
    exact ih.extend [0x2f, 0x2a] (fun _ _ _ h ↦ .opens h) (by simp [skipBlock, closed])
  | case5 d c e rest h h' ih =>
    obtain ⟨rfl, rfl⟩ : c = 0x2a ∧ e = 0x2f := by simpa using h'
    exact ih.extend [0x2a, 0x2f] (fun _ _ _ h ↦ .closes h) (by simp [skipBlock, closed])
  | case6 d c e rest h h' ih =>
    exact ih.extend [c] (fun _ _ hbefore hinside ↦ .byte (not_marksBlock h h' hbefore) hinside)
      (by simp [skipBlock, closed, h, h'])

/-- What a pass takes off a text, and what it leaves. -/
inductive Passes : Text → Text → Prop
  | blank {c : UInt8} {s : Text} : isBlank c = true → Passes (c :: s) s
  | line {body s : Text} : 0x0a ∉ body → Passes (0x2d :: 0x2d :: (body ++ 0x0a :: s)) (0x0a :: s)
  | block {body s : Text} : Inside 1 body 0 → Passes (0x2f :: 0x2a :: (body ++ s)) s
  | unclosed {s : Text} : Unclosed s → Passes s []

theorem skipLine_split (s : Text) : ∃ body, 0x0a ∉ body ∧ s = body ++ skipLine s ∧
    (skipLine s = [] ∨ ∃ rest, skipLine s = 0x0a :: rest) := by
  refine ⟨s.takeWhile (· != 0x0a), ?_, (List.takeWhile_append_dropWhile).symm, ?_⟩
  · intro hmem
    have hne := List.mem_takeWhile_imp hmem
    simp at hne
  · cases h : skipLine s with
    | nil => exact .inl rfl
    | cons c rest =>
      have hc := List.head?_dropWhile_not (· != 0x0a) s
      rw [show s.dropWhile (· != 0x0a) = c :: rest from h] at hc
      obtain rfl : c = 0x0a := by simpa using hc
      exact .inr ⟨rest, rfl⟩

theorem passes_of_pass (h : pass s = some t) : Passes s t := by
  cases s with
  | nil => cases h
  | cons c rest =>
    rw [pass] at h
    split at h
    case isTrue hblank =>
      cases h
      exact .blank hblank
    case isFalse =>
      split at h
      case isTrue hmark =>
        cases h
        cases rest with
        | nil => simp at hmark
        | cons d rest =>
          obtain ⟨rfl, rfl⟩ : c = 0x2d ∧ d = 0x2d := by simpa using hmark
          obtain ⟨body, hbody, hrest, hnil | ⟨t, ht⟩⟩ := skipLine_split rest
          · rw [hnil, List.append_nil] at hrest
            rw [List.tail_cons, hnil, hrest]
            exact .unclosed (.line hbody)
          · rw [List.tail_cons, ht]
            rw [ht] at hrest
            rw [hrest]
            exact .line hbody
      case isFalse =>
        split at h
        case isFalse => cases h
        case isTrue hmark =>
          cases h
          cases rest with
          | nil => simp at hmark
          | cons d rest =>
            obtain ⟨rfl, rfl⟩ : c = 0x2f ∧ d = 0x2a := by simpa using hmark
            obtain ⟨body, hbody, hinside | ⟨hnil, d', hinside⟩⟩ := splits 1 rest
            · rw [List.tail_cons]
              generalize skipBlock 1 rest = t at hbody
              rw [hbody]
              exact .block hinside
            · rw [hnil, List.append_nil] at hbody
              rw [List.tail_cons, hnil, hbody]
              exact .unclosed (.block hinside)

/-- Nothing that a pass would take stands in front. -/
structure Bare (s : Text) : Prop where
  blank : s.head?.any isBlank = false
  line : ¬ [0x2d, 0x2d] <+: s
  block : ¬ [0x2f, 0x2a] <+: s

theorem bare_of_pass (h : pass s = none) : Bare s := by
  cases s with
  | nil => exact ⟨rfl, fun h ↦ (by cases List.prefix_nil.mp h), fun h ↦ (by cases List.prefix_nil.mp h)⟩
  | cons c rest =>
    rw [pass] at h
    split at h
    · cases h
    case isFalse hblank =>
      split at h
      · cases h
      case isFalse hline =>
        split at h
        · cases h
        case isFalse hblock =>
          refine ⟨Bool.eq_false_iff.mpr hblank, ?_, ?_⟩
          · rintro ⟨t, ht⟩
            cases ht
            exact hline rfl
          · rintro ⟨t, ht⟩
            cases ht
            exact hblock rfl

theorem Passes.length_lt (h : Passes s t) : t.length < s.length := by
  cases h with
  | blank => exact Nat.lt_succ_self _
  | line | block =>
    simp only [List.length_cons, List.length_append]
    omega
  | unclosed h => cases h <;> exact Nat.succ_pos _

theorem stripNoise_fuel {n m : ℕ} (hn : s.length ≤ n) (hm : s.length ≤ m) : stripNoise n s = stripNoise m s := by
  have hnil (k : ℕ) : stripNoise k [] = [] := by cases k <;> rfl
  induction n generalizing s m with
  | zero =>
    obtain rfl := List.length_eq_zero_iff.mp (Nat.le_zero.mp hn)
    rw [hnil, hnil]
  | succ n ih =>
    cases m with
    | zero =>
      obtain rfl := List.length_eq_zero_iff.mp (Nat.le_zero.mp hm)
      rw [hnil, hnil]
    | succ m =>
      rw [stripNoise_succ, stripNoise_succ]
      cases hpass : pass s with
      | none => rfl
      | some t =>
        have hlt := (passes_of_pass hpass).length_lt
        exact ih (by omega) (by omega)

theorem stripLeadingNoise_eq (s : Text) : stripLeadingNoise s = (pass s).elim s stripLeadingNoise := by
  rw [stripLeadingNoise, stripNoise_fuel (Nat.le_refl _) (Nat.le_succ _), stripNoise_succ]
  cases hpass : pass s with
  | none => rfl
  | some t =>
    have hlt := (passes_of_pass hpass).length_lt
    exact stripNoise_fuel (Nat.le_of_lt_succ (hlt.trans (Nat.lt_succ_self _))) (Nat.le_refl _)

theorem stripLeadingNoise_of_bare (h : pass s = none) : stripLeadingNoise s = s := by
  rw [stripLeadingNoise_eq, h]
  rfl

/-- `removed` has been taken off in front of `rest`: closed noise, or noise up to a comment that is still open at
the end of the text. -/
def Removes (s rest : Text) : Prop :=
  ∃ removed, s = removed ++ rest ∧
    (Closed removed ∨ rest = [] ∧ ∃ noise comment, removed = noise ++ comment ∧ Closed noise ∧ Unclosed comment)

theorem Removes.extend {rest : Text} (h : Removes s rest) (front : Text)
    (hfront : ∀ noise, Closed noise → Closed (front ++ noise)) : Removes (front ++ s) rest := by
  obtain ⟨removed, rfl, hnoise⟩ := h
  refine ⟨front ++ removed, (List.append_assoc _ _ _).symm, ?_⟩
  obtain hclosed | ⟨hnil, noise, comment, rfl, hclosed, hopen⟩ := hnoise
  · exact .inl (hfront removed hclosed)
  · exact .inr ⟨hnil, front ++ noise, comment, (List.append_assoc _ _ _).symm, hfront noise hclosed, hopen⟩

theorem removes_strip (s : Text) : Removes s (stripLeadingNoise s) ∧ pass (stripLeadingNoise s) = none := by
  induction hlength : s.length using Nat.strong_induction_on generalizing s with
  | _ n ih =>
    subst hlength
    cases hpass : pass s with
    | none =>
      rw [stripLeadingNoise_of_bare hpass]
      exact ⟨⟨[], rfl, .inl .nil⟩, hpass⟩
    | some t =>
      have hstrip : stripLeadingNoise s = stripLeadingNoise t := by
        rw [stripLeadingNoise_eq, hpass]
        rfl
      have hlt := (passes_of_pass hpass).length_lt
      obtain ⟨hremoves, hbare⟩ := ih t.length hlt t rfl
      rw [hstrip]
      refine ⟨?_, hbare⟩
      cases passes_of_pass hpass with
      | @blank c _ hblank => exact hremoves.extend [c] fun _ h ↦ .blank hblank h
      | @line body rest hbody =>
        -- the line feed is the next pass
        have hnext : stripLeadingNoise (0x0a :: rest) = stripLeadingNoise rest := by
          rw [stripLeadingNoise_eq]
          rfl
        have hrest : rest.length < (0x2d :: 0x2d :: (body ++ 0x0a :: rest)).length :=
          Nat.lt_trans (Nat.lt_succ_self _) hlt
        have hextend := (ih rest.length hrest rest rfl).1.extend (0x2d :: 0x2d :: (body ++ [0x0a]))
        rw [hnext]
        have htext : 0x2d :: 0x2d :: (body ++ 0x0a :: rest) = 0x2d :: 0x2d :: (body ++ [0x0a]) ++ rest := by simp
        rw [htext]
        refine hextend fun noise h ↦ ?_
        have hclosed := Closed.line hbody h
        rwa [List.append_cons body] at hclosed
      | @block body rest hinside =>
        refine hremoves.extend (0x2f :: 0x2a :: body) fun _ h ↦ ?_
        exact Closed.block hinside h
      | unclosed hopen => exact ⟨s, (List.append_nil s).symm, .inr ⟨rfl, [], s, rfl, .nil, hopen⟩⟩

theorem strip_suffix (s : Text) : stripLeadingNoise s <:+ s := by
  obtain ⟨⟨removed, hremoved, -⟩, -⟩ := removes_strip s
  exact ⟨removed, hremoved.symm⟩

theorem bare_strip (s : Text) : Bare (stripLeadingNoise s) := bare_of_pass (removes_strip s).2

/-- `stripLeadingNoise` takes off the leading noise and nothing else: blanks and comments, of which only the last
may be open, and then nothing is left. -/
theorem stripLeadingNoise_exact (s : Text) :
    stripLeadingNoise s <:+ s ∧ stripLeadingNoise (stripLeadingNoise s) = stripLeadingNoise s ∧
      Bare (stripLeadingNoise s) ∧ Removes s (stripLeadingNoise s) :=
  ⟨strip_suffix s, stripLeadingNoise_of_bare (removes_strip s).2, bare_strip s, (removes_strip s).1⟩

end PgRouter.Sql.Noise
