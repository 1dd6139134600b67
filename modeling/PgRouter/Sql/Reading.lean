import PgRouter.Sql.Matching

namespace PgRouter.Sql.Reading

open Client.Protocol Regexp Pattern Matching

/-- The pattern reads a text that stands behind the byte `l` and before `rest`. Which of the matches the engine
prefers is left out. -/
inductive Reads : Pattern → Option UInt8 → Text → Text → Prop
  | empty {l rest} : Reads .empty l [] rest
  | byte {p x l rest} (h : p x = true) : Reads (.byte p) l [x] rest
  | seq {a b l u v rest} (ha : Reads a l u (v ++ rest)) (hb : Reads b (past l u) v rest) :
      Reads (.seq a b) l (u ++ v) rest
  | left {a b l u rest} (h : Reads a l u rest) : Reads (.alt a b) l u rest
  | right {a b l u rest} (h : Reads b l u rest) : Reads (.alt a b) l u rest
  | done {greedy a l rest} : Reads (.star greedy a) l [] rest
  | more {greedy a l u v rest} (ha : Reads a l u (v ++ rest)) (h : Reads (.star greedy a) (past l u) v rest) :
      Reads (.star greedy a) l (u ++ v) rest
  | group {n a l u rest} (h : Reads a l u rest) : Reads (.group n a) l u rest
  | textStart {rest} : Reads .textStart none [] rest
  | textEnd {l} : Reads .textEnd l [] []
  | wordBoundary {l rest} (h : (l.any isWord != rest.head?.any isWord) = true) : Reads .wordBoundary l [] rest

section Engine

variable {c c' r : Cursor} {k : Continue}

def Leads (a : Pattern) (c c' : Cursor) : Prop :=
  ∃ u, c.rest = u ++ c'.rest ∧ c'.last = past c.last u ∧ Reads a c.last u c'.rest

variable {a b p : Pattern}

theorem Leads.trans {c₁ : Cursor} (h : Leads a c c₁) (h' : Leads b c₁ c')
    (hp : ∀ {l u v rest}, Reads a l u (v ++ rest) → Reads b (past l u) v rest → Reads p l (u ++ v) rest) :
    Leads p c c' := by
  obtain ⟨u, hrest, hlast, hreads⟩ := h
  obtain ⟨v, hrest', hlast', hreads'⟩ := h'
  rw [hrest'] at hreads
  rw [hlast] at hreads'
  refine ⟨u ++ v, ?_, ?_, hp hreads hreads'⟩
  · rw [hrest, hrest', List.append_assoc]
  · rw [hlast', hlast, past_append]

theorem leads_iterate {greedy : Bool}
    (ha : ∀ {c : Cursor} {k : Continue} {r : Cursor}, a.run c k = some r → ∃ c', Leads a c c' ∧ k c' = some r)
    {n : ℕ} (h : iterate a.run greedy n c k = some r) : ∃ c', Leads (.star greedy a) c c' ∧ k c' = some r := by
  induction n generalizing c with
  | zero => exact ⟨c, ⟨[], rfl, rfl, .done⟩, h⟩
  | succ n ih =>
    rw [iterate] at h
    have hcases : (a.run c fun c' ↦ if c'.rest.length < c.rest.length then iterate a.run greedy n c' k else none) =
        some r ∨ k c = some r := by
      cases greedy with
      | true =>
        obtain h | h := Option.or_eq_some_iff.mp h
        · exact .inl h
        · exact .inr h.2
      | false =>
        obtain h | h := Option.or_eq_some_iff.mp h
        · exact .inr h
        · exact .inl h.2
    obtain hmore | hdone := hcases
    · obtain ⟨c₁, hleads, hk⟩ := ha hmore
      rw [Option.ite_none_right_eq_some] at hk
      obtain ⟨c₂, hleads', hk'⟩ := ih hk.2
      exact ⟨c₂, hleads.trans hleads' .more, hk'⟩
    · exact ⟨c, ⟨[], rfl, rfl, .done⟩, hdone⟩

theorem leads_of_run (h : a.run c k = some r) : ∃ c', Leads a c c' ∧ k c' = some r := by
  induction a generalizing c k r with
  | empty => exact ⟨c, ⟨[], rfl, rfl, .empty⟩, h⟩
  | byte p =>
    obtain ⟨last, text, groups⟩ := c
    cases text with
    | nil => cases h
    | cons x text =>
      rw [run_byte_cons, Option.ite_none_right_eq_some] at h
      exact ⟨⟨some x, text, groups⟩, ⟨[x], rfl, rfl, .byte h.1⟩, h.2⟩
  | seq a b iha ihb =>
    obtain ⟨c₁, hleads, hk⟩ := iha h
    obtain ⟨c₂, hleads', hk'⟩ := ihb hk
    exact ⟨c₂, hleads.trans hleads' .seq, hk'⟩
  | alt a b iha ihb =>
    obtain h | h := Option.or_eq_some_iff.mp h
    · obtain ⟨c', ⟨u, hrest, hlast, hreads⟩, hk⟩ := iha h
      exact ⟨c', ⟨u, hrest, hlast, .left hreads⟩, hk⟩
    · obtain ⟨c', ⟨u, hrest, hlast, hreads⟩, hk⟩ := ihb h.2
      exact ⟨c', ⟨u, hrest, hlast, .right hreads⟩, hk⟩
  | star greedy a iha => exact leads_iterate iha h
  | group n a iha =>
    obtain ⟨c', ⟨u, hrest, hlast, hreads⟩, hk⟩ := iha h
    refine ⟨_, ?_, hk⟩
    exact ⟨u, hrest, hlast, .group hreads⟩
  | textStart =>
    obtain ⟨last, text, groups⟩ := c
    rw [Pattern.run, Option.ite_none_right_eq_some] at h
    obtain rfl : last = none := Option.isNone_iff_eq_none.mp h.1
    exact ⟨_, ⟨[], rfl, rfl, .textStart⟩, h.2⟩
  | textEnd =>
    obtain ⟨last, text, groups⟩ := c
    rw [Pattern.run, Option.ite_none_right_eq_some] at h
    obtain rfl : text = [] := List.isEmpty_iff.mp h.1
    exact ⟨_, ⟨[], rfl, rfl, .textEnd⟩, h.2⟩
  | wordBoundary =>
    rw [Pattern.run, Option.ite_none_right_eq_some] at h
    exact ⟨c, ⟨[], rfl, rfl, .wordBoundary h.1⟩, h.2⟩

theorem reads_of_run {l : Option UInt8} {text : Text} (h : (a.run ⟨l, text, []⟩ some).isSome = true) :
    ∃ u rest, text = u ++ rest ∧ Reads a l u rest := by
  obtain ⟨r, hr⟩ := Option.isSome_iff_exists.mp h
  obtain ⟨c', ⟨u, hrest, -, hreads⟩, -⟩ := leads_of_run hr
  exact ⟨u, c'.rest, hrest, hreads⟩

theorem reads_of_matchString {text : Text} (h : a.matchString text = true) :
    ∃ u rest, text = u ++ rest ∧ Reads a none u rest := reads_of_run h

end Engine

section Shapes

variable {a : Pattern} {as as' : List Pattern} {l : Option UInt8} {u rest : Text} {p : UInt8 → Bool}

theorem reads_all_cons (h : Reads (all (a :: as)) l u rest) :
    ∃ v w, u = v ++ w ∧ Reads a l v (w ++ rest) ∧ Reads (all as) (past l v) w rest := by
  cases h with
  | seq ha hb => exact ⟨_, _, rfl, ha, hb⟩

theorem reads_all_nil (h : Reads (all []) l u rest) : u = [] := by
  cases h
  rfl

theorem reads_all_append (h : Reads (all (as ++ as')) l u rest) :
    ∃ v w, u = v ++ w ∧ Reads (all as) l v (w ++ rest) ∧ Reads (all as') (past l v) w rest := by
  induction as generalizing l u with
  | nil => exact ⟨[], u, rfl, .empty, h⟩
  | cons a as ih =>
    obtain ⟨v, w, rfl, ha, hw⟩ := reads_all_cons h
    obtain ⟨v', w, rfl, hv', hw⟩ := ih hw
    rw [List.append_assoc] at ha
    refine ⟨v ++ v', w, (List.append_assoc _ _ _).symm, .seq ha hv', ?_⟩
    rw [past_append]
    exact hw

theorem reads_byte (h : Reads (byte p) l u rest) : ∃ x, u = [x] ∧ p x = true := by
  cases h with
  | byte h => exact ⟨_, rfl, h⟩

theorem reads_many (h : Reads (many (byte p)) l u rest) : u.all p = true := by
  generalize ha : many (byte p) = b at h
  induction h with
  | done => rfl
  | more hx htail _ ih =>
    cases ha
    obtain ⟨x, rfl, hp⟩ := reads_byte hx
    rw [List.singleton_append, List.all_cons, hp, ih rfl]
    rfl
  | _ => cases ha

theorem reads_plus (h : Reads (plus (byte p)) l u rest) : ∃ x v, u = x :: v ∧ p x = true := by
  cases h with
  | seq hx hv =>
    obtain ⟨x, rfl, hp⟩ := reads_byte hx
    exact ⟨x, _, rfl, hp⟩

variable {c : UInt8}

theorem reads_lit (h : Reads (lit c) l u rest) : u = [c] := by
  obtain ⟨x, rfl, hx⟩ := reads_byte h
  rw [beq_iff_eq.mp hx]

theorem reads_longS (h : Reads longS l u rest) : u = [0xc5, 0xbf] := by
  obtain ⟨v, w, rfl, hv, hw⟩ := reads_all_cons h
  obtain ⟨w, t, rfl, hw, ht⟩ := reads_all_cons hw
  rw [reads_lit hv, reads_lit hw, reads_all_nil ht]
  rfl

theorem reads_wordBoundary {w : Text} (hne : u ≠ []) (hu : ∀ c ∈ u, isWord c = true)
    (h : Reads .wordBoundary (past l u) w rest) : w = [] ∧ rest.head?.any isWord = false := by
  cases h with
  | wordBoundary h =>
    rw [isWord_past hne hu] at h
    exact ⟨rfl, by simpa using h⟩

def plain (c : UInt8) : Bool := lowerByte c != 0x73 && lowerByte c != 0x6b

theorem reads_plain (hc : plain c = true) (h : Reads (letter c) l u rest) :
    ∃ x, u = [x] ∧ lowerByte x = lowerByte c := by
  simp only [plain, Bool.and_eq_true, bne_iff_ne] at hc
  unfold letter at h
  simp only [beq_eq_false_iff_ne.mpr hc.1, beq_eq_false_iff_ne.mpr hc.2, Bool.false_eq_true, if_false] at h
  obtain ⟨x, rfl, hx⟩ := reads_byte h
  exact ⟨x, rfl, beq_iff_eq.mp hx⟩

theorem reads_plains {cs : Text} (hcs : cs.all plain = true) (h : Reads (all (cs.map letter)) l u rest) :
    u.map lowerByte = cs.map lowerByte := by
  induction cs generalizing l u with
  | nil => rw [reads_all_nil h]
  | cons c cs ih =>
    rw [List.all_cons, Bool.and_eq_true] at hcs
    obtain ⟨v, w, rfl, hv, hw⟩ := reads_all_cons h
    obtain ⟨x, rfl, hx⟩ := reads_plain hcs.1 hv
    rw [List.singleton_append, List.map_cons, List.map_cons, hx, ih hcs.2 hw]

theorem reads_letter (hc : lowerByte c ≠ 0x6b) (h : Reads (letter c) l u rest) :
    u = [0xc5, 0xbf] ∨ ∃ x, u = [x] ∧ lowerByte x = lowerByte c := by
  by_cases hs : lowerByte c = 0x73
  · unfold letter at h
    simp only [hs, beq_self_eq_true, if_true] at h
    cases h with
    | left h =>
      obtain ⟨x, rfl, hx⟩ := reads_byte h
      exact .inr ⟨x, rfl, (beq_iff_eq.mp hx).trans hs.symm⟩
    | right h => exact .inl (reads_longS h)
  · exact .inr (reads_plain (by simp [plain, hs, hc]) h)

theorem reads_s {cs : Text} (hc : lowerByte c = 0x73) (hcs : cs.all plain = true)
    (h : Reads (all ((c :: cs).map letter)) l u rest) :
    [0xc5, 0xbf] <+: u ∨ u.map lowerByte = (c :: cs).map lowerByte := by
  obtain ⟨v, w, rfl, hv, hw⟩ := reads_all_cons h
  obtain rfl | ⟨x, rfl, hx⟩ := reads_letter (by rw [hc]; decide) hv
  · exact .inl (List.prefix_append _ _)
  · rw [List.singleton_append, List.map_cons, List.map_cons, hx, reads_plains hcs hw]
    exact .inr rfl

/-- A word that is read without a long `s` is the word in other cases of its letters. -/
theorem reads_letters {cs : Text} (hcs : cs.all (lowerByte · != 0x6b) = true) (hlong : ¬[0xc5, 0xbf] <:+: u)
    (h : Reads (all (cs.map letter)) l u rest) : u.map lowerByte = cs.map lowerByte := by
  induction cs generalizing l u with
  | nil => rw [reads_all_nil h]
  | cons c cs ih =>
    rw [List.all_cons, Bool.and_eq_true, bne_iff_ne] at hcs
    obtain ⟨v, w, rfl, hv, hw⟩ := reads_all_cons h
    obtain rfl | ⟨x, rfl, hx⟩ := reads_letter hcs.1 hv
    · exact absurd (List.prefix_append _ w).isInfix hlong
    · have hrest : ¬[0xc5, 0xbf] <:+: w := fun hwithin ↦ hlong (hwithin.trans (List.suffix_append _ w).isInfix)
      rw [List.singleton_append, List.map_cons, List.map_cons, hx, ih hcs.2 hrest hw]

end Shapes

end PgRouter.Sql.Reading
