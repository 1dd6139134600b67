import PgRouter.Client.Handler
import PgRouter.Sql.Lexing
import PgRouter.Sql.Regexp

namespace PgRouter.Sql.Settings

open Client.Protocol Client.Handler Lexing Regexp

section Patterns

open Pattern

def setRe : Pattern :=
  all [textStart, many space, word "SET", plus space,
    opt (group 1 (alt (seq (word "LOCAL") (plus space)) (seq (word "SESSION") (plus space)))),
    group 2 identifier, many space, alt (lit 0x3d) (all [wordBoundary, word "TO", wordBoundary]), many space,
    group 3 (seq (byte (· != 0x0a)) (star false (byte (· != 0x0a)))),
    many space, opt (lit 0x3b), many space, textEnd]

def resetRe : Pattern :=
  all [textStart, many space, word "RESET", plus space, group 1 (alt identifier (word "ALL")), many space,
    opt (lit 0x3b), many space, textEnd]

def discardRe : Pattern :=
  all [textStart, many space, word "DISCARD", plus space, word "ALL", many space, opt (lit 0x3b), many space,
    textEnd]

end Patterns

def defaultReplayable : List String :=
  ["search_path", "application_name", "timezone", "datestyle", "intervalstyle", "extra_float_digits",
    "statement_timeout", "lock_timeout", "idle_in_transaction_session_timeout", "client_encoding",
    "client_min_messages", "default_transaction_isolation", "default_transaction_read_only",
    "default_transaction_deferrable", "transaction_isolation", "transaction_read_only",
    "transaction_deferrable", "row_security"]

def replayable (name : Text) : Bool := defaultReplayable.any fun s ↦ ascii s == name

/-- `GUCCache` with the default whitelist. No name occurs twice among `vars`. -/
structure GUCCache where
  vars : List (Text × Text) := []
  unrecognized : Bool := false
  deriving DecidableEq

inductive GUCOp
  | discardAll
  | resetAll
  | reset (name : Text)
  | setLocal
  | set (name val : Text)
  | none
  deriving DecidableEq

def gucOp (sql : Text) : GUCOp :=
  if discardRe.matchString sql then .discardAll
  else match resetRe.find sql with
    | some m =>
      let name := toLower (m.submatch 1)
      if name == ascii "all" then .resetAll else .reset name
    | Option.none => match setRe.find sql with
      | some m =>
        if toUpper (trimSpace (m.submatch 1)) == ascii "LOCAL" then .setLocal
        else .set (toLower (m.submatch 2)) (trimSpace (m.submatch 3))
      | Option.none => .none

def maybeNeedsGUC (sql : Text) : Option Bool :=
  (firstKeyword (stripLeadingNoise sql)).map fun kw ↦
    kw == ascii "DISCARD" || kw == ascii "RESET" || kw == ascii "SET"

namespace GUCCache

def delete (c : GUCCache) (name : Text) : GUCCache := { c with vars := c.vars.filter (·.1 != name) }

def store (c : GUCCache) (name val : Text) : GUCCache :=
  { c with vars := (c.delete name).vars ++ [(name, val)] }

def apply (c : GUCCache) : GUCOp → GUCCache
  | .discardAll | .resetAll => {}
  | .reset name => c.delete name
  | .setLocal | .none => c
  | .set name val => if replayable name then c.store name val else { c with unrecognized := true }

def applyGUC (c : GUCCache) (sql : Text) : GUCCache := c.apply (gucOp sql)

def observeQueryWithInfo (c : GUCCache) (sql : Text) (info : SQLInfo) : GUCCache :=
  if info.needsGUC then c.applyGUC sql else c

def observeQuery (c : GUCCache) (sql : Text) : Option GUCCache :=
  (maybeNeedsGUC sql).map fun needs ↦ if needs then c.applyGUC sql else c

def lookup (c : GUCCache) (name : Text) : Option Text := (c.vars.find? (·.1 == name)).map Prod.snd

def Same (c c' : GUCCache) : Prop := (∀ name, c'.lookup name = c.lookup name) ∧ c'.unrecognized = c.unrecognized

/-- The operation has something to change in the cache. -/
def modifies (c : GUCCache) : GUCOp → Bool
  | .discardAll | .resetAll => !c.vars.isEmpty || c.unrecognized
  | .reset name => (c.lookup name).isSome
  | .setLocal | .none => false
  | .set name val => if replayable name then c.lookup name != some val else !c.unrecognized

theorem lookup_delete (c : GUCCache) (name other : Text) :
    (c.delete name).lookup other = if other = name then none else c.lookup other := by
  rw [lookup, delete, List.find?_filter]
  split
  · subst other
    rw [List.find?_eq_none.mpr (by simp), Option.map_none]
  · rename_i hne
    have hsame : (fun v : Text × Text ↦ decide ((v.1 != name) = true ∧ (v.1 == other) = true)) =
        fun v ↦ v.1 == other := by
      funext v
      by_cases hv : v.1 = other <;> simp [hv, hne]
    rw [hsame, lookup]

theorem lookup_store (c : GUCCache) (name val other : Text) :
    (c.store name val).lookup other = if other = name then some val else c.lookup other := by
  have hdelete := c.lookup_delete name other
  rw [lookup] at hdelete
  rw [lookup, store, List.find?_append, Option.map_or, hdelete]
  split
  · subst other
    simp
  · rename_i hne
    have hnone : List.find? (fun v : Text × Text ↦ v.1 == other) [(name, val)] = none := by
      simp [Ne.symm hne]
    rw [hnone, Option.map_none, Option.or_none]

variable {c : GUCCache}

theorem lookup_eq_none : (∀ name, c.lookup name = none) ↔ c.vars = [] := by
  constructor
  · intro h
    rcases hvars : c.vars with - | ⟨v, vars⟩
    · rfl
    · have hv := h v.1
      simp [lookup, hvars] at hv
  · intro h name
    simp [lookup, h]

theorem same_cleared (c : GUCCache) : c.Same {} ↔ (!c.vars.isEmpty || c.unrecognized) = false := by
  have hnone : (∀ name, ({} : GUCCache).lookup name = c.lookup name) ↔ c.vars = [] := by
    rw [← lookup_eq_none]
    exact forall_congr' fun name ↦ eq_comm
  rw [Same, hnone, Bool.or_eq_false_iff, Bool.not_eq_false', List.isEmpty_iff]
  exact and_congr_right fun _ ↦ eq_comm

theorem same_apply (c : GUCCache) (op : GUCOp) : c.Same (c.apply op) ↔ c.modifies op = false := by
  cases op with
  | discardAll | resetAll => exact c.same_cleared
  | setLocal | none => simp [Same, apply, modifies]
  | reset name =>
    have hflag : (c.delete name).unrecognized = c.unrecognized := rfl
    simp only [Same, apply, modifies, hflag, lookup_delete, and_true, Option.isSome_eq_false_iff,
      Option.isNone_iff_eq_none]
    constructor
    · intro h
      simpa using (h name).symm
    · intro h other
      split
      · subst other
        exact h.symm
      · rfl
  | set name val =>
    simp only [apply, modifies]
    split
    · have hflag : (c.store name val).unrecognized = c.unrecognized := rfl
      simp only [Same, hflag, lookup_store, and_true, bne_eq_false_iff_eq]
      constructor
      · intro h
        simpa using (h name).symm
      · intro h other
        split
        · subst other
          exact h.symm
        · rfl
    · have hvars (other : Text) : ({ c with unrecognized := true } : GUCCache).lookup other =
          c.lookup other := rfl
      cases h : c.unrecognized <;> simp [Same, hvars, h]

/-- Only whitelisted names are noted, each with one value. -/
structure Tidy (c : GUCCache) : Prop where
  names : ∀ v ∈ c.vars, replayable v.1 = true
  distinct : (c.vars.map Prod.fst).Nodup

theorem tidy_delete (hc : c.Tidy) (name : Text) : (c.delete name).Tidy where
  names v hv := hc.names v (List.mem_of_mem_filter hv)
  distinct := hc.distinct.sublist (List.filter_sublist.map Prod.fst)

theorem tidy_store (hc : c.Tidy) {name : Text} (hname : replayable name = true) (val : Text) :
    (c.store name val).Tidy := by
  have hdelete := tidy_delete hc name
  refine ⟨fun v hv ↦ ?_, ?_⟩
  · rcases List.mem_append.mp hv with hv | hv
    · exact hdelete.names v hv
    · rw [List.mem_singleton.mp hv]
      exact hname
  · rw [store, List.map_append, List.nodup_append]
    refine ⟨hdelete.distinct, by simp, ?_⟩
    intro a ha b hb hab
    obtain ⟨v, hv, rfl⟩ := List.mem_map.mp ha
    have hne := List.of_mem_filter hv
    rw [hab, List.mem_singleton.mp hb] at hne
    simp at hne

theorem tidy_apply (hc : c.Tidy) (op : GUCOp) : (c.apply op).Tidy := by
  cases op with
  | discardAll | resetAll => exact ⟨fun v hv ↦ (List.not_mem_nil hv).elim, List.nodup_nil⟩
  | reset name => exact tidy_delete hc name
  | setLocal | none => exact hc
  | set name val =>
    simp only [apply]
    split
    · exact tidy_store hc ‹_› val
    · exact ⟨hc.names, hc.distinct⟩

def setting (v : Text × Text) : Text := ascii "SET " ++ v.1 ++ ascii "=" ++ v.2 ++ ascii ";"

def join : List Text → Text
  | [] => []
  | [t] => t
  | t :: rest => t ++ ascii " " ++ join rest

/-- `ReplayQuery`, if the map yields its entries in this order. -/
def replayText (vars : List (Text × Text)) : Text := join (vars.map setting)

end GUCCache

end PgRouter.Sql.Settings
