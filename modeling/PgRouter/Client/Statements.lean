import PgRouter.Client.Servers

namespace PgRouter.Client.Statements

open Protocol Prepared Servers

structure Definition where
  query : Text
  paramOIDs : List UInt32
  deriving DecidableEq

abbrev Table := Text → Option Definition

/-- The far end of a connection: its prepared statements and portals, and whether it skips what it gets
until the next `Sync`. -/
structure Far where
  statements : Table
  portals : Table
  skipping : Bool

def Far.new : Far := ⟨fun _ ↦ none, fun _ ↦ none, false⟩

/-- What the far end makes of a message: whether it completes it, what it sends about it, which statements
the SQL that it runs for it prepares or deallocates, and how the answer ends. -/
structure Verdict where
  completes : Bool
  rows : List BackendMessage
  changes : List (Text × Option Definition)
  ending : Ending

def extended : FrontendMessage → Bool
  | .parse .. | .bind .. | .describe .. | .execute _ | .close .. => true
  | _ => false

def runsSQL : FrontendMessage → Bool
  | .query _ | .execute _ | .functionCall => true
  | _ => false

def completion : FrontendMessage → List BackendMessage
  | .parse .. => [.parseComplete]
  | .close .. => [.closeComplete]
  | .bind .. => [.other 0x32]
  | _ => []

def plain : BackendMessage → Bool
  | .readyForQuery _ | .copyInResponse | .parseComplete | .closeComplete => false
  | _ => true

def intends (table : Table) : FrontendMessage → Table
  | .parse name sql paramOIDs => Function.update table name (some ⟨sql, paramOIDs⟩)
  | .close objectType name => if objectType = objectStatement then Function.update table name none else table
  | _ => table

def provided (table : Table) (batch : List FrontendMessage) : Table := batch.foldl intends table

namespace Far

variable (far : Far)

/-- A name is parsed once, and what is bound, described or executed is there. -/
def admits : FrontendMessage → Bool
  | .parse name _ _ => name == [] || (far.statements name).isNone
  | .bind _ statement => (far.statements statement).isSome
  | .describe objectType name =>
    if objectType = objectStatement then (far.statements name).isSome else (far.portals name).isSome
  | .execute portal => (far.portals portal).isSome
  | _ => true

def complete (m : FrontendMessage) : Far where
  statements := intends far.statements m
  portals := match m with
    | .bind portal statement => Function.update far.portals portal (far.statements statement)
    | .close objectType name =>
      if objectType = objectStatement then far.portals else Function.update far.portals name none
    | _ => far.portals
  skipping := false

def change (changes : List (Text × Option Definition)) : Far :=
  { far with statements := changes.foldl (fun table c ↦ Function.update table c.1 c.2) far.statements }

def finish (ending : Ending) : Far :=
  match ending with
  | .ready txStatus => if txStatus = txIdle then { far with portals := fun _ ↦ none } else far
  | _ => far

def handle (m : FrontendMessage) (v : Verdict) : Option (Far × List BackendMessage) :=
  if !v.rows.all plain || !(runsSQL m || v.changes.isEmpty) then none
  else if far.skipping && m != .sync then some (far, [])
  else if !v.completes then
    some ({ far.change v.changes with skipping := extended m }.finish v.ending, v.rows ++ v.ending.messages)
  else if far.admits m then
    some (((far.complete m).change v.changes).finish v.ending, completion m ++ v.rows ++ v.ending.messages)
  else none

def handles : Far → List FrontendMessage → List Verdict → Option (Far × List (List BackendMessage))
  | far, [], [] => some (far, [])
  | far, m :: ms, v :: vs =>
    (far.handle m v).bind fun q ↦ (handles q.1 ms vs).map fun rest ↦ (rest.1, q.2 :: rest.2)
  | _, _, _ => none

def completes (m : FrontendMessage) (v : Verdict) : Bool := v.completes && !(far.skipping && m != .sync)

/-- A condition on each message of a batch, in the state in which the far end gets to it. -/
def throughout (test : Far → FrontendMessage → Verdict → Bool) :
    Far → List FrontendMessage → List Verdict → Bool
  | far, m :: ms, v :: vs =>
    test far m v && (far.handle m v).all fun q ↦ throughout test q.1 ms vs
  | _, _, _ => true

end Far

variable {far : Far} {m : FrontendMessage} {v : Verdict} {name : Text}

theorem finish_statements (ending : Ending) (far : Far) : (far.finish ending).statements = far.statements := by
  unfold Far.finish
  split
  · split <;> rfl
  · rfl

theorem change_statements {changes : List (Text × Option Definition)} (h : ∀ c ∈ changes, c.1 ≠ name) (far : Far) :
    (far.change changes).statements name = far.statements name := by
  change changes.foldl (fun table c ↦ Function.update table c.1 c.2) far.statements name = far.statements name
  generalize far.statements = table
  induction changes generalizing table with
  | nil => rfl
  | cons c changes ih =>
    rw [List.foldl_cons, ih fun d hd ↦ h d (List.mem_cons_of_mem c hd)]
    exact Function.update_of_ne (h c List.mem_cons_self).symm _ _

inductive Handled (far : Far) (m : FrontendMessage) (v : Verdict) : Far × List BackendMessage → Prop
  | skips (hskip : (far.skipping && m != .sync) = true) : Handled far m v (far, [])
  | fails (hskip : (far.skipping && m != .sync) = false) (hfails : v.completes = false) :
      Handled far m v
        ({ far.change v.changes with skipping := extended m }.finish v.ending, v.rows ++ v.ending.messages)
  | completes (hskip : (far.skipping && m != .sync) = false) (hdone : v.completes = true)
      (hadmits : far.admits m = true) :
      Handled far m v
        (((far.complete m).change v.changes).finish v.ending, completion m ++ v.rows ++ v.ending.messages)

variable {q : Far × List BackendMessage}

theorem handled_of_handle (h : far.handle m v = some q) :
    v.rows.all plain = true ∧ Handled far m v q := by
  unfold Far.handle at h
  split at h
  · cases h
  · rename_i hform
    rw [Bool.or_eq_true, not_or] at hform
    refine ⟨by simpa using hform.1, ?_⟩
    split at h
    · cases h
      exact .skips ‹_›
    · rename_i hskip
      rw [Bool.not_eq_true] at hskip
      split at h
      · cases h
        exact .fails hskip (by simpa using ‹(!v.completes) = true›)
      · split at h
        · cases h
          exact .completes hskip (by simpa using ‹¬(!v.completes) = true›) ‹_›
        · cases h

def storesAs : FrontendMessage → Option Text
  | .parse name _ _ => some name
  | _ => none

variable {d : Definition}

theorem intends_of_not_stored (h : storesAs m ≠ some name) (table : Table)
    (hd : intends table m name = some d) : table name = some d := by
  unfold intends at hd
  split at hd
  · rwa [Function.update_of_ne fun heq ↦ h (congrArg some heq.symm)] at hd
  · split at hd
    · by_cases hn : name = ‹Text›
      · rw [hn, Function.update_self] at hd
        cases hd
      · rwa [Function.update_of_ne hn] at hd
    · exact hd
  · exact hd

theorem intends_mono {table table' : Table} (h : ∀ d, table name = some d → table' name = some d)
    (hd : intends table m name = some d) : intends table' m name = some d := by
  unfold intends at hd ⊢
  split at hd
  · rw [Function.update_apply] at hd ⊢
    split at hd
    · rwa [if_pos ‹_›]
    · rw [if_neg ‹_›]
      exact h d hd
  · split at hd
    · rw [if_pos ‹_›, Function.update_apply] at *
      split at hd
      · cases hd
      · rw [if_neg ‹_›]
        exact h d hd
    · rw [if_neg ‹_›]
      exact h d hd
  · exact h d hd

theorem statements_handle (h : far.handle m v = some q)
    (hparse : storesAs m = some name → far.completes m v = true) (hchanges : ∀ c ∈ v.changes, c.1 ≠ name)
    {table : Table} (htable : ∀ d, table name = some d → far.statements name = some d)
    (hd : intends table m name = some d) : q.1.statements name = some d := by
  have hkept (hm : far.completes m v = false) : far.statements name = some d := by
    refine htable d (intends_of_not_stored (fun hstores ↦ ?_) table hd)
    rw [hparse hstores] at hm
    cases hm
  cases (handled_of_handle h).2 with
  | skips hskip => exact hkept (by simp [Far.completes, hskip])
  | fails hskip hfails =>
    rw [finish_statements]
    exact (change_statements hchanges _).trans (hkept (by simp [Far.completes, hfails]))
  | completes hskip hdone hadmits =>
    rw [finish_statements, change_statements hchanges]
    exact intends_mono htable hd

/-- The statements that are in a cache are not lost in a batch: their `Parse` is completed and SQL does not
touch them. -/
def spares (cached : Text → Bool) (far : Far) (m : FrontendMessage) (v : Verdict) : Bool :=
  ((storesAs m).all fun name ↦ !cached name || far.completes m v) && v.changes.all fun c ↦ !cached c.1

theorem statements_handles {cached : Text → Bool} {batch : List FrontendMessage} {vs : List Verdict}
    {q : Far × List (List BackendMessage)} (h : far.handles batch vs = some q)
    (hspares : far.throughout (spares cached) batch vs = true) (hname : cached name = true) {table : Table}
    (htable : ∀ d, table name = some d → far.statements name = some d)
    (hd : provided table batch name = some d) : q.1.statements name = some d := by
  induction batch generalizing far vs q table with
  | nil =>
    cases vs with
    | nil =>
      cases h
      exact htable d hd
    | cons v vs => cases h
  | cons m batch ih =>
    cases vs with
    | nil => cases h
    | cons v vs =>
      obtain ⟨p, hp, h⟩ := Option.bind_eq_some_iff.mp h
      obtain ⟨rest, hrest, rfl⟩ := Option.map_eq_some_iff.mp h
      simp only [Far.throughout, hp, Option.all_some, Bool.and_eq_true] at hspares
      obtain ⟨hfirst, hlater⟩ := hspares
      rw [spares, Bool.and_eq_true] at hfirst
      change rest.1.statements name = some d
      refine ih hrest hlater (fun d hd ↦ statements_handle hp (fun hstores ↦ ?_) (fun c hc hcn ↦ ?_) htable hd) hd
      · simpa [hstores, hname] using hfirst.1
      · have hspared := List.all_eq_true.mp hfirst.2 c hc
        rw [hcn, hname] at hspared
        cases hspared

end PgRouter.Client.Statements
