import PgRouter.Library.Runs
import PgRouter.Sql.Sessions
import PgRouter.Sql.Tokens

namespace PgRouter.Sql.Replaying

open Client.Protocol Client.Handler Library.Runs Tokens Settings Settings.GUCCache Sessions

variable {V : Type}

section Replays

/-- The statement of the value ends at the semicolon behind it and not before: the value holds none of its own, and
leaves no string and no comment open. -/
def Whole (val : Text) : Prop :=
  ∃ ts, wellLexed none (ts ++ [.other 0x3b]) = true ∧ render ts = val ∧ .other 0x3b ∉ ts

/-- PostgreSQL takes the statements of a replay one by one if their values are valid and each of them is whole. -/
def Separates (pg : Postgres V) : Prop :=
  ∀ name val, Whole val → (pg.assigned name val).isSome = true → pg.whole val = true

variable (pg : Postgres V)

/-- `SHOW` in a fresh session after a replay, if the map yields its entries in this order. -/
def restored (fails : Bool) (vars : List (Text × Text)) (name : Text) : V :=
  shown (execute pg fails (pg.reads (replayText vars)) (fresh pg)).1 name

/-- All orders of a replay give every setting the same value, and every recorded variable its own. -/
def Restores (fails : Bool) (c : GUCCache) : Prop :=
  ∀ vars, vars.Perm c.vars →
    (∀ vars', vars'.Perm c.vars → ∀ name, restored pg fails vars' name = restored pg fails vars name) ∧
      ∀ v ∈ c.vars, pg.assigned v.1 v.2 = some (restored pg fails vars v.1)

/-- The value is valid, and if its variable belongs to the transaction, it is the one that a transaction begins
with after the replay. -/
def Lasts (vars : List (Text × Text)) (v : Text × Text) : Prop :=
  ∃ x, pg.assigned v.1 v.2 = some x ∧ (transient v.1 = true → x = settled pg vars pg.default (source v.1))

variable {pg} {vars : List (Text × Text)}

theorem not_transient_source (name : Text) : transient (source name) = false := by
  unfold source
  split
  · next h =>
    have hall : (["transaction_isolation", "transaction_read_only", "transaction_deferrable"].all fun n ↦
        !transient (ascii "default_" ++ ascii n)) = true := by decide
    obtain ⟨n, hn, heq⟩ := List.any_eq_true.mp h
    obtain rfl : ascii n = name := by simpa using heq
    simpa using List.all_eq_true.mp hall n hn
  · next h => exact Bool.eq_false_iff.mpr h

theorem restored_valid (fails : Bool) (hwhole : ∀ v ∈ vars, replayable v.1 = true ∧ pg.whole v.2 = true)
    (hdistinct : (vars.map Prod.fst).Nodup) (hvalid : ∀ v ∈ vars, (pg.assigned v.1 v.2).isSome = true) (name : Text) :
    restored pg fails vars name = settled pg vars pg.default (source name) := by
  obtain ⟨s, hall, hidle, hvalues⟩ : ∃ s, performAll pg fails (vars.map fun v ↦ .set false v.1 v.2) (fresh pg) =
      (s, true) ∧ s.block = none ∧
      ∀ name, transient name = false → s.values name = settled pg vars pg.default name :=
    performAll_sets fails hvalid hdistinct rfl fun _ _ ↦ rfl
  have hexecute : execute pg fails (pg.reads (replayText vars)) (fresh pg) = (s, true) := by
    rw [pg.reads_replay vars hwhole, execute, hall]
    rfl
  rw [restored, hexecute, shown, hidle]
  exact hvalues (source name) (not_transient_source name)

theorem settled_of_mem (hdistinct : (vars.map Prod.fst).Nodup) {v : Text × Text} (hv : v ∈ vars) {x : V}
    (hx : pg.assigned v.1 v.2 = some x) : settled pg vars pg.default v.1 = x := by
  induction vars with
  | nil => cases hv
  | cons w vars ih =>
    rw [List.map_cons, List.nodup_cons] at hdistinct
    rw [settled_cons]
    rcases List.mem_cons.mp hv with rfl | hv
    · rw [if_pos rfl, hx, Option.getD_some]
    · have hne : w.1 ≠ v.1 := by
        intro heq
        rw [heq] at hdistinct
        exact hdistinct.1 (List.mem_map_of_mem hv)
      rw [if_neg hne, ih hdistinct.2 hv]

end Replays

section Orders

inductive Observation
  | query (sql : Text)
  | queryWithInfo (sql : Text) (info : SQLInfo)

def observe (c : GUCCache) : Observation → Option GUCCache
  | .query sql => c.observeQuery sql
  | .queryWithInfo sql info => some (c.observeQueryWithInfo sql info)

theorem tidy_observe {c c' : GUCCache} {e : Observation} (hc : c.Tidy) (h : observe c e = some c') : c'.Tidy := by
  have happly (needs : Bool) (sql : Text) : (if needs then c.applyGUC sql else c).Tidy := by
    cases needs with
    | false => exact hc
    | true => exact tidy_apply hc (gucOp sql)
  cases e with
  | query sql =>
    obtain ⟨needs, -, rfl⟩ := Option.map_eq_some_iff.mp h
    exact happly needs sql
  | queryWithInfo sql info =>
    cases h
    exact happly info.needsGUC sql

theorem tidy_run {es : List Observation} {c : GUCCache} (h : Run observe anyStep {} es c) : c.Tidy := by
  apply h.invariant
  · intro s e t hs _ he
    exact tidy_observe hs he
  · exact ⟨fun v hv ↦ (List.not_mem_nil hv).elim, List.nodup_nil⟩

/-- As long as every recorded value is whole, a replay restores the settings in any order exactly if each of the
values lasts. -/
theorem replay_restores_iff {pg : Postgres V} (hpg : Separates pg) (fails : Bool) {es : List Observation}
    {c : GUCCache} (hrun : Run observe anyStep {} es c) (hwhole : ∀ v ∈ c.vars, Whole v.2) :
    Restores pg fails c ↔ ∀ v ∈ c.vars, Lasts pg c.vars v := by
  have htidy := tidy_run hrun
  -- with valid values alone, what a replay gives does not depend on the order
  have hsettled (hvalid : ∀ v ∈ c.vars, (pg.assigned v.1 v.2).isSome = true) (vars : List (Text × Text))
      (hperm : vars.Perm c.vars) (name : Text) :
      restored pg fails vars name = settled pg c.vars pg.default (source name) := by
    have hdistinct := htidy.distinct.perm (hperm.map Prod.fst).symm
    have hread (v : Text × Text) (hv : v ∈ vars) : replayable v.1 = true ∧ pg.whole v.2 = true :=
      have hmem := hperm.subset hv
      ⟨htidy.names v hmem, hpg v.1 v.2 (hwhole v hmem) (hvalid v hmem)⟩
    rw [restored_valid fails hread hdistinct fun v hv ↦ hvalid v (hperm.subset hv),
      settled_perm hperm htidy.distinct]
  constructor
  · intro h v hv
    have hvalues := (h c.vars (List.Perm.refl _)).2
    have hvalid : ∀ w ∈ c.vars, (pg.assigned w.1 w.2).isSome = true := by
      intro w hw
      rw [hvalues w hw]
      rfl
    exact ⟨_, hvalues v hv, fun _ ↦ hsettled hvalid c.vars (List.Perm.refl _) v.1⟩
  · intro h vars hperm
    have hvalid : ∀ v ∈ c.vars, (pg.assigned v.1 v.2).isSome = true := by
      intro v hv
      obtain ⟨x, hx, -⟩ := h v hv
      rw [hx]
      rfl
    refine ⟨fun vars' hperm' name ↦ ?_, fun v hv ↦ ?_⟩
    · rw [hsettled hvalid vars hperm, hsettled hvalid vars' hperm']
    · obtain ⟨x, hx, hlasts⟩ := h v hv
      rw [hx, hsettled hvalid vars hperm]
      by_cases htransient : transient v.1 = true
      · rw [← hlasts htransient]
      · have hsource : source v.1 = v.1 := if_neg htransient
        rw [hsource, settled_of_mem htidy.distinct hv hx]

theorem separates_samplePostgres : Separates samplePostgres := by
  intro name val _ hvalid
  change word val = true
  by_contra hword
  have hnone : samplePostgres.assigned name val = none := if_neg hword
  rw [hnone] at hvalid
  cases hvalid

def utcSession : List (Text × Text) := [(ascii "timezone", ascii "utc"), (ascii "search_path", ascii "x")]

theorem replay_restores_timezone : Restores samplePostgres false { vars := utcSession } := by
  have hrun : Run observe anyStep {} [.query (ascii "SET timezone = utc"), .query (ascii "SET search_path TO x;")]
      { vars := utcSession } := run_of_exec (by decide +kernel)
  have hall : (utcSession.all fun v ↦ wellLexed none [.ident v.2, .other 0x3b] &&
      (samplePostgres.assigned v.1 v.2).isSome && !transient v.1) = true := by decide +kernel
  have heach (v : Text × Text) (hv : v ∈ utcSession) : (wellLexed none [.ident v.2, .other 0x3b] = true ∧
      (samplePostgres.assigned v.1 v.2).isSome = true) ∧ transient v.1 = false := by
    simpa using List.all_eq_true.mp hall v hv
  have hwhole (v : Text × Text) (hv : v ∈ utcSession) : Whole v.2 :=
    ⟨[.ident v.2], (heach v hv).1.1, by simp [render, Token.text], by simp⟩
  refine (replay_restores_iff separates_samplePostgres false hrun hwhole).mpr fun v hv ↦ ?_
  obtain ⟨x, hx⟩ := Option.isSome_iff_exists.mp (heach v hv).1.2
  refine ⟨x, hx, fun htransient ↦ ?_⟩
  rw [(heach v hv).2] at htransient
  cases htransient

/-- The first text is two statements, and the second of them is taken for a part of the value. Replayed behind the
later setting of the same variable, it undoes that setting. -/
theorem replay_order_matters : ∃ c vars, Run observe anyStep {}
      [.query (ascii "SET timezone=utc; SET search_path=x"), .query (ascii "SET search_path=y")] c ∧
    vars.Perm c.vars ∧ restored samplePostgres false c.vars (ascii "search_path") = ascii "y" ∧
    restored samplePostgres false vars (ascii "search_path") = ascii "x" ∧ ¬Restores samplePostgres false c := by
  have hexec : (exec observe anyStep {}
      [.query (ascii "SET timezone=utc; SET search_path=x"), .query (ascii "SET search_path=y")]).any
      (fun c ↦ restored samplePostgres false c.vars (ascii "search_path") == ascii "y" &&
        restored samplePostgres false c.vars.reverse (ascii "search_path") == ascii "x") = true := by decide +kernel
  obtain ⟨c, hrun, hc⟩ := exists_run_of_exec hexec
  simp only [Bool.and_eq_true, beq_iff_eq] at hc
  refine ⟨c, c.vars.reverse, hrun, List.reverse_perm c.vars, hc.1, hc.2, fun hrestores ↦ ?_⟩
  have hsame := (hrestores c.vars (List.Perm.refl _)).1 c.vars.reverse (List.reverse_perm c.vars) (ascii "search_path")
  rw [hc.1, hc.2] at hsame
  cases hsame

end Orders

end PgRouter.Sql.Replaying
