import PgRouter.Library.Transactions
import PgRouter.Sql.Settings

namespace PgRouter.Sql.Sessions

open Library.Transactions Client.Protocol Lexing Settings Settings.GUCCache

/-- What a statement is to the settings of a session. -/
inductive Command
  | set (isLocal : Bool) (name val : Text)
  | reset (name : Text)
  | resetAll
  | discardAll
  | start
  | commit
  | rollback
  | savepoint (name : Text)
  | release (name : Text)
  | rollbackTo (name : Text)
  | other
  deriving DecidableEq

def transient (name : Text) : Bool :=
  ["transaction_isolation", "transaction_read_only", "transaction_deferrable"].any fun s ↦ ascii s == name

def source (name : Text) : Text := if transient name then ascii "default_" ++ name else name

def tracked (name : Text) : Bool := replayable name && !transient name

/-- What the repository takes from PostgreSQL: how the text of a `Query` is read, which value a `SET`
assigns, if it is valid, given the present one (a `DateStyle` keeps the part that the text does not name), the
values after a reset, and that the statements of a replay are read one by one, given that each of their
values is a `whole` one, which leaves no comment or string open. -/
structure Postgres (V : Type) where
  reads : Text → List Command
  evaluate : Text → Text → V → Option V
  default : Text → V
  whole : Text → Bool
  reads_replay : ∀ vars : List (Text × Text), (∀ v ∈ vars, replayable v.1 = true ∧ whole v.2 = true) →
    reads (replayText vars) = vars.map fun v ↦ .set false v.1 v.2

variable {V : Type} (pg : Postgres V)

/-- What a `SET` assigns to a variable that has its default value. -/
def Postgres.assigned (name val : Text) : Option V := pg.evaluate name val (pg.default name)

abbrev Variables (V : Type) := Store Text V

def fresh : Variables V := ⟨pg.default, none⟩

def present (s : Variables V) (name : Text) : V := (s.block.bind fun b ↦ b.locals name).getD (s.values name)

def shown (s : Variables V) (name : Text) : V :=
  match s.block with
  | none => s.values (source name)
  | some b => (b.locals name).getD (s.values (source name))

def txStatus (s : Variables V) : UInt8 :=
  match s.block with
  | none => txIdle
  | some b => if b.failed then txFailed else txInBlock

def orFail (s : Variables V) : Option (Variables V) → Variables V × Bool
  | some s' => (s', true)
  | none => (s.fail, false)

/-- One statement, and whether it succeeds. `fails` decides about what does not depend on settings. -/
def perform (fails : Bool) (c : Command) (s : Variables V) : Variables V × Bool :=
  if s.failed then
    match c with
    | .commit | .rollback => (s.abort, true)
    | .rollbackTo name => orFail s (s.rollbackTo name)
    | _ => (s, false)
  else match c with
    | .set isLocal name val => orFail s ((pg.evaluate name val (present s name)).map fun v ↦
        if isLocal || transient name then s.assignLocal name v else s.assign name v)
    | .reset name =>
      if !transient name then (s.assign name (pg.default name), true)
      else if fails then (s.fail, false) else (s, true)
    | .resetAll => (s.assignAll pg.default, true)
    | .discardAll => if s.block.isSome then (s.fail, false) else (s.assignAll pg.default, true)
    | .start => (s.start, true)
    | .commit => if fails then (s.abort, false) else (s.commit, true)
    | .rollback => (s.abort, true)
    | .savepoint name => orFail s (s.savepoint name)
    | .release name => orFail s (s.release name)
    | .rollbackTo name => orFail s (s.rollbackTo name)
    | .other => if fails then (s.fail, false) else (s, true)

def performAll (fails : Bool) : List Command → Variables V → Variables V × Bool
  | [], s => (s, true)
  | c :: cs, s =>
    if (perform pg fails c s).2 then performAll fails cs (perform pg fails c s).1 else perform pg fails c s

/-- A `Query`. Outside of a transaction its statements are one of their own. -/
def execute (fails : Bool) (cs : List Command) (s : Variables V) : Variables V × Bool :=
  if (performAll pg fails cs s).2 || s.block.isSome then performAll pg fails cs s else (s, false)

def takenFor : GUCOp → Command → Bool
  | .discardAll, .discardAll | .resetAll, .resetAll => true
  | .reset name, .reset name' => name == name'
  | .setLocal, .set true _ _ => true
  | .set name val, .set false name' val' => name == name' && val == val'
  | .none, .set .. | .none, .reset _ | .none, .resetAll | .none, .discardAll => false
  | .none, _ => true
  | _, _ => false

def noted : GUCOp → Bool
  | .setLocal | .none => false
  | _ => true

/-- What a statement that succeeds makes of the value of a variable. -/
def becomes (op : GUCOp) (name : Text) (old : V) : V :=
  match op with
  | .discardAll | .resetAll => pg.default name
  | .reset n => if n = name then pg.default name else old
  | .set n val => if n = name then (pg.assigned n val).getD old else old
  | .setLocal | .none => old

/-- The value of a variable that the settings say nothing about is `base`. -/
def settled (vars : List (Text × Text)) (base : Text → V) (name : Text) : V :=
  match vars.find? (·.1 == name) with
  | none => base name
  | some v => (pg.assigned v.1 v.2).getD (base name)

variable {pg}

variable {fails : Bool} {s : Variables V} {vars : List (Text × Text)} {c : Command} {name : Text} {op : GUCOp}

variable {vars' : List (Text × Text)}

def ends : Command → Bool
  | .commit | .rollback | .rollbackTo _ => true
  | _ => false

/-- The session's own variables have the values that the cache has noted, and the defaults otherwise. -/
def Agrees (pg : Postgres V) (c : GUCCache) (s : Variables V) : Prop :=
  ∀ name, tracked name = true → s.values name = settled pg c.vars pg.default name

structure Replayable (pg : Postgres V) (c : GUCCache) : Prop where
  each : ∀ v ∈ c.vars, replayable v.1 = true ∧ pg.whole v.2 = true ∧ (pg.assigned v.1 v.2).isSome = true
  distinct : (c.vars.map Prod.fst).Nodup

def undoes (pg : Postgres V) [DecidableEq V] (fails : Bool) (cs : List Command) (s : Variables V) : Bool :=
  defaultReplayable.any fun name ↦
    tracked (ascii name) && (execute pg fails cs s).1.values (ascii name) != s.values (ascii name)

theorem perform_set {val : Text} (hs : s.block = none) (hdefault : s.values name = pg.default name) {v : V}
    (hv : pg.assigned name val = some v) : perform pg fails (.set false name val) s =
      (if transient name then s else s.assign name v, true) := by
  have hpresent : present s name = pg.default name := by
    unfold present
    rw [hs]
    exact hdefault
  unfold Postgres.assigned at hv
  have hfailed : s.failed = false := by
    unfold Store.failed
    rw [hs]
    rfl
  unfold perform
  rw [if_neg (by simp [hfailed])]
  simp only [hpresent, hv, Option.map_some, orFail, Bool.false_or]
  split
  · simp [Store.assignLocal, hs]
    rw [← hs]
  · rfl

theorem settled_cons (v : Text × Text) (vars : List (Text × Text)) (base : Text → V) (name : Text) :
    settled pg (v :: vars) base name =
      if v.1 = name then (pg.assigned v.1 v.2).getD (base name) else settled pg vars base name := by
  unfold settled
  by_cases h : v.1 = name
  · rw [if_pos h, List.find?_cons_of_pos (by simpa using h)]
  · rw [if_neg h, List.find?_cons_of_neg (by simpa using h)]

theorem settled_absent (h : name ∉ vars.map Prod.fst) (base : Text → V) : settled pg vars base name = base name := by
  have hnone : vars.find? (·.1 == name) = none := by
    rw [List.find?_eq_none]
    intro v hv heq
    exact h (List.mem_map.mpr ⟨v, hv, by simpa using heq⟩)
  unfold settled
  rw [hnone]

theorem settled_congr {base base' : Text → V} (h : base name = base' name) :
    settled pg vars base name = settled pg vars base' name := by
  unfold settled
  rw [h]

theorem performAll_sets (fails : Bool) (hvalid : ∀ v ∈ vars, (pg.assigned v.1 v.2).isSome = true)
    (hdistinct : (vars.map Prod.fst).Nodup) (hs : s.block = none)
    (hdefault : ∀ v ∈ vars, s.values v.1 = pg.default v.1) :
    ∃ s', performAll pg fails (vars.map fun v ↦ .set false v.1 v.2) s = (s', true) ∧ s'.block = none ∧
      ∀ name, transient name = false → s'.values name = settled pg vars s.values name := by
  induction vars generalizing s with
  | nil => exact ⟨s, rfl, hs, fun name _ ↦ rfl⟩
  | cons v vars ih =>
    obtain ⟨x, hx⟩ := Option.isSome_iff_exists.mp (hvalid v List.mem_cons_self)
    rw [List.map_cons, List.nodup_cons] at hdistinct
    obtain ⟨t, hset, ht, hchanged, hother⟩ : ∃ t, perform pg fails (.set false v.1 v.2) s = (t, true) ∧
        t.block = none ∧ (transient v.1 = false → t.values v.1 = x) ∧
        ∀ name, v.1 ≠ name → t.values name = s.values name := by
      refine ⟨_, perform_set hs (hdefault v List.mem_cons_self) hx, ?_, ?_, ?_⟩
      · split
        · exact hs
        · simp [Store.assign, hs]
      · intro h
        simp [h, Store.assign]
      · intro name h
        split
        · rfl
        · exact Function.update_of_ne (Ne.symm h) _ _
    have hkept (w : Text × Text) (hw : w ∈ vars) : t.values w.1 = pg.default w.1 := by
      rw [hother w.1 fun heq ↦ hdistinct.1 (heq ▸ List.mem_map_of_mem hw)]
      exact hdefault w (List.mem_cons_of_mem v hw)
    obtain ⟨s', hall, hidle, hvalues⟩ :=
      ih (fun w hw ↦ hvalid w (List.mem_cons_of_mem v hw)) hdistinct.2 ht hkept
    refine ⟨s', ?_, hidle, fun name hname ↦ ?_⟩
    · rw [List.map_cons, performAll, hset]
      exact hall
    · rw [hvalues name hname, settled_cons]
      by_cases h : v.1 = name
      · subst h
        rw [if_pos rfl, settled_absent hdistinct.1, hchanged hname, hx, Option.getD_some]
      · rw [if_neg h]
        exact settled_congr (hother name h)

theorem settled_perm (hperm : vars'.Perm vars) (hdistinct : (vars.map Prod.fst).Nodup)
    (base : Text → V) (name : Text) : settled pg vars' base name = settled pg vars base name := by
  induction hperm with
  | nil => rfl
  | cons v _ ih =>
    rw [List.map_cons, List.nodup_cons] at hdistinct
    rw [settled_cons, settled_cons, ih hdistinct.2]
  | swap v w vars =>
    have hne : v.1 ≠ w.1 := by
      rw [List.map_cons, List.map_cons, List.nodup_cons] at hdistinct
      rintro heq
      exact hdistinct.1 (by rw [heq]; exact List.mem_cons_self)
    simp only [settled_cons]
    by_cases hv : v.1 = name
    · rw [if_pos hv, if_neg (by rw [← hv]; exact Ne.symm hne), if_pos hv]
    · rw [if_neg hv, if_neg hv]
  | trans hperm hperm' ih ih' =>
    rw [ih (hdistinct.perm (hperm'.map Prod.fst).symm), ih' hdistinct]

section Sample

/-- What the statements of a client that knows only these are to its settings. -/
def command (sentence : Text) : Command :=
  match List.dropPrefix? sentence (ascii "SET ") with
  | some rest => .set false (rest.takeWhile (· != 0x3d)) (rest.dropWhile (· != 0x3d)).tail
  | none =>
    if sentence == ascii "BEGIN" then .start
    else if sentence == ascii "COMMIT" then .commit
    else if sentence == ascii "ROLLBACK" then .rollback
    else .other

def sentences (text : Text) : List Text :=
  ((text.splitOnP (· == 0x3b)).map (·.dropWhile (· == 0x20))).filter (· != [])

def word (val : Text) : Bool := val != [] && val.all isIdentByte

def assignment (v : Text × Text) : Text := ascii "SET " ++ v.1 ++ ascii "=" ++ v.2

theorem identifier_of_replayable {name : Text} (h : replayable name = true) : name.all isIdentByte = true := by
  have hall : (defaultReplayable.all fun n ↦ (ascii n).all isIdentByte) = true := by decide +kernel
  obtain ⟨n, hn, heq⟩ := List.any_eq_true.mp h
  obtain rfl : ascii n = name := by simpa using heq
  exact List.all_eq_true.mp hall n hn

theorem ne_of_identifier {text : Text} (h : text.all isIdentByte = true) {d : UInt8} (hd : isIdentByte d = false) :
    ∀ c ∈ text, c ≠ d := by
  rintro c hc rfl
  rw [List.all_eq_true.mp h c hc] at hd
  cases hd

variable {v : Text × Text}

theorem command_assignment (h : replayable v.1 = true) :
    command (assignment v) = .set false v.1 v.2 := by
  have hname : ∀ c ∈ v.1, (c != 0x3d) = true := fun c hc ↦
    bne_iff_ne.mpr (ne_of_identifier (identifier_of_replayable h) rfl c hc)
  have hrest : List.dropPrefix? (assignment v) (ascii "SET ") = some (v.1 ++ 0x3d :: v.2) := by
    unfold assignment
    simp [ascii, List.dropPrefix?]
  unfold command
  rw [hrest]
  simp [List.takeWhile_append_of_pos hname, List.dropWhile_append_of_pos hname]

variable {gap : Text}

theorem sentences_gap (hgap : ∀ c ∈ gap, c = 0x20) : sentences gap = [] := by
  have hone : gap.splitOnP (· == 0x3b) = [gap] := List.splitOnP_eq_singleton fun c hc ↦ by rw [hgap c hc]; rfl
  have hnone : gap.dropWhile (· == 0x20) = [] := by
    rw [← List.append_nil gap, List.dropWhile_append_of_pos fun c hc ↦ by rw [hgap c hc]; rfl]
    rfl
  simp [sentences, hone, hnone]

theorem sentences_assignment (hname : replayable v.1 = true) (hval : word v.2 = true) (hgap : ∀ c ∈ gap, c = 0x20)
    (rest : Text) :
    sentences (gap ++ (assignment v ++ 0x3b :: rest)) = assignment v :: sentences rest := by
  have hsep : ∀ c ∈ gap ++ assignment v, (c == 0x3b) = false := by
    intro c hc
    rw [beq_eq_false_iff_ne]
    simp only [assignment, List.mem_append] at hc
    rcases hc with hc | ((hc | hc) | hc) | hc
    · rw [hgap c hc]
      decide
    · exact bne_iff_ne.mp (List.all_eq_true.mp (by decide : (ascii "SET ").all (· != 0x3b) = true) c hc)
    · exact ne_of_identifier (identifier_of_replayable hname) rfl c hc
    · exact bne_iff_ne.mp (List.all_eq_true.mp (by decide : (ascii "=").all (· != 0x3b) = true) c hc)
    · exact ne_of_identifier (Bool.and_eq_true_iff.mp hval).2 rfl c hc
  have hsplit := List.splitOnP_append_cons_of_forall_mem hsep 0x3b rfl rest
  have hdrop : (gap ++ assignment v).dropWhile (· == 0x20) = assignment v := by
    rw [List.dropWhile_append_of_pos fun c hc ↦ by rw [hgap c hc]; rfl]
    rfl
  rw [sentences, ← List.append_assoc, hsplit, List.map_cons, hdrop]
  rfl

theorem replayText_cons (v : Text × Text) (vars : List (Text × Text)) : ∃ gap : Text, (∀ c ∈ gap, c = 0x20) ∧
    replayText (v :: vars) = assignment v ++ 0x3b :: (gap ++ replayText vars) := by
  cases vars with
  | nil => exact ⟨[], by simp, rfl⟩
  | cons w vars =>
    refine ⟨ascii " ", fun c hc ↦ List.mem_singleton.mp hc, ?_⟩
    change setting v ++ ascii " " ++ replayText (w :: vars) = _
    simp only [setting, assignment, List.append_assoc]
    rfl

theorem sentences_replay {vars : List (Text × Text)}
    (h : ∀ v ∈ vars, replayable v.1 = true ∧ word v.2 = true) (hgap : ∀ c ∈ gap, c = 0x20) :
    sentences (gap ++ replayText vars) = vars.map assignment := by
  induction vars generalizing gap with
  | nil => exact sentences_gap (by simpa [replayText, join] using hgap)
  | cons v vars ih =>
    obtain ⟨gap', hgap', hcons⟩ := replayText_cons v vars
    obtain ⟨hname, hval⟩ := h v List.mem_cons_self
    rw [hcons, sentences_assignment hname hval hgap, ih (fun w hw ↦ h w (List.mem_cons_of_mem v hw)) hgap',
      List.map_cons]

def samplePostgres : Postgres Text where
  reads text := (sentences text).map command
  evaluate _ val _ := if word val then some val else none
  default _ := []
  whole := word
  reads_replay vars h := by
    have hall : sentences ([] ++ replayText vars) = vars.map assignment := sentences_replay h (by simp)
    rw [← List.nil_append (replayText vars), hall, List.map_map]
    exact List.map_congr_left fun v hv ↦ command_assignment (h v hv).1

end Sample

end PgRouter.Sql.Sessions
