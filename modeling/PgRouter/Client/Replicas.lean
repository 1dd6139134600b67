import PgRouter.Client.Turns
import PgRouter.Sql.Router

namespace PgRouter.Client.Replicas

open Library.Runs Library.Records Protocol Prepared Servers Handler Handling Attachment Turns

variable {γ : Type} {sql : SQL γ} {s : Session γ} {r : Res γ} {input : Input}

/-- The statements that a client has parsed and the portals that it has bound, by their texts. -/
structure Names where
  statements : List (Text × Text) := []
  portals : List (Text × Text) := []

namespace Names

def note (n : Names) : FrontendMessage → Names
  | .parse name text _ => { n with statements := (name, text) :: n.statements }
  | .bind portal statement =>
    match n.statements.lookup statement with
    | some text => { n with portals := (portal, text) :: n.portals }
    | none => n
  | _ => n

def executes (n : Names) : FrontendMessage → Option Text
  | .query text => some text
  | .execute portal => n.portals.lookup portal
  | _ => none

end Names

def taken (sql : SQL γ) (y : Step γ) (msg : FrontendMessage) (env : Env) : Bool :=
  !gated sql y.before.cfg env msg &&
    (y.before.bConn.isSome || match y.after.phase with
      | .acquiring .. => true
      | _ => false)

def inTransaction (s : Session γ) : Bool :=
  s.bConn.isSome && (s.state.tx == txInBlock || s.state.tx == txFailed)

def draining : Phase → Bool
  | .draining _ => true
  | _ => false

/-- What the steps so far make of the client's names, whether a read-only `BEGIN` has been sent outside of a
transaction and nothing since that ends its transaction, and whether a `ReadyForQuery` has then shown it open. -/
structure Ledger where
  names : Names := {}
  begun : Bool := false
  readOnly : Bool := false

/-- `ends` are the texts with which PostgreSQL ends a transaction, such as `COMMIT` and `ROLLBACK`. -/
def Ledger.note (sql : SQL γ) (ends : Text → Bool) (l : Ledger) (y : Step γ) : Ledger :=
  match y.event with
  | .message msg env =>
    if taken sql y msg env then
      let text := l.names.executes msg
      let begins := !inTransaction y.before && text.any fun text ↦ (sql.analyzeSQL text).isROBegin
      { names := l.names.note msg
        begun := (l.begun || begins) && !text.any ends
        readOnly := l.readOnly && !text.any ends }
    else l
  | .received (.readyForQuery txStatus) _ =>
    if draining y.before.phase then
      { l with begun := l.begun && txStatus != txIdle, readOnly := l.begun && txStatus != txIdle }
    else l
  | _ =>
    if y.before.bConn.isSome && y.after.bConn.isNone then { l with begun := false, readOnly := false }
    else l

def inReadOnly (sql : SQL γ) (ends : Text → Bool) (past : List (Step γ)) : Bool :=
  (past.foldl (Ledger.note sql ends) {}).readOnly

def boundStmt (c : PrepareCache) : FrontendMessage → Option Stmt
  | .bind _ statement => c.get statement
  | .describe objectType name => if objectType = objectStatement then c.get name else none
  | _ => none

def harmful (sql : SQL γ) (prepCache : Option PrepareCache) (msg : FrontendMessage) : Bool :=
  carriesWrite sql msg || (prepCache.bind (boundStmt · msg)).any fun stmt ↦ writes sql stmt.query

/-- On a replica's backend, outside of a read-only transaction, the client sends no write and refers to
none that it has prepared. -/
def harmless (sql : SQL γ) (ends : Text → Bool) (c : History γ) : Input → Bool
  | .message msg _ =>
    c.current.bConn.isNone || c.current.bConnPool == some 0 || inReadOnly sql ends c.past ||
      !harmful sql c.current.prepCache msg
  | _ => true

variable {m msg : FrontendMessage} {b pool : ℕ} {env : Env} {p : Option PreparedCache} {c : PrepareCache}
  {text : Text} {cfg : PooledConfig} {ends : Text → Bool}

theorem not_mem_closeEvicted (htext : Session.statementOf m = some text) (evicted : Text) :
    m ∉ closeEvicted evicted := by
  intro hmem
  unfold closeEvicted at hmem
  split at hmem
  · cases hmem
  · cases List.mem_singleton.mp hmem
    cases htext

theorem statement_ensured {stmt : Stmt}
    (hmem : m ∈ (ensureBackendPrepared c p stmt msg).injected ++ (ensureBackendPrepared c p stmt msg).forward.toList)
    (htext : Session.statementOf m = some text) (hmsg : Session.statementOf msg = none) : text = stmt.query := by
  have hne : m ≠ msg := by
    rintro rfl
    rw [hmsg] at htext
    cases htext
  unfold ensureBackendPrepared at hmem
  split at hmem
  · simp [hne] at hmem
  · split at hmem
    · simp [hne] at hmem
    · simp only [List.append_assoc, List.mem_append, not_mem_closeEvicted htext, false_or, Option.toList_some,
        List.mem_singleton, hne, or_false] at hmem
      subst hmem
      exact (Option.some.inj htext).symm

theorem statement_forwardParse {server query : Text} {paramOIDs : List UInt32}
    (hmem : m ∈ (forwardParse c p server query paramOIDs).injected ++
      (forwardParse c p server query paramOIDs).forward.toList)
    (htext : Session.statementOf m = some text) : text = query := by
  unfold forwardParse at hmem
  split at hmem
  · simp only [List.nil_append, Option.toList_some, List.mem_singleton] at hmem
    subst hmem
    exact (Option.some.inj htext).symm
  · split at hmem
    · simp at hmem
    · simp only [List.mem_append, not_mem_closeEvicted htext, false_or, Option.toList_some, List.mem_singleton] at hmem
      subst hmem
      exact (Option.some.inj htext).symm

theorem statement_intercept {serverNameFor : Text → Text}
    (hmem : m ∈ (prepareInterceptForward serverNameFor c p msg).injected ++
      (prepareInterceptForward serverNameFor c p msg).forward.toList)
    (htext : Session.statementOf m = some text) :
    Session.statementOf msg = some text ∨ ∃ stmt, boundStmt c msg = some stmt ∧ text = stmt.query := by
  have hpass (hm : m ∈ ([] : List FrontendMessage) ++ (some msg).toList) :
      Session.statementOf msg = some text := by
    simp only [List.nil_append, Option.toList_some, List.mem_singleton] at hm
    rw [← hm]
    exact htext
  cases msg with
  | parse name query paramOIDs =>
    simp only [prepareInterceptForward, interceptParse] at hmem
    split at hmem
    · exact .inl (hpass hmem)
    · split at hmem
      · exact .inl (congrArg some (statement_forwardParse hmem htext).symm)
      · exact .inl (congrArg some (statement_forwardParse hmem htext).symm)
  | bind portal statement =>
    simp only [prepareInterceptForward] at hmem
    split at hmem
    · exact .inl (hpass hmem)
    · split at hmem
      · exact .inl (hpass hmem)
      · exact .inr ⟨_, ‹_›, statement_ensured hmem htext rfl⟩
  | describe objectType name =>
    simp only [prepareInterceptForward] at hmem
    split at hmem
    · exact .inl (hpass hmem)
    · rename_i hnamed
      rw [not_or, not_not] at hnamed
      split at hmem
      · exact .inl (hpass hmem)
      · refine .inr ⟨_, ?_, statement_ensured hmem htext rfl⟩
        rw [boundStmt, if_pos hnamed.1]
        assumption
  | close objectType name =>
    simp only [prepareInterceptForward] at hmem
    split at hmem
    · exact .inl (hpass hmem)
    · simp at hmem
  | _ => exact .inl (hpass hmem)

theorem mem_send {ms : List FrontendMessage} (hmem : .forward b m ∈ (s.send ms).2) : m ∈ ms := by
  unfold Session.send at hmem
  split at hmem
  · cases hmem
  · obtain ⟨m', hm', heq⟩ := List.mem_map.mp hmem
    cases heq
    exact hm'

theorem harmful_of_forward (hraw : s.cfg.rawPassthrough = false) (hmem : .forward b m ∈ (s.forwardMessage sql msg).2)
    (hwrite : carriesWrite sql m = true) : harmful sql s.prepCache msg = true := by
  obtain ⟨text, htext, hwrite⟩ := (Option.any_eq_true ..).mp hwrite
  unfold Session.forwardMessage at hmem
  rw [if_neg (by simp [hraw])] at hmem
  split at hmem
  · rename_i hnone
    rw [Res.andThen, List.append_nil] at hmem
    cases List.mem_singleton.mp (mem_send hmem)
    simp [harmful, carriesWrite, htext, hwrite]
  · rename_i clientPrep hprep
    rw [Res.andThen, List.append_nil] at hmem
    rcases statement_intercept (mem_send hmem) htext with hstmt | ⟨stmt, hstmt, rfl⟩
    · simp [harmful, carriesWrite, hstmt, hwrite]
    · simp [harmful, hprep, hstmt, hwrite]

def Acquired (past : List (Step γ)) (i p : ℕ) : Prop :=
  ∃ z ∈ past, ∃ b msg, z.event = .acquired b ∧ b.id = i ∧ z.before.phase = .acquiring msg p

theorem Acquired.append {past : List (Step γ)} {i p : ℕ} (h : Acquired past i p) (y : Step γ) :
    Acquired (past ++ [y]) i p := by
  obtain ⟨z, hz, hacq⟩ := h
  exact ⟨z, List.mem_append_left _ hz, hacq⟩

structure Routed (sql : SQL γ) (past : List (Step γ)) (s : Session γ) : Prop where
  raw : s.cfg.rawPassthrough = false
  held : ∀ b, s.bConn = some b → ∃ p, s.bConnPool = some p ∧ Acquired past b.id p
  waits : ∀ msg pool, s.phase = .acquiring msg pool → pool ≠ 0 → harmful sql s.prepCache msg = false
  replays : ∀ msg, s.phase = .replayFlush msg ∨ s.phase = .replaying msg →
    ∀ p, s.bConnPool = some p → p ≠ 0 → harmful sql s.prepCache msg = false

/-- Writes outside of read-only transactions go to backends of the primary. -/
def Primary (sql : SQL γ) (ends : Text → Bool) (before : List (Step γ)) (y : Step γ) : Prop :=
  ∀ b m, .forward b m ∈ y.output → carriesWrite sql m = true → inReadOnly sql ends before = false →
    Acquired (before ++ [y]) b 0

theorem primary_quiet {before : List (Step γ)} {y : Step γ} (hquiet : Quiet y.output) :
    Primary sql ends before y :=
  fun b m hmem ↦ absurd hmem (hquiet b m)

variable {past : List (Step γ)} {y : Step γ}

theorem Routed.append (hr : Routed sql past s) (y : Step γ) : Routed sql (past ++ [y]) s where
  raw := hr.raw
  held b hb := by
    obtain ⟨p, hp, hacq⟩ := hr.held b hb
    exact ⟨p, hp, hacq.append y⟩
  waits := hr.waits
  replays := hr.replays

theorem held_of_same {t : Session γ} (hr : Routed sql past s)
    (hconn : t.bConn.map Backend.id = s.bConn.map Backend.id) (hpool : t.bConnPool = s.bConnPool) :
    ∀ b, t.bConn = some b → ∃ p, t.bConnPool = some p ∧ Acquired past b.id p := by
  intro b hb
  rw [hb, Option.map_some] at hconn
  obtain ⟨b', hb', hid⟩ := Option.map_eq_some_iff.mp hconn.symm
  obtain ⟨p, hp, hacq⟩ := hr.held b' hb'
  refine ⟨p, hpool.trans hp, ?_⟩
  rw [← hid]
  exact hacq

theorem routed_of_not_waiting (hraw : s.cfg.rawPassthrough = false)
    (hheld : ∀ b, s.bConn = some b → ∃ p, s.bConnPool = some p ∧ Acquired past b.id p)
    (hphase : waiting s.phase = false) : Routed sql past s := by
  refine ⟨hraw, hheld, fun msg pool h ↦ ?_, fun msg h ↦ ?_⟩
  · rw [h] at hphase
    cases hphase
  · rcases h with h | h
    · rw [h] at hphase
      cases hphase
    · rw [h] at hphase
      cases hphase

theorem routed_holding (hr : Routed sql past s) (hhold : Holding s r) (hphase : waiting r.1.phase = false) :
    Routed sql past r.1 := by
  refine routed_of_not_waiting ?_ (held_of_same hr hhold.conn hhold.pool) hphase
  rw [hhold.cfg]
  exact hr.raw

theorem routed_remains (hr : Routed sql past s) (hidle : Remains s r) : Routed sql past r.1 := by
  refine routed_of_not_waiting ?_ ?_ hidle.phase
  · rw [hidle.cfg]
    exact hr.raw
  · rcases hidle.conn with hnone | ⟨hconn, hpool⟩
    · simp [hnone]
    · exact held_of_same hr hconn hpool

theorem routed_forward (hr : Routed sql (past ++ [y]) s)
    (hsafe : inReadOnly sql ends past = false →
      ∀ p, s.bConnPool = some p → p ≠ 0 → harmful sql s.prepCache msg = false)
    (houtput : y.output = (s.forwardMessage sql msg).2) :
    Routed sql (past ++ [y]) (s.forwardMessage sql msg).1 ∧ Primary sql ends past y := by
  have hhold : Holding s (s.forwardMessage sql msg) := holding_forwardMessage msg s
  refine ⟨routed_holding hr hhold (waiting_forwardMessage msg s), ?_⟩
  intro b m hmem hwrite hro
  rw [houtput] at hmem
  obtain ⟨b', hb', rfl⟩ := Option.map_eq_some_iff.mp (hhold.forwards b m hmem)
  obtain ⟨p, hp, hacq⟩ := hr.held b' hb'
  obtain rfl : p = 0 := by
    by_contra hne
    have hharm := harmful_of_forward hr.raw hmem hwrite
    rw [hsafe hro p hp hne] at hharm
    cases hharm
  exact hacq

theorem harmful_selected (hraw : cfg.rawPassthrough = false)
    (hpool : Session.selectPoolForMsg env s (infoOf sql cfg msg) ≠ 0) (prepCache : Option PrepareCache) :
    harmful sql prepCache msg = false := by
  have hinfo : (infoOf sql cfg msg).1 = .read ∨ (infoOf sql cfg msg).2 = true := by
    by_contra hne
    rw [not_or] at hne
    simp [Session.selectPoolForMsg, hne.1, hne.2] at hpool
  cases hstmt : Session.statementOf msg with
  | none => simp [infoOf, hstmt] at hinfo
  | some text =>
    have hbound (c : PrepareCache) : boundStmt c msg = none := by
      cases msg <;> first | rfl | cases hstmt
    simp only [infoOf, hstmt, hraw] at hinfo
    have hwrites : writes sql text = false := by
      rcases hinfo with hread | hro
      · simp_all [writes, isWrite]
      · simp_all [writes, isWrite]
    simp [harmful, carriesWrite, hstmt, hwrites, hbound]

theorem harmful_notePrep (prepCache : Option PrepareCache) (msg : FrontendMessage) :
    harmful sql (prepCache.map (notePrep sql msg)) msg = harmful sql prepCache msg := by
  cases prepCache with
  | none => rfl
  | some c => cases msg <;> rfl

section

variable (hr : Routed sql (past ++ [y]) s)

include hr

theorem routed_handled (hphase : s.phase = .top)
    (hhandled : Handled sql env msg s r)
    (hsafe : s.bConn.isSome = true → inReadOnly sql ends past = false →
      ∀ p, s.bConnPool = some p → p ≠ 0 → harmful sql s.prepCache msg = false)
    (houtput : y.output = r.2) : Routed sql (past ++ [y]) r.1 ∧ Primary sql ends past y := by
  have hhold := holding_handled hhandled
  have hstay (hphase : waiting r.1.phase = false) (hquiet : Quiet r.2) :
      Routed sql (past ++ [y]) r.1 ∧ Primary sql ends past y := by
    refine ⟨routed_holding hr hhold hphase, primary_quiet ?_⟩
    rw [houtput]
    exact hquiet
  cases hhandled with
  | gated hobs | failedOver hnoticed hobs | answers hobs =>
    exact hstay rfl (quiet_append (quiet_beFlush _ _) quiet_nil)
  | @acquires o hobs hgated hneeds hnone =>
    have hframe := hobs.noted env
    generalize o.noteWrite env (infoOf sql s.cfg msg) = t at hframe houtput ⊢
    constructor
    · refine ⟨?_, ?_, ?_, by simp⟩
      · rw [hframe.cfg]
        exact hr.raw
      · simp [hframe.bConn, hnone]
      · rintro msg pool ⟨⟩ hpool
        exact harmful_selected hr.raw hpool _
    · exact primary_quiet (by simp [houtput, Quiet])
  | @forwards o hobs hgated hsome =>
    have hframe := hobs.noted env
    refine routed_forward (routed_of_not_waiting ?_ ?_ ?_) ?_ houtput
    · rw [hframe.cfg]
      exact hr.raw
    · exact held_of_same hr (by rw [hframe.bConn]) hframe.bConnPool
    · rw [hframe.phase, hphase]
      rfl
    · rw [hframe.bConnPool, prepCache_noteWrite, hobs.prepCache hr.raw, harmful_notePrep]
      exact hsafe hsome
  | ignores hobs => exact hstay rfl quiet_nil

theorem routed_adopt {b : Backend} (hbefore : y.before.phase = .acquiring msg pool)
    (hphase : s.phase = .acquiring msg pool) (hevent : y.event = .acquired b) :
    Routed sql (past ++ [y]) (s.adopt pool b) := by
  refine ⟨hr.raw, fun b' hb' ↦ ⟨pool, rfl, y, by simp, b, msg, hevent, ?_, hbefore⟩, hr.waits, ?_⟩
  · cases hb'
    split <;> rfl
  · rintro msg' (h | h)
    · cases hphase.symm.trans h
    · cases hphase.symm.trans h

theorem routed_attach {b : Backend} (hbefore : y.before.phase = .acquiring msg pool)
    (hphase : s.phase = .acquiring msg pool) (hevent : y.event = .acquired b)
    (houtput : y.output = (s.attach sql msg pool b).2) :
    Routed sql (past ++ [y]) (s.attach sql msg pool b).1 ∧ Primary sql ends past y := by
  have hadopt := routed_adopt hr hbefore hphase hevent
  have hsafe (p : ℕ) (hp : some pool = some p) (hne : p ≠ 0) : harmful sql s.prepCache msg = false := by
    cases hp
    exact hr.waits msg pool hphase hne
  unfold Session.attach at houtput ⊢
  split
  · rw [if_pos ‹_›] at houtput
    exact routed_forward hadopt (fun _ ↦ hsafe) houtput
  · rw [if_neg ‹_›] at houtput
    constructor
    · refine ⟨hr.raw, held_of_same hadopt ?_ rfl, by simp, ?_⟩
      · simp [Session.ask, Option.map_map, Function.comp_def]
      · rintro msg' (h | h)
        · obtain rfl : msg = msg' := Phase.replayFlush.inj h
          exact hsafe
        · cases h
    · exact primary_quiet (by simp [houtput, Quiet])

end

theorem routed_step {c : History γ} (hc : Routed sql c.past c.current)
    (hguard : harmless sql ends c input = true) (hstep : c.current.step sql input = some r) :
    Routed sql (c.past ++ [⟨c.current, input, r.1, r.2⟩]) r.1 ∧
      Primary sql ends c.past ⟨c.current, input, r.1, r.2⟩ := by
  have hr := hc.append ⟨c.current, input, r.1, r.2⟩
  cases attends_of_step hc.raw hstep with
  | remains hinput hidle => exact ⟨routed_remains hr hidle, primary_quiet hidle.quiet⟩
  | message hphase hmsg hhandled =>
    refine routed_handled hr hphase hhandled (fun hsome hro p hp hne ↦ ?_) rfl
    have hnone : c.current.bConn.isNone = false := by simpa using hsome
    simpa [harmless, hnone, hp, hne, hro] using hguard
  | acquired hphase b => exact routed_attach hr hphase hphase rfl rfl
  | @replaySent msg hphase ok =>
    have hflush := holding_flush ({ c.current with phase := .replaying msg } : Session γ)
    have hprep : ({ c.current with phase := .replaying msg } : Session γ).flush.1.prepCache =
        c.current.prepCache := congrArg Core.prepCache (core_flush _)
    refine ⟨⟨?_, held_of_same hr hflush.conn hflush.pool, by simp, ?_⟩, primary_quiet (quiet_flush _)⟩
    · rw [hflush.cfg]
      exact hc.raw
    · rintro msg' (h | h)
      · rw [Session.flush_phase] at h
        cases h
      · rw [Session.flush_phase] at h
        obtain rfl : msg = msg' := Phase.replaying.inj h
        rw [hflush.pool, hprep]
        exact hc.replays msg (.inl hphase)
  | replayWaits hphase m ok => exact ⟨hr, primary_quiet quiet_nil⟩
  | replayed hphase txStatus ok => exact routed_forward hr (fun _ ↦ hr.replays _ (.inr hphase)) rfl

theorem routed_start (id : ℕ) (hraw : cfg.rawPassthrough = false) : Routed sql [] (Session.new sql id cfg) :=
  ⟨hraw, by simp [Session.new], by simp [Session.new], by simp [Session.new]⟩

/-- Writes go to the primary, as long as none follows a read to the replica without a `Sync`. -/
theorem writes_reach_primary (id : ℕ) {cfg : PooledConfig} (hraw : cfg.rawPassthrough = false)
    {inputs : List Input} {c : History γ}
    (hrun : Run (recorded (Session.step sql)) (harmless sql ends) (start (Session.new sql id cfg)) inputs c)
    {before after : List (Step γ)} {y : Step γ} (hsplit : c.past = before ++ y :: after) {b : ℕ}
    {m : FrontendMessage} (hmem : .forward b m ∈ y.output) (hwrite : carriesWrite sql m = true)
    (hro : inReadOnly sql ends before = false) : Acquired (before ++ [y]) b 0 := by
  have hkeep (c : History γ) (input : Input) (r : Res γ)
      (hc : Routed sql c.past c.current) (hguard : harmless sql ends c input = true)
      (hstep : c.current.step sql input = some r) := routed_step hc hguard hstep
  exact recorded_each hkeep (routed_start id hraw) hrun hsplit b m hmem hwrite hro

def commits (text : Text) : Bool := text == ascii "COMMIT"

def replicated : Env := { calm with replica := some 1 }

def readThen (msg : FrontendMessage) : List Input :=
  welcomed ++ [.message (.query (ascii "SELECT 1")) replicated, .acquired (.dialed 7 none), .sent true,
    .received (.readyForQuery txIdle) true, .message msg replicated, .acquired (.dialed 3 none)]

theorem writes_reach_primary_delete :
    ∃ c before y, Run (recorded (Session.step (Sql.routerSQL id))) (harmless (Sql.routerSQL id) commits)
        (start (Session.new (Sql.routerSQL id) 0 unreset)) (readThen (.query (ascii "DELETE FROM t"))) c ∧
      c.past = before ++ [y] ∧ .forward 3 (.query (ascii "DELETE FROM t")) ∈ y.output ∧
      Acquired (before ++ [y]) 3 0 := by
  have hrun : Run (recorded (Session.step (Sql.routerSQL id))) (harmless (Sql.routerSQL id) commits)
      (start (Session.new (Sql.routerSQL id) 0 unreset)) (readThen (.query (ascii "DELETE FROM t"))) _ :=
    run_of_exec rfl
  exact ⟨_, _, _, hrun, rfl, .head _, writes_reach_primary 0 rfl hrun rfl (.head _) rfl rfl⟩

/-- A `Parse` of a write follows one of a read without a `Sync` and goes to the replica. -/
theorem write_reaches_replica :
    ∃ c before y, Run (recorded (Session.step (Sql.routerSQL id))) anyStep
        (start (Session.new (Sql.routerSQL id) 0 unreset))
        (welcomed ++ [.message (.parse [] (ascii "SELECT 1") []) replicated, .acquired (.dialed 7 none),
          .message (.parse [] (ascii "DELETE FROM t") []) replicated]) c ∧
      c.past = before ++ [y] ∧ .forward 7 (.parse [] (ascii "DELETE FROM t") []) ∈ y.output ∧
      carriesWrite (Sql.routerSQL id) (.parse [] (ascii "DELETE FROM t") []) = true ∧
      inReadOnly (Sql.routerSQL id) commits before = false ∧ y.after.bConnPool = some 1 ∧
      ¬Acquired (before ++ [y]) 7 0 := by
  refine ⟨_, _, _, run_of_exec rfl, rfl, .head _, rfl, rfl, rfl, ?_⟩
  rintro ⟨z, hz, b, msg, hevent, -, hphase⟩
  simp only [start, List.mem_append, List.not_mem_nil, List.mem_singleton, false_or] at hz
  rcases hz with (((rfl | rfl) | rfl) | rfl) | rfl
  · cases hevent
  · cases hevent
  · cases hevent
  · cases hphase
  · cases hevent

end PgRouter.Client.Replicas
