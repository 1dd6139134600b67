import PgRouter.Client.Custody
import PgRouter.Client.Departures

namespace PgRouter.Client.Handover

open Library.Runs Protocol Servers Handler Effects Sharing SendBuffer Departures Custody

variable {γ : Type} {sql : SQL γ} {i : ℕ} {s s' : Session γ} {r : Res γ} {input : Input}
  {answers : List Answer}

/-- What has to hold for a session to return its backend in order. A flushed batch gets a reply that
the drain reads to its end; a session that leaves its loop outside of a transaction, and does not
reset, has nothing in the send buffer, no `COPY` under way and a working connection; the client or
the backend fails only when the backend will be closed or reset with nothing unread. -/
def orderly (s : Session γ) (input : Input) (answers : List Answer) : Bool :=
  match s.phase, input with
  | .top, input => !exits s input || s.cfg.resetOnRelease || !s.state.isIdle || s.bConn.all fun b ↦
      b.sendBuf.isEmpty && b.peer.server.copying.isNone && !b.peer.broken
  | .flushing, .sent ok => (s.bConn.all fun b ↦ closedReply answers (outgoing s b) b.peer) &&
      (ok || !splices s || !s.state.isIdle)
  | .replayFlush _, .sent _ | .resetFlush _, .sent _ =>
    s.bConn.all fun b ↦ closedReply answers (outgoing s b) b.peer
  | .replaying _, .received (.readyForQuery txStatus) _ => txStatus == txIdle || !s.state.isIdle
  | .draining _, .received (.readyForQuery txStatus) true =>
    txStatus == txIdle || !s.cfg.isStatementMode || s.sessionPinned || s.cfg.resetOnRelease
  | .draining _, .received _ false => !s.state.isIdle ||
      s.cfg.resetOnRelease && s.bConn.all fun b ↦ b.peer.unread.length == 1
  | .flushing, .sendFailed .. | .draining _, .receiveFailed .. | .draining false, .receiveEOF _ =>
    !s.state.isIdle || s.cfg.resetOnRelease
  | _, _ => true

theorem flushedAtExit_of_orderly (h : orderly s input answers = true) :
    flushedAtExit s input answers = true := by
  unfold flushedAtExit
  split
  · rename_i hphase
    simp only [orderly, hphase] at h
    simp only [Bool.or_eq_true, Bool.not_eq_true'] at h ⊢
    refine h.imp_right fun h ↦ ?_
    cases hb : s.bConn with
    | none => rfl
    | some b => simp_all
  · rfl

theorem encounter_still (hmet : encounter answers input s = some s')
    (hstill : ∀ batch p, hears Server.answers batch answers p input = some p) : s' = s := by
  rcases encounter_cases hmet with ⟨-, h⟩ | ⟨b, peer, hb, hpeer, rfl⟩
  · exact h
  · cases (hstill _ _).symm.trans hpeer
    rw [show (some { b with peer := b.peer } : Option Backend) = s.bConn from hb.symm]

structure Met (answers : List Answer) (input : Input) (s s' : Session γ) : Prop where
  cfg : s'.cfg = s.cfg
  state : s'.state = s.state
  pinned : s'.sessionPinned = s.sessionPinned
  splices : splices s' = splices s
  conn : ∀ b', s'.bConn = some b' → ∃ b, s.bConn = some b ∧
    hears Server.answers (outgoing s b) answers b.peer input = some b'.peer

theorem met_of_encounter (hmet : encounter answers input s = some s') : Met answers input s s' := by
  rcases encounter_cases hmet with ⟨hb, rfl⟩ | ⟨b, peer, hb, hpeer, rfl⟩
  · refine ⟨rfl, rfl, rfl, rfl, fun b' hb' ↦ ?_⟩
    rw [hb] at hb'
    cases hb'
  · refine ⟨rfl, rfl, rfl, rfl, fun b' hb' ↦ ⟨b, hb, ?_⟩⟩
    cases hb'
    exact hpeer

theorem handed_greet (hb : s.bConn = none) (params : List (Text × Text)) (key : UInt32 × Text)
    (ok : Bool) : Handed (s.greet params key ok) := by
  refine .andThen (no_put_of_local (beFlush_local ok _)) ?_
  split <;> exact handed_silent (by simp) (steady_detached hb)

theorem handed_exit (hs : Steady s) (hphase : s.phase = .top) (hguard : orderly s input answers = true)
    (hexit : exits s input = true) {t : Session γ} (hcfg : t.cfg = s.cfg) (hstate : t.state = s.state)
    (hconn : t.bConn = s.bConn) : Handed t.leave := by
  have hrest (b : Backend) (hb : s.bConn = some b) (hbroken : b.peer.broken = false) :
      AtRest s.state.isIdle b.peer := by
    have h := hs b hb hbroken
    rw [hphase] at h
    exact h
  refine handed_leave ?_ ?_
  · rw [hconn]
    exact fun _ _ b hb hbroken ↦ (hrest b hb hbroken).unread
  · rw [hconn, hstate, hcfg]
    intro hidle hreset b hb
    simp only [orderly, hphase, hexit, hidle, hreset, hb] at hguard
    simp only [Bool.not_true, Bool.or_self, Option.all_some, Bool.false_or, Bool.and_eq_true,
      Option.isNone_iff_eq_none, Bool.not_eq_true'] at hguard
    obtain ⟨hunread, hstatus⟩ := hrest b hb hguard.2
    refine ⟨hunread, ?_, hguard.2⟩
    rw [← hstatus hidle, ← hguard.1.2]

variable {ok : Bool}

theorem handed_clientTimeout {now : ℤ} (hs : Steady s) (hphase : s.phase = .top)
    (hguard : orderly s (.clientTimeout now ok) answers = true) : Handed (s.clientTimeout now ok) := by
  unfold Session.clientTimeout
  split
  · refine handed_silent (by simp) fun b hb hbroken ↦ ?_
    have hrest := hs b hb hbroken
    rw [hphase] at hrest
    exact hrest
  · rename_i hpolls
    have hleave {code msg : String} : Handed ((s.sendFatalError code msg ok).andThen Session.leave) :=
      .andThen (no_put_of_local (beFlush_local ok _))
        (handed_exit hs hphase hguard (by simpa [exits] using hpolls) rfl rfl rfl)
    split
    · exact hleave
    · exact hleave

variable {b' : Backend}

theorem answering_of_sent (hmet : Met answers (.sent ok) s s')
    (hb' : s'.bConn = some b') (hbroken : b'.peer.broken = false)
    (hclosed : (s.bConn.all fun b ↦ closedReply answers (outgoing s b) b.peer) = true)
    (hs : ∀ b, s.bConn = some b → b.peer.broken = false → b.peer.unread = []) :
    ∃ b, s.bConn = some b ∧ b.peer.broken = false ∧ Answering b'.peer ∧
      ((∀ txStatus, .readyForQuery txStatus ∉ b'.peer.unread) →
        b'.peer.server.txStatus = b.peer.server.txStatus) := by
  obtain ⟨b, hb, hpeer⟩ := hmet.conn b' hb'
  have hworks : b.peer.broken = false := by
    simp only [hears] at hpeer
    split at hpeer
    · rw [Option.some.inj hpeer]
      exact hbroken
    · simpa using ‹¬b.peer.broken = true›
  rw [hb] at hclosed
  exact ⟨b, hb, hworks, meet_sent hpeer hbroken hclosed (hs b hb hworks)⟩

theorem replying_of_sent (hmet : Met answers (.sent ok) s s')
    (hb' : s'.bConn = some b') (hbroken : b'.peer.broken = false)
    (hclosed : (s.bConn.all fun b ↦ closedReply answers (outgoing s b) b.peer) = true) {idle : Bool}
    (hs : ∀ b, s.bConn = some b → b.peer.broken = false → AtRest idle b.peer) :
    Answering b'.peer ∧ Known idle b'.peer := by
  obtain ⟨b, hb, hworks, hans, hstatus⟩ := answering_of_sent hmet hb' hbroken hclosed
    fun b hb hworks ↦ (hs b hb hworks).unread
  exact ⟨hans, fun hnone hidle ↦ (hstatus hnone).trans ((hs b hb hworks).status hidle)⟩

theorem reads_of_received {m : BackendMessage}
    (hmet : Met answers (.received m ok) s s') (hb' : s'.bConn = some b') :
    ∃ b, s.bConn = some b ∧ Reads b.peer m b'.peer := by
  obtain ⟨b, hb, hpeer⟩ := hmet.conn b' hb'
  exact ⟨b, hb, meet_received hpeer⟩

theorem broken_of_lost (hmet : Met answers input s s') (hinput : input.lost = true)
    (hb' : s'.bConn = some b') : b'.peer.broken = true := by
  obtain ⟨b, hb, hpeer⟩ := hmet.conn b' hb'
  exact meet_lost hpeer hinput

theorem handed_leave_broken (hs : ∀ b, s.bConn = some b → b.peer.broken = true)
    (hreset : s.state.isIdle = false ∨ s.cfg.resetOnRelease = true) : Handed s.leave := by
  refine handed_leave (fun _ _ b hb hbroken ↦ ?_) fun hidle hoff ↦ ?_
  · cases (hs b hb).symm.trans hbroken
  · rcases hreset with hbusy | hon
    · cases hbusy.symm.trans hidle
    · cases hoff.symm.trans hon

theorem step_handed (hs : Steady s) (htidy : Tidy i s')
    (hpool : ∀ b, input = .acquired b → Spotless b.peer)
    (hguard : orderly s input answers = true ∨ ∃ b, input = .acquired b)
    (hmet : encounter answers input s = some s') (hstep : s'.step sql input = some r) : Handed r := by
  have hm := met_of_encounter hmet
  have hsame : s.phase = s'.phase := (encounter_phase hmet).symm
  have hpromise {phase : Phase} (hphase : s'.phase = phase) :
      ∀ b, s.bConn = some b → b.peer.broken = false → Promise s'.state.isIdle phase b.peer := by
    rw [← hphase, encounter_phase hmet, hm.state]
    exact hs
  have hnone {phase : Phase} (hphase : s'.phase = phase) (hfree : ∀ raw b, ¬Fits i raw phase b) :
      s'.bConn = none := htidy.detached (by rw [hphase]; exact hfree)
  have hstill (hmeet : ∀ batch p, hears Server.answers batch answers p input = some p) : s' = s :=
    encounter_still hmet hmeet
  cases steps_of_step hstep with
  | probed hphase b =>
    refine ⟨fun _ _ _ ↦ trivial, fun pool b' hmem ↦ ?_⟩
    obtain ⟨-, rfl⟩ := Act.put.inj (List.mem_singleton.mp hmem)
    exact hpool b' rfl
  | unprobed hphase err ok => exact handed_silent (by simp) fun _ _ _ ↦ trivial
  | greeted hphase params key ok =>
    refine handed_greet ?_ params key ok
    rcases hphase with hphase | hphase
    · exact hnone hphase fun _ _ h ↦ h
    · exact hnone hphase fun _ _ h ↦ h
  | goodbye hphase hinput =>
    have hguard := hguard.resolve_right (by rintro ⟨b, rfl⟩; cases hinput)
    have hexit : exits s input = true := by
      cases input <;> first | rfl | cases hinput
    exact handed_exit hs (hsame.trans hphase) hguard hexit hm.cfg hm.state (hstill (by
      cases input <;> first | (intros; rfl) | cases hinput) ▸ rfl)
  | clientTimeout hphase hdeadline now ok =>
    obtain rfl := hstill fun _ _ ↦ rfl
    exact handed_clientTimeout hs hphase (hguard.resolve_right (by simp))
  | message hphase msg env =>
    obtain rfl := hstill fun _ _ ↦ rfl
    by_cases hmsg : msg = .terminate
    · subst hmsg
      exact handed_exit hs hphase (hguard.resolve_right (by simp)) rfl rfl rfl rfl
    · exact handed_served (hpromise hphase) (served_clientMessage env hmsg s')
  | polled hphase m ok =>
    refine .andThen (no_put_of_local (beFlush_local ok _)) ?_
    split
    · refine handed_silent (by simp) fun b' hb' _ ↦ ?_
      obtain ⟨b, hb, hread⟩ := reads_of_received hm hb'
      cases (hpromise hphase b hb hread.before).unread.symm.trans hread.unread
    · exact handed_closed (closed_discard rfl rfl)
  | nothing hphase ok =>
    obtain rfl := hstill fun _ _ ↦ rfl
    have hrest := hpromise hphase
    exact handed_silent (by simp) hrest
  | pollLost hphase hinput => exact handed_closed (closed_discard rfl rfl)
  | acquired hphase b => exact handed_attach (hpool b rfl) _ _
  | acquireFailed hphase err ok =>
    refine .andThen (no_put_of_local (beFlush_local ok _)) ?_
    rw [Session.leave_detached (by exact hnone hphase fun _ _ h ↦ h)]
    exact handed_silent (by simp) (steady_detached (hnone hphase fun _ _ h ↦ h))
  | replaySent hphase ok =>
    have hguard := hguard.resolve_right (by simp)
    simp only [orderly, hsame, hphase] at hguard
    refine handed_flush (s := { s' with phase := .replaying _ }) fun b' hb' hbroken ↦ ?_
    exact replying_of_sent hm hb' hbroken hguard (hpromise hphase)
  | replayUnsent hphase err ok => exact handed_closed (closed_replayFailed _ ok _)
  | replayReceived hphase m ok =>
    refine handed_replayReceived hphase m ok (fun b' hb' ↦ ?_) fun txStatus hready hidle ↦ ?_
    · obtain ⟨b, hb, hread⟩ := reads_of_received hm hb'
      exact ⟨b.peer, hread, hpromise hphase b hb hread.before⟩
    · subst hready
      rw [hm.state] at hidle
      simpa [orderly, hsame, hphase, hidle] using hguard
  | replayLost hphase hinput err ok => exact handed_closed (closed_replayFailed err ok _)
  | sent hphase ok =>
    have hguard := hguard.resolve_right (by simp)
    simp only [orderly, hsame, hphase, Bool.and_eq_true, Bool.or_eq_true, Bool.not_eq_true'] at hguard
    obtain ⟨hstate, hsplices, hputs⟩ := writeBatch_fields s'
    refine .andThen hputs (handed_startDrain ok (fun b' hb' hbroken ↦ ?_) ?_)
    · obtain ⟨b₁, hb₁, hpeer⟩ := writeBatch_conn hb'
      rw [hpeer] at hbroken ⊢
      rw [hstate]
      exact replying_of_sent hm hb₁ hbroken hguard.1 (hpromise hphase)
    · rw [hsplices, hstate, hm.splices, hm.state, ← or_assoc]
      exact hguard.2
  | unsent hphase err ok =>
    have hguard := hguard.resolve_right (by simp)
    simp only [orderly, hsame, hphase, Bool.or_eq_true, Bool.not_eq_true'] at hguard
    refine handed_leave_broken (s := s'.loseBuf) (fun b' hb' ↦ ?_) ?_
    · obtain ⟨b₁, hb₁, rfl⟩ := Option.map_eq_some_iff.mp hb'
      obtain ⟨b, hb, hpeer⟩ := hm.conn b₁ hb₁
      have heq := Option.some.inj hpeer
      exact heq ▸ rfl
    · rw [← hm.state, ← hm.cfg] at hguard
      exact hguard
  | drained hphase m ok =>
    have hguard := hguard.resolve_right (by simp)
    refine handed_drainReceived hphase ok (fun b' hb' ↦ ?_) ?_ ?_
    · obtain ⟨b, hb, hread⟩ := reads_of_received hm hb'
      exact ⟨b.peer, hread, hpromise hphase b hb hread.before⟩
    · rintro rfl hidle
      rw [hm.state] at hidle
      obtain ⟨hreset, hlast⟩ : s.cfg.resetOnRelease = true ∧
          (s.bConn.all fun b ↦ b.peer.unread.length == 1) = true := by
        simpa [orderly, hsame, hphase, hidle] using hguard
      refine ⟨by rw [hm.cfg]; exact hreset, fun b' hb' ↦ ?_⟩
      obtain ⟨b, hb, hread⟩ := reads_of_received hm hb'
      rw [hb] at hlast
      simpa [hread.unread] using hlast
    · rintro rfl txStatus rfl
      rw [hm.cfg, hm.pinned, ← or_assoc, ← or_assoc]
      simpa [orderly, hsame, hphase] using hguard
  | queryTimeout hphase htimeout ok => exact handed_closed (closed_queryTimeout ok _)
  | spliceEOF hphase ok =>
    refine handed_silent (by simp) fun b' hb' hbroken ↦ ?_
    cases (broken_of_lost hm rfl hb').symm.trans hbroken
  | drainEOF hphase ok | drainFailed hphase err ok =>
    have hguard := hguard.resolve_right (by simp)
    simp only [orderly, hsame, hphase, Bool.or_eq_true, Bool.not_eq_true', ← hm.state, ← hm.cfg] at hguard
    exact handed_leave_broken (fun b' hb' ↦ broken_of_lost hm rfl hb') hguard
  | resetSent hphase ok =>
    have hguard := hguard.resolve_right (by simp)
    simp only [orderly, hsame, hphase] at hguard
    refine handed_flush (s := { s' with phase := .resetting _ }) fun b' hb' hbroken ↦ ?_
    obtain ⟨b, -, -, hans, -⟩ := answering_of_sent hm hb' hbroken hguard (hpromise hphase)
    exact hans
  | resetUnsent hphase err ok | resetLost hphase hinput => exact handed_closed (closed_resetFailed _ _)
  | resetReceived hphase m ok =>
    refine handed_resetReceived hphase m fun b' hb' ↦ ?_
    obtain ⟨b, hb, hread⟩ := reads_of_received hm hb'
    exact ⟨b.peer, hread, hpromise hphase b hb hread.before⟩

/-- What the next client may rely on: the send buffer is empty, nothing is unread, the server is
outside of a transaction and of `COPY`, and no read or write has failed. -/
structure Clean (b : Backend) : Prop where
  flushed : Flushed b
  spotless : Spotless b.peer

theorem keeps_clean : Keeps sql orderly (fun i s ↦ Tidy i s ∧ Steady s) Clean where
  fresh i cfg := ⟨tidy_detached rfl rfl, steady_detached rfl⟩
  dialed id prepared := ⟨rfl, rfl, rfl, rfl⟩
  steps := by
    intro i input answers s s' r hs hpool hguard hmet hstep
    obtain ⟨htidy, hsame⟩ := tidy_encounter hs.1 hmet
    have hflushed : flushedAtExit s' input answers = true ∨ ∃ b, input = .acquired b := by
      rw [hsame]
      exact hguard.imp_left flushedAtExit_of_orderly
    obtain ⟨hr, hacts⟩ := step_proper htidy (fun b hb ↦ (hpool b hb).flushed) hflushed hstep
    obtain ⟨hsteady, hputs⟩ :=
      step_handed hs.2 htidy (fun b hb ↦ (hpool b hb).spotless) hguard hmet hstep
    refine ⟨⟨hr, hsteady⟩, fun a ha ↦ ?_⟩
    have hlaw := hacts a ha
    cases a with
    | put pool b => exact ⟨hlaw, hputs pool b ha⟩
    | _ => exact hlaw

theorem Clean.first_reply {b : Backend} (hb : Clean b) {batch : List FrontendMessage}
    {q : Peer} (hmeet : hears Server.answers batch answers b.peer (.sent ok) = some q) :
    ∃ srv, (⟨txIdle, none⟩ : Server).answers batch answers = some (srv, q.unread) := by
  obtain ⟨hunread, hserver, hbroken⟩ := hb.spotless
  simp only [hears, hbroken, hserver, hunread] at hmeet
  obtain ⟨⟨srv, replies⟩, hans, rfl⟩ := Option.map_eq_some_iff.mp hmeet
  exact ⟨srv, hans⟩

/-- In an orderly run, every idle backend is clean, and the first reply that its next client reads is
the one to its own first batch. -/
theorem idle_clean {es : List Event} {sys : System γ}
    (hrun : Run (Sharing.step sql) (each orderly) empty es sys) :
    ∀ p ∈ sys.idle, (p.2.sendBuf = [] ∧ p.2.peer.unread = [] ∧ p.2.peer.server = ⟨txIdle, none⟩ ∧
      p.2.peer.broken = false) ∧
      ∀ batch answers ok q, hears Server.answers batch answers p.2.peer (.sent ok) = some q →
        ∃ srv, (⟨txIdle, none⟩ : Server).answers batch answers = some (srv, q.unread) := by
  intro p hp
  have hclean := (keeps_clean.run hrun).idle p hp
  obtain ⟨hunread, hserver, hbroken⟩ := hclean.spotless
  exact ⟨⟨hclean.flushed, hunread, hserver, hbroken⟩, fun _ _ _ _ hmeet ↦ hclean.first_reply hmeet⟩

def asked (ok : Bool) : List Event :=
  [.serve pooling, .step 0 (.greeted [] (0, []) true) [],
    .step 0 (.message (.query (ascii "SELECT 1")) calm) [], .dial 0 none,
    .step 0 (.sent true) [⟨[.other 0x54], .ready txIdle⟩], .step 0 (.received (.other 0x54) ok) []]

def answered : List Event :=
  [.step 0 (.received (.readyForQuery txIdle) true) [],
    .step 0 (.sent true) [⟨[.other 0x43], .ready txIdle⟩], .step 0 (.received (.other 0x43) true) [],
    .step 0 (.received (.readyForQuery txIdle) true) []]

theorem idle_clean_answered :
    ∃ (sys : System Unit) (p : ℕ × Backend),
      Run (Sharing.step plainSQL) (each orderly) empty (asked true ++ answered) sys ∧ p ∈ sys.idle ∧
      p.2.sendBuf = [] ∧ p.2.peer.unread = [] ∧ p.2.peer.server = ⟨txIdle, none⟩ ∧
      p.2.peer.broken = false := by
  have hrun : Run (Sharing.step plainSQL) (each orderly) empty (asked true ++ answered) _ :=
    run_of_exec rfl
  exact ⟨_, _, hrun, List.mem_cons_self, (idle_clean hrun _ List.mem_cons_self).1⟩

/-- The client cannot be written to: the reset takes the end of the statement's reply for its own, and
the backend goes back with the reply to `DISCARD ALL` unread. -/
theorem resetShort_leaves_reply :
    ∃ (sys : System Unit) (p : ℕ × Backend), Run (Sharing.step plainSQL) anyStep empty
      (asked false ++ [.step 0 (.sent true) [⟨[.other 0x43], .ready txIdle⟩],
        .step 0 (.received (.readyForQuery txIdle) true) []]) sys ∧ p ∈ sys.idle ∧
      p.2.peer.unread = [.other 0x43, .readyForQuery txIdle] :=
  ⟨_, _, run_of_exec rfl, List.mem_cons_self, rfl⟩

end PgRouter.Client.Handover
