import PgRouter.Client.Effects
import PgRouter.Client.Replies
import PgRouter.Client.Sharing

namespace PgRouter.Client.Custody

open Protocol Servers Handler Effects Sharing

/-- Nothing is unread, and the server is outside of a transaction if the client is. -/
structure AtRest (idle : Bool) (p : Peer) : Prop where
  unread : p.unread = []
  status : idle = true → p.server.txStatus = txIdle

/-- One reply is being read, and its `ReadyForQuery` tells the state that the server is in. -/
structure Answering (p : Peer) : Prop where
  one : oneEnd p.unread = true
  told : ∀ txStatus, .readyForQuery txStatus ∈ p.unread → p.server = ⟨txStatus, none⟩

def Known (idle : Bool) (p : Peer) : Prop :=
  (∀ txStatus, .readyForQuery txStatus ∉ p.unread) → idle = true → p.server.txStatus = txIdle

def Promise (idle : Bool) : Phase → Peer → Prop
  | .top, p | .polling, p | .flushing, p | .replayFlush _, p => AtRest idle p
  | .draining _, p | .replaying _, p => Answering p ∧ Known idle p
  | .resetFlush _, p => p.unread = []
  | .resetting _, p => Answering p
  | _, _ => True

structure Spotless (p : Peer) : Prop where
  unread : p.unread = []
  server : p.server = ⟨txIdle, none⟩
  broken : p.broken = false

variable {p q : Peer} {idle : Bool} {m : BackendMessage} {txStatus : UInt8}

theorem Spotless.atRest (hp : Spotless p) : AtRest idle p := ⟨hp.unread, fun _ ↦ by rw [hp.server]⟩

structure Reads (p : Peer) (m : BackendMessage) (q : Peer) : Prop where
  unread : p.unread = m :: q.unread
  server : q.server = p.server
  before : p.broken = false
  after : q.broken = false

theorem Reads.answering (hread : Reads p m q) (hp : Answering p) : Answering q := by
  obtain ⟨hone, htold⟩ := hp
  rw [hread.unread] at hone htold
  refine ⟨(oneEnd_cons hone).2, fun txStatus hmem ↦ ?_⟩
  rw [hread.server]
  exact htold txStatus (List.mem_cons_of_mem m hmem)

theorem Reads.known (hread : Reads p m q) (hp : Known idle p) (hm : ∀ txStatus, m ≠ .readyForQuery txStatus) :
    Known idle q := by
  intro hnone hidle
  rw [hread.server]
  refine hp (fun txStatus hmem ↦ ?_) hidle
  rw [hread.unread] at hmem
  rcases List.mem_cons.mp hmem with heq | hmem
  · exact hm txStatus heq.symm
  · exact hnone txStatus hmem

theorem Reads.last (hread : Reads p m q) (hp : Answering p) (hm : endMarker m = true) : q.unread = [] := by
  have hone := hp.one
  rw [hread.unread] at hone
  exact (oneEnd_cons hone).1 hm

theorem Reads.ready (hread : Reads p (.readyForQuery txStatus) q) (hp : Answering p) :
    q.unread = [] ∧ q.server = ⟨txStatus, none⟩ := by
  refine ⟨hread.last hp rfl, ?_⟩
  rw [hread.server]
  exact hp.told txStatus (by rw [hread.unread]; exact List.mem_cons_self)

theorem Reads.copyIn (hread : Reads p .copyInResponse q) (hp : Answering p) (hknown : Known idle p) :
    AtRest idle q := by
  have hlast := hread.last hp rfl
  refine ⟨hlast, hread.known hknown (by simp) ?_⟩
  rw [hlast]
  simp

variable {batch : List FrontendMessage} {answers : List Answer}

/-- The reply to a batch has at most one message at which a drain stops, its last. -/
def closedReply (answers : List Answer) (batch : List FrontendMessage) (p : Peer) : Bool :=
  p.broken || (p.server.answers batch answers).all fun r ↦ oneEnd r.2

theorem meet_sent {ok : Bool} (h : hears Server.answers batch answers p (.sent ok) = some q) (hq : q.broken = false)
    (hclosed : closedReply answers batch p = true) (hunread : p.unread = []) :
    Answering q ∧ ((∀ txStatus, .readyForQuery txStatus ∉ q.unread) →
      q.server.txStatus = p.server.txStatus) := by
  simp only [hears] at h
  split at h
  · cases h
    simp_all
  · rename_i hp
    obtain ⟨⟨srv, replies⟩, hans, rfl⟩ := Option.map_eq_some_iff.mp h
    have hone : oneEnd replies = true := by simpa [closedReply, hp, hans] using hclosed
    simp only [hunread, List.nil_append]
    exact ⟨⟨hone, fun _ hmem ↦ Server.answers_ready hans hone hmem⟩, Server.answers_txStatus hans⟩

theorem meet_received {ok : Bool} (h : hears Server.answers batch answers p (.received m ok) = some q) :
    Reads p m q := by
  simp only [hears] at h
  split at h
  · rename_i hp
    cases h
    obtain ⟨rest, hrest⟩ := List.head?_eq_some_iff.mp hp.2
    exact ⟨by rw [hrest, List.tail_cons], rfl, hp.1, hp.1⟩
  · cases h

theorem meet_lost {input : Input} (h : hears Server.answers batch answers p input = some q)
    (hinput : input.lost = true) :
    q.broken = true := by
  cases input with
  | receiveEOF | receiveFailed =>
    cases h
    rfl
  | _ => cases hinput

variable {γ : Type} {sql : SQL γ} {s : Session γ} {r : Res γ}

def splices (s : Session γ) : Bool := s.spliceReader && s.pendingEvictCC == 0 && s.pendingParsePC == 0

def Steady (s : Session γ) : Prop :=
  ∀ b, s.bConn = some b → b.peer.broken = false → Promise s.state.isIdle s.phase b.peer

structure Handed (r : Res γ) : Prop where
  steady : Steady r.1
  puts : ∀ pool b, .put pool b ∈ r.2 → Spotless b.peer

theorem steady_detached (hb : s.bConn = none) : Steady s := by
  intro b hb'
  rw [hb] at hb'
  cases hb'

theorem Handed.andThen {f : Session γ → Res γ} (hacts : ∀ pool b, .put pool b ∉ r.2)
    (hf : Handed (f r.1)) : Handed (r.andThen f) := by
  refine ⟨hf.steady, fun pool b hmem ↦ ?_⟩
  rcases List.mem_append.mp hmem with hmem | hmem
  · exact absurd hmem (hacts pool b)
  · exact hf.puts pool b hmem

theorem handed_silent (hacts : ∀ pool b, .put pool b ∉ r.2) (hr : Steady r.1) : Handed r :=
  ⟨hr, fun pool b hmem ↦ absurd hmem (hacts pool b)⟩

theorem no_put_of_local {acts : List Act} (hacts : ∀ a ∈ acts, Local a) (pool : ℕ) (b : Backend) :
    .put pool b ∉ acts := fun hmem ↦ hacts _ hmem

theorem no_put_discard (s : Session γ) (pool : ℕ) (b : Backend) : .put pool b ∉ s.discard.2 := by
  unfold Session.discard
  split <;> simp

theorem no_put_flush (s : Session γ) (pool : ℕ) (b : Backend) : .put pool b ∉ s.flush.2 := by
  unfold Session.flush
  split <;> simp

theorem handed_closed (hr : Closed s r) : Handed r := by
  refine handed_silent (fun pool b hmem ↦ ?_) (steady_detached hr.bConn)
  rcases hr.acts _ hmem with hmem | hmem
  · exact no_put_discard s pool b hmem
  · exact hmem

theorem handed_served (hs : ∀ b, s.bConn = some b → b.peer.broken = false → AtRest s.state.isIdle b.peer)
    (hr : Served s r) : Handed r := by
  refine handed_silent (no_put_of_local hr.acts) fun b' hb' hbroken ↦ ?_
  obtain ⟨b, hb, hfed⟩ := hr.conn b' hb'
  have hrest : AtRest r.1.state.isIdle b'.peer := by
    rw [hfed.peer] at hbroken ⊢
    rw [ClientState.isIdle, hr.tx]
    exact hs b hb hbroken
  rcases hr.phase with hphase | hphase | ⟨hnone, -⟩
  · rw [hphase]
    exact hrest
  · rw [hphase]
    exact hrest
  · rw [hnone] at hb'
    cases hb'

theorem handed_released {leaving : Bool}
    (hwipe : s.cfg.resetOnRelease = true → ∀ b, s.bConn = some b → b.peer.broken = false → b.peer.unread = [])
    (hput : s.cfg.resetOnRelease = false → ∀ b, s.bConn = some b → Spotless b.peer)
    (hr : Released leaving s r) : Handed r := by
  cases hr with
  | nothing hid hb hacts => exact handed_silent (by simp [hacts]) (steady_detached hb)
  | asked hb hreset query =>
    refine handed_silent (by simp) fun b' hb' hbroken ↦ ?_
    cases hb'
    have hunread := hwipe hreset _ hb hbroken
    exact hunread
  | put hb hreset pool =>
    refine ⟨steady_detached (by simp), fun pool' b' hmem ↦ ?_⟩
    obtain ⟨-, rfl⟩ := Act.put.inj (List.mem_singleton.mp hmem)
    exact hput hreset _ hb

theorem handed_leave
    (hwipe : s.state.isIdle = true → s.cfg.resetOnRelease = true →
      ∀ b, s.bConn = some b → b.peer.broken = false → b.peer.unread = [])
    (hput : s.state.isIdle = true → s.cfg.resetOnRelease = false →
      ∀ b, s.bConn = some b → Spotless b.peer) : Handed s.leave := by
  have hleft := left_of_leave s
  generalize s.leave = r at hleft ⊢
  cases hleft with
  | alone hb => exact handed_silent (by simp) (steady_detached hb)
  | released hidle hr => exact handed_released (hwipe hidle) (hput hidle) hr
  | closed hbusy hr => exact handed_closed hr

theorem handed_replayReceived {msg : FrontendMessage} (hphase : s.phase = .replaying msg)
    (m : BackendMessage) (ok : Bool)
    (hs : ∀ b, s.bConn = some b → ∃ p, Reads p m b.peer ∧ Answering p ∧ Known s.state.isIdle p)
    (hready : ∀ txStatus, m = .readyForQuery txStatus → s.state.isIdle = true → txStatus = txIdle) :
    Handed (s.replayReceived sql msg m ok) := by
  unfold Session.replayReceived
  split
  · exact handed_closed (closed_replayFailed _ ok s)
  · refine handed_served (fun b hb _ ↦ ?_) (served_forwardMessage msg s)
    obtain ⟨p, hread, hans, -⟩ := hs b hb
    obtain ⟨hunread, hserver⟩ := hread.ready hans
    exact ⟨hunread, fun hidle ↦ by rw [hserver]; exact hready _ rfl hidle⟩
  · rename_i hnot
    refine handed_silent (by simp) fun b hb _ ↦ ?_
    rw [hphase]
    obtain ⟨p, hread, hans, hknown⟩ := hs b hb
    exact ⟨hread.answering hans, hread.known hknown hnot⟩

theorem handed_resetReceived {leaving : Bool} (hphase : s.phase = .resetting leaving) (m : BackendMessage)
    (hs : ∀ b, s.bConn = some b → ∃ p, Reads p m b.peer ∧ Answering p) :
    Handed (s.resetReceived leaving m) := by
  unfold Session.resetReceived
  split
  · exact handed_closed (closed_resetFailed leaving s)
  · split
    · rename_i hidle
      subst hidle
      unfold Session.putBack
      split
      · exact handed_silent (by simp) (steady_detached (by simp_all))
      · rename_i b hb
        refine ⟨steady_detached (by simp), fun pool b' hmem ↦ ?_⟩
        obtain ⟨-, rfl⟩ := Act.put.inj (List.mem_singleton.mp hmem)
        obtain ⟨b₀, hb₀, rfl⟩ := Option.map_eq_some_iff.mp hb
        obtain ⟨p, hread, hans⟩ := hs b₀ hb₀
        obtain ⟨hunread, hserver⟩ := hread.ready hans
        exact ⟨hunread, hserver, hread.after⟩
    · exact handed_closed (closed_resetFailed leaving s)
  · refine handed_silent (by simp) fun b hb _ ↦ ?_
    rw [hphase]
    obtain ⟨p, hread, hans⟩ := hs b hb
    exact hread.answering hans

theorem handed_finalizeRFQ (txStatus : UInt8)
    (hs : ∀ b, s.bConn = some b → b.peer.broken = false ∧ b.peer.unread = [] ∧ b.peer.server = ⟨txStatus, none⟩)
    (htx : s.state.tx = txStatus)
    (hready : txStatus = txIdle ∨ s.cfg.isStatementMode = false ∨ s.sessionPinned = true ∨
      s.cfg.resetOnRelease = true) : Handed s.finalizeRFQ := by
  unfold Session.finalizeRFQ
  split
  · rename_i hrelease
    simp only [Bool.and_eq_true, Bool.or_eq_true] at hrelease
    refine handed_released (fun _ b hb _ ↦ (hs b hb).2.1) (fun hreset b hb ↦ ?_)
      (released_of_release false s)
    obtain ⟨hbroken, hunread, hserver⟩ := hs b hb
    have hidle : txStatus = txIdle := by
      rcases hready with hidle | hmode | hpinned | hon
      · exact hidle
      · simpa [hmode, ClientState.isIdle, htx] using hrelease.2
      · simp [hpinned] at hrelease
      · rw [hreset] at hon
        cases hon
    exact ⟨hunread, by rw [hserver, hidle], hbroken⟩
  · refine handed_silent (by simp) fun b hb _ ↦ ⟨(hs b hb).2.1, fun hidle ↦ ?_⟩
    have hidle : s.state.isIdle = true := hidle
    rw [(hs b hb).2.2]
    simpa [ClientState.isIdle, htx] using hidle

theorem state_note (hm : ∀ txStatus, m ≠ .readyForQuery txStatus) : (s.note m).state = s.state := by
  cases m with
  | readyForQuery txStatus => exact absurd rfl (hm txStatus)
  | _ => rfl

variable {splicing : Bool}

theorem steady_draining (hphase : s.phase = .draining splicing)
    (hs : ∀ b, s.bConn = some b → ∃ p, Reads p m b.peer ∧ Answering p ∧ Known s.state.isIdle p)
    (hm : ∀ txStatus, m ≠ .readyForQuery txStatus) : Steady s := by
  intro b hb _
  rw [hphase]
  obtain ⟨p, hread, hans, hknown⟩ := hs b hb
  exact ⟨hread.answering hans, hread.known hknown hm⟩

theorem handed_observe (hphase : s.phase = .draining splicing)
    (hs : ∀ b, s.bConn = some b → ∃ p, Reads p m b.peer ∧ Answering p ∧ Known s.state.isIdle p)
    (hready : ∀ txStatus, m = .readyForQuery txStatus → txStatus = txIdle ∨
      s.cfg.isStatementMode = false ∨ s.sessionPinned = true ∨ s.cfg.resetOnRelease = true) :
    Handed (s.observe m) := by
  rcases Session.observe_cases m s with ⟨txStatus, rfl, hobs⟩ | ⟨rfl, hobs⟩ | ⟨hm, hobs⟩
  · rw [hobs]
    refine handed_finalizeRFQ txStatus (fun b hb ↦ ?_) (ClientState.tx_observeTxStatus _ _)
      (hready txStatus rfl)
    obtain ⟨p, hread, hans, -⟩ := hs b hb
    exact ⟨hread.after, hread.ready hans⟩
  · rw [hobs]
    refine handed_silent (by simp) fun b hb _ ↦ ?_
    obtain ⟨p, hread, hans, hknown⟩ := hs b hb
    exact hread.copyIn hans hknown
  · rw [hobs]
    refine handed_silent (by simp) (steady_draining hphase ?_ hm)
    rw [state_note hm]
    exact hs

theorem handed_drainReceived (hphase : s.phase = .draining splicing) (ok : Bool)
    (hs : ∀ b, s.bConn = some b → ∃ p, Reads p m b.peer ∧ Answering p ∧ Known s.state.isIdle p)
    (hfail : ok = false → s.state.isIdle = true →
      s.cfg.resetOnRelease = true ∧ ∀ b, s.bConn = some b → b.peer.unread = [])
    (hready : ok = true → ∀ txStatus, m = .readyForQuery txStatus → txStatus = txIdle ∨
      s.cfg.isStatementMode = false ∨ s.sessionPinned = true ∨ s.cfg.resetOnRelease = true) :
    Handed (s.drainReceived splicing m ok) := by
  unfold Session.drainReceived
  split
  · rename_i hfilter
    simp only [Bool.and_eq_true, decide_eq_true_eq] at hfilter
    refine handed_silent (by simp) (steady_draining (m := m) hphase hs ?_)
    simp [hfilter.1.2]
  · split
    · rename_i hfilter
      simp only [Bool.and_eq_true, decide_eq_true_eq] at hfilter
      refine handed_silent (by simp) (steady_draining (m := m) hphase hs ?_)
      simp [hfilter.1.2]
    · refine .andThen (no_put_of_local (beFlush_local ok _)) ?_
      cases ok with
      | true => exact handed_observe (s := (s.pass m true).1) hphase hs (hready rfl)
      | false =>
        refine handed_leave (s := (s.pass m false).1) (fun hidle _ b hb _ ↦ (hfail rfl hidle).2 b hb) ?_
        intro hidle hreset
        cases hreset.symm.trans (hfail rfl hidle).1

theorem handed_startDrain (ok : Bool)
    (hs : ∀ b, s.bConn = some b → b.peer.broken = false → Answering b.peer ∧ Known s.state.isIdle b.peer)
    (hfail : ok = true ∨ splices s = false ∨ s.state.isIdle = false) : Handed (s.startDrain ok) := by
  unfold Session.startDrain
  split
  · rename_i hsplice
    refine .andThen (no_put_of_local (beFlush_local ok _)) ?_
    cases ok with
    | true => exact handed_silent (by simp) hs
    | false =>
      have hbusy : s.state.isIdle = false := by
        rcases hfail with hok | hsplices | hbusy
        · cases hok
        · cases hsplices.symm.trans hsplice
        · exact hbusy
      refine handed_leave (s := (s.beFlush false).1) (fun hidle ↦ ?_) fun hidle ↦ ?_
      · cases hbusy.symm.trans hidle
      · cases hbusy.symm.trans hidle
  · exact handed_silent (by simp) hs

theorem writeBatch_fields (s : Session γ) :
    s.writeBatch.1.state = s.state ∧ splices s.writeBatch.1 = splices s ∧
      ∀ pool b, .put pool b ∉ s.writeBatch.2 := by
  unfold Session.writeBatch
  split
  · split
    · exact ⟨rfl, rfl, by simp⟩
    · refine ⟨rfl, rfl, fun pool b hmem ↦ ?_⟩
      obtain ⟨m, -, hmem⟩ := List.mem_flatMap.mp hmem
      simp at hmem
  · refine ⟨?_, ?_, no_put_flush s⟩
    · unfold Session.flush
      split <;> rfl
    · unfold Session.flush
      split <;> rfl

theorem handed_flush (hs : ∀ b, s.bConn = some b → b.peer.broken = false →
    Promise s.state.isIdle s.phase b.peer) : Handed s.flush := by
  refine handed_silent (no_put_flush s) fun b' hb' hbroken ↦ ?_
  have hstate : s.flush.1.state = s.state := by
    unfold Session.flush
    split <;> rfl
  obtain ⟨b, hb, hpeer⟩ := flush_conn hb'
  rw [hpeer] at hbroken ⊢
  rw [hstate, Session.flush_phase]
  exact hs b hb hbroken

theorem handed_attach {b : Backend} (hb : Spotless b.peer) (msg : FrontendMessage) (pool : ℕ) :
    Handed (s.attach sql msg pool b) := by
  have hadopt (b' : Backend) (hb' : (s.adopt pool b).bConn = some b') : b'.peer = b.peer := by
    cases hb'
    split <;> rfl
  unfold Session.attach
  split
  · refine handed_served (s := s.adopt pool b) (fun b' hb' _ ↦ ?_) (served_forwardMessage msg _)
    rw [hadopt b' hb']
    exact hb.atRest
  · refine handed_silent (by simp) fun b' hb' _ ↦ ?_
    obtain ⟨b₁, hb₁, hask⟩ : ∃ b₁, (s.adopt pool b).bConn = some b₁ ∧ b'.peer = b₁.peer := by
      cases hb'
      exact ⟨_, rfl, rfl⟩
    rw [hask, hadopt b₁ hb₁]
    exact hb.atRest

end PgRouter.Client.Custody
