import PgRouter.Client.Attachment
import PgRouter.Sql.Router

namespace PgRouter.Client.SessionMode

open Library.Runs Library.Records Protocol Servers Handler Effects Handling Attachment

variable {γ : Type} {sql : SQL γ} {h : Option ℕ} {s : Session γ} {r : Res γ} {input : Input}

def departs : Input → Bool
  | .ctxDone | .clientEOF | .clientFailed | .message .terminate _ | .sent false | .received _ false => true
  | _ => false

/-- No read from and no write to the backend fails or times out, and the client is not timed out. -/
def smooth (s : Session γ) : Input → Bool
  | .sendFailed .. | .receiveEOF _ | .receiveFailed .. => false
  | .receiveTimeout _ => match s.phase with
    | .polling => true
    | _ => false
  | .clientTimeout now _ => s.polls now
  | .received (.errorResponse ..) _ => match s.phase with
    | .replaying _ => false
    | _ => true
  | _ => true

/-- A drain ends outside of a transaction only once the session is pinned. -/
def pinnedWhenIdle (s : Session γ) : Input → Bool
  | .received (.readyForQuery txStatus) _ => match s.phase with
    | .draining _ => s.sessionPinned || txStatus != txIdle
    | _ => true
  | _ => true

def settled (c : History γ) (input : Input) : Bool :=
  smooth c.current input && pinnedWhenIdle c.current input

def resetsNot : Phase → Bool
  | .resetFlush _ | .resetting _ => false
  | _ => true

structure Stays (h : Option ℕ) (s : Session γ) : Prop where
  mode : s.cfg.poolMode = .session
  conn : s.bConn.map Backend.id = h
  phase : resetsNot s.phase = true
  free : ∀ msg pool, s.phase = .acquiring msg pool → s.bConn = none

structure Outcome (h : Option ℕ) (input : Input) (r : Res γ) : Prop where
  forwards : ∀ b m, .forward b m ∈ r.2 → h = some b
  next : Stays h r.1 ∨ departs input = true ∧ closing r.1.phase = true

theorem outcome_quiet (hs : Stays h r.1) (hquiet : Quiet r.2) : Outcome h input r :=
  ⟨fun b m hmem ↦ absurd hmem (hquiet b m), .inl hs⟩

theorem outcome_leave (hinput : departs input = true) (s : Session γ) : Outcome h input s.leave :=
  ⟨fun b m hmem ↦ absurd hmem (quiet_leave s b m), .inr ⟨hinput, closing_leave s⟩⟩

theorem Outcome.andThen {f : Session γ → Res γ} (hr : ∀ b m, .forward b m ∈ r.2 → h = some b)
    (hf : Outcome h input (f r.1)) : Outcome h input (r.andThen f) := by
  refine ⟨fun b m hmem ↦ ?_, hf.next⟩
  rcases List.mem_append.mp hmem with hmem | hmem
  · exact hr b m hmem
  · exact hf.forwards b m hmem

theorem stays_loop (hs : Stays h s) : Stays h s.loop := ⟨hs.mode, hs.conn, rfl, by simp [Session.loop]⟩

theorem stays_holding (hs : Stays h s) (hr : Holding s r) (hphase : resetsNot r.1.phase = true)
    (hfree : ∀ msg pool, r.1.phase = .acquiring msg pool → r.1.bConn = none) : Outcome h input r := by
  refine ⟨fun b m hmem ↦ ?_, .inl ⟨?_, hr.conn.trans hs.conn, hphase, hfree⟩⟩
  · rw [← hs.conn]
    exact hr.forwards b m hmem
  · rw [hr.cfg]
    exact hs.mode

theorem outcome_served (hs : Stays h s) (hr : Served s r) (hhold : Holding s r) : Outcome h input r := by
  apply stays_holding hs hhold
  · rcases hr.phase with hphase | hphase | ⟨-, msg, pool, hphase⟩
    · rw [hphase]
      rfl
    · rw [hphase]
      rfl
    · rw [hphase]
      rfl
  · intro msg pool hacq
    rcases hr.phase with hphase | hphase | ⟨hnone, -⟩
    · rw [hphase] at hacq
      cases hacq
    · rw [hphase] at hacq
      cases hacq
    · exact hnone

theorem served_top (hr : Served s r) : Served { s with phase := .top } r :=
  ⟨hr.id, hr.cfg, hr.tx, hr.phase, hr.conn, hr.acts⟩

section

variable (hs : Stays h s)

include hs

theorem outcome_attach (msg : FrontendMessage) (pool : ℕ) (b : Backend) :
    Outcome (some b.id) input (s.attach sql msg pool b) := by
  have hconn : (s.adopt pool b).bConn.map Backend.id = some b.id := by
    simp only [Session.adopt, Option.map_some]
    split <;> rfl
  unfold Session.attach
  split
  · have hadopt : Stays (some b.id) { s.adopt pool b with phase := .top } :=
      ⟨hs.mode, hconn, rfl, by simp⟩
    have hhold : Holding (s.adopt pool b) ((s.adopt pool b).forwardMessage sql msg) :=
      holding_forwardMessage msg _
    exact outcome_served hadopt (served_top (served_forwardMessage msg _))
      ⟨hhold.cfg, hhold.conn, hhold.pool, hhold.forwards⟩
  · refine outcome_quiet ⟨hs.mode, ?_, rfl, by simp⟩ quiet_nil
    rw [← hconn]
    simp [Session.ask, Option.map_map, Function.comp_def]

variable {m : BackendMessage}

theorem outcome_drainReceived {splicing ok : Bool}
    (hphase : s.phase = .draining splicing) (hpin : pinnedWhenIdle s (.received m ok) = true) :
    Outcome h (.received m ok) (s.drainReceived splicing m ok) := by
  have hquiet := quiet_drainReceived splicing m ok s
  have hkeep {t : Session γ} (hcfg : t.cfg = s.cfg) (hconn : t.bConn = s.bConn) (hp : t.phase = s.phase) :
      Stays h t := by
    refine ⟨by rw [hcfg]; exact hs.mode, by rw [hconn]; exact hs.conn, by rw [hp, hphase]; rfl, ?_⟩
    intro msg pool hacq
    rw [hp, hphase] at hacq
    cases hacq
  unfold Session.drainReceived at hquiet ⊢
  split
  · exact outcome_quiet (hkeep rfl rfl rfl) quiet_nil
  · split
    · exact outcome_quiet (hkeep rfl rfl rfl) quiet_nil
    · rw [if_neg ‹_›, if_neg ‹_›] at hquiet
      cases ok with
      | false => exact ⟨fun b m hmem ↦ absurd hmem (hquiet b m), .inr ⟨rfl, closing_leave _⟩⟩
      | true =>
        refine outcome_quiet ?_ hquiet
        simp only [Res.andThen, if_true]
        rcases Session.observe_cases m (s.pass m true).1 with ⟨txStatus, rfl, hobs⟩ | ⟨-, hobs⟩ | ⟨-, hobs⟩
        · -- the session is pinned, or the transaction goes on
          rw [hobs]
          unfold Session.finalizeRFQ
          rw [if_neg]
          · exact stays_loop (hkeep rfl rfl rfl)
          · have hmode : s.cfg.isStatementMode = false := by simp [PooledConfig.isStatementMode, hs.mode]
            simp only [pinnedWhenIdle, hphase] at hpin
            simp [Session.note, Session.pass, Session.beFlush, hmode, ClientState.observeBackendMessage,
              ClientState.isIdle]
            intro hfree
            simpa [hfree] using hpin
        · rw [hobs]
          exact stays_loop (hkeep rfl rfl rfl)
        · rw [hobs]
          exact hkeep rfl rfl rfl

theorem outcome_startDrain (ok : Bool) : Outcome h (.sent ok) (s.startDrain ok) := by
  have hdrain (splicing : Bool) : Stays h { s with phase := .draining splicing } :=
    ⟨hs.mode, hs.conn, rfl, by simp⟩
  unfold Session.startDrain
  split
  · refine Outcome.andThen (fun b m hmem ↦ absurd hmem (quiet_beFlush ok s b m)) ?_
    cases ok with
    | true => exact outcome_quiet ⟨hs.mode, hs.conn, rfl, by simp⟩ quiet_nil
    | false => exact outcome_leave rfl _
  · exact outcome_quiet (hdrain false) quiet_nil

theorem outcome_sent (hphase : s.phase = .flushing) (ok : Bool) :
    Outcome h (.sent ok) (s.writeBatch.andThen fun s ↦ s.startDrain ok) := by
  have hhold := holding_writeBatch s
  have hbatch : s.writeBatch.1.phase = .flushing := by
    unfold Session.writeBatch
    split
    · split <;> exact hphase
    · simpa using hphase
  refine .andThen (fun b m hmem ↦ ?_) (outcome_startDrain ⟨?_, hhold.conn.trans hs.conn, ?_, ?_⟩ ok)
  · rw [← hs.conn]
    exact hhold.forwards b m hmem
  · rw [hhold.cfg]
    exact hs.mode
  · rw [hbatch]
    rfl
  · rw [hbatch]
    simp

theorem stays_flush {phase : Phase} (hphase : resetsNot phase = true)
    (hacq : ∀ msg pool, phase ≠ .acquiring msg pool) :
    Outcome h input ({ s with phase } : Session γ).flush := by
  refine outcome_quiet ⟨?_, ?_, ?_, ?_⟩ (quiet_flush _)
  · unfold Session.flush
    split <;> exact hs.mode
  · rw [← hs.conn]
    unfold Session.flush
    split <;> simp_all
  · rw [Session.flush_phase]
    exact hphase
  · rw [Session.flush_phase]
    exact fun msg pool h ↦ absurd h (hacq msg pool)

theorem outcome_pollReceived (hphase : s.phase = .polling) (m : BackendMessage) (ok : Bool) :
    Outcome h (.received m ok) (s.pollReceived m ok) := by
  refine Outcome.andThen (fun b m hmem ↦ absurd hmem (quiet_beFlush ok _ b m)) ?_
  cases ok with
  | true =>
    refine outcome_quiet ⟨hs.mode, hs.conn, ?_, ?_⟩ quiet_nil
    · exact congrArg resetsNot hphase
    · intro msg pool hacq
      cases hphase.symm.trans hacq
  | false =>
    exact ⟨fun b m hmem ↦ absurd hmem (quiet_discard _ b m), .inr ⟨rfl, by simp [closing]⟩⟩

theorem outcome_replayReceived {msg : FrontendMessage} (hphase : s.phase = .replaying msg) {ok : Bool}
    (hsmooth : smooth s (.received m ok) = true) :
    Outcome h input (s.replayReceived sql msg m ok) := by
  unfold Session.replayReceived
  split
  · simp [smooth, hphase] at hsmooth
  · exact outcome_served hs (served_forwardMessage msg s) (holding_forwardMessage msg s)
  · exact outcome_quiet hs quiet_nil

theorem outcome_greet (params : List (Text × Text)) (key : UInt32 × Text) (ok : Bool) :
    Outcome h input (s.greet params key ok) := by
  refine Outcome.andThen (fun b m hmem ↦ absurd hmem (quiet_beFlush ok _ b m)) ?_
  cases ok with
  | true => exact outcome_quiet ⟨hs.mode, hs.conn, rfl, by simp [Session.loop]⟩ quiet_nil
  | false => exact outcome_quiet ⟨hs.mode, hs.conn, rfl, by simp⟩ quiet_nil

end

theorem smooth_lost (hinput : input.lost = true) : smooth s input = false := by
  cases input <;> first | rfl | cases hinput

theorem step_outcome (hs : Stays h s) (hsmooth : smooth s input = true)
    (hpin : pinnedWhenIdle s input = true) (hstep : s.step sql input = some r) :
    ∃ h', Outcome h' input r ∧ (h' = h ∨ h = none) ∧
      ∀ b, input = .acquired b → s.phase ≠ .welcome → h' = some b.id := by
  have hstay (hinput : ∀ b, input ≠ .acquired b) (houtcome : Outcome h input r) :
      ∃ h', Outcome h' input r ∧ (h' = h ∨ h = none) ∧
        ∀ b, input = .acquired b → s.phase ≠ .welcome → h' = some b.id :=
    ⟨h, houtcome, .inl rfl, fun b hb ↦ absurd hb (hinput b)⟩
  have hreset {phase : Phase} (hphase : s.phase = phase) (hnot : resetsNot phase = false) : False := by
    have hfree := hs.phase
    rw [hphase, hnot] at hfree
    cases hfree
  cases steps_of_step hstep with
  | probed hphase b =>
    refine ⟨h, outcome_quiet ⟨hs.mode, hs.conn, rfl, by simp⟩ (by simp [Quiet]), .inl rfl, ?_⟩
    intro _ _ hne
    exact absurd hphase hne
  | unprobed hphase err ok =>
    exact hstay (by simp) (outcome_quiet ⟨hs.mode, hs.conn, rfl, by simp⟩ quiet_nil)
  | greeted hphase params key ok => exact hstay (by simp) (outcome_greet hs params key ok)
  | goodbye hphase hinput =>
    apply hstay
    · rintro b rfl
      cases hinput
    · refine outcome_leave ?_ s
      cases input <;> first | rfl | cases hinput
  | clientTimeout hphase hdeadline now ok =>
    have hpolls : s.polls now = true := hsmooth
    apply hstay (by simp)
    unfold Session.clientTimeout
    rw [if_pos hpolls]
    exact outcome_quiet ⟨hs.mode, hs.conn, rfl, by simp⟩ quiet_nil
  | message hphase msg env =>
    apply hstay (by simp)
    by_cases hmsg : msg = .terminate
    · subst hmsg
      exact outcome_leave rfl s
    · exact outcome_served hs (served_clientMessage env hmsg s)
        (holding_handled (handled_of_clientMessage hmsg env s))
  | polled hphase m ok => exact hstay (by simp) (outcome_pollReceived hs hphase m ok)
  | nothing hphase ok => exact hstay (by simp) (outcome_quiet (stays_loop hs) quiet_nil)
  | pollLost hphase hinput => simp [smooth_lost hinput] at hsmooth
  | acquired hphase b =>
    refine ⟨some b.id, outcome_attach hs _ _ b, .inr ?_, ?_⟩
    · rw [← hs.conn, hs.free _ _ hphase]
      rfl
    · rintro b' hb' -
      cases hb'
      rfl
  | acquireFailed hphase err ok =>
    apply hstay (by simp)
    refine Outcome.andThen (fun b m hmem ↦ absurd hmem (quiet_beFlush ok _ b m)) ?_
    rw [Session.leave_detached (by exact hs.free _ _ hphase)]
    exact outcome_quiet ⟨hs.mode, hs.conn, rfl, by simp⟩ quiet_nil
  | replaySent hphase ok => exact hstay (by simp) (stays_flush hs rfl (by simp))
  | replayUnsent hphase err ok => cases hsmooth
  | replayReceived hphase m ok => exact hstay (by simp) (outcome_replayReceived hs hphase hsmooth)
  | replayLost hphase hinput err ok => simp [smooth_lost hinput] at hsmooth
  | sent hphase ok => exact hstay (by simp) (outcome_sent hs hphase ok)
  | unsent hphase err ok => cases hsmooth
  | drained hphase m ok => exact hstay (by simp) (outcome_drainReceived hs hphase hpin)
  | queryTimeout hphase htimeout ok => simp [smooth, hphase] at hsmooth
  | spliceEOF hphase ok | drainEOF hphase ok | drainFailed hphase err ok => cases hsmooth
  | resetSent hphase ok | resetUnsent hphase err ok | resetReceived hphase m ok | resetLost hphase hinput =>
    exact (hreset hphase rfl).elim

theorem step_closing (hclosing : closing s.phase = true) (hstep : s.step sql input = some r) :
    closing r.1.phase = true ∧ Quiet r.2 ∧ ∀ b, input ≠ .acquired b := by
  have hphase {phase : Phase} (hphase : s.phase = phase) (hnot : closing phase = false) : False := by
    rw [hphase, hnot] at hclosing
    cases hclosing
  cases steps_of_step hstep with
  | resetSent hp ok =>
    rw [hp] at hclosing
    refine ⟨?_, quiet_flush _, by simp⟩
    rw [Session.flush_phase]
    exact hclosing
  | resetUnsent hp err ok =>
    rw [hp] at hclosing
    obtain rfl : _ = true := hclosing
    exact ⟨rfl, quiet_resetFailed _ _, by simp⟩
  | resetReceived hp m ok =>
    rw [hp] at hclosing
    obtain rfl : _ = true := hclosing
    exact ⟨closing_resetReceived hp m, quiet_resetReceived _ _ _, by simp⟩
  | resetLost hp hinput =>
    rw [hp] at hclosing
    obtain rfl : _ = true := hclosing
    refine ⟨rfl, quiet_resetFailed _ _, ?_⟩
    rintro b rfl
    cases hinput
  | greeted hp => exact (hp.elim (hphase · rfl) (hphase · rfl)).elim
  | _ hp => exact (hphase hp rfl).elim

def Home (h : Option ℕ) (past : List (Step γ)) : Prop :=
  ∀ y ∈ past, (∀ b m, .forward b m ∈ y.output → h = some b) ∧
    ∀ b, y.event = .acquired b → y.before.phase ≠ .welcome → h = some b.id

def Departed (past : List (Step γ)) : Prop := ∃ y ∈ past, departs y.event = true

def Kept (c : History γ) : Prop :=
  ∃ h, Home h c.past ∧ (Stays h c.current ∨ Departed c.past ∧ closing c.current.phase = true)

variable {past : List (Step γ)}

theorem Home.append {h' : Option ℕ} {y : Step γ} (hpast : Home h past)
    (hkeep : h' = h ∨ h = none) (hforwards : ∀ b m, .forward b m ∈ y.output → h' = some b)
    (hacquired : ∀ b, y.event = .acquired b → y.before.phase ≠ .welcome → h' = some b.id) :
    Home h' (past ++ [y]) := by
  intro x hx
  rcases List.mem_append.mp hx with hx | hx
  · obtain ⟨hf, ha⟩ := hpast x hx
    rcases hkeep with rfl | rfl
    · exact ⟨hf, ha⟩
    · exact ⟨fun b m hmem ↦ (nomatch hf b m hmem), fun b hb hne ↦ (nomatch ha b hb hne)⟩
  · cases List.mem_singleton.mp hx
    exact ⟨hforwards, hacquired⟩

theorem Departed.append (hpast : Departed past) (y : Step γ) :
    Departed (past ++ [y]) := by
  obtain ⟨x, hx, hdep⟩ := hpast
  exact ⟨x, List.mem_append_left _ hx, hdep⟩

theorem departed_last (past : List (Step γ)) {y : Step γ} (hy : departs y.event = true) :
    Departed (past ++ [y]) := ⟨y, List.mem_append_right _ (List.mem_singleton_self y), hy⟩

def ReleasedLate (before : List (Step γ)) (y : Step γ) : Prop :=
  y.before.bConn.isSome = true → y.after.bConn = none → Departed (before ++ [y])

theorem kept_step {c : History γ} (hc : Kept c) (hguard : settled c input = true)
    (hstep : c.current.step sql input = some r) :
    Kept ⟨r.1, c.past ++ [⟨c.current, input, r.1, r.2⟩]⟩ ∧
      ReleasedLate c.past ⟨c.current, input, r.1, r.2⟩ := by
  rw [settled, Bool.and_eq_true] at hguard
  obtain ⟨h, hhome, hs | ⟨hdep, hclosing⟩⟩ := hc
  · obtain ⟨h', hout, hkeep, hacq⟩ := step_outcome hs hguard.1 hguard.2 hstep
    have hhome' := hhome.append (y := ⟨c.current, input, r.1, r.2⟩) hkeep hout.forwards hacq
    rcases hout.next with hs' | ⟨hinput, hclosing⟩
    · refine ⟨⟨h', hhome', .inl hs'⟩, fun hsome hnone ↦ ?_⟩
      -- the session held `h`, and still holds it
      have hnone' : h' = none := by
        rw [← hs'.conn, hnone]
        rfl
      obtain rfl : h = none := by
        rcases hkeep with rfl | rfl
        · exact hnone'
        · rfl
      have hfree := hs.conn
      rw [Option.map_eq_none_iff] at hfree
      rw [hfree] at hsome
      cases hsome
    · exact ⟨⟨h', hhome', .inr ⟨departed_last _ hinput, hclosing⟩⟩, fun _ _ ↦ departed_last _ hinput⟩
  · obtain ⟨hclosing', hquiet, hinput⟩ := step_closing hclosing hstep
    refine ⟨⟨h, ?_, .inr ⟨hdep.append _, hclosing'⟩⟩, fun _ _ ↦ hdep.append _⟩
    exact hhome.append (.inl rfl) (fun b m hmem ↦ absurd hmem (hquiet b m)) fun b hb ↦ absurd hb (hinput b)

theorem kept_start (id : ℕ) {cfg : PooledConfig} (hmode : cfg.poolMode = .session) :
    Kept (start (Session.new sql id cfg)) :=
  ⟨none, by simp [Home, start], .inl ⟨hmode, rfl, rfl, fun _ _ _ ↦ rfl⟩⟩

/-- A session in session mode that is pinned whenever it is idle keeps the backend it acquired first. -/
theorem one_backend (id : ℕ) {cfg : PooledConfig} (hmode : cfg.poolMode = .session) {inputs : List Input}
    {c : History γ}
    (hrun : Run (recorded (Session.step sql)) settled (start (Session.new sql id cfg)) inputs c) :
    (∃ b, ∀ y ∈ c.past, (∀ b' m, .forward b' m ∈ y.output → b' = b) ∧
        ∀ b', y.event = .acquired b' → y.before.phase ≠ .welcome → b'.id = b) ∧
      ∀ before y after, c.past = before ++ y :: after → y.before.bConn.isSome = true → y.after.bConn = none →
        ∃ x ∈ before ++ [y], departs x.event = true := by
  have hkeep (c : History γ) (input : Input) (r : Res γ) (hc : Kept c)
      (hguard : settled c input = true) (hstep : c.current.step sql input = some r) :=
    kept_step hc hguard hstep
  constructor
  · have hkept : Kept c :=
      recorded_invariant (fun c input r hc hg hr ↦ (hkeep c input r hc hg hr).1) (kept_start id hmode) hrun
    obtain ⟨h, hhome, -⟩ := hkept
    refine ⟨h.getD 0, fun y hy ↦ ?_⟩
    obtain ⟨hforwards, hacquired⟩ := hhome y hy
    constructor
    · intro b' m hmem
      rw [hforwards b' m hmem]
      rfl
    · intro b' hb' hne
      rw [hacquired b' hb' hne]
      rfl
  · intro before y after hsplit
    exact recorded_each hkeep (kept_start id hmode) hrun hsplit

def sessions : PooledConfig := { pooling with poolMode := .session }

def listening : List Input :=
  welcomed ++ [.message (.query (ascii "LISTEN jobs")) calm, .acquired (.dialed 0 none), .sent true,
    .received (.readyForQuery txIdle) true, .message (.query (ascii "SELECT 1")) calm, .sent true,
    .received (.readyForQuery txIdle) true, .message .terminate calm, .sent true,
    .received (.readyForQuery txIdle) true]

theorem one_backend_listening :
    ∃ c, Run (recorded (Session.step (Sql.routerSQL id))) settled
        (start (Session.new (Sql.routerSQL id) 0 sessions)) listening c ∧
      (∃ b, ∀ y ∈ c.past, (∀ b' m, .forward b' m ∈ y.output → b' = b) ∧
          ∀ b', y.event = .acquired b' → y.before.phase ≠ .welcome → b'.id = b) ∧
        ∀ before y after, c.past = before ++ y :: after → y.before.bConn.isSome = true →
          y.after.bConn = none → ∃ x ∈ before ++ [y], departs x.event = true := by
  have hrun : Run (recorded (Session.step (Sql.routerSQL id))) settled
      (start (Session.new (Sql.routerSQL id) 0 sessions)) listening _ := run_of_exec rfl
  exact ⟨_, hrun, one_backend 0 rfl hrun⟩

def undisturbed (c : History γ) (input : Input) : Bool :=
  smooth c.current input && !departs input

/-- Two statements of a client in session mode go to two backends, though nothing fails and the client
stays. -/
theorem session_moves :
    ∃ c, Run (recorded (Session.step (Sql.routerSQL id))) undisturbed
        (start (Session.new (Sql.routerSQL id) 0 { sessions with resetOnRelease := false }))
        (welcomed ++ [.message (.query (ascii "SELECT 1")) calm, .acquired (.dialed 0 none), .sent true,
          .received (.readyForQuery txIdle) true, .message (.query (ascii "SELECT 2")) calm,
          .acquired (.dialed 1 none)]) c ∧
      c.past.flatMap Entry.output =
        [.deliver none .authenticationOk, .deliver none (.backendKeyData 0 []),
          .deliver none (.readyForQuery txIdle), .forward 0 (.query (ascii "SELECT 1")),
          .wrote 0 0 (.query (ascii "SELECT 1")), .deliver (some 0) (.readyForQuery txIdle),
          .put 0 (.dialed 0 none), .forward 1 (.query (ascii "SELECT 2"))] :=
  ⟨_, run_of_exec rfl, rfl⟩

end PgRouter.Client.SessionMode
