import PgRouter.Client.SendBuffer

namespace PgRouter.Client.Departures

open Library.Runs Protocol Servers Handler Effects Sharing SendBuffer

variable {γ : Type} {sql : SQL γ} {i : ℕ} {s : Session γ} {r : Res γ}

def exits (s : Session γ) : Input → Bool
  | .ctxDone | .clientEOF | .clientFailed => true
  | .clientTimeout now _ => !s.polls now
  | .message msg _ => msg == .terminate
  | _ => false

/-- `Serve` leaves its loop outside of a transaction, and no reset follows, only when nothing is left in
the send buffer. -/
def flushedAtExit (s : Session γ) (input : Input) (_ : List Answer) : Bool :=
  match s.phase with
  | .top => !exits s input || s.cfg.resetOnRelease || !s.state.isIdle ||
      s.bConn.all fun b ↦ b.sendBuf.isEmpty
  | _ => true

variable {answers : List Answer} {b : Backend} {input : Input}

theorem flushed_of_exit (hphase : s.phase = .top) (hguard : flushedAtExit s input answers = true)
    (hexit : exits s input = true) (hidle : s.state.isIdle = true) (hreset : s.cfg.resetOnRelease = false)
    (hb : s.bConn = some b) : Flushed b := by
  unfold Flushed
  simpa [flushedAtExit, hphase, hexit, hidle, hreset, hb] using hguard

theorem proper_clientTimeout {now : ℤ} {ok : Bool} (hs : Tidy i s) (hphase : s.phase = .top)
    (hguard : flushedAtExit s (.clientTimeout now ok) answers = true) : Proper i (s.clientTimeout now ok) := by
  have hfits := hs.fits
  rw [hphase] at hfits
  unfold Session.clientTimeout
  split
  · exact ⟨⟨hs.id, hfits⟩, by simp⟩
  · rename_i hpolls
    have hleave {code msg : String} : Proper i ((s.sendFatalError code msg ok).andThen Session.leave) := by
      refine .andThen (lawful_of_local (beFlush_local ok _)) ?_
      apply proper_leave
      · exact hs.id
      · exact fun b hb ↦ hs.tagged hb
      · exact fun hidle hreset b hb ↦
          flushed_of_exit hphase hguard (by simpa [exits] using hpolls) hidle hreset hb
    split
    · exact hleave
    · exact hleave

theorem step_proper (hs : Tidy i s) (hpool : ∀ b, input = .acquired b → Flushed b)
    (hguard : flushedAtExit s input answers = true ∨ ∃ b, input = .acquired b) (hstep : s.step sql input = some r) :
    Proper i r := by
  have hfits {phase : Phase} (hphase : s.phase = phase) :
      ∀ b, s.bConn = some b → Fits i s.cfg.rawPassthrough phase b := by
    rw [← hphase]
    exact hs.fits
  have hnone {phase : Phase} (hphase : s.phase = phase) (hfree : ∀ raw b, ¬Fits i raw phase b) :
      s.bConn = none := hs.detached (by rw [hphase]; exact hfree)
  have htag (b : Backend) (hb : s.bConn = some b) : Tagged i b := hs.tagged hb
  have hexit (hphase : s.phase = .top) (hexit : exits s input = true) : Proper i s.leave := by
    refine proper_leave hs.id htag fun hidle hreset b hb ↦ ?_
    rcases hguard with hguard | ⟨b, rfl⟩
    · exact flushed_of_exit hphase hguard hexit hidle hreset hb
    · cases hexit
  have hlost {b : Backend} (hb : s.loseBuf.bConn = some b) : Flushed b := loseBuf_flushed hb
  cases steps_of_step hstep with
  | probed hphase b =>
    exact ⟨tidy_detached hs.id (hnone hphase fun _ _ h ↦ h), by simpa [Lawful] using hpool b rfl⟩
  | unprobed hphase err ok => exact ⟨tidy_detached hs.id (hnone hphase fun _ _ h ↦ h), by simp⟩
  | greeted hphase params key ok =>
    refine proper_greet hs.id ?_ params key ok
    rcases hphase with hphase | hphase
    · exact hnone hphase fun _ _ h ↦ h
    · exact hnone hphase fun _ _ h ↦ h
  | goodbye hphase hinput =>
    refine hexit hphase ?_
    cases input <;> first | rfl | cases hinput
  | clientTimeout hphase hdeadline now ok =>
    exact proper_clientTimeout hs hphase (hguard.resolve_right (by simp))
  | message hphase msg env =>
    by_cases hmsg : msg = .terminate
    · subst hmsg
      exact hexit hphase rfl
    · exact proper_served hs.id (hfits hphase) (served_clientMessage env hmsg s)
  | polled hphase m ok => exact proper_pollReceived hs.id (hfits hphase) hphase m ok
  | nothing hphase ok =>
    have hrest := hfits hphase
    exact ⟨⟨hs.id, hrest⟩, by simp⟩
  | pollLost hphase hinput => exact proper_closed hs.id htag (closed_discard rfl rfl)
  | acquired hphase b => exact proper_attach hs.id (hpool b rfl) _ _
  | acquireFailed hphase err ok =>
    refine .andThen (lawful_of_local (beFlush_local ok _)) ?_
    rw [Session.leave_detached (by exact hnone hphase fun _ _ h ↦ h)]
    exact ⟨tidy_detached hs.id (hnone hphase fun _ _ h ↦ h), by simp⟩
  | replaySent hphase ok | resetSent hphase ok =>
    apply proper_flush
    · exact hs.id
    · exact htag
    · exact fun _ _ hb ↦ hb
  | replayUnsent hphase err ok =>
    exact proper_closed (s := s.loseBuf) hs.id (fun b hb ↦ (hlost hb).tagged) (closed_replayFailed _ ok _)
  | replayReceived hphase m ok => exact proper_replayReceived hs.id (hfits hphase) hphase m ok
  | replayLost hphase hinput err ok => exact proper_closed hs.id htag (closed_replayFailed err ok s)
  | sent hphase ok =>
    obtain ⟨hacts, hid, hempty⟩ := writeBatch_lawful hs.id (hfits hphase)
    exact .andThen hacts (proper_startDrain hid hempty ok)
  | unsent hphase err ok =>
    exact proper_leave (s := s.loseBuf) hs.id (fun b hb ↦ (hlost hb).tagged) fun _ _ _ hb ↦ hlost hb
  | drained hphase m ok => exact proper_drainReceived hs.id (hfits hphase) hphase m ok
  | queryTimeout hphase htimeout ok => exact proper_closed hs.id htag (closed_queryTimeout ok s)
  | spliceEOF hphase ok =>
    exact ⟨⟨hs.id, fun b hb ↦ ⟨htag b hb, fun _ ↦ hfits hphase b hb⟩⟩, by simp⟩
  | drainEOF hphase ok | drainFailed hphase err ok => exact proper_leave hs.id htag fun _ _ ↦ hfits hphase
  | resetUnsent hphase err ok =>
    exact proper_closed (s := s.loseBuf) hs.id (fun b hb ↦ (hlost hb).tagged) (closed_resetFailed _ _)
  | resetReceived hphase m ok => exact proper_resetReceived hs.id (hfits hphase) hphase m
  | resetLost hphase hinput => exact proper_closed hs.id htag (closed_resetFailed _ s)

theorem fits_peer {raw : Bool} {phase : Phase} (peer : Peer) (hb : Fits i raw phase b) :
    Fits i raw phase { b with peer } := by
  cases phase <;> exact hb

theorem tidy_encounter {s' : Session γ} (hs : Tidy i s) (hmet : encounter answers input s = some s') :
    Tidy i s' ∧ flushedAtExit s' input answers = flushedAtExit s input answers := by
  rcases encounter_cases hmet with ⟨-, rfl⟩ | ⟨b, peer, hb, -, rfl⟩
  · exact ⟨hs, rfl⟩
  · refine ⟨⟨hs.id, fun b' hb' ↦ ?_⟩, ?_⟩
    · cases hb'
      exact fits_peer peer (hs.fits b hb)
    · unfold flushedAtExit
      cases input <;> simp [exits, Session.polls, hb]

theorem keeps_tidy : Keeps sql flushedAtExit Tidy Flushed where
  fresh i cfg := tidy_detached rfl rfl
  dialed id prepared := rfl
  steps := by
    intro i input answers s s' r hs hpool hguard hmet hstep
    obtain ⟨htidy, hsame⟩ := tidy_encounter hs hmet
    rw [← hsame] at hguard
    obtain ⟨hr, hacts⟩ := step_proper htidy hpool hguard hstep
    exact ⟨hr, hacts⟩

/-- When nobody leaves messages behind, no message is written after its client has gone, and the send
buffers of the idle backends are empty. -/
theorem nothing_late {es : List Event} {sys : System γ}
    (hrun : Run (Sharing.step sql) (each flushedAtExit) empty es sys) :
    sys.late = [] ∧ ∀ p ∈ sys.idle, p.2.sendBuf = [] :=
  ⟨(keeps_tidy.run hrun).late, (keeps_tidy.run hrun).idle⟩

def tidyVisit : List Event :=
  [.serve { pooling with resetOnRelease := false }, .step 0 (.greeted [] (0, []) true) [],
    .step 0 (.message (.parse [] (ascii "SELECT 1") []) calm) [], .dial 0 none,
    .step 0 (.message .sync calm) [], .step 0 (.sent true) [⟨[.parseComplete], .none⟩, ⟨[], .ready txIdle⟩],
    .step 0 (.received .parseComplete true) [], .step 0 (.received (.readyForQuery txIdle) true) [],
    .step 0 .clientEOF []]

theorem nothing_late_tidyVisit :
    ∃ sys : System Unit, Run (Sharing.step plainSQL) (each flushedAtExit) empty tidyVisit sys ∧
      sys.idle ≠ [] ∧ sys.late = [] ∧ ∀ p ∈ sys.idle, p.2.sendBuf = [] := by
  have hrun : Run (Sharing.step plainSQL) (each flushedAtExit) empty tidyVisit _ := run_of_exec rfl
  exact ⟨_, hrun, List.cons_ne_nil _ _, nothing_late hrun⟩

/-- The client leaves right after the `Parse`: the backend goes back with the `Parse` in its send
buffer, and the flush of the next client writes it. -/
def hastyVisit : List Event :=
  [.serve { pooling with resetOnRelease := false }, .step 0 (.greeted [] (0, []) true) [],
    .step 0 (.message (.parse [] (ascii "SELECT 1") []) calm) [], .dial 0 none, .step 0 .clientEOF []]

def nextVisit : List Event :=
  [.serve { pooling with resetOnRelease := false }, .step 1 (.greeted [] (0, []) true) [],
    .step 1 (.message (.query (ascii "SELECT 2")) calm) [], .take 1 0,
    .step 1 (.sent true) [⟨[.parseComplete], .none⟩, ⟨[], .ready txIdle⟩]]

theorem hastyVisit_late :
    (∃ sys : System Unit, Run (Sharing.step plainSQL) anyStep empty hastyVisit sys ∧
      ∃ p ∈ sys.idle, p.2.sendBuf = [(0, .parse [] (ascii "SELECT 1") [])]) ∧
    ∃ sys : System Unit, Run (Sharing.step plainSQL) anyStep empty (hastyVisit ++ nextVisit) sys ∧
      sys.late = [(0, .parse [] (ascii "SELECT 1") [])] :=
  ⟨⟨_, run_of_exec rfl, _, List.mem_cons_self, rfl⟩, _, run_of_exec rfl, rfl⟩

end PgRouter.Client.Departures
