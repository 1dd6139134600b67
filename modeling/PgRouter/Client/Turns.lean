import PgRouter.Client.Attachment

namespace PgRouter.Client.Turns

open Protocol Prepared Servers Handler Handling Attachment

variable {γ : Type} {sql : SQL γ} {s : Session γ} {r : Res γ}

def isOver : Phase → Bool
  | .resetFlush _ | .resetting _ | .returned => true
  | _ => false

def tells (acts : List Act) : List UInt8 :=
  acts.filterMap fun
    | .deliver _ (.readyForQuery txStatus) => some txStatus
    | _ => none

def statusOf : BackendMessage → List UInt8
  | .readyForQuery txStatus => [txStatus]
  | _ => []

def NoReady (out : List (Option ℕ × BackendMessage)) : Prop := ∀ p ∈ out, statusOf p.2 = []

theorem tells_append (as bs : List Act) : tells (as ++ bs) = tells as ++ tells bs :=
  List.filterMap_append

theorem tells_deliver (out : List (Option ℕ × BackendMessage)) :
    tells (out.map fun p ↦ .deliver p.1 p.2) = out.flatMap fun p ↦ statusOf p.2 := by
  induction out with
  | nil => rfl
  | cons p out ih =>
    rw [List.map_cons, List.flatMap_cons, ← ih]
    unfold tells
    rw [List.filterMap_cons]
    cases p.2 <;> rfl

theorem tells_beFlush (hout : NoReady s.out) (ok : Bool) : tells (s.beFlush ok).2 = [] := by
  simp only [Session.beFlush]
  split
  · rw [tells_deliver, List.flatMap_eq_nil_iff]
    exact hout
  · rfl

theorem tells_wrote (buf : List (ℕ × FrontendMessage)) (b : ℕ) :
    tells (buf.map fun p ↦ .wrote p.1 b p.2) = [] := by
  unfold tells
  simp

/-- What only the client's messages and the filter of a drain change. -/
structure Core (γ : Type) where
  id : ℕ
  cfg : PooledConfig
  guc : γ
  prepCache : Option PrepareCache
  sessionPinned : Bool
  pendingEvictCC : ℕ
  pendingParsePC : ℕ
  writeBuf : List FrontendMessage
  lastWriteAt : Option ℤ

def core (s : Session γ) : Core γ :=
  ⟨s.id, s.cfg, s.guc, s.prepCache, s.sessionPinned, s.pendingEvictCC, s.pendingParsePC, s.writeBuf,
    s.lastWriteAt⟩

def bare (b : Backend) : Backend := { b with sendBuf := [] }

theorem map_id_of_bare {c c' : Option Backend} (h : c.map bare = c'.map bare) :
    c.map Backend.id = c'.map Backend.id := by
  have hid := congrArg (Option.map Backend.id) h
  rwa [Option.map_map, Option.map_map] at hid

/-- Nothing is forwarded, the client is told these transaction statuses, and the session keeps its backend
as it is, gives it up or resets it. -/
structure Retains (told : List UInt8) (s : Session γ) (r : Res γ) : Prop where
  core : core r.1 = core s
  conn : r.1.bConn = none ∨ r.1.bConn.map bare = s.bConn.map bare ∧ r.1.bConnPool = s.bConnPool ∧
    (isOver r.1.phase = true ∨ r.1.bConn = s.bConn)
  quiet : Quiet r.2
  tells : NoReady s.out → tells r.2 = told ∧ NoReady r.1.out

namespace Retains

variable {told told' : List UInt8}

section

variable (h : Retains told s r)

include h

theorem cfg : r.1.cfg = s.cfg := congrArg Core.cfg h.core

theorem prepCache : r.1.prepCache = s.prepCache := congrArg Core.prepCache h.core

theorem lastWriteAt : r.1.lastWriteAt = s.lastWriteAt :=
  congrArg Core.lastWriteAt h.core

theorem writeBuf : r.1.writeBuf = s.writeBuf := congrArg Core.writeBuf h.core

end

theorem of {t : Session γ} (h : Retains told t r) (hcore : Turns.core t = Turns.core s)
    (hconn : t.bConn = s.bConn) (hpool : t.bConnPool = s.bConnPool)
    (hout : NoReady s.out → NoReady t.out) : Retains told s r := by
  refine ⟨h.core.trans hcore, ?_, h.quiet, fun hs ↦ h.tells (hout hs)⟩
  rw [← hconn, ← hpool]
  exact h.conn

theorem andThen {f : Session γ → Res γ} (hf : Retains told' r.1 (f r.1)) (hr : Retains told s r)
    (hkept : r.1.bConn = none ∨ r.1.bConn = s.bConn ∧ r.1.bConnPool = s.bConnPool) :
    Retains (told ++ told') s (r.andThen f) where
  core := hf.core.trans hr.core
  conn := by
    rcases hkept with hnone | ⟨hconn, hpool⟩
    · rcases hf.conn with h | ⟨hid, -⟩
      · exact .inl h
      · rw [hnone, Option.map_none, Option.map_eq_none_iff] at hid
        exact .inl hid
    · rw [← hconn, ← hpool]
      exact hf.conn
  quiet := quiet_append hr.quiet hf.quiet
  tells hs := by
    obtain ⟨htold, hout⟩ := hr.tells hs
    obtain ⟨htold', hout'⟩ := hf.tells hout
    refine ⟨?_, hout'⟩
    rw [Res.andThen, tells_append, htold, htold']

end Retains

theorem retains_quiet {acts : List Act} (hquiet : Quiet acts) (htells : tells acts = []) (s : Session γ) :
    Retains [] s (s, acts) :=
  ⟨rfl, .inr ⟨rfl, rfl, .inr rfl⟩, hquiet, fun hs ↦ ⟨htells, hs⟩⟩

theorem retains_self (s : Session γ) : Retains [] s (s, []) := retains_quiet quiet_nil rfl s

variable {phase : Phase} {input : Input} (m : BackendMessage) (leaving ok : Bool)

theorem retains_beFlush (s : Session γ) : Retains [] s (s.beFlush ok) :=
  ⟨rfl, .inr ⟨rfl, rfl, .inr rfl⟩, quiet_beFlush ok s,
    fun hs ↦ ⟨tells_beFlush hs ok, by simp [NoReady, Session.beFlush]⟩⟩

theorem retains_fatal (code text : String) (ok : Bool) (s : Session γ) :
    Retains [] s (s.sendFatalError code text ok) := by
  refine (retains_beFlush ok _).of rfl rfl rfl fun hs p hp ↦ ?_
  rcases List.mem_append.mp hp with hp | hp
  · exact hs p hp
  · cases List.mem_singleton.mp hp
    rfl

theorem retains_discard (s : Session γ) : Retains [] s s.discard := by
  refine ⟨?_, .inl (Session.discard_bConn s), quiet_discard s, fun hs ↦ ⟨?_, ?_⟩⟩
  · unfold Session.discard
    split <;> rfl
  · unfold Session.discard
    split
    · rfl
    · rw [tells_append, tells_wrote]
      rfl
  · rw [Session.discard_out]
    exact hs

structure Idles (told : List UInt8) (s : Session γ) (r : Res γ) : Prop extends Retains told s r where
  phase : waiting r.1.phase = false

variable {told : List UInt8}

theorem Idles.of {t : Session γ} (h : Idles told t r) (hcore : core t = core s) (hconn : t.bConn = s.bConn)
    (hpool : t.bConnPool = s.bConnPool) (hout : NoReady s.out → NoReady t.out) : Idles told s r :=
  ⟨h.toRetains.of hcore hconn hpool hout, h.phase⟩

theorem idles_phase (hphase : waiting phase = false) (s : Session γ) :
    Idles [] s ({ s with phase }, []) := ⟨(retains_self _).of rfl rfl rfl id, hphase⟩

section

variable (s : Session γ)

theorem idles_loop : Idles [] s (s.loop, []) := ⟨(retains_self _).of rfl rfl rfl id, rfl⟩

theorem idles_resume : Idles [] s (s.resume leaving, []) := by
  cases leaving with
  | true => exact idles_phase rfl s
  | false => exact idles_loop s

theorem idles_putBack : Idles [] s (s.putBack leaving) := by
  unfold Session.putBack
  split
  · exact idles_resume leaving s
  · have hresume := idles_resume leaving ({ s with bConn := none, bConnPool := none } : Session γ)
    refine ⟨⟨hresume.core, .inl ?_, by simp [Quiet], fun hs ↦ ⟨rfl, (hresume.tells hs).2⟩⟩, hresume.phase⟩
    rw [Session.resume_bConn]

theorem idles_release : Idles [] s (s.release leaving) := by
  unfold Session.release
  split
  · refine ⟨⟨rfl, .inr ⟨?_, rfl, .inl rfl⟩, quiet_nil, fun hs ↦ ⟨rfl, hs⟩⟩, rfl⟩
    exact Option.map_map ..
  · exact idles_putBack leaving s

theorem idles_close : Idles [] s ({ s with phase := .returned } : Session γ).discard := by
  refine ⟨(retains_discard _).of rfl rfl rfl id, ?_⟩
  rw [Session.discard_phase]
  rfl

theorem idles_leave : Idles [] s s.leave := by
  unfold Session.leave
  split
  · exact idles_phase rfl s
  · split
    · exact idles_release true s
    · exact idles_close s

theorem idles_finalizeRFQ : Idles [] s s.finalizeRFQ := by
  unfold Session.finalizeRFQ
  split
  · exact idles_release false s
  · exact idles_loop s

end

theorem idles_observe (hphase : waiting s.phase = false) (m : BackendMessage) : Idles [] s (s.observe m) := by
  rcases Session.observe_cases m s with ⟨_, -, hobs⟩ | ⟨-, hobs⟩ | ⟨-, hobs⟩
  · rw [hobs]
    exact (idles_finalizeRFQ _).of rfl rfl rfl id
  · rw [hobs]
    exact (idles_loop _).of rfl rfl rfl id
  · rw [hobs]
    exact ⟨(retains_self _).of rfl rfl rfl id, hphase⟩

def passed (ok : Bool) (m : BackendMessage) : List UInt8 := if ok then statusOf m else []

theorem retains_pass (s : Session γ) : Retains (passed ok m) s (s.pass m ok) := by
  refine ⟨rfl, .inr ⟨rfl, rfl, .inr rfl⟩, quiet_beFlush ok _,
    fun hs ↦ ⟨?_, by simp [NoReady, Session.pass, Session.beFlush]⟩⟩
  simp only [Session.pass, Session.beFlush, passed]
  split
  · rw [tells_deliver, List.flatMap_append, List.flatMap_eq_nil_iff.mpr hs]
    simp
  · rfl

theorem kept_pass (s : Session γ) :
    (s.pass m ok).1.bConn = none ∨ (s.pass m ok).1.bConn = s.bConn ∧ (s.pass m ok).1.bConnPool = s.bConnPool :=
  .inr ⟨rfl, rfl⟩

theorem Idles.after {told' : List UInt8} {f : Session γ → Res γ} (hf : Idles told' r.1 (f r.1))
    (hr : Retains told s r)
    (hkept : r.1.bConn = none ∨ r.1.bConn = s.bConn ∧ r.1.bConnPool = s.bConnPool) :
    Idles (told ++ told') s (r.andThen f) := ⟨.andThen hf.toRetains hr hkept, hf.phase⟩

def passOn (m : BackendMessage) (ok : Bool) (s : Session γ) : Res γ :=
  (s.pass m ok).andThen fun s ↦ if ok then s.observe m else s.leave

theorem idles_passOn (hphase : waiting s.phase = false) (m : BackendMessage) (ok : Bool) :
    Idles (passed ok m) s (passOn m ok s) := by
  have hnext : Idles [] (s.pass m ok).1
      (if ok then (s.pass m ok).1.observe m else (s.pass m ok).1.leave) := by
    split
    · exact idles_observe (by exact hphase) m
    · exact idles_leave _
  have hafter := Idles.after (f := fun s ↦ if ok then s.observe m else s.leave) hnext (retains_pass m ok s)
    (kept_pass m ok s)
  rwa [List.append_nil] at hafter

section

variable (s : Session γ)

theorem over_leave : isOver s.leave.1.phase = true := by
  unfold Session.leave
  split
  · rfl
  · split
    · unfold Session.release
      split
      · rfl
      · unfold Session.putBack
        split <;> rfl
    · rw [Session.discard_phase]
      rfl

theorem phase_finalizeRFQ :
    isOver s.finalizeRFQ.1.phase = true ∨ s.finalizeRFQ.1.phase = .top := by
  unfold Session.finalizeRFQ
  split
  · unfold Session.release
    split
    · exact .inl rfl
    · unfold Session.putBack
      split <;> exact .inr rfl
  · exact .inr rfl

theorem phase_passOn :
    isOver (passOn m ok s).1.phase = true ∨ endMarker m = true ∧ (passOn m ok s).1.phase = .top ∨
      endMarker m = false ∧ (passOn m ok s).1.phase = s.phase := by
  cases ok with
  | false => exact .inl (over_leave _)
  | true =>
    change isOver ((s.pass m true).1.observe m).1.phase = true ∨ _ ∧ ((s.pass m true).1.observe m).1.phase = _ ∨
      _ ∧ ((s.pass m true).1.observe m).1.phase = _
    cases m with
    | readyForQuery txStatus =>
      rcases phase_finalizeRFQ ((s.pass (.readyForQuery txStatus) true).1.note (.readyForQuery txStatus)) with
        h | h
      · exact .inl h
      · exact .inr (.inl ⟨rfl, h⟩)
    | copyInResponse => exact .inr (.inl ⟨rfl, rfl⟩)
    | _ => exact .inr (.inr ⟨rfl, rfl⟩)

theorem core_flush : core s.flush.1 = core s := by
  unfold Session.flush
  split <;> rfl

end

theorem retains_flush (hphase : isOver s.phase = true) : Retains [] s s.flush := by
  refine ⟨core_flush s, .inr ⟨?_, ?_, .inl ?_⟩, quiet_flush s, fun hs ↦ ⟨?_, ?_⟩⟩
  all_goals
    unfold Session.flush
    split
  all_goals
    first | rfl | exact hphase | exact hs | exact tells_wrote _ _ | simp [‹s.bConn = _›, bare]

theorem idles_resetFailed (s : Session γ) : Idles [] s (s.resetFailed leaving) :=
  .after (idles_resume leaving _) (retains_discard s) (.inl (Session.discard_bConn s))

theorem idles_replayFailed (err : String) (ok : Bool) (s : Session γ) : Idles [] s (s.replayFailed err ok) := by
  have hnone := Session.discard_bConn s
  refine Idles.after (idles_leave _) (.andThen (retains_fatal _ _ ok _) (retains_discard s) (.inl hnone)) ?_
  exact .inl hnone

theorem idles_queryTimeout (s : Session γ) : Idles [] s (s.queryTimeout ok) := by
  have hnone := Session.discard_bConn s
  have hquiet : Quiet [.timedOut] := by simp [Quiet]
  have hfatal (t : Session γ) : Retains [] t (Res.andThen (t, [.timedOut]) fun t ↦ t.sendFatalError "57014"
      s!"pgrouter: query_timeout ({durationString t.cfg.queryTimeout}) exceeded" ok) :=
    .andThen (retains_fatal _ _ ok t) (retains_quiet hquiet rfl t) (.inr ⟨rfl, rfl⟩)
  have hclosed : Retains [] s (s.discard.andThen fun t ↦ Res.andThen (t, [.timedOut]) fun t ↦
      t.sendFatalError "57014"
        s!"pgrouter: query_timeout ({durationString t.cfg.queryTimeout}) exceeded" ok) :=
    .andThen (hfatal s.discard.1) (retains_discard s) (.inl hnone)
  exact Idles.after (idles_loop _) hclosed (.inl hnone)

theorem idles_clientTimeout (now : ℤ) (ok : Bool) (s : Session γ) : Idles [] s (s.clientTimeout now ok) := by
  unfold Session.clientTimeout
  split
  · exact ⟨(retains_self _).of rfl rfl rfl id, rfl⟩
  · split
    · exact Idles.after (idles_leave _) (retains_fatal _ _ ok s) (.inr ⟨rfl, rfl⟩)
    · exact Idles.after (idles_leave _) (retains_fatal _ _ ok s) (.inr ⟨rfl, rfl⟩)

theorem bConn_putBack (s : Session γ) : (s.putBack leaving).1.bConn = none := by
  unfold Session.putBack
  split
  · rw [Session.resume_bConn]
    assumption
  · rw [Session.resume_bConn]

theorem idles_resetReceived (hphase : waiting s.phase = false) (leaving : Bool) (m : BackendMessage) :
    Idles [] s (s.resetReceived leaving m) := by
  unfold Session.resetReceived
  split
  · exact idles_resetFailed leaving s
  · split
    · have hput := idles_putBack leaving ({ s with
        bConn := s.bConn.map fun b ↦ { b with prepared := b.prepared.map PreparedCache.clear } } : Session γ)
      exact ⟨⟨hput.core, .inl (bConn_putBack _ _), hput.quiet, hput.tells⟩, hput.phase⟩
    · exact idles_resetFailed leaving s
  · exact ⟨retains_self s, hphase⟩

theorem Idles.lost (h : Idles told s.loseBuf r) (hover : isOver r.1.phase = true ∨ r.1.bConn = none) :
    Idles told s r := by
  have hid : s.loseBuf.bConn.map bare = s.bConn.map bare := Option.map_map ..
  refine ⟨⟨h.core, ?_, h.quiet, h.tells⟩, h.phase⟩
  rcases hover with hover | hnone
  · exact h.conn.imp_right fun hc ↦ ⟨hc.1.trans hid, hc.2.1, .inl hover⟩
  · exact .inl hnone

def rests : Phase → Bool
  | .top | .polling | .greeting => true
  | _ => false

def untroubled : Phase → Bool
  | .top | .polling | .welcome => true
  | _ => false

theorem quiet_of_untroubled (h : untroubled phase = true) : isOver phase = false ∧ waiting phase = false := by
  cases phase <;> first | exact ⟨rfl, rfl⟩ | cases h

theorem phase_resume (s : Session γ) : isOver (s.resume leaving).phase = true ∨ (s.resume leaving).phase = .top := by
  cases leaving with
  | true => exact .inl rfl
  | false => exact .inr rfl

theorem next_resetReceived {leaving : Bool} (hphase : s.phase = .resetting leaving) (m : BackendMessage) :
    isOver (s.resetReceived leaving m).1.phase = true ∨
      (s.resetReceived leaving m).1.phase = .top ∧ (s.resetReceived leaving m).1.bConn = none := by
  have hfailed : isOver (s.resetFailed leaving).1.phase = true ∨
      (s.resetFailed leaving).1.phase = .top ∧ (s.resetFailed leaving).1.bConn = none :=
    (phase_resume leaving _).imp_right fun h ↦ ⟨h, by simp [Session.resetFailed, Res.andThen]⟩
  unfold Session.resetReceived
  split
  · exact hfailed
  · split
    · refine Or.imp_right (fun h ↦ ⟨h, bConn_putBack leaving _⟩) ?_
      unfold Session.putBack
      split <;> exact phase_resume leaving _
    · exact hfailed
  · rw [hphase]
    exact .inl rfl

def traffic : Input → Bool
  | .message msg _ => msg != .terminate
  | _ => false

def busy : Input → Bool
  | .sent _ => true
  | input => traffic input

def still : Input → Bool
  | .sent _ | .received .. | .sendFailed .. | .receiveEOF _ | .receiveFailed .. | .message .. => false
  | _ => true

theorem traffic_of_busy (hinput : busy input = false) : traffic input = false := by
  cases input with
  | sent ok => rfl
  | _ => exact hinput

theorem busy_of_still (hinput : still input = true) : busy input = false := by
  cases input <;> first | rfl | cases hinput

theorem busy_lost (hinput : input.lost = true ∨ input.goodbye = true) : busy input = false := by
  cases input with
  | message msg env | sent ok => rcases hinput with h | h <;> cases h
  | _ => rfl

inductive Turn (sql : SQL γ) (s : Session γ) : Input → Res γ → Prop
  | stays {input : Input} {r : Res γ} (hinput : still input = true) (hphase : untroubled s.phase = true)
      (hidle : Idles [] s r) (hconn : r.1.bConn = s.bConn) (hnext : rests r.1.phase = true)
      (hgreets : r.1.phase = .greeting → s.phase = .welcome) : Turn sql s input r
  | leaves {input : Input} {r : Res γ} (hinput : busy input = false) (hover : isOver s.phase = false)
      (hidle : Idles [] s r) (hnext : closing r.1.phase = true) : Turn sql s input r
  | timedOut {splicing : Bool} (hphase : s.phase = .draining splicing) (ok : Bool) :
      Turn sql s (.receiveTimeout ok) (s.queryTimeout ok)
  | resets {input : Input} {r : Res γ} (hinput : traffic input = false) (hover : isOver s.phase = true)
      (hidle : Idles [] s r) (hnext : isOver r.1.phase = true ∨ r.1.phase = .top ∧ r.1.bConn = none)
      (hleaves : closing s.phase = false ∨ closing r.1.phase = true) : Turn sql s input r
  | greeted (hphase : s.phase = .welcome ∨ s.phase = .greeting) (params : List (Text × Text))
      (key : UInt32 × Text) (ok : Bool) : Turn sql s (.greeted params key ok) (s.greet params key ok)
  | message (hphase : s.phase = .top) {msg : FrontendMessage} (hmsg : msg ≠ .terminate) {env : Env}
      {r : Res γ} (hhandled : Handled sql env msg s r) : Turn sql s (.message msg env) r
  | acquired {msg : FrontendMessage} {pool : ℕ} (hphase : s.phase = .acquiring msg pool) (b : Backend) :
      Turn sql s (.acquired b) (s.attach sql msg pool b)
  | replaySent {msg : FrontendMessage} (hphase : s.phase = .replayFlush msg) (ok : Bool) :
      Turn sql s (.sent ok) ({ s with phase := .replaying msg } : Session γ).flush
  | replayWaits {msg : FrontendMessage} (hphase : s.phase = .replaying msg) (m : BackendMessage) (ok : Bool)
      (hm : statusOf m = []) : Turn sql s (.received m ok) (s, [])
  | replayed {msg : FrontendMessage} (hphase : s.phase = .replaying msg) (txStatus : UInt8) (ok : Bool) :
      Turn sql s (.received (.readyForQuery txStatus) ok) (s.forwardMessage sql msg)
  | sent (hphase : s.phase = .flushing) (ok : Bool) :
      Turn sql s (.sent ok) (s.writeBatch.andThen fun s ↦ s.startDrain ok)
  | withheldCC (hphase : s.phase = .draining false) (ok : Bool) (hpos : 0 < s.pendingEvictCC) :
      Turn sql s (.received .closeComplete ok) ({ s with pendingEvictCC := s.pendingEvictCC - 1 }, [])
  | withheldPC (hphase : s.phase = .draining false) (ok : Bool) (hpos : 0 < s.pendingParsePC) :
      Turn sql s (.received .parseComplete ok) ({ s with pendingParsePC := s.pendingParsePC - 1 }, [])
  | drained {splicing : Bool} (hphase : s.phase = .draining splicing) (m : BackendMessage) (ok : Bool)
      (hfilter : splicing = false → (m = .closeComplete → s.pendingEvictCC = 0) ∧
        (m = .parseComplete → s.pendingParsePC = 0)) : Turn sql s (.received m ok) (passOn m ok s)
  | cutOff (hphase : s.phase = .draining true) (ok : Bool) : Turn sql s (.receiveEOF ok) (s.loop, [])
  | polled (hphase : s.phase = .polling) (m : BackendMessage) (ok : Bool) :
      Turn sql s (.received m ok) (s.pollReceived m ok)

theorem turn_drained {splicing : Bool} (hphase : s.phase = .draining splicing) (m : BackendMessage)
    (ok : Bool) : Turn sql s (.received m ok) (s.drainReceived splicing m ok) := by
  unfold Session.drainReceived
  split
  · rename_i h
    simp only [Bool.and_eq_true, Bool.not_eq_true', decide_eq_true_eq] at h
    obtain ⟨⟨rfl, rfl⟩, hpos⟩ := h
    exact .withheldCC hphase ok hpos
  · rename_i hcc
    split
    · rename_i h
      simp only [Bool.and_eq_true, Bool.not_eq_true', decide_eq_true_eq] at h
      obtain ⟨⟨rfl, rfl⟩, hpos⟩ := h
      exact .withheldPC hphase ok hpos
    · rename_i hpc
      refine .drained hphase m ok fun hsplice ↦ ⟨?_, ?_⟩
      · rintro rfl
        simpa [hsplice] using hcc
      · rintro rfl
        simpa [hsplice] using hpc

theorem over_of_closing (h : closing phase = true) : isOver phase = true := by
  cases phase <;> first | rfl | cases h

theorem closing_resumed {leaving : Bool} (hphase : s.phase = phase) (h : closing phase = leaving) (t : Session γ) :
    closing s.phase = false ∨ closing (t.resume leaving).phase = true := by
  rw [hphase]
  cases leaving with
  | true => exact .inr rfl
  | false => exact .inl h

theorem turn_of_step (hstep : s.step sql input = some r) : Turn sql s input r := by
  cases steps_of_step hstep with
  | probed hphase b =>
    refine .stays rfl (of_phase hphase rfl) ⟨(retains_quiet ?_ rfl _).of rfl rfl rfl id, rfl⟩ rfl rfl fun _ ↦ hphase
    simp [Quiet]
  | unprobed hphase err ok => exact .stays rfl (of_phase hphase rfl) (idles_phase rfl s) rfl rfl fun _ ↦ hphase
  | greeted hphase params key ok => exact .greeted hphase params key ok
  | goodbye hphase hinput =>
    exact .leaves (busy_lost (.inr hinput)) (of_phase hphase rfl) (idles_leave s) (closing_leave s)
  | clientTimeout hphase hdeadline now ok =>
    have hidle := idles_clientTimeout now ok s
    unfold Session.clientTimeout at hidle ⊢
    split at hidle
    · rw [if_pos ‹_›]
      exact .stays rfl (of_phase hphase rfl) hidle rfl rfl (by rintro ⟨⟩)
    · rw [if_neg ‹_›]
      refine .leaves rfl (of_phase hphase rfl) hidle ?_
      split <;> exact closing_leave _
  | message hphase msg env =>
    by_cases hmsg : msg = .terminate
    · subst hmsg
      exact .leaves rfl (of_phase hphase rfl) (idles_leave s) (closing_leave s)
    · exact .message hphase hmsg (handled_of_clientMessage hmsg env s)
  | polled hphase m ok => exact .polled hphase m ok
  | nothing hphase ok => exact .stays rfl (of_phase hphase rfl) (idles_loop s) rfl rfl (by rintro ⟨⟩)
  | pollLost hphase hinput =>
    refine .leaves (busy_lost (.inl hinput)) (of_phase hphase rfl) (idles_close s) ?_
    rw [Session.discard_phase]
    rfl
  | acquired hphase b => exact .acquired hphase b
  | acquireFailed hphase err ok =>
    exact .leaves rfl (of_phase hphase rfl) (Idles.after (idles_leave _) (retains_fatal _ _ ok s) (.inr ⟨rfl, rfl⟩))
      (closing_leave _)
  | replaySent hphase ok => exact .replaySent hphase ok
  | replayUnsent hphase err ok =>
    exact .leaves rfl (of_phase hphase rfl) ((idles_replayFailed _ ok _).lost (.inl (over_leave _))) (closing_leave _)
  | replayReceived hphase m ok =>
    unfold Session.replayReceived
    split
    · exact .leaves rfl (of_phase hphase rfl) (idles_replayFailed _ ok s) (closing_leave _)
    · exact .replayed hphase _ ok
    · refine .replayWaits hphase m ok ?_
      cases m with
      | readyForQuery txStatus => simp_all
      | _ => rfl
  | replayLost hphase hinput err ok =>
    exact .leaves (busy_lost (.inl hinput)) (of_phase hphase rfl) (idles_replayFailed err ok s) (closing_leave _)
  | sent hphase ok => exact .sent hphase ok
  | unsent hphase err ok =>
    exact .leaves rfl (of_phase hphase rfl) ((idles_leave _).lost (.inl (over_leave _))) (closing_leave _)
  | drained hphase m ok => exact turn_drained hphase m ok
  | queryTimeout hphase htimeout ok => exact .timedOut hphase ok
  | spliceEOF hphase ok => exact .cutOff hphase ok
  | drainEOF hphase ok | drainFailed hphase err ok =>
    exact .leaves rfl (of_phase hphase rfl) (idles_leave s) (closing_leave s)
  | @resetSent leaving hphase ok =>
    refine .resets rfl (of_phase hphase rfl) ⟨(retains_flush rfl).of rfl rfl rfl id, ?_⟩ (.inl ?_) ?_
    · rw [Session.flush_phase]
      rfl
    · rw [Session.flush_phase]
      rfl
    · rw [Session.flush_phase, hphase]
      cases leaving with
      | true => exact .inr rfl
      | false => exact .inl rfl
  | @resetUnsent leaving hphase err ok =>
    have hnone : (s.loseBuf.resetFailed leaving).1.bConn = none := by simp [Session.resetFailed, Res.andThen]
    refine .resets rfl (of_phase hphase rfl) ((idles_resetFailed _ _).lost (.inr hnone)) ?_ ?_
    · exact (phase_resume _ _).imp_right fun h ↦ ⟨h, hnone⟩
    · exact closing_resumed hphase rfl _
  | @resetReceived leaving hphase m ok =>
    refine .resets rfl (of_phase hphase rfl) (idles_resetReceived (of_phase hphase rfl) _ m)
      (next_resetReceived hphase m) ?_
    rw [hphase]
    cases leaving with
    | true => exact .inr (closing_resetReceived hphase m)
    | false => exact .inl rfl
  | resetLost hphase hinput =>
    refine .resets (traffic_of_busy (busy_lost (.inl hinput))) (of_phase hphase rfl) (idles_resetFailed _ s) ?_ ?_
    · exact (phase_resume _ _).imp_right fun h ↦ ⟨h, by simp [Session.resetFailed, Res.andThen]⟩
    · exact closing_resumed hphase rfl _

theorem idles_startDrain (s : Session γ) : Idles [] s (s.startDrain ok) := by
  unfold Session.startDrain
  split
  · have hnext : Idles [] (s.beFlush ok).1
        (if ok then ({ (s.beFlush ok).1 with phase := .draining true }, []) else (s.beFlush ok).1.leave) := by
      split
      · exact idles_phase rfl _
      · exact idles_leave _
    exact Idles.after hnext (retains_beFlush ok s) (.inr ⟨rfl, rfl⟩)
  · exact idles_phase rfl s

theorem idles_pollReceived (hphase : s.phase = .polling) (m : BackendMessage) (ok : Bool) :
    Idles (passed ok m) s (s.pollReceived m ok) := by
  have hnext : Idles [] (s.pass m ok).1
      (if ok then ((s.pass m ok).1.note m, [])
        else ({ (s.pass m ok).1 with phase := .returned } : Session γ).discard) := by
    split
    · exact ⟨(retains_self _).of rfl rfl rfl id, congrArg waiting hphase⟩
    · exact idles_close _
  have hafter : Idles (passed ok m ++ []) s (s.pollReceived m ok) :=
    Idles.after hnext (retains_pass m ok s) (kept_pass m ok s)
  rwa [List.append_nil] at hafter

/-- What a step of `Serve` leaves of the session, but for the counters of the filter. -/
structure Remains (s : Session γ) (r : Res γ) : Prop where
  cfg : r.1.cfg = s.cfg
  prepCache : r.1.prepCache = s.prepCache
  lastWriteAt : r.1.lastWriteAt = s.lastWriteAt
  conn : r.1.bConn = none ∨
    r.1.bConn.map Backend.id = s.bConn.map Backend.id ∧ r.1.bConnPool = s.bConnPool
  phase : waiting r.1.phase = false
  quiet : Quiet r.2

theorem Idles.remains (h : Idles told s r) : Remains s r :=
  ⟨h.cfg, h.prepCache, h.lastWriteAt, h.conn.imp_right fun hc ↦ ⟨map_id_of_bare hc.1, hc.2.1⟩, h.phase, h.quiet⟩

inductive Attends (sql : SQL γ) (s : Session γ) : Input → Res γ → Prop
  | remains {input : Input} {r : Res γ} (hinput : traffic input = false) (hremains : Remains s r) :
      Attends sql s input r
  | message (hphase : s.phase = .top) {msg : FrontendMessage} (hmsg : msg ≠ .terminate) {env : Env}
      {r : Res γ} (hhandled : Handled sql env msg s r) : Attends sql s (.message msg env) r
  | acquired {msg : FrontendMessage} {pool : ℕ} (hphase : s.phase = .acquiring msg pool) (b : Backend) :
      Attends sql s (.acquired b) (s.attach sql msg pool b)
  | replaySent {msg : FrontendMessage} (hphase : s.phase = .replayFlush msg) (ok : Bool) :
      Attends sql s (.sent ok) ({ s with phase := .replaying msg } : Session γ).flush
  | replayWaits {msg : FrontendMessage} (hphase : s.phase = .replaying msg) (m : BackendMessage) (ok : Bool) :
      Attends sql s (.received m ok) (s, [])
  | replayed {msg : FrontendMessage} (hphase : s.phase = .replaying msg) (txStatus : UInt8) (ok : Bool) :
      Attends sql s (.received (.readyForQuery txStatus) ok) (s.forwardMessage sql msg)

theorem remains_greet (params : List (Text × Text)) (key : UInt32 × Text) (ok : Bool) (s : Session γ) :
    Remains s (s.greet params key ok) := by
  cases ok with
  | true => exact ⟨rfl, rfl, rfl, .inr ⟨rfl, rfl⟩, rfl, quiet_append (quiet_beFlush true _) quiet_nil⟩
  | false => exact ⟨rfl, rfl, rfl, .inr ⟨rfl, rfl⟩, rfl, quiet_append (quiet_beFlush false _) quiet_nil⟩

theorem remains_sent (hraw : s.cfg.rawPassthrough = false) (ok : Bool) :
    Remains s (s.writeBatch.andThen fun s ↦ s.startDrain ok) := by
  have hbatch : s.writeBatch = s.flush := by simp [Session.writeBatch, hraw]
  have hhold := holding_writeBatch s
  have hdrain := (idles_startDrain ok s.writeBatch.1).remains
  rw [hbatch] at hhold hdrain ⊢
  refine ⟨hdrain.cfg.trans hhold.cfg, ?_, ?_, ?_, hdrain.phase, quiet_append (quiet_flush s) hdrain.quiet⟩
  · exact hdrain.prepCache.trans (congrArg Core.prepCache (core_flush s))
  · exact hdrain.lastWriteAt.trans (congrArg Core.lastWriteAt (core_flush s))
  · exact hdrain.conn.imp_right fun hc ↦ ⟨hc.1.trans hhold.conn, hc.2.trans hhold.pool⟩

theorem attends_of_step (hraw : s.cfg.rawPassthrough = false) (hstep : s.step sql input = some r) :
    Attends sql s input r := by
  cases turn_of_step hstep with
  | stays hinput _ hidle => exact .remains (traffic_of_busy (busy_of_still hinput)) hidle.remains
  | leaves hinput _ hidle => exact .remains (traffic_of_busy hinput) hidle.remains
  | timedOut hphase ok => exact .remains rfl (idles_queryTimeout ok s).remains
  | resets hinput _ hidle => exact .remains hinput hidle.remains
  | greeted hphase params key ok => exact .remains rfl (remains_greet params key ok s)
  | message hphase hmsg hhandled => exact .message hphase hmsg hhandled
  | acquired hphase b => exact .acquired hphase b
  | replaySent hphase ok => exact .replaySent hphase ok
  | replayWaits hphase m ok _ => exact .replayWaits hphase m ok
  | replayed hphase txStatus ok => exact .replayed hphase txStatus ok
  | sent hphase ok => exact .remains rfl (remains_sent hraw ok)
  | withheldCC hphase | withheldPC hphase =>
    exact .remains rfl ⟨rfl, rfl, rfl, .inr ⟨rfl, rfl⟩, by rw [hphase]; rfl, quiet_nil⟩
  | drained hphase m ok _ => exact .remains rfl (idles_passOn (by rw [hphase]; rfl) m ok).remains
  | cutOff hphase ok => exact .remains rfl (idles_loop s).remains
  | polled hphase m ok => exact .remains rfl (idles_pollReceived hphase m ok).remains

end PgRouter.Client.Turns
