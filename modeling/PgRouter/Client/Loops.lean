import PgRouter.Client.Rejections
import PgRouter.Library.Lockstep

namespace PgRouter.Client.Loops

open Library.Runs Library.Records Library.Lockstep Protocol Prepared Servers Handler Handling Attachment Turns
open Rejections

section Outline

variable {γ : Type} {sql : SQL γ} {s t : Session γ} {f g : Session γ → Session γ}

/-- A session but for what `Serve` and `serveRaw` keep in places of their own: the messages on their way to
the backend and the read deadline. -/
def outline (s : Session γ) : Session γ :=
  { s with
    cfg := { s.cfg with rawPassthrough := false }
    bConn := s.bConn.map bare
    writeBuf := []
    deadline := false }

/-- What a function makes of the outline of a session depends on nothing else. -/
def Blind (f : Session γ → Session γ) : Prop := ∀ s, outline (f s) = outline (f (outline s))

theorem Blind.alike (hf : Blind f) (h : outline s = outline t) : outline (f s) = outline (f t) := by
  rw [hf s, hf t, h]

theorem Blind.comp (hg : Blind g) (hf : Blind f) : Blind (g ∘ f) := by
  intro s
  calc outline (g (f s)) = outline (g (outline (f s))) := hg _
    _ = outline (g (outline (f (outline s)))) := by rw [hf s]
    _ = outline (g (f (outline s))) := (hg _).symm

theorem outline_outline (s : Session γ) : outline (outline s) = outline s := by
  rcases s with ⟨_, _, _, _, _, _, _, _ | b, _, _, _, _, _, _, _, _, _⟩ <;> rfl

theorem Blind.of (g : Session γ → Session γ) (h : ∀ s, outline (f s) = g (outline s)) : Blind f := by
  intro s
  rw [h s, h (outline s), outline_outline]

theorem Blind.ite {p : Session γ → Bool} (hp : ∀ s, p (outline s) = p s) (hf : Blind f) (hg : Blind g) :
    Blind fun s ↦ if p s then f s else g s := by
  intro s
  change outline (if p s then f s else g s) = outline (if p (outline s) then f (outline s) else g (outline s))
  rw [hp s]
  split
  · exact hf s
  · exact hg s

theorem blind_id : Blind (id : Session γ → Session γ) := fun s ↦ (outline_outline s).symm

theorem blind_phase (phase : Phase) : Blind fun s : Session γ ↦ { s with phase } :=
  .of (fun s ↦ { s with phase }) fun _ ↦ rfl

theorem blind_loop : Blind fun s : Session γ ↦ s.loop := .of (fun s ↦ { s with phase := .top }) fun _ ↦ rfl

theorem blind_told {f : Session γ → Session γ} (h : ∀ s, outline (f s) = { outline s with out := [] }) : Blind f :=
  .of (fun s ↦ { s with out := [] }) h

variable (leaving : Bool) (m : BackendMessage) (ok : Bool)

theorem blind_beFlush : Blind fun s : Session γ ↦ (s.beFlush ok).1 := blind_told fun _ ↦ rfl

theorem blind_fatal (code text : Session γ → String) (ok : Bool) :
    Blind fun s : Session γ ↦ (s.sendFatalError (code s) (text s) ok).1 := blind_told fun _ ↦ rfl

theorem blind_pass : Blind fun s : Session γ ↦ (s.pass m ok).1 :=
  blind_told fun _ ↦ rfl

theorem blind_note : Blind fun s : Session γ ↦ s.note m :=
  .of (fun s ↦ { s with state := s.state.observeBackendMessage m }) fun _ ↦ rfl

theorem blind_discard : Blind fun s : Session γ ↦ s.discard.1 := by
  rintro ⟨_, _, _, _, _, _, _, _ | b, _, _, _, _, _, _, _, _, _⟩ <;> rfl

theorem blind_resume : Blind fun s : Session γ ↦ s.resume leaving := by
  cases leaving with
  | true => exact blind_phase .returned
  | false => exact blind_loop

theorem blind_putBack : Blind fun s : Session γ ↦ (s.putBack leaving).1 := by
  cases leaving <;> rintro ⟨_, _, _, _, _, _, _, _ | b, _, _, _, _, _, _, _, _, _⟩ <;> rfl

theorem blind_asked (query : Session γ → Text) (phase : Phase) :
    Blind fun s : Session γ ↦ { s.ask (query s) with phase } := by
  rintro ⟨_, _, _, _, _, _, _, _ | b, _, _, _, _, _, _, _, _, _⟩ <;> rfl

theorem blind_flush : Blind fun s : Session γ ↦ s.flush.1 := by
  rintro ⟨_, _, _, _, _, _, _, _ | b, _, _, _, _, _, _, _, _, _⟩ <;> rfl

theorem blind_loseBuf : Blind fun s : Session γ ↦ s.loseBuf := by
  rintro ⟨_, _, _, _, _, _, _, _ | b, _, _, _, _, _, _, _, _, _⟩ <;> rfl

theorem blind_release : Blind fun s : Session γ ↦ (s.release leaving).1 := by
  have h : (fun s : Session γ ↦ (s.release leaving).1) = fun s ↦ if s.cfg.resetOnRelease then
      { s.ask (if s.cfg.resetQuery = [] then ascii "DISCARD ALL" else s.cfg.resetQuery) with
        phase := .resetFlush leaving }
      else (s.putBack leaving).1 := by
    funext s
    unfold Session.release
    split <;> rfl
  rw [h]
  exact .ite (fun _ ↦ rfl) (blind_asked _ _) (blind_putBack leaving)

theorem blind_leave : Blind fun s : Session γ ↦ s.leave.1 := by
  have h : (fun s : Session γ ↦ s.leave.1) = fun s ↦ if s.bConn.isNone then { s with phase := .returned }
      else if s.state.isIdle then (s.release true).1 else ({ s with phase := .returned } : Session γ).discard.1 := by
    funext s
    unfold Session.leave
    split
    · rfl
    · split <;> rfl
  rw [h]
  refine .ite (fun s ↦ ?_) (blind_phase _)
    (.ite (fun _ ↦ rfl) (blind_release true) (blind_discard.comp (blind_phase _)))
  exact Option.isNone_map

theorem blind_resetFailed : Blind fun s : Session γ ↦ (s.resetFailed leaving).1 :=
  (blind_resume leaving).comp blind_discard

theorem blind_replayFailed (err : String) (ok : Bool) : Blind fun s : Session γ ↦ (s.replayFailed err ok).1 :=
  blind_leave.comp ((blind_fatal (fun _ ↦ "57P03") (fun _ ↦ s!"pgrouter: backend replay failed: replay: {err}") ok).comp
    blind_discard)

theorem blind_startDrain : Blind fun s : Session γ ↦ (s.startDrain ok).1 := by
  have hsplice : Blind fun s : Session γ ↦
      (if ok then ({ (s.beFlush ok).1 with phase := .draining true }, []) else (s.beFlush ok).1.leave : Res γ).1 := by
    cases ok with
    | true => exact (blind_phase (.draining true)).comp (blind_beFlush true)
    | false => exact blind_leave.comp (blind_beFlush false)
  have h : (fun s : Session γ ↦ (s.startDrain ok).1) = fun s ↦
      if s.spliceReader && s.pendingEvictCC == 0 && s.pendingParsePC == 0 then
        (if ok then ({ (s.beFlush ok).1 with phase := .draining true }, []) else (s.beFlush ok).1.leave : Res γ).1
      else { s with phase := .draining false } := by
    funext s
    unfold Session.startDrain
    split <;> rfl
  rw [h]
  exact .ite (fun _ ↦ rfl) hsplice (blind_phase _)

theorem blind_finalizeRFQ : Blind fun s : Session γ ↦ s.finalizeRFQ.1 := by
  have h : (fun s : Session γ ↦ s.finalizeRFQ.1) = fun s ↦
      if !s.sessionPinned && (s.cfg.isStatementMode || s.state.isIdle) then (s.release false).1 else s.loop := by
    funext s
    unfold Session.finalizeRFQ
    split <;> rfl
  rw [h]
  exact .ite (fun _ ↦ rfl) (blind_release false) blind_loop

theorem blind_observe : Blind fun s : Session γ ↦ (s.observe m).1 := by
  cases m with
  | readyForQuery txStatus => exact blind_finalizeRFQ.comp (blind_note _)
  | copyInResponse => exact blind_loop.comp (blind_note _)
  | _ => exact blind_note _

theorem blind_passOn : Blind fun s : Session γ ↦ (passOn m ok s).1 := by
  cases ok with
  | true => exact (blind_observe m).comp (blind_pass m true)
  | false => exact blind_leave.comp (blind_pass m false)

theorem blind_drainReceived (splicing : Bool) (m : BackendMessage) (ok : Bool) :
    Blind fun s : Session γ ↦ (s.drainReceived splicing m ok).1 := by
  have h : (fun s : Session γ ↦ (s.drainReceived splicing m ok).1) = fun s ↦
      if !splicing && m = .closeComplete && 0 < s.pendingEvictCC then
        { s with pendingEvictCC := s.pendingEvictCC - 1 }
      else if !splicing && m = .parseComplete && 0 < s.pendingParsePC then
        { s with pendingParsePC := s.pendingParsePC - 1 }
      else (passOn m ok s).1 := by
    funext s
    unfold Session.drainReceived passOn
    split
    · rfl
    · split <;> rfl
  rw [h]
  refine .ite (fun _ ↦ rfl) ?_ (.ite (fun _ ↦ rfl) ?_ (blind_passOn m ok))
  · exact .of (fun s ↦ { s with pendingEvictCC := s.pendingEvictCC - 1 }) fun _ ↦ rfl
  · exact .of (fun s ↦ { s with pendingParsePC := s.pendingParsePC - 1 }) fun _ ↦ rfl

theorem blind_queryTimeout : Blind fun s : Session γ ↦ (s.queryTimeout ok).1 :=
  blind_loop.comp ((blind_fatal (fun _ ↦ "57014")
    (fun s ↦ s!"pgrouter: query_timeout ({durationString s.cfg.queryTimeout}) exceeded") ok).comp blind_discard)

theorem blind_resetReceived : Blind fun s : Session γ ↦ (s.resetReceived leaving m).1 := by
  have hclear : Blind fun s : Session γ ↦ { s with
      bConn := s.bConn.map fun b ↦ { b with prepared := b.prepared.map PreparedCache.clear } } := by
    rintro ⟨_, _, _, _, _, _, _, _ | b, _, _, _, _, _, _, _, _, _⟩ <;> rfl
  cases m with
  | errorResponse => exact blind_resetFailed leaving
  | readyForQuery txStatus =>
    unfold Session.resetReceived
    by_cases htx : txStatus = txIdle
    · simp only [htx, if_true]
      exact (blind_putBack leaving).comp hclear
    · simp only [htx, if_false]
      exact blind_resetFailed leaving
  | _ => exact blind_id

theorem blind_greet (params : List (Text × Text)) (key : UInt32 × Text) (ok : Bool) :
    Blind fun s : Session γ ↦ (s.greet params key ok).1 := by
  have htold : Blind fun s : Session γ ↦ ((({ s with
      out := s.out ++ (Session.welcome params key).map fun m ↦ (none, m) } : Session γ).beSend
        (.readyForQuery txIdle)).beFlush ok).1 := blind_told fun _ ↦ rfl
  cases ok with
  | true => exact (blind_loop.comp (blind_note (.readyForQuery txIdle))).comp htold
  | false => exact (blind_phase .returned).comp htold

theorem blind_pollReceived : Blind fun s : Session γ ↦ (s.pollReceived m ok).1 := by
  cases ok with
  | true => exact (blind_note m).comp (blind_pass m true)
  | false => exact (blind_discard.comp (blind_phase .returned)).comp (blind_pass m false)

theorem blind_afterForward (msg : FrontendMessage) : Blind fun s : Session γ ↦ s.afterForward msg := by
  unfold Session.afterForward
  cases triggersBackendDrain msg with
  | true => exact blind_phase .flushing
  | false => exact blind_loop

theorem outline_forwardMessage (hprep : s.prepCache = none) (msg : FrontendMessage) :
    outline (s.forwardMessage sql msg).1 = outline (s.afterForward msg) := by
  unfold Session.forwardMessage
  split
  · exact (blind_afterForward msg).alike rfl
  · rw [hprep]
    refine (blind_afterForward msg).alike ?_
    unfold Session.send
    split
    · rfl
    · rename_i b hb
      simp [outline, hb, bare]

theorem outline_writeBatch (s : Session γ) : outline s.writeBatch.1 = outline s := by
  unfold Session.writeBatch
  split
  · split <;> rfl
  · unfold Session.flush
    split
    · rfl
    · rename_i b hb
      simp [outline, hb, bare]

theorem outline_adopt (pool : ℕ) (b : Backend) (h : outline s = outline t) :
    outline (s.adopt pool b) = outline (t.adopt pool b) := by
  have hadopt (u : Session γ) : outline (u.adopt pool b) = { outline u with
      bConn := some (bare b), bConnPool := some pool, spliceReader := (outline u).cfg.splice } := by
    unfold Session.adopt outline
    split <;> rfl
  rw [hadopt, hadopt, h]

end Outline

section Following

variable {γ : Type} {sql : SQL γ} {s t : Session γ} {r : Res γ} {input : Input}

structure Alike (s t : Session γ) : Prop where
  serve : s.cfg.rawPassthrough = false
  raw : t.cfg.rawPassthrough = true
  gucTracking : s.cfg.gucTracking = true
  prepCache : s.prepCache = none
  same : outline s = outline t

namespace Alike

section

variable (h : Alike s t)

include h

theorem phase : t.phase = s.phase := (congrArg Session.phase h.same).symm

theorem cfg : t.cfg = { s.cfg with rawPassthrough := true } := by
  have hcfg := congrArg Session.cfg h.same
  have hraw := h.raw
  change { s.cfg with rawPassthrough := false } = { t.cfg with rawPassthrough := false } at hcfg
  cases hs : s.cfg
  cases ht : t.cfg
  simp_all

theorem guc : t.guc = s.guc := (congrArg Session.guc h.same).symm

theorem sessionPinned : t.sessionPinned = s.sessionPinned :=
  (congrArg Session.sessionPinned h.same).symm

theorem lastWriteAt : t.lastWriteAt = s.lastWriteAt :=
  (congrArg Session.lastWriteAt h.same).symm

theorem prepCache_raw : t.prepCache = none :=
  (congrArg Session.prepCache h.same).symm.trans h.prepCache

theorem isSome : t.bConn.isSome = s.bConn.isSome := by
  have hconn := congrArg (fun u ↦ u.bConn.isSome) h.same
  simpa [outline] using hconn.symm

end

end Alike

theorem alike_attach (h : Alike s t) (msg : FrontendMessage) (pool : ℕ) (b : Backend) :
    outline (s.attach sql msg pool b).1 = outline (t.attach sql msg pool b).1 := by
  have hadopt := outline_adopt pool b h.same
  unfold Session.attach
  rw [h.guc]
  split
  · have hs : (s.adopt pool b).prepCache = none := h.prepCache
    have ht : (t.adopt pool b).prepCache = none := h.prepCache_raw
    rw [outline_forwardMessage hs, outline_forwardMessage ht]
    exact (blind_afterForward msg).alike hadopt
  · exact (blind_asked (fun _ ↦ sql.replayQuery s.guc) (.replayFlush msg)).alike hadopt

theorem alike_replayReceived (h : Alike s t) (msg : FrontendMessage) (m : BackendMessage) (ok : Bool) :
    outline (s.replayReceived sql msg m ok).1 = outline (t.replayReceived sql msg m ok).1 := by
  unfold Session.replayReceived
  split
  · exact (blind_replayFailed _ ok).alike h.same
  · rw [outline_forwardMessage h.prepCache, outline_forwardMessage h.prepCache_raw]
    exact (blind_afterForward msg).alike h.same
  · exact h.same

theorem follows (h : Alike s t) (hmessage : ∀ msg env, input ≠ .message msg env)
    (htimeout : ∀ now ok, input ≠ .clientTimeout now ok) :
    (s.step sql input).map (fun r ↦ outline r.1) = (t.step sql input).map fun r ↦ outline r.1 := by
  have hleave : outline s.leave.1 = outline t.leave.1 := blind_leave.alike h.same
  unfold Session.step
  rw [h.phase]
  cases s.phase with
  | welcome =>
    cases input with
    | acquired | acquireFailed => exact congrArg some ((blind_phase .greeting).alike h.same)
    | greeted params key ok => exact congrArg some ((blind_greet params key ok).alike h.same)
    | _ => rfl
  | greeting =>
    cases input with
    | greeted params key ok => exact congrArg some ((blind_greet params key ok).alike h.same)
    | _ => rfl
  | top =>
    cases input with
    | ctxDone | clientEOF | clientFailed => exact congrArg some hleave
    | clientTimeout now ok => exact absurd rfl (htimeout now ok)
    | message msg env => exact absurd rfl (hmessage msg env)
    | _ => rfl
  | polling =>
    cases input with
    | received m ok => exact congrArg some ((blind_pollReceived m ok).alike h.same)
    | receiveTimeout => exact congrArg some (blind_loop.alike h.same)
    | receiveEOF | receiveFailed => exact congrArg some ((blind_discard.comp (blind_phase _)).alike h.same)
    | _ => rfl
  | acquiring msg pool =>
    cases input with
    | acquired b => exact congrArg some (alike_attach h msg pool b)
    | acquireFailed err ok =>
      exact congrArg some ((blind_leave.comp (blind_fatal (fun _ ↦ "08006")
        (fun _ ↦ s!"pgrouter: cannot acquire backend: {err}") ok)).alike h.same)
    | _ => rfl
  | replayFlush msg =>
    cases input with
    | sent => exact congrArg some ((blind_flush.comp (blind_phase _)).alike h.same)
    | sendFailed err ok => exact congrArg some (((blind_replayFailed _ ok).comp blind_loseBuf).alike h.same)
    | _ => rfl
  | replaying msg =>
    cases input with
    | received m ok => exact congrArg some (alike_replayReceived h msg m ok)
    | receiveEOF ok | receiveFailed _ ok => exact congrArg some ((blind_replayFailed _ ok).alike h.same)
    | _ => rfl
  | flushing =>
    cases input with
    | sent ok =>
      refine congrArg some ((blind_startDrain ok).alike ?_)
      rw [outline_writeBatch, outline_writeBatch, h.same]
    | sendFailed => exact congrArg some ((blind_leave.comp blind_loseBuf).alike h.same)
    | _ => rfl
  | draining splicing =>
    cases input with
    | received m ok => exact congrArg some ((blind_drainReceived splicing m ok).alike h.same)
    | receiveTimeout ok =>
      have hcfg : t.cfg.queryTimeout = s.cfg.queryTimeout := by rw [h.cfg]
      dsimp only
      rw [hcfg]
      split
      · exact congrArg some ((blind_queryTimeout ok).alike h.same)
      · rfl
    | receiveEOF =>
      cases splicing with
      | true => exact congrArg some (blind_loop.alike h.same)
      | false => exact congrArg some hleave
    | receiveFailed => cases splicing <;> exact congrArg some hleave
    | _ => cases splicing <;> rfl
  | resetFlush leaving =>
    cases input with
    | sent => exact congrArg some ((blind_flush.comp (blind_phase _)).alike h.same)
    | sendFailed => exact congrArg some (((blind_resetFailed leaving).comp blind_loseBuf).alike h.same)
    | _ => rfl
  | resetting leaving =>
    cases input with
    | received m => exact congrArg some ((blind_resetReceived leaving m).alike h.same)
    | receiveEOF | receiveFailed => exact congrArg some ((blind_resetFailed leaving).alike h.same)
    | _ => rfl
  | returned => rfl

theorem Alike.next {r' : Res γ} (h : Alike s t) (hstep : s.step sql input = some r)
    (hstep' : t.step sql input = some r') (hsame : outline r.1 = outline r'.1) : Alike r.1 r'.1 := by
  obtain ⟨hcfg, hprep⟩ := fixed_of_step hstep
  obtain ⟨hcfg', -⟩ := fixed_of_step hstep'
  exact ⟨by rw [hcfg, h.serve], by rw [hcfg', h.raw], by rw [hcfg, h.gucTracking], hprep h.prepCache, hsame⟩

theorem alike_new {id : ℕ} {cfg : PooledConfig} (hraw : cfg.rawPassthrough = false)
    (hprepared : cfg.preparedCache = false) (hguc : cfg.gucTracking = true) :
    Alike (Session.new sql id cfg) (Session.new sql id { cfg with rawPassthrough := true }) where
  serve := hraw
  raw := rfl
  gucTracking := hguc
  prepCache := by simp [Session.new, hprepared]
  same := by simp [outline, Session.new, hprepared]

end Following

section Messages

variable {γ : Type} {sql : SQL γ} {s t : Session γ} {env : Env} {msg : FrontendMessage}

theorem blind_clearDeadline (now : ℤ) : Blind fun s : Session γ ↦ s.clearDeadline now :=
  .of (fun s ↦ { s with lastClientMsgAt := now }) fun _ ↦ rfl

theorem blind_countMessage (msg : FrontendMessage) : Blind fun s : Session γ ↦ s.countMessage msg :=
  .of (fun s ↦ s.countMessage msg) fun _ ↦ rfl

theorem blind_observeQuery (text : Text) : Blind fun s : Session γ ↦ s.observeStatement sql (.query text) :=
  .of (fun s ↦ s.observeStatement sql (.query text)) fun _ ↦ rfl

theorem blind_pinUnrecognizedSet : Blind fun s : Session γ ↦ s.pinUnrecognizedSet sql :=
  .of (fun s ↦ s.pinUnrecognizedSet sql) fun _ ↦ rfl

theorem blind_noteWrite (env : Env) (info : SQLOp × Bool) : Blind fun s : Session γ ↦ s.noteWrite env info := by
  unfold Session.noteWrite
  split
  · exact .of (fun s ↦ { s with lastWriteAt := some env.now }) fun _ ↦ rfl
  · exact blind_id

theorem blind_refused (env : Env) (code text : String) : Blind fun s : Session γ ↦ (refused env code text s).1 :=
  blind_loop.comp (blind_told fun _ ↦ rfl)

theorem noteWrite_eq (info : SQLOp × Bool) (s : Session γ) :
    s.noteWrite env info = if isWrite info then { s with lastWriteAt := some env.now } else s := by
  unfold Session.noteWrite isWrite
  split <;> simp_all

def poolOf (sql : SQL γ) (env : Env) (msg : FrontendMessage) (s : Session γ) : ℕ :=
  Session.selectPoolForMsg env ((noticed sql env msg s).noteWrite env (infoOf sql s.cfg msg)) (infoOf sql s.cfg msg)

theorem selectPool_outline (env : Env) (s : Session γ) (info : SQLOp × Bool) :
    Session.selectPoolForMsg env (outline s) info = Session.selectPoolForMsg env s info := rfl

theorem selectPool_unknown (env : Env) (s : Session γ) : Session.selectPoolForMsg env s (.unknown, false) = 0 := by
  simp [Session.selectPoolForMsg]

theorem selectPool_pin {info : SQLOp × Bool} (needsPin : Bool) (h : Session.selectPoolForMsg env s info = 0) :
    Session.selectPoolForMsg env (s.pin needsPin) info = 0 := by
  unfold Session.selectPoolForMsg Session.pin at *
  cases needsPin with
  | true => simp
  | false => simpa using h

structure Judged (sql : SQL γ) (env : Env) (msg : FrontendMessage) (s t : Session γ) : Prop where
  noticed : outline (noticed sql env msg s) = outline (noticed sql env msg t)
  gated : gated sql t.cfg env msg = gated sql s.cfg env msg
  isWrite : Handling.gated sql s.cfg env msg = false →
    isWrite (infoOf sql t.cfg msg) = isWrite (infoOf sql s.cfg msg)
  poolOf : Handling.gated sql s.cfg env msg = false → s.bConn.isNone = true →
    poolOf sql env msg t = poolOf sql env msg s

theorem needsConn_statement (hmsg : Session.statementOf msg ≠ none) (cfg : PooledConfig) :
    needsConn cfg msg = true := by
  unfold needsConn
  cases msg <;> first | exact absurd rfl hmsg | simp [needsBackend, messageNeedsBackend]

theorem outline_dispatch {info info' : SQLOp × Bool} (hs : s.prepCache = none) (h : outline s = outline t)
    (hpool : s.bConn.isNone = true → Session.selectPoolForMsg env t info' = Session.selectPoolForMsg env s info) :
    outline (s.dispatch sql env msg true info).1 = outline (t.dispatch sql env msg true info').1 := by
  have ht : t.prepCache = none := (congrArg Session.prepCache h).symm.trans hs
  have hnone : t.bConn.isNone = s.bConn.isNone := by
    have hconn := congrArg (fun u ↦ u.bConn.isNone) h
    simpa [outline] using hconn.symm
  unfold Session.dispatch
  rw [hnone]
  cases hconn : s.bConn.isNone with
  | true =>
    simp only [Bool.and_self, if_true, hpool hconn]
    unfold Session.acquire
    split
    · exact (blind_refused env "" "").alike h
    · exact (blind_phase _).alike h
  | false =>
    have hsome : s.bConn.isSome = true := by simpa using hconn
    have hsome' : t.bConn.isSome = true := by simpa [hconn] using hnone
    simp only [Bool.and_false, Bool.false_eq_true, if_false, hsome, hsome', if_true]
    rw [outline_forwardMessage hs, outline_forwardMessage ht]
    exact (blind_afterForward msg).alike h

theorem alike_clientMessage (h : Alike s t) (hj : Judged sql env msg s t) (hmsg : Session.statementOf msg ≠ none) :
    outline (s.clientMessage sql env msg).1 = outline (t.clientMessage sql env msg).1 := by
  have hterminate : msg ≠ .terminate := by
    rintro rfl
    exact hmsg rfl
  have hneeds := needsConn_statement hmsg
  obtain ⟨o, rfl, hobs, ⟨hgated, code, text, hr⟩ | ⟨hgated, hr⟩⟩ := clientMessage_cases sql hterminate env s
  · obtain ⟨o', rfl, hobs', ⟨-, code', text', hr'⟩ | ⟨hgated', hr'⟩⟩ := clientMessage_cases sql hterminate env t
    · rw [hr, hr']
      exact (blind_refused env code text).alike hj.noticed
    · rw [hj.gated, hgated] at hgated'
      cases hgated'
  · obtain ⟨o', rfl, hobs', ⟨hgated', -⟩ | ⟨-, hr'⟩⟩ := clientMessage_cases sql hterminate env t
    · rw [hj.gated, hgated] at hgated'
      cases hgated'
    · have hwrite := hj.isWrite hgated
      have hnote : outline ((noticed sql env msg s).noteWrite env (infoOf sql s.cfg msg)) =
          outline ((noticed sql env msg t).noteWrite env (infoOf sql t.cfg msg)) := by
        rw [noteWrite_eq _ (noticed sql env msg t), hwrite, ← noteWrite_eq]
        exact (blind_noteWrite env _).alike hj.noticed
      have hprep : ((noticed sql env msg s).noteWrite env (infoOf sql s.cfg msg)).prepCache = none := by
        have hkept : ((noticed sql env msg s).noteWrite env (infoOf sql s.cfg msg)).prepCache =
            (noticed sql env msg s).prepCache := by
          unfold Session.noteWrite
          split <;> rfl
        rw [hkept, hobs.prepCache h.serve, h.prepCache, Option.map_none]
      rw [hr, hr', hneeds, hneeds]
      refine outline_dispatch hprep hnote fun hnone ↦ hj.poolOf hgated ?_
      rwa [(frame_noteWrite env _ _).bConn, hobs.bConn] at hnone

theorem Judged.rejects (h : Alike s t) (hj : Judged sql env msg s t) (hmsg : Session.statementOf msg ≠ none) :
    rejects sql env msg t = rejects sql env msg s := by
  have hneeds := needsConn_statement hmsg
  have hnone : t.bConn.isNone = s.bConn.isNone := by
    rw [← Option.not_isSome, ← Option.not_isSome, h.isSome]
  unfold Rejections.rejects
  rw [hj.gated]
  cases hgated : Handling.gated sql s.cfg env msg with
  | true => rfl
  | false =>
    unfold failsOver
    rw [hneeds, hneeds, hnone]
    cases hconn : s.bConn.isNone with
    | true =>
      have hpool := hj.poolOf hgated hconn
      unfold Loops.poolOf at hpool
      rw [hpool]
    | false => simp

theorem noticed_serve (h : s.cfg.rawPassthrough = false) (env : Env) (msg : FrontendMessage) :
    noticed sql env msg s = (((s.clearDeadline env.now).countMessage msg).observeStatement sql msg).pinUnrecognizedSet
      sql := by
  rw [noticed, if_neg (by simp [h]), Session.observeClientMessage]

theorem noticed_raw (h : Alike s t) (env : Env) (msg : FrontendMessage) :
    noticed sql env msg t = match Session.extracted sql s.cfg msg with
      | some text =>
        (((t.clearDeadline env.now).countMessage msg).observeStatement sql (.query text)).pinUnrecognizedSet sql
      | none => ((t.clearDeadline env.now).countMessage msg).pinUnrecognizedSet sql := by
  have hguc : (t.clearDeadline env.now).cfg.gucTracking = true := by
    change t.cfg.gucTracking = true
    rw [h.cfg]
    exact h.gucTracking
  have hsame : Session.extracted sql (t.clearDeadline env.now).cfg msg = Session.extracted sql s.cfg msg := by
    change Session.extracted sql t.cfg msg = _
    rw [h.cfg]
    cases msg <;> rfl
  cases hx : Session.extracted sql s.cfg msg with
  | none | some text => simp only [noticed, h.raw, if_true, Session.observeRaw, hguc, hsame, hx]

theorem infoOf_raw (h : Alike s t) (hmsg : Session.statementOf msg ≠ none) :
    infoOf sql t.cfg msg = match Session.extracted sql s.cfg msg with
      | some text => ((sql.analyzeSQL text).op, (sql.analyzeSQL text).isROBegin)
      | none => sql.classifyDetail [] := by
  obtain ⟨text, htext⟩ := Option.ne_none_iff_exists'.mp hmsg
  have hsame : Session.extracted sql t.cfg msg = Session.extracted sql s.cfg msg := by
    rw [h.cfg]
    cases msg <;> rfl
  have hguc : t.cfg.gucTracking = true := by
    rw [h.cfg]
    exact h.gucTracking
  rw [infoOf, htext]
  cases hx : Session.extracted sql s.cfg msg with
  | none | some text =>
    simp only [h.raw, if_true, Session.classifyRaw, hguc, Bool.not_true, Bool.false_eq_true, if_false, hsame, hx]

theorem infoOf_serve (h : Alike s t) {text : Text} (htext : Session.statementOf msg = some text) :
    infoOf sql s.cfg msg = ((sql.analyzeSQL text).op, (sql.analyzeSQL text).isROBegin) := by
  simp only [infoOf, htext, h.serve, Bool.false_eq_true, if_false]

theorem judged_extracted (h : Alike s t) {text : Text} (htext : Session.statementOf msg = some text)
    (hextract : Session.extracted sql s.cfg msg = some text)
    (hobserve : ((s.clearDeadline env.now).countMessage msg).observeStatement sql msg =
      ((s.clearDeadline env.now).countMessage msg).observeStatement sql (.query text))
    (hgated : gated sql t.cfg env msg = gated sql s.cfg env msg) : Judged sql env msg s t := by
  have hnoticed : outline (noticed sql env msg s) = outline (noticed sql env msg t) := by
    rw [noticed_serve h.serve, noticed_raw h, hextract, hobserve]
    exact (blind_pinUnrecognizedSet.comp ((blind_observeQuery text).comp
      ((blind_countMessage msg).comp (blind_clearDeadline env.now)))).alike h.same
  have hinfo : infoOf sql t.cfg msg = infoOf sql s.cfg msg := by
    rw [infoOf_raw h (by simp [htext]), infoOf_serve h htext, hextract]
  refine ⟨hnoticed, hgated, fun _ ↦ by rw [hinfo], fun _ _ ↦ ?_⟩
  have hnote := (blind_noteWrite env (infoOf sql s.cfg msg)).alike hnoticed
  rw [poolOf, poolOf, hinfo, ← selectPool_outline, ← hnote, selectPool_outline]

end Messages

section Judgement

variable {γ : Type} [DecidableEq γ] {sql : SQL γ} {s t : Session γ} {env : Env} {text : Text}

def uncached (sql : SQL γ) (text : Text) (s : Session γ) : Bool :=
  sql.observeQueryWithInfo s.guc text (sql.analyzeSQL text) == s.guc

/-- A `Query` whose text `serveRaw` extracts, or that is of no consequence for the settings, the pin and the
time of the last write and gets no replica. A `Parse` that changes no setting and does not ask for a
transaction in statement mode. -/
def treatedAlike (sql : SQL γ) (s : Session γ) : Input → Bool
  | .message (.query text) env =>
    (Session.extracted sql s.cfg (.query text)).isSome ||
      (uncached sql text s && (s.sessionPinned || !(sql.analyzeSQL text).needsPin) &&
        (!env.takeQPS || (!writes sql text && (s.bConn.isSome ||
          Session.selectPoolForMsg env s ((sql.analyzeSQL text).op, (sql.analyzeSQL text).isROBegin) == 0))))
  | .message (.parse _ text _) _ =>
    uncached sql text s && !(s.cfg.isStatementMode && sql.isExplicitBeginSQL text)
  | _ => true

theorem observe_overlooked (hcache : uncached sql text s = true)
    (hpin : (s.sessionPinned || !(sql.analyzeSQL text).needsPin) = true) :
    s.observeStatement sql (.query text) = s := by
  have hguc : sql.observeQueryWithInfo s.guc text (sql.analyzeSQL text) = s.guc := by simpa [uncached] using hcache
  have hsame : (s.sessionPinned || (sql.analyzeSQL text).needsPin) = s.sessionPinned := by
    cases hp : s.sessionPinned <;> simp_all
  simp only [Session.observeStatement, Session.pin, hguc, hsame]

theorem observe_parse (hprep : s.prepCache = none) (hcache : uncached sql text s = true) (name : Text)
    (paramOIDs : List UInt32) :
    s.observeStatement sql (.parse name text paramOIDs) = s.observeStatement sql (.query text) := by
  have hguc : sql.observeQueryWithInfo s.guc text (sql.analyzeSQL text) = s.guc := by simpa [uncached] using hcache
  simp only [Session.observeStatement, Session.pin, hguc, hprep, Option.map_none]

theorem judged_query (h : Alike s t) (hempty : sql.classifyDetail [] = (.unknown, false))
    (hguard : treatedAlike sql s (.message (.query text) env) = true) : Judged sql env (.query text) s t := by
  cases hextract : Session.extracted sql s.cfg (.query text) with
  | some text' =>
    have htext : text' = text := by
      unfold Session.extracted at hextract
      split at hextract <;> simp_all
    subst htext
    refine judged_extracted h rfl hextract rfl ?_
    have hguc : t.cfg.gucTracking = true := by
      rw [h.cfg]
      exact h.gucTracking
    have hsame : Session.extracted sql t.cfg (.query text') = some text' := by
      rw [h.cfg]
      exact hextract
    have hmode : t.cfg.isStatementMode = s.cfg.isStatementMode := by
      rw [h.cfg]
      rfl
    simp [gated, Session.statementOf, h.raw, h.serve, hguc, hsame, hmode, Session.isQuery]
  | none =>
    simp only [treatedAlike, hextract, Option.isSome_none, Bool.false_or, Bool.and_eq_true] at hguard
    obtain ⟨⟨hcache, hpin⟩, hquiet⟩ := hguard
    have hmode : s.cfg.isStatementMode = false := by
      unfold Session.extracted at hextract
      simp_all [h.gucTracking]
    have hmode' : t.cfg.isStatementMode = false := by
      rw [h.cfg]
      exact hmode
    have hgated : gated sql s.cfg env (.query text) = !env.takeQPS := by
      simp [gated, Session.statementOf, h.serve, hmode]
    have hgated' : gated sql t.cfg env (.query text) = !env.takeQPS := by
      simp [gated, Session.statementOf, h.raw, hmode']
    have hinfo : infoOf sql t.cfg (.query text) = (.unknown, false) := by
      rw [infoOf_raw h (by simp [Session.statementOf]), hextract]
      exact hempty
    have hnoticed : noticed sql env (.query text) s =
        ((s.clearDeadline env.now).countMessage (.query text)).pinUnrecognizedSet sql := by
      rw [noticed_serve h.serve]
      exact congrArg _ (observe_overlooked hcache hpin)
    have hwrites (hpass : gated sql s.cfg env (.query text) = false) :
        writes sql text = false ∧ (s.bConn.isNone = true → Session.selectPoolForMsg env s
          ((sql.analyzeSQL text).op, (sql.analyzeSQL text).isROBegin) = 0) := by
      rw [hgated] at hpass
      simp only [hpass, Bool.false_or, Bool.and_eq_true, Bool.or_eq_true, Bool.not_eq_true', beq_iff_eq] at hquiet
      refine ⟨hquiet.1, fun hnone ↦ hquiet.2.resolve_left ?_⟩
      simpa using hnone
    refine ⟨?_, by rw [hgated, hgated'], fun hpass ↦ ?_, fun hpass hnone ↦ ?_⟩
    · rw [hnoticed, noticed_raw h, hextract]
      exact (blind_pinUnrecognizedSet.comp ((blind_countMessage _).comp (blind_clearDeadline env.now))).alike h.same
    · rw [hinfo, infoOf_serve h rfl]
      exact (hwrites hpass).1.symm
    · -- the primary on both sides, as the session is pinned at least as firmly as before
      have hserve := (hwrites hpass).2 hnone
      have hnote : (noticed sql env (.query text) s).noteWrite env
          ((sql.analyzeSQL text).op, (sql.analyzeSQL text).isROBegin) = noticed sql env (.query text) s := by
        rw [noteWrite_eq, if_neg]
        rw [Bool.not_eq_true]
        exact (hwrites hpass).1
      rw [poolOf, poolOf, hinfo, infoOf_serve h rfl, hnote, hnoticed, selectPool_unknown]
      exact (selectPool_pin _ hserve).symm

theorem judged_parse (h : Alike s t) {name : Text} {paramOIDs : List UInt32}
    (hguard : treatedAlike sql s (.message (.parse name text paramOIDs) env) = true) :
    Judged sql env (.parse name text paramOIDs) s t := by
  simp only [treatedAlike, Bool.and_eq_true, Bool.not_eq_true'] at hguard
  obtain ⟨hcache, hbegin⟩ := hguard
  have hextract : Session.extracted sql s.cfg (.parse name text paramOIDs) = some text := by
    simp [Session.extracted, h.gucTracking]
  let observed := (s.clearDeadline env.now).countMessage (.parse name text paramOIDs)
  refine judged_extracted h rfl hextract (observe_parse (s := observed) h.prepCache hcache name paramOIDs) ?_
  simp [gated, Session.statementOf, h.raw, h.serve, Session.isQuery, hbegin]

end Judgement

section Agreement

variable {γ : Type} [DecidableEq γ] {sql : SQL γ} {s t : Session γ} {r : Res γ} {input : Input}

def counts (sql : SQL γ) (env : Env) (msg : FrontendMessage) (s : Session γ) : Bool :=
  !gated sql s.cfg env msg && isWrite (infoOf sql s.cfg msg)

/-- The same decisions at one step of the two loops. The phase tells the pool that a backend is acquired
from. -/
structure Agree (sql : SQL γ) (x y : Entry (Session γ) Input (List Act)) : Prop where
  event : y.event = x.event
  guc : y.after.guc = x.after.guc
  sessionPinned : y.after.sessionPinned = x.after.sessionPinned
  lastWriteAt : y.after.lastWriteAt = x.after.lastWriteAt
  phase : y.after.phase = x.after.phase
  rejects : ∀ msg env, x.event = .message msg env → rejects sql env msg y.before = rejects sql env msg x.before
  counts : ∀ msg env, x.event = .message msg env → counts sql env msg y.before = counts sql env msg x.before

def plain : Input → Bool
  | .message (.query _) _ | .message (.parse ..) _ => true
  | .message .. | .clientTimeout .. => false
  | _ => true

theorem agree_of_step (hempty : sql.classifyDetail [] = (.unknown, false)) (h : Alike s t)
    (hplain : plain input = true) (hguard : treatedAlike sql s input = true) (hstep : s.step sql input = some r) :
    ∃ r', t.step sql input = some r' ∧ Alike r.1 r'.1 ∧ Agree sql ⟨s, input, r.1, r.2⟩ ⟨t, input, r'.1, r'.2⟩ := by
  by_cases hinput : ∃ msg env, input = .message msg env
  · obtain ⟨msg, env, rfl⟩ := hinput
    obtain ⟨hphase, rfl⟩ := message_of_step hstep
    have hmsg : Session.statementOf msg ≠ none := by
      cases msg <;> first | cases hplain; done | simp [Session.statementOf]
    have hjudged : Judged sql env msg s t := by
      cases msg with
      | query text => exact judged_query h hempty hguard
      | parse name text paramOIDs => exact judged_parse h hguard
      | _ => cases hplain
    have hstep' : t.step sql (.message msg env) = some (t.clientMessage sql env msg) := by
      have hphase' := h.phase.trans hphase
      simp only [Session.step, hphase']
    have hnext := h.next hstep hstep' (alike_clientMessage h hjudged hmsg)
    refine ⟨_, hstep', hnext, rfl, hnext.guc, hnext.sessionPinned, hnext.lastWriteAt, hnext.phase, ?_, ?_⟩
    · rintro msg' env' hevent
      cases hevent
      exact hjudged.rejects h hmsg
    · rintro msg' env' hevent
      cases hevent
      change counts sql env msg t = counts sql env msg s
      unfold Loops.counts
      rw [hjudged.gated]
      cases hgated : gated sql s.cfg env msg with
      | true => rfl
      | false => rw [hjudged.isWrite hgated]
  · push Not at hinput
    have htimeout (now : ℤ) (ok : Bool) : input ≠ .clientTimeout now ok := by
      rintro rfl
      cases hplain
    have hsame : (s.step sql input).map (fun r ↦ outline r.1) = _ := follows h hinput htimeout
    rw [hstep] at hsame
    obtain ⟨r', hstep', hsame⟩ := Option.map_eq_some_iff.mp hsame.symm
    have hnext := h.next hstep hstep' hsame.symm
    exact ⟨r', hstep', hnext, rfl, hnext.guc, hnext.sessionPinned, hnext.lastWriteAt, hnext.phase,
      fun msg env hevent ↦ absurd hevent (hinput msg env), fun msg env hevent ↦ absurd hevent (hinput msg env)⟩

end Agreement

section Runs

variable {order : List (Text × Text) → List (Text × Text)}

def legible : Input → Bool
  | .message msg _ => (Session.statementOf msg).all fun text ↦ (Sql.Classifier.analyzeSQL text).isSome
  | _ => true

/-- As long as every message is one that both treat alike, `serveRaw` makes the decisions of `Serve`, step by
step. -/
theorem loops_agree {id : ℕ} {cfg : PooledConfig} (hraw : cfg.rawPassthrough = false)
    (hprepared : cfg.preparedCache = false) (hguc : cfg.gucTracking = true) {inputs : List Input}
    {c : History Sql.Settings.GUCCache}
    (hrun : Run (recorded (Session.step (Sql.routerSQL order)))
      (fun c input ↦ plain input && legible input && treatedAlike (Sql.routerSQL order) c.current input)
      (start (Session.new (Sql.routerSQL order) id cfg)) inputs c) :
    ∃ d, Run (recorded (Session.step (Sql.routerSQL order))) anyStep
        (start (Session.new (Sql.routerSQL order) id { cfg with rawPassthrough := true })) inputs d ∧
      List.Forall₂ (Agree (Sql.routerSQL order)) c.past d.past := by
  have hkeep (c : History Sql.Settings.GUCCache) (input : Input) (r : Res Sql.Settings.GUCCache)
      (t : Session Sql.Settings.GUCCache) (h : Alike c.current t)
      (hguard : (plain input && legible input && treatedAlike (Sql.routerSQL order) c.current input) = true)
      (hstep : c.current.step (Sql.routerSQL order) input = some r) :
      ∃ r', t.step (Sql.routerSQL order) input = some r' ∧ Alike r.1 r'.1 ∧
        Agree (Sql.routerSQL order) ⟨c.current, input, r.1, r.2⟩ ⟨t, input, r'.1, r'.2⟩ := by
    simp only [Bool.and_eq_true] at hguard
    exact agree_of_step rfl h hguard.1.1 hguard.2 hstep
  exact lockstep hkeep (alike_new hraw hprepared hguc) hrun

def preparing : List Input :=
  welcomed ++ [.message (.query (ascii "SET timezone = 'UTC'")) calm, .acquired (.dialed 7 none), .sent true,
    .received (.readyForQuery txIdle) true, .sent true, .received (.readyForQuery txInBlock) true,
    .message (.parse [] (ascii "SELECT 1") []) calm]

theorem loops_agree_preparing :
    ∃ c d, Run (recorded (Session.step (Sql.routerSQL id)))
        (fun c input ↦ plain input && legible input && treatedAlike (Sql.routerSQL id) c.current input)
        (start (Session.new (Sql.routerSQL id) 0 pooling)) preparing c ∧
      Run (recorded (Session.step (Sql.routerSQL id))) anyStep
        (start (Session.new (Sql.routerSQL id) 0 { pooling with rawPassthrough := true })) preparing d ∧
      List.Forall₂ (Agree (Sql.routerSQL id)) c.past d.past := by
  have hrun : Run (recorded (Session.step (Sql.routerSQL id)))
      (fun c input ↦ plain input && legible input && treatedAlike (Sql.routerSQL id) c.current input)
      (start (Session.new (Sql.routerSQL id) 0 pooling)) preparing _ := run_of_exec rfl
  obtain ⟨d, hd, hpast⟩ := loops_agree rfl rfl rfl hrun
  exact ⟨_, d, hrun, hd, hpast⟩

/-- `serveRaw` does not look into a `SELECT` and takes it to the primary. -/
theorem select_kept_from_replica :
    ∃ c d x y, Run (recorded (Session.step (Sql.routerSQL id))) (fun _ input ↦ plain input && legible input)
        (start (Session.new (Sql.routerSQL id) 0 pooling))
        (welcomed ++ [.message (.query (ascii "SELECT 1")) { calm with replica := some 1 }]) c ∧
      Run (recorded (Session.step (Sql.routerSQL id))) (fun _ input ↦ plain input && legible input)
        (start (Session.new (Sql.routerSQL id) 0 { pooling with rawPassthrough := true }))
        (welcomed ++ [.message (.query (ascii "SELECT 1")) { calm with replica := some 1 }]) d ∧
      c.past.getLast? = some x ∧ d.past.getLast? = some y ∧
      x.after.phase = .acquiring (.query (ascii "SELECT 1")) 1 ∧
      y.after.phase = .acquiring (.query (ascii "SELECT 1")) 0 ∧
      ¬ List.Forall₂ (Agree (Sql.routerSQL id)) c.past d.past := by
  refine ⟨_, _, _, _, run_of_exec rfl, run_of_exec rfl, rfl, rfl, rfl, rfl, fun h ↦ ?_⟩
  rcases h with - | ⟨-, - | ⟨-, - | ⟨hlast, -⟩⟩⟩
  cases hlast.phase

end Runs

end PgRouter.Client.Loops
