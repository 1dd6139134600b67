import PgRouter.Client.Effects

namespace PgRouter.Client.Handling

open Protocol Prepared Handler Effects

variable {γ : Type} {sql : SQL γ} {env : Env} {msg : FrontendMessage} {s s' t : Session γ}

def notePrep (sql : SQL γ) (msg : FrontendMessage) (c : PrepareCache) : PrepareCache :=
  match msg with
  | .parse name text paramOIDs => c.observe sql.serverNameFor name text paramOIDs
  | .close objectType name => if objectType = objectStatement then c.close name else c
  | _ => c

def noteGUC (sql : SQL γ) (msg : FrontendMessage) (guc : γ) : γ :=
  match msg with
  | .query text => sql.observeQueryWithInfo guc text (sql.analyzeSQL text)
  | _ => guc

/-- The class of a client message that both loops go by. -/
def infoOf (sql : SQL γ) (cfg : PooledConfig) (msg : FrontendMessage) : SQLOp × Bool :=
  match Session.statementOf msg with
  | none => (.unknown, false)
  | some text =>
    if cfg.rawPassthrough then Session.classifyRaw sql cfg msg
    else ((sql.analyzeSQL text).op, (sql.analyzeSQL text).isROBegin)

def needsConn (cfg : PooledConfig) (msg : FrontendMessage) : Bool :=
  if cfg.rawPassthrough then needsBackend msg else messageNeedsBackend msg

def isWrite (info : SQLOp × Bool) : Bool := info.1 == .write && !info.2

def writes (sql : SQL γ) (text : Text) : Bool :=
  isWrite ((sql.analyzeSQL text).op, (sql.analyzeSQL text).isROBegin)

def carriesWrite (sql : SQL γ) (m : FrontendMessage) : Bool := (Session.statementOf m).any (writes sql)

/-- The message is turned down before a backend is looked for: a `BEGIN` in statement mode, or a
statement above the rate limit. -/
def gated (sql : SQL γ) (cfg : PooledConfig) (env : Env) (msg : FrontendMessage) : Bool :=
  match Session.statementOf msg with
  | none => false
  | some text =>
    (if cfg.rawPassthrough then
      cfg.gucTracking && cfg.isStatementMode && Session.isQuery msg &&
        sql.isExplicitBeginSQL ((Session.extracted sql cfg msg).getD [])
    else cfg.isStatementMode && sql.isExplicitBeginSQL text) || !env.takeQPS

structure Frame (s s' : Session γ) : Prop extends Same s s' where
  bConnPool : s'.bConnPool = s.bConnPool
  spliceReader : s'.spliceReader = s.spliceReader
  pendingEvictCC : s'.pendingEvictCC = s.pendingEvictCC
  pendingParsePC : s'.pendingParsePC = s.pendingParsePC
  writeBuf : s'.writeBuf = s.writeBuf
  pinned : s.sessionPinned = true → s'.sessionPinned = true

theorem Frame.trans (h : Frame s s') (h' : Frame s' t) : Frame s t where
  toSame := h.toSame.trans h'.toSame
  bConnPool := h'.bConnPool.trans h.bConnPool
  spliceReader := h'.spliceReader.trans h.spliceReader
  pendingEvictCC := h'.pendingEvictCC.trans h.pendingEvictCC
  pendingParsePC := h'.pendingParsePC.trans h.pendingParsePC
  writeBuf := h'.writeBuf.trans h.writeBuf
  pinned hs := h'.pinned (h.pinned hs)

theorem frame_pin (needsPin : Bool) (s : Session γ) : Frame s (s.pin needsPin) :=
  ⟨same_pin needsPin s, rfl, rfl, rfl, rfl, rfl, fun hs ↦ by simp [Session.pin, hs]⟩

theorem frame_clearDeadline (now : ℤ) (s : Session γ) : Frame s (s.clearDeadline now) :=
  ⟨same_clearDeadline now s, rfl, rfl, rfl, rfl, rfl, id⟩

theorem frame_countMessage (msg : FrontendMessage) (s : Session γ) : Frame s (s.countMessage msg) :=
  ⟨same_countMessage msg s, rfl, rfl, rfl, rfl, rfl, id⟩

theorem frame_noteWrite (env : Env) (info : SQLOp × Bool) (s : Session γ) :
    Frame s (s.noteWrite env info) := by
  have hsame := same_noteWrite env info s
  unfold Session.noteWrite at hsame ⊢
  split at hsame
  · rw [if_pos ‹_›]
    exact ⟨hsame, rfl, rfl, rfl, rfl, rfl, id⟩
  · rw [if_neg ‹_›]
    exact ⟨hsame, rfl, rfl, rfl, rfl, rfl, id⟩

theorem prepCache_noteWrite (env : Env) (info : SQLOp × Bool) (s : Session γ) :
    (s.noteWrite env info).prepCache = s.prepCache := by
  unfold Session.noteWrite
  split <;> rfl

theorem frame_observeStatement (msg : FrontendMessage) (s : Session γ) :
    Frame s (s.observeStatement sql msg) := by
  have hsame : Same s (s.observeStatement sql msg) := same_observeStatement msg s
  cases msg with
  | query text | parse name text paramOIDs => exact ⟨hsame, rfl, rfl, rfl, rfl, rfl, (frame_pin _ _).pinned⟩
  | close objectType name =>
    simp only [Session.observeStatement] at hsame ⊢
    split
    · exact ⟨by simpa [‹objectType = _›] using hsame, rfl, rfl, rfl, rfl, rfl, id⟩
    · exact ⟨by simpa [‹¬objectType = _›] using hsame, rfl, rfl, rfl, rfl, rfl, id⟩
  | _ => exact ⟨hsame, rfl, rfl, rfl, rfl, rfl, id⟩

@[simp] theorem notePrep_id (hparse : ∀ name text paramOIDs, msg ≠ .parse name text paramOIDs)
    (hclose : ∀ name, msg ≠ .close objectStatement name) : notePrep sql msg = id := by
  funext c
  cases msg with
  | parse name text paramOIDs => exact absurd rfl (hparse name text paramOIDs)
  | close objectType name =>
    have hne : objectType ≠ objectStatement := by
      rintro rfl
      exact hclose name rfl
    simp [notePrep, hne]
  | _ => rfl

section

variable (msg : FrontendMessage)

theorem prepCache_observeStatement (s : Session γ) :
    (s.observeStatement sql msg).prepCache = s.prepCache.map (notePrep sql msg) := by
  cases msg with
  | parse name text paramOIDs => rfl
  | close objectType name =>
    by_cases htype : objectType = objectStatement
    · subst htype
      rfl
    · have hid : notePrep sql (.close objectType name) = id := by
        apply notePrep_id
        · simp
        · simp [htype]
      rw [hid, Option.map_id]
      simp [Session.observeStatement, htype]
  | _ => simp [Session.observeStatement, Session.pin]

theorem lastWriteAt_observeStatement (s : Session γ) :
    (s.observeStatement sql msg).lastWriteAt = s.lastWriteAt := by
  unfold Session.observeStatement
  split
  · rfl
  · rfl
  · split <;> rfl
  · rfl

theorem guc_observeStatement (s : Session γ) :
    (s.observeStatement sql msg).guc = noteGUC sql msg s.guc := by
  cases msg with
  | close objectType name =>
    unfold Session.observeStatement
    dsimp only
    split <;> rfl
  | _ => rfl

end

structure Observed (sql : SQL γ) (msg : FrontendMessage) (s s' : Session γ) : Prop extends Frame s s' where
  rawPrep : s.cfg.rawPassthrough = true → s'.prepCache = s.prepCache
  prepCache : s.cfg.rawPassthrough = false → s'.prepCache = s.prepCache.map (notePrep sql msg)
  guc : s.cfg.rawPassthrough = false → s'.guc = noteGUC sql msg s.guc
  lastWriteAt : s'.lastWriteAt = s.lastWriteAt

theorem Observed.noted (h : Observed sql msg s s') (env : Env) : Frame s (s'.noteWrite env (infoOf sql s.cfg msg)) :=
  h.toFrame.trans (frame_noteWrite env _ s')

theorem observed_client (now : ℤ) (hraw : s.cfg.rawPassthrough = false) :
    Observed sql msg s ((s.clearDeadline now).observeClientMessage sql msg) where
  toFrame := (((frame_clearDeadline now s).trans (frame_countMessage msg _)).trans
    (frame_observeStatement msg _)).trans (frame_pin _ _)
  rawPrep := by simp [hraw]
  prepCache _ := prepCache_observeStatement msg ((s.clearDeadline now).countMessage msg)
  guc _ := guc_observeStatement msg ((s.clearDeadline now).countMessage msg)
  lastWriteAt := lastWriteAt_observeStatement msg ((s.clearDeadline now).countMessage msg)

theorem observed_raw (now : ℤ) (hraw : s.cfg.rawPassthrough = true) :
    Observed sql msg s ((s.clearDeadline now).observeRaw sql msg) := by
  have hcount := (frame_clearDeadline now s).trans (frame_countMessage msg _)
  unfold Session.observeRaw
  split
  · split
    · exact ⟨(hcount.trans (frame_observeStatement _ _)).trans (frame_pin _ _), fun _ ↦ rfl,
        by simp [hraw], by simp [hraw], rfl⟩
    · exact ⟨hcount.trans (frame_pin _ _), fun _ ↦ rfl, by simp [hraw], by simp [hraw], rfl⟩
  · exact ⟨hcount, fun _ ↦ rfl, by simp [hraw], by simp [hraw], rfl⟩

def refused (env : Env) (code text : String) (s : Session γ) : Res γ :=
  (s.sendErrorRFQ code text env.ok).andThen fun s ↦ (s.loop, [])

/-- The session once it has taken note of a client message, before it looks for a backend. -/
def noticed (sql : SQL γ) (env : Env) (msg : FrontendMessage) (s : Session γ) : Session γ :=
  if s.cfg.rawPassthrough then (s.clearDeadline env.now).observeRaw sql msg
  else (s.clearDeadline env.now).observeClientMessage sql msg

theorem noteWrite_unknown (env : Env) (s : Session γ) : s.noteWrite env (.unknown, false) = s := by
  simp [Session.noteWrite]

variable (sql) in
theorem clientMessage_cases (hmsg : msg ≠ .terminate) (env : Env) (s : Session γ) :
    ∃ o, o = noticed sql env msg s ∧ Observed sql msg s o ∧
      ((gated sql s.cfg env msg = true ∧ ∃ code text, s.clientMessage sql env msg = refused env code text o) ∨
        (gated sql s.cfg env msg = false ∧ s.clientMessage sql env msg =
          (o.noteWrite env (infoOf sql s.cfg msg)).dispatch sql env msg (needsConn s.cfg msg)
            (infoOf sql s.cfg msg))) := by
  unfold Session.clientMessage
  rw [if_neg hmsg]
  cases hraw : s.cfg.rawPassthrough with
  | false =>
    have hobs : Observed sql msg s ((s.clearDeadline env.now).observeClientMessage sql msg) :=
      observed_client env.now hraw
    refine ⟨_, by simp [noticed, hraw], hobs, ?_⟩
    rw [if_neg (by simp)]
    unfold Session.serveObserved gated infoOf needsConn
    rw [hobs.cfg, hraw]
    cases hstmt : Session.statementOf msg with
    | none => exact .inr ⟨rfl, by simp [noteWrite_unknown]⟩
    | some text =>
      dsimp only
      cases s.cfg.isStatementMode && sql.isExplicitBeginSQL text with
      | true => exact .inl ⟨by simp, _, _, rfl⟩
      | false =>
        cases env.takeQPS with
        | false => exact .inl ⟨by simp, _, _, rfl⟩
        | true => exact .inr ⟨by simp, by simp⟩
  | true =>
    have hobs : Observed sql msg s ((s.clearDeadline env.now).observeRaw sql msg) :=
      observed_raw env.now hraw
    refine ⟨_, by simp [noticed, hraw], hobs, ?_⟩
    rw [if_pos rfl]
    unfold Session.serveRawObserved gated infoOf needsConn
    rw [hobs.cfg, hraw]
    cases hstmt : Session.statementOf msg with
    | none =>
      have hquery : Session.isQuery msg = false := by
        cases msg <;> first | rfl | cases hstmt
      exact .inr ⟨rfl, by simp [hquery, noteWrite_unknown]⟩
    | some text =>
      dsimp only
      cases s.cfg.gucTracking && s.cfg.isStatementMode && Session.isQuery msg &&
          sql.isExplicitBeginSQL ((Session.extracted sql s.cfg msg).getD []) with
      | true => exact .inl ⟨by simp, _, _, rfl⟩
      | false =>
        cases env.takeQPS with
        | false => exact .inl ⟨by simp, _, _, rfl⟩
        | true => exact .inr ⟨by simp, by simp⟩

/-- What comes of a client message, given the session that has taken note of it. -/
inductive Handled (sql : SQL γ) (env : Env) (msg : FrontendMessage) (s : Session γ) : Res γ → Prop
  | gated {o : Session γ} (hobs : Observed sql msg s o) (hgated : gated sql s.cfg env msg = true)
      (code text : String) : Handled sql env msg s (refused env code text o)
  | failedOver {o : Session γ} (hnoticed : o = noticed sql env msg s) (hobs : Observed sql msg s o)
      (hgated : gated sql s.cfg env msg = false)
      (hneeds : needsConn s.cfg msg = true) (hnone : s.bConn = none)
      (hpool : Session.selectPoolForMsg env (o.noteWrite env (infoOf sql s.cfg msg))
        (infoOf sql s.cfg msg) = 0)
      (hhealth : env.primaryHealthy = false) (code text : String) :
      Handled sql env msg s (refused env code text (o.noteWrite env (infoOf sql s.cfg msg)))
  | acquires {o : Session γ} (hobs : Observed sql msg s o) (hgated : gated sql s.cfg env msg = false)
      (hneeds : needsConn s.cfg msg = true) (hnone : s.bConn = none) :
      Handled sql env msg s
        ({ o.noteWrite env (infoOf sql s.cfg msg) with
            phase := .acquiring msg (Session.selectPoolForMsg env
              (o.noteWrite env (infoOf sql s.cfg msg)) (infoOf sql s.cfg msg)) }, [])
  | forwards {o : Session γ} (hobs : Observed sql msg s o) (hgated : gated sql s.cfg env msg = false)
      (hsome : s.bConn.isSome = true) :
      Handled sql env msg s ((o.noteWrite env (infoOf sql s.cfg msg)).forwardMessage sql msg)
  | answers {o : Session γ} (hobs : Observed sql msg s o) (hgated : gated sql s.cfg env msg = false)
      (hnone : s.bConn = none) (hsync : msg = .sync) :
      Handled sql env msg s
        ((((o.noteWrite env (infoOf sql s.cfg msg)).beSend (.readyForQuery txIdle)).beFlush
          env.ok).andThen fun s ↦ (s.loop, []))
  | ignores {o : Session γ} (hobs : Observed sql msg s o) (hgated : gated sql s.cfg env msg = false)
      (hnone : s.bConn = none) (hneeds : needsConn s.cfg msg = false) (hsync : msg ≠ .sync) :
      Handled sql env msg s ((o.noteWrite env (infoOf sql s.cfg msg)).loop, [])

theorem handled_of_clientMessage (hmsg : msg ≠ .terminate) (env : Env) (s : Session γ) :
    Handled sql env msg s (s.clientMessage sql env msg) := by
  obtain ⟨o, hnoticed, hobs, ⟨hgated, code, text, hr⟩ | ⟨hgated, hr⟩⟩ :=
    clientMessage_cases sql hmsg env s
  · rw [hr]
    exact .gated hobs hgated code text
  · rw [hr]
    have hconn : (o.noteWrite env (infoOf sql s.cfg msg)).bConn = s.bConn :=
      (frame_noteWrite env _ o).bConn.trans hobs.bConn
    unfold Session.dispatch
    split
    · rename_i hneeds
      rw [Bool.and_eq_true, hconn, Option.isNone_iff_eq_none] at hneeds
      unfold Session.acquire
      split
      · rename_i hdown
        exact .failedOver hnoticed hobs hgated hneeds.1 hneeds.2 hdown.1 (by simpa using hdown.2) _ _
      · exact .acquires hobs hgated hneeds.1 hneeds.2
    · rename_i hneeds
      rw [hconn] at hneeds ⊢
      split
      · exact .forwards hobs hgated ‹_›
      · rename_i hnone
        rw [Option.not_isSome_iff_eq_none] at hnone
        split
        · exact .answers hobs hgated hnone ‹_›
        · exact .ignores hobs hgated hnone (by simpa [hnone] using hneeds) ‹_›

end PgRouter.Client.Handling
