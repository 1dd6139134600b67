import PgRouter.Client.Turns
import PgRouter.Sql.Router

namespace PgRouter.Client.Rejections

open Library.Runs Library.Records Protocol Prepared Servers Handler Effects Handling Attachment Turns
open Sql.Settings

section Memory

variable {γ : Type} {sql : SQL γ} {s : Session γ} {r : Res γ}

structure Recalls (s s' : Session γ) : Prop where
  cfg : s'.cfg = s.cfg
  guc : s'.guc = s.guc
  sessionPinned : s'.sessionPinned = s.sessionPinned
  prepCache : s.prepCache = none → s'.prepCache = none

theorem Recalls.trans {s' t : Session γ} (h : Recalls s s') (h' : Recalls s' t) : Recalls s t :=
  ⟨h'.cfg.trans h.cfg, h'.guc.trans h.guc, h'.sessionPinned.trans h.sessionPinned,
    h'.prepCache ∘ h.prepCache⟩

theorem recalls_of_core {s s' : Session γ} (h : core s' = core s) : Recalls s s' :=
  ⟨congrArg Core.cfg h, congrArg Core.guc h, congrArg Core.sessionPinned h, (congrArg Core.prepCache h).trans⟩

theorem recalls_send (ms : List FrontendMessage) (s : Session γ) : Recalls s (s.send ms).1 := by
  unfold Session.send
  split <;> exact ⟨rfl, rfl, rfl, id⟩

section

variable (msg : FrontendMessage)

theorem recalls_afterForward (s : Session γ) : Recalls s (s.afterForward msg) := by
  unfold Session.afterForward
  split <;> exact ⟨rfl, rfl, rfl, id⟩

theorem recalls_forwardMessage (s : Session γ) :
    Recalls s (s.forwardMessage sql msg).1 := by
  unfold Session.forwardMessage
  split
  · have hbuf : Recalls s { s with writeBuf := s.writeBuf ++ [msg] } := ⟨rfl, rfl, rfl, id⟩
    exact hbuf.trans (recalls_afterForward msg _)
  · split
    · exact (recalls_send _ s).trans (recalls_afterForward msg _)
    · rename_i clientPrep hprep
      have hintercept : Recalls s (s.applyIntercept (s.intercept sql clientPrep msg)) :=
        ⟨rfl, rfl, rfl, fun h ↦ absurd (h.symm.trans hprep) (by simp)⟩
      exact (hintercept.trans (recalls_send _ _)).trans (recalls_afterForward msg _)

theorem recalls_attach (pool : ℕ) (b : Backend) (s : Session γ) :
    Recalls s (s.attach sql msg pool b).1 := by
  unfold Session.attach
  split
  · have hadopt : Recalls s (s.adopt pool b) := ⟨rfl, rfl, rfl, id⟩
    exact hadopt.trans (recalls_forwardMessage msg _)
  · exact ⟨rfl, rfl, rfl, id⟩

end

theorem recalls_noteWrite (env : Env) (info : SQLOp × Bool) (s : Session γ) :
    Recalls s (s.noteWrite env info) := by
  unfold Session.noteWrite
  split <;> exact ⟨rfl, rfl, rfl, id⟩

theorem recalls_dispatch (env : Env) (msg : FrontendMessage) (needs : Bool) (info : SQLOp × Bool)
    (s : Session γ) : Recalls s (s.dispatch sql env msg needs info).1 := by
  unfold Session.dispatch Session.acquire
  split
  · split <;> exact ⟨rfl, rfl, rfl, id⟩
  · split
    · exact recalls_forwardMessage msg s
    · split <;> exact ⟨rfl, rfl, rfl, id⟩

variable {input : Input}

theorem recalls_of_step (hinput : ∀ msg env, input ≠ .message msg env)
    (hstep : s.step sql input = some r) : Recalls s r.1 := by
  cases turn_of_step hstep with
  | stays _ _ hidle | leaves _ _ hidle => exact recalls_of_core hidle.core
  | timedOut hphase ok => exact recalls_of_core (idles_queryTimeout ok s).core
  | resets _ _ hidle => exact recalls_of_core hidle.core
  | greeted hphase params key ok => cases ok <;> exact ⟨rfl, rfl, rfl, id⟩
  | message hphase hmsg hhandled => exact absurd rfl (hinput _ _)
  | acquired hphase b => exact recalls_attach _ _ b s
  | replaySent hphase ok => exact recalls_of_core (core_flush _)
  | replayWaits => exact ⟨rfl, rfl, rfl, id⟩
  | replayed hphase txStatus ok => exact recalls_forwardMessage _ s
  | sent hphase ok =>
    have hbatch : Recalls s s.writeBatch.1 := by
      unfold Session.writeBatch
      split
      · split <;> exact ⟨rfl, rfl, rfl, id⟩
      · exact recalls_of_core (core_flush s)
    exact hbatch.trans (recalls_of_core (idles_startDrain ok _).core)
  | withheldCC | withheldPC | cutOff => exact ⟨rfl, rfl, rfl, id⟩
  | drained hphase m ok _ => exact recalls_of_core (idles_passOn (by rw [hphase]; rfl) m ok).core
  | polled hphase m ok => exact recalls_of_core (idles_pollReceived hphase m ok).core

variable {msg : FrontendMessage}

theorem recalls_noticed {env : Env} (hmsg : msg ≠ .terminate) (s : Session γ) :
    Recalls (noticed sql env msg s) (s.clientMessage sql env msg).1 := by
  obtain ⟨o, rfl, hobs, ⟨-, code, text, hr⟩ | ⟨-, hr⟩⟩ := clientMessage_cases sql hmsg env s
  · rw [hr]
    exact ⟨rfl, rfl, rfl, id⟩
  · rw [hr]
    exact (recalls_noteWrite env _ _).trans (recalls_dispatch env msg _ _ _)

theorem message_of_step {env : Env}
    (hstep : s.step sql (.message msg env) = some r) : s.phase = .top ∧ r = s.clientMessage sql env msg := by
  cases steps_of_step hstep with
  | message hphase => exact ⟨hphase, rfl⟩
  | goodbye _ hinput | pollLost _ hinput | replayLost _ hinput | resetLost _ hinput => cases hinput

theorem fixed_of_step (hstep : s.step sql input = some r) :
    r.1.cfg = s.cfg ∧ (s.prepCache = none → r.1.prepCache = none) := by
  by_cases hinput : ∃ msg env, input = .message msg env
  · obtain ⟨msg, env, rfl⟩ := hinput
    obtain ⟨-, rfl⟩ := message_of_step hstep
    by_cases hmsg : msg = .terminate
    · subst hmsg
      have hleave := recalls_of_core (idles_leave s).core
      exact ⟨hleave.cfg, hleave.prepCache⟩
    · have hrecall : Recalls (noticed sql env msg s) (s.clientMessage sql env msg).1 := recalls_noticed hmsg s
      obtain ⟨o, rfl, hobs, -⟩ := clientMessage_cases sql hmsg env s
      refine ⟨hrecall.cfg.trans hobs.cfg, fun hprep ↦ hrecall.prepCache ?_⟩
      cases hraw : s.cfg.rawPassthrough with
      | true => rw [hobs.rawPrep hraw, hprep]
      | false => rw [hobs.prepCache hraw, hprep, Option.map_none]
  · push Not at hinput
    have hrecall := recalls_of_step hinput hstep
    exact ⟨hrecall.cfg, hrecall.prepCache⟩

def pins (sql : SQL γ) (msg : FrontendMessage) : Bool :=
  (Session.statementOf msg).any fun text ↦ (sql.analyzeSQL text).needsPin

variable (sql) in
theorem pinned_noticed (hraw : s.cfg.rawPassthrough = false) (env : Env) (msg : FrontendMessage) :
    (noticed sql env msg s).sessionPinned =
      (s.sessionPinned || pins sql msg || sql.hasUnrecognizedSet (noticed sql env msg s).guc) := by
  rw [noticed, if_neg (by simp [hraw])]
  cases msg with
  | close objectType name =>
    simp only [Session.observeClientMessage, Session.observeStatement, pins, Session.statementOf]
    split <;> simp [Session.pinUnrecognizedSet, Session.pin, Session.countMessage, Session.clearDeadline]
  | _ =>
    simp [Session.observeClientMessage, Session.observeStatement, pins, Session.statementOf,
      Session.pinUnrecognizedSet, Session.pin, Session.countMessage, Session.clearDeadline]

structure Pins (sql : SQL γ) (s : Session γ) : Prop where
  raw : s.cfg.rawPassthrough = false
  pinned : sql.hasUnrecognizedSet s.guc = true → s.sessionPinned = true

theorem pins_of_step (hs : Pins sql s) (hstep : s.step sql input = some r) :
    Pins sql r.1 := by
  have hsame {s s' : Session γ} (hs : Pins sql s) (h : Recalls s s') : Pins sql s' :=
    ⟨by rw [h.cfg, hs.raw], by rw [h.guc, h.sessionPinned]; exact hs.pinned⟩
  by_cases hinput : ∃ msg env, input = .message msg env
  · obtain ⟨msg, env, rfl⟩ := hinput
    obtain ⟨-, rfl⟩ := message_of_step hstep
    by_cases hmsg : msg = .terminate
    · subst hmsg
      exact hsame hs (recalls_of_core (idles_leave s).core)
    · have hnoticed : Pins sql (noticed sql env msg s) := by
        obtain ⟨o, rfl, hobs, -⟩ := clientMessage_cases sql hmsg env s
        refine ⟨by rw [hobs.cfg, hs.raw], fun h ↦ ?_⟩
        rw [pinned_noticed sql hs.raw, h, Bool.or_true]
      exact hsame hnoticed (recalls_noticed hmsg s)
  · push Not at hinput
    exact hsame hs (recalls_of_step hinput hstep)

end Memory

section Prepared

variable (serverNameFor : Text → Text) (c : PrepareCache) (name query : Text) (paramOIDs : List UInt32)

deriving instance DecidableEq for Stmt

def known : Bool :=
  name == [] || c.get name == some ⟨name, serverNameFor query, query, paramOIDs⟩

theorem observe_same : (∀ other, (c.observe serverNameFor name query paramOIDs).get other = c.get other) ↔
    known serverNameFor c name query paramOIDs = true := by
  by_cases hname : name = []
  · simp [hname, PrepareCache.observe, known]
  · simp only [get_observe _ _ _ _ _ _ hname, known, Bool.or_eq_true, beq_iff_eq, hname, false_or]
    constructor
    · intro h
      simpa using (h name).symm
    · intro h other
      split
      · subst other
        exact h.symm
      · rfl

end Prepared

section Rejection

variable {γ : Type} {sql : SQL γ} {s : Session γ} {env : Env} {msg : FrontendMessage}

def failsOver (sql : SQL γ) (env : Env) (msg : FrontendMessage) (s : Session γ) : Bool :=
  needsConn s.cfg msg && s.bConn.isNone &&
    Session.selectPoolForMsg env ((noticed sql env msg s).noteWrite env (infoOf sql s.cfg msg))
      (infoOf sql s.cfg msg) == 0 && !env.primaryHealthy

/-- The client gets an error and `ReadyForQuery` from the router in place of a backend. -/
def rejects (sql : SQL γ) (env : Env) (msg : FrontendMessage) (s : Session γ) : Bool :=
  gated sql s.cfg env msg || failsOver sql env msg s

theorem refused_of_rejects (hmsg : msg ≠ .terminate) (h : rejects sql env msg s = true) :
    ∃ code text, s.clientMessage sql env msg = refused env code text
      (if gated sql s.cfg env msg then noticed sql env msg s
        else (noticed sql env msg s).noteWrite env (infoOf sql s.cfg msg)) := by
  obtain ⟨o, rfl, hobs, ⟨hgated, code, text, hr⟩ | ⟨hgated, hr⟩⟩ := clientMessage_cases sql hmsg env s
  · exact ⟨code, text, by rw [hr, if_pos hgated]⟩
  · rw [rejects, hgated, Bool.false_or, failsOver] at h
    simp only [Bool.and_eq_true, beq_iff_eq] at h
    obtain ⟨⟨⟨hneeds, hnone⟩, hpool⟩, hdown⟩ := h
    have hconn : ((noticed sql env msg s).noteWrite env (infoOf sql s.cfg msg)).bConn = s.bConn :=
      (frame_noteWrite env _ _).bConn.trans hobs.bConn
    rw [hr, Session.dispatch, if_pos (by rw [hneeds, hconn, hnone]; rfl), Session.acquire,
      if_pos ⟨hpool, hdown⟩, if_neg (by simp [hgated])]
    exact ⟨_, _, rfl⟩

end Rejection

section Unaltered

variable {order : List (Text × Text) → List (Text × Text)} {s : Session GUCCache} {env : Env}
  {msg : FrontendMessage}

/-- The settings with their flag, the prepared statements, the pin and the time of the last write. -/
structure Unaltered (s s' : Session GUCCache) : Prop where
  guc : s.guc.Same s'.guc
  prepCache : ∀ name, s'.prepCache.map (·.get name) = s.prepCache.map (·.get name)
  sessionPinned : s'.sessionPinned = s.sessionPinned
  lastWriteAt : s'.lastWriteAt = s.lastWriteAt

/-- A `Query` that changes no setting, a `Parse` of a statement that is known already. -/
def learnsNothing (order : List (Text × Text) → List (Text × Text)) (msg : FrontendMessage)
    (s : Session GUCCache) : Bool :=
  match msg with
  | .query text =>
    !(((Sql.routerSQL order).analyzeSQL text).needsGUC && s.guc.modifies (gucOp text))
  | .parse name text paramOIDs =>
    s.prepCache.all fun c ↦ known (Sql.routerSQL order).serverNameFor c name text paramOIDs
  | _ => true

/-- There is nothing in the message for the session to take note of. A write is noted only once the
message has passed the gates. -/
def inert (order : List (Text × Text) → List (Text × Text)) (env : Env) (msg : FrontendMessage)
    (s : Session GUCCache) : Bool :=
  learnsNothing order msg s && (s.sessionPinned || !pins (Sql.routerSQL order) msg) &&
    (gated (Sql.routerSQL order) s.cfg env msg || !carriesWrite (Sql.routerSQL order) msg ||
      s.lastWriteAt == some env.now)

theorem guc_unaltered (hraw : s.cfg.rawPassthrough = false) {o : Session GUCCache}
    (hobs : Observed (Sql.routerSQL order) msg s o) {text : Text} (hmsg : Session.statementOf msg = some text) :
    s.guc.Same o.guc ∧ (∀ name, o.prepCache.map (·.get name) = s.prepCache.map (·.get name)) ↔
      learnsNothing order msg s = true := by
  rw [hobs.guc hraw, hobs.prepCache hraw]
  cases msg with
  | query sql =>
    have hprep : s.prepCache.map (notePrep (Sql.routerSQL order) (.query sql)) = s.prepCache := by
      rw [notePrep_id (by simp) (by simp), Option.map_id, id]
    have hobserve : noteGUC (Sql.routerSQL order) (.query sql) s.guc =
        s.guc.observeQueryWithInfo sql ((Sql.routerSQL order).analyzeSQL sql) := rfl
    rw [hprep, hobserve, GUCCache.observeQueryWithInfo, learnsNothing]
    cases ((Sql.routerSQL order).analyzeSQL sql).needsGUC with
    | false => simp [GUCCache.Same]
    | true => simpa [GUCCache.applyGUC] using s.guc.same_apply (gucOp sql)
  | parse name sql paramOIDs =>
    have hsame : s.guc.Same (noteGUC (Sql.routerSQL order) (.parse name sql paramOIDs) s.guc) :=
      ⟨fun _ ↦ rfl, rfl⟩
    rw [and_iff_right hsame, learnsNothing]
    cases s.prepCache with
    | none => simp
    | some c =>
      have hknown := observe_same (Sql.routerSQL order).serverNameFor c name sql paramOIDs
      simpa [notePrep] using hknown
  | _ => cases hmsg

variable {γ : Type}

theorem lastWriteAt_noteWrite (sql : SQL γ) {s : Session γ} (hraw : s.cfg.rawPassthrough = false)
    (o : Session γ) (env : Env) (msg : FrontendMessage) :
    (o.noteWrite env (infoOf sql s.cfg msg)).lastWriteAt =
      if carriesWrite sql msg then some env.now else o.lastWriteAt := by
  rw [infoOf, hraw, carriesWrite]
  cases hmsg : Session.statementOf msg with
  | none => simp [noteWrite_unknown]
  | some text =>
    have hiff : writes sql text = true ↔
        (sql.analyzeSQL text).op = .write ∧ (!(sql.analyzeSQL text).isROBegin) = true := by
      simp [writes, isWrite]
    change (o.noteWrite env ((sql.analyzeSQL text).op, (sql.analyzeSQL text).isROBegin)).lastWriteAt =
      if writes sql text = true then some env.now else o.lastWriteAt
    unfold Session.noteWrite
    by_cases hwrite : writes sql text = true
    · rw [if_pos (hiff.mp hwrite), if_pos hwrite]
    · rw [if_neg (mt hiff.mpr hwrite), if_neg hwrite]

theorem refused_same (env : Env) (code text : String) (s : Session γ) :
    (refused env code text s).1.guc = s.guc ∧ (refused env code text s).1.prepCache = s.prepCache ∧
      (refused env code text s).1.sessionPinned = s.sessionPinned ∧
      (refused env code text s).1.lastWriteAt = s.lastWriteAt := ⟨rfl, rfl, rfl, rfl⟩

theorem refusal {sql : SQL γ} {s : Session γ} (hraw : s.cfg.rawPassthrough = false)
    (hmsg : msg ≠ .terminate) (hreject : rejects sql env msg s = true) :
    (s.clientMessage sql env msg).1.guc = (noticed sql env msg s).guc ∧
      (s.clientMessage sql env msg).1.prepCache = (noticed sql env msg s).prepCache ∧
      (s.clientMessage sql env msg).1.sessionPinned = (noticed sql env msg s).sessionPinned ∧
      (s.clientMessage sql env msg).1.lastWriteAt =
        if !gated sql s.cfg env msg && carriesWrite sql msg then some env.now else s.lastWriteAt := by
  obtain ⟨code, reason, hr⟩ := refused_of_rejects hmsg hreject
  obtain ⟨o, rfl, hobs, -⟩ := clientMessage_cases sql hmsg env s
  rw [hr]
  cases hgated : gated sql s.cfg env msg with
  | true =>
    obtain ⟨hguc, hprep, hpin, hlast⟩ := refused_same env code reason (noticed sql env msg s)
    rw [if_pos rfl]
    exact ⟨hguc, hprep, hpin, hlast.trans hobs.lastWriteAt⟩
  | false =>
    rw [if_neg Bool.false_ne_true]
    have hnote := recalls_noteWrite env (infoOf sql s.cfg msg) (noticed sql env msg s)
    have hprepNote : ((noticed sql env msg s).noteWrite env (infoOf sql s.cfg msg)).prepCache =
        (noticed sql env msg s).prepCache := by
      unfold Session.noteWrite
      split <;> rfl
    have hlastNote := lastWriteAt_noteWrite sql hraw (noticed sql env msg s) env msg
    rw [hobs.lastWriteAt] at hlastNote
    obtain ⟨hguc, hprep, hpin, hlast⟩ := refused_same env code reason
      ((noticed sql env msg s).noteWrite env (infoOf sql s.cfg msg))
    exact ⟨hguc.trans hnote.guc, hprep.trans hprepNote, hpin.trans hnote.sessionPinned,
      hlast.trans hlastNote⟩

theorem unaltered_iff (hs : Pins (Sql.routerSQL order) s) {text : Text}
    (hmsg : Session.statementOf msg = some text) (hreject : rejects (Sql.routerSQL order) env msg s = true) :
    Unaltered s (s.clientMessage (Sql.routerSQL order) env msg).1 ↔ inert order env msg s = true := by
  have hterminate : msg ≠ .terminate := by
    rintro rfl
    cases hmsg
  obtain ⟨hguc, hprep, hpin, hlast⟩ := refusal hs.raw hterminate hreject
  obtain ⟨o, rfl, hobs, -⟩ := clientMessage_cases (Sql.routerSQL order) hterminate env s
  have hlearns := guc_unaltered hs.raw hobs hmsg
  have hpinned := pinned_noticed (Sql.routerSQL order) hs.raw env msg
  rw [← hguc, ← hprep] at hlearns
  rw [← hpin, ← hguc] at hpinned
  rw [inert, Bool.and_eq_true, Bool.and_eq_true]
  constructor
  · intro h
    refine ⟨⟨hlearns.mp ⟨h.guc, h.prepCache⟩, ?_⟩, ?_⟩
    · rw [h.sessionPinned] at hpinned
      cases hp : s.sessionPinned with
      | true => rfl
      | false =>
        rw [hp, Bool.false_or, eq_comm, Bool.or_eq_false_iff] at hpinned
        rw [hpinned.1]
        rfl
    · rw [h.lastWriteAt] at hlast
      split at hlast
      · rw [hlast, beq_self_eq_true, Bool.or_true]
      · rename_i hnot
        rw [Bool.or_eq_true]
        left
        revert hnot
        cases gated (Sql.routerSQL order) s.cfg env msg <;>
          cases carriesWrite (Sql.routerSQL order) msg <;> simp
  · rintro ⟨⟨hlearn, hquiet⟩, hwrite⟩
    obtain ⟨hsame, hget⟩ := hlearns.mpr hlearn
    refine ⟨hsame, hget, ?_, ?_⟩
    · have hflag : (Sql.routerSQL order).hasUnrecognizedSet
          (s.clientMessage (Sql.routerSQL order) env msg).1.guc =
          (Sql.routerSQL order).hasUnrecognizedSet s.guc := hsame.2
      rw [hflag] at hpinned
      rw [hpinned]
      cases hp : s.sessionPinned with
      | true => rfl
      | false =>
        have hunset : (Sql.routerSQL order).hasUnrecognizedSet s.guc = false := by
          by_contra hset
          rw [hs.pinned (by simpa using hset)] at hp
          cases hp
        rw [hp] at hquiet
        rw [hunset]
        simpa using hquiet
    · rw [hlast]
      split
      · rename_i hpast
        simp only [Bool.and_eq_true, Bool.not_eq_true'] at hpast
        rw [hpast.1, hpast.2] at hwrite
        exact (by simpa using hwrite : s.lastWriteAt = some env.now).symm
      · rfl

theorem pins_new (id : ℕ) {cfg : PooledConfig} (hraw : cfg.rawPassthrough = false) :
    Pins (Sql.routerSQL order) (Session.new (Sql.routerSQL order) id cfg) := by
  refine ⟨hraw, fun h ↦ ?_⟩
  cases h

/-- In every state that `Serve` can reach, a `Query` or `Parse` that the router answers with an error of
its own leaves no trace exactly if there is nothing in it to take note of. -/
theorem rejection_leaves_no_trace {id : ℕ} {cfg : PooledConfig} (hraw : cfg.rawPassthrough = false)
    {inputs : List Input} {c : History GUCCache}
    (hrun : Run (recorded (Session.step (Sql.routerSQL order))) anyStep
      (start (Session.new (Sql.routerSQL order) id cfg)) inputs c)
    {before after : List (Step GUCCache)} {x : Step GUCCache} (hsplit : c.past = before ++ x :: after)
    {text : Text} (hevent : x.event = .message msg env) (hmsg : Session.statementOf msg = some text)
    (hreject : rejects (Sql.routerSQL order) env msg x.before = true) :
    Unaltered x.before x.after ↔ inert order env msg x.before = true := by
  have hkeep (c : History GUCCache) (input : Input) (r : Res GUCCache)
      (hc : Pins (Sql.routerSQL order) c.current) (_ : anyStep c input = true)
      (hstep : c.current.step (Sql.routerSQL order) input = some r) :
      Pins (Sql.routerSQL order) r.1 ∧ (∀ msg env text, input = .message msg env →
        Session.statementOf msg = some text → rejects (Sql.routerSQL order) env msg c.current = true →
        (Unaltered c.current r.1 ↔ inert order env msg c.current = true)) := by
    refine ⟨pins_of_step hc hstep, fun msg env text hinput hmsg hreject ↦ ?_⟩
    subst hinput
    obtain ⟨-, rfl⟩ := message_of_step hstep
    exact unaltered_iff hc hmsg hreject
  exact @recorded_each _ _ _ _ _ (fun c ↦ Pins (Sql.routerSQL order) c.current)
    (fun _ x ↦ ∀ msg env text, x.event = .message msg env → Session.statementOf msg = some text →
      rejects (Sql.routerSQL order) env msg x.before = true →
      (Unaltered x.before x.after ↔ inert order env msg x.before = true)) _ _ _ hkeep (pins_new id hraw) hrun
    before after x hsplit msg env text hevent hmsg hreject

def limited : Env := { calm with takeQPS := false }

/-- A read above the rate limit. -/
theorem rejection_leaves_no_trace_select :
    ∃ c before x, Run (recorded (Session.step (Sql.routerSQL id))) anyStep
        (start (Session.new (Sql.routerSQL id) 0 pooling))
        (welcomed ++ [.message (.query (ascii "SELECT 1")) limited]) c ∧
      c.past = before ++ [x] ∧ Unaltered x.before x.after := by
  have hrun : Run (recorded (Session.step (Sql.routerSQL id))) anyStep
      (start (Session.new (Sql.routerSQL id) 0 pooling))
      (welcomed ++ [.message (.query (ascii "SELECT 1")) limited]) _ := run_of_exec rfl
  exact ⟨_, _, _, hrun, rfl, (rejection_leaves_no_trace rfl hrun rfl rfl rfl rfl).mpr rfl⟩

/-- A `SET` above the rate limit is in the cache of settings, to be replayed on the next backend. -/
theorem rejection_leaves_setting :
    ∃ c before x, Run (recorded (Session.step (Sql.routerSQL id))) anyStep
        (start (Session.new (Sql.routerSQL id) 0 pooling))
        (welcomed ++ [.message (.query (ascii "SET timezone = 'UTC'")) limited]) c ∧
      c.past = before ++ [x] ∧
      rejects (Sql.routerSQL id) limited (.query (ascii "SET timezone = 'UTC'")) x.before = true ∧
      x.before.guc.lookup (ascii "timezone") = none ∧
      x.after.guc.lookup (ascii "timezone") = some (ascii "'UTC'") ∧ ¬ Unaltered x.before x.after := by
  refine ⟨_, _, _, run_of_exec rfl, rfl, rfl, rfl, rfl, fun h ↦ ?_⟩
  have hsame := h.guc.1 (ascii "timezone")
  cases hsame

end Unaltered

end PgRouter.Client.Rejections
