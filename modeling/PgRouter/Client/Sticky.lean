import PgRouter.Client.Turns
import PgRouter.Sql.Router

namespace PgRouter.Client.Sticky

open Library.Runs Library.Records Protocol Servers Handler Handling Attachment Turns

variable {γ : Type} {sql : SQL γ} {s : Session γ} {r : Res γ} {input : Input}

def writtenAt (sql : SQL γ) (y : Step γ) : Option ℤ :=
  match y.event with
  | .message msg env =>
    if !gated sql y.before.cfg env msg && carriesWrite sql msg then some env.now else none
  | _ => none

def sentBy (now : ℤ) (y : Step γ) : Bool :=
  match y.event with
  | .message _ env => env.now ≤ now
  | _ => true

def timely (window : ℤ) (c : History γ) : Input → Bool
  | .message _ env => env.stickyWindow == window && c.past.all (sentBy env.now)
  | _ => true

def Remembers (s : Session γ) (t : ℤ) : Prop := ∃ t', s.lastWriteAt = some t' ∧ t ≤ t'

structure Stamped (sql : SQL γ) (c : History γ) : Prop where
  raw : c.current.cfg.rawPassthrough = false
  writes : ∀ x ∈ c.past, ∀ t, writtenAt sql x = some t → Remembers c.current t

def SticksToPrimary (sql : SQL γ) (window : ℤ) (before : List (Step γ)) (y : Step γ) : Prop :=
  ∀ msg env msg' pool, y.event = .message msg env → y.after.phase = .acquiring msg' pool →
    ∀ x ∈ before ++ [y], ∀ t, writtenAt sql x = some t → env.now < t + window → pool = 0

variable {y : Step γ} {env : Env} {c : History γ} {window : ℤ} (msg : FrontendMessage) (pool : ℕ) (b : Backend)

theorem selectPoolForMsg_sticky {t : ℤ} (hwindow : 0 < env.stickyWindow) (hs : Remembers s t)
    (hnow : env.now < t + env.stickyWindow) (info : SQLOp × Bool) : Session.selectPoolForMsg env s info = 0 := by
  obtain ⟨t', hlast, hle⟩ := hs
  have hsticky : Session.stickyToPrimary env s.lastWriteAt = true := by
    rw [hlast, Session.stickyToPrimary, Bool.and_eq_true, decide_eq_true_iff, decide_eq_true_iff]
    omega
  simp [Session.selectPoolForMsg, hsticky]

theorem lastWriteAt_afterForward (s : Session γ) : (s.afterForward msg).lastWriteAt = s.lastWriteAt := by
  unfold Session.afterForward
  split <;> rfl

theorem lastWriteAt_send (ms : List FrontendMessage) (s : Session γ) :
    (s.send ms).1.lastWriteAt = s.lastWriteAt := by
  unfold Session.send
  split <;> rfl

theorem lastWriteAt_forwardMessage (s : Session γ) : (s.forwardMessage sql msg).1.lastWriteAt = s.lastWriteAt := by
  unfold Session.forwardMessage
  split
  · exact lastWriteAt_afterForward msg _
  · split
    · exact (lastWriteAt_afterForward msg _).trans (lastWriteAt_send _ s)
    · exact (lastWriteAt_afterForward msg _).trans (lastWriteAt_send _ _)

theorem lastWriteAt_refused (env : Env) (code text : String) (s : Session γ) :
    (refused env code text s).1.lastWriteAt = s.lastWriteAt := rfl

theorem lastWriteAt_attach (s : Session γ) : (s.attach sql msg pool b).1.lastWriteAt = s.lastWriteAt := by
  unfold Session.attach
  split
  · exact lastWriteAt_forwardMessage msg _
  · rfl

theorem cfg_attach (s : Session γ) : (s.attach sql msg pool b).1.cfg = s.cfg := by
  unfold Session.attach
  split
  · exact (holding_forwardMessage msg _).cfg
  · rfl

theorem isWrite_infoOf {cfg : PooledConfig} (hraw : cfg.rawPassthrough = false) (msg : FrontendMessage) :
    isWrite (infoOf sql cfg msg) = carriesWrite sql msg := by
  unfold infoOf carriesWrite
  cases Session.statementOf msg with
  | none => rfl
  | some text => simp [hraw, writes]

theorem lastWriteAt_noteWrite (env : Env) (info : SQLOp × Bool) (s : Session γ) :
    (s.noteWrite env info).lastWriteAt = if isWrite info then some env.now else s.lastWriteAt := by
  have hiff : info.1 = .write ∧ (!info.2) = true ↔ isWrite info = true := by simp [isWrite]
  unfold Session.noteWrite
  split
  · rw [if_pos (hiff.mp ‹_›)]
  · rw [if_neg (mt hiff.mpr ‹_›)]

theorem Stamped.still (hc : Stamped sql c) {t : Session γ} (hcfg : t.cfg = c.current.cfg)
    (hlast : t.lastWriteAt = c.current.lastWriteAt) (hy : writtenAt sql y = none) :
    Stamped sql ⟨t, c.past ++ [y]⟩ := by
  refine ⟨by rw [hcfg]; exact hc.raw, fun x hx t₀ ht ↦ ?_⟩
  rcases List.mem_append.mp hx with hx | hx
  · obtain ⟨t', ht', hle⟩ := hc.writes x hx t₀ ht
    exact ⟨t', hlast.trans ht', hle⟩
  · cases List.mem_singleton.mp hx
    rw [hy] at ht
    cases ht

variable {msg : FrontendMessage}

theorem remembers_noted (hc : Stamped sql c) (htimes : c.past.all (sentBy env.now) = true)
    {o : Session γ} (hobs : Observed sql msg c.current o) {r : Res γ} (x : Step γ)
    (hx : x ∈ c.past ++ [⟨c.current, .message msg env, r.1, r.2⟩]) (t : ℤ) (ht : writtenAt sql x = some t) :
    Remembers (o.noteWrite env (infoOf sql c.current.cfg msg)) t := by
  unfold Remembers
  rw [lastWriteAt_noteWrite, isWrite_infoOf hc.raw]
  rcases List.mem_append.mp hx with hx | hx
  · -- an earlier write: it is remembered already, or this message is a later one
    split
    · refine ⟨env.now, rfl, ?_⟩
      have hsent := List.all_eq_true.mp htimes x hx
      unfold writtenAt at ht
      unfold sentBy at hsent
      split at ht
      · rename_i heq
        rw [heq] at hsent
        split at ht
        · cases ht
          simpa using hsent
        · cases ht
      · cases ht
    · rw [hobs.lastWriteAt]
      exact hc.writes x hx t ht
  · cases List.mem_singleton.mp hx
    simp only [writtenAt] at ht
    split at ht
    · rename_i hw
      rw [Bool.and_eq_true] at hw
      rw [if_pos hw.2]
      exact ⟨env.now, rfl, (Option.some.inj ht).ge⟩
    · cases ht

theorem writtenAt_idle (hinput : traffic y.event = false) : writtenAt sql y = none := by
  unfold writtenAt
  split
  · rename_i msg env heq
    rw [heq] at hinput
    obtain rfl : msg = .terminate := by simpa [traffic] using hinput
    simp [carriesWrite, Session.statementOf]
  · rfl

theorem sticks_elsewhere {before : List (Step γ)}
    (h : (∀ msg env, y.event ≠ .message msg env) ∨ waiting y.after.phase = false) :
    SticksToPrimary sql window before y := by
  intro msg env msg' pool hevent hphase
  rcases h with h | h
  · exact absurd hevent (h msg env)
  · rw [hphase] at h
    cases h

theorem stamped_handled (hwindow : 0 < window) (hc : Stamped sql c)
    (hguard : timely window c (.message msg env) = true) (hhandled : Handled sql env msg c.current r) :
    Stamped sql ⟨r.1, c.past ++ [⟨c.current, .message msg env, r.1, r.2⟩]⟩ ∧
      SticksToPrimary sql window c.past ⟨c.current, .message msg env, r.1, r.2⟩ := by
  simp only [timely, Bool.and_eq_true, beq_iff_eq] at hguard
  obtain ⟨hwin, htimes⟩ := hguard
  subst hwin
  have hcfg := (holding_handled hhandled).cfg
  have hraw : r.1.cfg.rawPassthrough = false := by
    rw [hcfg]
    exact hc.raw
  -- all but the messages turned down go on with the session that has noted a write
  have hnoted {o : Session γ} (hobs : Observed sql msg c.current o)
      (hlast : r.1.lastWriteAt = (o.noteWrite env (infoOf sql c.current.cfg msg)).lastWriteAt) :
      Stamped sql ⟨r.1, c.past ++ [⟨c.current, .message msg env, r.1, r.2⟩]⟩ := by
    refine ⟨hraw, fun x hx t ht ↦ ?_⟩
    obtain ⟨t', ht', hle⟩ := remembers_noted hc htimes hobs x hx t ht
    exact ⟨t', hlast.trans ht', hle⟩
  cases hhandled with
  | gated hobs hgated code text =>
    refine ⟨hc.still hcfg hobs.lastWriteAt ?_, sticks_elsewhere (.inr rfl)⟩
    simp [writtenAt, hgated]
  | failedOver hnoticed hobs => exact ⟨hnoted hobs (lastWriteAt_refused _ _ _ _), sticks_elsewhere (.inr rfl)⟩
  | @acquires o hobs hgated hneeds hnone =>
    refine ⟨hnoted hobs rfl, ?_⟩
    rintro msg' env' msg'' pool ⟨⟩ hphase x hx t ht hnow
    obtain rfl := (Phase.acquiring.inj hphase).2
    exact selectPoolForMsg_sticky hwindow (remembers_noted hc htimes hobs x hx t ht) hnow _
  | forwards hobs hgated hsome =>
    refine ⟨hnoted hobs (lastWriteAt_forwardMessage msg _), sticks_elsewhere (.inr ?_)⟩
    exact waiting_forwardMessage msg _
  | answers hobs => exact ⟨hnoted hobs rfl, sticks_elsewhere (.inr rfl)⟩
  | ignores hobs => exact ⟨hnoted hobs rfl, sticks_elsewhere (.inr rfl)⟩

theorem stamped_step (hwindow : 0 < window) (hc : Stamped sql c) (hguard : timely window c input = true)
    (hstep : c.current.step sql input = some r) :
    Stamped sql ⟨r.1, c.past ++ [⟨c.current, input, r.1, r.2⟩]⟩ ∧
      SticksToPrimary sql window c.past ⟨c.current, input, r.1, r.2⟩ := by
  cases attends_of_step hc.raw hstep with
  | remains hinput hidle =>
    refine ⟨hc.still hidle.cfg hidle.lastWriteAt (writtenAt_idle hinput), ?_⟩
    exact sticks_elsewhere (.inr hidle.phase)
  | message hphase hmsg hhandled => exact stamped_handled hwindow hc hguard hhandled
  | acquired hphase b =>
    refine ⟨hc.still ?_ (lastWriteAt_attach _ _ b _) rfl, sticks_elsewhere (.inl (by simp))⟩
    exact cfg_attach _ _ b _
  | @replaySent msg hphase ok =>
    have hcore := core_flush ({ c.current with phase := .replaying msg } : Session γ)
    refine ⟨hc.still (congrArg Core.cfg hcore) (congrArg Core.lastWriteAt hcore) rfl, ?_⟩
    exact sticks_elsewhere (.inl (by simp))
  | replayWaits hphase m ok => exact ⟨hc.still rfl rfl rfl, sticks_elsewhere (.inl (by simp))⟩
  | replayed hphase txStatus ok =>
    refine ⟨hc.still ?_ (lastWriteAt_forwardMessage _ _) rfl, sticks_elsewhere (.inl (by simp))⟩
    exact (holding_forwardMessage _ _).cfg

/-- Within the window after a `Query` or `Parse` of a write, other than a read-only `BEGIN`, the client is
given backends of the primary only. -/
theorem reads_follow_writes (id : ℕ) {cfg : PooledConfig} (hraw : cfg.rawPassthrough = false) {window : ℤ}
    (hwindow : 0 < window) {inputs : List Input} {c : History γ}
    (hrun : Run (recorded (Session.step sql)) (timely window) (start (Session.new sql id cfg)) inputs c)
    {before after : List (Step γ)} {y : Step γ} (hsplit : c.past = before ++ y :: after)
    {msg msg' : FrontendMessage} {env : Env} {pool : ℕ} (hevent : y.event = .message msg env)
    (hphase : y.after.phase = .acquiring msg' pool) {x : Step γ} (hx : x ∈ before ++ [y]) {t : ℤ}
    (ht : writtenAt sql x = some t) (hnow : env.now < t + window) : pool = 0 := by
  have hkeep (c : History γ) (input : Input) (r : Res γ) (hc : Stamped sql c)
      (hguard : timely window c input = true) (hstep : c.current.step sql input = some r) :=
    stamped_step hwindow hc hguard hstep
  have hstart : Stamped sql (start (Session.new sql id cfg)) := ⟨hraw, by simp [start]⟩
  exact recorded_each hkeep hstart hrun hsplit msg env msg' pool hevent hphase x hx t ht hnow

def sticky (now : ℤ) : Env := { calm with now, replica := some 1, stickyWindow := 10 }

def served (msg : FrontendMessage) (now : ℤ) : List Input :=
  [.message msg (sticky now), .acquired (.dialed 0 none), .sent true, .received (.readyForQuery txIdle) true]

theorem reads_follow_writes_delete :
    ∃ c before y, Run (recorded (Session.step (Sql.routerSQL id))) (timely 10)
        (start (Session.new (Sql.routerSQL id) 0 unreset))
        (welcomed ++ served (.query (ascii "DELETE FROM t")) 5 ++
          [.message (.query (ascii "SELECT 1")) (sticky 14)]) c ∧
      c.past = before ++ [y] ∧ (∃ x ∈ before ++ [y], writtenAt (Sql.routerSQL id) x = some 5) ∧
      ∃ pool, y.after.phase = .acquiring (.query (ascii "SELECT 1")) pool ∧ pool = 0 := by
  obtain ⟨c, before, y, hrun, hpast, ⟨x, hx, ht⟩, hevent, pool, hphase⟩ :
      ∃ c before y, Run (recorded (Session.step (Sql.routerSQL id))) (timely 10)
          (start (Session.new (Sql.routerSQL id) 0 unreset))
          (welcomed ++ served (.query (ascii "DELETE FROM t")) 5 ++
            [.message (.query (ascii "SELECT 1")) (sticky 14)]) c ∧
        c.past = before ++ [y] ∧ (∃ x ∈ before ++ [y], writtenAt (Sql.routerSQL id) x = some 5) ∧
        y.event = .message (.query (ascii "SELECT 1")) (sticky 14) ∧
        ∃ pool, y.after.phase = .acquiring (.query (ascii "SELECT 1")) pool :=
    -- the `DELETE` is four steps back
    ⟨_, _, _, run_of_exec rfl, rfl,
      ⟨_, List.mem_append_left _ (List.mem_append_left _ (List.mem_append_left _ (List.mem_append_left _
        (List.mem_append_right _ (List.mem_singleton_self _))))), rfl⟩, rfl, _, rfl⟩
  exact ⟨c, before, y, hrun, hpast, ⟨x, hx, ht⟩, pool, hphase,
    reads_follow_writes 0 rfl (by decide) hrun hpast hevent hphase hx ht (by decide)⟩

/-- A read-only `BEGIN`, a write by its class, is given a replica at once. And a `DELETE` that was parsed
long before it is executed does not keep the `SELECT` after it from a replica. -/
theorem replica_after_write :
    (((Sql.routerSQL id).analyzeSQL (ascii "BEGIN READ ONLY")).op = .write ∧
      ∃ c y, Run (recorded (Session.step (Sql.routerSQL id))) (timely 10)
          (start (Session.new (Sql.routerSQL id) 0 unreset))
          (welcomed ++ [.message (.query (ascii "BEGIN READ ONLY")) (sticky 0)]) c ∧
        c.past.getLast? = some y ∧ y.after.phase = .acquiring (.query (ascii "BEGIN READ ONLY")) 1) ∧
    (((Sql.routerSQL id).analyzeSQL (ascii "DELETE FROM t")).op = .write ∧
      ∃ c y, Run (recorded (Session.step (Sql.routerSQL id))) (timely 10)
          (start (Session.new (Sql.routerSQL id) 0 unreset))
          (welcomed ++ [.message (.parse (ascii "d") (ascii "DELETE FROM t") []) (sticky 0),
            .acquired (.dialed 0 none), .message .sync (sticky 0), .sent true, .received .parseComplete true,
            .received (.readyForQuery txIdle) true, .message (.bind [] (ascii "d")) (sticky 100),
            .acquired (.dialed 0 none), .message (.execute []) (sticky 100), .message .sync (sticky 100),
            .sent true, .received (.readyForQuery txIdle) true,
            .message (.query (ascii "SELECT 1")) (sticky 101)]) c ∧
        c.past.getLast? = some y ∧ y.after.phase = .acquiring (.query (ascii "SELECT 1")) 1) :=
  ⟨⟨rfl, _, _, run_of_exec rfl, rfl, rfl⟩, ⟨rfl, _, _, run_of_exec rfl, rfl, rfl⟩⟩

end PgRouter.Client.Sticky
