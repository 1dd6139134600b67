import PgRouter.Client.Steps

namespace PgRouter.Client.Effects

open Protocol Servers Handler

variable {γ : Type} {sql : SQL γ} {s s' t : Session γ}

structure Same (s s' : Session γ) : Prop where
  id : s'.id = s.id
  cfg : s'.cfg = s.cfg
  phase : s'.phase = s.phase
  tx : s'.state.tx = s.state.tx
  bConn : s'.bConn = s.bConn
  out : s'.out = s.out

theorem Same.trans (h : Same s s') (h' : Same s' t) : Same s t :=
  ⟨h'.id.trans h.id, h'.cfg.trans h.cfg, h'.phase.trans h.phase, h'.tx.trans h.tx,
    h'.bConn.trans h.bConn, h'.out.trans h.out⟩

theorem same_pin (needsPin : Bool) (s : Session γ) : Same s (s.pin needsPin) :=
  ⟨rfl, rfl, rfl, rfl, rfl, rfl⟩

theorem same_clearDeadline (now : ℤ) (s : Session γ) : Same s (s.clearDeadline now) :=
  ⟨rfl, rfl, rfl, rfl, rfl, rfl⟩

variable {acts : List Act} (leaving : Bool) (ms : List FrontendMessage) (env : Env) (msg : FrontendMessage)
  (ok : Bool)

section

variable (s : Session γ)

theorem same_countMessage : Same s (s.countMessage msg) := by
  refine ⟨rfl, rfl, rfl, ?_, rfl, rfl⟩
  simp only [Session.countMessage, ClientState.observeClientMessage]
  split <;> rfl

theorem same_observeStatement : Same s (s.observeStatement sql msg) := by
  unfold Session.observeStatement
  split
  · exact ⟨rfl, rfl, rfl, rfl, rfl, rfl⟩
  · exact ⟨rfl, rfl, rfl, rfl, rfl, rfl⟩
  · split <;> exact ⟨rfl, rfl, rfl, rfl, rfl, rfl⟩
  · exact ⟨rfl, rfl, rfl, rfl, rfl, rfl⟩

theorem same_observeClientMessage : Same s (s.observeClientMessage sql msg) :=
  ((same_countMessage msg s).trans (same_observeStatement msg _)).trans (same_pin _ _)

theorem same_observeRaw : Same s (s.observeRaw sql msg) := by
  unfold Session.observeRaw
  split
  · split
    · exact ((same_countMessage msg s).trans (same_observeStatement _ _)).trans (same_pin _ _)
    · exact (same_countMessage msg s).trans (same_pin _ _)
  · exact same_countMessage msg s

end

theorem same_noteWrite (info : SQLOp × Bool) (s : Session γ) : Same s (s.noteWrite env info) := by
  unfold Session.noteWrite
  split <;> exact ⟨rfl, rfl, rfl, rfl, rfl, rfl⟩

/-- A backend that has got further messages of a client into its send buffer, in raw mode none. -/
structure Fed (i : ℕ) (raw : Bool) (b b' : Backend) : Prop where
  peer : b'.peer = b.peer
  own : ∀ p ∈ b'.sendBuf, p ∈ b.sendBuf ∨ p.1 = i
  raw : raw = true → b'.sendBuf = b.sendBuf

def Local : Act → Prop
  | .put .. | .wrote .. => False
  | _ => True

structure Served (s : Session γ) (r : Res γ) : Prop where
  id : r.1.id = s.id
  cfg : r.1.cfg = s.cfg
  tx : r.1.state.tx = s.state.tx
  phase : r.1.phase = .top ∨ r.1.phase = .flushing ∨
    r.1.bConn = none ∧ ∃ msg pool, r.1.phase = .acquiring msg pool
  conn : ∀ b', r.1.bConn = some b' → ∃ b, s.bConn = some b ∧ Fed s.id s.cfg.rawPassthrough b b'
  acts : ∀ a ∈ r.2, Local a

theorem Served.same {r : Res γ} (hsame : Same s s') (hr : Served s' r) : Served s r := by
  refine ⟨hr.id.trans hsame.id, hr.cfg.trans hsame.cfg, hr.tx.trans hsame.tx, hr.phase, ?_, hr.acts⟩
  rw [← hsame.bConn, ← hsame.id, ← hsame.cfg]
  exact hr.conn

theorem fed_refl (i : ℕ) (raw : Bool) (b : Backend) : Fed i raw b b := ⟨rfl, fun _ hp ↦ .inl hp, fun _ ↦ rfl⟩

theorem beFlush_local (s : Session γ) : ∀ a ∈ (s.beFlush ok).2, Local a := by
  intro a ha
  simp only [Session.beFlush] at ha
  split at ha
  · obtain ⟨p, -, rfl⟩ := List.mem_map.mp ha
    trivial
  · cases ha

theorem flush_conn {b : Backend} (hb : s.flush.1.bConn = some b) : ∃ b', s.bConn = some b' ∧ b.peer = b'.peer := by
  unfold Session.flush at hb
  split at hb
  · exact ⟨b, hb, rfl⟩
  · rename_i b' hb'
    cases hb
    exact ⟨b', hb', rfl⟩

theorem writeBatch_conn {b : Backend} (hb : s.writeBatch.1.bConn = some b) :
    ∃ b', s.bConn = some b' ∧ b.peer = b'.peer := by
  unfold Session.writeBatch at hb
  split at hb
  · split at hb <;> exact ⟨b, hb, rfl⟩
  · exact flush_conn hb

theorem served_loop (hid : s'.id = s.id) (hcfg : s'.cfg = s.cfg) (htx : s'.state.tx = s.state.tx)
    (hconn : s'.bConn = s.bConn) (hacts : ∀ a ∈ acts, Local a) : Served s (s'.loop, acts) := by
  refine ⟨hid, hcfg, htx, .inl rfl, fun b' hb' ↦ ⟨b', ?_, fed_refl _ _ _⟩, hacts⟩
  rw [← hconn]
  exact hb'

theorem served_reject (code msg : String) (ok : Bool) (s : Session γ) :
    Served s ((s.sendErrorRFQ code msg ok).andThen fun s ↦ (s.loop, [])) := by
  rw [Res.andThen, List.append_nil]
  refine served_loop ?_ ?_ ?_ ?_ (beFlush_local ok _) <;> rfl

theorem served_afterForward (hid : s'.id = s.id) (hcfg : s'.cfg = s.cfg) (htx : s'.state.tx = s.state.tx)
    (hconn : ∀ b', s'.bConn = some b' → ∃ b, s.bConn = some b ∧ Fed s.id s.cfg.rawPassthrough b b')
    (msg : FrontendMessage) (hacts : ∀ a ∈ acts, Local a) : Served s (s'.afterForward msg, acts) := by
  unfold Session.afterForward
  split
  · exact ⟨hid, hcfg, htx, .inr (.inl rfl), hconn, hacts⟩
  · exact ⟨hid, hcfg, htx, .inl rfl, hconn, hacts⟩

theorem send_local (s : Session γ) : ∀ a ∈ (s.send ms).2, Local a := by
  unfold Session.send
  split
  · simp
  · intro a ha
    obtain ⟨m, -, rfl⟩ := List.mem_map.mp ha
    trivial

theorem send_fields (s : Session γ) :
    (s.send ms).1.id = s.id ∧ (s.send ms).1.cfg = s.cfg ∧ (s.send ms).1.state.tx = s.state.tx ∧
      ∀ b', (s.send ms).1.bConn = some b' → ∃ b, s.bConn = some b ∧ b'.peer = b.peer ∧
        b'.sendBuf = b.sendBuf ++ ms.map fun m ↦ (s.id, m) := by
  unfold Session.send
  split
  · simp_all
  · rename_i b hb
    refine ⟨rfl, rfl, rfl, fun b' hb' ↦ ⟨b, hb, ?_⟩⟩
    cases hb'
    exact ⟨rfl, rfl⟩

theorem served_send (hid : s'.id = s.id) (hcfg : s'.cfg = s.cfg) (hraw : s.cfg.rawPassthrough = false)
    (htx : s'.state.tx = s.state.tx)
    (hconn : ∀ b', s'.bConn = some b' → ∃ b, s.bConn = some b ∧ b'.peer = b.peer ∧ b'.sendBuf = b.sendBuf) :
    Served s ((s'.send ms).andThen fun s ↦ (s.afterForward msg, [])) := by
  obtain ⟨hid', hcfg', htx', hconn'⟩ := send_fields ms s'
  rw [Res.andThen, List.append_nil]
  refine served_afterForward (hid'.trans hid) (hcfg'.trans hcfg) (htx'.trans htx) (fun b' hb' ↦ ?_) msg
    (send_local ms s')
  obtain ⟨b₁, hb₁, hpeer₁, hbuf₁⟩ := hconn' b' hb'
  obtain ⟨b, hb, hpeer, hbuf⟩ := hconn b₁ hb₁
  refine ⟨b, hb, hpeer₁.trans hpeer, fun p hp ↦ ?_, fun h ↦ ?_⟩
  · rw [hbuf₁, hbuf] at hp
    rcases List.mem_append.mp hp with hp | hp
    · exact .inl hp
    · obtain ⟨m, -, rfl⟩ := List.mem_map.mp hp
      exact .inr hid
  · rw [hraw] at h
    cases h

theorem served_forwardMessage (s : Session γ) : Served s (s.forwardMessage sql msg) := by
  unfold Session.forwardMessage
  split
  · apply served_afterForward
    · rfl
    · rfl
    · rfl
    · exact fun b' hb' ↦ ⟨b', hb', fed_refl _ _ _⟩
    · exact List.forall_mem_nil _
  · rename_i hraw
    have hraw : s.cfg.rawPassthrough = false := by simpa using hraw
    split
    · exact served_send _ msg rfl rfl hraw rfl fun b' hb' ↦ ⟨b', hb', rfl, rfl⟩
    · refine served_send _ msg rfl rfl hraw rfl fun b' hb' ↦ ?_
      obtain ⟨b, hb, rfl⟩ := Option.map_eq_some_iff.mp hb'
      exact ⟨b, hb, rfl, rfl⟩

theorem served_dispatch (needs : Bool) (info : SQLOp × Bool) (s : Session γ) :
    Served s (s.dispatch sql env msg needs info) := by
  unfold Session.dispatch
  split
  · rename_i hneeds
    simp only [Bool.and_eq_true, Option.isNone_iff_eq_none] at hneeds
    unfold Session.acquire
    split
    · exact served_reject _ _ _ s
    · refine ⟨rfl, rfl, rfl, .inr (.inr ⟨hneeds.2, _, _, rfl⟩), fun b' hb' ↦ ?_, by simp⟩
      exact ⟨b', hb', fed_refl _ _ _⟩
  · split
    · exact served_forwardMessage msg s
    · split
      · rw [Res.andThen, List.append_nil]
        refine served_loop ?_ ?_ ?_ ?_ (beFlush_local env.ok _) <;> rfl
      · exact served_loop rfl rfl rfl rfl (by simp)

theorem served_serveObserved (s : Session γ) : Served s (s.serveObserved sql env msg) := by
  unfold Session.serveObserved
  split
  · exact served_dispatch _ _ _ _ s
  · split
    · exact served_reject _ _ _ s
    · split
      · exact served_reject _ _ _ s
      · exact .same (same_noteWrite _ _ s) (served_dispatch _ _ _ _ _)

theorem served_serveRawObserved (s : Session γ) : Served s (s.serveRawObserved sql env msg) := by
  unfold Session.serveRawObserved
  split
  · exact served_reject _ _ _ s
  · split
    · exact served_dispatch _ _ _ _ s
    · split
      · exact served_reject _ _ _ s
      · exact .same (same_noteWrite _ _ s) (served_dispatch _ _ _ _ _)

theorem served_clientMessage {msg : FrontendMessage} (hmsg : msg ≠ .terminate) (s : Session γ) :
    Served s (s.clientMessage sql env msg) := by
  unfold Session.clientMessage
  rw [if_neg hmsg]
  split
  · exact .same ((same_clearDeadline env.now s).trans (same_observeRaw msg _))
      (served_serveRawObserved env msg _)
  · exact .same ((same_clearDeadline env.now s).trans (same_observeClientMessage msg _))
      (served_serveObserved env msg _)

/-- What comes of a release: the reset query goes into the send buffer, or the backend goes back. -/
inductive Released (leaving : Bool) (s : Session γ) : Res γ → Prop
  | nothing {r : Res γ} (hid : r.1.id = s.id) (hb : r.1.bConn = none) (hacts : r.2 = []) :
      Released leaving s r
  | asked {b : Backend} (hb : s.bConn = some b) (hreset : s.cfg.resetOnRelease = true) (query : Text) :
      Released leaving s
        ({ s with
            bConn := some { b with sendBuf := b.sendBuf ++ [(s.id, .query query)] }
            phase := .resetFlush leaving }, [])
  | put {b : Backend} (hb : s.bConn = some b) (hreset : s.cfg.resetOnRelease = false) (pool : ℕ) :
      Released leaving s
        (Session.resume leaving { s with bConn := none, bConnPool := none }, [.put pool b])

theorem released_of_release (s : Session γ) : Released leaving s (s.release leaving) := by
  unfold Session.release
  cases hb : s.bConn with
  | none =>
    split
    · exact .nothing rfl (by simp [Session.ask, hb]) rfl
    · simp only [Session.putBack, hb]
      exact .nothing (by simp) (by simpa using hb) rfl
  | some b =>
    split
    · simp only [Session.ask, hb, Option.map_some]
      exact .asked hb ‹_› _
    · simp only [Session.putBack, hb]
      exact .put hb (by simpa using ‹¬s.cfg.resetOnRelease = true›) _

structure Closed (s : Session γ) (r : Res γ) : Prop where
  id : r.1.id = s.id
  bConn : r.1.bConn = none
  acts : ∀ a ∈ r.2, a ∈ s.discard.2 ∨ Local a

theorem discard_acts (hid : s'.id = s.id) (hb : s'.bConn = s.bConn) : s'.discard.2 = s.discard.2 := by
  unfold Session.discard
  rw [hb, hid]
  split <;> rfl

theorem closed_discard (hid : s'.id = s.id) (hb : s'.bConn = s.bConn) : Closed s s'.discard := by
  refine ⟨(Session.discard_id s').trans hid, Session.discard_bConn s', fun a ha ↦ .inl ?_⟩
  rw [← discard_acts hid hb]
  exact ha

theorem closed_resetFailed (s : Session γ) : Closed s (s.resetFailed leaving) := by
  refine ⟨by simp [Session.resetFailed, Res.andThen], by simp [Session.resetFailed, Res.andThen],
    fun a ha ↦ .inl ?_⟩
  simpa [Session.resetFailed, Res.andThen] using ha

theorem closed_replayFailed (err : String) (ok : Bool) (s : Session γ) :
    Closed s (s.replayFailed err ok) := by
  unfold Session.replayFailed
  rw [Res.andThen, Session.leave_detached (by exact Session.discard_bConn s), List.append_nil]
  refine ⟨Session.discard_id s, Session.discard_bConn s, fun a ha ↦ ?_⟩
  rcases List.mem_append.mp ha with ha | ha
  · exact .inl ha
  · exact .inr (beFlush_local ok _ a ha)

theorem closed_queryTimeout (s : Session γ) : Closed s (s.queryTimeout ok) := by
  refine ⟨Session.discard_id s, Session.discard_bConn s, fun a ha ↦ ?_⟩
  rcases List.mem_append.mp ha with ha | ha
  · rcases List.mem_append.mp ha with ha | ha
    · exact .inl ha
    · rcases List.mem_append.mp ha with ha | ha
      · cases List.mem_singleton.mp ha
        exact .inr trivial
      · exact .inr (beFlush_local ok _ a ha)
  · cases ha

inductive Left (s : Session γ) : Res γ → Prop
  | alone (hb : s.bConn = none) : Left s ({ s with phase := .returned }, [])
  | released {r : Res γ} (hidle : s.state.isIdle = true) (hr : Released true s r) : Left s r
  | closed {r : Res γ} (hbusy : s.state.isIdle = false) (hr : Closed s r) : Left s r

theorem left_of_leave (s : Session γ) : Left s s.leave := by
  unfold Session.leave
  split
  · exact .alone (by simpa using ‹s.bConn.isNone = true›)
  · split
    · exact .released ‹_› (released_of_release true s)
    · exact .closed (by simpa using ‹¬s.state.isIdle = true›) (closed_discard rfl rfl)

end PgRouter.Client.Effects
