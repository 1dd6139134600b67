import PgRouter.Client.Serve

namespace PgRouter.Client.Handler

open Protocol Servers

variable {γ : Type} {sql : SQL γ} {s : Session γ}

def Input.goodbye : Input → Bool
  | .ctxDone | .clientEOF | .clientFailed => true
  | _ => false

def Input.lost : Input → Bool
  | .receiveEOF _ | .receiveFailed .. => true
  | _ => false

inductive Steps (sql : SQL γ) (s : Session γ) : Input → Res γ → Prop
  | probed (hphase : s.phase = .welcome) (b : Backend) :
      Steps sql s (.acquired b) ({ s with phase := .greeting }, [.put 0 b])
  | unprobed (hphase : s.phase = .welcome) (err : String) (ok : Bool) :
      Steps sql s (.acquireFailed err ok) ({ s with phase := .greeting }, [])
  | greeted (hphase : s.phase = .welcome ∨ s.phase = .greeting) (params : List (Text × Text))
      (key : UInt32 × Text) (ok : Bool) : Steps sql s (.greeted params key ok) (s.greet params key ok)
  | goodbye (hphase : s.phase = .top) {input : Input} (hinput : input.goodbye = true) :
      Steps sql s input s.leave
  | clientTimeout (hphase : s.phase = .top) (hdeadline : s.deadline = true) (now : ℤ) (ok : Bool) :
      Steps sql s (.clientTimeout now ok) (s.clientTimeout now ok)
  | message (hphase : s.phase = .top) (msg : FrontendMessage) (env : Env) :
      Steps sql s (.message msg env) (s.clientMessage sql env msg)
  | polled (hphase : s.phase = .polling) (m : BackendMessage) (ok : Bool) :
      Steps sql s (.received m ok) (s.pollReceived m ok)
  | nothing (hphase : s.phase = .polling) (ok : Bool) : Steps sql s (.receiveTimeout ok) (s.loop, [])
  | pollLost (hphase : s.phase = .polling) {input : Input} (hinput : input.lost = true) :
      Steps sql s input ({ s with phase := .returned } : Session γ).discard
  | acquired {msg : FrontendMessage} {pool : ℕ} (hphase : s.phase = .acquiring msg pool) (b : Backend) :
      Steps sql s (.acquired b) (s.attach sql msg pool b)
  | acquireFailed {msg : FrontendMessage} {pool : ℕ} (hphase : s.phase = .acquiring msg pool)
      (err : String) (ok : Bool) : Steps sql s (.acquireFailed err ok)
        ((s.sendFatalError "08006" s!"pgrouter: cannot acquire backend: {err}" ok).andThen Session.leave)
  | replaySent {msg : FrontendMessage} (hphase : s.phase = .replayFlush msg) (ok : Bool) :
      Steps sql s (.sent ok) ({ s with phase := .replaying msg } : Session γ).flush
  | replayUnsent {msg : FrontendMessage} (hphase : s.phase = .replayFlush msg) (err : String) (ok : Bool) :
      Steps sql s (.sendFailed err ok) (s.loseBuf.replayFailed s!"flush: {err}" ok)
  | replayReceived {msg : FrontendMessage} (hphase : s.phase = .replaying msg) (m : BackendMessage)
      (ok : Bool) : Steps sql s (.received m ok) (s.replayReceived sql msg m ok)
  | replayLost {msg : FrontendMessage} (hphase : s.phase = .replaying msg) {input : Input}
      (hinput : input.lost = true) (err : String) (ok : Bool) : Steps sql s input (s.replayFailed err ok)
  | sent (hphase : s.phase = .flushing) (ok : Bool) :
      Steps sql s (.sent ok) (s.writeBatch.andThen fun s ↦ s.startDrain ok)
  | unsent (hphase : s.phase = .flushing) (err : String) (ok : Bool) :
      Steps sql s (.sendFailed err ok) s.loseBuf.leave
  | drained {splicing : Bool} (hphase : s.phase = .draining splicing) (m : BackendMessage) (ok : Bool) :
      Steps sql s (.received m ok) (s.drainReceived splicing m ok)
  | queryTimeout {splicing : Bool} (hphase : s.phase = .draining splicing)
      (htimeout : 0 < s.cfg.queryTimeout) (ok : Bool) :
      Steps sql s (.receiveTimeout ok) (s.queryTimeout ok)
  | spliceEOF (hphase : s.phase = .draining true) (ok : Bool) : Steps sql s (.receiveEOF ok) (s.loop, [])
  | drainEOF (hphase : s.phase = .draining false) (ok : Bool) : Steps sql s (.receiveEOF ok) s.leave
  | drainFailed {splicing : Bool} (hphase : s.phase = .draining splicing) (err : String) (ok : Bool) :
      Steps sql s (.receiveFailed err ok) s.leave
  | resetSent {leaving : Bool} (hphase : s.phase = .resetFlush leaving) (ok : Bool) :
      Steps sql s (.sent ok) ({ s with phase := .resetting leaving } : Session γ).flush
  | resetUnsent {leaving : Bool} (hphase : s.phase = .resetFlush leaving) (err : String) (ok : Bool) :
      Steps sql s (.sendFailed err ok) (s.loseBuf.resetFailed leaving)
  | resetReceived {leaving : Bool} (hphase : s.phase = .resetting leaving) (m : BackendMessage)
      (ok : Bool) : Steps sql s (.received m ok) (s.resetReceived leaving m)
  | resetLost {leaving : Bool} (hphase : s.phase = .resetting leaving) {input : Input}
      (hinput : input.lost = true) : Steps sql s input (s.resetFailed leaving)

theorem steps_of_step {input : Input} {r : Res γ} (hstep : s.step sql input = some r) :
    Steps sql s input r := by
  unfold Session.step at hstep
  split at hstep
  all_goals
    rename_i hphase
    try obtain rfl := Option.some.inj hstep
  · exact .probed hphase _
  · exact .unprobed hphase _ _
  · exact .greeted (.inl hphase) _ _ _
  · exact .greeted (.inr hphase) _ _ _
  · exact .goodbye hphase rfl
  · exact .goodbye hphase rfl
  · exact .goodbye hphase rfl
  · split at hstep
    · obtain rfl := Option.some.inj hstep
      exact .clientTimeout hphase ‹_› _ _
    · cases hstep
  · exact .message hphase _ _
  · exact .polled hphase _ _
  · exact .nothing hphase _
  · exact .pollLost hphase rfl
  · exact .pollLost hphase rfl
  · exact .acquired hphase _
  · exact .acquireFailed hphase _ _
  · exact .replaySent hphase _
  · exact .replayUnsent hphase _ _
  · exact .replayReceived hphase _ _
  · exact .replayLost hphase rfl _ _
  · exact .replayLost hphase rfl _ _
  · exact .sent hphase _
  · exact .unsent hphase _ _
  · exact .drained hphase _ _
  · split at hstep
    · obtain rfl := Option.some.inj hstep
      exact .queryTimeout hphase ‹_› _
    · cases hstep
  · exact .spliceEOF hphase _
  · exact .drainEOF hphase _
  · exact .drainFailed hphase _ _
  · exact .resetSent hphase _
  · exact .resetUnsent hphase _ _
  · exact .resetReceived hphase _ _
  · exact .resetLost hphase rfl
  · exact .resetLost hphase rfl
  · cases hstep

theorem ne_returned_of_step {input : Input} {r : Res γ} (hstep : s.step sql input = some r) :
    s.phase ≠ .returned := by
  intro hphase
  simp [Session.step, hphase] at hstep

namespace Session

@[simp] theorem resume_id (leaving : Bool) (s : Session γ) : (s.resume leaving).id = s.id := by
  unfold resume
  split <;> rfl

@[simp] theorem resume_bConn (leaving : Bool) (s : Session γ) : (s.resume leaving).bConn = s.bConn := by
  unfold resume
  split <;> rfl

section

variable (s : Session γ)

@[simp] theorem flush_id : s.flush.1.id = s.id := by
  unfold flush
  split <;> rfl

@[simp] theorem flush_phase : s.flush.1.phase = s.phase := by
  unfold flush
  split <;> rfl

@[simp] theorem discard_id : s.discard.1.id = s.id := by
  unfold discard
  split <;> rfl

@[simp] theorem discard_cfg : s.discard.1.cfg = s.cfg := by
  unfold discard
  split <;> rfl

@[simp] theorem discard_phase : s.discard.1.phase = s.phase := by
  unfold discard
  split <;> rfl

@[simp] theorem discard_out : s.discard.1.out = s.out := by
  unfold discard
  split <;> rfl

@[simp] theorem discard_bConn : s.discard.1.bConn = none := by
  unfold discard
  split <;> simp_all

end

theorem observe_cases (m : BackendMessage) (s : Session γ) :
    (∃ txStatus, m = .readyForQuery txStatus ∧ s.observe m = (s.note m).finalizeRFQ) ∨
      (m = .copyInResponse ∧ s.observe m = ((s.note m).loop, [])) ∨
      ((∀ txStatus, m ≠ .readyForQuery txStatus) ∧ s.observe m = (s.note m, [])) := by
  cases m with
  | readyForQuery txStatus => exact .inl ⟨txStatus, rfl, rfl⟩
  | copyInResponse => exact .inr (.inl ⟨rfl, rfl⟩)
  | _ => exact .inr (.inr ⟨nofun, rfl⟩)

theorem leave_detached (hb : s.bConn = none) : s.leave = ({ s with phase := .returned }, []) := by
  simp [leave, hb]

end Session

end PgRouter.Client.Handler
