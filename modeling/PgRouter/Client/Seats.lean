import PgRouter.Client.Status
import PgRouter.Client.Statements
import PgRouter.Library.Leasing

namespace PgRouter.Client.Seats

open Library.Leasing Protocol Prepared Servers Handler Sharing Effects Attachment Turns Exchange Status Statements

variable {γ : Type} {sql : SQL γ} {s s' : Session γ} {r : Res γ} {b : Backend} {input : Input}

/-- The backends that a step may give back: one that was only asked for its parameters, the attached one as
it is, with its send buffer emptied, or after a reset. -/
inductive Returned (s : Session γ) : Input → Backend → Prop
  | probed {b : Backend} : Returned s (.acquired b) b
  | whole {input : Input} {b : Backend} (hb : s.bConn = some b) (hover : isOver s.phase = false) :
      Returned s input b
  | sent {ok : Bool} {b : Backend} (hb : s.bConn = some b) (hover : isOver s.phase = false) :
      Returned s (.sent ok) (bare b)
  | unsent {err : String} {ok : Bool} {b : Backend} (hb : s.bConn = some b) (hover : isOver s.phase = false) :
      Returned s (.sendFailed err ok) (bare b)
  | cleared {input : Input} {b : Backend} (hb : s.bConn = some b) :
      Returned s input { b with prepared := b.prepared.map PreparedCache.clear }

def NoPuts (acts : List Act) : Prop := ∀ pool b, .put pool b ∉ acts

theorem noPuts_of_local {acts : List Act} (h : ∀ a ∈ acts, Local a) : NoPuts acts := fun _ _ hmem ↦ h _ hmem

theorem noPuts_append {as bs : List Act} (has : NoPuts as) (hbs : NoPuts bs) : NoPuts (as ++ bs) :=
  fun pool b hmem ↦ (List.mem_append.mp hmem).elim (has pool b) (hbs pool b)

theorem noPuts_flush (s : Session γ) : NoPuts s.flush.2 := by
  intro pool b
  unfold Session.flush
  split <;> simp

theorem noPuts_writeBatch (s : Session γ) : NoPuts s.writeBatch.2 := by
  intro pool b
  unfold Session.writeBatch
  split
  · split <;> simp
  · exact noPuts_flush s pool b

theorem noPuts_discard (s : Session γ) : NoPuts s.discard.2 := by
  intro pool b
  unfold Session.discard
  split <;> simp

theorem noPuts_closed (h : Closed s r) : NoPuts r.2 := by
  intro pool b hmem
  rcases h.acts _ hmem with hmem | hmem
  · exact noPuts_discard s pool b hmem
  · exact hmem

theorem noPuts_attach (msg : FrontendMessage) (pool : ℕ) (b : Backend) (s : Session γ) :
    NoPuts (s.attach sql msg pool b).2 := by
  unfold Session.attach
  split
  · exact noPuts_of_local (served_forwardMessage _ _).acts
  · exact fun _ _ ↦ List.not_mem_nil

variable {m : BackendMessage} {leaving ok : Bool} {pool : ℕ}

theorem put_release (h : .put pool b ∈ (s.release leaving).2) : s.bConn = some b := by
  have hreleased := released_of_release leaving s
  generalize s.release leaving = q at h hreleased
  cases hreleased with
  | nothing hid hnone hacts =>
    rw [hacts] at h
    cases h
  | asked hb hreset query => cases h
  | put hb hreset pool =>
    cases List.mem_singleton.mp h
    exact hb

theorem put_leave (h : .put pool b ∈ s.leave.2) : s.bConn = some b := by
  unfold Session.leave at h
  split at h
  · cases h
  · split at h
    · exact put_release h
    · exact absurd h (noPuts_discard _ pool b)

theorem put_observe (h : .put pool b ∈ (s.observe m).2) : s.bConn = some b := by
  rcases Session.observe_cases m s with ⟨_, -, hobs⟩ | ⟨-, hobs⟩ | ⟨-, hobs⟩ <;> rw [hobs] at h
  · unfold Session.finalizeRFQ at h
    split at h
    · have hb : (s.note m).bConn = some b := put_release h
      exact hb
    · cases h
  · cases h
  · cases h

theorem put_passOn (h : .put pool b ∈ (passOn m ok s).2) : s.bConn = some b := by
  rcases List.mem_append.mp h with h | h
  · exact absurd h (noPuts_of_local (beFlush_local ok _) pool b)
  · dsimp only at h
    split at h
    · have hb : (s.pass m ok).1.bConn = some b := put_observe h
      exact hb
    · have hb : (s.pass m ok).1.bConn = some b := put_leave h
      exact hb

theorem put_fatal_leave {code text : String}
    (h : .put pool b ∈ ((s.sendFatalError code text ok).andThen Session.leave).2) : s.bConn = some b := by
  rcases List.mem_append.mp h with h | h
  · exact absurd h (noPuts_of_local (beFlush_local ok _) pool b)
  · have hb : (s.sendFatalError code text ok).1.bConn = some b := put_leave h
    exact hb

theorem put_startDrain (h : .put pool b ∈ (s.startDrain ok).2) : s.bConn = some b := by
  unfold Session.startDrain at h
  split at h
  · rcases List.mem_append.mp h with h | h
    · exact absurd h (noPuts_of_local (beFlush_local ok _) pool b)
    · dsimp only at h
      split at h
      · cases h
      · have hb : (s.beFlush ok).1.bConn = some b := put_leave h
        exact hb
  · cases h

theorem put_putBack (h : .put pool b ∈ (s.putBack leaving).2) : s.bConn = some b := by
  unfold Session.putBack at h
  split at h
  · cases h
  · cases List.mem_singleton.mp h
    assumption

theorem returned_of_step (hstep : s.step sql input = some r) (hput : .put pool b ∈ r.2) : Returned s input b := by
  have hnone (h : NoPuts r.2) : Returned s input b := absurd hput (h pool b)
  cases steps_of_step hstep with
  | probed hphase b' =>
    cases List.mem_singleton.mp hput
    exact .probed
  | unprobed => cases hput
  | greeted hphase params key ok =>
    refine absurd hput (noPuts_append (noPuts_of_local (beFlush_local ok _)) ?_ pool b)
    split <;> exact fun _ _ ↦ List.not_mem_nil
  | goodbye hphase | drainEOF hphase | drainFailed hphase => exact .whole (put_leave hput) (of_phase hphase rfl)
  | clientTimeout hphase hdeadline now ok =>
    unfold Session.clientTimeout at hput
    split at hput
    · cases hput
    · split at hput
      · exact .whole (put_fatal_leave hput) (of_phase hphase rfl)
      · exact .whole (put_fatal_leave hput) (of_phase hphase rfl)
  | message hphase msg env =>
    by_cases hmsg : msg = .terminate
    · subst hmsg
      exact .whole (put_leave hput) (of_phase hphase rfl)
    · exact hnone (noPuts_of_local (served_clientMessage env hmsg s).acts)
  | polled hphase m ok =>
    refine absurd hput (noPuts_append (noPuts_of_local (beFlush_local ok _)) ?_ pool b)
    dsimp only
    split
    · exact fun _ _ ↦ List.not_mem_nil
    · exact noPuts_discard _
  | nothing => cases hput
  | pollLost => exact hnone (noPuts_discard _)
  | acquired hphase b' => exact hnone (noPuts_attach _ _ b' s)
  | acquireFailed hphase err ok => exact .whole (put_fatal_leave hput) (of_phase hphase rfl)
  | replaySent => exact hnone (noPuts_flush _)
  | replayUnsent | replayLost => exact hnone (noPuts_closed (closed_replayFailed _ _ _))
  | replayReceived hphase m ok =>
    unfold Session.replayReceived at hput
    split at hput
    · exact absurd hput (noPuts_closed (closed_replayFailed _ _ _) pool b)
    · exact absurd hput (noPuts_of_local (served_forwardMessage _ _).acts pool b)
    · cases hput
  | sent hphase ok =>
    rcases List.mem_append.mp hput with hput | hput
    · exact absurd hput (noPuts_writeBatch s pool b)
    · have hb : s.writeBatch.1.bConn = some b := put_startDrain hput
      unfold Session.writeBatch at hb
      split at hb
      · split at hb
        · exact .whole hb (of_phase hphase rfl)
        · exact .whole hb (of_phase hphase rfl)
      · unfold Session.flush at hb
        split at hb
        · exact .whole hb (of_phase hphase rfl)
        · cases hb
          exact .sent ‹_› (of_phase hphase rfl)
  | unsent hphase err ok =>
    have hb : s.loseBuf.bConn = some b := put_leave hput
    obtain ⟨b', hb', rfl⟩ := Option.map_eq_some_iff.mp hb
    exact .unsent hb' (of_phase hphase rfl)
  | drained hphase m ok =>
    unfold Session.drainReceived at hput
    split at hput
    · cases hput
    · split at hput
      · cases hput
      · exact .whole (put_passOn hput) (of_phase hphase rfl)
  | queryTimeout => exact hnone (noPuts_closed (closed_queryTimeout _ _))
  | spliceEOF => cases hput
  | resetSent => exact hnone (noPuts_flush _)
  | resetUnsent | resetLost => exact hnone (noPuts_closed (closed_resetFailed _ _))
  | resetReceived hphase m ok =>
    unfold Session.resetReceived at hput
    split at hput
    · exact absurd hput (noPuts_closed (closed_resetFailed _ _) pool b)
    · split at hput
      · have hb := put_putBack hput
        obtain ⟨b', hb', rfl⟩ := Option.map_eq_some_iff.mp hb
        exact .cleared hb'
      · exact absurd hput (noPuts_closed (closed_resetFailed _ _) pool b)
    · cases hput

/-- A session of `Serve`, the far end of the backend that it holds, and what its client has said. -/
structure Seat (γ : Type) where
  session : Session γ
  far : Far
  said : List FrontendMessage

/-- A backend comes with its far end, and a batch with what the far end makes of its messages. -/
inductive Event
  | input (i : Input)
  | sent (ok : Bool) (verdicts : List Verdict)
  | acquired (b : Backend) (far : Far)
  | notice (m : BackendMessage)

def heard (t : Seat γ) (verdicts : List Verdict) : Option (Far × List (List BackendMessage)) :=
  match t.session.bConn with
  | none => some (t.far, [])
  | some b =>
    if b.peer.broken then some (t.far, []) else t.far.handles (outgoing t.session b) verdicts

def hearsay (said : List FrontendMessage) : Input → List FrontendMessage
  | .message msg _ => said ++ [msg]
  | _ => said

/-- The far end of the backend that a session holds once it has got this one. -/
def farOf (t : Seat γ) (far : Far) : Far :=
  match t.session.phase with
  | .acquiring .. => far
  | _ => t.far

variable (sql) in
def step (t : Seat γ) : Event → Option (Seat γ × List Act)
  | .input i =>
    match i with
    | .sent _ | .acquired _ => none
    | _ => (Exchange.step sql anything t.session (.input i [])).map fun r ↦
        (⟨r.1, t.far, hearsay t.said i⟩, r.2)
  | .sent ok verdicts => (heard t verdicts).bind fun h ↦
      (Exchange.step sql anything t.session (.input (.sent ok) h.2.flatten)).map fun r ↦ (⟨r.1, h.1, t.said⟩, r.2)
  | .acquired b far =>
    (Exchange.step sql anything t.session (.input (.acquired b) [])).map fun r ↦
      (⟨r.1, farOf t far, t.said⟩, r.2)
  | .notice m =>
    if plain m then (Exchange.step sql anything t.session (.notice m)).map fun r ↦ (⟨r.1, t.far, t.said⟩, r.2)
    else none

inductive Moves (sql : SQL γ) (t : Seat γ) : Event → Seat γ × List Act → Prop
  | input {i : Input} {s' : Session γ} {r : Res γ} (hsent : ∀ ok, i ≠ .sent ok) (hacquired : ∀ b, i ≠ .acquired b)
      (htalk : talk anything [] i t.session = some s') (hstep : s'.step sql i = some r) :
      Moves sql t (.input i) (⟨r.1, t.far, hearsay t.said i⟩, r.2)
  | sent {ok : Bool} {verdicts : List Verdict} {h : Far × List (List BackendMessage)} {s' : Session γ} {r : Res γ}
      (hheard : heard t verdicts = some h) (htalk : talk anything h.2.flatten (.sent ok) t.session = some s')
      (hstep : s'.step sql (.sent ok) = some r) : Moves sql t (.sent ok verdicts) (⟨r.1, h.1, t.said⟩, r.2)
  | acquired {b : Backend} {far : Far} {r : Res γ} (hstep : t.session.step sql (.acquired b) = some r) :
      Moves sql t (.acquired b far) (⟨r.1, farOf t far, t.said⟩, r.2)
  | notice {m : BackendMessage} (hm : plain m = true) :
      Moves sql t (.notice m)
        (⟨{ t.session with bConn := t.session.bConn.map (Backend.unasked m) }, t.far, t.said⟩, [])

variable {t : Seat γ} {e : Event} {q : Seat γ × List Act}

theorem moves_of_step (h : step sql t e = some q) : Moves sql t e q := by
  cases e with
  | input i =>
    cases i with
    | sent ok | acquired b => cases h
    | _ =>
      obtain ⟨r, hr, rfl⟩ := Option.map_eq_some_iff.mp h
      obtain ⟨s', htalk, hstep⟩ := Option.bind_eq_some_iff.mp hr
      exact .input nofun nofun htalk hstep
  | sent ok verdicts =>
    obtain ⟨h', hheard, h⟩ := Option.bind_eq_some_iff.mp h
    obtain ⟨r, hr, rfl⟩ := Option.map_eq_some_iff.mp h
    obtain ⟨s', htalk, hstep⟩ := Option.bind_eq_some_iff.mp hr
    exact .sent hheard htalk hstep
  | acquired b far =>
    obtain ⟨r, hr, rfl⟩ := Option.map_eq_some_iff.mp h
    obtain ⟨s', htalk, hstep⟩ := Option.bind_eq_some_iff.mp hr
    obtain rfl := talk_still rfl htalk
    exact .acquired hstep
  | notice m =>
    simp only [step] at h
    split at h
    · obtain ⟨r, hr, rfl⟩ := Option.map_eq_some_iff.mp h
      simp only [Exchange.step] at hr
      split at hr
      · cases hr
      · cases hr
        exact .notice ‹_›
    · cases h

def newPreparedCache (cap : ℤ) : PreparedCache := ⟨if cap ≤ 0 then 250 else cap.toNat, []⟩

def dialedCache (size : ℤ) : Option PreparedCache := if 0 ≤ size then some (newPreparedCache size) else none

/-- Sessions that borrow backends, each with its pool and its far end, and leave them as they are when they
give them back. -/
def trade (sql : SQL γ) : Trade PooledConfig (Seat γ) (ℕ × Backend × Far) Event (List Act) ℤ where
  join i cfg := ⟨Session.new sql i cfg, .new, []⟩
  step := step sql
  lend x := .acquired x.2.1 x.2.2
  lending
    | .acquired .. => true
    | _ => false
  accepts t x := wants t.session == some x.1
  returned e t acts := (puts acts).map fun p ↦ (p.1, p.2, match e with
    | .acquired _ far => far
    | _ => t.far)
  make n size := (0, .dialed n (dialedCache size), .new)

end PgRouter.Client.Seats
