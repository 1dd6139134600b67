import PgRouter.Client.Exchange
import PgRouter.Client.Rejections

namespace PgRouter.Client.Transmission

open Library.Runs Library.Records Protocol Servers Handler Handling Attachment Turns Exchange
open Rejections
open scoped List

variable {γ : Type} {sql : SQL γ} {s t : Session γ} {r : Res γ} {msg : FrontendMessage} {env : Env}

section Accounts

def forwards (acts : List Act) : List (ℕ × FrontendMessage) :=
  acts.filterMap fun
    | .forward b m => some (b, m)
    | _ => none

def written (i : ℕ) (acts : List Act) : List (ℕ × FrontendMessage) :=
  acts.filterMap fun
    | .wrote owner b m => if owner = i then some (b, m) else none
    | _ => none

theorem forwards_append (as bs : List Act) : forwards (as ++ bs) = forwards as ++ forwards bs :=
  List.filterMap_append

theorem written_append (i : ℕ) (as bs : List Act) : written i (as ++ bs) = written i as ++ written i bs :=
  List.filterMap_append

theorem forwards_quiet {acts : List Act} (h : Quiet acts) : forwards acts = [] := by
  rw [forwards, List.filterMap_eq_nil_iff]
  intro a ha
  cases a with
  | forward b m => exact absurd ha (h b m)
  | _ => rfl

/-- What of the client's messages a flush would write. The router's own reset query does not count. -/
def buffered (s : Session γ) : List (ℕ × FrontendMessage) :=
  if s.cfg.rawPassthrough || isOver s.phase then [] else written s.id s.flush.2

theorem buffered_over (h : isOver s.phase = true) : buffered s = [] := by
  rw [buffered, h, Bool.or_true, if_pos rfl]

theorem buffered_raw (h : s.cfg.rawPassthrough = true) : buffered s = [] := by
  rw [buffered, h, Bool.true_or, if_pos rfl]

theorem buffered_serve (hraw : s.cfg.rawPassthrough = false) (hover : isOver s.phase = false) :
    buffered s = written s.id s.flush.2 := by
  rw [buffered, hraw, hover]
  exact if_neg Bool.false_ne_true

theorem buffered_detached (h : s.bConn = none) : buffered s = [] := by
  unfold buffered Session.flush
  rw [h]
  exact ite_self _

theorem buffered_same (hid : t.id = s.id) (hcfg : t.cfg = s.cfg) (hconn : t.bConn = s.bConn)
    (hphase : isOver t.phase = isOver s.phase) : buffered t = buffered s := by
  unfold buffered Session.flush
  rw [hid, hcfg, hconn, hphase]
  cases s.bConn <;> rfl

/-- The books stay in order: all that was passed on has been written or is in the send buffer. -/
structure Carries (s : Session γ) (r : Res γ) : Prop where
  id : r.1.id = s.id
  books : ∀ sent done, sent <+ done ++ buffered s →
    sent ++ forwards r.2 <+ done ++ written s.id r.2 ++ buffered r.1

theorem Carries.andThen {f : Session γ → Res γ} (hr : Carries s r) (hf : Carries r.1 (f r.1)) :
    Carries s (r.andThen f) := by
  refine ⟨hf.id.trans hr.id, fun sent done h ↦ ?_⟩
  have hnext := hf.books _ _ (hr.books sent done h)
  rw [hr.id] at hnext
  rw [Res.andThen, forwards_append, written_append, ← List.append_assoc, ← List.append_assoc]
  exact hnext

theorem carries_quiet (hid : r.1.id = s.id) (hquiet : Quiet r.2)
    (hbuf : buffered s = [] ∨ buffered r.1 = buffered s) : Carries s r := by
  refine ⟨hid, fun sent done h ↦ ?_⟩
  rw [forwards_quiet hquiet, List.append_nil, List.append_assoc]
  rcases hbuf with hbuf | hbuf
  · rw [hbuf, List.append_nil] at h
    exact h.trans (List.sublist_append_left ..)
  · rw [hbuf]
    exact h.trans ((List.Sublist.refl done).append (List.sublist_append_right ..))

theorem Carries.of (h : Carries t r) (hid : t.id = s.id) (hbuf : buffered s = [] ∨ buffered t = buffered s) :
    Carries s r := by
  refine ⟨h.id.trans hid, fun sent done hsent ↦ ?_⟩
  rw [← hid]
  apply h.books
  rcases hbuf with hbuf | hbuf
  · rw [hbuf, List.append_nil] at hsent
    exact hsent.trans (List.sublist_append_left ..)
  · rw [hbuf]
    exact hsent

theorem carries_flush (hover : isOver s.phase = false) : Carries s s.flush := by
  cases hraw : s.cfg.rawPassthrough with
  | true => exact carries_quiet (by simp) (quiet_flush s) (.inl (buffered_raw hraw))
  | false =>
    refine ⟨by simp, fun sent done h ↦ ?_⟩
    rw [buffered_serve hraw hover] at h
    rw [forwards_quiet (quiet_flush s), List.append_nil]
    exact h.trans (List.sublist_append_left ..)

theorem forwards_forward (b : ℕ) (ms : List FrontendMessage) :
    forwards (ms.map fun m ↦ .forward b m) = ms.map fun m ↦ (b, m) := by
  simp [forwards, List.filterMap_map]

theorem written_forward (i b : ℕ) (ms : List FrontendMessage) :
    written i (ms.map fun m ↦ .forward b m) = [] := by
  simp [written]

theorem written_own (i b : ℕ) (ms : List FrontendMessage) :
    written i ((ms.map fun m ↦ (i, m)).map fun p ↦ .wrote p.1 b p.2) = ms.map fun m ↦ (b, m) := by
  simp [written, List.filterMap_map, Function.comp_def]

theorem carries_forwardMessage {b : Backend} (hb : s.bConn = some b) (hover : isOver s.phase = false)
    (msg : FrontendMessage) : Carries s (s.forwardMessage sql msg) := by
  cases hraw : s.cfg.rawPassthrough with
  | true =>
    refine carries_quiet ?_ ?_ (.inl (buffered_raw hraw))
    · rw [Session.forwardMessage, if_pos hraw]
      unfold Session.afterForward
      split <;> rfl
    · rw [Session.forwardMessage, if_pos hraw]
      exact quiet_nil
  | false =>
    have hi : Intercepted sql msg s b (s.forwardMessage sql msg) := intercepted_forwardMessage hraw hb msg
    have hraw' : (s.forwardMessage sql msg).1.cfg.rawPassthrough = false := by rw [hi.cfg, hraw]
    have hover' : isOver (s.forwardMessage sql msg).1.phase = false := by
      rw [hi.phase]
      split <;> rfl
    refine ⟨hi.id, fun sent done h ↦ ?_⟩
    rw [buffered_serve hraw hover] at h
    rw [buffered_serve hraw' hover', hi.id]
    simp only [Session.flush, hb] at h
    simp only [Session.flush, hi.conn, hi.acts, List.map_append, written_append, forwards_forward,
      written_forward, written_own, List.append_nil]
    rw [← List.append_assoc]
    exact h.append_right _

theorem carries_writeBatch (hover : isOver s.phase = false) : Carries s s.writeBatch := by
  unfold Session.writeBatch
  split
  · rename_i hraw
    split
    · exact carries_quiet rfl quiet_nil (.inr rfl)
    · rename_i b hb
      have hboth : forwards (s.writeBuf.flatMap fun m ↦ [.forward b.id m, .wrote s.id b.id m]) =
          written s.id (s.writeBuf.flatMap fun m ↦ [.forward b.id m, .wrote s.id b.id m]) := by
        simp [forwards, written, List.filterMap_flatMap]
      refine ⟨rfl, fun sent done h ↦ ?_⟩
      rw [buffered_raw hraw, List.append_nil] at h
      rw [hboth]
      exact (h.append_right _).trans (List.sublist_append_left ..)
  · exact carries_flush hover

end Accounts

section Phases

structure Cleared (s : Session γ) : Prop where
  writeBuf : s.writeBuf = []
  sendBuf : s.cfg.rawPassthrough = false → ∀ b, s.bConn = some b → b.sendBuf = []

theorem Cleared.buffered (h : Cleared s) : buffered s = [] := by
  cases hraw : s.cfg.rawPassthrough with
  | true => exact buffered_raw hraw
  | false =>
    cases hb : s.bConn with
    | none => exact buffered_detached hb
    | some b =>
      simp only [Transmission.buffered, Session.flush, hb, h.sendBuf hraw b hb]
      exact ite_self _

variable {told : List UInt8}

theorem Cleared.idles (h : Cleared s) (hidle : Idles told s r)
    (hover : isOver r.1.phase = false) : Cleared r.1 := by
  refine ⟨hidle.writeBuf.trans h.writeBuf, fun hraw b hb ↦ ?_⟩
  rw [hidle.cfg] at hraw
  rcases hidle.conn with hnone | ⟨-, -, hover' | hconn⟩
  · rw [hnone] at hb
    cases hb
  · rw [hover] at hover'
    cases hover'
  · exact h.sendBuf hraw b (hconn ▸ hb)

theorem cleared_writeBatch (hsome : s.bConn.isSome = true) (hbuf : s.cfg.rawPassthrough = false → s.writeBuf = []) :
    Cleared s.writeBatch.1 := by
  obtain ⟨b, hb⟩ := Option.isSome_iff_exists.mp hsome
  unfold Session.writeBatch Session.flush
  rw [hb]
  split
  · rename_i hraw
    exact ⟨rfl, by simp [hraw]⟩
  · rename_i hraw
    refine ⟨hbuf (by simpa using hraw), fun _ b' hb' ↦ ?_⟩
    cases hb'
    rfl

/-- Where the client's messages are. `owed` says that the last one asks for an answer. -/
structure Fits (owed : Bool) (s : Session γ) : Prop where
  serve : s.cfg.rawPassthrough = false → s.writeBuf = []
  phase : match s.phase with
    | .welcome | .greeting => owed = false
    | .top | .polling => owed = true → Cleared s
    | .acquiring msg _ => s.bConn = none ∧ (owed = true → triggersBackendDrain msg = true)
    | .replayFlush msg | .replaying msg =>
      s.bConn.isSome = true ∧ (owed = true → triggersBackendDrain msg = true)
    | .flushing => s.bConn.isSome = true
    | .draining _ => Cleared s
    | .resetFlush leaving | .resetting leaving => leaving = false → s.writeBuf = []
    | .returned => True

variable {owed : Bool}

theorem fits_closing (hserve : s.cfg.rawPassthrough = false → s.writeBuf = []) (h : closing s.phase = true) :
    Fits owed s := by
  refine ⟨hserve, ?_⟩
  cases hphase : s.phase with
  | resetFlush leaving | resetting leaving =>
    rintro rfl
    rw [hphase] at h
    cases h
  | returned => trivial
  | _ =>
    rw [hphase] at h
    cases h

theorem fits_over (hbuf : s.writeBuf = []) (h : isOver s.phase = true) : Fits owed s := by
  refine ⟨fun _ ↦ hbuf, ?_⟩
  cases hphase : s.phase with
  | resetFlush leaving | resetting leaving => exact fun _ ↦ hbuf
  | returned => trivial
  | _ =>
    rw [hphase] at h
    cases h

theorem Cleared.fits (h : Cleared s) (hidle : Idles told s r)
    (hnext : isOver r.1.phase = true ∨ r.1.phase = .top ∨ ∃ splicing, r.1.phase = .draining splicing) :
    Fits owed r.1 := by
  have hbuf : r.1.writeBuf = [] := hidle.writeBuf.trans h.writeBuf
  rcases hnext with hover | hphase | ⟨splicing, hphase⟩
  · exact fits_over hbuf hover
  · refine ⟨fun _ ↦ hbuf, ?_⟩
    have hcleared := h.idles hidle (by rw [hphase]; rfl)
    rw [hphase]
    exact fun _ ↦ hcleared
  · refine ⟨fun _ ↦ hbuf, ?_⟩
    have hcleared := h.idles hidle (by rw [hphase]; rfl)
    rw [hphase]
    exact hcleared

theorem phase_startDrain (ok : Bool) (s : Session γ) : isOver (s.startDrain ok).1.phase = true ∨
    (s.startDrain ok).1.phase = .top ∨ ∃ splicing, (s.startDrain ok).1.phase = .draining splicing := by
  unfold Session.startDrain
  split
  · cases ok with
    | true => exact .inr (.inr ⟨true, rfl⟩)
    | false => exact .inl (over_leave _)
  · exact .inr (.inr ⟨false, rfl⟩)

theorem fits_forwardMessage (hserve : s.cfg.rawPassthrough = false → s.writeBuf = []) {b : Backend}
    (hb : s.bConn = some b) (hmsg : owed = true → triggersBackendDrain msg = true) :
    Fits owed (s.forwardMessage sql msg).1 := by
  have hf : Forwarded sql msg s b (s.forwardMessage sql msg) := forwarded_forwardMessage hb msg
  refine ⟨fun hraw ↦ ?_, ?_⟩
  · rw [hf.kept.1] at hraw
    rw [hf.writeBuf, hserve hraw, hraw]
    rfl
  · rcases hf.phase with hphase | hphase
    · obtain ⟨prepared, hconn⟩ := hf.conn
      rw [hphase, hconn]
      rfl
    · rw [hphase]
      intro howed
      have hdrain := hf.drain (hmsg howed)
      rw [hphase] at hdrain
      cases hdrain

end Phases

section Handling

/-- The router answers the message itself: it rejects it, or there is no backend to send a `Sync` to. -/
def answered (sql : SQL γ) (env : Env) (msg : FrontendMessage) (s : Session γ) : Bool :=
  rejects sql env msg s || msg == .sync && s.bConn.isNone

structure Rests (s : Session γ) (r : Res γ) : Prop where
  id : r.1.id = s.id
  cfg : r.1.cfg = s.cfg
  conn : r.1.bConn = s.bConn
  writeBuf : r.1.writeBuf = s.writeBuf
  phase : r.1.phase = .top
  quiet : Quiet r.2

theorem rests_refused (hframe : Frame s t) (env : Env) (code text : String) :
    Rests s (refused env code text t) where
  id := hframe.id
  cfg := hframe.cfg
  conn := hframe.bConn
  writeBuf := hframe.writeBuf
  phase := rfl
  quiet := quiet_append (quiet_beFlush _ _) quiet_nil

inductive Outcome (sql : SQL γ) (env : Env) (msg : FrontendMessage) (s : Session γ) : Res γ → Prop
  | answered {r : Res γ} (hanswered : answered sql env msg s = true) (hrests : Rests s r) :
      Outcome sql env msg s r
  | waits {t : Session γ} (hanswered : answered sql env msg s = false) (hnone : s.bConn = none)
      (hframe : Frame s t) (pool : ℕ) : Outcome sql env msg s ({ t with phase := .acquiring msg pool }, [])
  | forwarded {t : Session γ} (hanswered : answered sql env msg s = false) (hsome : s.bConn.isSome = true)
      (hframe : Frame s t) : Outcome sql env msg s (t.forwardMessage sql msg)
  | ignored {t : Session γ} (hanswered : answered sql env msg s = false) (hnone : s.bConn = none)
      (hneeds : needsConn s.cfg msg = false) (hframe : Frame s t) : Outcome sql env msg s (t.loop, [])

theorem ne_sync_of_needsConn {cfg : PooledConfig} (h : needsConn cfg msg = true) : msg ≠ .sync := by
  rintro rfl
  unfold needsConn at h
  split at h <;> cases h

theorem outcome_of_message (hmsg : msg ≠ .terminate) (env : Env) (s : Session γ) :
    Outcome sql env msg s (s.clientMessage sql env msg) := by
  cases hrejects : rejects sql env msg s with
  | true =>
    have hanswered : answered sql env msg s = true := by rw [answered, hrejects, Bool.true_or]
    obtain ⟨code, text, hr⟩ := refused_of_rejects hmsg hrejects
    obtain ⟨o, rfl, hobs, -⟩ := clientMessage_cases sql hmsg env s
    rw [hr]
    refine .answered hanswered (rests_refused ?_ env code text)
    split
    · exact hobs.toFrame
    · exact hobs.noted env
  | false =>
    have hanswered : answered sql env msg s = (msg == .sync && s.bConn.isNone) := by
      rw [answered, hrejects, Bool.false_or]
    have hhandled : Handled sql env msg s _ := handled_of_clientMessage hmsg env s
    generalize s.clientMessage sql env msg = r at hhandled ⊢
    cases hhandled with
    | gated hobs hgated code text =>
      rw [rejects, hgated, Bool.true_or] at hrejects
      cases hrejects
    | failedOver hnoticed hobs hgated hneeds hnone hpool hhealth code text =>
      subst hnoticed
      simp [rejects, failsOver, hneeds, hnone, hpool, hhealth] at hrejects
    | acquires hobs hgated hneeds hnone =>
      refine .waits ?_ hnone (hobs.noted env) _
      rw [hanswered, beq_false_of_ne (ne_sync_of_needsConn hneeds), Bool.false_and]
    | forwards hobs hgated hsome =>
      refine .forwarded ?_ hsome (hobs.noted env)
      rw [hanswered, Option.isNone_eq_false_iff.mpr hsome, Bool.and_false]
    | answers hobs hgated hnone hsync =>
      have hframe := hobs.noted env
      refine .answered ?_ ⟨hframe.id, hframe.cfg, hframe.bConn, hframe.writeBuf, rfl,
        quiet_append (quiet_beFlush _ _) quiet_nil⟩
      rw [hanswered, hsync, hnone]
      rfl
    | ignores hobs hgated hnone hneeds hsync =>
      refine .ignored ?_ hnone hneeds (hobs.noted env)
      rw [hanswered, beq_false_of_ne hsync, Bool.false_and]

end Handling

section Steps

variable {owed : Bool} {input : Input}

theorem carries_handled (hphase : s.phase = .top) (h : Outcome sql env msg s r) : Carries s r := by
  have hover : isOver s.phase = false := hphase ▸ rfl
  have hsame {u : Session γ} (hid : u.id = s.id) (hcfg : u.cfg = s.cfg) (hconn : u.bConn = s.bConn)
      (hu : isOver u.phase = false) : buffered u = buffered s := buffered_same hid hcfg hconn (hu.trans hover.symm)
  cases h with
  | answered _ hrests =>
    refine carries_quiet hrests.id hrests.quiet (.inr (hsame hrests.id hrests.cfg hrests.conn ?_))
    rw [hrests.phase]
    rfl
  | waits _ _ hframe pool | ignored _ _ _ hframe =>
    exact carries_quiet hframe.id quiet_nil (.inr (hsame hframe.id hframe.cfg hframe.bConn rfl))
  | @forwarded t _ hsome hframe =>
    obtain ⟨b, hb⟩ := Option.isSome_iff_exists.mp hsome
    have hover' : isOver t.phase = false := by rw [hframe.phase, hover]
    exact (carries_forwardMessage (hframe.bConn.trans hb) hover' msg).of hframe.id
      (.inr (hsame hframe.id hframe.cfg hframe.bConn hover'))

theorem carries_attach (hnone : s.bConn = none) (msg : FrontendMessage) (pool : ℕ) (b : Backend)
    (hover : isOver s.phase = false) : Carries s (s.attach sql msg pool b) := by
  have hempty := buffered_detached hnone
  unfold Session.attach
  split
  · have hover' : isOver (s.adopt pool b).phase = false := hover
    exact (carries_forwardMessage rfl hover' msg).of rfl (.inl hempty)
  · exact carries_quiet rfl quiet_nil (.inl hempty)

theorem closing_pollReceived (m : BackendMessage) (s : Session γ) :
    closing (s.pollReceived m false).1.phase = true := by
  rw [Session.pollReceived, Res.andThen, if_neg Bool.false_ne_true, Session.discard_phase]
  rfl

theorem carries_of_step (hs : Fits owed s) (hstep : s.step sql input = some r)
    (hopen : closing r.1.phase = false) : Carries s r := by
  have hfits := hs.phase
  have hidle {told : List UInt8} (hidle : Idles told s r) (hbuf : buffered s = [] ∨ buffered r.1 = buffered s) :
      Carries s r := carries_quiet (congrArg Core.id hidle.core) hidle.quiet hbuf
  cases turn_of_step hstep with
  | stays _ hphase hidles hconn hnext =>
    refine hidle hidles (.inr (buffered_same (congrArg Core.id hidles.core) hidles.cfg hconn ?_))
    rw [(quiet_of_untroubled hphase).1]
    cases hr : r.1.phase with
    | top | polling | greeting => rfl
    | _ =>
      rw [hr] at hnext
      cases hnext
  | leaves _ _ _ hnext =>
    rw [hnext] at hopen
    cases hopen
  | timedOut hphase ok =>
    rw [hphase] at hfits
    exact hidle (idles_queryTimeout ok s) (.inl hfits.buffered)
  | resets _ hover hidles => exact hidle hidles (.inl (buffered_over hover))
  | greeted hphase params key ok =>
    cases ok with
    | true =>
      refine carries_quiet rfl (remains_greet params key true s).quiet (.inr (buffered_same rfl rfl rfl ?_))
      rcases hphase with hphase | hphase <;> rw [hphase] <;> rfl
    | false => cases hopen
  | message hphase hmsg =>
    obtain ⟨-, rfl⟩ := message_of_step hstep
    exact carries_handled hphase (outcome_of_message hmsg _ s)
  | acquired hphase b =>
    rw [hphase] at hfits
    exact carries_attach hfits.1 _ _ b (hphase ▸ rfl)
  | @replaySent msg hphase ok =>
    have hflush : Carries { s with phase := .replaying msg } ({ s with phase := .replaying msg } : Session γ).flush :=
      carries_flush rfl
    refine hflush.of rfl (.inr (buffered_same rfl rfl rfl ?_))
    rw [hphase]
    rfl
  | replayWaits => exact carries_quiet rfl quiet_nil (.inr rfl)
  | replayed hphase txStatus ok =>
    rw [hphase] at hfits
    obtain ⟨b, hb⟩ := Option.isSome_iff_exists.mp hfits.1
    exact carries_forwardMessage hb (hphase ▸ rfl) _
  | sent hphase ok =>
    rw [hphase] at hfits
    have hdrain := idles_startDrain ok s.writeBatch.1
    have hempty := (cleared_writeBatch hfits hs.serve).buffered
    exact (carries_writeBatch (hphase ▸ rfl)).andThen
      (carries_quiet (congrArg Core.id hdrain.core) hdrain.quiet (.inl hempty))
  | withheldCC | withheldPC => exact carries_quiet rfl quiet_nil (.inr (buffered_same rfl rfl rfl rfl))
  | drained hphase m ok =>
    have hwaiting : waiting s.phase = false := hphase ▸ rfl
    rw [hphase] at hfits
    exact hidle (idles_passOn hwaiting m ok) (.inl hfits.buffered)
  | cutOff hphase ok =>
    rw [hphase] at hfits
    exact carries_quiet rfl quiet_nil (.inl hfits.buffered)
  | polled hphase m ok =>
    cases ok with
    | true => exact hidle (idles_pollReceived hphase m true) (.inr (buffered_same rfl rfl rfl rfl))
    | false =>
      rw [closing_pollReceived] at hopen
      cases hopen

def asks : FrontendMessage → Bool
  | .query _ | .sync | .flush | .functionCall => true
  | _ => false

/-- Whether the last client message asks for an answer that the router does not give itself. -/
def owedAfter (sql : SQL γ) (s : Session γ) (input : Input) (owed : Bool) : Bool :=
  match input with
  | .message msg env => asks msg && !answered sql env msg s
  | _ => owed

/-- A message that is not answered by the router has the batch written if it asks for an answer, and it
finds or gets a backend. -/
def heeded (sql : SQL γ) (s : Session γ) : Input → Bool
  | .message .terminate _ => true
  | .message msg env => answered sql env msg s ||
      ((!asks msg || triggersBackendDrain msg) && (s.bConn.isSome || needsConn s.cfg msg))
  | _ => true

theorem heeded_message (hmsg : msg ≠ .terminate) (h : heeded sql s (.message msg env) = true)
    (hanswered : answered sql env msg s = false) :
    (asks msg = true → triggersBackendDrain msg = true) ∧ (s.bConn.isSome = true ∨ needsConn s.cfg msg = true) := by
  have hguard : (answered sql env msg s ||
      ((!asks msg || triggersBackendDrain msg) && (s.bConn.isSome || needsConn s.cfg msg))) = true := by
    cases msg with
    | terminate => exact absurd rfl hmsg
    | _ => exact h
  rw [hanswered, Bool.false_or, Bool.and_eq_true, Bool.or_eq_true, Bool.or_eq_true] at hguard
  refine ⟨fun hasks ↦ ?_, hguard.2⟩
  rw [hasks] at hguard
  exact hguard.1.resolve_left Bool.false_ne_true

theorem fits_handled (hs : Fits owed s) (hmsg : msg ≠ .terminate)
    (hguard : heeded sql s (.message msg env) = true) (h : Outcome sql env msg s r) :
    Fits (asks msg && !answered sql env msg s) r.1 := by
  have hserve {t : Session γ} (hframe : Frame s t) : t.cfg.rawPassthrough = false → t.writeBuf = [] := by
    rw [hframe.cfg, hframe.writeBuf]
    exact hs.serve
  cases h with
  | answered hanswered hrests =>
    rw [hanswered, Bool.not_true, Bool.and_false]
    refine ⟨?_, ?_⟩
    · rw [hrests.cfg, hrests.writeBuf]
      exact hs.serve
    · rw [hrests.phase]
      nofun
  | waits hanswered hnone hframe pool =>
    rw [hanswered, Bool.not_false, Bool.and_true]
    have hserve' := hserve hframe
    exact ⟨hserve', hframe.bConn.trans hnone, (heeded_message hmsg hguard hanswered).1⟩
  | forwarded hanswered hsome hframe =>
    obtain ⟨b, hb⟩ := Option.isSome_iff_exists.mp hsome
    rw [hanswered, Bool.not_false, Bool.and_true]
    exact fits_forwardMessage (hserve hframe) (hframe.bConn.trans hb) (heeded_message hmsg hguard hanswered).1
  | ignored hanswered hnone hneeds _ =>
    rcases (heeded_message hmsg hguard hanswered).2 with hsome | hneeds'
    · rw [hnone] at hsome
      cases hsome
    · rw [hneeds] at hneeds'
      cases hneeds'

theorem owedAfter_still (hinput : still input = true) : owedAfter sql s input owed = owed := by
  cases input <;> first | rfl | cases hinput

theorem fits_stays (hs : Fits owed s) (hphase : untroubled s.phase = true) (hidle : Idles [] s r)
    (hnext : rests r.1.phase = true) (hgreets : r.1.phase = .greeting → s.phase = .welcome) :
    Fits owed r.1 := by
  have hfits := hs.phase
  refine ⟨?_, ?_⟩
  · rw [hidle.cfg, hidle.writeBuf]
    exact hs.serve
  have hrest (hphase' : r.1.phase = .top ∨ r.1.phase = .polling) (howed : owed = true) : Cleared r.1 := by
    have hover : isOver r.1.phase = false := by rcases hphase' with h | h <;> rw [h] <;> rfl
    refine Cleared.idles ?_ hidle hover
    cases hp : s.phase with
    | top | polling =>
      rw [hp] at hfits
      exact hfits howed
    | welcome =>
      rw [hp] at hfits
      rw [hfits] at howed
      cases howed
    | _ =>
      rw [hp] at hphase
      cases hphase
  cases hp : r.1.phase with
  | top => exact hrest (.inl hp)
  | polling => exact hrest (.inr hp)
  | greeting =>
    rw [hgreets hp] at hfits
    exact hfits
  | _ =>
    rw [hp] at hnext
    cases hnext

theorem fits_of_step (hs : Fits owed s) (hguard : heeded sql s input = true)
    (hstep : s.step sql input = some r) : Fits (owedAfter sql s input owed) r.1 := by
  have hfits := hs.phase
  have hserve {told : List UInt8} (hidle : Idles told s r) : r.1.cfg.rawPassthrough = false → r.1.writeBuf = [] := by
    rw [hidle.cfg, hidle.writeBuf]
    exact hs.serve
  cases turn_of_step hstep with
  | stays hinput hphase hidle hconn hnext hgreets =>
    rw [owedAfter_still hinput]
    exact fits_stays hs hphase hidle hnext hgreets
  | leaves _ _ hidle hnext => exact fits_closing (hserve hidle) hnext
  | timedOut hphase ok =>
    rw [hphase] at hfits
    exact hfits.fits (idles_queryTimeout ok s) (.inr (.inl rfl))
  | resets _ hover hidle hnext hleaves =>
    rcases hleaves with hstays | hcloses
    · have hbuf : r.1.writeBuf = [] := by
        rw [hidle.writeBuf]
        cases hphase : s.phase with
        | resetFlush leaving | resetting leaving =>
          rw [hphase] at hfits hstays
          exact hfits hstays
        | returned =>
          rw [hphase] at hstays
          cases hstays
        | _ =>
          rw [hphase] at hover
          cases hover
      rcases hnext with hover' | ⟨hphase, hnone⟩
      · exact fits_over hbuf hover'
      · refine ⟨fun _ ↦ hbuf, ?_⟩
        rw [hphase]
        exact fun _ ↦ ⟨hbuf, fun _ b hb ↦ by rw [hnone] at hb; cases hb⟩
    · exact fits_closing (hserve hidle) hcloses
  | greeted hphase params key ok =>
    have howed : owed = false := by
      rcases hphase with hphase | hphase <;>
      · rw [hphase] at hfits
        exact hfits
    subst howed
    cases ok with
    | true => exact ⟨hs.serve, nofun⟩
    | false => exact ⟨hs.serve, trivial⟩
  | message _ hmsg =>
    obtain ⟨-, rfl⟩ := message_of_step hstep
    exact fits_handled hs hmsg hguard (outcome_of_message hmsg _ s)
  | acquired hphase b =>
    rw [hphase] at hfits
    unfold Session.attach
    split
    · exact fits_forwardMessage hs.serve rfl hfits.2
    · exact ⟨hs.serve, rfl, hfits.2⟩
  | @replaySent msg hphase ok =>
    rw [hphase] at hfits
    obtain ⟨b, hb⟩ := Option.isSome_iff_exists.mp hfits.1
    unfold Session.flush
    rw [hb]
    exact ⟨hs.serve, rfl, hfits.2⟩
  | replayWaits => exact hs
  | replayed hphase txStatus ok =>
    rw [hphase] at hfits
    obtain ⟨b, hb⟩ := Option.isSome_iff_exists.mp hfits.1
    exact fits_forwardMessage hs.serve hb hfits.2
  | sent hphase ok =>
    rw [hphase] at hfits
    have hcleared := cleared_writeBatch hfits hs.serve
    have hdraining : Fits owed (s.writeBatch.1.startDrain ok).1 :=
      hcleared.fits (idles_startDrain ok _) (phase_startDrain ok _)
    exact hdraining
  | withheldCC hphase | withheldPC hphase =>
    rw [hphase] at hfits
    exact ⟨hs.serve, by rw [hphase]; exact ⟨hfits.writeBuf, hfits.sendBuf⟩⟩
  | @drained splicing hphase m ok =>
    have hwaiting : waiting s.phase = false := hphase ▸ rfl
    rw [hphase] at hfits
    refine hfits.fits (idles_passOn hwaiting m ok) ((phase_passOn m ok s).imp_right ?_)
    exact Or.imp And.right fun h ↦ ⟨splicing, h.2.trans hphase⟩
  | cutOff hphase ok =>
    rw [hphase] at hfits
    exact ⟨hs.serve, fun _ ↦ ⟨hfits.writeBuf, hfits.sendBuf⟩⟩
  | polled hphase m ok =>
    have hidle := idles_pollReceived hphase m ok
    cases ok with
    | true =>
      have hnext : (s.pollReceived m true).1.phase = .polling := hphase
      refine ⟨hserve hidle, ?_⟩
      rw [hphase] at hfits
      rw [hnext]
      exact fun howed ↦ (hfits howed).idles hidle (by rw [hnext]; rfl)
    | false => exact fits_closing (hserve hidle) (closing_pollReceived m s)

def arrived (sql : SQL γ) (x : Step γ) : List FrontendMessage :=
  match x.event with
  | .message .terminate _ => []
  | .message msg env => if answered sql env msg x.before then [] else [msg]
  | _ => []

/-- The client message that a step passes on: at once if there is a backend, otherwise once there is one
and the client's settings are replayed on it. -/
def passedOn (sql : SQL γ) (x : Step γ) : List FrontendMessage :=
  match x.before.phase, x.event with
  | .top, .message _ _ => if x.before.bConn.isSome then arrived sql x else []
  | .acquiring msg _, .acquired _ => if sql.replayQuery x.before.guc = [] then [msg] else []
  | .replaying msg, .received (.readyForQuery _) _ => [msg]
  | _, _ => []

theorem awaited_idle {phase : Phase} (h : waiting phase = false) : (awaited phase).toList = [] := by
  rw [awaited_eq_none h]
  rfl

variable {x : Step γ}

theorem arrived_quiet (h : traffic x.event = false) : arrived sql x = [] := by
  unfold arrived
  cases hevent : x.event with
  | message msg env =>
    rw [hevent] at h
    cases msg <;> first | rfl | cases h
  | _ => rfl

theorem arrived_message (hmsg : msg ≠ .terminate) (h : x.event = .message msg env) :
    arrived sql x = if answered sql env msg x.before then [] else [msg] := by
  unfold arrived
  rw [h]
  cases msg with
  | terminate => exact absurd rfl hmsg
  | _ => rfl

theorem passedOn_quiet (h : traffic x.event = false) (hphase : waiting x.before.phase = false) :
    passedOn sql x = [] := by
  have harrived : arrived sql x = [] := arrived_quiet h
  unfold passedOn
  split
  · rw [harrived, ite_self]
  all_goals simp_all [waiting]

theorem waiting_of_over {phase : Phase} (h : isOver phase = true) : waiting phase = false := by
  cases phase <;> first | rfl | cases h

theorem passedOn_handled (hphase : s.phase = .top) (hmsg : msg ≠ .terminate)
    (hguard : heeded sql s (.message msg env) = true) (h : Outcome sql env msg s r) :
    arrived sql ⟨s, .message msg env, r.1, r.2⟩ =
      passedOn sql ⟨s, .message msg env, r.1, r.2⟩ ++ (awaited r.1.phase).toList := by
  have harrived : arrived sql ⟨s, .message msg env, r.1, r.2⟩ = if answered sql env msg s then [] else [msg] :=
    arrived_message hmsg rfl
  have hpassed : passedOn sql ⟨s, .message msg env, r.1, r.2⟩ =
      if s.bConn.isSome then arrived sql ⟨s, .message msg env, r.1, r.2⟩ else [] := by
    unfold passedOn
    simp only [hphase]
  rw [hpassed, harrived]
  cases h with
  | answered hanswered hrests =>
    rw [hanswered, hrests.phase, if_pos rfl, ite_self]
    rfl
  | waits hanswered hnone _ pool =>
    rw [hanswered, hnone]
    rfl
  | forwarded hanswered hsome _ =>
    rw [hanswered, hsome, awaited_idle (waiting_forwardMessage msg _), List.append_nil, if_pos rfl]
  | ignored hanswered hnone hneeds _ =>
    rcases (heeded_message hmsg hguard hanswered).2 with hsome | hneeds'
    · rw [hnone] at hsome
      cases hsome
    · rw [hneeds] at hneeds'
      cases hneeds'

theorem passedOn_of_step (hguard : heeded sql s input = true) (hstep : s.step sql input = some r)
    (hopen : closing r.1.phase = false) :
    (awaited s.phase).toList ++ arrived sql ⟨s, input, r.1, r.2⟩ =
      passedOn sql ⟨s, input, r.1, r.2⟩ ++ (awaited r.1.phase).toList := by
  have hquiet (htraffic : traffic input = false) (hphase : waiting s.phase = false)
      (hnext : waiting r.1.phase = false) : (awaited s.phase).toList ++ arrived sql ⟨s, input, r.1, r.2⟩ =
        passedOn sql ⟨s, input, r.1, r.2⟩ ++ (awaited r.1.phase).toList := by
    have harrived : arrived sql ⟨s, input, r.1, r.2⟩ = [] := arrived_quiet htraffic
    have hpassed : passedOn sql ⟨s, input, r.1, r.2⟩ = [] := passedOn_quiet htraffic hphase
    rw [awaited_idle hphase, awaited_idle hnext, harrived, hpassed]
  cases turn_of_step hstep with
  | stays hinput hphase hidle =>
    exact hquiet (traffic_of_busy (busy_of_still hinput)) (quiet_of_untroubled hphase).2 hidle.phase
  | leaves _ _ _ hnext =>
    rw [hnext] at hopen
    cases hopen
  | timedOut hphase ok => exact hquiet rfl (of_phase hphase rfl) (idles_queryTimeout ok s).phase
  | resets hinput hover hidle => exact hquiet hinput (waiting_of_over hover) hidle.phase
  | greeted hphase params key ok =>
    refine hquiet rfl ?_ (remains_greet params key ok s).phase
    rcases hphase with hphase | hphase <;> exact of_phase hphase rfl
  | message hphase hmsg =>
    obtain ⟨-, rfl⟩ := message_of_step hstep
    rw [awaited_idle (of_phase hphase rfl)]
    exact passedOn_handled hphase hmsg hguard (outcome_of_message hmsg _ s)
  | @acquired msg pool hphase b =>
    simp only [arrived, passedOn, hphase, Session.attach]
    split
    · rw [awaited_idle (waiting_forwardMessage msg _)]
      rfl
    · rfl
  | replaySent hphase ok =>
    rw [Session.flush_phase, hphase]
    simp only [arrived, passedOn, hphase]
    rfl
  | @replayWaits msg hphase m ok hm =>
    simp only [arrived, passedOn, hphase]
    cases m with
    | readyForQuery txStatus => cases hm
    | _ => rfl
  | @replayed msg hphase txStatus ok =>
    simp only [arrived, passedOn, hphase, awaited_idle (waiting_forwardMessage msg _)]
    rfl
  | sent hphase ok => exact hquiet rfl (of_phase hphase rfl) (idles_startDrain ok _).phase
  | withheldCC hphase | withheldPC hphase => exact hquiet rfl (of_phase hphase rfl) (of_phase hphase rfl)
  | drained hphase m ok => exact hquiet rfl (of_phase hphase rfl) (idles_passOn (of_phase hphase rfl) m ok).phase
  | cutOff hphase ok => exact hquiet rfl (of_phase hphase rfl) rfl
  | polled hphase m ok => exact hquiet rfl (of_phase hphase rfl) (idles_pollReceived hphase m ok).phase

end Steps

section Runs

theorem closing_step {input : Input} (hstep : s.step sql input = some r) (h : closing s.phase = true) :
    closing r.1.phase = true := by
  cases turn_of_step hstep with
  | stays _ hphase =>
    have hover := (quiet_of_untroubled hphase).1
    rw [over_of_closing h] at hover
    cases hover
  | leaves _ _ _ hnext => exact hnext
  | resets _ _ _ _ hleaves =>
    rw [h] at hleaves
    exact hleaves.resolve_left nofun
  | greeted hphase =>
    rcases hphase with hphase | hphase <;>
    · rw [hphase] at h
      cases h
  | timedOut hphase | message hphase | acquired hphase | replaySent hphase | replayWaits hphase
  | replayed hphase | sent hphase | withheldCC hphase | withheldPC hphase | drained hphase | cutOff hphase
  | polled hphase =>
    rw [hphase] at h
    cases h

structure Kept (sql : SQL γ) (c : History γ) : Prop where
  fits : Fits (c.past.foldl (fun owed x ↦ owedAfter sql x.before x.event owed) false) c.current
  books : closing c.current.phase = false →
    forwards (c.past.flatMap Entry.output) <+
      written c.current.id (c.past.flatMap Entry.output) ++ buffered c.current
  passed : closing c.current.phase = false →
    c.past.flatMap (arrived sql) = c.past.flatMap (passedOn sql) ++ (awaited c.current.phase).toList

theorem kept_step {c : History γ} {input : Input} (hc : Kept sql c) (hguard : heeded sql c.current input = true)
    (hstep : c.current.step sql input = some r) :
    Kept sql ⟨r.1, c.past ++ [⟨c.current, input, r.1, r.2⟩]⟩ := by
  have hopen (hr : closing r.1.phase = false) : closing c.current.phase = false := by
    by_contra h
    rw [closing_step hstep (by simpa using h)] at hr
    cases hr
  refine ⟨?_, fun hr ↦ ?_, fun hr ↦ ?_⟩
  · rw [List.foldl_append]
    exact fits_of_step hc.fits hguard hstep
  · have hcarries := carries_of_step hc.fits hstep hr
    have hbooks := hcarries.books _ _ (hc.books (hopen hr))
    rw [List.flatMap_append, List.flatMap_singleton, forwards_append, written_append, hcarries.id]
    exact hbooks
  · have hpassed := passedOn_of_step hguard hstep hr
    rw [List.flatMap_append, List.flatMap_append, List.flatMap_singleton, List.flatMap_singleton,
      hc.passed (hopen hr), List.append_assoc, List.append_assoc, hpassed]

def fromClient : Input → Bool
  | .message .. => true
  | _ => false

theorem owed_kept {after : List (Step γ)} (h : ∀ y ∈ after, fromClient y.event = false) (owed : Bool) :
    after.foldl (fun owed x ↦ owedAfter sql x.before x.event owed) owed = owed := by
  induction after with
  | nil => rfl
  | cons y after ih =>
    have hy : owedAfter sql y.before y.event owed = owed := by
      cases hevent : y.event with
      | message msg env =>
        have hy := h y (.head _)
        rw [hevent] at hy
        cases hy
      | _ => rfl
    rw [List.foldl_cons, hy]
    exact ih fun z hz ↦ h z (.tail _ hz)

/-- In every run of `Serve` or `serveRaw` in which each message is heeded, whenever the session waits for its
client again after a `Query`, `Sync`, `Flush` or `FunctionCall` that the router has not answered itself, all
that the client has sent and the router has not answered was passed on, what was passed on has been written
to the backends in that order, and neither buffer holds any of it. -/
theorem requests_transmitted {id : ℕ} {cfg : PooledConfig} {inputs : List Input} {c : History γ}
    (hrun : Run (recorded (Session.step sql)) (fun c input ↦ heeded sql c.current input)
      (start (Session.new sql id cfg)) inputs c)
    {before after : List (Step γ)} {x : Step γ} (hsplit : c.past = before ++ x :: after)
    (hevent : x.event = .message msg env) (hasks : asks msg = true) (hanswered : answered sql env msg x.before = false)
    (hafter : ∀ y ∈ after, fromClient y.event = false) (htop : c.current.phase = .top) :
    c.past.flatMap (arrived sql) = c.past.flatMap (passedOn sql) ∧
      forwards (c.past.flatMap Entry.output) <+ written c.current.id (c.past.flatMap Entry.output) ∧
      Cleared c.current := by
  have hkept : Kept sql c := by
    refine recorded_invariant (fun c input r hc hguard hstep ↦ kept_step hc hguard hstep) ?_ hrun
    exact ⟨⟨fun _ ↦ rfl, rfl⟩, fun _ ↦ List.nil_sublist _, fun _ ↦ rfl⟩
  have hopen : closing c.current.phase = false := htop ▸ rfl
  have howed : c.past.foldl (fun owed x ↦ owedAfter sql x.before x.event owed) false = true := by
    rw [hsplit, List.foldl_append, List.foldl_cons, owed_kept hafter, hevent, owedAfter, hasks, hanswered]
    rfl
  have hfits := hkept.fits.phase
  rw [htop] at hfits
  have hcleared := hfits howed
  refine ⟨?_, ?_, hcleared⟩
  · have hpassed := hkept.passed hopen
    rwa [htop, awaited_idle rfl, List.append_nil] at hpassed
  · have hbooks := hkept.books hopen
    rwa [hcleared.buffered, List.append_nil] at hbooks

def inTransaction : List Input :=
  welcomed ++ [.message (.query (ascii "BEGIN")) calm, .acquired (.dialed 7 none), .sent true,
    .received (.readyForQuery txInBlock) true]

theorem requests_transmitted_query :
    ∃ c before x after, Run (recorded (Session.step plainSQL)) (fun c input ↦ heeded plainSQL c.current input)
        (start (Session.new plainSQL 0 pooling)) inTransaction c ∧
      c.past = before ++ x :: after ∧ x.event = .message (.query (ascii "BEGIN")) calm ∧
      c.current.bConn.isSome = true ∧
      forwards (c.past.flatMap Entry.output) <+ written c.current.id (c.past.flatMap Entry.output) ∧
      Cleared c.current := by
  have hrun : Run (recorded (Session.step plainSQL)) (fun c input ↦ heeded plainSQL c.current input)
      (start (Session.new plainSQL 0 pooling)) inTransaction _ := run_of_exec rfl
  have hdone := requests_transmitted hrun (rfl : _ = [_, _] ++ _ :: [_, _, _]) rfl rfl rfl (by simp [fromClient]) rfl
  exact ⟨_, [_, _], _, [_, _, _], hrun, rfl, rfl, rfl, hdone.2.1, hdone.2.2⟩

/-- A client that describes its statement and asks for what there is so far. The router does not write the
batch. -/
theorem flush_untransmitted :
    ∃ c before x, Run (recorded (Session.step plainSQL)) anyStep (start (Session.new plainSQL 0 pooling))
        (welcomed ++ [.message (.parse (ascii "s") (ascii "SELECT 1") []) calm, .acquired (.dialed 7 none),
          .message (.describe 0x53 (ascii "s")) calm, .message .flush calm]) c ∧
      c.past = before ++ [x] ∧ x.event = .message .flush calm ∧ answered plainSQL calm .flush x.before = false ∧
      c.current.phase = .top ∧
      forwards (c.past.flatMap Entry.output) =
        [(7, .parse (ascii "s") (ascii "SELECT 1") []), (7, .describe 0x53 (ascii "s")), (7, .flush)] ∧
      written 0 (c.past.flatMap Entry.output) = [] ∧ ¬ Cleared c.current := by
  refine ⟨_, _, _, run_of_exec rfl, rfl, rfl, rfl, rfl, rfl, rfl, fun h ↦ ?_⟩
  have hempty := h.sendBuf rfl _ rfl
  cases hempty

end Runs

end PgRouter.Client.Transmission
