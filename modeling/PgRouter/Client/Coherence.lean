import PgRouter.Client.Seats
import PgRouter.Client.Supplies

namespace PgRouter.Client.Coherence

open Library.Leasing Library.Records Library.Runs Protocol Prepared Servers Handler Sharing Handling Attachment Turns
  Exchange Status Statements Seats Supplies

section Sessions

variable {γ : Type} {sql : SQL γ} {P : Policy} {s s' : Session γ} {r : Res γ} {b b' : Backend}
  {far far' : Far} {msg : FrontendMessage} {told : List UInt8}

/-- Once the far end has completed what is in the send buffer, it has every statement of the cache. A
connection that is broken is of no concern. -/
structure Backed (P : Policy) (b : Backend) (far : Far) : Prop where
  tidied : Tidied P b.prepared
  stocked : b.peer.broken = false → Stocked P b.prepared (provided far.statements (b.sendBuf.map Prod.snd))

def Owns (sql : SQL γ) (P : Policy) (s : Session γ) : Prop :=
  ∃ c, s.prepCache = some c ∧ Named P c ∧ ∀ msg, awaited s.phase = some msg → Noted sql P c msg

structure Minds (sql : SQL γ) (P : Policy) (s : Session γ) (far : Far) : Prop where
  raw : s.cfg.rawPassthrough = false
  owns : Owns sql P s
  tidied : ∀ b, s.bConn = some b → Tidied P b.prepared
  backed : isOver s.phase = false → ∀ b, s.bConn = some b → Backed P b far

theorem Minds.of_backed (hraw : s.cfg.rawPassthrough = false) (howns : Owns sql P s)
    (hbacked : ∀ b, s.bConn = some b → Backed P b far) : Minds sql P s far :=
  ⟨hraw, howns, fun b hb ↦ (hbacked b hb).tidied, fun _ ↦ hbacked⟩

theorem Backed.congr (h : Backed P b far) (hprepared : b'.prepared = b.prepared) (hbuf : b'.sendBuf = b.sendBuf)
    (hbroken : b'.peer.broken = false → b.peer.broken = false) : Backed P b' far := by
  refine ⟨?_, fun hb' ↦ ?_⟩
  · rw [hprepared]
    exact h.tidied
  · rw [hprepared, hbuf]
    exact h.stocked (hbroken hb')

theorem Owns.congr (h : Owns sql P s) (hprep : s'.prepCache = s.prepCache) (hphase : awaited s'.phase = none) :
    Owns sql P s' := by
  obtain ⟨c, hc, hnamed, -⟩ := h
  refine ⟨c, hprep.trans hc, hnamed, fun msg hmsg ↦ ?_⟩
  rw [hphase] at hmsg
  cases hmsg

theorem minds_idles (h : Minds sql P s far) (hidle : Idles told s r)
    (hover : isOver s.phase = false ∨ isOver r.1.phase = true ∨ r.1.bConn = none) : Minds sql P r.1 far where
  raw := (congrArg PooledConfig.rawPassthrough hidle.cfg).trans h.raw
  owns := h.owns.congr hidle.prepCache (awaited_eq_none hidle.phase)
  tidied := by
    intro b hb
    rcases hidle.conn with hnone | ⟨hbare, -⟩
    · rw [hnone] at hb
      cases hb
    · rw [hb, Option.map_some] at hbare
      obtain ⟨b', hb', heq⟩ := Option.map_eq_some_iff.mp hbare.symm
      have hprepared : (bare b').prepared = (bare b).prepared := congrArg Backend.prepared heq
      change Tidied P (bare b).prepared
      rw [← hprepared]
      exact h.tidied b' hb'
  backed := by
    intro hphase b hb
    rcases hidle.conn with hnone | ⟨-, -, hover' | hconn⟩
    · rw [hnone] at hb
      cases hb
    · rw [hphase] at hover'
      cases hover'
    · rcases hover with hover | hover | hnone
      · exact h.backed hover b (hconn ▸ hb)
      · rw [hphase] at hover
        cases hover
      · rw [hnone] at hb
        cases hb

theorem minds_forward {c : PrepareCache} (hraw : s.cfg.rawPassthrough = false) (hb : s.bConn = some b)
    (hback : Backed P b far) (hc : s.prepCache = some c) (hnamed : Named P c) (hnoted : Noted sql P c msg) :
    Minds sql P (s.forwardMessage sql msg).1 far := by
  have hint : Intercepted sql msg s b (s.forwardMessage sql msg) := intercepted_forwardMessage hraw hb msg
  have hsupplied : Supplied P b.prepared (provided far.statements (b.sendBuf.map Prod.snd))
      (interception sql msg s b) := by
    rw [interception, hc]
    exact supplied_intercept hnamed hback.tidied hnoted
  refine .of_backed ?_ ⟨_, ?_, hsupplied.named, ?_⟩ ?_
  · rw [hint.cfg]
    exact hraw
  · rw [hint.prepCache, hc]
    rfl
  · intro m hm
    rw [hint.phase] at hm
    split at hm <;> cases hm
  · intro b' hb'
    cases hint.conn.symm.trans hb'
    refine ⟨hsupplied.tidied, fun hbroken ↦ ?_⟩
    have hstocked := hsupplied.stocked (hback.stocked hbroken)
    rw [← provided_append] at hstocked
    simpa only [List.map_append, List.map_map, Function.comp_def, List.map_id'] using hstocked

theorem backed_ask (h : Backed P b far) (id : ℕ) (query : Text) :
    Backed P { b with sendBuf := b.sendBuf ++ [(id, .query query)] } far := by
  refine ⟨h.tidied, fun hbroken ↦ ?_⟩
  rw [List.map_append, provided_append]
  exact Stocked.harmless (m := .query query) (h.stocked hbroken) h.tidied rfl

theorem adopt_bConn (pool : ℕ) (hsplice : s.cfg.splice = true → b.sendBuf = []) :
    (s.adopt pool b).bConn = some b := by
  have hsame : (if s.cfg.splice && !s.cfg.rawPassthrough then { b with sendBuf := [] } else b) = b := by
    split
    · rename_i hs
      rw [← hsplice (Bool.and_eq_true_iff.mp hs).1]
    · rfl
  exact congrArg some hsame

theorem minds_attach {pool : ℕ} (h : Minds sql P s far') (hphase : s.phase = .acquiring msg pool)
    (hback : Backed P b far) (hsplice : s.cfg.splice = true → b.sendBuf = []) :
    Minds sql P (s.attach sql msg pool b).1 far := by
  obtain ⟨c, hc, hnamed, hnoted⟩ := h.owns
  have hmsg : Noted sql P c msg := hnoted msg (by rw [hphase]; rfl)
  have hadopt : (s.adopt pool b).bConn = some b := adopt_bConn pool hsplice
  unfold Session.attach
  split
  · exact minds_forward h.raw hadopt hback hc hnamed hmsg
  · refine .of_backed h.raw ⟨c, hc, hnamed, ?_⟩ ?_
    · rintro m ⟨⟩
      exact hmsg
    · intro b' hb'
      rw [Session.ask, hadopt] at hb'
      cases hb'
      exact backed_ask hback _ _

theorem backed_handles {peer : Peer} {verdicts : List Verdict} {q : Far × List (List BackendMessage)}
    (h : Backed P b far) (hbroken : peer.broken = false → b.peer.broken = false)
    (hhandles : b.peer.broken = false → far.handles (b.sendBuf.map Prod.snd) verdicts = some q)
    (hspares : b.peer.broken = false →
      far.throughout (spares fun name ↦ b.prepared.any fun c ↦ c.has name) (b.sendBuf.map Prod.snd) verdicts = true) :
    Backed P { b with sendBuf := [], peer := peer } q.1 := by
  refine ⟨h.tidied, fun hpeer ↦ ?_⟩
  have hb := hbroken hpeer
  intro c hc name hname
  obtain ⟨d, hd, hP⟩ := h.stocked hb c hc name hname
  refine ⟨d, ?_, hP⟩
  refine statements_handles (hhandles hb) (hspares hb) ?_ (fun _ hd ↦ hd) hd
  rw [hc]
  exact List.contains_iff_mem.mpr hname

section

variable (h : Minds sql P s far)

include h

section

variable (hover : isOver s.phase = false)

include hover

theorem Minds.congr (hcfg : s'.cfg = s.cfg)
    (hprep : s'.prepCache = s.prepCache) (hconn : s'.bConn = s.bConn) (hphase : awaited s'.phase = none) :
    Minds sql P s' far :=
  .of_backed ((congrArg PooledConfig.rawPassthrough hcfg).trans h.raw) (h.owns.congr hprep hphase)
    fun b hb ↦ h.backed hover b (hconn.symm.trans hb)

theorem minds_refused (env : Env) (code text : String) :
    Minds sql P (refused env code text s).1 far := h.congr hover rfl rfl rfl rfl

end

theorem minds_observed {o : Session γ} (hphase : s.phase = .top)
    (hobs : Observed sql msg s o) (hfits : Fits sql P msg) :
    Minds sql P o far ∧ ∃ c, o.prepCache = some c ∧ Named P c ∧ Noted sql P c msg := by
  obtain ⟨c, hc, hnamed, -⟩ := h.owns
  have hprep : o.prepCache = some (notePrep sql msg c) := by
    rw [hobs.prepCache h.raw, hc]
    rfl
  have howns := named_notePrep hnamed hfits
  refine ⟨.of_backed ?_ ⟨_, hprep, howns, ?_⟩ ?_, ⟨_, hprep, howns, noted_notePrep hfits c⟩⟩
  · rw [hobs.cfg]
    exact h.raw
  · intro m hm
    rw [hobs.phase, hphase] at hm
    cases hm
  · intro b hb
    exact h.backed (by rw [hphase]; rfl) b (hobs.bConn ▸ hb)

theorem minds_noteWrite {env : Env} {info : SQLOp × Bool} (hphase : s.phase = .top) :
    Minds sql P (s.noteWrite env info) far := by
  have hframe := frame_noteWrite env info s
  refine h.congr (by rw [hphase]; rfl) hframe.cfg (prepCache_noteWrite env info s) hframe.bConn ?_
  rw [hframe.phase, hphase]
  rfl

theorem minds_handled {env : Env} (hphase : s.phase = .top) (hfits : Fits sql P msg)
    (hhandled : Handling.Handled sql env msg s r) : Minds sql P r.1 far := by
  have htop {o : Session γ} (hobs : Observed sql msg s o) : isOver o.phase = false := by
    rw [hobs.phase, hphase]
    rfl
  have hnoted {o : Session γ} (hobs : Observed sql msg s o) :
      Minds sql P (o.noteWrite env (infoOf sql s.cfg msg)) far ∧
        isOver (o.noteWrite env (infoOf sql s.cfg msg)).phase = false := by
    refine ⟨minds_noteWrite (minds_observed h hphase hobs hfits).1 (hobs.phase.trans hphase), ?_⟩
    rw [(frame_noteWrite env _ o).phase]
    exact htop hobs
  cases hhandled with
  | @gated o hobs hgated code text =>
    exact minds_refused (minds_observed h hphase hobs hfits).1 (htop hobs) env code text
  | @failedOver o hnoticed hobs hgated hneeds hnone hpool hhealth code text =>
    exact minds_refused (hnoted hobs).1 (hnoted hobs).2 env code text
  | @acquires o hobs =>
    obtain ⟨hminds, c, hc, hnamed, hmsg⟩ := minds_observed h hphase hobs hfits
    refine .of_backed (hnoted hobs).1.raw ⟨c, (prepCache_noteWrite env _ o).trans hc, hnamed, ?_⟩ ?_
    · rintro m ⟨⟩
      exact hmsg
    · exact (hnoted hobs).1.backed (hnoted hobs).2
  | @forwards o hobs hgated hsome =>
    obtain ⟨b, hb⟩ := Option.isSome_iff_exists.mp hsome
    obtain ⟨hminds, c, hc, hnamed, hmsg⟩ := minds_observed h hphase hobs hfits
    refine minds_forward (hnoted hobs).1.raw ?_ (h.backed (by rw [hphase]; rfl) b hb)
      ((prepCache_noteWrite env _ o).trans hc) hnamed hmsg
    exact ((frame_noteWrite env _ o).bConn.trans hobs.bConn).trans hb
  | @answers o hobs => exact (hnoted hobs).1.congr (hnoted hobs).2 rfl rfl rfl rfl
  | @ignores o hobs => exact minds_idles (hnoted hobs).1 (idles_loop _) (.inl (hnoted hobs).2)

theorem minds_input {input : Input} (hsent : ∀ ok, input ≠ .sent ok)
    (hacquired : ∀ b, input ≠ .acquired b) (hconn : ∀ m ok, input = .received m ok → ∃ b, s.bConn = some b)
    (hfits : ∀ msg env, input = .message msg env → Fits sql P msg)
    (hstep : s.step sql input = some r) : Minds sql P r.1 far := by
  cases turn_of_step hstep with
  | stays _ hphase hidle => exact minds_idles h hidle (.inl (quiet_of_untroubled hphase).1)
  | leaves _ hover hidle => exact minds_idles h hidle (.inl hover)
  | timedOut hphase ok => exact minds_idles h (idles_queryTimeout ok s) (.inl (by rw [hphase]; rfl))
  | resets _ _ hidle hnext => exact minds_idles h hidle (.inr (hnext.imp_right And.right))
  | greeted hphase params key ok =>
    have hremains := remains_greet params key ok s
    have hover : isOver s.phase = false := by rcases hphase with hphase | hphase <;> (rw [hphase]; rfl)
    refine .of_backed ?_ (h.owns.congr hremains.prepCache (awaited_eq_none hremains.phase)) ?_
    · rw [hremains.cfg]
      exact h.raw
    · intro b hb
      refine h.backed hover b ?_
      cases ok <;> exact hb
  | message hphase hmsg hhandled => exact minds_handled h hphase (hfits _ _ rfl) hhandled
  | acquired hphase b => exact absurd rfl (hacquired b)
  | replaySent hphase ok => exact absurd rfl (hsent ok)
  | replayWaits => exact h
  | @replayed msg hphase txStatus ok =>
    obtain ⟨c, hc, hnamed, hnoted⟩ := h.owns
    obtain ⟨b, hb⟩ := hconn _ ok rfl
    exact minds_forward h.raw hb (h.backed (by rw [hphase]; rfl) b hb) hc hnamed (hnoted msg (by rw [hphase]; rfl))
  | sent hphase ok => exact absurd rfl (hsent ok)
  | withheldCC hphase | withheldPC hphase => exact ⟨h.raw, h.owns, h.tidied, h.backed⟩
  | drained hphase m ok =>
    exact minds_idles h (idles_passOn (by rw [hphase]; rfl) m ok) (.inl (by rw [hphase]; rfl))
  | cutOff hphase ok => exact minds_idles h (idles_loop s) (.inl (by rw [hphase]; rfl))
  | polled hphase m ok => exact minds_idles h (idles_pollReceived hphase m ok) (.inl (by rw [hphase]; rfl))

end

variable {reply : List BackendMessage}

theorem broken_of_hears {batch : List FrontendMessage} {p p' : Peer} {input : Input}
    (h : hears anything batch reply p input = some p') (hp : p'.broken = false) : p.broken = false := by
  cases input with
  | sent ok =>
    simp only [hears] at h
    split at h
    · cases h
      exact hp
    · exact Bool.not_eq_true _ ▸ ‹¬p.broken = true›
  | received m ok =>
    simp only [hears] at h
    split at h
    · rename_i hnext
      exact hnext.1
    · cases h
  | sendFailed err ok | receiveEOF ok | receiveFailed err ok => obtain rfl := Option.some.inj h; cases hp
  | _ => obtain rfl := Option.some.inj h; exact hp

theorem minds_talk {input : Input} (h : Minds sql P s far)
    (htalk : talk anything reply input s = some s') : Minds sql P s' far := by
  rcases talk_cases htalk with ⟨-, rfl⟩ | ⟨b, peer, hb, hpeer, rfl⟩
  · exact h
  · refine ⟨h.raw, h.owns, fun b' hb' ↦ ?_, fun hover b' hb' ↦ ?_⟩
    · cases hb'
      exact h.tidied b hb
    · cases hb'
      exact (h.backed hover b hb).congr rfl rfl (broken_of_hears hpeer)

theorem Minds.rephase (phase : Phase) (h : Minds sql P s far)
    (hawaited : ∀ m, awaited phase = some m → awaited s.phase = some m)
    (hover : isOver phase = false → isOver s.phase = false) : Minds sql P { s with phase } far := by
  obtain ⟨c, hc, hnamed, hnoted⟩ := h.owns
  exact ⟨h.raw, ⟨c, hc, hnamed, fun m hm ↦ hnoted m (hawaited m hm)⟩, h.tidied,
    fun hphase ↦ h.backed (hover hphase)⟩

theorem flush_eq (s : Session γ) : s.flush.1 = { s with bConn := s.bConn.map bare } := by
  unfold Session.flush
  split
  · rename_i hnone
    rw [hnone, Option.map_none, ← hnone]
  · rename_i b hb
    rw [hb]
    rfl

theorem backed_empty (hempty : ∀ c, b.prepared = some c → c.order = [])
    (hequipped : P.equips = true → b.prepared.isSome = true) : Backed P b far := by
  refine ⟨⟨fun c hc ↦ ⟨?_, ?_⟩, hequipped⟩, fun _ c hc name hname ↦ ?_⟩
  · rw [hempty c hc]
    exact List.nodup_nil
  · rw [hempty c hc]
    exact List.not_mem_nil
  · rw [hempty c hc] at hname
    cases hname

theorem backed_cleared (hequipped : P.equips = true → b.prepared.isSome = true) (far : Far) :
    Backed P { b with prepared := b.prepared.map PreparedCache.clear } far := by
  refine backed_empty (fun c hc ↦ ?_) fun h ↦ (Option.isSome_map ..).trans (hequipped h)
  obtain ⟨c', -, rfl⟩ := Option.map_eq_some_iff.mp hc
  rfl

end Sessions

section Seating

variable {γ : Type} {sql : SQL γ} {P : Policy} {t : Seat γ} {e : Seats.Event} {q : Seat γ × List Act}

/-- The batch is lost with its connection, or the far end completes the `Parse` of every cached statement in
it and runs no SQL that prepares or deallocates one. While the backend is reset, anything goes. -/
def sparing (t : Seat γ) (verdicts : List Verdict) : Bool :=
  isOver t.session.phase || t.session.bConn.all fun b ↦ b.peer.broken ||
    t.far.throughout (spares fun name ↦ b.prepared.any fun c ↦ c.has name) (b.sendBuf.map Prod.snd) verdicts

/-- A backend that comes with messages in its send buffer does not come to a splice reader. -/
def unspliced (t : Seat γ) (b : Backend) : Bool :=
  match t.session.phase with
  | .acquiring .. => !t.session.cfg.splice || b.sendBuf.isEmpty
  | _ => true

def keepsCache (t : Seat γ) : Seats.Event → Bool
  | .sent _ verdicts => sparing t verdicts
  | .acquired b _ => unspliced t b
  | _ => true

variable {h : Far × List (List BackendMessage)} {b : Backend} {far : Far} {s' : Session γ} {ok : Bool} {r : Res γ}
  {verdicts : List Verdict}

theorem minds_heard (hminds : Minds sql P t.session t.far) (hover : isOver t.session.phase = false)
    (hsparing : sparing t verdicts = true) (hheard : heard t verdicts = some h)
    (htalk : talk anything h.2.flatten (.sent ok) t.session = some s') : Minds sql P s'.flush.1 h.1 := by
  unfold heard at hheard
  rcases talk_cases htalk with ⟨hnone, rfl⟩ | ⟨b, peer, hb, hpeer, rfl⟩
  · rw [Session.flush, hnone]
    refine .of_backed hminds.raw hminds.owns fun b hb ↦ ?_
    rw [hnone] at hb
    cases hb
  · refine .of_backed hminds.raw hminds.owns fun b' hb' ↦ ?_
    cases hb'
    rw [hb] at hheard
    rw [sparing, hover, hb, Option.all_some, Bool.false_or] at hsparing
    have hout : outgoing t.session b = b.sendBuf.map Prod.snd := by
      unfold outgoing
      rw [hminds.raw]
      split <;> rfl
    have hhandles (hbroken : b.peer.broken = false) : t.far.handles (b.sendBuf.map Prod.snd) verdicts = some h := by
      simpa only [hbroken, hout, Bool.false_eq_true, if_false] using hheard
    have hspares (hbroken : b.peer.broken = false) : t.far.throughout
        (spares fun name ↦ b.prepared.any fun c ↦ c.has name) (b.sendBuf.map Prod.snd) verdicts = true := by
      simpa only [hbroken, Bool.false_or] using hsparing
    exact backed_handles (b := b) (hminds.backed hover b hb) (broken_of_hears hpeer) hhandles hspares

def GivesBacked (P : Policy) (far : Far) (acts : List Act) : Prop :=
  ∀ pool b, .put pool b ∈ acts → Backed P b far

theorem givesBacked_of_noPuts {acts : List Act} (h : NoPuts acts) : GivesBacked P far acts :=
  fun pool b hput ↦ absurd hput (h pool b)

theorem minds_sent (hminds : Minds sql P t.session t.far) (hsparing : sparing t verdicts = true)
    (hheard : heard t verdicts = some h) (htalk : talk anything h.2.flatten (.sent ok) t.session = some s')
    (hstep : s'.step sql (.sent ok) = some r) : Minds sql P r.1 h.1 ∧ GivesBacked P h.1 r.2 := by
  have hphases : s'.phase = t.session.phase := by
    rcases talk_cases htalk with ⟨-, rfl⟩ | ⟨b, peer, -, -, rfl⟩ <;> rfl
  have hover {phase : Phase} (hphase : s'.phase = phase) (h : isOver phase = false) :
      isOver t.session.phase = false := by
    rw [← hphases, hphase]
    exact h
  cases steps_of_step hstep with
  | @replaySent msg hphase _ =>
    have hflushed := minds_heard hminds (hover hphase rfl) hsparing hheard htalk
    rw [flush_eq] at hflushed
    refine ⟨?_, givesBacked_of_noPuts (noPuts_flush _)⟩
    rw [flush_eq]
    refine hflushed.rephase (.replaying msg) (fun m hm ↦ ?_) fun _ ↦ ?_
    · rw [hphase]
      exact hm
    · rw [hphase]
      rfl
  | sent hphase _ =>
    have hflushed := minds_heard hminds (hover hphase rfl) hsparing hheard htalk
    have hwrite : s'.writeBatch = s'.flush := by
      have hraw : s'.cfg.rawPassthrough = false := (minds_talk hminds htalk).raw
      unfold Session.writeBatch
      rw [hraw, if_neg Bool.false_ne_true]
    have hphase' : isOver s'.flush.1.phase = false := by
      rw [flush_eq]
      exact congrArg isOver hphase
    rw [hwrite]
    have hdrains : Minds sql P (s'.flush.1.startDrain ok).1 h.1 :=
      minds_idles hflushed (idles_startDrain ok _) (.inl hphase')
    refine ⟨hdrains, fun pool b hput ↦ ?_⟩
    rcases List.mem_append.mp hput with hput | hput
    · exact absurd hput (noPuts_flush s' pool b)
    · exact hflushed.backed hphase' b (put_startDrain hput)
  | @resetSent leaving hphase _ =>
    have hreset := (minds_talk hminds htalk).rephase (.resetting leaving) (fun m hm ↦ by cases hm)
      fun hover ↦ by cases hover
    refine ⟨?_, givesBacked_of_noPuts (noPuts_flush _)⟩
    rw [flush_eq]
    refine ⟨hreset.raw, hreset.owns, fun b hb ↦ ?_, fun hover ↦ by cases hover⟩
    obtain ⟨b', hb', rfl⟩ := Option.map_eq_some_iff.mp hb
    exact hreset.tidied b' hb'
  | goodbye hphase hinput | pollLost hphase hinput | replayLost hphase hinput | resetLost hphase hinput =>
    cases hinput

theorem minds_acquired (hminds : Minds sql P t.session t.far) (hback : Backed P b far)
    (hspliced : unspliced t b = true) (hstep : t.session.step sql (.acquired b) = some r) :
    Minds sql P r.1 (farOf t far) ∧ GivesBacked P far r.2 := by
  cases steps_of_step hstep with
  | probed hphase b =>
    refine ⟨?_, fun pool b' hput ↦ ?_⟩
    · rw [farOf, hphase]
      exact hminds.rephase .greeting (fun m hm ↦ by cases hm) fun _ ↦ by rw [hphase]; rfl
    · cases List.mem_singleton.mp hput
      exact hback
  | @acquired msg pool hphase b =>
    have hsplice : t.session.cfg.splice = true → b.sendBuf = [] := by
      intro hs
      simpa [unspliced, hphase, hs] using hspliced
    refine ⟨?_, givesBacked_of_noPuts (noPuts_attach msg pool b t.session)⟩
    rw [farOf, hphase]
    exact minds_attach hminds hphase hback hsplice
  | goodbye hphase hinput | pollLost hphase hinput | replayLost hphase hinput | resetLost hphase hinput =>
    cases hinput

theorem backed_returned {input : Input} {reply : List BackendMessage} {s : Session γ} (hminds : Minds sql P s' far)
    (hsent : ∀ ok, input ≠ .sent ok) (hacquired : ∀ b, input ≠ .acquired b)
    (htalk : talk anything reply input s = some s') (hstep : s'.step sql input = some r) : GivesBacked P far r.2 := by
  intro pool b hput
  cases returned_of_step hstep hput with
  | probed => exact absurd rfl (hacquired b)
  | whole hb hover => exact hminds.backed hover b hb
  | @sent ok _ hb hover => exact absurd rfl (hsent ok)
  | @unsent err ok b hb hover =>
    -- The batch was not sent because the connection is lost.
    refine ⟨(hminds.backed hover b hb).tidied, fun hbroken ↦ ?_⟩
    rcases talk_cases htalk with ⟨hnone, rfl⟩ | ⟨b', peer, -, hpeer, rfl⟩
    · rw [hnone] at hb
      cases hb
    · cases hb
      cases hpeer
      cases hbroken
  | cleared hb => exact backed_cleared (hminds.tidied _ hb).equipped far

theorem minds_step (hminds : Minds sql P t.session t.far) (hkeeps : keepsCache t e = true)
    (hlent : ∀ b far, e = .acquired b far → Backed P b far)
    (hfits : ∀ msg env, e = .input (.message msg env) → Fits sql P msg) (hstep : Seats.step sql t e = some q) :
    Minds sql P q.1.session q.1.far ∧ ∀ x ∈ (trade sql).returned e q.1 q.2, Backed P x.2.1 x.2.2 := by
  have hgives {far : Far} {acts : List Act} (h : GivesBacked P far acts) :
      ∀ x ∈ (puts acts).map fun p ↦ (p.1, p.2, far), Backed P x.2.1 x.2.2 := by
    intro x hx
    obtain ⟨p, hp, rfl⟩ := List.mem_map.mp hx
    exact h _ _ (mem_puts hp)
  cases moves_of_step hstep with
  | @input i s' r hsent hacquired htalk hsteps =>
    have htalked := minds_talk hminds htalk
    refine ⟨minds_input htalked hsent hacquired ?_ (fun msg env h ↦ hfits msg env (congrArg _ h)) hsteps,
      hgives (backed_returned htalked hsent hacquired htalk hsteps)⟩
    rintro m ok rfl
    obtain ⟨b, rest, -, -, -, rfl⟩ := talk_received htalk
    exact ⟨_, rfl⟩
  | sent hheard htalk hsteps =>
    obtain ⟨hnext, hback⟩ := minds_sent hminds hkeeps hheard htalk hsteps
    exact ⟨hnext, hgives hback⟩
  | acquired hsteps =>
    obtain ⟨hnext, hback⟩ := minds_acquired hminds (hlent _ _ rfl) hkeeps hsteps
    exact ⟨hnext, hgives hback⟩
  | notice hm =>
    refine ⟨⟨hminds.raw, hminds.owns, fun b hb ↦ ?_, fun hover b hb ↦ ?_⟩, List.forall_mem_nil _⟩
    · obtain ⟨b', hb', rfl⟩ := Option.map_eq_some_iff.mp hb
      exact hminds.tidied b' hb'
    · obtain ⟨b', hb', rfl⟩ := Option.map_eq_some_iff.mp hb
      exact (hminds.backed hover b' hb').congr rfl rfl id

/-- The sessions cache statements. -/
def sparingly : Terms PooledConfig (Seat γ) Seats.Event ℤ where
  joins cfg := cfg.preparedCache && !cfg.rawPassthrough
  acts := keepsCache
  makes _ := true

theorem minds_new {cfg : PooledConfig} (hcfg : (cfg.preparedCache && !cfg.rawPassthrough) = true) (i : ℕ) (far : Far) :
    Minds sql P (Session.new sql i cfg) far := by
  refine .of_backed ?_ ⟨{}, if_pos hcfg, List.forall_mem_nil _, fun msg hmsg ↦ by cases hmsg⟩ fun b hb ↦ by cases hb
  exact Bool.not_eq_true' _ ▸ (Bool.and_eq_true_iff.mp hcfg).2

theorem backed_dialed {size : ℤ} (hsize : P.equips = true → 0 ≤ size) (n : ℕ) (far : Far) :
    Backed P (.dialed n (dialedCache size)) far := by
  refine backed_empty (fun c hc ↦ ?_) fun h ↦ ?_
  · change dialedCache size = some c at hc
    unfold dialedCache at hc
    split at hc
    · cases hc
      rfl
    · cases hc
  · change (dialedCache size).isSome = true
    rw [dialedCache, if_pos (hsize h)]
    rfl

/-- Every statement in the cache of the attached backend is there, once the backend has got all that was
written to it. While the backend is reset, the cache waits for the answer. -/
def coherent (t : Seat γ) : Bool :=
  t.session.bConn.all fun b ↦ isOver t.session.phase || b.peer.broken || !b.sendBuf.isEmpty ||
    b.prepared.all fun c ↦ c.order.all fun name ↦ (t.far.statements name).isSome

theorem coherent_of_minds (h : Minds sql P t.session t.far) : coherent t = true := by
  unfold coherent
  cases hb : t.session.bConn with
  | none => rfl
  | some b =>
    rw [Option.all_some]
    cases hover : isOver t.session.phase with
    | true => rfl
    | false =>
      cases hbroken : b.peer.broken with
      | true => rfl
      | false =>
        cases hbuf : b.sendBuf with
        | cons p buf => rfl
        | nil =>
          cases hc : b.prepared with
          | none => rfl
          | some c =>
            refine List.all_eq_true.mpr fun name hname ↦ ?_
            obtain ⟨d, hd, -⟩ := (h.backed hover b hb).stocked hbroken c hc name hname
            rw [hbuf] at hd
            exact Option.isSome_iff_exists.mpr ⟨d, hd⟩

def anyStatement : Policy := ⟨fun _ _ ↦ True, false⟩

theorem backed_lent (hlent : (trade sql).lending e = true → ∃ x, Backed P x.2.1 x.2.2 ∧ e = (trade sql).lend x)
    (he : e = .acquired b far) : Backed P b far := by
  subst he
  obtain ⟨x, hx, heq⟩ := hlent rfl
  cases heq
  exact hx

theorem keeps_coherent (sql : SQL γ) :
    Library.Leasing.Keeps (trade sql) sparingly (fun t ↦ Minds sql anyStatement t.session t.far)
      (fun x ↦ Backed anyStatement x.2.1 x.2.2) fun _ ↦ True where
  joins i cfg hcfg := minds_new hcfg i _
  makes n size _ := backed_dialed (fun h ↦ by cases h) n _
  steps t e q hminds hacts hlent hstep := by
    obtain ⟨hnext, hreturned⟩ :=
      minds_step hminds hacts (fun _ _ ↦ backed_lent hlent) (fun _ _ _ _ _ _ _ _ ↦ trivial) hstep
    exact ⟨hnext, hreturned, trivial⟩

/-- In every run of sessions that share backends, whatever their clients send. -/
theorem coherent_of_sparing (sql : SQL γ) {es : List (Library.Leasing.Event PooledConfig Seats.Event ℤ)}
    {c : History PooledConfig (Seat γ) (ℕ × Backend × Far) Seats.Event (List Act) ℤ}
    (hrun : Run (recorded (Library.Leasing.step (trade sql))) (meets (trade sql) sparingly) (start empty) es c) :
    ∀ t ∈ c.current.parties, coherent t = true :=
  fun t ht ↦ coherent_of_minds ((keeps_coherent sql).run hrun |>.parties t ht)

def caching : PooledConfig := { unreset with preparedCache := true }

def completed (ending : Ending) : Verdict := ⟨true, [], [], ending⟩

def failed (rows : List BackendMessage) : Verdict := ⟨false, rows, [], .none⟩

def parsing (name query : Text) (paramOIDs : List UInt32) : List (Library.Leasing.Event PooledConfig Seats.Event ℤ) :=
  .join caching :: (welcomed ++ [Input.message (.parse name query paramOIDs) calm]).map (fun i ↦ .act 0 (.input i)) ++
    [.make 0 0]

def synced (verdicts : List Verdict) : List (Library.Leasing.Event PooledConfig Seats.Event ℤ) :=
  [.act 0 (.input (.message .sync calm)), .act 0 (.sent true verdicts)]

/-- The statement is in the cache of the attached backend, which has got all that was written to it. -/
def holdsCached (name : Text) (t : Seat Unit) : Bool :=
  t.session.bConn.any fun b ↦ b.sendBuf.isEmpty && b.prepared.any fun c ↦ c.has name

theorem completed_run : ∃ c, Run (recorded (Library.Leasing.step (trade plainSQL))) (meets (trade plainSQL) sparingly)
    (start empty) (parsing [1] [2] [] ++ synced [completed .none, completed (.ready txIdle)]) c ∧
    (c.current.parties[0]?.any (holdsCached [2])) = true :=
  exists_run_of_exec rfl

theorem coherent_completed : ∃ c, Run (recorded (Library.Leasing.step (trade plainSQL)))
    (meets (trade plainSQL) sparingly) (start empty)
    (parsing [1] [2] [] ++ synced [completed .none, completed (.ready txIdle)]) c ∧
    (c.current.parties[0]?.any (holdsCached [2])) = true ∧ ∀ t ∈ c.current.parties, coherent t = true := by
  obtain ⟨c, hrun, hcached⟩ := completed_run
  exact ⟨c, hrun, hcached, coherent_of_sparing plainSQL hrun⟩

/-- A statement that the backend has turned down is in its cache, and the backend has nothing under its name. -/
theorem failed_incoherent : ∃ c, Run (recorded (Library.Leasing.step (trade plainSQL))) anyStep (start empty)
    (parsing [1] [2] [] ++ synced [failed [.errorResponse "ERROR" "42601" "syntax error"],
      completed (.ready txIdle)]) c ∧
    (c.current.parties[0]?.any fun t ↦ holdsCached [2] t && (t.far.statements [2]).isNone && !coherent t) = true :=
  exists_run_of_exec rfl

end Seating

end PgRouter.Client.Coherence
