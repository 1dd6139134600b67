import PgRouter.Client.Replies
import PgRouter.Client.Splicing

namespace PgRouter.Client.Readiness

open Library.Runs Library.Records Protocol Prepared Servers Handler Sharing Handling Attachment Turns Exchange
  Splicing

def finishes : FrontendMessage → Bool
  | .query _ | .sync | .functionCall => true
  | _ => false

def asks (ms : List FrontendMessage) : ℕ := ms.countP finishes

def readies (ms : List BackendMessage) : ℕ := (ms.flatMap statusOf).length

/-- A `COPY` that a `Query` has started still owes the `ReadyForQuery` of that `Query`. -/
def copyOwed (srv : Server) : ℕ := if srv.copying = some .simple then 1 else 0

def due (p : Peer) : ℕ := readies p.unread + copyOwed p.server

/-- How many `ReadyForQuery` messages may still come from a backend. -/
def owing (b : Backend) : ℕ := due b.peer + asks (b.sendBuf.map Prod.snd)

theorem asks_append (ms ms' : List FrontendMessage) : asks (ms ++ ms') = asks ms + asks ms' :=
  List.countP_append

theorem readies_append (ms ms' : List BackendMessage) : readies (ms ++ ms') = readies ms + readies ms' := by
  simp [readies]

theorem readies_unmarked {ms : List BackendMessage} (h : ∀ m ∈ ms, endMarker m = false) : readies ms = 0 := by
  rw [readies, List.length_eq_zero_iff, List.flatMap_eq_nil_iff]
  intro m hm
  have hmark := h m hm
  cases m with
  | readyForQuery txStatus => cases hmark
  | _ => rfl

section Servers

variable {srv srv' : Server} {m : FrontendMessage}

theorem ends_owed {e : Ending} (h : srv.ends m e = some srv') :
    readies e.messages + copyOwed srv' ≤ copyOwed srv + asks [m] := by
  unfold Server.ends at h
  split at h
  · split at h <;> cases h <;> simp_all [readies, Ending.messages, copyOwed, statusOf, asks, finishes]
  · split at h
    · cases h
      simp_all [readies, Ending.messages]
    · cases h
      simp_all [readies, Ending.messages]
    · cases h
      simp_all [readies, Ending.messages]
    · cases h
    · cases h
    · cases h
    · split at h
      · cases h
        simp_all [readies, Ending.messages, copyOwed, statusOf]
      · cases h
    · split at h
      · cases h
        simp_all [readies, Ending.messages, copyOwed]
      · cases h
    · cases h

theorem answers_owed {ms : List FrontendMessage} {answers : List Answer} {replies : List BackendMessage}
    (h : srv.answers ms answers = some (srv', replies)) :
    readies replies + copyOwed srv' ≤ copyOwed srv + asks ms := by
  induction ms generalizing srv answers replies with
  | nil =>
    obtain ⟨rfl, rfl⟩ := Server.answers_nil h
    simp [readies]
  | cons m ms ih =>
    obtain ⟨a, answers, first, last, mid, rfl, hfirst, hlast, rfl⟩ := Server.answers_cons h
    obtain ⟨hbody, hends, rfl⟩ := Server.answer_eq hfirst
    have hrest := ih hlast
    have howed := ends_owed hends
    have hnone := readies_unmarked hbody
    have hcons : asks (m :: ms) = asks [m] + asks ms := asks_append [m] ms
    rw [readies_append, readies_append, hnone]
    omega

end Servers

def heard : Input → ℕ
  | .received m _ => (statusOf m).length
  | _ => 0

def spoken (batch : List FrontendMessage) : Input → ℕ
  | .sent _ => asks batch
  | _ => 0

theorem due_hears {batch : List FrontendMessage} {answers : List Answer} {p p' : Peer} {input : Input}
    (h : hears Server.answers batch answers p input = some p') :
    due p' + heard input ≤ due p + spoken batch input := by
  cases input with
  | sent ok =>
    simp only [hears] at h
    split at h
    · cases h
      exact Nat.le_add_right _ _
    · obtain ⟨⟨srv, replies⟩, hans, rfl⟩ := Option.map_eq_some_iff.mp h
      have howed := answers_owed hans
      simp only [due, readies_append, heard, spoken]
      omega
  | received m ok =>
    simp only [hears] at h
    split at h
    · rename_i hhead
      cases h
      obtain ⟨rest, hrest⟩ := List.head?_eq_some_iff.mp hhead.2
      simp [due, readies, heard, spoken, hrest]
      omega
    · cases h
  | _ =>
    cases h
    exact le_refl _

variable {γ : Type} {sql : SQL γ} {s s' : Session γ} {r : Res γ} {answers : List Answer}

def askOf : Phase → ℕ
  | .acquiring msg _ | .replayFlush msg | .replaying msg => asks [msg]
  | _ => 0

def replays : Phase → ℕ
  | .replayFlush _ | .replaying _ => 1
  | _ => 0

/-- The client has been told no more than it has asked for, and is not going to be. Of what the backend
sent, `spare` messages have just been read. -/
structure Balanced (spare told asked : ℕ) (s : Session γ) : Prop where
  out : NoReady s.out
  base : told + asks s.writeBuf + askOf s.phase ≤ asked
  full : ∀ b, s.bConn = some b → isOver s.phase = false →
    told + spare + owing b + asks s.writeBuf + askOf s.phase ≤ asked + replays s.phase

structure Met (told asked : ℕ) (input : Input) (s : Session γ) : Prop where
  out : NoReady s.out
  base : told + asks s.writeBuf + askOf s.phase ≤ asked
  full : ∀ b, s.bConn = some b → isOver s.phase = false →
    told + heard input + owing b + asks s.writeBuf + askOf s.phase ≤
      asked + replays s.phase + spoken (outgoing s b) input

variable {spare told asked : ℕ} {input : Input}

theorem met_of_talk (hs : Balanced 0 told asked s) (htalk : talk Server.answers answers input s = some s') :
    Met told asked input s' := by
  rcases talk_cases htalk with ⟨hnone, rfl⟩ | ⟨b, peer, hb, hpeer, rfl⟩
  · exact ⟨hs.out, hs.base, by simp [hnone]⟩
  · refine ⟨hs.out, hs.base, fun b' hb' hover ↦ ?_⟩
    cases hb'
    have hfull := hs.full b hb hover
    have hdue := due_hears hpeer
    have hbatch : outgoing ({ s with bConn := some { b with peer } } : Session γ) { b with peer } =
        outgoing s b := rfl
    simp only [owing] at hfull ⊢
    rw [hbatch]
    change told + heard input + (due peer + asks (b.sendBuf.map Prod.snd)) + asks s.writeBuf + askOf s.phase ≤
      asked + replays s.phase + spoken (outgoing s b) input
    omega

theorem Met.balanced (hs : Met told asked input s) (hspoken : ∀ batch, spoken batch input = 0) :
    Balanced (heard input) told asked s := by
  refine ⟨hs.out, hs.base, fun b hb hover ↦ ?_⟩
  have hfull := hs.full b hb hover
  rwa [hspoken, Nat.add_zero] at hfull

theorem spoken_of_busy (h : busy input = false) (batch : List FrontendMessage) : spoken batch input = 0 := by
  cases input with
  | sent ok => cases h
  | _ => rfl

theorem Balanced.mono {told' asked' : ℕ} (hs : Balanced spare told asked s) (htold : told' ≤ told)
    (hasked : asked ≤ asked') : Balanced 0 told' asked' s := by
  have hbase := hs.base
  refine ⟨hs.out, by omega, fun b hb hover ↦ ?_⟩
  have hfull := hs.full b hb hover
  omega

theorem askOf_of_waiting {phase : Phase} (h : waiting phase = false) : askOf phase = 0 ∧ replays phase = 0 := by
  cases phase <;> first | exact ⟨rfl, rfl⟩ | cases h

theorem finishes_of_prepares {m : FrontendMessage} (h : prepares m = true) : finishes m = false := by
  cases m with
  | query text | sync | functionCall => cases h
  | _ => rfl

variable (sql) in
theorem asks_queued (msg : FrontendMessage) (s : Session γ) :
    asks (queued sql msg s) + asks (if s.cfg.rawPassthrough then [msg] else []) ≤ asks [msg] := by
  unfold queued
  split
  · simp [asks]
  · split
    · simp [asks]
    · rename_i clientPrep hprep
      cases hmsg : prepares msg with
      | true =>
        have hnone : asks ((s.intercept sql clientPrep msg).injected ++
            (s.intercept sql clientPrep msg).forward.toList) = 0 := by
          rw [asks, List.countP_eq_zero]
          intro m hm
          simp [finishes_of_prepares ((mild_intercept hmsg).queue m hm)]
        rw [hnone]
        simp [asks]
      | false =>
        rw [Session.intercept, intercept_pass hmsg]
        simp [asks]

variable {msg : FrontendMessage} {b : Backend} {ok : Bool}

theorem balanced_forward (hb : s.bConn = some b) (hout : NoReady s.out)
    (hfull : told + owing b + asks s.writeBuf + asks [msg] ≤ asked) :
    Balanced 0 (told + (tells (s.forwardMessage sql msg).2).length) asked (s.forwardMessage sql msg).1 := by
  have hr : Forwarded sql msg s b (s.forwardMessage sql msg) := forwarded_forwardMessage hb msg
  generalize s.forwardMessage sql msg = r at hr ⊢
  obtain ⟨prepared, hconn⟩ := hr.conn
  have hqueued := asks_queued sql msg s
  have hphase : askOf r.1.phase = 0 ∧ replays r.1.phase = 0 := by
    rcases hr.phase with h | h <;> rw [h] <;> exact ⟨rfl, rfl⟩
  have hbuf : asks r.1.writeBuf = asks s.writeBuf + asks (if s.cfg.rawPassthrough then [msg] else []) := by
    rw [hr.writeBuf, asks_append]
  rw [hr.tells, List.length_nil, Nat.add_zero]
  refine ⟨hr.out hout, ?_, fun b' hb' _ ↦ ?_⟩
  · omega
  · rw [hconn] at hb'
    cases hb'
    have howing : owing { b with sendBuf := b.sendBuf ++ (queued sql msg s).map fun m ↦ (s.id, m), prepared } =
        owing b + asks (queued sql msg s) := by
      simp only [owing, List.map_append, List.map_map, asks_append, Function.comp_def, List.map_id']
      omega
    rw [howing]
    omega

section

variable (hs : Balanced spare told asked s)

include hs

theorem balanced_kept {news : List UInt8} (hidle : Idles news s r)
    (hover : isOver s.phase = false) (hnext : isOver r.1.phase = true ∨ waiting s.phase = false)
    (hnews : news = [] ∨ news.length ≤ spare ∧ waiting s.phase = false ∧ s.bConn.isSome = true) :
    Balanced 0 (told + (tells r.2).length) asked r.1 := by
  obtain ⟨htells, hout⟩ := hidle.tells hs.out
  obtain ⟨hask, hreplays⟩ := askOf_of_waiting hidle.phase
  have hbase := hs.base
  rw [htells]
  refine ⟨hout, ?_, fun b hb hover' ↦ ?_⟩
  · rw [hidle.writeBuf, hask]
    rcases hnews with rfl | ⟨hlen, hwait, hsome⟩
    · rw [List.length_nil]
      omega
    · obtain ⟨b, hb⟩ := Option.isSome_iff_exists.mp hsome
      have hfull := hs.full b hb hover
      rw [(askOf_of_waiting hwait).2] at hfull
      omega
  · have hwait : waiting s.phase = false := by
      rcases hnext with h | h
      · rw [hover'] at h
        cases h
      · exact h
    have hsame : s.bConn = some b := by
      rcases hidle.conn with h | ⟨-, -, h | h⟩
      · rw [hb] at h
        cases h
      · rw [hover'] at h
        cases h
      · rw [← h]
        exact hb
    have hfull := hs.full b hsame hover
    have hlen : news.length ≤ spare := by
      rcases hnews with rfl | h
      · exact Nat.zero_le _
      · exact h.1
    rw [(askOf_of_waiting hwait).1, (askOf_of_waiting hwait).2] at hfull
    rw [hidle.writeBuf, hask, hreplays]
    omega

theorem balanced_lost (hidle : Idles [] s r)
    (hnext : isOver r.1.phase = true ∨ r.1.phase = .top ∧ r.1.bConn = none) :
    Balanced 0 (told + (tells r.2).length) asked r.1 := by
  obtain ⟨htells, hout⟩ := hidle.tells hs.out
  have hbase := hs.base
  rw [htells]
  refine ⟨hout, ?_, fun b hb hover ↦ ?_⟩
  · rw [hidle.writeBuf, (askOf_of_waiting hidle.phase).1, List.length_nil]
    omega
  · rcases hnext with h | h
    · rw [hover] at h
      cases h
    · rw [hb] at h
      cases h.2

theorem balanced_greet (hphase : s.phase = .welcome ∨ s.phase = .greeting)
    (params : List (Text × Text)) (key : UInt32 × Text) (ok : Bool) :
    Balanced 0 told asked (s.greet params key ok).1 := by
  have hask : askOf s.phase = 0 ∧ replays s.phase = 0 ∧ isOver s.phase = false := by
    rcases hphase with h | h <;> rw [h] <;> exact ⟨rfl, rfl, rfl⟩
  have hbase := hs.base
  rw [hask.1] at hbase
  cases ok with
  | true =>
    refine ⟨List.forall_mem_nil _, hbase, fun b hb _ ↦ ?_⟩
    have hfull := hs.full b hb hask.2.2
    rw [hask.1, hask.2.1] at hfull
    change told + 0 + owing b + asks s.writeBuf + 0 ≤ asked + 0
    omega
  | false => exact ⟨List.forall_mem_nil _, hbase, fun b hb hover ↦ by cases hover⟩

theorem Balanced.frame (hframe : Frame s s') :
    Balanced spare told asked s' := by
  refine ⟨?_, ?_, fun b hb hover ↦ ?_⟩
  · rw [hframe.out]
    exact hs.out
  · rw [hframe.writeBuf, hframe.phase]
    exact hs.base
  · rw [hframe.bConn] at hb
    rw [hframe.phase] at hover
    rw [hframe.writeBuf, hframe.phase]
    exact hs.full b hb hover

theorem balanced_answered (hphase : s.phase = .top)
    {extra : List (Option ℕ × BackendMessage)} {txStatus : UInt8}
    (hextra : extra.flatMap (fun p ↦ statusOf p.2) = [txStatus]) (ok : Bool) :
    Balanced 0 (told + (tells (saying extra ok s).2).length) (asked + 1) (saying extra ok s).1 := by
  have honce : (tells (saying extra ok s).2).length ≤ 1 := by
    rw [tells_saying hs.out, hextra]
    split
    · exact le_refl 1
    · exact Nat.zero_le 1
  generalize tells (saying extra ok s).2 = news at honce ⊢
  have hbase := hs.base
  rw [hphase] at hbase
  simp only [askOf] at hbase
  refine ⟨List.forall_mem_nil _, ?_, fun b hb _ ↦ ?_⟩
  · change told + news.length + asks s.writeBuf + 0 ≤ asked + 1
    omega
  · have hfull := hs.full b hb (by rw [hphase]; rfl)
    rw [hphase] at hfull
    simp only [askOf, replays] at hfull
    change told + news.length + 0 + owing b + asks s.writeBuf + 0 ≤ asked + 1 + 0
    omega

theorem balanced_refused (hphase : s.phase = .top) (env : Env)
    (code text : String) :
    Balanced 0 (told + (tells (refused env code text s).2).length) (asked + 1) (refused env code text s).1 := by
  rw [refused_eq]
  exact balanced_answered hs hphase rfl env.ok

end

/-- The message is answered by `Serve` itself with an error: it is turned down, or the primary that it
needs is known to be down. -/
def turnedDown (sql : SQL γ) (env : Env) (msg : FrontendMessage) (s : Session γ) : Bool :=
  gated sql s.cfg env msg ||
    needsConn s.cfg msg && s.bConn.isNone && !env.primaryHealthy &&
      Session.selectPoolForMsg env ((noticed sql env msg s).noteWrite env (infoOf sql s.cfg msg))
        (infoOf sql s.cfg msg) == 0

def asksReady : FrontendMessage → Bool
  | .query _ | .sync => true
  | _ => false

theorem asks_of_call (hcall : msg ≠ .functionCall) : asks [msg] = if asksReady msg then 1 else 0 := by
  cases msg <;> first | rfl | exact absurd rfl hcall

theorem balanced_handled (hs : Balanced spare told asked s) (hphase : s.phase = .top) {env : Env}
    (hhandled : Handled sql env msg s r) (hcall : msg ≠ .functionCall)
    (hdown : turnedDown sql env msg s = true → Session.isQuery msg = true) :
    Balanced 0 (told + (tells r.2).length) (asked + if asksReady msg then 1 else 0) r.1 := by
  have hquery (h : Session.isQuery msg = true) : asksReady msg = true := by
    cases msg <;> first | rfl | cases h
  cases hhandled with
  | gated hobs hgated code text =>
    rw [if_pos (hquery (hdown (by simp [turnedDown, hgated])))]
    exact balanced_refused (hs.frame hobs.toFrame) (hobs.phase.trans hphase) env code text
  | failedOver hnoticed hobs hgated hneeds hnone hpool hhealth code text =>
    rw [if_pos (hquery (hdown (by simp [turnedDown, hneeds, hnone, hhealth, ← hnoticed, hpool])))]
    have hframe := hobs.noted env
    exact balanced_refused (hs.frame hframe) (hframe.phase.trans hphase) env code text
  | @acquires o hobs hgated hneeds hnone =>
    have hframe := hobs.noted env
    generalize o.noteWrite env (infoOf sql s.cfg msg) = t at hframe ⊢
    have hbase := (hs.frame hframe).base
    rw [hframe.phase, hphase] at hbase
    refine ⟨(hs.frame hframe).out, ?_, fun b hb _ ↦ ?_⟩
    · change told + 0 + asks t.writeBuf + asks [msg] ≤ _
      rw [asks_of_call hcall]
      simp only [askOf] at hbase
      omega
    · rw [hframe.bConn, hnone] at hb
      cases hb
  | @forwards o hobs hgated hsome =>
    have hframe := hobs.noted env
    generalize o.noteWrite env (infoOf sql s.cfg msg) = t at hframe ⊢
    obtain ⟨b, hb⟩ := Option.isSome_iff_exists.mp hsome
    have hfull := (hs.frame hframe).full b (hframe.bConn.trans hb) (by rw [hframe.phase, hphase]; rfl)
    rw [hframe.phase, hphase] at hfull
    simp only [askOf, replays] at hfull
    apply balanced_forward (hframe.bConn.trans hb) (hs.frame hframe).out
    rw [asks_of_call hcall]
    omega
  | @answers o hobs hgated hnone hsync =>
    subst hsync
    have hframe := hobs.noted env
    have hready : [((none : Option ℕ), BackendMessage.readyForQuery txIdle)].flatMap (fun p ↦ statusOf p.2) =
      [txIdle] := rfl
    exact balanced_answered (hs.frame hframe) (hframe.phase.trans hphase) hready env.ok
  | @ignores o hobs hgated hnone hneeds hsync =>
    have hframe := hobs.noted env
    generalize o.noteWrite env (infoOf sql s.cfg msg) = t at hframe ⊢
    have hbase := (hs.frame hframe).base
    rw [hframe.phase, hphase] at hbase
    refine ⟨(hs.frame hframe).out, ?_, fun b hb _ ↦ ?_⟩
    · change told + 0 + asks t.writeBuf + 0 ≤ _
      simp only [askOf] at hbase
      omega
    · change t.bConn = some b at hb
      rw [hframe.bConn, hnone] at hb
      cases hb

theorem owing_adopted {b' : Backend} (hpeer : b'.peer = b.peer) (hbuf : b'.sendBuf = b.sendBuf ∨ b'.sendBuf = []) :
    owing b' ≤ owing b := by
  unfold owing
  rw [hpeer]
  rcases hbuf with h | h
  · rw [h]
  · rw [h]
    exact Nat.add_le_add_left (Nat.zero_le _) _

theorem balanced_attach (hs : Balanced spare told asked s) {pool : ℕ} (hphase : s.phase = .acquiring msg pool)
    (hb : owing b = 0) :
    Balanced 0 (told + (tells (s.attach sql msg pool b).2).length) asked (s.attach sql msg pool b).1 := by
  obtain ⟨b', hb', howing⟩ : ∃ b', (s.adopt pool b).bConn = some b' ∧ owing b' = 0 := by
    refine ⟨_, rfl, Nat.le_zero.mp (hb ▸ owing_adopted ?_ ?_)⟩
    · split <;> rfl
    · split
      · exact .inr rfl
      · exact .inl rfl
  have hbase := hs.base
  rw [hphase] at hbase
  simp only [askOf] at hbase
  unfold Session.attach
  split
  · apply balanced_forward hb' hs.out
    change told + owing b' + asks s.writeBuf + asks [msg] ≤ asked
    omega
  · refine ⟨hs.out, hbase, fun c hc _ ↦ ?_⟩
    have hask : c = { b' with sendBuf := b'.sendBuf ++ [(s.id, .query (sql.replayQuery s.guc))] } := by
      simp only [Session.ask, hb', Option.map_some] at hc
      exact (Option.some.inj hc).symm
    have hone : owing c = 1 := by
      rw [hask]
      unfold owing at howing ⊢
      rw [List.map_append, asks_append]
      change due b'.peer + (asks (b'.sendBuf.map Prod.snd) + 1) = 1
      omega
    change told + 0 + owing c + asks s.writeBuf + asks [msg] ≤ asked + 1
    omega

section

variable (hs : Met told asked (.sent ok) s)

include hs

theorem balanced_flush
    (hbatch : ∀ b, s.bConn = some b → outgoing s b = b.sendBuf.map Prod.snd) : Balanced 0 told asked s.flush.1 := by
  unfold Session.flush
  split
  · rename_i hnone
    exact ⟨hs.out, hs.base, by simp [hnone]⟩
  · rename_i b hb
    refine ⟨hs.out, hs.base, fun b' hb' hover ↦ ?_⟩
    cases hb'
    have hfull := hs.full b hb hover
    rw [hbatch b hb] at hfull
    simp only [owing, heard, spoken] at hfull
    change told + 0 + (due b.peer + 0) + asks s.writeBuf + askOf s.phase ≤ asked + replays s.phase
    omega

theorem met_replaying (hphase : s.phase = .replayFlush msg) :
    Met told asked (.sent ok) ({ s with phase := .replaying msg } : Session γ) := by
  have hbase := hs.base
  rw [hphase] at hbase
  refine ⟨hs.out, hbase, fun b hb _ ↦ ?_⟩
  have hfull := hs.full b hb (by rw [hphase]; rfl)
  unfold outgoing at hfull
  rw [hphase] at hfull
  exact hfull

theorem balanced_writeBatch (hphase : s.phase = .flushing) :
    Balanced 0 told asked s.writeBatch.1 := by
  unfold Session.writeBatch
  split
  · rename_i hraw
    split
    · rename_i hnone
      exact ⟨hs.out, hs.base, by simp [hnone]⟩
    · rename_i b hb
      have hbase := hs.base
      refine ⟨hs.out, ?_, fun b' hb' hover ↦ ?_⟩
      · change told + 0 + askOf s.phase ≤ asked
        omega
      · obtain rfl : b = b' := Option.some.inj (hb.symm.trans hb')
        have hfull := hs.full b hb hover
        rw [outgoing_flushing hphase, if_pos hraw] at hfull
        simp only [heard, spoken] at hfull
        change told + 0 + owing b + 0 + askOf s.phase ≤ asked + replays s.phase
        omega
  · rename_i hraw
    refine balanced_flush hs fun b hb ↦ ?_
    rw [outgoing_flushing hphase, if_neg hraw]

theorem balanced_sent (hphase : s.phase = .flushing) :
    Balanced 0 (told + (tells (s.writeBatch.andThen fun s ↦ s.startDrain ok).2).length) asked
      (s.writeBatch.andThen fun s ↦ s.startDrain ok).1 := by
  have hbatch := balanced_writeBatch hs hphase
  have hkept : s.writeBatch.1.phase = .flushing := by
    unfold Session.writeBatch
    split
    · split <;> exact hphase
    · rw [Session.flush_phase, hphase]
  rw [Res.andThen, tells_append, tells_writeBatch, List.nil_append]
  refine balanced_kept hbatch (idles_startDrain ok _) ?_ (.inr ?_) (.inl rfl)
  · rw [hkept]
    rfl
  · rw [hkept]
    rfl

end

theorem passed_length (ok : Bool) (m : BackendMessage) : (passed ok m).length ≤ (statusOf m).length := by
  unfold passed
  split
  · exact le_refl _
  · exact Nat.zero_le _

def requests : Event (List Answer) → Bool
  | .input (.message msg _) _ => asksReady msg
  | _ => false

def readyForQueries (past : Transcript (Session γ) (Event (List Answer))) : ℕ :=
  (past.flatMap fun x ↦ news x.output x.event.event).length

def queriesAndSyncs (past : Transcript (Session γ) (Event (List Answer))) : ℕ :=
  past.countP fun x ↦ requests x.event.event

/-- What `Serve` turns down is a `Query`, the client makes no `FunctionCall`, and a backend from the pool
has no `ReadyForQuery` to come. -/
def measured (sql : SQL γ) (s : Session γ) : Event (List Answer) → Bool
  | .input (.message msg env) _ =>
    msg != .functionCall && (!turnedDown sql env msg s || Session.isQuery msg)
  | .input (.acquired b) _ => match s.phase with
    | .acquiring .. => owing b == 0
    | _ => true
  | _ => true

theorem balanced_received (hs : Balanced (heard input) told asked s) {m : BackendMessage}
    (hinput : input = .received m ok) (hsome : s.bConn.isSome = true) (hidle : Idles (passed ok m) s r)
    (hover : isOver s.phase = false) (hwait : waiting s.phase = false) :
    Balanced 0 (told + (tells r.2).length) asked r.1 := by
  subst hinput
  exact balanced_kept hs hidle hover (.inr hwait) (.inr ⟨passed_length ok m, hwait, hsome⟩)

theorem balanced_turn (hphase : s.phase = s'.phase)
    (hmessage : ∀ msg env, input = .message msg env → s = s')
    (hsome : ∀ m ok, input = .received m ok → s.bConn.isSome = true)
    (hguard : measured sql s' (.input input answers) = true) (hs : Met told asked input s)
    (hturn : Turn sql s input r) :
    Balanced 0 (told + (news r.2 (.input input answers)).length)
      (asked + if requests (.input input answers) then 1 else 0) r.1 := by
  have hnews : (news r.2 (.input input answers)).length ≤ (tells r.2).length := by
    unfold news
    split
    · exact Nat.zero_le _
    · exact le_refl _
  -- only the welcome and a message at the top need more than this
  have hmono (h : Balanced 0 (told + (tells r.2).length) asked r.1) :
      Balanced 0 (told + (news r.2 (.input input answers)).length)
        (asked + if requests (.input input answers) then 1 else 0) r.1 :=
    h.mono (Nat.add_le_add_left hnews _) (Nat.le_add_right _ _)
  cases hturn with
  | stays hinput hcalm hidle =>
    have hquiet : isOver s.phase = false ∧ waiting s.phase = false := quiet_of_untroubled hcalm
    exact hmono (balanced_kept (hs.balanced (spoken_of_busy (busy_of_still hinput))) hidle hquiet.1
      (.inr hquiet.2) (.inl rfl))
  | leaves hinput hover hidle hnext =>
    exact hmono (balanced_kept (hs.balanced (spoken_of_busy hinput)) hidle hover (.inl (over_of_closing hnext))
      (.inl rfl))
  | timedOut hphase ok =>
    exact hmono (balanced_kept (hs.balanced fun _ ↦ rfl) (idles_queryTimeout ok s) (of_phase hphase rfl)
      (.inr (of_phase hphase rfl)) (.inl rfl))
  | resets hinput hover hidle hnext =>
    have hs' : Balanced 0 told asked s := ⟨hs.out, hs.base, fun b hb h ↦ by rw [hover] at h; cases h⟩
    exact hmono (balanced_lost hs' hidle hnext)
  | greeted hphase params key ok => exact balanced_greet (hs.balanced fun _ ↦ rfl) hphase params key ok
  | @message hphase' msg hmsg env r hhandled =>
    obtain rfl := hmessage msg env rfl
    simp only [measured, Bool.and_eq_true, bne_iff_ne, Bool.or_eq_true, Bool.not_eq_true'] at hguard
    refine balanced_handled (hs.balanced fun _ ↦ rfl) hphase' hhandled hguard.1 fun hdown ↦ ?_
    rcases hguard.2 with h | h
    · rw [hdown] at h
      cases h
    · exact h
  | @acquired msg pool hphase' b =>
    refine hmono (balanced_attach (hs.balanced fun _ ↦ rfl) hphase' ?_)
    simp only [measured, ← hphase, hphase'] at hguard
    exact beq_iff_eq.mp hguard
  | @replaySent msg hphase ok =>
    refine hmono ?_
    rw [tells_flush, List.length_nil, Nat.add_zero]
    refine balanced_flush (met_replaying hs hphase) fun b hb ↦ rfl
  | replayWaits hphase m ok hm => exact hmono ((hs.balanced fun _ ↦ rfl).mono (le_refl _) (le_refl _))
  | @replayed msg hphase txStatus ok =>
    obtain ⟨b, hb⟩ := Option.isSome_iff_exists.mp (hsome _ ok rfl)
    have hfull := hs.full b hb (of_phase hphase rfl)
    rw [hphase] at hfull
    simp only [askOf, replays, heard, spoken, statusOf, List.length_cons, List.length_nil] at hfull
    exact hmono (balanced_forward hb hs.out (by omega))
  | sent hphase ok => exact hmono (balanced_sent hs hphase)
  | withheldCC hphase ok hpos | withheldPC hphase ok hpos =>
    have hs' := (hs.balanced fun _ ↦ rfl).mono (le_refl told) (le_refl asked)
    exact hmono ⟨hs'.out, hs'.base, hs'.full⟩
  | drained hphase m ok =>
    exact hmono (balanced_received (hs.balanced fun _ ↦ rfl) rfl (hsome m ok rfl)
      (idles_passOn (of_phase hphase rfl) m ok) (of_phase hphase rfl) (of_phase hphase rfl))
  | cutOff hphase ok =>
    exact hmono (balanced_kept (hs.balanced fun _ ↦ rfl) (idles_loop s) (of_phase hphase rfl)
      (.inr (of_phase hphase rfl))
      (.inl rfl))
  | polled hphase m ok =>
    exact hmono (balanced_received (hs.balanced fun _ ↦ rfl) rfl (hsome m ok rfl)
      (idles_pollReceived hphase m ok) (of_phase hphase rfl) (of_phase hphase rfl))

theorem balanced_step {e : Event (List Answer)} (hs : Balanced 0 told asked s) (hguard : measured sql s e = true)
    (hstep : Exchange.step sql Server.answers s e = some r) :
    Balanced 0 (told + (news r.2 e).length) (asked + if requests e then 1 else 0) r.1 := by
  cases e with
  | notice m =>
    simp only [Exchange.step] at hstep
    split at hstep
    · cases hstep
    · rename_i hmark
      cases hstep
      refine ⟨hs.out, hs.base, fun b' hb' hover ↦ ?_⟩
      obtain ⟨b, hb, rfl⟩ := Option.map_eq_some_iff.mp hb'
      have hfull := hs.full b hb hover
      have howing : owing (Backend.unasked m b) = owing b := by
        have hnone : readies [m] = 0 := readies_unmarked (by simpa using hmark)
        simp only [owing, due, Backend.unasked, readies_append, hnone, Nat.add_zero]
      rw [howing]
      exact hfull
  | input i choice =>
    obtain ⟨s', htalk, hstep⟩ := Option.bind_eq_some_iff.mp hstep
    have hphase : s'.phase = s.phase := by rw [talk_same htalk]
    refine balanced_turn hphase ?_ ?_ hguard (met_of_talk hs htalk) (turn_of_step hstep)
    · rintro msg env rfl
      exact talk_message htalk
    · rintro m ok rfl
      obtain ⟨b, rest, -, -, -, rfl⟩ := talk_received htalk
      rfl

def inStep (sql : SQL γ) (c : Journal (Session γ) (Event (List Answer))) (e : Framed (Event (List Answer))) : Bool :=
  measured sql c.current.state e.event && fitting rounds c.current e

def Counted (c : Journal (Session γ) (Event (List Answer))) : Prop :=
  Balanced 0 (readyForQueries c.past) (queriesAndSyncs c.past) c.current.state ∧ c.current.intact = true

theorem counted_step {c : Journal (Session γ) (Event (List Answer))} {e : Framed (Event (List Answer))}
    {r : Spliced (Session γ) × List Act} (hc : Counted c)
    (hguard : inStep sql c e = true) (hstep : splice rounds (Exchange.step sql Server.answers) c.current e = some r) :
    Counted ⟨r.1, c.past ++ [⟨c.current, e, r.1, r.2⟩]⟩ := by
  obtain ⟨hmeasured, hfits⟩ := Bool.and_eq_true_iff.mp hguard
  obtain ⟨hstep, hintact⟩ := splice_fitting hc.2 hfits hstep
  have hnext := balanced_step hc.1 hmeasured hstep
  refine ⟨?_, hintact⟩
  simpa [readyForQueries, queriesAndSyncs, List.countP_append, List.countP_singleton] using hnext

def splicing : PooledConfig := { unreset with splice := true }

end PgRouter.Client.Readiness
