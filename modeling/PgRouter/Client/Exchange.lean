import PgRouter.Client.Interception
import PgRouter.Client.Sharing
import PgRouter.Client.Turns

namespace PgRouter.Client.Exchange

open Library.Records Protocol Prepared Servers Handler Sharing Handling Attachment Turns

/-- A session goes on, or its backend sends something that nobody has asked for. -/
inductive Event (κ : Type)
  | input (i : Input) (choice : κ)
  | notice (m : BackendMessage)

variable {γ κ : Type} (sql : SQL γ) (hear : Hearing κ)

/-- The far end of the backend, if there is one, has its turn. Without one nothing can be received. -/
def talk (choice : κ) (input : Input) (s : Session γ) : Option (Session γ) :=
  match s.bConn with
  | none => match input with
    | .received .. => none
    | _ => some s
  | some b => (hears hear (outgoing s b) choice b.peer input).map fun peer ↦
      { s with bConn := some { b with peer } }

def Backend.unasked (m : BackendMessage) (b : Backend) : Backend :=
  { b with peer := { b.peer with unread := b.peer.unread ++ [m] } }

/-- One step of a session together with the far end of its backend. -/
def step (s : Session γ) : Event κ → Option (Res γ)
  | .input i choice => (talk hear choice i s).bind fun s ↦ s.step sql i
  | .notice m =>
    if endMarker m then none
    else some ({ s with bConn := s.bConn.map (Backend.unasked m) }, [])

abbrev Log (γ κ : Type) := Record (Session γ) (Event κ) (List Act)

variable {sql hear} {s s' : Session γ} {r : Res γ} {choice : κ} {input : Input} {msg : FrontendMessage}

theorem talk_cases (h : talk hear choice input s = some s') :
    (s.bConn = none ∧ s' = s) ∨ ∃ b peer, s.bConn = some b ∧
      hears hear (outgoing s b) choice b.peer input = some peer ∧
      s' = { s with bConn := some { b with peer } } := by
  unfold talk at h
  split at h
  · split at h
    · cases h
    · exact .inl ⟨‹_›, (Option.some.inj h).symm⟩
  · obtain ⟨peer, hpeer, rfl⟩ := Option.map_eq_some_iff.mp h
    exact .inr ⟨_, peer, ‹_›, hpeer, rfl⟩

theorem talk_received {m : BackendMessage} {ok : Bool} (h : talk hear choice (.received m ok) s = some s') :
    ∃ b rest, s.bConn = some b ∧ b.peer.broken = false ∧ b.peer.unread = m :: rest ∧
      s' = { s with bConn := some { b with peer := { b.peer with unread := rest } } } := by
  unfold talk at h
  split at h
  · cases h
  · rename_i b hb
    obtain ⟨peer, hpeer, rfl⟩ := Option.map_eq_some_iff.mp h
    simp only [hears] at hpeer
    split at hpeer
    · rename_i hnext
      cases hpeer
      obtain ⟨rest, hrest⟩ := List.head?_eq_some_iff.mp hnext.2
      exact ⟨b, rest, hb, hnext.1, hrest, by rw [hrest, List.tail_cons]⟩
    · cases hpeer

theorem talk_message {env : Env} (h : talk hear choice (.message msg env) s = some s') : s' = s := by
  rcases talk_cases h with ⟨-, rfl⟩ | ⟨b, peer, hb, hpeer, rfl⟩
  · rfl
  · cases hpeer
    rw [← hb]

theorem talk_same (h : talk hear choice input s = some s') : s' = { s with bConn := s'.bConn } := by
  rcases talk_cases h with ⟨-, rfl⟩ | ⟨b, peer, -, -, rfl⟩ <;> rfl

def queued (sql : SQL γ) (msg : FrontendMessage) (s : Session γ) : List FrontendMessage :=
  if s.cfg.rawPassthrough then []
  else match s.prepCache with
    | none => [msg]
    | some clientPrep =>
      (s.intercept sql clientPrep msg).injected ++ (s.intercept sql clientPrep msg).forward.toList

structure Forwarded (sql : SQL γ) (msg : FrontendMessage) (s : Session γ) (b : Backend) (r : Res γ) : Prop where
  conn : ∃ prepared, r.1.bConn =
    some { b with sendBuf := b.sendBuf ++ (queued sql msg s).map fun m ↦ (s.id, m), prepared }
  writeBuf : r.1.writeBuf = s.writeBuf ++ if s.cfg.rawPassthrough then [msg] else []
  out : NoReady s.out → NoReady r.1.out
  tells : tells r.2 = []
  phase : r.1.phase = .flushing ∨ r.1.phase = .top
  drain : triggersBackendDrain msg = true → r.1.phase = .flushing
  kept : r.1.cfg = s.cfg ∧ r.1.guc = s.guc

theorem tells_forward (ms : List FrontendMessage) (b : ℕ) : tells (ms.map fun m ↦ .forward b m) = [] := by
  unfold tells
  simp

theorem afterForward_phase (msg : FrontendMessage) (s : Session γ) :
    (s.afterForward msg).phase = .flushing ∨ (s.afterForward msg).phase = .top := by
  unfold Session.afterForward
  split
  · exact .inl rfl
  · exact .inr rfl

theorem afterForward_drain (hmsg : triggersBackendDrain msg = true) (s : Session γ) :
    (s.afterForward msg).phase = .flushing := by
  unfold Session.afterForward
  rw [if_pos hmsg]

theorem afterForward_same (msg : FrontendMessage) (s : Session γ) :
    (s.afterForward msg).bConn = s.bConn ∧ (s.afterForward msg).writeBuf = s.writeBuf ∧
      (s.afterForward msg).out = s.out ∧ (s.afterForward msg).cfg = s.cfg ∧
      (s.afterForward msg).guc = s.guc := by
  unfold Session.afterForward
  split <;> exact ⟨rfl, rfl, rfl, rfl, rfl⟩

theorem noReady_intercept (c : PrepareCache) (msg : FrontendMessage) (s : Session γ) :
    ∀ m ∈ (s.intercept sql c msg).reply, statusOf m = [] := by
  intro m hm
  cases hmsg : prepares msg with
  | true => rcases (mild_intercept hmsg).reply m hm with rfl | rfl <;> rfl
  | false =>
    rw [Session.intercept, intercept_pass hmsg] at hm
    cases hm

theorem forwarded_send (hraw : s.cfg.rawPassthrough = false) {b b' : Backend} (hb : s'.bConn = some b')
    (hsame : ∃ prepared, b' = { b with prepared }) (hid : s'.id = s.id) (hbuf : s'.writeBuf = s.writeBuf)
    (hout : NoReady s.out → NoReady s'.out) (hkept : s'.cfg = s.cfg ∧ s'.guc = s.guc) :
    Forwarded sql msg s b ((s'.send (queued sql msg s)).andThen fun s ↦ (s.afterForward msg, [])) := by
  obtain ⟨prepared, rfl⟩ := hsame
  unfold Session.send
  rw [hb, hid]
  refine ⟨⟨prepared, ?_⟩, ?_, ?_, ?_, afterForward_phase msg _, fun hmsg ↦ afterForward_drain hmsg _, ?_⟩
  · exact (afterForward_same msg _).1
  · rw [hraw, if_neg (by simp), List.append_nil]
    exact (afterForward_same msg _).2.1.trans hbuf
  · intro hs
    rw [Res.andThen, (afterForward_same msg _).2.2.1]
    exact hout hs
  · rw [Res.andThen, List.append_nil, tells_forward]
  · rw [Res.andThen, (afterForward_same msg _).2.2.2.1, (afterForward_same msg _).2.2.2.2]
    exact hkept

theorem forwarded_forwardMessage {b : Backend} (hb : s.bConn = some b) (msg : FrontendMessage) :
    Forwarded sql msg s b (s.forwardMessage sql msg) := by
  unfold Session.forwardMessage
  split
  · rename_i hraw
    have hsame := afterForward_same msg { s with writeBuf := s.writeBuf ++ [msg] }
    refine ⟨⟨b.prepared, ?_⟩, ?_, ?_, rfl, afterForward_phase msg _, fun hmsg ↦ afterForward_drain hmsg _,
      hsame.2.2.2⟩
    · simpa [queued, hraw] using hsame.1.trans hb
    · rw [hraw, if_pos rfl]
      exact hsame.2.1
    · rw [hsame.2.2.1]
      exact id
  · rename_i hraw
    rw [Bool.not_eq_true] at hraw
    split
    · rename_i hprep
      have hqueued : queued sql msg s = [msg] := by simp [queued, hraw, hprep]
      rw [← hqueued]
      exact forwarded_send hraw hb ⟨b.prepared, rfl⟩ rfl rfl id ⟨rfl, rfl⟩
    · rename_i clientPrep hprep
      have hqueued : queued sql msg s = (s.intercept sql clientPrep msg).injected ++
          (s.intercept sql clientPrep msg).forward.toList := by simp [queued, hraw, hprep]
      have hconn : (s.applyIntercept (s.intercept sql clientPrep msg)).bConn =
          some { b with prepared := (s.intercept sql clientPrep msg).prepared } := by
        simp [Session.applyIntercept, hb]
      rw [← hqueued]
      refine forwarded_send hraw hconn ⟨_, rfl⟩ rfl rfl (fun hs p hp ↦ ?_) ⟨rfl, rfl⟩
      · rcases List.mem_append.mp hp with hp | hp
        · exact hs p hp
        · obtain ⟨m, hm, rfl⟩ := List.mem_map.mp hp
          exact noReady_intercept clientPrep msg s m hm

def interception (sql : SQL γ) (msg : FrontendMessage) (s : Session γ) (b : Backend) : Intercept :=
  match s.prepCache with
  | none => { clientPrep := {}, prepared := b.prepared, forward := some msg }
  | some clientPrep => prepareInterceptForward sql.serverNameFor clientPrep b.prepared msg

structure Unmoved (s s' : Session γ) : Prop where
  id : s'.id = s.id
  cfg : s'.cfg = s.cfg
  guc : s'.guc = s.guc
  state : s'.state = s.state
  sessionPinned : s'.sessionPinned = s.sessionPinned
  bConnPool : s'.bConnPool = s.bConnPool
  spliceReader : s'.spliceReader = s.spliceReader

/-- A client message has been passed on by `Serve`, in full. -/
structure Intercepted (sql : SQL γ) (msg : FrontendMessage) (s : Session γ) (b : Backend) (r : Res γ) : Prop
    extends Unmoved s r.1 where
  conn : r.1.bConn = some { b with
    sendBuf := b.sendBuf ++ (interception sql msg s b).queue.map fun m ↦ (s.id, m)
    prepared := (interception sql msg s b).prepared }
  prepCache : r.1.prepCache = s.prepCache.map fun _ ↦ (interception sql msg s b).clientPrep
  out : r.1.out = s.out ++ (interception sql msg s b).reply.map fun m ↦ (none, m)
  evictCC : r.1.pendingEvictCC = s.pendingEvictCC + (interception sql msg s b).evictCC
  parsePC : r.1.pendingParsePC = s.pendingParsePC + (interception sql msg s b).parsePC
  phase : r.1.phase = if triggersBackendDrain msg then .flushing else .top
  acts : r.2 = (interception sql msg s b).queue.map fun m ↦ .forward b.id m

theorem intercepted_forwardMessage (hraw : s.cfg.rawPassthrough = false) {b : Backend} (hb : s.bConn = some b)
    (msg : FrontendMessage) : Intercepted sql msg s b (s.forwardMessage sql msg) := by
  unfold Session.forwardMessage
  rw [if_neg (by simp [hraw])]
  cases hprep : s.prepCache with
  | none =>
    have hi : interception sql msg s b = { clientPrep := {}, prepared := b.prepared, forward := some msg } := by
      rw [interception, hprep]
    simp only [Session.send, hb, Res.andThen, Session.afterForward]
    split <;> refine ⟨⟨rfl, rfl, rfl, rfl, rfl, rfl, rfl⟩, ?_, ?_, ?_, ?_, ?_, ?_, ?_⟩ <;>
      simp [Intercept.queue, Session.loop, *]
  | some clientPrep =>
    have hi : interception sql msg s b = s.intercept sql clientPrep msg := by
      rw [interception, hprep, Session.intercept, hb]
      rfl
    simp only [Session.send, Session.applyIntercept, hb, Option.map_some, Res.andThen, Session.afterForward]
    split <;> refine ⟨⟨rfl, rfl, rfl, rfl, rfl, rfl, rfl⟩, ?_, ?_, ?_, ?_, ?_, ?_, ?_⟩ <;>
      simp [Intercept.queue, Session.loop, *]

section

variable (s : Session γ)

theorem tells_flush : tells s.flush.2 = [] := by
  unfold Session.flush
  split
  · rfl
  · exact tells_wrote _ _

theorem tells_writeBatch : tells s.writeBatch.2 = [] := by
  unfold Session.writeBatch
  split
  · split
    · rfl
    · unfold tells
      simp [List.filterMap_flatMap]
  · exact tells_flush s

theorem flush_fields :
    s.flush.1.phase = s.phase ∧ s.flush.1.state = s.state ∧ s.flush.1.out = s.out := by
  unfold Session.flush
  split <;> exact ⟨rfl, rfl, rfl⟩

theorem writeBatch_fields :
    s.writeBatch.1.phase = s.phase ∧ s.writeBatch.1.state = s.state ∧ s.writeBatch.1.out = s.out := by
  unfold Session.writeBatch
  split
  · split <;> exact ⟨rfl, rfl, rfl⟩
  · exact flush_fields s

end

theorem outgoing_flushing (hphase : s.phase = .flushing) (b : Backend) :
    outgoing s b = if s.cfg.rawPassthrough then s.writeBuf else b.sendBuf.map Prod.snd := by
  unfold outgoing
  rw [hphase]

def saying (extra : List (Option ℕ × BackendMessage)) (ok : Bool) (s : Session γ) : Res γ :=
  (({ s with out := s.out ++ extra } : Session γ).beFlush ok).andThen fun s ↦ (s.loop, [])

theorem tells_saying (hout : NoReady s.out) (extra : List (Option ℕ × BackendMessage)) (ok : Bool) :
    tells (saying extra ok s).2 = if ok then extra.flatMap (fun p ↦ statusOf p.2) else [] := by
  rw [saying, Res.andThen, List.append_nil]
  simp only [Session.beFlush]
  split
  · rw [tells_deliver, List.flatMap_append, List.flatMap_eq_nil_iff.mpr hout, List.nil_append]
  · rfl

theorem refused_eq (env : Env) (code text : String) (s : Session γ) : refused env code text s =
    saying [(none, .errorResponse "ERROR" code text), (none, .readyForQuery txIdle)] env.ok s := by
  simp [refused, saying, Session.sendErrorRFQ, Session.beSend]

/-- What the client is told in a step, its welcome aside. -/
def news (acts : List Act) : Event κ → List UInt8
  | .input (.greeted ..) _ => []
  | _ => tells acts

end PgRouter.Client.Exchange
