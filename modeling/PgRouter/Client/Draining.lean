import PgRouter.Client.Replies
import PgRouter.Client.Transmission

namespace PgRouter.Client.Draining

open Library.Runs Library.Records Protocol Prepared Servers Handler Effects Sharing Attachment Turns Exchange
open Rejections Transmission

section Servers

variable {srv srv' : Server} {m t : FrontendMessage} {k : Bool}

/-- Whether a client that reads a message is in copy-in mode after it. -/
def heed (k : Bool) : BackendMessage → Bool
  | .copyInResponse => true
  | .readyForQuery _ => false
  | _ => k

def view (k : Bool) (ms : List BackendMessage) : Bool := ms.foldl heed k

theorem view_append (k : Bool) (ms ms' : List BackendMessage) : view k (ms ++ ms') = view (view k ms) ms' :=
  List.foldl_append

theorem heed_unmarked {m : BackendMessage} (h : endMarker m = false) (k : Bool) : heed k m = k := by
  cases m <;> first | rfl | cases h

variable {ms : List BackendMessage}

theorem view_unmarked (h : ∀ m ∈ ms, endMarker m = false) (k : Bool) :
    view k ms = k := by
  induction ms with
  | nil => rfl
  | cons m ms ih =>
    rw [view, List.foldl_cons, heed_unmarked (h m (.head _))]
    exact ih fun m hm ↦ h m (.tail _ hm)

theorem view_marked (h : ∃ m ∈ ms, endMarker m = true) (k k' : Bool) :
    view k ms = view k' ms := by
  induction ms generalizing k k' with
  | nil => simp at h
  | cons m ms ih =>
    cases hm : endMarker m with
    | true =>
      have hsame : heed k m = heed k' m := by
        cases m <;> first | rfl | cases hm
      rw [view, view, List.foldl_cons, List.foldl_cons, hsame]
    | false =>
      obtain ⟨m', hm', hmark⟩ := h
      rw [view, view, List.foldl_cons, List.foldl_cons]
      rcases List.mem_cons.mp hm' with rfl | hm'
      · rw [hm] at hmark
        cases hmark
      · exact ih ⟨m', hm', hmark⟩ _ _

theorem copying_ends_none (h : srv.ends m .none = some srv') :
    (srv'.copying.isSome = true → srv.copying.isSome = true) ∧
      (srv.copying = some .simple → srv'.copying = some .simple) := by
  unfold Server.ends at h
  split at h
  · split at h <;> simp_all
  · split at h <;> simp_all

variable {replies : List BackendMessage} {ms : List FrontendMessage} {as : List Answer}

/-- As long as a server is in a `COPY`, a client that has read everything is in copy-in mode. -/
theorem view_answers
    (h : srv.answers ms as = some (srv', replies)) (hview : srv.copying.isSome = true → k = true) :
    srv'.copying.isSome = true → view k replies = true := by
  induction ms generalizing srv as replies k with
  | nil =>
    obtain ⟨rfl, rfl⟩ := Server.answers_nil h
    exact hview
  | cons m ms ih =>
    obtain ⟨a, as, first, last, mid, rfl, hfirst, hlast, rfl⟩ := Server.answers_cons h
    obtain ⟨hbody, hends, rfl⟩ := Server.answer_eq hfirst
    rw [view_append]
    refine ih hlast fun hmid ↦ ?_
    rw [view_append, view_unmarked hbody]
    cases hending : a.ending with
    | none =>
      rw [hending] at hends
      exact hview ((copying_ends_none hends).1 hmid)
    | ready txStatus =>
      rw [hending] at hends
      rw [Server.ends_ready hends] at hmid
      cases hmid
    | copyIn => rfl

/-- The message has a server that is in this state send an end marker. -/
def prompts (srv : Server) : FrontendMessage → Bool
  | .query _ | .sync => srv.copying == none
  | .copyDone | .copyFail => srv.copying == some .simple
  | _ => false

theorem marked_ending {a : Answer} (h : a.ending ≠ .none) : ∃ m ∈ a.body ++ a.ending.messages, endMarker m = true := by
  cases hending : a.ending with
  | none => exact absurd hending h
  | ready txStatus => exact ⟨.readyForQuery txStatus, by simp [Ending.messages], rfl⟩
  | copyIn => exact ⟨.copyInResponse, by simp [Ending.messages], rfl⟩

theorem ending_of_prompts {e : Ending} (h : srv.ends t e = some srv') (hprompts : prompts srv t = true) :
    e ≠ .none := by
  rintro rfl
  unfold Server.ends at h
  cases t <;> simp_all [prompts]

theorem prompts_of_copying (h : srv'.copying = srv.copying) : prompts srv' t = prompts srv t := by
  cases t <;> simp [prompts, h]

theorem answers_marked
    (h : srv.answers (ms ++ [t]) as = some (srv', replies)) (hprompts : prompts srv t = true) :
    ∃ m ∈ replies, endMarker m = true := by
  induction ms generalizing srv as replies with
  | nil =>
    obtain ⟨a, as, first, last, mid, rfl, hfirst, -, rfl⟩ := Server.answers_cons h
    obtain ⟨-, hends, rfl⟩ := Server.answer_eq hfirst
    obtain ⟨m, hm, hmark⟩ := marked_ending (ending_of_prompts hends hprompts)
    exact ⟨m, List.mem_append_left _ hm, hmark⟩
  | cons m ms ih =>
    obtain ⟨a, as, first, last, mid, rfl, hfirst, hlast, rfl⟩ := Server.answers_cons h
    obtain ⟨-, hends, rfl⟩ := Server.answer_eq hfirst
    by_cases hending : a.ending = .none
    · -- the state in which the last message finds the server is the one at the start
      rw [hending] at hends
      have hcopying : mid.copying = srv.copying := by
        cases hcopy : srv.copying with
        | none => rw [(Server.ends_none hends).2 hcopy, hcopy]
        | some mode =>
          have hmode : mode = .simple := by
            cases t <;> simp_all [prompts]
          rw [(copying_ends_none hends).2 (hmode ▸ hcopy), hmode]
      obtain ⟨x, hx, hmark⟩ := ih hlast (by rw [prompts_of_copying hcopying, hprompts])
      exact ⟨x, List.mem_append_right _ hx, hmark⟩
    · obtain ⟨x, hx, hmark⟩ := marked_ending hending
      exact ⟨x, List.mem_append_left _ hx, hmark⟩

end Servers

section Hearing

variable {batch : List FrontendMessage} {answers : List Answer} {p p' : Peer} {input : Input} {k : Bool}

def heard (k : Bool) : Input → Bool
  | .received m _ => heed k m
  | _ => k

def Foresees (k : Bool) (p : Peer) : Prop := p.server.copying.isSome = true → view k p.unread = true

def marked (p : Peer) : Bool := p.unread.any endMarker

variable {m : BackendMessage}

theorem hears_received {ok : Bool}
    (h : hears Server.answers batch answers p (.received m ok) = some p') :
    ∃ rest, p.unread = m :: rest ∧ p' = { p with unread := rest } := by
  simp only [hears] at h
  split at h
  · rename_i hhead
    cases h
    obtain ⟨rest, hrest⟩ := List.head?_eq_some_iff.mp hhead.2
    exact ⟨rest, hrest, by rw [hrest, List.tail_cons]⟩
  · cases h

theorem foresees_hears (h : hears Server.answers batch answers p input = some p') (hp : Foresees k p) :
    Foresees (heard k input) p' := by
  cases input with
  | sent ok =>
    simp only [hears] at h
    split at h
    · cases h
      exact hp
    · obtain ⟨⟨srv, replies⟩, hans, rfl⟩ := Option.map_eq_some_iff.mp h
      intro hcopy
      rw [view_append]
      exact view_answers hans hp hcopy
  | received m ok =>
    obtain ⟨rest, hrest, rfl⟩ := hears_received h
    intro hcopy
    have hview := hp hcopy
    rwa [hrest] at hview
  | _ =>
    cases h
    exact hp

def Settles (p : Peer) : Prop := Foresees false p ∨ ∀ m ∈ p.unread, statusOf m = []

theorem statusOf_unmarked (h : endMarker m = false) : statusOf m = [] := by
  cases m <;> first | rfl | cases h

theorem Settles.tail {rest : List BackendMessage} (h : Settles p)
    (hrest : p.unread = m :: rest) : Settles { p with unread := rest } ∧
      (statusOf m ≠ [] → Foresees false { p with unread := rest }) := by
  rcases h with h | h
  · have hview (hcopy : p.server.copying.isSome = true) : view (heed false m) rest = true := by
      have hview := h hcopy
      rwa [hrest] at hview
    cases hmarked : rest.any endMarker with
    | true =>
      -- the next marker decides
      have hforesees : Foresees false { p with unread := rest } := by
        intro hcopy
        rw [view_marked (List.any_eq_true.mp hmarked) false (heed false m)]
        exact hview hcopy
      exact ⟨.inl hforesees, fun _ ↦ hforesees⟩
    | false =>
      refine ⟨.inr fun x hx ↦ statusOf_unmarked (by simpa using List.any_eq_false.mp hmarked x hx), ?_⟩
      intro hstatus hcopy
      have hready : heed false m = false := by
        cases m <;> first | rfl | exact absurd rfl hstatus
      rw [← hready]
      exact hview hcopy
  · rw [hrest] at h
    exact ⟨.inr fun x hx ↦ h x (.tail _ hx), fun hstatus ↦ absurd (h m (.head _)) hstatus⟩

theorem Foresees.unasked (h : Foresees k p) (hm : endMarker m = false) :
    Foresees k { p with unread := p.unread ++ [m] } := by
  intro hcopy
  rw [view_append, view_unmarked (by simpa using hm)]
  exact h hcopy

theorem Settles.unasked (h : Settles p) (hm : endMarker m = false) :
    Settles { p with unread := p.unread ++ [m] } := by
  refine h.imp (fun h ↦ h.unasked hm) fun h x hx ↦ ?_
  rcases List.mem_append.mp hx with hx | hx
  · exact h x hx
  · rw [List.mem_singleton.mp hx]
    exact statusOf_unmarked hm

theorem marked_hears {ms : List FrontendMessage} {t : FrontendMessage} {ok : Bool}
    (h : hears Server.answers (ms ++ [t]) answers p (.sent ok) = some p') (hlive : p.broken = false)
    (hp : marked p = true ∨ prompts p.server t = true) : marked p' = true := by
  simp only [hears] at h
  split at h
  · rename_i hbroken
    rw [hlive] at hbroken
    cases hbroken
  · obtain ⟨⟨srv, replies⟩, hans, rfl⟩ := Option.map_eq_some_iff.mp h
    rw [marked, List.any_append, Bool.or_eq_true]
    rcases hp with hp | hp
    · exact .inl hp
    · exact .inr (List.any_eq_true.mpr (answers_marked hans hp))

end Hearing

section Sessions

variable {γ : Type} {sql : SQL γ} {s s' : Session γ} {r : Res γ} {answers : List Answer} {input : Input}
  {k : Bool} {msg : FrontendMessage} {env : Env}

def copies : FrontendMessage → Bool
  | .copyData _ | .copyDone | .copyFail => true
  | _ => false

/-- The messages that have their place in copy-in mode. A server that is in a `COPY` takes no notice of
`Flush` and `Sync`. -/
def duringCopy : FrontendMessage → Bool
  | .copyData _ | .copyDone | .copyFail | .flush | .sync | .terminate => true
  | _ => false

def valid (k : Bool) (msg : FrontendMessage) : Bool := if k then duringCopy msg else !copies msg

/-- A `CopyDone` or `CopyFail` comes in a `COPY` that a `Query` has started, a `Sync` in copy-in mode comes
after the end of the `COPY`. -/
def timely (k : Bool) (copying : Option CopyMode) : FrontendMessage → Bool
  | .copyDone | .copyFail => copying == some .simple
  | .sync => !k || copying == none
  | _ => true

theorem prompts_of_timely {p : Peer} (hforesees : Foresees k p) (hvalid : valid k msg = true)
    (htimely : timely k p.server.copying msg = true) (htrigger : triggersBackendDrain msg = true) :
    marked p = true ∨ prompts p.server msg = true := by
  cases hmarked : marked p with
  | true => exact .inl rfl
  | false =>
    have hunmarked : view k p.unread = k := view_unmarked (by simpa [marked] using hmarked) k
    rw [Foresees, hunmarked] at hforesees
    have hnone (hk : k = false) : p.server.copying = none := by
      cases hcopy : p.server.copying with
      | none => rfl
      | some mode =>
        rw [hcopy, hk] at hforesees
        cases hforesees rfl
    right
    cases msg with
    | query text =>
      have hk : k = false := by
        cases k with
        | true => cases hvalid
        | false => rfl
      simp [prompts, hnone hk]
    | sync =>
      cases k with
      | true => exact htimely
      | false => simp [prompts, hnone rfl]
    | copyDone | copyFail => exact htimely
    | _ => cases htrigger

structure Agrees (k : Bool) (s : Session γ) : Prop where
  detached : s.bConn = none → k = false
  foresees : ∀ b, s.bConn = some b → isOver s.phase = false → waiting s.phase = false → Foresees k b.peer
  phase : match s.phase with
    | .acquiring msg _ => s.bConn = none ∧ copies msg = false
    | .replayFlush msg => copies msg = false ∧ k = false ∧ ∀ b, s.bConn = some b → Foresees false b.peer
    | .replaying msg => copies msg = false ∧ k = false ∧ ∀ b, s.bConn = some b → Settles b.peer
    | .flushing => ∃ b ms t, s.bConn = some b ∧ outgoing s b = ms ++ [t] ∧
      (marked b.peer = true ∨ prompts b.peer.server t = true)
    | _ => True

theorem agrees_over (h : isOver s.phase = true) (k : Bool) : Agrees (s.bConn.isSome && k) s := by
  refine ⟨fun hnone ↦ by rw [hnone]; rfl, fun b _ hover ↦ ?_, ?_⟩
  · rw [h] at hover
    cases hover
  · cases hphase : s.phase with
    | resetFlush | resetting | returned => trivial
    | _ =>
      rw [hphase] at h
      cases h

def atRest : Phase → Bool
  | .welcome | .greeting | .top | .polling | .draining _ => true
  | _ => false

theorem agrees_rest (h : atRest s.phase = true) (hforesees : ∀ b, s.bConn = some b → Foresees k b.peer) :
    Agrees (s.bConn.isSome && k) s := by
  refine ⟨fun hnone ↦ by rw [hnone]; rfl, fun b hb _ _ ↦ ?_, ?_⟩
  · rw [hb]
    exact hforesees b hb
  · cases hphase : s.phase with
    | welcome | greeting | top | polling | draining => trivial
    | _ =>
      rw [hphase] at h
      cases h

variable (sql) in
theorem phase_forwardMessage (msg : FrontendMessage) (s : Session γ) :
    (s.forwardMessage sql msg).1.phase = if triggersBackendDrain msg then .flushing else .top := by
  have hafter (t : Session γ) : (t.afterForward msg).phase = if triggersBackendDrain msg then .flushing else .top := by
    unfold Session.afterForward
    split <;> rfl
  unfold Session.forwardMessage
  split
  · exact hafter _
  · split <;> exact hafter _

theorem queued_trigger (htrigger : triggersBackendDrain msg = true) (hraw : s.cfg.rawPassthrough = false) :
    queued sql msg s = [msg] := by
  have hprepares : prepares msg = false := by
    cases msg <;> first | rfl | cases htrigger
  unfold queued
  rw [if_neg (by simp [hraw])]
  split
  · rfl
  · rw [Session.intercept, intercept_pass hprepares]
    rfl

variable {b : Backend}

theorem agrees_forward (hb : s.bConn = some b) (hforesees : Foresees k b.peer)
    (hvalid : valid k msg = true) (htimely : timely k b.peer.server.copying msg = true) :
    Agrees ((s.forwardMessage sql msg).1.bConn.isSome && k) (s.forwardMessage sql msg).1 := by
  have hf : Forwarded sql msg s b (s.forwardMessage sql msg) := forwarded_forwardMessage hb msg
  have hphase := phase_forwardMessage sql msg s
  generalize s.forwardMessage sql msg = r at hf hphase ⊢
  obtain ⟨prepared, hconn⟩ := hf.conn
  cases htrigger : triggersBackendDrain msg with
  | false =>
    rw [htrigger, if_neg Bool.false_ne_true] at hphase
    refine agrees_rest (by rw [hphase]; rfl) fun b' hb' ↦ ?_
    cases hconn.symm.trans hb'
    exact hforesees
  | true =>
    rw [htrigger, if_pos rfl] at hphase
    refine ⟨fun hnone ↦ by rw [hnone]; rfl, fun b' hb' _ _ ↦ ?_, ?_⟩
    · cases hconn.symm.trans hb'
      rw [hconn]
      exact hforesees
    · rw [hphase]
      obtain ⟨ms, hbatch⟩ : ∃ ms, outgoing r.1 { b with
          sendBuf := b.sendBuf ++ (queued sql msg s).map fun m ↦ (s.id, m), prepared } = ms ++ [msg] := by
        rw [outgoing_flushing hphase, hf.kept.1]
        cases hraw : s.cfg.rawPassthrough with
        | true => exact ⟨s.writeBuf, by rw [if_pos rfl, hf.writeBuf, if_pos hraw]⟩
        | false =>
          refine ⟨b.sendBuf.map Prod.snd, ?_⟩
          rw [if_neg Bool.false_ne_true, queued_trigger htrigger hraw, List.map_append]
          rfl
      exact ⟨_, ms, msg, hconn, hbatch, prompts_of_timely hforesees hvalid htimely htrigger⟩

/-- Whether the client is in copy-in mode after an input: it has read the `CopyInResponse` of its backend and
no `ReadyForQuery` since. -/
def modeAfter (phase : Phase) (input : Input) (k : Bool) : Bool :=
  match phase with
  | .draining _ | .polling => heard k input
  | _ => k

def Replays (input : Input) (p : Peer) : Prop :=
  match input with
  | .received m _ => Settles p ∧ (statusOf m ≠ [] → Foresees false p)
  | _ => True

structure Met (k : Bool) (input : Input) (s : Session γ) : Prop where
  detached : s.bConn = none → k = false
  foresees : ∀ b, s.bConn = some b → isOver s.phase = false → waiting s.phase = false →
    Foresees (heard k input) b.peer
  phase : match s.phase with
    | .acquiring msg _ => s.bConn = none ∧ copies msg = false
    | .replayFlush msg => copies msg = false ∧ k = false ∧ ∀ b, s.bConn = some b → Foresees (heard false input) b.peer
    | .replaying msg => copies msg = false ∧ k = false ∧ ∀ b, s.bConn = some b → Replays input b.peer
    | .flushing => ∃ b, s.bConn = some b ∧ ∀ ok, input = .sent ok → marked b.peer = true
    | _ => True

def reached (s : Session γ) : Input → Bool
  | .sent _ => s.bConn.all fun b ↦ !b.peer.broken
  | _ => true

theorem met_of_talk (hs : Agrees k s) (hreached : reached s input = true)
    (htalk : talk Server.answers answers input s = some s') : Met k input s' := by
  have hphase := hs.phase
  rcases talk_cases htalk with ⟨hnone, rfl⟩ | ⟨b, peer, hb, hpeer, rfl⟩
  · refine ⟨hs.detached, by simp [hnone], ?_⟩
    cases hp : s'.phase with
    | acquiring msg pool =>
      rw [hp] at hphase
      exact hphase
    | replayFlush msg | replaying msg =>
      rw [hp] at hphase
      exact ⟨hphase.1, hphase.2.1, by simp [hnone]⟩
    | flushing =>
      rw [hp] at hphase
      obtain ⟨b, ms, t, hb, -⟩ := hphase
      rw [hnone] at hb
      cases hb
    | _ => trivial
  · have hone (b' : Backend) (hb' : some { b with peer } = some b') : b'.peer = peer := by
      cases hb'
      rfl
    refine ⟨nofun, fun b' hb' hover hwait ↦ ?_, ?_⟩
    · rw [hone b' hb']
      exact foresees_hears hpeer (hs.foresees b hb hover hwait)
    · change match s.phase with
        | .acquiring msg _ => some { b with peer } = none ∧ copies msg = false
        | .replayFlush msg => copies msg = false ∧ k = false ∧ ∀ b', some { b with peer } = some b' →
          Foresees (heard false input) b'.peer
        | .replaying msg => copies msg = false ∧ k = false ∧
          ∀ b', some { b with peer } = some b' → Replays input b'.peer
        | .flushing => ∃ b', some { b with peer } = some b' ∧ ∀ ok, input = .sent ok → marked b'.peer = true
        | _ => True
      cases hp : s.phase with
      | acquiring msg pool =>
        rw [hp] at hphase
        rw [hphase.1] at hb
        cases hb
      | replayFlush msg =>
        rw [hp] at hphase
        refine ⟨hphase.1, hphase.2.1, fun b' hb' ↦ ?_⟩
        rw [hone b' hb']
        exact foresees_hears hpeer (hphase.2.2 b hb)
      | replaying msg =>
        rw [hp] at hphase
        refine ⟨hphase.1, hphase.2.1, fun b' hb' ↦ ?_⟩
        rw [hone b' hb']
        cases input with
        | received m ok =>
          obtain ⟨rest, hrest, rfl⟩ := hears_received hpeer
          exact (hphase.2.2 b hb).tail hrest
        | _ => trivial
      | flushing =>
        rw [hp] at hphase
        obtain ⟨b₁, ms, t, hb₁, hbatch, hmarked⟩ := hphase
        cases hb.symm.trans hb₁
        refine ⟨_, rfl, ?_⟩
        rintro ok rfl
        rw [hbatch] at hpeer
        exact marked_hears hpeer (by simpa [reached, hb] using hreached) hmarked
      | _ => trivial

theorem agrees_handled (hs : Met k (.message msg env) s) (hphase : s.phase = .top) (h : Outcome sql env msg s r)
    (hvalid : valid k msg = true)
    (htimely : timely k (s.bConn.bind fun b ↦ b.peer.server.copying) msg = true) :
    Agrees (r.1.bConn.isSome && k) r.1 := by
  have hforesees (b : Backend) (hb : s.bConn = some b) : Foresees k b.peer :=
    hs.foresees b hb (by rw [hphase]; rfl) (by rw [hphase]; rfl)
  cases h with
  | answered _ hrests =>
    refine agrees_rest (by rw [hrests.phase]; rfl) fun b hb ↦ hforesees b ?_
    rw [← hrests.conn, hb]
  | waits _ hnone hframe pool =>
    have hconn := hframe.bConn.trans hnone
    have hk := hs.detached hnone
    subst hk
    refine ⟨fun _ ↦ Bool.and_false _, fun b hb ↦ ?_, hconn, by simpa [valid] using hvalid⟩
    rw [hconn] at hb
    cases hb
  | @forwarded t _ hsome hframe =>
    obtain ⟨b, hb⟩ := Option.isSome_iff_exists.mp hsome
    refine agrees_forward (hframe.bConn.trans hb) (hforesees b hb) hvalid ?_
    rw [hb] at htimely
    exact htimely
  | @ignored t _ hnone _ hframe =>
    refine agrees_rest rfl fun b hb ↦ ?_
    rw [Session.loop, hframe.bConn, hnone] at hb
    cases hb

theorem timely_of_copies (h : copies msg = false) (copying : Option CopyMode) :
    valid false msg = true ∧ timely false copying msg = true := by
  cases msg <;> first | exact ⟨rfl, rfl⟩ | cases h

theorem heard_still (h : still input = true) (k : Bool) : heard k input = k := by
  cases input <;> first | rfl | cases h

theorem peer_adopt (pool : ℕ) (b : Backend) (s : Session γ) :
    ∃ b', (s.adopt pool b).bConn = some b' ∧ b'.peer = b.peer := by
  refine ⟨_, rfl, ?_⟩
  split <;> rfl

theorem peer_ask {query : Text} (h : (s.ask query).bConn = some b) :
    ∃ b', s.bConn = some b' ∧ b.peer = b'.peer := by
  obtain ⟨b', hb', rfl⟩ := Option.map_eq_some_iff.mp h
  exact ⟨b', hb', rfl⟩

theorem agrees_attach (hcopies : copies msg = false) (pool : ℕ)
    (hb : b.peer.server.copying = none) (s : Session γ) :
    Agrees ((s.attach sql msg pool b).1.bConn.isSome && false) (s.attach sql msg pool b).1 := by
  obtain ⟨b', hb', hpeer⟩ := peer_adopt pool b s
  have hforesees : Foresees false b'.peer := by
    rw [Foresees, hpeer, hb]
    nofun
  unfold Session.attach
  split
  · exact agrees_forward hb' hforesees (timely_of_copies hcopies none).1 (timely_of_copies hcopies _).2
  · refine ⟨fun _ ↦ Bool.and_false _, fun b _ _ hwait ↦ (by cases hwait), hcopies, Bool.and_false _, fun b₁ hb₁ ↦ ?_⟩
    obtain ⟨b₂, hb₂, hask⟩ := peer_ask (s := s.adopt pool b) hb₁
    cases hb'.symm.trans hb₂
    rw [hask]
    exact hforesees

theorem conn_idles {told : List UInt8} (h : Idles told s r) (hover : isOver r.1.phase = false)
    (hb : r.1.bConn = some b) : s.bConn = some b := by
  rcases h.conn with hnone | ⟨-, -, hover' | hconn⟩
  · rw [hnone] at hb
    cases hb
  · rw [hover] at hover'
    cases hover'
  · rw [← hconn, hb]

theorem over_of_atRest {phase : Phase} (h : atRest phase = true) : isOver phase = false ∧ waiting phase = false := by
  cases phase <;> first | exact ⟨rfl, rfl⟩ | cases h

theorem agrees_of_step (hs : Met k input s) (hstep : s.step sql input = some r)
    (hsome : ∀ m ok, input = .received m ok → s.bConn.isSome = true)
    (hmessage : ∀ msg env, input = .message msg env →
      valid k msg = true ∧ timely k (s.bConn.bind fun b ↦ b.peer.server.copying) msg = true)
    (hacquired : ∀ b, input = .acquired b → b.peer.server.copying = none) :
    Agrees (r.1.bConn.isSome && modeAfter s.phase input k) r.1 := by
  have hmet := hs.phase
  have hmode {phase : Phase} (hphase : s.phase = phase) : modeAfter s.phase input k = modeAfter phase input k := by
    rw [hphase]
  have hlost (hnext : isOver r.1.phase = true ∨ r.1.phase = .top ∧ r.1.bConn = none) (k : Bool) :
      Agrees (r.1.bConn.isSome && k) r.1 := by
    rcases hnext with hover | ⟨hphase, hnone⟩
    · exact agrees_over hover k
    · exact agrees_rest (by rw [hphase]; rfl) (by simp [hnone])
  -- the backend is the same, and the client has read what the session has
  have hsame {phase : Phase} (hphase : s.phase = phase) (hrest : atRest phase = true)
      (hconn : ∀ b, r.1.bConn = some b → ∃ b', s.bConn = some b' ∧ b.peer = b'.peer)
      (hnext : atRest r.1.phase = true) (hk : modeAfter phase input k = heard k input) :
      Agrees (r.1.bConn.isSome && modeAfter s.phase input k) r.1 := by
    rw [hmode hphase, hk]
    refine agrees_rest hnext fun b hb ↦ ?_
    obtain ⟨b', hb', hpeer⟩ := hconn b hb
    rw [hpeer]
    rw [← hphase] at hrest
    exact hs.foresees b' hb' (over_of_atRest hrest).1 (over_of_atRest hrest).2
  cases turn_of_step hstep with
  | stays hinput hphase hidle hconn hnext =>
    have hrest : atRest s.phase = true := by
      cases hp : s.phase with
      | top | polling | welcome => rfl
      | _ =>
        rw [hp] at hphase
        cases hphase
    have hrest' : atRest r.1.phase = true := by
      cases hp : r.1.phase with
      | top | polling | greeting => rfl
      | _ =>
        rw [hp] at hnext
        cases hnext
    refine hsame rfl hrest (fun b hb ↦ ⟨b, by rw [← hconn, hb], rfl⟩) hrest' ?_
    unfold modeAfter
    split <;> rw [heard_still hinput]
  | leaves _ _ hidle hnext => exact hlost (.inl (over_of_closing hnext)) _
  | timedOut hphase ok => exact hlost (.inr ⟨rfl, Session.discard_bConn s⟩) _
  | resets _ hover hidle hnext => exact hlost hnext _
  | greeted hphase params key ok =>
    cases ok with
    | true =>
      rcases hphase with hphase | hphase <;> exact hsame hphase rfl (fun b hb ↦ ⟨b, hb, rfl⟩) rfl rfl
    | false => exact hlost (.inl rfl) _
  | @message hphase msg hmsg env r hhandled =>
    obtain ⟨-, rfl⟩ := message_of_step hstep
    obtain ⟨hvalid, htimely⟩ := hmessage msg env rfl
    rw [hmode hphase]
    exact agrees_handled hs hphase (outcome_of_message hmsg _ s) hvalid htimely
  | @acquired msg pool hphase b =>
    rw [hmode hphase]
    rw [hphase] at hmet
    obtain rfl := hs.detached hmet.1
    exact agrees_attach hmet.2 pool (hacquired b rfl) s
  | @replaySent msg hphase ok =>
    rw [hmode hphase]
    rw [hphase] at hmet
    obtain ⟨hcopies, rfl, hforesees⟩ := hmet
    refine ⟨fun _ ↦ Bool.and_false _, fun b _ _ hwait ↦ ?_, ?_⟩
    · rw [Session.flush_phase] at hwait
      cases hwait
    · rw [Session.flush_phase]
      refine ⟨hcopies, Bool.and_false _, fun b hb ↦ .inl ?_⟩
      obtain ⟨b', hb', hpeer⟩ := flush_conn hb
      rw [hpeer]
      exact hforesees b' hb'
  | @replayWaits msg hphase m ok hm =>
    rw [hmode hphase]
    rw [hphase] at hmet
    obtain ⟨hcopies, rfl, hreplays⟩ := hmet
    refine ⟨fun _ ↦ Bool.and_false _, fun b _ _ hwait ↦ ?_, ?_⟩
    · rw [hphase] at hwait
      cases hwait
    · rw [hphase]
      exact ⟨hcopies, Bool.and_false _, fun b hb ↦ (hreplays b hb).1⟩
  | @replayed msg hphase txStatus ok =>
    rw [hmode hphase]
    rw [hphase] at hmet
    obtain ⟨hcopies, rfl, hreplays⟩ := hmet
    obtain ⟨b, hb⟩ := Option.isSome_iff_exists.mp (hsome _ ok rfl)
    exact agrees_forward hb ((hreplays b hb).2 (by simp [statusOf])) (timely_of_copies hcopies none).1
      (timely_of_copies hcopies _).2
  | sent hphase ok =>
    have hdrain := idles_startDrain ok s.writeBatch.1
    rw [hmode hphase]
    rcases phase_startDrain ok s.writeBatch.1 with hover | hnext
    · exact agrees_over hover _
    · have hrest : atRest (s.writeBatch.1.startDrain ok).1.phase = true := by
        rcases hnext with h | ⟨splicing, h⟩ <;> rw [h] <;> rfl
      refine agrees_rest hrest fun b hb ↦ ?_
      obtain ⟨b', hb', hpeer⟩ := writeBatch_conn (conn_idles hdrain (over_of_atRest hrest).1 hb)
      rw [hpeer]
      exact hs.foresees b' hb' (by rw [hphase]; rfl) (by rw [hphase]; rfl)
  | withheldCC hphase ok _ | withheldPC hphase ok _ =>
    exact hsame hphase rfl (fun b hb ↦ ⟨b, hb, rfl⟩) (by rw [hphase]; rfl) rfl
  | drained hphase m ok =>
    have hidle := idles_passOn (s := s) (by rw [hphase]; rfl) m ok
    rcases phase_passOn m ok s with hover | hnext
    · exact hlost (.inl hover) _
    · have hrest : atRest (passOn m ok s).1.phase = true := by
        rcases hnext with h | h <;> rw [h.2]
        · rfl
        · rw [hphase]
          rfl
      exact hsame hphase rfl (fun b hb ↦ ⟨b, conn_idles hidle (over_of_atRest hrest).1 hb, rfl⟩) hrest rfl
  | cutOff hphase ok => exact hsame hphase rfl (fun b hb ↦ ⟨b, hb, rfl⟩) rfl rfl
  | polled hphase m ok =>
    cases ok with
    | true =>
      have hnext : (s.pollReceived m true).1.phase = .polling := hphase
      exact hsame hphase rfl (fun b hb ↦ ⟨b, hb, rfl⟩) (by rw [hnext]; rfl) rfl
    | false => exact hlost (.inl (over_of_closing (closing_pollReceived m s))) _

theorem conn_startDrain {ok splicing : Bool} (h : (s.startDrain ok).1.phase = .draining splicing) :
    (s.startDrain ok).1.bConn = s.bConn := by
  unfold Session.startDrain at h ⊢
  split at h
  · rename_i hsplice
    rw [if_pos hsplice]
    cases ok with
    | true => rfl
    | false =>
      have hover := over_leave (s.beFlush false).1
      rw [Res.andThen, if_neg Bool.false_ne_true] at h
      rw [h] at hover
      cases hover
  · rename_i hsplice
    rw [if_neg hsplice]

theorem conn_writeBatch (hb : s.bConn = some b) :
    ∃ b', s.writeBatch.1.bConn = some b' ∧ b'.peer = b.peer := by
  unfold Session.writeBatch Session.flush
  rw [hb]
  split
  · exact ⟨b, rfl, rfl⟩
  · exact ⟨_, rfl, rfl⟩

theorem marked_entered (hs : Met k input s) (hphase : s.phase = .flushing) (hstep : s.step sql input = some r)
    {splicing : Bool} (hnext : r.1.phase = .draining splicing) :
    ∃ b, r.1.bConn = some b ∧ ∃ m ∈ b.peer.unread, endMarker m = true := by
  have hmet := hs.phase
  rw [hphase] at hmet
  obtain ⟨b, hb, hmarked⟩ := hmet
  have hother {phase : Phase} (h : s.phase = phase) (hne : phase ≠ .flushing) : False := by
    rw [hphase] at h
    exact hne h.symm
  cases turn_of_step hstep with
  | stays _ hcalm =>
    rw [hphase] at hcalm
    cases hcalm
  | leaves _ _ _ hclosing =>
    rw [hnext] at hclosing
    cases hclosing
  | resets _ hover =>
    rw [hphase] at hover
    cases hover
  | greeted h => rcases h with h | h <;> exact (hother h nofun).elim
  | sent _ ok =>
    obtain ⟨b', hb', hpeer⟩ := conn_writeBatch hb
    refine ⟨b', (conn_startDrain hnext).trans hb', ?_⟩
    rw [hpeer]
    exact List.any_eq_true.mp (hmarked ok rfl)
  | timedOut h | message h | acquired h | replaySent h | replayWaits h | replayed h | withheldCC h | withheldPC h
  | drained h | cutOff h | polled h => exact (hother h nofun).elim

end Sessions

section Runs

variable {γ : Type} {sql : SQL γ} {r : Res γ}

abbrev Exchanged (γ : Type) := Entry (Session γ) (Event (List Answer)) (List Act)

def modeOf (k : Bool) (x : Exchanged γ) : Bool :=
  x.after.bConn.isSome && match x.event with
    | .input i _ => modeAfter x.before.phase i k
    | .notice _ => k

def copyMode (past : List (Exchanged γ)) : Bool := past.foldl modeOf false

/-- The client keeps to the protocol, and a server that has been written to has got the batch. -/
def orderly (c : Log γ (List Answer)) : Event (List Answer) → Bool
  | .input (.message msg _) _ => valid (copyMode c.past) msg
  | .input input _ => reached c.current input
  | .notice _ => true

/-- The client ends only a `COPY` that a `Query` has started, and in copy-in mode it sends a `Sync` only once the
`COPY` is over. A backend that comes from the pool is not in a `COPY`. -/
def plainCopy (c : Log γ (List Answer)) : Event (List Answer) → Bool
  | .input (.message msg _) _ =>
    timely (copyMode c.past) (c.current.bConn.bind fun b ↦ b.peer.server.copying) msg
  | .input (.acquired b) _ => b.peer.server.copying == none
  | _ => true

structure Enters (x : Exchanged γ) : Prop where
  flushed : x.before.phase = .flushing
  draining : ∃ splicing, x.after.phase = .draining splicing

theorem agrees_unasked {k : Bool} {s : Session γ} {m : BackendMessage} (hs : Agrees k s)
    (hm : endMarker m = false) : Agrees ((s.bConn.map (Backend.unasked m)).isSome && k)
      { s with bConn := s.bConn.map (Backend.unasked m) } := by
  have hphase := hs.phase
  refine ⟨fun hnone ↦ ?_, fun b' hb' hover hwait ↦ ?_, ?_⟩
  · rw [Option.map_eq_none_iff.mp hnone]
    rfl
  · obtain ⟨b, hb, rfl⟩ := Option.map_eq_some_iff.mp hb'
    rw [hb]
    exact (hs.foresees b hb hover hwait).unasked hm
  · change match s.phase with
      | .acquiring msg _ => s.bConn.map (Backend.unasked m) = none ∧ copies msg = false
      | .replayFlush msg => copies msg = false ∧ _ ∧
        ∀ b, s.bConn.map (Backend.unasked m) = some b → Foresees false b.peer
      | .replaying msg => copies msg = false ∧ _ ∧ ∀ b, s.bConn.map (Backend.unasked m) = some b → Settles b.peer
      | .flushing => ∃ b ms t, s.bConn.map (Backend.unasked m) = some b ∧ outgoing s b = ms ++ [t] ∧
        (marked b.peer = true ∨ prompts b.peer.server t = true)
      | _ => True
    cases hp : s.phase with
    | acquiring msg pool =>
      rw [hp] at hphase
      exact ⟨Option.map_eq_none_iff.mpr hphase.1, hphase.2⟩
    | replayFlush msg =>
      rw [hp] at hphase
      obtain ⟨hcopies, rfl, hforesees⟩ := hphase
      refine ⟨hcopies, Bool.and_false _, fun b' hb' ↦ ?_⟩
      obtain ⟨b, hb, rfl⟩ := Option.map_eq_some_iff.mp hb'
      exact (hforesees b hb).unasked hm
    | replaying msg =>
      rw [hp] at hphase
      obtain ⟨hcopies, rfl, hsettles⟩ := hphase
      refine ⟨hcopies, Bool.and_false _, fun b' hb' ↦ ?_⟩
      obtain ⟨b, hb, rfl⟩ := Option.map_eq_some_iff.mp hb'
      exact (hsettles b hb).unasked hm
    | flushing =>
      rw [hp] at hphase
      obtain ⟨b, ms, t, hb, hbatch, hmarked⟩ := hphase
      refine ⟨Backend.unasked m b, ms, t, by rw [hb]; rfl, hbatch, hmarked.imp_left fun h ↦ ?_⟩
      rw [marked, Backend.unasked, List.any_append]
      exact Bool.or_eq_true_iff.mpr (.inl h)
    | _ => trivial

theorem agrees_step {c : Log γ (List Answer)} {e : Event (List Answer)} (hc : Agrees (copyMode c.past) c.current)
    (horderly : orderly c e = true) (hplain : plainCopy c e = true)
    (hstep : Exchange.step sql Server.answers c.current e = some r) :
    Agrees (copyMode (c.past ++ [⟨c.current, e, r.1, r.2⟩])) r.1 ∧
      (Enters ⟨c.current, e, r.1, r.2⟩ → ∃ b, r.1.bConn = some b ∧ ∃ m ∈ b.peer.unread, endMarker m = true) := by
  have hmode : copyMode (c.past ++ [⟨c.current, e, r.1, r.2⟩]) =
      modeOf (copyMode c.past) ⟨c.current, e, r.1, r.2⟩ := by
    rw [copyMode, List.foldl_append]
    rfl
  rw [hmode]
  cases e with
  | notice m =>
    simp only [Exchange.step] at hstep
    split at hstep
    · cases hstep
    · rename_i hmark
      cases hstep
      refine ⟨?_, fun henters ↦ ?_⟩
      · exact agrees_unasked hc (by simpa using hmark)
      · obtain ⟨splicing, hnext⟩ := henters.draining
        cases henters.flushed.symm.trans hnext
  | input i choice =>
    obtain ⟨s, htalk, hstep⟩ := Option.bind_eq_some_iff.mp hstep
    have hphase : s.phase = c.current.phase := by rw [talk_same htalk]
    have hreached : reached c.current i = true := by
      cases i with
      | message msg env => rfl
      | _ => exact horderly
    have hmet := met_of_talk hc hreached htalk
    refine ⟨?_, fun henters ↦ ?_⟩
    · have hagrees : Agrees (r.1.bConn.isSome && modeAfter s.phase i (copyMode c.past)) r.1 := by
        refine agrees_of_step hmet hstep ?_ ?_ ?_
        · rintro m ok rfl
          obtain ⟨b, rest, -, -, -, rfl⟩ := talk_received htalk
          rfl
        · rintro msg env rfl
          obtain rfl := talk_message htalk
          exact ⟨horderly, hplain⟩
        · rintro b rfl
          exact beq_iff_eq.mp hplain
      rw [hphase] at hagrees
      exact hagrees
    · obtain ⟨splicing, hnext⟩ := henters.draining
      exact marked_entered hmet (hphase.trans henters.flushed) hstep hnext

/-- In every run in which the client keeps to the protocol and ends only a `COPY` that a `Query` has started,
whenever a drain begins there is an end marker to come: what has been sent to the backend makes it send a
`ReadyForQuery` or `CopyInResponse` that has not been read yet. -/
theorem drain_owed {id : ℕ} {cfg : PooledConfig} {es : List (Event (List Answer))} {c : Log γ (List Answer)}
    (hrun : Run (recorded (Exchange.step sql Server.answers)) (fun c e ↦ orderly c e && plainCopy c e)
      (start (Session.new sql id cfg)) es c)
    {before after : List (Exchanged γ)} {x : Exchanged γ} (hsplit : c.past = before ++ x :: after)
    (henters : Enters x) : ∃ b, x.after.bConn = some b ∧ ∃ m ∈ b.peer.unread, endMarker m = true := by
  have hkeep (c : Log γ (List Answer)) (e : Event (List Answer)) (r : Res γ)
      (hc : Agrees (copyMode c.past) c.current) (hguard : (orderly c e && plainCopy c e) = true)
      (hstep : Exchange.step sql Server.answers c.current e = some r) :=
    agrees_step hc (Bool.and_eq_true_iff.mp hguard).1 (Bool.and_eq_true_iff.mp hguard).2 hstep
  have hstart : Agrees false (Session.new sql id cfg) := ⟨fun _ ↦ rfl, fun b hb ↦ (by cases hb), trivial⟩
  exact @recorded_each _ _ _ _ _ (fun c ↦ Agrees (copyMode c.past) c.current)
    (fun _ x ↦ Enters x → ∃ b, x.after.bConn = some b ∧ ∃ m ∈ b.peer.unread, endMarker m = true) _ _ _
    hkeep hstart hrun before after x hsplit henters

def copied : List (Event (List Answer)) :=
  welcomed.map (.input · []) ++
    [.input (.message (.query (ascii "COPY t FROM STDIN")) calm) [], .input (.acquired (.dialed 7 none)) [],
      .input (.sent true) [⟨[], .copyIn⟩], .input (.received .copyInResponse true) [],
      .input (.message (.copyData (ascii "1")) calm) [], .input (.message .copyDone calm) [],
      .input (.sent true) [⟨[], .none⟩, ⟨[.other 0x43], .ready txIdle⟩]]

theorem drain_owed_copied :
    ∃ c before x, Run (recorded (Exchange.step plainSQL Server.answers)) (fun c e ↦ orderly c e && plainCopy c e)
        (start (Session.new plainSQL 0 pooling)) copied c ∧
      c.past = before ++ [x] ∧ Enters x ∧
      ∃ b, x.after.bConn = some b ∧ ∃ m ∈ b.peer.unread, endMarker m = true := by
  have hrun : Run (recorded (Exchange.step plainSQL Server.answers)) (fun c e ↦ orderly c e && plainCopy c e)
      (start (Session.new plainSQL 0 pooling)) copied _ := run_of_exec rfl
  exact ⟨_, _, _, hrun, rfl, ⟨rfl, false, rfl⟩, drain_owed hrun rfl ⟨rfl, false, rfl⟩⟩

/-- An `Execute` starts a `COPY`. The server does not answer the `CopyDone` with `ReadyForQuery`, and the router
does not read the `Sync` that would make it do so. -/
theorem drain_unowed :
    ∃ c before x, Run (recorded (Exchange.step plainSQL Server.answers)) orderly
        (start (Session.new plainSQL 0 pooling))
        (welcomed.map (.input · []) ++
          [.input (.message (.parse [] (ascii "COPY t FROM STDIN") []) calm) [],
            .input (.acquired (.dialed 7 none)) [], .input (.message (.bind [] []) calm) [],
            .input (.message (.execute []) calm) [], .input (.message .sync calm) [],
            .input (.sent true) [⟨[.parseComplete], .none⟩, ⟨[.other 0x32], .none⟩, ⟨[], .copyIn⟩, ⟨[], .none⟩],
            .input (.received .parseComplete true) [], .input (.received (.other 0x32) true) [],
            .input (.received .copyInResponse true) [], .input (.message (.copyData (ascii "1")) calm) [],
            .input (.message .copyDone calm) [], .input (.sent true) [⟨[], .none⟩, ⟨[.other 0x43], .none⟩]]) c ∧
      c.past = before ++ [x] ∧ Enters x ∧
      ∃ b, x.after.bConn = some b ∧ b.peer.unread = [.other 0x43] := by
  exact ⟨_, _, _, run_of_exec rfl, rfl, ⟨rfl, false, rfl⟩, _, rfl, rfl⟩

end Runs

end PgRouter.Client.Draining
