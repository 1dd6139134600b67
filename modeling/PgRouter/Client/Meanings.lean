import PgRouter.Client.Coherence

namespace PgRouter.Client.Meanings

open Library.Leasing Library.Records Library.Runs Protocol Prepared Servers Handler Sharing Handling Attachment Turns
  Exchange Status Statements Seats Supplies Coherence

section Memory

variable {c : PrepareCache} {said before : List FrontendMessage} {msg : FrontendMessage} {name : Text}

def latest (said : List FrontendMessage) : Table := provided (fun _ ↦ none) said

theorem latest_snoc (said : List FrontendMessage) (msg : FrontendMessage) :
    latest (said ++ [msg]) = intends (latest said) msg := provided_append said [msg]

def given (stmt : Stmt) : Definition := ⟨stmt.query, stmt.paramOIDs⟩

def Tracks (c : PrepareCache) (said : List FrontendMessage) : Prop :=
  ∀ name, name ≠ [] → (c.get name).map given = latest said name

theorem tracks_harmless (h : Tracks c said) (hmsg : harmless msg = true) : Tracks c (said ++ [msg]) := by
  intro name hname
  rw [latest_snoc, intends_harmless hmsg hname]
  exact h name hname

section

variable (h : ∀ other, other ≠ [] → other ≠ name → (c.get other).map given = latest said other)

include h

theorem tracks_observe (serverNameFor : Text → Text) {query : Text} {paramOIDs : List UInt32} (hname : name ≠ [])
    (hlatest : latest said name = some ⟨query, paramOIDs⟩) :
    Tracks (c.observe serverNameFor name query paramOIDs) said := by
  intro other hother
  rw [get_observe _ _ _ _ _ _ hname]
  split
  · subst other
    exact hlatest.symm
  · exact h other hother ‹_›

theorem tracks_close (hname : name ≠ []) (hlatest : latest said name = none) : Tracks (c.close name) said := by
  intro other hother
  rw [get_close _ _ _ hname]
  split
  · subst other
    exact hlatest.symm
  · exact h other hother ‹_›

end

theorem tracks_notePrep (h : Tracks c said) (msg : FrontendMessage) :
    Tracks (notePrep sql msg c) (said ++ [msg]) := by
  by_cases hmsg : harmless msg = true
  · have hsame : notePrep sql msg c = c := by
      cases msg with
      | parse name query paramOIDs => exact if_pos (eq_of_beq hmsg)
      | close objectType name =>
        simp only [notePrep, PrepareCache.close]
        rcases Bool.or_eq_true_iff.mp hmsg with htype | hname
        · exact if_neg (bne_iff_ne.mp htype)
        · rw [if_pos (eq_of_beq hname), ite_self]
      | _ => rfl
    rw [hsame]
    exact tracks_harmless h hmsg
  · cases msg with
    | parse name query paramOIDs =>
      have hname : name ≠ [] := by simpa [harmless] using hmsg
      refine tracks_observe (fun other hother hne ↦ ?_) _ hname ?_
      · rw [latest_snoc]
        exact (h other hother).trans (Function.update_of_ne hne _ _).symm
      · rw [latest_snoc]
        exact Function.update_self ..
    | close objectType name =>
      have hclose : objectType = objectStatement ∧ name ≠ [] := by simpa [harmless] using hmsg
      obtain ⟨rfl, hname⟩ := hclose
      simp only [notePrep, if_true]
      refine tracks_close (fun other hother hne ↦ ?_) hname ?_
      · rw [latest_snoc]
        exact (h other hother).trans (Function.update_of_ne hne _ _).symm
      · rw [latest_snoc]
        exact Function.update_self ..
    | _ => exact absurd rfl hmsg

theorem clientPrep_ensureBackendPrepared (c : PrepareCache) (prepared : Option PreparedCache) (stmt : Stmt)
    (m : FrontendMessage) : (ensureBackendPrepared c prepared stmt m).clientPrep = c := by
  unfold ensureBackendPrepared
  split
  · rfl
  · split <;> rfl

theorem clientPrep_forwardParse (c : PrepareCache) (prepared : Option PreparedCache) (server query : Text)
    (paramOIDs : List UInt32) : (forwardParse c prepared server query paramOIDs).clientPrep = c := by
  unfold forwardParse
  split
  · rfl
  · split <;> rfl

theorem tracks_intercept (h : Tracks c (before ++ [msg])) (serverNameFor : Text → Text)
    (prepared : Option PreparedCache) :
    Tracks (prepareInterceptForward serverNameFor c prepared msg).clientPrep (before ++ [msg]) := by
  cases msg with
  | parse name query paramOIDs =>
    simp only [prepareInterceptForward]
    split
    · exact h
    · unfold interceptParse
      split
      · rw [clientPrep_forwardParse]
        refine tracks_observe (fun other hother _ ↦ h other hother) _ ‹_› ?_
        rw [latest_snoc]
        exact Function.update_self ..
      · rw [clientPrep_forwardParse]
        exact h
  | bind portal statement | describe objectType name =>
    simp only [prepareInterceptForward]
    split
    · exact h
    · split
      · exact h
      · rw [clientPrep_ensureBackendPrepared]
        exact h
  | close objectType name =>
    simp only [prepareInterceptForward]
    split
    · exact h
    · rename_i hclose
      push Not at hclose
      obtain ⟨rfl, hname⟩ := hclose
      refine tracks_close (fun other hother _ ↦ h other hother) hname ?_
      rw [latest_snoc]
      exact Function.update_self ..
  | _ => exact h

end Memory

section Sessions

variable {γ : Type} {sql : SQL γ} {s s' : Session γ} {r : Res γ} {b : Backend} {said : List FrontendMessage}
  {msg : FrontendMessage} {told : List UInt8} {input : Input}

/-- The session knows the statements of its client, and a message that waits is the last that the client has
said. -/
def Remembers (s : Session γ) (said : List FrontendMessage) : Prop :=
  ∃ c, s.prepCache = some c ∧ Tracks c said ∧ ∀ m, awaited s.phase = some m → ∃ before, said = before ++ [m]

theorem Remembers.congr (h : Remembers s said) (hprep : s'.prepCache = s.prepCache)
    (hawaited : ∀ m, awaited s'.phase = some m → awaited s.phase = some m) : Remembers s' said := by
  obtain ⟨c, hc, htracks, hlast⟩ := h
  exact ⟨c, hprep.trans hc, htracks, fun m hm ↦ hlast m (hawaited m hm)⟩

theorem remembers_idles (h : Remembers s said) (hidle : Idles told s r) : Remembers r.1 said := by
  refine h.congr hidle.prepCache fun m hm ↦ ?_
  rw [awaited_eq_none hidle.phase] at hm
  cases hm

theorem remembers_hearsay (h : Remembers s said) (hphase : awaited s.phase = none) (hinput : traffic input = false) :
    Remembers s (hearsay said input) := by
  obtain ⟨c, hc, htracks, -⟩ := h
  refine ⟨c, hc, ?_, fun m hm ↦ ?_⟩
  · cases input with
    | message msg env =>
      obtain rfl : msg = .terminate := by simpa [traffic] using hinput
      exact tracks_harmless htracks rfl
    | _ => exact htracks
  · rw [hphase] at hm
    cases hm

theorem remembers_forward {c : PrepareCache} {before : List FrontendMessage} (hraw : s.cfg.rawPassthrough = false)
    (hb : s.bConn = some b) (hc : s.prepCache = some c) (htracks : Tracks c (before ++ [msg])) :
    Remembers (s.forwardMessage sql msg).1 (before ++ [msg]) := by
  have hint : Intercepted sql msg s b (s.forwardMessage sql msg) := intercepted_forwardMessage hraw hb msg
  refine ⟨(interception sql msg s b).clientPrep, ?_, ?_, fun m hm ↦ ?_⟩
  · rw [hint.prepCache, hc]
    rfl
  · rw [interception, hc]
    exact tracks_intercept htracks _ _
  · rw [hint.phase] at hm
    split at hm <;> cases hm

section

variable (h : Remembers s said)

include h

theorem remembers_refused (env : Env) (code text : String) :
    Remembers (refused env code text s).1 said := h.congr rfl fun m hm ↦ by cases hm

theorem remembers_handled {env : Env} (hraw : s.cfg.rawPassthrough = false)
    (hphase : s.phase = .top) (hhandled : Handling.Handled sql env msg s r) : Remembers r.1 (said ++ [msg]) := by
  obtain ⟨c, hc, htracks, -⟩ := h
  have htracked : Tracks (notePrep sql msg c) (said ++ [msg]) := tracks_notePrep htracks msg
  have hprep {o : Session γ} (hobs : Observed sql msg s o) : o.prepCache = some (notePrep sql msg c) := by
    rw [hobs.prepCache hraw, hc]
    rfl
  have hnoted {o : Session γ} (hobs : Observed sql msg s o) : Remembers o (said ++ [msg]) := by
    refine ⟨_, hprep hobs, htracked, fun m hm ↦ ?_⟩
    rw [hobs.phase, hphase] at hm
    cases hm
  have hwritten {o : Session γ} (hobs : Observed sql msg s o) :
      Remembers (o.noteWrite env (infoOf sql s.cfg msg)) (said ++ [msg]) := by
    refine (hnoted hobs).congr (prepCache_noteWrite env _ o) fun m hm ↦ ?_
    rwa [(frame_noteWrite env _ o).phase] at hm
  cases hhandled with
  | gated hobs hgated code text => exact remembers_refused (hnoted hobs) env code text
  | failedOver hnoticed hobs hgated hneeds hnone hpool hhealth code text =>
    exact remembers_refused (hwritten hobs) env code text
  | @acquires o hobs =>
    refine ⟨_, (prepCache_noteWrite env _ o).trans (hprep hobs), htracked, ?_⟩
    rintro m ⟨⟩
    exact ⟨said, rfl⟩
  | @forwards o hobs hgated hsome =>
    obtain ⟨b, hb⟩ := Option.isSome_iff_exists.mp hsome
    have hframe := frame_noteWrite env (infoOf sql s.cfg msg) o
    refine remembers_forward ?_ ((hframe.bConn.trans hobs.bConn).trans hb)
      ((prepCache_noteWrite env _ o).trans (hprep hobs)) htracked
    rw [hframe.cfg, hobs.cfg]
    exact hraw
  | answers hobs => exact (hwritten hobs).congr rfl fun m hm ↦ by cases hm
  | ignores hobs => exact remembers_idles (hwritten hobs) (idles_loop _)

theorem remembers_input (hraw : s.cfg.rawPassthrough = false) (hsent : ∀ ok, input ≠ .sent ok)
    (hacquired : ∀ b, input ≠ .acquired b) (hconn : ∀ m ok, input = .received m ok → ∃ b, s.bConn = some b)
    (hstep : s.step sql input = some r) : Remembers r.1 (hearsay said input) := by
  have hquiet {told : List UInt8} (hinput : traffic input = false) (hidle : Idles told s r) :
      Remembers r.1 (hearsay said input) :=
    remembers_hearsay (remembers_idles h hidle) (awaited_eq_none hidle.phase) hinput
  cases turn_of_step hstep with
  | stays hinput hphase hidle => exact hquiet (by cases input <;> first | rfl | cases hinput) hidle
  | leaves hinput hover hidle => exact hquiet (traffic_of_busy hinput) hidle
  | timedOut hphase ok => exact hquiet rfl (idles_queryTimeout ok s)
  | resets hinput _ hidle hnext => exact hquiet hinput hidle
  | greeted hphase params key ok =>
    have hremains := remains_greet params key ok s
    refine h.congr hremains.prepCache fun m hm ↦ ?_
    rw [awaited_eq_none hremains.phase] at hm
    cases hm
  | message hphase hmsg hhandled => exact remembers_handled h hraw hphase hhandled
  | acquired hphase b => exact absurd rfl (hacquired b)
  | replaySent hphase ok => exact absurd rfl (hsent ok)
  | replayWaits => exact h
  | @replayed msg hphase txStatus ok =>
    obtain ⟨c, hc, htracks, hlast⟩ := h
    obtain ⟨b, hb⟩ := hconn _ ok rfl
    obtain ⟨before, rfl⟩ := hlast msg (by rw [hphase]; rfl)
    exact remembers_forward hraw hb hc htracks
  | sent hphase ok => exact absurd rfl (hsent ok)
  | withheldCC hphase => exact h
  | withheldPC hphase => exact h
  | drained hphase m ok => exact hquiet rfl (idles_passOn (by rw [hphase]; rfl) m ok)
  | cutOff hphase ok => exact hquiet rfl (idles_loop s)
  | polled hphase m ok => exact hquiet rfl (idles_pollReceived hphase m ok)

theorem remembers_sent {ok : Bool} (hstep : s.step sql (.sent ok) = some r) :
    Remembers r.1 said := by
  cases steps_of_step hstep with
  | @replaySent msg hphase _ =>
    rw [flush_eq]
    refine h.congr rfl fun m hm ↦ ?_
    rw [hphase]
    exact hm
  | sent hphase _ =>
    have hwritten : Remembers s.writeBatch.1 said := by
      unfold Session.writeBatch
      split
      · split
        · exact h
        · exact h.congr rfl fun _ ↦ id
      · rw [flush_eq]
        exact h.congr rfl fun _ ↦ id
    have hdrains : Remembers (s.writeBatch.1.startDrain ok).1 said := remembers_idles hwritten (idles_startDrain ok _)
    exact hdrains
  | @resetSent leaving hphase _ =>
    rw [flush_eq]
    exact h.congr rfl fun m hm ↦ by cases hm
  | goodbye hphase hinput | pollLost hphase hinput | replayLost hphase hinput | resetLost hphase hinput =>
    cases hinput

end

end Sessions

section Seating

variable {γ : Type} {sql : SQL γ} {t : Seat γ} {e : Seats.Event} {q : Seat γ × List Act} {s : Session γ} {r : Res γ}
  {b : Backend} {far : Far} {msg : FrontendMessage} {name server : Text} {d : Definition}

variable {said : List FrontendMessage}

theorem remembers_attach {pool : ℕ} (h : Remembers s said)
    (hraw : s.cfg.rawPassthrough = false) (hphase : s.phase = .acquiring msg pool) (b : Backend) :
    Remembers (s.attach sql msg pool b).1 said := by
  unfold Session.attach
  split
  · obtain ⟨c, hc, htracks, hlast⟩ := h
    obtain ⟨before, rfl⟩ := hlast msg (by rw [hphase]; rfl)
    exact remembers_forward hraw rfl hc htracks
  · refine h.congr rfl fun m hm ↦ ?_
    rw [hphase]
    exact hm

theorem remembers_talk {reply : List BackendMessage} {input : Input} {s' : Session γ}
    (h : Remembers s said) (htalk : talk anything reply input s = some s') : Remembers s' said := by
  rcases talk_cases htalk with ⟨-, rfl⟩ | ⟨b, peer, hb, hpeer, rfl⟩
  · exact h
  · exact h.congr rfl fun _ ↦ id

theorem remembers_step (h : Remembers t.session t.said) (hraw : t.session.cfg.rawPassthrough = false)
    (hstep : Seats.step sql t e = some q) : Remembers q.1.session q.1.said := by
  cases moves_of_step hstep with
  | @input i s' r hsent hacquired htalk hsteps =>
    have hcfg : s'.cfg.rawPassthrough = false := by
      rcases talk_cases htalk with ⟨-, rfl⟩ | ⟨b, peer, hb, hpeer, rfl⟩ <;> exact hraw
    refine remembers_input (remembers_talk h htalk) hcfg hsent hacquired ?_ hsteps
    rintro m ok rfl
    obtain ⟨b, rest, -, -, -, rfl⟩ := talk_received htalk
    exact ⟨_, rfl⟩
  | sent hheard htalk hsteps => exact remembers_sent (remembers_talk h htalk) hsteps
  | @acquired b far r hsteps =>
    cases steps_of_step hsteps with
    | probed hphase b => exact h.congr rfl fun m hm ↦ by cases hm
    | @acquired msg pool hphase b => exact remembers_attach h hraw hphase b
    | goodbye hphase hinput | pollLost hphase hinput | replayLost hphase hinput | resetLost hphase hinput =>
      cases hinput
  | notice hm => exact h.congr rfl fun _ ↦ id

def concerns : FrontendMessage → Option Text
  | .bind _ statement => some statement
  | .describe objectType name => if objectType = objectStatement then some name else none
  | _ => none

def passes (t : Seat γ) : Seats.Event → Option FrontendMessage
  | .input (.message msg _) => some msg
  | .input (.received (.readyForQuery _) _) => awaited t.session.phase
  | .acquired .. => awaited t.session.phase
  | _ => none

/-- The statement behind a server name, whoever has parsed it. Every backend has a cache. -/
def meant (meaning : Text → Definition) : Policy := ⟨fun server d ↦ meaning server = d, true⟩

variable {meaning : Text → Definition} {c : PrepareCache} {prepared : Option PreparedCache}

theorem provided_ensureBackendPrepared {table : Table} {stmt : Stmt} (hstocked : Stocked (meant meaning) prepared table)
    (hmeaning : meaning stmt.serverName = given stmt) (hsome : prepared.isSome = true) (m : FrontendMessage) :
    (ensureBackendPrepared c prepared stmt m).forward = some m ∧
      provided table (ensureBackendPrepared c prepared stmt m).injected stmt.serverName = some (given stmt) := by
  unfold ensureBackendPrepared
  split
  · cases hsome
  · split
    · rename_i cache hhas
      obtain ⟨d, hd, hmeant⟩ := hstocked cache rfl stmt.serverName (List.contains_iff_mem.mp hhas)
      refine ⟨rfl, hd.trans ?_⟩
      rw [← hmeaning]
      exact congrArg some hmeant.symm
    · refine ⟨rfl, ?_⟩
      rw [provided_append]
      exact Function.update_self ..

theorem provided_injected
    {table : Table} {stmt : Stmt} (hstocked : Stocked (meant meaning) prepared table) (hnamed : Named (meant meaning) c)
    (hsome : prepared.isSome = true) (hget : c.get name = some stmt) (hmsg : concerns msg = some name)
    (hname : name ≠ []) (serverNameFor : Text → Text) :
    ∃ m, (prepareInterceptForward serverNameFor c prepared msg).forward = some m ∧
      concerns m = some stmt.serverName ∧
      provided table (prepareInterceptForward serverNameFor c prepared msg).injected stmt.serverName =
        some (given stmt) := by
  have hensures (m : FrontendMessage) :=
    @provided_ensureBackendPrepared meaning c prepared table stmt hstocked (named_get hnamed hget) hsome m
  cases msg with
  | bind portal statement =>
    cases hmsg
    simp only [prepareInterceptForward, if_neg hname, hget]
    exact ⟨_, (hensures _).1, rfl, (hensures _).2⟩
  | describe objectType other =>
    simp only [concerns] at hmsg
    split at hmsg
    · cases hmsg
      subst objectType
      simp only [prepareInterceptForward, ne_eq, not_true_eq_false, hname, or_self, if_false, hget]
      exact ⟨_, (hensures _).1, by simp [concerns], (hensures _).2⟩
    · cases hmsg
  | _ => cases hmsg

variable {m : FrontendMessage} {b' : Backend}

theorem meant_forward {said queue : List FrontendMessage} (hraw : s.cfg.rawPassthrough = false) (hb : s.bConn = some b)
    (hback : Backed (meant meaning) b far) (hc : s.prepCache = some c) (hnamed : Named (meant meaning) c)
    (htracks : Tracks c said) (hmsg : concerns msg = some name) (hname : name ≠ []) (hd : latest said name = some d)
    (hb' : (s.forwardMessage sql msg).1.bConn = some b') (hbroken : b'.peer.broken = false)
    (hqueue : b'.sendBuf.map Prod.snd = queue ++ [m]) (hm : concerns m = some server) :
    provided far.statements queue server = some d := by
  have hint : Intercepted sql msg s b (s.forwardMessage sql msg) := intercepted_forwardMessage hraw hb msg
  cases hint.conn.symm.trans hb'
  obtain ⟨stmt, hget, hgiven⟩ := Option.map_eq_some_iff.mp ((htracks name hname).trans hd)
  obtain ⟨m', hforward, hserver, hprovided⟩ := provided_injected (hback.stocked hbroken) hnamed
    (hback.tidied.equipped rfl) hget hmsg hname sql.serverNameFor
  have hinterception : interception sql msg s b = prepareInterceptForward sql.serverNameFor c b.prepared msg := by
    rw [interception, hc]
  simp only [hinterception, List.map_append, List.map_map, Function.comp_def, List.map_id', Intercept.queue, hforward,
    Option.toList_some, ← List.append_assoc] at hqueue
  obtain ⟨rfl, heq⟩ := List.append_inj' hqueue rfl
  cases heq
  cases hserver.symm.trans hm
  rw [provided_append, hprovided, hgiven]

/-- The step puts a `Bind` or `Describe` behind `queue` into the send buffer of a backend that is there, for what
its client calls `name` and the server is to call `server`. -/
def forwards (y : Entry (Seat γ) Seats.Event (List Act)) (name server : Text) (queue : List FrontendMessage) : Bool :=
  (passes y.before y.event).bind concerns == some name && y.after.session.bConn.any fun b ↦
    !b.peer.broken && (b.sendBuf.map Prod.snd).dropLast == queue &&
      (b.sendBuf.map Prod.snd).getLast?.bind concerns == some server

theorem forwards_cases {y : Entry (Seat γ) Seats.Event (List Act)} {queue : List FrontendMessage}
    (h : forwards y name server queue = true) : (∃ msg, passes y.before y.event = some msg ∧ concerns msg = some name) ∧
      ∃ b m, y.after.session.bConn = some b ∧ b.peer.broken = false ∧ b.sendBuf.map Prod.snd = queue ++ [m] ∧
        concerns m = some server := by
  obtain ⟨hpasses, hqueued⟩ := Bool.and_eq_true_iff.mp h
  refine ⟨Option.bind_eq_some_iff.mp (eq_of_beq hpasses), ?_⟩
  cases hb : y.after.session.bConn with
  | none =>
    rw [hb] at hqueued
    cases hqueued
  | some b =>
    rw [hb, Option.any_some, Bool.and_eq_true_iff, Bool.and_eq_true_iff] at hqueued
    obtain ⟨⟨hbroken, hqueue⟩, hlast⟩ := hqueued
    obtain ⟨m, hm, hserver⟩ := Option.bind_eq_some_iff.mp (eq_of_beq hlast)
    refine ⟨b, m, rfl, Bool.not_eq_true' _ ▸ hbroken, ?_, hserver⟩
    rw [← eq_of_beq hqueue]
    exact (List.dropLast_append_getLast? m hm).symm

/-- What the server has under the name, when it gets to the message, is what the client has parsed last. -/
def Meant (y : Entry (Seat γ) Seats.Event (List Act)) : Prop :=
  ∀ name server queue d, forwards y name server queue = true → name ≠ [] → latest y.after.said name = some d →
    provided y.after.far.statements queue server = some d

theorem refused_bConn (env : Env) (code text : String) (s : Session γ) :
    (refused env code text s).1.bConn = s.bConn := rfl

variable {env : Env}

theorem handled_concerns (hmsg : concerns msg = some name) (h : Handling.Handled sql env msg s r) :
    r.1.bConn = none ∨ ∃ o, Observed sql msg s o ∧ s.bConn.isSome = true ∧
      r = (o.noteWrite env (infoOf sql s.cfg msg)).forwardMessage sql msg := by
  have hopen : gated sql s.cfg env msg = false := by
    cases msg <;> first | rfl | cases hmsg
  have hnone {o : Session γ} (hobs : Observed sql msg s o) (hnone : s.bConn = none) :
      (o.noteWrite env (infoOf sql s.cfg msg)).bConn = none :=
    ((frame_noteWrite env _ o).bConn.trans hobs.bConn).trans hnone
  cases h with
  | gated hobs hgated code text =>
    rw [hopen] at hgated
    cases hgated
  | failedOver hnoticed hobs hgated hneeds hb hpool hhealth code text =>
    exact .inl ((refused_bConn env code text _).trans (hnone hobs hb))
  | acquires hobs hgated hneeds hb => exact .inl (hnone hobs hb)
  | forwards hobs hgated hsome => exact .inr ⟨_, hobs, hsome, rfl⟩
  | answers hobs hgated hb => exact .inl (hnone hobs hb)
  | ignores hobs hgated hb => exact .inl (hnone hobs hb)

variable {y : Entry (Seat γ) Seats.Event (List Act)} {queue : List FrontendMessage}

theorem meant_message
    (hminds : Minds sql (meant meaning) s far) (hremembers : Remembers s said) (hphase : s.phase = .top)
    (hmsg : concerns msg = some name) (hname : name ≠ []) (hd : latest (said ++ [msg]) name = some d)
    (hhandled : Handling.Handled sql env msg s r) (hb' : r.1.bConn = some b') (hbroken : b'.peer.broken = false)
    (hqueue : b'.sendBuf.map Prod.snd = queue ++ [m]) (hm : concerns m = some server) :
    provided far.statements queue server = some d := by
  rcases handled_concerns hmsg hhandled with hnone | ⟨o, hobs, hsome, rfl⟩
  · rw [hnone] at hb'
    cases hb'
  · obtain ⟨b, hb⟩ := Option.isSome_iff_exists.mp hsome
    have hfits : Fits sql (meant meaning) msg := by
      rintro _ _ _ rfl
      cases hmsg
    obtain ⟨-, c, hc, hnamed, -⟩ := minds_observed hminds hphase hobs hfits
    have hframe := frame_noteWrite env (infoOf sql s.cfg msg) o
    obtain ⟨c', hc', htracks, -⟩ := hremembers
    have hnoted : c = notePrep sql msg c' := by
      rw [hobs.prepCache hminds.raw, hc'] at hc
      exact (Option.some.inj hc).symm
    subst hnoted
    refine meant_forward ?_ ((hframe.bConn.trans hobs.bConn).trans hb) (hminds.backed (by rw [hphase]; rfl) b hb)
      ((prepCache_noteWrite env _ o).trans hc) hnamed (tracks_notePrep htracks msg) hmsg hname hd hb' hbroken hqueue hm
    rw [hframe.cfg, hobs.cfg]
    exact hminds.raw

theorem meant_attach {pool : ℕ} {far' : Far}
    (hminds : Minds sql (meant meaning) s far') (hremembers : Remembers s said)
    (hback : Backed (meant meaning) b far) (hsplice : s.cfg.splice = true → b.sendBuf = [])
    (hmsg : concerns msg = some name) (hname : name ≠ []) (hd : latest said name = some d)
    (hb' : (s.attach sql msg pool b).1.bConn = some b') (hbroken : b'.peer.broken = false)
    (hqueue : b'.sendBuf.map Prod.snd = queue ++ [m]) (hm : concerns m = some server) :
    provided far.statements queue server = some d := by
  obtain ⟨c, hc, hnamed, -⟩ := hminds.owns
  obtain ⟨c', hc', htracks, -⟩ := hremembers
  cases hc.symm.trans hc'
  unfold Session.attach at hb'
  split at hb'
  · exact meant_forward (s := s.adopt pool b) hminds.raw (adopt_bConn pool hsplice) hback hc
      hnamed htracks hmsg hname hd
      hb' hbroken hqueue hm
  · -- The settings of the session go first.
    cases hb'
    rw [List.map_append] at hqueue
    obtain ⟨-, heq⟩ := List.append_inj' hqueue rfl
    cases heq
    cases hm

theorem meant_step (hminds : Minds sql (meant meaning) t.session t.far) (hremembers : Remembers t.session t.said)
    (hkeeps : keepsCache t e = true) (hlent : ∀ b far, e = .acquired b far → Backed (meant meaning) b far)
    (hstep : Seats.step sql t e = some q) : Meant ⟨t, e, q.1, q.2⟩ := by
  intro name server queue d hforwards hname hd
  obtain ⟨⟨msg, hpasses, hmsg⟩, b', m, hb', hbroken, hqueue, hm⟩ := forwards_cases hforwards
  have hwaits {s' : Session γ} {input : Input} {reply : List BackendMessage} {phase : Phase}
      (htalk : talk anything reply input t.session = some s') (hphase : s'.phase = phase)
      (hpasses : awaited t.session.phase = some msg) : awaited phase = some msg := by
    rw [← hphase]
    rcases talk_cases htalk with ⟨-, rfl⟩ | ⟨_, _, -, -, rfl⟩ <;> exact hpasses
  cases moves_of_step hstep with
  | @input i s' r hsent hacquired htalk hsteps =>
    have htalked := minds_talk hminds htalk
    have hsaid := remembers_talk hremembers htalk
    cases i with
    | message msg' env =>
      obtain rfl := Option.some.inj hpasses
      have hgoes : msg' ≠ .terminate := by
        rintro rfl
        cases hmsg
      cases steps_of_step hsteps with
      | message hphase _ _ =>
        exact meant_message htalked hsaid hphase hmsg hname hd (handled_of_clientMessage hgoes env s') hb' hbroken
          hqueue hm
      | goodbye hphase hinput | pollLost hphase hinput | replayLost hphase hinput | resetLost hphase hinput =>
        cases hinput
    | received m' ok =>
      cases m' with
      | readyForQuery txStatus =>
        cases steps_of_step hsteps with
        | @replayReceived msg' hphase _ _ =>
          obtain rfl := Option.some.inj (hwaits htalk hphase hpasses)
          obtain ⟨b, rest, -, -, -, rfl⟩ := talk_received htalk
          obtain ⟨c, hc, hnamed, -⟩ := htalked.owns
          obtain ⟨c', hc', htracks, -⟩ := hsaid
          obtain rfl := Option.some.inj (hc.symm.trans hc')
          exact meant_forward htalked.raw rfl (htalked.backed (by rw [hphase]; rfl) _ rfl) hc hnamed htracks hmsg hname
            hd hb' hbroken hqueue hm
        | polled hphase _ _ | drained hphase _ _ | resetReceived hphase _ _ => cases hwaits htalk hphase hpasses
        | goodbye hphase hinput | pollLost hphase hinput | replayLost hphase hinput | resetLost hphase hinput =>
          cases hinput
      | _ => cases hpasses
    | _ => cases hpasses
  | sent hheard htalk hsteps => cases hpasses
  | @acquired b far r hsteps =>
    cases steps_of_step hsteps with
    | probed hphase b =>
      rw [passes, hphase] at hpasses
      cases hpasses
    | @acquired msg' pool hphase b =>
      rw [passes, hphase] at hpasses
      obtain rfl := Option.some.inj hpasses
      have hsplice : t.session.cfg.splice = true → b.sendBuf = [] := by
        intro hs
        simpa [keepsCache, unspliced, hphase, hs] using hkeeps
      have hfar : farOf t far = far := by
        rw [farOf, hphase]
      change provided (farOf t far).statements queue server = some d
      rw [hfar]
      exact meant_attach hminds hremembers (hlent b far rfl) hsplice hmsg hname hd hb' hbroken hqueue hm
    | goodbye hphase hinput | pollLost hphase hinput | replayLost hphase hinput | resetLost hphase hinput =>
      cases hinput
  | notice hm => cases hpasses

def fitting (sql : SQL γ) (meaning : Text → Definition) : Seats.Event → Bool
  | .input (.message (.parse name query paramOIDs) _) =>
    name == [] || meaning (sql.serverNameFor query) == ⟨query, paramOIDs⟩
  | _ => true

theorem fits_of_fitting (h : fitting sql meaning (.input (.message msg env)) = true) :
    Fits sql (meant meaning) msg := by
  rintro name query paramOIDs rfl hname
  have hmeaning : meaning (sql.serverNameFor query) = ⟨query, paramOIDs⟩ := by simpa [fitting, hname] using h
  exact hmeaning

/-- No two statements of the run share a server name. -/
def unambiguously (sql : SQL γ) (meaning : Text → Definition) : Terms PooledConfig (Seat γ) Seats.Event ℤ where
  joins cfg := cfg.preparedCache && !cfg.rawPassthrough
  acts t e := keepsCache t e && fitting sql meaning e
  makes size := 0 ≤ size

theorem keeps_meant (sql : SQL γ) (meaning : Text → Definition) :
    Library.Leasing.Keeps (trade sql) (unambiguously sql meaning)
      (fun t ↦ Minds sql (meant meaning) t.session t.far ∧ Remembers t.session t.said)
      (fun x ↦ Backed (meant meaning) x.2.1 x.2.2) Meant where
  joins i cfg hcfg := by
    refine ⟨minds_new hcfg i _, {}, if_pos hcfg, fun name _ ↦ rfl, fun m hm ↦ by cases hm⟩
  makes n size hsize := backed_dialed (fun _ ↦ of_decide_eq_true hsize) n _
  steps t e q hinv hacts hlent hstep := by
    obtain ⟨hkeeps, hfitting⟩ := Bool.and_eq_true_iff.mp hacts
    have hback (b : Backend) (far : Far) (he : e = .acquired b far) : Backed (meant meaning) b far :=
      backed_lent hlent he
    have hfits (msg : FrontendMessage) (env : Env) (he : e = .input (.message msg env)) :
        Fits sql (meant meaning) msg := by
      subst he
      exact fits_of_fitting hfitting
    obtain ⟨hnext, hreturned⟩ := minds_step hinv.1 hkeeps hback hfits hstep
    exact ⟨⟨hnext, remembers_step hinv.2 hinv.1.raw hstep⟩, hreturned, meant_step hinv.1 hinv.2 hkeeps hback hstep⟩

/-- Whoever shares backends, and whatever is cached and evicted, a client gets the statement that it has
parsed last under the name. -/
theorem meant_of_unambiguous (sql : SQL γ) (meaning : Text → Definition)
    {es : List (Library.Leasing.Event PooledConfig Seats.Event ℤ)}
    {c : History PooledConfig (Seat γ) (ℕ × Backend × Far) Seats.Event (List Act) ℤ}
    (hrun : Run (recorded (Library.Leasing.step (trade sql))) (meets (trade sql) (unambiguously sql meaning))
      (start empty) es c)
    {before after : List (Entry (System (Seat γ) (ℕ × Backend × Far)) (Library.Leasing.Event PooledConfig Seats.Event ℤ)
      (Output (Seat γ) Seats.Event (List Act)))}
    {x : Entry (System (Seat γ) (ℕ × Backend × Far)) (Library.Leasing.Event PooledConfig Seats.Event ℤ)
      (Output (Seat γ) Seats.Event (List Act))}
    (hsplit : c.past = before ++ x :: after) {i : ℕ} (hy : x.output = some (i, y)) : Meant y :=
  (keeps_meant sql meaning).each hrun hsplit hy

def typed (server : Text) : Definition := ⟨server, [23]⟩

def lastStep (c : History PooledConfig (Seat Unit) (ℕ × Backend × Far) Seats.Event (List Act) ℤ) :
    Option (Entry (Seat Unit) Seats.Event (List Act)) :=
  c.past.getLast?.bind fun x ↦ x.output.map Prod.snd

def rebound (more : List FrontendMessage) (name : Text) : List (Library.Leasing.Event PooledConfig Seats.Event ℤ) :=
  parsing [1] [2] [23] ++ more.map (fun m ↦ .act 0 (.input (.message m calm))) ++
    synced [completed .none, completed (.ready txIdle)] ++
    [.act 0 (.input (.received .parseComplete true)), .act 0 (.input (.received (.readyForQuery txIdle) true)),
      .act 0 (.input (.message (.bind [] name) calm)), .take 0 0]

theorem rebound_run : ∃ c, Run (recorded (Library.Leasing.step (trade plainSQL)))
    (meets (trade plainSQL) (unambiguously plainSQL typed)) (start empty) (rebound [] [1]) c ∧
    ((lastStep c).any fun y ↦ forwards y [1] [2] [] && latest y.after.said [1] == some ⟨[2], [23]⟩) = true :=
  exists_run_of_exec rfl

theorem meant_rebound : ∃ c, Run (recorded (Library.Leasing.step (trade plainSQL)))
    (meets (trade plainSQL) (unambiguously plainSQL typed)) (start empty) (rebound [] [1]) c ∧
    ∃ y, lastStep c = some y ∧ forwards y [1] [2] [] = true ∧
      provided y.after.far.statements [] [2] = some ⟨[2], [23]⟩ := by
  obtain ⟨c, hrun, hlast⟩ := rebound_run
  cases hy : lastStep c with
  | none =>
    rw [hy] at hlast
    cases hlast
  | some y =>
    rw [hy, Option.any_some, Bool.and_eq_true_iff] at hlast
    obtain ⟨x, hx, hout⟩ := Option.bind_eq_some_iff.mp hy
    obtain ⟨⟨i, z⟩, hz, rfl⟩ := Option.map_eq_some_iff.mp hout
    have hsplit : c.past = c.past.dropLast ++ x :: [] := (List.dropLast_append_getLast? x hx).symm
    have hmeant := meant_of_unambiguous plainSQL typed hrun hsplit hz
    exact ⟨c, hrun, z, hy, hlast.1, hmeant [1] [2] [] _ hlast.1 (by decide) (eq_of_beq hlast.2)⟩

/-- The text is parsed twice, with parameters of different types. -/
theorem rebound_ambiguous : ∃ c, Run (recorded (Library.Leasing.step (trade plainSQL))) anyStep (start empty)
    (rebound [.parse [3] [2] [25]] [3]) c ∧
    ((lastStep c).any fun y ↦ forwards y [3] [2] [] && latest y.after.said [3] == some ⟨[2], [25]⟩ &&
      provided y.after.far.statements [] [2] == some ⟨[2], [23]⟩) = true :=
  exists_run_of_exec rfl

end Seating

end PgRouter.Client.Meanings
