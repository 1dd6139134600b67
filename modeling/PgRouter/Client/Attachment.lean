import PgRouter.Client.Handling
import PgRouter.Library.Records

namespace PgRouter.Client.Attachment

open Library.Records Protocol Servers Handler Handling

variable {γ : Type} {sql : SQL γ} {s s' : Session γ} {r : Res γ}

abbrev Step (γ : Type) := Entry (Session γ) Input (List Act)

abbrev History (γ : Type) := Record (Session γ) Input (List Act)

def Quiet (acts : List Act) : Prop := ∀ b m, .forward b m ∉ acts

theorem quiet_nil : Quiet [] := fun _ _ ↦ List.not_mem_nil

theorem quiet_append {as bs : List Act} (has : Quiet as) (hbs : Quiet bs) : Quiet (as ++ bs) := by
  intro b m hmem
  rcases List.mem_append.mp hmem with hmem | hmem
  · exact has b m hmem
  · exact hbs b m hmem

variable (leaving : Bool) (msg : FrontendMessage) (m : BackendMessage) (ok : Bool)

section

variable (s : Session γ)

theorem quiet_beFlush : Quiet (s.beFlush ok).2 := by
  intro b m hmem
  simp only [Session.beFlush] at hmem
  split at hmem
  · obtain ⟨p, -, hp⟩ := List.mem_map.mp hmem
    cases hp
  · cases hmem

theorem quiet_flush : Quiet s.flush.2 := by
  unfold Session.flush
  split
  · exact quiet_nil
  · intro b m hmem
    obtain ⟨p, -, hp⟩ := List.mem_map.mp hmem
    cases hp

theorem quiet_discard : Quiet s.discard.2 := by
  unfold Session.discard
  split
  · exact quiet_nil
  · refine quiet_append (fun b m hmem ↦ ?_) (by simp [Quiet])
    obtain ⟨p, -, hp⟩ := List.mem_map.mp hmem
    cases hp

theorem quiet_putBack : Quiet (s.putBack leaving).2 := by
  unfold Session.putBack
  split <;> simp [Quiet]

theorem quiet_release : Quiet (s.release leaving).2 := by
  unfold Session.release
  split
  · exact quiet_nil
  · exact quiet_putBack leaving s

theorem quiet_leave : Quiet s.leave.2 := by
  unfold Session.leave
  split
  · exact quiet_nil
  · split
    · exact quiet_release true s
    · exact quiet_discard _

theorem quiet_resetFailed : Quiet (s.resetFailed leaving).2 :=
  quiet_append (quiet_discard s) quiet_nil

theorem quiet_finalizeRFQ : Quiet s.finalizeRFQ.2 := by
  unfold Session.finalizeRFQ
  split
  · exact quiet_release false s
  · exact quiet_nil

theorem quiet_observe : Quiet (s.observe m).2 := by
  rcases Session.observe_cases m s with ⟨_, -, hobs⟩ | ⟨-, hobs⟩ | ⟨-, hobs⟩
  · rw [hobs]
    exact quiet_finalizeRFQ _
  · rw [hobs]
    exact quiet_nil
  · rw [hobs]
    exact quiet_nil

end

theorem quiet_drainReceived (splicing : Bool) (m : BackendMessage) (ok : Bool) (s : Session γ) :
    Quiet (s.drainReceived splicing m ok).2 := by
  unfold Session.drainReceived
  split
  · exact quiet_nil
  · split
    · exact quiet_nil
    · refine quiet_append (quiet_beFlush ok _) ?_
      split
      · exact quiet_observe m _
      · exact quiet_leave _

theorem quiet_resetReceived (s : Session γ) : Quiet (s.resetReceived leaving m).2 := by
  unfold Session.resetReceived
  split
  · exact quiet_resetFailed leaving s
  · split
    · exact quiet_putBack leaving _
    · exact quiet_resetFailed leaving s
  · exact quiet_nil

/-- The session holds on to the backend it has, if any, and forwards to that one only. -/
structure Holding (s : Session γ) (r : Res γ) : Prop where
  cfg : r.1.cfg = s.cfg
  conn : r.1.bConn.map Backend.id = s.bConn.map Backend.id
  pool : r.1.bConnPool = s.bConnPool
  forwards : ∀ b m, .forward b m ∈ r.2 → s.bConn.map Backend.id = some b

theorem holding_quiet (hcfg : r.1.cfg = s.cfg) (hconn : r.1.bConn.map Backend.id = s.bConn.map Backend.id)
    (hpool : r.1.bConnPool = s.bConnPool) (hquiet : Quiet r.2) : Holding s r :=
  ⟨hcfg, hconn, hpool, fun b m hmem ↦ absurd hmem (hquiet b m)⟩

theorem Holding.frame (hframe : Frame s s') (h : Holding s' r) : Holding s r := by
  refine ⟨h.cfg.trans hframe.cfg, ?_, h.pool.trans hframe.bConnPool, ?_⟩
  · rw [h.conn, hframe.bConn]
  · rw [← hframe.bConn]
    exact h.forwards

theorem holding_send (ms : List FrontendMessage) (s : Session γ) : Holding s (s.send ms) := by
  unfold Session.send
  split
  · exact holding_quiet rfl rfl rfl quiet_nil
  · rename_i b hb
    refine ⟨rfl, by simp [hb], rfl, fun b' m hmem ↦ ?_⟩
    obtain ⟨m', -, hm'⟩ := List.mem_map.mp hmem
    cases hm'
    simp [hb]

theorem Holding.afterForward (h : Holding s r) (msg : FrontendMessage) :
    Holding s (r.andThen fun s ↦ (s.afterForward msg, [])) := by
  have hafter : (r.1.afterForward msg).cfg = r.1.cfg ∧ (r.1.afterForward msg).bConn = r.1.bConn ∧
      (r.1.afterForward msg).bConnPool = r.1.bConnPool := by
    unfold Session.afterForward
    split <;> exact ⟨rfl, rfl, rfl⟩
  rw [Res.andThen, List.append_nil]
  refine ⟨hafter.1.trans h.cfg, ?_, hafter.2.2.trans h.pool, h.forwards⟩
  rw [hafter.2.1]
  exact h.conn

theorem holding_forwardMessage (s : Session γ) : Holding s (s.forwardMessage sql msg) := by
  unfold Session.forwardMessage
  split
  · have hbuf : Holding s ({ s with writeBuf := s.writeBuf ++ [msg] }, []) :=
      holding_quiet rfl rfl rfl quiet_nil
    exact hbuf.afterForward msg
  · split
    · exact (holding_send [msg] s).afterForward msg
    · rename_i clientPrep _
      have hsend := holding_send ((s.intercept sql clientPrep msg).injected ++
        (s.intercept sql clientPrep msg).forward.toList)
        (s.applyIntercept (s.intercept sql clientPrep msg))
      have hconn : (s.applyIntercept (s.intercept sql clientPrep msg)).bConn.map Backend.id =
          s.bConn.map Backend.id := by
        simp [Session.applyIntercept, Option.map_map, Function.comp_def]
      refine Holding.afterForward (s := s) ⟨hsend.cfg, hsend.conn.trans hconn, hsend.pool, ?_⟩ msg
      rw [← hconn]
      exact hsend.forwards

theorem holding_refused (env : Env) (code text : String) (s : Session γ) :
    Holding s (refused env code text s) :=
  holding_quiet rfl rfl rfl (quiet_append (quiet_beFlush env.ok _) quiet_nil)

theorem holding_handled {env : Env} {msg : FrontendMessage} (h : Handled sql env msg s r) :
    Holding s r := by
  cases h with
  | gated hobs hgated code text => exact .frame hobs.toFrame (holding_refused env code text _)
  | failedOver hnoticed hobs hgated hneeds hnone hpool hhealth code text =>
    refine .frame (hobs.noted env) ?_
    exact holding_refused env code text _
  | acquires hobs | ignores hobs =>
    refine .frame (hobs.noted env) ?_
    exact holding_quiet rfl rfl rfl quiet_nil
  | forwards hobs =>
    refine .frame (hobs.noted env) ?_
    exact holding_forwardMessage msg _
  | answers hobs =>
    refine .frame (hobs.noted env) ?_
    exact holding_quiet rfl rfl rfl (quiet_append (quiet_beFlush env.ok _) quiet_nil)

section

variable (s : Session γ)

theorem holding_flush : Holding s s.flush := by
  refine holding_quiet ?_ ?_ ?_ (quiet_flush s)
  all_goals
    unfold Session.flush
    split <;> simp_all

theorem holding_writeBatch : Holding s s.writeBatch := by
  unfold Session.writeBatch
  split
  · split
    · exact holding_quiet rfl rfl rfl quiet_nil
    · rename_i b hb
      refine ⟨rfl, rfl, rfl, fun b' m hmem ↦ ?_⟩
      obtain ⟨m', -, hm'⟩ := List.mem_flatMap.mp hmem
      simp only [List.mem_cons, Act.forward.injEq, reduceCtorEq, List.not_mem_nil, or_false] at hm'
      rw [hb, hm'.1]
      rfl
  · exact holding_flush s

theorem of_phase {s : Session γ} {phase : Phase} {f : Phase → Bool} {v : Bool} (hphase : s.phase = phase)
    (h : f phase = v) : f s.phase = v := by
  rw [hphase]
  exact h

def waiting : Phase → Bool
  | .acquiring .. | .replayFlush _ | .replaying _ => true
  | _ => false

/-- The message for which the session looks for a backend or brings one up to date. -/
def awaited : Phase → Option FrontendMessage
  | .acquiring msg _ | .replayFlush msg | .replaying msg => some msg
  | _ => none

theorem awaited_eq_none {phase : Phase} (h : waiting phase = false) : awaited phase = none := by
  cases phase <;> first | rfl | cases h

theorem waiting_forwardMessage : waiting (s.forwardMessage sql msg).1.phase = false := by
  have hafter (t : Session γ) : waiting (t.afterForward msg).phase = false := by
    unfold Session.afterForward
    split <;> rfl
  unfold Session.forwardMessage
  split
  · exact hafter _
  · split
    · exact hafter _
    · exact hafter _

def closing : Phase → Bool
  | .resetFlush leaving | .resetting leaving => leaving
  | .returned => true
  | _ => false

theorem closing_release : closing (s.release true).1.phase = true := by
  unfold Session.release
  split
  · rfl
  · unfold Session.putBack
    split <;> rfl

theorem closing_leave : closing s.leave.1.phase = true := by
  unfold Session.leave
  split
  · rfl
  · split
    · exact closing_release s
    · rw [Session.discard_phase]
      rfl

end

theorem closing_resetReceived (hphase : s.phase = .resetting true) (m : BackendMessage) :
    closing (s.resetReceived true m).1.phase = true := by
  have hfailed : closing (s.resetFailed true).1.phase = true := rfl
  unfold Session.resetReceived
  split
  · exact hfailed
  · split
    · unfold Session.putBack
      split <;> rfl
    · exact hfailed
  · rw [hphase]
    rfl

end PgRouter.Client.Attachment
