import PgRouter.Client.Effects
import PgRouter.Client.Sharing

namespace PgRouter.Client.SendBuffer

open Protocol Servers Handler Effects Sharing

variable {γ : Type} {sql : SQL γ} {i : ℕ} {s : Session γ} {r : Res γ}

def Tagged (i : ℕ) (b : Backend) : Prop := ∀ p ∈ b.sendBuf, p.1 = i

def Flushed (b : Backend) : Prop := b.sendBuf = []

def Fits (i : ℕ) (raw : Bool) : Phase → Backend → Prop
  | .welcome, _ | .greeting, _ | .acquiring .., _ | .returned, _ => False
  | .draining _, b | .replaying _, b | .resetting _, b => Flushed b
  | .replayFlush _, b | .resetFlush _, b => Tagged i b
  | .top, b | .polling, b | .flushing, b => Tagged i b ∧ (raw = true → Flushed b)

structure Tidy (i : ℕ) (s : Session γ) : Prop where
  id : s.id = i
  fits : ∀ b, s.bConn = some b → Fits i s.cfg.rawPassthrough s.phase b

structure Proper (i : ℕ) (r : Res γ) : Prop where
  tidy : Tidy i r.1
  acts : ∀ a ∈ r.2, Lawful Flushed i a

variable {b : Backend}

theorem Flushed.tagged (hb : Flushed b) : Tagged i b := by
  intro p hp
  rw [hb] at hp
  cases hp

theorem Fits.tagged {raw : Bool} {phase : Phase} (hb : Fits i raw phase b) : Tagged i b := by
  cases phase with
  | welcome | greeting | acquiring | returned => exact hb.elim
  | draining | replaying | resetting => exact Flushed.tagged hb
  | replayFlush | resetFlush => exact hb
  | top | polling | flushing => exact hb.1

theorem Tidy.tagged (hs : Tidy i s) (hb : s.bConn = some b) : Tagged i b :=
  (hs.fits b hb).tagged

theorem Tidy.detached (hs : Tidy i s) (hphase : ∀ raw b, ¬Fits i raw s.phase b) : s.bConn = none := by
  cases hb : s.bConn with
  | none => rfl
  | some b => exact absurd (hs.fits b hb) (hphase _ b)

theorem tidy_detached (hid : s.id = i) (hb : s.bConn = none) : Tidy i s := by
  refine ⟨hid, fun b hb' ↦ ?_⟩
  rw [hb] at hb'
  cases hb'

theorem lawful_act {a : Act} (ha : Local a) : Lawful Flushed i a := by
  cases a with
  | put pool b | wrote owner b m => exact ha.elim
  | _ => trivial

theorem lawful_of_local {acts : List Act} (hacts : ∀ a ∈ acts, Local a) : ∀ a ∈ acts, Lawful Flushed i a :=
  fun a ha ↦ lawful_act (hacts a ha)

theorem Proper.andThen {f : Session γ → Res γ} (hacts : ∀ a ∈ r.2, Lawful Flushed i a)
    (hf : Proper i (f r.1)) : Proper i (r.andThen f) := by
  refine ⟨hf.tidy, fun a ha ↦ ?_⟩
  rcases List.mem_append.mp ha with ha | ha
  · exact hacts a ha
  · exact hf.acts a ha

section

variable (hid : s.id = i)

include hid

theorem discard_lawful (htag : ∀ b, s.bConn = some b → Tagged i b) :
    ∀ a ∈ s.discard.2, Lawful Flushed i a := by
  unfold Session.discard
  split
  · simp
  · rename_i b hb
    intro a ha
    rcases List.mem_append.mp ha with ha | ha
    · obtain ⟨p, hp, rfl⟩ := List.mem_map.mp ha
      exact htag b hb p hp
    · cases List.mem_singleton.mp ha
      exact hid

theorem proper_closed (htag : ∀ b, s.bConn = some b → Tagged i b) (hr : Closed s r) :
    Proper i r := by
  refine ⟨tidy_detached (hr.id.trans hid) hr.bConn, fun a ha ↦ ?_⟩
  rcases hr.acts a ha with ha | ha
  · exact discard_lawful hid htag a ha
  · exact lawful_act ha

theorem proper_served (hs : ∀ b, s.bConn = some b → Tagged i b ∧ (s.cfg.rawPassthrough = true → Flushed b))
    (hr : Served s r) : Proper i r := by
  refine ⟨⟨hr.id.trans hid, fun b' hb' ↦ ?_⟩, lawful_of_local hr.acts⟩
  obtain ⟨b, hb, hfed⟩ := hr.conn b' hb'
  obtain ⟨htag, hraw⟩ := hs b hb
  have hrest : Tagged i b' ∧ (r.1.cfg.rawPassthrough = true → Flushed b') := by
    refine ⟨fun p hp ↦ ?_, fun h ↦ ?_⟩
    · rcases hfed.own p hp with hp | hp
      · exact htag p hp
      · exact hp.trans hid
    · rw [hr.cfg] at h
      exact (hfed.raw h).trans (hraw h)
  rcases hr.phase with hphase | hphase | ⟨hnone, -⟩
  · rw [hphase]
    exact hrest
  · rw [hphase]
    exact hrest
  · rw [hnone] at hb'
    cases hb'

theorem proper_released {leaving : Bool} (htag : ∀ b, s.bConn = some b → Tagged i b)
    (hempty : s.cfg.resetOnRelease = false → ∀ b, s.bConn = some b → Flushed b)
    (hr : Released leaving s r) : Proper i r := by
  cases hr with
  | nothing hid' hb hacts => exact ⟨tidy_detached (hid'.trans hid) hb, by simp [hacts]⟩
  | asked hb hreset query =>
    refine ⟨⟨hid, fun b' hb' ↦ ?_⟩, by simp⟩
    cases hb'
    intro p hp
    rcases List.mem_append.mp hp with hp | hp
    · exact htag _ hb p hp
    · cases List.mem_singleton.mp hp
      exact hid
  | put hb hreset pool =>
    refine ⟨?_, fun a ha ↦ ?_⟩
    · exact tidy_detached (by simpa using hid) (by simp)
    · cases List.mem_singleton.mp ha
      exact hempty hreset _ hb

theorem proper_leave (htag : ∀ b, s.bConn = some b → Tagged i b)
    (hempty : s.state.isIdle = true → s.cfg.resetOnRelease = false → ∀ b, s.bConn = some b → Flushed b) :
    Proper i s.leave := by
  have hleft := left_of_leave s
  generalize s.leave = r at hleft ⊢
  cases hleft with
  | alone hb => exact ⟨tidy_detached hid hb, by simp⟩
  | released hidle hr => exact proper_released hid htag (hempty hidle) hr
  | closed hbusy hr => exact proper_closed hid htag hr

end

theorem flush_flushed (hb : s.flush.1.bConn = some b) : Flushed b := by
  unfold Session.flush at hb
  split at hb
  · simp_all
  · cases hb
    rfl

theorem flush_lawful (htag : ∀ b, s.bConn = some b → Tagged i b) : ∀ a ∈ s.flush.2, Lawful Flushed i a := by
  unfold Session.flush
  split
  · simp
  · rename_i b hb
    intro a ha
    obtain ⟨p, hp, rfl⟩ := List.mem_map.mp ha
    exact htag b hb p hp

theorem proper_flush (hid : s.id = i) (htag : ∀ b, s.bConn = some b → Tagged i b)
    (hphase : ∀ raw b, Flushed b → Fits i raw s.phase b) : Proper i s.flush := by
  refine ⟨⟨by simpa using hid, fun b hb ↦ ?_⟩, flush_lawful htag⟩
  rw [Session.flush_phase]
  exact hphase _ b (flush_flushed hb)

theorem loseBuf_flushed (hb : s.loseBuf.bConn = some b) : Flushed b := by
  obtain ⟨b', -, rfl⟩ := Option.map_eq_some_iff.mp hb
  rfl

section

variable (hid : s.id = i)

include hid

theorem writeBatch_lawful (hs : ∀ b, s.bConn = some b → Tagged i b ∧ (s.cfg.rawPassthrough = true → Flushed b)) :
    (∀ a ∈ s.writeBatch.2, Lawful Flushed i a) ∧ s.writeBatch.1.id = i ∧
      ∀ b, s.writeBatch.1.bConn = some b → Flushed b := by
  unfold Session.writeBatch
  split
  · rename_i hraw
    split
    · exact ⟨by simp, hid, by simp_all⟩
    · rename_i b hb
      refine ⟨fun a ha ↦ ?_, hid, fun b' hb' ↦ (hs b' hb').2 hraw⟩
      obtain ⟨m, -, ha⟩ := List.mem_flatMap.mp ha
      simp only [List.mem_cons, List.not_mem_nil, or_false] at ha
      rcases ha with rfl | rfl
      · trivial
      · exact hid
  · exact ⟨flush_lawful fun b hb ↦ (hs b hb).1, by simpa using hid, fun b hb ↦ flush_flushed hb⟩

section

variable (hs : ∀ b, s.bConn = some b → Flushed b)

include hs

theorem proper_startDrain (ok : Bool) :
    Proper i (s.startDrain ok) := by
  unfold Session.startDrain
  split
  · refine .andThen (lawful_of_local (beFlush_local ok s)) ?_
    split
    · exact ⟨⟨hid, hs⟩, by simp⟩
    · apply proper_leave
      · exact hid
      · exact fun b hb ↦ (hs b hb).tagged
      · exact fun _ _ ↦ hs
  · exact ⟨⟨hid, hs⟩, by simp⟩

theorem proper_finalizeRFQ :
    Proper i s.finalizeRFQ := by
  unfold Session.finalizeRFQ
  split
  · exact proper_released hid (fun b hb ↦ (hs b hb).tagged) (fun _ ↦ hs) (released_of_release false s)
  · exact ⟨⟨hid, fun b hb ↦ ⟨(hs b hb).tagged, fun _ ↦ hs b hb⟩⟩, by simp⟩

theorem proper_drainReceived {splicing : Bool}
    (hphase : s.phase = .draining splicing) (m : BackendMessage) (ok : Bool) :
    Proper i (s.drainReceived splicing m ok) := by
  have hstay {t : Session γ} (hid' : t.id = s.id) (hb : t.bConn = s.bConn) (hphase' : t.phase = s.phase) :
      Tidy i t := by
    refine ⟨hid'.trans hid, fun b hb' ↦ ?_⟩
    rw [hphase', hphase]
    rw [hb] at hb'
    exact hs b hb'
  unfold Session.drainReceived
  split
  · exact ⟨hstay rfl rfl rfl, by simp⟩
  · split
    · exact ⟨hstay rfl rfl rfl, by simp⟩
    · refine .andThen (lawful_of_local (beFlush_local ok _)) ?_
      split
      · rcases Session.observe_cases m (s.pass m ok).1 with ⟨_, -, hobs⟩ | ⟨-, hobs⟩ | ⟨-, hobs⟩
        · rw [hobs]
          apply proper_finalizeRFQ
          · exact hid
          · exact hs
        · rw [hobs]
          exact ⟨⟨hid, fun b hb ↦ ⟨(hs b hb).tagged, fun _ ↦ hs b hb⟩⟩, by simp⟩
        · rw [hobs]
          exact ⟨hstay rfl rfl rfl, by simp⟩
      · apply proper_leave
        · exact hid
        · exact fun b hb ↦ (hs b hb).tagged
        · exact fun _ _ ↦ hs

theorem proper_resetReceived {leaving : Bool}
    (hphase : s.phase = .resetting leaving) (m : BackendMessage) : Proper i (s.resetReceived leaving m) := by
  have hfailed := proper_closed hid (fun b hb ↦ (hs b hb).tagged) (closed_resetFailed leaving s)
  unfold Session.resetReceived
  split
  · exact hfailed
  · split
    · unfold Session.putBack
      split
      · exact ⟨tidy_detached (by simpa using hid) (by simp_all), by simp⟩
      · rename_i b hb
        refine ⟨tidy_detached (by simpa using hid) (by simp), fun a ha ↦ ?_⟩
        cases List.mem_singleton.mp ha
        obtain ⟨b', hb', rfl⟩ := Option.map_eq_some_iff.mp hb
        exact hs b' hb'
    · exact hfailed
  · refine ⟨⟨hid, fun b hb ↦ ?_⟩, by simp⟩
    rw [hphase]
    exact hs b hb

end

theorem proper_pollReceived (hs : ∀ b, s.bConn = some b → Tagged i b ∧ (s.cfg.rawPassthrough = true → Flushed b))
    (hphase : s.phase = .polling) (m : BackendMessage) (ok : Bool) : Proper i (s.pollReceived m ok) := by
  refine .andThen (lawful_of_local (beFlush_local ok _)) ?_
  split
  · have hstay : ((s.pass m ok).1.note m).phase = .polling := hphase
    refine ⟨⟨hid, fun b hb ↦ ?_⟩, by simp⟩
    rw [hstay]
    exact hs b hb
  · exact proper_closed hid (fun b hb ↦ (hs b hb).1) (closed_discard rfl rfl)

theorem ask_tagged (htag : ∀ b, s.bConn = some b → Tagged i b) {query : Text} {b : Backend}
    (hb : (s.ask query).bConn = some b) : Tagged i b := by
  obtain ⟨b', hb', rfl⟩ := Option.map_eq_some_iff.mp hb
  intro p hp
  rcases List.mem_append.mp hp with hp | hp
  · exact htag b' hb' p hp
  · cases List.mem_singleton.mp hp
    exact hid

theorem proper_attach {b : Backend} (hb : Flushed b) (msg : FrontendMessage) (pool : ℕ) :
    Proper i (s.attach sql msg pool b) := by
  have hadopt (b' : Backend) (hb' : (s.adopt pool b).bConn = some b') : Flushed b' := by
    cases hb'
    split
    · rfl
    · exact hb
  unfold Session.attach
  split
  · apply proper_served _ _ (served_forwardMessage msg _)
    · exact hid
    · exact fun b' hb' ↦ ⟨(hadopt b' hb').tagged, fun _ ↦ hadopt b' hb'⟩
  · refine ⟨⟨hid, fun b' hb' ↦ ?_⟩, by simp⟩
    exact ask_tagged (s := s.adopt pool b) hid (fun b₁ hb₁ ↦ (hadopt b₁ hb₁).tagged) hb'

theorem proper_replayReceived (hs : ∀ b, s.bConn = some b → Flushed b)
    {msg : FrontendMessage} (hphase : s.phase = .replaying msg) (m : BackendMessage) (ok : Bool) :
    Proper i (s.replayReceived sql msg m ok) := by
  unfold Session.replayReceived
  split
  · exact proper_closed hid (fun b hb ↦ (hs b hb).tagged) (closed_replayFailed _ ok s)
  · exact proper_served hid (fun b hb ↦ ⟨(hs b hb).tagged, fun _ ↦ hs b hb⟩) (served_forwardMessage msg s)
  · refine ⟨⟨hid, fun b hb ↦ ?_⟩, by simp⟩
    rw [hphase]
    exact hs b hb

theorem proper_greet (hb : s.bConn = none) (params : List (Text × Text))
    (key : UInt32 × Text) (ok : Bool) : Proper i (s.greet params key ok) := by
  refine .andThen (lawful_of_local (beFlush_local ok _)) ?_
  split
  · exact ⟨tidy_detached hid hb, by simp⟩
  · exact ⟨tidy_detached hid hb, by simp⟩

end

end PgRouter.Client.SendBuffer
