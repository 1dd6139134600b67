import PgRouter.Replicas.Probes

namespace PgRouter.Replicas.Spoiling

open Library.Runs Pool.Ownership Pool.Slots Probes

variable {s t : State} {k : ℕ} {p q : Probe} {conn : ℕ}

def receives : Stage → Option ℕ
  | .receiving conn _ => some conn
  | _ => none

variable {i : ℕ} {kind : Kind} {out : Option ℤ} {pool : Pool.Model.State} {stage : Stage} {rest : List Reply}
  {reply : Reply}

theorem holds_of_receives (h : receives stage = some conn) : stage.holds = some conn := by
  cases stage <;> first | exact h | cases h

def Shows (f : Stage → Option ℕ) (s : State) (k conn : ℕ) : Prop :=
  ∃ p, s.probes[k]? = some p ∧ f p.stage = some conn

abbrev Holds := Shows Stage.holds

abbrev Receives := Shows receives

theorem Receives.holds (h : Receives s k conn) : Holds s k conn := by
  obtain ⟨p, hk, hreceives⟩ := h
  exact ⟨p, hk, holds_of_receives hreceives⟩

/-- What a probe has borrowed is held from the pool, by this probe only. -/
structure Custody (s : State) : Prop where
  sound : Sound s.pool
  held : ∀ {k conn : ℕ}, Holds s k conn → conn ∈ s.pool.shared.held
  alone : ∀ {j k conn : ℕ}, Holds s j conn → Holds s k conn → j = k

/-- An answer without its end is not there: the last message, and only that, is a `ReadyForQuery`. -/
def Whole (replies : List Reply) : Prop :=
  ∃ body txStatus, replies = body ++ [.readyForQuery txStatus] ∧ body.any Reply.isReady = false

/-- Every unread answer to a probe is whole and still being received, and no probe closes anything. -/
structure Unspoilt (s : State) : Prop where
  custody : Custody s
  unread : ∀ {conn : ℕ}, s.unread conn ≠ [] → ∃ k, Receives s k conn
  whole : ∀ {k conn : ℕ}, Receives s k conn → Whole (s.unread conn)
  closed : s.closed = []
  closes : ∀ p ∈ s.probes, ∀ conn, p.closes conn = false

theorem Unspoilt.unread_eq_nil (h : Unspoilt s) (hfree : ∀ k, ¬Receives s k conn) : s.unread conn = [] := by
  by_contra hunread
  obtain ⟨k, hk⟩ := h.unread hunread
  exact hfree k hk

theorem not_holds_of_returns (h : Custody s) (hreturns : returns s.pool i = some conn) (k : ℕ) : ¬Holds s k conn := by
  intro hholds
  exact not_mem_held_of_returns h.sound hreturns (h.held hholds)

theorem Unspoilt.clean (h : Unspoilt s) (hreturns : returns s.pool i = some conn) : Clean s conn where
  closed := by
    rw [h.closed]
    exact List.not_mem_nil
  closes p hp := h.closes p hp conn
  unread := h.unread_eq_nil fun k hk ↦ not_holds_of_returns h.custody hreturns k hk.holds

section Moves

variable (hk : s.probes[k]? = some p) (hprobes : t.probes = s.probes.set k q)

include hk hprobes

variable {j : ℕ}

theorem probe_of_set {r : Probe} (h : t.probes[j]? = some r) :
    j = k ∧ r = q ∨ j ≠ k ∧ s.probes[j]? = some r := by
  obtain ⟨hlt, -⟩ := List.getElem?_eq_some_iff.mp hk
  rw [hprobes, List.getElem?_set] at h
  by_cases hjk : k = j
  · subst hjk
    rw [if_pos rfl, if_pos hlt] at h
    exact .inl ⟨rfl, (Option.some.inj h).symm⟩
  · rw [if_neg hjk] at h
    exact .inr ⟨Ne.symm hjk, h⟩

theorem probe_set_self : t.probes[k]? = some q := by
  obtain ⟨hlt, -⟩ := List.getElem?_eq_some_iff.mp hk
  rw [hprobes, List.getElem?_set, if_pos rfl, if_pos hlt]

omit hk in
theorem probe_set_ne (hne : j ≠ k) : t.probes[j]? = s.probes[j]? := by
  rw [hprobes, List.getElem?_set, if_neg (Ne.symm hne)]

theorem shows_of_set {f : Stage → Option ℕ} (h : Shows f t j conn) :
    j = k ∧ f q.stage = some conn ∨ j ≠ k ∧ Shows f s j conn := by
  obtain ⟨r, hr, hconn⟩ := h
  rcases probe_of_set hk hprobes hr with ⟨rfl, rfl⟩ | ⟨hne, hr⟩
  · exact .inl ⟨rfl, hconn⟩
  · exact .inr ⟨hne, r, hr, hconn⟩

omit hk in
theorem receives_set_ne (hne : j ≠ k) (h : Receives s j conn) : Receives t j conn := by
  obtain ⟨r, hr, hconn⟩ := h
  exact ⟨r, by rw [probe_set_ne hprobes hne, hr], hconn⟩

theorem Custody.set (h : Custody s) (hsound : Sound t.pool)
    (hothers : ∀ j conn, j ≠ k → Holds s j conn → conn ∈ t.pool.shared.held)
    (hown : ∀ conn, q.stage.holds = some conn → conn ∈ t.pool.shared.held ∧ ∀ j, j ≠ k → ¬Holds s j conn) :
    Custody t where
  sound := hsound
  held := by
    intro j conn hj
    rcases shows_of_set hk hprobes hj with ⟨rfl, hq⟩ | ⟨hne, hj⟩
    · exact (hown conn hq).1
    · exact hothers j conn hne hj
  alone := by
    intro i j conn hi hj
    rcases shows_of_set hk hprobes hi with ⟨rfl, hq⟩ | ⟨hne, hi⟩
    · rcases shows_of_set hk hprobes hj with ⟨rfl, -⟩ | ⟨hne, hj⟩
      · rfl
      · exact absurd hj ((hown conn hq).2 j hne)
    · rcases shows_of_set hk hprobes hj with ⟨rfl, hq⟩ | ⟨-, hj⟩
      · exact absurd hi ((hown conn hq).2 i hne)
      · exact h.alone hi hj

theorem Custody.keep (h : Custody s) (hpool : t.pool = s.pool)
    (hheld : ∀ conn, q.stage.holds = some conn → p.stage.holds = some conn) : Custody t := by
  refine h.set hk hprobes ?_ ?_ ?_
  · rw [hpool]
    exact h.sound
  · intro j conn _ hj
    rw [hpool]
    exact h.held hj
  · intro conn hq
    have hown : Holds s k conn := ⟨p, hk, hheld conn hq⟩
    rw [hpool]
    exact ⟨h.held hown, fun j hne hj ↦ hne (h.alone hj hown)⟩

omit hk in
theorem closes_set (h : Unspoilt s) (hq : ∀ conn, q.closes conn = false) :
    ∀ r ∈ t.probes, ∀ conn, r.closes conn = false := by
  intro r hr conn
  rw [hprobes] at hr
  rcases List.mem_or_eq_of_mem_set hr with hr | rfl
  · exact h.closes r hr conn
  · exact hq conn

theorem Unspoilt.still (h : Unspoilt s) (hcustody : Custody t) (hunread : t.unread = s.unread)
    (hclosed : t.closed = s.closed) (hp : receives p.stage = none) (hq : receives q.stage = none)
    (hcloses : ∀ conn, q.closes conn = false) : Unspoilt t where
  custody := hcustody
  unread := by
    intro conn hne
    rw [hunread] at hne
    obtain ⟨j, hj⟩ := h.unread hne
    refine ⟨j, receives_set_ne hprobes ?_ hj⟩
    rintro rfl
    obtain ⟨r, hr, hreceives⟩ := hj
    obtain rfl : p = r := Option.some.inj (hk.symm.trans hr)
    rw [hp] at hreceives
    cases hreceives
  whole := by
    intro j conn hj
    rw [hunread]
    rcases shows_of_set hk hprobes hj with ⟨-, hreceives⟩ | ⟨-, hj⟩
    · rw [hq] at hreceives
      cases hreceives
    · exact h.whole hj
  closed := hclosed.trans h.closed
  closes := closes_set hprobes h hcloses

theorem Unspoilt.drain {replies : List Reply} (h : Unspoilt s) (hcustody : Custody t)
    (hp : p.stage.holds = some conn) (hunread : t.unread = Function.update s.unread conn replies)
    (hclosed : t.closed = s.closed)
    (hq : receives q.stage = some conn ∧ Whole replies ∨ receives q.stage = none ∧ replies = [])
    (hcloses : ∀ conn, q.closes conn = false) : Unspoilt t := by
  have hown : Holds s k conn := ⟨p, hk, hp⟩
  -- Another probe that receives does so on another backend, where nothing has changed.
  have hother : ∀ {j c : ℕ}, j ≠ k → Receives s j c → t.unread c = s.unread c := by
    intro j c hne hj
    rw [hunread, Function.update_of_ne]
    rintro rfl
    exact hne (h.custody.alone hj.holds hown)
  refine ⟨hcustody, ?_, ?_, hclosed.trans h.closed, closes_set hprobes h hcloses⟩
  · intro c hc
    by_cases hconn : c = conn
    · subst hconn
      rw [hunread, Function.update_self] at hc
      rcases hq with ⟨hreceives, -⟩ | ⟨-, hnil⟩
      · exact ⟨k, q, probe_set_self hk hprobes, hreceives⟩
      · exact absurd hnil hc
    · rw [hunread, Function.update_of_ne hconn] at hc
      obtain ⟨j, hj⟩ := h.unread hc
      refine ⟨j, receives_set_ne hprobes ?_ hj⟩
      rintro rfl
      obtain ⟨r, hr, hholds⟩ := hj.holds
      obtain rfl : p = r := Option.some.inj (hk.symm.trans hr)
      exact hconn (Option.some.inj (hholds.symm.trans hp))
  · intro j c hj
    rcases shows_of_set hk hprobes hj with ⟨-, hreceives⟩ | ⟨hne, hj⟩
    · rcases hq with ⟨hconn, hwhole⟩ | ⟨hnone, -⟩
      · obtain rfl : c = conn := Option.some.inj (hreceives.symm.trans hconn)
        rw [hunread, Function.update_self]
        exact hwhole
      · rw [hnone] at hreceives
        cases hreceives
    · rw [hother hne hj]
      exact h.whole hj

end Moves

theorem whole_cons (h : Whole (reply :: rest)) :
    reply.isReady = true ∧ rest = [] ∨ reply.isReady = false ∧ Whole rest := by
  obtain ⟨body, txStatus, heq, hbody⟩ := h
  cases body with
  | nil =>
    obtain ⟨rfl, rfl⟩ := List.cons.inj heq
    exact .inl ⟨rfl, rfl⟩
  | cons first body =>
    obtain ⟨rfl, rfl⟩ := List.cons.inj heq
    obtain ⟨hfirst, hbody⟩ := Bool.or_eq_false_iff.mp hbody
    exact .inr ⟨hfirst, body, txStatus, rfl, hbody⟩

theorem borrowed_of_holds (h : Holds s k conn) : s.borrowed conn = true := by
  obtain ⟨p, hk, hconn⟩ := h
  exact List.any_eq_true.mpr ⟨p, List.mem_of_getElem? hk, by rw [hconn]; exact beq_self_eq_true _⟩

theorem unspoilt_pool {e : Pool.Model.Event} (h : Unspoilt s) (hallows : s.allows e = true)
    (hstep : s.pool.step e = some pool) : Unspoilt { s with pool := pool } := by
  have hcustody : Custody { s with pool := pool } := by
    refine ⟨step_sound _ _ _ h.custody.sound hstep, ?_, h.custody.alone⟩
    intro k conn hk
    have hk : Holds s k conn := hk
    have hborrowed := borrowed_of_holds hk
    refine mem_held_of_step hstep (h.custody.held hk) ?_ ?_
    · rintro reset rfl
      simp [State.allows, hborrowed] at hallows
    · rintro rfl
      simp [State.allows, hborrowed] at hallows
  exact ⟨hcustody, h.unread, h.whole, h.closed, h.closes⟩

theorem unspoilt_start (h : Unspoilt s) (hstep : s.pool.step .acquire = some pool) :
    Unspoilt { s with pool := pool, probes := s.probes ++ [⟨kind, .acquiring s.pool.calls.length⟩] } := by
  have hold {j : ℕ} {r : Probe} (hr : (s.probes ++ [⟨kind, .acquiring s.pool.calls.length⟩])[j]? = some r) :
      s.probes[j]? = some r ∨ r.stage.holds = none := by
    rw [List.getElem?_append] at hr
    split at hr
    · exact .inl hr
    · cases List.mem_singleton.mp (List.mem_of_getElem? hr)
      exact .inr rfl
  have hholds {j conn : ℕ} (hj : Holds { s with
      pool := pool, probes := s.probes ++ [⟨kind, .acquiring s.pool.calls.length⟩] } j conn) : Holds s j conn := by
    obtain ⟨r, hr, hconn⟩ := hj
    rcases hold hr with hr | hnone
    · exact ⟨r, hr, hconn⟩
    · rw [hnone] at hconn
      cases hconn
  refine ⟨⟨step_sound _ _ _ h.custody.sound hstep, ?_, ?_⟩, ?_, ?_, h.closed, ?_⟩
  · intro k conn hk
    refine mem_held_of_step hstep (h.custody.held (hholds hk)) ?_ ?_
    · rintro reset ⟨⟩
    · rintro ⟨⟩
  · intro i j conn hi hj
    exact h.custody.alone (hholds hi) (hholds hj)
  · intro conn hunread
    obtain ⟨k, r, hr, hconn⟩ := h.unread hunread
    obtain ⟨hlt, -⟩ := List.getElem?_eq_some_iff.mp hr
    exact ⟨k, r, by rw [List.getElem?_append_left hlt, hr], hconn⟩
  · intro k conn hk
    obtain ⟨r, hr, hconn⟩ := hk
    rcases hold hr with hr | hnone
    · exact h.whole ⟨r, hr, hconn⟩
    · rw [holds_of_receives hconn] at hnone
      cases hnone
  · intro r hr conn
    rcases List.mem_append.mp hr with hr | hr
    · exact h.closes r hr conn
    · cases List.mem_singleton.mp hr
      cases kind <;> rfl

theorem heard_cases (conn : ℕ) (h : spoils kind out reply = false) :
    reply.isReady = false ∧ (∃ out', heard kind conn out reply = .receiving conn out') ∨
      reply.isReady = true ∧ heard kind conn out reply = .drained conn (kind == .lag && out.isNone) := by
  cases reply with
  | errorResponse => cases h
  | dataRow values =>
    refine .inl ⟨rfl, ?_⟩
    cases kind with
    | health => exact ⟨out, rfl⟩
    | lag =>
      cases hrow : onRow out values with
      | none => simp [spoils, hrow] at h
      | some out' => exact ⟨out', by simp [heard, hrow]⟩
  | readyForQuery txStatus => exact .inr ⟨rfl, rfl⟩
  | other => exact .inl ⟨rfl, out, rfl⟩

theorem unspoilt_heard (h : Unspoilt s) (hk : s.probes[k]? = some ⟨kind, .receiving conn out⟩)
    (hunread : s.unread conn = reply :: rest) (hspoils : spoils kind out reply = false) :
    Unspoilt { s.goTo k ⟨kind, heard kind conn out reply⟩ with unread := Function.update s.unread conn rest } := by
  have hwhole : Whole (reply :: rest) := hunread ▸ h.whole ⟨_, hk, rfl⟩
  have hcustody : Custody { s.goTo k ⟨kind, heard kind conn out reply⟩ with
      unread := Function.update s.unread conn rest } := by
    refine h.custody.keep hk rfl rfl ?_
    intro c hc
    rcases heard_cases conn hspoils with ⟨-, out', hheard⟩ | ⟨-, hheard⟩
    · rwa [hheard] at hc
    · rwa [hheard] at hc
  refine h.drain hk rfl hcustody rfl rfl rfl ?_ ?_
  · rcases heard_cases conn hspoils with ⟨hready, out', hheard⟩ | ⟨hready, hheard⟩
    · rcases whole_cons hwhole with ⟨hend, -⟩ | ⟨-, hrest⟩
      · rw [hready] at hend
        cases hend
      · exact .inl ⟨by rw [hheard]; rfl, hrest⟩
    · rcases whole_cons hwhole with ⟨-, hrest⟩ | ⟨hend, -⟩
      · exact .inr ⟨by rw [hheard]; rfl, hrest⟩
      · rw [hready] at hend
        cases hend
  · intro c
    rcases heard_cases conn hspoils with ⟨-, out', hheard⟩ | ⟨-, hheard⟩
    · rw [hheard]
      cases kind <;> rfl
    · rw [hheard]
      cases kind <;> rfl

theorem unspoilt_act {input : Input} (h : Unspoilt s) (hk : s.probes[k]? = some ⟨kind, stage⟩)
    (hanswered : answered s (.probe k input) = true) (hact : s.act k kind stage input = some t) : Unspoilt t := by
  have hcloses : ∀ c, Probe.closes ⟨kind, stage⟩ c = false := h.closes _ (List.mem_of_getElem? hk)
  unfold State.act at hact
  split at hact
  case h_1 call now =>
    split at hact
    case h_1 c hreturns =>
      obtain ⟨pool, hstep, rfl⟩ := Option.map_eq_some_iff.mp hact
      have hfree := not_holds_of_returns h.custody hreturns
      have hcustody : Custody { s.goTo k ⟨kind, .sending c⟩ with pool := pool } := by
        refine h.custody.set hk rfl (step_sound _ _ _ h.custody.sound hstep) ?_ ?_
        · intro j c' _ hj
          exact mem_held_of_step hstep (h.custody.held hj) (by rintro reset ⟨⟩) (by rintro ⟨⟩)
        · rintro c' ⟨⟩
          refine ⟨?_, fun j _ ↦ hfree j⟩
          change c ∈ pool.shared.held
          rw [held_of_advance hstep, hreturns]
          exact List.mem_cons_self
      exact h.still hk rfl hcustody rfl rfl rfl rfl (by cases kind <;> exact fun _ ↦ rfl)
    case h_2 =>
      split at hact
      · cases hact
        exact h.still hk rfl (h.custody.keep hk rfl rfl (by rintro c ⟨⟩)) rfl rfl rfl rfl
          (by cases kind <;> exact fun _ ↦ rfl)
      · cases hact
  case h_2 c body txStatus =>
    split at hact
    · cases hact
    case isFalse hbody =>
      cases hact
      have hnil : s.unread c = [] := by
        refine h.unread_eq_nil fun j hj ↦ ?_
        obtain rfl := h.custody.alone hj.holds ⟨_, hk, rfl⟩
        obtain ⟨r, hr, hreceives⟩ := hj
        cases hk.symm.trans hr
        cases hreceives
      refine h.drain hk rfl (h.custody.keep hk rfl rfl fun _ hc ↦ hc) rfl rfl rfl (.inl ⟨rfl, ?_⟩)
        (by cases kind <;> exact fun _ ↦ rfl)
      exact ⟨body, txStatus, by rw [hnil, List.nil_append], by simpa using hbody⟩
  case h_3 c =>
    cases hact
    obtain rfl : kind = .lag := by simpa [answered, hk] using hanswered
    exact h.still hk rfl (h.custody.keep hk rfl rfl fun _ hc ↦ hc) rfl rfl rfl rfl fun _ ↦ rfl
  case h_4 c out now =>
    split at hact
    · cases hact
    case h_2 reply rest hunread =>
      cases hact
      exact unspoilt_heard h hk hunread (by simpa [answered, hk, hunread] using hanswered)
  case h_5 c out => simp [answered, hk] at hanswered
  case h_6 c err now =>
    obtain ⟨pool, hstep, rfl⟩ := Option.map_eq_some_iff.mp hact
    have hcustody : Custody { s.goTo k ⟨kind, .releasing c s.pool.calls.length err⟩ with pool := pool } := by
      refine h.custody.set hk rfl (step_sound _ _ _ h.custody.sound hstep) ?_ (by rintro c' ⟨⟩)
      intro j c' hne hj
      refine mem_held_of_step hstep (h.custody.held hj) ?_ (by rintro ⟨⟩)
      rintro reset ⟨⟩
      exact hne (h.custody.alone hj ⟨_, hk, rfl⟩)
    exact h.still hk rfl hcustody rfl rfl rfl rfl (by cases kind <;> exact hcloses)
  case h_7 c call err now =>
    split at hact
    · have herr : (kind == .health && err) = false := by
        have hc := hcloses c
        cases kind with
        | health => simpa [Probe.closes] using hc
        | lag => rfl
      rw [herr] at hact
      cases hact
      exact h.still hk rfl (h.custody.keep hk rfl rfl (by rintro c ⟨⟩)) rfl rfl rfl rfl
        (by cases kind <;> exact fun _ ↦ rfl)
    · cases hact
  case h_8 => cases hact

theorem unspoilt_step {e : Event} (h : Unspoilt s) (hanswered : answered s e = true) (hstep : s.step e = some t) :
    Unspoilt t := by
  cases e with
  | pool e =>
    simp only [State.step] at hstep
    split at hstep
    · obtain ⟨pool, hpool, rfl⟩ := Option.map_eq_some_iff.mp hstep
      exact unspoilt_pool h ‹_› hpool
    · cases hstep
  | start kind =>
    rw [State.step] at hstep
    obtain ⟨pool, hpool, rfl⟩ := Option.map_eq_some_iff.mp hstep
    exact unspoilt_start h hpool
  | probe k input =>
    obtain ⟨⟨kind, stage⟩, hk, hact⟩ := Option.bind_eq_some_iff.mp hstep
    exact unspoilt_act h hk hanswered hact
  | read conn =>
    simp only [State.step] at hstep
    split at hstep
    case isTrue hread =>
      obtain ⟨-, hfree, hunread⟩ := hread
      obtain ⟨k, hk⟩ := h.unread hunread
      rw [borrowed_of_holds hk.holds] at hfree
      cases hfree
    case isFalse => cases hstep

theorem unspoilt_new (cfg : Pool.Model.Config) : Unspoilt (new cfg) where
  custody := ⟨sound_new cfg, fun ⟨_, h, _⟩ ↦ (by cases h), fun ⟨_, h, _⟩ ↦ (by cases h)⟩
  unread h := absurd rfl h
  whole := fun ⟨_, h, _⟩ ↦ (by cases h)
  closed := rfl
  closes _ h := by cases h

/-- While the queries of the probes are answered, no `Acquire` returns a backend that a probe has closed or
will close, or on which an answer to a probe is unread. -/
theorem clean_of_answered {cfg : Pool.Model.Config} {es : List Event} {i : ℕ}
    (hrun : Run State.step answered (new cfg) es s) (hreturns : returns s.pool i = some conn) : Clean s conn := by
  have hs : Unspoilt s := hrun.invariant (fun _ _ _ h hanswered hstep ↦ unspoilt_step h hanswered hstep)
    (unspoilt_new cfg)
  exact hs.clean hreturns

def begun (kind : Kind) : List Event := .start kind :: (steps 0 8).map .pool ++ [.probe 0 (.go 0)]

def passedOn (between : List Event) : List Event :=
  .probe 0 (.go 0) :: (steps 1 7).map .pool ++ between ++ (.acquire :: steps 2 5).map .pool

def measured : List Event :=
  begun .lag ++ .probe 0 (.sent [.other, .dataRow [some [0x37]], .other] 0x49) ::
    List.replicate 4 (.probe 0 (.go 0)) ++ passedOn [.probe 0 (.go 0)]

theorem measured_run :
    ∃ s, Run State.step answered (new oneSlot) measured s ∧ (returns s.pool 2 == some 0) = true :=
  exists_run_of_exec rfl

theorem clean_measured :
    ∃ s, Run State.step answered (new oneSlot) measured s ∧ returns s.pool 2 = some 0 ∧ Clean s 0 := by
  obtain ⟨s, hrun, hreturns⟩ := measured_run
  exact ⟨s, hrun, eq_of_beq hreturns, clean_of_answered hrun (eq_of_beq hreturns)⟩

def closedLate : List Event := begun .health ++ .probe 0 .fail :: passedOn [.probe 0 (.go 0)]

def leftOver : List Event :=
  begun .lag ++ .probe 0 (.sent [.errorResponse] 0x49) :: .probe 0 (.go 0) :: passedOn [.probe 0 (.go 0)]

theorem closedLate_run :
    ∃ s, Run State.step anyStep (new oneSlot) closedLate s ∧
      (returns s.pool 2 == some 0 && decide (0 ∈ s.closed)) = true :=
  exists_run_of_exec rfl

theorem leftOver_run :
    ∃ s, Run State.step anyStep (new oneSlot) leftOver s ∧
      (returns s.pool 2 == some 0 && s.unread 0 == [.readyForQuery 0x49]) = true :=
  exists_run_of_exec rfl

/-- One client is about to get a backend that the ping has closed, another one a backend on which the end
of the answer to the lag query is unread. -/
theorem spoilt_backends :
    (∃ s, Run State.step anyStep (new oneSlot) closedLate s ∧ returns s.pool 2 = some 0 ∧ 0 ∈ s.closed) ∧
      ∃ s, Run State.step anyStep (new oneSlot) leftOver s ∧ returns s.pool 2 = some 0 ∧
        s.unread 0 = [.readyForQuery 0x49] := by
  constructor
  · obtain ⟨s, hrun, hs⟩ := closedLate_run
    simp only [Bool.and_eq_true, beq_iff_eq, decide_eq_true_eq] at hs
    exact ⟨s, hrun, hs⟩
  · obtain ⟨s, hrun, hs⟩ := leftOver_run
    simp only [Bool.and_eq_true, beq_iff_eq] at hs
    exact ⟨s, hrun, hs⟩

end PgRouter.Replicas.Spoiling
