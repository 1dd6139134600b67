import PgRouter.Library.Runs
import PgRouter.Net.Startup

namespace PgRouter.Client.Inflight

open Protocol Library.Runs Net.Startup

section Code

/-- The handler, with all calls of `Handle` in the order in which they have begun. -/
structure PooledHandler where
  options : Options
  inflight : ℤ
  calls : List Place
  deriving DecidableEq

namespace PooledHandler

def inflightClients (h : PooledHandler) : ℤ := h.inflight

def start (h : PooledHandler) : PooledHandler := { h with calls := h.calls ++ [.receiving] }

def proceed (h : PooledHandler) (i : ℕ) (outcome : Outcome) : Option PooledHandler :=
  (h.calls[i]?).bind fun place ↦ (h.options.handle place outcome).map fun next ↦
    { h with calls := h.calls.set i next }

/-- One round of `WaitForDrain`, with its result once it returns. -/
def waitForDrain (h : PooledHandler) (deadline now : ℤ) : Option ℤ :=
  if h.inflight = 0 then some 0 else if now < deadline then none else some h.inflight

def isRunning (p : Place) : Bool := p != .returned

def inProgress (h : PooledHandler) : ℕ := h.calls.countP isRunning

end PooledHandler

/-- A call of `WaitForDrain`: how many calls of `Handle` had begun before it, its result, and where these calls
are when its caller closes the manager. -/
structure Drain where
  deadline : ℤ
  early : ℕ
  result : Option ℤ
  left : Option (List Place)
  deriving DecidableEq

structure System where
  handler : PooledHandler
  drains : List Drain
  deriving DecidableEq

inductive Event
  | handle
  | proceed (i : ℕ) (outcome : Outcome)
  | waitForDrain (deadline : ℤ)
  | poll (j : ℕ) (now : ℤ)
  | close (j : ℕ)
  deriving DecidableEq

namespace System

def new (o : Options) : System := ⟨⟨o, 0, []⟩, []⟩

def step (s : System) : Event → Option System
  | .handle => some { s with handler := s.handler.start }
  | .proceed i outcome => (s.handler.proceed i outcome).map fun h ↦ { s with handler := h }
  | .waitForDrain deadline =>
    some { s with drains := s.drains ++ [⟨deadline, s.handler.calls.length, none, none⟩] }
  | .poll j now => (s.drains[j]?).bind fun d ↦
    if d.result.isSome then none
    else some { s with drains := s.drains.set j { d with result := s.handler.waitForDrain d.deadline now } }
  | .close j => (s.drains[j]?).bind fun d ↦
    if d.result.isSome && d.left.isNone then
      some { s with drains := s.drains.set j { d with left := some (s.handler.calls.take d.early) } }
    else none

/-- The counter is the number of calls in progress, and where `WaitForDrain` has returned 0 the calls from
before it had returned when the manager was closed. -/
structure Accounted (s : System) : Prop where
  counted : s.handler.inflightClients = s.handler.inProgress
  drained : ∀ d ∈ s.drains, d.result = some 0 → ∀ left, d.left = some left → ∀ p ∈ left, p = .returned

end System

end Code

section Counting

variable {o : Options} {s t : System} {e : Event} {es : List Event}

theorem handler_of_step (h : s.step e = some t) :
    e = .handle ∧ t.handler = s.handler.start ∨
      (∃ i outcome, e = .proceed i outcome ∧ s.handler.proceed i outcome = some t.handler) ∨
      (e ≠ .handle ∧ ∀ i outcome, e ≠ .proceed i outcome) ∧ t.handler = s.handler := by
  cases e with
  | handle =>
    cases h
    exact .inl ⟨rfl, rfl⟩
  | proceed i outcome =>
    obtain ⟨h', hproceed, rfl⟩ := Option.map_eq_some_iff.mp h
    exact .inr (.inl ⟨i, outcome, rfl, hproceed⟩)
  | waitForDrain deadline =>
    cases h
    exact .inr (.inr ⟨by simp, rfl⟩)
  | poll j now | close j =>
    obtain ⟨d, -, hd⟩ := Option.bind_eq_some_iff.mp h
    split at hd <;> cases hd
    exact .inr (.inr ⟨by simp, rfl⟩)

theorem proceed_spec {h h' : PooledHandler} {i : ℕ} {outcome : Outcome} (hproceed : h.proceed i outcome = some h') :
    ∃ place next, h.calls[i]? = some place ∧ h.options.handle place outcome = some next ∧
      h' = { h with calls := h.calls.set i next } := by
  obtain ⟨place, hplace, hmap⟩ := Option.bind_eq_some_iff.mp hproceed
  obtain ⟨next, hnext, rfl⟩ := Option.map_eq_some_iff.mp hmap
  exact ⟨place, next, hplace, hnext, rfl⟩

theorem inflight_of_step (h : s.step e = some t) : t.handler.inflight = s.handler.inflight := by
  obtain ⟨-, ht⟩ | ⟨i, outcome, -, hproceed⟩ | ⟨-, ht⟩ := handler_of_step h
  · rw [ht]
    rfl
  · obtain ⟨place, next, -, -, ht⟩ := proceed_spec hproceed
    rw [ht]
  · rw [ht]

theorem inflight_of_run (h : Run System.step anyStep (System.new o) es t) : t.handler.inflight = 0 :=
  h.invariant (fun _ _ _ hs _ hstep ↦ (inflight_of_step hstep).trans hs) rfl

theorem left_of_step {P : List Place → Prop} (h : s.step e = some t)
    (hs : ∀ d ∈ s.drains, ∀ left, d.left = some left → P left)
    (hclose : ∀ j, e = .close j → ∀ n, P (s.handler.calls.take n)) :
    ∀ d ∈ t.drains, ∀ left, d.left = some left → P left := by
  intro d hd left hleft
  cases e with
  | handle =>
    cases h
    exact hs d hd left hleft
  | proceed i outcome =>
    obtain ⟨h', -, rfl⟩ := Option.map_eq_some_iff.mp h
    exact hs d hd left hleft
  | waitForDrain deadline =>
    cases h
    obtain hd | hd := List.mem_append.mp hd
    · exact hs d hd left hleft
    · rw [List.mem_singleton.mp hd] at hleft
      cases hleft
  | poll j now =>
    obtain ⟨d', hd', hstep⟩ := Option.bind_eq_some_iff.mp h
    split at hstep
    · cases hstep
    · cases hstep
      obtain hd | rfl := List.mem_or_eq_of_mem_set hd
      · exact hs d hd left hleft
      · exact hs d' (List.mem_of_getElem? hd') left hleft
  | close j =>
    obtain ⟨d', -, hstep⟩ := Option.bind_eq_some_iff.mp h
    split at hstep
    · cases hstep
      obtain hd | rfl := List.mem_or_eq_of_mem_set hd
      · exact hs d hd left hleft
      · cases hleft
        exact hclose j rfl d'.early
    · cases hstep

structure Idle (s : System) : Prop where
  calls : s.handler.calls = []
  left : ∀ d ∈ s.drains, ∀ left, d.left = some left → left = []

theorem Idle.step (hs : Idle s) (he : e ≠ .handle) (h : s.step e = some t) : Idle t := by
  have hcalls : t.handler.calls = [] := by
    obtain ⟨hhandle, -⟩ | ⟨i, outcome, -, hproceed⟩ | ⟨-, ht⟩ := handler_of_step h
    · exact absurd hhandle he
    · obtain ⟨place, next, hplace, -⟩ := proceed_spec hproceed
      rw [hs.calls] at hplace
      cases hplace
    · rw [ht, hs.calls]
  refine ⟨hcalls, left_of_step h hs.left fun j _ n ↦ ?_⟩
  rw [hs.calls, List.take_nil]

theorem Idle.accounted (hs : Idle s) (hinflight : s.handler.inflight = 0) : s.Accounted := by
  refine ⟨?_, fun d hd _ left hleft p hp ↦ ?_⟩
  · rw [PooledHandler.inflightClients, hinflight, PooledHandler.inProgress, hs.calls]
    rfl
  · rw [hs.left d hd left hleft] at hp
    cases hp

def notHandle (_ : System) (e : Event) : Bool := e != .handle

theorem not_accounted_start (hinflight : s.handler.inflight = 0) :
    ¬System.Accounted { s with handler := s.handler.start } := by
  intro h
  have hcounted := h.counted
  simp only [PooledHandler.inflightClients, PooledHandler.inProgress, PooledHandler.start, hinflight,
    List.countP_append] at hcounted
  have hone : [Place.receiving].countP PooledHandler.isRunning = 1 := rfl
  omega

/-- The accounts are right throughout a run exactly where no call of `Handle` begins in it. -/
theorem accounted_iff (o : Options) (es : List Event) (t : System)
    (h : Run System.step anyStep (System.new o) es t) :
    (∀ es' u, es' <+: es → Run System.step anyStep (System.new o) es' u → u.Accounted) ↔ Event.handle ∉ es := by
  constructor
  · intro haccounted hmem
    obtain ⟨es₁, es₂, rfl⟩ := List.append_of_mem hmem
    obtain ⟨u, hu, -⟩ := h.split
    have hhandle : Run System.step anyStep (System.new o) (es₁ ++ [.handle]) { u with handler := u.handler.start } :=
      hu.snoc rfl rfl
    have hinit : es₁ ++ [Event.handle] <+: es₁ ++ .handle :: es₂ := ⟨es₂, by simp⟩
    exact not_accounted_start (inflight_of_run hu) (haccounted _ _ hinit hhandle)
  · intro hnot es' u hes' hu
    have hguarded : Run System.step notHandle (System.new o) es' u := by
      refine hu.of_events fun e he _ ↦ bne_iff_ne.mpr ?_
      rintro rfl
      exact hnot (hes'.subset he)
    have hidle : Idle u :=
      hguarded.invariant (fun _ _ _ hs he hstep ↦ hs.step (bne_iff_ne.mp he) hstep) ⟨rfl, fun d hd ↦ by cases hd⟩
    exact hidle.accounted (inflight_of_run hu)

theorem accounted_iff_drain :
    (∀ es' u, es' <+: [Event.waitForDrain 30, .poll 0 0] →
      Run System.step anyStep (System.new ⟨false, true⟩) es' u → u.Accounted) ∧
      ¬∀ es' u, es' <+: [Event.handle, .waitForDrain 30, .poll 0 0] →
        Run System.step anyStep (System.new ⟨false, true⟩) es' u → u.Accounted := by
  have hidle : Run System.step anyStep (System.new ⟨false, true⟩) [.waitForDrain 30, .poll 0 0] _ := run_of_exec rfl
  have hbusy : Run System.step anyStep (System.new ⟨false, true⟩) [.handle, .waitForDrain 30, .poll 0 0] _ :=
    run_of_exec rfl
  exact ⟨(accounted_iff ⟨false, true⟩ _ _ hidle).mpr (by decide),
    fun h ↦ (accounted_iff ⟨false, true⟩ _ _ hbusy).mp h (by decide)⟩

/-- A client is served, `WaitForDrain` returns 0 at once, and the manager is closed meanwhile. -/
theorem drain_leaves_client :
    ∃ t, Run System.step anyStep (System.new ⟨false, false⟩)
      [.handle, .proceed 0 (.received (some (.startupMessage (ascii "u") (ascii "d")))), .waitForDrain 30, .poll 0 0,
        .close 0] t ∧ t.handler.inflightClients = 0 ∧ t.handler.inProgress = 1 ∧
      t.drains = [⟨30, 1, some 0, some [.pooled (ascii "u") (ascii "d")]⟩] :=
  ⟨_, run_of_exec rfl, rfl, rfl, rfl⟩

end Counting

end PgRouter.Client.Inflight
