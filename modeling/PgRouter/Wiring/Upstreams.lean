import Mathlib.Algebra.Order.Ring.Int

namespace PgRouter.Wiring.Upstreams

section Monitoring

structure PrimaryMonitor where
  maxFailures : ℤ
  healthy : Bool := true
  fails : ℤ := 0
  healthyAtomic : Bool := true
  probeConn : Bool := false

namespace PrimaryMonitor

def new (maxFailures : ℤ) : PrimaryMonitor := { maxFailures := if maxFailures < 1 then 3 else maxFailures }

def recordSuccess (pm : PrimaryMonitor) : PrimaryMonitor :=
  { pm with fails := 0, healthy := true, healthyAtomic := true }

def recordFailure (pm : PrimaryMonitor) : PrimaryMonitor :=
  let pm := { pm with fails := pm.fails + 1 }
  if pm.maxFailures ≤ pm.fails ∧ pm.healthy then { pm with healthy := false, healthyAtomic := false } else pm

def stop (pm : PrimaryMonitor) : PrimaryMonitor := { pm with probeConn := false }

/-- A probe, with whether it would succeed to dial and to ping, and whether it succeeds. -/
def probe (pm : PrimaryMonitor) (dials pings : Bool) : PrimaryMonitor × Bool :=
  if pm.probeConn || dials then
    if pings then ({ pm with probeConn := true }.recordSuccess, true)
    else ({ pm with probeConn := false }.recordFailure, false)
  else (pm.recordFailure, false)

end PrimaryMonitor

inductive Event
  | probe (dials pings : Bool)
  | stop

/-- A monitor, with the results of its probes from the last to the first. -/
structure Watch where
  monitor : PrimaryMonitor
  results : List Bool

def Watch.step (w : Watch) : Event → Watch
  | .probe dials pings => ⟨(w.monitor.probe dials pings).1, (w.monitor.probe dials pings).2 :: w.results⟩
  | .stop => ⟨w.monitor.stop, w.results⟩

/-- How many probes have failed since one has succeeded. -/
def failing (results : List Bool) : ℕ := (results.takeWhile (!·)).length

structure Watches (limit : ℤ) (w : Watch) : Prop where
  maxFailures : w.monitor.maxFailures = limit
  fails : w.monitor.fails = failing w.results
  healthy : w.monitor.healthy = decide (failing w.results < limit)
  published : w.monitor.healthyAtomic = w.monitor.healthy

variable {limit : ℤ} {pm : PrimaryMonitor} {results : List Bool}

theorem Watches.recordFailure (h : Watches limit ⟨pm, results⟩) :
    Watches limit ⟨pm.recordFailure, false :: results⟩ := by
  obtain ⟨hlimit, hfails, hhealthy, hpublished⟩ := h
  have hfailing : (failing (false :: results) : ℤ) = failing results + 1 := rfl
  dsimp only at hlimit hfails hhealthy hpublished
  rw [PrimaryMonitor.recordFailure, hfails, hlimit, hhealthy]
  split
  case isTrue htripped =>
    refine ⟨rfl, rfl, (decide_eq_false ?_).symm, rfl⟩
    have hover := htripped.1
    dsimp only at hover ⊢
    omega
  case isFalse hkept =>
    refine ⟨rfl, rfl, decide_eq_decide.mpr ?_, hpublished.trans hhealthy⟩
    rw [decide_eq_true_eq] at hkept
    dsimp only at hkept ⊢
    omega

theorem Watches.step {w : Watch} (h : Watches limit w) (hlimit : 0 < limit) (e : Event) : Watches limit (w.step e) := by
  obtain ⟨pm, results⟩ := w
  have hconn (probeConn : Bool) : Watches limit ⟨{ pm with probeConn := probeConn }, results⟩ :=
    ⟨h.maxFailures, h.fails, h.healthy, h.published⟩
  cases e with
  | stop => exact hconn false
  | probe dials pings =>
    rw [Watch.step, PrimaryMonitor.probe]
    split
    · split
      · exact ⟨h.maxFailures, rfl, (decide_eq_true hlimit).symm, rfl⟩
      · exact (hconn false).recordFailure
    · exact h.recordFailure

/-- The primary is taken for healthy until as many probes in a row have failed as the configuration allows, and again
from the first that succeeds on. -/
theorem healthy_iff (maxFailures : ℤ) (events : List Event) :
    let w := events.foldl Watch.step ⟨.new maxFailures, []⟩
    w.monitor.healthyAtomic = true ↔ failing w.results < if maxFailures < 1 then 3 else maxFailures := by
  have hlimit : 0 < if maxFailures < 1 then 3 else maxFailures := by omega
  have h : Watches (if maxFailures < 1 then 3 else maxFailures) (events.foldl Watch.step ⟨.new maxFailures, []⟩) :=
    List.foldlRecOn events Watch.step ⟨rfl, rfl, (decide_eq_true hlimit).symm, rfl⟩ fun _ h e _ ↦ h.step hlimit e
  intro w
  rw [h.published, h.healthy, decide_eq_true_eq]

end Monitoring

end PgRouter.Wiring.Upstreams
