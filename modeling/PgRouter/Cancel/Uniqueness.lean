import PgRouter.Cancel.Keys
import PgRouter.Library.Runs

namespace PgRouter.Cancel.Uniqueness

open Library.Runs Keys

/-- Where `servePooled` stands: in `Allocate` with so many attempts left, behind it with the key that it got,
or behind the deferred `Release`. -/
inductive Session
  | allocating (attempts : ℕ)
  | serving (cancelKey : Option Key)
  | ended

structure State where
  tracker : Tracker
  sessions : List Session

inductive Event
  | start
  | draw (i : ℕ) (now : ℤ) (buf : Option (Vector UInt8 8))
  | bind (i : ℕ) (target : Target)
  | finish (i : ℕ)
  | sweep (ttl now : ℤ)

/-- The key of a live session. -/
def Session.held : Session → Option Key
  | .serving cancelKey => cancelKey
  | _ => none

/-- One attempt of `Allocate` with `n` behind it. Without a key the session goes on. -/
def draw (t : Tracker) (n : ℕ) (now : ℤ) (buf : Option (Vector UInt8 8)) : Session × Tracker :=
  match t.allocateAttempt now buf with
  | .failed => (.serving none, t)
  | .taken => (if n = 0 then .serving none else .allocating n, t)
  | .allocated k t' => (.serving (some k), t')

def State.held (s : State) (i : ℕ) : Option Key := s.sessions[i]?.bind Session.held

def empty : State := ⟨newTracker, []⟩

def step (s : State) : Event → Option State
  | .start => some { s with sessions := s.sessions ++ [.allocating 5] }
  | .draw i now buf =>
    match s.sessions[i]? with
    | some (.allocating (n + 1)) => some ⟨(draw s.tracker n now buf).2, s.sessions.set i (draw s.tracker n now buf).1⟩
    | _ => none
  | .bind i target => (s.held i).map fun k ↦ { s with tracker := s.tracker.bind k target }
  | .finish i =>
    match s.sessions[i]? with
    | some (.serving cancelKey) => some ⟨cancelKey.elim s.tracker s.tracker.release, s.sessions.set i .ended⟩
    | _ => none
  | .sweep ttl now => some { s with tracker := s.tracker.sweepUnbound ttl now }

/-- A sweep finds no key of a live session unbound and older than its ttl. -/
def spares (s : State) : Event → Bool
  | .sweep ttl now =>
    decide (ttl ≤ 0) || s.sessions.all fun c ↦ c.held.all fun k ↦ !s.tracker.stale (now - ttl) k
  | _ => true

variable {s t : State} {e : Event} {i j : ℕ} {k : Key}

/-- What a step does to the keys of the live sessions and to the tracker. -/
inductive Moves (s t : State) : Event → Prop
  | keeps {e : Event} : t.held = s.held → t.tracker = s.tracker → Moves s t e
  | allocates {i : ℕ} {k : Key} {now : ℤ} {buf : Option (Vector UInt8 8)} : s.tracker.m k = none →
      t.held = Function.update s.held i (some k) → t.tracker.m = Function.update s.tracker.m k (some unbound) →
      Moves s t (.draw i now buf)
  | binds {i : ℕ} {target : Target} {k : Key} : t.held = s.held → t.tracker = s.tracker.bind k target →
      Moves s t (.bind i target)
  | finishes {i : ℕ} : t.held = Function.update s.held i none →
      t.tracker = (s.held i).elim s.tracker s.tracker.release → Moves s t (.finish i)
  | sweeps {ttl now : ℤ} : t.held = s.held → t.tracker = s.tracker.sweepUnbound ttl now → Moves s t (.sweep ttl now)

theorem held_set {c c' : Session} (h : s.sessions[i]? = some c) (tracker : Tracker) :
    State.held ⟨tracker, s.sessions.set i c'⟩ = Function.update s.held i c'.held := by
  funext j
  obtain ⟨hlt, -⟩ := List.getElem?_eq_some_iff.mp h
  by_cases hj : j = i
  · subst hj
    rw [Function.update_self, State.held, List.getElem?_set_self hlt]
    rfl
  · rw [Function.update_of_ne hj, State.held, List.getElem?_set_ne (Ne.symm hj)]
    rfl

theorem held_set_none {c c' : Session} (h : s.sessions[i]? = some c) (hc : c.held = none) (hc' : c'.held = none)
    (tracker : Tracker) : State.held ⟨tracker, s.sessions.set i c'⟩ = s.held := by
  have hnone : s.held i = none := by
    rw [State.held, h]
    exact hc
  rw [held_set h, hc', ← hnone, Function.update_eq_self]

theorem held_start : State.held { s with sessions := s.sessions ++ [.allocating 5] } = s.held := by
  funext j
  rw [State.held, State.held, List.getElem?_append]
  split
  · rfl
  case isFalse hj =>
    rw [List.getElem?_eq_none (Nat.le_of_not_lt hj)]
    cases j - s.sessions.length <;> rfl

theorem moves_of_step (h : step s e = some t) : Moves s t e := by
  cases e with
  | start =>
    cases h
    exact .keeps held_start rfl
  | draw i now buf =>
    rw [step] at h
    split at h
    case h_2 => cases h
    case h_1 n hsession =>
      cases h
      rw [draw]
      cases buf with
      | none => exact .keeps (held_set_none hsession rfl rfl _) rfl
      | some buf =>
        cases hk : s.tracker.m (keyOf buf) with
        | some target =>
          simp only [Tracker.allocateAttempt, hk]
          refine .keeps (held_set_none hsession rfl ?_ _) rfl
          split <;> rfl
        | none =>
          simp only [Tracker.allocateAttempt, hk]
          exact .allocates hk (held_set hsession _) rfl
  | bind i target =>
    obtain ⟨k, -, rfl⟩ := Option.map_eq_some_iff.mp h
    exact .binds rfl rfl
  | finish i =>
    rw [step] at h
    split at h
    case h_2 => cases h
    case h_1 cancelKey hsession =>
      cases h
      have hheld : s.held i = cancelKey := by
        rw [State.held, hsession]
        rfl
      exact .finishes (held_set hsession _) (by rw [hheld])
  | sweep ttl now =>
    cases h
    exact .sweeps rfl rfl

/-- No key is held twice, and the tracker knows each key that is held. -/
structure Tracked (s : State) : Prop where
  distinct : ∀ i j k, s.held i = some k → s.held j = some k → i = j
  known : ∀ i k, s.held i = some k → s.tracker.m k ≠ none

theorem not_stale_of_spares {ttl now : ℤ} (h : spares s (.sweep ttl now) = true) (hk : s.held i = some k)
    (httl : 0 < ttl) :
    s.tracker.stale (now - ttl) k = false := by
  obtain ⟨c, hc, hheld⟩ := Option.bind_eq_some_iff.mp hk
  have hall := h
  simp only [spares, Bool.or_eq_true, decide_eq_true_eq, List.all_eq_true] at hall
  obtain hle | hall := hall
  · omega
  · have hkey := hall c (List.mem_of_getElem? hc)
    rw [hheld] at hkey
    simpa using hkey

theorem sweepUnbound_m {tracker : Tracker} {ttl now : ℤ} (h : 0 < ttl → tracker.stale (now - ttl) k = false) :
    (tracker.sweepUnbound ttl now).m k = tracker.m k := by
  rw [Tracker.sweepUnbound]
  split
  · rfl
  case isFalse httl =>
    simp only
    rw [h (Int.lt_of_not_ge httl)]
    simp

theorem tracked_step (h : Tracked s) (hspares : spares s e = true) (hstep : step s e = some t) : Tracked t := by
  obtain ⟨hdistinct, hknown⟩ := h
  cases moves_of_step hstep with
  | keeps hheld htracker =>
    constructor
    · rw [hheld]
      exact hdistinct
    · rw [hheld, htracker]
      exact hknown
  | @allocates i k now buf hfree hheld hm =>
    -- the tracker knows the keys that are held, and it did not know this one
    have hunheld (j : ℕ) : s.held j ≠ some k := fun hj ↦ hknown j k hj hfree
    constructor
    · intro a b k' ha hb
      rw [hheld, Function.update_apply] at ha hb
      split at ha <;> split at hb
      · omega
      · cases ha
        exact absurd hb (hunheld b)
      · cases hb
        exact absurd ha (hunheld a)
      · exact hdistinct a b k' ha hb
    · intro a k' ha
      rw [hm, Function.update_apply]
      split
      · exact Option.some_ne_none _
      case isFalse hk' =>
        rw [hheld, Function.update_apply] at ha
        split at ha
        · exact absurd (Option.some.inj ha).symm hk'
        · exact hknown a k' ha
  | @binds i target k hheld htracker =>
    constructor
    · rw [hheld]
      exact hdistinct
    · intro a k' ha
      rw [hheld] at ha
      have hm : t.tracker.m = Function.update s.tracker.m k (some target) := by
        rw [htracker]
        rfl
      rw [hm, Function.update_apply]
      split
      · exact Option.some_ne_none _
      · exact hknown a k' ha
  | @finishes i hheld htracker =>
    have hother (a : ℕ) (k' : Key) (ha : t.held a = some k') : a ≠ i ∧ s.held a = some k' := by
      rw [hheld, Function.update_apply] at ha
      split at ha
      · cases ha
      · exact ⟨‹_›, ha⟩
    constructor
    · intro a b k' ha hb
      exact hdistinct a b k' (hother a k' ha).2 (hother b k' hb).2
    · intro a k' ha
      obtain ⟨hne, ha⟩ := hother a k' ha
      rw [htracker]
      cases hi : s.held i with
      | none => exact hknown a k' ha
      | some k =>
        have hkey : k' ≠ k := by
          rintro rfl
          exact hne (hdistinct a i k' ha hi)
        simp only [Option.elim_some, Tracker.release, Function.update_of_ne hkey]
        exact hknown a k' ha
  | @sweeps ttl now hheld htracker =>
    constructor
    · rw [hheld]
      exact hdistinct
    · intro a k' ha
      rw [hheld] at ha
      rw [htracker, sweepUnbound_m fun httl ↦ not_stale_of_spares hspares ha httl]
      exact hknown a k' ha

theorem tracked_empty : Tracked empty := ⟨fun _ _ _ h ↦ (by cases h), fun _ _ h ↦ (by cases h)⟩

theorem entry_of_finish (h : Tracked s) (hstep : step s (.finish i) = some t) (hne : j ≠ i) (hj : s.held j = some k) :
    t.tracker.m k = s.tracker.m k ∧ t.tracker.createdAt k = s.tracker.createdAt k := by
  cases moves_of_step hstep with
  | keeps _ htracker =>
    rw [htracker]
    exact ⟨rfl, rfl⟩
  | finishes _ htracker =>
    rw [htracker]
    cases hi : s.held i with
    | none => exact ⟨rfl, rfl⟩
    | some k' =>
      have hkey : k ≠ k' := by
        rintro rfl
        exact hne (h.distinct j i k hj hi)
      exact ⟨Function.update_of_ne hkey _ _, Function.update_of_ne hkey _ _⟩

/-- As long as no sweep takes the key of a live session, the keys of the live sessions are distinct, and a
session that ends leaves the entries of the others alone. -/
theorem keys_distinct {es : List Event} (hrun : Run step spares empty es s) :
    (∀ i j k, s.held i = some k → s.held j = some k → i = j) ∧
    ∀ i t j k, step s (.finish i) = some t → j ≠ i → s.held j = some k →
      s.tracker.m k ≠ none ∧ t.tracker.m k = s.tracker.m k ∧ t.tracker.createdAt k = s.tracker.createdAt k := by
  have htracked := hrun.invariant (fun _ _ _ h hg hstep ↦ tracked_step h hg hstep) tracked_empty
  refine ⟨htracked.distinct, ?_⟩
  intro i t j k hstep hne hj
  exact ⟨htracked.known j k hj, entry_of_finish htracked hstep hne hj⟩

section Cases

def sameDraw : Vector UInt8 8 := #v[0, 0, 0, 7, 1, 2, 3, 4]

def otherDraw : Vector UInt8 8 := #v[0, 0, 0, 8, 1, 2, 3, 4]

/-- A client waits for longer than the ttl without a backend, and the next one gets its key. -/
def sweptAway : List Event := [.start, .draw 0 0 (some sameDraw), .sweep 1 10, .start, .draw 1 11 (some sameDraw)]

theorem key_held_twice : ∃ s t, exec step anyStep empty sweptAway = some s ∧
    s.held 0 = some (keyOf sameDraw) ∧ s.held 1 = some (keyOf sameDraw) ∧ s.tracker.m (keyOf sameDraw) ≠ none ∧
    step s (.finish 0) = some t ∧ t.held 1 = some (keyOf sameDraw) ∧ t.tracker.m (keyOf sameDraw) = none := by
  exact ⟨_, _, rfl, rfl, rfl, Option.some_ne_none unbound, rfl, rfl, rfl⟩

/-- With a backend in time the key stays, and the next client draws again. -/
def boundInTime : List Event :=
  [.start, .draw 0 0 (some sameDraw), .bind 0 ⟨"a:5432", 1, []⟩, .sweep 1 10, .start, .draw 1 11 (some sameDraw),
    .draw 1 12 (some otherDraw)]

theorem keys_distinct_boundInTime : ∃ s, Run step spares empty boundInTime s ∧
    (s.held 0, s.held 1) = (some (keyOf sameDraw), some (keyOf otherDraw)) ∧
    ∀ i j k, s.held i = some k → s.held j = some k → i = j := by
  have hheld : (exec step spares empty boundInTime).map (fun s ↦ (s.held 0, s.held 1)) =
      some (some (keyOf sameDraw), some (keyOf otherDraw)) := by decide
  obtain ⟨s, hexec, hheld⟩ := Option.map_eq_some_iff.mp hheld
  exact ⟨s, run_of_exec hexec, hheld, (keys_distinct (run_of_exec hexec)).1⟩

end Cases

end PgRouter.Cancel.Uniqueness
