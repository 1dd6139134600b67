import PgRouter.Cancel.Keys
import PgRouter.Client.Sharing
import PgRouter.Client.Turns

namespace PgRouter.Cancel.Routing

open Library.Runs Client.Protocol Client.Servers Client.Handler Client.Attachment Client.Turns Client.Sharing Keys

/-- The locals of `servePooled`: how many attempts `Allocate` has left, the key that it returned, what the
welcome announced, and whether the deferred `Release` has run. -/
structure Guest where
  attempts : ℕ
  cancelKey : Option Key
  announced : Option (UInt32 × Text)
  released : Bool

/-- The client sessions with their backends, the tracker that they share, and the locals of each. -/
structure State (γ : Type) where
  sharing : System γ
  tracker : Tracker
  guests : List Guest

def idle {γ : Type} : State γ := ⟨Client.Sharing.empty, newTracker, []⟩

inductive Event
  | connect (cfg : PooledConfig)
  | draw (i : ℕ) (now : ℤ) (buf : Option (Vector UInt8 8))
  | serve (e : Client.Sharing.Event)
  | depart (i : ℕ)
  | sweep (ttl now : ℤ)

namespace Guest

def arriving : Guest := ⟨5, none, none, false⟩

/-- The next attempt of `Allocate`, and the tracker after it. Without a key the client gets a random one,
which the tracker does not know. -/
def draw (g : Guest) (n : ℕ) (t : Tracker) (now : ℤ) (buf : Option (Vector UInt8 8)) : Guest × Tracker :=
  match t.allocateAttempt now buf with
  | .failed => ({ g with attempts := 0 }, t)
  | .taken => ({ g with attempts := n }, t)
  | .allocated k t' => ({ g with attempts := 0, cancelKey := some k }, t')

def announces (g : Guest) (key : UInt32 × Text) : Bool :=
  match g.cancelKey with
  | some k => key == (k.processID, k.secretKey.toList)
  | none => true

/-- `Serve` runs once `Allocate` is over, and its welcome announces the client's own key. -/
def serves (g : Guest) : Client.Sharing.Event → Bool
  | .step _ (.greeted _ key _) _ => g.attempts == 0 && g.announces key
  | _ => g.attempts == 0

def note (g : Guest) : Client.Sharing.Event → Guest
  | .step _ (.greeted _ key _) _ => { g with announced := some key }
  | _ => g

end Guest

def actor : Client.Sharing.Event → Option ℕ
  | .step i _ _ | .take i _ | .dial i _ => some i
  | _ => none

variable {γ : Type}

section Machine

variable (sql : SQL γ)

def step (s : State γ) : Event → Option (State γ)
  | .connect cfg =>
    (Client.Sharing.step sql s.sharing (.serve cfg)).map fun sharing ↦
      { s with sharing := sharing, guests := s.guests ++ [.arriving] }
  | .draw i now buf =>
    s.guests[i]?.bind fun g ↦
      match g.attempts with
      | 0 => none
      | n + 1 => some { s with
          guests := s.guests.set i (g.draw n s.tracker now buf).1
          tracker := (g.draw n s.tracker now buf).2 }
  | .serve (.serve _) => none
  | .serve e =>
    match actor e with
    | none => (Client.Sharing.step sql s.sharing e).map fun sharing ↦ { s with sharing := sharing }
    | some i =>
      s.guests[i]?.bind fun g ↦
        if g.serves e then
          (Client.Sharing.step sql s.sharing e).map fun sharing ↦
            { s with sharing := sharing, guests := s.guests.set i (g.note e) }
        else none
  | .depart i =>
    s.guests[i]?.bind fun g ↦
      if s.sharing.sessions[i]?.any hasReturned && !g.released then
        some { s with
          guests := s.guests.set i { g with released := true }
          tracker := g.cancelKey.elim s.tracker s.tracker.release }
      else none
  | .sweep ttl now => some { s with tracker := s.tracker.sweepUnbound ttl now }

end Machine

def attaches (sys : System γ) : Client.Sharing.Event → Bool
  | .take i _ | .dial i _ => sys.sessions[i]?.any fun s ↦ waiting s.phase
  | _ => false

/-- The step attaches no backend to a client. -/
def detached (s : State γ) : Event → Bool
  | .serve e => !attaches s.sharing e
  | _ => true

/-- The key that was announced to a connected client leads to the backend that is attached to it, whose
coordinates are these, and nowhere when there is none. -/
def Routed (coordinates : ℕ → Target) (s : State γ) : Prop :=
  ∀ (i : ℕ) (g : Guest) (c : Session γ) (key : UInt32 × Text), s.guests[i]? = some g →
    s.sharing.sessions[i]? = some c → hasReturned c = false → g.announced = some key →
    s.tracker.lookup (requested key.1 key.2) =
      match c.bConn with
      | some b => .ok (coordinates b.id)
      | none => .error .notFound

variable {sql : SQL γ} {s t : State γ} {c c' : Session γ} {r : Res γ} {input : Input}

theorem unbound_draw {g : Guest} {n : ℕ} {tracker : Tracker} {now : ℤ} {buf : Option (Vector UInt8 8)}
    (h : Unbound tracker) : Unbound (g.draw n tracker now buf).2 := by
  unfold Guest.draw
  split
  · exact h
  · exact h
  · exact unbound_allocateAttempt h ‹_›

variable {i : ℕ} {e : Client.Sharing.Event} {guard : State γ → Event → Bool} {es : List Event}

theorem shares_of_serve (hstep : step sql s (.serve e) = some t) :
    Client.Sharing.step sql s.sharing e = some t.sharing ∧ t.tracker = s.tracker ∧ ∀ cfg, e ≠ .serve cfg := by
  have hacts {i : ℕ} (hstep : (s.guests[i]?.bind fun g ↦
      if g.serves e then (Client.Sharing.step sql s.sharing e).map fun sharing ↦
        { s with sharing := sharing, guests := s.guests.set i (g.note e) }
      else none) = some t) :
      Client.Sharing.step sql s.sharing e = some t.sharing ∧ t.tracker = s.tracker := by
    obtain ⟨g, -, hstep⟩ := Option.bind_eq_some_iff.mp hstep
    split at hstep
    · obtain ⟨sharing, hsharing, rfl⟩ := Option.map_eq_some_iff.mp hstep
      exact ⟨hsharing, rfl⟩
    · cases hstep
  cases e with
  | serve cfg => cases hstep
  | step i input answers | take i k | dial i prepared =>
    exact ⟨(hacts hstep).1, (hacts hstep).2, fun _ h ↦ by cases h⟩
  | evict k =>
    simp only [step, actor] at hstep
    obtain ⟨sharing, hsharing, rfl⟩ := Option.map_eq_some_iff.mp hstep
    exact ⟨hsharing, rfl, fun _ h ↦ by cases h⟩

theorem unbound_step {e : Event} (h : Unbound s.tracker) (hstep : step sql s e = some t) : Unbound t.tracker := by
  cases e with
  | connect cfg =>
    rw [step] at hstep
    obtain ⟨sharing, -, rfl⟩ := Option.map_eq_some_iff.mp hstep
    exact h
  | draw i now buf =>
    obtain ⟨g, -, hstep⟩ := Option.bind_eq_some_iff.mp hstep
    split at hstep
    · cases hstep
    · cases hstep
      exact unbound_draw h
  | serve e =>
    rw [(shares_of_serve hstep).2.1]
    exact h
  | depart i =>
    obtain ⟨g, -, hstep⟩ := Option.bind_eq_some_iff.mp hstep
    split at hstep
    · cases hstep
      cases g.cancelKey with
      | none => exact h
      | some k => exact unbound_release h k
    · cases hstep
  | sweep ttl now =>
    cases hstep
    exact unbound_sweepUnbound h ttl now

theorem unbound_of_run (hrun : Run (step sql) guard idle es s) : Unbound s.tracker :=
  hrun.invariant (fun _ _ _ h _ hstep ↦ unbound_step h hstep) fun _ _ h ↦ by cases h

theorem holding_greet (params : List (Text × Text)) (key : UInt32 × Text) (ok : Bool) (c : Session γ) :
    Holding c (c.greet params key ok) := by
  cases ok with
  | true => exact holding_quiet rfl rfl rfl (remains_greet params key true c).quiet
  | false => exact holding_quiet rfl rfl rfl (remains_greet params key false c).quiet

theorem conn_of_step (hstep : c.step sql input = some r) (hnone : c.bConn = none)
    (hacquired : waiting c.phase = false ∨ ∀ b, input ≠ .acquired b) : r.1.bConn = none := by
  have hidle {told : List UInt8} (h : Idles told c r) : r.1.bConn = none := by
    rcases h.conn with hconn | ⟨hconn, -⟩
    · exact hconn
    · rw [hnone] at hconn
      exact Option.map_eq_none_iff.mp hconn
  have hholding {r : Res γ} (h : Holding c r) : r.1.bConn = none := by
    have hconn := h.conn
    rw [hnone] at hconn
    exact Option.map_eq_none_iff.mp hconn
  cases turn_of_step hstep with
  | stays _ _ h | leaves _ _ h => exact hidle h
  | timedOut hphase ok => exact hidle (idles_queryTimeout ok c)
  | resets _ _ h => exact hidle h
  | greeted hphase params key ok => exact hholding (holding_greet params key ok c)
  | message hphase hmsg hhandled => exact hholding (holding_handled hhandled)
  | acquired hphase b =>
    rw [hphase] at hacquired
    rcases hacquired with h | h
    · cases h
    · exact absurd rfl (h b)
  | @replaySent msg hphase ok =>
    have hflush := holding_flush ({ c with phase := .replaying msg } : Session γ)
    exact hholding ⟨hflush.cfg, hflush.conn, hflush.pool, hflush.forwards⟩
  | replayWaits => exact hnone
  | replayed => exact hholding (holding_forwardMessage _ c)
  | sent hphase ok =>
    have hbatch := hholding (holding_writeBatch c)
    rcases (idles_startDrain ok c.writeBatch.1).conn with hconn | ⟨hconn, -⟩
    · exact hconn
    · rw [hbatch] at hconn
      exact Option.map_eq_none_iff.mp hconn
  | withheldCC | withheldPC => exact hnone
  | drained hphase m ok _ => exact hidle (idles_passOn (by rw [hphase]; rfl) m ok)
  | cutOff hphase ok => exact hidle (idles_loop c)
  | polled hphase m ok => exact hidle (idles_pollReceived hphase m ok)

variable {sys sys' : System γ}

theorem conn_of_advances {answers : List Answer} (h : ∀ c ∈ sys.sessions, c.bConn = none)
    (hadv : Advances sql sys sys' i input answers c c' r)
    (hacquired : waiting c.phase = false ∨ ∀ b, input ≠ .acquired b) : ∀ c ∈ sys'.sessions, c.bConn = none := by
  have hnone := h c (List.mem_of_getElem? hadv.session)
  obtain rfl : c' = c := by
    rcases encounter_cases hadv.met with ⟨-, hmet⟩ | ⟨b, peer, hb, -⟩
    · exact hmet
    · rw [hnone] at hb
      cases hb
  intro d hd
  rw [hadv.sessions_eq] at hd
  rcases List.mem_or_eq_of_mem_set hd with hd | rfl
  · exact h d hd
  · exact conn_of_step hadv.step hnone hacquired

theorem conn_of_shares (h : ∀ c ∈ sys.sessions, c.bConn = none)
    (hdetached : attaches sys e = false) (hstep : Client.Sharing.step sql sys e = some sys') :
    ∀ c ∈ sys'.sessions, c.bConn = none := by
  cases moves_of_step hstep with
  | serve cfg heq =>
    subst heq
    intro c hc
    rcases List.mem_append.mp hc with hc | hc
    · exact h c hc
    · cases List.mem_singleton.mp hc
      rfl
  | evict k heq =>
    subst heq
    exact h
  | step hinput hadv => exact conn_of_advances h hadv (.inr hinput)
  | take hmem hadv | dial hadv =>
    refine conn_of_advances h hadv (.inl ?_)
    simpa [attaches, hadv.session] using hdetached

theorem conn_of_routes {e : Event} (h : ∀ c ∈ s.sharing.sessions, c.bConn = none) (hdetached : detached s e = true)
    (hstep : step sql s e = some t) : ∀ c ∈ t.sharing.sessions, c.bConn = none := by
  cases e with
  | connect cfg =>
    rw [step] at hstep
    obtain ⟨sharing, hsharing, rfl⟩ := Option.map_eq_some_iff.mp hstep
    exact conn_of_shares h rfl hsharing
  | draw i now buf =>
    obtain ⟨g, -, hstep⟩ := Option.bind_eq_some_iff.mp hstep
    split at hstep
    · cases hstep
    · cases hstep
      exact h
  | serve e =>
    refine conn_of_shares h ?_ (shares_of_serve hstep).1
    simpa [detached] using hdetached
  | depart i =>
    obtain ⟨g, -, hstep⟩ := Option.bind_eq_some_iff.mp hstep
    split at hstep
    · cases hstep
      exact h
    · cases hstep
  | sweep ttl now =>
    cases hstep
    exact h

/-- While no backend is attached to a client, every announced key leads nowhere, as it should. -/
theorem routed_of_detached (coordinates : ℕ → Target) {es : List Event}
    (hrun : Run (step sql) detached idle es s) : Routed coordinates s := by
  intro i g c key _ hc _ _
  have hnone : ∀ c ∈ s.sharing.sessions, c.bConn = none :=
    hrun.invariant (fun _ _ _ h hdetached hstep ↦ conn_of_routes h hdetached hstep) fun _ h ↦ by cases h
  rw [lookup_unbound (unbound_of_run hrun), hnone c (List.mem_of_getElem? hc)]

def holds (s : State γ) (i : ℕ) (key : UInt32 × Text) (b : ℕ) : Bool :=
  (s.guests[i]?.any fun g ↦ g.announced == some key) &&
    s.sharing.sessions[i]?.any fun c ↦ !hasReturned c && c.bConn.map Backend.id == some b

theorem not_routed_of_holds (coordinates : ℕ → Target) {b : ℕ} {key : UInt32 × Text}
    (hrun : Run (step sql) guard idle es s) (hholds : holds s i key b = true) : ¬Routed coordinates s := by
  intro hrouted
  simp only [holds, Bool.and_eq_true, Option.any_eq_true, Bool.not_eq_true', beq_iff_eq] at hholds
  obtain ⟨⟨g, hg, hkey⟩, c, hc, hconnected, hb⟩ := hholds
  obtain ⟨backend, hbackend, rfl⟩ := Option.map_eq_some_iff.mp hb
  have hlookup := hrouted i g c key hg hc hconnected hkey
  rw [lookup_unbound (unbound_of_run hrun), hbackend] at hlookup
  cases hlookup

def drawn : Vector UInt8 8 := #v[0, 0, 4, 210, 1, 2, 3, 4]

def arrival : List Event :=
  [.connect pooling, .draw 0 0 (some drawn), .serve (.step 0 (.acquireFailed "" true) []),
    .serve (.step 0 (.greeted [] (1234, [1, 2, 3, 4]) true) [])]

def reported (b : ℕ) : Target := ⟨"postgres:5432", UInt32.ofNat (5000 + b), [9, 9, 9, 9]⟩

theorem arrival_run :
    ∃ s, Run (step plainSQL) detached idle arrival s ∧
      (s.guests.map Guest.announced == [some (1234, [1, 2, 3, 4])]) = true :=
  exists_run_of_exec rfl

theorem routed_arrival :
    ∃ s, Run (step plainSQL) detached idle arrival s ∧
      (s.guests.map Guest.announced == [some (1234, [1, 2, 3, 4])]) = true ∧ Routed reported s := by
  obtain ⟨s, hrun, hannounced⟩ := arrival_run
  exact ⟨s, hrun, hannounced, routed_of_detached reported hrun⟩

def querying : List Event :=
  arrival ++ [.serve (.step 0 (.message (.query [49]) calm) []), .serve (.dial 0 none)]

theorem querying_run :
    ∃ s, Run (step plainSQL) anyStep idle querying s ∧ holds s 0 (1234, [1, 2, 3, 4]) 0 = true :=
  exists_run_of_exec rfl

theorem querying_unrouted :
    ∃ s, Run (step plainSQL) anyStep idle querying s ∧ holds s 0 (1234, [1, 2, 3, 4]) 0 = true ∧
      s.tracker.lookup (requested 1234 [1, 2, 3, 4]) = .error .notFound ∧ ¬Routed reported s := by
  obtain ⟨s, hrun, hholds⟩ := querying_run
  exact ⟨s, hrun, hholds, lookup_unbound (unbound_of_run hrun) _, not_routed_of_holds reported hrun hholds⟩

/-- Nothing binds a key to a backend, and so no request to cancel is ever passed on. -/
theorem handleCancel_eq_none (hrun : Run (step sql) anyStep idle es s) (processID : UInt32) (secret : List UInt8) :
    handleCancel s.tracker processID secret = none := by
  rw [handleCancel, lookup_unbound (unbound_of_run hrun)]

theorem handleCancel_querying :
    ∃ s, Run (step plainSQL) anyStep idle querying s ∧ holds s 0 (1234, [1, 2, 3, 4]) 0 = true ∧
      handleCancel s.tracker 1234 [1, 2, 3, 4] = none := by
  obtain ⟨s, hrun, hholds⟩ := querying_run
  exact ⟨s, hrun, hholds, handleCancel_eq_none hrun 1234 [1, 2, 3, 4]⟩

end PgRouter.Cancel.Routing
