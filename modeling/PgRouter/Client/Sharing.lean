import PgRouter.Client.Steps
import PgRouter.Library.Runs

namespace PgRouter.Client.Sharing

open Library.Runs Protocol Prepared Servers Handler

/-- What the far end of a connection makes of a batch. What is left open is decided by a choice. -/
abbrev Hearing (κ : Type) := Server → List FrontendMessage → κ → Option (Server × List BackendMessage)

/-- What an input of a session tells about the far end of its backend: a batch that is written gets
its answers, a message that is received was the next unread one, and nothing is received or answered
any more once a read or a write has failed. -/
def hears {κ : Type} (hear : Hearing κ) (batch : List FrontendMessage) (choice : κ) (p : Peer) :
    Input → Option Peer
  | .sent _ =>
    if p.broken then some p
    else (hear p.server batch choice).map fun r ↦ { p with server := r.1, unread := p.unread ++ r.2 }
  | .received m _ =>
    if p.broken = false ∧ p.unread.head? = some m then some { p with unread := p.unread.tail } else none
  | .sendFailed .. | .receiveEOF _ | .receiveFailed .. => some { p with broken := true }
  | _ => some p

variable {γ : Type} (sql : SQL γ)

def outgoing (s : Session γ) (b : Backend) : List FrontendMessage :=
  match s.phase with
  | .flushing => if s.cfg.rawPassthrough then s.writeBuf else b.sendBuf.map Prod.snd
  | _ => b.sendBuf.map Prod.snd

def encounter (answers : List Answer) (input : Input) (s : Session γ) : Option (Session γ) :=
  match s.bConn with
  | none => some s
  | some b => (hears Server.answers (outgoing s b) answers b.peer input).map fun peer ↦
      { s with bConn := some { b with peer } }

def wants (s : Session γ) : Option ℕ :=
  match s.phase with
  | .welcome => some 0
  | .acquiring _ pool => some pool
  | _ => none

def hasReturned (s : Session γ) : Bool :=
  match s.phase with
  | .returned => true
  | _ => false

/-- The clients by number, the idle backends with their pools, how many backends have been dialed, and
the messages that were written to a backend after the `Serve` of their client had returned. -/
structure System (γ : Type) where
  sessions : List (Session γ)
  idle : List (ℕ × Backend)
  dialed : ℕ
  late : List (ℕ × FrontendMessage)

def empty : System γ := ⟨[], [], 0, []⟩

inductive Event
  | serve (cfg : PooledConfig)
  | step (i : ℕ) (input : Input) (answers : List Answer)
  | take (i k : ℕ)
  | dial (i : ℕ) (prepared : Option PreparedCache)
  | evict (k : ℕ)

def puts (acts : List Act) : List (ℕ × Backend) :=
  acts.filterMap fun
    | .put pool b => some (pool, b)
    | _ => none

def overdue (sessions : List (Session γ)) (acts : List Act) : List (ℕ × FrontendMessage) :=
  acts.filterMap fun
    | .wrote owner _ m => if sessions[owner]?.any hasReturned then some (owner, m) else none
    | _ => none

def advance (i : ℕ) (input : Input) (answers : List Answer) (sys : System γ) : Option (System γ) :=
  sys.sessions[i]?.bind fun s ↦ (encounter answers input s).bind fun s' ↦ (s'.step sql input).map fun r ↦
    { sys with
      sessions := sys.sessions.set i r.1
      idle := sys.idle ++ puts r.2
      late := sys.late ++ overdue sys.sessions r.2 }

/-- Clients arrive, take a step, get an idle or a new backend; the janitor closes idle backends. -/
def step (sys : System γ) : Event → Option (System γ)
  | .serve cfg => some { sys with sessions := sys.sessions ++ [Session.new sql sys.sessions.length cfg] }
  | .step i input answers =>
    match input with
    | .acquired _ => none
    | _ => advance sql i input answers sys
  | .take i k =>
    sys.idle[k]?.bind fun p ↦
      if sys.sessions[i]?.bind wants = some p.1 then
        advance sql i (.acquired p.2) [] { sys with idle := sys.idle.eraseIdx k }
      else none
  | .dial i prepared =>
    advance sql i (.acquired (.dialed sys.dialed prepared)) [] { sys with dialed := sys.dialed + 1 }
  | .evict k => some { sys with idle := sys.idle.eraseIdx k }

def each (guard : Session γ → Input → List Answer → Bool) (sys : System γ) : Event → Bool
  | .step i input answers => sys.sessions[i]?.all fun s ↦ guard s input answers
  | _ => true

structure Advances (sys sys' : System γ) (i : ℕ) (input : Input) (answers : List Answer)
    (s s' : Session γ) (r : Res γ) : Prop where
  session : sys.sessions[i]? = some s
  met : encounter answers input s = some s'
  step : s'.step sql input = some r
  sessions_eq : sys'.sessions = sys.sessions.set i r.1
  idle_from : ∀ p ∈ sys'.idle, p ∈ sys.idle ∨ .put p.1 p.2 ∈ r.2
  late_eq : sys'.late = sys.late ++ overdue sys.sessions r.2

variable {sql} {sys sys' : System γ} {e : Event}

theorem mem_puts {acts : List Act} {p : ℕ × Backend} (hp : p ∈ puts acts) : .put p.1 p.2 ∈ acts := by
  obtain ⟨a, ha, hput⟩ := List.mem_filterMap.mp hp
  split at hput
  · cases hput
    exact ha
  · cases hput

variable {answers : List Answer} {i : ℕ} {s s' : Session γ} {input : Input}

theorem advances_of_advance (old : System γ) (hadv : advance sql i input answers sys = some sys')
    (hsessions : sys.sessions = old.sessions) (hidle : ∀ p ∈ sys.idle, p ∈ old.idle) (hlate : sys.late = old.late) :
    ∃ s s' r, Advances sql old sys' i input answers s s' r := by
  obtain ⟨s, hs, hadv⟩ := Option.bind_eq_some_iff.mp hadv
  obtain ⟨s', hmet, hadv⟩ := Option.bind_eq_some_iff.mp hadv
  obtain ⟨r, hr, rfl⟩ := Option.map_eq_some_iff.mp hadv
  refine ⟨s, s', r, by rw [← hsessions]; exact hs, hmet, hr, by rw [hsessions], fun p hp ↦ ?_,
    by rw [hlate, hsessions]⟩
  rcases List.mem_append.mp hp with hp | hp
  · exact Or.inl (hidle p hp)
  · exact Or.inr (mem_puts hp)

inductive Moves (sql : SQL γ) (sys sys' : System γ) : Event → Prop
  | serve (cfg : PooledConfig)
      (heq : sys' = { sys with sessions := sys.sessions ++ [Session.new sql sys.sessions.length cfg] }) :
      Moves sql sys sys' (.serve cfg)
  | evict (k : ℕ) (heq : sys' = { sys with idle := sys.idle.eraseIdx k }) : Moves sql sys sys' (.evict k)
  | step {i : ℕ} {input : Input} {answers : List Answer} {s s' : Session γ} {r : Res γ}
      (hinput : ∀ b, input ≠ .acquired b) (hadv : Advances sql sys sys' i input answers s s' r) :
      Moves sql sys sys' (.step i input answers)
  | take {i k pool : ℕ} {b : Backend} {s s' : Session γ} {r : Res γ} (hmem : (pool, b) ∈ sys.idle)
      (hadv : Advances sql sys sys' i (.acquired b) [] s s' r) : Moves sql sys sys' (.take i k)
  | dial {i : ℕ} {prepared : Option PreparedCache} {s s' : Session γ} {r : Res γ}
      (hadv : Advances sql sys sys' i (.acquired (.dialed sys.dialed prepared)) [] s s' r) :
      Moves sql sys sys' (.dial i prepared)

theorem moves_of_step (hstep : step sql sys e = some sys') : Moves sql sys sys' e := by
  cases e with
  | serve cfg => exact .serve cfg (Option.some.inj hstep).symm
  | evict k => exact .evict k (Option.some.inj hstep).symm
  | step i input answers =>
    simp only [step] at hstep
    split at hstep
    · cases hstep
    · obtain ⟨s, s', r, hadv⟩ := advances_of_advance sys hstep rfl (fun _ hp ↦ hp) rfl
      exact .step ‹_› hadv
  | take i k =>
    obtain ⟨p, hp, hstep⟩ := Option.bind_eq_some_iff.mp hstep
    split at hstep
    · obtain ⟨s, s', r, hadv⟩ :=
        advances_of_advance sys hstep rfl (fun _ hq ↦ List.mem_of_mem_eraseIdx hq) rfl
      exact .take (List.mem_of_getElem? hp) hadv
    · cases hstep
  | dial i prepared =>
    obtain ⟨s, s', r, hadv⟩ := advances_of_advance sys hstep rfl (fun _ hp ↦ hp) rfl
    exact .dial hadv

/-- What a client may do: write its own messages, and return backends that are fit for the pool. -/
def Lawful (Pooled : Backend → Prop) (i : ℕ) : Act → Prop
  | .put _ b => Pooled b
  | .wrote owner _ _ => owner = i
  | _ => True

/-- Each client on its own keeps its invariant and returns only what it would take. -/
structure Keeps (sql : SQL γ) (guard : Session γ → Input → List Answer → Bool)
    (Inv : ℕ → Session γ → Prop) (Pooled : Backend → Prop) : Prop where
  fresh : ∀ i cfg, Inv i (Session.new sql i cfg)
  dialed : ∀ id prepared, Pooled (.dialed id prepared)
  steps : ∀ {i : ℕ} {input : Input} {answers : List Answer} {s s' : Session γ} {r : Res γ}, Inv i s →
    (∀ b, input = .acquired b → Pooled b) →
    (guard s input answers = true ∨ ∃ b, input = .acquired b) →
    encounter answers input s = some s' → s'.step sql input = some r →
    Inv i r.1 ∧ ∀ a ∈ r.2, Lawful Pooled i a

structure Holds (Inv : ℕ → Session γ → Prop) (Pooled : Backend → Prop) (sys : System γ) : Prop where
  sessions : ∀ i s, sys.sessions[i]? = some s → Inv i s
  idle : ∀ p ∈ sys.idle, Pooled p.2
  late : sys.late = []

variable {guard : Session γ → Input → List Answer → Bool} {Inv : ℕ → Session γ → Prop}
  {Pooled : Backend → Prop}

theorem encounter_cases (hmet : encounter answers input s = some s') :
    (s.bConn = none ∧ s' = s) ∨ ∃ b peer, s.bConn = some b ∧
      hears Server.answers (outgoing s b) answers b.peer input = some peer ∧
      s' = { s with bConn := some { b with peer } } := by
  unfold encounter at hmet
  split at hmet
  · exact .inl ⟨‹_›, (Option.some.inj hmet).symm⟩
  · obtain ⟨peer, hpeer, rfl⟩ := Option.map_eq_some_iff.mp hmet
    exact .inr ⟨_, peer, ‹_›, hpeer, rfl⟩

theorem encounter_phase (hmet : encounter answers input s = some s') : s'.phase = s.phase := by
  rcases encounter_cases hmet with ⟨-, rfl⟩ | ⟨b, peer, -, -, rfl⟩ <;> rfl

theorem Holds.advance {r : Res γ} (hsys : Holds Inv Pooled sys) (hadv : Advances sql sys sys' i input answers s s' r)
    (hr : Inv i r.1 ∧ ∀ a ∈ r.2, Lawful Pooled i a) : Holds Inv Pooled sys' := by
  obtain ⟨hinv, hacts⟩ := hr
  have hlive : sys.sessions[i]?.any hasReturned = false := by
    rw [hadv.session, Option.any_some]
    have hphase := ne_returned_of_step hadv.step
    rw [encounter_phase hadv.met] at hphase
    unfold hasReturned
    split
    · exact absurd ‹_› hphase
    · rfl
  refine ⟨fun j t ht ↦ ?_, fun p hp ↦ ?_, ?_⟩
  · rw [hadv.sessions_eq, List.getElem?_set] at ht
    split at ht
    · subst j
      split at ht
      · cases ht
        exact hinv
      · cases ht
    · exact hsys.sessions j t ht
  · rcases hadv.idle_from p hp with hp | hp
    · exact hsys.idle p hp
    · exact hacts _ hp
  · rw [hadv.late_eq, hsys.late, List.nil_append, overdue, List.filterMap_eq_nil_iff]
    intro a ha
    have hlaw := hacts a ha
    cases a with
    | wrote owner b m =>
      obtain rfl : owner = i := hlaw
      simp [hlive]
    | _ => rfl

theorem Keeps.step (hkeeps : Keeps sql guard Inv Pooled) (hsys : Holds Inv Pooled sys)
    (hguard : each guard sys e = true) (hstep : Sharing.step sql sys e = some sys') :
    Holds Inv Pooled sys' := by
  cases moves_of_step hstep with
  | serve cfg heq =>
    subst heq
    refine ⟨fun j t ht ↦ ?_, hsys.idle, hsys.late⟩
    rcases Nat.lt_or_ge j sys.sessions.length with hj | hj
    · rw [List.getElem?_append_left hj] at ht
      exact hsys.sessions j t ht
    · rw [List.getElem?_append_right hj, List.getElem?_singleton] at ht
      split at ht
      · cases ht
        obtain rfl : j = sys.sessions.length := by omega
        exact hkeeps.fresh _ cfg
      · cases ht
  | evict k heq =>
    subst heq
    exact ⟨hsys.sessions, fun p hp ↦ hsys.idle p (List.mem_of_mem_eraseIdx hp), hsys.late⟩
  | step hinput hadv =>
    refine hsys.advance hadv (hkeeps.steps (hsys.sessions _ _ hadv.session) ?_ (.inl ?_) hadv.met hadv.step)
    · intro b hb
      exact absurd hb (hinput b)
    · simpa [each, hadv.session] using hguard
  | take hmem hadv =>
    refine hsys.advance hadv (hkeeps.steps (hsys.sessions _ _ hadv.session) ?_ (.inr ⟨_, rfl⟩) hadv.met
      hadv.step)
    rintro b ⟨⟩
    exact hsys.idle _ hmem
  | dial hadv =>
    refine hsys.advance hadv (hkeeps.steps (hsys.sessions _ _ hadv.session) ?_ (.inr ⟨_, rfl⟩) hadv.met
      hadv.step)
    rintro b ⟨⟩
    exact hkeeps.dialed _ _

/-- Clients that each keep to their part keep the whole system in order, in any interleaving. -/
theorem Keeps.run (hkeeps : Keeps sql guard Inv Pooled) {es : List Event}
    (hrun : Run (Sharing.step sql) (each guard) empty es sys) : Holds Inv Pooled sys := by
  refine hrun.invariant (fun _ _ _ hs hg he ↦ hkeeps.step hs hg he) ⟨?_, ?_, rfl⟩
  · simp [empty]
  · simp [empty]

end PgRouter.Client.Sharing
