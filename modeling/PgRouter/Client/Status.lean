import PgRouter.Client.Splicing

namespace PgRouter.Client.Status

open Library.Runs Library.Records Protocol Servers Handler Sharing Handling Turns Exchange Splicing

/-- The server once it has sent a reply: the transaction status it has reported last, and whether it has
asked for copy data since. -/
def reporting (srv : Server) : List BackendMessage → Server
  | [] => srv
  | .readyForQuery txStatus :: rest => reporting ⟨txStatus, none⟩ rest
  | .copyInResponse :: rest => reporting { srv with copying := some .simple } rest
  | _ :: rest => reporting srv rest

def anything : Hearing (List BackendMessage) := fun srv _ reply ↦ some (reporting srv reply, reply)

def markers (ms : List BackendMessage) : ℕ := ms.countP endMarker

structure Ended (p : Peer) : Prop where
  once : markers p.unread ≤ 1
  ready : ∀ txStatus, .readyForQuery txStatus ∈ p.unread → p.server = ⟨txStatus, none⟩

def awaits : Phase → Bool
  | .draining _ | .replaying _ => true
  | _ => false

def Aligned (phase : Phase) (p : Peer) : Prop := if awaits phase then Ended p else markers p.unread = 0

variable {γ : Type} {sql : SQL γ} {s s' : Session γ} {r : Res γ} {reply : List BackendMessage} {input : Input}

structure Honest (s : Session γ) : Prop where
  out : NoReady s.out
  far : ∀ b, s.bConn = some b → isOver s.phase = false → b.peer.broken = false → Aligned s.phase b.peer

variable {m : BackendMessage} {msg : FrontendMessage} {b : Backend} {ok : Bool} {rest ms : List BackendMessage}
  {p p' : Peer} {txStatus : UInt8} {phase : Phase}

theorem Ended.suffix (h : Ended p) (hserver : p'.server = p.server) (hunread : p'.unread <:+ p.unread) :
    Ended p' := by
  refine ⟨(hunread.sublist.countP_le).trans h.once, fun txStatus hmem ↦ ?_⟩
  rw [hserver]
  exact h.ready txStatus (hunread.subset hmem)

theorem Aligned.suffix (h : Aligned phase p) (hserver : p'.server = p.server) (hunread : p'.unread <:+ p.unread) :
    Aligned phase p' := by
  unfold Aligned at h ⊢
  split at h
  · rw [if_pos ‹_›]
    exact h.suffix hserver hunread
  · rw [if_neg ‹_›]
    exact Nat.le_zero.mp (h ▸ hunread.sublist.countP_le)

theorem talk_still (hinput : still input = true) (htalk : talk anything reply input s = some s') : s' = s := by
  rcases talk_cases htalk with ⟨-, rfl⟩ | ⟨b, peer, hb, hpeer, rfl⟩
  · rfl
  · cases input <;> first | (cases hpeer; rw [← hb]) | cases hinput

/-- `Serve` turns down a message inside a transaction only without a backend, a reply has one
`ReadyForQuery` or `CopyInResponse` at most, and none is to be read from a backend of the pool. -/
def orderly (sql : SQL γ) (s : Session γ) : Event (List BackendMessage) → Bool
  | .input (.message msg env) _ =>
    !gated sql s.cfg env msg || s.bConn.all fun b ↦ b.peer.server == ⟨txIdle, none⟩
  | .input (.sent _) reply => isOver s.phase || decide (markers reply ≤ 1)
  | .input (.acquired b) _ => match s.phase with
    | .acquiring .. => markers b.peer.unread == 0
    | _ => true
  | _ => true

def inStep (sql : SQL γ) (c : Journal (Session γ) (Event (List BackendMessage)))
    (e : Framed (Event (List BackendMessage))) : Bool :=
  orderly sql c.current.state e.event && fitting rounds c.current e

def splicing : PooledConfig := { pooling with splice := true }

def begun : List (Event (List BackendMessage)) :=
  welcomed.map (.input · []) ++
    [.input (.message (.query (ascii "BEGIN")) calm) [], .input (.acquired (.dialed 7 none)) [],
      .input (.sent true) [.other 0x43, .readyForQuery txInBlock], .input (.received (.other 0x43) true) [],
      .input (.received (.readyForQuery txInBlock) true) []]

end PgRouter.Client.Status
