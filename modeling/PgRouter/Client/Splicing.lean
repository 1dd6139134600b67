import PgRouter.Client.Exchange
import PgRouter.Wire.Forwarding

namespace PgRouter.Client.Splicing

open Library.Records Protocol Handler Wire.Framing Wire.Forwarding

variable {γ κ σ ε : Type}

/-- The step is a round of `RawForwardAll`. -/
def takes (s : Session γ) : Input → Bool
  | .received .. => match s.phase with
    | .draining true => true
    | _ => false
  | _ => false

def rounds (s : Session γ) : Exchange.Event κ → Bool
  | .input i _ => takes s i
  | .notice _ => false

/-- What happens around a session together with what `RawForwardAll` does to the bytes: the messages that
wait in the splice buffer, and whether every message has gone out under its own header so far. -/
structure Spliced (σ : Type) where
  state : σ
  acc : List Message
  intact : Bool

/-- An event together with the length of the splice buffer, the message that is received as it is on the
wire, and what a client reads that has lost its place in the bytes. -/
structure Framed (ε : Type) where
  event : ε
  len : ℕ
  frame : Message
  misread : List BackendMessage

abbrev Transcript (σ ε : Type) := List (Entry (Spliced σ) (Framed ε) (List Act))

abbrev Journal (σ ε : Type) := Record (Spliced σ) (Framed ε) (List Act)

def isDelivery : Act → Bool
  | .deliver .. => true
  | _ => false

section

variable (rounds : σ → ε → Bool)

/-- A message that `RawForwardAll` takes fits behind those that wait, or has the header of the first of them:
without room for it, its body is written under that header. -/
def fitting (t : Spliced σ) (e : Framed ε) : Bool :=
  !rounds t.state e.event || sizeAll t.acc + e.frame.size ≤ e.len ||
    (t.acc.headD e.frame).header == e.frame.header

/-- The buffer is empty again at the next drain, which comes after some other step. -/
def splice (step : σ → ε → Option (σ × List Act)) (t : Spliced σ) (e : Framed ε) :
    Option (Spliced σ × List Act) :=
  (step t.state e.event).map fun r ↦
    (⟨r.1, if rounds t.state e.event then waiting e.len t.acc e.frame else [], t.intact && fitting rounds t e⟩,
      if t.intact && fitting rounds t e then r.2
      else r.2.filter (!isDelivery ·) ++ e.misread.map (.deliver none))

end

def Spliced.new (s : σ) : Spliced σ := ⟨s, [], true⟩

theorem splice_fitting {rounds : σ → ε → Bool} {step : σ → ε → Option (σ × List Act)} {t : Spliced σ}
    {e : Framed ε} {r : Spliced σ × List Act} (hintact : t.intact = true) (hfits : fitting rounds t e = true)
    (hstep : splice rounds step t e = some r) :
    step t.state e.event = some (r.1.state, r.2) ∧ r.1.intact = true := by
  obtain ⟨r', hr', rfl⟩ := Option.map_eq_some_iff.mp hstep
  simp [hintact, hfits, hr']

end PgRouter.Client.Splicing
