import Mathlib.Data.List.Basic

namespace PgRouter.Client.Protocol

/-- A Go string: its bytes. -/
abbrev Text := List UInt8

def ascii (s : String) : Text := s.toList.map fun c ↦ c.toNat.toUInt8

inductive FrontendMessage
  | query (sql : Text)
  | parse (name sql : Text) (paramOIDs : List UInt32)
  | bind (portal statement : Text)
  | describe (objectType : UInt8) (name : Text)
  | execute (portal : Text)
  | close (objectType : UInt8) (name : Text)
  | flush
  | sync
  | copyData (data : Text)
  | copyDone
  | copyFail
  | functionCall
  | terminate
  | other
  deriving DecidableEq

inductive BackendMessage
  | authenticationOk
  | parameterStatus (name value : Text)
  | backendKeyData (processID : UInt32) (secretKey : Text)
  | readyForQuery (txStatus : UInt8)
  | copyInResponse
  | parseComplete
  | closeComplete
  | errorResponse (severity code message : String)
  | other (tag : UInt8)
  deriving DecidableEq

def messageNeedsBackend : FrontendMessage → Bool
  | .sync | .terminate => false
  | _ => true

def needsBackend : FrontendMessage → Bool
  | .query _ | .parse .. | .bind .. | .execute _ | .describe .. | .close .. | .copyData _ | .copyDone
  | .copyFail | .flush => true
  | _ => false

def triggersBackendDrain : FrontendMessage → Bool
  | .query _ | .sync | .copyDone | .copyFail => true
  | _ => false

def txIdle : UInt8 := 0x49

def txInBlock : UInt8 := 0x54

def txFailed : UInt8 := 0x45

structure ClientState where
  tx : UInt8 := 0
  queriesIssued : ℕ := 0
  txStarts : ℕ := 0
  txCommits : ℕ := 0
  txRollbacks : ℕ := 0

namespace ClientState

def isIdle (s : ClientState) : Bool := s.tx == txIdle

def observeClientMessage (s : ClientState) : FrontendMessage → ClientState
  | .query _ | .parse .. => { s with queriesIssued := s.queriesIssued + 1 }
  | _ => s

def observeTxStatus (s : ClientState) (txStatus : UInt8) : ClientState × Bool :=
  if s.tx ≠ txInBlock ∧ s.tx ≠ txFailed ∧ txStatus = txInBlock then
    ({ s with tx := txStatus, txStarts := s.txStarts + 1 }, true)
  else if (s.tx = txInBlock ∨ s.tx = txFailed) ∧ txStatus = txIdle then
    if s.tx = txFailed then ({ s with tx := txStatus, txRollbacks := s.txRollbacks + 1 }, true)
    else ({ s with tx := txStatus, txCommits := s.txCommits + 1 }, true)
  else ({ s with tx := txStatus }, false)

def observeBackendMessage (s : ClientState) : BackendMessage → ClientState
  | .readyForQuery txStatus => (s.observeTxStatus txStatus).1
  | _ => s

@[simp] theorem tx_observeTxStatus (s : ClientState) (txStatus : UInt8) :
    (s.observeTxStatus txStatus).1.tx = txStatus := by
  unfold observeTxStatus
  split_ifs <;> rfl

end ClientState

end PgRouter.Client.Protocol
