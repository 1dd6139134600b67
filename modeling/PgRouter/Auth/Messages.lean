import PgRouter.Net.Proxy

namespace PgRouter.Auth.Messages

open Client.Protocol Net.Proxy

/-- What the server sends during the authentication. -/
inductive AuthMessage
  | md5Password (salt : Text)
  | sasl (mechanisms : List Text)
  | saslContinue (data : Text)
  | saslFinal (data : Text)
  | errorResponse (severity code message : String)
  deriving DecidableEq

inductive ClientReply
  | password (response : Text)
  | saslInitialResponse (mechanism data : Text)
  | saslResponse (data : Text)
  | other
  deriving DecidableEq

/-- The failures of both sides of a SCRAM conversation. -/
inductive ScramError
  | noVerifier
  | clientFirstTooShort
  | unexpectedFlag (flag : UInt8)
  | malformedHeader
  | missingSecondComma
  | badAttr (part : Text)
  | missing (key : UInt8)
  | nonceRand
  | channelBinding (b64 : Text)
  | nonceMismatch
  | sliceOutOfRange
  | decodeProof
  | proofLength
  | invalidProof
  | badIterations (iterStr : Text)
  | noncePrefix
  | saltB64
  | serverError (message : Text)
  | signatureB64
  | signatureMismatch
  deriving DecidableEq

inductive Reason
  | md5Mismatch (username : Text)
  | noVerifier (username : Text)
  | scramStep1 (e : ScramError)
  | scramStep2 (e : ScramError)
  | userNotFound (username : Text)
  | noBackend
  | authQuery
  | peerNeedsSocket
  | peerLookup
  | peerMismatch (peerUser username : Text)
  | certNeedsTLS
  | certIdentity
  | certMismatch (identity username : Text)
  | hbaNeedsFile
  | hbaNeedsUserlist (method : Text)
  | hbaNoRule (db user : Text) (ip : Option IP) (tls : Bool)
  | hbaRejects (lineNum : ℕ)
  | hbaMethod (method : Text)
  deriving DecidableEq

inductive AuthError
  | random
  | send
  | receive
  | unexpectedReply
  | unsupportedMechanism (mechanism : Text)
  | failed (reason : Reason)
  deriving DecidableEq

/-- The messages of an authentication and how it ended. -/
structure Outcome where
  sent : List AuthMessage
  result : Except AuthError Unit
  deriving DecidableEq

namespace Outcome

def succeeds (o : Outcome) : Prop := o.result = .ok ()

instance (o : Outcome) : Decidable o.succeeds := inferInstanceAs (Decidable (_ = _))

end Outcome

def sendAuthFailed (sent : List AuthMessage) (reason : Reason) : Outcome :=
  ⟨sent ++ [.errorResponse "FATAL" "28P01" "password authentication failed"], .error (.failed reason)⟩

end PgRouter.Auth.Messages
