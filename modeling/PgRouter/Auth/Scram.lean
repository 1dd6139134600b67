import PgRouter.Auth.Messages
import PgRouter.Auth.Secrets

namespace PgRouter.Auth.Scram

open Client.Protocol Library.Texts Messages Secrets

/-- The functions under a conversation: hashes of 32 bytes, key stretching, and an encoding of bytes in
letters other than the comma. -/
structure Primitives where
  sha256 : Text → Text
  hmac : Text → Text → Text
  pbkdf2 : Text → Text → ℤ → Text
  encode : Text → Text
  decode : Text → Option Text
  length_sha256 : ∀ s, (sha256 s).length = 32
  length_hmac : ∀ key s, (hmac key s).length = 32
  decode_encode : ∀ s, decode (encode s) = some s
  comma_not_mem_encode : ∀ s, 0x2c ∉ encode s
  encode_header : encode (ascii "n,,") = ascii "biws"

def need {α : Type} (e : ScramError) : Option α → Except ScramError α
  | some a => .ok a
  | none => .error e

def check (b : Bool) (e : ScramError) : Except ScramError Unit := if b then .ok () else .error e

@[simp] theorem need_some {α : Type} (e : ScramError) (a : α) : need e (some a) = .ok a := rfl

@[simp] theorem check_true (e : ScramError) : check true e = .ok () := rfl

@[simp] theorem check_false (e : ScramError) : check false e = .error e := rfl

section Attributes

def parseAttr (part : Text) : Except ScramError (Text × Text) :=
  match cut 0x3d part with
  | some (key, value) => if key = [] then .error (.badAttr part) else .ok (key, value)
  | none => .error (.badAttr part)

def parseAttrs : List Text → Except ScramError (List (Text × Text))
  | [] => .ok []
  | part :: parts => do
    let attr ← parseAttr part
    let attrs ← parseAttrs parts
    return attr :: attrs

/-- `splitSCRAMAttrs`: the map that is built, as the list of what is put into it. -/
def splitSCRAMAttrs (b : Text) : Except ScramError (List (Text × Text)) := parseAttrs (b.splitOn 0x2c)

/-- The value of an attribute; a later one replaces an earlier one. -/
def valueOf (attrs : List (Text × Text)) (key : UInt8) : Option Text := attrs.reverse.lookup [key]

end Attributes

section Messages

def stripGS2Header : Text → Except ScramError Text
  | flag :: c :: d :: rest =>
    if flag ≠ 0x6e ∧ flag ≠ 0x79 ∧ flag ≠ 0x70 then .error (.unexpectedFlag flag)
    else if c ≠ 0x2c then .error .malformedHeader
    else
      match cut 0x2c (d :: rest) with
      | some (_, bare) => .ok bare
      | none => .error .missingSecondComma
  | _ => .error .clientFirstTooShort

/-- What stands before the last occurrence of a pattern; without one, Go's slice expression panics. -/
def beforeLast (pattern : Text) : Text → Option Text
  | [] => none
  | c :: s =>
    match beforeLast pattern s with
    | some t => some (c :: t)
    | none => if pattern.isPrefixOf (c :: s) then some [] else none

def joined (clientFirstBare serverFirst clientFinalWithoutProof : Text) : Text :=
  clientFirstBare ++ 0x2c :: (serverFirst ++ 0x2c :: clientFinalWithoutProof)

def xorBytes (a b : Text) : Text := List.zipWith (· ^^^ ·) a b

end Messages

section Server

variable (P : Primitives)

def makeSCRAMVerifierWithSalt (password salt : Text) (iterations : ℤ) : Option SCRAMVerifier :=
  if iterations < 1 then none
  else
    let saltedPwd := P.pbkdf2 password salt iterations
    let clientKey := P.hmac saltedPwd (ascii "Client Key")
    let serverKey := P.hmac saltedPwd (ascii "Server Key")
    some ⟨iterations, salt, P.sha256 clientKey, serverKey⟩

structure SCRAMServerConv where
  verifier : Option SCRAMVerifier
  username : Text
  clientFirstBare : Text
  serverFirstMsg : Text
  serverNonce : Text
  clientNonce : Text

def newSCRAMServer (username : Text) (verifier : Option SCRAMVerifier) : SCRAMServerConv :=
  ⟨verifier, username, [], [], [], []⟩

namespace SCRAMServerConv

def step1 (c : SCRAMServerConv) (clientFirst : Text) (nonceRaw : Option Text) :
    Except ScramError (SCRAMServerConv × Text) := do
  let verifier ← need .noVerifier c.verifier
  let bare ← stripGS2Header clientFirst
  let parts ← splitSCRAMAttrs bare
  let clientNonce ← need (.missing 0x72) (valueOf parts 0x72)
  let srvNonceRaw ← need .nonceRand nonceRaw
  let serverNonce := P.encode srvNonceRaw
  let serverFirstMsg := ascii "r=" ++ (clientNonce ++ serverNonce) ++ ascii ",s=" ++ P.encode verifier.salt ++
    ascii ",i=" ++ itoa verifier.iterations
  return ({ c with
    clientFirstBare := bare
    clientNonce := clientNonce
    serverNonce := serverNonce
    serverFirstMsg := serverFirstMsg }, serverFirstMsg)

def step2 (c : SCRAMServerConv) (clientFinal : Text) : Except ScramError Text := do
  let verifier ← need .noVerifier c.verifier
  let parts ← splitSCRAMAttrs clientFinal
  let chanBindB64 ← need (.missing 0x63) (valueOf parts 0x63)
  let combinedNonce ← need (.missing 0x72) (valueOf parts 0x72)
  let clientProofB64 ← need (.missing 0x70) (valueOf parts 0x70)
  check (chanBindB64 == ascii "biws") (.channelBinding chanBindB64)
  check (combinedNonce == c.clientNonce ++ c.serverNonce) .nonceMismatch
  let clientFinalWithoutProof ← need .sliceOutOfRange (beforeLast (ascii ",p=") clientFinal)
  let authMessage := joined c.clientFirstBare c.serverFirstMsg clientFinalWithoutProof
  let clientSignature := P.hmac verifier.storedKey authMessage
  let clientProof ← need .decodeProof (P.decode clientProofB64)
  check (clientProof.length == clientSignature.length) .proofLength
  let clientKey := xorBytes clientProof clientSignature
  check (P.sha256 clientKey == verifier.storedKey) .invalidProof
  let serverSignature := P.hmac verifier.serverKey authMessage
  return ascii "v=" ++ P.encode serverSignature

end SCRAMServerConv

end Server

section Client

variable (P : Primitives)

structure SCRAMClientConv where
  username : Text
  password : Text
  clientNonce : Text
  clientFirstBare : Text
  serverFirstMsg : Text
  saltedPwd : Text
  authMessage : Text

def newSCRAMClient (username password : Text) : SCRAMClientConv := ⟨username, password, [], [], [], [], []⟩

namespace SCRAMClientConv

def initial (c : SCRAMClientConv) (nonceRaw : Text) : SCRAMClientConv × Text :=
  let clientNonce := P.encode nonceRaw
  let clientFirstBare := ascii "n=" ++ c.username ++ ascii ",r=" ++ clientNonce
  ({ c with clientNonce := clientNonce, clientFirstBare := clientFirstBare }, ascii "n,," ++ clientFirstBare)

def step1 (c : SCRAMClientConv) (serverFirst : Text) : Except ScramError (SCRAMClientConv × Text) := do
  let parts ← splitSCRAMAttrs serverFirst
  let combinedNonce ← need (.missing 0x72) (valueOf parts 0x72)
  let saltB64 ← need (.missing 0x73) (valueOf parts 0x73)
  let iterStr ← need (.missing 0x69) (valueOf parts 0x69)
  let iter ← need (.badIterations iterStr) ((atoi iterStr).filter (1 ≤ ·))
  check (c.clientNonce.isPrefixOf combinedNonce) .noncePrefix
  let salt ← need .saltB64 (P.decode saltB64)
  let saltedPwd := P.pbkdf2 c.password salt iter
  let clientKey := P.hmac saltedPwd (ascii "Client Key")
  let storedKey := P.sha256 clientKey
  let clientFinalWithoutProof := ascii "c=" ++ P.encode (ascii "n,,") ++ ascii ",r=" ++ combinedNonce
  let authMessage := joined c.clientFirstBare serverFirst clientFinalWithoutProof
  let clientProof := xorBytes clientKey (P.hmac storedKey authMessage)
  return ({ c with serverFirstMsg := serverFirst, saltedPwd := saltedPwd, authMessage := authMessage },
    clientFinalWithoutProof ++ ascii ",p=" ++ P.encode clientProof)

def step2 (c : SCRAMClientConv) (serverFinal : Text) : Except ScramError Unit := do
  let parts ← splitSCRAMAttrs serverFinal
  match valueOf parts 0x65 with
  | some message => .error (.serverError message)
  | none =>
    let sigB64 ← need (.missing 0x76) (valueOf parts 0x76)
    let gotSig ← need .signatureB64 (P.decode sigB64)
    let serverKey := P.hmac c.saltedPwd (ascii "Server Key")
    check (gotSig == P.hmac serverKey c.authMessage) .signatureMismatch

end SCRAMClientConv

end Client

end PgRouter.Auth.Scram
