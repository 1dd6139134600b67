import PgRouter.Auth.Messages
import PgRouter.Auth.Secrets

namespace PgRouter.Auth.Passwords

open Client.Protocol Messages Secrets

def hexDigit (n : ℕ) : UInt8 := if n < 10 then n.toUInt8 + 0x30 else (n - 10).toUInt8 + 0x61

def hexEncode (s : Text) : Text := s.flatMap fun c ↦ [hexDigit (c.toNat / 16), hexDigit (c.toNat % 16)]

section MD5

-- `md5.Sum`
variable (md5 : Text → Text)

def md5Hex (s : Text) : Text := hexEncode (md5 s)

def md5PasswordResponse (username password salt : Text) : Text :=
  let innerHex := md5Hex md5 (password ++ username)
  md5Prefix ++ md5Hex md5 (innerHex ++ salt)

def verifyMD5Password (username stored salt clientResponse : Text) : Bool :=
  let innerHex :=
    if stored.length = 35 ∧ stored.take 3 = md5Prefix then stored.drop 3 else md5Hex md5 (stored ++ username)
  let expected := md5Prefix ++ md5Hex md5 (innerHex ++ salt)
  expected == clientResponse

def storedSecret (entry : UserEntry) : Text := if entry.md5Hash = [] then entry.plainPassword else entry.md5Hash

/-- `doServerMD5`: the salt is none where no randomness could be read, the reply is none where the client
is gone. -/
def doServerMD5 (salt : Option Text) (flushed : Bool) (reply : Option ClientReply) (username : Text)
    (entry : UserEntry) : Outcome :=
  match salt with
  | none => ⟨[], .error .random⟩
  | some salt =>
    let sent := [.md5Password salt]
    if !flushed then ⟨sent, .error .send⟩
    else
      match reply with
      | none => ⟨sent, .error .receive⟩
      | some (.password response) =>
        if verifyMD5Password md5 username (storedSecret entry) salt response then ⟨sent, .ok ()⟩
        else sendAuthFailed sent (.md5Mismatch username)
      | some _ => ⟨sent, .error .unexpectedReply⟩

variable {md5} {entry : UserEntry}

theorem doServerMD5_succeeds_iff {salt username : Text} {flushed : Bool} {reply : Option ClientReply} :
    (doServerMD5 md5 (some salt) flushed reply username entry).succeeds ↔
      flushed = true ∧ ∃ response, reply = some (.password response) ∧
        verifyMD5Password md5 username (storedSecret entry) salt response = true := by
  rw [Outcome.succeeds]
  rcases flushed with _ | _
  · simp [doServerMD5]
  · rcases reply with _ | (response | _ | _ | _)
    case some.password =>
      by_cases hverify : verifyMD5Password md5 username (storedSecret entry) salt response = true
      · simp [doServerMD5, hverify]
      · simp [doServerMD5, hverify, sendAuthFailed]
    all_goals simp [doServerMD5]

theorem verify_hash {stored : Text} (h : IsHash stored) (username salt response : Text) :
    verifyMD5Password md5 username stored salt response = true ↔
      response = md5Prefix ++ md5Hex md5 (stored.drop md5Prefix.length ++ salt) := by
  obtain ⟨hlen, hbefore⟩ := h
  have htake : stored.take 3 = md5Prefix := (List.prefix_iff_eq_take.mp (List.isPrefixOf_iff_prefix.mp hbefore)).symm
  rw [verifyMD5Password, if_pos ⟨hlen, htake⟩, beq_iff_eq]
  exact eq_comm

theorem verify_plain {stored : Text} (h : ¬ IsHash stored) (username salt response : Text) :
    verifyMD5Password md5 username stored salt response = true ↔
      response = md5PasswordResponse md5 username stored salt := by
  have hform : ¬ (stored.length = 35 ∧ stored.take 3 = md5Prefix) := by
    rintro ⟨hlen, htake⟩
    refine h ⟨hlen, List.isPrefixOf_iff_prefix.mpr ?_⟩
    rw [← htake]
    exact List.take_prefix 3 stored
  rw [verifyMD5Password, if_neg hform, beq_iff_eq]
  exact eq_comm

theorem length_hexEncode (s : Text) : (hexEncode s).length = 2 * s.length := by
  rw [hexEncode, List.length_flatMap]
  simp [Nat.mul_comm]

theorem length_md5PasswordResponse_id (username password salt : Text) :
    (md5PasswordResponse id username password salt).length =
      3 + 2 * (2 * (password.length + username.length) + salt.length) := by
  have hbefore : md5Prefix.length = 3 := rfl
  simp only [md5PasswordResponse, md5Hex, id, List.length_append, length_hexEncode, hbefore]

/-- A password that stands in the userlist as it is logs in by MD5, whatever the digest is, exactly where
it has not the form of a hash or of a verifier. -/
theorem doServerMD5_password_iff (decode : Text → Option Text) (username salt : Text) {password : Text}
    (hne : password ≠ []) :
    (∀ md5 : Text → Text,
      (doServerMD5 md5 (some salt) true (some (.password (md5PasswordResponse md5 username password salt))) username
        (classifySecret decode username password)).succeeds) ↔
    ¬ IsHash password ∧ ∀ v, parseSCRAMVerifier decode password ≠ .ok v := by
  have hpos := List.length_pos_of_ne_nil hne
  simp only [doServerMD5_succeeds_iff, true_and, Option.some.injEq, ClientReply.password.injEq, exists_eq_left']
  constructor
  · intro haccepts
    have haccept := haccepts id
    have hlength := length_md5PasswordResponse_id username password salt
    constructor
    · intro hhash
      rw [classifySecret_of_hash decode hhash, storedSecret, if_neg hne, verify_hash hhash] at haccept
      have hbefore : md5Prefix.length = 3 := rfl
      rw [haccept, md5Hex, List.length_append, length_hexEncode, id, List.length_append, List.length_drop,
        hbefore, hhash.1] at hlength
      omega
    · intro v hv
      have hempty : ¬ IsHash [] := by decide
      rw [classifySecret_of_parse decode hv] at haccept
      rw [(verify_plain hempty username salt _).mp haccept, length_md5PasswordResponse_id, List.length_nil] at hlength
      omega
  · rintro ⟨hhash, hparse⟩ md5
    rw [classifySecret_of_plain decode hparse hhash, storedSecret, if_pos rfl, verify_plain hhash]

section Cases

def firstBytes (s : Text) : Text := (s ++ List.replicate 16 0).take 16

/-- A password that begins as a hash does and has the length of one. -/
def hashlikePassword : Text := ascii "md5sum-is-what-i-use-to-check-files"

theorem hashlikePassword_refused :
    (classifySecret noBytes (ascii "dave") hashlikePassword).md5Hash = hashlikePassword ∧
    ¬ (doServerMD5 firstBytes (some [1, 2, 3, 4]) true
      (some (.password (md5PasswordResponse firstBytes (ascii "dave") hashlikePassword [1, 2, 3, 4]))) (ascii "dave")
      (classifySecret noBytes (ascii "dave") hashlikePassword)).succeeds := by
  decide

theorem password_logs_in : ascii "secret" ≠ [] ∧ ∀ md5 : Text → Text,
    (doServerMD5 md5 (some [1, 2, 3, 4]) true
      (some (.password (md5PasswordResponse md5 (ascii "dave") (ascii "secret") [1, 2, 3, 4]))) (ascii "dave")
      (classifySecret noBytes (ascii "dave") (ascii "secret"))).succeeds := by
  have hne : ascii "secret" ≠ [] := by decide
  refine ⟨hne, (doServerMD5_password_iff noBytes (ascii "dave") [1, 2, 3, 4] hne).mpr ⟨by decide, ?_⟩⟩
  intro v hv
  have hparse : parseSCRAMVerifier noBytes (ascii "secret") = .error .notVerifier := by decide
  rw [hparse] at hv
  cases hv

end Cases

end MD5

end PgRouter.Auth.Passwords
