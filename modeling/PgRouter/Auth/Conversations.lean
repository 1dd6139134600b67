import PgRouter.Auth.Scram

namespace PgRouter.Auth.Conversations

open Client.Protocol Library.Texts Messages Secrets Scram

section Attributes

def Readable (part : Text) : Prop := ∃ attr, parseAttr part = .ok attr

def field (key : UInt8) (value : Text) : Text := key :: 0x3d :: value

variable {key : UInt8}

theorem parseAttr_field (value : Text) (hkey : key ≠ 0x3d) :
    parseAttr (field key value) = .ok ([key], value) := by
  have hmem : 0x3d ∉ [key] := by simpa using hkey.symm
  have hcut : cut 0x3d (field key value) = some ([key], value) := cut_append value hmem
  rw [parseAttr, hcut]
  rfl

variable {parts : List Text}

theorem parseAttrs_cons {part : Text} {attr : Text × Text} (h : parseAttr part = .ok attr) :
    parseAttrs (part :: parts) = (parseAttrs parts).map (attr :: ·) := by
  rw [parseAttrs, h]
  cases parseAttrs parts <;> rfl

variable {attrs attrs' : List (Text × Text)}

theorem parseAttrs_append {ps qs : List Text}
    (hps : parseAttrs ps = .ok attrs) (hqs : parseAttrs qs = .ok attrs') :
    parseAttrs (ps ++ qs) = .ok (attrs ++ attrs') := by
  induction ps generalizing attrs with
  | nil =>
    cases hps
    exact hqs
  | cons p ps ih =>
    cases hp : parseAttr p with
    | error e =>
      rw [parseAttrs, hp] at hps
      cases hps
    | ok attr =>
      rw [parseAttrs_cons hp] at hps
      rw [List.cons_append, parseAttrs_cons hp]
      cases hrest : parseAttrs ps with
      | error e =>
        rw [hrest] at hps
        cases hps
      | ok rest =>
        rw [hrest] at hps
        cases hps
        rw [ih hrest]
        rfl

theorem parseAttrs_ok_iff :
    (∃ attrs, parseAttrs parts = .ok attrs) ↔ ∀ part ∈ parts, Readable part := by
  induction parts with
  | nil => exact iff_of_true ⟨[], rfl⟩ (by simp)
  | cons part parts ih =>
    rw [List.forall_mem_cons, ← ih]
    cases hpart : parseAttr part with
    | error e =>
      refine iff_of_false ?_ ?_
      · rintro ⟨attrs, h⟩
        rw [parseAttrs, hpart] at h
        cases h
      · rintro ⟨⟨attr, h⟩, -⟩
        rw [hpart] at h
        cases h
    | ok attr =>
      rw [parseAttrs_cons hpart]
      cases parseAttrs parts with
      | error e => exact iff_of_false (fun ⟨_, h⟩ ↦ by cases h) (fun ⟨_, _, h⟩ ↦ by cases h)
      | ok attrs => exact iff_of_true ⟨_, rfl⟩ ⟨⟨attr, hpart⟩, attrs, rfl⟩

theorem splitSCRAMAttrs_field {value : Text} (hcomma : key ≠ 0x2c) (hkey : key ≠ 0x3d)
    (hvalue : 0x2c ∉ value) : splitSCRAMAttrs (field key value) = .ok [([key], value)] := by
  have hmem : 0x2c ∉ field key value := by
    have heq : (0x2c : UInt8) ≠ 0x3d := by decide
    simp [field, hcomma.symm, heq, hvalue]
  rw [splitSCRAMAttrs, List.splitOn_eq_singleton hmem, parseAttrs_cons (parseAttr_field value hkey)]
  rfl

theorem splitSCRAMAttrs_append {s t : Text}
    (hs : splitSCRAMAttrs s = .ok attrs) (ht : splitSCRAMAttrs t = .ok attrs') :
    splitSCRAMAttrs (s ++ 0x2c :: t) = .ok (attrs ++ attrs') := by
  rw [splitSCRAMAttrs, List.splitOn_append_cons_self]
  exact parseAttrs_append hs ht

theorem splitOn_field (value : Text) (hcomma : key ≠ 0x2c) : ∃ first rest,
    value.splitOn 0x2c = first :: rest ∧ (field key value).splitOn 0x2c = field key first :: rest := by
  cases hvalue : value.splitOn 0x2c with
  | nil => exact absurd hvalue (List.splitOn_ne_nil 0x2c value)
  | cons first rest =>
    refine ⟨first, rest, rfl, ?_⟩
    simp [field, List.splitOn_cons_eq_if_modifyHead, hcomma, hvalue]

theorem splitSCRAMAttrs_ok_iff (key : UInt8) (value : Text) (hcomma : key ≠ 0x2c) (hkey : key ≠ 0x3d) :
    (∃ attrs, splitSCRAMAttrs (field key value) = .ok attrs) ↔
      ∀ part ∈ (value.splitOn 0x2c).tail, Readable part := by
  obtain ⟨first, rest, hvalue, hfield⟩ := splitOn_field value hcomma
  have hhead : Readable (field key first) := ⟨_, parseAttr_field first hkey⟩
  rw [splitSCRAMAttrs, hfield, parseAttrs_ok_iff, List.forall_mem_cons, hvalue, List.tail_cons]
  exact and_iff_right hhead

end Attributes

section Texts

def clientFirstBare (username clientNonce : Text) : Text := field 0x6e username ++ 0x2c :: field 0x72 clientNonce

def finalWithoutProof (binding nonce : Text) : Text := field 0x63 binding ++ 0x2c :: field 0x72 nonce

def clientFinal (binding nonce proof : Text) : Text := finalWithoutProof binding nonce ++ 0x2c :: field 0x70 proof

def serverFirst (nonce salt iterations : Text) : Text :=
  field 0x72 nonce ++ 0x2c :: (field 0x73 salt ++ 0x2c :: field 0x69 iterations)

theorem splitSCRAMAttrs_serverFirst {nonce salt iterations : Text} (hnonce : 0x2c ∉ nonce) (hsalt : 0x2c ∉ salt)
    (hiterations : 0x2c ∉ iterations) :
    splitSCRAMAttrs (serverFirst nonce salt iterations) =
      .ok [([0x72], nonce), ([0x73], salt), ([0x69], iterations)] :=
  splitSCRAMAttrs_append (splitSCRAMAttrs_field (by decide) (by decide) hnonce)
    (splitSCRAMAttrs_append (splitSCRAMAttrs_field (by decide) (by decide) hsalt)
      (splitSCRAMAttrs_field (by decide) (by decide) hiterations))

theorem splitSCRAMAttrs_clientFinal {binding nonce proof : Text} (hbinding : 0x2c ∉ binding) (hnonce : 0x2c ∉ nonce)
    (hproof : 0x2c ∉ proof) :
    splitSCRAMAttrs (clientFinal binding nonce proof) =
      .ok [([0x63], binding), ([0x72], nonce), ([0x70], proof)] :=
  splitSCRAMAttrs_append
    (splitSCRAMAttrs_append (splitSCRAMAttrs_field (by decide) (by decide) hbinding)
      (splitSCRAMAttrs_field (by decide) (by decide) hnonce))
    (splitSCRAMAttrs_field (by decide) (by decide) hproof)

theorem splitSCRAMAttrs_clientFirstBare {username clientNonce : Text} (hnonce : 0x2c ∉ clientNonce)
    (h : ∀ part ∈ (username.splitOn 0x2c).tail, Readable part) :
    ∃ attrs, splitSCRAMAttrs (clientFirstBare username clientNonce) = .ok attrs ∧
      valueOf attrs 0x72 = some clientNonce := by
  obtain ⟨attrs, hattrs⟩ := (splitSCRAMAttrs_ok_iff 0x6e username (by decide) (by decide)).mpr h
  have hlast : splitSCRAMAttrs (field 0x72 clientNonce) = .ok [([0x72], clientNonce)] :=
    splitSCRAMAttrs_field (by decide) (by decide) hnonce
  exact ⟨_, splitSCRAMAttrs_append hattrs hlast, by simp [valueOf]⟩

theorem splitSCRAMAttrs_clientFirstBare_error {username : Text} (clientNonce : Text)
    (h : ¬ ∀ part ∈ (username.splitOn 0x2c).tail, Readable part) :
    ∃ e, splitSCRAMAttrs (clientFirstBare username clientNonce) = .error e := by
  cases hattrs : splitSCRAMAttrs (clientFirstBare username clientNonce) with
  | error e => exact ⟨e, rfl⟩
  | ok attrs =>
    refine absurd ((splitSCRAMAttrs_ok_iff 0x6e username (by decide) (by decide)).mp ?_) h
    rw [splitSCRAMAttrs, clientFirstBare, List.splitOn_append_cons_self] at hattrs
    refine parseAttrs_ok_iff.mpr fun part hpart ↦ ?_
    exact parseAttrs_ok_iff.mp ⟨attrs, hattrs⟩ part (List.mem_append_left _ hpart)

theorem beforeLast_eq_none {sep : UInt8} (pattern : Text) {s : Text} (h : sep ∉ s) :
    beforeLast (sep :: pattern) s = none := by
  induction s with
  | nil => rfl
  | cons c s ih =>
    obtain ⟨hc, hs⟩ := not_or.mp (fun hor ↦ h (List.mem_cons.mpr hor))
    rw [beforeLast, ih hs]
    simp [hc]

theorem beforeLast_append {sep : UInt8} (pattern : Text) {rest : Text} (s : Text) (h : sep ∉ pattern ++ rest) :
    beforeLast (sep :: pattern) (s ++ sep :: (pattern ++ rest)) = some s := by
  induction s with
  | nil =>
    rw [List.nil_append, beforeLast, beforeLast_eq_none pattern h]
    simp
  | cons c s ih => rw [List.cons_append, beforeLast, ih]

theorem beforeLast_clientFinal (binding nonce : Text) {proof : Text} (hproof : 0x2c ∉ proof) :
    beforeLast (ascii ",p=") (clientFinal binding nonce proof) = some (finalWithoutProof binding nonce) := by
  have hmem : 0x2c ∉ ascii "p=" ++ proof := by
    have hkey : (0x2c : UInt8) ∉ ascii "p=" := by decide
    simp [hkey, hproof]
  exact beforeLast_append (ascii "p=") _ hmem

theorem xorBytes_xorBytes {a b : Text} (h : a.length = b.length) : xorBytes (xorBytes a b) b = a := by
  induction a generalizing b with
  | nil => rfl
  | cons c a ih =>
    cases b with
    | nil => cases h
    | cons d b =>
      have hrest : xorBytes (xorBytes a b) b = a := ih (Nat.succ.inj h)
      simp only [xorBytes, List.zipWith_cons_cons, UInt8.xor_assoc, UInt8.xor_self, UInt8.xor_zero] at hrest ⊢
      rw [hrest]

theorem serverFirst_text (nonce salt iterations : Text) :
    ascii "r=" ++ nonce ++ ascii ",s=" ++ salt ++ ascii ",i=" ++ iterations = serverFirst nonce salt iterations := by
  simp only [List.append_assoc]
  rfl

theorem finalWithoutProof_text (binding nonce : Text) :
    ascii "c=" ++ binding ++ ascii ",r=" ++ nonce = finalWithoutProof binding nonce := by
  simp only [List.append_assoc]
  rfl

end Texts

section Steps

variable (P : Primitives)

theorem ok_bind {α β : Type} (a : α) (f : α → Except ScramError β) : (Except.ok a >>= f) = f a := rfl

theorem error_bind {α β : Type} (e : ScramError) (f : α → Except ScramError β) :
    (Except.error e >>= f) = .error e := rfl

variable {c : SCRAMServerConv} {v : SCRAMVerifier}

theorem server_step1 {first bare nonce : Text}
    {attrs : List (Text × Text)} (hv : c.verifier = some v) (hstrip : stripGS2Header first = .ok bare)
    (hattrs : splitSCRAMAttrs bare = .ok attrs) (hnonce : valueOf attrs 0x72 = some nonce) (raw : Text) :
    c.step1 P first (some raw) =
      .ok ({ c with
          clientFirstBare := bare
          clientNonce := nonce
          serverNonce := P.encode raw
          serverFirstMsg := serverFirst (nonce ++ P.encode raw) (P.encode v.salt) (itoa v.iterations) },
        serverFirst (nonce ++ P.encode raw) (P.encode v.salt) (itoa v.iterations)) := by
  simp only [SCRAMServerConv.step1, hv, hstrip, hattrs, hnonce, need_some, ok_bind, serverFirst_text]
  rfl

theorem server_step1_error {first bare : Text} {e : ScramError}
    (hv : c.verifier = some v) (hstrip : stripGS2Header first = .ok bare)
    (hattrs : splitSCRAMAttrs bare = .error e) (raw : Option Text) : c.step1 P first raw = .error e := by
  simp only [SCRAMServerConv.step1, hv, hstrip, hattrs, need_some, ok_bind, error_bind]

section Final

variable {binding nonce proof : Text}

theorem valueOf_clientFinal (binding nonce proof : Text) :
    let attrs : List (Text × Text) := [([0x63], binding), ([0x72], nonce), ([0x70], proof)]
    valueOf attrs 0x63 = some binding ∧ valueOf attrs 0x72 = some nonce ∧ valueOf attrs 0x70 = some proof :=
  ⟨rfl, rfl, rfl⟩

theorem server_step2_binding (hv : c.verifier = some v) (hbinding : 0x2c ∉ binding) (hnonce : 0x2c ∉ nonce)
    (hproof : 0x2c ∉ proof) (hne : binding ≠ ascii "biws") :
    c.step2 P (clientFinal binding nonce proof) = .error (.channelBinding binding) := by
  obtain ⟨hc, hr, hp⟩ := valueOf_clientFinal binding nonce proof
  simp only [SCRAMServerConv.step2, hv, splitSCRAMAttrs_clientFinal hbinding hnonce hproof, need_some, ok_bind,
    hc, hr, hp, beq_false_of_ne hne, check_false, error_bind]

theorem server_step2 {bytes auth : Text} (hv : c.verifier = some v) (hnonce : 0x2c ∉ c.clientNonce ++ c.serverNonce)
    (hproof : 0x2c ∉ proof) (hdecode : P.decode proof = some bytes)
    (hauth : joined c.clientFirstBare c.serverFirstMsg
      (finalWithoutProof (ascii "biws") (c.clientNonce ++ c.serverNonce)) = auth)
    (hlength : bytes.length = (P.hmac v.storedKey auth).length)
    (hkey : P.sha256 (xorBytes bytes (P.hmac v.storedKey auth)) = v.storedKey) :
    c.step2 P (clientFinal (ascii "biws") (c.clientNonce ++ c.serverNonce) proof) =
      .ok (ascii "v=" ++ P.encode (P.hmac v.serverKey auth)) := by
  have hbinding : (0x2c : UInt8) ∉ ascii "biws" := by decide
  obtain ⟨hc, hr, hp⟩ := valueOf_clientFinal (ascii "biws") (c.clientNonce ++ c.serverNonce) proof
  simp only [SCRAMServerConv.step2, hv, splitSCRAMAttrs_clientFinal hbinding hnonce hproof, need_some, ok_bind,
    hc, hr, hp, beq_self_eq_true, check_true, beforeLast_clientFinal _ _ hproof, hdecode, hauth, hlength, hkey]
  rfl

end Final

def saltedPwd (password salt : Text) (iterations : ℤ) : Text := P.pbkdf2 password salt iterations

def clientKey (password salt : Text) (iterations : ℤ) : Text :=
  P.hmac (saltedPwd P password salt iterations) (ascii "Client Key")

def serverKey (password salt : Text) (iterations : ℤ) : Text :=
  P.hmac (saltedPwd P password salt iterations) (ascii "Server Key")

def honestFinal (password salt : Text) (iterations : ℤ) (header bare first nonce : Text) : Text :=
  let auth := joined bare first (finalWithoutProof (P.encode header) nonce)
  clientFinal (P.encode header) nonce
    (P.encode (xorBytes (clientKey P password salt iterations)
      (P.hmac (P.sha256 (clientKey P password salt iterations)) auth)))

def verifierOf (password salt : Text) (iterations : ℤ) : SCRAMVerifier :=
  ⟨iterations, salt, P.sha256 (clientKey P password salt iterations), serverKey P password salt iterations⟩

variable {iterations : ℤ}

theorem makeSCRAMVerifierWithSalt_eq (password salt : Text) (h : 1 ≤ iterations) :
    makeSCRAMVerifierWithSalt P password salt iterations = some (verifierOf P password salt iterations) := by
  rw [makeSCRAMVerifierWithSalt, if_neg (by omega)]
  rfl

theorem server_accepts {password salt : Text}
    (hv : c.verifier = some (verifierOf P password salt iterations))
    (hnonce : 0x2c ∉ c.clientNonce ++ c.serverNonce) :
    c.step2 P (honestFinal P password salt iterations (ascii "n,,") c.clientFirstBare c.serverFirstMsg
        (c.clientNonce ++ c.serverNonce)) =
      .ok (ascii "v=" ++ P.encode (P.hmac (serverKey P password salt iterations)
        (joined c.clientFirstBare c.serverFirstMsg
          (finalWithoutProof (ascii "biws") (c.clientNonce ++ c.serverNonce))))) := by
  rw [honestFinal, P.encode_header]
  have hlength (key auth : Text) : (clientKey P password salt iterations).length = (P.hmac key auth).length := by
    rw [clientKey, P.length_hmac, P.length_hmac]
  refine server_step2 P hv hnonce (P.comma_not_mem_encode _) (P.decode_encode _) rfl ?_ ?_
  · rw [xorBytes, List.length_zipWith, ← hlength, ← hlength, Nat.min_self]
  · rw [verifierOf, xorBytes_xorBytes (hlength _ _)]

theorem client_initial (username password raw : Text) :
    (newSCRAMClient username password).initial P raw =
      (⟨username, password, P.encode raw, clientFirstBare username (P.encode raw), [], [], []⟩,
        ascii "n,," ++ clientFirstBare username (P.encode raw)) := by
  have hbare : ascii "n=" ++ username ++ ascii ",r=" ++ P.encode raw = clientFirstBare username (P.encode raw) := by
    simp only [List.append_assoc]
    rfl
  rw [SCRAMClientConv.initial, newSCRAMClient, hbare]

theorem client_step1 (c : SCRAMClientConv) (salt : Text) {nonce : Text} (hnonce : 0x2c ∉ nonce)
    (hbefore : c.clientNonce.isPrefixOf nonce = true) (hone : 1 ≤ iterations) (hmax : iterations ≤ maxInt) :
    let first := serverFirst nonce (P.encode salt) (itoa iterations)
    c.step1 P first =
      .ok ({ c with
          serverFirstMsg := first
          saltedPwd := saltedPwd P c.password salt iterations
          authMessage := joined c.clientFirstBare first (finalWithoutProof (P.encode (ascii "n,,")) nonce) },
        honestFinal P c.password salt iterations (ascii "n,,") c.clientFirstBare first nonce) := by
  intro first
  have hattrs : splitSCRAMAttrs first = .ok [([0x72], nonce), ([0x73], P.encode salt), ([0x69], itoa iterations)] :=
    splitSCRAMAttrs_serverFirst hnonce (P.comma_not_mem_encode salt) (comma_not_mem_itoa iterations)
  have hr : valueOf [([0x72], nonce), ([0x73], P.encode salt), ([0x69], itoa iterations)] 0x72 = some nonce := rfl
  have hs : valueOf [([0x72], nonce), ([0x73], P.encode salt), ([0x69], itoa iterations)] 0x73 =
    some (P.encode salt) := rfl
  have hi : valueOf [([0x72], nonce), ([0x73], P.encode salt), ([0x69], itoa iterations)] 0x69 =
    some (itoa iterations) := rfl
  have hint : (atoi (itoa iterations)).filter (1 ≤ ·) = some iterations := by
    rw [atoi_itoa (by rw [minInt]; omega) hmax, Option.filter_some]
    simp [hone]
  have hfinal (proof : Text) : finalWithoutProof (P.encode (ascii "n,,")) nonce ++ ascii ",p=" ++ proof =
      clientFinal (P.encode (ascii "n,,")) nonce proof := by
    rw [List.append_assoc]
    rfl
  simp only [SCRAMClientConv.step1, hattrs, hr, hs, hi, hint, hbefore, P.decode_encode, need_some, ok_bind,
    check_true, finalWithoutProof_text, hfinal]
  rfl

theorem client_step2 (c : SCRAMClientConv) :
    c.step2 P (ascii "v=" ++ P.encode (P.hmac (P.hmac c.saltedPwd (ascii "Server Key")) c.authMessage)) = .ok () := by
  let signature := P.encode (P.hmac (P.hmac c.saltedPwd (ascii "Server Key")) c.authMessage)
  have hattrs : splitSCRAMAttrs (ascii "v=" ++ signature) = .ok [([0x76], signature)] :=
    splitSCRAMAttrs_field (by decide) (by decide) (P.comma_not_mem_encode _)
  have he : valueOf [([0x76], signature)] 0x65 = none := rfl
  have hv : valueOf [([0x76], signature)] 0x76 = some signature := rfl
  have hdecode : P.decode signature = some (P.hmac (P.hmac c.saltedPwd (ascii "Server Key")) c.authMessage) :=
    P.decode_encode _
  simp only [SCRAMClientConv.step2, signature] at *
  simp only [hattrs, ok_bind, he, hv, need_some, hdecode, beq_self_eq_true, check_true]

end Steps

section Runs

variable (P : Primitives)

def converse (username password : Text) (v : SCRAMVerifier) (clientRaw serverRaw : Text) :
    Except ScramError Unit := do
  let (client, first) := (newSCRAMClient username password).initial P clientRaw
  let (server, reply) ← (newSCRAMServer username (some v)).step1 P first (some serverRaw)
  let (client, final) ← client.step1 P reply
  let signed ← server.step2 P final
  client.step2 P signed

theorem stripGS2Header_append {flag : UInt8} (hflag : flag = 0x6e ∨ flag = 0x79) (bare : Text) :
    stripGS2Header (flag :: 0x2c :: 0x2c :: bare) = .ok bare := by
  have hcut : cut 0x2c (0x2c :: bare) = some ([], bare) := cut_append (s := []) bare (by simp)
  rcases hflag with rfl | rfl <;> simp [stripGS2Header, hcut]

/-- The conversation with the right password goes through exactly for the user names in which every part
behind a comma reads as an attribute. -/
theorem converse_ok_iff (username password salt clientRaw serverRaw : Text) {iterations : ℤ}
    (hone : 1 ≤ iterations) (hmax : iterations ≤ maxInt) :
    ∃ v, makeSCRAMVerifierWithSalt P password salt iterations = some v ∧
      (converse P username password v clientRaw serverRaw = .ok () ↔
        ∀ part ∈ (username.splitOn 0x2c).tail, Readable part) := by
  refine ⟨_, makeSCRAMVerifierWithSalt_eq P password salt hone, ?_⟩
  have hstrip : stripGS2Header (ascii "n,," ++ clientFirstBare username (P.encode clientRaw)) =
      .ok (clientFirstBare username (P.encode clientRaw)) := stripGS2Header_append (.inl rfl) _
  rw [converse, client_initial]
  dsimp only
  by_cases h : ∀ part ∈ (username.splitOn 0x2c).tail, Readable part
  · refine iff_of_true ?_ h
    obtain ⟨attrs, hattrs, hvalue⟩ := splitSCRAMAttrs_clientFirstBare (P.comma_not_mem_encode clientRaw) h
    let bare := clientFirstBare username (P.encode clientRaw)
    let nonce := P.encode clientRaw ++ P.encode serverRaw
    let first := serverFirst nonce (P.encode salt) (itoa iterations)
    have hnonce : 0x2c ∉ nonce := by simp [nonce, P.comma_not_mem_encode]
    have hbefore : (P.encode clientRaw).isPrefixOf nonce = true :=
      List.isPrefixOf_iff_prefix.mpr (List.prefix_append _ _)
    let server : SCRAMServerConv :=
      ⟨some (verifierOf P password salt iterations), username, bare, first, P.encode serverRaw, P.encode clientRaw⟩
    have hv : (newSCRAMServer username (some (verifierOf P password salt iterations))).verifier =
      some (verifierOf P password salt iterations) := rfl
    have hserver : (newSCRAMServer username (some (verifierOf P password salt iterations))).step1 P
        (ascii "n,," ++ bare) (some serverRaw) = .ok (server, first) := server_step1 P hv hstrip hattrs hvalue serverRaw
    have hclient := client_step1 P ⟨username, password, P.encode clientRaw, bare, [], [], []⟩ salt hnonce
      hbefore hone hmax
    have haccept : server.step2 P (honestFinal P password salt iterations (ascii "n,,") bare first nonce) = _ :=
      server_accepts P rfl hnonce
    rw [hserver, ok_bind]
    dsimp only
    rw [hclient, ok_bind]
    dsimp only
    rw [haccept, ok_bind, ← P.encode_header]
    exact client_step2 P _
  · obtain ⟨e, he⟩ := splitSCRAMAttrs_clientFirstBare_error (P.encode clientRaw) h
    rw [server_step1_error P rfl hstrip he]
    exact iff_of_false (by simp [error_bind]) h

def gs2Header (supports : Bool) : Text := if supports then ascii "y,," else ascii "n,,"

def login (v : SCRAMVerifier) (supports : Bool) (username password clientNonce serverRaw : Text) :
    Except ScramError Text := do
  let bare := clientFirstBare username clientNonce
  let (server, first) ← (newSCRAMServer username (some v)).step1 P (gs2Header supports ++ bare) (some serverRaw)
  server.step2 P (honestFinal P password v.salt v.iterations (gs2Header supports) bare first
    (clientNonce ++ P.encode serverRaw))

/-- A client that keeps to the protocol is accepted exactly with the header of one that cannot bind the
channel. -/
theorem login_ok_iff (hencode : P.encode (ascii "y,,") = ascii "eSws") (supports : Bool)
    {username clientNonce : Text} (husername : 0x2c ∉ username) (hclient : 0x2c ∉ clientNonce)
    (password salt serverRaw : Text) {iterations : ℤ} (hone : 1 ≤ iterations) :
    ∃ v, makeSCRAMVerifierWithSalt P password salt iterations = some v ∧
      ((∃ final, login P v supports username password clientNonce serverRaw = .ok final) ↔
        gs2Header supports = ascii "n,,") := by
  refine ⟨_, makeSCRAMVerifierWithSalt_eq P password salt hone, ?_⟩
  let v := verifierOf P password salt iterations
  let bare := clientFirstBare username clientNonce
  let nonce := clientNonce ++ P.encode serverRaw
  let first := serverFirst nonce (P.encode salt) (itoa iterations)
  let server : SCRAMServerConv := ⟨some v, username, bare, first, P.encode serverRaw, clientNonce⟩
  have hnonce : 0x2c ∉ nonce := by simp [nonce, hclient, P.comma_not_mem_encode]
  have hparts : ∀ part ∈ (username.splitOn 0x2c).tail, Readable part := by
    simp [List.splitOn_eq_singleton husername]
  obtain ⟨attrs, hattrs, hvalue⟩ := splitSCRAMAttrs_clientFirstBare hclient hparts
  have hstrip : stripGS2Header (gs2Header supports ++ bare) = .ok bare := by
    cases supports with
    | false => exact stripGS2Header_append (.inl rfl) bare
    | true => exact stripGS2Header_append (.inr rfl) bare
  have hv : (newSCRAMServer username (some v)).verifier = some v := rfl
  have hserver : (newSCRAMServer username (some v)).step1 P (gs2Header supports ++ bare) (some serverRaw) =
    .ok (server, first) := server_step1 P hv hstrip hattrs hvalue serverRaw
  have hlogin : login P v supports username password clientNonce serverRaw =
      server.step2 P (honestFinal P password salt iterations (gs2Header supports) bare first nonce) := by
    rw [login, hserver]
    rfl
  rw [hlogin]
  cases supports with
  | false => exact iff_of_true ⟨_, server_accepts P rfl hnonce⟩ rfl
  | true =>
    have hbinding : P.encode (gs2Header true) ≠ ascii "biws" := by
      rw [show gs2Header true = ascii "y,," from rfl, hencode]
      decide
    have hreject : server.step2 P (honestFinal P password salt iterations (gs2Header true) bare first nonce) =
        .error (.channelBinding (P.encode (gs2Header true))) :=
      server_step2_binding P rfl (P.comma_not_mem_encode _) hnonce (P.comma_not_mem_encode _) hbinding
    refine iff_of_false ?_ (by decide)
    rw [hreject]
    rintro ⟨final, h⟩
    cases h

end Runs

section Cases

def digest (s : Text) : Text := (s ++ List.replicate 32 0).take 32

def sample : Primitives where
  sha256 := digest
  hmac key s := digest (xorBytes key s)
  pbkdf2 password salt _ := password ++ salt
  encode := Library.Base64.encode
  decode := Library.Base64.decode
  length_sha256 s := by simp [digest]
  length_hmac key s := by simp [digest]
  decode_encode := Library.Base64.decode_encode
  comma_not_mem_encode := Library.Base64.not_mem_encode (by decide) (by decide)
  encode_header := by decide

/-- A comma in the user name ends the conversation. -/
theorem converse_comma :
    makeSCRAMVerifierWithSalt sample (ascii "secret") [1, 2, 3] 4096 =
      some (verifierOf sample (ascii "secret") [1, 2, 3] 4096) ∧
    converse sample (ascii "a,b") (ascii "secret") (verifierOf sample (ascii "secret") [1, 2, 3] 4096) [7] [8] =
      .error (.badAttr (ascii "b")) := by
  decide

theorem converse_alice :
    ∃ v, makeSCRAMVerifierWithSalt sample (ascii "secret") [1, 2, 3] 4096 = some v ∧
      converse sample (ascii "alice") (ascii "secret") v [7] [8] = .ok () := by
  have hone : (1 : ℤ) ≤ 4096 := by decide
  obtain ⟨v, hv, h⟩ := converse_ok_iff sample (ascii "alice") (ascii "secret") [1, 2, 3] [7] [8] hone (by decide)
  have hparts : ((ascii "alice").splitOn 0x2c).tail = [] := by decide
  exact ⟨v, hv, h.mpr (by simp [hparts])⟩

/-- A client that could bind the channel is turned away. -/
theorem login_supports :
    makeSCRAMVerifierWithSalt sample (ascii "secret") [1, 2, 3] 4096 =
      some (verifierOf sample (ascii "secret") [1, 2, 3] 4096) ∧
    login sample (verifierOf sample (ascii "secret") [1, 2, 3] 4096) true (ascii "alice") (ascii "secret")
      (ascii "nonce") [8] = .error (.channelBinding (ascii "eSws")) := by
  decide

theorem login_alice :
    ∃ v, makeSCRAMVerifierWithSalt sample (ascii "secret") [1, 2, 3] 4096 = some v ∧
      ∃ final, login sample v false (ascii "alice") (ascii "secret") (ascii "nonce") [8] = .ok final := by
  have hone : (1 : ℤ) ≤ 4096 := by decide
  have hname : 0x2c ∉ ascii "alice" := by decide
  have hnonce : 0x2c ∉ ascii "nonce" := by decide
  obtain ⟨v, hv, h⟩ := login_ok_iff sample (by decide) false hname hnonce (ascii "secret") [1, 2, 3] [8] hone
  exact ⟨v, hv, h.mpr rfl⟩

end Cases

end PgRouter.Auth.Conversations
