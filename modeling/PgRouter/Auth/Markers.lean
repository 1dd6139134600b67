import PgRouter.Auth.Conversations

namespace PgRouter.Auth.Markers

open Client.Protocol Library.Texts Messages Secrets Scram Conversations

section Attributes

variable {part : Text} {attr : Text × Text} {attrs : List (Text × Text)}

theorem isPrefixOf_eq_name (h : parseAttr part = .ok attr) :
    (ascii "p=").isPrefixOf part = (attr.1 == [0x70]) := by
  unfold parseAttr at h
  cases hcut : cut 0x3d part with
  | none =>
    rw [hcut] at h
    cases h
  | some pair =>
    obtain ⟨key, value⟩ := pair
    simp only [hcut] at h
    split at h
    · cases h
    · next hkey =>
      cases h
      obtain ⟨rfl, hmem⟩ := cut_spec hcut
      match key with
      | [] => exact absurd rfl hkey
      | [c] => simp [ascii, List.isPrefixOf, Bool.beq_comm]
      | c :: d :: key =>
        have hd : ((0x3d : UInt8) == d) = false := beq_eq_false_iff_ne.mpr fun h ↦ hmem (by simp [h])
        have hmarker : (ascii "p=").isPrefixOf (c :: d :: key ++ 0x3d :: value) =
            (0x70 == c && (0x3d == d && true)) := rfl
        rw [hmarker, hd, Bool.false_and, Bool.and_false]
        exact (beq_eq_false_iff_ne.mpr (by simp)).symm

variable {parts : List Text}

theorem parseAttrs_cons_inv (h : parseAttrs (part :: parts) = .ok attrs) :
    ∃ attr rest, parseAttr part = .ok attr ∧ parseAttrs parts = .ok rest ∧ attrs = attr :: rest := by
  cases hpart : parseAttr part with
  | error e =>
    rw [parseAttrs, hpart] at h
    cases h
  | ok attr =>
    rw [parseAttrs_cons hpart] at h
    cases hrest : parseAttrs parts with
    | error e =>
      rw [hrest] at h
      cases h
    | ok rest =>
      rw [hrest] at h
      cases h
      exact ⟨attr, rest, rfl, rfl, rfl⟩

theorem parseAttrs_names (h : parseAttrs parts = .ok attrs) :
    (parts.any fun part ↦ (ascii "p=").isPrefixOf part) = attrs.any fun attr ↦ attr.1 == [0x70] := by
  induction parts generalizing attrs with
  | nil =>
    cases h
    rfl
  | cons part parts ih =>
    obtain ⟨attr, rest, hpart, hrest, rfl⟩ := parseAttrs_cons_inv h
    rw [List.any_cons, List.any_cons, isPrefixOf_eq_name hpart, ih hrest]

theorem isSome_beforeLast (s : Text) :
    (beforeLast (ascii ",p=") s).isSome = (s.splitOn 0x2c).tail.any fun part ↦ (ascii "p=").isPrefixOf part := by
  induction s with
  | nil => rfl
  | cons c s ih =>
    have hcons : (beforeLast (ascii ",p=") (c :: s)).isSome =
        ((beforeLast (ascii ",p=") s).isSome || (0x2c == c && (ascii "p=").isPrefixOf s)) := by
      rw [beforeLast]
      cases beforeLast (ascii ",p=") s with
      | some t => rfl
      | none =>
        have hmarker : (ascii ",p=").isPrefixOf (c :: s) = (0x2c == c && (ascii "p=").isPrefixOf s) := rfl
        simp only [hmarker, Option.isSome_none, Bool.false_or]
        cases 0x2c == c && (ascii "p=").isPrefixOf s <;> rfl
    rw [hcons, ih, List.splitOn_cons_eq_if_modifyHead]
    cases hs : s.splitOn 0x2c with
    | nil => exact absurd hs (List.splitOn_ne_nil 0x2c s)
    | cons first rest =>
      have hfirst : (ascii "p=").isPrefixOf first = (ascii "p=").isPrefixOf s :=
        isPrefixOf_splitOn hs (by decide)
      by_cases hc : c = 0x2c
      · simp [hc, hfirst, Bool.or_comm]
      · have hne : ((0x2c : UInt8) == c) = false := beq_eq_false_iff_ne.mpr (Ne.symm hc)
        simp [hc, hne]

end Attributes

section Failures

variable {α β : Type} {e e' : ScramError} {f : α → Except ScramError β}

theorem exists_of_bind_ok {x : Except ScramError α} {b : β}
    (h : (x >>= f) = .ok b) : ∃ a, x = .ok a ∧ f a = .ok b := by
  cases x with
  | error e => cases h
  | ok a => exact ⟨a, rfl, h⟩

theorem need_bind_error (he : e ≠ e') (o : Option α) (f : α → Except ScramError β) :
    (need e o >>= f) = .error e' ↔ ∃ a, o = some a ∧ f a = .error e' := by
  cases o with
  | none => exact iff_of_false (fun h ↦ he (by cases h; rfl)) (fun ⟨a, h, _⟩ ↦ by cases h)
  | some a => simp [bind, Except.bind]

theorem need_bind_self {o : Option α} (hf : ∀ a, f a ≠ .error e) :
    (need e o >>= f) = .error e ↔ o = none := by
  cases o with
  | none => exact iff_of_true rfl rfl
  | some a => exact iff_of_false (hf a) (by simp)

theorem check_bind_error (he : e ≠ e') (b : Bool) (f : Unit → Except ScramError β) :
    (check b e >>= f) = .error e' ↔ b = true ∧ f () = .error e' := by
  cases b with
  | false => exact iff_of_false (fun h ↦ he (by cases h; rfl)) (fun h ↦ by cases h.1)
  | true => simp [bind, Except.bind]

theorem parseAttrs_error {parts : List Text} (h : parseAttrs parts = .error e) : ∃ part, e = .badAttr part := by
  induction parts with
  | nil => cases h
  | cons part parts ih =>
    cases hpart : parseAttr part with
    | error e₁ =>
      have he : e = e₁ := by
        rw [parseAttrs, hpart] at h
        cases h
        rfl
      refine ⟨part, he.trans ?_⟩
      unfold parseAttr at hpart
      split at hpart
      · split at hpart
        · cases hpart
          rfl
        · cases hpart
      · cases hpart
        rfl
    | ok attr =>
      rw [parseAttrs_cons hpart] at h
      cases hrest : parseAttrs parts with
      | error e₁ =>
        rw [hrest] at h
        cases h
        exact ih hrest
      | ok rest =>
        rw [hrest] at h
        cases h

theorem splitSCRAMAttrs_bind_error (he : ∀ part, .badAttr part ≠ e') (s : Text)
    (f : List (Text × Text) → Except ScramError β) :
    (splitSCRAMAttrs s >>= f) = .error e' ↔ ∃ attrs, splitSCRAMAttrs s = .ok attrs ∧ f attrs = .error e' := by
  cases hattrs : splitSCRAMAttrs s with
  | error e =>
    refine iff_of_false (fun h ↦ ?_) (fun ⟨attrs, h, _⟩ ↦ by cases h)
    cases h
    obtain ⟨part, rfl⟩ := parseAttrs_error hattrs
    exact he part rfl
  | ok attrs => simp [bind, Except.bind]

end Failures

section Panics

/-- The proof is the first attribute and no other one, and the attributes after it are those that are
asked for. -/
def proofFirst (nonce clientFinal : Text) : Bool :=
  match splitSCRAMAttrs clientFinal with
  | .ok (attr :: attrs) =>
    attr.1 == [0x70] && !attrs.any (·.1 == [0x70]) && valueOf attrs 0x63 == some (ascii "biws") &&
      valueOf attrs 0x72 == some nonce
  | _ => false

variable (P : Primitives)

theorem step2_panics {c : SCRAMServerConv} {v : SCRAMVerifier} (hv : c.verifier = some v) (clientFinal : Text) :
    c.step2 P clientFinal = .error .sliceOutOfRange ↔ ∃ attrs, splitSCRAMAttrs clientFinal = .ok attrs ∧
      valueOf attrs 0x63 = some (ascii "biws") ∧ valueOf attrs 0x72 = some (c.clientNonce ++ c.serverNonce) ∧
        (∃ proof, valueOf attrs 0x70 = some proof) ∧ beforeLast (ascii ",p=") clientFinal = none := by
  unfold SCRAMServerConv.step2
  rw [hv]
  simp (disch := simp) only [need_some, ok_bind, need_bind_error, check_bind_error, splitSCRAMAttrs_bind_error,
    beq_iff_eq]
  refine exists_congr fun attrs ↦ and_congr_right fun _ ↦ ?_
  constructor
  · intro h
    obtain ⟨_, hbinding, _, hnonce, proof, hproof, rfl, rfl, hcut⟩ := h
    refine ⟨hbinding, hnonce, ⟨proof, hproof⟩, (need_bind_self fun before h ↦ ?_).mp hcut⟩
    simp (disch := simp) only [need_bind_error, check_bind_error] at h
    obtain ⟨_, _, _, _, h⟩ := h
    cases h
  · intro h
    obtain ⟨hbinding, hnonce, ⟨proof, hproof⟩, hcut⟩ := h
    refine ⟨_, hbinding, _, hnonce, proof, hproof, rfl, rfl, ?_⟩
    rw [hcut]
    rfl

variable {attr : Text × Text}

theorem valueOf_cons_of_ne {key : UInt8} (h : attr.1 ≠ [key]) (attrs : List (Text × Text)) :
    valueOf (attr :: attrs) key = valueOf attrs key := by
  have hkey : ([key] == attr.1) = false := beq_eq_false_iff_ne.mpr (Ne.symm h)
  obtain ⟨name, value⟩ := attr
  unfold valueOf
  rw [List.reverse_cons, List.lookup_append]
  simp [List.lookup_cons, hkey]

theorem valueOf_isSome (attrs : List (Text × Text)) (key : UInt8) :
    (∃ value, valueOf attrs key = some value) ↔ attrs.any (·.1 == [key]) = true := by
  rw [← Option.isSome_iff_exists, valueOf, List.lookup_isSome_iff]
  simp

theorem beforeLast_eq_none_iff {clientFinal : Text} {attrs : List (Text × Text)}
    (h : splitSCRAMAttrs clientFinal = .ok (attr :: attrs)) :
    beforeLast (ascii ",p=") clientFinal = none ↔ attrs.any (·.1 == [0x70]) = false := by
  rw [← Option.isNone_iff_eq_none, ← Option.not_isSome, isSome_beforeLast]
  unfold splitSCRAMAttrs at h
  cases hparts : clientFinal.splitOn 0x2c with
  | nil => exact absurd hparts (List.splitOn_ne_nil 0x2c clientFinal)
  | cons part parts =>
    rw [hparts] at h
    obtain ⟨_, _, -, hrest, heq⟩ := parseAttrs_cons_inv h
    cases heq
    rw [List.tail_cons, parseAttrs_names hrest, Bool.not_eq_true']

theorem proofFirst_iff (nonce clientFinal : Text) : proofFirst nonce clientFinal = true ↔
    ∃ attrs, splitSCRAMAttrs clientFinal = .ok attrs ∧ valueOf attrs 0x63 = some (ascii "biws") ∧
      valueOf attrs 0x72 = some nonce ∧ (∃ proof, valueOf attrs 0x70 = some proof) ∧
        beforeLast (ascii ",p=") clientFinal = none := by
  unfold proofFirst
  cases hattrs : splitSCRAMAttrs clientFinal with
  | error e => exact iff_of_false (by simp) (fun ⟨_, h, _⟩ ↦ by cases h)
  | ok attrs =>
    cases attrs with
    | nil =>
      refine iff_of_false (by simp) (fun ⟨_, h, hbinding, _⟩ ↦ ?_)
      cases h
      cases hbinding
    | cons attr attrs =>
      simp only [Except.ok.injEq, exists_eq_left', valueOf_isSome, beforeLast_eq_none_iff hattrs, List.any_cons]
      by_cases hp : attr.1 = [0x70]
      · have hc : attr.1 ≠ [0x63] := by rw [hp]; decide
        have hr : attr.1 ≠ [0x72] := by rw [hp]; decide
        rw [valueOf_cons_of_ne hc, valueOf_cons_of_ne hr]
        simp only [hp, beq_self_eq_true, Bool.true_or, Bool.true_and, Bool.and_eq_true, beq_iff_eq,
          Bool.not_eq_true']
        tauto
      · have hne : (attr.1 == [0x70]) = false := beq_eq_false_iff_ne.mpr hp
        simp [hne]

theorem verifier_of_step1 {c₀ c : SCRAMServerConv} {clientFirst serverFirst : Text} {nonceRaw : Option Text}
    (hstep : c₀.step1 P clientFirst nonceRaw = .ok (c, serverFirst)) : ∃ v, c.verifier = some v := by
  obtain ⟨v, hneed, h⟩ := exists_of_bind_ok hstep
  obtain ⟨bare, -, h⟩ := exists_of_bind_ok h
  obtain ⟨parts, -, h⟩ := exists_of_bind_ok h
  obtain ⟨clientNonce, -, h⟩ := exists_of_bind_ok h
  obtain ⟨srvNonceRaw, -, h⟩ := exists_of_bind_ok h
  cases h
  cases hv : c₀.verifier with
  | none =>
    rw [hv] at hneed
    cases hneed
  | some v => exact ⟨v, rfl⟩

/-- After any first step, the second one returns exactly where the proof is not only the first attribute
of a message that would have been accepted so far. -/
theorem step2_returns_iff {c₀ c : SCRAMServerConv} {clientFirst serverFirst : Text} {nonceRaw : Option Text}
    (hstep : c₀.step1 P clientFirst nonceRaw = .ok (c, serverFirst)) (clientFinal : Text) :
    c.step2 P clientFinal ≠ .error .sliceOutOfRange ↔
      proofFirst (c.clientNonce ++ c.serverNonce) clientFinal = false := by
  obtain ⟨v, hv⟩ := verifier_of_step1 P hstep
  rw [← Bool.not_eq_true, proofFirst_iff, ← step2_panics P hv]

theorem started : (newSCRAMServer (ascii "alice") (some (verifierOf sample (ascii "secret") [1, 2, 3] 4096))).step1
    sample (ascii "n,,n=alice,r=nonce") (some [8]) = .ok (⟨some (verifierOf sample (ascii "secret") [1, 2, 3] 4096),
      ascii "alice", ascii "n=alice,r=nonce", ascii "r=nonceCA==,s=AQID,i=4096", ascii "CA==", ascii "nonce"⟩,
        ascii "r=nonceCA==,s=AQID,i=4096") := by
  rfl

/-- A message that begins with the proof is sliced at the index -1. -/
theorem step2_proof_first :
    (newSCRAMServer (ascii "alice") (some (verifierOf sample (ascii "secret") [1, 2, 3] 4096))).step1 sample
        (ascii "n,,n=alice,r=nonce") (some [8]) >>= (fun started ↦
      started.1.step2 sample (ascii "p=AA==,c=biws,r=nonceCA==")) = .error .sliceOutOfRange := by
  rw [started]
  decide

/-- With the proof at the end it is an error. -/
theorem step2_proof_last :
    ∃ c serverFirst, (newSCRAMServer (ascii "alice") (some (verifierOf sample (ascii "secret") [1, 2, 3] 4096))).step1
        sample (ascii "n,,n=alice,r=nonce") (some [8]) = .ok (c, serverFirst) ∧
      c.step2 sample (ascii "c=biws,r=nonceCA==,p=AA==") ≠ .error .sliceOutOfRange :=
  ⟨_, _, started, (step2_returns_iff sample started _).mpr (by decide)⟩

end Panics

section Replays

variable {P : Primitives} {c c' : SCRAMServerConv} {v : SCRAMVerifier} {first final signed raw raw' : Text}

/-- The server's side of a conversation. -/
def answer (P : Primitives) (c : SCRAMServerConv) (first raw final : Text) : Except ScramError Text := do
  let (c, _) ← c.step1 P first (some raw)
  c.step2 P final

/-- Who repeats the messages of a client that was let in is turned away, since the server's part of the nonce is new. -/
theorem replay_refused (h : answer P c first raw final = .ok signed) (hraw : raw ≠ raw') (hv : c'.verifier = some v) :
    answer P c' first raw' final = .error .nonceMismatch := by
  obtain ⟨_, hfirst, h⟩ := exists_of_bind_ok h
  obtain ⟨_, -, hfirst⟩ := exists_of_bind_ok hfirst
  obtain ⟨bare, hbare, hfirst⟩ := exists_of_bind_ok hfirst
  obtain ⟨attrs, hattrs, hfirst⟩ := exists_of_bind_ok hfirst
  obtain ⟨clientNonce, hclient, hfirst⟩ := exists_of_bind_ok hfirst
  cases hfirst
  obtain ⟨_, -, h⟩ := exists_of_bind_ok h
  obtain ⟨parts, hparts, h⟩ := exists_of_bind_ok h
  obtain ⟨binding, hbinding, h⟩ := exists_of_bind_ok h
  obtain ⟨nonce, hnonce, h⟩ := exists_of_bind_ok h
  obtain ⟨proof, hproof, h⟩ := exists_of_bind_ok h
  obtain ⟨_, hbound, h⟩ := exists_of_bind_ok h
  obtain ⟨_, hsame, -⟩ := exists_of_bind_ok h
  have hne : (nonce == clientNonce ++ P.encode raw') = false := by
    rw [beq_eq_false_iff_ne]
    rintro rfl
    have hencode : P.encode raw' ≠ P.encode raw := fun heq ↦
      hraw (Option.some.inj ((P.decode_encode raw).symm.trans (heq ▸ P.decode_encode raw')))
    rw [beq_false_of_ne (mt List.append_cancel_left hencode)] at hsame
    cases hsame
  simp only [answer, SCRAMServerConv.step1, SCRAMServerConv.step2, hv, hbare, hattrs, hclient, hparts, hbinding, hnonce,
    hproof, hbound, hne, need_some, check_false, ok_bind, error_bind, pure, Except.pure]

theorem replay_refused_alice :
    let c := newSCRAMServer (ascii "alice") (some (verifierOf sample (ascii "secret") [1, 2, 3] 4096))
    ∃ final signed, answer sample c (ascii "n,,n=alice,r=nonce") [8] final = .ok signed ∧
      answer sample c (ascii "n,,n=alice,r=nonce") [9] final = .error .nonceMismatch := by
  intro c
  obtain ⟨signed, h⟩ : ∃ signed, answer sample c (ascii "n,,n=alice,r=nonce") [8] (honestFinal sample (ascii "secret")
      [1, 2, 3] 4096 (ascii "n,,") (ascii "n=alice,r=nonce") (ascii "r=nonceCA==,s=AQID,i=4096") (ascii "nonceCA==")) =
        .ok signed := ⟨_, rfl⟩
  exact ⟨_, signed, h, replay_refused h (by decide) rfl⟩

end Replays

end PgRouter.Auth.Markers
