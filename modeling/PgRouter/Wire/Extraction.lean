import PgRouter.Client.Protocol
import PgRouter.Library.Slices
import PgRouter.Wire.Framing

namespace PgRouter.Wire.Extraction

open Client.Protocol Framing Library.Slices

/-- The slice expression `b[i:j]`; none is one that is out of range. -/
def slice? (b : Text) (i j : ℕ) : Option Text := if i ≤ j ∧ j ≤ b.length then some (slice b i j) else none

/-- A loop over `body[i]` that stops at the first zero, with `n` bytes to go: where it stopped, or none at the end. -/
def zeroFrom (body : Text) : ℕ → ℕ → Option (Option ℕ)
  | 0, _ => some none
  | n + 1, i => body[i]?.bind fun b ↦ if b = 0 then some (some i) else zeroFrom body n (i + 1)

/-- `binary.BigEndian.Uint16` on a slice that may be too short. -/
def uint16? : Text → Option ℕ
  | a :: b :: _ => some (a.toNat * 2 ^ 8 + b.toNat)
  | _ => none

def uint32? : Text → Option UInt32
  | a :: b :: c :: d :: _ => some (UInt32.ofNat (uint32 [a, b, c, d]))
  | _ => none

def extractQuerySQL (raw : Text) : Option Text :=
  if raw.length < headerSize + 1 then some []
  else do
    let body ← slice? raw headerSize raw.length
    match ← zeroFrom body body.length 0 with
    | some i => slice? body 0 i
    | none => return body

def extractParseFields (raw : Text) : Option (Text × Text) :=
  if raw.length < headerSize + 2 then some ([], [])
  else do
    let body ← slice? raw headerSize raw.length
    match ← zeroFrom body body.length 0 with
    | none => return (body, [])
    | some nameEnd =>
      let name ← slice? body 0 nameEnd
      let queryStart := nameEnd + 1
      match ← zeroFrom body (body.length - queryStart) queryStart with
      | none =>
        if queryStart < body.length then
          let query ← slice? body queryStart body.length
          return (name, query)
        else return (name, [])
      | some queryEnd =>
        let query ← slice? body queryStart queryEnd
        return (name, query)

def readOIDs (body : Text) : ℕ → ℕ → Option (List UInt32)
  | 0, _ => some []
  | n + 1, i => do
    let oid ← uint32? (← slice? body i body.length)
    let oids ← readOIDs body n (i + 4)
    return oid :: oids

/-- `ExtractParseParamOIDs`; a message that is too short has none. -/
def extractParseParamOIDs (raw : Text) : Option (Option (List UInt32)) :=
  if raw.length < headerSize + 2 then some none
  else do
    let body ← slice? raw headerSize raw.length
    match ← zeroFrom body body.length 0 with
    | none => return none
    | some i =>
      match ← zeroFrom body (body.length - (i + 1)) (i + 1) with
      | none => return none
      | some i =>
        let i := i + 1
        if i + 2 > body.length then return none
        else
          let numOIDs ← uint16? (← slice? body i body.length)
          let i := i + 2
          if i + numOIDs * 4 > body.length then return none
          else
            let oids ← readOIDs body numOIDs i
            return some oids

def putUint16 (n : ℕ) : Text := [UInt8.ofNat (n / 2 ^ 8), UInt8.ofNat n]

def frame (tag : UInt8) (body : Text) : Text := tag :: (putUint32 (body.length + 4) ++ body)

def encodeQuery (sql : Text) : Text := frame 0x51 (sql ++ [0])

def encodeOIDs (oids : List UInt32) : Text := oids.flatMap fun oid ↦ putUint32 oid.toNat

def parseBody (name query : Text) (oids : List UInt32) : Text :=
  name ++ 0 :: (query ++ 0 :: (putUint16 oids.length ++ encodeOIDs oids))

def encodeParse (name query : Text) (oids : List UInt32) : Text := frame 0x50 (parseBody name query oids)

section Ranges

variable {body : Text} {i n : ℕ}

theorem slice?_of_le {j : ℕ} (hi : i ≤ j) (hj : j ≤ body.length) : slice? body i j = some (slice body i j) :=
  if_pos ⟨hi, hj⟩

theorem slice?_frame (tag : UInt8) (body : Text) :
    slice? (frame tag body) headerSize (frame tag body).length = some body := by
  have hlength : (frame tag body).length = headerSize + body.length := by
    simp only [frame, putUint32, headerSize, List.length_cons, List.length_append, List.length_nil]
    omega
  rw [slice?_of_le (by omega) (Nat.le_refl _), slice, List.take_length]
  rfl

theorem slice?_append (start mid rest : Text) :
    slice? (start ++ (mid ++ rest)) start.length (start.length + mid.length) = some mid := by
  rw [slice?_of_le (Nat.le_add_right _ _) (by simp), slice, ← List.append_assoc, ← List.length_append,
    List.take_left, List.drop_left]

theorem slice?_drop (start rest : Text) : slice? (start ++ rest) start.length (start ++ rest).length = some rest := by
  rw [slice?_of_le (by simp) (Nat.le_refl _), slice, List.take_length, List.drop_left]

/-- The loop reads within the body, and so does what it finds. -/
theorem zeroFrom_in_range (h : i + n = body.length) :
    ∃ found, zeroFrom body n i = some found ∧ ∀ k ∈ found, i ≤ k ∧ k < body.length := by
  induction n generalizing i with
  | zero => exact ⟨none, rfl, fun k hk ↦ (by cases hk)⟩
  | succ n ih =>
    have hlt : i < body.length := by omega
    rw [zeroFrom, List.getElem?_eq_getElem hlt, Option.bind_some]
    split
    · refine ⟨some i, rfl, ?_⟩
      intro k hk
      cases hk
      exact ⟨Nat.le_refl _, hlt⟩
    · have hrest : i + 1 + n = body.length := by omega
      obtain ⟨found, hfound, hrange⟩ := ih hrest
      refine ⟨found, hfound, ?_⟩
      intro k hk
      have hk := hrange k hk
      omega

theorem zeroFrom_append {start text rest : Text} (h : 0 ∉ text) (hbody : body = start ++ (text ++ 0 :: rest)) :
    zeroFrom body (body.length - start.length) start.length = some (some (start.length + text.length)) := by
  induction text generalizing start with
  | nil =>
    subst hbody
    simp [zeroFrom]
  | cons c text ih =>
    rw [List.mem_cons, not_or] at h
    have hget : body[start.length]? = some c := by simp [hbody]
    have hlength : body.length - start.length = body.length - (start.length + 1) + 1 := by
      have hlt := (List.getElem?_eq_some_iff.mp hget).1
      omega
    have hstart : (start ++ [c]).length = start.length + 1 := List.length_append
    have hstep := ih h.2 (hbody.trans (List.append_cons start c (text ++ 0 :: rest)))
    rw [hstart] at hstep
    rw [hlength, zeroFrom, hget, Option.bind_some, if_neg (Ne.symm h.1), hstep, List.length_cons, Nat.add_assoc,
      Nat.add_comm 1]

theorem zeroFrom_front {text : Text} (h : 0 ∉ text) (rest : Text) :
    zeroFrom (text ++ 0 :: rest) (text ++ 0 :: rest).length 0 = some (some text.length) := by
  have hzero := @zeroFrom_append _ [] text rest h rfl
  rwa [List.nil_append, List.length_nil, Nat.sub_zero, Nat.zero_add] at hzero

theorem uint16?_in_range (h : 2 ≤ body.length) : ∃ k, uint16? body = some k := by
  match body, h with
  | a :: b :: _, _ => exact ⟨_, rfl⟩

theorem uint16?_putUint16 {k : ℕ} (h : k ≤ 65535) (rest : Text) : uint16? (putUint16 k ++ rest) = some k := by
  have hk : uint16? (putUint16 k ++ rest) = some ((UInt8.ofNat (k / 2 ^ 8)).toNat * 2 ^ 8 + (UInt8.ofNat k).toNat) :=
    rfl
  rw [hk, UInt8.toNat_ofNat', UInt8.toNat_ofNat']
  congr 1
  omega

theorem uint32?_putUint32 (oid : UInt32) (rest : Text) : uint32? (putUint32 oid.toNat ++ rest) = some oid := by
  have hoid : uint32? (putUint32 oid.toNat ++ rest) = some (UInt32.ofNat (uint32 (putUint32 oid.toNat))) := rfl
  rw [hoid, uint32_putUint32 _ oid.toNat_lt, UInt32.ofNat_toNat]

theorem uint32?_in_range (h : 4 ≤ body.length) : ∃ oid, uint32? body = some oid := by
  rcases body with _ | ⟨a, _ | ⟨b, _ | ⟨c, _ | ⟨d, rest⟩⟩⟩⟩
  all_goals first | exact ⟨_, rfl⟩ | simp at h

theorem readOIDs_in_range (h : i + n * 4 ≤ body.length) : ∃ oids, readOIDs body n i = some oids := by
  induction n generalizing i with
  | zero => exact ⟨[], rfl⟩
  | succ n ih =>
    have hrest : i + 4 + n * 4 ≤ body.length := by omega
    obtain ⟨oids, hoids⟩ := ih hrest
    have hslice : slice? body i body.length = some (slice body i body.length) := slice?_of_le (by omega) (Nat.le_refl _)
    have hlength : 4 ≤ (slice body i body.length).length := by
      rw [slice, List.take_length, List.length_drop]
      omega
    obtain ⟨oid, hoid⟩ := uint32?_in_range hlength
    exact ⟨oid :: oids, by simp [readOIDs, hslice, hoid, hoids]⟩

theorem length_encodeOIDs (oids : List UInt32) : (encodeOIDs oids).length = oids.length * 4 := by
  induction oids with
  | nil => rfl
  | cons oid oids ih =>
    have hcons : (encodeOIDs (oid :: oids)).length = (encodeOIDs oids).length + 4 := by
      rw [encodeOIDs, List.flatMap_cons, List.length_append, Nat.add_comm]
      rfl
    rw [hcons, ih, List.length_cons, Nat.succ_mul]

theorem readOIDs_encodeOIDs (start : Text) (oids : List UInt32) :
    readOIDs (start ++ encodeOIDs oids) oids.length start.length = some oids := by
  induction oids generalizing start with
  | nil => rfl
  | cons oid oids ih =>
    have hcons : start ++ encodeOIDs (oid :: oids) = start ++ putUint32 oid.toNat ++ encodeOIDs oids := by
      simp [encodeOIDs]
    have hrest := ih (start ++ putUint32 oid.toNat)
    have hlength : (start ++ putUint32 oid.toNat).length = start.length + 4 := by
      rw [List.length_append]
      rfl
    rw [hlength, ← hcons] at hrest
    have hslice := slice?_drop start (encodeOIDs (oid :: oids))
    have hfirst : uint32? (encodeOIDs (oid :: oids)) = some oid := uint32?_putUint32 oid (encodeOIDs oids)
    rw [List.length_cons, readOIDs, hslice]
    simp [hfirst, hrest]

end Ranges

section RoundTrip

variable {name query : Text}

theorem extractQuerySQL_encodeQuery {sql : Text} (h : 0 ∉ sql) : extractQuerySQL (encodeQuery sql) = some sql := by
  have hlength : ¬ (encodeQuery sql).length < headerSize + 1 := by
    simp [encodeQuery, frame, putUint32, headerSize]
  have hzero := zeroFrom_front h []
  have hslice := slice?_append [] sql [0]
  rw [List.nil_append, List.length_nil, Nat.zero_add] at hslice
  rw [extractQuerySQL, if_neg hlength, encodeQuery, slice?_frame]
  simp only [Option.bind_eq_bind, Option.bind_some, hzero, hslice]

theorem parseBody_length (oids : List UInt32) : ¬ (encodeParse name query oids).length < headerSize + 2 := by
  simp [encodeParse, frame, parseBody, putUint32, headerSize]
  omega

/-- Where the loops of both extractors stop in a Parse message. -/
theorem zeros_parseBody (hname : 0 ∉ name) (hquery : 0 ∉ query) (oids : List UInt32) :
    zeroFrom (parseBody name query oids) (parseBody name query oids).length 0 = some (some name.length) ∧
    zeroFrom (parseBody name query oids) ((parseBody name query oids).length - (name.length + 1)) (name.length + 1) =
      some (some (name.length + 1 + query.length)) := by
  have hfirst := zeroFrom_front hname (query ++ 0 :: (putUint16 oids.length ++ encodeOIDs oids))
  have hstart : (name ++ [0]).length = name.length + 1 := List.length_append
  have hsecond := zeroFrom_append hquery
    (List.append_cons name 0 (query ++ 0 :: (putUint16 oids.length ++ encodeOIDs oids)))
  rw [hstart, ← parseBody] at hsecond
  exact ⟨hfirst, hsecond⟩

theorem extractParseFields_encodeParse (hname : 0 ∉ name) (hquery : 0 ∉ query) (oids : List UInt32) :
    extractParseFields (encodeParse name query oids) = some (name, query) := by
  obtain ⟨hfirst, hsecond⟩ := zeros_parseBody hname hquery oids
  have hslice := slice?_append [] name (0 :: (query ++ 0 :: (putUint16 oids.length ++ encodeOIDs oids)))
  have hslice' := slice?_append (name ++ [0]) query (0 :: (putUint16 oids.length ++ encodeOIDs oids))
  have hbody : name ++ [0] ++ (query ++ 0 :: (putUint16 oids.length ++ encodeOIDs oids)) =
      parseBody name query oids := by
    simp [parseBody]
  have hstart : (name ++ [0]).length = name.length + 1 := List.length_append
  rw [hbody, hstart] at hslice'
  rw [List.nil_append, List.length_nil, Nat.zero_add, ← parseBody] at hslice
  rw [extractParseFields, if_neg (parseBody_length oids), encodeParse, slice?_frame]
  simp only [Option.bind_eq_bind, Option.bind_some, hfirst, hsecond, hslice, hslice', Option.pure_def]

theorem extractParseParamOIDs_encodeParse (hname : 0 ∉ name) (hquery : 0 ∉ query) {oids : List UInt32}
    (hoids : oids.length ≤ 65535) : extractParseParamOIDs (encodeParse name query oids) = some (some oids) := by
  obtain ⟨hfirst, hsecond⟩ := zeros_parseBody hname hquery oids
  have hbody : parseBody name query oids = name ++ 0 :: query ++ [0] ++ (putUint16 oids.length ++ encodeOIDs oids) := by
    simp [parseBody]
  have hstart : (name ++ 0 :: query ++ [0]).length = name.length + 1 + query.length + 1 := by
    simp
    omega
  have hslice := slice?_drop (name ++ 0 :: query ++ [0]) (putUint16 oids.length ++ encodeOIDs oids)
  have hread := readOIDs_encodeOIDs (name ++ 0 :: query ++ [0] ++ putUint16 oids.length) oids
  have hend : (name ++ 0 :: query ++ [0] ++ putUint16 oids.length).length = name.length + 1 + query.length + 1 + 2 := by
    rw [List.length_append, hstart]
    rfl
  have hlength : (parseBody name query oids).length = name.length + 1 + query.length + 1 + 2 + oids.length * 4 := by
    rw [hbody, ← List.append_assoc, List.length_append, hend, length_encodeOIDs]
  rw [← hbody, hstart] at hslice
  rw [hend, List.append_assoc _ (putUint16 oids.length), ← hbody] at hread
  rw [extractParseParamOIDs, if_neg (parseBody_length oids), encodeParse, slice?_frame]
  have hroom : ¬ name.length + 1 + query.length + 1 + 2 > (parseBody name query oids).length := by omega
  have hroom' : ¬ name.length + 1 + query.length + 1 + 2 + oids.length * 4 > (parseBody name query oids).length := by
    omega
  simp only [Option.bind_eq_bind, Option.bind_some, hfirst, hsecond, hslice, uint16?_putUint16 hoids, hread,
    if_neg hroom, if_neg hroom', Option.pure_def]

end RoundTrip

section Totality

variable (raw : Text)

/-- The start of every extractor: it takes the body and looks for the first zero. -/
theorem body_in_range {α : Type} {f : Text → Option ℕ → Option α} (hlength : headerSize ≤ raw.length)
    (hf : ∀ body found, (∀ k ∈ found, k < body.length) → ∃ a, f body found = some a) :
    ∃ a, ((slice? raw headerSize raw.length).bind fun body ↦ (zeroFrom body body.length 0).bind (f body)) = some a := by
  rw [slice?_of_le hlength (Nat.le_refl _), Option.bind_some]
  obtain ⟨found, hfound, hrange⟩ := @zeroFrom_in_range (slice raw headerSize raw.length) 0 _ (Nat.zero_add _)
  rw [hfound]
  exact hf _ found fun k hk ↦ (hrange k hk).2

theorem extractQuerySQL_in_range : ∃ sql, extractQuerySQL raw = some sql := by
  rw [extractQuerySQL]
  split
  · exact ⟨[], rfl⟩
  case isFalse hlength =>
    refine body_in_range raw (by omega) ?_
    intro body found hrange
    cases found with
    | none => exact ⟨body, rfl⟩
    | some i => exact ⟨_, slice?_of_le (Nat.zero_le i) (Nat.le_of_lt (hrange i rfl))⟩

theorem extractParseFields_in_range : ∃ fields, extractParseFields raw = some fields := by
  rw [extractParseFields]
  split
  · exact ⟨_, rfl⟩
  case isFalse hlength =>
    refine body_in_range raw (by omega) ?_
    intro body found hrange
    cases found with
    | none => exact ⟨_, rfl⟩
    | some nameEnd =>
      have hend := hrange nameEnd rfl
      obtain ⟨found, hfound, hrange⟩ :=
        @zeroFrom_in_range body (nameEnd + 1) (body.length - (nameEnd + 1)) (by omega)
      simp only [slice?_of_le (Nat.zero_le nameEnd) (Nat.le_of_lt hend), Option.bind_eq_bind, Option.bind_some, hfound]
      cases found with
      | none =>
        simp only
        split
        · simp only [slice?_of_le (Nat.succ_le_of_lt hend) (Nat.le_refl _), Option.bind_some]
          exact ⟨_, rfl⟩
        · exact ⟨_, rfl⟩
      | some queryEnd =>
        obtain ⟨hle, hlt⟩ := hrange queryEnd rfl
        simp only [slice?_of_le hle (Nat.le_of_lt hlt), Option.bind_some]
        exact ⟨_, rfl⟩

theorem extractParseParamOIDs_in_range : ∃ oids, extractParseParamOIDs raw = some oids := by
  rw [extractParseParamOIDs]
  split
  · exact ⟨_, rfl⟩
  case isFalse hlength =>
    refine body_in_range raw (by omega) ?_
    intro body found hrange
    cases found with
    | none => exact ⟨_, rfl⟩
    | some i =>
      have hi := hrange i rfl
      obtain ⟨found, hfound, hrange⟩ := @zeroFrom_in_range body (i + 1) (body.length - (i + 1)) (by omega)
      simp only [hfound, Option.bind_eq_bind, Option.bind_some]
      cases found with
      | none => exact ⟨_, rfl⟩
      | some j =>
        simp only
        split
        · exact ⟨_, rfl⟩
        case isFalse hcount =>
          have hslice : slice? body (j + 1) body.length = some (body.drop (j + 1)) := by
            rw [slice?_of_le (by omega) (Nat.le_refl _), slice, List.take_length]
          have hleft : 2 ≤ (body.drop (j + 1)).length := by
            rw [List.length_drop]
            omega
          obtain ⟨numOIDs, hnum⟩ := uint16?_in_range hleft
          simp only [hslice, hnum, Option.bind_some]
          split
          · exact ⟨_, rfl⟩
          case isFalse hroom =>
            obtain ⟨oids, hoids⟩ := readOIDs_in_range (Nat.le_of_not_lt hroom)
            simp only [hoids, Option.bind_some]
            exact ⟨_, rfl⟩

end Totality

/-- The extractors read back what a Query or Parse message was written from, and no bytes make them read
out of range. -/
theorem extraction_inverts :
    (∀ name query oids, 0 ∉ name → 0 ∉ query → oids.length ≤ 65535 →
      extractParseFields (encodeParse name query oids) = some (name, query) ∧
      extractParseParamOIDs (encodeParse name query oids) = some (some oids)) ∧
    (∀ sql, 0 ∉ sql → extractQuerySQL (encodeQuery sql) = some sql) ∧
    ∀ raw, (∃ sql, extractQuerySQL raw = some sql) ∧ (∃ fields, extractParseFields raw = some fields) ∧
      ∃ oids, extractParseParamOIDs raw = some oids := by
  refine ⟨?_, ?_, ?_⟩
  · intro name query oids hname hquery hoids
    exact ⟨extractParseFields_encodeParse hname hquery oids, extractParseParamOIDs_encodeParse hname hquery hoids⟩
  · intro sql hsql
    exact extractQuerySQL_encodeQuery hsql
  · intro raw
    exact ⟨extractQuerySQL_in_range raw, extractParseFields_in_range raw, extractParseParamOIDs_in_range raw⟩

theorem extraction_inverts_s1 :
    extractParseFields (encodeParse (ascii "s1") (ascii "SELECT $1") [23]) = some (ascii "s1", ascii "SELECT $1") ∧
      extractParseParamOIDs (encodeParse (ascii "s1") (ascii "SELECT $1") [23]) = some (some [23]) :=
  extraction_inverts.1 _ _ _ (by decide) (by decide) (by decide)

end PgRouter.Wire.Extraction
