import PgRouter.Wire.Exactness

namespace PgRouter.Wire.Safety

open Library.Reads Library.Reads.Reader Library.Slices Framing Splice Forwarding Exactness

section

variable {σ : Type} [Reader σ UInt8]

def Returns (o : Outcome σ) : Prop := ∃ res err dst src, o = .returned res err dst src

def Ends (r : Round σ) : Prop := ∃ res err dst src, r = .done (.returned res err dst src)

omit [Reader σ UInt8] in
theorem finish_returns (dst : Writer UInt8) (src : σ) (store : List UInt8) (woff : ℕ)
    (res : RawForwardResult) : Returns (finish dst src store woff res) := ⟨_, _, _, _, rfl⟩

variable (len : ℕ) (dst : Writer UInt8) (src : σ) (store : List UInt8) (woff : ℕ) (tag : UInt8) (bodyLen : ℕ)
  (res : RawForwardResult)

theorem forwardFitting_short (h : (pending src).length < bodyLen) :
    Ends (forwardFitting dst src store woff tag bodyLen res) := by
  have hsome := readFull_some src bodyLen h
  rw [forwardFitting, readBody_eq]
  rcases hr : readFull src bodyLen with ⟨got, _ | e, src'⟩
  · rw [hr] at hsome
    exact absurd rfl hsome
  · exact ⟨_, _, _, _, rfl⟩

theorem forwardGiant_cases :
    Ends (forwardGiant dst src store woff tag bodyLen res) ∨
      bodyLen ≤ (pending src).length ∧ ∃ dst' src', pending src' = (pending src).drop bodyLen ∧
        forwardGiant dst src store woff tag bodyLen res = .message tag bodyLen dst' src' store 0 := by
  unfold forwardGiant
  rcases writeBuffered dst store woff with ⟨_ | e, dst₁⟩
  · rcases hw : dst₁.write (store.take headerSize) with ⟨_ | e, dst₂⟩
    · have hnone := copyN_none dst₂ src bodyLen
      simp only [hw, copyBody_eq]
      rcases hc : copyN dst₂ src bodyLen with ⟨_ | e, dst₃, src'⟩
      · rw [hc] at hnone
        obtain ⟨hle, hrest⟩ := hnone rfl
        exact Or.inr ⟨hle, dst₃, src', hrest, rfl⟩
      · exact Or.inl ⟨_, _, _, _, rfl⟩
    · simp only [hw]
      exact Or.inl ⟨_, _, _, _, rfl⟩
  · exact Or.inl ⟨_, _, _, _, rfl⟩

theorem slice_header (bs : List UInt8) (woff : ℕ) (h5 : 5 ≤ bs.length) (hs : woff ≤ store.length) :
    slice (overwrite store woff (bs.take 5)) (woff + 1) (woff + 5) = (bs.drop 1).take 4 := by
  match bs with
  | [] => simp at h5
  | b :: bs =>
    have hl : (bs.take 4).length = 4 := by
      rw [List.length_take]
      simp only [List.length_cons] at h5
      omega
    have h := slice_overwrite_tail store woff b (bs.take 4) hs
    rw [hl] at h
    exact h

theorem takeMessage_none (hp : parseMessage (pending src) = none) (hs : woff + 5 ≤ store.length) (hw : woff < len) :
    Ends (takeMessage len dst src store woff res) := by
  unfold takeMessage
  rw [if_neg (by rw [headerSize]; omega)]
  by_cases h5 : (pending src).length < headerSize
  · have hsome := readFull_some src headerSize h5
    rcases hr : readFull src headerSize with ⟨got, _ | e, src'⟩
    · rw [hr] at hsome
      exact absurd rfl hsome
    · cases e <;> exact ⟨_, _, _, _, rfl⟩
  · rw [headerSize] at h5
    obtain ⟨src₁, hr, hp₁⟩ := readFull_eq src 5 (by omega)
    rw [headerSize, hr]
    simp only [slice_header store (pending src) woff (by omega) (by omega)]
    rw [if_neg (by omega)]
    have hlen := congrArg List.length hp₁
    rw [List.length_drop] at hlen
    have hbad := parseMessage_none hp (by omega)
    split
    · exact ⟨_, _, _, _, rfl⟩
    · split
      · exact forwardFitting_short _ _ _ _ _ _ _ (by omega)
      · refine (forwardGiant_cases _ _ _ _ _ _ _).resolve_right ?_
        rintro ⟨hle, -⟩
        omega

theorem takeMessage_some {len : ℕ} (acc : List Message) (dst : Writer UInt8) (src : σ)
    (store : List UInt8) (res : RawForwardResult) {m : Message} {tail : List UInt8}
    (hp : pending src = m.encode ++ tail) (hlen : len ≤ store.length)
    (hs : sizeAll acc + 5 ≤ store.length) (hw : sizeAll acc < len) :
    Ends (takeMessage len dst src store (sizeAll acc) res) ∨
      ∃ dst' src' store', pending src' = tail ∧ store'.length = store.length ∧
        takeMessage len dst src store (sizeAll acc) res =
          .message m.tag m.body.length dst' src' store' (sizeAll (waiting len acc m)) := by
  by_cases hfit : sizeAll acc + m.size ≤ len
  · obtain ⟨src', hp', ht⟩ := takeMessage_fits len dst src store (sizeAll acc) res m tail hp hs hfit
    have hwait : waiting len acc m = acc ++ [m] := if_pos hfit
    refine Or.inr ⟨dst, src', _, hp', overwrite_length store (sizeAll acc) m.encode ?_, ?_⟩
    · rw [encode_length]
      omega
    · simp only [ht, hwait, sizeAll_append, sizeAll_cons, sizeAll_nil, Nat.add_zero]
  · obtain ⟨src₁, hp₁, ht⟩ :=
      takeMessage_header len dst src store (sizeAll acc) res m tail hp hs hw
    have hwait : waiting len acc m = [] := if_neg hfit
    rw [ht, if_neg hfit, hwait, sizeAll_nil]
    refine (forwardGiant_cases _ _ _ _ _ _ _).imp_right ?_
    rintro ⟨-, dst', src', hp', hg⟩
    rw [hp₁, List.drop_left] at hp'
    exact ⟨dst', src', _, hp',
      overwrite_length store (sizeAll acc) m.header (by rw [header_length]; omega), hg⟩

omit [Reader σ UInt8] in
theorem readyForQuery_returns {len : ℕ} {acc : List Message} {m : Message} (dst : Writer UInt8)
    (src : σ) (store : List UInt8) (res : RawForwardResult)
    (h : ¬ (len < sizeAll acc + m.size ∧ m.body ≠ [])) :
    Returns (readyForQuery len dst src store (sizeAll (waiting len acc m)) m.body.length res) := by
  unfold readyForQuery
  split
  · rename_i hbody
    have hfit : sizeAll acc + m.size ≤ len := by
      by_contra hc
      exact h ⟨by omega, List.length_pos_iff.mp hbody⟩
    have hwait : waiting len acc m = acc ++ [m] := if_pos hfit
    have hsize : m.size = 5 + m.body.length := rfl
    have hsum : sizeAll (acc ++ [m]) = sizeAll acc + m.size := by simp
    rw [hwait, if_neg (by omega)]
    exact finish_returns _ _ _ _ _
  · exact finish_returns _ _ _ _ _

theorem forwardLoop_returns (n fuel : ℕ) (dst : Writer UInt8) (src : σ) (store : List UInt8) (acc : List Message)
    (res : RawForwardResult) (hlen : len = store.length) (hn : (pending src).length ≤ n) (hfuel : n < fuel)
    (ho : ¬ Overruns len len acc (framesFuel n (pending src))) :
    Returns (forwardLoop len fuel dst src store (sizeAll acc) res) := by
  induction fuel generalizing n dst src store acc res with
  | zero => omega
  | succ fuel ih =>
    cases hparse : parseMessage (pending src) with
    | none =>
      have hframes : framesFuel n (pending src) = [] := by
        cases n with
        | zero => rfl
        | succ n => rw [framesFuel, hparse]
      rw [hframes] at ho
      simp only [Overruns, headerSize] at ho
      obtain ⟨r, e, dst', src', ht⟩ :=
        takeMessage_none len dst src store (sizeAll acc) res hparse (by omega) (by omega)
      rw [forwardLoop, ht]
      exact ⟨r, e, dst', src', rfl⟩
    | some p =>
      obtain ⟨m, tail⟩ := p
      have hsum := parseMessage_length hparse
      have hsize : m.size = 5 + m.body.length := rfl
      obtain ⟨n, rfl⟩ := Nat.exists_eq_succ_of_ne_zero (show n ≠ 0 by omega)
      rw [framesFuel, hparse] at ho
      simp only [Overruns, headerSize, not_or] at ho
      obtain ⟨hcap, hw, hrest⟩ := ho
      rcases takeMessage_some acc dst src store res (parseMessage_some hparse) hlen.le
        (by omega) (by omega) with ⟨r, e, dst', src', ht⟩ | ⟨dst', src', store', hp', hlen', ht⟩
      · rw [forwardLoop, ht]
        exact ⟨r, e, dst', src', rfl⟩
      · simp only [forwardLoop, ht]
        split
        · rename_i hz
          rw [if_pos hz] at hrest
          exact readyForQuery_returns _ _ _ _ hrest
        · rename_i hz
          rw [if_neg hz] at hrest
          split
          · exact finish_returns _ _ _ _ _
          · rename_i hg
            refine ih n dst' src' store' _ _ (hlen.trans hlen'.symm) (by rw [hp']; omega) (by omega) ?_
            rw [hp']
            exact fun h ↦ hrest ⟨hg, h⟩

/-- No slice or index expression is out of range, whatever the sink does, exactly when the
messages at the front of the stream never leave less than a header's room. -/
theorem rawForwardAll_ne_panicked_iff (src : σ) (store : List UInt8) :
    (∀ dst, rawForwardAll dst src (Buffer.full store) ≠ .panicked) ↔
      ¬ Overruns (workBuffer (Buffer.full store)).len (workBuffer (Buffer.full store)).len []
        (frames (pending src)) := by
  have hfull : (workBuffer (Buffer.full store)).len =
      (workBuffer (Buffer.full store)).store.length := by
    unfold workBuffer
    split <;> rfl
  constructor
  · intro h ho
    obtain ⟨tail, ht⟩ := framesFuel_append (pending src).length (pending src)
    rw [hfull] at ho
    nth_rewrite 1 [← hfull] at ho
    exact h ⟨[], none⟩ (rawForwardAll_panicked [] src (Buffer.full store) _ tail ht ho)
  · intro ho dst hpanic
    obtain ⟨r, e, dst', src', hr⟩ := forwardLoop_returns (workBuffer (Buffer.full store)).len
      (pending src).length ((pending src).length + 1) dst src _ [] {} hfull le_rfl (by omega) ho
    rw [rawForwardAll, ← sizeAll_nil, hr] at hpanic
    cases hpanic

end

theorem rawForwardAll_dataRow_panics (n : ℕ) (hn : n + 4 < 2 ^ 32) (hfits : n + 5 ≤ 8192)
    (hover : 8192 < n + 10) :
    rawForwardAll ⟨[], none⟩ (atOnce (dataRow n hn) []) spliceBuf = .panicked := by
  have hwork : workBuffer spliceBuf = spliceBuf := if_neg (by rw [spliceBuf_len]; decide)
  refine rawForwardAll_panicked [] _ spliceBuf [dataRow n hn] [] (atOnce_pending _ _) ?_
  have hfirst : waiting 8192 [] (dataRow n hn) = [dataRow n hn] :=
    if_pos (by rw [sizeAll_nil, dataRow_size]; omega)
  rw [hwork, spliceBuf_len, spliceBuf_cap]
  simp only [Overruns, hfirst, sizeAll_cons, sizeAll_nil, dataRow_size, dataRow_tag, headerSize]
  right
  right
  rw [if_neg (by decide)]
  exact ⟨by decide, by omega⟩

/-- A row that leaves three bytes free: the next header is read past the end of the buffer. -/
theorem rawForwardAll_panics :
    rawForwardAll ⟨[], none⟩ (atOnce (dataRow 8184 (by decide)) []) spliceBuf = .panicked :=
  rawForwardAll_dataRow_panics 8184 (by decide) (by decide) (by decide)

end PgRouter.Wire.Safety
