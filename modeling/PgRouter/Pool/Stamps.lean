import PgRouter.Pool.Ownership

namespace PgRouter.Pool.Stamps

open Library.Accounts Model Firing Weights Channels Ownership

/-- What `f` makes of the connections that a call has wrapped in its hands or in the channel of its waiter. -/
def carried (f : PooledConn → ℕ) : Weight ℕ where
  pc
    | .countIdle pc | .cancelLoadClosed (some pc) | .cancelReadIdle pc | .cancelPush pc _
    | .popWaiter pc | .handOff pc _ | .releaseReadIdle pc | .releasePush pc _ => f pc
    | .closeReadIdle idle _ | .closePop idle _ _ | .closeTakeWaiters idle _ => total f idle
    | _ => 0
  op _ := 0
  boxed := f
  straight := rfl
  awake := rfl

def pooled (f : PooledConn → ℕ) (s : State) : ℕ := stock f s.shared + total (carried f).call s.calls

def fresh (conn : ℕ) (now : ℤ) : PooledConn := ⟨conn, (Lifecycle.init now).markIdle now⟩

/-- The connection that `Release`, or `EnsureWarm` after its dial, wraps anew when a call goes on. -/
def wraps (s : Shared) : Point → Option ℕ
  | .at (.releaseLoadClosed conn) => if s.closed then none else some conn
  | _ => none

section Steps

variable {s : Shared} {waiterOf : ℕ → Waiter} {i : ℕ} {now : ℤ} {own : Waiter} {c : Choice} {o : Outcome}
  (f : PooledConn → ℕ) (calls : List Call)

theorem ofEffect_send_le (w : ℕ) (pc : PooledConn) : (carried f).ofEffect calls (.send w pc) ≤ f pc := by
  simp only [Weight.ofEffect]
  repeat' split
  · exact le_rfl
  · exact Nat.zero_le _
  · exact Nat.zero_le _

theorem fire_carried {p : Point} (h : fire s waiterOf i now own c p = some o) :
    stock f o.shared + (carried f).outcome o + (carried f).ofEffect calls o.effect ≤
      stock f s + (carried f).point own p + ((wraps s p).elim 0 fun conn ↦ f (fresh conn now)) := by
  cases fired h with
  | @sends w pc =>
    have hsend := ofEffect_send_le f calls w pc
    simp [carried, listens, wraps] at hsend ⊢
    omega
  | @evicts t =>
    have hstock := stock_swept f s s.cfg.defaultPoolSize.toNat t
    simp [carried, listens, wraps]
    omega
  | @resizes size =>
    have hstock := stock_split f s size.toNat (excess s size)
    simp [carried, listens, wraps, total_map, Weight.call, -List.map_take]
    simp only [stock] at hstock ⊢
    omega
  | pops hq | closePops hq =>
    have hstock := stock_pop f hq
    simp [carried, listens, wraps]
    omega
  | releasePush hroom | cancelPush hroom => simp [carried, listens, wraps, stock_push f hroom]
  | wraps hclosed => simp [carried, listens, wraps, fresh, hclosed]
  | receives hch | finds hch => simp [carried, listens, wraps, hch]
  | _ => simp [carried, listens, stock, Shared.panic, wraps, Weight.call]

end Steps

section Runs

variable {s t : State} {e : Event} {pc : PooledConn}

def only (pc other : PooledConn) : ℕ := if other = pc then 1 else 0

/-- One of the idle channels, or a call, has the connection wrapped like this. -/
def Has (s : State) (pc : PooledConn) : Prop := 0 < pooled (only pc) s

theorem has_of_step (h : s.step e = some t) (hpc : Has t pc) :
    Has s pc ∨ ∃ i c now conn, e = .step i c now ∧ (pointOf s i).bind (wraps s.shared) = some conn ∧
      pc = fresh conn now := by
  unfold Has pooled at hpc ⊢
  obtain ⟨i, c, now, rfl, h⟩ | rfl | ⟨pc', hpc', rfl⟩ | ⟨conn, -, call, hcall, rfl⟩ := step_cases h
  · obtain ⟨call, p, todo, o, hcall, -, hpoint, hp, hfire, rfl⟩ := advance_cases h
    have htotal := (carried (only pc)).total_proceed hcall hpoint hfire
    have hlocal := fire_carried (only pc) s.calls hfire
    have hshared : (s.proceed i todo o).shared = o.shared := rfl
    rw [hshared] at hpc
    cases hwraps : wraps s.shared p with
    | none =>
      rw [hwraps, Option.elim_none] at hlocal
      left
      omega
    | some conn =>
      rw [hwraps, Option.elim_some] at hlocal
      by_cases hfresh : fresh conn now = pc
      · exact .inr ⟨i, c, now, conn, rfl, by rw [hp, Option.bind_some, hwraps], hfresh.symm⟩
      · have hzero : only pc (fresh conn now) = 0 := if_neg hfresh
        left
        omega
  · exact .inl hpc
  · have hzero : (carried (only pc)).call ⟨pc', [], {}⟩ = 0 := by
      cases pc' <;> first | rfl | cases hpc'
    left
    simpa [State.enter, hzero] using hpc
  · have hzero : (carried (only pc)).call call = 0 := by rcases hcall with rfl | rfl | rfl <;> rfl
    left
    simpa [State.enter, State.letGo, stock, hzero] using hpc

theorem total_le_count {κ : Type} {f : κ → ℕ} {g : κ → Multiset ℕ} {c : ℕ} (h : ∀ x, f x ≤ (g x).count c)
    (l : List κ) : total f l ≤ (total g l).count c := by
  induction l with
  | nil => exact Nat.zero_le _
  | cons x l ih =>
    rw [total_cons, total_cons, Multiset.count_add]
    exact Nat.add_le_add (h x) ih

theorem only_le_count (pc other : PooledConn) : only pc other ≤ (single other).count pc.conn := by
  unfold only
  split
  · simp [single, *]
  · exact Nat.zero_le _

theorem carried_le_count (pc : PooledConn) (call : Call) :
    (carried (only pc)).call call ≤ (owned.call call).count pc.conn := by
  have hf := only_le_count pc
  have hpc : (carried (only pc)).pc call.pc ≤ (owned.pc call.pc).count pc.conn := by
    cases call.pc with
    | cancelLoadClosed boxed =>
      cases boxed with
      | none => exact Nat.zero_le _
      | some boxed => exact hf boxed
    | _ => first | exact Nat.zero_le _ | exact hf _ | exact total_le_count hf _
  have hbox : (carried (only pc)).box call.pc call.waiter ≤ (owned.box call.pc call.waiter).count pc.conn := by
    simp only [Weight.box]
    split
    · cases call.waiter.ch with
      | none => exact Nat.zero_le _
      | some boxed => exact hf boxed
    · exact Nat.zero_le _
  have hop : total (carried (only pc)).op call.todo = 0 := total_fun_zero
  simp only [Weight.call, hop, Multiset.count_add]
  omega

theorem pooled_le_count (s : State) (pc : PooledConn) : pooled (only pc) s ≤ (everywhere s).count pc.conn := by
  have hstock : stock (only pc) s.shared ≤ (stock single s.shared).count pc.conn := by
    unfold stock
    exact total_le_count (fun ch : Channel ↦ total_le_count (only_le_count pc) ch.queue) _
  have hcalls := total_le_count (carried_le_count pc) s.calls
  simp only [pooled, everywhere, atRest, Multiset.count_add]
  omega

theorem Has.mem_live (h : Has s pc) (hs : Sound s) : pc.conn ∈ s.shared.live := by
  have hmem : pc.conn ∈ everywhere s := Multiset.count_pos.mp (Nat.lt_of_lt_of_le h (pooled_le_count s pc))
  exact Multiset.mem_coe.mp (Multiset.mem_of_le hs.le_live hmem)

/-- A connection that is about to be wrapped is not wrapped anywhere. -/
theorem not_has_of_wraps {i : ℕ} (hs : Sound s) (h : (pointOf s i).bind (wraps s.shared) = some pc.conn) :
    ¬Has s pc := by
  obtain ⟨p, hp, hwraps⟩ := Option.bind_eq_some_iff.mp h
  obtain rfl : p = .at (.releaseLoadClosed pc.conn) := by
    unfold wraps at hwraps
    split at hwraps
    · rw [Option.some.inj (Option.ite_none_left_eq_some.mp hwraps).2]
    · cases hwraps
  obtain ⟨call, hcall, hmap⟩ := Option.bind_eq_some_iff.mp hp
  obtain ⟨⟨_, todo⟩, hpoint, rfl⟩ := Option.map_eq_some_iff.mp hmap
  -- without the call that is about to wrap it, no place is left for it
  have hothers := pooled_le_count ⟨s.shared, s.calls.set i ⟨.straight, [], {}⟩⟩ pc
  have hcarried := total_set (carried (only pc)).call hcall ⟨.straight, [], {}⟩
  have howned := congrArg (Multiset.count pc.conn) (total_set owned.call hcall ⟨.straight, [], {}⟩)
  have hnone : (carried (only pc)).call call = 0 := by
    rw [Weight.call_point _ hpoint]
    simp [carried, listens]
  have hmine : 1 ≤ (owned.call call).count pc.conn := by
    rw [Weight.call_point _ hpoint]
    simp [owned, listens]
  have hone : (everywhere s).count pc.conn ≤ 1 :=
    (Multiset.count_le_of_le _ hs.le_live).trans
      (Multiset.nodup_iff_count_le_one.mp (Multiset.coe_nodup.mpr hs.nodup) _)
  have hempty : (carried (only pc)).call ⟨.straight, [], {}⟩ = 0 ∧ owned.call ⟨.straight, [], {}⟩ = 0 := ⟨rfl, rfl⟩
  rw [hempty.2, Multiset.count_add, add_zero] at howned
  simp only [pooled, everywhere, Multiset.count_add] at hothers hone
  unfold Has pooled
  omega

end Runs

end PgRouter.Pool.Stamps
