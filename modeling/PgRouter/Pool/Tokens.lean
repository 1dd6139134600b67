import PgRouter.Pool.Slots

namespace PgRouter.Pool.Tokens

open Library.Accounts Library.Runs Model Firing Weights Slots

/-- The calls of `PostRelease` that a call under way still owes: one from the moment `PreAcquire` has
let an `Acquire` in, one for every connection that is being given back. -/
def tokens : Weight ℕ where
  pc
    | .loadClosed | .readIdle | .popIdle _ | .countIdle _ | .loadActive | .compareSize _
    | .casActive _ | .dial | .parkWaiter | .wait _ | .reserveCheck | .reserveAdd | .closeCanceled
    | .dequeue | .drainCh | .cancelLoadClosed _ | .cancelReadIdle _ | .cancelPush _ _
    | .resetState _ | .releaseLoadClosed _ | .popWaiter _ | .handOff _ _ | .releaseReadIdle _
    | .releasePush _ _ => 1
    | _ => 0
  op
    | .postRelease | .returnConn _ => 1
    | _ => 0
  boxed _ := 0
  straight := rfl
  awake := rfl

/-- `EnsureWarm` gets no connection from its dial. -/
def warmsNothing (s : State) : Event → Bool
  | .step i c _ =>
    match pointOf s i with
    | some (.at (.warmDial _)) => c = .fail
    | _ => true
  | _ => true

/-- Every success of `PreAcquire` has been answered by a call of `PostRelease`, belongs to a
connection that a caller holds, or is owed by a call under way. -/
def Settled (s : State) : Prop :=
  s.shared.preAcquired = s.shared.postReleased + s.shared.held.length + total tokens.call s.calls

theorem fire_tokens {s : Shared} {waiterOf : ℕ → Waiter} {i : ℕ} {now : ℤ} {own : Waiter}
    {c : Choice} {p : Point} {o : Outcome} (h : fire s waiterOf i now own c p = some o)
    (calls : List Call) (hwarm : ∀ floor, p = .at (.warmDial floor) → c = .fail) :
    s.preAcquired + o.shared.postReleased + o.shared.held.length + tokens.outcome o +
        tokens.ofEffect calls o.effect =
      o.shared.preAcquired + s.postReleased + s.held.length + tokens.point own p := by
  have hbox (pc : Pc) (w : Waiter) : tokens.box pc w = 0 := by simp [tokens]
  cases fired h with
  | sends =>
    simp only [Weight.ofEffect]
    repeat' split
    all_goals simp [tokens, listens]
  | warmDials hc => exact absurd (hwarm _ rfl) hc
  | @takesWaiters _ deadline => cases deadline <;> simp [tokens, listens, total_map]
  | _ =>
    simp only [Weight.outcome, Weight.point, hbox, Weight.ofEffect]
    simp [tokens, listens, Shared.push, Shared.setQueue, Shared.swapIdle, Shared.panic, total_map, Weight.call,
      -List.map_take]
    try omega

theorem advance_settled {s t : State} {i : ℕ} {c : Choice} {now : ℤ} (hs : Settled s)
    (hg : warmsNothing s (.step i c now) = true) (h : s.advance i c now = some t) : Settled t := by
  obtain ⟨call, p, todo, o, hcall, -, hpoint, hp, hfire, rfl⟩ := advance_cases h
  have htotal := tokens.total_proceed hcall hpoint hfire
  have hlocal : s.shared.preAcquired + o.shared.postReleased + o.shared.held.length +
        tokens.outcome o + tokens.ofEffect s.calls o.effect =
      o.shared.preAcquired + s.shared.postReleased + s.shared.held.length +
        tokens.point call.waiter p := by
    refine fire_tokens hfire s.calls ?_
    rintro floor rfl
    simpa [warmsNothing, hp] using hg
  unfold Settled at hs ⊢
  have hshared : (s.proceed i todo o).shared = o.shared := rfl
  rw [hshared]
  omega

theorem step_settled (s : State) (e : Event) (t : State) (hs : Settled s)
    (hg : warmsNothing s e = true) (h : s.step e = some t) : Settled t := by
  obtain ⟨i, c, now, rfl, h⟩ | rfl | ⟨pc, hpc, rfl⟩ | ⟨conn, hmem, call, hcall, rfl⟩ := step_cases h
  · exact advance_settled hs hg h
  · exact hs
  · have hzero : tokens.call ⟨pc, [], {}⟩ = 0 := by
      cases pc <;> first | rfl | cases hpc
    unfold Settled at hs ⊢
    simp only [State.enter, total_append, total_cons, total_nil, hzero]
    exact hs
  · have hone : tokens.call call = 1 := by rcases hcall with rfl | rfl | rfl <;> rfl
    have hlen := List.length_erase_of_mem hmem
    have hpos := List.length_pos_of_mem hmem
    unfold Settled at hs ⊢
    simp only [State.enter, State.letGo, total_append, total_cons, total_nil, hone, hlen]
    omega

def returned : Call → Bool
  | ⟨.straight, [], _⟩ => true
  | _ => false

theorem tokens_returned {call : Call} (h : returned call = true) : tokens.call call = 0 := by
  unfold returned at h
  split at h
  · simp [Weight.call, tokens, listens]
  · cases h

/-- In a run in which `EnsureWarm` never gets a connection, `PostRelease` is called at most as often
as `PreAcquire` has succeeded, and exactly as often whenever no connection is held and no call is
under way. -/
theorem postReleased_le_preAcquired {cfg : Config} {es : List Event} {s : State}
    (h : Run State.step warmsNothing (new cfg) es s) :
    s.shared.postReleased ≤ s.shared.preAcquired ∧
      (s.shared.held = [] → s.calls.all returned = true →
        s.shared.postReleased = s.shared.preAcquired) := by
  have hs : Settled s := h.invariant step_settled rfl
  unfold Settled at hs
  refine ⟨by omega, fun hheld hcalls ↦ ?_⟩
  have hzero : total tokens.call s.calls = 0 :=
    total_zero fun call hcall ↦ tokens_returned (List.all_eq_true.mp hcalls call hcall)
  rw [hs, hheld, hzero]
  rfl

def warmedSlot : Config := ⟨1, 1, 0, 0, 0, 0, 0⟩

def failedWarming : List Event :=
  .ensureWarm :: steps 0 5 ++ .step 0 .fail 0 :: steps 0 2 ++ .acquire :: steps 1 9 ++
    .release 0 false :: steps 2 7

theorem postReleased_le_preAcquired_failedWarming :
    ∃ s, Run State.step warmsNothing (new warmedSlot) failedWarming s ∧
      s.shared.postReleased = s.shared.preAcquired ∧ s.shared.preAcquired = 1 := by
  have h : Run State.step warmsNothing (new warmedSlot) failedWarming _ := run_of_exec rfl
  exact ⟨_, h, (postReleased_le_preAcquired h).2 rfl (by decide), by decide⟩

def warmed : List Event := .ensureWarm :: steps 0 17

theorem warmed_postReleases :
    ∃ s, Run State.step anyStep (new warmedSlot) warmed s ∧ s.shared.held = [] ∧
      s.calls.all returned = true ∧ s.shared.preAcquired = 0 ∧ s.shared.postReleased = 1 := by
  have h : Run State.step anyStep (new warmedSlot) warmed _ := run_of_exec rfl
  exact ⟨_, h, by decide, by decide, by decide, by decide⟩

end PgRouter.Pool.Tokens
