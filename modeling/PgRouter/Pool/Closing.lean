import PgRouter.Pool.Waiting

namespace PgRouter.Pool.Closing

open Library.Accounts Library.Runs Model Firing Weights Slots Channels Promises Waiting

section Crash

/-- No waiter that gives up receives from its channel once `CloseWithDeadline` has closed it. -/
def drainsOpen (s : State) : Event → Bool
  | .step i _ _ =>
    match pointOf s i with
    | some (.at .drainCh) => !(s.waiterOf i).chClosed
    | _ => true
  | _ => true

structure Unharmed (s : State) : Prop extends Kept s where
  nil : ∀ call ∈ s.calls, call.pc ≠ .cancelLoadClosed none
  unpanicked : s.shared.panicked = false

theorem unharmed_enter {s : State} {call : Call} {h : List ℕ} (hs : Unharmed s)
    (hkept : Kept (⟨{ s.shared with held := h }, s.calls ++ [call]⟩ : State))
    (hpc : call.pc ≠ .cancelLoadClosed none) :
    Unharmed (⟨{ s.shared with held := h }, s.calls ++ [call]⟩ : State) := by
  refine ⟨hkept, fun c hc ↦ ?_, hs.unpanicked⟩
  rcases List.mem_append.mp hc with hc | hc
  · exact hs.nil c hc
  · rw [List.mem_singleton.mp hc]
    exact hpc

theorem step_unharmed (s : State) (e : Event) (t : State) (hs : Unharmed s)
    (hg : drainsOpen s e = true) (h : s.step e = some t) : Unharmed t := by
  have hkept := step_kept s e t hs.toKept h
  obtain ⟨i, c, now, rfl, h⟩ | rfl | ⟨pc, hpc, rfl⟩ | ⟨conn, hmem, call, hcall, rfl⟩ := step_cases h
  · obtain ⟨call, p, todo, o, hcall, hown, hpoint, hp, hfire, rfl⟩ := advance_cases h
    have hcourse := fire_course hfire
    have hnil : p ≠ .at (.cancelLoadClosed none) := by
      rintro rfl
      exact hs.nil call (List.mem_of_getElem? hcall) (Weight.pc_of_point hpoint)
    refine ⟨hkept, fun c' hc' hnone ↦ ?_, ?_⟩
    · obtain ⟨j, hj⟩ := List.getElem?_of_mem hc'
      rcases proceed_call hcall hj with ⟨b, rfl, hb⟩ | ⟨cs, hspawn, hmem⟩
      · have hb' : b.pc = .cancelLoadClosed none := by
          rcases touch_pc j b o.effect with h' | ⟨-, h'⟩
          · rw [← h', hnone]
          · rw [h'] at hnone
            cases hnone
        rcases hb with ⟨-, rfl⟩ | ⟨-, hb⟩
        · rcases hcourse.nil hb' with ⟨rfl, hclosed⟩ | hp
          · simp [drainsOpen, hp, hown, hclosed] at hg
          · exact hnil hp
        · exact hs.nil b (List.mem_of_getElem? hb) hb'
      · cases hcourse.spawns cs hspawn c' hmem <;> cases hnone
    · have hshared : (s.proceed i todo o).shared = o.shared := rfl
      rw [hshared]
      by_contra hpanic
      rcases hcourse.panics (by simpa using hpanic) with h' | h' | ⟨w, hw, hclosed⟩
      · rw [hs.unpanicked] at h'
        cases h'
      · exact hnil h'
      · rw [(hs.open_of_point hcall hpoint hw).2] at hclosed
        cases hclosed
  · exact hs
  · refine unharmed_enter hs hkept ?_
    cases pc <;> first | (cases hpc; done) | nofun
  · refine unharmed_enter hs hkept ?_
    rcases hcall with rfl | rfl | rfl <;> nofun

theorem unharmed_new (cfg : Config) : Unharmed (new cfg) := ⟨kept_new cfg, by simp [new], rfl⟩

/-- In a run in which no waiter that gives up finds its channel closed, nothing panics: no nil
connection is dereferenced, no waiter's channel is closed twice or sent on after it was closed, and
the channel that says a waiter has given up is open when it is closed. -/
theorem closing_unharmed {cfg : Config} {es : List Event} {s : State}
    (h : Run State.step drainsOpen (new cfg) es s) :
    s.shared.panicked = false ∧
      ∀ call ∈ s.calls, call.pc = .closeCanceled → call.waiter.canceled = false := by
  have hs : Unharmed s := h.invariant step_unharmed (unharmed_new cfg)
  exact ⟨hs.unpanicked, fun call hcall hpc ↦ hs.uncanceled call hcall (Or.inr hpc)⟩

def closedOnWaiter : List Event :=
  parkSecond ++ .close true :: steps 2 6 ++ .step 1 .receive 0 :: steps 1 1 ++
    .release 0 true :: steps 4 6 ++ steps 3 1 ++ steps 2 1

theorem closing_unharmed_closedOnWaiter :
    ∃ s, Run State.step drainsOpen (new oneSlot) closedOnWaiter s ∧ s.shared.panicked = false := by
  have h : Run State.step drainsOpen (new oneSlot) closedOnWaiter _ := run_of_exec rfl
  exact ⟨_, h, (closing_unharmed h).1⟩

/-- The second `Acquire` is parked when `CloseWithDeadline` takes the queue, gives up, and receives from
its channel when it is closed. -/
def closedOnGivingUp : List Event :=
  parkSecond ++ .close false :: steps 2 4 ++ .step 1 .cancel 0 :: steps 1 2 ++ steps 2 1 ++ steps 1 2

theorem closedOnGivingUp_panics :
    ∃ s, Run State.step anyStep (new oneSlot) closedOnGivingUp s ∧ s.shared.panicked = true ∧
      (s.calls.map Call.pc)[1]? = some (.cancelLoadClosed none) := by
  have h : Run State.step anyStep (new oneSlot) closedOnGivingUp _ := run_of_exec rfl
  exact ⟨_, h, by decide, rfl⟩

end Crash

section Residue

def draining : Pc → Bool
  | .closeReadIdle _ _ | .closePop _ _ _ => true
  | _ => false

/-- `CloseWithDeadline` empties the idle channel or is about to take the queue of waiters. -/
def cleaning : Pc → Bool
  | .closeReadIdle _ _ | .closePop _ _ _ | .closeTakeWaiters _ _ => true
  | _ => false

/-- The pool is closed, and the `CloseWithDeadline` that closed it is past the points in `f`. -/
def past (f : Pc → Bool) (s : State) : Bool := s.shared.closed && s.calls.all fun call ↦ !f call.pc

/-- Once `CloseWithDeadline` has emptied the idle channel nothing is put into it, once it has taken the
queue nobody parks, and the channel it finds empty is the one that is current. -/
def closesBehind (s : State) : Event → Bool
  | .step i _ _ =>
    match pointOf s i with
    | some (.at .parkWaiter) => !past cleaning s
    | some (.at (.releasePush _ ch)) | some (.at (.cancelPush _ ch)) =>
      ch ≠ s.shared.idle || !past draining s
    | some (.at (.closePop _ ch _)) => ch = s.shared.idle || !(s.shared.channel ch).queue.isEmpty
    | _ => true
  | _ => true

section Past

variable {f : Pc → Bool} (hasleep : f .drainAsleep = f .drainLoad) (hstraight : f .straight = false)
  (hread : ∀ idle deadline, f (.closeReadIdle idle deadline) = true)

include hasleep hstraight hread

theorem past_proceed {s : State} {i : ℕ} {now : ℤ} {c : Choice} {call : Call} {p : Point}
    {todo : List Op} {o : Outcome} (hcall : s.calls[i]? = some call)
    (hpoint : call.point = some (p, todo))
    (h : fire s.shared s.waiterOf i now call.waiter c p = some o)
    (ht : past f (s.proceed i todo o) = true) :
    past f s = true ∨ ∃ pc, p = .at pc ∧ f pc = true ∧ f o.pc = false := by
  rw [past, Bool.and_eq_true, List.all_eq_true] at ht
  obtain ⟨hclosed, hpast⟩ := ht
  have hafter {j : ℕ} {b : Call} (hb : (s.calls.set i ⟨o.pc, o.todo ++ todo, o.waiter⟩)[j]? = some b) :
      f b.pc = false := by
    have hmem := hpast _ (List.mem_of_getElem? (getElem?_apply (e := o.effect) hb))
    rw [touch_congr _ _ _ f hasleep] at hmem
    simpa using hmem
  have hown : f o.pc = false := hafter (List.getElem?_set_self (List.getElem?_eq_some_iff.mp hcall).1)
  by_cases hf : f call.pc = true
  · right
    refine ⟨call.pc, ?_, hf, hown⟩
    unfold Call.point at hpoint
    split at hpoint
    · cases hpoint
    · simp_all
    · cases hpoint
      rfl
  · left
    rw [past, Bool.and_eq_true, List.all_eq_true]
    constructor
    · rcases (fire_fields h).1 with hc | ⟨idle, deadline, hpc⟩
      · rw [← hc]
        exact hclosed
      · rw [hpc, hread] at hown
        cases hown
    · intro b hb
      obtain ⟨j, hj⟩ := List.getElem?_of_mem hb
      by_cases hji : j = i
      · subst hji
        obtain rfl : call = b := Option.some.inj (hcall.symm.trans hj)
        simpa using hf
      · rw [hafter (by rwa [List.getElem?_set_ne (Ne.symm hji)])]
        rfl

end Past

theorem past_enter {f : Pc → Bool} {s : State} {h : List ℕ} {call : Call}
    (ht : past f ⟨{ s.shared with held := h }, s.calls ++ [call]⟩ = true) : past f s = true := by
  simp only [past, List.all_append, Bool.and_eq_true] at ht ⊢
  exact ⟨ht.1, ht.2.1⟩

structure Emptied (s : State) : Prop extends Kept s where
  idle : past draining s = true → (s.shared.channel s.shared.idle).queue = []
  waiters : past cleaning s = true → s.shared.waiters = []

theorem advance_emptied {s t : State} {i : ℕ} {c : Choice} {now : ℤ} (hs : Emptied s)
    (hg : closesBehind s (.step i c now) = true) (h : s.advance i c now = some t) : Emptied t := by
  have hkept := advance_kept hs.toKept h
  obtain ⟨call, p, todo, o, hcall, -, hpoint, hp, hfire, rfl⟩ := advance_cases h
  simp only [closesBehind, hp] at hg
  refine ⟨hkept, fun ht ↦ ?_, fun ht ↦ ?_⟩
  · rcases past_proceed rfl rfl (fun _ _ ↦ rfl) hcall hpoint hfire ht with hpast | ⟨pc, rfl, hpc, hafter⟩
    · refine queue_of_moves (fire_moves hfire) (hs.idle hpast) fun pc ch hpush ↦ ?_
      rcases hpush with rfl | rfl <;> simpa [hpast] using hg
    · cases fired hfire with
      | @closePopsNothing ch _ _ hempty =>
        obtain rfl : ch = s.shared.idle := by simpa [hempty] using hg
        exact hempty
      | _ => first | (cases hpc; done) | cases hafter
  · rcases past_proceed rfl rfl (fun _ _ ↦ rfl) hcall hpoint hfire ht with hpast | ⟨pc, rfl, hpc, hafter⟩
    · rcases (fire_capacity hfire).1 with rfl | hkeep
      · simp [hpast] at hg
      · exact hkeep (hs.waiters hpast)
    · cases fired hfire with
      | takesWaiters => rfl
      | _ => first | (cases hpc; done) | cases hafter

theorem step_emptied (s : State) (e : Event) (t : State) (hs : Emptied s)
    (hg : closesBehind s e = true) (h : s.step e = some t) : Emptied t := by
  have hkept := step_kept s e t hs.toKept h
  obtain ⟨i, c, now, rfl, h⟩ | rfl | ⟨pc, hpc, rfl⟩ | ⟨conn, hmem, call, hcall, rfl⟩ := step_cases h
  · exact advance_emptied hs hg h
  · exact hs
  · exact ⟨hkept, fun ht ↦ hs.idle (past_enter ht), fun ht ↦ hs.waiters (past_enter ht)⟩
  · exact ⟨hkept, fun ht ↦ hs.idle (past_enter ht), fun ht ↦ hs.waiters (past_enter ht)⟩

def parked (call : Call) : Bool :=
  match call.pc with
  | .wait _ => call.waiter.ch.isNone && !call.waiter.chClosed
  | _ => false

/-- The call has returned or is in `waitForBackend`, or it is a `CloseWithDeadline` that has cleaned up
and waits for its deadline, with the goroutine it waits for. -/
def settled : Call → Bool
  | ⟨.straight, [], _⟩ | ⟨.wait _, [], _⟩ | ⟨.straight, [.startDrain], _⟩ | ⟨.awaitDrain, [], _⟩
  | ⟨.drainLoad, [], _⟩ | ⟨.drainWait, [], _⟩ | ⟨.drainAsleep, [], _⟩ => true
  | _ => false

theorem settled_call {call : Call} (h : settled call = true) :
    taken.call call = 0 ∧ draining call.pc = false ∧ cleaning call.pc = false := by
  unfold settled at h
  split at h <;> first | (cases h; done) | exact ⟨by simp [Weight.call, taken], rfl, rfl⟩

/-- In a run in which nothing is put into the idle channel and nobody parks behind the back of
`CloseWithDeadline`, a closed pool in which every call has come to rest has nobody in its queue, no
`Acquire` that waits, and no idle connection. -/
theorem closing_leaves_nothing {cfg : Config} {es : List Event} {s : State}
    (h : Run State.step closesBehind (new cfg) es s) (hclosed : s.shared.closed = true)
    (hrest : s.calls.all settled = true) :
    s.shared.waiters = [] ∧ (∀ call ∈ s.calls, parked call = false) ∧
      (s.shared.channel s.shared.idle).queue = [] := by
  have hnew : Emptied (new cfg) := ⟨kept_new cfg, nofun, nofun⟩
  have hs : Emptied s := h.invariant step_emptied hnew
  have hsettled (call : Call) (hcall : call ∈ s.calls) := settled_call (List.all_eq_true.mp hrest call hcall)
  have hdrained : past draining s = true := by
    rw [past, hclosed, Bool.true_and, List.all_eq_true]
    exact fun call hcall ↦ by rw [(hsettled call hcall).2.1]; rfl
  have hcleaned : past cleaning s = true := by
    rw [past, hclosed, Bool.true_and, List.all_eq_true]
    exact fun call hcall ↦ by rw [(hsettled call hcall).2.2]; rfl
  have hwaiters := hs.waiters hcleaned
  refine ⟨hwaiters, fun call hcall ↦ ?_, hs.idle hdrained⟩
  by_contra hparked
  have hparked' : parked call = true := by simpa using hparked
  obtain ⟨w, hw⟩ := List.getElem?_of_mem hcall
  -- somebody would have to answer this call, and nobody is left who could
  have hpromised : w ∈ promised s := by
    unfold parked at hparked'
    split at hparked'
    · rename_i hpc
      simp only [Bool.and_eq_true, Option.isNone_iff_eq_none, Bool.not_eq_true'] at hparked'
      exact hs.answered w call hw (by rw [hpc]; rfl) hparked'.1 hparked'.2
    · cases hparked'
  rw [promised, hwaiters, total_zero fun call hcall ↦ (hsettled call hcall).1] at hpromised
  simp at hpromised

theorem closing_leaves_nothing_closedOnWaiter :
    ∃ s, Run State.step closesBehind (new oneSlot) closedOnWaiter s ∧ s.shared.closed = true ∧
      s.shared.waiters = [] ∧ (s.shared.channel s.shared.idle).queue = [] := by
  have h : Run State.step closesBehind (new oneSlot) closedOnWaiter _ := run_of_exec rfl
  have hnothing := closing_leaves_nothing h rfl (by decide)
  exact ⟨_, h, rfl, hnothing.1, hnothing.2.2⟩

def closedTooEarly : List Event :=
  .acquire :: steps 0 9 ++ .acquire :: steps 1 6 ++ .release 0 false :: steps 2 3 ++
    .close false :: steps 3 4 ++ steps 1 1 ++ steps 2 4

theorem closedTooEarly_leaves :
    ∃ s, Run State.step anyStep (new oneSlot) closedTooEarly s ∧ s.shared.closed = true ∧
      s.calls.all settled = true ∧ s.shared.waiters = [1] ∧ s.calls.map parked = [false, true, false, false] ∧
      (s.shared.channel s.shared.idle).queue.map PooledConn.conn = [0] := by
  have h : Run State.step anyStep (new oneSlot) closedTooEarly _ := run_of_exec rfl
  exact ⟨_, h, by decide, by decide, by decide, by decide, by decide⟩

end Residue

end PgRouter.Pool.Closing
