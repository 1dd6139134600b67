import PgRouter.Pool.Promises
import PgRouter.Pool.Slots

namespace PgRouter.Pool.Wakeups

open Library.Runs Model Firing Weights Slots Promises

def waits : Pc → Bool
  | .drainWait | .drainAsleep => true
  | _ => false

def tested : Pc → Bool
  | .drainWait => true
  | _ => false

def isBroadcast : Op → Bool
  | .broadcast => true
  | _ => false

def isDecrement : Op → Bool
  | .decActive => true
  | _ => false

/-- Every decrement of `active` is followed by a `Broadcast`. -/
def paired : List Op → Bool
  | [] => true
  | op :: todo => (!isDecrement op || todo.head?.any isBroadcast) && paired todo

/-- Nobody calls `Broadcast` while the drain goroutine is between its test of `active` and its `Wait`. -/
def broadcastsApart (s : State) : Event → Bool
  | .step i _ _ =>
    match pointOf s i with
    | some (.op .broadcast) => s.calls.all fun call ↦ !tested call.pc
    | _ => true
  | _ => true

/-- Who sleeps will be woken if there is nothing left to wait for. -/
structure Wakes (s : State) : Prop where
  paired : ∀ call ∈ s.calls, paired call.todo = true
  broadcast : s.shared.active ≤ 0 → (∃ call ∈ s.calls, waits call.pc = true) →
    ∃ call ∈ s.calls, call.todo.any isBroadcast = true

theorem paired_of_no_decrement {todo : List Op} (h : todo.any isDecrement = false) : paired todo = true := by
  induction todo with
  | nil => rfl
  | cons op todo ih =>
    rw [List.any_cons, Bool.or_eq_false_iff] at h
    rw [paired, h.1, ih h.2]
    rfl

theorem paired_append {as bs : List Op} (has : paired as = true) (hbs : paired bs = true) :
    paired (as ++ bs) = true := by
  induction as with
  | nil => exact hbs
  | cons op as ih =>
    rw [paired, Bool.and_eq_true] at has
    rw [List.cons_append, paired, ih has.2, Bool.and_true]
    cases as with
    | nil =>
      have hop : isDecrement op = false := by simpa using has.1
      rw [hop]
      rfl
    | cons a as => exact has.1

/-- Where the drain goroutine gets to in a step, and what the call has still to do. -/
structure Stirs (s : Shared) (p : Point) (o : Outcome) : Prop where
  todo : paired o.todo = true
  waits : waits o.pc = true → p = .at .drainLoad ∧ 0 < s.active ∧ o.shared.active = s.active ∨ p = .at .drainWait
  spawned : ∀ cs, o.effect = .spawn cs → ∀ call ∈ cs, Wakeups.waits call.pc = false ∧ paired call.todo = true

section Steps

variable {s : Shared} {waiterOf : ℕ → Waiter} {i : ℕ} {now : ℤ} {own : Waiter} {c : Choice} {p : Point}
  {o : Outcome}

theorem fire_stirs (h : fire s waiterOf i now own c p = some o) : Stirs s p o := by
  cases fired h with
  | startDrain =>
    refine ⟨rfl, nofun, fun cs he call hcall ↦ ?_⟩
    cases he
    rw [List.mem_singleton.mp hcall]
    exact ⟨rfl, rfl⟩
  | resizes =>
    refine ⟨rfl, nofun, fun cs he call hcall ↦ ?_⟩
    cases he
    obtain ⟨pc, -, rfl⟩ := List.mem_map.mp hcall
    exact ⟨rfl, rfl⟩
  | drainBusy hactive => exact ⟨rfl, fun _ ↦ .inl ⟨rfl, hactive, rfl⟩, nofun⟩
  | drainWait => exact ⟨rfl, fun _ ↦ .inr rfl, nofun⟩
  | evicts => exact ⟨paired_of_no_decrement (by simp [isDecrement, Function.comp_def]), nofun, nofun⟩
  | @takesWaiters _ deadline =>
    refine ⟨paired_of_no_decrement ?_, nofun, nofun⟩
    cases deadline <;> simp [isDecrement, Function.comp_def]
  | _ => exact ⟨rfl, nofun, nofun⟩

end Steps

section Runs

variable {s t : State}

theorem todo_of_point {call : Call} {p : Point} {todo : List Op} (h : call.point = some (p, todo)) :
    (∃ op, p = .op op ∧ call.todo = op :: todo) ∨ (∃ pc, p = .at pc) ∧ call.todo = todo := by
  rcases call with ⟨pc, todo', w⟩
  unfold Call.point at h
  split at h
  · cases h
  · rename_i op rest hpc htodo
    cases h
    exact .inl ⟨op, rfl, htodo⟩
  · cases h
    exact .inr ⟨⟨_, rfl⟩, rfl⟩

theorem touch_waits {j : ℕ} {b : Call} {e : Effect} (h : waits (touch j b e).pc = true) : waits b.pc = true := by
  rcases touch_pc j b e with hpc | ⟨-, hpc⟩
  · rwa [hpc] at h
  · rw [hpc] at h
    cases h

section Proceeding

variable {i : ℕ} {call : Call} {p : Point} {todo : List Op} {o : Outcome}

section

variable (hcall : s.calls[i]? = some call)

include hcall

theorem broadcast_own (htodo : todo.any isBroadcast = true) :
    ∃ call ∈ (s.proceed i todo o).calls, call.todo.any isBroadcast = true := by
  have hset : (s.calls.set i ⟨o.pc, o.todo ++ todo, o.waiter⟩)[i]? = some ⟨o.pc, o.todo ++ todo, o.waiter⟩ :=
    List.getElem?_set_self (List.getElem?_eq_some_iff.mp hcall).1
  refine ⟨_, List.mem_of_getElem? (getElem?_apply hset), ?_⟩
  rw [touch_todo, List.any_append, htodo, Bool.or_true]

theorem broadcast_kept (hpoint : call.point = some (p, todo))
    (hp : p ≠ .op .broadcast) (h : ∃ call ∈ s.calls, call.todo.any isBroadcast = true) :
    ∃ call ∈ (s.proceed i todo o).calls, call.todo.any isBroadcast = true := by
  obtain ⟨b, hb, hany⟩ := h
  obtain ⟨j, hj⟩ := List.getElem?_of_mem hb
  by_cases hji : j = i
  · subst hji
    obtain rfl : call = b := Option.some.inj (hcall.symm.trans hj)
    refine broadcast_own hcall ?_
    rcases todo_of_point hpoint with ⟨op, rfl, heq⟩ | ⟨-, heq⟩
    · rw [heq, List.any_cons] at hany
      cases op with
      | broadcast => exact absurd rfl hp
      | _ => exact hany
    · rwa [heq] at hany
  · have hset : (s.calls.set i ⟨o.pc, o.todo ++ todo, o.waiter⟩)[j]? = some b := by
      rw [List.getElem?_set_ne (Ne.symm hji)]
      exact hj
    refine ⟨_, List.mem_of_getElem? (getElem?_apply hset), ?_⟩
    rwa [touch_todo]

theorem waits_before (hpoint : call.point = some (p, todo))
    (hstirs : Stirs s.shared p o) (h : ∃ call ∈ (s.proceed i todo o).calls, waits call.pc = true) :
    (0 < s.shared.active ∧ o.shared.active = s.shared.active) ∨ ∃ call ∈ s.calls, waits call.pc = true := by
  obtain ⟨c', hc', hwaits⟩ := h
  obtain ⟨j, hj⟩ := List.getElem?_of_mem hc'
  rcases proceed_call hcall hj with ⟨b, rfl, ⟨-, rfl⟩ | ⟨-, hb⟩⟩ | ⟨cs, hspawn, hmem⟩
  · rcases hstirs.waits (touch_waits hwaits) with ⟨-, hactive⟩ | rfl
    · exact .inl hactive
    · refine .inr ⟨call, List.mem_of_getElem? hcall, ?_⟩
      rw [Weight.pc_of_point hpoint]
      rfl
  · exact .inr ⟨b, List.mem_of_getElem? hb, touch_waits hwaits⟩
  · rw [(hstirs.spawned cs hspawn c' hmem).1] at hwaits
    cases hwaits

theorem not_waits_broadcast (hapart : (s.calls.all fun call ↦ !tested call.pc) = true) :
    ¬ ∃ c' ∈ (s.proceed i todo (perform s.shared s.waiterOf call.waiter .broadcast)).calls, waits c'.pc = true := by
  rintro ⟨c', hc', hwaits⟩
  obtain ⟨j, hj⟩ := List.getElem?_of_mem hc'
  rcases proceed_call hcall hj with ⟨b, rfl, ⟨-, rfl⟩ | ⟨-, hb⟩⟩ | ⟨cs, hspawn, -⟩
  · cases touch_waits hwaits
  · have hapart := List.all_eq_true.mp hapart b (List.mem_of_getElem? hb)
    have hold := touch_waits hwaits
    change waits b.wake.pc = true at hwaits
    unfold Call.wake at hwaits
    cases hpc : b.pc with
    | drainWait =>
      rw [hpc] at hapart
      cases hapart
    | drainAsleep =>
      rw [hpc] at hwaits
      cases hwaits
    | _ =>
      rw [hpc] at hold
      cases hold
  · cases hspawn

end

end Proceeding

theorem wakes_enter {call : Call} {held : List ℕ} (hs : Wakes s) (hpc : waits call.pc = false)
    (htodo : paired call.todo = true) : Wakes (⟨{ s.shared with held }, s.calls ++ [call]⟩ : State) := by
  refine ⟨fun c hc ↦ ?_, fun hactive hwaits ↦ ?_⟩
  · rcases List.mem_append.mp hc with hc | hc
    · exact hs.paired c hc
    · rwa [List.mem_singleton.mp hc]
  · obtain ⟨c, hc, hwaits⟩ := hwaits
    rcases List.mem_append.mp hc with hc | hc
    · obtain ⟨b, hb, hany⟩ := hs.broadcast hactive ⟨c, hc, hwaits⟩
      exact ⟨b, List.mem_append_left _ hb, hany⟩
    · rw [List.mem_singleton.mp hc, hpc] at hwaits
      cases hwaits

theorem step_wakes (s : State) (e : Event) (t : State) (hs : Wakes s) (hg : broadcastsApart s e = true)
    (h : s.step e = some t) : Wakes t := by
  obtain ⟨i, c, now, rfl, h⟩ | rfl | ⟨pc, hpc, rfl⟩ | ⟨conn, hmem, call, hcall, rfl⟩ := step_cases h
  · obtain ⟨call, p, todo, o, hcall, -, hpoint, hp, hfire, rfl⟩ := advance_cases h
    have hstirs := fire_stirs hfire
    have hold := hs.paired call (List.mem_of_getElem? hcall)
    have htodo : paired todo = true := by
      rcases todo_of_point hpoint with ⟨op, -, heq⟩ | ⟨-, heq⟩
      · rw [heq, paired, Bool.and_eq_true] at hold
        exact hold.2
      · rwa [heq] at hold
    refine ⟨fun c' hc' ↦ ?_, fun hactive hwaits ↦ ?_⟩
    · obtain ⟨j, hj⟩ := List.getElem?_of_mem hc'
      rcases proceed_call hcall hj with ⟨b, rfl, ⟨-, rfl⟩ | ⟨-, hb⟩⟩ | ⟨cs, hspawn, hmem⟩
      · rw [touch_todo]
        exact paired_append hstirs.todo htodo
      · rw [touch_todo]
        exact hs.paired b (List.mem_of_getElem? hb)
      · exact (hstirs.spawned cs hspawn c' hmem).2
    · by_cases hbroadcast : p = .op .broadcast
      · subst hbroadcast
        cases hfire
        simp only [broadcastsApart, hp] at hg
        exact absurd hwaits (not_waits_broadcast hcall hg)
      · have hactive : o.shared.active ≤ 0 := hactive
        rcases (fire_capacity hfire).2.1 with ⟨rfl, -⟩ | hle
        · refine broadcast_own hcall ?_
          rcases todo_of_point hpoint with ⟨op, hop, heq⟩ | ⟨⟨pc, hpc⟩, -⟩
          · cases hop
            rw [heq, paired, Bool.and_eq_true] at hold
            cases todo with
            | nil => cases hold.1
            | cons op todo =>
              have hop : isBroadcast op = true := hold.1
              rw [List.any_cons, hop, Bool.true_or]
          · cases hpc
        · rcases waits_before hcall hpoint hstirs hwaits with ⟨hpos, heq⟩ | hwaits
          · omega
          · exact broadcast_kept hcall hpoint hbroadcast (hs.broadcast (by omega) hwaits)
  · exact hs
  · exact wakes_enter hs (by cases pc <;> first | rfl | cases hpc) rfl
  · refine wakes_enter hs ?_ ?_
    · rcases hcall with rfl | rfl | rfl <;> rfl
    · rcases hcall with rfl | rfl | rfl <;> rfl

/-- In a run in which nobody calls `Broadcast` while the drain goroutine is between its test and its `Wait`, no
wake-up is lost: as long as it sleeps with no connection active, somebody has still to call `Broadcast`. -/
theorem drain_woken {cfg : Config} {es : List Event} {s : State}
    (h : Run State.step broadcastsApart (new cfg) es s) (hactive : s.shared.active = 0)
    (hasleep : ∃ call ∈ s.calls, call.pc = .drainAsleep) : ∃ call ∈ s.calls, .broadcast ∈ call.todo := by
  have hnew : Wakes (new cfg) := by
    refine ⟨fun call hcall ↦ ?_, fun _ hwaits ↦ ?_⟩
    · cases hcall
    · obtain ⟨call, hcall, -⟩ := hwaits
      cases hcall
  have hs : Wakes s := h.invariant step_wakes hnew
  obtain ⟨b, hb, hpc⟩ := hasleep
  obtain ⟨call, hcall, hany⟩ := hs.broadcast (by omega) ⟨b, hb, by rw [hpc]; rfl⟩
  obtain ⟨op, hop, hbroadcast⟩ := List.any_eq_true.mp hany
  cases op with
  | broadcast => exact ⟨call, hcall, hop⟩
  | _ => cases hbroadcast

def discardedAsleep : List Event :=
  .acquire :: steps 0 9 ++ .close true :: steps 1 5 ++ steps 2 2 ++ .discard 0 :: steps 3 2

theorem drain_woken_discardedAsleep :
    ∃ s, Run State.step broadcastsApart (new oneSlot) discardedAsleep s ∧ s.shared.active = 0 ∧
      (s.calls.map Call.pc)[2]? = some .drainAsleep ∧ ∃ call ∈ s.calls, .broadcast ∈ call.todo := by
  have h : Run State.step broadcastsApart (new oneSlot) discardedAsleep _ := run_of_exec rfl
  have hwoken := drain_woken h rfl ⟨_, List.mem_of_getElem? (i := 2) rfl, rfl⟩
  exact ⟨_, h, rfl, rfl, hwoken⟩

def discardedAwake : List Event :=
  .acquire :: steps 0 9 ++ .close true :: steps 1 5 ++ steps 2 1 ++ .discard 0 :: steps 3 4 ++ steps 2 1

theorem discardedAwake_sleeps :
    ∃ s, Run State.step anyStep (new oneSlot) discardedAwake s ∧ s.shared.active = 0 ∧
      (s.calls.map Call.pc)[2]? = some .drainAsleep ∧ s.calls.map Call.todo = [[], [], [], []] ∧
      (s.calls.map Call.pc)[0]? = some .straight ∧ (s.calls.map Call.pc)[1]? = some .awaitDrain ∧
      (s.calls.map Call.pc)[3]? = some .straight := by
  have h : Run State.step anyStep (new oneSlot) discardedAwake _ := run_of_exec rfl
  exact ⟨_, h, rfl, rfl, rfl, rfl, rfl, rfl⟩

end Runs

end PgRouter.Pool.Wakeups
