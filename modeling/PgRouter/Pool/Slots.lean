import PgRouter.Library.Runs
import PgRouter.Pool.Weights

namespace PgRouter.Pool.Slots

open Library.Accounts Library.Runs Model Firing Weights

/-- The slots of `active` that a call has taken and not yet passed on. -/
def slots : Weight ℤ where
  pc
    | .dial | .warmDial _ | .resetState _ | .releaseLoadClosed _ | .popWaiter _ | .handOff _ _
    | .releaseReadIdle _ | .releasePush _ _ => 1
    | _ => 0
  op
    | .decActive | .returnConn _ => 1
    | _ => 0
  boxed _ := 1
  straight := rfl
  awake := rfl

/-- The reserve has no headroom, so that a waiter which asks for it goes on waiting. -/
def noHeadroom (s : Shared) : Bool :=
  !s.closed && s.cfg.defaultPoolSize + s.cfg.reservePoolSize ≤ s.active

/-- `Release` sends only to a waiter whose call will still receive, and no waiter takes a reserve
slot with a connection in its channel. -/
def handOffArrives (s : State) : Event → Bool
  | .step i c _ =>
    match pointOf s i with
    | some (.at (.handOff _ w)) => c ≠ .go || listening s w
    | some (.at .reserveCheck) => (s.waiterOf i).ch.isNone || noHeadroom s.shared
    | _ => true
  | _ => true

/-- No waiter that gives up finds a connection in its channel. -/
def cancelFindsNothing (s : State) : Event → Bool
  | .step i _ _ =>
    match pointOf s i with
    | some (.at .drainCh) => (s.waiterOf i).ch.isNone
    | _ => true
  | _ => true

def slotSafe (s : State) (e : Event) : Bool := handOffArrives s e && cancelFindsNothing s e

/-- `active` counts the connections that callers hold and the slots of the calls under way. -/
def Balanced (s : State) : Prop := s.shared.active = s.shared.held.length + total slots.call s.calls

section

variable {s : Shared} {waiterOf : ℕ → Waiter} {i : ℕ} {now : ℤ} {own : Waiter} {c : Choice} {p : Point} {o : Outcome}

theorem fire_slots (h : fire s waiterOf i now own c p = some o) (calls : List Call)
    (hhand : ∀ conn w, p = .at (.handOff conn w) → c = .go → ∃ call, calls[w]? = some call ∧ listens call.pc)
    (hreserve : p = .at .reserveCheck → own.ch = none ∨ noHeadroom s) (hdrain : p = .at .drainCh → own.ch = none) :
    o.shared.active + s.held.length + slots.point own p =
      s.active + o.shared.held.length + slots.outcome o + slots.ofEffect calls o.effect := by
  cases fired h with
  | sends hc =>
    obtain ⟨call, hcall, hl⟩ := hhand _ _ rfl hc
    simp only [Weight.ofEffect, hcall, hl, if_true]
    simp [slots, listens]
  | receives hch | receivesClosed hch | findsNothing hch | findsClosed hch => simp [slots, listens, hch]
  | finds hch => cases (hdrain rfl).symm.trans hch
  | reserveShut hclosed =>
    have hch : own.ch = none := by simpa [noHeadroom, hclosed] using hreserve rfl
    simp [slots, listens, hch]
  | reserves _ hactive =>
    have hch : own.ch = none := by simpa [noHeadroom, hactive.not_ge] using hreserve rfl
    simp [slots, listens, hch]
  | @takesWaiters _ deadline => cases deadline <;> simp [slots, listens, total_map]
  | _ =>
    simp [slots, listens, Shared.push, Shared.setQueue, Shared.swapIdle, Shared.panic, total_map, Weight.call,
      -List.map_take]
    try omega

theorem fire_slots_le (h : fire s waiterOf i now own c p = some o) (calls : List Call) :
    s.active + o.shared.held.length + slots.outcome o + slots.ofEffect calls o.effect ≤
      o.shared.active + s.held.length + slots.point own p := by
  cases fired h with
  | sends =>
    simp only [Weight.ofEffect]
    repeat' split
    all_goals simp [slots, listens]
  | reserveShut | reserves => cases hch : own.ch <;> simp [slots, listens, hch]
  | finds hch | findsClosed hch | findsNothing hch => simp [slots, listens, hch]
  | sendPanics | skips | reserveFull => simp [slots, listens, Shared.panic]
  | _ =>
    refine (fire_slots h calls ?_ ?_ ?_).ge
    · intro conn w hp
      cases hp
    · intro hp
      cases hp
    · intro hp
      cases hp

end

section

variable {s t : State}

/-- `active` does not fall behind what it counts, and stays level with it after a safe step. -/
def Follows (safe : Bool) (s t : State) : Prop :=
  s.shared.active + t.shared.held.length + total slots.call t.calls ≤
      t.shared.active + s.shared.held.length + total slots.call s.calls ∧
    (safe = true → t.shared.active + s.shared.held.length + total slots.call s.calls =
      s.shared.active + t.shared.held.length + total slots.call t.calls)

theorem advance_slots {i : ℕ} {c : Choice} {now : ℤ} (h : s.advance i c now = some t) :
    Follows (slotSafe s (.step i c now)) s t := by
  obtain ⟨call, p, todo, o, hcall, hown, hpoint, hp, hfire, rfl⟩ := advance_cases h
  have htotal := slots.total_proceed hcall hpoint hfire
  have hshared : (s.proceed i todo o).shared = o.shared := rfl
  have hle := fire_slots_le hfire s.calls
  rw [Follows, hshared]
  refine ⟨by omega, fun hg ↦ ?_⟩
  simp only [slotSafe, handOffArrives, cancelFindsNothing, hp, hown, Bool.and_eq_true] at hg
  have heq : o.shared.active + s.shared.held.length + slots.point call.waiter p =
      s.shared.active + o.shared.held.length + slots.outcome o + slots.ofEffect s.calls o.effect := by
    refine fire_slots hfire s.calls ?_ ?_ ?_
    · rintro conn w rfl rfl
      exact exists_of_listening (by simpa using hg.1)
    · rintro rfl
      simpa using hg.1
    · rintro rfl
      simpa using hg.2
  omega

theorem step_slots {e : Event} (h : s.step e = some t) : Follows (slotSafe s e) s t := by
  obtain ⟨i, c, now, rfl, h⟩ | rfl | ⟨pc, hpc, rfl⟩ | ⟨conn, hmem, call, hcall, rfl⟩ := step_cases h
  · exact advance_slots h
  · exact ⟨le_rfl, fun _ ↦ rfl⟩
  · have hzero : slots.call ⟨pc, [], {}⟩ = 0 := by
      cases pc <;> first | rfl | cases hpc
    simp [Follows, State.enter, hzero]
  · have hone : slots.call call = 1 := by rcases hcall with rfl | rfl | rfl <;> rfl
    have hlen := List.length_erase_of_mem hmem
    have hpos := List.length_pos_of_mem hmem
    simp only [Follows, State.enter, State.letGo, total_append, total_cons, total_nil, hone, hlen]
    exact ⟨by omega, fun _ ↦ by omega⟩

end

theorem step_balanced (s : State) (e : Event) (t : State) (hs : Balanced s)
    (hg : slotSafe s e = true) (h : s.step e = some t) : Balanced t := by
  have hstep := (step_slots h).2 hg
  unfold Balanced at hs ⊢
  omega

def resting : Call → Bool
  | ⟨.straight, [], _⟩ => true
  | ⟨.wait _, [], w⟩ => w.ch.isNone
  | _ => false

theorem slots_resting {call : Call} (h : resting call = true) : slots.call call = 0 := by
  unfold resting at h
  split at h
  · rfl
  · rename_i w
    simp only [Option.isNone_iff_eq_none] at h
    simp [Weight.call, h, slots]
  · cases h

/-- In a run in which hand-offs arrive and are not given up again, `active` is the number of
connections that callers hold whenever no call is under way. -/
theorem active_eq_held {cfg : Config} {es : List Event} {s : State}
    (h : Run State.step slotSafe (new cfg) es s) (hq : s.calls.all resting = true) :
    s.shared.active = s.shared.held.length := by
  have hbal : Balanced s := h.invariant step_balanced rfl
  have hzero : total slots.call s.calls = 0 :=
    total_zero fun call hcall ↦ slots_resting (List.all_eq_true.mp hq call hcall)
  rw [hbal, hzero, add_zero]

def oneSlot : Config := ⟨1, 0, 0, 0, 0, 0, 0⟩

def steps (i n : ℕ) : List Event := List.replicate n (.step i .go 0)

def parkSecond : List Event := .acquire :: steps 0 9 ++ .acquire :: steps 1 7

def handedOver : List Event :=
  parkSecond ++ .release 0 false :: steps 2 4 ++ .step 1 .receive 0 :: steps 1 1

theorem active_eq_held_handedOver :
    ∃ s, Run State.step slotSafe (new oneSlot) handedOver s ∧ s.shared.active = s.shared.held.length := by
  have h : Run State.step slotSafe (new oneSlot) handedOver _ := run_of_exec rfl
  exact ⟨_, h, active_eq_held h (by decide)⟩

def cancelledLate : List Event :=
  parkSecond ++ .release 0 false :: steps 2 4 ++ .step 1 .cancel 0 :: steps 1 7

theorem active_leaks :
    ∃ s, Run State.step anyStep (new oneSlot) cancelledLate s ∧ s.calls.all resting = true ∧
      s.shared.active = 1 ∧ s.shared.held = [] := by
  have h : Run State.step anyStep (new oneSlot) cancelledLate _ := run_of_exec rfl
  exact ⟨_, h, by decide, by decide, by decide⟩

end PgRouter.Pool.Slots
