import Mathlib.Algebra.Order.Group.Multiset
import Mathlib.Tactic.Abel
import PgRouter.Library.Runs
import PgRouter.Pool.Weights

namespace PgRouter.Pool.Promises

open Library.Accounts Model Firing Weights

def taken : Weight (Multiset ℕ) where
  pc
    | .handOff _ w => {w}
    | _ => 0
  op
    | .closeCh w => {w}
    | _ => 0
  boxed _ := 0
  straight := rfl
  awake := rfl

/-- The waiters that will still be answered: those in the queue and those taken from it. -/
def promised (s : State) : Multiset ℕ := ↑s.shared.waiters + total taken.call s.calls

def beforePark : Pc → Bool
  | .preAcquire | .loadClosed | .readIdle | .popIdle _ | .loadActive | .compareSize _ | .casActive _
  | .parkWaiter => true
  | _ => false

def awaits : Pc → Bool
  | .wait _ | .reserveCheck => true
  | _ => false

section Touch

def touch (j : ℕ) (c : Call) : Effect → Call
  | .send w pc => if w = j then { c with waiter := { c.waiter with ch := some pc } } else c
  | .closeCh w => if w = j then { c with waiter := { c.waiter with chClosed := true } } else c
  | .wake => c.wake
  | _ => c

variable {calls : List Call}

theorem getElem?_apply {e : Effect} {j : ℕ} {b : Call} (h : calls[j]? = some b) :
    (e.apply calls)[j]? = some (touch j b e) := by
  cases e with
  | send w pc | closeCh w =>
    rw [Effect.apply, List.getElem?_modify, h, touch]
    split <;> rfl
  | none => exact h
  | wake => simp [Effect.apply, touch, h]
  | spawn cs =>
    rw [Effect.apply, List.getElem?_append_left (List.getElem?_eq_some_iff.mp h).1]
    exact h

theorem cases_getElem?_apply {e : Effect} {j : ℕ} {c : Call}
    (h : (e.apply calls)[j]? = some c) :
    (∃ b, calls[j]? = some b ∧ c = touch j b e) ∨ ∃ cs, e = .spawn cs ∧ c ∈ cs := by
  cases hb : calls[j]? with
  | some b =>
    rw [getElem?_apply hb] at h
    exact Or.inl ⟨b, rfl, (Option.some.inj h).symm⟩
  | none =>
    right
    have hle := List.getElem?_eq_none_iff.mp hb
    cases e with
    | spawn cs =>
      rw [Effect.apply, List.getElem?_append_right hle] at h
      exact ⟨cs, rfl, List.mem_of_getElem? h⟩
    | none => rw [Effect.apply, hb] at h; cases h
    | wake => simp [Effect.apply, hb] at h
    | _ => simp [Effect.apply, List.getElem?_modify, hb] at h

variable (j : ℕ) (c : Call) (e : Effect)

theorem touch_pc : (touch j c e).pc = c.pc ∨ c.pc = .drainAsleep ∧ (touch j c e).pc = .drainLoad := by
  cases e with
  | wake =>
    rw [touch, Call.wake]
    split
    · exact Or.inr ⟨‹_›, rfl⟩
    · exact Or.inl rfl
  | send w pc | closeCh w =>
    rw [touch]
    split <;> exact Or.inl rfl
  | _ => exact Or.inl rfl

theorem touch_congr {β : Type} (f : Pc → β) (hf : f .drainAsleep = f .drainLoad) :
    f (touch j c e).pc = f c.pc := by
  rcases touch_pc j c e with h | ⟨h, h'⟩
  · rw [h]
  · rw [h, h', hf]

theorem touch_waiter (hs : ∀ w pc, e = .send w pc → w ≠ j) (hc : ∀ w, e = .closeCh w → w ≠ j) :
    (touch j c e).waiter = c.waiter := by
  cases e with
  | send w pc => rw [touch, if_neg (hs w pc rfl)]
  | closeCh w => rw [touch, if_neg (hc w rfl)]
  | wake =>
    rw [touch, Call.wake]
    split <;> rfl
  | _ => rfl

theorem touch_keeps : (touch j c e).todo = c.todo ∧ (touch j c e).waiter.canceled = c.waiter.canceled := by
  cases e with
  | wake =>
    rw [touch, Call.wake]
    split <;> exact ⟨rfl, rfl⟩
  | send w pc | closeCh w =>
    rw [touch]
    split <;> exact ⟨rfl, rfl⟩
  | _ => exact ⟨rfl, rfl⟩

theorem touch_todo : (touch j c e).todo = c.todo := (touch_keeps j c e).1

end Touch

/-- What a step of call `i` does about the waiters that are to be answered. -/
inductive Answering (s : Shared) (waiterOf : ℕ → Waiter) (i : ℕ) (own : Waiter) (p : Point) (o : Outcome) :
    Prop
  | same (hw : ↑o.shared.waiters + taken.outcome o = ↑s.waiters + taken.point own p)
      (hp : p ≠ .at .parkWaiter) (hs : ∀ w pc, o.effect ≠ .send w pc)
      (hc : ∀ w, o.effect ≠ .closeCh w)
  | park (hp : p = .at .parkWaiter) (hw : o.shared.waiters = s.waiters ++ [i])
      (ht : taken.outcome o = 0) (he : o.effect = .none)
  | leave (hw : o.shared.waiters = s.waiters.erase i) (ht : taken.outcome o = 0)
      (hzero : taken.point own p = 0) (hp : p ≠ .at .parkWaiter) (ha : awaits o.pc = false)
      (he : o.effect = .none)
  | send {w : ℕ} {pc : PooledConn} (hp : p = .at (.handOff pc w)) (hw : o.shared.waiters = s.waiters)
      (ht : taken.outcome o = 0) (he : o.effect = .send w pc)
  | skip {w : ℕ} {pc : PooledConn} (hp : p = .at (.handOff pc w))
      (hcanceled : (waiterOf w).canceled = true) (hw : o.shared.waiters = s.waiters)
      (ht : taken.outcome o = 0) (he : o.effect = .none)
  | close {w : ℕ} (hp : p = .op (.closeCh w)) (hw : o.shared.waiters = s.waiters)
      (ht : taken.outcome o = 0) (he : o.effect = .closeCh w)
  | crash {w : ℕ} (hp : (∃ pc, p = .at (.handOff pc w)) ∨ p = .op (.closeCh w))
      (hclosed : (waiterOf w).chClosed = true)

/-- A goroutine that a call starts. -/
inductive Spawned : Call → Prop
  | closer (c : ℕ) : Spawned ⟨.straight, [.close c], {}⟩
  | drainer : Spawned ⟨.drainLoad, [], {}⟩

/-- Where call goes and what becomes of its own waiter. -/
structure Course (s : Shared) (waiterOf : ℕ → Waiter) (own : Waiter) (p : Point) (o : Outcome) : Prop where
  parks : beforePark o.pc = true → ∃ pc, p = .at pc ∧ beforePark pc = true
  waits : awaits o.pc = true →
    p = .at .parkWaiter ∧ o.waiter = {} ∨ ∃ pc, p = .at pc ∧ awaits pc = true ∧ o.waiter = own
  cancels : o.pc = .closeCanceled → ∃ pc, p = .at pc ∧ awaits pc = true ∧ o.waiter = own
  channel : p = .at .parkWaiter ∨
    (o.waiter.ch = none ∨ o.waiter.ch = own.ch) ∧ o.waiter.chClosed = own.chClosed
  nil : o.pc = .cancelLoadClosed none →
    p = .at .drainCh ∧ own.chClosed = true ∨ p = .at (.cancelLoadClosed none)
  panics : o.shared.panicked = true → s.panicked = true ∨ p = .at (.cancelLoadClosed none) ∨
    ∃ w, ((∃ pc, p = .at (.handOff pc w)) ∨ p = .op (.closeCh w)) ∧ (waiterOf w).chClosed = true
  spawns : ∀ cs, o.effect = .spawn cs → ∀ call ∈ cs, Spawned call

theorem box_taken (pc : Pc) (w : Waiter) : taken.box pc w = 0 := by simp [taken]

theorem total_closeCh (ws : List ℕ) : total taken.op (ws.map .closeCh) = ↑ws := by
  induction ws with
  | nil => rfl
  | cons w ws ih =>
    rw [List.map_cons, total_cons, ih]
    rfl

section

variable {s : Shared} {waiterOf : ℕ → Waiter} {i : ℕ} {now : ℤ} {own : Waiter} {c : Choice} {p : Point}
  {o : Outcome}

theorem fire_answering (h : fire s waiterOf i now own c p = some o) : Answering s waiterOf i own p o := by
  cases fired h with
  | parks => exact .park rfl rfl (by simp [taken, listens]) rfl
  | sendPanics hclosed => exact .crash (.inl ⟨_, rfl⟩) hclosed
  | closePanics hclosed => exact .crash (.inr rfl) hclosed
  | sends => exact .send rfl rfl (by simp [taken, listens]) rfl
  | skips hcanceled => exact .skip rfl hcanceled rfl (by simp [taken, listens]) rfl
  | closeCh => exact .close rfl rfl (by simp [taken, listens]) rfl
  | dequeue | reserves =>
    exact .leave rfl (by simp [taken, listens]) (by simp [taken, listens]) (by simp) rfl rfl
  | popsWaiter hw =>
    refine .same ?_ (by simp) (by simp) (by simp)
    simp [taken, listens, hw, ← Multiset.cons_coe, ← Multiset.singleton_add, add_comm]
  | @takesWaiters idle deadline =>
    refine .same ?_ (by simp) (by simp) (by simp)
    have hclose : total taken.op (idle.map fun pc ↦ .close pc.conn) = 0 := by
      rw [total_map]
      exact total_zero fun _ _ ↦ rfl
    simp only [Weight.outcome, total_append, total_closeCh, hclose]
    cases deadline <;> simp [taken, listens]
  | evicts =>
    refine .same ?_ (by simp) (by simp) (by simp)
    simp only [Weight.outcome, total_map]
    rw [total_zero (f := fun pc : PooledConn ↦ taken.op (.close pc.conn)) fun _ _ ↦ rfl]
    simp [taken, listens, Shared.swapIdle, Shared.setQueue]
  | _ =>
    refine .same ?_ ?_ ?_ ?_
    · simp only [Weight.outcome, Weight.point, box_taken]
      simp [taken, Shared.panic, Shared.swapIdle, Shared.setQueue, Shared.push]
    · intro hp
      cases hp
    · intro w pc he
      cases he
    · intro w he
      cases he

theorem fire_course (h : fire s waiterOf i now own c p = some o) : Course s waiterOf own p o := by
  cases fired h with
  | admitted | unshut | readIdle | popsNothing | loadActive | below | full | misses =>
    exact ⟨fun _ ↦ ⟨_, rfl, rfl⟩, nofun, nofun, .inr ⟨.inr rfl, rfl⟩, nofun, .inl, nofun⟩
  | parks => exact ⟨nofun, fun _ ↦ .inl ⟨rfl, rfl⟩, nofun, .inl rfl, nofun, .inl, nofun⟩
  | asks | reserveFull =>
    exact ⟨nofun, fun _ ↦ .inr ⟨_, rfl, rfl, rfl⟩, nofun, .inr ⟨.inr rfl, rfl⟩, nofun, .inl, nofun⟩
  | givesUp => exact ⟨nofun, nofun, fun _ ↦ ⟨_, rfl, rfl, rfl⟩, .inr ⟨.inr rfl, rfl⟩, nofun, .inl, nofun⟩
  | receives | finds => exact ⟨nofun, nofun, nofun, .inr ⟨.inl rfl, rfl⟩, nofun, .inl, nofun⟩
  | findsClosed _ hclosed =>
    exact ⟨nofun, nofun, nofun, .inr ⟨.inr rfl, rfl⟩, fun _ ↦ .inl ⟨rfl, hclosed⟩, .inl, nofun⟩
  | derefs =>
    exact ⟨nofun, nofun, nofun, .inr ⟨.inr rfl, rfl⟩, fun _ ↦ .inr rfl, fun _ ↦ .inr (.inl rfl), nofun⟩
  | sendPanics hclosed =>
    exact ⟨nofun, nofun, nofun, .inr ⟨.inr rfl, rfl⟩, nofun,
      fun _ ↦ .inr (.inr ⟨_, .inl ⟨_, rfl⟩, hclosed⟩), nofun⟩
  | closePanics hclosed =>
    exact ⟨nofun, nofun, nofun, .inr ⟨.inr rfl, rfl⟩, nofun, fun _ ↦ .inr (.inr ⟨_, .inr rfl, hclosed⟩), nofun⟩
  | startDrain =>
    refine ⟨nofun, nofun, nofun, .inr ⟨.inr rfl, rfl⟩, nofun, .inl, fun cs he ↦ ?_⟩
    cases he
    exact List.forall_mem_singleton.mpr .drainer
  | resizes =>
    refine ⟨nofun, nofun, nofun, .inr ⟨.inr rfl, rfl⟩, nofun, .inl, fun cs he call hcall ↦ ?_⟩
    cases he
    obtain ⟨pc, -, rfl⟩ := List.mem_map.mp hcall
    exact .closer _
  | _ => exact ⟨nofun, nofun, nofun, .inr ⟨.inr rfl, rfl⟩, nofun, .inl, nofun⟩

end

/-- A waiter that is to be answered has an open and empty channel, and whoever waits for an answer
is to get one. -/
structure Kept (s : State) : Prop where
  nodup : (promised s).Nodup
  parked : ∀ w ∈ promised s, ∃ call, s.calls[w]? = some call ∧ beforePark call.pc = false ∧
    call.waiter.ch = none ∧ call.waiter.chClosed = false
  answered : ∀ w call, s.calls[w]? = some call → awaits call.pc = true → call.waiter.ch = none →
    call.waiter.chClosed = false → w ∈ promised s
  uncanceled : ∀ call ∈ s.calls, awaits call.pc = true ∨ call.pc = .closeCanceled →
    call.waiter.canceled = false

section

variable {s : State} {i : ℕ} {now : ℤ} {c : Choice} {call : Call} {p : Point} {todo : List Op} {o : Outcome} {w : ℕ}

theorem waiter_eq {c : Call} (h : s.calls[w]? = some c) : s.waiterOf w = c.waiter := by
  simp [State.waiterOf, h]

theorem mem_promised_of_point (hcall : s.calls[i]? = some call) (hpoint : call.point = some (p, todo))
    (hp : (∃ pc, p = .at (.handOff pc w)) ∨ p = .op (.closeCh w)) : w ∈ promised s := by
  obtain ⟨rest, hrest⟩ := taken.total_eq_add_point hcall hpoint
  rw [promised, hrest]
  rcases hp with ⟨pc, rfl⟩ | rfl <;> simp [taken]

theorem Kept.open_of_point (hs : Kept s) (hcall : s.calls[i]? = some call)
    (hpoint : call.point = some (p, todo))
    (hp : (∃ pc, p = .at (.handOff pc w)) ∨ p = .op (.closeCh w)) :
    (s.waiterOf w).ch = none ∧ (s.waiterOf w).chClosed = false := by
  obtain ⟨c, hc, -, hch, hclosed⟩ := hs.parked w (mem_promised_of_point hcall hpoint hp)
  rw [waiter_eq hc]
  exact ⟨hch, hclosed⟩

theorem proceed_call (hcall : s.calls[i]? = some call) {j : ℕ} {c' : Call}
    (h : (s.proceed i todo o).calls[j]? = some c') :
    (∃ b, c' = touch j b o.effect ∧
      (j = i ∧ b = ⟨o.pc, o.todo ++ todo, o.waiter⟩ ∨ j ≠ i ∧ s.calls[j]? = some b)) ∨
      ∃ cs, o.effect = .spawn cs ∧ c' ∈ cs := by
  rcases cases_getElem?_apply h with ⟨b, hb, rfl⟩ | hspawn
  · refine Or.inl ⟨b, rfl, ?_⟩
    by_cases hj : j = i
    · subst hj
      rw [List.getElem?_set_self (List.getElem?_eq_some_iff.mp hcall).1] at hb
      exact Or.inl ⟨rfl, (Option.some.inj hb).symm⟩
    · rw [List.getElem?_set_ne (Ne.symm hj)] at hb
      exact Or.inr ⟨hj, hb⟩
  · exact Or.inr hspawn

theorem mem_proceed (hcall : s.calls[i]? = some call)
    (h : fire s.shared s.waiterOf i now call.waiter c p = some o) {c' : Call} (hc' : c' ∈ (s.proceed i todo o).calls) :
    (∃ j b, c' = touch j b o.effect ∧ (b = ⟨o.pc, o.todo ++ todo, o.waiter⟩ ∨ b ∈ s.calls)) ∨ Spawned c' := by
  obtain ⟨j, hj⟩ := List.getElem?_of_mem hc'
  rcases proceed_call hcall hj with ⟨b, hb, ⟨-, rfl⟩ | ⟨-, hmem⟩⟩ | ⟨cs, hspawn, hmem⟩
  · exact Or.inl ⟨j, _, hb, Or.inl rfl⟩
  · exact Or.inl ⟨j, b, hb, Or.inr (List.mem_of_getElem? hmem)⟩
  · exact Or.inr ((fire_course h).spawns cs hspawn c' hmem)

theorem ofEffect_taken (h : fire s.shared s.waiterOf i now call.waiter c p = some o) :
    taken.ofEffect s.calls o.effect = 0 := by
  cases he : o.effect with
  | send w pc =>
    simp only [Weight.ofEffect]
    split
    · split <;> rfl
    · rfl
  | spawn cs =>
    refine total_zero fun c' hc' ↦ ?_
    cases (fire_course h).spawns cs he c' hc' <;> simp [Weight.call, taken, listens]
  | _ => rfl

theorem promised_proceed (hcall : s.calls[i]? = some call) (hpoint : call.point = some (p, todo))
    (h : fire s.shared s.waiterOf i now call.waiter c p = some o) :
    promised (s.proceed i todo o) + taken.point call.waiter p =
      ↑o.shared.waiters + taken.outcome o + total taken.call s.calls := by
  have hshared : (s.proceed i todo o).shared = o.shared := rfl
  rw [promised, hshared, add_assoc, taken.total_proceed hcall hpoint h, ofEffect_taken h]
  abel

theorem Kept.proceed (hs : Kept s) (hcall : s.calls[i]? = some call)
    (hpoint : call.point = some (p, todo))
    (h : fire s.shared s.waiterOf i now call.waiter c p = some o)
    (hnodup : (promised (s.proceed i todo o)).Nodup)
    (hold : ∀ w ∈ promised (s.proceed i todo o), w ∈ promised s ∨ p = .at .parkWaiter ∧ w = i)
    (hsent : ∀ w pc, o.effect = .send w pc → w ∉ promised (s.proceed i todo o))
    (hclosed : ∀ w, o.effect = .closeCh w → w ∉ promised (s.proceed i todo o))
    (hkeep : ∀ w ∈ promised s, w ∈ promised (s.proceed i todo o) ∨ w = i ∧ awaits o.pc = false ∨
      (∃ pc, o.effect = .send w pc) ∨ o.effect = .closeCh w ∨ (s.waiterOf w).canceled = true)
    (hpark : p = .at .parkWaiter → i ∈ promised (s.proceed i todo o)) : Kept (s.proceed i todo o) := by
  have hcourse := fire_course h
  have hpc {pc : Pc} (hp : p = .at pc) : call.pc = pc := by
    subst hp
    exact Weight.pc_of_point hpoint
  refine ⟨hnodup, fun w hw ↦ ?_, fun w c' hc' ha hch hcl ↦ ?_, fun c' hc' ha ↦ ?_⟩
  · -- a waiter that is still to be answered is not the one the step answers
    have hwaiter (b : Call) : (touch w b o.effect).waiter = b.waiter :=
      touch_waiter w b o.effect (fun v pc he hv ↦ hsent v pc he (hv ▸ hw))
        fun v he hv ↦ hclosed v he (hv ▸ hw)
    by_cases hwi : w = i
    · subst hwi
      have hbase : (s.calls.set w ⟨o.pc, o.todo ++ todo, o.waiter⟩)[w]? =
          some ⟨o.pc, o.todo ++ todo, o.waiter⟩ :=
        List.getElem?_set_self (List.getElem?_eq_some_iff.mp hcall).1
      refine ⟨_, getElem?_apply hbase, ?_⟩
      rw [touch_congr _ _ _ beforePark rfl, hwaiter]
      by_cases hp : p = .at .parkWaiter
      · subst hp
        obtain ⟨hpc', hown⟩ : o.pc = .wait true ∧ o.waiter = {} := by
          cases fired h
          exact ⟨rfl, rfl⟩
        simp [hpc', hown, beforePark]
      · have hin : w ∈ promised s := (hold w hw).resolve_right fun hpark ↦ hp hpark.1
        obtain ⟨c', hc', hbefore, hch, hcl⟩ := hs.parked w hin
        obtain rfl : call = c' := Option.some.inj (hcall.symm.trans hc')
        obtain ⟨hch', hcl'⟩ := hcourse.channel.resolve_left hp
        refine ⟨?_, ?_, hcl'.trans hcl⟩
        · by_contra htrue
          obtain ⟨pc, hpc', hpark⟩ := hcourse.parks (by simpa using htrue)
          rw [hpc hpc', hpark] at hbefore
          cases hbefore
        · exact hch'.elim id fun hch' ↦ hch'.trans hch
    · have hin : w ∈ promised s := (hold w hw).resolve_right fun hpark ↦ hwi hpark.2
      obtain ⟨c', hc', hbefore, hch, hcl⟩ := hs.parked w hin
      have hbase : (s.calls.set i ⟨o.pc, o.todo ++ todo, o.waiter⟩)[w]? = some c' := by
        rw [List.getElem?_set_ne (Ne.symm hwi), hc']
      refine ⟨_, getElem?_apply hbase, ?_⟩
      rw [touch_congr _ _ _ beforePark rfl, hwaiter]
      exact ⟨hbefore, hch, hcl⟩
  · rcases proceed_call hcall hc' with ⟨b, rfl, hb⟩ | ⟨cs, hspawn, hmem⟩
    · rw [touch_congr _ _ _ awaits rfl] at ha
      -- nothing has arrived, so the step was not an answer to this call
      have hsend : ∀ v pc, o.effect = .send v pc → v ≠ w := by
        rintro v pc he rfl
        rw [he, touch, if_pos rfl] at hch
        cases hch
      have hclose : ∀ v, o.effect = .closeCh v → v ≠ w := by
        rintro v he rfl
        rw [he, touch, if_pos rfl] at hcl
        cases hcl
      rw [touch_waiter w b o.effect hsend hclose] at hch hcl
      rcases hb with ⟨rfl, rfl⟩ | ⟨hwi, hb⟩
      · rcases hcourse.waits ha with ⟨hp, -⟩ | ⟨pc, hp, hawaits, hown⟩
        · exact hpark hp
        · have hown' : o.waiter = call.waiter := hown
          have hin := hs.answered w call hcall (by rw [hpc hp, hawaits]) (hown' ▸ hch) (hown' ▸ hcl)
          rcases hkeep w hin with h' | ⟨-, h'⟩ | ⟨pc', h'⟩ | h' | h'
          · exact h'
          · rw [show awaits o.pc = true from ha] at h'
            cases h'
          · exact absurd rfl (hsend w pc' h')
          · exact absurd rfl (hclose w h')
          · rw [waiter_eq hcall, hs.uncanceled call (List.mem_of_getElem? hcall)
              (Or.inl (by rw [hpc hp, hawaits]))] at h'
            cases h'
      · have hin := hs.answered w b hb ha hch hcl
        rcases hkeep w hin with h' | ⟨h', -⟩ | ⟨pc', h'⟩ | h' | h'
        · exact h'
        · exact absurd h' hwi
        · exact absurd rfl (hsend w pc' h')
        · exact absurd rfl (hclose w h')
        · rw [waiter_eq hb, hs.uncanceled b (List.mem_of_getElem? hb) (Or.inl ha)] at h'
          cases h'
    · cases hcourse.spawns cs hspawn c' hmem <;> cases ha
  · obtain ⟨j, hj⟩ := List.getElem?_of_mem hc'
    rcases proceed_call hcall hj with ⟨b, rfl, hb⟩ | ⟨cs, hspawn, hmem⟩
    · have ha' : awaits b.pc = true ∨ b.pc = .closeCanceled := by
        refine ha.imp (fun ha ↦ by rwa [touch_congr _ _ _ awaits rfl] at ha) fun ha ↦ ?_
        rcases touch_pc j b o.effect with h' | ⟨-, h'⟩
        · rw [← h', ha]
        · rw [h'] at ha
          cases ha
      rw [(touch_keeps _ _ _).2]
      rcases hb with ⟨rfl, rfl⟩ | ⟨-, hb⟩
      · have hown (hown : ∃ pc, p = .at pc ∧ awaits pc = true ∧ o.waiter = call.waiter) :
            o.waiter.canceled = false := by
          obtain ⟨pc, hp, hawaits, hown⟩ := hown
          rw [hown]
          exact hs.uncanceled call (List.mem_of_getElem? hcall) (Or.inl (by rw [hpc hp, hawaits]))
        rcases ha' with ha' | ha'
        · rcases hcourse.waits ha' with ⟨-, hempty⟩ | hsame
          · exact congrArg Waiter.canceled hempty
          · exact hown hsame
        · exact hown (hcourse.cancels ha')
      · exact hs.uncanceled b (List.mem_of_getElem? hb) ha'
    · cases hcourse.spawns cs hspawn c' hmem <;> rcases ha with ha | ha <;> cases ha

theorem Kept.proceed_answer (hs : Kept s) (hcall : s.calls[i]? = some call)
    (hpoint : call.point = some (p, todo))
    (h : fire s.shared s.waiterOf i now call.waiter c p = some o)
    (hp : (∃ pc, p = .at (.handOff pc w)) ∨ p = .op (.closeCh w))
    (hw : o.shared.waiters = s.shared.waiters) (ht : taken.outcome o = 0)
    (he : (∃ pc, o.effect = .send w pc) ∨ o.effect = .closeCh w ∨
      o.effect = .none ∧ (s.waiterOf w).canceled = true) : Kept (s.proceed i todo o) := by
  have hpoint_eq : taken.point call.waiter p = {w} := by rcases hp with ⟨pc, rfl⟩ | rfl <;> simp [taken]
  have hpromised : promised s = w ::ₘ promised (s.proceed i todo o) := by
    have hproceed := promised_proceed hcall hpoint h
    rw [hpoint_eq, hw, ht, add_zero, add_comm, Multiset.singleton_add] at hproceed
    exact hproceed.symm
  have hnodup := hs.nodup
  rw [hpromised, Multiset.nodup_cons] at hnodup
  refine hs.proceed hcall hpoint h hnodup.2 (fun v hv ↦ Or.inl ?_) ?_ ?_ (fun v hv ↦ ?_) ?_
  · rw [hpromised]
    exact Multiset.mem_cons_of_mem hv
  · intro v pc hv
    rcases he with ⟨pc', he⟩ | he | ⟨he, -⟩ <;> rw [hv] at he <;> cases he
    exact hnodup.1
  · intro v hv
    rcases he with ⟨pc', he⟩ | he | ⟨he, -⟩ <;> rw [hv] at he <;> cases he
    exact hnodup.1
  · rw [hpromised, Multiset.mem_cons] at hv
    rcases hv with rfl | hv
    · exact Or.inr (Or.inr (he.imp_right fun he ↦ he.imp_right And.right))
    · exact Or.inl hv
  · rintro rfl
    rcases hp with ⟨pc, hp⟩ | hp <;> cases hp

theorem advance_kept {t : State} (hs : Kept s) (h : s.advance i c now = some t) : Kept t := by
  obtain ⟨call, p, todo, o, hcall, -, hpoint, -, hfire, rfl⟩ := advance_cases h
  have hproceed := promised_proceed hcall hpoint hfire
  have hnoSend (he : o.effect = .none) (w : ℕ) (pc : PooledConn) : o.effect ≠ .send w pc := by
    rw [he]
    nofun
  have hnoClose (he : o.effect = .none) (w : ℕ) : o.effect ≠ .closeCh w := by
    rw [he]
    nofun
  cases fire_answering hfire with
  | same hw hp hsend hclose =>
    have heq : promised (s.proceed i todo o) = promised s := by
      rw [hw, add_right_comm] at hproceed
      exact add_right_cancel hproceed
    refine hs.proceed hcall hpoint hfire (heq ▸ hs.nodup) (fun w hw ↦ Or.inl (heq ▸ hw))
      (fun w pc he ↦ absurd he (hsend w pc)) (fun w he ↦ absurd he (hclose w))
      (fun w hw ↦ Or.inl (heq ▸ hw)) fun hpark ↦ absurd hpark hp
  | park hp hw ht he =>
    subst hp
    have heq : promised (s.proceed i todo o) = i ::ₘ promised s := by
      have hzero : taken.point call.waiter (.at .parkWaiter) = 0 := by simp [taken]
      rw [hzero, add_zero, hw, ht, add_zero, ← Multiset.coe_add] at hproceed
      rw [hproceed, promised, ← Multiset.singleton_add, Multiset.coe_singleton]
      abel
    have hfresh : i ∉ promised s := by
      intro hi
      obtain ⟨c', hc', hbefore, -⟩ := hs.parked i hi
      obtain rfl : call = c' := Option.some.inj (hcall.symm.trans hc')
      rw [Weight.pc_of_point hpoint] at hbefore
      cases hbefore
    refine hs.proceed hcall hpoint hfire ?_ ?_ (fun w pc hs ↦ absurd hs (hnoSend he w pc))
      (fun w hs ↦ absurd hs (hnoClose he w)) ?_ ?_
    · rw [heq]
      exact Multiset.nodup_cons.mpr ⟨hfresh, hs.nodup⟩
    · intro w hw
      rw [heq, Multiset.mem_cons] at hw
      exact hw.symm.imp_right fun hw ↦ ⟨rfl, hw⟩
    · intro w hw
      rw [heq]
      exact Or.inl (Multiset.mem_cons_of_mem hw)
    · rw [heq]
      exact fun _ ↦ Multiset.mem_cons_self i _
  | leave hw ht hzero hp ha he =>
    have heq : promised (s.proceed i todo o) =
        (s.shared.waiters : Multiset ℕ).erase i + total taken.call s.calls := by
      rw [hzero, add_zero, hw, ht, add_zero] at hproceed
      rw [hproceed, Multiset.coe_erase]
    have hle : promised (s.proceed i todo o) ≤ promised s := by
      rw [heq, promised]
      exact add_le_add_left (Multiset.erase_le i _) _
    refine hs.proceed hcall hpoint hfire (Multiset.nodup_of_le hle hs.nodup)
      (fun w hw ↦ Or.inl (Multiset.mem_of_le hle hw)) (fun w pc hs ↦ absurd hs (hnoSend he w pc))
      (fun w hs ↦ absurd hs (hnoClose he w)) ?_ fun hpark ↦ absurd hpark hp
    · intro w hw
      by_cases hwi : w = i
      · exact Or.inr (Or.inl ⟨hwi, ha⟩)
      · left
        rw [promised, Multiset.mem_add] at hw
        rw [heq, Multiset.mem_add, Multiset.mem_erase_of_ne hwi]
        exact hw
  | send hp hw ht he => exact hs.proceed_answer hcall hpoint hfire (Or.inl ⟨_, hp⟩) hw ht (Or.inl ⟨_, he⟩)
  | skip hp hcanceled hw ht he =>
    exact hs.proceed_answer hcall hpoint hfire (Or.inl ⟨_, hp⟩) hw ht (Or.inr (Or.inr ⟨he, hcanceled⟩))
  | close hp hw ht he =>
    exact hs.proceed_answer hcall hpoint hfire (Or.inr hp) hw ht (Or.inr (Or.inl he))
  | crash hp hclosed =>
    rw [(hs.open_of_point hcall hpoint hp).2] at hclosed
    cases hclosed

end

theorem kept_enter {s : State} {call : Call} (hs : Kept s) (htaken : taken.call call = 0)
    (hpc : awaits call.pc = false ∧ call.pc ≠ .closeCanceled) : Kept (s.enter call) := by
  have heq : promised (s.enter call) = promised s := by
    simp [promised, State.enter, htaken]
  refine ⟨heq ▸ hs.nodup, ?_, ?_, ?_⟩
  · intro w hw
    rw [heq] at hw
    obtain ⟨c, hc, hrest⟩ := hs.parked w hw
    refine ⟨c, ?_, hrest⟩
    rw [State.enter, List.getElem?_append_left (List.getElem?_eq_some_iff.mp hc).1, hc]
  · intro w c hc ha hch hcl
    rw [heq]
    by_cases hlt : w < s.calls.length
    · rw [State.enter, List.getElem?_append_left hlt] at hc
      exact hs.answered w c hc ha hch hcl
    · rw [State.enter, List.getElem?_append_right (by omega)] at hc
      cases List.mem_singleton.mp (List.mem_of_getElem? hc)
      rw [hpc.1] at ha
      cases ha
  · intro c hc ha
    rcases List.mem_append.mp hc with hc | hc
    · exact hs.uncanceled c hc ha
    · cases List.mem_singleton.mp hc
      rcases ha with ha | ha
      · rw [hpc.1] at ha
        cases ha
      · exact absurd ha hpc.2

theorem step_kept (s : State) (e : Event) (t : State) (hs : Kept s) (h : s.step e = some t) : Kept t := by
  obtain ⟨i, c, now, rfl, h⟩ | rfl | ⟨pc, hpc, rfl⟩ | ⟨conn, hmem, call, hcall, rfl⟩ := step_cases h
  · exact advance_kept hs h
  · exact hs
  · have htaken : taken.call ⟨pc, [], {}⟩ = 0 := by
      cases pc <;> first | rfl | cases hpc
    refine kept_enter hs htaken ?_
    cases pc <;> first | (cases hpc; done) | exact ⟨rfl, nofun⟩
  · have hletGo : Kept (s.letGo conn) := ⟨hs.nodup, hs.parked, hs.answered, hs.uncanceled⟩
    refine kept_enter hletGo ?_ ?_
    · rcases hcall with rfl | rfl | rfl <;> rfl
    · rcases hcall with rfl | rfl | rfl <;> exact ⟨rfl, nofun⟩

theorem kept_new (cfg : Config) : Kept (new cfg) where
  nodup := by simp [promised, new]
  parked w hw := by simp [promised, new] at hw
  answered w call h := by simp [new] at h
  uncanceled call h := by simp [new] at h

end PgRouter.Pool.Promises
