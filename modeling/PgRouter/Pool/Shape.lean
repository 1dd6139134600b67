import PgRouter.Pool.Ownership
import PgRouter.Pool.Promises

namespace PgRouter.Pool.Shape

open Library.Accounts Library.Runs Model Firing Weights Slots Channels Ownership Promises

/-- Whatever happens, `active` counts at least the connections that callers hold and the slots of the calls under
way. -/
def Covered (s : State) : Prop := s.shared.held.length + total slots.call s.calls ≤ s.shared.active

theorem step_covered (s : State) (e : Event) (t : State) (hs : Covered s) (h : s.step e = some t) : Covered t := by
  have hstep := (step_slots h).1
  rw [Covered] at hs ⊢
  omega

theorem slots_call_nonneg (call : Call) : 0 ≤ slots.call call := by
  have hpc : 0 ≤ slots.pc call.pc := by
    cases call.pc <;> simp [slots]
  have hop : 0 ≤ total slots.op call.todo := by
    refine total_nonneg ?_
    intro op _
    cases op <;> simp [slots]
  have hbox : 0 ≤ slots.box call.pc call.waiter := by
    rw [Weight.box]
    split
    · cases call.waiter.ch <;> simp [slots]
    · exact le_refl 0
  rw [Weight.call]
  omega

theorem Covered.active_nonneg {s : State} (h : Covered s) : 0 ≤ s.shared.active := by
  have htotal : 0 ≤ total slots.call s.calls := total_nonneg fun call _ ↦ slots_call_nonneg call
  rw [Covered] at h
  omega

section Shapes

variable {s s' : Shared}

/-- The sizes are in order, the idle channel has the size of the pool, and no channel holds more than it may. -/
structure Shaped (s : Shared) : Prop where
  size : 1 ≤ s.cfg.defaultPoolSize
  floor : 0 ≤ s.cfg.minPoolSize
  floor_le : s.cfg.minPoolSize ≤ s.cfg.defaultPoolSize
  cap : (s.channel s.idle).cap = s.cfg.defaultPoolSize
  len : ∀ ch, (s.channel ch).queue.length ≤ (s.channel ch).cap

theorem cap_setQueue (s : Shared) (ch j : ℕ) (queue : List PooledConn) :
    ((s.setQueue ch queue).channel j).cap = (s.channel j).cap := by
  by_cases hj : j = ch
  · subst hj
    by_cases hlt : j < s.chans.length
    · simp [Shared.setQueue, Shared.channel, List.getD_eq_getElem?_getD, hlt]
    · rw [setQueue_of_length_le (by omega)]
  · rw [channel_setQueue_ne hj]

theorem len_setQueue (h : ∀ ch, (s.channel ch).queue.length ≤ (s.channel ch).cap) {ch : ℕ} {queue : List PooledConn}
    (hqueue : queue.length ≤ (s.channel ch).cap) (j : ℕ) :
    ((s.setQueue ch queue).channel j).queue.length ≤ ((s.setQueue ch queue).channel j).cap := by
  rw [cap_setQueue]
  by_cases hj : j = ch
  · subst hj
    by_cases hlt : j < s.chans.length
    · rw [queue_setQueue_self hlt]
      exact hqueue
    · rw [setQueue_of_length_le (by omega)]
      exact h j
  · rw [channel_setQueue_ne hj]
    exact h j

theorem Shaped.congr (hs : Shaped s) (hcfg : s'.cfg = s.cfg) (hidle : s'.idle = s.idle)
    (hcap : ∀ ch, (s'.channel ch).cap = (s.channel ch).cap)
    (hlen : ∀ ch, (s'.channel ch).queue.length ≤ (s'.channel ch).cap) : Shaped s' where
  size := hcfg ▸ hs.size
  floor := hcfg ▸ hs.floor
  floor_le := hcfg ▸ hs.floor_le
  cap := by rw [hidle, hcap, hcfg, hs.cap]
  len := hlen

theorem Shaped.swap (hs : Shaped s) (cfg : Config) {kept : List PooledConn} (hsize : 1 ≤ cfg.defaultPoolSize)
    (hfloor : 0 ≤ cfg.minPoolSize) (hle : cfg.minPoolSize ≤ cfg.defaultPoolSize)
    (hkept : (kept.length : ℤ) ≤ cfg.defaultPoolSize) :
    Shaped { s.swapIdle cfg.defaultPoolSize.toNat kept with cfg := cfg } where
  size := hsize
  floor := hfloor
  floor_le := hle
  cap := by
    have hchannel := channel_swapIdle s cfg.defaultPoolSize.toNat kept
    change (((s.swapIdle cfg.defaultPoolSize.toNat kept).channel
      (s.swapIdle cfg.defaultPoolSize.toNat kept).idle).cap : ℤ) = cfg.defaultPoolSize
    rw [hchannel]
    exact Int.toNat_of_nonneg (by omega)
  len := by
    intro ch
    change ((s.swapIdle cfg.defaultPoolSize.toNat kept).channel ch).queue.length ≤
      ((s.swapIdle cfg.defaultPoolSize.toNat kept).channel ch).cap
    by_cases hch : ch = (s.swapIdle cfg.defaultPoolSize.toNat kept).idle
    · rw [hch, channel_swapIdle]
      change kept.length ≤ cfg.defaultPoolSize.toNat
      omega
    · rw [channel_swapIdle_ne s _ kept hch]
      exact len_setQueue hs.len (Nat.zero_le _) ch

theorem Shaped.length_idle (hs : Shaped s) : ((s.channel s.idle).queue.length : ℤ) ≤ s.cfg.defaultPoolSize := by
  have hlen := hs.len s.idle
  rw [← hs.cap]
  omega

variable {p : Point} {c : Choice} {i : ℕ} {waiterOf : ℕ → Waiter} {own : Waiter} {now : ℤ} {o : Outcome}

theorem Shaped.evictIdleOnce (hs : Shaped s) (own : Waiter) (now : ℤ) :
    ∃ o, evictIdleOnce s own now = some o ∧ Shaped o.shared := by
  have hlen := length_sweep_le s.cfg now (max (s.cfg.minPoolSize - s.active) 0) (s.channel s.idle).queue
  have hidle := hs.length_idle
  have hfits : ((sweep s.cfg now (max (s.cfg.minPoolSize - s.active) 0) (s.channel s.idle).queue [] []).1.length : ℤ) ≤
      s.cfg.defaultPoolSize := by omega
  refine ⟨_, if_pos hfits, ?_⟩
  exact hs.swap s.cfg hs.size hs.floor hs.floor_le hfits

theorem length_drop_le {s : Shared} (hactive : 0 ≤ s.active) (n : ℤ) :
    (((s.channel s.idle).queue.drop (s.active + (s.channel s.idle).queue.length - max n 1).toNat).length : ℤ) ≤
      max n 1 := by
  rw [List.length_drop]
  omega

theorem exists_resize (hactive : 0 ≤ s.active) (own : Waiter) (n : ℤ) : ∃ o, resize s own n = some o :=
  ⟨_, if_pos (length_drop_le hactive n)⟩

theorem Shaped.resize (hs : Shaped s) {n : ℤ} (h : resize s own n = some o) : Shaped o.shared := by
  simp only [Model.resize] at h
  split at h <;> cases h
  have hfloor := hs.floor
  exact hs.swap { s.cfg with defaultPoolSize := max n 1, minPoolSize := min s.cfg.minPoolSize (max n 1) }
    (le_max_right n 1) (by dsimp only; omega) (min_le_right _ _) ‹_›

theorem Shaped.idle_lt (hs : Shaped s) : s.idle < s.chans.length := by
  by_contra hge
  have hcap := hs.cap
  have hsize := hs.size
  rw [channel_eq_empty (by omega)] at hcap
  change ((0 : ℕ) : ℤ) = _ at hcap
  omega

theorem Shaped.moves (hs : Shaped s) (h : Moves s p s') (hcfg : s'.cfg = s.cfg) (hidle : s'.idle = s.idle) :
    Shaped s' := by
  cases h with
  | same hchans _ =>
    refine hs.congr hcfg hidle (fun ch ↦ by rw [channel_congr hchans]) fun ch ↦ ?_
    rw [channel_congr hchans]
    exact hs.len ch
  | @pop ch pc queue hq hchans _ =>
    have hlen := hs.len ch
    rw [hq, List.length_cons] at hlen
    refine hs.congr hcfg hidle (fun j ↦ by rw [channel_congr hchans, cap_setQueue]) fun j ↦ ?_
    rw [channel_congr hchans]
    exact len_setQueue hs.len (by omega) j
  | @push ch pc hp hroom hchans _ =>
    rw [Shared.push] at hchans
    refine hs.congr hcfg hidle (fun j ↦ by rw [channel_congr hchans, cap_setQueue]) fun j ↦ ?_
    rw [channel_congr hchans]
    refine len_setQueue hs.len ?_ j
    rw [List.length_append, List.length_singleton]
    exact hroom
  | swap _ _ hswap =>
    have hlt := hs.idle_lt
    rw [hidle] at hswap
    exact absurd hswap (Nat.ne_of_lt hlt)

theorem Shaped.fire (hs : Shaped s) (h : fire s waiterOf i now own c p = some o) : Shaped o.shared := by
  obtain ⟨at_, rfl⟩ | ⟨n, rfl⟩ | ⟨hcfg, hidle⟩ := (fire_fields h).2.2.1
  · obtain ⟨o', ho', hshaped⟩ := hs.evictIdleOnce own at_
    simp only [Model.fire, act, ho'] at h
    split at h <;> cases h
    exact hshaped
  · simp only [Model.fire, act] at h
    split at h
    · cases h
    · exact hs.resize h
  · exact hs.moves (fire_moves h) hcfg hidle

theorem shaped_new (cfg : Config) : Shaped (new cfg).shared where
  size := le_max_right _ _
  floor := le_min (le_max_right _ _) (le_trans (by decide) (le_max_right _ _))
  floor_le := min_le_right _ _
  cap := Int.toNat_of_nonneg (le_trans (by decide) (le_max_right _ _))
  len := by
    intro ch
    cases ch with
    | zero => exact Nat.zero_le _
    | succ ch => exact Nat.le_refl 0

end Shapes

section Calm

def quietPc : Pc → Bool
  | .swapClosed _ | .closeReadIdle _ _ | .closePop _ _ _ | .closeTakeWaiters _ _ | .awaitDrain | .drainLoad
  | .drainWait | .drainAsleep | .cancelLoadClosed none => false
  | _ => true

def quietOp : Op → Bool
  | .closeCh _ | .startDrain => false
  | _ => true

def quietCall (call : Call) : Bool := quietPc call.pc && call.todo.all quietOp && !call.waiter.chClosed

def quietEffect : Effect → Bool
  | .closeCh _ => false
  | .spawn cs => cs.all quietCall
  | _ => true

structure Calm (s : State) : Prop where
  wmu : s.shared.wmuHeld = false
  panicked : s.shared.panicked = false
  calls : ∀ call ∈ s.calls, quietCall call = true

structure CalmStep (s : Shared) (o : Outcome) : Prop where
  pc : quietPc o.pc = true
  todo : o.todo.all quietOp = true
  waiter : o.waiter.chClosed = false
  wmu : o.shared.wmuHeld = s.wmuHeld
  panicked : o.shared.panicked = s.panicked
  effect : quietEffect o.effect = true

theorem fire_calm {s : Shared} {waiterOf : ℕ → Waiter} {i : ℕ} {now : ℤ} {own : Waiter} {c : Choice} {p : Point}
    {o : Outcome} (h : fire s waiterOf i now own c p = some o) (hown : own.chClosed = false)
    (hwaiters : ∀ w, (waiterOf w).chClosed = false) (hat : ∀ pc, p = .at pc → quietPc pc = true)
    (hop : ∀ op, p = .op op → quietOp op = true) : CalmStep s o := by
  cases fired h with
  | sendPanics hclosed | closePanics hclosed => cases (hwaiters _).symm.trans hclosed
  | receivesClosed _ hclosed | findsClosed _ hclosed => cases hown.symm.trans hclosed
  | parks => exact ⟨rfl, rfl, rfl, rfl, rfl, rfl⟩
  | evicts => exact ⟨rfl, by simp [quietOp], hown, rfl, rfl, rfl⟩
  | resizes =>
    refine ⟨rfl, rfl, hown, rfl, rfl, List.all_eq_true.mpr fun call hcall ↦ ?_⟩
    obtain ⟨pc, -, rfl⟩ := List.mem_map.mp hcall
    rfl
  | closedBefore | swapClosed | closeReadIdle | closePops | closePopsNothing | takesWaiters | awaits | drainBusy
  | drained | drainWait | derefs => cases hat _ rfl
  | closeCh | startDrain => cases hop _ rfl
  | _ => exact ⟨rfl, rfl, hown, rfl, rfl, rfl⟩

variable {call : Call}

theorem touch_quiet (j : ℕ) {e : Effect} (h : quietCall call = true) (he : quietEffect e = true) :
    quietCall (touch j call e) = true := by
  have hclosed : (touch j call e).waiter.chClosed = call.waiter.chClosed := by
    cases e with
    | closeCh w => cases he
    | send w pc =>
      rw [touch]
      split <;> rfl
    | wake =>
      rw [touch, Call.wake]
      split <;> rfl
    | _ => rfl
  rw [quietCall, touch_congr j call e quietPc rfl, touch_todo, hclosed]
  exact h

theorem point_quiet {p : Point} {todo : List Op} (hquiet : quietCall call = true)
    (h : call.point = some (p, todo)) :
    (∀ pc, p = .at pc → quietPc pc = true) ∧ (∀ op, p = .op op → quietOp op = true) ∧ todo.all quietOp = true ∧
      call.waiter.chClosed = false := by
  simp only [quietCall, Bool.and_eq_true, Bool.not_eq_true'] at hquiet
  obtain ⟨⟨hpc, htodo⟩, hclosed⟩ := hquiet
  unfold Call.point at h
  split at h
  · cases h
  · next heq =>
    cases h
    rw [heq, List.all_cons, Bool.and_eq_true] at htodo
    refine ⟨by simp, fun op hop ↦ ?_, htodo.2, hclosed⟩
    cases hop
    exact htodo.1
  · cases h
    refine ⟨fun pc hpc' ↦ ?_, by simp, htodo, hclosed⟩
    cases hpc'
    exact hpc

theorem Calm.waiterOf {s : State} (hs : Calm s) (w : ℕ) : (s.waiterOf w).chClosed = false := by
  rw [State.waiterOf]
  cases hcall : s.calls[w]? with
  | none => rfl
  | some call =>
    have hquiet := hs.calls call (List.mem_of_getElem? hcall)
    simp only [quietCall, Bool.and_eq_true, Bool.not_eq_true'] at hquiet
    exact hquiet.2

theorem Calm.advance {s t : State} {i : ℕ} {c : Choice} {now : ℤ} (hs : Calm s) (h : s.advance i c now = some t) :
    Calm t := by
  obtain ⟨call, p, todo, o, hcall, -, hpoint, -, hfire, rfl⟩ := advance_cases h
  obtain ⟨hat, hop, htodo, hown⟩ := point_quiet (hs.calls call (List.mem_of_getElem? hcall)) hpoint
  have hcalm := fire_calm hfire hown hs.waiterOf hat hop
  refine ⟨hcalm.wmu.trans hs.wmu, hcalm.panicked.trans hs.panicked, fun c' hc' ↦ ?_⟩
  obtain ⟨j, hj⟩ := List.getElem?_of_mem hc'
  obtain ⟨b, rfl, hb⟩ | ⟨cs, hcs, hmem⟩ := proceed_call hcall hj
  · refine touch_quiet j ?_ hcalm.effect
    obtain ⟨-, rfl⟩ | ⟨-, hb⟩ := hb
    · simp [quietCall, hcalm.pc, hcalm.todo, hcalm.waiter, htodo]
    · exact hs.calls b (List.mem_of_getElem? hb)
  · have heffect := hcalm.effect
    rw [hcs] at heffect
    exact List.all_eq_true.mp heffect c' hmem

theorem Calm.enter {s : State} (hs : Calm s) {held : List ℕ} (hquiet : quietCall call = true) :
    Calm ⟨{ s.shared with held := held }, s.calls ++ [call]⟩ := by
  refine ⟨hs.wmu, hs.panicked, fun c hc ↦ ?_⟩
  obtain hc | hc := List.mem_append.mp hc
  · exact hs.calls c hc
  · rw [List.mem_singleton.mp hc, hquiet]

end Calm

section Sequences

def returned (call : Call) : Bool :=
  match call.pc, call.todo with
  | .straight, [] | .straight, [.close _] => true
  | _, _ => false

/-- A call begins when those before it have returned, but for the goroutines in which `Resize` closes connections,
and nobody closes the pool. -/
def oneAtATime (s : State) : Event → Bool
  | .step _ _ _ => true
  | .close _ => false
  | _ => s.calls.all returned

structure Formed (s : State) : Prop where
  shaped : Shaped s.shared
  covered : Covered s
  sound : Sound s

theorem step_formed (s : State) (e : Event) (t : State) (hs : Formed s) (h : s.step e = some t) : Formed t := by
  refine ⟨?_, step_covered s e t hs.covered h, step_sound s e t hs.sound h⟩
  obtain ⟨i, c, now, rfl, h⟩ | rfl | ⟨pc, -, rfl⟩ | ⟨conn, -, call, -, rfl⟩ := step_cases h
  · obtain ⟨call, p, todo, o, -, -, -, -, hfire, rfl⟩ := advance_cases h
    exact hs.shaped.fire hfire
  · exact hs.shaped
  · exact hs.shaped
  · exact hs.shaped.congr rfl rfl (fun _ ↦ rfl) hs.shaped.len

theorem formed_new (cfg : Config) : Formed (new cfg) where
  shaped := shaped_new cfg
  covered := by simp [Covered, new]
  sound := sound_new cfg

variable {s : State}

theorem formed_of_run {cfg : Config} {es : List Event} {guard : State → Event → Bool}
    (h : Run State.step guard (new cfg) es s) : Formed s :=
  h.invariant (fun s e t hs _ hstep ↦ step_formed s e t hs hstep) (formed_new cfg)

structure Orderly (s : State) : Prop extends Calm s, Formed s

theorem step_orderly (s : State) (e : Event) (t : State) (hs : Orderly s) (hg : oneAtATime s e = true)
    (h : s.step e = some t) : Orderly t := by
  refine ⟨?_, step_formed s e t hs.toFormed h⟩
  cases e with
  | step i c now => exact hs.toCalm.advance h
  | close deadline => cases hg
  | release conn resetSession =>
    simp only [State.step] at h
    split at h <;> cases h
    refine hs.toCalm.enter ?_
    cases resetSession <;> rfl
  | discard conn =>
    simp only [State.step] at h
    split at h <;> cases h
    exact hs.toCalm.enter rfl
  | evictIdleOnce now | ensureWarm =>
    simp only [State.step] at h
    split at h <;> cases h
    · exact hs.toCalm
    · exact hs.toCalm.enter rfl
  | _ =>
    cases h
    exact hs.toCalm.enter rfl

theorem orderly_new (cfg : Config) : Orderly (new cfg) where
  wmu := rfl
  panicked := rfl
  calls := by simp [new]
  toFormed := formed_new cfg

theorem orderly_of_run {cfg : Config} {es : List Event}
    (h : Run State.step oneAtATime (new cfg) es s) : Orderly s := h.invariant step_orderly (orderly_new cfg)

theorem step_eq (hs : s.shared.panicked = false) {i : ℕ} {call : Call} {p : Point} {todo : List Op}
    {c : Choice} {now : ℤ} {o : Outcome} (hcall : s.calls[i]? = some call) (hpoint : call.point = some (p, todo))
    (hfire : fire s.shared s.waiterOf i now call.waiter c p = some o) :
    s.step (.step i c now) = some (s.proceed i todo o) := by
  rw [State.step, State.advance, if_neg (by rw [hs]; exact Bool.false_ne_true), hcall, Option.bind_some, hpoint,
    Option.bind_some]
  exact Option.map_eq_some_iff.mpr ⟨o, hfire, rfl⟩

/-- A call in front of its `wmu` section gets through it. -/
def RefillsFit (s : State) : Prop :=
  ∀ i c now, (∃ time, pointOf s i = some (.at (.evict time))) ∨ (∃ n, pointOf s i = some (.at (.resize n))) →
    (s.step (.step i c now)).isSome = true

theorem Orderly.refillsFit (hs : Orderly s) : RefillsFit s := by
  intro i c now hpoint
  have hevict (own : Waiter) (time : ℤ) : (evictIdleOnce s.shared own time).isSome = true := by
    obtain ⟨o, ho, -⟩ := hs.shaped.evictIdleOnce own time
    exact Option.isSome_of_eq_some ho
  have hresize (own : Waiter) (n : ℤ) : (resize s.shared own n).isSome = true := by
    obtain ⟨o, ho⟩ := exists_resize hs.covered.active_nonneg own n
    exact Option.isSome_of_eq_some ho
  have hfree := Bool.not_eq_true _ ▸ hs.wmu
  have hadvance : ∀ p, pointOf s i = some p → (∀ own, (fire s.shared s.waiterOf i now own c p).isSome = true) →
      (s.step (.step i c now)).isSome = true := by
    intro p hp hfire
    simp only [pointOf, Option.bind_eq_some_iff, Option.map_eq_some_iff] at hp
    obtain ⟨call, hcall, ⟨q, todo⟩, hq, rfl⟩ := hp
    obtain ⟨o, ho⟩ := Option.isSome_iff_exists.mp (hfire call.waiter)
    exact Option.isSome_of_eq_some (step_eq hs.panicked hcall hq ho)
  obtain ⟨time, hp⟩ | ⟨n, hp⟩ := hpoint
  · refine hadvance _ hp fun own ↦ ?_
    simp only [fire, act]
    rw [if_neg hfree]
    exact hevict own time
  · refine hadvance _ hp fun own ↦ ?_
    simp only [fire, act]
    rw [if_neg hfree]
    exact hresize own n

def idleQueue (s : State) : List PooledConn := (s.shared.channel s.shared.idle).queue

def Closing (s : State) (conn : ℕ) : Prop :=
  ∃ j, s.calls[j]? = some ⟨.straight, [.close conn], {}⟩ ∧
    ∀ c now, ∃ t, s.step (.step j c now) = some t ∧ conn ∉ t.shared.live

/-- What `Resize(n)` has made of the idle connections when it returns. -/
structure Resized (n : ℤ) (s t : State) : Prop where
  idle : idleQueue t = [] ∨ t.shared.active + (idleQueue t).length ≤ max 1 n
  kept : ∀ pc ∈ idleQueue s, pc ∈ idleQueue t ∨ Closing t pc.conn

theorem Orderly.closing (hs : Orderly s) {j conn : ℕ}
    (hcall : s.calls[j]? = some ⟨.straight, [.close conn], {}⟩) : Closing s conn := by
  refine ⟨j, hcall, fun c now ↦ ⟨s.proceed j [] (perform s.shared s.waiterOf {} (.close conn)), ?_, ?_⟩⟩
  · exact step_eq hs.panicked hcall rfl rfl
  · exact hs.sound.nodup.not_mem_erase

def resizeCall (s : State) (n : ℤ) (c c' : Choice) (now now' : ℤ) : List Event :=
  [.resize n, .step s.calls.length c now, .step s.calls.length c' now']

def excess (s : Shared) (n : ℤ) : ℕ := (s.active + (s.channel s.idle).queue.length - max n 1).toNat

theorem resize_spec {s : Shared} {own : Waiter} {n : ℤ} {o : Outcome} (h : resize s own n = some o) :
    o.pc = .straight ∧ o.todo = [.broadcast] ∧ o.waiter = own ∧
      o.effect = .spawn (((s.channel s.idle).queue.take (excess s n)).map fun pc ↦ ⟨.straight, [.close pc.conn], {}⟩) ∧
      (o.shared.channel o.shared.idle).queue = (s.channel s.idle).queue.drop (excess s n) ∧
      o.shared.active = s.active ∧ o.shared.cfg.defaultPoolSize = max n 1 := by
  simp only [resize] at h
  split at h <;> cases h
  refine ⟨rfl, rfl, rfl, rfl, ?_, rfl, rfl⟩
  have hchannel := channel_swapIdle s (max n 1).toNat ((s.channel s.idle).queue.drop (excess s n))
  exact congrArg Channel.queue hchannel

theorem Orderly.resizeCall (hs : Orderly s) (hreturned : s.calls.all returned = true) (n : ℤ)
    (c c' : Choice) (now now' : ℤ) :
    ∃ t, Run State.step oneAtATime s (resizeCall s n c c' now now') t ∧ Resized n s t := by
  obtain ⟨o, ho⟩ := exists_resize hs.covered.active_nonneg {} n
  obtain ⟨hpc, htodo, hwaiter, heffect, hqueue, hactive, -⟩ := resize_spec ho
  -- the call begins, goes through its `wmu` section, and wakes up those who drain
  let begun : State := s.enter ⟨.resize n, [], {}⟩
  have hstep₁ : s.step (.resize n) = some begun := rfl
  have hbegun : Orderly begun := step_orderly s (.resize n) begun hs hreturned hstep₁
  have hcall₁ : begun.calls[s.calls.length]? = some ⟨.resize n, [], {}⟩ := List.getElem?_concat_length
  have hfire₁ : fire begun.shared begun.waiterOf s.calls.length now {} c (.at (.resize n)) = some o := by
    simp only [fire, act]
    rw [if_neg (by rw [hbegun.wmu]; exact Bool.false_ne_true)]
    exact ho
  have hstep₂ := step_eq hbegun.panicked hcall₁ rfl hfire₁
  let sized : State := begun.proceed s.calls.length [] o
  have hsized : Orderly sized := step_orderly begun _ sized hbegun rfl hstep₂
  have hcalls : sized.calls = begun.calls.set s.calls.length ⟨.straight, [.broadcast], {}⟩ ++
      ((idleQueue s).take (excess s.shared n)).map fun pc ↦ ⟨.straight, [.close pc.conn], {}⟩ := by
    change o.effect.apply (begun.calls.set s.calls.length ⟨o.pc, o.todo ++ [], o.waiter⟩) = _
    rw [heffect, hpc, htodo, hwaiter]
    rfl
  have hlength : s.calls.length < begun.calls.length := (List.getElem?_eq_some_iff.mp hcall₁).1
  have hcall₂ : sized.calls[s.calls.length]? = some ⟨.straight, [.broadcast], {}⟩ := by
    rw [hcalls, List.getElem?_append_left (by rw [List.length_set]; exact hlength), List.getElem?_set_self hlength]
  let done : State := sized.proceed s.calls.length [] (perform sized.shared sized.waiterOf {} .broadcast)
  have hstep₃ : sized.step (.step s.calls.length c' now') = some done := step_eq hsized.panicked hcall₂ rfl rfl
  have hdone : Orderly done := step_orderly sized _ done hsized rfl hstep₃
  have hidle : idleQueue done = (idleQueue s).drop (excess s.shared n) := hqueue
  refine ⟨done, .cons hreturned hstep₁ (.cons rfl hstep₂ (.cons rfl hstep₃ (.nil done))), ?_, ?_⟩
  · have hlen : (idleQueue done).length = (idleQueue s).length - excess s.shared n := by rw [hidle, List.length_drop]
    have hsame : done.shared.active = s.shared.active := hactive
    have hexcess : excess s.shared n = (s.shared.active + (idleQueue s).length - max n 1).toNat := rfl
    rw [← List.length_eq_zero_iff, hlen, hsame, hexcess]
    omega
  · intro pc hmem
    rw [hidle]
    rw [← List.take_append_drop (excess s.shared n) (idleQueue s)] at hmem
    obtain hmem | hmem := List.mem_append.mp hmem
    · right
      have hcloser := List.mem_map_of_mem (f := fun pc : PooledConn ↦ (⟨.straight, [.close pc.conn], {}⟩ : Call)) hmem
      obtain ⟨k, hk⟩ := List.getElem?_of_mem hcloser
      refine hdone.closing (j := begun.calls.length + k) ?_
      have hne : s.calls.length ≠ begun.calls.length + k := by omega
      have hj : sized.calls[begun.calls.length + k]? = some ⟨.straight, [.close pc.conn], {}⟩ := by
        rw [hcalls, List.getElem?_append_right (by rw [List.length_set]; omega), List.length_set,
          Nat.add_sub_cancel_left]
        exact hk
      change ((sized.calls.set s.calls.length _).map Call.wake)[begun.calls.length + k]? = _
      rw [List.getElem?_map, List.getElem?_set_ne hne, hj]
      rfl
    · exact .inl hmem

/-- In every state of a sequence of calls the pool has its shape, no refill blocks, and a `Resize` leaves no more
idle connections than the new size allows and closes the others. -/
theorem pool_shape {cfg : Config} {es : List Event} {s : State} (h : Run State.step oneAtATime (new cfg) es s) :
    Shaped s.shared ∧ RefillsFit s ∧
      ∀ n c c' now now', s.calls.all returned = true →
        ∃ t, Run State.step oneAtATime s (resizeCall s n c c' now now') t ∧ Resized n s t := by
  have hs := orderly_of_run h
  exact ⟨hs.shaped, hs.refillsFit, fun n c c' now now' hreturned ↦ hs.resizeCall hreturned n c c' now now'⟩

def threeSlots : Config := ⟨3, 0, 0, 0, 0, 0, 0⟩

/-- Two connections are idle and one is held when the pool shrinks to two. -/
def shrunk : List Event :=
  .acquire :: steps 0 9 ++ .acquire :: steps 1 9 ++ .acquire :: steps 2 9 ++ .release 0 false :: steps 3 7 ++
    .release 1 false :: steps 4 7

theorem pool_shape_shrunk :
    ∃ s t, Run State.step oneAtATime (new threeSlots) shrunk s ∧ (idleQueue s).map PooledConn.conn = [0, 1] ∧
      Run State.step oneAtATime s (resizeCall s 2 .go .go 0 0) t ∧ Resized 2 s t := by
  have h : Run State.step oneAtATime (new threeSlots) shrunk _ := run_of_exec rfl
  obtain ⟨t, hrun, hresized⟩ := (pool_shape h).2.2 2 .go .go 0 0 (by decide)
  exact ⟨_, t, h, by decide, hrun, hresized⟩

end Sequences

end PgRouter.Pool.Shape
