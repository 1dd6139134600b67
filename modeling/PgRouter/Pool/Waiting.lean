import PgRouter.Pool.Channels
import PgRouter.Pool.Promises
import PgRouter.Pool.Slots

namespace PgRouter.Pool.Waiting

open Library.Runs Model Firing Weights Slots Channels Promises

section Condition

/-- `Acquire` has read `p.idle` and has not yet parked. -/
def looks : Pc → Bool
  | .popIdle _ | .loadActive | .compareSize _ | .parkWaiter => true
  | _ => false

def pushes : Pc → Bool
  | .releaseReadIdle _ | .releasePush _ _ | .cancelReadIdle _ | .cancelPush _ _ => true
  | _ => false

def isDecrement : Op → Bool
  | .decActive => true
  | _ => false

/-- The call is about to put a connection into the idle channel or to take from `active`. -/
def frees (call : Call) : Bool := pushes call.pc || call.todo.any isDecrement

def looked (s : State) : Bool := s.calls.any fun call ↦ looks call.pc

def freed (s : State) : Bool := s.calls.any frees

/-- The step begins to free something without a look at the queue of waiters: `Discard`, a dial or a reset that
fails, `Release` on a closed pool, `cancelWaiter` with a connection, a `Resize` that grows. -/
def spills (s : State) : Event → Bool
  | .discard _ => true
  | .step i c _ =>
    match pointOf s i with
    | some (.at .dial) | some (.at (.warmDial _)) | some (.at (.resetState _)) => c = .fail
    | some (.at (.releaseLoadClosed _)) => s.shared.closed
    | some (.at (.cancelLoadClosed _)) => !s.shared.closed
    | some (.at (.resize newSize)) => s.shared.cfg.defaultPoolSize < max newSize 1
    | _ => false
  | _ => false

/-- `Release` finds nobody in the queue, or the idle channel is replaced. -/
def turnsAway (s : State) : Event → Bool
  | .step i _ _ =>
    match pointOf s i with
    | some (.at (.popWaiter _)) => s.shared.waiters.isEmpty
    | some (.at (.evict _)) | some (.at (.resize _)) => true
    | _ => false
  | _ => false

def startsLooking (s : State) : Event → Bool
  | .step i _ _ =>
    match pointOf s i with
    | some (.at .readIdle) => true
    | _ => false
  | _ => false

/-- What is freed past the queue is freed while nobody is in it or on the way to it, `Release` does not come between
the looks of an `Acquire` and its parking, and no `Acquire` looks while something is being freed. -/
def apart (s : State) (e : Event) : Bool :=
  (!spills s e || !looked s && s.shared.waiters.isEmpty) && (!turnsAway s e || !looked s) &&
    (!startsLooking s e || !freed s)

end Condition

section Frames

variable {s s' : Shared} {p : Point}

theorem queue_of_moves (h : Moves s p s') (hempty : (s.channel s.idle).queue = [])
    (hpush : ∀ pc ch, p = .at (.releasePush pc ch) ∨ p = .at (.cancelPush pc ch) → ch ≠ s.idle) :
    (s'.channel s'.idle).queue = [] := by
  cases h with
  | same hchans hidle => rw [channel_congr hchans, hidle, hempty]
  | pop hq hchans hidle =>
    rw [channel_congr hchans, hidle, channel_setQueue_ne, hempty]
    rintro rfl
    rw [hempty] at hq
    cases hq
  | push hp hroom hchans hidle =>
    rw [channel_congr hchans, hidle, Shared.push, channel_setQueue_ne, hempty]
    exact (hpush _ _ hp).symm
  | swap hkept hchans hidle =>
    rw [hempty, List.length_nil, Nat.le_zero, List.length_eq_zero_iff] at hkept
    rw [channel_congr hchans, hidle, channel_swapIdle, hkept]

/-- Nobody waits, or nothing is free for those who do. -/
def Served (s : Shared) : Prop :=
  s.waiters ≠ [] → (s.channel s.idle).queue = [] ∧ s.cfg.defaultPoolSize ≤ s.active

/-- What an `Acquire` has seen at its looks still holds. -/
def Sees (s : Shared) : Pc → Prop
  | .popIdle ch => ch = s.idle
  | .loadActive => (s.channel s.idle).queue = []
  | .compareSize cur => (s.channel s.idle).queue = [] ∧ cur ≤ s.active
  | .parkWaiter => (s.channel s.idle).queue = [] ∧ s.cfg.defaultPoolSize ≤ s.active
  | _ => True

theorem sees_of_not_looks {pc : Pc} (h : looks pc = false) : Sees s pc := by
  cases pc <;> first | exact trivial | cases h

/-- Nothing becomes free for those who have looked. -/
structure Tight (s s' : Shared) : Prop where
  idle : s'.idle = s.idle
  queue : (s.channel s.idle).queue = [] → (s'.channel s'.idle).queue = []
  active : s.active ≤ s'.active
  size : s'.cfg.defaultPoolSize ≤ s.cfg.defaultPoolSize

theorem Sees.tight {pc : Pc} (h : Sees s pc) (ht : Tight s s') : Sees s' pc := by
  have hactive := ht.active
  have hsize := ht.size
  cases pc
  case popIdle ch => exact h.trans ht.idle.symm
  case loadActive => exact ht.queue h
  case compareSize cur => exact ⟨ht.queue h.1, h.2.trans hactive⟩
  case parkWaiter => exact ⟨ht.queue h.1, hsize.trans (h.2.trans hactive)⟩
  all_goals exact trivial

end Frames

section Steps

variable {s t : State} {i : ℕ} {c : Choice} {now : ℤ} {call : Call} {p : Point} {todo : List Op} {o : Outcome}

/-- How a call comes to its looks: each is one of the code's own checks. -/
theorem fire_sees {s : Shared} {waiterOf : ℕ → Waiter} {own : Waiter} (h : fire s waiterOf i now own c p = some o)
    (hsees : ∀ pc, p = .at pc → Sees s pc) (hlooks : looks o.pc = true) :
    Sees o.shared o.pc ∧ (p = .at .readIdle ∨ ∃ pc, p = .at pc ∧ looks pc = true) := by
  cases fired h with
  | readIdle => exact ⟨rfl, .inl rfl⟩
  | popsNothing hempty =>
    rw [show _ = s.idle from hsees _ rfl] at hempty
    exact ⟨hempty, .inr ⟨_, rfl, rfl⟩⟩
  | loadActive => exact ⟨⟨hsees _ rfl, le_rfl⟩, .inr ⟨_, rfl, rfl⟩⟩
  | full hcur =>
    obtain ⟨hempty, hactive⟩ := hsees _ rfl
    exact ⟨⟨hempty, hcur.trans hactive⟩, .inr ⟨_, rfl, rfl⟩⟩
  | _ => cases hlooks

/-- A call begins to free something by a step that `spills`, or because `Release` finds the queue empty. -/
theorem fire_frees (hp : pointOf s i = some p) (hpoint : call.point = some (p, todo))
    (h : fire s.shared s.waiterOf i now call.waiter c p = some o)
    (hfrees : (pushes o.pc || o.todo.any isDecrement) = true) :
    frees call = true ∨ spills s (.step i c now) = true ∨
      turnsAway s (.step i c now) = true ∧ s.shared.waiters = [] := by
  have hat (pc : Pc) (hpc : p = .at pc) : call.pc = pc := Weight.pc_of_point (hpc ▸ hpoint)
  simp only [spills, turnsAway, hp]
  cases fired h with
  | releaseReadIdle | releasePush | releaseDrop | cancelReadIdle | cancelPush | cancelDrop =>
    left
    rw [frees, hat _ rfl]
    rfl
  | dialFails hc | warmFails hc | resetFails hc => exact .inr (.inl (by simp [hc]))
  | releaseShut hclosed | cancelUnshut hclosed => exact .inr (.inl (by simp [hclosed]))
  | popsNobody hempty => exact .inr (.inr ⟨by rw [hempty]; rfl, hempty⟩)
  | evicts => simp [pushes, isDecrement] at hfrees
  | takesWaiters =>
    dsimp only at hfrees
    split at hfrees <;> simp [pushes, isDecrement] at hfrees
  | _ => cases hfrees

/-- While nobody is about to free anything, nothing becomes free by a step that leaves the idle channel in place and
does not grow the pool. -/
theorem fire_tight (hcall : call ∈ s.calls) (hpoint : call.point = some (p, todo))
    (h : fire s.shared s.waiterOf i now call.waiter c p = some o) (hfreed : freed s = false) :
    ((s.shared.channel s.shared.idle).queue = [] → (o.shared.channel o.shared.idle).queue = []) ∧
      s.shared.active ≤ o.shared.active := by
  have hkeeps : frees call = false := by
    rw [freed, List.any_eq_false] at hfreed
    simpa using hfreed call hcall
  constructor
  · refine fun hempty ↦ queue_of_moves (fire_moves h) hempty fun pc ch hpush ↦ ?_
    rw [frees, Bool.or_eq_false_iff] at hkeeps
    rcases hpush with rfl | rfl <;> rw [Weight.pc_of_point hpoint] at hkeeps <;> cases hkeeps.1
  · refine ((fire_capacity h).2.1).resolve_left ?_
    rintro ⟨rfl, -⟩
    obtain ⟨pc, rest, waiter⟩ := call
    unfold Call.point at hpoint
    split at hpoint <;> cases hpoint
    simp_all [frees, isDecrement]

/-- Nothing is freed while somebody looks or waits, and what those who look have seen still holds. -/
structure Attended (s : State) : Prop where
  exclusive : freed s = true → looked s = false ∧ s.shared.waiters = []
  sees : ∀ call ∈ s.calls, Sees s.shared call.pc
  served : Served s.shared

theorem frees_touch (j : ℕ) (b : Call) (e : Effect) : frees (touch j b e) = frees b := by
  rw [frees, frees, touch_congr _ _ _ pushes rfl, touch_todo]

theorem todo_frees (hpoint : call.point = some (p, todo)) (h : todo.any isDecrement = true) : frees call = true := by
  obtain ⟨pc, rest, waiter⟩ := call
  unfold Call.point at hpoint
  split at hpoint <;> cases hpoint <;> simp_all [frees]

variable (hcall : s.calls[i]? = some call) (hpoint : call.point = some (p, todo))
  (hfire : fire s.shared s.waiterOf i now call.waiter c p = some o)

include hcall hpoint hfire

/-- Who is about to free something after a step was so before it, or the step begins it while the queue is empty. -/
theorem freed_proceed (hp : pointOf s i = some p) (h : freed (s.proceed i todo o) = true) :
    freed s = true ∨ spills s (.step i c now) = true ∨
      turnsAway s (.step i c now) = true ∧ s.shared.waiters = [] := by
  obtain ⟨c', hc', hfrees⟩ := List.any_eq_true.mp h
  rcases mem_proceed hcall hfire hc' with ⟨j, b, rfl, rfl | hb⟩ | hspawned
  · rw [frees_touch, frees, List.any_append, ← Bool.or_assoc, Bool.or_eq_true] at hfrees
    have hbefore (h : frees call = true) : freed s = true := List.any_eq_true.mpr ⟨call, List.mem_of_getElem? hcall, h⟩
    rcases hfrees with hfrees | hfrees
    · exact (fire_frees hp hpoint hfire hfrees).imp_left hbefore
    · exact Or.inl (hbefore (todo_frees hpoint hfrees))
  · rw [frees_touch] at hfrees
    exact Or.inl (List.any_eq_true.mpr ⟨b, hb, hfrees⟩)
  · cases hspawned <;> cases hfrees

/-- Who looks after a step has seen what holds then, and looked before it or begins to. -/
theorem sees_proceed (hs : ∀ call ∈ s.calls, Sees s.shared call.pc)
    (htight : looked s = true → Tight s.shared o.shared) {c' : Call} (hc' : c' ∈ (s.proceed i todo o).calls)
    (hlooks : looks c'.pc = true) : Sees o.shared c'.pc ∧ (p = .at .readIdle ∨ looked s = true) := by
  have hlooked {b : Call} (hb : b ∈ s.calls) (h : looks b.pc = true) : looked s = true :=
    List.any_eq_true.mpr ⟨b, hb, h⟩
  have hmem := List.mem_of_getElem? hcall
  rcases mem_proceed hcall hfire hc' with ⟨j, b, rfl, hb⟩ | hspawned
  · have hpc : (touch j b o.effect).pc = b.pc := by
      rcases touch_pc j b o.effect with h' | ⟨-, h'⟩
      · exact h'
      · rw [h'] at hlooks
        cases hlooks
    rw [hpc] at hlooks ⊢
    rcases hb with rfl | hb
    · have hown (pc : Pc) (hat : p = .at pc) : call.pc = pc := Weight.pc_of_point (hat ▸ hpoint)
      obtain ⟨hsees, hstart⟩ := fire_sees hfire (fun pc hat ↦ hown pc hat ▸ hs call hmem) hlooks
      refine ⟨hsees, hstart.imp_right ?_⟩
      rintro ⟨pc, hat, hl⟩
      exact hlooked hmem (by rw [hown pc hat, hl])
    · have hl := hlooked hb hlooks
      exact ⟨(hs b hb).tight (htight hl), Or.inr hl⟩
  · cases hspawned <;> cases hlooks

omit hcall hpoint hfire

theorem advance_attended (hs : Attended s) (hg : apart s (.step i c now) = true) (h : s.advance i c now = some t) :
    Attended t := by
  obtain ⟨call, p, todo, o, hcall, -, hpoint, hp, hfire, rfl⟩ := advance_cases h
  have hmem := List.mem_of_getElem? hcall
  obtain ⟨hwaiters, -, hcfg⟩ := fire_capacity hfire
  simp only [apart, Bool.and_eq_true, Bool.or_eq_true, Bool.not_eq_true', List.isEmpty_iff] at hg
  obtain ⟨⟨hspills, haway⟩, hstarts⟩ := hg
  have hpark (hat : p = .at .parkWaiter) : looked s = true :=
    List.any_eq_true.mpr ⟨call, hmem, by rw [Weight.pc_of_point (hat ▸ hpoint)]; rfl⟩
  have hquiet (hw : looked s = true ∨ s.shared.waiters ≠ []) : freed s = false := by
    by_contra hfreed
    obtain ⟨hlooked, hnobody⟩ := hs.exclusive (by simpa using hfreed)
    rcases hw with hw | hw
    · rw [hlooked] at hw
      cases hw
    · exact hw hnobody
  have hsize (hw : looked s = true ∨ s.shared.waiters ≠ []) :
      o.shared.cfg.defaultPoolSize ≤ s.shared.cfg.defaultPoolSize := by
    rcases hcfg with ⟨n, rfl, hn⟩ | hcfg
    · have hgrow : ¬ spills s (.step i c now) = true := by
        intro hgrow
        obtain ⟨hl, hnobody⟩ := hspills.resolve_left (by simp [hgrow])
        rcases hw with hw | hw
        · rw [hl] at hw
          cases hw
        · exact hw hnobody
      simp only [spills, hp, decide_eq_true_eq] at hgrow
      omega
    · rw [hcfg]
  have htight (hl : looked s = true) : Tight s.shared o.shared := by
    obtain ⟨hqueue, hactive⟩ := fire_tight hmem hpoint hfire (hquiet (Or.inl hl))
    have hstays : ¬ turnsAway s (.step i c now) = true := fun h ↦ by simp [h, hl] at haway
    refine ⟨?_, hqueue, hactive, hsize (Or.inl hl)⟩
    cases fire_moves hfire with
    | same hchans hidle | pop hq hchans hidle | push hat hroom hchans hidle => exact hidle
    | swap hkept hchans hidle hat =>
      refine absurd ?_ hstays
      rcases hat with ⟨now, rfl⟩ | ⟨n, rfl⟩ <;> simp [turnsAway, hp]
  refine ⟨fun hfreed ↦ ?_, fun c' hc' ↦ ?_, fun hne ↦ ?_⟩
  · obtain ⟨hlooked, hnobody, hread⟩ : looked s = false ∧ s.shared.waiters = [] ∧ p ≠ .at .readIdle := by
      rcases freed_proceed hcall hpoint hfire hp hfreed with hbefore | hspill | ⟨hturn, hempty⟩
      · obtain ⟨hl, hempty⟩ := hs.exclusive hbefore
        refine ⟨hl, hempty, ?_⟩
        rintro rfl
        simp [startsLooking, hp, hbefore] at hstarts
      · obtain ⟨hl, hempty⟩ := hspills.resolve_left (by simp [hspill])
        refine ⟨hl, hempty, ?_⟩
        rintro rfl
        simp [spills, hp] at hspill
      · refine ⟨haway.resolve_left (by simp [hturn]), hempty, ?_⟩
        rintro rfl
        simp [turnsAway, hp] at hturn
    constructor
    · rw [looked, List.any_eq_false]
      intro c' hc' hl
      rcases (sees_proceed hcall hpoint hfire hs.sees htight hc' hl).2 with h' | h'
      · exact hread h'
      · rw [hlooked] at h'
        cases h'
    · refine hwaiters.elim (fun hat ↦ ?_) fun hkeep ↦ hkeep hnobody
      rw [hpark hat] at hlooked
      cases hlooked
  · by_cases hl : looks c'.pc = true
    · exact (sees_proceed hcall hpoint hfire hs.sees htight hc' hl).1
    · exact sees_of_not_looks (by simpa using hl)
  · have hw : looked s = true ∨ s.shared.waiters ≠ [] :=
      hwaiters.imp hpark fun hkeep hnil ↦ hne (hkeep hnil)
    have hbefore : (s.shared.channel s.shared.idle).queue = [] ∧
        s.shared.cfg.defaultPoolSize ≤ s.shared.active := by
      rcases hwaiters with rfl | hkeep
      · have hsees := hs.sees call hmem
        rwa [Weight.pc_of_point hpoint] at hsees
      · exact hs.served fun hnil ↦ hne (hkeep hnil)
    obtain ⟨hqueue, hactive⟩ := fire_tight hmem hpoint hfire (hquiet hw)
    exact ⟨hqueue hbefore.1, (hsize hw).trans (hbefore.2.trans hactive)⟩

theorem attended_enter {held : List ℕ} (hs : Attended s) (hlooks : looks call.pc = false)
    (hfrees : frees call = true → looked s = false ∧ s.shared.waiters = []) :
    Attended ⟨{ s.shared with held := held }, s.calls ++ [call]⟩ := by
  refine ⟨fun hfreed ↦ ?_, fun c' hc' ↦ ?_, hs.served⟩
  · have hbefore : looked s = false ∧ s.shared.waiters = [] := by
      simp only [freed, List.any_append, List.any_cons, List.any_nil, Bool.or_false, Bool.or_eq_true] at hfreed
      exact hfreed.elim hs.exclusive hfrees
    refine ⟨?_, hbefore.2⟩
    have hl := hbefore.1
    simp only [looked] at hl ⊢
    simp [hl, hlooks]
  · rcases List.mem_append.mp hc' with hc' | hc'
    · exact hs.sees c' hc'
    · rw [List.mem_singleton.mp hc']
      exact sees_of_not_looks hlooks

theorem step_attended (s : State) (e : Event) (t : State) (hs : Attended s) (hg : apart s e = true)
    (h : s.step e = some t) : Attended t := by
  cases e with
  | step i c now => exact advance_attended hs hg h
  | discard conn =>
    simp only [State.step] at h
    split at h <;> cases h
    refine attended_enter hs rfl fun _ ↦ ?_
    simpa [apart, spills, turnsAway, startsLooking] using hg
  | release conn resetSession =>
    simp only [State.step] at h
    split at h <;> cases h
    cases resetSession
    all_goals exact attended_enter hs rfl fun hfrees ↦ by cases hfrees
  | _ =>
    simp only [State.step] at h
    try split at h
    all_goals cases h
    all_goals first | exact hs | exact attended_enter hs rfl fun hfrees ↦ by cases hfrees

end Steps

/-- In a run in which nothing is freed past a queue that somebody is in or comes to, a parked `Acquire` never waits
while there is an idle connection or a free slot. -/
theorem waiters_have_nothing_free {cfg : Config} {es : List Event} {s : State}
    (h : Run State.step apart (new cfg) es s) (hw : s.shared.waiters ≠ []) :
    (s.shared.channel s.shared.idle).queue = [] ∧ s.shared.cfg.defaultPoolSize ≤ s.shared.active := by
  have hnew : Attended (new cfg) := ⟨nofun, fun _ hcall ↦ absurd hcall List.not_mem_nil, fun hne ↦ absurd rfl hne⟩
  exact (h.invariant step_attended hnew).served hw

/-- A third `Acquire` is parked when the first connection has gone from `Release` to the second. -/
def parkedBehind : List Event := handedOver ++ .acquire :: steps 3 7

theorem waiters_have_nothing_free_parked :
    ∃ s, Run State.step apart (new oneSlot) parkedBehind s ∧ s.shared.waiters = [3] ∧
      (s.shared.channel s.shared.idle).queue = [] ∧ s.shared.cfg.defaultPoolSize ≤ s.shared.active := by
  have h : Run State.step apart (new oneSlot) parkedBehind _ := run_of_exec rfl
  exact ⟨_, h, by decide, waiters_have_nothing_free h (by decide)⟩

def discardedAhead : List Event := parkSecond ++ .discard 0 :: steps 2 4

theorem discardedAhead_strands :
    ∃ s, Run State.step anyStep (new oneSlot) discardedAhead s ∧ s.calls.all resting = true ∧
      s.shared.waiters = [1] ∧ s.shared.active = 0 ∧ s.shared.cfg.defaultPoolSize = 1 := by
  have h : Run State.step anyStep (new oneSlot) discardedAhead _ := run_of_exec rfl
  exact ⟨_, h, by decide, by decide, by decide, by decide⟩

end PgRouter.Pool.Waiting
