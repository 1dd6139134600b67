import PgRouter.Library.Accounts
import PgRouter.Pool.Firing

namespace PgRouter.Pool.Channels

open Library.Accounts Model Shared Firing

variable {M : Type} [AddCommMonoid M] {s : Shared}

variable {ch : ℕ} (f : PooledConn → M) (cfg : Config)

theorem queue_setQueue_self (h : ch < s.chans.length) (queue : List PooledConn) :
    ((s.setQueue ch queue).channel ch).queue = queue := by
  simp [setQueue, channel, List.getD_eq_getElem?_getD, h]

theorem channel_setQueue_ne {j : ℕ} (h : j ≠ ch) (queue : List PooledConn) :
    (s.setQueue ch queue).channel j = s.channel j := by
  simp [setQueue, channel, List.getD_eq_getElem?_getD, List.getElem?_set_ne h.symm]

theorem channel_eq_empty (h : s.chans.length ≤ ch) : s.channel ch = ⟨0, []⟩ := by
  rw [channel, List.getD_eq_getElem?_getD, List.getElem?_eq_none h, Option.getD_none]

theorem lt_of_queue_ne_nil (h : (s.channel ch).queue ≠ []) : ch < s.chans.length := by
  by_contra hge
  rw [channel_eq_empty (by omega)] at h
  exact h rfl

theorem lt_of_hasRoom (h : s.HasRoom ch) : ch < s.chans.length := by
  by_contra hge
  rw [HasRoom, channel_eq_empty (by omega)] at h
  exact absurd h (by simp)

theorem setQueue_of_length_le (h : s.chans.length ≤ ch) (queue : List PooledConn) : s.setQueue ch queue = s := by
  rw [setQueue, List.set_eq_of_length_le h]

section

variable (s : Shared)

@[simp] theorem length_setQueue (ch : ℕ) (queue : List PooledConn) :
    (s.setQueue ch queue).chans.length = s.chans.length := by simp [setQueue]

@[simp] theorem live_setQueue (ch : ℕ) (queue : List PooledConn) :
    (s.setQueue ch queue).live = s.live := rfl

@[simp] theorem live_push (ch : ℕ) (pc : PooledConn) : (s.push ch pc).live = s.live := rfl

@[simp] theorem live_swapIdle (cap : ℕ) (kept : List PooledConn) :
    (s.swapIdle cap kept).live = s.live := rfl

theorem channel_swapIdle (cap : ℕ) (kept : List PooledConn) :
    (s.swapIdle cap kept).channel (s.swapIdle cap kept).idle = ⟨cap, kept⟩ := by
  simp [swapIdle, channel, setQueue, List.getD_eq_getElem?_getD]

theorem channel_swapIdle_ne (cap : ℕ) (kept : List PooledConn) (h : ch ≠ (s.swapIdle cap kept).idle) :
    (s.swapIdle cap kept).channel ch = (s.setQueue s.idle []).channel ch := by
  have hne : ch ≠ s.chans.length := h
  rcases Nat.lt_or_gt_of_ne hne with h | h
  · simp [swapIdle, channel, List.getD_eq_getElem?_getD, List.getElem?_append_left, h]
  · rw [channel_eq_empty (by simp [swapIdle]; omega), channel_eq_empty (by simp; omega)]

end

def stock (f : PooledConn → M) (s : Shared) : M := total (fun c ↦ total f c.queue) s.chans

theorem stock_setQueue (h : ch < s.chans.length) (queue : List PooledConn) :
    stock f (s.setQueue ch queue) + total f (s.channel ch).queue = stock f s + total f queue := by
  have hch : s.chans[ch]? = some (s.channel ch) := by
    simp [channel, List.getD_eq_getElem?_getD, h]
  exact total_set (fun c ↦ total f c.queue) hch ⟨(s.channel ch).cap, queue⟩

theorem stock_swapIdle (s : Shared) (cap : ℕ) {kept gone : List PooledConn}
    (h : total f kept + total f gone = total f (s.channel s.idle).queue) :
    stock f (s.swapIdle cap kept) + total f gone = stock f s := by
  have hclear : stock f (s.setQueue s.idle []) + total f (s.channel s.idle).queue = stock f s := by
    by_cases hidle : s.idle < s.chans.length
    · simpa using stock_setQueue f hidle []
    · rw [setQueue_of_length_le (by omega), channel_eq_empty (by omega), total_nil, add_zero]
  have hswap : stock f (s.swapIdle cap kept) = stock f (s.setQueue s.idle []) + total f kept := by
    simp [stock, swapIdle]
  rw [hswap, add_assoc, h, hclear]

theorem total_sweep (now keepCount : ℤ) (l kept evicted : List PooledConn) :
    total f (sweep cfg now keepCount l kept evicted).1 +
        total f (sweep cfg now keepCount l kept evicted).2 =
      total f kept + total f evicted + total f l := by
  induction l generalizing kept evicted with
  | nil => simp [sweep]
  | cons pc l ih =>
    rw [sweep]
    split_ifs
    all_goals
      rw [ih]
      simp only [total_append, total_cons, total_nil, add_zero]
      simp only [add_assoc, add_left_comm, add_comm]

theorem stock_swept (s : Shared) (cap : ℕ) (t : ℤ) :
    stock f (s.swapIdle cap (swept s t).1) + total f (swept s t).2 = stock f s := by
  refine stock_swapIdle f s cap ?_
  rw [total_sweep, total_nil, zero_add, zero_add]

theorem stock_split (s : Shared) (cap n : ℕ) :
    stock f (s.swapIdle cap ((s.channel s.idle).queue.drop n)) + total f ((s.channel s.idle).queue.take n) =
      stock f s := by
  refine stock_swapIdle f s cap ?_
  rw [add_comm, ← total_append, List.take_append_drop]

variable [IsRightCancelAdd M]

theorem stock_pop {pc : PooledConn} {queue : List PooledConn} (h : (s.channel ch).queue = pc :: queue) :
    stock f (s.setQueue ch queue) + f pc = stock f s := by
  have hset := stock_setQueue f (lt_of_queue_ne_nil (by rw [h]; simp)) queue
  rw [h, total_cons, ← add_assoc] at hset
  exact add_right_cancel hset

theorem stock_push (h : s.HasRoom ch) (pc : PooledConn) : stock f (s.push ch pc) = stock f s + f pc := by
  have hset := stock_setQueue f (lt_of_hasRoom h) ((s.channel ch).queue ++ [pc])
  rw [total_append, total_cons, total_nil, add_zero, add_comm _ (f pc), ← add_assoc] at hset
  exact add_right_cancel hset

theorem length_sweep_le (now keepCount : ℤ) (l : List PooledConn) :
    (sweep cfg now keepCount l [] []).1.length ≤ l.length := by
  have hcount (l : List PooledConn) : total (fun _ ↦ 1) l = l.length := by simp [total]
  have h := total_sweep (fun _ ↦ 1) cfg now keepCount l [] []
  simp only [hcount, List.length_nil] at h
  omega

inductive Moves (s : Shared) (p : Point) (s' : Shared) : Prop
  | same (hchans : s'.chans = s.chans) (hidle : s'.idle = s.idle)
  | pop {ch : ℕ} {pc : PooledConn} {queue : List PooledConn} (hq : (s.channel ch).queue = pc :: queue)
      (hchans : s'.chans = (s.setQueue ch queue).chans) (hidle : s'.idle = s.idle)
  | push {ch : ℕ} {pc : PooledConn} (hp : p = .at (.releasePush pc ch) ∨ p = .at (.cancelPush pc ch))
      (hroom : s.HasRoom ch) (hchans : s'.chans = (s.push ch pc).chans) (hidle : s'.idle = s.idle)
  | swap {cap : ℕ} {kept : List PooledConn} (hkept : kept.length ≤ (s.channel s.idle).queue.length)
      (hchans : s'.chans = (s.swapIdle cap kept).chans)
      (hidle : s'.idle = (s.swapIdle cap kept).idle)
      (hp : (∃ now, p = .at (.evict now)) ∨ ∃ newSize, p = .at (.resize newSize))

theorem fire_moves {waiterOf : ℕ → Waiter} {i : ℕ} {now : ℤ} {own : Waiter} {c : Choice} {p : Point}
    {o : Outcome} (h : fire s waiterOf i now own c p = some o) : Moves s p o.shared := by
  cases fired h with
  | evicts => exact .swap (length_sweep_le _ _ _ _) rfl rfl (.inl ⟨_, rfl⟩)
  | resizes => exact .swap (by simp) rfl rfl (.inr ⟨_, rfl⟩)
  | pops hq | closePops hq => exact .pop hq rfl rfl
  | releasePush hroom => exact .push (.inl rfl) hroom rfl rfl
  | cancelPush hroom => exact .push (.inr rfl) hroom rfl rfl
  | _ => exact .same rfl rfl

theorem channel_congr {s' : Shared} (h : s'.chans = s.chans) (ch : ℕ) :
    s'.channel ch = s.channel ch := by
  rw [channel, channel, h]

end PgRouter.Pool.Channels
