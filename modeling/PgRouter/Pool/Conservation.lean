import PgRouter.Pool.Ownership

namespace PgRouter.Pool.Conservation

open Library.Accounts Library.Runs Model Weights Slots Channels Ownership

/-- The current idle channel exists, and no other holds anything. -/
structure Current (s : Shared) : Prop where
  idle_lt : s.idle < s.chans.length
  stale : ∀ ch, ch ≠ s.idle → (s.channel ch).queue = []

def pushesCurrent (s : State) : Event → Bool
  | .step i _ _ =>
    match pointOf s i with
    | some (.at (.releasePush _ ch)) | some (.at (.cancelPush _ ch)) => ch = s.shared.idle
    | _ => true
  | _ => true

def conserving (s : State) (e : Event) : Bool := handOffArrives s e && pushesCurrent s e

theorem current_setQueue {s s' : Shared} {ch : ℕ} {queue : List PooledConn} (hs : Current s)
    (hch : ch = s.idle) (hchans : s'.chans = (s.setQueue ch queue).chans) (hidle : s'.idle = s.idle) :
    Current s' := by
  constructor
  · rw [hchans, hidle, length_setQueue]
    exact hs.idle_lt
  · intro j hj
    rw [hidle] at hj
    rw [channel_congr hchans, channel_setQueue_ne (by rwa [hch]), hs.stale j hj]

theorem current_moves {s s' : Shared} {p : Point} (hs : Current s) (h : Moves s p s')
    (hpush : ∀ pc ch, p = .at (.releasePush pc ch) ∨ p = .at (.cancelPush pc ch) → ch = s.idle) :
    Current s' := by
  cases h with
  | same hchans hidle =>
    refine ⟨by rw [hchans, hidle]; exact hs.idle_lt, fun ch hch ↦ ?_⟩
    rw [channel_congr hchans]
    exact hs.stale ch (by rwa [← hidle])
  | pop hq hchans hidle =>
    refine current_setQueue hs ?_ hchans hidle
    by_contra hne
    rw [hs.stale _ hne] at hq
    cases hq
  | push hp hroom hchans hidle => exact current_setQueue hs (hpush _ _ hp) hchans hidle
  | swap hkept hchans hidle =>
    constructor
    · rw [hchans, hidle]
      simp [Shared.swapIdle]
    · intro ch hch
      rw [hidle] at hch
      rw [channel_congr hchans, channel_swapIdle_ne _ _ _ hch]
      by_cases h : ch = s.idle
      · rw [h, queue_setQueue_self hs.idle_lt]
      · rw [channel_setQueue_ne h, hs.stale ch h]

/-- The places the pool has for a connection: with a caller, in the current idle channel, in the
hands of a call, or in the channel of a waiter whose call will still receive from it. -/
def places (s : State) : Multiset ℕ :=
  ↑s.shared.held + total single (s.shared.channel s.shared.idle).queue + total owned.call s.calls

theorem everywhere_eq_places {s : State} (hs : Current s.shared) : everywhere s = places s := by
  have hch : s.shared.chans[s.shared.idle]? = some (s.shared.channel s.shared.idle) := by
    simp [Shared.channel, List.getD_eq_getElem?_getD, hs.idle_lt]
  have hstock : stock single s.shared = total single (s.shared.channel s.shared.idle).queue := by
    refine total_eq_single _ hch fun j d hj hd ↦ ?_
    have hqueue := hs.stale j hj
    rw [Shared.channel, List.getD_eq_getElem?_getD, hd, Option.getD_some] at hqueue
    rw [hqueue, total_nil]
  rw [everywhere, places, atRest, hstock]

structure Conserved (s : State) : Prop extends Sound s where
  live_eq : everywhere s = ↑s.shared.live
  current : Current s.shared

theorem step_conserved (s : State) (e : Event) (t : State) (hs : Conserved s)
    (hg : conserving s e = true) (h : s.step e = some t) : Conserved t := by
  have hsound := step_sound s e t hs.toSound h
  obtain ⟨i, c, now, rfl, h⟩ | rfl | ⟨pc, hpc, rfl⟩ | ⟨conn, hmem, call, hcall, rfl⟩ := step_cases h
  · rw [conserving, Bool.and_eq_true] at hg
    obtain ⟨lost, hlost, hzero⟩ := advance_lost hs.le_live h
    rw [hzero hg.1, add_zero, hs.live_eq, add_comm] at hlost
    refine ⟨hsound, add_left_cancel hlost, ?_⟩
    obtain ⟨call, p, todo, o, -, -, -, hp, hfire, rfl⟩ := advance_cases h
    refine current_moves hs.current (fire_moves hfire) ?_
    have hpush := hg.2
    rw [pushesCurrent, hp] at hpush
    rintro pc ch (rfl | rfl) <;> simpa using hpush
  · exact hs
  · exact ⟨hsound, (everywhere_enter hpc).trans hs.live_eq, hs.current⟩
  · exact ⟨hsound, (everywhere_letGo hmem hcall).trans hs.live_eq, hs.current.idle_lt, hs.current.stale⟩

theorem conserved_new (cfg : Config) : Conserved (new cfg) where
  toSound := sound_new cfg
  live_eq := by simp [everywhere, atRest, stock, new]
  current := by
    refine ⟨by simp [new], fun ch hch ↦ ?_⟩
    rw [channel_eq_empty]
    simp only [new] at hch ⊢
    exact Nat.pos_of_ne_zero hch

/-- In a run in which hand-offs arrive and nothing is put into an idle channel that has been
replaced, every connection that is dialed and not closed is in exactly one place, and no other
connection is in any. -/
theorem count_places {cfg : Config} {es : List Event} {s : State}
    (h : Run State.step conserving (new cfg) es s) (b : ℕ) :
    (places s).count b = if b ∈ s.shared.live then 1 else 0 := by
  have hs : Conserved s := h.invariant step_conserved (conserved_new cfg)
  rw [← everywhere_eq_places hs.current, hs.live_eq, Multiset.coe_count]
  split
  · exact List.count_eq_one_of_mem hs.nodup ‹_›
  · exact List.count_eq_zero_of_not_mem ‹_›

theorem count_places_handedOver :
    ∃ s, Run State.step conserving (new oneSlot) handedOver s ∧ 0 ∈ s.shared.live ∧
      (places s).count 0 = 1 := by
  have h : Run State.step conserving (new oneSlot) handedOver _ := run_of_exec rfl
  exact ⟨_, h, by decide, count_places h 0⟩

def staleRelease : List Event :=
  .acquire :: steps 0 9 ++ .release 0 false :: steps 1 3 ++ .resize 1 :: steps 2 2 ++ steps 1 4

theorem staleRelease_loses :
    ∃ s, Run State.step anyStep (new oneSlot) staleRelease s ∧ 0 ∈ s.shared.live ∧
      (places s).count 0 = 0 := by
  have h : Run State.step anyStep (new oneSlot) staleRelease _ := run_of_exec rfl
  exact ⟨_, h, by decide, by decide⟩

end PgRouter.Pool.Conservation
