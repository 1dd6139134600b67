import Mathlib.Data.Multiset.OrderedMonoid
import Mathlib.Tactic.Abel
import PgRouter.Pool.Channels
import PgRouter.Pool.Slots

namespace PgRouter.Pool.Ownership

open Library.Accounts Model Firing Weights Slots Channels

def single (pc : PooledConn) : Multiset ℕ := {pc.conn}

def owned : Weight (Multiset ℕ) where
  pc
    | .countIdle pc | .cancelLoadClosed (some pc) | .cancelReadIdle pc | .cancelPush pc _
    | .popWaiter pc | .handOff pc _ | .releaseReadIdle pc | .releasePush pc _ => single pc
    | .resetState c | .releaseLoadClosed c => {c}
    | .closeReadIdle idle _ | .closePop idle _ _ | .closeTakeWaiters idle _ => total single idle
    | _ => 0
  op
    | .close c | .returnConn c => {c}
    | _ => 0
  boxed := single
  straight := rfl
  awake := rfl

def atRest (s : Shared) : Multiset ℕ := ↑s.held + stock single s

theorem total_close (l : List PooledConn) :
    total owned.op (l.map fun pc ↦ .close pc.conn) = total single l := by
  rw [total_map]
  rfl

theorem total_closer (l : List PooledConn) :
    total owned.call (l.map fun pc ↦ ⟨.straight, [.close pc.conn], {}⟩) = total single l := by
  rw [total_map]
  exact total_congr fun pc _ ↦ by simp [Weight.call, owned, listens, single]

theorem total_closeCh (ws : List ℕ) : total owned.op (ws.map .closeCh) = 0 := by
  rw [total_map]
  exact total_zero fun _ _ ↦ rfl

/-- Going on from `p` as `o` says moves connections from one place to another, or dials some. -/
def Kept (s : Shared) (calls : List Call) (own : Waiter) (p : Point) (o : Outcome) : Prop :=
  atRest o.shared + owned.outcome o + owned.ofEffect calls o.effect + ↑s.live =
    atRest s + owned.point own p + ↑o.shared.live

section

variable {s : Shared} {waiterOf : ℕ → Waiter} {i : ℕ} {now : ℤ} {own : Waiter} {c : Choice} {o : Outcome}
  {calls : List Call}

theorem atRest_pop {ch : ℕ} {pc : PooledConn} {queue : List PooledConn}
    (h : (s.channel ch).queue = pc :: queue) :
    atRest (s.setQueue ch queue) + single pc = atRest s := by
  have hheld : (s.setQueue ch queue).held = s.held := rfl
  rw [atRest, atRest, hheld, add_assoc, stock_pop single h]

theorem atRest_push {ch : ℕ} (h : s.HasRoom ch) (pc : PooledConn) :
    atRest (s.push ch pc) = atRest s + single pc := by
  have hheld : (s.push ch pc).held = s.held := rfl
  rw [atRest, atRest, hheld, stock_push single h, add_assoc]

/-- A step of a call loses a connection only at a hand-off to a call that does not listen, or at a
reserve slot that a waiter takes with a connection in its channel. -/
theorem fire_kept {p : Point} (h : fire s waiterOf i now own c p = some o)
    (hclose : ∀ conn, p = .op (.close conn) → conn ∈ s.live)
    (hhand : ∀ conn w, p = .at (.handOff conn w) → c = .go → ∃ call, calls[w]? = some call ∧ listens call.pc)
    (hreserve : p = .at .reserveCheck → own.ch = none ∨ noHeadroom s) : Kept s calls own p o := by
  have hheld (cap : ℕ) (kept : List PooledConn) : (s.swapIdle cap kept).held = s.held := rfl
  cases fired h with
  | @close conn =>
    have herase := Multiset.cons_erase (Multiset.mem_coe.mpr (hclose conn rfl))
    rw [Multiset.coe_erase, ← Multiset.singleton_add] at herase
    simp only [Kept, ← herase]
    simp [owned, listens, atRest, stock]
    abel
  | returnConn | dials | warmDials =>
    simp [Kept, owned, listens, atRest, stock, ← Multiset.cons_coe, ← Multiset.singleton_add]
    abel
  | sends hc =>
    obtain ⟨call, hcall, hl⟩ := hhand _ _ rfl hc
    simp only [Kept, Weight.ofEffect, hcall, hl, if_true]
    simp [owned, listens]
  | receives hch | receivesClosed hch | finds hch | findsClosed hch | findsNothing hch =>
    simp [Kept, owned, listens, hch, single]
  | reserveShut hclosed =>
    have hch : own.ch = none := by simpa [noHeadroom, hclosed] using hreserve rfl
    simp [Kept, owned, listens, hch]
  | reserves _ hactive =>
    have hch : own.ch = none := by simpa [noHeadroom, hactive.not_ge] using hreserve rfl
    simp [Kept, owned, listens, hch, atRest, stock]
  | @evicts t =>
    simp only [Kept, Weight.outcome, total_close, atRest, hheld, ← stock_swept single s s.cfg.defaultPoolSize.toNat t]
    simp [owned, listens, add_assoc]
  | @resizes size =>
    simp only [Kept, Weight.ofEffect, total_closer, atRest, hheld, ← stock_split single s size.toNat (excess s size)]
    simp [owned, listens, stock, add_assoc]
  | @takesWaiters _ deadline =>
    simp only [Kept, Weight.outcome, total_append, total_close, total_closeCh]
    cases deadline <;> simp [owned, listens, atRest, stock]
  | pops hq =>
    simp only [Kept, ← atRest_pop hq]
    simp [owned, listens]
  | closePops hq =>
    simp only [Kept, ← atRest_pop hq]
    simp [owned, listens]
    abel
  | releasePush hroom | cancelPush hroom => simp [Kept, atRest_push hroom, owned, listens]
  | _ => simp [Kept, owned, listens, atRest, stock, Shared.panic, single, Weight.call]

variable (calls) in
theorem fire_le {p : Point} (h : fire s waiterOf i now own c p = some o)
    (hclose : ∀ conn, p = .op (.close conn) → conn ∈ s.live) :
    atRest o.shared + owned.outcome o + owned.ofEffect calls o.effect + ↑s.live ≤
      atRest s + owned.point own p + ↑o.shared.live := by
  cases fired h with
  | sends =>
    simp only [Weight.ofEffect]
    repeat' split
    all_goals simp [owned, listens]
  | reserveShut | reserveFull | reserves => simp [owned, listens, atRest, stock]
  | sendPanics | skips => simp [owned, listens, Shared.panic, atRest, stock]
  | _ =>
    refine (fire_kept h hclose ?_ ?_).le
    · intro conn w hp
      cases hp
    · intro hp
      cases hp

end

/-- Every place a connection can be in, with all idle channels there have been: with a caller, in
an idle channel, in the hands of a call, or in a channel from which a call will still receive. -/
def everywhere (s : State) : Multiset ℕ := atRest s.shared + total owned.call s.calls

variable {s : State} {i : ℕ}

theorem mem_everywhere_of_close {call : Call} {conn : ℕ} {todo : List Op}
    (hcall : s.calls[i]? = some call) (hpoint : call.point = some (.op (.close conn), todo)) :
    conn ∈ everywhere s := by
  obtain ⟨rest, hrest⟩ := owned.total_eq_add_point hcall hpoint
  rw [everywhere, hrest]
  simp [owned]

section

variable {t : State} {c : Choice} {now : ℤ}

theorem everywhere_proceed {call : Call} {p : Point} {todo : List Op} {o : Outcome}
    (hcall : s.calls[i]? = some call) (hpoint : call.point = some (p, todo))
    (h : fire s.shared s.waiterOf i now call.waiter c p = some o) :
    everywhere (s.proceed i todo o) + owned.point call.waiter p =
      atRest o.shared + owned.outcome o + owned.ofEffect s.calls o.effect + total owned.call s.calls := by
  have hshared : (s.proceed i todo o).shared = o.shared := rfl
  rw [everywhere, hshared, add_assoc, owned.total_proceed hcall hpoint h]
  abel

/-- A step of a call moves connections, dials or closes one, and loses one only where `fire_kept`
says. -/
theorem advance_lost (hs : everywhere s ≤ ↑s.shared.live) (h : s.advance i c now = some t) :
    ∃ lost, everywhere t + lost + ↑s.shared.live = everywhere s + ↑t.shared.live ∧
      (handOffArrives s (.step i c now) = true → lost = 0) := by
  obtain ⟨call, p, todo, o, hcall, hown, hpoint, hp, hfire, rfl⟩ := advance_cases h
  have hproceed := everywhere_proceed hcall hpoint hfire
  have hlocal : ∃ lost, atRest s.shared + owned.point call.waiter p + ↑o.shared.live =
      atRest o.shared + owned.outcome o + owned.ofEffect s.calls o.effect + ↑s.shared.live + lost ∧
      (handOffArrives s (.step i c now) = true → lost = 0) := by
    have hclose : ∀ conn, p = .op (.close conn) → conn ∈ s.shared.live := by
      rintro conn rfl
      exact Multiset.mem_of_le hs (mem_everywhere_of_close hcall hpoint)
    obtain ⟨lost, hlost⟩ := Multiset.le_iff_exists_add.mp (fire_le s.calls hfire hclose)
    refine ⟨lost, hlost, fun hg ↦ ?_⟩
    simp only [handOffArrives, hp, hown] at hg
    have hkept : Kept s.shared s.calls call.waiter p o := by
      refine fire_kept hfire hclose ?_ ?_
      · rintro conn w rfl rfl
        exact exists_of_listening (by simpa using hg)
      · rintro rfl
        simpa using hg
    rw [Kept, hlost] at hkept
    exact add_eq_left.mp hkept.symm
  obtain ⟨lost, hlost, hg⟩ := hlocal
  refine ⟨lost, add_right_cancel (b := owned.point call.waiter p) ?_, hg⟩
  calc everywhere (s.proceed i todo o) + lost + ↑s.shared.live + owned.point call.waiter p
      = everywhere (s.proceed i todo o) + owned.point call.waiter p + lost + ↑s.shared.live := by abel
    _ = atRest o.shared + owned.outcome o + owned.ofEffect s.calls o.effect + ↑s.shared.live + lost +
          total owned.call s.calls := by
        rw [hproceed]
        abel
    _ = everywhere s + ↑o.shared.live + owned.point call.waiter p := by
        rw [← hlost, everywhere]
        abel

theorem everywhere_enter {pc : Pc} (h : opening pc = true) :
    everywhere (s.enter ⟨pc, [], {}⟩) = everywhere s := by
  have hzero : owned.call ⟨pc, [], {}⟩ = 0 := by
    cases pc <;> first | rfl | cases h
  simp [everywhere, State.enter, hzero]

theorem everywhere_letGo {conn : ℕ} (hmem : conn ∈ s.shared.held) {call : Call}
    (h : Returning conn call) : everywhere ((s.letGo conn).enter call) = everywhere s := by
  have hone : owned.call call = {conn} := by
    rcases h with rfl | rfl | rfl <;> simp [Weight.call, owned, listens]
  have herase := Multiset.cons_erase (Multiset.mem_coe.mpr hmem)
  rw [Multiset.coe_erase, ← Multiset.singleton_add] at herase
  simp only [everywhere, State.enter, State.letGo, atRest, stock, total_append, total_cons, total_nil,
    hone, ← herase]
  abel

/-- What is in some place is dialed and not closed, and no connection is dialed twice. -/
structure Sound (s : State) : Prop where
  le_live : everywhere s ≤ ↑s.shared.live
  nodup : s.shared.live.Nodup
  fresh : ∀ c ∈ s.shared.live, c < s.shared.dialed

theorem fire_live {s : Shared} {waiterOf : ℕ → Waiter} {own : Waiter} {p : Point} {o : Outcome}
    (h : fire s waiterOf i now own c p = some o) :
    (o.shared.live = s.live ∧ o.shared.dialed = s.dialed) ∨
      (o.shared.live = s.dialed :: s.live ∧ o.shared.dialed = s.dialed + 1) ∨
      ∃ conn, o.shared.live = s.live.erase conn ∧ o.shared.dialed = s.dialed := by
  cases fired h with
  | close => exact .inr (.inr ⟨_, rfl, rfl⟩)
  | dials | warmDials => exact .inr (.inl ⟨rfl, rfl⟩)
  | _ => exact .inl ⟨rfl, rfl⟩

theorem step_sound (s : State) (e : Event) (t : State) (hs : Sound s) (h : s.step e = some t) :
    Sound t := by
  obtain ⟨i, c, now, rfl, h⟩ | rfl | ⟨pc, hpc, rfl⟩ | ⟨conn, hmem, call, hcall, rfl⟩ := step_cases h
  · obtain ⟨lost, hlost, -⟩ := advance_lost hs.le_live h
    obtain ⟨call, p, todo, o, -, -, -, -, hfire, rfl⟩ := advance_cases h
    have hshared : (s.proceed i todo o).shared = o.shared := rfl
    have hle : everywhere (s.proceed i todo o) ≤ ↑o.shared.live := by
      apply le_of_add_le_add_right (a := ↑s.shared.live)
      calc everywhere (s.proceed i todo o) + ↑s.shared.live
          ≤ everywhere (s.proceed i todo o) + lost + ↑s.shared.live :=
            add_le_add_left (Multiset.le_add_right _ _) _
        _ ≤ ↑s.shared.live + ↑o.shared.live := by
            rw [hlost, hshared]
            exact add_le_add_left hs.le_live _
        _ = ↑o.shared.live + ↑s.shared.live := add_comm _ _
    rcases fire_live hfire with ⟨hl, hd⟩ | ⟨hl, hd⟩ | ⟨conn, hl, hd⟩
    · exact ⟨hle, by rw [hshared, hl]; exact hs.nodup, by rw [hshared, hl, hd]; exact hs.fresh⟩
    · refine ⟨hle, ?_, ?_⟩
      · rw [hshared, hl]
        exact List.nodup_cons.mpr ⟨fun hmem ↦ by have := hs.fresh _ hmem; omega, hs.nodup⟩
      · intro conn hmem
        rw [hshared, hl, List.mem_cons] at hmem
        rw [hshared, hd]
        rcases hmem with rfl | hmem
        · omega
        · have := hs.fresh conn hmem
          omega
    · refine ⟨hle, by rw [hshared, hl]; exact hs.nodup.erase conn, ?_⟩
      intro conn' hmem
      rw [hshared, hl] at hmem
      rw [hshared, hd]
      exact hs.fresh conn' (List.mem_of_mem_erase hmem)
  · exact hs
  · exact ⟨by rw [everywhere_enter hpc]; exact hs.le_live, hs.nodup, hs.fresh⟩
  · exact ⟨by rw [everywhere_letGo hmem hcall]; exact hs.le_live, hs.nodup, hs.fresh⟩

theorem sound_new (cfg : Config) : Sound (new cfg) :=
  ⟨by simp [everywhere, atRest, stock, new], List.nodup_nil, by simp [new]⟩

end

/-- The connection that the next step of call `i` returns to a caller of `Acquire`. -/
def returns (s : State) (i : ℕ) : Option ℕ :=
  match pointOf s i with
  | some (.op (.returnConn conn)) => some conn
  | _ => none

theorem pointOf_of_returns {i conn : ℕ} (h : returns s i = some conn) :
    pointOf s i = some (.op (.returnConn conn)) := by
  unfold returns at h
  split at h
  · cases h
    assumption
  · cases h

theorem not_mem_held_of_returns {i conn : ℕ} (hs : Sound s) (h : returns s i = some conn) :
    conn ∉ s.shared.held := by
  intro hmem
  obtain ⟨call, hcall, hpoint⟩ := Option.bind_eq_some_iff.mp (pointOf_of_returns h)
  obtain ⟨⟨p, todo⟩, hpoint, rfl⟩ := Option.map_eq_some_iff.mp hpoint
  obtain ⟨rest, hrest⟩ := owned.total_eq_add_point hcall hpoint
  have hpair : ({conn} : Multiset ℕ) + {conn} ≤ everywhere s := by
    rw [everywhere, hrest]
    refine add_le_add ?_ (Multiset.le_add_left _ _)
    exact (Multiset.singleton_le.mpr (Multiset.mem_coe.mpr hmem)).trans (Multiset.le_add_right _ _)
  have hnodup : (↑s.shared.live : Multiset ℕ).Nodup := Multiset.coe_nodup.mpr hs.nodup
  have htwice := Multiset.nodup_of_le (hpair.trans hs.le_live) hnodup
  simp at htwice

theorem held_of_advance {s t : State} {c : Choice} {now : ℤ} (h : s.advance i c now = some t) :
    t.shared.held = (returns s i).toList ++ s.shared.held := by
  obtain ⟨call, p, todo, o, -, -, -, hpoint, hfire, rfl⟩ := advance_cases h
  have hheld : (s.proceed i todo o).shared.held = o.shared.held := rfl
  rw [hheld, (fire_fields hfire).2.2.2, returns, hpoint]
  cases p with
  | op op => cases op <;> rfl
  | «at» pc => rfl

theorem mem_held_of_step {s t : State} {e : Event} {conn : ℕ} (h : s.step e = some t) (hmem : conn ∈ s.shared.held)
    (hrelease : ∀ reset, e ≠ .release conn reset) (hdiscard : e ≠ .discard conn) : conn ∈ t.shared.held := by
  have herase {c : ℕ} (hne : conn ≠ c) : conn ∈ s.shared.held.erase c := (List.mem_erase_of_ne hne).mpr hmem
  cases e with
  | step i c now =>
    rw [held_of_advance h]
    exact List.mem_append_right _ hmem
  | release c reset =>
    simp only [State.step] at h
    split at h
    · cases h
      refine herase ?_
      rintro rfl
      exact hrelease reset rfl
    · cases h
  | discard c =>
    simp only [State.step] at h
    split at h
    · cases h
      refine herase ?_
      rintro rfl
      exact hdiscard rfl
    · cases h
  | evictIdleOnce now | ensureWarm =>
    simp only [State.step] at h
    split at h <;> cases h <;> exact hmem
  | _ =>
    cases h
    exact hmem

end PgRouter.Pool.Ownership
