import PgRouter.Pool.Ownership
import PgRouter.Pool.Promises

namespace PgRouter.Pool.Cap

open Library.Accounts Library.Runs Model Firing Weights Slots Channels Ownership Promises

def dialing : Weight ℤ where
  pc
    | .dial | .warmDial _ => 1
    | _ => 0
  op _ := 0
  boxed _ := 0
  straight := rfl
  awake := rfl

/-- The connections in the hands of a call that `active` does not count, less the decrements of
`active` that are due. -/
def uncounted : Weight ℤ where
  pc
    | .countIdle _ => 1
    | .closeReadIdle idle _ | .closePop idle _ _ | .closeTakeWaiters idle _ => idle.length
    | _ => 0
  op
    | .close _ => 1
    | .decActive => -1
    | _ => 0
  boxed _ := 0
  straight := rfl
  awake := rfl

def one (_ : PooledConn) : ℤ := 1

theorem total_one (l : List PooledConn) : total one l = l.length := by
  induction l with
  | nil => rfl
  | cons pc l ih =>
    rw [total_cons, ih, one, List.length_cons]
    omega

def opened (s : State) : ℤ := s.shared.live.length + total dialing.call s.calls

/-- The connections that `active`, the idle channels and the calls account for. -/
def accounted (s : State) : ℤ := s.shared.active + stock one s.shared + total uncounted.call s.calls

/-- No connection is idle, and no call has one in its hands that `active` does not count. -/
def nothingLoose (s : State) : Bool :=
  s.shared.chans.all (·.queue.isEmpty) && s.calls.all (uncounted.call · ≤ 0)

/-- The call has seen that the reserve has headroom, and has not yet added to `active`. -/
def reserves : Pc → Bool
  | .reserveAdd => true
  | _ => false

def noOtherReserves (s : State) (i : ℕ) : Bool := (s.calls.eraseIdx i).all fun call ↦ !reserves call.pc

/-- A compare-and-swap of `Acquire` succeeds, and the reserve adds to `active`, only while no connection is
loose, and nobody adds to `active` between another call's look at the headroom of the reserve and its `Add`. No
`Resize` and no dial of `EnsureWarm`. -/
def checksHold (s : State) : Event → Bool
  | .step i _ _ =>
    match pointOf s i with
    | some (.at (.countIdle _)) => noOtherReserves s i
    | some (.at (.casActive cur)) => s.shared.active ≠ cur || nothingLoose s && noOtherReserves s i
    | some (.at .reserveAdd) => nothingLoose s && noOtherReserves s i
    | some (.at (.warmAdd _)) | some (.at (.resize _)) => false
    | _ => true
  | _ => true

theorem total_close_uncounted (l : List PooledConn) :
    total uncounted.op (l.map fun pc ↦ .close pc.conn) = l.length := by
  rw [total_map, ← total_one]
  rfl

theorem total_closeCh_uncounted (ws : List ℕ) : total uncounted.op (ws.map .closeCh) = 0 := by
  rw [total_map]
  exact total_zero fun _ _ ↦ rfl

theorem total_closer_uncounted (l : List PooledConn) :
    total uncounted.call (l.map fun pc ↦ ⟨.straight, [.close pc.conn], {}⟩) = l.length := by
  rw [total_map, ← total_one]
  rfl

theorem total_op_dialing (l : List Op) : total dialing.op l = 0 := total_zero fun _ _ ↦ rfl

theorem total_closer_dialing (l : List PooledConn) :
    total dialing.call (l.map fun pc ↦ ⟨.straight, [.close pc.conn], {}⟩) = 0 := by
  rw [total_map]
  exact total_zero fun _ _ ↦ rfl

def dials (s : Shared) : Point → ℤ
  | .at (.casActive cur) => if s.active = cur then 1 else 0
  | .at (.warmAdd _) | .at .reserveAdd => 1
  | _ => 0

/-- What a step adds to what is accounted for covers what it adds to what is open, and it adds
something to that only if it begins to dial. -/
structure Covers (s : Shared) (calls : List Call) (own : Waiter) (p : Point) (o : Outcome) : Prop where
  account : o.shared.live.length + dialing.outcome o + dialing.ofEffect calls o.effect +
      (s.active + stock one s + uncounted.point own p) ≤
    s.live.length + dialing.point own p +
      (o.shared.active + stock one o.shared + uncounted.outcome o + uncounted.ofEffect calls o.effect)
  growth : o.shared.live.length + dialing.outcome o + dialing.ofEffect calls o.effect ≤
    s.live.length + dialing.point own p + dials s p

section

variable {s : Shared} {waiterOf : ℕ → Waiter} {i : ℕ} {now : ℤ} {own : Waiter} {c : Choice} {o : Outcome}
  {calls : List Call}

theorem fire_covers {p : Point} (h : fire s waiterOf i now own c p = some o)
    (hclose : ∀ conn, p = .op (.close conn) → conn ∈ s.live) : Covers s calls own p o := by
  have hactive (cap : ℕ) (kept : List PooledConn) : (s.swapIdle cap kept).active = s.active := rfl
  cases fired h with
  | close =>
    have hlen := List.length_erase_of_mem (hclose _ rfl)
    have hpos := List.length_pos_of_mem (hclose _ rfl)
    constructor
    all_goals
      simp [dialing, uncounted, listens, stock, hlen, dials]
      try omega
  | @evicts t =>
    have hstock := stock_swept one s s.cfg.defaultPoolSize.toNat t
    rw [total_one] at hstock
    constructor
    · simp only [Weight.outcome, total_close_uncounted, total_op_dialing, ← hstock, hactive]
      simp [dialing, uncounted, listens]
      omega
    · simp only [Weight.outcome, total_op_dialing]
      simp [dialing, listens, dials]
  | @resizes size =>
    have hstock := stock_split one s size.toNat (excess s size)
    rw [total_one] at hstock
    constructor
    · simp only [Weight.ofEffect, total_closer_uncounted, total_closer_dialing, ← hstock, hactive]
      simp [dialing, uncounted, listens, stock]
      omega
    · simp only [Weight.ofEffect, total_closer_dialing]
      simp [dialing, listens, dials]
  | sends =>
    constructor
    all_goals
      simp only [Weight.ofEffect]
      repeat' split
      all_goals simp [dialing, uncounted, listens, dials]
  | @takesWaiters _ deadline =>
    constructor
    · simp only [Weight.outcome, total_append, total_close_uncounted, total_closeCh_uncounted,
        total_op_dialing]
      cases deadline <;> simp [dialing, uncounted, listens, stock]
    · simp only [Weight.outcome, total_op_dialing]
      simp [dialing, listens, dials]
  | @pops ch _ queue hq | @closePops ch _ queue _ _ hq =>
    have hstock := stock_pop one hq
    have hactive : (s.setQueue ch queue).active = s.active := rfl
    constructor
    · simp [dialing, uncounted, listens, hactive, ← hstock, one]
      omega
    · simp [dialing, listens, dials]
  | @releasePush ch pc hroom | @cancelPush ch pc hroom =>
    have hactive : (s.push ch pc).active = s.active := rfl
    constructor
    · simp [dialing, uncounted, listens, hactive, stock_push one hroom, one, add_assoc]
    · simp [dialing, listens, dials]
  | _ =>
    constructor
    all_goals
      simp [dialing, uncounted, Weight.call, listens, stock, dials, Shared.panic]
      try omega

/-- `active` rises only where a popped connection is counted or a dial begins. -/
theorem fire_raises {p : Point} (h : fire s waiterOf i now own c p = some o) :
    o.shared.active ≤ s.active ∨ (∃ pc, p = .at (.countIdle pc)) ∨ dials s p = 1 := by
  cases fired h with
  | countIdle => exact .inr (.inl ⟨_, rfl⟩)
  | warmAdd | reserveAdd => exact .inr (.inr rfl)
  | swaps hcur => exact .inr (.inr (if_pos hcur))
  | decActive => exact .inl (Int.sub_le_self _ (by decide))
  | _ => exact .inl le_rfl

/-- A call comes to its compare-and-swap, or to the `Add` of the reserve, by a check of the code. -/
theorem fire_checked {p : Point} (h : fire s waiterOf i now own c p = some o) :
    (∀ cur, o.pc = .casActive cur → cur < s.cfg.defaultPoolSize) ∧
      (reserves o.pc = true → s.active < s.cfg.defaultPoolSize + s.cfg.reservePoolSize ∧
        o.shared.active = s.active) := by
  cases fired h with
  | below hcur =>
    refine ⟨fun cur hpc ↦ ?_, nofun⟩
    cases hpc
    exact hcur
  | reserves _ hactive => exact ⟨nofun, fun _ ↦ ⟨hactive, rfl⟩⟩
  | _ => exact ⟨nofun, nofun⟩

end

/-- `n` and `r` are the two sizes. What the checks of the code have found still holds where it is relied on. -/
structure Capped (n r : ℤ) (s : State) : Prop extends Sound s where
  accounted_le : opened s ≤ accounted s
  size : s.shared.cfg.defaultPoolSize = n
  reserve : s.shared.cfg.reservePoolSize = r
  below : ∀ call ∈ s.calls, ∀ cur, call.pc = .casActive cur → cur < n
  headroom : ∀ call ∈ s.calls, reserves call.pc = true → s.shared.active < n + r
  opened_le : opened s ≤ n + r

variable {n r : ℤ} {s t : State} {call : Call} {p : Point} {todo : List Op} {o : Outcome} {c : Choice} {now : ℤ} {i : ℕ}

theorem proceed_covers (hcall : s.calls[i]? = some call) (hpoint : call.point = some (p, todo))
    (hfire : fire s.shared s.waiterOf i now call.waiter c p = some o)
    (h : Covers s.shared s.calls call.waiter p o) :
    opened (s.proceed i todo o) + accounted s ≤ opened s + accounted (s.proceed i todo o) ∧
      opened (s.proceed i todo o) ≤ opened s + dials s.shared p := by
  have hshared : (s.proceed i todo o).shared = o.shared := rfl
  have hdialing := dialing.total_proceed hcall hpoint hfire
  have huncounted := uncounted.total_proceed hcall hpoint hfire
  have haccount := h.account
  have hgrowth := h.growth
  simp only [opened, accounted, hshared]
  constructor <;> omega

theorem accounted_le_active (h : nothingLoose s = true) : accounted s ≤ s.shared.active := by
  simp only [nothingLoose, Bool.and_eq_true, List.all_eq_true, List.isEmpty_iff, decide_eq_true_eq] at h
  have hstock : stock one s.shared = 0 := total_zero fun ch hch ↦ by rw [h.1 ch hch, total_nil]
  have hcalls : total uncounted.call s.calls ≤ 0 := by
    have hsum := List.sum_le_card_nsmul (s.calls.map uncounted.call) 0 (by simpa using h.2)
    rwa [nsmul_zero] at hsum
  rw [accounted, hstock]
  omega

/-- Where a dial begins, `active` is below the bound that the code has compared it with, and nothing but what `active`
counts is open. -/
theorem dials_cases (hs : Capped n r s) (hcall : s.calls[i]? = some call) (hpoint : call.point = some (p, todo))
    (hp : pointOf s i = some p) (hr : 0 ≤ r) (hg : checksHold s (.step i c now) = true) :
    dials s.shared p = 0 ∨ dials s.shared p = 1 ∧ opened s < n + r := by
  have hle := hs.accounted_le
  have hmem := List.mem_of_getElem? hcall
  simp only [checksHold, hp] at hg
  cases p with
  | op op => exact Or.inl rfl
  | «at» pc =>
    cases pc
    case casActive cur =>
      by_cases hcur : s.shared.active = cur
      · have hbelow := hs.below call hmem cur (Weight.pc_of_point hpoint)
        have hloose : nothingLoose s = true := by
          simp [hcur] at hg
          exact hg.1
        have hactive := accounted_le_active hloose
        exact Or.inr ⟨if_pos hcur, by omega⟩
      · exact Or.inl (if_neg hcur)
    case reserveAdd =>
      have hhead := hs.headroom call hmem (by rw [Weight.pc_of_point hpoint]; rfl)
      have hactive := accounted_le_active (Bool.and_eq_true_iff.mp hg).1
      exact Or.inr ⟨rfl, by omega⟩
    case warmAdd floor => cases hg
    all_goals exact Or.inl rfl

/-- Nobody but the call that makes the step relies on a look at the headroom if the step adds to `active`. -/
theorem noOther_of_raises (hp : pointOf s i = some p) (hg : checksHold s (.step i c now) = true)
    (h : (∃ pc, p = .at (.countIdle pc)) ∨ dials s.shared p = 1) : noOtherReserves s i = true := by
  simp only [checksHold, hp] at hg
  rcases h with ⟨pc, rfl⟩ | h
  · exact hg
  · cases p with
    | op op => cases h
    | «at» pc =>
      cases pc
      case casActive cur =>
        have hcur : s.shared.active = cur := by
          by_contra hne
          rw [dials, if_neg hne] at h
          cases h
        simp [hcur] at hg
        exact hg.2
      case reserveAdd => exact (Bool.and_eq_true_iff.mp hg).2
      case warmAdd floor => cases hg
      all_goals cases h

theorem advance_capped (hr : 0 ≤ r) (hs : Capped n r s) (hg : checksHold s (.step i c now) = true)
    (h : s.advance i c now = some t) : Capped n r t := by
  have hsound := step_sound s (.step i c now) t hs.toSound h
  obtain ⟨call, p, todo, o, hcall, -, hpoint, hp, hfire, rfl⟩ := advance_cases h
  have hcovers : Covers s.shared s.calls call.waiter p o := by
    refine fire_covers hfire ?_
    rintro conn rfl
    exact Multiset.mem_of_le hs.le_live (mem_everywhere_of_close hcall hpoint)
  obtain ⟨haccount, hgrowth⟩ := proceed_covers hcall hpoint hfire hcovers
  have hdials := dials_cases hs hcall hpoint hp hr hg
  have hcfg : o.shared.cfg = s.shared.cfg := by
    refine (fire_capacity hfire).2.2.resolve_left ?_
    rintro ⟨m, rfl, -⟩
    simp [checksHold, hp] at hg
  obtain ⟨hchecked, hreserves⟩ := fire_checked hfire
  rw [hs.size] at hchecked hreserves
  rw [hs.reserve] at hreserves
  have hle := hs.accounted_le
  have hopened := hs.opened_le
  have hshared : (s.proceed i todo o).shared = o.shared := rfl
  refine ⟨hsound, by omega, by rw [hshared, hcfg, hs.size], by rw [hshared, hcfg, hs.reserve], ?_, ?_, by omega⟩
  · intro c' hc' cur hcur
    obtain ⟨j, hj⟩ := List.getElem?_of_mem hc'
    rcases proceed_call hcall hj with ⟨b, rfl, hb⟩ | ⟨cs, hspawn, hmem⟩
    · have hpc : b.pc = .casActive cur := by
        rcases touch_pc j b o.effect with h' | ⟨-, h'⟩
        · rw [← h', hcur]
        · rw [h'] at hcur
          cases hcur
      rcases hb with ⟨-, rfl⟩ | ⟨-, hb⟩
      · exact hchecked cur hpc
      · exact hs.below b (List.mem_of_getElem? hb) cur hpc
    · cases (fire_course hfire).spawns cs hspawn c' hmem <;> cases hcur
  · intro c' hc' hreserving
    obtain ⟨j, hj⟩ := List.getElem?_of_mem hc'
    rcases proceed_call hcall hj with ⟨b, rfl, hb⟩ | ⟨cs, hspawn, hmem⟩
    · rw [touch_congr _ _ _ reserves rfl] at hreserving
      rcases hb with ⟨-, rfl⟩ | ⟨hji, hb⟩
      · obtain ⟨hhead, hsame⟩ := hreserves hreserving
        rw [hshared, hsame]
        exact hhead
      · have hbefore := hs.headroom b (List.mem_of_getElem? hb) hreserving
        rcases fire_raises hfire with hactive | hraises
        · rw [hshared]
          omega
        · have hnone := List.all_eq_true.mp (noOther_of_raises hp hg hraises) b
            (List.mem_eraseIdx_iff_getElem?.mpr ⟨j, hji, hb⟩)
          rw [hreserving] at hnone
          cases hnone
    · cases (fire_course hfire).spawns cs hspawn c' hmem <;> cases hreserving

theorem capped_enter {held : List ℕ} (hs : Capped n r s)
    (hsound : Sound (⟨{ s.shared with held := held }, s.calls ++ [call]⟩ : State))
    (hdialing : dialing.call call = 0) (huncounted : uncounted.call call = 0)
    (hpc : ∀ cur, call.pc ≠ .casActive cur) (hreserves : reserves call.pc = false) :
    Capped n r ⟨{ s.shared with held := held }, s.calls ++ [call]⟩ := by
  have hopened : opened ⟨{ s.shared with held := held }, s.calls ++ [call]⟩ = opened s := by
    simp [opened, hdialing]
  have haccounted : accounted ⟨{ s.shared with held := held }, s.calls ++ [call]⟩ = accounted s := by
    simp [accounted, huncounted, stock]
  refine ⟨hsound, by rw [hopened, haccounted]; exact hs.accounted_le, hs.size, hs.reserve, ?_, ?_,
    by rw [hopened]; exact hs.opened_le⟩
  · intro c' hc' cur hcur
    rcases List.mem_append.mp hc' with hc' | hc'
    · exact hs.below c' hc' cur hcur
    · rw [List.mem_singleton.mp hc'] at hcur
      exact absurd hcur (hpc cur)
  · intro c' hc' hreserving
    rcases List.mem_append.mp hc' with hc' | hc'
    · exact hs.headroom c' hc' hreserving
    · rw [List.mem_singleton.mp hc', hreserves] at hreserving
      cases hreserving

theorem step_capped (hr : 0 ≤ r) (s : State) (e : Event) (t : State) (hs : Capped n r s)
    (hg : checksHold s e = true) (h : s.step e = some t) : Capped n r t := by
  have hsound := step_sound s e t hs.toSound h
  obtain ⟨i, c, now, rfl, h⟩ | rfl | ⟨pc, hpc, rfl⟩ | ⟨conn, hmem, call, hcall, rfl⟩ := step_cases h
  · exact advance_capped hr hs hg h
  · exact hs
  · refine capped_enter hs hsound ?_ ?_ ?_ ?_
    all_goals cases pc <;> first | (cases hpc; done) | rfl | nofun
  · refine capped_enter hs hsound ?_ ?_ ?_ ?_
    all_goals rcases hcall with rfl | rfl | rfl <;> first | rfl | nofun

theorem capped_new (cfg : Config) :
    Capped cfg.normalized.defaultPoolSize cfg.normalized.reservePoolSize (new cfg) where
  toSound := sound_new cfg
  accounted_le := by simp [opened, accounted, new, stock]
  size := rfl
  reserve := rfl
  below _ hcall := absurd hcall List.not_mem_nil
  headroom _ hcall := absurd hcall List.not_mem_nil
  opened_le := by
    simp [opened, new, Config.normalized]
    omega

/-- In a run in which what a call has checked before it dials still holds when it adds to `active`, no more than
`DefaultPoolSize + ReservePoolSize` connections are open or being dialed. -/
theorem opened_le_cap {cfg : Config} {es : List Event} {s : State}
    (h : Run State.step checksHold (new cfg) es s) :
    opened s ≤ cfg.normalized.defaultPoolSize + cfg.normalized.reservePoolSize ∧
      (cfg.normalized.reservePoolSize = 0 → opened s ≤ cfg.normalized.defaultPoolSize) := by
  have hr : 0 ≤ cfg.normalized.reservePoolSize := by simp [Config.normalized]
  have hs := h.invariant (step_capped hr) (capped_new cfg)
  have hopened := hs.opened_le
  exact ⟨hopened, fun hr ↦ by omega⟩

theorem opened_le_cap_handedOver :
    ∃ s, Run State.step checksHold (new oneSlot) handedOver s ∧ opened s ≤ 1 := by
  have h : Run State.step checksHold (new oneSlot) handedOver _ := run_of_exec rfl
  exact ⟨_, h, (opened_le_cap h).2 rfl⟩

def emptyThenFree : List Event :=
  .acquire :: steps 0 9 ++ .acquire :: steps 1 4 ++ .release 0 false :: steps 2 5 ++ steps 1 5

theorem emptyThenFree_exceeds :
    ∃ s, Run State.step anyStep (new oneSlot) emptyThenFree s ∧ opened s = 2 ∧
      oneSlot.normalized.defaultPoolSize = 1 ∧ oneSlot.normalized.reservePoolSize = 0 := by
  have h : Run State.step anyStep (new oneSlot) emptyThenFree _ := run_of_exec rfl
  exact ⟨_, h, by decide, by decide, by decide⟩

end PgRouter.Pool.Cap
