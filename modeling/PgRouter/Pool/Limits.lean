import PgRouter.Pool.Promises
import PgRouter.Pool.Registry
import PgRouter.Pool.Tokens

namespace PgRouter.Pool.Limits

open Client.Protocol Library.Accounts Library.Runs Model Firing Weights Slots Promises Tokens Registry

section Pool

variable {s t : State}

variable {p : Point} {c : Choice} {i : ℕ} {e : Event} {waiterOf : ℕ → Waiter} {own : Waiter} {now : ℤ} {o : Outcome}

def warms : Pc → Bool
  | .warmLoadActive _ | .warmReadIdle _ _ | .warmLen _ _ _ | .warmLoadClosed _ | .warmAdd _
  | .warmDial _ => true
  | _ => false

def isWarm : Op → Bool
  | .warm _ => true
  | _ => false

def cold (call : Call) : Bool := !warms call.pc && !call.todo.any isWarm

def Cold (s : State) : Prop := ∀ call ∈ s.calls, cold call = true

theorem fire_cold {s : Shared} (h : fire s waiterOf i now own c p = some o)
    (hat : ∀ pc, p = .at pc → warms pc = false) (hop : ∀ op, p = .op op → isWarm op = false) :
    warms o.pc = false ∧ o.todo.any isWarm = false ∧
      ∀ cs, o.effect = .spawn cs → ∀ call ∈ cs, cold call = true := by
  cases fired h with
  | startDrain =>
    refine ⟨rfl, rfl, fun cs he ↦ ?_⟩
    cases he
    simp [cold, warms]
  | resizes =>
    refine ⟨rfl, rfl, fun cs he call hcall ↦ ?_⟩
    cases he
    obtain ⟨pc, -, rfl⟩ := List.mem_map.mp hcall
    rfl
  | evicts => exact ⟨rfl, by simp [isWarm, Function.comp_def], nofun⟩
  | @takesWaiters _ deadline =>
    refine ⟨rfl, ?_, nofun⟩
    cases deadline <;> simp [isWarm, Function.comp_def]
  | warm => cases hop _ rfl
  | warmLoadActive | warmReadIdle | warmEnough | warmTooFew | warmShut | warmUnshut | warmAdd | warmFails
  | warmDials => cases hat _ rfl
  | _ => exact ⟨rfl, rfl, nofun⟩

theorem cold_point {call : Call} {todo : List Op} (hcold : cold call = true) (h : call.point = some (p, todo)) :
    (∀ pc, p = .at pc → warms pc = false) ∧ (∀ op, p = .op op → isWarm op = false) ∧
      todo.any isWarm = false := by
  simp only [cold, Bool.and_eq_true, Bool.not_eq_true'] at hcold
  unfold Call.point at h
  split at h
  · cases h
  · rename_i hpc htodo
    cases h
    rw [htodo, List.any_cons, Bool.or_eq_false_iff] at hcold
    exact ⟨nofun, fun op hop ↦ by cases hop; exact hcold.2.1, hcold.2.2⟩
  · cases h
    exact ⟨fun pc hpc ↦ by cases hpc; exact hcold.1, nofun, hcold.2⟩

theorem step_cold (hs : Cold s) (he : e ≠ .ensureWarm) (h : s.step e = some t) : Cold t := by
  have henter {h : List ℕ} {call : Call} (hcold : cold call = true) :
      Cold ⟨{ s.shared with held := h }, s.calls ++ [call]⟩ := by
    intro c hc
    rcases List.mem_append.mp hc with hc | hc
    · exact hs c hc
    · rw [List.mem_singleton.mp hc, hcold]
  cases e with
  | step i c now =>
    obtain ⟨call, p, todo, o, hcall, -, hpoint, -, hfire, rfl⟩ := advance_cases h
    obtain ⟨hat, hop, htodo⟩ := cold_point (hs call (List.mem_of_getElem? hcall)) hpoint
    obtain ⟨hpc, hany, hspawn⟩ := fire_cold hfire hat hop
    intro c' hc'
    obtain ⟨j, hj⟩ := List.getElem?_of_mem hc'
    rcases proceed_call hcall hj with ⟨b, rfl, hb⟩ | ⟨cs, hcs, hmem⟩
    · rw [cold, touch_congr _ _ _ warms rfl, touch_todo]
      rcases hb with ⟨-, rfl⟩ | ⟨-, hb⟩
      · simp [hpc, hany, htodo]
      · exact hs b (List.mem_of_getElem? hb)
    · exact hspawn cs hcs c' hmem
  | ensureWarm => exact absurd rfl he
  | release conn resetSession =>
    simp only [State.step] at h
    split at h <;> cases h
    refine henter ?_
    cases resetSession <;> rfl
  | discard conn =>
    simp only [State.step] at h
    split at h <;> cases h
    exact henter rfl
  | evictIdleOnce now =>
    simp only [State.step] at h
    split at h <;> cases h
    · exact hs
    · exact henter rfl
  | _ =>
    cases h
    exact henter rfl

theorem warmsNothing_of_cold (hs : Cold s) (e : Event) : warmsNothing s e = true := by
  cases e with
  | step i c now =>
    rw [warmsNothing]
    split
    · rename_i hp
      simp only [pointOf, Option.bind_eq_some_iff, Option.map_eq_some_iff] at hp
      obtain ⟨call, hcall, ⟨p, todo⟩, hpoint, rfl⟩ := hp
      cases (cold_point (hs call (List.mem_of_getElem? hcall)) hpoint).1 _ rfl
    · rfl
  | _ => rfl

theorem pointOf_step (h : s.step e = some t) {j : ℕ} (hp : pointOf s j = some p) (hne : p ≠ .at .drainAsleep)
    (hj : ∀ c now, e ≠ .step j c now) : pointOf t j = some p := by
  simp only [pointOf, Option.bind_eq_some_iff, Option.map_eq_some_iff] at hp
  obtain ⟨call, hcall, ⟨q, todo⟩, hpoint, rfl⟩ := hp
  obtain ⟨i, c, now, rfl, h⟩ | rfl | ⟨pc, -, rfl⟩ | ⟨conn, -, call', -, rfl⟩ := step_cases h
  · obtain ⟨mover, q', todo', o, hmover, -, -, -, -, rfl⟩ := advance_cases h
    have hji : j ≠ i := by
      rintro rfl
      exact hj c now rfl
    have hbase : (s.calls.set i ⟨o.pc, o.todo ++ todo', o.waiter⟩)[j]? = some call := by
      rw [List.getElem?_set_ne (Ne.symm hji), hcall]
    have hpc : (touch j call o.effect).pc = call.pc := by
      rcases touch_pc j call o.effect with hpc | ⟨hpc, -⟩
      · exact hpc
      · refine absurd ?_ hne
        unfold Call.point at hpoint
        simp only [hpc] at hpoint
        cases hpoint
        rfl
    have hsame : (touch j call o.effect).point = call.point := by
      unfold Call.point
      rw [hpc, touch_todo]
    simp [pointOf, State.proceed, getElem?_apply hbase, hsame, hpoint]
  · simp [pointOf, hcall, hpoint]
  · have hlt := (List.getElem?_eq_some_iff.mp hcall).1
    simp [pointOf, State.enter, List.getElem?_append_left hlt, hcall, hpoint]
  · have hlt := (List.getElem?_eq_some_iff.mp hcall).1
    simp [pointOf, State.enter, State.letGo, List.getElem?_append_left hlt, hcall, hpoint]

theorem counters_step (h : s.step e = some t)
    (he : ∀ i c now, e = .step i c now → pointOf s i ≠ some (.at .preAcquire) ∧ pointOf s i ≠ some (.op .postRelease)) :
    t.shared.preAcquired = s.shared.preAcquired ∧ t.shared.postReleased = s.shared.postReleased := by
  obtain ⟨i, c, now, rfl, h⟩ | rfl | ⟨pc, -, rfl⟩ | ⟨conn, -, call', -, rfl⟩ := step_cases h
  · obtain ⟨call, p, todo, o, -, -, -, hp, hfire, rfl⟩ := advance_cases h
    obtain ⟨hpre, hpost⟩ := he i c now rfl
    rw [hp] at hpre hpost
    exact ((fire_fields hfire).2.1.resolve_left fun h ↦ hpre (h ▸ rfl)).resolve_left fun h ↦ hpost (h ▸ rfl)
  · exact ⟨rfl, rfl⟩
  · exact ⟨rfl, rfl⟩
  · exact ⟨rfl, rfl⟩

end Pool

section Progress

variable {e : Entry} {i : ℕ}

theorem progressOf_setProgress (p : Progress) (j : ℕ) :
    (e.setProgress i p).progressOf j = if j = i then p else e.progressOf j := by
  simp only [Entry.progressOf, Entry.setProgress, List.getD_eq_getElem?_getD, List.getElem?_set]
  by_cases hj : j = i
  · subst hj
    have hlt : j < e.progress.length + (j + 1 - e.progress.length) := by omega
    simp [hlt]
  · rw [if_neg (Ne.symm hj), if_neg hj, List.getElem?_append]
    split
    · rfl
    · rw [List.getElem?_eq_none (l := e.progress) (by omega), List.getElem?_replicate]
      split <;> rfl

theorem total_setProgress {f : Progress → ℤ} (hf : f .idle = 0) (p : Progress) :
    total f (e.setProgress i p).progress + f (e.progressOf i) = total f e.progress + f p := by
  have hget : (e.progress ++ List.replicate (i + 1 - e.progress.length) Progress.idle)[i]? =
      some (e.progressOf i) := by
    rw [Entry.progressOf, List.getD_eq_getElem?_getD, List.getElem?_append]
    split
    · rw [List.getElem?_eq_getElem ‹_›]
      rfl
    · rw [List.getElem?_eq_none (l := e.progress) (by omega), List.getElem?_replicate,
        if_pos (by omega)]
      rfl
  have hpad : total f (List.replicate (i + 1 - e.progress.length) Progress.idle) = 0 :=
    total_zero fun q hq ↦ by rw [List.eq_of_mem_replicate hq, hf]
  have hset := total_set f hget p
  rw [total_append, hpad, add_zero] at hset
  exact hset

end Progress

section Shares

/-- What the progress of a callback adds to the tokens of the calls between their `PreAcquire` and
their `PostRelease`. -/
def extra (semas : List Sema) (sema : Sema) : Progress → ℤ
  | .idle => 0
  | .taking n | .rollingBack n => if sema ∈ semas.take n then 1 else 0
  | .giving n => if sema ∈ semas.drop n then -1 else 0

/-- The tokens in `sema` that belong to the calls of a pool and to the connections held from it. -/
def share (l : Limits) (sema : Sema) (e : Entry) : ℤ :=
  (if sema ∈ l.limitersFor e.key then
    (e.pool.shared.preAcquired : ℤ) - e.pool.shared.postReleased else 0) +
    total (extra (l.limitersFor e.key) sema) e.progress

def fits (s : State) (i : ℕ) : Progress → Prop
  | .idle => True
  | .taking _ | .rollingBack _ => pointOf s i = some (.at .preAcquire)
  | .giving _ => pointOf s i = some (.op .postRelease)

structure InStep (e : Entry) : Prop where
  settled : Settled e.pool
  cold : Cold e.pool
  progress : ∀ i, fits e.pool i (e.progressOf i)

def heldOf (l : Limits) (sema : Sema) (e : Entry) : ℤ :=
  if sema ∈ l.limitersFor e.key then e.pool.shared.held.length else 0

variable {l : Limits} {sema : Sema} {e : Entry}

theorem nodup_limitersFor (l : Limits) (k : Key) : (l.limitersFor k).Nodup :=
  List.Nodup.filter _ (by simp)

variable {i : ℕ}

theorem tokens_of_pointOf {s : State} (h : pointOf s i = some (.op .postRelease)) :
    ∃ call, s.calls[i]? = some call ∧ 1 ≤ tokens.call call := by
  simp only [pointOf, Option.bind_eq_some_iff, Option.map_eq_some_iff] at h
  obtain ⟨call, hcall, ⟨q, todo⟩, hpoint, rfl⟩ := h
  refine ⟨call, hcall, ?_⟩
  rw [tokens.call_point hpoint]
  simp [tokens]

theorem heldOf_le_share (he : InStep e) : heldOf l sema e ≤ share l sema e := by
  unfold heldOf share
  split
  · have hsettled := he.settled
    unfold Settled at hsettled
    have hpaired : 0 ≤ total (fun call ↦ (tokens.call call : ℤ)) e.pool.calls +
        total (extra (l.limitersFor e.key) sema) e.progress := by
      refine total_nonneg_of_paired (fun _ ↦ Int.natCast_nonneg _) fun i p hp ↦ ?_
      have hof : e.progressOf i = p := by simp [Entry.progressOf, List.getD_eq_getElem?_getD, hp]
      cases p with
      | idle => exact Or.inl le_rfl
      | taking n | rollingBack n =>
        left
        simp only [extra]
        split <;> decide
      | giving n =>
        have hfits := he.progress i
        rw [hof] at hfits
        obtain ⟨call, hcall, hone⟩ := tokens_of_pointOf hfits
        refine Or.inr ⟨call, hcall, ?_⟩
        simp only [extra]
        split <;> omega
    rw [total_natCast] at hpaired
    omega
  · have hzero : total (extra (l.limitersFor e.key) sema) e.progress = 0 := by
      refine total_zero fun p _ ↦ ?_
      have hnot (n : ℕ) : sema ∉ (l.limitersFor e.key).take n ∧ sema ∉ (l.limitersFor e.key).drop n :=
        ⟨fun h ↦ ‹¬ _› (List.mem_of_mem_take h), fun h ↦ ‹¬ _› (List.mem_of_mem_drop h)⟩
      cases p <;> simp [extra, hnot]
    rw [hzero]
    rfl

theorem share_setProgress (l : Limits) (sema : Sema) (e : Entry) (i : ℕ) (p : Progress) :
    share l sema (e.setProgress i p) + extra (l.limitersFor e.key) sema (e.progressOf i) =
      share l sema e + extra (l.limitersFor e.key) sema p := by
  have htotal := total_setProgress (e := e) (i := i) (f := extra (l.limitersFor e.key) sema) rfl p
  have hpool : (e.setProgress i p).pool = e.pool := rfl
  have hkey : (e.setProgress i p).key = e.key := rfl
  rw [share, share, hpool, hkey]
  omega

theorem extra_succ {semas : List Sema} (hnodup : semas.Nodup) {n : ℕ} {next : Sema}
    (hnext : semas[n]? = some next) (sema : Sema) :
    ((if sema ∈ semas.take (n + 1) then 1 else 0 : ℤ) =
      (if sema ∈ semas.take n then 1 else 0) + if sema = next then 1 else 0) ∧
    ((if sema ∈ semas.drop n then -1 else 0 : ℤ) =
      (if sema ∈ semas.drop (n + 1) then -1 else 0) - if sema = next then 1 else 0) := by
  obtain ⟨hlt, hget⟩ := List.getElem?_eq_some_iff.mp hnext
  have hdrop : semas.drop n = next :: semas.drop (n + 1) := by
    rw [List.drop_eq_getElem_cons hlt, hget]
  have htake : semas.take (n + 1) = semas.take n ++ [next] := by
    rw [List.take_add_one, hnext]
    rfl
  have hsplit : (semas.take n ++ next :: semas.drop (n + 1)).Nodup := by
    rw [← hdrop, List.take_append_drop]
    exact hnodup
  have hnotTake : next ∉ semas.take n := fun h ↦
    (List.nodup_append.mp hsplit).2.2 next h next List.mem_cons_self rfl
  have hnotDrop : next ∉ semas.drop (n + 1) := (List.nodup_cons.mp (List.nodup_append.mp hsplit).2.1).1
  rw [hdrop, htake]
  by_cases heq : sema = next
  · subst heq
    simp [hnotTake, hnotDrop]
  · simp [heq]

theorem InStep.setProgress (he : InStep e) {p : Progress} (hp : fits e.pool i p) :
    InStep (e.setProgress i p) := by
  refine ⟨he.settled, he.cold, fun j ↦ ?_⟩
  rw [progressOf_setProgress]
  split
  · subst j
    exact hp
  · exact he.progress j

theorem fits_step {s t : State} {ev : Event} (h : s.step ev = some t) {j : ℕ}
    (hj : ∀ c now, ev ≠ .step j c now) {p : Progress} (hp : fits s j p) : fits t j p := by
  cases p with
  | idle => exact trivial
  | taking n | rollingBack n => exact pointOf_step h hp nofun hj
  | giving n => exact pointOf_step h hp nofun hj

theorem InStep.pool (he : InStep e) {ev : Event} {t : State} (h : e.pool.step ev = some t)
    (hwarm : ev ≠ .ensureWarm)
    (hev : ∀ i c now, ev = .step i c now →
      pointOf e.pool i ≠ some (.at .preAcquire) ∧ pointOf e.pool i ≠ some (.op .postRelease)) :
    InStep { e with pool := t } ∧ ∀ l sema, share l sema { e with pool := t } = share l sema e := by
  constructor
  · refine ⟨step_settled _ ev _ he.settled (warmsNothing_of_cold he.cold ev) h,
      step_cold he.cold hwarm h, fun j ↦ ?_⟩
    have hfits := he.progress j
    by_cases hj : ∀ c now, ev ≠ .step j c now
    · exact fits_step h hj hfits
    · push Not at hj
      obtain ⟨c, now, rfl⟩ := hj
      obtain ⟨hpre, hpost⟩ := hev j c now rfl
      have hidle : ({ e with pool := t } : Entry).progressOf j = .idle := by
        change e.progressOf j = .idle
        cases hp : e.progressOf j with
        | idle => rfl
        | taking n | rollingBack n =>
          rw [hp] at hfits
          exact absurd hfits hpre
        | giving n =>
          rw [hp] at hfits
          exact absurd hfits hpost
      rw [hidle]
      exact trivial
  · intro l sema
    obtain ⟨hpre, hpost⟩ := counters_step h hev
    unfold share
    rw [hpre, hpost]

theorem InStep.resume (he : InStep e) {c : Choice} {now : ℤ} {e' : Entry}
    (h : e.resume i c now = some e') :
    InStep e' ∧ e'.key = e.key ∧ (e.setProgress i .idle).progress = e'.progress ∧
      e.pool.step (.step i c now) = some e'.pool := by
  obtain ⟨t, ht, rfl⟩ := Option.map_eq_some_iff.mp h
  refine ⟨?_, rfl, rfl, ht⟩
  refine ⟨step_settled _ _ _ he.settled (warmsNothing_of_cold he.cold _) ht,
    step_cold (e := .step i c now) he.cold nofun ht, fun j ↦ ?_⟩
  have hprogress := progressOf_setProgress (e := e) (i := i) .idle j
  have hsame : ({ e.setProgress i .idle with pool := t } : Entry).progressOf j =
      (e.setProgress i .idle).progressOf j := rfl
  rw [hsame, hprogress]
  split
  · exact trivial
  · refine fits_step ht ?_ (he.progress j)
    rintro c' now' hev
    cases hev
    exact absurd rfl ‹_›

end Shares

section Manager

open Manager

structure Counted (m : Manager) : Prop where
  inStep : ∀ e ∈ m.pools, InStep e
  tokens : ∀ sema, (m.tokens sema : ℤ) = total (share m.limits sema) m.pools
  capped : ∀ sema, 0 < m.limits.capacity sema → (m.tokens sema : ℤ) ≤ m.limits.capacity sema

variable {m : Manager} {j : ℕ} {e e' : Entry}

theorem Counted.put (hm : Counted m) (hj : m.pools[j]? = some e) (he' : InStep e')
    {tokens : Sema → ℕ}
    (htokens : ∀ sema, (tokens sema : ℤ) + share m.limits sema e =
      m.tokens sema + share m.limits sema e')
    (hcapped : ∀ sema, 0 < m.limits.capacity sema → (tokens sema : ℤ) ≤ m.limits.capacity sema) :
    Counted (({ m with tokens := tokens } : Manager).put j e') := by
  refine ⟨fun d hd ↦ ?_, fun sema ↦ ?_, hcapped⟩
  · rcases List.mem_or_eq_of_mem_set hd with hd | rfl
    · exact hm.inStep d hd
    · exact he'
  · have hset := total_set (share m.limits sema) hj e'
    have hbefore := hm.tokens sema
    have hafter := htokens sema
    change (tokens sema : ℤ) = total (share m.limits sema) (m.pools.set j e')
    omega

theorem Counted.put_same (hm : Counted m) (hj : m.pools[j]? = some e) (he' : InStep e')
    (hshare : ∀ sema, share m.limits sema e' = share m.limits sema e) : Counted (m.put j e') :=
  hm.put hj he' (fun sema ↦ by rw [hshare]) hm.capped

theorem Counted.get (hm : Counted m) (k : Key) : Counted (m.get k) := by
  unfold Manager.get
  split
  · exact hm
  · refine ⟨fun d hd ↦ ?_, fun sema ↦ ?_, hm.capped⟩
    · rcases List.mem_append.mp hd with hd | hd
      · exact hm.inStep d hd
      · rw [List.mem_singleton.mp hd]
        refine ⟨rfl, ?_, fun i ↦ trivial⟩
        simp [Cold, new]
    · simp only [total_append, total_cons, total_nil]
      rw [hm.tokens sema]
      simp [share, new]

section Callbacks

variable {i n : ℕ} {c : Choice} {now : ℤ} {m' : Manager}

theorem counted_setProgress (hm : Counted m) (hj : m.pools[j]? = some e) {p : Progress}
    (hfits : fits e.pool i p)
    (hextra : ∀ sema, extra (m.limits.limitersFor e.key) sema p =
      extra (m.limits.limitersFor e.key) sema (e.progressOf i)) :
    Counted (m.put j (e.setProgress i p)) := by
  refine hm.put_same hj ((hm.inStep e (List.mem_of_getElem? hj)).setProgress hfits) fun sema ↦ ?_
  have hshare := share_setProgress m.limits sema e i p
  rw [hextra sema] at hshare
  exact add_right_cancel hshare

def Receives (after : ℕ → Progress) : Prop := after = .rollingBack ∨ after = .giving

variable {after : ℕ → Progress}

theorem extra_receives (hafter : Receives after) {semas : List Sema}
    (hnodup : semas.Nodup) {next : Sema} (hnext : semas[n]? = some next) (sema : Sema) :
    extra semas sema (after (n + 1)) =
      extra semas sema (after n) + if sema = next then 1 else 0 := by
  obtain ⟨htake, hdrop⟩ := extra_succ hnodup hnext sema
  rcases hafter with rfl | rfl
  · exact htake
  · simp only [extra]
    omega

theorem fits_receives (hafter : Receives after) {s : State}
    (h : fits s i (after (n + 1))) : fits s i (after n) := by
  rcases hafter with rfl | rfl <;> exact h

theorem counted_receive (hafter : Receives after) (hm : Counted m)
    (hj : m.pools[j]? = some e) (hp : e.progressOf i = after (n + 1))
    (h : m.receive (m.limits.limitersFor e.key) j e i n after = some m') : Counted m' := by
  obtain ⟨next, hnext, h⟩ := Option.bind_eq_some_iff.mp h
  have he := hm.inStep e (List.mem_of_getElem? hj)
  have hfits := he.progress i
  rw [hp] at hfits
  split at h
  · cases h
  · rename_i hne
    cases h
    refine hm.put hj (he.setProgress (fits_receives hafter hfits)) (fun sema ↦ ?_) fun sema hpos ↦ ?_
    · have hshare := share_setProgress m.limits sema e i (after n)
      have hextra := extra_receives hafter (nodup_limitersFor m.limits e.key) hnext sema
      rw [hp] at hshare
      rw [Function.update_apply]
      split at hextra
      · subst sema
        rw [if_pos rfl]
        omega
      · rw [if_neg ‹_›]
        omega
    · have hcapped := hm.capped sema hpos
      rw [Function.update_apply]
      split
      · subst sema
        omega
      · exact hcapped

theorem tokens_of_receive (hafter : Receives after) (hm : Counted m)
    (hmem : e ∈ m.pools) (hp : e.progressOf i = after (n + 1)) {next : Sema}
    (hnext : (m.limits.limitersFor e.key)[n]? = some next) : m.tokens next ≠ 0 := by
  have he := hm.inStep e hmem
  have hfits := he.progress i
  rw [hp] at hfits
  have hheld : heldOf m.limits next (e.setProgress i (after n)) ≤ share m.limits next (e.setProgress i (after n)) :=
    heldOf_le_share (he.setProgress (fits_receives hafter hfits))
  have hshare := share_setProgress m.limits next e i (after n)
  have hextra := extra_receives hafter (nodup_limitersFor m.limits e.key) hnext next
  rw [if_pos rfl] at hextra
  rw [hp, hextra] at hshare
  have hnonneg : ∀ d, 0 ≤ heldOf m.limits next d := by
    intro d
    unfold heldOf
    split <;> omega
  have hone : 1 ≤ share m.limits next e := by
    have := hnonneg (e.setProgress i (after n))
    omega
  have hle : share m.limits next e ≤ total (share m.limits next) m.pools :=
    List.single_le_sum (fun x hx ↦ by
      obtain ⟨d, hd, rfl⟩ := List.mem_map.mp hx
      exact (hnonneg d).trans (heldOf_le_share (hm.inStep d hd))) _ (List.mem_map_of_mem hmem)
  have htokens := hm.tokens next
  omega

theorem counters_preAcquire {s t : State} (hp : pointOf s i = some (.at .preAcquire))
    (h : s.step (.step i c now) = some t) :
    t.shared.preAcquired = s.shared.preAcquired + (if c = .fail then 0 else 1) ∧
      t.shared.postReleased = s.shared.postReleased := by
  obtain ⟨call, p, todo, o, -, -, -, hp', hfire, rfl⟩ := advance_cases h
  obtain rfl : Point.at .preAcquire = p := Option.some.inj (hp.symm.trans hp')
  cases fired hfire with
  | refused hc =>
    rw [if_pos hc]
    exact ⟨rfl, rfl⟩
  | admitted hc =>
    rw [if_neg hc]
    exact ⟨rfl, rfl⟩

theorem counters_postRelease {s t : State} (hp : pointOf s i = some (.op .postRelease))
    (h : s.step (.step i c now) = some t) :
    t.shared.preAcquired = s.shared.preAcquired ∧
      t.shared.postReleased = s.shared.postReleased + 1 := by
  obtain ⟨call, p, todo, o, -, -, -, hp', hfire, rfl⟩ := advance_cases h
  obtain rfl : Point.op .postRelease = p := Option.some.inj (hp.symm.trans hp')
  cases hfire
  exact ⟨rfl, rfl⟩

theorem counted_resume (hm : Counted m) (hj : m.pools[j]? = some e)
    (h : (e.resume i c now).map (m.put j) = some m')
    (hcounters : ∀ t, e.pool.step (.step i c now) = some t → ∀ sema,
      (if sema ∈ m.limits.limitersFor e.key then
        (t.shared.preAcquired : ℤ) - t.shared.postReleased else 0) =
      (if sema ∈ m.limits.limitersFor e.key then
        (e.pool.shared.preAcquired : ℤ) - e.pool.shared.postReleased else 0) +
        extra (m.limits.limitersFor e.key) sema (e.progressOf i)) : Counted m' := by
  obtain ⟨e', he', rfl⟩ := Option.map_eq_some_iff.mp h
  obtain ⟨hinStep, hkey, hprogress, hpool⟩ := (hm.inStep e (List.mem_of_getElem? hj)).resume he'
  refine hm.put_same hj hinStep fun sema ↦ ?_
  have hshare := share_setProgress m.limits sema e i .idle
  have hidle : extra (m.limits.limitersFor e.key) sema .idle = 0 := rfl
  have hcount := hcounters e'.pool hpool sema
  have hsame : (e.setProgress i .idle).pool = e.pool ∧ (e.setProgress i .idle).key = e.key := ⟨rfl, rfl⟩
  rw [share, hsame.1, hsame.2, hprogress, hidle] at hshare
  rw [share, hkey, hcount]
  omega

theorem counted_preAcquire (hm : Counted m) (hj : m.pools[j]? = some e)
    (hpoint : pointOf e.pool i = some (.at .preAcquire))
    (h : m.preAcquire (m.limits.limitersFor e.key) j e i c now (e.progressOf i) = some m') :
    Counted m' := by
  cases hp : e.progressOf i with
  | idle =>
    rw [hp] at h
    cases h
    exact counted_setProgress hm hj hpoint fun sema ↦ by simp [extra, hp]
  | taking n =>
    rw [hp, preAcquire] at h
    split at h
    · rename_i hnone
      have hall : (m.limits.limitersFor e.key).take n = m.limits.limitersFor e.key :=
        List.take_of_length_le (List.getElem?_eq_none_iff.mp hnone)
      refine counted_resume hm hj h fun t ht sema ↦ ?_
      obtain ⟨hpre, hpost⟩ := counters_preAcquire hpoint ht
      rw [hp, extra, hall, hpre, hpost]
      split <;> simp
      omega
    · rename_i next hnext
      split at h
      · cases h
        exact counted_setProgress hm hj hpoint fun sema ↦ by simp [extra, hp]
      · split at h
        · rename_i hroom
          cases h
          have he := hm.inStep e (List.mem_of_getElem? hj)
          refine hm.put hj (he.setProgress (p := .taking (n + 1)) hpoint) (fun sema ↦ ?_) fun sema hpos ↦ ?_
          · have hshare := share_setProgress m.limits sema e i (.taking (n + 1))
            have hextra := (extra_succ (nodup_limitersFor m.limits e.key) hnext sema).1
            rw [hp] at hshare
            simp only [extra] at hshare
            rw [Function.update_apply]
            by_cases heq : sema = next
            · rw [if_pos heq] at hextra ⊢
              subst heq
              push_cast
              omega
            · rw [if_neg heq] at hextra ⊢
              omega
          · have hcapped := hm.capped sema hpos
            rw [Function.update_apply]
            split
            · subst sema
              push_cast
              omega
            · exact hcapped
        · cases h
  | rollingBack n =>
    cases n with
    | zero =>
      rw [hp, preAcquire] at h
      refine counted_resume hm hj h fun t ht sema ↦ ?_
      obtain ⟨hpre, hpost⟩ := counters_preAcquire hpoint ht
      rw [hp, extra, hpre, hpost]
      simp
    | succ n =>
      rw [hp, preAcquire] at h
      exact counted_receive (Or.inl rfl) hm hj hp h
  | giving n =>
    rw [hp] at h
    cases h

theorem counted_postRelease (hm : Counted m) (hj : m.pools[j]? = some e)
    (hpoint : pointOf e.pool i = some (.op .postRelease))
    (h : m.postRelease (m.limits.limitersFor e.key) j e i now (e.progressOf i) = some m') :
    Counted m' := by
  cases hp : e.progressOf i with
  | idle =>
    rw [hp] at h
    cases h
    exact counted_setProgress hm hj hpoint fun sema ↦ by simp [extra, hp]
  | giving n =>
    cases n with
    | zero =>
      rw [hp, postRelease] at h
      refine counted_resume hm hj h fun t ht sema ↦ ?_
      obtain ⟨hpre, hpost⟩ := counters_postRelease hpoint ht
      rw [hp, extra, hpre, hpost, List.drop_zero]
      split
      · push_cast
        omega
      · rfl
    | succ n =>
      rw [hp, postRelease] at h
      exact counted_receive (Or.inr rfl) hm hj hp h
  | taking n | rollingBack n =>
    rw [hp] at h
    cases h

end Callbacks

def warmsNone (_ : Manager) (event : Key × Event) : Bool :=
  match event.2 with
  | .ensureWarm => false
  | _ => true

theorem counted_step (m : Manager) (event : Key × Event) (m' : Manager) (hm : Counted m)
    (hg : warmsNone m event = true) (h : m.step event = some m') : Counted m' := by
  obtain ⟨k, ev⟩ := event
  have hget : Counted (if creates ev then m.get k else m) := by
    split
    · exact hm.get k
    · exact hm
  unfold Manager.step at h
  generalize (if creates ev then m.get k else m) = m₁ at h hget
  obtain ⟨j, -, h⟩ := Option.bind_eq_some_iff.mp h
  obtain ⟨e, hj, h⟩ := Option.bind_eq_some_iff.mp h
  have he := hget.inStep e (List.mem_of_getElem? hj)
  have hpool (hev : ∀ i c now, ev = .step i c now →
      pointOf e.pool i ≠ some (.at .preAcquire) ∧ pointOf e.pool i ≠ some (.op .postRelease))
      (hmap : (e.pool.step ev).map (fun pool ↦ m₁.put j { e with pool := pool }) = some m') :
      Counted m' := by
    obtain ⟨t, ht, rfl⟩ := Option.map_eq_some_iff.mp hmap
    have hwarm : ev ≠ .ensureWarm := by
      rintro rfl
      cases hg
    obtain ⟨hinStep, hshare⟩ := he.pool ht hwarm hev
    exact hget.put_same hj hinStep fun sema ↦ hshare _ sema
  cases ev with
  | step i c now =>
    simp only [Manager.advance] at h
    split at h
    · exact counted_preAcquire hget hj ‹_› h
    · exact counted_postRelease hget hj ‹_› h
    · refine hpool ?_ h
      rintro i' c' now' hev
      cases hev
      exact ⟨‹_›, ‹_›⟩
  | _ => exact hpool nofun h

variable {m' : Manager}

theorem limits_receive {semas : List Sema} {i n : ℕ} {after : ℕ → Progress}
    (h : m.receive semas j e i n after = some m') : m'.limits = m.limits := by
  obtain ⟨next, -, h⟩ := Option.bind_eq_some_iff.mp h
  split at h <;> cases h
  rfl

theorem limits_map {α : Type} {f : α → Entry} {x : Option α}
    (h : (x.map fun a ↦ m.put j (f a)) = some m') : m'.limits = m.limits := by
  obtain ⟨a, -, rfl⟩ := Option.map_eq_some_iff.mp h
  rfl

theorem limits_advance {i : ℕ} {c : Choice} {now : ℤ}
    (h : m.advance j e i c now = some m') : m'.limits = m.limits := by
  unfold Manager.advance at h
  split at h
  · unfold preAcquire at h
    repeat' split at h
    all_goals first
      | exact limits_map h
      | exact limits_receive h
      | (cases h; rfl)
      | cases h
  · unfold postRelease at h
    repeat' split at h
    all_goals first
      | exact limits_map h
      | exact limits_receive h
      | (cases h; rfl)
      | cases h
  · exact limits_map h

theorem limits_step {event : Key × Event} (h : m.step event = some m') :
    m'.limits = m.limits := by
  obtain ⟨k, ev⟩ := event
  have hget : (if creates ev then m.get k else m).limits = m.limits := by
    unfold Manager.get
    split
    · split <;> rfl
    · rfl
  unfold Manager.step at h
  rw [← hget]
  generalize (if creates ev then m.get k else m) = m₁ at h
  obtain ⟨j, -, h⟩ := Option.bind_eq_some_iff.mp h
  obtain ⟨e, -, h⟩ := Option.bind_eq_some_iff.mp h
  cases ev with
  | step i c now => exact limits_advance h
  | _ => exact limits_map h

def countsFor : Sema → Key → Bool
  | .db name, k => k.db = name
  | .user name, k => k.user = name

def heldFor (m : Manager) (sema : Sema) : ℕ :=
  total (fun e ↦ if countsFor sema e.key then e.pool.shared.held.length else 0) m.pools

theorem total_heldOf (m : Manager) {sema : Sema} (hpos : 0 < m.limits.capacity sema) :
    total (heldOf m.limits sema) m.pools = heldFor m sema := by
  rw [heldFor, ← total_natCast]
  refine total_congr fun e _ ↦ ?_
  have hmem : sema ∈ m.limits.limitersFor e.key ↔ countsFor sema e.key = true := by
    cases sema <;> simp [Limits.limitersFor, countsFor, hpos, eq_comm]
  rw [heldOf]
  by_cases hc : countsFor sema e.key = true
  · rw [if_pos (hmem.mpr hc), if_pos hc]
  · rw [if_neg (mt hmem.mp hc), if_neg hc]
    rfl

/-- Call `i` is in `PostRelease`, or in the roll-back of `PreAcquire`, and its next receive is from an
empty semaphore. -/
def Blocked (m : Manager) (e : Entry) (i : ℕ) : Prop :=
  ∃ n sema, (e.progressOf i = .giving (n + 1) ∨ e.progressOf i = .rollingBack (n + 1)) ∧
    (m.limits.limitersFor e.key)[n]? = some sema ∧ m.tokens sema = 0

theorem share_of_returned {l : Limits} {sema : Sema} (he : InStep e)
    (hret : e.pool.calls.all returned = true) : share l sema e = heldOf l sema e := by
  have hnone (i : ℕ) : pointOf e.pool i = none := by
    rw [pointOf]
    cases hcall : e.pool.calls[i]? with
    | none => rfl
    | some call =>
      have hreturned := List.all_eq_true.mp hret call (List.mem_of_getElem? hcall)
      unfold returned at hreturned
      split at hreturned
      · rfl
      · cases hreturned
  have hextra : total (extra (l.limitersFor e.key) sema) e.progress = 0 := by
    refine total_zero fun p hp ↦ ?_
    obtain ⟨i, hi⟩ := List.getElem?_of_mem hp
    have hof : e.progressOf i = p := by simp [Entry.progressOf, List.getD_eq_getElem?_getD, hi]
    have hfits := he.progress i
    rw [hof] at hfits
    cases p with
    | idle => rfl
    | _ => rw [fits, hnone] at hfits; cases hfits
  have hsettled := he.settled
  have hcalls : total tokens.call e.pool.calls = 0 :=
    total_zero fun call hcall ↦ tokens_returned (List.all_eq_true.mp hret call hcall)
  unfold Settled at hsettled
  unfold share heldOf
  rw [hextra, hsettled, hcalls]
  split
  · push_cast
    omega
  · rfl

/-- In every run without `EnsureWarm`, no more connections are held for a database or a user than its
cap, no callback waits for a token to take back, and whenever no call is under way the semaphore has
one token for each connection that is held. -/
theorem global_caps {limits : Limits} {cfg : Config} {configFor : Key → Option Config}
    {es : List (Key × Event)} {m : Manager}
    (h : Run Manager.step warmsNone (newManager limits cfg configFor) es m) :
    (∀ sema, 0 < limits.capacity sema → (heldFor m sema : ℤ) ≤ limits.capacity sema) ∧
      (∀ e ∈ m.pools, ∀ i, ¬ Blocked m e i) ∧
      ((∀ e ∈ m.pools, e.pool.calls.all returned = true) →
        ∀ sema, 0 < limits.capacity sema → m.tokens sema = heldFor m sema) := by
  let Inv (m : Manager) : Prop := Counted m ∧ m.limits = limits
  have hstart : Inv (newManager limits cfg configFor) :=
    ⟨⟨by simp [newManager], fun _ ↦ rfl, fun _ hpos ↦ le_of_lt hpos⟩, rfl⟩
  have hinv : Inv m := h.invariant
    (fun m event m' hm hg hs ↦ ⟨counted_step m event m' hm.1 hg hs, (limits_step hs).trans hm.2⟩) hstart
  obtain ⟨hm, rfl⟩ := hinv
  refine ⟨fun sema hpos ↦ ?_, fun e he i hblocked ↦ ?_, fun hret sema hpos ↦ ?_⟩
  · have hle : total (heldOf m.limits sema) m.pools ≤ total (share m.limits sema) m.pools :=
      List.sum_le_sum fun e he ↦ heldOf_le_share (hm.inStep e he)
    calc (heldFor m sema : ℤ) = total (heldOf m.limits sema) m.pools := (total_heldOf m hpos).symm
      _ ≤ m.tokens sema := by rw [hm.tokens]; exact hle
      _ ≤ m.limits.capacity sema := hm.capped sema hpos
  · obtain ⟨n, sema, hp | hp, hnext, hzero⟩ := hblocked
    · exact tokens_of_receive (Or.inr rfl) hm he hp hnext hzero
    · exact tokens_of_receive (Or.inl rfl) hm he hp hnext hzero
  · have heq : (m.tokens sema : ℤ) = heldFor m sema := by
      rw [hm.tokens, ← total_heldOf m hpos]
      exact total_congr fun e he ↦ share_of_returned (hm.inStep e he) (hret e he)
    exact_mod_cast heq

def alice : Key := ⟨ascii "app", ascii "alice"⟩

def bob : Key := ⟨ascii "app", ascii "bob"⟩

def on (k : Key) (es : List Event) : List (Key × Event) := es.map fun e ↦ (k, e)

def crowded : List (Key × Event) :=
  on alice (.acquire :: steps 0 12) ++
    on bob (.acquire :: .step 0 .go 0 :: .step 0 .cancel 0 :: steps 0 1)

theorem global_caps_crowded :
    ∃ m, Run Manager.step warmsNone (newManager ⟨1, 1⟩ oneSlot fun _ ↦ none) crowded m ∧
      heldFor m (.db (ascii "app")) = 1 ∧ m.tokens (.db (ascii "app")) = 1 := by
  have h : Run Manager.step warmsNone (newManager ⟨1, 1⟩ oneSlot fun _ ↦ none) crowded _ :=
    run_of_exec rfl
  exact ⟨_, h, rfl, (global_caps h).2.2 (by decide) (.db (ascii "app")) (by decide)⟩

end Manager

end PgRouter.Pool.Limits
