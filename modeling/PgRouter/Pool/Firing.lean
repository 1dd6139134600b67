import PgRouter.Pool.Model

namespace PgRouter.Pool.Firing

open Model

variable (s : Shared) (waiterOf : ℕ → Waiter) (i : ℕ) (now : ℤ) (own : Waiter) (c : Choice)

/-- What `EvictIdleOnce` keeps and what it evicts. -/
abbrev swept (t : ℤ) : List PooledConn × List PooledConn :=
  sweep s.cfg t (max (s.cfg.minPoolSize - s.active) 0) (s.channel s.idle).queue [] []

/-- How many idle connections `Resize` has too many. -/
abbrev excess (size : ℤ) : ℕ := (s.active + (s.channel s.idle).queue.length - size).toNat

/-- Everything that one step of a call can do, with what the code has found before it does so. -/
inductive Fired : Point → Outcome → Prop
  | refused : c = .fail → Fired (.at .preAcquire) ⟨s, own, .straight, [], .none⟩
  | admitted : c ≠ .fail →
      Fired (.at .preAcquire) ⟨{ s with preAcquired := s.preAcquired + 1 }, own, .loadClosed, [], .none⟩
  | shut : s.closed = true → Fired (.at .loadClosed) ⟨s, own, .straight, [.postRelease], .none⟩
  | unshut : s.closed = false → Fired (.at .loadClosed) ⟨s, own, .readIdle, [], .none⟩
  | readIdle : Fired (.at .readIdle) ⟨s, own, .popIdle s.idle, [], .none⟩
  | pops : (s.channel ch).queue = pc :: queue →
      Fired (.at (.popIdle ch)) ⟨s.setQueue ch queue, own, .countIdle pc, [], .none⟩
  | popsNothing : (s.channel ch).queue = [] → Fired (.at (.popIdle ch)) ⟨s, own, .loadActive, [], .none⟩
  | countIdle : Fired (.at (.countIdle pc))
      ⟨{ s with active := s.active + 1 }, own, .straight, [.returnConn pc.conn], .none⟩
  | loadActive : Fired (.at .loadActive) ⟨s, own, .compareSize s.active, [], .none⟩
  | below : cur < s.cfg.defaultPoolSize → Fired (.at (.compareSize cur)) ⟨s, own, .casActive cur, [], .none⟩
  | full : s.cfg.defaultPoolSize ≤ cur → Fired (.at (.compareSize cur)) ⟨s, own, .parkWaiter, [], .none⟩
  | swaps : s.active = cur → Fired (.at (.casActive cur)) ⟨{ s with active := s.active + 1 }, own, .dial, [], .none⟩
  | misses : s.active ≠ cur → Fired (.at (.casActive cur)) ⟨s, own, .loadClosed, [], .none⟩
  | dials : Fired (.at .dial)
      ⟨{ s with dialed := s.dialed + 1, live := s.dialed :: s.live }, own, .straight, [.returnConn s.dialed], .none⟩
  | dialFails : c = .fail → Fired (.at .dial) ⟨s, own, .straight, [.decActive, .broadcast, .postRelease], .none⟩
  | parks : Fired (.at .parkWaiter) ⟨{ s with waiters := s.waiters ++ [i] }, {}, .wait true, [], .none⟩
  | receives : own.ch = some pc →
      Fired (.at (.wait armed)) ⟨s, { own with ch := none }, .straight, [.returnConn pc.conn], .none⟩
  | receivesClosed : own.ch = none → own.chClosed = true →
      Fired (.at (.wait armed)) ⟨s, own, .straight, [.postRelease], .none⟩
  | givesUp : c = .cancel ∨ c = .timeout → Fired (.at (.wait armed)) ⟨s, own, .closeCanceled, [], .none⟩
  | asks : Fired (.at (.wait armed)) ⟨s, own, .reserveCheck, [], .none⟩
  | reserveShut : s.closed = true → Fired (.at .reserveCheck) ⟨s, own, .straight, [.postRelease], .none⟩
  | reserveFull : s.cfg.defaultPoolSize + s.cfg.reservePoolSize ≤ s.active →
      Fired (.at .reserveCheck) ⟨s, own, .wait false, [], .none⟩
  | reserves : s.closed = false → s.active < s.cfg.defaultPoolSize + s.cfg.reservePoolSize →
      Fired (.at .reserveCheck) ⟨{ s with waiters := s.waiters.erase i }, own, .reserveAdd, [], .none⟩
  | reserveAdd : Fired (.at .reserveAdd) ⟨{ s with active := s.active + 1 }, own, .dial, [], .none⟩
  | closeCanceled : Fired (.at .closeCanceled) ⟨s, { own with canceled := true }, .dequeue, [], .none⟩
  | dequeue : Fired (.at .dequeue) ⟨{ s with waiters := s.waiters.erase i }, own, .drainCh, [], .none⟩
  | finds : own.ch = some pc →
      Fired (.at .drainCh) ⟨s, { own with ch := none }, .cancelLoadClosed (some pc), [], .none⟩
  | findsClosed : own.ch = none → own.chClosed = true →
      Fired (.at .drainCh) ⟨s, own, .cancelLoadClosed none, [], .none⟩
  | findsNothing : own.ch = none → Fired (.at .drainCh) ⟨s, own, .straight, [.postRelease], .none⟩
  | cancelShut : s.closed = true →
      Fired (.at (.cancelLoadClosed (some pc))) ⟨s, own, .straight, [.close pc.conn, .postRelease], .none⟩
  | cancelUnshut : s.closed = false →
      Fired (.at (.cancelLoadClosed (some pc))) ⟨s, own, .cancelReadIdle pc, [], .none⟩
  | derefs : Fired (.at (.cancelLoadClosed none)) ⟨s.panic, own, .cancelLoadClosed none, [], .none⟩
  | cancelReadIdle : Fired (.at (.cancelReadIdle pc)) ⟨s, own, .cancelPush pc s.idle, [], .none⟩
  | cancelPush : s.HasRoom ch → Fired (.at (.cancelPush pc ch)) ⟨s.push ch pc, own, .straight, [.postRelease], .none⟩
  | cancelDrop : Fired (.at (.cancelPush pc ch)) ⟨s, own, .straight, [.close pc.conn, .postRelease], .none⟩
  | resetFails : c = .fail →
      Fired (.at (.resetState conn)) ⟨s, own, .straight, [.close conn, .decActive, .broadcast, .postRelease], .none⟩
  | resets : Fired (.at (.resetState conn)) ⟨s, own, .releaseLoadClosed conn, [], .none⟩
  | releaseShut : s.closed = true → Fired (.at (.releaseLoadClosed conn))
      ⟨s, own, .straight, [.decActive, .broadcast, .close conn, .postRelease], .none⟩
  | wraps : s.closed = false →
      Fired (.at (.releaseLoadClosed conn)) ⟨s, own, .popWaiter ⟨conn, (Lifecycle.init now).markIdle now⟩, [], .none⟩
  | popsWaiter : s.waiters = w :: ws →
      Fired (.at (.popWaiter pc)) ⟨{ s with waiters := ws }, own, .handOff pc w, [], .none⟩
  | popsNobody : s.waiters = [] → Fired (.at (.popWaiter pc)) ⟨s, own, .releaseReadIdle pc, [], .none⟩
  | sendPanics : (waiterOf w).chClosed = true → Fired (.at (.handOff pc w)) ⟨s.panic, own, .handOff pc w, [], .none⟩
  | sends : c = .go → (waiterOf w).ch = none →
      Fired (.at (.handOff pc w)) ⟨s, own, .straight, [.postRelease], .send w pc⟩
  | skips : (waiterOf w).canceled = true → Fired (.at (.handOff pc w)) ⟨s, own, .popWaiter pc, [], .none⟩
  | releaseReadIdle : Fired (.at (.releaseReadIdle pc)) ⟨s, own, .releasePush pc s.idle, [], .none⟩
  | releasePush : s.HasRoom ch →
      Fired (.at (.releasePush pc ch)) ⟨s.push ch pc, own, .straight, [.decActive, .broadcast, .postRelease], .none⟩
  | releaseDrop : Fired (.at (.releasePush pc ch))
      ⟨s, own, .straight, [.decActive, .broadcast, .close pc.conn, .postRelease], .none⟩
  | evicts : Fired (.at (.evict t)) ⟨s.swapIdle s.cfg.defaultPoolSize.toNat (swept s t).1, own, .straight,
      (swept s t).2.map fun pc ↦ .close pc.conn, .none⟩
  | resizes : size = max newSize 1 → Fired (.at (.resize newSize))
      ⟨{ s.swapIdle size.toNat ((s.channel s.idle).queue.drop (excess s size)) with
          cfg := { s.cfg with defaultPoolSize := size, minPoolSize := min s.cfg.minPoolSize size } },
        own, .straight, [.broadcast],
        .spawn (((s.channel s.idle).queue.take (excess s size)).map fun pc ↦ ⟨.straight, [.close pc.conn], {}⟩)⟩
  | closedBefore : s.closed = true → Fired (.at (.swapClosed deadline)) ⟨s, own, .straight, [], .none⟩
  | swapClosed : Fired (.at (.swapClosed deadline))
      ⟨{ s with closed := true }, own, .closeReadIdle [] deadline, [], .none⟩
  | closeReadIdle : Fired (.at (.closeReadIdle idle deadline)) ⟨s, own, .closePop idle s.idle deadline, [], .none⟩
  | closePops : (s.channel ch).queue = pc :: queue → Fired (.at (.closePop idle ch deadline))
      ⟨s.setQueue ch queue, own, .closeReadIdle (idle ++ [pc]) deadline, [], .none⟩
  | closePopsNothing : (s.channel ch).queue = [] →
      Fired (.at (.closePop idle ch deadline)) ⟨s, own, .closeTakeWaiters idle deadline, [], .none⟩
  | takesWaiters : Fired (.at (.closeTakeWaiters idle deadline)) ⟨{ s with waiters := [] }, own, .straight,
      (idle.map fun pc ↦ .close pc.conn) ++ s.waiters.map .closeCh ++ if deadline then [.startDrain] else [], .none⟩
  | awaits : s.drained = true ∨ c = .timeout → Fired (.at .awaitDrain) ⟨s, own, .straight, [], .none⟩
  | drainBusy : 0 < s.active → Fired (.at .drainLoad) ⟨{ s with wmuHeld := true }, own, .drainWait, [], .none⟩
  | drained : s.active ≤ 0 → Fired (.at .drainLoad) ⟨{ s with drained := true }, own, .straight, [], .none⟩
  | drainWait : Fired (.at .drainWait) ⟨{ s with wmuHeld := false }, own, .drainAsleep, [], .none⟩
  | warmLoadActive : Fired (.at (.warmLoadActive floor)) ⟨s, own, .warmReadIdle floor s.active, [], .none⟩
  | warmReadIdle : Fired (.at (.warmReadIdle floor active)) ⟨s, own, .warmLen floor active s.idle, [], .none⟩
  | warmEnough : floor ≤ (active + (s.channel ch).queue.length : ℤ) →
      Fired (.at (.warmLen floor active ch)) ⟨s, own, .straight, [], .none⟩
  | warmTooFew : Fired (.at (.warmLen floor active ch)) ⟨s, own, .warmLoadClosed floor, [], .none⟩
  | warmShut : s.closed = true → Fired (.at (.warmLoadClosed floor)) ⟨s, own, .straight, [], .none⟩
  | warmUnshut : Fired (.at (.warmLoadClosed floor)) ⟨s, own, .warmAdd floor, [], .none⟩
  | warmAdd : Fired (.at (.warmAdd floor)) ⟨{ s with active := s.active + 1 }, own, .warmDial floor, [], .none⟩
  | warmFails : c = .fail → Fired (.at (.warmDial floor)) ⟨s, own, .straight, [.decActive, .broadcast], .none⟩
  | warmDials : c ≠ .fail → Fired (.at (.warmDial floor))
      ⟨{ s with dialed := s.dialed + 1, live := s.dialed :: s.live }, own, .releaseLoadClosed s.dialed,
        [.warm floor], .none⟩
  | close : Fired (.op (.close conn)) ⟨{ s with live := s.live.erase conn }, own, .straight, [], .none⟩
  | decActive : Fired (.op .decActive) ⟨{ s with active := s.active - 1 }, own, .straight, [], .none⟩
  | broadcast : Fired (.op .broadcast) ⟨s, own, .straight, [], .wake⟩
  | postRelease : Fired (.op .postRelease) ⟨{ s with postReleased := s.postReleased + 1 }, own, .straight, [], .none⟩
  | returnConn : Fired (.op (.returnConn conn)) ⟨{ s with held := conn :: s.held }, own, .straight, [], .none⟩
  | closePanics : (waiterOf w).chClosed = true → Fired (.op (.closeCh w)) ⟨s.panic, own, .straight, [], .none⟩
  | closeCh : Fired (.op (.closeCh w)) ⟨s, own, .straight, [], .closeCh w⟩
  | startDrain : Fired (.op .startDrain) ⟨s, own, .awaitDrain, [], .spawn [⟨.drainLoad, [], {}⟩]⟩
  | warm : Fired (.op (.warm floor)) ⟨s, own, .warmLoadActive floor, [], .none⟩

variable {s waiterOf i now own c} {p : Point} {o : Outcome}

theorem fired (h : fire s waiterOf i now own c p = some o) : Fired s waiterOf i now own c p o := by
  cases p with
  | op op =>
    cases h
    cases op with
    | closeCh w =>
      simp only [perform]
      split
      · exact .closePanics ‹_›
      · exact .closeCh
    | _ => constructor
  | «at» pc =>
    cases pc
    case closeTakeWaiters =>
      simp only [fire, act] at h
      split at h <;> cases h
      exact .takesWaiters
    all_goals
      simp only [fire, act, dial, wait, reserveCheck, drainCh, handOff, evictIdleOnce, resize, Option.some.injEq] at h
      repeat' split at h
      all_goals first
        | cases h; done
        | cases h; constructor <;> simp_all

end PgRouter.Pool.Firing
