import PgRouter.Client.Protocol
import PgRouter.Library.Texts
import PgRouter.Pool.Weights

namespace PgRouter.Pool.Registry

open Client.Protocol Library.Texts Model Weights

section Keys

structure Key where
  db : Text
  user : Text
  deriving DecidableEq

def slash : UInt8 := 0x2f

def Key.string (k : Key) : Text := k.db ++ slash :: k.user

/-- `SplitName`, which takes a database name with a slash apart at its first one. -/
def splitName (name : Text) : Key :=
  match cut slash name with
  | some (db, user) => ⟨db, user⟩
  | none => ⟨name, []⟩

structure ResizeRecord where
  key : Key
  fromSize : ℤ
  toSize : ℤ
  deriving DecidableEq

/-- The size that `ApplyDefaultSize` wants for a key: its own, if that is positive, or else the default one. -/
def want (defaultSize : ℤ) (perKey : Option (Key → ℤ)) (k : Key) : ℤ :=
  match perKey with
  | none => defaultSize
  | some f => if f k > 0 then f k else defaultSize

end Keys

/-- The semaphores of `dbSemas` and `userSemas`. -/
inductive Sema
  | db (name : Text)
  | user (name : Text)
  deriving DecidableEq

structure Limits where
  maxDBConn : ℤ
  maxUserConn : ℤ

def Limits.capacity (l : Limits) : Sema → ℤ
  | .db _ => l.maxDBConn
  | .user _ => l.maxUserConn

/-- The semaphores that `PreAcquire` takes from left to right and `PostRelease` gives back from right
to left. -/
def Limits.limitersFor (l : Limits) (k : Key) : List Sema :=
  [.db k.db, .user k.user].filter fun sema ↦ 0 < l.capacity sema

def overlay (base override : ℤ) : ℤ := if 0 < override then override else base

def mergeConfig (base : Config) : Option Config → Config
  | none => base
  | some override =>
    { defaultPoolSize := overlay base.defaultPoolSize override.defaultPoolSize
      minPoolSize := overlay base.minPoolSize override.minPoolSize
      reservePoolSize := overlay base.reservePoolSize override.reservePoolSize
      reservePoolTimeout := overlay base.reservePoolTimeout override.reservePoolTimeout
      queryWait := overlay base.queryWait override.queryWait
      serverIdle := overlay base.serverIdle override.serverIdle
      serverLifetime := overlay base.serverLifetime override.serverLifetime }

/-- How far a call of `PreAcquire` or `PostRelease` has come: the number of semaphores it has taken, has
still to take back, or has still to give back. -/
inductive Progress
  | idle
  | taking (taken : ℕ)
  | rollingBack (left : ℕ)
  | giving (left : ℕ)

/-- A pool, with the progress of the callbacks of its calls. -/
structure Entry where
  key : Key
  pool : State
  progress : List Progress

namespace Entry

def progressOf (e : Entry) (i : ℕ) : Progress := e.progress.getD i .idle

def setProgress (e : Entry) (i : ℕ) (p : Progress) : Entry :=
  { e with progress := (e.progress ++ List.replicate (i + 1 - e.progress.length) Progress.idle).set i p }

def resume (e : Entry) (i : ℕ) (c : Choice) (now : ℤ) : Option Entry :=
  (e.pool.step (.step i c now)).map fun pool ↦ { e.setProgress i .idle with pool := pool }

end Entry

structure Manager where
  limits : Limits
  defaultCfg : Config
  configFor : Key → Option Config
  pools : List Entry
  tokens : Sema → ℕ

namespace Manager

def lookup (m : Manager) (k : Key) : Option ℕ := m.pools.findIdx? fun e ↦ e.key = k

def get (m : Manager) (k : Key) : Manager :=
  if (m.lookup k).isSome then m
  else { m with pools := m.pools ++ [⟨k, new (mergeConfig m.defaultCfg (m.configFor k)), []⟩] }

def put (m : Manager) (j : ℕ) (e : Entry) : Manager := { m with pools := m.pools.set j e }

def addToken (m : Manager) (sema : Sema) : Manager :=
  { m with tokens := Function.update m.tokens sema (m.tokens sema + 1) }

def removeToken (m : Manager) (sema : Sema) : Manager :=
  { m with tokens := Function.update m.tokens sema (m.tokens sema - 1) }

/-- A receive from the `n`-th semaphore, after which `after n` is left. It blocks while the semaphore
is empty. -/
def receive (m : Manager) (semas : List Sema) (j : ℕ) (e : Entry) (i n : ℕ) (after : ℕ → Progress) :
    Option Manager :=
  (semas[n]?).bind fun sema ↦
    if m.tokens sema = 0 then none else some ((m.removeToken sema).put j (e.setProgress i (after n)))

/-- A step of `PreAcquire`: a `select` between a send to the next semaphore and the context, or a
receive that takes back a token. -/
def preAcquire (m : Manager) (semas : List Sema) (j : ℕ) (e : Entry) (i : ℕ) (c : Choice) (now : ℤ) :
    Progress → Option Manager
  | .idle => some (m.put j (e.setProgress i (.taking 0)))
  | .taking n =>
    match semas[n]? with
    | none => (e.resume i .go now).map (m.put j)
    | some sema =>
      if c = .cancel then some (m.put j (e.setProgress i (.rollingBack n)))
      else if (m.tokens sema : ℤ) < m.limits.capacity sema then
        some ((m.addToken sema).put j (e.setProgress i (.taking (n + 1))))
      else none
  | .rollingBack 0 => (e.resume i .fail now).map (m.put j)
  | .rollingBack (n + 1) => m.receive semas j e i n .rollingBack
  | .giving _ => none

def postRelease (m : Manager) (semas : List Sema) (j : ℕ) (e : Entry) (i : ℕ) (now : ℤ) :
    Progress → Option Manager
  | .idle => some (m.put j (e.setProgress i (.giving semas.length)))
  | .giving 0 => (e.resume i .go now).map (m.put j)
  | .giving (n + 1) => m.receive semas j e i n .giving
  | _ => none

/-- One step of call `i` of a pool. The callbacks of the pool are those of `limitersFor`. -/
def advance (m : Manager) (j : ℕ) (e : Entry) (i : ℕ) (c : Choice) (now : ℤ) : Option Manager :=
  match pointOf e.pool i with
  | some (.at .preAcquire) => m.preAcquire (m.limits.limitersFor e.key) j e i c now (e.progressOf i)
  | some (.op .postRelease) => m.postRelease (m.limits.limitersFor e.key) j e i now (e.progressOf i)
  | _ => (e.pool.step (.step i c now)).map fun pool ↦ m.put j { e with pool := pool }

def creates : Event → Bool
  | .acquire => true
  | _ => false

/-- A call of an operation of the pool for a key, or a step of one. `Acquire` creates the pool. -/
def step (m : Manager) (event : Key × Event) : Option Manager :=
  let m := if creates event.2 then m.get event.1 else m
  (m.lookup event.1).bind fun j ↦ (m.pools[j]?).bind fun e ↦
    match event.2 with
    | .step i c now => m.advance j e i c now
    | call => (e.pool.step call).map fun pool ↦ m.put j { e with pool := pool }

end Manager

def newManager (limits : Limits) (defaultCfg : Config) (configFor : Key → Option Config) : Manager :=
  ⟨limits, defaultCfg, configFor, [], fun _ ↦ 0⟩

end PgRouter.Pool.Registry
