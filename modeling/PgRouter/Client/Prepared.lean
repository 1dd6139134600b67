import PgRouter.Client.Protocol

namespace PgRouter.Client.Prepared

open Protocol

structure PreparedCache where
  cap : ℕ
  order : List Text

namespace PreparedCache

def has (c : PreparedCache) (name : Text) : Bool := c.order.contains name

def touch (c : PreparedCache) (name : Text) : PreparedCache :=
  if c.has name then { c with order := name :: c.order.erase name } else c

def add (c : PreparedCache) (name : Text) : PreparedCache × Text :=
  if name = [] then (c, [])
  else if c.has name then (c.touch name, [])
  else if c.cap < (name :: c.order).length then
    ({ c with order := (name :: c.order).dropLast }, (name :: c.order).getLastD [])
  else ({ c with order := name :: c.order }, [])

def clear (c : PreparedCache) : PreparedCache := { c with order := [] }

end PreparedCache

structure Stmt where
  name : Text
  serverName : Text
  query : Text
  paramOIDs : List UInt32

structure PrepareCache where
  stmts : List Stmt := []

namespace PrepareCache

def get (c : PrepareCache) (name : Text) : Option Stmt := c.stmts.find? (·.name == name)

def serverNameOf (c : PrepareCache) (name : Text) : Text :=
  if name = [] then [] else ((c.get name).map Stmt.serverName).getD []

def close (c : PrepareCache) (name : Text) : PrepareCache :=
  if name = [] then c else { c with stmts := c.stmts.filter (·.name != name) }

def observe (serverNameFor : Text → Text) (c : PrepareCache) (name query : Text)
    (paramOIDs : List UInt32) : PrepareCache :=
  if name = [] then c
  else { stmts := ⟨name, serverNameFor query, query, paramOIDs⟩ :: (c.close name).stmts }

end PrepareCache

/-- What the interception of a message comes to: both caches, what is sent ahead of the message to
the backend, the message to forward unless it is suppressed, what the client is told, and how many
`CloseComplete` and `ParseComplete` frames will have to be filtered out. -/
structure Intercept where
  clientPrep : PrepareCache
  prepared : Option PreparedCache
  injected : List FrontendMessage := []
  forward : Option FrontendMessage
  reply : List BackendMessage := []
  evictCC : ℕ := 0
  parsePC : ℕ := 0

def objectStatement : UInt8 := 0x53

def closeEvicted (evicted : Text) : List FrontendMessage :=
  if evicted = [] then [] else [.close objectStatement evicted]

def ensureBackendPrepared (clientPrep : PrepareCache) (prepared : Option PreparedCache) (stmt : Stmt)
    (forward : FrontendMessage) : Intercept :=
  match prepared with
  | none => { clientPrep, prepared := none, forward := some forward }
  | some c =>
    if c.has stmt.serverName then
      { clientPrep, prepared := some (c.touch stmt.serverName), forward := some forward }
    else
      { clientPrep
        prepared := some (c.add stmt.serverName).1
        injected := closeEvicted (c.add stmt.serverName).2 ++
          [.parse stmt.serverName stmt.query stmt.paramOIDs]
        forward := some forward
        evictCC := (closeEvicted (c.add stmt.serverName).2).length
        parsePC := 1 }

def forwardParse (clientPrep : PrepareCache) (prepared : Option PreparedCache) (server sql : Text)
    (paramOIDs : List UInt32) : Intercept :=
  match prepared with
  | none => { clientPrep, prepared := none, forward := some (.parse server sql paramOIDs) }
  | some c =>
    if c.has server then
      { clientPrep, prepared := some (c.touch server), forward := none, reply := [.parseComplete] }
    else
      { clientPrep
        prepared := some (c.add server).1
        injected := closeEvicted (c.add server).2
        forward := some (.parse server sql paramOIDs)
        evictCC := (closeEvicted (c.add server).2).length }

def interceptParse (serverNameFor : Text → Text) (clientPrep : PrepareCache)
    (prepared : Option PreparedCache) (name sql : Text) (paramOIDs : List UInt32) : Intercept :=
  if clientPrep.serverNameOf name = [] then
    forwardParse (clientPrep.observe serverNameFor name sql paramOIDs) prepared (serverNameFor sql) sql
      paramOIDs
  else forwardParse clientPrep prepared (clientPrep.serverNameOf name) sql paramOIDs

def prepareInterceptForward (serverNameFor : Text → Text) (clientPrep : PrepareCache)
    (prepared : Option PreparedCache) (msg : FrontendMessage) : Intercept :=
  let pass : Intercept := { clientPrep, prepared, forward := some msg }
  match msg with
  | .parse name sql paramOIDs =>
    if name = [] then pass
    else interceptParse serverNameFor clientPrep prepared name sql paramOIDs
  | .bind portal statement =>
    if statement = [] then pass
    else match clientPrep.get statement with
      | none => pass
      | some stmt => ensureBackendPrepared clientPrep prepared stmt (.bind portal stmt.serverName)
  | .describe objectType name =>
    if objectType ≠ objectStatement ∨ name = [] then pass
    else match clientPrep.get name with
      | none => pass
      | some stmt =>
        ensureBackendPrepared clientPrep prepared stmt (.describe objectType stmt.serverName)
  | .close objectType name =>
    if objectType ≠ objectStatement ∨ name = [] then pass
    else { clientPrep := clientPrep.close name, prepared, forward := none, reply := [.closeComplete] }
  | _ => pass

section Statements

variable (serverNameFor : Text → Text) (c : PrepareCache) (name query : Text) (paramOIDs : List UInt32)

theorem get_close (other : Text) (hname : name ≠ []) :
    (c.close name).get other = if other = name then none else c.get other := by
  rw [PrepareCache.close, if_neg hname, PrepareCache.get, List.find?_filter]
  split
  · subst other
    exact List.find?_eq_none.mpr (by simp)
  · rename_i hne
    have hsame : (fun v : Stmt ↦ decide ((v.name != name) = true ∧ (v.name == other) = true)) =
        fun v ↦ v.name == other := by
      funext v
      by_cases hv : v.name = other <;> simp [hv, hne]
    rw [hsame, PrepareCache.get]

theorem get_observe (other : Text) (hname : name ≠ []) :
    (c.observe serverNameFor name query paramOIDs).get other =
      if other = name then some ⟨name, serverNameFor query, query, paramOIDs⟩ else c.get other := by
  have hclose := get_close c name other hname
  rw [PrepareCache.get] at hclose
  rw [PrepareCache.observe, if_neg hname, PrepareCache.get, List.find?_cons]
  by_cases hother : other = name
  · simp [hother]
  · have hne : (name == other) = false := beq_false_of_ne (Ne.symm hother)
    simp only [hne, hclose, hother, if_false]

end Statements

end PgRouter.Client.Prepared
