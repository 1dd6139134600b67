import PgRouter.Auth.Secrets
import PgRouter.Wiring.Schema

namespace PgRouter.Wiring.Dialing

open Client.Protocol Library.Texts Auth.Secrets Schema

structure DialOptions where
  addr : Text
  user : Text
  database : Text
  appName : Text
  password : Text
  deriving DecidableEq

structure Key where
  db : Text
  user : Text

def joinHostPort (host : Text) (port : ℤ) : Text :=
  if 0x3a ∈ host then 0x5b :: (host ++ ascii "]:" ++ itoa port) else host ++ 0x3a :: itoa port

section Primary

/-- The password of the database, or else a plain one of the user list. -/
def upstreamPassword (userlist : Option (List (Text × UserEntry))) (db : DatabaseConfig) (user : Text) : Text :=
  if db.password = [] then
    match userlist.bind (lookup · user) with
    | some entry => entry.plainPassword
    | none => []
  else db.password

/-- `BuildPoolDialer`: how the pool of a client dials; a database that is not configured has no dialer. -/
def buildPoolDialer (cfg : Config) (userlist : Option (List (Text × UserEntry))) (appName : Text) (k : Key) :
    Option DialOptions :=
  (cfg.databases.get k.db).map fun db ↦
    let upstreamUser := if db.user = [] then k.user else db.user
    let dbName := if db.dbName = [] then k.db else db.dbName
    ⟨joinHostPort db.host db.port, upstreamUser, dbName, appName, upstreamPassword userlist db upstreamUser⟩

end Primary

section Replicas

structure ReplicaDef where
  host : Text
  port : ℤ
  weight : ℤ

structure DBDef where
  name : Text
  dbName : Text
  user : Text
  password : Text
  replicas : List ReplicaDef
  maxReplicaLagBytes : ℤ

/-- A replica with the name of its pool and the way the pool dials. -/
structure Replica where
  spec : ReplicaDef
  poolName : Text
  opts : DialOptions

structure Manager where
  db : Text
  replicas : List Replica
  maxLag : ℤ

def buildReplica (db : DBDef) (r : ReplicaDef) : Replica where
  spec := r
  poolName := db.name ++ ascii "-replica-" ++ r.host ++ 0x3a :: itoa r.port
  opts :=
    let user := if db.user = [] then ascii "pgrouter" else db.user
    ⟨joinHostPort r.host r.port, user, db.dbName, ascii "pgrouter-replica", db.password⟩

def buildManager (db : DBDef) : Option Manager :=
  if db.replicas.isEmpty then none
  else some ⟨db.name, db.replicas.map (buildReplica db), db.maxReplicaLagBytes⟩

def project (name : Text) (db : DatabaseConfig) : DBDef :=
  ⟨name, db.dbName, db.user, db.password, db.replicas.map fun r ↦ ⟨r.host, r.port, r.weight⟩, db.maxReplicaLagBytes⟩

def buildReplicaManagers (cfg : Config) (name : Text) : Option Manager :=
  (cfg.databases.get name).bind fun db ↦ buildManager (project name db)

def replicaPools (cfg : Config) (db : Text) : List Replica :=
  match buildReplicaManagers cfg db with
  | some m => m.replicas
  | none => []

end Replicas

/-- Two ways of dialing lead to the same user of the same database. -/
def SameIdentity (a b : DialOptions) : Prop := a.user = b.user ∧ a.database = b.database

instance (a b : DialOptions) : Decidable (SameIdentity a b) := inferInstanceAs (Decidable (_ ∧ _))

theorem sameIdentity_buildReplica_iff (name user : Text) (db : DatabaseConfig) (r : ReplicaDef)
    (addr appName password : Text) :
    SameIdentity (buildReplica (project name db) r).opts
        ⟨addr, if db.user = [] then user else db.user, if db.dbName = [] then name else db.dbName, appName, password⟩ ↔
      (db.user ≠ [] ∨ user = ascii "pgrouter") ∧ (db.dbName ≠ [] ∨ name = []) := by
  have huser : (if db.user = [] then ascii "pgrouter" else db.user) = (if db.user = [] then user else db.user) ↔
      (db.user ≠ [] ∨ user = ascii "pgrouter") := by
    by_cases h : db.user = []
    · simp [h, eq_comm]
    · simp [h]
  have hname : db.dbName = (if db.dbName = [] then name else db.dbName) ↔ (db.dbName ≠ [] ∨ name = []) := by
    by_cases h : db.dbName = []
    · simp [h, eq_comm]
    · simp [h]
  exact and_congr huser hname

theorem replicaPools_eq {cfg : Config} {name : Text} {db : DatabaseConfig} (h : cfg.databases.get name = some db) :
    replicaPools cfg name = (project name db).replicas.map (buildReplica (project name db)) := by
  rw [replicaPools, buildReplicaManagers, h, Option.bind_some, buildManager]
  cases hreplicas : (project name db).replicas with
  | nil => rfl
  | cons r rs => rfl

/-- The replicas of a client are dialed as its primary is, exactly where the configuration of the database
fixes the user and the name of the database, or happens to agree with the defaults for replicas. -/
theorem sameIdentity_iff (cfg : Config) (userlist : Option (List (Text × UserEntry))) (appName db user : Text) :
    (∀ r ∈ replicaPools cfg db, ∀ primary, buildPoolDialer cfg userlist appName ⟨db, user⟩ = some primary →
      SameIdentity r.opts primary) ↔
    ∀ d, cfg.databases.get db = some d → d.replicas ≠ [] →
      (d.user ≠ [] ∨ user = ascii "pgrouter") ∧ (d.dbName ≠ [] ∨ db = []) := by
  cases hdb : cfg.databases.get db with
  | none =>
    have hpools : replicaPools cfg db = [] := by rw [replicaPools, buildReplicaManagers, hdb]; rfl
    simp [hpools]
  | some d =>
    have hsame (r : ReplicaDef) := sameIdentity_buildReplica_iff db user d r (joinHostPort d.host d.port) appName
      (upstreamPassword userlist d (if d.user = [] then user else d.user))
    have hprimary (primary : DialOptions) : buildPoolDialer cfg userlist appName ⟨db, user⟩ = some primary ↔
        (⟨joinHostPort d.host d.port, if d.user = [] then user else d.user, if d.dbName = [] then db else d.dbName,
          appName, upstreamPassword userlist d (if d.user = [] then user else d.user)⟩ : DialOptions) = primary := by
      rw [buildPoolDialer, hdb, Option.map_some, Option.some_inj]
    have hempty : (project db d).replicas = [] ↔ d.replicas = [] := List.map_eq_nil_iff
    simp only [replicaPools_eq hdb, List.forall_mem_map, hprimary, forall_eq', hsame, Option.some_inj]
    constructor
    · intro h hne
      obtain ⟨r, hr⟩ := List.exists_mem_of_ne_nil _ (mt hempty.mp hne)
      exact h r hr
    · intro h r hr
      exact h (mt hempty.mpr (List.ne_nil_of_mem hr))

section Cases

def withReplica (user : Text) : Config where
  server := ⟨0, 0, []⟩
  pool := ⟨[], 0, 0, 0⟩
  auth := ⟨[], [], [], [], []⟩
  tls := ⟨[], [], [], [], []⟩
  databases := ⟨[(ascii "app", ⟨ascii "db1", 0, [], user, [], [], 0, [⟨ascii "db2", 0, 0⟩], 0⟩)],
    List.nodup_singleton _⟩
  users := ⟨[], List.nodup_nil⟩

/-- Alice's reads on the replica are not hers. -/
theorem withReplica_differs :
    validate (applyDefaults (withReplica [])) = [] ∧
    ∃ r ∈ replicaPools (applyDefaults (withReplica [])) (ascii "app"), ∃ primary,
      buildPoolDialer (applyDefaults (withReplica [])) none (ascii "pgrouter") ⟨ascii "app", ascii "alice"⟩ =
        some primary ∧
        primary.user = ascii "alice" ∧ r.opts.user = ascii "pgrouter" ∧ ¬ SameIdentity r.opts primary := by
  refine ⟨by decide, _, List.mem_singleton_self _, _, rfl, rfl, rfl, ?_⟩
  decide

end Cases

end PgRouter.Wiring.Dialing
