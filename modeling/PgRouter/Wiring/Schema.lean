import PgRouter.Client.Protocol
import PgRouter.Library.Texts

namespace PgRouter.Wiring.Schema

open Client.Protocol Library.Texts

structure ServerConfig where
  listenPort : ℤ
  maxClientConn : ℤ
  unixSocketDir : Text

structure PoolConfig where
  mode : Text
  defaultPoolSize : ℤ
  minPoolSize : ℤ
  reservePoolSize : ℤ

structure AuthConfig where
  type : Text
  userlistFile : Text
  authQuery : Text
  authUser : Text
  hbaFile : Text

structure TLSConfig where
  clientMode : Text
  serverMode : Text
  clientCertFile : Text
  clientKeyFile : Text
  serverCAFile : Text

structure ReplicaConfig where
  host : Text
  port : ℤ
  weight : ℤ

structure DatabaseConfig where
  host : Text
  port : ℤ
  dbName : Text
  user : Text
  password : Text
  poolMode : Text
  poolSize : ℤ
  replicas : List ReplicaConfig
  maxReplicaLagBytes : ℤ

structure UserConfig where
  poolMode : Text
  poolSize : ℤ

/-- A map of the configuration, as its entries. -/
structure Table (α : Type) where
  entries : List (Text × α)
  nodup : (entries.map Prod.fst).Nodup

namespace Table

variable {α : Type}

def get (t : Table α) (name : Text) : Option α := t.entries.lookup name

theorem keys_map (f : Text → α → α) (entries : List (Text × α)) :
    (entries.map fun e ↦ (e.1, f e.1 e.2)).map Prod.fst = entries.map Prod.fst := by
  rw [List.map_map]
  rfl

theorem nodup_map (f : Text → α → α) (t : Table α) : ((t.entries.map fun e ↦ (e.1, f e.1 e.2)).map Prod.fst).Nodup := by
  rw [keys_map]
  exact t.nodup

def mapValues (f : Text → α → α) (t : Table α) : Table α := ⟨t.entries.map fun e ↦ (e.1, f e.1 e.2), nodup_map f t⟩

end Table

structure Config where
  server : ServerConfig
  pool : PoolConfig
  auth : AuthConfig
  tls : TLSConfig
  databases : Table DatabaseConfig
  users : Table UserConfig

section Defaults

def orElse (v fallback : Text) : Text := if v = [] then fallback else v

def orInt (v fallback : ℤ) : ℤ := if v = 0 then fallback else v

def defaultReplica (r : ReplicaConfig) : ReplicaConfig :=
  { r with
    port := orInt r.port 5432
    weight := if r.weight ≤ 0 then 1 else r.weight }

def defaultDatabase (name : Text) (db : DatabaseConfig) : DatabaseConfig :=
  { db with
    port := orInt db.port 5432
    dbName := orElse db.dbName name
    replicas := db.replicas.map defaultReplica }

def applyDefaults (cfg : Config) : Config where
  server := { cfg.server with
    listenPort := orInt cfg.server.listenPort 6432
    maxClientConn := orInt cfg.server.maxClientConn 1000 }
  pool := { cfg.pool with
    mode := orElse cfg.pool.mode (ascii "transaction")
    defaultPoolSize := orInt cfg.pool.defaultPoolSize 20 }
  auth := { cfg.auth with type := orElse cfg.auth.type (ascii "trust") }
  tls := { cfg.tls with
    clientMode := orElse cfg.tls.clientMode (ascii "disable")
    serverMode := orElse cfg.tls.serverMode (ascii "disable") }
  databases := cfg.databases.mapValues defaultDatabase
  users := cfg.users

end Defaults

section Validation

structure ValidationError where
  path : Text
  message : Text
  deriving DecidableEq

/-- What `%q` makes of a text without quotes, backslashes, control bytes and bytes beyond ASCII. Its escapes are left
out. -/
def quoted (v : Text) : Text := 0x22 :: (v ++ [0x22])

def report (ok : Bool) (path message : Text) : List ValidationError := if ok then [] else [⟨path, message⟩]

def checkPort (path : Text) (v : ℤ) : List ValidationError :=
  report (1 ≤ v && v ≤ 65535) path (ascii "must be in [1, 65535], got " ++ itoa v)

def checkMinInt (path : Text) (v min : ℤ) : List ValidationError :=
  report (min ≤ v) path (ascii "must be >= " ++ itoa min ++ ascii ", got " ++ itoa v)

def checkRequired (path v : Text) : List ValidationError := report (v ≠ []) path (ascii "required")

def poolModes : List Text := [ascii "session", ascii "transaction", ascii "statement"]

def checkPoolMode (path m : Text) (required : Bool) : List ValidationError :=
  report (m ∈ poolModes || (m = [] && !required)) path
    (ascii "must be one of session|transaction|statement, got " ++ quoted m)

def sslModes : List Text :=
  [ascii "disable", ascii "allow", ascii "prefer", ascii "require", ascii "verify-ca", ascii "verify-full"]

def validateSSLMode (path m : Text) : List ValidationError :=
  report (m ∈ sslModes) path (ascii "unknown sslmode " ++ quoted m ++
    ascii " (want disable|allow|prefer|require|verify-ca|verify-full)")

def verifying (m : Text) : Bool := m = ascii "verify-ca" || m = ascii "verify-full"

def authTypes : List Text :=
  [ascii "trust", ascii "scram-sha-256", ascii "md5", ascii "peer", ascii "cert", ascii "hba"]

def validateAuth (cfg : Config) : List ValidationError :=
  let auth := cfg.auth
  let byPassword := auth.type = ascii "scram-sha-256" || auth.type = ascii "md5"
  report (auth.type ∈ authTypes) (ascii "auth.type") (ascii "unknown auth type " ++ quoted auth.type) ++
  report (!(auth.type = ascii "hba" && auth.hbaFile = [])) (ascii "auth.hba_file")
    (ascii "required when auth.type=hba") ++
  report (!(auth.type = ascii "cert" && !verifying cfg.tls.clientMode)) (ascii "auth.type")
    (ascii "cert auth requires tls.client_mode=verify-ca or verify-full (got " ++ quoted cfg.tls.clientMode ++
      ascii ")") ++
  report (!(byPassword && auth.userlistFile = [] && auth.authQuery = [])) (ascii "auth")
    (auth.type ++ ascii " requires either auth.userlist_file or auth.auth_query") ++
  report (!(auth.type = ascii "peer" && cfg.server.unixSocketDir = [])) (ascii "auth.type")
    (ascii "peer auth requires server.unix_socket_dir to be set") ++
  report (!(auth.authQuery ≠ [] && auth.authUser = [])) (ascii "auth.auth_user")
    (ascii "required when auth.auth_query is set")

def validateTLS (tls : TLSConfig) : List ValidationError :=
  validateSSLMode (ascii "tls.client_mode") tls.clientMode ++
  validateSSLMode (ascii "tls.server_mode") tls.serverMode ++
  report (!((tls.clientMode = ascii "require" || verifying tls.clientMode) &&
      (tls.clientCertFile = [] || tls.clientKeyFile = []))) (ascii "tls")
    (ascii "client_mode=" ++ tls.clientMode ++ ascii " requires client_cert_file + client_key_file") ++
  report (!(verifying tls.serverMode && tls.serverCAFile = [])) (ascii "tls.server_ca_file")
    (ascii "required when server_mode=" ++ tls.serverMode)

def validateReplica (path : Text) (r : ReplicaConfig) : List ValidationError :=
  checkRequired (path ++ ascii ".host") r.host ++
  checkPort (path ++ ascii ".port") r.port ++
  checkMinInt (path ++ ascii ".weight") r.weight 0

def validateDatabase (name : Text) (db : DatabaseConfig) : List ValidationError :=
  let path := ascii "databases." ++ name
  checkRequired (path ++ ascii ".host") db.host ++
  checkPort (path ++ ascii ".port") db.port ++
  checkPoolMode (path ++ ascii ".pool_mode") db.poolMode false ++
  checkMinInt (path ++ ascii ".pool_size") db.poolSize 0 ++
  checkMinInt (path ++ ascii ".max_replica_lag_bytes") db.maxReplicaLagBytes 0 ++
  db.replicas.zipIdx.flatMap fun (r, i) ↦ validateReplica (path ++ ascii ".replicas[" ++ itoa i ++ ascii "]") r

def validateUser (name : Text) (u : UserConfig) : List ValidationError :=
  let path := ascii "users." ++ name
  checkPoolMode (path ++ ascii ".pool_mode") u.poolMode false ++
  checkMinInt (path ++ ascii ".pool_size") u.poolSize 0

def validate (cfg : Config) : List ValidationError :=
  checkPort (ascii "server.listen_port") cfg.server.listenPort ++
  checkMinInt (ascii "server.max_client_conn") cfg.server.maxClientConn 1 ++
  checkPoolMode (ascii "pool.mode") cfg.pool.mode true ++
  checkMinInt (ascii "pool.default_pool_size") cfg.pool.defaultPoolSize 1 ++
  checkMinInt (ascii "pool.min_pool_size") cfg.pool.minPoolSize 0 ++
  checkMinInt (ascii "pool.reserve_pool_size") cfg.pool.reservePoolSize 0 ++
  report (cfg.pool.minPoolSize ≤ cfg.pool.defaultPoolSize) (ascii "pool.min_pool_size")
    (ascii "must not exceed default_pool_size (" ++ itoa cfg.pool.minPoolSize ++ ascii " > " ++
      itoa cfg.pool.defaultPoolSize ++ ascii ")") ++
  validateAuth cfg ++
  validateTLS cfg.tls ++
  report (cfg.databases.entries ≠ []) (ascii "databases") (ascii "at least one database must be defined") ++
  cfg.databases.entries.flatMap (fun (name, db) ↦ validateDatabase name db) ++
  cfg.users.entries.flatMap (fun (name, u) ↦ validateUser name u)

end Validation

end PgRouter.Wiring.Schema
