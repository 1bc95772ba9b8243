import Demiplane.Postgres.ConnectionConfig
import Demiplane.Postgres.PoolConfig
import Demiplane.Serialization.ConfigInterface

/-!
The configurations of the pool and of a connection as JSON. All of their fields are here, with the
types that are stored: an enumeration is its underlying integer, since a cast gives it any value.
-/

namespace Demiplane.Postgres

open Text Serialization

/-! ### The pool -/

/-- `PoolConfig` with all its fields; durations are counts of seconds. -/
structure StoredPoolConfig where
  capacity : UInt64
  minConnections : UInt64
  connectTimeout : Int64
  idleTimeout : Int64
  healthCheckInterval : Int64
  maxLifetime : Int64
  cleanupSql : Text
  deriving DecidableEq

namespace StoredPoolConfig

/-- What the pool reads of it. -/
def toPoolConfig (c : StoredPoolConfig) : PoolConfig :=
  ⟨c.capacity.toNat, c.minConnections.toNat, c.connectTimeout.toInt⟩

def validate (c : StoredPoolConfig) : Except String Unit := c.toPoolConfig.validate

def interface (lib : Jsoncpp) : ConfigInterface StoredPoolConfig where
  fields :=
    [⟨_, ascii "capacity", .normal, sizeCodec lib, capacity, fun v c => { c with capacity := v }⟩,
      ⟨_, ascii "min_connections", .normal, sizeCodec lib, minConnections,
        fun v c => { c with minConnections := v }⟩,
      ⟨_, ascii "connect_timeout", .normal, durationCodec lib, connectTimeout,
        fun v c => { c with connectTimeout := v }⟩,
      ⟨_, ascii "idle_timeout", .normal, durationCodec lib, idleTimeout,
        fun v c => { c with idleTimeout := v }⟩,
      ⟨_, ascii "health_check_interval", .normal, durationCodec lib, healthCheckInterval,
        fun v c => { c with healthCheckInterval := v }⟩,
      ⟨_, ascii "max_lifetime", .normal, durationCodec lib, maxLifetime,
        fun v c => { c with maxLifetime := v }⟩,
      ⟨_, ascii "cleanup_sql", .normal, stringCodec lib, cleanupSql,
        fun v c => { c with cleanupSql := v }⟩]
  builder := ⟨16, 2, 10, 300, 30, 3600, []⟩
  validate := validate

end StoredPoolConfig

/-! ### Credentials -/

namespace ConnectionCredentials

def interface (lib : Jsoncpp) : ConfigInterface ConnectionCredentials where
  fields :=
    [⟨_, ascii "host", .normal, stringCodec lib, host, fun v c => { c with host := v }⟩,
      ⟨_, ascii "port", .normal, stringCodec lib, port, fun v c => { c with port := v }⟩,
      ⟨_, ascii "dbname", .normal, stringCodec lib, dbname, fun v c => { c with dbname := v }⟩,
      ⟨_, ascii "user", .normal, stringCodec lib, user, fun v c => { c with user := v }⟩,
      ⟨_, ascii "password", .secret, stringCodec lib, password,
        fun v c => { c with password := v }⟩]
  builder := ⟨ascii "localhost", ascii "5432", [], [], []⟩
  validate := validate

end ConnectionCredentials

/-! ### Connections -/

def SslMode.code : SslMode → UInt8
  | .disable => 0
  | .allow => 1
  | .prefer => 2
  | .require => 3
  | .verifyCa => 4
  | .verifyFull => 5

/-- `ConnectionConfig` with all its fields. -/
structure StoredConnectionConfig where
  credentials : ConnectionCredentials
  /-- A `NodeRole`. -/
  role : Int32
  priority : Int32
  clusterName : Text
  connectTimeout : Int64
  statementTimeout : Int64
  idleInTransactionTimeout : Int64
  lockTimeout : Int64
  /-- An `SslMode`. -/
  sslMode : UInt8
  sslCert : Option Text
  sslKey : Option Text
  sslRootCert : Option Text
  binaryProtocol : Bool
  autoPrepare : Bool
  pipelineMode : Bool
  applicationName : Text
  searchPath : Text
  workMemMb : UInt64
  jit : Bool
  extraOptions : StringMap

namespace StoredConnectionConfig

def validate (c : StoredConnectionConfig) : Except String Unit := do
  c.credentials.validate
  if (c.sslMode = SslMode.verifyCa.code ∨ c.sslMode = SslMode.verifyFull.code) ∧
      c.sslRootCert = none then
    throw "ssl_root_cert is required when ssl_mode is VERIFY_CA or VERIFY_FULL"
  if c.sslCert.isSome ≠ c.sslKey.isSome then
    throw "ssl_cert and ssl_key must both be specified or both be omitted"
  if c.connectTimeout < 0 then
    throw "connect_timeout cannot be negative"
  if c.priority < 0 then
    throw "priority cannot be negative"

/-- What a connection string and a session are made of. -/
def toConnectionConfig (c : StoredConnectionConfig) (mode : SslMode) : ConnectionConfig where
  credentials := c.credentials
  priority := c.priority
  connectTimeout := c.connectTimeout
  statementTimeout := c.statementTimeout
  idleInTransactionTimeout := c.idleInTransactionTimeout
  lockTimeout := c.lockTimeout
  sslMode := mode
  sslCert := c.sslCert
  sslKey := c.sslKey
  sslRootCert := c.sslRootCert
  applicationName := c.applicationName
  searchPath := c.searchPath
  extraOptions := c.extraOptions.toList

/-- The check is the one that the connection string is made under. -/
theorem validate_eq {c : StoredConnectionConfig} {mode : SslMode} (h : c.sslMode = mode.code) :
    c.validate = (c.toConnectionConfig mode).validate := by
  have hca : mode.code = SslMode.verifyCa.code ↔ mode = .verifyCa := by cases mode <;> decide
  have hfull : mode.code = SslMode.verifyFull.code ↔ mode = .verifyFull := by
    cases mode <;> decide
  simp only [validate, ConnectionConfig.validate, toConnectionConfig, h, hca, hfull]
  congr!

def interface (lib : Jsoncpp) : ConfigInterface StoredConnectionConfig where
  fields :=
    [⟨_, ascii "credentials", .normal, nestedCodec (ConnectionCredentials.interface lib),
        credentials, fun v c => { c with credentials := v }⟩,
      ⟨_, ascii "role", .normal, enumCodec lib id id, role, fun v c => { c with role := v }⟩,
      ⟨_, ascii "priority", .normal, intCodec lib, priority, fun v c => { c with priority := v }⟩,
      ⟨_, ascii "cluster_name", .normal, stringCodec lib, clusterName,
        fun v c => { c with clusterName := v }⟩,
      ⟨_, ascii "connect_timeout", .normal, durationCodec lib, connectTimeout,
        fun v c => { c with connectTimeout := v }⟩,
      ⟨_, ascii "statement_timeout", .normal, durationCodec lib, statementTimeout,
        fun v c => { c with statementTimeout := v }⟩,
      ⟨_, ascii "idle_in_transaction_timeout", .normal, durationCodec lib,
        idleInTransactionTimeout, fun v c => { c with idleInTransactionTimeout := v }⟩,
      ⟨_, ascii "lock_timeout", .normal, durationCodec lib, lockTimeout,
        fun v c => { c with lockTimeout := v }⟩,
      ⟨_, ascii "ssl_mode", .normal, enumCodec lib (fun v => Int32.ofNat v.toNat)
        (fun v => UInt8.ofInt v.toInt), sslMode, fun v c => { c with sslMode := v }⟩,
      ⟨_, ascii "ssl_cert", .normal, optionalCodec (stringCodec lib), sslCert,
        fun v c => { c with sslCert := v }⟩,
      ⟨_, ascii "ssl_key", .normal, optionalCodec (stringCodec lib), sslKey,
        fun v c => { c with sslKey := v }⟩,
      ⟨_, ascii "ssl_root_cert", .normal, optionalCodec (stringCodec lib), sslRootCert,
        fun v c => { c with sslRootCert := v }⟩,
      ⟨_, ascii "binary_protocol", .normal, boolCodec lib, binaryProtocol,
        fun v c => { c with binaryProtocol := v }⟩,
      ⟨_, ascii "auto_prepare", .normal, boolCodec lib, autoPrepare,
        fun v c => { c with autoPrepare := v }⟩,
      ⟨_, ascii "pipeline_mode", .normal, boolCodec lib, pipelineMode,
        fun v c => { c with pipelineMode := v }⟩,
      ⟨_, ascii "application_name", .normal, stringCodec lib, applicationName,
        fun v c => { c with applicationName := v }⟩,
      ⟨_, ascii "search_path", .normal, stringCodec lib, searchPath,
        fun v c => { c with searchPath := v }⟩,
      ⟨_, ascii "work_mem_mb", .normal, sizeCodec lib, workMemMb,
        fun v c => { c with workMemMb := v }⟩,
      ⟨_, ascii "jit", .normal, boolCodec lib, jit, fun v c => { c with jit := v }⟩,
      ⟨_, ascii "extra_options", .normal, mapCodec lib, extraOptions,
        fun v c => { c with extraOptions := v }⟩]
  builder :=
    { credentials := (ConnectionCredentials.interface lib).builder
      role := 0
      priority := 0
      clusterName := []
      connectTimeout := 30
      statementTimeout := 0
      idleInTransactionTimeout := 0
      lockTimeout := 0
      sslMode := SslMode.prefer.code
      sslCert := none
      sslKey := none
      sslRootCert := none
      binaryProtocol := true
      autoPrepare := false
      pipelineMode := true
      applicationName := []
      searchPath := ascii "public"
      workMemMb := 4
      jit := true
      extraOptions := ∅ }
  validate := validate

/-- The secrets of the credentials included. -/
def withoutSecrets (lib : Jsoncpp) (c : StoredConnectionConfig) : StoredConnectionConfig :=
  (interface lib).withoutSecrets
    { c with credentials := (ConnectionCredentials.interface lib).withoutSecrets c.credentials }

end StoredConnectionConfig

/-- No configuration is written as JSON and none is read from it: the instances of the templates
are ill-formed. -/
theorem config_json_illFormed (lib : Jsoncpp) :
    (∀ c : StoredPoolConfig, ¬ (StoredPoolConfig.interface lib).RoundTrips c
      ((StoredPoolConfig.interface lib).withoutSecrets c)) ∧
    (∀ c : StoredConnectionConfig, ¬ (StoredConnectionConfig.interface lib).RoundTrips c
      (c.withoutSecrets lib)) ∧
    (∀ inp, ¬ (StoredPoolConfig.interface lib).ReadsValid inp) ∧
    ∀ inp, ¬ (StoredConnectionConfig.interface lib).ReadsValid inp := by
  -- the first field of either class is neither secret nor excluded
  refine ⟨fun c => ?_, fun c => ?_, fun inp => ?_, fun inp => ?_⟩
  · exact ConfigInterface.not_roundTrips List.mem_cons_self rfl c _
  · exact ConfigInterface.not_roundTrips List.mem_cons_self rfl c _
  · exact ConfigInterface.not_readsValid List.mem_cons_self rfl inp
  · exact ConfigInterface.not_readsValid List.mem_cons_self rfl inp

/-- Accessors that refuse every value of another type. -/
def strictAccess : Jsoncpp where
  asString
    | .string s => .ok s
    | _ => .error "Type is not convertible to string"
  asInt
    | .int v =>
        if v.toInt32.toInt64 = v then .ok v.toInt32 else .error "LargestInt out of Int range"
    | _ => .error "Value is not convertible to Int."
  asInt64
    | .int v => .ok v
    | _ => .error "Value is not convertible to Int64."
  asUInt64
    | .uint v => .ok v
    | _ => .error "Value is not convertible to UInt64."
  asBool
    | .boolean b => .ok b
    | _ => .error "Value is not convertible to bool."
  asString_string _ := rfl
  asInt_int v := by simp
  asInt64_int _ := rfl
  asUInt64_uint _ := rfl
  asBool_boolean _ := rfl

/-- The default configuration of a pool is valid. -/
theorem default_pool_unwritten :
    (StoredPoolConfig.interface strictAccess).builder.validate = .ok () ∧
      ¬ (StoredPoolConfig.interface strictAccess).RoundTrips
        (StoredPoolConfig.interface strictAccess).builder
        ((StoredPoolConfig.interface strictAccess).withoutSecrets
          (StoredPoolConfig.interface strictAccess).builder) :=
  ⟨by rfl, ConfigInterface.not_roundTrips List.mem_cons_self rfl _ _⟩

end Demiplane.Postgres
