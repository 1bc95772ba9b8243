import Demiplane.Conninfo.Parser
import Demiplane.Text.Charconv

/-!
`ConnectionCredentials` and `ConnectionConfig`: what is checked of a configuration, and the
connection string that the pools hand to `PQconnectdb`. The fields that are neither checked
nor written are left out, but for the timeouts and the search path of a session.
-/

namespace Demiplane.Postgres

open Text
open Conninfo (isSpace space apostrophe equals backslash)

inductive SslMode where
  | disable
  | allow
  | prefer
  | require
  | verifyCa
  | verifyFull
  deriving DecidableEq, Repr

def sslModeToString : SslMode → Text
  | .disable => ascii "disable"
  | .allow => ascii "allow"
  | .prefer => ascii "prefer"
  | .require => ascii "require"
  | .verifyCa => ascii "verify-ca"
  | .verifyFull => ascii "verify-full"

/-! ### Values -/

/-- One turn of the loop of `escape_connection_value`. -/
def escapeStep (state : Text × Bool) (c : UInt8) : Text × Bool :=
  if c = backslash ∨ c = apostrophe then (state.1 ++ [backslash] ++ [c], true)
  else if c = space ∨ c = equals then (state.1 ++ [c], true)
  else (state.1 ++ [c], state.2)

def escapeConnectionValue (value : Text) : Text :=
  if value = [] then ascii "''"
  else
    let (escaped, needsQuoting) := value.foldl escapeStep ([], false)
    if needsQuoting then ascii "'" ++ escaped ++ ascii "'" else escaped

/-! ### Checks -/

/-- What `std::stoi` throws. -/
inductive StoiError where
  | invalidArgument
  | outOfRange
  deriving DecidableEq, Repr

/-- `std::stoi`: the numeral behind the white space at the start of the text. What follows
the numeral does not matter. -/
def stoi (t : Text) : Except StoiError ℤ :=
  let rest := t.dropWhile isSpace
  let negative := rest.head? == some hyphen
  let signed := negative || rest.head? == some 43
  let digits := (if signed then rest.tail else rest).takeWhile isDigit
  let value : ℤ := if negative then -(number digits : ℤ) else number digits
  if digits = [] then .error .invalidArgument
  else if IntType.Holds ⟨true, 32⟩ value then .ok value
  else .error .outOfRange

@[ext]
structure ConnectionCredentials where
  host : Text
  port : Text
  dbname : Text
  user : Text
  password : Text
  deriving DecidableEq, Repr

/-- The message of the `std::invalid_argument` that is thrown, if one is. The one that
`std::stoi` throws is passed on. -/
def ConnectionCredentials.validate (c : ConnectionCredentials) : Except String Unit :=
  if c.dbname = [] then .error "Database name (dbname) must be specified"
  else if c.user = [] then .error "User must be specified"
  else if c.port ≠ [] then
    match stoi c.port with
    | .ok p => if p < 1 ∨ p > 65535 then .error "Port must be between 1 and 65535" else .ok ()
    | .error .invalidArgument => .error "stoi"
    | .error .outOfRange => .error "Invalid port number"
  else .ok ()

/-- The timeouts are counts of seconds, and `extraOptions` are the entries of the map in
the order of their keys. -/
structure ConnectionConfig where
  credentials : ConnectionCredentials
  priority : Int32
  connectTimeout : Int64
  statementTimeout : Int64
  idleInTransactionTimeout : Int64
  lockTimeout : Int64
  sslMode : SslMode
  sslCert : Option Text
  sslKey : Option Text
  sslRootCert : Option Text
  applicationName : Text
  searchPath : Text
  extraOptions : List (Text × Text)
  deriving DecidableEq, Repr

def ConnectionConfig.validate (c : ConnectionConfig) : Except String Unit := do
  c.credentials.validate
  if (c.sslMode = .verifyCa ∨ c.sslMode = .verifyFull) ∧ c.sslRootCert = none then
    throw "ssl_root_cert is required when ssl_mode is VERIFY_CA or VERIFY_FULL"
  if c.sslCert.isSome ≠ c.sslKey.isSome then
    throw "ssl_cert and ssl_key must both be specified or both be omitted"
  if c.connectTimeout < 0 then
    throw "connect_timeout cannot be negative"
  if c.priority < 0 then
    throw "priority cannot be negative"

/-! ### Connection strings -/

/-- `key=value` and a space, if the value is not empty. -/
def credential (key : String) (value : Text) : Text :=
  if value ≠ [] then ascii key ++ ascii "=" ++ escapeConnectionValue value ++ ascii " " else []

def ConnectionCredentials.toConnectionString (c : ConnectionCredentials) : Except String Text := do
  c.validate
  let result := credential "host" c.host ++ credential "port" c.port ++
    credential "dbname" c.dbname ++ credential "user" c.user ++ credential "password" c.password
  -- the space behind the last pair is taken off
  return if result.getLast? = some space then result.dropLast else result

/-- A space and `key=value`, if there is a value. -/
def setting (key : String) : Option Text → Text
  | some value => ascii " " ++ ascii key ++ ascii "=" ++ escapeConnectionValue value
  | none => []

def ConnectionConfig.toConnectionString (c : ConnectionConfig) : Except String Text := do
  c.validate
  let credentials ← c.credentials.toConnectionString
  return credentials ++
    ascii " sslmode=" ++ sslModeToString c.sslMode ++
    setting "sslcert" c.sslCert ++
    setting "sslkey" c.sslKey ++
    setting "sslrootcert" c.sslRootCert ++
    (if 0 < c.connectTimeout then ascii " connect_timeout=" ++ integer c.connectTimeout.toInt
      else []) ++
    (if c.applicationName ≠ [] then
      ascii " application_name=" ++ escapeConnectionValue c.applicationName else []) ++
    c.extraOptions.flatMap fun option =>
      ascii " " ++ option.1 ++ ascii "=" ++ escapeConnectionValue option.2

/-! ### What the connection string is to say -/

/-- The value of a field that is left out when it is empty. -/
def nonEmpty (value : Text) : Option Text := if value = [] then none else some value

/-- The fields that have a place in the connection string, with their values. -/
def ConnectionCredentials.fields (c : ConnectionCredentials) : List (Text × Option Text) :=
  [(ascii "host", nonEmpty c.host),
    (ascii "port", nonEmpty c.port),
    (ascii "dbname", nonEmpty c.dbname),
    (ascii "user", nonEmpty c.user),
    (ascii "password", nonEmpty c.password)]

def ConnectionConfig.options (c : ConnectionConfig) : List (Text × Option Text) :=
  [(ascii "sslmode", some (sslModeToString c.sslMode)),
    (ascii "sslcert", c.sslCert),
    (ascii "sslkey", c.sslKey),
    (ascii "sslrootcert", c.sslRootCert),
    (ascii "connect_timeout",
      if 0 < c.connectTimeout then some (integer c.connectTimeout.toInt) else none),
    (ascii "application_name", nonEmpty c.applicationName)]

def ConnectionConfig.fields (c : ConnectionConfig) : List (Text × Option Text) :=
  c.credentials.fields ++ c.options

/-- The fields that have a value. -/
def present (fields : List (Text × Option Text)) : List (Text × Text) :=
  fields.filterMap fun field => field.2.map fun value => (field.1, value)

def ConnectionConfig.pairs (c : ConnectionConfig) : List (Text × Text) :=
  present c.fields ++ c.extraOptions

end Demiplane.Postgres
