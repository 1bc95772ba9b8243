import Mathlib.Data.Int.Basic
import Mathlib.Tactic.Common

/-!
What libpq reports and what the provider makes of it. A `PGresult` is an error
for the provider unless `extract_error` says that it is none, which it decides
by the result's status first, by the SQLSTATE next and by the status again where
there is no SQLSTATE.
-/

namespace Demiplane.Postgres.Errors

/-! ### Error codes -/

inductive ClientErrorCode where
  | success
  | invalidArgument
  | syntaxError
  | invalidParameter
  | typeMismatch
  | nullConversion
  | invalidCast
  | outOfRange
  | configurationError
  | connectionStringError
  | authenticationError
  | invalidOption
  | missingParameter
  | invalidState
  | notConnected
  | alreadyConnected
  | transactionActive
  | noActiveTransaction
  | poolExhausted
  | poolShutdown
  | waitTimeout
  deriving DecidableEq, Repr

inductive ServerErrorCode where
  | success
  | runtimeError
  | connectionError
  | connectionLost
  | connectionTimeout
  | connectionRefused
  | deadlockDetected
  | lockTimeout
  | statementTimeout
  | serializationFailure
  | constraintViolation
  | uniqueViolation
  | foreignKeyViolation
  | checkViolation
  | notNullViolation
  | exclusionViolation
  | dataError
  | dataTooLong
  | numericOverflow
  | divisionByZero
  | invalidDatetime
  | invalidEncoding
  | invalidTextFormat
  | accessError
  | permissionDenied
  | objectNotFound
  | databaseNotFound
  | tableNotFound
  | columnNotFound
  | schemaNotFound
  | functionNotFound
  | resourceError
  | outOfMemory
  | diskFull
  | tooManyConnections
  | configurationLimit
  | queryTooComplex
  | transactionError
  | transactionRollback
  | transactionAborted
  | invalidIsolationLevel
  deriving DecidableEq, Repr

inductive FatalErrorCode where
  | internalError
  | corruptionDetected
  | protocolViolation
  | assertionFailure
  | unexpectedState
  deriving DecidableEq, Repr

inductive ErrorCode where
  | success
  | client (code : ClientErrorCode)
  | server (code : ServerErrorCode)
  | fatal (code : FatalErrorCode)
  deriving DecidableEq, Repr

def ErrorCode.isSuccess : ErrorCode → Bool
  | .success => true
  | _ => false

structure ErrorContext where
  code : ErrorCode
  sqlstate : String
  message : String
  detail : String
  hint : String
  context : String
  position : Option ℤ
  deriving DecidableEq, Repr

/-- `ErrorContext{code}`. -/
def ErrorContext.ofCode (code : ErrorCode) : ErrorContext := ⟨code, "", "", "", "", "", none⟩

/-! ### Results -/

/-- `unlisted` is a value that libpq has and this header does not know of. -/
inductive ExecStatusType where
  | emptyQuery
  | commandOk
  | tuplesOk
  | copyOut
  | copyIn
  | badResponse
  | nonfatalError
  | fatalError
  | copyBoth
  | singleTuple
  | pipelineSync
  | pipelineAborted
  | tuplesChunk
  | unlisted
  deriving DecidableEq, Repr

/-- What the provider reads of a result. The error fields are absent or text. -/
structure PGresult where
  status : ExecStatusType
  sqlstate : Option String
  message : String
  detail : Option String
  hint : Option String
  context : Option String
  position : Option String
  deriving DecidableEq, Repr

def isSuccessStatus : ExecStatusType → Bool
  | .commandOk | .tuplesOk | .copyOut | .copyIn | .copyBoth | .singleTuple | .pipelineSync => true
  | _ => false

/-- `sqlstate.substr(0, 2)`. -/
def errorClass (sqlstate : String) : String := String.ofList (sqlstate.toList.take 2)

/-- `map_sqlstate` behind its tests for success: every path returns a code. -/
def mapErrorClass (sqlstate : String) : ErrorCode :=
  if errorClass sqlstate = "08" then
    if sqlstate = "08000" then .server .connectionError
    else if sqlstate = "08003" then .client .notConnected
    else if sqlstate = "08006" then .server .connectionLost
    else if sqlstate = "08P01" then .fatal .protocolViolation
    else .server .connectionError
  else if errorClass sqlstate = "0A" then
    .client .invalidOption
  else if errorClass sqlstate = "20" then
    .server .objectNotFound
  else if errorClass sqlstate = "21" then
    .server .dataError
  else if errorClass sqlstate = "22" then
    if sqlstate = "22000" then .server .dataError
    else if sqlstate = "22001" then .server .dataTooLong
    else if sqlstate = "22003" then .server .numericOverflow
    else if sqlstate = "22007" then .server .invalidDatetime
    else if sqlstate = "22008" then .server .invalidDatetime
    else if sqlstate = "22012" then .server .divisionByZero
    else if sqlstate = "22P02" then .server .invalidTextFormat
    else if sqlstate = "22P03" then .server .invalidEncoding
    else if sqlstate = "22P04" then .server .invalidTextFormat
    else .server .dataError
  else if errorClass sqlstate = "23" then
    if sqlstate = "23000" then .server .constraintViolation
    else if sqlstate = "23001" then .server .constraintViolation
    else if sqlstate = "23502" then .server .notNullViolation
    else if sqlstate = "23503" then .server .foreignKeyViolation
    else if sqlstate = "23505" then .server .uniqueViolation
    else if sqlstate = "23514" then .server .checkViolation
    else if sqlstate = "23P01" then .server .exclusionViolation
    else .server .constraintViolation
  else if errorClass sqlstate = "24" then
    .client .invalidState
  else if errorClass sqlstate = "25" then
    if sqlstate = "25001" then .client .transactionActive
    else if sqlstate = "25P01" then .client .noActiveTransaction
    else if sqlstate = "25P02" then .client .transactionActive
    else if sqlstate = "25P03" then .client .noActiveTransaction
    else .client .invalidState
  else if errorClass sqlstate = "26" then
    .client .invalidArgument
  else if errorClass sqlstate = "28" then
    .client .authenticationError
  else if errorClass sqlstate = "2B" then
    .server .constraintViolation
  else if errorClass sqlstate = "2D" then
    .server .transactionError
  else if errorClass sqlstate = "2F" then
    .server .runtimeError
  else if errorClass sqlstate = "34" then
    .client .invalidArgument
  else if errorClass sqlstate = "38" then
    .server .runtimeError
  else if errorClass sqlstate = "39" then
    .server .runtimeError
  else if errorClass sqlstate = "3B" then
    .server .transactionError
  else if errorClass sqlstate = "3D" then
    .server .databaseNotFound
  else if errorClass sqlstate = "3F" then
    .server .schemaNotFound
  else if errorClass sqlstate = "40" then
    if sqlstate = "40001" then .server .serializationFailure
    else if sqlstate = "40002" then .server .transactionAborted
    else if sqlstate = "40003" then .server .transactionAborted
    else if sqlstate = "40P01" then .server .deadlockDetected
    else .server .transactionRollback
  else if errorClass sqlstate = "42" then
    if sqlstate = "42501" then .server .permissionDenied
    else if sqlstate = "42601" then .client .syntaxError
    else if sqlstate = "42703" then .server .columnNotFound
    else if sqlstate = "42704" then .server .objectNotFound
    else if sqlstate = "42804" ∨ sqlstate = "42846" ∨ sqlstate = "42P18" then .client .typeMismatch
    else if sqlstate = "42830" then .server .permissionDenied
    else if sqlstate = "42883" then .server .functionNotFound
    else if sqlstate = "42P01" then .server .tableNotFound
    else if sqlstate = "42P02" then .client .invalidParameter
    else if sqlstate = "42P04" then .server .databaseNotFound
    else if sqlstate = "42P06" ∨ sqlstate = "42P15" then .server .schemaNotFound
    else .client .syntaxError
  else if errorClass sqlstate = "44" then
    .server .checkViolation
  else if errorClass sqlstate = "53" then
    if sqlstate = "53100" then .server .diskFull
    else if sqlstate = "53200" then .server .outOfMemory
    else if sqlstate = "53300" then .server .tooManyConnections
    else if sqlstate = "53400" then .server .configurationLimit
    else .server .resourceError
  else if errorClass sqlstate = "54" then
    if sqlstate = "54001" then .server .queryTooComplex
    else if sqlstate = "54011" ∨ sqlstate = "54023" then .server .tooManyConnections
    else .server .configurationLimit
  else if errorClass sqlstate = "55" then
    if sqlstate = "55P02" ∨ sqlstate = "55P03" then .server .lockTimeout
    else .client .invalidState
  else if errorClass sqlstate = "57" then
    if sqlstate = "57014" then .server .statementTimeout
    else if sqlstate.startsWith "57P" then .server .connectionError
    else .server .runtimeError
  else if errorClass sqlstate = "58" then
    if sqlstate = "58030" then .fatal .corruptionDetected
    else .fatal .internalError
  else if errorClass sqlstate = "F0" then
    .client .configurationError
  else if errorClass sqlstate = "HV" then
    .server .runtimeError
  else if errorClass sqlstate = "P0" then
    if sqlstate = "P0002" then .server .objectNotFound
    else if sqlstate = "P0003" then .server .dataError
    else if sqlstate = "P0004" then .client .invalidParameter
    else .server .runtimeError
  else if errorClass sqlstate = "XX" then
    if sqlstate = "XX001" ∨ sqlstate = "XX002" then .fatal .corruptionDetected
    else .fatal .internalError
  else .fatal .unexpectedState

def mapSqlstate (sqlstate : String) : Option ErrorCode :=
  if sqlstate = "" ∨ sqlstate = "00000" then none
  else if errorClass sqlstate = "00" then none
  else some (mapErrorClass sqlstate)

def mapExecStatus : ExecStatusType → Option ErrorCode
  | .emptyQuery => some (.client .invalidArgument)
  | .commandOk | .tuplesOk | .copyOut | .copyIn | .copyBoth | .singleTuple | .pipelineSync
  | .tuplesChunk => none
  | .pipelineAborted => some (.server .transactionAborted)
  | .badResponse => some (.fatal .protocolViolation)
  | .nonfatalError | .fatalError => some (.server .runtimeError)
  | .unlisted => some (.fatal .unexpectedState)

/-- `std::from_chars` for an `int`: the longest number at the start of the text,
`none` if there is none or it is out of range. -/
def fromChars (text : String) : Option ℤ :=
  let (negative, rest) :=
    match text.toList with
    | '-' :: cs => (true, cs)
    | cs => (false, cs)
  let digits := rest.takeWhile Char.isDigit
  let magnitude : ℕ := digits.foldl (fun n c => 10 * n + (c.toNat - '0'.toNat)) 0
  let value : ℤ := if negative then -(magnitude : ℤ) else magnitude
  if digits = [] then none
  else if -2147483648 ≤ value ∧ value ≤ 2147483647 then some value
  else none

/-- The code that `extract_error` and `extract_error_code` find for a result
whose status is not one of success. -/
def errorCodeOf (result : PGresult) : Option ErrorCode :=
  match result.sqlstate with
  | some sqlstate => mapSqlstate sqlstate
  | none => mapExecStatus result.status

def extractError : Option PGresult → Option ErrorContext
  | none => some (.ofCode (.fatal .unexpectedState))
  | some result =>
      if isSuccessStatus result.status then none
      else
        (errorCodeOf result).map fun code =>
          { code := code
            sqlstate := result.sqlstate.getD ""
            message := result.message
            detail := result.detail.getD ""
            hint := result.hint.getD ""
            context := result.context.getD ""
            position := result.position.bind fromChars }

def extractErrorCode : Option PGresult → Option ErrorCode
  | none => some (.fatal .unexpectedState)
  | some result => if isSuccessStatus result.status then none else errorCodeOf result

/-- The `ResultBlock` of a success is the result itself. -/
def processResult (result : PGresult) : Except ErrorContext PGresult :=
  match extractError (some result) with
  | some error => .error error
  | none => .ok result

/-! ### Connections -/

inductive ConnStatusType where
  | ok
  | bad
  | started
  | made
  | awaitingResponse
  | authOk
  | setenv
  | sslStartup
  | needed
  | checkWritable
  | consume
  | gssStartup
  | checkTarget
  | checkStandby
  | allocated
  | authenticating
  | unlisted
  deriving DecidableEq, Repr

/-- `none` is the null connection. -/
def checkConnection : Option ConnStatusType → ErrorCode
  | none => .client .notConnected
  | some .ok => .success
  | some .bad => .server .connectionLost
  | some .unlisted => .fatal .unexpectedState
  | some _ => .client .invalidState

def extractConnectionError (status : Option ConnStatusType) (errorMessage : String) :
    ErrorContext :=
  match status with
  | none => .ofCode (.client .notConnected)
  | some status =>
      { ErrorContext.ofCode
          (if status = .bad then .server .connectionLost else .server .runtimeError) with
        message := if errorMessage = "" then "Unknown connection error" else errorMessage }

/-! ### Replies of the server -/

/-- Class 00 is the class of success; an error that the server reports has an
SQLSTATE of another class. -/
def IsErrorState (sqlstate : String) : Prop := sqlstate ≠ "" ∧ errorClass sqlstate ≠ "00"

instance (sqlstate : String) : Decidable (IsErrorState sqlstate) :=
  inferInstanceAs (Decidable (_ ∧ _))

/-- An error that the server reports. -/
structure Refusal where
  sqlstate : String
  isError : IsErrorState sqlstate
  message : String
  detail : Option String
  hint : Option String
  context : Option String
  position : Option String

/-- The result of a statement that the server has answered with OK. -/
def PGresult.completed : PGresult := ⟨.commandOk, none, "", none, none, none, none⟩

def Refusal.result (r : Refusal) : PGresult :=
  ⟨.fatalError, some r.sqlstate, r.message, r.detail, r.hint, r.context, r.position⟩

/-- The result that libpq makes up when the connection breaks under a statement. -/
def PGresult.broken (message : String) : PGresult :=
  ⟨.fatalError, none, message, none, none, none, none⟩

theorem mapSqlstate_isSome_iff (sqlstate : String) :
    (mapSqlstate sqlstate).isSome = true ↔ IsErrorState sqlstate := by
  have hzero : sqlstate = "00000" → errorClass sqlstate = "00" := by
    rintro rfl
    decide
  unfold mapSqlstate IsErrorState
  split_ifs with h₁ h₂
  · simp only [Option.isSome_none, Bool.false_eq_true, false_iff, not_and, not_not]
    exact fun hne => hzero (h₁.resolve_left hne)
  · simp [h₂]
  · exact iff_of_true rfl ⟨fun h => h₁ (.inl h), h₂⟩

/-! ### Reports -/

/-- What decides about a result that has no status of success: the SQLSTATE, or the status
where there is none. -/
def IndicatesError (result : PGresult) : Prop :=
  match result.sqlstate with
  | some sqlstate => IsErrorState sqlstate
  | none => result.status ≠ .tuplesChunk

theorem mapExecStatus_isSome_iff (status : ExecStatusType) :
    (mapExecStatus status).isSome = true ↔
      isSuccessStatus status = false ∧ status ≠ .tuplesChunk := by
  cases status <;> decide

theorem errorCodeOf_isSome_iff {result : PGresult} (h : isSuccessStatus result.status = false) :
    (errorCodeOf result).isSome = true ↔ IndicatesError result := by
  unfold errorCodeOf IndicatesError
  cases result.sqlstate with
  | none => simp [mapExecStatus_isSome_iff, h]
  | some sqlstate => exact mapSqlstate_isSome_iff sqlstate

theorem extractError_code (result : Option PGresult) :
    (extractError result).map ErrorContext.code = extractErrorCode result := by
  cases result with
  | none => rfl
  | some result =>
    simp only [extractError, extractErrorCode]
    split_ifs
    · rfl
    · rw [Option.map_map]
      exact Option.map_id'

theorem processResult_error_iff (result : PGresult) :
    (∃ error, processResult result = .error error) ↔
      (extractErrorCode (some result)).isSome = true := by
  rw [← extractError_code, Option.isSome_map, processResult]
  cases extractError (some result) <;> simp

/-- A result is reported as its status says unless it has no status of success and its
SQLSTATE, or its status, is taken for one of success; the two functions agree on all
results, and on none. -/
theorem failure_reported_iff (result : PGresult) (pointer : Option PGresult) :
    (((∃ error, processResult result = .error error) ↔ isSuccessStatus result.status = false) ↔
      isSuccessStatus result.status = true ∨ IndicatesError result) ∧
    (extractError pointer).map ErrorContext.code = extractErrorCode pointer := by
  refine ⟨?_, extractError_code pointer⟩
  rw [processResult_error_iff, extractErrorCode]
  cases h : isSuccessStatus result.status with
  | true => simp
  | false => simp [errorCodeOf_isSome_iff h]

/-- A fatal error with an SQLSTATE of the class 00 is taken for a success. -/
theorem fatalError_unreported :
    isSuccessStatus .fatalError = false ∧
    processResult ⟨.fatalError, some "00000", "", none, none, none, none⟩ =
      .ok ⟨.fatalError, some "00000", "", none, none, none, none⟩ :=
  ⟨rfl, rfl⟩

@[simp] theorem processResult_completed :
    processResult .completed = .ok .completed := rfl

theorem processResult_refusal (r : Refusal) :
    ∃ error, processResult r.result = .error error := by
  obtain ⟨code, hcode⟩ := Option.isSome_iff_exists.mp ((mapSqlstate_isSome_iff _).mpr r.isError)
  simp [processResult, extractError, Refusal.result, isSuccessStatus, errorCodeOf, hcode]

theorem processResult_broken (message : String) :
    ∃ error, processResult (.broken message) = .error error :=
  ⟨_, rfl⟩

end Demiplane.Postgres.Errors
