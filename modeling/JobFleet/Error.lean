/-
  JobFleet.Error: what can go wrong, by cause, and the wording of each cause.

  A `ConfigError` concerns one job and stops its registration only.  `LockStoreError` and
  `LedgerError` are failures of the two stores.  `ManagerError` and `ServiceError` are what callers
  see; `ServiceError.ofManager` turns the first into the second.
-/

namespace JobFleet

/-! ## Configuration -/

/-- Why a job or its schedule cannot be used. -/
inductive ConfigError
  /-- A required attribute of the job is blank. -/
  | missingAttribute (what : String)
  /-- Neither a cron expression nor an interval is given. -/
  | missingSchedule (job : String)
  /-- Both a cron expression and an interval are given. -/
  | ambiguousSchedule (job : String)
  /-- The interval is zero or longer than a year. -/
  | invalidInterval (job : String)
  /-- The cron expression does not have five fields. -/
  | cronFieldCount (expression : String) (found : Nat)
  /-- A field of the cron expression is malformed. -/
  | invalidCronField (field value reason : String)
  /-- The cron expression as a whole is malformed. -/
  | invalidCronExpression (expression reason : String)
  /-- The time zone is not known. -/
  | invalidTimezone (name : String)
deriving DecidableEq, Repr

/-- The wording of a configuration error. -/
def ConfigError.message : ConfigError → String
  | .missingAttribute what => "Missing required job attribute: " ++ what
  | .missingSchedule job =>
    "Job '" ++ job ++ "' must declare either a cron expression or an interval"
  | .ambiguousSchedule job => "Job '" ++ job ++ "' declares both a cron expression and an interval"
  | .invalidInterval job => "Job '" ++ job ++ "' interval must be between 1 second and one year"
  | .cronFieldCount expression found =>
    "Cron expression '" ++ expression ++ "' must have exactly 5 fields, found " ++ toString found
  | .invalidCronField field value reason =>
    "Invalid cron " ++ field ++ " field '" ++ value ++ "': " ++ reason
  | .invalidCronExpression expression reason =>
    "Invalid cron expression '" ++ expression ++ "': " ++ reason
  | .invalidTimezone name => "Invalid timezone: " ++ name

/-! ## Stores -/

/-- A failure of the lock store. -/
inductive LockStoreError
  /-- The server answered with an error. -/
  | server (text : String)
  /-- No connection could be made. -/
  | connectionFailed (text : String)
  /-- The store cannot be reached. -/
  | unavailable (text : String)
deriving DecidableEq, Repr

/-- The wording of a lock store error. -/
def LockStoreError.message : LockStoreError → String
  | .server text => "Redis error: " ++ text
  | .connectionFailed text => "Connection failed: " ++ text
  | .unavailable text => "Lock store unavailable: " ++ text

/-- What a lock server or the connection to it reports. -/
inductive LockServerFault
  /-- The connection was reset. -/
  | connectionReset
  /-- The server refused a command. -/
  | refused (text : String)
deriving DecidableEq, Repr

/-- The lock store error that a fault of the server becomes. -/
def LockStoreError.ofFault : LockServerFault → LockStoreError
  | .connectionReset => .server "connection reset- IoError"
  | .refused text => .server ("An error was signalled by the server - ResponseError: " ++ text)

/-- A failure of the execution ledger. -/
inductive LedgerError
  /-- No connection could be made. -/
  | connectionFailed (text : String)
  /-- The server does not answer. -/
  | healthCheckFailed (text : String)
  /-- A query failed. -/
  | queryFailed (text : String)
  /-- A row that must exist does not. -/
  | notFound (text : String)
  /-- A row with the same key exists. -/
  | duplicateKey (text : String)
  /-- The schema could not be brought up to date. -/
  | migrationFailed (text : String)
deriving DecidableEq, Repr

/-- The wording of a ledger error. -/
def LedgerError.message : LedgerError → String
  | .connectionFailed text => "Database connection failed: " ++ text
  | .healthCheckFailed text => "Database health check failed: " ++ text
  | .queryFailed text => "Query execution failed: " ++ text
  | .notFound text => "Record not found: " ++ text
  | .duplicateKey text => "Duplicate key violation: " ++ text
  | .migrationFailed text => "Migration failed: " ++ text

/-- What a database reports. -/
inductive DatabaseFault
  /-- A query that must give a row gave none. -/
  | rowMissing
  /-- The server refused a statement, with a five-character state code when it gives one. -/
  | refused (code : Option String) (text : String)
  /-- No connection became free in time. -/
  | poolTimedOut
  /-- The pool has been closed. -/
  | poolClosed
  /-- A row lacks the named column. -/
  | columnMissing (name : String)
  /-- An applied migration is not among the known ones. -/
  | migrationMissing (version : Int)
  /-- An applied migration differs from the known one. -/
  | migrationChanged (version : Int)
deriving DecidableEq, Repr

/-- The state code of a violated uniqueness constraint. -/
def uniqueViolation : String := "23505"

/-- The ledger error that a fault of the database becomes. -/
def LedgerError.ofFault : DatabaseFault → LedgerError
  | .rowMissing => .notFound "Record not found"
  | .refused code text => if code = some uniqueViolation then .duplicateKey text
    else .queryFailed text
  | .poolTimedOut => .queryFailed "pool timed out while waiting for an open connection"
  | .poolClosed => .queryFailed "attempted to acquire a connection on a closed pool"
  | .columnMissing name => .queryFailed ("no column found for name: " ++ name)
  | .migrationMissing version =>
    .migrationFailed ("migration " ++ toString version ++
      " was previously applied but is missing in the resolved migrations")
  | .migrationChanged version =>
    .migrationFailed ("migration " ++ toString version ++
      " was previously applied but has been modified")

/-! ## What callers see -/

/-- A parameter of a request that is out of range. -/
structure ValidationError where
  field : String
  reason : String
deriving DecidableEq, Repr

/-- The wording of a validation error. -/
def ValidationError.message (e : ValidationError) : String :=
  "Invalid field value for " ++ e.field ++ ": " ++ e.reason

/-- Why the scheduler refused an operation. -/
inductive ManagerError
  /-- No job of that identity is registered. -/
  | jobNotFound (job : String)
  /-- The job is malformed. -/
  | configuration (error : ConfigError)
deriving DecidableEq, Repr

/-- The wording of a manager error. -/
def ManagerError.message : ManagerError → String
  | .jobNotFound job => "Job not found: " ++ job
  | .configuration error => error.message

/-- Why the operator service refused a request. -/
inductive ServiceError
  /-- No job of that identity is registered. -/
  | notFound (job : String)
  /-- A parameter is out of range. -/
  | validation (error : ValidationError)
  /-- The ledger failed. -/
  | ledger (error : LedgerError)
deriving DecidableEq, Repr

/-- The wording of a service error. -/
def ServiceError.message : ServiceError → String
  | .notFound job => "Job not found: " ++ job
  | .validation error => error.message
  | .ledger error => error.message

/-- The service error that a manager error becomes: a malformed job is a bad `schedule`
    parameter. -/
def ServiceError.ofManager : ManagerError → ServiceError
  | .jobNotFound job => .notFound job
  | .configuration error => .validation ⟨"schedule", error.message⟩

end JobFleet
