/-
  JobFleet.Settings.Validation: which settings the program starts with.

  The checks run in a fixed order and the first one that fails is reported.
-/
import JobFleet.Settings.Sections

namespace JobFleet

open JobFleet.Schedule JobFleet.Time

/-! ## Faults -/

/-- What is wrong with the settings. -/
inductive SettingsFault
  | emptyDatabaseUrl
  | noDatabaseConnections
  | emptyRedisUrl
  | noRedisConnectTimeout
  | emptyLockKeyPrefix
  | noLockTtl
  | noRetentionDays
  /-- The zone is not known. -/
  | timezone (error : ConfigError)
  /-- The expression that schedules the cleanup is malformed. -/
  | retentionCron (error : ConfigError)
deriving DecidableEq, Repr

/-- The wording of a fault. -/
def SettingsFault.message : SettingsFault → String
  | .emptyDatabaseUrl => "Database URL cannot be empty"
  | .noDatabaseConnections => "Database max_connections must be greater than 0"
  | .emptyRedisUrl => "Redis URL cannot be empty"
  | .noRedisConnectTimeout => "Redis connect_timeout_seconds must be greater than 0"
  | .emptyLockKeyPrefix => "Scheduler lock_key_prefix cannot be empty"
  | .noLockTtl => "Scheduler lock_ttl_seconds must be greater than 0"
  | .noRetentionDays => "Scheduler retention_days must be greater than 0"
  | .timezone error => error.message
  | .retentionCron error => "Scheduler retention_cron is invalid: " ++ error.message

/-! ## Checks -/

/-- The checks that look at one value each, in order. -/
def Settings.plainChecks (s : Settings) : List (Bool × SettingsFault) :=
  [(s.database.url = "", .emptyDatabaseUrl),
   (s.database.maxConnections = 0, .noDatabaseConnections),
   (s.redis.url = "", .emptyRedisUrl),
   (s.redis.connectTimeoutSeconds = 0, .noRedisConnectTimeout),
   (s.scheduler.lockKeyPrefix = "", .emptyLockKeyPrefix),
   (s.scheduler.lockTtlSeconds = 0, .noLockTtl),
   (s.scheduler.retentionDays = 0, .noRetentionDays)]

/-- Accepts the settings or reports their first fault. -/
def Settings.validate (s : Settings) (zones : ZoneDatabase := .tabled) :
    Except SettingsFault Unit :=
  match s.plainChecks.find? (·.1) with
  | some (_, fault) => .error fault
  | none =>
    match s.scheduler.zone zones with
    | .error error => .error (.timezone error)
    | .ok zone =>
      match CronTrigger.parse s.scheduler.retentionCron zone with
      | .error error => .error (.retentionCron error)
      | .ok _ => .ok ()

end JobFleet
