/-
  JobFleet.Settings.Sections: the settings of the program and their built-in defaults.

  A section is a structure; the default of each field is the value the program runs with when no
  file and no variable names it.  Durations derived from a section are in milliseconds.
-/
import JobFleet.Schedule.Trigger

namespace JobFleet

open JobFleet.Time JobFleet.Schedule

/-! ## Sections -/

/-- How to reach the database behind the execution ledger. -/
structure DatabaseSettings where
  url : String := "postgresql://localhost/hr_records"
  maxConnections : UInt32 := 10
  minConnections : UInt32 := 2
  connectTimeoutSeconds : UInt64 := 30
deriving DecidableEq, Repr

/-- How to reach the lock store. -/
structure RedisSettings where
  url : String := "redis://localhost:6379"
  connectTimeoutSeconds : UInt64 := 5
deriving DecidableEq, Repr

/-- How jobs are locked and scheduled, and how long their history is kept. -/
structure SchedulerSettings where
  /-- What every lock key starts with. -/
  lockKeyPrefix : String := "job_lock"
  /-- The time a lock is held for when its job declares none. -/
  lockTtlSeconds : UInt64 := 600
  /-- How long a run waits for its lock; zero makes it try once. -/
  lockAcquireTimeoutMillis : UInt64 := 0
  lockRetryDelayMillis : UInt64 := 200
  /-- The name of the zone that cron expressions are evaluated in. -/
  timezone : String := "UTC"
  retentionDays : UInt32 := 30
  retentionCron : String := "30 3 * * *"
deriving DecidableEq, Repr

/-- What the program reports about itself. -/
structure ObservabilitySettings where
  logLevel : String := "info"
  metricsPort : UInt16 := 9090
  tracingEndpoint : Option String := none
deriving DecidableEq, Repr

/-- All settings. -/
structure Settings where
  database : DatabaseSettings := {}
  redis : RedisSettings := {}
  scheduler : SchedulerSettings := {}
  observability : ObservabilitySettings := {}
deriving DecidableEq, Repr

/-! ## Derived values -/

namespace SchedulerSettings

/-- The default time a lock is held for, in milliseconds. -/
def lockTtlMillis (s : SchedulerSettings) : Nat := 1000 * s.lockTtlSeconds.toNat

/-- How long a run waits for its lock in milliseconds, if it waits at all. -/
def acquireTimeoutMillis? (s : SchedulerSettings) : Option Nat :=
  if s.lockAcquireTimeoutMillis = 0 then none else some s.lockAcquireTimeoutMillis.toNat

/-- The zone that cron expressions are evaluated in. -/
def zone (s : SchedulerSettings) (zones : ZoneDatabase) : Except ConfigError Zone :=
  zoneNamed s.timezone zones

end SchedulerSettings

end JobFleet
