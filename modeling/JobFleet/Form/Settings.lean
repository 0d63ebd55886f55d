/-
  JobFleet.Form.Settings: settings as JSON.

  A tree of settings is read section by section.  How a leaf becomes a text or a number is a
  parameter: `Leaves.strict` takes values of the right type only, and reading a configuration takes
  more.
-/
import JobFleet.Json.Shape
import JobFleet.Settings.Sections

namespace JobFleet

open JobFleet.Json

/-! ## Leaves -/

/-- How the leaves and the sections of a tree of settings are read. -/
structure Leaves where
  /-- A text. -/
  text : Json → Option String
  /-- A whole number below a bound. -/
  number : Nat → Json → Option Nat
  /-- The slots of the named fields of a section. -/
  slots : List String → Json → Option (List Slot)

namespace Leaves

/-- Values of the right type only. -/
def strict : Leaves := ⟨asText, asNatBelow, slots?⟩

/-- An unsigned 16-bit word. -/
def word16 (l : Leaves) (j : Json) : Option UInt16 :=
  (l.number (Text.wordSize 16) j).map UInt16.ofNat

/-- An unsigned 32-bit word. -/
def word32 (l : Leaves) (j : Json) : Option UInt32 :=
  (l.number (Text.wordSize 32) j).map UInt32.ofNat

/-- An unsigned 64-bit word. -/
def word64 (l : Leaves) (j : Json) : Option UInt64 :=
  (l.number (Text.wordSize 64) j).map UInt64.ofNat

end Leaves

/-! ## Sections -/

namespace DatabaseSettings

/-- The field names of the database section, in order. -/
def fieldNames : List String :=
  ["url", "max_connections", "min_connections", "connect_timeout_seconds"]

/-- The database section of a tree. -/
def read? (l : Leaves) (j : Json) : Option DatabaseSettings :=
  match l.slots fieldNames j with
  | some [url, most, least, timeout] => do
    return {
      url := ← url.required l.text
      maxConnections := ← most.required l.word32
      minConnections := ← least.required l.word32
      connectTimeoutSeconds := ← timeout.required l.word64 }
  | _ => none

/-- The members of the database section. -/
def members (s : DatabaseSettings) : List (String × Json) :=
  [("url", .str s.url),
   ("max_connections", .ofNat s.maxConnections.toNat),
   ("min_connections", .ofNat s.minConnections.toNat),
   ("connect_timeout_seconds", .ofNat s.connectTimeoutSeconds.toNat)]

/-- The database section as JSON. -/
def toJson (s : DatabaseSettings) : Json := .obj s.members

end DatabaseSettings

namespace RedisSettings

/-- The field names of the lock store section, in order. -/
def fieldNames : List String := ["url", "connect_timeout_seconds"]

/-- The lock store section of a tree. -/
def read? (l : Leaves) (j : Json) : Option RedisSettings :=
  match l.slots fieldNames j with
  | some [url, timeout] => do
    return {
      url := ← url.required l.text
      connectTimeoutSeconds := ← timeout.required l.word64 }
  | _ => none

/-- The members of the lock store section. -/
def members (s : RedisSettings) : List (String × Json) :=
  [("url", .str s.url), ("connect_timeout_seconds", .ofNat s.connectTimeoutSeconds.toNat)]

/-- The lock store section as JSON. -/
def toJson (s : RedisSettings) : Json := .obj s.members

end RedisSettings

namespace SchedulerSettings

/-- The field names of the scheduler section, in order. -/
def fieldNames : List String :=
  ["lock_key_prefix", "lock_ttl_seconds", "lock_acquire_timeout_ms", "lock_retry_delay_ms",
    "timezone", "retention_days", "retention_cron"]

/-- The scheduler section of a tree; the two waiting times may be missing. -/
def read? (l : Leaves) (j : Json) : Option SchedulerSettings :=
  match l.slots fieldNames j with
  | some [lockPrefix, ttl, timeout, delay, timezone, days, cron] => do
    return {
      lockKeyPrefix := ← lockPrefix.required l.text
      lockTtlSeconds := ← ttl.required l.word64
      lockAcquireTimeoutMillis := ← timeout.orElse 0 l.word64
      lockRetryDelayMillis := ← delay.orElse 200 l.word64
      timezone := ← timezone.required l.text
      retentionDays := ← days.required l.word32
      retentionCron := ← cron.required l.text }
  | _ => none

/-- The members of the scheduler section. -/
def members (s : SchedulerSettings) : List (String × Json) :=
  [("lock_key_prefix", .str s.lockKeyPrefix),
   ("lock_ttl_seconds", .ofNat s.lockTtlSeconds.toNat),
   ("lock_acquire_timeout_ms", .ofNat s.lockAcquireTimeoutMillis.toNat),
   ("lock_retry_delay_ms", .ofNat s.lockRetryDelayMillis.toNat),
   ("timezone", .str s.timezone),
   ("retention_days", .ofNat s.retentionDays.toNat),
   ("retention_cron", .str s.retentionCron)]

/-- The scheduler section as JSON. -/
def toJson (s : SchedulerSettings) : Json := .obj s.members

end SchedulerSettings

namespace ObservabilitySettings

/-- The field names of the observability section, in order. -/
def fieldNames : List String := ["log_level", "metrics_port", "tracing_endpoint"]

/-- The observability section of a tree. -/
def read? (l : Leaves) (j : Json) : Option ObservabilitySettings :=
  match l.slots fieldNames j with
  | some [level, port, endpoint] => do
    return {
      logLevel := ← level.required l.text
      metricsPort := ← port.required l.word16
      tracingEndpoint := ← endpoint.optional l.text }
  | _ => none

/-- The members of the observability section. -/
def members (s : ObservabilitySettings) : List (String × Json) :=
  [("log_level", .str s.logLevel),
   ("metrics_port", .ofNat s.metricsPort.toNat),
   ("tracing_endpoint", Json.ofOption .str s.tracingEndpoint)]

/-- The observability section as JSON. -/
def toJson (s : ObservabilitySettings) : Json := .obj s.members

end ObservabilitySettings

/-! ## Settings -/

namespace Settings

/-- The names of the sections, in order. -/
def fieldNames : List String := ["database", "redis", "scheduler", "observability"]

/-- The settings in a tree. -/
def read? (l : Leaves) (j : Json) : Option Settings :=
  match l.slots fieldNames j with
  | some [database, redis, scheduler, observability] => do
    return {
      database := ← database.required (DatabaseSettings.read? l)
      redis := ← redis.required (RedisSettings.read? l)
      scheduler := ← scheduler.required (SchedulerSettings.read? l)
      observability := ← observability.required (ObservabilitySettings.read? l) }
  | _ => none

/-- The sections of settings. -/
def members (s : Settings) : List (String × Json) :=
  [("database", s.database.toJson),
   ("redis", s.redis.toJson),
   ("scheduler", s.scheduler.toJson),
   ("observability", s.observability.toJson)]

/-- Settings as JSON. -/
def toJson (s : Settings) : Json := .obj s.members

/-- Settings from JSON. -/
def ofJson? (j : Json) : Option Settings := read? .strict j

end Settings

/-- A scheduler section from JSON. -/
def SchedulerSettings.ofJson? (j : Json) : Option SchedulerSettings := read? .strict j

end JobFleet
