/-
  JobFleet.Job.Definition: the declaration of a job.

  `Definition.declare` refuses a blank identity or description and a schedule that does not have
  exactly one of a cron expression and an interval in bounds.  The cron expression itself is read
  only when the trigger is built.
-/
import JobFleet.Schedule.Trigger

namespace JobFleet

open JobFleet.Text JobFleet.Schedule JobFleet.Time

/-- The declaration of a job.  The numbers of retries and their delay are only reported, never acted
    on. -/
structure Definition where
  id : String
  name : String
  description : String
  schedule : Schedule
  enabled : Bool
  maxRetries : UInt32
  retryDelaySeconds : UInt64
  /-- How long a run may hold its lock, in milliseconds; without it the scheduler's default
      holds. -/
  lockTtlMillis : Option Nat
deriving DecidableEq, Repr

namespace Definition

/-- The fault of a declared schedule: it must have exactly one kind, and an interval must lie in
    bounds. -/
def scheduleFault? (job : String) (schedule : Schedule) : Option ConfigError :=
  match schedule.cron, schedule.interval with
  | none, none => some (.missingSchedule job)
  | some _, some _ => some (.ambiguousSchedule job)
  | none, some seconds =>
    if seconds.toNat = 0 ∨ maxIntervalSeconds < seconds.toNat then
      some (.invalidInterval job) else none
  | some _, none => none

/-- Declares an enabled job without retries that is named by its identity. -/
def declare (id description : String) (schedule : Schedule) : Except ConfigError Definition :=
  if allBlank id then .error (.missingAttribute "identity")
  else if allBlank description then .error (.missingAttribute "description")
  else match scheduleFault? id schedule with
    | some fault => .error fault
    | none => .ok {
        id := id
        name := id
        description := description
        schedule := schedule
        enabled := true
        maxRetries := 0
        retryDelaySeconds := 60
        lockTtlMillis := none }

/-- The trigger of the job, evaluated in `zone`. -/
def trigger (d : Definition) (zone : Zone) : Except ConfigError Trigger :=
  Trigger.ofSchedule d.id d.schedule zone

end Definition

end JobFleet
