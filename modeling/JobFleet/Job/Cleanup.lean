/-
  JobFleet.Job.Cleanup: the job that deletes old rows from the execution ledger.
-/
import JobFleet.Job.Definition
import JobFleet.Settings.Sections

namespace JobFleet

open JobFleet.Time JobFleet.Schedule

/-- The retention job: its declaration and how many days a row is kept. -/
structure CleanupJob where
  definition : Definition
  retentionDays : UInt32
deriving DecidableEq, Repr

namespace CleanupJob

/-- The identity of the retention job. -/
def jobId : String := "execution_log_cleanup"

/-- The description of a retention job. -/
def describe (days : UInt32) : String :=
  "Delete execution logs older than " ++ toString days.toNat ++ " days"

/-- The retention job with a cron expression that can be read in the zone. -/
def build (days : UInt32) (cron : String) (zone : Zone) : Except ConfigError CleanupJob := do
  let declared ← Definition.declare jobId (describe days) (.ofCron cron)
  let definition := { declared with name := "Execution log cleanup" }
  let _ ← definition.trigger zone
  return ⟨definition, days⟩

/-- The retention job that the settings ask for. -/
def ofSettings (s : SchedulerSettings) (zones : ZoneDatabase) : Except ConfigError CleanupJob := do
  build s.retentionDays s.retentionCron (← s.zone zones)

end CleanupJob

/-- The jobs that the program runs; one that is malformed is left out. -/
def programJobs (s : SchedulerSettings) (zones : ZoneDatabase := .tabled) : List CleanupJob :=
  match CleanupJob.ofSettings s zones with
  | .ok job => [job]
  | .error _ => []

end JobFleet
