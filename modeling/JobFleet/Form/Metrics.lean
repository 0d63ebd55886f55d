/-
  JobFleet.Form.Metrics: counters as JSON.

  A counter is named with its labels in braces, sorted by name.  Only what was touched appears.
-/
import JobFleet.Json.Value
import JobFleet.Telemetry.Metrics

namespace JobFleet

/-- A name with labels. -/
def labelled (name : String) (labels : List (String × String)) : String :=
  name ++ "\x7b" ++ String.intercalate "," (labels.map (fun l => l.1 ++ "=" ++ l.2)) ++ "\x7d"

/-- The name of a counter. -/
def Counter.name : Counter → String
  | .succeeded job => labelled "job_execution_success_total" [("job_id", job)]
  | .failed job => labelled "job_execution_failed_total" [("job_id", job)]
  | .skipped job kind => labelled "job_tick_skipped_total" [("job_id", job), ("trigger", kind.word)]
  | .lockErrors call => labelled "job_lock_store_errors_total" [("operation", call.word)]

/-- Counters, durations and the gauge as one object. -/
def Metrics.toJson (m : Metrics) : Json :=
  let counts := m.counts.map (fun c => (c.1.name, Json.ofNat c.2))
  let durations := m.durations.map (fun d =>
    (labelled "job_execution_duration_seconds" [("job_id", d.1)],
      Json.arr (d.2.reverse.map Json.float)))
  let gauge := match m.registered with
    | some n => [(labelled "scheduler_registered_jobs" [], Json.ofNat n)]
    | none => []
  .obj (counts ++ durations ++ gauge)

end JobFleet
