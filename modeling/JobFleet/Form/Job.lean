/-
  JobFleet.Form.Job: schedules, outcomes and results as JSON.
-/
import JobFleet.Job.Outcome
import JobFleet.Json.Shape
import JobFleet.Schedule.Trigger

namespace JobFleet

open JobFleet.Json

namespace Schedule

/-- The field names of a declared schedule, in order. -/
def fieldNames : List String := ["cron", "interval_seconds"]

/-- The members of a declared schedule. -/
def members (s : Schedule) : List (String × Json) :=
  [("cron", Json.ofOption .str s.cron),
    ("interval_seconds", Json.ofOption (fun n => .ofNat n.toNat) s.interval)]

/-- A declared schedule as JSON. -/
def toJson (s : Schedule) : Json := .obj s.members

/-- A declared schedule from JSON. -/
def ofJson? (j : Json) : Option Schedule :=
  match slots? fieldNames j with
  | some [cron, interval] => do
    return { cron := ← cron.optional asText, interval := ← interval.optional asWord64 }
  | _ => none

end Schedule

namespace Outcome

/-- The field names of an outcome, in order. -/
def fieldNames : List String := ["success", "message", "data"]

/-- The members of an outcome. -/
def members (o : Outcome) : List (String × Json) :=
  [("success", .bool o.success), ("message", .str o.message), ("data", Json.ofOption id o.data)]

/-- An outcome as JSON. -/
def toJson (o : Outcome) : Json := .obj o.members

/-- An outcome from JSON. -/
def ofJson? (j : Json) : Option Outcome :=
  match slots? fieldNames j with
  | some [success, message, data] => do
    return {
      success := ← success.required asBool
      message := ← message.required asText
      data := ← data.optional asAny }
  | _ => none

end Outcome

namespace RunResult

/-- The field names of a result, in order. -/
def fieldNames : List String := ["success", "message", "data", "error"]

/-- The members of a result. -/
def members (r : RunResult) : List (String × Json) :=
  [("success", .bool r.success), ("message", .str r.message), ("data", Json.ofOption id r.data),
    ("error", Json.ofOption .str r.error)]

/-- A result as JSON. -/
def toJson (r : RunResult) : Json := .obj r.members

/-- A result from JSON. -/
def ofJson? (j : Json) : Option RunResult :=
  match slots? fieldNames j with
  | some [success, message, data, error] => do
    return {
      success := ← success.required asBool
      message := ← message.required asText
      data := ← data.optional asAny
      error := ← error.optional asText }
  | _ => none

end RunResult

end JobFleet
