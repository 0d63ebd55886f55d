/-
  JobFleet.Form.View: what operators see, as JSON.

  A status has the members of its job beside its own.  The seconds left on a lock and the data of a
  reply are left out when there are none.
-/
import JobFleet.Form.Ledger
import JobFleet.View

namespace JobFleet

open JobFleet.Json

/-- A member that is left out when it has no value. -/
def whenSome {α : Type} (name : String) (encode : α → Json) : Option α → List (String × Json)
  | some a => [(name, encode a)]
  | none => []

namespace JobInfo

/-- The members of the live state of a job. -/
def members (i : JobInfo) : List (String × Json) :=
  [("id", .str i.id),
   ("name", .str i.name),
   ("description", .str i.description),
   ("trigger", .str i.trigger),
   ("next_run_time", Json.ofOption ofInstant i.nextRunTime),
   ("enabled", .bool i.enabled),
   ("paused", .bool i.paused),
   ("max_retries", .ofNat i.maxRetries.toNat),
   ("retry_delay_seconds", .ofNat i.retryDelaySeconds.toNat),
   ("lock_ttl_seconds", .ofNat i.lockTtlSeconds.toNat)]

/-- The live state of a job as JSON. -/
def toJson (i : JobInfo) : Json := .obj i.members

/-- The field names of the live state of a job, in order. -/
def fieldNames : List String :=
  ["id", "name", "description", "trigger", "next_run_time", "enabled", "paused", "max_retries",
   "retry_delay_seconds", "lock_ttl_seconds"]

/-- The live state of a job from the slots of its fields. -/
def ofSlots? : List Slot → Option JobInfo
  | [id, name, description, trigger, next, enabled, paused, retries, delay, ttl] => do
    return {
      id := ← id.required asText
      name := ← name.required asText
      description := ← description.required asText
      trigger := ← trigger.required asText
      nextRunTime := ← next.optional asInstant
      enabled := ← enabled.required asBool
      paused := ← paused.required asBool
      maxRetries := ← retries.required asWord32
      retryDelaySeconds := ← delay.required asWord64
      lockTtlSeconds := ← ttl.required asWord64 }
  | _ => none

/-- The live state of a job from JSON. -/
def ofJson? (j : Json) : Option JobInfo := (slots? fieldNames j).bind ofSlots?

end JobInfo

namespace StatusView

/-- The members that a status has beside those of its job. -/
def own (v : StatusView) : List (String × Json) :=
  ("locked", .bool v.locked) ::
    (whenSome "lock_ttl_remaining_seconds" .int v.lockTtlRemainingSeconds ++
    [("last_execution", Json.ofOption Row.toJson v.lastExecution),
      ("failures_last_24h", .int v.failuresLast24h)])

/-- A status as JSON. -/
def toJson (v : StatusView) : Json := .obj (v.job.members ++ v.own)

/-- The names of the fields that a status has beside those of its job, in order. -/
def ownNames : List String :=
  ["locked", "lock_ttl_remaining_seconds", "last_execution", "failures_last_24h"]

/-- A status from its job and the slots of its own fields. -/
def ofSlots? (job : JobInfo) : List Slot → Option StatusView
  | [locked, remaining, last, failures] => do
    return {
      job := job
      locked := ← locked.required asBool
      lockTtlRemainingSeconds := ← remaining.optional asInt64
      lastExecution := ← last.optional Row.ofJson?
      failuresLast24h := ← failures.required asInt64 }
  | _ => none

/-- A status from JSON; it must be an object, which has the fields of its job as well. -/
def ofJson? : Json → Option StatusView
  | .obj members => do
    let job ← JobInfo.ofJson? (.obj members)
    ofSlots? job (← slots? ownNames (.obj members))
  | _ => none

end StatusView

namespace HistoryPage

/-- The field names of a page, in order. -/
def fieldNames : List String := ["job_id", "page", "limit", "total", "items"]

/-- The members of a page. -/
def members (p : HistoryPage) : List (String × Json) :=
  [("job_id", .str p.job),
   ("page", .ofNat p.page.toNat),
   ("limit", .ofNat p.limit.toNat),
   ("total", .int p.total),
   ("items", .arr (p.items.map Row.toJson))]

/-- A page of history as JSON. -/
def toJson (p : HistoryPage) : Json := .obj p.members

/-- A page of history from JSON. -/
def ofJson? (j : Json) : Option HistoryPage :=
  match slots? fieldNames j with
  | some [job, page, limit, total, items] => do
    return {
      job := ← job.required asText
      page := ← page.required asWord32
      limit := ← limit.required asWord32
      total := ← total.required asInt64
      items := ← items.required (asList Row.ofJson?) }
  | _ => none

end HistoryPage

namespace TriggerStatus

/-- The word for a status. -/
def word : TriggerStatus → String
  | .completed => "completed"
  | .alreadyRunning => "already_running"

/-- The status with the given word. -/
def ofWord? (s : String) : Option TriggerStatus :=
  if s = word .completed then some .completed
  else if s = word .alreadyRunning then some .alreadyRunning
  else none

/-- A status as JSON. -/
def toJson (s : TriggerStatus) : Json := .str s.word

/-- A status from JSON: its word, alone or as the only member of an object, with the value
    `null`. -/
def ofJson? : Json → Option TriggerStatus
  | .str s => ofWord? s
  | .obj [(s, .null)] => ofWord? s
  | _ => none

end TriggerStatus

namespace TriggerReply

/-- The field names of a reply, in order. -/
def fieldNames : List String := ["job_id", "status", "success", "message", "data"]

/-- The members of a reply. -/
def members (r : TriggerReply) : List (String × Json) :=
  [("job_id", .str r.job), ("status", r.status.toJson), ("success", Json.ofOption .bool r.success),
   ("message", .str r.message)] ++ whenSome "data" id r.data

/-- A reply as JSON. -/
def toJson (r : TriggerReply) : Json := .obj r.members

/-- A reply from JSON. -/
def ofJson? (j : Json) : Option TriggerReply :=
  match slots? fieldNames j with
  | some [job, status, success, message, data] => do
    return {
      job := ← job.required asText
      status := ← status.required TriggerStatus.ofJson?
      success := ← success.optional asBool
      message := ← message.required asText
      data := ← data.optional asAny }
  | _ => none

end TriggerReply

end JobFleet
