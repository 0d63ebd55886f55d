/-
  JobFleet.Job.Body: what a job does when it runs.
-/
import JobFleet.Job.Cleanup
import JobFleet.Job.Outcome

namespace JobFleet

/-- One run of a scripted body: how long it waits, and how it ends. -/
structure ScriptedRun where
  sleepMillis : Nat
  ending : Ending

/-- The run of a script without entries: it succeeds at once. -/
def ScriptedRun.plain : ScriptedRun := ⟨0, .returned ⟨true, "ok", none⟩⟩

/-- What a job does. -/
inductive Body
  /-- Follows the runs of a named script one after the other and then repeats the last; every
      registration of the script counts its runs together. -/
  | scripted (script : String) (runs : List ScriptedRun)
  /-- Deletes the rows of the ledger that are older than a number of days. -/
  | cleanup (days : UInt32)

/-- A job: its declaration and its body. -/
structure Job where
  definition : Definition
  body : Body
  /-- The declaration cannot be read while a lock is taken: whoever reads it then panics. -/
  unreadableWhileLocked : Bool := false

namespace Job

/-- The identity of a job. -/
def id (j : Job) : String := j.definition.id

/-- The retention job. -/
def ofCleanup (c : CleanupJob) : Job := ⟨c.definition, .cleanup c.retentionDays, false⟩

end Job

/-- The run of a script with the given number. -/
def scriptedRun (runs : List ScriptedRun) (number : Nat) : ScriptedRun :=
  match runs[number]? with
  | some run => run
  | none => runs.getLast?.getD .plain

/-- The longest that a body waits. -/
def Body.longestSleep : Body → Nat
  | .scripted _ runs => (runs.map (·.sleepMillis)).foldl max 0
  | .cleanup _ => 0

end JobFleet
