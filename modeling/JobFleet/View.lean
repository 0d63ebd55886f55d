/-
  JobFleet.View: what operators see of jobs and their history.
-/
import JobFleet.Ledger.Record

namespace JobFleet

open JobFleet.Time

/-- The live state of a registered job on one instance. -/
structure JobInfo where
  id : String
  name : String
  description : String
  trigger : String
  nextRunTime : Option Instant
  enabled : Bool
  paused : Bool
  maxRetries : UInt32
  retryDelaySeconds : UInt64
  lockTtlSeconds : UInt64
deriving DecidableEq, Repr

/-- The live state of a job together with its lock and its history. -/
structure StatusView where
  job : JobInfo
  locked : Bool
  lockTtlRemainingSeconds : Option Int
  lastExecution : Option Row
  failuresLast24h : Int

/-- One page of the history of a job. -/
structure HistoryPage where
  job : String
  page : UInt32
  limit : UInt32
  total : Int
  items : List Row

/-- How a request to run a job now was met. -/
inductive TriggerStatus
  /-- The job ran. -/
  | completed
  /-- The job is running elsewhere. -/
  | alreadyRunning
deriving DecidableEq, Repr

/-- The answer to a request to run a job now; without a run there is no success. -/
structure TriggerReply where
  job : String
  status : TriggerStatus
  success : Option Bool
  message : String
  data : Option Json

end JobFleet
