/-
  JobFleet.Session.Step: what can be asked of a fleet, and what it answers.
-/
import JobFleet.Fleet.Service
import JobFleet.Lock.Faulty

namespace JobFleet.Session

/-! ## Steps -/

/-- One thing to do with a fleet.  Numbers of schedulers count from zero. -/
inductive Step
  -- registry and timers
  | register (on : Nat) (job : Job)
  | registerAll (on : Nat) (jobs : List Job)
  /-- Registers a retention job: the one given, or the one of the scheduler's settings. -/
  | registerCleanup (on : Nat) (given : Option (UInt32 × String))
  | start (on : Nat)
  | shutdown (on : Nat) (waits : Bool)
  | pause (on : Nat) (id : String)
  | resume (on : Nat) (id : String)
  | remove (on : Nat) (id : String)
  /-- Runs a job now. -/
  | run (on : Nat) (id : String) (kind : RunKind)
  | info (on : Nat) (id : String)
  | infos (on : Nat)
  | ids (on : Nat)
  | running (on : Nat)
  | config (on : Nat)
  -- operator service
  | statuses (on : Nat)
  | status (on : Nat) (id : String)
  | serviceRun (on : Nat) (id : String)
  | servicePage (id : String) (page limit : UInt32)
  | serviceRecent (hours : Int)
  | servicePause (on : Nat) (id : String)
  | serviceResume (on : Nat) (id : String)
  | serviceCleanup (days : Int)
  -- locks
  | acquire (on : Nat) (id : String) (ttlMillis : Nat) (timeout : Option Nat)
  | release (on : Nat) (id : String)
  | extend (on : Nat) (id : String) (extraMillis : Nat)
  | isLocked (on : Nat) (id : String)
  | remaining (on : Nat) (id : String)
  | lockKey (on : Nat) (id : String)
  -- lock store
  | holder (key : String)
  | setKey (key value : String) (seconds : Nat)
  | deleteKey (key value : String)
  | isPresent (key : String)
  | secondsLeft (key : String)
  | extendKey (key value : String) (seconds : Nat)
  | failStore (operations : List StoreOperation)
  -- ledger
  | create (report : Report)
  | insert (report : Report) (createdAt : Time.Instant)
  | sink (report : Report)
  | latest (id : String)
  | history (id : String) (limit offset : Int)
  | count (id : String)
  | recent (hours : Int)
  | countFailed (id : Option String) (hours : Int)
  | cleanup (days : Int)
  | rows
  | sortedRows
  | failLedger (operations : List LedgerOperation)
  -- the session itself
  | advance (ms : Nat)
  | tally (script : String)
  | metrics
  /-- Takes the events since the last time, those at least as severe as given. -/
  | events (severity : Severity)
  /-- Begins all steps in order and waits for all of them. -/
  | join (steps : List Step)
  /-- Begins a step in the background, in place of an earlier one of the same name. -/
  | spawn (name : String) (step : Step)
  /-- Waits for a step in the background. -/
  | await (name : String)
  /-- A step that could not be read. -/
  | unreadable

/-! ## Answers -/

/-- Why a step failed. -/
inductive Refusal
  | configuration (error : ConfigError)
  | manager (error : ManagerError)
  | service (error : ServiceError)
  | lockStore (error : LockStoreError)
  | ledger (error : LedgerError)
  | sink (error : LedgerError)
  | unreadable

/-- What a step answers. -/
inductive Answer
  | done
  | missing
  | truth (value : Bool)
  | number (value : Int)
  | text (value : String)
  | texts (values : List String)
  | outcome (outcome : RunOutcome)
  | info (info : JobInfo)
  | infos (infos : List JobInfo)
  | config (config : SchedulerConfig)
  | status (view : StatusView)
  /-- A status without its next fire time, which the driver announces only later. -/
  | statusOnly (view : StatusView)
  | statuses (views : List StatusView)
  | reply (reply : TriggerReply)
  | page (page : HistoryPage)
  | row (row : Row)
  | rows (rows : List Row)
  | holder (holder : Holder)
  | tally (tally : Tally)
  | metrics (metrics : Metrics)
  | events (events : List Event)
  /-- The answer of another step and when it was given. -/
  | finished (moment : Nat) (answer : Answer)
  | all (answers : List (Nat × Answer))
  | refused (refusal : Refusal)

namespace Answer

/-- The answer to a call that can fail. -/
def ofExcept {ε α : Type} (refusal : ε → Refusal) (answer : α → Answer) : Except ε α → Answer
  | .ok a => answer a
  | .error e => .refused (refusal e)

/-- The answer of an optional value. -/
def ofOption {α : Type} (answer : α → Answer) : Option α → Answer
  | some a => answer a
  | none => .missing

end Answer

end JobFleet.Session
