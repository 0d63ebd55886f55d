/-
  JobFleet.Fleet.Scheduler: one scheduler of the fleet and its registry.

  The registry has an entry for each registered job, in the order of their identities.  An entry
  knows the task that drives its trigger, if there is one, and the fire time that the driver
  announced last.
-/
import JobFleet.Fleet.Guard
import JobFleet.View

namespace JobFleet

open JobFleet.Time JobFleet.Schedule

/-! ## Configuration -/

/-- How a scheduler runs its jobs. -/
structure SchedulerConfig where
  /-- The time to live of a lock whose job declares none, in milliseconds. -/
  lockTtl : Nat := 600000
  /-- How long a run waits for its lock, in milliseconds. -/
  acquireTimeout : Option Nat := none
  /-- The zone in which cron expressions are evaluated. -/
  zone : Zone := Zone.utc

/-- The configuration that the settings give. -/
def SchedulerConfig.ofSettings (s : SchedulerSettings) (zones : ZoneDatabase) :
    Except ConfigError SchedulerConfig := do
  return { lockTtl := s.lockTtlMillis, acquireTimeout := s.acquireTimeoutMillis?,
           zone := ← s.zone zones }

/-! ## Registry -/

/-- A registered job. -/
structure Entry where
  /-- Tells the entry from earlier ones of the same identity. -/
  serial : Nat
  job : Job
  trigger : Trigger
  paused : Bool := false
  /-- The fire time that its driver announced last. -/
  nextRun : Option Instant := none
  /-- The task that drives its trigger. -/
  driver : Option Nat := none

namespace Entry

/-- The identity of the job. -/
def id (e : Entry) : String := e.job.id

/-- Looks an identity up in a registry. -/
def find? (id : String) (entries : List Entry) : Option Entry := entries.find? (fun e => e.id = id)

/-- Puts an entry into a registry in its place, instead of one of the same identity. -/
def insert (entry : Entry) : List Entry → List Entry
  | [] => [entry]
  | e :: rest =>
    if entry.id < e.id then entry :: e :: rest
    else if entry.id = e.id then entry :: rest
    else e :: insert entry rest

/-- Takes an identity out of a registry. -/
def erase (id : String) (entries : List Entry) : List Entry := entries.filter (fun e => e.id ≠ id)

/-- Changes the entry of an identity. -/
def change (id : String) (f : Entry → Entry) (entries : List Entry) : List Entry :=
  entries.map (fun e => if e.id = id then f e else e)

/-- Announces a fire time of the entry with a serial number. -/
def announce (serial : Nat) (next : Option Instant) (entries : List Entry) : List Entry :=
  entries.map (fun e => if e.serial = serial then { e with nextRun := next } else e)

end Entry

/-! ## Schedulers -/

/-- A scheduler. -/
structure Scheduler where
  config : SchedulerConfig
  lock : Lock
  /-- Who receives the records of its runs. -/
  sink : Sink := .ledger
  running : Bool := false
  entries : List Entry := []
  /-- The ticks that were started and not yet collected. -/
  inFlight : List Nat := []

namespace Scheduler

/-- What the scheduler brings to every run. -/
def guard (s : Scheduler) : Guard := ⟨s.lock, s.config.lockTtl, s.config.acquireTimeout, s.sink⟩

/-- The registered identities in order. -/
def ids (s : Scheduler) : List String := s.entries.map Entry.id

/-- The next fire time to show of an entry: none of a paused job, the announced one while running,
    and before that the one that a start now would lead to. -/
def nextRunOf (s : Scheduler) (e : Entry) (now : Instant) : Option Instant :=
  if e.paused then none
  else if s.running then e.nextRun
  else e.trigger.next? none now

/-- The live state of an entry. -/
def infoOf (s : Scheduler) (e : Entry) (now : Instant) : JobInfo where
  id := e.id
  name := e.job.definition.name
  description := e.job.definition.description
  trigger := e.trigger.display
  nextRunTime := s.nextRunOf e now
  enabled := e.job.definition.enabled
  paused := e.paused
  maxRetries := e.job.definition.maxRetries
  retryDelaySeconds := e.job.definition.retryDelaySeconds
  lockTtlSeconds := UInt64.ofNat (s.guard.ttlOf e.job / 1000)

/-- The live state of a job, if it is registered. -/
def info? (s : Scheduler) (id : String) (now : Instant) : Option JobInfo :=
  (Entry.find? id s.entries).map (fun e => s.infoOf e now)

/-- The live state of every job in order. -/
def infos (s : Scheduler) (now : Instant) : List JobInfo := s.entries.map (fun e => s.infoOf e now)

end Scheduler

end JobFleet
