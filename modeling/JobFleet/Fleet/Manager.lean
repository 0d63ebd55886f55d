/-
  JobFleet.Fleet.Manager: what a scheduler can be asked to do.

  Registering, pausing and the like happen at once.  Runs, lock acquisitions and shutdowns may wait
  and are tasks: a call starts one, lets it run to its first wait, and gives its number.
-/
import JobFleet.Fleet.Machine

namespace JobFleet.Fleet

open JobFleet.Time JobFleet.Schedule

variable {σ : Type}

/-! ## Registry -/

/-- The scheduler with a number is running. -/
def isRunning (i : Nat) (fleet : Fleet σ) :
    Bool := ((fleet.schedulers[i]?).map (·.running)).getD false

/-- The registry of a scheduler. -/
def entriesOf (i : Nat) (fleet : Fleet σ) : List Entry :=
  ((fleet.schedulers[i]?).map (·.entries)).getD []

/-- Changes the registry of a scheduler. -/
def changeEntries (i : Nat) (f : List Entry → List Entry) (fleet : Fleet σ) : Fleet σ :=
  fleet.changeScheduler i (fun s => { s with entries := f s.entries })

/-- Stops the driver of an entry where it is. -/
def abortDriver (e : Entry) (fleet : Fleet σ) : Fleet σ :=
  match e.driver with
  | some number => fleet.dropTask number
  | none => fleet

/-- Starts a driver for an entry: the entry with its driver. -/
def startDriver (i : Nat) (e : Entry) (fleet : Fleet σ) : Entry × Fleet σ :=
  ({ e with driver := some fleet.nextNumber },
    fleet.addTask (.drive { scheduler := i, serial := e.serial, job := e.job,
                            trigger := e.trigger }) false)

/-- Sets the gauge of registered jobs. -/
def showRegistered (i : Nat) (fleet : Fleet σ) : Fleet σ :=
  fleet.changeWorld (·.measure (·.setRegistered (fleet.entriesOf i).length))

/-- A new entry of a job. -/
def freshEntry (job : Job) (trigger : Trigger) (fleet : Fleet σ) : Entry × Fleet σ :=
  ({ serial := fleet.nextNumber, job := job, trigger := trigger },
    { fleet with nextNumber := fleet.nextNumber + 1 })

/-- Puts an entry into the registry of a scheduler; one of the same identity is replaced and its
    driver stopped. -/
def enter (i : Nat) (e : Entry) (fleet : Fleet σ) : Fleet σ :=
  let previous := Entry.find? e.id (fleet.entriesOf i)
  let fleet := fleet.changeEntries i (Entry.insert e)
  match previous with
  | some old =>
    (fleet.abortDriver old).changeWorld
      (·.emit .warn "Job already registered, replacing previous definition" [])
  | none => fleet

/-- Registers a job: false for a disabled one, an error for one whose schedule is malformed. -/
def register (i : Nat) (job : Job) (fleet : Fleet σ) : Except ConfigError Bool × Fleet σ :=
  match fleet.schedulers[i]? with
  | none => (.ok false, fleet)
  | some s =>
    if !job.definition.enabled then
      (.ok false, fleet.changeWorld (·.emit .info "Job disabled, not registering" []))
    else match job.definition.trigger s.config.zone with
      | .error e => (.error e, fleet)
      | .ok trigger =>
        let (entry, fleet) := fleet.freshEntry job trigger
        let (entry, fleet) := if s.running then fleet.startDriver i entry else (entry, fleet)
        let fleet := ((fleet.enter i entry).showRegistered i).changeWorld
          (·.emit .info "Job registered" [("trigger", .str trigger.display)])
        (.ok true, fleet)

/-- Registers jobs one after the other, logs those that are malformed, and counts those that were
    registered. -/
def registerAll (i : Nat) : List Job → Fleet σ → Nat × Fleet σ
  | [], fleet => (0, fleet)
  | job :: rest, fleet =>
    match fleet.register i job with
    | (.ok registered, fleet) =>
      let (count, fleet) := fleet.registerAll i rest
      (count + registered.toNat, fleet)
    | (.error e, fleet) =>
      (fleet.changeWorld (·.emit .error "Failed to register job"
        [("job_id", .str job.id), ("error", .str e.message)])).registerAll i rest

/-! ## Life -/

/-- Starts drivers for the entries that are not paused: the entries with their drivers. -/
def startDrivers (i : Nat) : List Entry → Fleet σ → List Entry × Fleet σ
  | [], fleet => ([], fleet)
  | e :: rest, fleet =>
    let (e, fleet) := if e.paused then (e, fleet) else fleet.startDriver i e
    let (rest, fleet) := startDrivers i rest fleet
    (e :: rest, fleet)

/-- Starts a scheduler; one that runs is left alone. -/
def start (i : Nat) (fleet : Fleet σ) : Fleet σ :=
  if fleet.isRunning i then fleet.changeWorld (·.emit .warn "Scheduler already running" [])
  else
    let (entries, fleet) := fleet.startDrivers i (fleet.entriesOf i)
    (fleet.changeScheduler i (fun s => { s with running := true, entries := entries })).changeWorld
      (·.emit .info "Scheduler started" [("job_count", .ofNat entries.length)])

/-- Pauses a job: its driver is stopped. -/
def pause (i : Nat) (id : String) (fleet : Fleet σ) : Except ManagerError Unit × Fleet σ :=
  match Entry.find? id (fleet.entriesOf i) with
  | none => (.error (.jobNotFound id), fleet)
  | some e =>
    let fleet := (fleet.abortDriver e).changeEntries i
      (Entry.change id (fun e => { e with paused := true, nextRun := none, driver := none }))
    (.ok (), fleet.changeWorld (·.emit .info "Job paused" []))

/-- Resumes a job: while the scheduler runs, a job without driver gets one. -/
def resume (i : Nat) (id : String) (fleet : Fleet σ) : Except ManagerError Unit × Fleet σ :=
  match Entry.find? id (fleet.entriesOf i) with
  | none => (.error (.jobNotFound id), fleet)
  | some e =>
    let e := { e with paused := false }
    let (e, fleet) := if fleet.isRunning i && e.driver.isNone then
      fleet.startDriver i e else (e, fleet)
    (.ok (), (fleet.changeEntries i (Entry.change id (fun _ => e))).changeWorld
      (·.emit .info "Job resumed" []))

/-- Takes a job out of the registry: its driver is stopped, a tick that runs is not. -/
def remove (i : Nat) (id : String) (fleet : Fleet σ) : Except ManagerError Unit × Fleet σ :=
  match Entry.find? id (fleet.entriesOf i) with
  | none => (.error (.jobNotFound id), fleet)
  | some e =>
    let fleet := ((fleet.changeEntries i (Entry.erase id)).abortDriver e).showRegistered i
    (.ok (), fleet.changeWorld (·.emit .info "Job removed" []))

/-! ## Questions -/

/-- The live state of a job. -/
def info? (i : Nat) (id : String) (fleet : Fleet σ) : Option JobInfo :=
  (fleet.schedulers[i]?).bind (fun s => s.info? id fleet.world.now)

/-- The live state of every job of a scheduler. -/
def infos (i : Nat) (fleet : Fleet σ) : List JobInfo :=
  ((fleet.schedulers[i]?).map (fun s => s.infos fleet.world.now)).getD []

/-- The identities that a scheduler has registered, in order. -/
def ids (i : Nat) (fleet : Fleet σ) : List String := ((fleet.schedulers[i]?).map (·.ids)).getD []

/-! ## Calls that may wait -/

/-- The run that a request for a registered job makes. -/
def requested? (i : Nat) (id : String) (kind : RunKind) (caller : Caller) (fleet : Fleet σ) :
    Option Activity :=
  match fleet.schedulers[i]?, Entry.find? id (fleet.entriesOf i) with
  | some s, some e => some (.run i ⟨s.guard, e.job, kind, .entering⟩ caller)
  | _, _ => none

variable [LockStore σ]

/-- Starts a task and lets it run to its first wait: its number. -/
def launch (activity : Activity) (foreground : Bool) (fleet : Fleet σ) : Nat × Fleet σ :=
  (fleet.nextNumber, (fleet.addTask activity foreground).step fleet.nextNumber)

/-- Runs a registered job now, under the lock of its runs of a kind. -/
def runNow (i : Nat) (id : String) (kind : RunKind) (caller : Caller) (foreground : Bool)
    (fleet : Fleet σ) : Except ManagerError (Nat × Fleet σ) :=
  match fleet.requested? i id kind caller with
  | some activity => .ok (fleet.launch activity foreground)
  | none => .error (.jobNotFound id)

/-- Tries to take a lock. -/
def acquireLock (i : Nat) (lockId : String) (ttlMillis : Nat) (timeout : Option Nat)
    (foreground : Bool) (fleet : Fleet σ) : Nat × Fleet σ :=
  let lock := ((fleet.schedulers[i]?).map (·.lock)).getD ⟨"", .scheduler i, 0⟩
  let acquisition : Acquisition :=
    { lock := lock, lockId := lockId, ttlMillis := ttlMillis
      deadline := Lock.deadline? timeout fleet.world.elapsed, attempts := 0 }
  fleet.launch (.acquire acquisition) foreground

/-- Tells the drivers of a scheduler to stop. -/
def signalDrivers (i : Nat) (fleet : Fleet σ) : Fleet σ :=
  let isDriver (t : Task) : Bool := match t.activity with
    | .drive d => d.scheduler = i
    | _ => false
  let told := fleet.tasks.map (fun t => match t.activity with
    | .drive d =>
      if d.scheduler = i then { t with activity := .drive { d with stopping := true } } else t
    | _ => t)
  -- a driver that has not begun yet is ready already and keeps its turn
  { fleet with tasks := told }.wake (fun t => isDriver t && !Task.isReady t)

/-- Stops a scheduler: none when it does not run, otherwise the number of the task that ends when it
    has stopped. -/
def shutdown (i : Nat) (waits foreground : Bool) (fleet : Fleet σ) : Option Nat × Fleet σ :=
  if !fleet.isRunning i then (none, fleet.changeWorld (·.emit .debug "Scheduler not running" []))
  else
    let drivers := (fleet.entriesOf i).filterMap (·.driver)
    let fleet := (fleet.changeScheduler i (fun s => { s with
      running := false
      entries := s.entries.map (fun e => { e with driver := none }) })).signalDrivers i
    let (number, fleet) := fleet.launch (.drain ⟨i, waits, .drivers drivers⟩) foreground
    (some number, fleet)

end JobFleet.Fleet
