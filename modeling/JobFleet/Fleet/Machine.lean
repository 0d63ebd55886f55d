/-
  JobFleet.Fleet.Machine: the tasks of a fleet and how they take turns.

  A task runs from one wait to the next without being disturbed; `Fleet.step` is that turn.  A turn
  of a run is made of pieces, and `Fleet.advance` makes one of them.  Which of the ready tasks is
  next is the matter of `next?`, and time passes in `passTo`, so that what a step does holds for
  every order of steps.  A task number is used once.
-/
import JobFleet.Fleet.Scheduler
import JobFleet.Time.Timestamp

namespace JobFleet

open JobFleet.Time JobFleet.Schedule

/-! ## Tasks -/

/-- On whose behalf a run is made. -/
inductive Caller
  /-- A trigger fired. -/
  | timer
  /-- Someone asked the scheduler. -/
  | operator
  /-- Someone asked the operator service, which logs how it went. -/
  | service
deriving DecidableEq, Repr

/-- A task that fires the trigger of an entry. -/
structure Driver where
  scheduler : Nat
  serial : Nat
  job : Job
  trigger : Trigger
  /-- The fire time it waits for. -/
  awaited : Option Instant := none
  /-- It was told to stop. -/
  stopping : Bool := false

/-- Where a shutdown is. -/
inductive DrainPhase
  /-- Until these drivers have ended. -/
  | drivers (tasks : List Nat)
  /-- Until these ticks have ended. -/
  | ticks (tasks : List Nat)

/-- A shutdown. -/
structure Drain where
  scheduler : Nat
  /-- Whether it waits for ticks. -/
  waits : Bool
  phase : DrainPhase

/-- What a task does. -/
inductive Activity
  | drive (driver : Driver)
  | run (scheduler : Nat) (run : Run) (caller : Caller)
  | acquire (acquisition : Acquisition)
  | drain (drain : Drain)

/-- What a task waits for. -/
inductive TaskState
  /-- Nothing: its time has come. -/
  | due
  /-- Nothing: another task made it ready. -/
  | ready
  /-- A moment. -/
  | sleeping (moment : Nat)
  /-- The end of another task. -/
  | blocked
deriving DecidableEq, Repr

/-- A task. -/
structure Task where
  number : Nat
  activity : Activity
  state : TaskState
  /-- A caller waits for it in the foreground. -/
  foreground : Bool

/-- How a task ended. -/
inductive TaskEnd
  | run (outcome : RunOutcome)
  | acquired (answer : Bool)
  | stopped
  | driverDone

/-- A fleet: what its schedulers share, the schedulers by number, the tasks in the order in which
    they last began to wait or became ready, and the ends of tasks that nobody has collected yet. -/
structure Fleet (σ : Type) where
  world : World σ
  schedulers : List Scheduler
  tasks : List Task := []
  ends : List (Nat × TaskEnd) := []
  nextNumber : Nat := 0

namespace Fleet

variable {σ : Type}

/-! ## Parts -/

/-- Changes the shared world. -/
def changeWorld (f : World σ → World σ) (fleet : Fleet σ) : Fleet σ :=
  { fleet with world := f fleet.world }

/-- Changes a scheduler. -/
def changeScheduler (i : Nat) (f : Scheduler → Scheduler) (fleet : Fleet σ) : Fleet σ :=
  { fleet with schedulers := fleet.schedulers.modify i f }

/-- The task with a number. -/
def task? (number : Nat) (fleet : Fleet σ) : Option Task :=
  fleet.tasks.find? (fun t => t.number = number)

/-- The task with a number has not ended. -/
def isLive (number : Nat) (fleet : Fleet σ) : Bool := fleet.tasks.any (fun t => t.number = number)

/-- Takes a task away. -/
def dropTask (number : Nat) (fleet : Fleet σ) : Fleet σ :=
  { fleet with tasks := fleet.tasks.filter (fun t => t.number ≠ number) }

/-- Adds a task at the end, under the next number. -/
def addTask (activity : Activity) (foreground : Bool) (fleet : Fleet σ) : Fleet σ :=
  { fleet with
    tasks := fleet.tasks ++ [⟨fleet.nextNumber, activity, .ready, foreground⟩]
    nextNumber := fleet.nextNumber + 1 }

/-- Puts a task that waits now at the end. -/
def park (task : Task) (activity : Activity) (state : TaskState) (fleet : Fleet σ) : Fleet σ :=
  let rest := fleet.dropTask task.number
  { rest with tasks := rest.tasks ++ [{ task with activity := activity, state := state }] }

/-- Whether an activity waits for the end of a task. -/
def Activity.awaits (number : Nat) : Activity → Bool
  | .drain d => match d.phase with
    | .drivers tasks => tasks.contains number
    | .ticks tasks => tasks.contains number
  | _ => false

/-- Makes the tasks that satisfy a condition ready and puts them at the end, in order. -/
def wake (condition : Task → Bool) (fleet : Fleet σ) : Fleet σ :=
  let woken := (fleet.tasks.filter condition).map (fun t => { t with state := .ready })
  { fleet with tasks := fleet.tasks.filter (fun t => !condition t) ++ woken }

/-- Ends a task: its end is kept and whoever waits for it becomes ready. -/
def finish (number : Nat) (taskEnd : TaskEnd) (fleet : Fleet σ) : Fleet σ :=
  let rest := fleet.dropTask number
  ({ rest with ends := rest.ends ++ [(number, taskEnd)] }).wake (fun t =>
    Activity.awaits number t.activity)

/-! ## Ticks -/

/-- The end of a task that ran into a panic. -/
def panicked? (taskEnd : TaskEnd) : Bool :=
  match taskEnd with
  | .run .panicked => true
  | _ => false

/-- Logs that collected ticks panicked. -/
def logPanics (ends : List (Nat × TaskEnd)) (w : World σ) : World σ :=
  (ends.filter (fun e => panicked? e.2)).foldl (fun w _ =>
    w.emit .error "Scheduled tick panicked" []) w

/-- Collects the ends of tasks: the ends, and the fleet without them. -/
def collect (numbers : List Nat) (fleet : Fleet σ) : List (Nat × TaskEnd) × Fleet σ :=
  (fleet.ends.filter (fun e => numbers.contains e.1),
    { fleet with ends := fleet.ends.filter (fun e => !numbers.contains e.1) })

/-- Collects the ticks of a scheduler that have ended. -/
def collectTicks (i : Nat) (fleet : Fleet σ) : Fleet σ :=
  match fleet.schedulers[i]? with
  | none => fleet
  | some s =>
    let (ended, fleet) := fleet.collect s.inFlight
    let gone := ended.map (·.1)
    (fleet.changeScheduler i (fun s =>
      { s with inFlight := s.inFlight.filter (fun n => !gone.contains n) })).changeWorld
      (logPanics ended)

/-- Starts a tick of a job as a task of its own. -/
def startTick (i : Nat) (job : Job) (fleet : Fleet σ) : Fleet σ :=
  match fleet.schedulers[i]? with
  | none => fleet
  | some s =>
    let number := fleet.nextNumber
    ((fleet.collectTicks i).addTask (.run i ⟨s.guard, job, .scheduled, .entering⟩ .timer)
      false).changeScheduler i
      (fun s => { s with inFlight := s.inFlight ++ [number] })

/-! ## Drivers -/

/-- Announces the next fire time of a driver and waits for it; a driver without one ends. -/
def driveOn (task : Task) (d : Driver) (fleet : Fleet σ) : Fleet σ :=
  let announce (next : Option Instant) : Fleet σ :=
    fleet.changeScheduler d.scheduler (fun s =>
      { s with entries := Entry.announce d.serial next s.entries })
  match d.trigger.next? d.awaited fleet.world.now with
  | none =>
    ((announce none).changeWorld
      (·.emit .info "Trigger has no further fire times" [("job_id", .str d.job.id)])).finish
        task.number .driverDone
  | some next =>
    let fleet := (announce (some next)).changeWorld
      (·.emit .debug "Next tick scheduled"
        [("job_id", .str d.job.id), ("next_run_time", .str (Timestamp.display next))])
    if d.stopping then
      (fleet.changeWorld (·.emit .debug "Shutdown signal received, stopping trigger"
        [("job_id", .str d.job.id)])).finish task.number .driverDone
    else
      fleet.park task (.drive { d with awaited := some next })
        (.sleeping (fleet.world.momentOf next))

/-- Takes a driver to its next wait: it begins, stops, or fires. -/
def stepDriver (task : Task) (d : Driver) (fleet : Fleet σ) : Fleet σ :=
  match d.awaited with
  | none =>
    if Run.unreadable d.job fleet.world then fleet.finish task.number .driverDone
    else fleet.driveOn task d
  | some _ =>
    if d.stopping then
      (fleet.changeWorld (·.emit .debug "Shutdown signal received, stopping trigger"
        [("job_id", .str d.job.id)])).finish task.number .driverDone
    else (fleet.startTick d.scheduler d.job).driveOn task d

/-! ## Shutdown -/

/-- Goes on with the ticks of a shutdown: logs those that panicked and ends when none is left. -/
def stepTicks (task : Task) (d : Drain) (ticks : List Nat) (fleet : Fleet σ) : Fleet σ :=
  let (ended, fleet) := fleet.collect ticks
  let fleet := fleet.changeWorld (logPanics ended)
  let left := ticks.filter fleet.isLive
  if left.isEmpty then
    (fleet.changeWorld (·.emit .info "Scheduler stopped" [])).finish task.number .stopped
  else fleet.park task (.drain { d with phase := .ticks left }) .blocked

/-- Takes a shutdown to its next wait. -/
def stepDrain (task : Task) (d : Drain) (fleet : Fleet σ) : Fleet σ :=
  match d.phase with
  | .ticks ticks => fleet.stepTicks task d ticks
  | .drivers drivers =>
    let left := drivers.filter fleet.isLive
    if !left.isEmpty then fleet.park task (.drain { d with phase := .drivers left }) .blocked
    else
      let ticks := ((fleet.schedulers[d.scheduler]?).map (·.inFlight)).getD []
      let fleet := (fleet.collect drivers).2.changeScheduler d.scheduler
          (fun s => { s with inFlight := [] })
      let count : List (String × Json) := [("in_flight", .ofNat ticks.length)]
      if d.waits then
        (fleet.changeWorld (·.emit .info "Waiting for in-flight executions" count)).stepTicks
          task d ticks
      else
        let fleet := fleet.changeWorld (fun w =>
          (w.emit .info "Abandoning in-flight executions" count).emit .info "Scheduler stopped" [])
        (fleet.collect ticks).2.finish task.number .stopped

/-! ## Steps -/

/-- Logs how a run on behalf of the service went. -/
def logReply (caller : Caller) (outcome : RunOutcome) (w : World σ) : World σ :=
  match caller, outcome with
  | .service, .completed _ => w.emit .info "Manual trigger handled" [("status", .str "Completed")]
  | .service, .skipped => w.emit .info "Manual trigger handled" [("status", .str "AlreadyRunning")]
  | _, _ => w

/-- Puts a run on as far as it got: it is ready to go on, waits, or has ended. -/
def afterRun (task : Task) (i : Nat) (caller : Caller) (got : Progress × World σ)
    (fleet : Fleet σ) : Fleet σ :=
  match got with
  | (.going r, w) => { fleet with world := w }.park task (.run i r caller) .ready
  | (.waiting moment r, w) =>
    { fleet with world := w }.park task (.run i r caller) (.sleeping moment)
  | (.ended outcome, w) =>
    { fleet with world := logReply caller outcome w }.finish task.number (.run outcome)

variable [LockStore σ]

/-- Takes a task to its next wait or its end. -/
def stepTask (task : Task) (fleet : Fleet σ) : Fleet σ :=
  match task.activity with
  | .drive d => fleet.stepDriver task d
  | .drain d => fleet.stepDrain task d
  | .run i r caller => fleet.afterRun task i caller (r.step fleet.world)
  | .acquire a =>
    match a.step fleet.world with
    | (.retryAt moment, a, w) => { fleet with world := w }.park task (.acquire a) (.sleeping moment)
    | (.acquired, _, w) => { fleet with world := w }.finish task.number (.acquired true)
    | (.refused, _, w) => { fleet with world := w }.finish task.number (.acquired false)

/-- Takes the task with a number to its next wait or its end. -/
def step (number : Nat) (fleet : Fleet σ) : Fleet σ :=
  match fleet.task? number with
  | some task => fleet.stepTask task
  | none => fleet

/-- Makes the next piece of the task with a number: of a run one piece, of any other task the whole
    turn. -/
def advance (number : Nat) (fleet : Fleet σ) : Fleet σ :=
  match fleet.task? number with
  | some task =>
    match task.activity with
    | .run i r caller => fleet.afterRun task i caller (r.advance fleet.world)
    | _ => fleet.stepTask task
  | none => fleet

/-! ## Turns -/

/-- A task that can run now. -/
def Task.isReady (t : Task) : Bool := t.state = .due || t.state = .ready

/-- The task whose turn it is: a foreground task whose time has come, the one with the lowest number
    first; then the others in order; then a foreground task that others made ready. -/
def next? (fleet : Fleet σ) : Option Nat :=
  let due := fleet.tasks.filter (fun t => t.foreground && t.state = .due)
  match (due.map (·.number)).min? with
  | some number => some number
  | none =>
    match fleet.tasks.find? (fun t => !t.foreground && Task.isReady t) with
    | some t => some t.number
    | none => (fleet.tasks.find? Task.isReady).map (·.number)

/-- Runs ready tasks, at most `fuel` steps, until none is ready. -/
def settleIn : Nat → Fleet σ → Fleet σ
  | 0, fleet => fleet
  | fuel + 1, fleet =>
    match fleet.next? with
    | some number => settleIn fuel (fleet.step number)
    | none => fleet

/-- Runs ready tasks until none is ready.  A task becomes ready at most once for each other one
    within one moment, and only drivers start tasks, one each. -/
def settle (fleet : Fleet σ) :
    Fleet σ := fleet.settleIn ((2 * fleet.tasks.length + 2) * (2 * fleet.tasks.length + 2))

/-! ## Time -/

/-- The first moment at which a task wakes. -/
def nextMoment? (fleet : Fleet σ) : Option Nat :=
  (fleet.tasks.filterMap (fun t => match t.state with
    | .sleeping moment => some moment
    | _ => none)).min?

/-- Lets time pass to a moment; tasks that sleep no longer than that become due. -/
def passTo (moment : Nat) (fleet : Fleet σ) : Fleet σ :=
  { fleet with
    world := { fleet.world with elapsed := max fleet.world.elapsed moment }
    tasks := fleet.tasks.map (fun t => match t.state with
      | .sleeping m => if m ≤ moment then { t with state := .due } else t
      | _ => t) }

end Fleet

end JobFleet
