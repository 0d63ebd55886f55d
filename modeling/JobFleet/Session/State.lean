/-
  JobFleet.Session.State: a session with a fleet over one lock store and one ledger.

  Most steps are answered at once; `begin` gives their answer or says what to wait for.
-/
import JobFleet.Session.Step
import JobFleet.Session.Trial

namespace JobFleet.Session

open JobFleet.Time

/-! ## Sessions -/

/-- What the answer of a call that may wait is made from. -/
inductive Call
  /-- A run, answered with its outcome. -/
  | outcome
  /-- A run for the service. -/
  | reply (job : String)
  /-- An attempt to take a lock. -/
  | acquired
  /-- A shutdown, answered with whether the scheduler runs. -/
  | stopped (on : Nat)

/-- What a step that is not answered yet waits for. -/
inductive Pending
  /-- Nothing: it was answered at the given moment. -/
  | answered (moment : Nat) (answer : Answer)
  | call (task : Nat) (call : Call)
  /-- The clock: it has to show the given moment. -/
  | clock (moment : Nat)
  | all (steps : List Pending)
  | background (name : String)

/-- A session. -/
structure State where
  zones : ZoneDatabase
  fleet : Fleet FaultyStore
  /-- The settings of each scheduler. -/
  settings : List SchedulerSettings
  /-- The steps in the background. -/
  background : List (String × Pending) := []

namespace State

/-- The milliseconds since the beginning. -/
def elapsed (s : State) : Nat := s.fleet.world.elapsed

/-- Answers now. -/
def reply (answer : Answer) (s : State) : Pending × State := (.answered s.elapsed answer, s)

/-- Answers now, with a new fleet. -/
def replyWith (answer : Answer) (fleet : Fleet FaultyStore) (s : State) : Pending × State :=
  (.answered s.elapsed answer, { s with fleet := fleet })

/-- Answers now, with a new world. -/
def replyIn (answer : Answer) (w : World FaultyStore) (s : State) : Pending × State :=
  s.replyWith answer { s.fleet with world := w }

/-- Answers now, with a new ledger. -/
def replyLedger (answer : Answer) (ledger : Ledger) (s : State) : Pending × State :=
  s.replyIn answer { s.fleet.world with ledger := ledger }

/-- The lock of a scheduler. -/
def lockOf (i : Nat) (s : State) : Lock :=
  ((s.fleet.schedulers[i]?).map (·.lock)).getD ⟨"", .scheduler i, 0⟩

/-! ## Groups of steps -/

/-- Orders rows by start, job, end and message. -/
def rowBefore (a b : Row) : Bool :=
  if a.startedAt ≠ b.startedAt then a.startedAt < b.startedAt
  else if a.job ≠ b.job then a.job < b.job
  else if a.finishedAt ≠ b.finishedAt then a.finishedAt < b.finishedAt
  else decide (a.message ≤ b.message)

/-- The retention job to register with a scheduler. -/
def cleanupJob (i : Nat) (given : Option (UInt32 × String)) (s : State) :
    Except ConfigError CleanupJob :=
  match given with
  | some (days, cron) =>
    CleanupJob.build days cron (((s.fleet.schedulers[i]?).map (·.config.zone)).getD Zone.utc)
  | none => CleanupJob.ofSettings ((s.settings[i]?).getD {}) s.zones

/-- Begins a run. -/
def beginRun (i : Nat) (id : String) (kind : RunKind) (caller : Caller) (call : Call)
    (refusal : ManagerError → Refusal) (foreground : Bool) (s : State) : Pending × State :=
  match s.fleet.runNow i id kind caller foreground with
  | .error e => s.reply (.refused (refusal e))
  | .ok (task, fleet) => (.call task call, { s with fleet := fleet })

/-- Enters a report into the ledger as the sink of the schedulers does. -/
def sinkReport (report : Report) (s : State) : Pending × State :=
  let (answer, ledger) := s.fleet.world.ledger.create s.fleet.world.now report
  s.replyLedger (Answer.ofExcept .sink (fun _ => .done) answer) ledger

/-! ## Beginning a step -/

mutual

/-- Begins a step: its answer, or what it waits for. -/
def begin (foreground : Bool) (s : State) : Step → Pending × State
  | .register i job =>
    let (answer, fleet) := s.fleet.register i job
    s.replyWith (Answer.ofExcept .configuration .truth answer) fleet
  | .registerAll i jobs =>
    let (count, fleet) := s.fleet.registerAll i jobs
    s.replyWith (.number count) fleet
  | .registerCleanup i given =>
    match s.cleanupJob i given with
    | .error e => s.reply (.refused (.configuration e))
    | .ok job =>
      let (answer, fleet) := s.fleet.register i (.ofCleanup job)
      s.replyWith (Answer.ofExcept .configuration .truth answer) fleet
  | .start i =>
    let fleet := s.fleet.start i
    s.replyWith (.truth (fleet.isRunning i)) fleet
  | .shutdown i waits =>
    match s.fleet.shutdown i waits foreground with
    | (none, fleet) => s.replyWith (.truth (fleet.isRunning i)) fleet
    | (some task, fleet) => (.call task (.stopped i), { s with fleet := fleet })
  | .pause i id =>
    let (answer, fleet) := s.fleet.pause i id
    s.replyWith (Answer.ofExcept .manager (fun _ => .done) answer) fleet
  | .resume i id =>
    let (answer, fleet) := s.fleet.resume i id
    s.replyWith (Answer.ofExcept .manager (fun _ => .done) answer) fleet
  | .remove i id =>
    let (answer, fleet) := s.fleet.remove i id
    s.replyWith (Answer.ofExcept .manager (fun _ => .done) answer) fleet
  | .run i id kind => s.beginRun i id kind .operator .outcome .manager foreground
  | .info i id => s.reply (Answer.ofOption .info (s.fleet.info? i id))
  | .infos i => s.reply (.infos (s.fleet.infos i))
  | .ids i => s.reply (.texts (s.fleet.ids i))
  | .running i => s.reply (.truth (s.fleet.isRunning i))
  | .config i => s.reply (Answer.ofOption (fun c => .config c.config) s.fleet.schedulers[i]?)
  | .statuses i =>
    let (answer, fleet) := s.fleet.statuses i
    s.replyWith (Answer.ofExcept .service .statuses answer) fleet
  | .status i id =>
    let (answer, fleet) := s.fleet.status i id
    s.replyWith (Answer.ofExcept .service .status answer) fleet
  | .serviceRun i id =>
    s.beginRun i id .manual .service (.reply id) (fun e => .service (.ofManager e)) foreground
  | .servicePage id page limit =>
    s.reply (Answer.ofExcept .service .page (Fleet.history id page limit s.fleet.world.ledger))
  | .serviceRecent hours =>
    s.reply (Answer.ofExcept .service .rows
      (Fleet.recentRuns s.fleet.world.now hours s.fleet.world.ledger))
  | .servicePause i id =>
    let (answer, fleet) := s.fleet.pauseJob i id
    s.replyWith (Answer.ofExcept .service .status answer) fleet
  | .serviceResume i id =>
    let (answer, fleet) := s.fleet.resumeJob i id
    s.replyWith (Answer.ofExcept .service .statusOnly answer) fleet
  | .serviceCleanup days =>
    let (answer, ledger) := Fleet.cleanRuns s.fleet.world.now days s.fleet.world.ledger
    s.replyLedger (Answer.ofExcept .service (fun n => .number n) answer) ledger
  | .acquire i id ttl timeout =>
    let (task, fleet) := s.fleet.acquireLock i id ttl timeout foreground
    (.call task .acquired, { s with fleet := fleet })
  | .release i id => s.replyIn .done ((s.lockOf i).release id s.fleet.world)
  | .extend i id extra =>
    let (answer, w) := (s.lockOf i).extend id extra s.fleet.world
    s.replyIn (.truth answer) w
  | .isLocked i id =>
    s.reply (Answer.ofExcept .lockStore .truth ((s.lockOf i).isLocked id s.fleet.world))
  | .remaining i id =>
    s.reply (Answer.ofExcept .lockStore (Answer.ofOption .number)
      ((s.lockOf i).remaining id s.fleet.world))
  | .lockKey i id => s.reply (.text ((s.lockOf i).key id))
  | .holder key =>
    s.reply (Answer.ofOption .holder (s.fleet.world.locks.memory.get s.elapsed key).1)
  | .setKey key value seconds =>
    let (answer, w) := s.fleet.world.setIfAbsent key (.foreign value) seconds
    s.replyIn (Answer.ofExcept .lockStore .truth answer) w
  | .deleteKey key value =>
    let (answer, w) := s.fleet.world.compareAndDelete key (.foreign value)
    s.replyIn (Answer.ofExcept .lockStore .truth answer) w
  | .isPresent key => s.reply (Answer.ofExcept .lockStore .truth (s.fleet.world.isPresent key))
  | .secondsLeft key => s.reply (Answer.ofExcept .lockStore .number (s.fleet.world.secondsLeft key))
  | .extendKey key value seconds =>
    let (answer, w) := s.fleet.world.compareAndExtend key (.foreign value) seconds
    s.replyIn (Answer.ofExcept .lockStore .truth answer) w
  | .failStore operations =>
    let locks := { s.fleet.world.locks with failing := operations }
    s.replyIn .done { s.fleet.world with locks := locks }
  | .create report =>
    let (answer, ledger) := s.fleet.world.ledger.create s.fleet.world.now report
    s.replyLedger (Answer.ofExcept .ledger .row answer) ledger
  | .insert report createdAt =>
    let ledger := s.fleet.world.ledger
    let row := Row.ofReport ledger.freshId report createdAt
    s.replyLedger .done { ledger.insert row with nextId := ledger.nextId + 1 }
  | .sink report => s.sinkReport report
  | .latest id =>
    s.reply (Answer.ofExcept .ledger (Answer.ofOption .row) (s.fleet.world.ledger.latest? id))
  | .history id limit offset =>
    s.reply (Answer.ofExcept .ledger .rows (s.fleet.world.ledger.list id limit offset))
  | .count id => s.reply (Answer.ofExcept .ledger .number (s.fleet.world.ledger.count id))
  | .recent hours =>
    s.reply (Answer.ofExcept .ledger .rows (s.fleet.world.ledger.recent s.fleet.world.now hours))
  | .countFailed id hours =>
    s.reply (Answer.ofExcept .ledger .number
      (s.fleet.world.ledger.countFailed id s.fleet.world.now hours))
  | .cleanup days =>
    let (answer, ledger) := s.fleet.world.ledger.cleanup s.fleet.world.now days
    s.replyLedger (Answer.ofExcept .ledger (fun n => .number n) answer) ledger
  | .rows => s.reply (.rows s.fleet.world.ledger.rows)
  | .sortedRows => s.reply (.rows (s.fleet.world.ledger.rows.mergeSort rowBefore))
  | .failLedger operations =>
    s.replyLedger .done { s.fleet.world.ledger with failing := operations }
  | .advance ms => (.clock (s.elapsed + ms), s)
  | .tally script => s.reply (.tally (s.fleet.world.tally script))
  | .metrics => s.reply (.metrics s.fleet.world.metrics)
  | .events severity =>
    s.replyIn (.events (eventsUpTo severity s.fleet.world)) { s.fleet.world with log := [] }
  | .join steps =>
    let (pendings, s) := beginAll foreground s steps
    (.all pendings, s)
  | .spawn name step =>
    let (pending, s) := begin false s step
    let others := s.background.filter (fun entry => entry.1 ≠ name)
    { s with background := others ++ [(name, pending)] }.reply .done
  | .await name => (.background name, s)
  | .unreadable => s.reply (.refused .unreadable)

/-- Begins several steps in order. -/
def beginAll (foreground : Bool) (s : State) : List Step → List Pending × State
  | [] => ([], s)
  | step :: rest =>
    let (pending, s) := begin foreground s step
    let (pendings, s) := beginAll foreground s rest
    (pending :: pendings, s)

end

end State

end JobFleet.Session
