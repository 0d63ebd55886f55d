/-
  JobFleet.Fleet.Execution: one run of a body, with its log, its counters and its record.

  `begin` starts the body and tells how long it waits, `finish` takes its ending, turns it into a
  result, counts it and hands the record to the sink.  Whatever the body and the sink do, there is a
  result.
-/
import JobFleet.Fleet.World
import JobFleet.Job.Body

namespace JobFleet

open JobFleet.Time

/-! ## Sinks -/

/-- Who receives the record of every finished attempt. -/
inductive Sink
  /-- Nobody. -/
  | none
  /-- The ledger. -/
  | ledger
  /-- A recorder, which keeps the record and then succeeds, fails, or panics. -/
  | recorder (ending : Ending)

/-- How a sink took a record. -/
inductive SinkAnswer
  | taken
  | failed (text : String)
  | panicked (text : String)
deriving DecidableEq, Repr

/-- Hands a record to a sink. -/
def Sink.take {σ : Type} (s : Sink) (report : Report) (w : World σ) : SinkAnswer × World σ :=
  match s with
  | .none => (.taken, w)
  | .ledger =>
    let (answer, after) := w.ledger.create w.now report
    let w := { w with ledger := after }
    match answer with
    | .ok _ => (.taken, w)
    | .error e => (.failed e.message, w)
  | .recorder ending =>
    let w := { w with recorded := report :: w.recorded }
    match ending with
    | .returned _ => (.taken, w)
    | .failed error => (.failed error.headline, w)
    | .panicked payload => (.panicked payload.reason, w)

/-! ## Bodies -/

/-- A body that has begun. -/
structure Execution where
  /-- When it began, in milliseconds. -/
  beganAt : Nat
  /-- How long it waits, in milliseconds. -/
  sleep : Nat
  ending : Ending

variable {σ : Type}

/-- The tally after another run began. -/
def Tally.entered (t : Tally) (sleep : Nat) : Tally :=
  { invocations := t.invocations + 1
    waiting := if 0 < sleep then t.waiting + 1 else t.waiting
    overlapped := t.overlapped || decide (0 < t.waiting) }

/-- The end of a cleanup: the number of rows deleted, or why none could be. -/
def cleanupEnding (days : UInt32) (w : World σ) : Ending × World σ :=
  if .cleanup ∈ w.ledger.failing then (.failed ⟨Ledger.refusal.message, []⟩, w)
  else if (windowStart? w.now (secondsPerDay * days.toNat)).isNone then
    (.panicked (.text "`DateTime - TimeDelta` overflowed"), w)
  else
    match w.ledger.cleanup w.now days.toNat with
    | (.error e, _) => (.failed ⟨e.message, []⟩, w)
    | (.ok deleted, ledger) =>
      let counts : List (String × Json) :=
        [("deleted_count", .ofNat deleted), ("retention_days", .ofNat days.toNat)]
      let data : Json := .obj [("deleted", .ofNat deleted), ("retention_days", .ofNat days.toNat)]
      (.returned ⟨true, "Deleted " ++ toString deleted ++ " execution logs", some data⟩,
        World.emit .info "Execution logs cleaned up" counts { w with ledger := ledger })

/-- Starts a body: how long it waits and how it will end. -/
def Body.start (b : Body) (w : World σ) : Nat × Ending × World σ :=
  match b with
  | .scripted script runs =>
    let tally := w.tally script
    let run := scriptedRun runs tally.invocations
    (run.sleepMillis, run.ending, w.setTally script (tally.entered run.sleepMillis))
  | .cleanup days =>
    let (ending, w) := cleanupEnding days w
    (0, ending, w)

/-- Ends the wait of a body. -/
def Body.stop (b : Body) (sleep : Nat) (w : World σ) : World σ :=
  match b with
  | .scripted script _ =>
    let tally := w.tally script
    if 0 < sleep then w.setTally script { tally with waiting := tally.waiting - 1 } else w
  | .cleanup _ => w

/-! ## Runs -/

/-- A number of milliseconds in seconds. -/
def secondsOfMillis (ms : Nat) : Float :=
  Float.ofNat (ms / 1000) + Float.ofNat (ms % 1000 * 1000000) / 1000000000

/-- Begins a run of a job. -/
def Execution.begin (job : Job) (w : World σ) : Execution × World σ :=
  let w := w.emit .info "Job execution started" []
  let (sleep, ending, after) := job.body.start w
  (⟨w.elapsed, sleep, ending⟩, after)

/-- Logs the result of a run. -/
def logResult (result : RunResult) (seconds : Float) (w : World σ) : World σ :=
  if result.success then
    w.emit .info "Job execution succeeded"
      [("duration_seconds", .float seconds), ("outcome", .str result.message)]
  else
    w.emit .error "Job execution failed"
      [("duration_seconds", .float seconds), ("outcome", .str result.message),
       ("error", .str (result.error.getD ""))]

/-- The record of a run that ends now. -/
def Execution.report (x : Execution) (job : Job) (result : RunResult) (w : World σ) : Report where
  job := job.id
  startedAt := w.start.plusMillis x.beganAt
  finishedAt := w.now
  durationSeconds := secondsOfMillis (w.elapsed - x.beganAt)
  success := result.success
  message := result.message
  errorTrace := result.error
  resultData := result.data

/-- Logs how a sink took a record. -/
def logSink (answer : SinkAnswer) (w : World σ) : World σ :=
  match answer with
  | .taken => w
  | .failed text => w.emit .warn "Failed to record job execution" [("error", .str text)]
  | .panicked text => w.emit .warn "Execution log sink panicked" [("error", .str text)]

/-- Ends a run of a job now. -/
def Execution.finish (x : Execution) (job : Job) (sink : Sink) (w : World σ) :
    RunResult × World σ :=
  let w := job.body.stop x.sleep w
  let result := RunResult.ofEnding x.ending
  let seconds := secondsOfMillis (w.elapsed - x.beganAt)
  let w := (logResult result seconds w).measure (·.recordRun job.id result.success seconds)
  let (answer, w) := sink.take (x.report job result w) w
  (result, logSink answer w)

end JobFleet
