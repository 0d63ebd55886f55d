/-
  JobFleet.Fleet.Guard: a run of a job under its lock.

  A run takes its lock, runs the body, gives the lock back and then has its outcome.  Without the
  lock the body does not run and the outcome is `skipped`.  `Run.advance` is one piece of a run: an
  attempt, the beginning of the body, its end with its record, or the release.  Between two pieces
  anything can happen elsewhere.  `Run.step` makes the pieces that follow each other at once: it
  takes a run from one wait to the next.
-/
import JobFleet.Fleet.Execution
import JobFleet.Fleet.Lock

namespace JobFleet

/-! ## Runs -/

/-- What a scheduler brings to every run. -/
structure Guard where
  lock : Lock
  /-- The time to live of a lock whose job declares none, in milliseconds. -/
  defaultTtl : Nat
  /-- How long a run waits for its lock, in milliseconds; without it there is one attempt. -/
  acquireTimeout : Option Nat
  sink : Sink

/-- The time to live of the lock of a job, in milliseconds. -/
def Guard.ttlOf (g : Guard) (job : Job) : Nat := job.definition.lockTtlMillis.getD g.defaultTtl

/-- How a run ended. -/
inductive RunOutcome
  /-- The body ran. -/
  | completed (result : RunResult)
  /-- The lock was held elsewhere. -/
  | skipped
  /-- The run panicked before it took its lock. -/
  | panicked

/-- Where a run is. -/
inductive RunPhase
  /-- Before the first attempt. -/
  | entering
  /-- Between two attempts. -/
  | polling (deadline : Option Nat) (attempts : Nat)
  /-- With the lock, taken at the given moment; the body has not begun. -/
  | holding (since : Nat)
  /-- While the body runs. -/
  | executing (since : Nat) (execution : Execution)
  /-- After body and sink, with the lock still to be given back; without a result the run broke
      outside its body. -/
  | releasing (since : Nat) (result : Option RunResult)

/-- A run of a job under its lock. -/
structure Run where
  guard : Guard
  job : Job
  kind : RunKind
  phase : RunPhase

/-- How far a run gets. -/
inductive Progress
  /-- It goes on at once. -/
  | going (run : Run)
  /-- It waits until the given moment. -/
  | waiting (moment : Nat) (run : Run)
  /-- It has ended. -/
  | ended (outcome : RunOutcome)

/-- What the identity of a job is followed by in the name of the lock of its manual runs. -/
def manualSuffix : String := "_manual"

/-- The name of the lock of a job's runs of a kind. -/
def RunKind.lockId (k : RunKind) (job : String) : String :=
  match k with
  | .scheduled => job
  | .manual => job ++ manualSuffix

namespace Run

/-- The name of the lock of a run. -/
def lockId (r : Run) : String := r.kind.lockId r.job.id

/-- The key of the lock of a run. -/
def key (r : Run) : String := r.guard.lock.key r.lockId

/-- Reading the declaration of a job panics now. -/
def unreadable {σ : Type} (job : Job) (w : World σ) : Bool :=
  job.unreadableWhileLocked && w.lockTaken

variable {σ : Type} [LockStore σ]

/-! ## Pieces -/

/-- Ends a run whose lock was not free. -/
def skip (r : Run) (w : World σ) : Progress × World σ :=
  (.ended .skipped,
    (w.emit .info "Skipped, already running elsewhere" []).measure
      (·.raise (.skipped r.job.id r.kind)))

/-- Makes the attempt with the given number. -/
def attempt (r : Run) (deadline : Option Nat) (number : Nat) (w : World σ) : Progress × World σ :=
  match r.guard.lock.attempt r.lockId (r.guard.ttlOf r.job) deadline number w with
  | (.acquired, w) => (.going { r with phase := .holding w.elapsed }, w)
  | (.refused, w) => r.skip w
  | (.retryAt moment, w) => (.waiting moment { r with phase := .polling deadline number }, w)

/-- Begins the body, with the lock held. -/
def begin (r : Run) (since : Nat) (w : World σ) : Progress × World σ :=
  if unreadable r.job w then (.going { r with phase := .releasing since none }, w)
  else
    let (x, w) := Execution.begin r.job w
    let begun := { r with phase := .executing since x }
    (if 0 < x.sleep then .waiting (w.elapsed + x.sleep) begun else .going begun, w)

/-- Ends the body and hands over its record. -/
def finish (r : Run) (since : Nat) (x : Execution) (w : World σ) : Progress × World σ :=
  let (result, w) := x.finish r.job r.guard.sink w
  (.going { r with phase := .releasing since (some result) }, w)

/-- Gives the lock back and ends a run. -/
def complete (r : Run) (result : Option RunResult) (w : World σ) : Progress × World σ :=
  let w := r.guard.lock.release r.lockId w
  match result with
  | some result => (.ended (.completed result), w)
  | none => (.ended (.completed .brokenWrapper), w.emit .error "Execution wrapper panicked" [])

/-- Makes the next piece of a run. -/
def advance (r : Run) (w : World σ) : Progress × World σ :=
  match r.phase with
  | .entering =>
    if unreadable r.job w then (.ended .panicked, w)
    else r.attempt (Lock.deadline? r.guard.acquireTimeout w.elapsed) 1 w
  | .polling deadline attempts => r.attempt deadline (attempts + 1) w
  | .holding since => r.begin since w
  | .executing since x => r.finish since x w
  | .releasing _ result => r.complete result w

/-! ## Steps -/

/-- Makes the next piece, and at most `fuel` more while the run goes on at once. -/
def stepIn : Nat → Run → World σ → Progress × World σ
  | 0, r, w => r.advance w
  | fuel + 1, r, w =>
    match r.advance w with
    | (.going r, w) => stepIn fuel r w
    | stopped => stopped

/-- Takes a run to its next wait or its end: after an attempt there are at most three pieces
    more. -/
def step (r : Run) (w : World σ) : Progress × World σ := r.stepIn 3 w

end Run

/-! ## Waiting for a lock alone -/

/-- An attempt to take a lock that is not followed by a run. -/
structure Acquisition where
  lock : Lock
  lockId : String
  ttlMillis : Nat
  deadline : Option Nat
  attempts : Nat

/-- Makes the next attempt: the verdict and the acquisition after it. -/
def Acquisition.step {σ : Type} [LockStore σ] (a : Acquisition) (w : World σ) :
    Lock.Verdict × Acquisition × World σ :=
  let number := a.attempts + 1
  let (verdict, w) := a.lock.attempt a.lockId a.ttlMillis a.deadline number w
  (verdict, { a with attempts := number }, w)

end JobFleet
