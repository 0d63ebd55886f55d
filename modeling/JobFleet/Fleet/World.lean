/-
  JobFleet.Fleet.World: what the schedulers of a fleet share.

  Time is counted in whole milliseconds from a start and only moves forward.  The lock store is any
  one with the interface `LockStore`; the ledger, the counters and the log are kept here as well, so
  that every step of a scheduler is a function from worlds to worlds.
-/
import JobFleet.Ledger.Memory
import JobFleet.Lock.Store
import JobFleet.Telemetry.Event
import JobFleet.Telemetry.Metrics
import JobFleet.Text.Decimal

namespace JobFleet

open JobFleet.Time

/-- How often a script was run. -/
structure Tally where
  invocations : Nat := 0
  /-- The runs that wait now. -/
  waiting : Nat := 0
  /-- A run began while another one waited. -/
  overlapped : Bool := false
deriving DecidableEq, Repr

/-- What the schedulers of a fleet share. -/
structure World (σ : Type) where
  /-- The time at the beginning. -/
  start : Instant
  /-- The milliseconds since the beginning. -/
  elapsed : Nat := 0
  locks : σ
  /-- The last lock call that set or deleted something left a lock taken. -/
  lockTaken : Bool := false
  ledger : Ledger := {}
  /-- What a recording sink was handed, newest first. -/
  recorded : List Report := []
  metrics : Metrics := {}
  /-- The log, newest first. -/
  log : List Event := []
  tallies : List (String × Tally) := []

namespace World

variable {σ : Type}

/-! ## Time -/

/-- The time now. -/
def now (w : World σ) : Instant := w.start.plusMillis w.elapsed

/-- The moment, in milliseconds from the beginning, at which an instant has come. -/
def momentOf (w : World σ) (t : Instant) : Nat :=
  ((t.nanos - w.start.nanos + nanosPerMilli - 1) / nanosPerMilli).toNat

/-! ## Log and counters -/

/-- Logs an event. -/
def emit (severity : Severity) (message : String) (fields : List (String × Json))
    (w : World σ) : World σ :=
  { w with log := ⟨severity, message, fields⟩ :: w.log }

/-- Counts something. -/
def measure (change : Metrics → Metrics) (w : World σ) : World σ :=
  { w with metrics := change w.metrics }

/-- The tally of a script. -/
def tally (script : String) (w : World σ) : Tally := (w.tallies.lookup script).getD {}

/-- Changes the tally of a script. -/
def setTally (script : String) (t : Tally) (w : World σ) : World σ :=
  { w with tallies := Metrics.alter script t (fun _ => t) w.tallies }

/-! ## Lock store -/

variable [LockStore σ]

/-- Gives a key without a value a holder. -/
def setIfAbsent (key : String) (holder : Holder) (seconds : Nat) (w : World σ) :
    Except LockStoreError Bool × World σ :=
  let (answer, locks) := LockStore.setIfAbsent w.elapsed key holder seconds w.locks
  let taken := match answer with
    | .ok true => true
    | _ => w.lockTaken
  (answer, { w with locks := locks, lockTaken := taken })

/-- Removes a key that has the given holder. -/
def compareAndDelete (key : String) (holder : Holder) (w : World σ) :
    Except LockStoreError Bool × World σ :=
  let (answer, locks) := LockStore.compareAndDelete w.elapsed key holder w.locks
  (answer, { w with locks := locks, lockTaken := false })

/-- Gives a key that has the given holder more seconds. -/
def compareAndExtend (key : String) (holder : Holder) (seconds : Nat) (w : World σ) :
    Except LockStoreError Bool × World σ :=
  let (answer, locks) := LockStore.compareAndExtend w.elapsed key holder seconds w.locks
  (answer, { w with locks := locks })

/-- Whether a key has a value. -/
def isPresent (key : String) (w : World σ) : Except LockStoreError Bool :=
  LockStore.isPresent w.elapsed key w.locks

/-- The seconds left to a key. -/
def secondsLeft (key : String) (w : World σ) : Except LockStoreError Int :=
  LockStore.secondsLeft w.elapsed key w.locks

end World

end JobFleet
