/-
  JobFleet.Schedule.Trigger: what makes a job fire.

  A declared schedule names a cron expression or an interval; `Trigger.ofSchedule` accepts exactly
  one of them.  An interval fires one period after it is started and stays on that cadence: fire
  times that passed unseen are skipped, never made up for.  Only when the calendar ends is there no
  next fire time.
-/
import JobFleet.Schedule.Cron
import JobFleet.Time.ZoneTable

namespace JobFleet

/-! ## Declared schedules -/

/-- A schedule as declared: a cron expression, an interval in seconds, or by mistake neither or
    both. -/
structure Schedule where
  cron : Option String
  interval : Option UInt64
deriving DecidableEq, Repr

namespace Schedule

open JobFleet.Text JobFleet.Time

/-- A schedule by cron expression. -/
def ofCron (expression : String) : Schedule := ⟨some expression, none⟩

/-- A schedule with a fixed period. -/
def every (seconds : UInt64) : Schedule := ⟨none, some seconds⟩

/-- The longest interval a job may declare: 365 days. -/
def maxIntervalSeconds : Nat := 365 * 24 * 60 * 60

/-! ## Intervals -/

/-- A trigger with a fixed period in seconds. -/
structure IntervalTrigger where
  seconds : Nat
deriving DecidableEq, Repr

namespace IntervalTrigger

/-- The longest period in seconds: its milliseconds fit a signed 64-bit word. -/
def longestPeriod : Nat := (wordSize 63 - 1) / 1000

/-- The most periods that one answer may step over: their number fits a signed 32-bit word. -/
def mostSkipped : Int := (wordSize 31 : Int) - 1

/-- The period in nanoseconds, if it is positive and not too long. -/
def period? (i : IntervalTrigger) : Option Int :=
  if 0 < i.seconds ∧ i.seconds ≤ longestPeriod then some (i.seconds * nanosPerSecond) else none

/-- One period after `now` the first time; afterwards one period after `previous`, or where that has
    passed the first later instant on the same cadence that is after `now`. -/
def next? (i : IntervalTrigger) (previous : Option Instant) (now : Instant) : Option Instant := do
  let period ← i.period?
  match previous with
  | none => now.later? period
  | some before =>
    let next ← before.later? period
    if now ≤ next then some next
    else
      let missed := (now.nanos - next.nanos) / period + 1
      if missed ≤ mostSkipped then next.later? (period * missed) else none

/-- The text of the trigger in listings: hours, minutes and seconds. -/
def display (i : IntervalTrigger) : String :=
  "interval[" ++ toString (i.seconds / 3600) ++ ":" ++ padded 2 (i.seconds / 60 % 60) ++ ":" ++
    padded 2 (i.seconds % 60) ++ "]"

end IntervalTrigger

/-! ## Triggers -/

/-- What makes a job fire. -/
inductive Trigger
  | cron (expression : CronTrigger)
  | interval (period : IntervalTrigger)
deriving Repr

namespace Trigger

/-- The trigger of a declared schedule, evaluated in `zone`. -/
def ofSchedule (job : String) (schedule : Schedule) (zone : Zone) : Except ConfigError Trigger :=
  match schedule.cron, schedule.interval with
  | some expression, none => (CronTrigger.parse expression zone).map .cron
  | none, some seconds =>
    if 1 ≤ seconds.toNat ∧ seconds.toNat ≤ maxIntervalSeconds then .ok (.interval ⟨seconds.toNat⟩)
    else .error (.invalidInterval job)
  | none, none => .error (.missingSchedule job)
  | some _, some _ => .error (.ambiguousSchedule job)

/-- The next fire time, given the last one when there was one. -/
def next? (t : Trigger) (previous : Option Instant) (now : Instant) : Option Instant :=
  match t with
  | .cron expression =>
    expression.nextAfter? (match previous with
      | some before => max before now
      | none => now)
  | .interval i => i.next? previous now

/-- The text of the trigger in listings. -/
def display : Trigger → String
  | .cron expression => expression.display
  | .interval i => i.display

/-- The fire times that `count` questions in a row give, each asked `lag` milliseconds after the
    last answer; ends with the first question that has no answer. -/
def fireTimes (t : Trigger) (lag : Int) : Nat → Option Instant → Instant → List (Option Instant)
  | 0, _, _ => []
  | count + 1, previous, now =>
    match t.next? previous now with
    | none => [none]
    | some next => some next :: t.fireTimes lag count (some next) ⟨next.nanos + lag * nanosPerMilli⟩

end Trigger

/-- The zone with the given name. -/
def zoneNamed (name : String) (zones : ZoneDatabase := .tabled) : Except ConfigError Zone :=
  match zones.find? name with
  | some zone => .ok zone
  | none => .error (.invalidTimezone name)

end Schedule

end JobFleet
