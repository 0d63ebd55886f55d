/-
  JobFleet.Schedule.Cron: cron expressions and the times at which they fire.

  An expression fires at the whole minutes whose minute, hour, month and day lie in its fields.
  When both the day of the month and the day of the week are restricted, a day that matches either
  of them will do, and the expression is kept as two patterns; otherwise it is one.  The fields are
  read and checked here, and the patterns are asked of the engine.
-/
import JobFleet.Error
import JobFleet.Schedule.Engine

namespace JobFleet.Schedule

open JobFleet.Text JobFleet.Time

/-! ## Expressions -/

/-- A checked cron expression: the texts of its fields, its zone, and the patterns that make it
    fire. -/
structure CronTrigger where
  minute : String
  hour : String
  day : String
  month : String
  weekday : String
  zone : Zone
  patterns : List Pattern
deriving Repr

/-- A field restricts its place unless its text starts with a star. -/
def isRestricted (raw : List Char) : Bool := raw.head? != some '*'

/-- Reads the field at a place and names place and text in the error. -/
def fieldAt (place : Place) (raw : List Char) : Except ConfigError (List Part) :=
  match parseField place raw with
  | .ok parts => .ok parts
  | .error fault => .error (.invalidCronField place.name (String.ofList raw) fault.message)

/-- What the engine is asked for in the place of a field with these values: a lone star stays a
    star. -/
def askFor (raw : List Char) (values : List Nat) : Asked := if raw = ['*'] then .every
    else .listed values

/-- Has the engine read a request for an expression. -/
def askEngine (read : List Char → Except String Pattern) (expression : String) (r : Request) :
    Except ConfigError Pattern :=
  (read r.text).mapError (.invalidCronExpression expression)

namespace CronTrigger

/-- Reads an expression of five fields separated by white space. -/
def parse (expression : String) (zone : Zone)
    (read : List Char → Except String Pattern := readListed) :
    Except ConfigError CronTrigger :=
  match words expression.toList with
  | [minute, hour, day, month, weekday] => do
    let minutes := askFor minute (fieldValues .minute (← fieldAt .minute minute))
    let hours := askFor hour (fieldValues .hour (← fieldAt .hour hour))
    let days := askFor day (fieldValues .day (← fieldAt .day day))
    let months := askFor month (fieldValues .month (← fieldAt .month month))
    let weekdays := askFor weekday (weekdayValues (← fieldAt .weekday weekday))
    let requests : List Request :=
      if isRestricted day && isRestricted weekday then
        [⟨minutes, hours, days, months, .every⟩, ⟨minutes, hours, .every, months, weekdays⟩]
      else [⟨minutes, hours, days, months, weekdays⟩]
    let patterns ← requests.mapM (askEngine read expression)
    .ok {
      minute := String.ofList minute
      hour := String.ofList hour
      day := String.ofList day
      month := String.ofList month
      weekday := String.ofList weekday
      zone := zone
      patterns := patterns }
  | fields => .error (.cronFieldCount expression fields.length)

/-- The earliest of some instants. -/
def earliest : List Instant → Option Instant
  | [] => none
  | t :: rest => some (rest.foldl min t)

/-- The first fire time after `reference`, by wall time at least one second later. -/
def nextAfter? (c : CronTrigger) (reference : Instant) : Option Instant :=
  let bound := c.zone.reading ⟨reference.nanos + nanosPerSecond⟩
  earliest (c.patterns.filterMap fun p => (p.firstFrom c.zone bound).map Instant.ofSeconds)

/-- The text of the trigger in listings. -/
def display (c : CronTrigger) : String :=
  "cron[minute='" ++ c.minute ++ "', hour='" ++ c.hour ++ "', day='" ++ c.day ++
    "', month='" ++ c.month ++
    "', day_of_week='" ++ c.weekday ++ "'] (" ++ c.zone.name ++ ")"

end CronTrigger

end JobFleet.Schedule
