/-
  JobFleet.Schedule.Engine: the engine behind cron expressions.

  The engine reads an expression into a pattern, the values that are allowed in each place, and
  searches the pattern by wall time in a zone, year by year; a wall time that clocks skip or show
  twice is passed over.  Its expressions have six fields: the seconds come first, and the days of
  the week count from 1.  A `Request` is what the program asks of it, either every value of a place
  or some, and `readListed` reads the texts of requests and no others.
-/
import JobFleet.Schedule.Field
import JobFleet.Time.Zone

namespace JobFleet.Schedule

open JobFleet.Text JobFleet.Time

/-! ## Patterns -/

/-- The values allowed in each place. -/
structure Pattern where
  minutes : List Nat
  hours : List Nat
  days : List Nat
  months : List Nat
  weekdays : List Nat
deriving DecidableEq, Repr

namespace Pattern

/-- The pattern allows the date. -/
def allowsDate (p : Pattern) (d : Date) : Bool :=
  p.months.contains d.month && p.days.contains d.day && p.weekdays.contains d.weekday

/-- The first year of the search. -/
def firstYear : Int := 1970

/-- The last year of the search. -/
def lastYear : Int := 2100

/-- The years from `year` to the last one. -/
def yearsFrom (year : Int) : List Int :=
  (List.range (lastYear + 1 - year).toNat).map (fun (i : Nat) => year + i)

/-- The dates of a month that the pattern allows. -/
def datesOf (p : Pattern) (year : Int) (month : Nat) : List Date :=
  ((List.range (monthLength year month)).map (fun i => Date.mk year month (i + 1))).filter
    p.allowsDate

/-- The first whole minute of the date, not before `bound` if that lies on the date, that the
    pattern allows and that a clock in the zone shows exactly once. -/
def firstOn (p : Pattern) (z : Zone) (bound : WallTime) (date : Date) : Option Int :=
  p.hours.findSome? fun hour =>
    if date = bound.date ∧ hour < bound.hour then none
    else p.minutes.findSome? fun minute =>
      if date = bound.date ∧ hour = bound.hour ∧
          (minute < bound.minute ∨ (minute = bound.minute ∧ 0 < bound.second)) then none
      else z.once? (WallTime.mk date hour minute 0).seconds

/-- The first time in the year that is not before `bound`. -/
def firstIn (p : Pattern) (z : Zone) (bound : WallTime) (year : Int) : Option Int :=
  p.months.findSome? fun month =>
    if year = bound.date.year ∧ month < bound.date.month then none
    else (p.datesOf year month).findSome? fun date =>
      if year = bound.date.year ∧ month = bound.date.month ∧ date.day < bound.date.day then none
      else p.firstOn z bound date

/-- The bound moved into the first year of the search when it lies before it; month, day and time
    stay. -/
def clampYear (bound : WallTime) : WallTime :=
  { bound with date := { bound.date with year := max bound.date.year firstYear } }

/-- The first second since the epoch that the pattern allows, by wall time not before `bound`. -/
def firstFrom (p : Pattern) (z : Zone) (bound : WallTime) : Option Int :=
  let bound := clampYear bound
  (yearsFrom bound.date.year).findSome? (p.firstIn z bound)

end Pattern

/-! ## Requests -/

/-- What is asked for in one place. -/
inductive Asked
  | every
  | listed (values : List Nat)
deriving DecidableEq, Repr

namespace Asked

/-- The values at a place that are asked for. -/
def values (place : Place) : Asked → List Nat
  | .every => place.values
  | .listed values => values

/-- The text of a field that asks for them, each written `shift` higher. -/
def text (shift : Nat) : Asked → List Char
  | .every => ['*']
  | .listed values => [','].intercalate (values.map fun v => (toString (v + shift)).toList)

end Asked

/-- What is asked for in each place. -/
structure Request where
  minute : Asked
  hour : Asked
  day : Asked
  month : Asked
  weekday : Asked
deriving DecidableEq, Repr

namespace Request

/-- The pattern that is asked for. -/
def pattern (r : Request) : Pattern :=
  ⟨r.minute.values .minute, r.hour.values .hour, r.day.values .day, r.month.values .month,
    r.weekday.values .weekday⟩

/-- The expression that asks for it, at second 0 of its minutes. -/
def text (r : Request) : List Char :=
  [' '].intercalate [['0'], r.minute.text 0, r.hour.text 0, r.day.text 0, r.month.text 0,
    r.weekday.text 1]

end Request

/-! ## Reading -/

/-- Reads a field: a star, or values in bounds. -/
def readAsked (place : Place) (shift : Nat) (text : List Char) : Except String Asked :=
  if text = ['*'] then .ok .every
  else match (pieces (· == ',') text).mapM readNat? with
    | none => .error ("Not a list of numbers: " ++ String.ofList text)
    | some numbers =>
      if numbers.all (fun n => decide (place.low + shift ≤ n ∧ n ≤ place.top + shift)) then
        .ok (.listed (numbers.map (· - shift)))
      else .error ("Out of bounds: " ++ String.ofList text)

/-- Reads the expression of a request. -/
def readListed (text : List Char) : Except String Pattern :=
  match words text with
  | [['0'], minute, hour, day, month, weekday] => do
    let request : Request :=
      ⟨← readAsked .minute 0 minute, ← readAsked .hour 0 hour, ← readAsked .day 0 day,
        ← readAsked .month 0 month, ← readAsked .weekday 1 weekday⟩
    .ok request.pattern
  | _ => .error ("Not a request: " ++ String.ofList text)

end JobFleet.Schedule
