/-
  JobFleet.Schedule.Field: one field of a cron expression.

  A field is a comma-separated list of parts.  A part is `*`, a value or a range of values, with an
  optional `/` and a step; it stands for the values from its first to its last in steps.
  `parseField` reads a field against the bounds and names that its place allows, part by part from
  the left, and reports the first fault.
-/
import JobFleet.Text.Blank
import JobFleet.Text.Decimal

namespace JobFleet.Schedule

open JobFleet.Text

/-! ## Places -/

/-- The place of a field in a cron expression. -/
inductive Place
  | minute
  | hour
  | day
  | month
  | weekday
deriving DecidableEq, Repr

namespace Place

/-- The name of the place in messages. -/
def name : Place → String
  | .minute => "minute"
  | .hour => "hour"
  | .day => "day"
  | .month => "month"
  | .weekday => "day_of_week"

/-- The least value. -/
def low : Place → Nat
  | .minute => 0
  | .hour => 0
  | .day => 1
  | .month => 1
  | .weekday => 0

/-- The greatest value; 7 is Sunday like 0. -/
def high : Place → Nat
  | .minute => 59
  | .hour => 23
  | .day => 31
  | .month => 12
  | .weekday => 7

/-- The greatest value once Sunday is 0. -/
def top : Place → Nat
  | .weekday => 6
  | place => place.high

/-- Every value, in ascending order. -/
def values (place : Place) :
    List Nat := (List.range (place.top + 1 - place.low)).map (· + place.low)

/-- The names that stand for the values from `low` on. -/
def names : Place → List String
  | .month => ["JAN", "FEB", "MAR", "APR", "MAY", "JUN", "JUL", "AUG", "SEP", "OCT", "NOV", "DEC"]
  | .weekday => ["SUN", "MON", "TUE", "WED", "THU", "FRI", "SAT"]
  | _ => []

end Place

/-! ## Faults -/

/-- What is wrong with a field. -/
inductive FieldFault
  /-- Two commas in a row, or one at an end. -/
  | emptyElement
  /-- The text after the slash is no number. -/
  | badStep (token : String)
  /-- The step is zero. -/
  | zeroStep
  /-- A value is neither a number nor a name. -/
  | notANumber (token : String)
  /-- A number is out of bounds. -/
  | outside (value low high : Nat)
  /-- A range runs backwards. -/
  | reversed (first last : Nat)
deriving DecidableEq, Repr

/-- The wording of a fault. -/
def FieldFault.message : FieldFault → String
  | .emptyElement => "empty list element"
  | .badStep token => "'" ++ token ++ "' is not a valid step"
  | .zeroStep => "step must be greater than 0"
  | .notANumber token => "'" ++ token ++ "' is not a number"
  | .outside value low high =>
    toString value ++ " is outside " ++ toString low ++ "-" ++ toString high
  | .reversed first last =>
    "range start " ++ toString first ++ " is greater than end " ++ toString last

/-! ## Parts -/

/-- The values `first`, `first + step`, ... up to `last`. -/
structure Part where
  first : Nat
  last : Nat
  step : Nat
deriving DecidableEq, Repr

/-- The part stands for the value. -/
def Part.contains (p : Part) (v : Nat) : Bool :=
  decide (p.first ≤ v ∧ v ≤ p.last ∧ (v - p.first) % p.step = 0)

/-- Whether two texts differ at most in the case of ASCII letters. -/
def sameLetters (a b : List Char) : Bool := a.map Char.toLower == b.map Char.toLower

/-- The value that a name stands for. -/
def named? (place : Place) (token : List Char) : Option Nat :=
  (place.names.findIdx? (fun name => sameLetters name.toList token)).map (· + place.low)

/-- The bound of the numbers in an expression: they fit an unsigned 32-bit word. -/
def numberBound : Nat := wordSize 32

/-- Reads a value: a name, or a number in bounds. -/
def parseValue (place : Place) (token : List Char) : Except FieldFault Nat :=
  match named? place token with
  | some v => .ok v
  | none =>
    match readUnsigned? numberBound token with
    | none => .error (.notANumber (String.ofList token))
    | some v =>
      if v < place.low ∨ place.high < v then .error (.outside v place.low place.high) else .ok v

/-- Reads the step after a slash. -/
def parseStep (token : List Char) : Except FieldFault Nat :=
  match readUnsigned? numberBound token with
  | none => .error (.badStep (String.ofList token))
  | some 0 => .error .zeroStep
  | some step => .ok step

/-- Reads the part before a slash: its first and last value.  A single value with a step runs to the
    greatest. -/
def parseRange (place : Place) (stepped : Bool) (range : List Char) :
    Except FieldFault (Nat × Nat) :=
  if range = ['*'] then .ok (place.low, place.high)
  else match cutFirst '-' range with
    | some (lower, upper) => do
      let first ← parseValue place lower
      let last ← parseValue place upper
      if last < first then .error (.reversed first last) else .ok (first, last)
    | none => do
      let v ← parseValue place range
      .ok (v, if stepped then place.high else v)

/-- Reads one part; the step is checked before the range. -/
def parsePart (place : Place) (part : List Char) : Except FieldFault Part :=
  if part = [] then .error .emptyElement
  else match cutFirst '/' part with
    | some (range, token) => do
      let step ← parseStep token
      let (first, last) ← parseRange place true range
      .ok ⟨first, last, step⟩
    | none => do
      let (first, last) ← parseRange place false part
      .ok ⟨first, last, 1⟩

/-! ## Fields -/

/-- Reads the parts of a field from the left. -/
def parseField (place : Place) (raw : List Char) : Except FieldFault (List Part) :=
  (pieces (· == ',') raw).mapM (parsePart place)

/-- The values that a field stands for, in ascending order. -/
def fieldValues (place : Place) (parts : List Part) : List Nat :=
  (List.range (place.high + 1)).filter (fun v => parts.any (·.contains v))

/-- The days of the week that a field stands for, from 0 for Sunday to 6. -/
def weekdayValues (parts : List Part) : List Nat :=
  (List.range 7).filter fun d => (fieldValues .weekday parts).any (fun v => v % 7 == d)

/-! ## Laws -/

/-- A value of a field belongs to one of its parts and is in bounds. -/
theorem mem_fieldValues {place : Place} {parts : List Part} {v : Nat} :
    v ∈ fieldValues place parts ↔ v ≤ place.high ∧ ∃ p ∈ parts, p.contains v = true := by
  simp only [fieldValues, List.mem_filter, List.mem_range, List.any_eq_true, Nat.lt_succ_iff]

end JobFleet.Schedule
