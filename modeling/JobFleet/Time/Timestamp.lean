/-
  JobFleet.Time.Timestamp: instants as text.

  `write` gives the RFC 3339 form in UTC with the fewest of 0, 3, 6 or 9 fraction digits that lose
  nothing, `display` the spaced form of log lines.  A year outside 0 to 9999 carries a sign.
  `read?` takes a date, `T`, `t` or a space, a time with up to nine fraction digits that count, and
  an offset; numbers may be shorter than their full width, and blanks may stand between the parts.
-/
import JobFleet.Time.Instant
import JobFleet.Text.Blank
import JobFleet.Text.Decimal

namespace JobFleet.Time.Timestamp

open JobFleet.Text

/-! ## Writing -/

/-- A year with at least four digits, and a sign when it has more or is negative. -/
def yearText (year : Int) : String :=
  if 0 ≤ year ∧ year ≤ 9999 then padded 4 year.natAbs
  else (if year < 0 then "-" else "+") ++ padded 4 year.natAbs

/-- A date as year, month and day. -/
def dateText (d : Date) :
    String := yearText d.year ++ "-" ++ padded 2 d.month ++ "-" ++ padded 2 d.day

/-- A fraction of a second in 0, 3, 6 or 9 digits. -/
def fractionText (nanos : Nat) : String :=
  if nanos = 0 then ""
  else if nanos % 1000000 = 0 then "." ++ padded 3 (nanos / 1000000)
  else if nanos % 1000 = 0 then "." ++ padded 6 (nanos / 1000)
  else "." ++ padded 9 nanos

/-- A time of day with the fraction of its second. -/
def timeText (w : WallTime) (nanos : Nat) : String :=
  padded 2 w.hour ++ ":" ++ padded 2 w.minute ++ ":" ++ padded 2 w.second ++ fractionText nanos

/-- The RFC 3339 text of an instant in UTC. -/
def write (t : Instant) : String :=
  let wall := WallTime.ofSeconds t.seconds
  dateText wall.date ++ "T" ++ timeText wall t.subsecond ++ "Z"

/-- The text of an instant in log lines. -/
def display (t : Instant) : String :=
  let wall := WallTime.ofSeconds t.seconds
  dateText wall.date ++ " " ++ timeText wall t.subsecond ++ " UTC"

/-! ## Reading -/

/-- The digits at the start of a text, at most `width` of them, and the rest. -/
def digitRun (width : Nat) (cs : List Char) : List Char × List Char :=
  let run := (cs.takeWhile isDigit).take width
  (run, cs.drop run.length)

/-- A number of one to `width` digits after blanks. -/
def number? (width : Nat) (cs : List Char) : Option (Nat × List Char) :=
  let (run, rest) := digitRun width (trimStart cs)
  (readNat? run).map (fun n => (n, rest))

/-- A year: up to four digits, or any number of them after a sign. -/
def year? (cs : List Char) : Option (Int × List Char) :=
  match trimStart cs with
  | '-' :: rest =>
    let (run, rest) := digitRun rest.length rest
    (readNat? run).map (fun n => (-(n : Int), rest))
  | '+' :: rest =>
    let (run, rest) := digitRun rest.length rest
    (readNat? run).map (fun n => ((n : Int), rest))
  | rest => (number? 4 rest).map (fun r => ((r.1 : Int), r.2))

/-- One given character. -/
def expect (c : Char) (cs : List Char) : Option (List Char) :=
  match cs with
  | d :: rest => if d = c then some rest else none
  | [] => none

/-- The nanoseconds of a fraction, when one follows; digits after the ninth are dropped. -/
def fraction? (cs : List Char) : Option (Nat × List Char) :=
  match cs with
  | '.' :: rest =>
    let (run, after) := digitRun 9 rest
    (readNat? run).map (fun n => (n * Nat.pow 10 (9 - run.length), after.dropWhile isDigit))
  | _ => some (0, cs)

/-- Two digits, the first of them at most `top`. -/
def twoDigits? (top : Nat) (cs : List Char) : Option (Nat × List Char) :=
  match cs with
  | a :: b :: rest => do
    let tens ← digit? a
    let ones ← digit? b
    if tens ≤ top then some (10 * tens + ones, rest) else none
  | _ => none

/-- Whether three characters spell `UTC` in either case. -/
def spellsUTC (a b c : Char) : Bool := a.toUpper == 'U' && b.toUpper == 'T' && c.toUpper == 'C'

/-- An offset from UTC in seconds: `Z`, `UTC`, or a sign, two digits of hours and two of minutes. -/
def offset? (cs : List Char) : Option (Int × List Char) :=
  let signed (negative : Bool) (rest : List Char) : Option (Int × List Char) := do
    let (hours, rest) ← twoDigits? 9 rest
    let (minutes, rest) ← twoDigits? 5 (rest.dropWhile (fun c => c == ':' || isBlank c))
    let seconds : Int := 3600 * hours + 60 * minutes
    if seconds < 86400 then some (if negative then -seconds else seconds, rest) else none
  match cs with
  | 'Z' :: rest => some (0, rest)
  | 'z' :: rest => some (0, rest)
  | '+' :: rest => signed false rest
  | '-' :: rest => signed true rest
  | '\u2212' :: rest => signed true rest
  | a :: b :: c :: rest => if spellsUTC a b c then some (0, rest) else none
  | _ => none

/-- Reads a timestamp; there is none for a date or a time that does not exist. -/
def read? (s : String) : Option Instant := do
  let (year, cs) ← year? s.toList
  let cs ← expect '-' (trimStart cs)
  let (month, cs) ← number? 2 cs
  let cs ← expect '-' (trimStart cs)
  let (day, cs) ← number? 2 cs
  let cs ← match cs with
    | 'T' :: rest => some rest
    | 't' :: rest => some rest
    | ' ' :: rest => some rest
    | _ => none
  let (hour, cs) ← number? 2 cs
  let cs ← expect ':' (trimStart cs)
  let (minute, cs) ← number? 2 cs
  let cs ← expect ':' (trimStart cs)
  let (second, cs) ← number? 2 cs
  let (nanos, cs) ← fraction? cs
  let (offset, cs) ← offset? (trimStart cs)
  let date : Date := ⟨year, month, day⟩
  if (trimStart cs).isEmpty ∧ date.isValid ∧ hour ≤ 23 ∧ minute ≤ 59 ∧ second ≤ 59 ∧
      Instant.firstYear ≤ year ∧ year ≤ Instant.lastYear then
    (Instant.ofSeconds ((WallTime.mk date hour minute second).seconds - offset)).later? nanos
  else none

end JobFleet.Time.Timestamp
