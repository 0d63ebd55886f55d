/-
  JobFleet.Toml.Scalar: numbers, truth values and dates in a TOML document.

  A scalar is one run of characters without blanks, commas and brackets; a date may be joined to a
  time by a blank.  Whole numbers fit a signed 64-bit word.  Dates and times have no JSON value of
  their own and are kept as text in normal form.
-/
import JobFleet.Json.Value
import JobFleet.Text.Double
import JobFleet.Time.Calendar

namespace JobFleet.Toml

open JobFleet.Text JobFleet.Time

/-! ## Numbers -/

/-- Digits with single underscores between them, the underscores taken out. -/
def digitGroups? (digit : Char → Bool) : List Char → Option (List Char)
  | [] => none
  | [c] => if digit c then some [c] else none
  | c :: '_' :: rest => if digit c then (digitGroups? digit rest).map (c :: ·) else none
  | c :: rest => if digit c then (digitGroups? digit rest).map (c :: ·) else none

/-- The value of a digit in a base up to sixteen. -/
def digitIn? (base : Nat) (c : Char) : Option Nat :=
  let value :=
    if isDigit c then some (c.toNat - '0'.toNat)
    else if 'a' ≤ c ∧ c ≤ 'f' then some (c.toNat - 'a'.toNat + 10)
    else if 'A' ≤ c ∧ c ≤ 'F' then some (c.toNat - 'A'.toNat + 10)
    else none
  value.filter (· < base)

/-- A number in another base. -/
def basedNumber? (base : Nat) (cs : List Char) : Option Int := do
  let digits ← digitGroups? (fun c => (digitIn? base c).isSome) cs
  let n := digits.foldl (fun n c => base * n + (digitIn? base c).getD 0) 0
  if n < wordSize 63 then some n else none

/-- The sign of a text, whether it is negative, and the rest. -/
def signed : List Char → Bool × List Char
  | '-' :: rest => (true, rest)
  | '+' :: rest => (false, rest)
  | rest => (false, rest)

/-- A whole decimal part: no zero before another digit. -/
def wholePart? (cs : List Char) : Option (List Char) :=
  match cs with
  | '0' :: _ :: _ => none
  | _ => digitGroups? isDigit cs

/-- A whole number. -/
def integer? : List Char → Option Int
  | '0' :: 'x' :: rest => basedNumber? 16 rest
  | '0' :: 'o' :: rest => basedNumber? 8 rest
  | '0' :: 'b' :: rest => basedNumber? 2 rest
  | cs => do
    let (negative, rest) := signed cs
    let n ← readNat? (← wholePart? rest)
    if negative then if n ≤ wordSize 63 then some (-(n : Int)) else none
    else if n < wordSize 63 then some n else none

/-- An exponent mark. -/
def isExponentMark (c : Char) : Bool := c == 'e' || c == 'E'

/-- A double: a whole part with a fraction, an exponent or both, or `inf` or `nan`.  It is not
    positively infinite when it is written in digits. -/
def double? (cs : List Char) : Option Float := do
  let (negative, rest) := signed cs
  if rest = ['i', 'n', 'f'] then return if negative then -1 / 0 else 1 / 0
  if rest = ['n', 'a', 'n'] then return 0 / 0
  let mantissa := rest.takeWhile (!isExponentMark ·)
  let whole ← wholePart? (mantissa.takeWhile (· != '.'))
  let fraction ← match mantissa.dropWhile (· != '.') with
    | [] => some []
    | _ :: digits => digitGroups? isDigit digits
  let power ← match rest.dropWhile (!isExponentMark ·) with
    | [] => if fraction.isEmpty then none else some 0
    | _ :: exponent =>
      let (low, digits) := signed exponent
      let n ← readNat? (← digitGroups? isDigit digits)
      some (if low then -(n : Int) else n)
  let magnitude := doubleOfDigits whole fraction power
  let value := if negative then -magnitude else magnitude
  if value == 1 / 0 then none else some value

/-! ## Dates and times -/

/-- A number of exactly two digits. -/
def twoDigits? (a b : Char) : Option Nat := readNat? [a, b]

/-- The text of a date that exists, and the rest. -/
def date? : List Char → Option (String × List Char)
  | y :: z :: v :: w :: '-' :: a :: b :: '-' :: c :: d :: rest => do
    let year ← readNat? [y, z, v, w]
    let month ← twoDigits? a b
    let day ← twoDigits? c d
    if (Date.mk year month day).isValid then
      some (padded 4 year ++ "-" ++ padded 2 month ++ "-" ++ padded 2 day, rest)
    else none
  | _ => none

/-- The digits of a fraction that count: at most nine, without zeros at the end. -/
def fractionDigits (run : List Char) : List Char :=
  ((run.take 9).reverse.dropWhile (· == '0')).reverse

/-- The text of a time of day, and the rest. -/
def time? : List Char → Option (String × List Char)
  | a :: b :: ':' :: c :: d :: ':' :: e :: f :: rest => do
    let hour ← twoDigits? a b
    let minute ← twoDigits? c d
    let second ← twoDigits? e f
    if 23 < hour ∨ 59 < minute ∨ 60 < second then none
    let clock := padded 2 hour ++ ":" ++ padded 2 minute ++ ":" ++ padded 2 second
    match rest with
    | '.' :: rest =>
      let run := rest.takeWhile isDigit
      if run.isEmpty then none
      let kept := fractionDigits run
      some (clock ++ (if kept.isEmpty then "" else "." ++ String.ofList kept),
        rest.dropWhile isDigit)
    | _ => some (clock, rest)
  | _ => none

/-- The text of an offset from UTC. -/
def offset? : List Char → Option String
  | ['Z'] => some "Z"
  | ['z'] => some "Z"
  | [sign, a, b, ':', c, d] => do
    let hour ← twoDigits? a b
    let minute ← twoDigits? c d
    if 23 < hour ∨ 59 < minute ∨ (sign ≠ '+' ∧ sign ≠ '-') then none
    let shown := if sign = '-' ∧ 0 < 60 * hour + minute then "-" else "+"
    some (shown ++ padded 2 hour ++ ":" ++ padded 2 minute)
  | _ => none

/-- The text of a time that may have an offset. -/
def timeWithOffset? (cs : List Char) : Option String := do
  let (time, rest) ← time? cs
  if rest.isEmpty then return time
  return time ++ (← offset? rest)

/-- The text of a date, a time, or both. -/
def moment? (cs : List Char) : Option String :=
  match date? cs with
  | some (date, []) => some date
  | some (date, sep :: rest) =>
    if sep = 'T' ∨ sep = 't' ∨ sep = ' ' then
      (timeWithOffset? rest).map (date ++ "T" ++ ·) else none
  | none =>
    match time? cs with
    | some (time, []) => some time
    | _ => none

/-! ## Scalars -/

/-- A character of a scalar. -/
def isScalarChar (c : Char) : Bool := c.isAlphanum || c == '_' || c == '-' || c == '+' ||
    c == '.' || c == ':'

/-- A run of scalar characters, with the time that follows a date after one blank. -/
def scalarRun (cs : List Char) : List Char × List Char :=
  let run := cs.takeWhile isScalarChar
  let rest := cs.dropWhile isScalarChar
  match date? run, rest with
  | some (_, []), ' ' :: after =>
    match time? (after.takeWhile isScalarChar) with
    | some _ => (run ++ ' ' :: after.takeWhile isScalarChar, after.dropWhile isScalarChar)
    | none => (run, rest)
  | _, _ => (run, rest)

/-- The value of a run of scalar characters. -/
def scalar? (run : List Char) : Option Json :=
  if run = "true".toList then some (.bool true)
  else if run = "false".toList then some (.bool false)
  else match integer? run with
    | some n => some (.int n)
    | none =>
      match double? run with
      | some x => some (.float x)
      | none => (moment? run).map .str

end JobFleet.Toml
