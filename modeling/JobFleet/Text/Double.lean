/-
  JobFleet.Text.Double: doubles written in decimal.

  `readDouble?` takes an optional sign and then `inf`, `infinity` or `nan` in either case, or digits
  with at most one point and an optional exponent.  At least one digit stands before or after the
  point.  The result is the double nearest to what is written.
-/
import JobFleet.Text.Decimal

namespace JobFleet.Text

/-! ## Values -/

/-- A power of ten beyond which every number with the given digit count is infinite. -/
def largestPower : Int := 310

/-- A power of ten below which every number with the given digit count is zero. -/
def smallestPower : Int := -345

/-- The double nearest to `significand · 10 ^ power`. -/
def nearestDouble (significand : Nat) (power : Int) : Float :=
  let magnitude : Int := power + (toString significand).length
  if significand = 0 ∨ magnitude < smallestPower then 0
  else if largestPower < magnitude then 1 / 0
  else Float.ofScientific significand (power < 0) power.natAbs

/-- The double with the digits before and after its point and its exponent. -/
def doubleOfDigits (whole fraction : List Char) (power : Int) : Float :=
  nearestDouble ((readNat? (whole ++ fraction)).getD 0) (power - fraction.length)

/-! ## Reading -/

/-- The number after an exponent mark: an optional sign and digits. -/
def readExponent? : List Char → Option Int
  | '-' :: rest => (readNat? rest).map (fun n => -(n : Int))
  | '+' :: rest => (readNat? rest).map Int.ofNat
  | rest => (readNat? rest).map Int.ofNat

/-- The digits at the start of a text and the rest. -/
def digitPrefix (cs : List Char) : List Char × List Char :=
  (cs.takeWhile isDigit, cs.dropWhile isDigit)

/-- A number without sign: digits, a point among them or not, and an exponent or not. -/
def readMagnitude? (cs : List Char) : Option Float :=
  let (whole, rest) := digitPrefix cs
  let (fraction, rest) := match rest with
    | '.' :: rest => digitPrefix rest
    | rest => ([], rest)
  if whole.isEmpty ∧ fraction.isEmpty then none
  else match rest with
    | [] => some (doubleOfDigits whole fraction 0)
    | c :: rest =>
      if c = 'e' ∨ c = 'E' then (readExponent? rest).map (doubleOfDigits whole fraction) else none

/-- A double in decimal. -/
def readDouble? (cs : List Char) : Option Float :=
  let (negative, rest) := match cs with
    | '-' :: rest => (true, rest)
    | '+' :: rest => (false, rest)
    | rest => (false, rest)
  let word := String.ofList (rest.map Char.toLower)
  let magnitude :=
    if word = "inf" ∨ word = "infinity" then some (1 / 0)
    else if word = "nan" then some (0 / 0)
    else readMagnitude? rest
  magnitude.map (fun x => if negative then -x else x)

end JobFleet.Text
