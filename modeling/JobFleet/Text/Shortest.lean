/-
  JobFleet.Text.Shortest: the shortest decimal that reads back as a given double.

  A finite double is `± mantissa · 2 ^ exponent`.  The reals that round to it form an interval,
  whose ends belong to it when the mantissa is even.  `shortestDecimal` tries decimal grids from
  coarse to fine; on each, only the two grid points around the value can be the nearest ones in the
  interval.

  Two layouts are built on it: `jsonText` (always a point or an exponent) and `plainText` (always
  positional, no point for a whole number).
-/
import JobFleet.Text.Decimal

namespace JobFleet.Text

/-! ## The value and its rounding interval -/

/-- A finite double `± mantissa · 2 ^ exponent`. -/
structure Binary where
  negative : Bool
  mantissa : Nat
  exponent : Int
deriving DecidableEq, Repr

/-- What a double stands for. -/
inductive FloatShape
  /-- A finite number, zero of either sign included. -/
  | finite (value : Binary)
  /-- An infinity of the given sign. -/
  | infinite (negative : Bool)
  /-- Not a number. -/
  | notANumber
deriving DecidableEq, Repr

/-- Reads the sign, exponent and fraction bits of a double. -/
def floatShape (x : Float) : FloatShape :=
  let bits : Nat := x.toBits.toNat
  let negative := decide (wordSize 63 ≤ bits)
  let biased : Nat := bits / wordSize 52 % wordSize 11
  let fraction : Nat := bits % wordSize 52
  if biased = 2047 then
    if fraction = 0 then .infinite negative else .notANumber
  else if biased = 0 then .finite ⟨negative, fraction, -1074⟩
  else .finite ⟨negative, wordSize 52 + fraction, (biased : Int) - 1075⟩

/-- The rounding interval as `low / scale` to `high / scale`, with the value `middle / scale` in
    it. -/
structure Interval where
  low : Nat
  middle : Nat
  high : Nat
  scale : Nat
  closed : Bool

/-- The reals that round to `value`: half a unit up, and half a unit down except below a power of
    two, where the doubles are twice as dense. -/
def Binary.interval (value : Binary) : Interval :=
  let denser := value.mantissa = wordSize 52 ∧ -1074 < value.exponent
  let low := 4 * value.mantissa - (if denser then 1 else 2)
  let up := Nat.pow 2 (value.exponent - 2).toNat
  { low := low * up
    middle := 4 * value.mantissa * up
    high := (4 * value.mantissa + 2) * up
    scale := Nat.pow 2 (2 - value.exponent).toNat
    closed := value.mantissa % 2 = 0 }

/-! ## The search -/

/-- `digits · 10 ^ exponent`. -/
structure ShortDecimal where
  digits : Nat
  exponent : Int
deriving DecidableEq, Repr

/-- `d · 10 ^ k` times the scale of the interval, and the factor by which its ends grow when `k` is
    negative. -/
def Interval.contains (i : Interval) (d : Nat) (k : Int) : Bool :=
  let point := d * Nat.pow 10 k.toNat * i.scale
  let grow := Nat.pow 10 (-k).toNat
  if i.closed then decide (i.low * grow ≤ point ∧ point ≤ i.high * grow)
  else decide (i.low * grow < point ∧ point < i.high * grow)

/-- The grid point `d · 10 ^ k` at or below the value. -/
def Interval.floorAt (i : Interval) (k : Int) : Nat :=
  i.middle * Nat.pow 10 (-k).toNat / (Nat.pow 10 k.toNat * i.scale)

/-- Whether the grid point above is nearer to the value than the one below; a tie goes to the even
    one. -/
def Interval.upIsNearer (i : Interval) (d : Nat) (k : Int) : Bool :=
  let unit := Nat.pow 10 k.toNat * i.scale
  let value := 2 * (i.middle * Nat.pow 10 (-k).toNat)
  let half := (2 * d + 1) * unit
  decide (half < value) || (decide (half = value) && d % 2 == 1)

/-- Goes down from the grid of step `10 ^ k` to finer grids until one has a point in the
    interval. -/
def Interval.search (i : Interval) : Nat → Int → ShortDecimal
  | 0, k => ⟨i.floorAt k, k⟩
  | fuel + 1, k =>
    let d := i.floorAt k
    match i.contains d k, i.contains (d + 1) k with
    | true, true => if i.upIsNearer d k then ⟨d + 1, k⟩ else ⟨d, k⟩
    | true, false => ⟨d, k⟩
    | false, true => ⟨d + 1, k⟩
    | false, false => i.search fuel (k - 1)

/-- The decimal with the fewest digits that reads back as `value`, and of those the nearest. -/
def Binary.shortestDecimal (value : Binary) : ShortDecimal :=
  if value.mantissa = 0 then ⟨0, 0⟩
  else
    -- a power of ten that is not below the value
    let top := (value.exponent + value.mantissa.log2 + 1) * 30103 / 100000 + 1
    value.interval.search 24 top

/-! ## Layouts -/

/-- The digits with the point after the first `whole` of them; zeros fill either side. -/
def positional (digits : List Char) (whole : Int) : List Char × List Char :=
  if whole ≤ 0 then (['0'], List.replicate (-whole).toNat '0' ++ digits)
  else
    let n := whole.toNat
    (digits.take n ++ List.replicate (n - digits.length) '0', digits.drop n)

/-- Positional text without a fraction for a whole number: `1000`, `0.25`. -/
def ShortDecimal.plain (d : ShortDecimal) : String :=
  let digits := (toString d.digits).toList
  let (whole, fraction) := positional digits (digits.length + d.exponent)
  String.ofList (if fraction.isEmpty then whole else whole ++ '.' :: fraction)

/-- Positional text with a fraction from `0.00001` up to below `10 ^ 16`, otherwise one digit, a
    fraction and an exponent: `3.0`, `0.25`, `1e+300`, `1.5e-7`. -/
def ShortDecimal.json (d : ShortDecimal) : String :=
  let digits := (toString d.digits).toList
  let whole := digits.length + d.exponent
  if -5 < whole ∧ whole ≤ 16 then
    let (before, after) := positional digits whole
    String.ofList (before ++ '.' :: (if after.isEmpty then ['0'] else after))
  else
    let mantissa := match digits with
      | first :: [] => [first]
      | first :: rest => first :: '.' :: rest
      | [] => ['0']
    let power := whole - 1
    String.ofList (mantissa ++ ['e', if power < 0 then '-' else '+']) ++ toString power.natAbs

/-- The text of a double in JSON; there is none for an infinity or for what is not a number. -/
def jsonText? (x : Float) : Option String :=
  match floatShape x with
  | .finite value => some ((if value.negative then "-" else "") ++ value.shortestDecimal.json)
  | _ => none

/-- The positional text of a double, with `inf` and `NaN` for the values that are no numbers. -/
def plainText (x : Float) : String :=
  match floatShape x with
  | .finite value => (if value.negative then "-" else "") ++ value.shortestDecimal.plain
  | .infinite negative => if negative then "-inf" else "inf"
  | .notANumber => "NaN"

end JobFleet.Text
