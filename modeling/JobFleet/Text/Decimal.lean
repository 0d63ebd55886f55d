/-
  JobFleet.Text.Decimal: whole numbers written with ASCII digits.

  `readNat?` takes a non-empty run of digits, `readUnsigned?` also one leading `+` and a bound,
  `readSigned?` a leading sign and the bounds of a signed word.
-/

namespace JobFleet.Text

/-- The number of values of a word of `bits` bits. -/
abbrev wordSize (bits : Nat) : Nat := Nat.pow 2 bits

/-- The value of an ASCII digit. -/
def digit? (c : Char) : Option Nat :=
  if '0' ≤ c ∧ c ≤ '9' then some (c.toNat - '0'.toNat) else none

/-- An ASCII digit. -/
def isDigit (c : Char) : Bool := (digit? c).isSome

/-- Appends digits, most significant first, to the number read so far. -/
def readDigits? (sofar : Nat) : List Char → Option Nat
  | [] => some sofar
  | c :: rest => (digit? c).bind (fun d => readDigits? (10 * sofar + d) rest)

/-- A non-empty run of ASCII digits. -/
def readNat? : List Char → Option Nat
  | [] => none
  | cs => readDigits? 0 cs

/-- A number below `bound`, with an optional `+` before its digits. -/
def readUnsigned? (bound : Nat) (cs : List Char) : Option Nat :=
  let digits := match cs with
    | '+' :: rest => rest
    | _ => cs
  (readNat? digits).filter (· < bound)

/-- A number of a signed word of `bits` bits, with an optional sign before its digits. -/
def readSigned? (bits : Nat) (cs : List Char) : Option Int :=
  match cs with
  | '-' :: rest => ((readNat? rest).filter (· ≤ wordSize (bits - 1))).map (fun n => -(n : Int))
  | _ => (readUnsigned? (wordSize (bits - 1)) cs).map Int.ofNat

/-- The digits of a number, padded with zeros on the left to at least `width`. -/
def padded (width n : Nat) : String :=
  let digits := toString n
  String.ofList (List.replicate (width - digits.length) '0') ++ digits

/-- A number as it is written with its sign, `-` or nothing. -/
def showInt (n : Int) : String :=
  if n < 0 then "-" ++ toString n.natAbs else toString n.natAbs

end JobFleet.Text
