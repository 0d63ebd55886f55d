/-
  JobFleet.Json.Reader: reading a JSON text.

  A number without fraction and exponent is a whole number when it fits a signed or an unsigned
  64-bit word and a double otherwise; `-0` is the negative zero.  A double is read from as many
  leading digits as fit an unsigned 64-bit word, rounded, and scaled by a power of ten with one more
  rounding.  Arrays and objects may be nested in each other up to `deepest`.  Reading goes down with
  a fuel that the length of the text bounds, since every nested value takes a character.
-/
import JobFleet.Json.Value
import JobFleet.Text.Decimal

namespace JobFleet.Json.Reader

open JobFleet.Text

/-! ## Leaves -/

/-- The white space that JSON allows between tokens. -/
def isSpace (c : Char) : Bool := c == ' ' || c == '\t' || c == '\n' || c == '\r'

/-- The text from its first token on. -/
def skipSpace (cs : List Char) : List Char := cs.dropWhile isSpace

/-- The value of a hexadecimal digit of either case. -/
def hexDigit? (c : Char) : Option Nat :=
  if '0' ≤ c ∧ c ≤ '9' then some (c.toNat - '0'.toNat)
  else if 'a' ≤ c ∧ c ≤ 'f' then some (c.toNat - 'a'.toNat + 10)
  else if 'A' ≤ c ∧ c ≤ 'F' then some (c.toNat - 'A'.toNat + 10)
  else none

/-- The code unit written by four hexadecimal digits. -/
def codeUnit? (a b c d : Char) : Option Nat := do
  return 4096 * (← hexDigit? a) + 256 * (← hexDigit? b) + 16 * (← hexDigit? c) + (← hexDigit? d)

/-- The character of a code unit that stands alone: no half of a pair. -/
def loneUnit? (unit : Nat) : Option Char :=
  if 0xD800 ≤ unit ∧ unit < 0xE000 then none else some (Char.ofNat unit)

/-- The character of a pair of code units. -/
def unitPair? (high low : Nat) : Option Char :=
  if 0xD800 ≤ high ∧ high < 0xDC00 ∧ 0xDC00 ≤ low ∧ low < 0xE000 then
    some (Char.ofNat (0x10000 + 1024 * (high - 0xD800) + (low - 0xDC00)))
  else none

/-- The character that a one-letter escape stands for. -/
def escaped? : Char → Option Char
  | '"' => some '"'
  | '\\' => some '\\'
  | '/' => some '/'
  | 'b' => some '\x08'
  | 'f' => some '\x0c'
  | 'n' => some '\n'
  | 'r' => some '\r'
  | 't' => some '\t'
  | _ => none

/-- A text after its opening quote, up to its closing quote, and what follows. -/
def text : List Char → Option (List Char × List Char)
  | [] => none
  | '"' :: rest => some ([], rest)
  | '\\' :: 'u' :: a :: b :: c :: d :: '\\' :: 'u' :: e :: f :: g :: h :: rest => do
    let high ← codeUnit? a b c d
    let low ← codeUnit? e f g h
    match unitPair? high low, loneUnit? high, loneUnit? low with
    | some pair, _, _ => (text rest).map (fun r => (pair :: r.1, r.2))
    | none, some first, some second => (text rest).map (fun r => (first :: second :: r.1, r.2))
    | none, some first, none =>
      -- the second unit may start a pair of its own
      (text ('\\' :: 'u' :: e :: f :: g :: h :: rest)).map (fun r => (first :: r.1, r.2))
    | none, none, _ => none
  | '\\' :: 'u' :: a :: b :: c :: d :: rest => do
    let unit ← codeUnit? a b c d
    let char ← loneUnit? unit
    (text rest).map (fun r => (char :: r.1, r.2))
  | '\\' :: c :: rest => do
    let char ← escaped? c
    (text rest).map (fun r => (char :: r.1, r.2))
  | c :: rest =>
    if c.toNat < 0x20 then none else (text rest).map (fun r => (c :: r.1, r.2))

/-- The digits at the start of a text and the rest. -/
def digits (cs : List Char) : List Char × List Char := (cs.takeWhile isDigit, cs.dropWhile isDigit)

/-- An exponent, when one follows: its value and the rest. -/
def exponent? : List Char → Option (Int × List Char)
  | cs =>
    let (negative, rest) := match cs with
      | '-' :: rest => (true, rest)
      | '+' :: rest => (false, rest)
      | rest => (false, rest)
    let (run, rest) := digits rest
    (readNat? run).map (fun n => (if negative then -(n : Int) else n, rest))

/-- Appends digits to the number read so far while it fits an unsigned 64-bit word; the digits left
    over. -/
def absorb (sofar : Nat) : List Char → Nat × List Char
  | [] => (sofar, [])
  | c :: rest =>
    match digit? c with
    | some d => if 10 * sofar + d < wordSize 64 then absorb (10 * sofar + d) rest
    else (sofar, c :: rest)
    | none => (sofar, c :: rest)

/-- The largest power of ten that is a double is `10 ^ 308`; smaller values are divided by it
    repeatedly. -/
def scaleDown : Nat → Float → Nat → Float
  | 0, x, _ => x
  | fuel + 1, x, power =>
    if power ≤ 308 then x / Float.ofScientific 1 false power
    else scaleDown fuel (x / Float.ofScientific 1 false 308) (power - 308)

/-- The double `significand · 10 ^ power`; none when it is too large for one. -/
def scaled? (significand : Nat) (power : Int) : Option Float :=
  let x := Float.ofNat significand
  if power < 0 then some (scaleDown 4 x power.natAbs)
  else if 308 < power then if significand = 0 then some x else none
  else
    let y := x * Float.ofScientific 1 false power.natAbs
    if y.isFinite then some y else none

/-- The double with the given sign, digits before and after its point, and exponent. -/
def double? (negative : Bool) (whole fraction : List Char) (power : Int) : Option Float :=
  let (significand, wholeLeft) := absorb 0 whole
  let (significand, fractionLeft) := absorb significand fraction
  let taken : Int := fraction.length - fractionLeft.length
  (scaled? significand (power + wholeLeft.length - taken)).map (fun x => if negative then -x else x)

/-- A whole number as a word where it fits one, as a double otherwise. -/
def whole? (negative : Bool) (run : List Char) : Option Json :=
  (readNat? run).bind fun n =>
    if negative then
      if n = 0 ∨ wordSize 63 < n then (double? true run [] 0).map Json.float
        else some (.int (-(n : Int)))
    else if n < wordSize 64 then some (.int n) else (double? false run [] 0).map Json.float

/-- A number and the rest. -/
def number (cs : List Char) : Option (Json × List Char) := do
  let (negative, cs) := match cs with
    | '-' :: rest => (true, rest)
    | rest => (false, rest)
  let (whole, cs) := digits cs
  -- there is a digit, and a leading zero stands alone
  if whole.isEmpty ∨ (whole.length > 1 ∧ whole.head? = some '0') then none
  let (fraction, cs) ← match cs with
    | '.' :: rest =>
      let (run, rest) := digits rest
      if run.isEmpty then none else some (some run, rest)
    | rest => some (none, rest)
  let (power, cs) ← match cs with
    | 'e' :: rest => (exponent? rest).map (fun e => (some e.1, e.2))
    | 'E' :: rest => (exponent? rest).map (fun e => (some e.1, e.2))
    | rest => some (none, rest)
  match fraction, power with
  | none, none => (whole? negative whole).map (fun v => (v, cs))
  | _, _ =>
    (double? negative whole (fraction.getD []) (power.getD 0)).map (fun x => (Json.float x, cs))

/-! ## Values -/

/-- How deep arrays and objects may be nested. -/
def deepest : Nat := 127

mutual

/-- A value at the start of a text with room for so many nested ones, and the rest. -/
def value : Nat → Nat → List Char → Option (Json × List Char)
  | 0, _, _ => none
  | fuel + 1, room, cs =>
    match skipSpace cs with
    | '"' :: rest => (text rest).map (fun r => (Json.str (String.ofList r.1), r.2))
    | '[' :: rest =>
      if room = 0 then none
      else match skipSpace rest with
        | ']' :: rest => some (.arr [], rest)
        | rest => (items fuel (room - 1) rest).map (fun r => (Json.arr r.1, r.2))
    | '\x7b' :: rest =>
      if room = 0 then none
      else match skipSpace rest with
        | '\x7d' :: rest => some (.obj [], rest)
        | rest => (members fuel (room - 1) rest).map (fun r => (Json.obj r.1, r.2))
    | 't' :: 'r' :: 'u' :: 'e' :: rest => some (.bool true, rest)
    | 'f' :: 'a' :: 'l' :: 's' :: 'e' :: rest => some (.bool false, rest)
    | 'n' :: 'u' :: 'l' :: 'l' :: rest => some (.null, rest)
    | rest => number rest

/-- The items of an array up to its closing bracket, at least one. -/
def items : Nat → Nat → List Char → Option (List Json × List Char)
  | 0, _, _ => none
  | fuel + 1, room, cs => do
    let (item, cs) ← value fuel room cs
    match skipSpace cs with
    | ',' :: rest => (items fuel room rest).map (fun r => (item :: r.1, r.2))
    | ']' :: rest => some ([item], rest)
    | _ => none

/-- The members of an object up to its closing brace, at least one. -/
def members : Nat → Nat → List Char → Option (List (String × Json) × List Char)
  | 0, _, _ => none
  | fuel + 1, room, cs => do
    let (name, cs) ← match skipSpace cs with
      | '"' :: rest => text rest
      | _ => none
    let cs ← match skipSpace cs with
      | ':' :: rest => some rest
      | _ => none
    let (value, cs) ← value fuel room cs
    let member := (String.ofList name, value)
    match skipSpace cs with
    | ',' :: rest => (members fuel room rest).map (fun r => (member :: r.1, r.2))
    | '\x7d' :: rest => some ([member], rest)
    | _ => none

end

end Reader

/-- Reads a text that holds one JSON value, with members as they stand in the text. -/
def tree? (s : String) : Option Json :=
  let cs := s.toList
  match Reader.value (2 * cs.length + 2) Reader.deepest cs with
  | some (value, rest) => if (Reader.skipSpace rest).isEmpty then some value else none
  | none => none

/-- Reads a text that holds one JSON value. -/
def read? (s : String) : Option Json := (tree? s).map canonical

end JobFleet.Json
