/-
  JobFleet.Json.Shape: reading records from JSON.

  A record is an object with a member for each field, or an array with the fields in order.
  `slots?` finds what stands in the place of each field; `required`, `optional` and `orElse` decode
  it.  Unknown members are dropped, no field may be given twice, and an array must not be longer
  than the record.
-/
import JobFleet.Json.Value
import JobFleet.Time.Timestamp

namespace JobFleet.Json

open JobFleet.Text JobFleet.Time

/-! ## Values -/

/-- A text. -/
def asText : Json → Option String
  | .str s => some s
  | _ => none

/-- A truth value. -/
def asBool : Json → Option Bool
  | .bool b => some b
  | _ => none

/-- A whole number below `bound`. -/
def asNatBelow (bound : Nat) : Json → Option Nat
  | .int n => if 0 ≤ n ∧ n < bound then some n.toNat else none
  | _ => none

/-- An unsigned 32-bit word. -/
def asWord32 (j : Json) : Option UInt32 := (asNatBelow (wordSize 32) j).map UInt32.ofNat

/-- An unsigned 64-bit word. -/
def asWord64 (j : Json) : Option UInt64 := (asNatBelow (wordSize 64) j).map UInt64.ofNat

/-- A whole number that fits a signed 64-bit word. -/
def asInt64 : Json → Option Int
  | .int n => if -(wordSize 63 : Int) ≤ n ∧ n < (wordSize 63 : Int) then some n else none
  | _ => none

/-- A double; a whole number is taken for one. -/
def asFloat : Json → Option Float
  | .float x => some x
  | .int n => some (Float.ofInt n)
  | _ => none

/-- An instant written as a timestamp. -/
def asInstant (j : Json) : Option Instant := (asText j).bind Timestamp.read?

/-- Any value. -/
def asAny (j : Json) : Option Json := some j.canonical

/-- An array of values. -/
def asList {α : Type} (decode : Json → Option α) : Json → Option (List α)
  | .arr items => items.mapM decode
  | _ => none

/-- The timestamp of an instant. -/
def ofInstant (t : Instant) : Json := .str (Timestamp.write t)

/-! ## Fields -/

/-- What stands in the place of a field. -/
inductive Slot
  /-- A value. -/
  | given (value : Json)
  /-- Nothing: an object lacks the member. -/
  | absent
  /-- Nothing: an array ends before the field. -/
  | beyond

/-- The slots of the named fields in an object. -/
def memberSlots (names : List String) (members : List (String × Json)) : List Slot :=
  names.map fun name => match lookup name members with
    | some value => .given value
    | none => .absent

/-- The slots of the named fields in an array. -/
def itemSlots : List String → List Json → List Slot
  | [], _ => []
  | _ :: names, [] => .beyond :: itemSlots names []
  | _ :: names, item :: items => .given item :: itemSlots names items

/-- None of the named fields is given twice. -/
def givenOnce (names : List String) (members : List (String × Json)) : Bool :=
  names.all fun name => (members.map (·.1)).count name ≤ 1

/-- The slots of the named fields of a record. -/
def slots? (names : List String) : Json → Option (List Slot)
  | .obj members => if givenOnce names members then some (memberSlots names members) else none
  | .arr items => if items.length ≤ names.length then some (itemSlots names items) else none
  | _ => none

namespace Slot

/-- A field that must be there. -/
def required {α : Type} (decode : Json → Option α) : Slot → Option α
  | .given value => decode value
  | _ => none

/-- A field that may be `null`, or missing from an object. -/
def optional {α : Type} (decode : Json → Option α) : Slot → Option (Option α)
  | .given .null => some none
  | .given value => (decode value).map some
  | .absent => some none
  | .beyond => none

/-- A field with a value for when it is missing. -/
def orElse {α : Type} (fallback : α) (decode : Json → Option α) : Slot → Option α
  | .given value => decode value
  | _ => some fallback

end Slot

end JobFleet.Json
