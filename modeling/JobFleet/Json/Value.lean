/-
  JobFleet.Json.Value: JSON values.

  Whole numbers and doubles are different values (`3` and `3.0`).  An object is a list of members as
  they are written; as a value of its own it is a map, whose members stand in the order of their
  names.  `setMember` leaves all members where they stand, while `insertMember` keeps them in order;
  the last value given to a name wins.  `canonical` puts all members in order.
-/

namespace JobFleet

/-- A JSON value. -/
inductive Json
  | null
  | bool (value : Bool)
  /-- A number without fraction and exponent. -/
  | int (value : Int)
  /-- A number with a fraction or an exponent. -/
  | float (value : Float)
  | str (value : String)
  | arr (items : List Json)
  /-- Members as they stand. -/
  | obj (members : List (String × Json))
deriving Inhabited

namespace Json

/-! ## Members -/

/-- The value of the first member called `name`. -/
def lookup (name : String) : List (String × Json) → Option Json
  | [] => none
  | (key, value) :: rest => if key = name then some value else lookup name rest

/-- Gives `name` a value, where it has one or else after all other members. -/
def setMember (name : String) (value : Json) : List (String × Json) → List (String × Json)
  | [] => [(name, value)]
  | (key, old) :: rest =>
    if key = name then (name, value) :: rest else (key, old) :: setMember name value rest

/-- Gives `name` a value, where it has one or else before the names that come after it. -/
def insertMember (name : String) (value : Json) : List (String × Json) → List (String × Json)
  | [] => [(name, value)]
  | (key, old) :: rest =>
    if key = name then (name, value) :: rest
    else if name < key then (name, value) :: (key, old) :: rest
    else (key, old) :: insertMember name value rest

mutual

/-- The value with the members of all objects in the order of their names; of members with one name
    the last stays. -/
def canonical : Json → Json
  | .arr items => .arr (canonicalItems items)
  | .obj members => .obj (canonicalMembers [] members)
  | leaf => leaf

/-- The items of an array with their members in order. -/
def canonicalItems : List Json → List Json
  | [] => []
  | item :: rest => item.canonical :: canonicalItems rest

/-- The members given one after the other to an object that has some already. -/
def canonicalMembers (before : List (String × Json)) : List (String × Json) → List (String × Json)
  | [] => before
  | (name, value) :: rest => canonicalMembers (insertMember name value.canonical before) rest

end

/-- The member `name` of an object; `none` also for a value that is no object. -/
def get? (name : String) : Json → Option Json
  | .obj members => lookup name members
  | _ => none

/-- The member `name` of an object, `null` counting as absent. -/
def given? (name : String) (j : Json) : Option Json :=
  match j.get? name with
  | some .null => none
  | other => other

/-- The text of an optional value, `null` when there is none. -/
def ofOption {α : Type} (encode : α → Json) : Option α → Json
  | none => .null
  | some a => encode a

/-- A whole number. -/
def ofNat (n : Nat) : Json := .int n

/-- A member that was set is found. -/
@[simp] theorem lookup_setMember_self (name : String) (value : Json)
    (members : List (String × Json)) : lookup name (setMember name value members) = some value := by
  induction members with
  | nil => simp [setMember, lookup]
  | cons m rest ih =>
    obtain ⟨key, old⟩ := m
    by_cases h : key = name <;> simp [setMember, lookup, h, ih]

theorem lookup_setMember_ne {name other : String} (h : other ≠ name) (value : Json)
    (members : List (String × Json)) :
    lookup other (setMember name value members) = lookup other members := by
  induction members with
  | nil => simp [setMember, lookup, Ne.symm h]
  | cons m rest ih =>
    obtain ⟨key, old⟩ := m
    by_cases hk : key = name
    · subst hk
      simp [setMember, lookup, Ne.symm h]
    · simp only [setMember, if_neg hk, lookup, ih]

/-- A member that was inserted is found. -/
@[simp] theorem lookup_insertMember_self (name : String) (value : Json)
    (members : List (String × Json)) :
    lookup name (insertMember name value members) = some value := by
  induction members with
  | nil => simp [insertMember, lookup]
  | cons m rest ih =>
    obtain ⟨key, old⟩ := m
    by_cases h : key = name
    · simp [insertMember, lookup, h]
    · by_cases hlt : name < key <;> simp [insertMember, lookup, h, hlt, ih]

theorem lookup_insertMember_ne {name other : String} (h : other ≠ name) (value : Json)
    (members : List (String × Json)) :
    lookup other (insertMember name value members) = lookup other members := by
  induction members with
  | nil => simp [insertMember, lookup, Ne.symm h]
  | cons m rest ih =>
    obtain ⟨key, old⟩ := m
    by_cases hk : key = name
    · subst hk
      simp [insertMember, lookup, Ne.symm h]
    · by_cases hlt : name < key
      · simp only [insertMember, if_neg hk, if_pos hlt, lookup, if_neg (Ne.symm h)]
      · simp only [insertMember, if_neg hk, if_neg hlt, lookup, ih]

end Json

end JobFleet
