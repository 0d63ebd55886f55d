/-
  JobFleet.Settings.Layers: settings from files and the environment.

  Four layers lie over each other: the built-in defaults, `default.toml`, `local.toml` and the
  environment.  Tables merge key by key, keys in lower case; any other value replaces what lies
  below it.  The topmost value of each setting is then converted to the type of its field.
-/
import JobFleet.Form.Settings
import JobFleet.Text.Shortest
import JobFleet.Toml.Reader

namespace JobFleet.Settings

open JobFleet.Json JobFleet.Text

/-! ## Lower case -/

/-- The lower-case form of a character, as far as it can make a word of ASCII letters: that of an
    ASCII letter, and of the Kelvin sign. -/
def lowerChar (c : Char) : Char := if c = '\u212A' then 'k' else c.toLower

/-- A text in lower case. -/
def lowerText (cs : List Char) : List Char := cs.map lowerChar

/-- A key in lower case. -/
def lowerKey (key : String) : String := String.ofList (lowerText key.toList)

/-! ## Merging -/

/-- The members of an object; any other value counts as an empty one. -/
def membersOf : Json → List (String × Json)
  | .obj members => members
  | _ => []

/-- The value of a member, or an empty object. -/
def tableAt (key : String) (tree : Json) : Json := (lookup key (membersOf tree)).getD (.obj [])

/-- Gives a member a value in a tree that becomes an object if it is none. -/
def put (key : String) (value tree : Json) : Json := .obj (setMember key value (membersOf tree))

mutual

/-- Lays a value over what a tree has at a key. -/
def merge (key : String) (tree : Json) : Json → Json
  | .obj members =>
    -- an empty table changes nothing but the existence of its key
    let key := lowerKey key
    put key (mergeAll (tableAt key tree) members) tree
  | value => put (lowerKey key) value tree

/-- Lays members over a tree, one after the other. -/
def mergeAll (tree : Json) : List (String × Json) → Json
  | [] => tree
  | (key, value) :: rest => mergeAll (merge key tree value) rest

end

/-! ## Paths -/

/-- A step from a value to one inside it. -/
inductive Step
  /-- A member of a table. -/
  | member (key : String)
  /-- An item of an array. -/
  | item (index : Nat)
deriving DecidableEq, Repr

/-- A character of a step. -/
def isStepChar (c : Char) : Bool := c.isAlphanum || c == ' ' || c == '_' || c == '-'

/-- The steps after the first one: a point and a key, or a number in brackets. -/
def laterSteps? : Nat → List Char → Option (List Step)
  | _, [] => some []
  | 0, _ => none
  | fuel + 1, '.' :: rest =>
    let key := rest.takeWhile isStepChar
    if key.isEmpty then none
    else (laterSteps? fuel (rest.dropWhile isStepChar)).map (.member (String.ofList key) :: ·)
  | fuel + 1, '[' :: rest =>
    match cutFirst ']' rest with
    | some (index, rest) => do
      let index ← readNat? ((index.dropWhile (· == ' ')).reverse.dropWhile (· == ' ')).reverse
      (laterSteps? fuel rest).map (.item index :: ·)
    | none => none
  | _, _ => none

/-- The steps that the text of a path describes; a text that is no path is one key. -/
def stepsOf (path : String) : String × List Step :=
  let cs := path.toList
  let key := cs.takeWhile isStepChar
  if key.isEmpty then (path, [])
  else match laterSteps? cs.length (cs.dropWhile isStepChar) with
    | some later => (String.ofList key, later)
    | none => (path, [])

/-- The items of an array; any other value counts as an empty one. -/
def itemsOf : Json → List Json
  | .arr items => items
  | _ => []

/-- Puts an item at an index, with `null` before it where items are missing. -/
def putItem (index : Nat) (value : Json) (items : List Json) : List Json :=
  let filled := items ++ List.replicate (index + 1 - items.length) .null
  filled.set index value

/-- Lays a value over what a tree has at the end of a path.  Values on the way become tables or
    arrays. -/
def mergeAt (key : String) (value : Json) : List Step → Json → Json
  | [], tree => merge key tree value
  | .member next :: later, tree =>
    let key := lowerKey key
    put key (mergeAt next value later ((lookup key (membersOf tree)).getD .null)) tree
  | .item index :: later, tree =>
    let key := lowerKey key
    let items := itemsOf ((lookup key (membersOf tree)).getD .null)
    put key (.arr (putItem index (inItem later ((items[index]?).getD .null)) items)) tree
where
  /-- Lays the value over what an item has at the end of a path. -/
  inItem : List Step → Json → Json
    | [], _ => value
    | .member next :: later, tree => mergeAt next value later tree
    | .item index :: later, tree =>
      let items := itemsOf tree
      .arr (putItem index (inItem later ((items[index]?).getD .null)) items)

/-- A layer of settings: paths with their values. -/
abbrev Layer := List (String × Json)

/-- A tree with a layer over it. -/
def withLayer (tree : Json) (layer : Layer) : Json :=
  layer.foldl (fun tree entry =>
    let (key, later) := stepsOf entry.1
    mergeAt key entry.2 later tree) tree

/-! ## Environment -/

/-- What the name of a setting starts with, in lower case. -/
def variablePrefix : List Char := "app__".toList

/-- A text with every pair of underscores replaced by a point. -/
def pointed : List Char → List Char
  | '_' :: '_' :: rest => '.' :: pointed rest
  | c :: rest => c :: pointed rest
  | [] => []

/-- The value of a variable: a truth value, a whole number, a double, or else a text. -/
def variableValue (text : String) : Json :=
  let cs := text.toList
  let lower := lowerKey text
  if lower = "true" then .bool true
  else if lower = "false" then .bool false
  else match readSigned? 64 cs with
    | some n => .int n
    | none =>
      match readDouble? cs with
      | some x => .float x
      | none => .str text

/-- The layer of the environment. -/
def environmentLayer (environment : List (String × String)) : Layer :=
  environment.filterMap fun (name, text) =>
    let name := lowerText name.toList
    if variablePrefix.isPrefixOf name then
      some (String.ofList (pointed (name.drop variablePrefix.length)), variableValue text)
    else none

/-! ## Conversions -/

/-- A text; truth values and numbers are written out. -/
def convertText : Json → Option String
  | .str s => some s
  | .bool b => some (if b then "true" else "false")
  | .int n => some (showInt n)
  | .float x => some (plainText x)
  | _ => none

/-- The number that a text stands for: one for consent, zero for refusal, or its digits. -/
def numberOfText? (text : String) : Option Nat :=
  let lower := lowerKey text
  if lower = "true" ∨ lower = "on" ∨ lower = "yes" then some 1
  else if lower = "false" ∨ lower = "off" ∨ lower = "no" then some 0
  else readUnsigned? (wordSize 64) text.toList

/-- A whole number below a bound; a double is rounded, halves away from zero, and kept within an
    unsigned 64-bit word. -/
def convertNumber (bound : Nat) (j : Json) : Option Nat :=
  let number := match j with
    | .int n => if 0 ≤ n then some n.toNat else none
    | .bool b => some (if b then 1 else 0)
    | .float x => some x.round.toUInt64.toNat
    | .str s => numberOfText? s
    | _ => none
  number.filter (· < bound)

/-- The slots of a section; items of an array beyond the last field are dropped. -/
def convertSlots (names : List String) : Json → Option (List Slot)
  | .obj members => some (memberSlots names members)
  | .arr items => some (itemSlots names items)
  | _ => none

/-- Leaves that are converted to the type of their field. -/
def converted : Leaves := ⟨convertText, convertNumber, convertSlots⟩

/-! ## Loading -/

/-- The layer of a file; a missing file is an empty layer. -/
def fileLayer? : Option String → Option Layer
  | none => some []
  | some text => Toml.read? text

/-- The settings that the texts of `default.toml` and `local.toml` and the environment give; none
    when a file is malformed or a value cannot be converted. -/
def load? (defaultFile localFile : Option String) (environment : List (String × String)) :
    Option Settings := do
  let defaults := withLayer (Settings.toJson {}) (← fileLayer? defaultFile)
  let tree := withLayer (withLayer defaults (← fileLayer? localFile)) (environmentLayer environment)
  Settings.read? converted tree

end JobFleet.Settings
