/-
  JobFleet.Toml.Table: the tables of a TOML document while it is read.

  A table remembers how it came to be, because that decides who may add to it: a header may claim
  only a table that other headers merely passed through, and a dotted key may add only to a table
  that dotted keys made.
-/
import JobFleet.Json.Value

namespace JobFleet.Toml

/-! ## Tables -/

/-- How a table came to be. -/
inductive Origin
  /-- Passed through by the header of a table below it. -/
  | passed
  /-- Made by its own header. -/
  | header
  /-- Made by a dotted key. -/
  | dotted
deriving DecidableEq, Repr

/-- What stands at a key. -/
inductive Node
  /-- A value, closed to additions. -/
  | value (value : Json)
  | table (origin : Origin) (entries : List (String × Node))
  /-- An array of tables; headers below it add to its last one. -/
  | tables (items : List (List (String × Node)))

/-- The entries of a table. -/
abbrev Entries := List (String × Node)

mutual

/-- The value of a node. -/
def Node.toJson : Node → Json
  | .value v => v
  | .table _ entries => .obj (Node.members entries)
  | .tables items => .arr (Node.items items)

/-- The members of a table. -/
def Node.members : List (String × Node) → List (String × Json)
  | [] => []
  | (key, node) :: rest => (key, node.toJson) :: Node.members rest

/-- The items of an array of tables. -/
def Node.items : List (List (String × Node)) → List Json
  | [] => []
  | entries :: rest => .obj (Node.members entries) :: Node.items rest

end

/-- The node at a key. -/
def nodeAt? (key : String) : Entries → Option Node
  | [] => none
  | (k, node) :: rest => if k = key then some node else nodeAt? key rest

/-- Puts a node at a key, in its old place when the key is there. -/
def putNode (key : String) (node : Node) : Entries → Entries
  | [] => [(key, node)]
  | (k, old) :: rest => if k = key then (k, node) :: rest else (k, old) :: putNode key node rest

/-! ## Going down -/

/-- A table reached by a path, with what decides about additions; the items of an array of tables
    count as made by a header. -/
structure Reached where
  origin : Origin
  entries : Entries

/-- Changes the table at a path, making the tables on the way that are missing.  A dotted key does
    not pass through a table that has a header. -/
def changeAt (dotted : Bool) (change : Reached → Option Entries) :
    List String → Reached → Option Entries
  | [], here => change here
  | key :: path, here =>
    let made : Origin := if dotted then .dotted else .passed
    match nodeAt? key here.entries with
    | none => do
      let below ← changeAt dotted change path ⟨made, []⟩
      return putNode key (.table made below) here.entries
    | some (.value _) => none
    | some (.tables items) => do
      let below ← changeAt dotted change path ⟨.header, items.getLast?.getD []⟩
      return putNode key (.tables (items.dropLast ++ [below])) here.entries
    | some (.table origin entries) =>
      if dotted ∧ origin = .header then none
      else do
        let below ← changeAt dotted change path ⟨origin, entries⟩
        return putNode key (.table origin below) here.entries

/-- Adds a node at a new key. -/
def addNew (key : String) (node : Node) (entries : Entries) : Option Entries :=
  match nodeAt? key entries with
  | none => some (putNode key node entries)
  | some _ => none

/-- Gives a dotted key a value in a table.  A key with a dot ends in a table that dotted keys
    made. -/
def assign (path : List String) (key : String) (value : Json) (here : Reached) : Option Entries :=
  changeAt true (fun target =>
    if path.isEmpty ∨ target.origin = .dotted then
      addNew key (.value value) target.entries else none)
    path here

/-- Opens a table by its header. -/
def openTable (path : List String) (key : String) (root : Entries) : Option Entries :=
  changeAt false (fun parent =>
    match nodeAt? key parent.entries with
    | none => some (putNode key (.table .header []) parent.entries)
    | some (.table .passed entries) => some (putNode key (.table .header entries) parent.entries)
    | some _ => none) path ⟨.header, root⟩

/-- Opens the next table of an array of tables by its header. -/
def openItem (path : List String) (key : String) (root : Entries) : Option Entries :=
  changeAt false (fun parent =>
    match nodeAt? key parent.entries with
    | none => some (putNode key (.tables [[]]) parent.entries)
    | some (.tables items) => some (putNode key (.tables (items ++ [[]])) parent.entries)
    | some _ => none) path ⟨.header, root⟩

/-- Gives a dotted key a value in the table that a header opened. -/
def assignUnder (header path : List String) (key : String) (value : Json) (root : Entries) :
    Option Entries :=
  changeAt false (fun target => assign path key value ⟨.header, target.entries⟩)
    header ⟨.header, root⟩

end JobFleet.Toml
