/-
  JobFleet.Main: the command line.

  The program reads its settings from the files under `config` and from its environment, starts,
  prints its events one JSON line each, and ends with the fault that stopped it, if there is one.
-/
import JobFleet.Json.Writer
import JobFleet.Startup

namespace JobFleet

/-- The text of a file, if it can be read. -/
def textOfFile (path : String) : IO (Option String) := do
  try return some (← IO.FS.readFile path) catch _ => return none

/-- A variable and its value. -/
def variableOf (line : String) : Option (String × String) :=
  match line.splitOn "=" with
  | name :: first :: rest => some (name, "=".intercalate (first :: rest))
  | _ => none

/-- The environment of the process. -/
def readEnvironment : IO (List (String × String)) := do
  let listing := (← textOfFile "/proc/self/environ").getD ""
  return (listing.split (· == '\x00')).toList.filterMap (fun line => variableOf line.toString)

end JobFleet

open JobFleet in
/-- Starts the program. -/
def main : IO UInt32 := do
  let environment ← readEnvironment
  let report := Startup.run (← textOfFile "config/default.toml")
    (← textOfFile "config/local.toml") environment
    (environment.lookup "RUST_LOG")
  for event in report.events do
    IO.println event.toJson.write
  match report.fault with
  | some text =>
    IO.eprintln ("Error: " ++ text)
    return 1
  | none => return 0
