/-
  JobFleet.Telemetry.Event: log events.
-/
import JobFleet.Json.Value

namespace JobFleet

/-- How severe an event is, most severe first. -/
inductive Severity
  | error
  | warn
  | info
  | debug
  | trace
deriving DecidableEq, Repr

namespace Severity

/-- The place in the order: one for the most severe. -/
def rank : Severity → Nat
  | .error => 1
  | .warn => 2
  | .info => 3
  | .debug => 4
  | .trace => 5

/-- The name in log lines. -/
def name : Severity → String
  | .error => "ERROR"
  | .warn => "WARN"
  | .info => "INFO"
  | .debug => "DEBUG"
  | .trace => "TRACE"

end Severity

/-- A log event. -/
structure Event where
  severity : Severity
  message : String
  fields : List (String × Json)

namespace Event

/-- An event as JSON. -/
def toJson (e : Event) : Json :=
  .obj [("level", .str e.severity.name), ("message", .str e.message), ("fields", .obj e.fields)]

/-- The event is at least as severe as the rank asks for. -/
def passes (rank : Nat) (e : Event) : Bool := e.severity.rank ≤ rank

end Event

end JobFleet
