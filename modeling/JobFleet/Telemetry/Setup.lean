/-
  JobFleet.Telemetry.Setup: starting logging and metrics, which a process does once.

  Faults of the request are found in a fixed order: the filter, then the address for traces, and
  last that logging runs already.
-/
import JobFleet.Telemetry.Endpoint
import JobFleet.Telemetry.LogFilter

namespace JobFleet.Telemetry

/-- Why logging or metrics could not be started. -/
inductive SetupFault
  | filter (fault : FilterFault)
  | endpoint (fault : EndpointFault)
  /-- Logging runs already. -/
  | loggingRuns
  /-- Metrics are collected already. -/
  | metricsRun
deriving DecidableEq, Repr

/-- The wording of a fault. -/
def SetupFault.message : SetupFault → String
  | .filter fault => "Failed to create env filter: " ++ fault.message
  | .endpoint fault =>
    "Failed to build span exporter: Exporter otlp encountered the following error(s): " ++
      "invalid URI " ++ fault.message
  | .loggingRuns =>
    "Failed to initialize tracing subscriber: " ++
      "a global default trace dispatcher has already been set"
  | .metricsRun =>
    "Failed to install Prometheus exporter: failed to install exporter as global recorder: " ++
      "attempted to set a recorder after the metrics system was already initialized"

/-- Starts logging with a level that `override` may replace and an address for traces; `running`
    says whether it runs already. -/
def startLogging (running : Bool) (override : Option String) (level : String)
    (endpoint : Option String) : Except SetupFault Filter :=
  match chooseFilter override level with
  | .error fault => .error (.filter fault)
  | .ok filter =>
    match endpoint.bind endpointFault? with
    | some fault => .error (.endpoint fault)
    | none => if running then .error .loggingRuns else .ok filter

/-- Starts collecting metrics. -/
def startMetrics (running : Bool) : Except SetupFault Unit :=
  if running then .error .metricsRun else .ok ()

end JobFleet.Telemetry
