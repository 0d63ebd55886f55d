/-
  JobFleet.Startup: the start of the program up to the first connection.

  The settings are loaded, logging is started, the settings are checked, metrics are started, and
  the database is opened.  The first step that fails ends the program.  Events go through the log
  filter, which knows their areas.
-/
import JobFleet.Net.Connection
import JobFleet.Settings.Layers
import JobFleet.Settings.Validation
import JobFleet.Telemetry.Setup

namespace JobFleet.Startup

open JobFleet.Telemetry JobFleet.Net JobFleet.Time

/-! ## Areas -/

/-- The part of the program that an event comes from. -/
inductive Area
  | program
  | telemetry
  | database
deriving DecidableEq, Repr

/-- The name by which a filter knows an area. -/
def Area.path : Area → String
  | .program => "hr_scheduler"
  | .telemetry => "scheduler_core::telemetry"
  | .database => "scheduler_core::db::pool"

/-! ## Report -/

/-- How the start ended. -/
structure Report where
  /-- Why the program ended; none when it is ready to use the database. -/
  fault : Option String
  events : List Event

/-- What is logged before the database is opened. -/
def openingEvents (s : Settings) : List (Area × Event) :=
  let port := s.observability.metricsPort.toNat
  [(.telemetry, ⟨.info, "Prometheus metrics exporter initialized",
      [("metrics_port", .ofNat port),
       ("metrics_endpoint", .str ("http://0.0.0.0:" ++ toString port ++ "/metrics"))]⟩),
   (.program, ⟨.info, "Initializing database connection pool", []⟩),
   (.database, ⟨.info, "Connecting execution ledger database", []⟩)]

/-- What is logged once logging runs. -/
def loggingEvents (s : Settings) : List (Area × Event) :=
  let endpoint := match s.observability.tracingEndpoint with
    | some endpoint => [("tracing_endpoint", Json.str endpoint)]
    | none => []
  [(.telemetry, ⟨.info, "Structured logging initialized",
      ("log_level", .str s.observability.logLevel) :: endpoint⟩),
   (.program, ⟨.info, "Starting HR job scheduler", []⟩)]

/-- An event that reports an error. -/
def errorEvent (message error : String) : Event := ⟨.error, message, [("error", .str error)]⟩

/-- Checks the settings and opens the database: the fault and all events of it. -/
def afterLogging (s : Settings) (zones : ZoneDatabase) : Option String × List (Area × Event) :=
  match s.validate zones with
  | .error fault =>
    (some fault.message, [(.program, errorEvent "Invalid configuration" fault.message)])
  | .ok _ =>
    match databaseUrlFault? s.database.url with
    | none => (none, openingEvents s)
    | some text =>
      let fault := (LedgerError.connectionFailed text).message
      (some fault, openingEvents s ++
        [(.database, errorEvent "Failed to create database pool" text),
         (.program, errorEvent "Failed to initialize database pool" fault)])

/-- Starts the program with the texts of its files, its environment, and the log filter that
    overrides the settings. -/
def run (defaultFile localFile : Option String) (environment : List (String × String))
    (filterOverride : Option String) (zones : ZoneDatabase := .tabled) : Report :=
  match Settings.load? defaultFile localFile environment with
  | none => ⟨some "Failed to load configuration", []⟩
  | some s =>
    match startLogging false filterOverride s.observability.logLevel
      s.observability.tracingEndpoint with
    | .error fault => ⟨some fault.message, []⟩
    | .ok filter =>
      let (fault, events) := afterLogging s zones
      let shown := (loggingEvents s ++ events).filter (fun e => e.2.passes (filter.rankOf e.1.path))
      ⟨fault, shown.map (·.2)⟩

end JobFleet.Startup
