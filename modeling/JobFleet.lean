import JobFleet.Text.Blank
import JobFleet.Text.Shortest
import JobFleet.Json.Reader
import JobFleet.Json.Writer
import JobFleet.Time.Timestamp
import JobFleet.Time.ZoneTable
import JobFleet.Schedule.Trigger
import JobFleet.Job.Definition
import JobFleet.Form.Job
import JobFleet.Form.View
import JobFleet.Settings.Validation
import JobFleet.Form.Settings
import JobFleet.Json.Overlay
import JobFleet.Toml.Reader
import JobFleet.Settings.Layers
import JobFleet.Startup
import JobFleet.Job.Cleanup
import JobFleet.Lock.Faulty
import JobFleet.Ledger.Memory
import JobFleet.Telemetry.Metrics
import JobFleet.Fleet.Guard
import JobFleet.Form.Metrics
import JobFleet.Session.Trial
import JobFleet.Fleet.Machine
import JobFleet.Fleet.Service
import JobFleet.Session.Run
import JobFleet.Main
import JobFleet.Proofs.Fleet.Takeover
import JobFleet.Proofs.Fleet.FireInstant
import JobFleet.Proofs.Fleet.FailClosed
import JobFleet.Proofs.Text.Tokens
import JobFleet.Proofs.Schedule.Grammar
import JobFleet.Proofs.Schedule.Expression
import JobFleet.Proofs.Time.Regular
import JobFleet.Proofs.Schedule.Search
import JobFleet.Proofs.Schedule.Earliest
import JobFleet.Proofs.Fleet.Occurrences
import JobFleet.Proofs.Fleet.Turns
import JobFleet.Proofs.Fleet.Registry
import JobFleet.Proofs.Fleet.Wiring
import JobFleet.Proofs.Fleet.Requests
import JobFleet.Proofs.Fleet.Effects
import JobFleet.Proofs.Fleet.Draining
import JobFleet.Proofs.Fleet.Urgency
import JobFleet.Proofs.Schedule.Cadence
import JobFleet.Proofs.Fleet.Periods
import JobFleet.Proofs.Fleet.Ticks
import JobFleet.Proofs.Fleet.TimerTrace
import JobFleet.Proofs.Fleet.Handles
import JobFleet.Proofs.Fleet.Blocking
import JobFleet.Proofs.Fleet.LeaseTime
import JobFleet.Proofs.Fleet.Agreement
import JobFleet.Proofs.Fleet.Interference
import JobFleet.Proofs.Fleet.Readings
import JobFleet.Proofs.Ledger.Retention
import JobFleet.Proofs.Lock.Eager
import JobFleet.Proofs.Fleet.Books
import JobFleet.Proofs.Fleet.Conservation
import JobFleet.Proofs.Settings.Readiness
import JobFleet.Proofs.Settings.Layering
import JobFleet.Proofs.Text.Numerals
import JobFleet.Proofs.Json.Leaves
import JobFleet.Proofs.Json.RoundTrip
import JobFleet.Proofs.Time.Timestamp
import JobFleet.Proofs.Form.Fields
import JobFleet.Proofs.Form.RoundTrip
import JobFleet.Proofs.Word.Checked
import JobFleet.Proofs.Schedule.CatchUp
import JobFleet.Proofs.Fleet.History
import JobFleet.Proofs.Lock.Polling
import JobFleet.Proofs.Settings.Requirements
import JobFleet.Proofs.Fleet.Containment
import JobFleet.Proofs.Ledger.Pruning
import JobFleet.Proofs.Job.Declaration
import JobFleet.Proofs.Ledger.Window
import JobFleet.Proofs.Fleet.Status
import JobFleet.Proofs.Fleet.Announcements
import JobFleet.Proofs.Fleet.Displays
import JobFleet.Proofs.Fleet.NextRun
