/-
  JobFleet.Session.Trial: running a job alone, several times in a row.
-/
import JobFleet.Fleet.Execution

namespace JobFleet.Session

/-- The world a number of milliseconds later. -/
def later {σ : Type} (ms : Nat) (w : World σ) : World σ := { w with elapsed := w.elapsed + ms }

/-- Runs a job once, without a lock. -/
def runOnce {σ : Type} (job : Job) (sink : Sink) (w : World σ) : RunResult × World σ :=
  let (x, w) := Execution.begin job w
  x.finish job sink (later x.sleep w)

/-- Runs a job a number of times, one run after the other. -/
def runTimes {σ : Type} (job : Job) (sink : Sink) : Nat → World σ → List RunResult × World σ
  | 0, w => ([], w)
  | times + 1, w =>
    let (result, w) := runOnce job sink w
    let (results, w) := runTimes job sink times w
    (result :: results, w)

/-- The events that are at least as severe as asked for, in order. -/
def eventsUpTo {σ : Type} (severity : Severity) (w : World σ) : List Event :=
  (w.log.filter (·.passes severity.rank)).reverse

end JobFleet.Session
