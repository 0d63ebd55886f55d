/-
  JobFleet.Session.Run: taking the steps of a session one after the other.

  While a step waits, all that is due at the moment runs first, and only then time passes to the
  next moment at which something wakes.  Before the next step begins, all that is due has run.
-/
import JobFleet.Session.State

namespace JobFleet.Session

/-! ## Answers -/

namespace State

/-- The answer that the end of a call gives. -/
def answerOf (s : State) : Call → TaskEnd → Answer
  | .outcome, .run outcome => .outcome outcome
  | .reply job, .run outcome => .reply (Fleet.replyOf job outcome)
  | .acquired, .acquired answer => .truth answer
  | .stopped i, .stopped => .truth (s.fleet.isRunning i)
  | _, _ => .missing

/-- The answer of a step in the background. -/
def backgroundAnswer? (name : String) (s : State) : Option Answer :=
  match s.background.lookup name with
  | some (.answered moment answer) => some (.finished moment answer)
  | some _ => none
  | none => some .missing

end State

/-- The answer of a step, if it has been answered, and when. -/
def Pending.answer? : Pending → Option (Nat × Answer)
  | .answered moment answer => some (moment, answer)
  | _ => none

mutual

/-- Answers a step if what it waits for has come. -/
def refresh (s : State) : Pending → Pending × State
  | .answered moment answer => (.answered moment answer, s)
  | .call task call =>
    match s.fleet.collect [task] with
    | ((_, taskEnd) :: _, fleet) =>
      let s := { s with fleet := fleet }
      (.answered s.elapsed (s.answerOf call taskEnd), s)
    | ([], _) => (.call task call, s)
  | .clock moment =>
    if moment ≤ s.elapsed then (.answered s.elapsed .done, s) else (.clock moment, s)
  | .all steps =>
    let (steps, s) := refreshAll s steps
    match steps.mapM Pending.answer? with
    | some answers => (.answered s.elapsed (.all answers), s)
    | none => (.all steps, s)
  | .background name =>
    match s.backgroundAnswer? name with
    | some answer => (.answered s.elapsed answer, s)
    | none => (.background name, s)

/-- Answers those of several steps whose condition has come. -/
def refreshAll (s : State) : List Pending → List Pending × State
  | [] => ([], s)
  | step :: rest =>
    let (step, s) := refresh s step
    let (rest, s) := refreshAll s rest
    (step :: rest, s)

/-- The moments that a step waits for. -/
def moments : Pending → List Nat
  | .clock moment => [moment]
  | .all steps => allMoments steps
  | _ => []

/-- The moments that several steps wait for. -/
def allMoments : List Pending → List Nat
  | [] => []
  | step :: rest => moments step ++ allMoments rest

end

namespace State

/-- Answers the steps in the background whose condition has come. -/
def refreshBackground (s : State) : State :=
  let (pendings, after) := refreshAll s (s.background.map (·.2))
  { after with background := (s.background.map (·.1)).zip pendings }

/-! ## Waiting -/

/-- The last moment at which a task that is not a timer can end. -/
def latestEnd (now : Nat) (t : Task) : Nat :=
  let wakes := match t.state with
    | .sleeping moment => moment
    | _ => now
  match t.activity with
  | .run _ r _ => wakes + r.guard.acquireTimeout.getD 0 + r.job.body.longestSleep
  | .acquire a => max wakes (a.deadline.getD now)
  | _ => now

/-- A bound on the number of times that time passes before a step is answered. -/
def patience (pending : Pending) (s : State) : Nat :=
  let ends := s.fleet.tasks.map (latestEnd s.elapsed)
  let waited := moments pending ++ allMoments (s.background.map (·.2))
  (ends ++ waited).foldl max s.elapsed - s.elapsed + 2

/-- Runs all that is due. -/
def settle (s : State) : State := { s with fleet := s.fleet.settle }

/-- The next moment at which something wakes. -/
def nextMoment? (pending : Pending) (s : State) : Option Nat :=
  ((s.fleet.nextMoment?).toList ++ moments pending ++ allMoments (s.background.map (·.2))).min?

/-- Waits until a step is answered, letting time pass at most `fuel` times. -/
def awaitIn : Nat → Pending → State → Pending × State
  | 0, pending, s => (pending, s)
  | fuel + 1, pending, s =>
    let s := s.settle.refreshBackground
    match refresh s pending with
    | (.answered moment answer, s) => (.answered moment answer, s)
    | (pending, s) =>
      match s.nextMoment? pending with
      | some moment => awaitIn fuel pending { s with fleet := s.fleet.passTo moment }
      | none => (pending, s)

/-- Takes a step: the moment of its answer, the answer, and the session after it. -/
def take (step : Step) (s : State) : (Nat × Answer) × State :=
  let (pending, s) := begin true s step
  match awaitIn (s.patience pending) pending s with
  | (.answered moment answer, s) => ((moment, answer), s)
  | (_, s) => ((s.elapsed, .missing), s)

/-- Takes steps one after the other. -/
def takeAll : List Step → State → List (Nat × Answer) × State
  | [], s => ([], s)
  | step :: rest, s =>
    let (answer, s) := s.take step
    let (answers, s) := takeAll rest s
    (answer :: answers, s)

end State

/-! ## Sessions -/

/-- What one scheduler of a session is made from. -/
structure Member where
  settings : SchedulerSettings
  /-- The scheduler runs with the built-in configuration; its settings hold for its lock and its
      retention job only. -/
  builtIn : Bool

/-- The scheduler with a number. -/
def Member.scheduler (zones : Time.ZoneDatabase) (number : Nat) (m : Member) :
    Except ConfigError Scheduler := do
  let config ← if m.builtIn then pure {} else SchedulerConfig.ofSettings m.settings zones
  return {
    config := config
    lock := ⟨m.settings.lockKeyPrefix, .scheduler number, m.settings.lockRetryDelayMillis.toNat⟩ }

/-- A session that has not begun. -/
def State.ofMembers (start : Time.Instant) (members : List Member)
    (zones : Time.ZoneDatabase := .tabled) :
    Except ConfigError State := do
  let schedulers ← members.zipIdx.mapM (fun (m, number) => m.scheduler zones number)
  return {
    zones := zones
    fleet := { world := { start := start, locks := {} }, schedulers := schedulers }
    settings := members.map (·.settings) }

end JobFleet.Session
