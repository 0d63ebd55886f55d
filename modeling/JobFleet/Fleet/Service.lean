/-
  JobFleet.Fleet.Service: what operators ask.

  The service joins the live state of a scheduler with the ledger and the lock store.  Parameters
  are checked before anything else is done.  A lock store that fails does not hide the rest of a
  status.
-/
import JobFleet.Fleet.Manager

namespace JobFleet.Fleet

open JobFleet.Time

variable {σ : Type} [LockStore σ]

/-! ## Parameters -/

/-- How many hours of failures a status counts. -/
def failureWindowHours : Int := 24

/-- The fault of a parameter that must lie between two bounds. -/
def rangeFault (field : String) (low high : Nat) : ServiceError :=
  .validation ⟨field, field ++ " must be between " ++ toString low ++ " and " ++ toString high⟩

/-! ## Status -/

/-- The lock part of a status, and the world after a failure was logged. -/
def lockState (lock : Lock) (job : String) (w : World σ) : Option Int × World σ :=
  match lock.remaining job w with
  | .ok left => (left, w)
  | .error e =>
    (none, w.emit .warn "Lock state unavailable" [("job_id", .str job), ("error", .str e.message)])

/-- The status of a job. -/
def statusOf (lock : Lock) (info : JobInfo) (w : World σ) :
    Except LedgerError StatusView × World σ :=
  match w.ledger.latest? info.id with
  | .error e => (.error e, w)
  | .ok last =>
    match w.ledger.countFailed (some info.id) w.now failureWindowHours with
    | .error e => (.error e, w)
    | .ok failures =>
      let (left, w) := lockState lock info.id w
      (.ok ⟨info, left.isSome, left, last, failures⟩, w)

/-- The statuses of several jobs, up to the first that the ledger fails. -/
def statusesOf (lock : Lock) :
    List JobInfo → World σ → Except LedgerError (List StatusView) × World σ
  | [], w => (.ok [], w)
  | info :: rest, w =>
    match statusOf lock info w with
    | (.error e, w) => (.error e, w)
    | (.ok view, w) =>
      match statusesOf lock rest w with
      | (.error e, w) => (.error e, w)
      | (.ok views, w) => (.ok (view :: views), w)

/-- Turns the error of the ledger into one of the service. -/
def ofLedger {α : Type} (r : Except LedgerError α × World σ) (fleet : Fleet σ) :
    Except ServiceError α × Fleet σ :=
  (r.1.mapError .ledger, { fleet with world := r.2 })

/-- The status of a registered job. -/
def status (i : Nat) (id : String) (fleet : Fleet σ) : Except ServiceError StatusView × Fleet σ :=
  match fleet.schedulers[i]?, fleet.info? i id with
  | some s, some info => fleet.ofLedger (statusOf s.lock info fleet.world)
  | _, _ => (.error (.notFound id), fleet)

/-- The status of every registered job. -/
def statuses (i : Nat) (fleet : Fleet σ) : Except ServiceError (List StatusView) × Fleet σ :=
  match fleet.schedulers[i]? with
  | some s => fleet.ofLedger (statusesOf s.lock (fleet.infos i) fleet.world)
  | none => (.ok [], fleet)

/-- Pauses a job and tells its status. -/
def pauseJob (i : Nat) (id : String) (fleet : Fleet σ) : Except ServiceError StatusView × Fleet σ :=
  match fleet.pause i id with
  | (.error e, fleet) => (.error (.ofManager e), fleet)
  | (.ok _, fleet) => fleet.status i id

/-- Resumes a job and tells its status. -/
def resumeJob (i : Nat) (id : String) (fleet : Fleet σ) :
    Except ServiceError StatusView × Fleet σ :=
  match fleet.resume i id with
  | (.error e, fleet) => (.error (.ofManager e), fleet)
  | (.ok _, fleet) => fleet.status i id

/-! ## History -/

/-- One page of the history of a job, newest first; pages start at one and have at most a hundred
    rows. -/
def history (job : String) (page limit : UInt32) (ledger : Ledger) :
    Except ServiceError HistoryPage :=
  if page < 1 then .error (.validation ⟨"page", "page must be >= 1"⟩)
  else if limit < 1 ∨ 100 < limit then .error (rangeFault "limit" 1 100)
  else
    let offset : Int := (page.toNat - 1) * limit.toNat
    match ledger.list job limit.toNat offset with
    | .error e => .error (.ledger e)
    | .ok items =>
      match ledger.count job with
      | .error e => .error (.ledger e)
      | .ok total => .ok ⟨job, page, limit, total, items⟩

/-- The rows of all jobs of the last hours, at most a week. -/
def recentRuns (now : Instant) (hours : Int) (ledger : Ledger) : Except ServiceError (List Row) :=
  if hours < 1 ∨ 168 < hours then .error (rangeFault "hours" 1 168)
  else (ledger.recent now hours).mapError .ledger

/-- Drops the rows older than a number of days, at most ten years; tells how many. -/
def cleanRuns (now : Instant) (days : Int) (ledger : Ledger) : Except ServiceError Nat × Ledger :=
  if days < 1 ∨ 3650 < days then (.error (rangeFault "days" 1 3650), ledger)
  else
    let (answer, ledger) := ledger.cleanup now days
    (answer.mapError .ledger, ledger)

/-! ## Manual runs -/

/-- The reply to a request to run a job, from how the run ended. -/
def replyOf (job : String) : RunOutcome → TriggerReply
  | .completed result => ⟨job, .completed, some result.success, result.message, result.data⟩
  | _ => ⟨job, .alreadyRunning, none, "Job is already running elsewhere", none⟩

end JobFleet.Fleet
