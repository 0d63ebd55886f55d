/-
  JobFleet.Proofs.Ledger.Pruning: what a run of the retention job comes to.

  The body of the retention job subtracts its days from the clock, and the subtraction panics where
  the calendar ends.  Whether it does is a matter of the number of days since the first one of the
  calendar (`Ledger.representable_iff`).  If the window starts in the calendar then a run drops just
  the rows that were entered before it and says how many there were; if not, it has the failure of a
  panic for its result and drops none.  Any positive number of days is valid, one that reaches
  beyond the calendar included.

  Main results:
    * `cleanupEnding_of_representable`, `cleanupEnding_of_unrepresentable` — the two endings of the
      body.
    * `prunes_runOnce`, `givesUp_runOnce` — the run with its result and the rows after it.
    * `retention_reaches_calendar` — which of the two it is, for all valid settings and at every
      time.
-/
import JobFleet.Proofs.Fleet.Containment
import JobFleet.Proofs.Ledger.Retention
import JobFleet.Proofs.Settings.Readiness

namespace JobFleet

open JobFleet.Time

/-! ## The reach of the calendar -/

/-- The days from the epoch to an instant. -/
def Time.Instant.day (t : Instant) : Int := t.nanos / (secondsPerDay * nanosPerSecond)

namespace Ledger

/-- The calendar begins 96,465,292 days before the epoch. -/
theorem nanos_earliest :
    Instant.earliest.nanos = -96465292 * (secondsPerDay * nanosPerSecond) := by decide

/-- A window of some days starts in the calendar if that many days have passed since the first
    one. -/
theorem representable_iff {now : Instant} (hlatest : now ≤ Instant.latest) (days : Nat) :
    (Call.cleanup now days).Representable ↔ (days : Int) ≤ now.day + 96465292 := by
  -- the window is not later than now, so only the first day of the calendar can be in its way
  have hlatest' : now.nanos ≤ Instant.latest.nanos := hlatest
  have hday : (days : Int) ≤ now.day + 96465292 ↔
      ((days : Int) - 96465292) * (secondsPerDay * nanosPerSecond) ≤ now.nanos := by
    rw [← Int.le_ediv_iff_mul_le (by decide)]
    exact ⟨Int.sub_right_le_of_le_add, Int.le_add_of_sub_right_le⟩
  rw [hday]
  show decide (Instant.earliest.nanos ≤ now.nanos - secondsPerDay * days * nanosPerSecond ∧
    now.nanos - secondsPerDay * days * nanosPerSecond ≤ Instant.latest.nanos) = true ↔ _
  rw [decide_eq_true_eq, nanos_earliest]
  simp only [secondsPerDay, nanosPerSecond]
  omega

/-- The clock less the days has no value just when the window starts outside of the calendar. -/
theorem isNone_windowStart? {now : Instant} {days : Int} :
    (windowStart? now (secondsPerDay * days)).isNone = true ↔
    ¬ (Call.cleanup now days).Representable := by
  have hwindow : windowStart? now (secondsPerDay * days) =
    if (Call.cleanup now days).Representable then
      some ⟨now.nanos - secondsPerDay * days * nanosPerSecond⟩ else none := by
    unfold windowStart? Instant.later?
    rw [← Int.sub_eq_add_neg]
    rfl
  rw [hwindow]
  split <;> simp [*]

end Ledger

/-! ## The body -/

open Ledger (Call)

variable {σ : Type}

/-- The number of rows that a cleanup now finds too old. -/
def World.outdated (days : UInt32) (w : World σ) : Nat :=
  w.ledger.rows.countP (fun row => (Call.cleanup w.now days.toNat).Outdates row)

/-- The rows that it keeps. -/
def World.lasting (days : UInt32) (w : World σ) : List Row :=
  w.ledger.rows.filter (fun row => ¬ (Call.cleanup w.now days.toNat).Outdates row)

/-- The outcome of a body that deleted rows. -/
def Outcome.ofDeleted (deleted : Nat) (days : UInt32) : Outcome :=
  ⟨true, "Deleted " ++ toString deleted ++ " execution logs",
    some (.obj [("deleted", .ofNat deleted), ("retention_days", .ofNat days.toNat)])⟩

/-- The text of the panic when an instant leaves the calendar. -/
def overflowReason : String := "`DateTime - TimeDelta` overflowed"

theorem cleanupEnding_of_representable {days : UInt32} {w : World σ} (hf : w.ledger.failing = [])
    (h : (Call.cleanup w.now days.toNat).Representable) :
    (cleanupEnding days w).1 = .returned (.ofDeleted (w.outdated days) days) ∧
      (cleanupEnding days w).2.ledger = { w.ledger with rows := w.lasting days } := by
  have hcleanup : w.ledger.cleanup w.now days.toNat =
      (.ok (w.outdated days), { w.ledger with rows := w.lasting days }) :=
    Prod.ext (Ledger.cleanup_answer hf h).1 (Ledger.call_cleanup hf h)
  unfold cleanupEnding
  rw [hf, if_neg List.not_mem_nil, if_neg (fun hnone => Ledger.isNone_windowStart?.1 hnone h),
    hcleanup]
  exact ⟨rfl, rfl⟩

theorem cleanupEnding_of_unrepresentable {days : UInt32} {w : World σ} (hf : w.ledger.failing = [])
    (h : ¬ (Call.cleanup w.now days.toNat).Representable) :
    cleanupEnding days w = (.panicked (.text overflowReason), w) := by
  unfold cleanupEnding
  rw [hf, if_neg List.not_mem_nil, if_pos (Ledger.isNone_windowStart?.2 h)]
  rfl

/-! ## The run -/

/-- After a run of the retention job the ledger has these rows, and beside them at most the row of
    the run, if it is the sink. -/
def World.HasRows (rows : List Row) (sink : Sink) (w w' : World σ) : Prop :=
  ∃ own, w'.ledger.rows = rows ++ own ∧ ∀ row ∈ own, sink = .ledger ∧ row.job = CleanupJob.jobId ∧
    row.createdAt = w.now

/-- The rows that a body leaves are there after its sink was handed the record. -/
theorem Sink.Handed.hasRows {s : Sink} {report : Report} {w₁ w' : World σ}
    (h : s.Handed report w₁ w') (hf : w₁.ledger.failing = []) (hjob : report.job = CleanupJob.jobId)
    {w : World σ} (hnow : w₁.now = w.now) :
    w.HasRows w₁.ledger.rows s w' := by
  cases s with
  | none => exact ⟨[], by rw [h.1, List.append_nil], nofun⟩
  | recorder ending => exact ⟨[], by rw [h.1, List.append_nil], nofun⟩
  | ledger =>
    refine ⟨[Row.ofReport w₁.ledger.freshId report w₁.now], ?_, ?_⟩
    · rw [h.1, Ledger.create, hf, if_neg List.not_mem_nil]
      rfl
    · intro row hrow
      rw [List.mem_singleton.1 hrow]
      exact ⟨rfl, hjob, hnow⟩

namespace Session

variable {job : Job} {days : UInt32}

/-- A run of a retention job has the result of its body, and its sink is handed the record after
    it. -/
theorem runOnce_cleanup (hbody : job.body = .cleanup days) (sink : Sink) (w : World σ) :
    (runOnce job sink w).1 =
      .ofEnding (cleanupEnding days (w.emit .info "Job execution started" [])).1 ∧
      ∃ report, report.job = job.id ∧
        sink.Handed report (cleanupEnding days (w.emit .info "Job execution started" [])).2
          (runOnce job sink w).2 := by
  let body := cleanupEnding days (w.emit .info "Job execution started" [])
  -- the body takes no time, so the run ends at the moment at which it began
  have hbegin : Execution.begin job w = (⟨w.elapsed, 0, body.1⟩, body.2) := by
    unfold Execution.begin
    rw [hbody]
    rfl
  unfold runOnce
  rw [hbegin]
  exact ⟨rfl, _, rfl, Execution.handed_finish ⟨w.elapsed, 0, body.1⟩ job sink body.2⟩

/-- With its window in the calendar a run drops the rows that are outdated and answers how many
    there were. -/
theorem prunes_runOnce (hbody : job.body = .cleanup days) (hid : job.id = CleanupJob.jobId)
    (sink : Sink) {w : World σ} (hf : w.ledger.failing = [])
    (h : (Call.cleanup w.now days.toNat).Representable) :
    (runOnce job sink w).1 = .ofEnding (.returned (.ofDeleted (w.outdated days) days)) ∧
      w.HasRows (w.lasting days) sink (runOnce job sink w).2 := by
  obtain ⟨hresult, report, hjob, hhanded⟩ := runOnce_cleanup hbody sink w
  obtain ⟨hending, hledger⟩ :=
    cleanupEnding_of_representable (w := w.emit .info "Job execution started" []) hf h
  rw [hresult, hending]
  refine ⟨rfl, ?_⟩
  have hnow := ((Body.cleanup days).still_start (w.emit .info "Job execution started" [])).now
  have hrows := hhanded.hasRows (by rw [hledger]; exact hf) (hjob.trans hid) hnow
  rw [hledger] at hrows
  exact hrows

/-- Otherwise it has the failure of a panic for its result, and drops none. -/
theorem givesUp_runOnce (hbody : job.body = .cleanup days) (hid : job.id = CleanupJob.jobId)
    (sink : Sink) {w : World σ} (hf : w.ledger.failing = [])
    (h : ¬ (Call.cleanup w.now days.toNat).Representable) :
    (runOnce job sink w).1 = .ofEnding (.panicked (.text overflowReason)) ∧
      w.HasRows w.ledger.rows sink (runOnce job sink w).2 := by
  obtain ⟨hresult, report, hjob, hhanded⟩ := runOnce_cleanup hbody sink w
  rw [cleanupEnding_of_unrepresentable (w := w.emit .info "Job execution started" []) hf h]
    at hresult hhanded
  exact ⟨hresult, hhanded.hasRows hf (hjob.trans hid) rfl⟩

end Session

/-! ## Valid settings -/

/-- Valid settings have a retention job, which keeps its identity and deletes by their days. -/
theorem CleanupJob.exists_of_valid {zones : ZoneDatabase} {s : Settings}
    (hvalid : s.validate zones = .ok ()) :
    CleanupJob.ofSettings s.scheduler zones =
      .ok (CleanupJob.declared s.scheduler.retentionDays s.scheduler.retentionCron) := by
  obtain ⟨-, zone, cron, hzone, hcron⟩ := validate_eq_ok_iff.1 hvalid
  rw [CleanupJob.ofSettings_eq, hzone]
  show (Schedule.CronTrigger.parse s.scheduler.retentionCron zone).map _ = _
  rw [hcron]
  rfl

/-- **Retention reaches as far as the calendar.**  Valid settings have a retention job, whichever
    zones there are.  Let a run of it begin at any time, with a ledger that fails nothing and any
    sink.  If the calendar has as many days before that time as rows are to be kept, which it has of
    up to 96,465,292 days at any time since 1970, then the run succeeds: the rows that were entered
    before its window are gone, all others are there in order, and the answer has the number of rows
    gone and the number of days.  Otherwise the run has the failure of a panic as its result, and
    all rows are still there. -/
theorem retention_reaches_calendar (zones : ZoneDatabase) (s : Settings)
    (hvalid : s.validate zones = .ok ()) :
    ∃ cleanup, CleanupJob.ofSettings s.scheduler zones = .ok cleanup ∧
      ∀ (σ : Type) (w : World σ) (sink : Sink), w.ledger.failing = [] → w.now ≤ Instant.latest →
        ((s.scheduler.retentionDays.toNat : Int) ≤ w.now.day + 96465292 →
          (Session.runOnce (.ofCleanup cleanup) sink w).1 =
              .ofEnding (.returned (.ofDeleted (w.outdated s.scheduler.retentionDays)
                s.scheduler.retentionDays)) ∧
            w.HasRows (w.lasting s.scheduler.retentionDays) sink
              (Session.runOnce (.ofCleanup cleanup) sink w).2) ∧
        (w.now.day + 96465292 < s.scheduler.retentionDays.toNat →
          (Session.runOnce (.ofCleanup cleanup) sink w).1 =
            .ofEnding (.panicked (.text overflowReason)) ∧
            w.HasRows w.ledger.rows sink (Session.runOnce (.ofCleanup cleanup) sink w).2) := by
  refine ⟨_, CleanupJob.exists_of_valid hvalid, ?_⟩
  intro σ w sink hf hlatest
  have hreaches := Ledger.representable_iff hlatest s.scheduler.retentionDays.toNat
  constructor
  · intro hdays
    exact Session.prunes_runOnce rfl rfl sink hf (hreaches.2 hdays)
  · intro hdays
    exact Session.givesUp_runOnce rfl rfl sink hf (fun h => Int.not_lt.2 (hreaches.1 h) hdays)

/-- The fortieth day, with a row from the first day and one from the twentieth. -/
def fortiethDay : World Unit where
  start := Ledger.dayStart 40
  locks := ()
  ledger := { rows := [Row.ofReport ⟨0⟩ (Ledger.reportOn "report" 0) (Ledger.dayStart 0),
    Row.ofReport ⟨1⟩ (Ledger.reportOn "report" 20) (Ledger.dayStart 20)] }

/-- With the built-in settings the first of the two rows goes and the second stays. -/
theorem retention_reaches_calendar_fortiethDay : ({} : Settings).validate .tabled = .ok () ∧
    ∃ cleanup, CleanupJob.ofSettings ({} : Settings).scheduler .tabled = .ok cleanup ∧
      (Session.runOnce (.ofCleanup cleanup) .none fortiethDay).1.message =
        "Deleted 1 execution logs" ∧
      (Session.runOnce (.ofCleanup cleanup) .none fortiethDay).2.ledger.rows.map (·.id) =
        [⟨1⟩] := by
  have hvalid : ({} : Settings).validate .tabled = .ok () := rfl
  obtain ⟨cleanup, hcleanup, hruns⟩ := retention_reaches_calendar .tabled {} hvalid
  obtain ⟨hprunes, -⟩ := hruns Unit fortiethDay .none rfl (by decide)
  obtain ⟨hresult, own, hrows, hown⟩ := hprunes (by decide)
  have hnone : own = [] := List.eq_nil_iff_forall_not_mem.2 fun row hrow =>
    nomatch (hown row hrow).1
  refine ⟨hvalid, cleanup, hcleanup, ?_, ?_⟩
  · rw [hresult]
    decide
  · rw [hrows, hnone]
    decide

/-- Settings that ask for rows to be kept for a hundred million days. -/
def longMemory : Settings := { scheduler := { retentionDays := 100000000 } }

/-- They are valid, but in 1970 their retention job fails. -/
theorem longMemory_gives_up : longMemory.validate .tabled = .ok () ∧
    ∃ cleanup, CleanupJob.ofSettings longMemory.scheduler .tabled = .ok cleanup ∧ ∀ sink,
      (Session.runOnce (.ofCleanup cleanup) sink ({ start := ⟨0⟩, locks := () } :
        World Unit)).1.success = false := by
  have hvalid : longMemory.validate .tabled = .ok () := rfl
  refine ⟨hvalid, _, CleanupJob.exists_of_valid hvalid, fun sink => ?_⟩
  have hpanics := @Session.givesUp_runOnce Unit (.ofCleanup (.declared 100000000 "30 3 * * *"))
    100000000 rfl rfl sink
    { start := ⟨0⟩, locks := () } rfl (by decide)
  exact congrArg RunResult.success hpanics.1

end JobFleet
