/-
  JobFleet.Proofs.Fleet.Containment: whatever a body and a sink do, a run has a result.

  A run comes to its result, and is counted, before its record is handed to anyone
  (`Execution.exists_settled`): up to there the sink is not looked at.  What the sink then does to
  the world is to take one record, and its answer is logged.  So two runs with different sinks have
  the same result and the same metrics, and go on in worlds that differ in nothing that a scripted
  body reads.

  Main results:
    * `RunResult.tells_ofEnding` — what a result says about the ending of the body.
    * `Execution.exists_settled` — a run up to the moment at which its sink is asked.
    * `runTimes_indifferent` — any number of runs with one sink and with another.
    * `runs_are_contained` — the result, the metrics and the record of a run, for every body and
      every sink.
-/
import JobFleet.Proofs.Fleet.Books
import JobFleet.Session.Trial

namespace JobFleet

open JobFleet.Time

/-! ## Results -/

/-- What a result says about the ending of a body. -/
structure RunResult.Tells (result : RunResult) (ending : Ending) : Prop where
  success : result.success = true ↔ ∃ outcome, ending = .returned outcome ∧ outcome.success = true
  error : result.error.isSome = true ↔ (∃ error, ending = .failed error) ∨
    ∃ payload, ending = .panicked payload
  data : ∀ outcome, ending = .returned outcome → result.data = outcome.data
  noData : (∀ outcome, ending ≠ .returned outcome) → result.data = none

theorem RunResult.tells_ofEnding (ending : Ending) : (ofEnding ending).Tells ending := by
  cases ending with
  | returned outcome =>
    refine ⟨⟨fun h => ⟨outcome, rfl, h⟩, ?_⟩, ⟨nofun, ?_⟩, ?_, fun h => absurd rfl (h outcome)⟩
    · rintro ⟨_, heq, h⟩
      cases heq
      exact h
    · rintro (⟨_, heq⟩ | ⟨_, heq⟩) <;> cases heq
    · rintro _ heq
      cases heq
      rfl
  | failed error =>
    exact ⟨⟨nofun, fun ⟨_, heq, _⟩ => nomatch heq⟩, ⟨fun _ => .inl ⟨error, rfl⟩, fun _ => rfl⟩,
      nofun, fun _ => rfl⟩
  | panicked payload =>
    exact ⟨⟨nofun, fun ⟨_, heq, _⟩ => nomatch heq⟩, ⟨fun _ => .inr ⟨payload, rfl⟩, fun _ => rfl⟩,
      nofun, fun _ => rfl⟩

/-- A record has the fields of a result. -/
structure Report.Shows (report : Report) (result : RunResult) : Prop where
  success : report.success = result.success
  message : report.message = result.message
  errorTrace : report.errorTrace = result.error
  resultData : report.resultData = result.data

/-! ## Metrics -/

namespace Metrics

/-- A run of a job is counted, once as a success or once as a failure, with its duration, and
    nothing else is. -/
structure CountsRun (job : String) (success : Bool) (seconds : Float) (m m' : Metrics) : Prop where
  counters : ∀ c, m'.count c = m.count c + if c = (if success then .succeeded job
    else .failed job) then 1 else 0
  durations : ∀ id, m'.durationsOf id = m.durationsOf id ++ if id = job then [seconds] else []
  registered : m'.registered = m.registered

theorem countsRun_recordRun (job : String) (success : Bool) (seconds : Float) (m : Metrics) :
    m.CountsRun job success seconds (m.recordRun job success seconds) := by
  refine ⟨m.count_recordRun job success seconds, ?_, rfl⟩
  intro id
  unfold durationsOf recordRun recordDuration raise
  by_cases h : id = job
  · subst h
    simp only [lookup_alter_self]
    cases m.durations.lookup id <;> simp
  · simp [lookup_alter_ne h, h]

end Metrics

/-! ## Sinks -/

/-- Two worlds differ at most in what sinks write, in the log and in the locks. -/
structure World.Twin {σ : Type} (w w' : World σ) : Prop where
  start : w'.start = w.start
  elapsed : w'.elapsed = w.elapsed
  tallies : w'.tallies = w.tallies
  metrics : w'.metrics = w.metrics

theorem World.Twin.refl {σ : Type} (w : World σ) : w.Twin w := ⟨rfl, rfl, rfl, rfl⟩

theorem World.Twin.symm {σ : Type} {w w' : World σ} (h : w.Twin w') : w'.Twin w :=
  ⟨h.start.symm, h.elapsed.symm, h.tallies.symm, h.metrics.symm⟩

theorem World.Twin.trans {σ : Type} {w₁ w₂ w₃ : World σ} (h : w₁.Twin w₂)
    (h' : w₂.Twin w₃) : w₁.Twin w₃ :=
  ⟨h'.start.trans h.start, h'.elapsed.trans h.elapsed, h'.tallies.trans h.tallies,
    h'.metrics.trans h.metrics⟩

namespace Sink

variable {σ : Type}

/-- From one world to another a sink was handed one record, and no other sink any. -/
def Handed (report : Report) (w w' : World σ) : Sink → Prop
  | .none => w'.ledger = w.ledger ∧ w'.recorded = w.recorded
  | .ledger => w'.ledger = (w.ledger.create w.now report).2 ∧ w'.recorded = w.recorded
  | .recorder _ => w'.ledger = w.ledger ∧ w'.recorded = report :: w.recorded

theorem handed_take (s : Sink) (report : Report) (w : World σ) :
    s.Handed report w (s.take report w).2 := by
  cases s with
  | none => exact ⟨rfl, rfl⟩
  | ledger =>
    refine ⟨ledger_take report w, ?_⟩
    simp only [take]
    split <;> rfl
  | recorder ending => cases ending <;> exact ⟨rfl, rfl⟩

/-- What a sink was handed shows in its book alone. -/
theorem Handed.of_books {s : Sink} {report : Report} {w₁ w₂ w w' : World σ}
    (h : s.Handed report w₁ w₂) (hnow : w₁.now = w.now) (hledger : w₁.ledger = w.ledger)
    (hrecorded : w₁.recorded = w.recorded) (hafter : w₂.SameBooks w') : s.Handed report w w' := by
  cases s with
  | none => exact ⟨by rw [hafter.ledger, h.1, hledger], by rw [hafter.recorded, h.2, hrecorded]⟩
  | ledger =>
    exact ⟨by rw [hafter.ledger, h.1, hledger, hnow], by rw [hafter.recorded, h.2, hrecorded]⟩
  | recorder ending =>
    exact ⟨by rw [hafter.ledger, h.1, hledger], by rw [hafter.recorded, h.2, hrecorded]⟩

/-- Taking a record and logging the answer leaves a twin. -/
theorem twin_logSink_take (s : Sink) (report : Report) (w : World σ) :
    w.Twin (logSink (s.take report w).1 (s.take report w).2) := by
  obtain ⟨ledger, recorded, htaken⟩ := s.take_writes report w
  obtain ⟨log, hlogged⟩ := logSink_writes (s.take report w).1 (s.take report w).2
  rw [hlogged, htaken]
  exact ⟨rfl, rfl, rfl, rfl⟩

end Sink

/-! ## One run -/

namespace Execution

variable {σ : Type}

/-- A run up to the moment at which its sink is asked: it has its result and is counted, and nothing
    depends on the sink. -/
theorem exists_settled (x : Execution) (job : Job) (w : World σ) : ∃ settled : World σ,
    w.Still settled ∧ settled.ledger = w.ledger ∧ settled.recorded = w.recorded ∧
      settled.tallies = (job.body.stop x.sleep w).tallies ∧
      settled.metrics = w.metrics.recordRun job.id (RunResult.ofEnding x.ending).success
        (x.report job (.ofEnding x.ending) w).durationSeconds ∧
      ∀ sink, x.finish job sink w = (.ofEnding x.ending,
        logSink (sink.take (x.report job (.ofEnding x.ending) w) settled).1
          (sink.take (x.report job (.ofEnding x.ending) w) settled).2) := by
  -- the wait of the body ends, the result is logged, and the run is counted: none of this looks at
  -- the sink
  let result := RunResult.ofEnding x.ending
  let stopped := job.body.stop x.sleep w
  let seconds := secondsOfMillis (stopped.elapsed - x.beganAt)
  let settled := (logResult result seconds stopped).measure
    (·.recordRun job.id result.success seconds)
  have hstop : w.Still stopped := job.body.still_stop x.sleep w
  have hstill : w.Still settled :=
    hstop.trans ((still_logResult result seconds stopped).trans
      (World.still_measure (·.recordRun job.id result.success seconds) _))
  have hlog : stopped.SameBooks (logResult result seconds stopped) :=
    sameBooks_logResult result seconds stopped
  refine ⟨settled, hstill, hlog.ledger.trans (job.body.ledger_stop x.sleep w),
    hlog.recorded.trans (job.body.recorded_stop x.sleep w), hlog.tallies, ?_, ?_⟩
  · obtain ⟨log, hlogged⟩ := logResult_writes result seconds stopped
    show (logResult result seconds stopped).metrics.recordRun job.id result.success
      (secondsOfMillis (stopped.elapsed - x.beganAt)) = _
    rw [hlogged, hstop.elapsed]
    show stopped.metrics.recordRun _ _ _ = _
    rw [job.body.metrics_stop x.sleep w]
    rfl
  · intro sink
    show (result, logSink (sink.take (x.report job result settled) settled).1
      (sink.take (x.report job result settled) settled).2) = _
    rw [report_of_still hstill]

/-- The sink of a run that ends is handed its record. -/
theorem handed_finish (x : Execution) (job : Job) (sink : Sink) (w : World σ) :
    sink.Handed (x.report job (.ofEnding x.ending) w) w (x.finish job sink w).2 := by
  obtain ⟨settled, hstill, hledger, hrecorded, -, -, hfinish⟩ := x.exists_settled job w
  rw [hfinish sink]
  exact (sink.handed_take _ settled).of_books hstill.now hledger hrecorded (sameBooks_logSink _ _)

/-- A run that ends has a result and metrics that no sink has a part in, and its sink is handed its
    record. -/
theorem finish_contained (x : Execution) (job : Job) {w : World σ}
    (hclock : x.beganAt ≤ w.elapsed) :
    ∃ result report metrics, result.Tells x.ending ∧ report.Shows result ∧ report.job = job.id ∧
      report.startedAt = w.start.plusMillis x.beganAt ∧ report.finishedAt = w.now ∧
      report.startedAt ≤ report.finishedAt ∧
      w.metrics.CountsRun job.id result.success report.durationSeconds metrics ∧
      ∀ sink, (x.finish job sink w).1 = result ∧ (x.finish job sink w).2.metrics = metrics ∧
        sink.Handed report w (x.finish job sink w).2 := by
  obtain ⟨settled, -, -, -, -, hmetrics, hfinish⟩ := x.exists_settled job w
  let report := x.report job (.ofEnding x.ending) w
  have hordered : report.startedAt ≤ report.finishedAt := by
    show w.start.nanos + x.beganAt * nanosPerMilli ≤ w.start.nanos + w.elapsed * nanosPerMilli
    unfold nanosPerMilli
    omega
  refine ⟨.ofEnding x.ending, report, settled.metrics, RunResult.tells_ofEnding x.ending,
    ⟨rfl, rfl, rfl, rfl⟩, rfl, rfl, rfl, hordered, ?_, ?_⟩
  · rw [hmetrics]
    exact w.metrics.countsRun_recordRun job.id _ _
  · intro sink
    refine ⟨rfl, ?_, x.handed_finish job sink w⟩
    rw [hfinish sink]
    exact (sink.twin_logSink_take report settled).metrics

/-- In a twin a run ends with the same result, whatever the sinks are, and leaves a twin. -/
theorem twin_finish (x : Execution) (job : Job) {w w' : World σ} (h : w.Twin w') (s s' : Sink) :
    (x.finish job s' w').1 = (x.finish job s w).1 ∧
    (x.finish job s w).2.Twin (x.finish job s' w').2 := by
  obtain ⟨settled, hstill, -, -, htallies, hmetrics, hfinish⟩ := x.exists_settled job w
  obtain ⟨settled', hstill', -, -, htallies', hmetrics', hfinish'⟩ := x.exists_settled job w'
  -- up to the sinks both runs do the same, and what sinks do leaves a twin
  have hstopped : (job.body.stop x.sleep w').tallies = (job.body.stop x.sleep w).tallies := by
    unfold Body.stop World.tally World.setTally
    rw [h.tallies]
    cases job.body with
    | scripted script runs => dsimp only; split <;> simp [h.tallies]
    | cleanup days => exact h.tallies
  have htwin : settled.Twin settled' := by
    refine ⟨?_, ?_, ?_, ?_⟩
    · rw [hstill'.start, hstill.start, h.start]
    · rw [hstill'.elapsed, hstill.elapsed, h.elapsed]
    · rw [htallies', htallies, hstopped]
    · rw [hmetrics', hmetrics, h.metrics]
      show Metrics.recordRun _ _ (secondsOfMillis (w'.elapsed - x.beganAt)) _ = _
      rw [h.elapsed]
      rfl
  rw [hfinish s, hfinish' s']
  exact ⟨rfl, (s.twin_logSink_take _ settled).symm.trans
    (htwin.trans (s'.twin_logSink_take _ settled'))⟩

/-- In a twin a body that does not delete rows begins in the same way. -/
theorem twin_begin {job : Job} (hbody : job.body.isCleanup = false) {w w' : World σ}
    (h : w.Twin w') :
    (begin job w').1 = (begin job w).1 ∧ (begin job w).2.Twin (begin job w').2 := by
  unfold begin Body.start
  cases hscript : job.body with
  -- a body that deletes rows answers with their number, and so depends on what a ledger was handed
  -- before
  | cleanup days =>
    rw [hscript] at hbody
    cases hbody
  | scripted script runs =>
    have htally : (w'.emit .info "Job execution started" []).tally script =
        (w.emit .info "Job execution started" []).tally script := by
      show (w'.tallies.lookup script).getD {} = _
      rw [h.tallies]
      rfl
    dsimp only
    rw [htally]
    refine ⟨?_, h.start, h.elapsed, ?_, h.metrics⟩
    · show Execution.mk w'.elapsed _ _ = _
      rw [h.elapsed]
      rfl
    · show Metrics.alter script _ _ w'.tallies = _
      rw [h.tallies]
      rfl

end Execution

/-! ## Any number of runs -/

namespace Session

variable {σ : Type} {job : Job} {w w' : World σ}

/-- A run with one sink goes as with another if its body does not delete rows. -/
theorem twin_runOnce (hbody : job.body.isCleanup = false) (h : w.Twin w') (s s' : Sink) :
    (runOnce job s' w').1 = (runOnce job s w).1 ∧
    (runOnce job s w).2.Twin (runOnce job s' w').2 := by
  obtain ⟨hbegun, htwin⟩ := Execution.twin_begin hbody h
  have hlater (ms : Nat) :
      (later ms (Execution.begin job w).2).Twin (later ms (Execution.begin job w').2) :=
    ⟨htwin.start, congrArg (· + ms) htwin.elapsed, htwin.tallies, htwin.metrics⟩
  unfold runOnce
  dsimp only
  rw [hbegun]
  exact (Execution.begin job w).1.twin_finish job (hlater _) s s'

/-- Any number of runs go with one sink as with another. -/
theorem runTimes_indifferent (hbody : job.body.isCleanup = false) (s s' : Sink) (times : Nat)
    (h : w.Twin w') :
    (runTimes job s' times w').1 = (runTimes job s times w).1 ∧
    (runTimes job s times w).2.Twin (runTimes job s' times w').2 := by
  induction times generalizing w w' with
  | zero => exact ⟨rfl, h⟩
  | succ times ih =>
    obtain ⟨hresult, htwin⟩ := twin_runOnce hbody h s s'
    obtain ⟨hresults, hafter⟩ := ih htwin
    exact ⟨congrArg₂ List.cons hresult hresults, hafter⟩

end Session

/-! ## Every run -/

/-- **Runs are contained.**  A body that begins is started once, counts nothing and hands no record
    to anyone; it ends as it was started to end, which for a script is the run that its tally comes
    to.  However it ends, and whenever, the run has a result that tells its ending, and it is
    counted once, with the duration of its record, as a success or as a failure.  Neither depends on
    the sink, whether it takes the record, fails or panics: a sink is handed just the one record,
    which shows the result and the times at which the body began and ended.  So any number of runs
    of a body that deletes no rows have the same results and are counted alike with one sink and
    with another. -/
theorem runs_are_contained {σ : Type} (job : Job) {w w' : World σ}
    (hclock : w.elapsed ≤ w'.elapsed) :
    ((Execution.begin job w).1.ending =
      (job.body.start (w.emit .info "Job execution started" [])).2.1 ∧
      (∀ script runs, job.body = .scripted script runs →
        (Execution.begin job w).1.ending = (scriptedRun runs (w.tally script).invocations).ending) ∧
      (Execution.begin job w).2.metrics = w.metrics ∧
      (Execution.begin job w).2.recorded = w.recorded) ∧
    (∃ result report metrics, result.Tells (Execution.begin job w).1.ending ∧ report.Shows result ∧
      report.job = job.id ∧ report.startedAt = w'.start.plusMillis w.elapsed ∧
      report.finishedAt = w'.now ∧
      report.startedAt ≤ report.finishedAt ∧
      w'.metrics.CountsRun job.id result.success report.durationSeconds metrics ∧
      ∀ sink, ((Execution.begin job w).1.finish job sink w').1 = result ∧
        ((Execution.begin job w).1.finish job sink w').2.metrics = metrics ∧
        sink.Handed report w' ((Execution.begin job w).1.finish job sink w').2) ∧
    (job.body.isCleanup = false → ∀ times s s',
      (Session.runTimes job s' times w).1 = (Session.runTimes job s times w).1 ∧
        (Session.runTimes job s' times w).2.metrics =
          (Session.runTimes job s times w).2.metrics) := by
  have hbegun : (Execution.begin job w).2.metrics = w.metrics ∧
      (Execution.begin job w).2.recorded = w.recorded := by
    -- a body writes to none of the counters, nor to what a recorder keeps
    obtain ⟨tallies, ledger, log, hstarted⟩ :=
      job.body.start_writes (w.emit .info "Job execution started" [])
    show (job.body.start _).2.2.metrics = _ ∧ (job.body.start _).2.2.recorded = _
    rw [hstarted]
    exact ⟨rfl, rfl⟩
  refine ⟨⟨rfl, fun script runs hbody => ?_, hbegun⟩,
    (Execution.begin job w).1.finish_contained job hclock, fun hbody times s s' => ?_⟩
  · show (job.body.start _).2.1 = _
    rw [hbody]
    rfl
  · -- the worlds of two sinks differ in what the sinks keep only
    obtain ⟨hresults, htwin⟩ := Session.runTimes_indifferent hbody s s' times (World.Twin.refl w)
    exact ⟨hresults, htwin.metrics⟩

/-- A job whose body waits for five milliseconds and panics with a number. -/
def Job.collapsing : Job where
  definition := (Job.sleeper 2000 []).definition
  body := .scripted "collapsing" [⟨5, .panicked .other⟩]

/-- Its run has a failure as its result, even when the sink panics as well. -/
theorem runs_are_contained_collapsing : (0 : Nat) ≤ 5 ∧ ∃ result : RunResult,
    result.success = false ∧ result.error.isSome = true ∧ result.data = none ∧
      ∀ sink, (Session.runOnce Job.collapsing sink { start := ⟨0⟩, locks := () }).1 = result := by
  let w : World Unit := { start := ⟨0⟩, locks := () }
  have hclock : w.elapsed ≤
      (Session.later 5 (Execution.begin Job.collapsing w).2).elapsed := by decide
  obtain ⟨⟨-, hscript, -, -⟩, ⟨result, _, _, htells, -, -, -, -, -, -, hsinks⟩, -⟩ :=
    runs_are_contained Job.collapsing hclock
  -- the script has one run, and its ending is the one that the body was started with
  have hending : (Execution.begin Job.collapsing w).1.ending = .panicked .other := hscript _ _ rfl
  rw [hending] at htells
  have hfailure : result.success = false := by
    cases hsuccess : result.success with
    | false => rfl
    | true =>
      obtain ⟨_, heq, -⟩ := htells.success.1 hsuccess
      cases heq
  exact ⟨Nat.zero_le 5, result, hfailure, htells.error.2 (.inr ⟨_, rfl⟩), htells.noData nofun,
    fun sink => (hsinks sink).1⟩

end JobFleet
