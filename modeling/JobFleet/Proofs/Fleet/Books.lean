/-
  JobFleet.Proofs.Fleet.Books: what is counted and what sinks keep, event by event.

  Four books are kept of the runs of a fleet: the counters with the durations, the tallies that the
  bodies keep of themselves, what the sinks were handed, and the outcomes.  Here the first three are
  compared with the chronicle.  From one world to a later one the counters rise by the events in
  between (`World.Counts`), the tally of a script by the bodies that began (`World.begun`), and a
  sink that all runs share keeps the records of these events after those that it had
  (`World.Keeps`).  All of them go on from event to event, so it is enough to look at one piece of a
  run.

  Main results:
    * `Run.counts_advance` — a piece of a run counts its event.
    * `Run.Advances.begun` — a piece of a run raises the tally of its script if its body begins.
    * `Run.Advances.keeps` — a piece of a run leaves the record of its event with the sink.
-/
import JobFleet.Proofs.Fleet.Chronicle

namespace JobFleet

open RunEvent (times ofJob ofKind)

/-! ## Counters and durations -/

namespace Metrics

/-- A run that is recorded is counted once, as a success or a failure of its job. -/
theorem count_recordRun (job : String) (success : Bool) (seconds : Float)
    (m : Metrics) (c : Counter) :
    (m.recordRun job success seconds).count c =
      m.count c + if c = (if success then .succeeded job else .failed job) then 1 else 0 :=
  count_raise (if success then .succeeded job else .failed job) c m

/-- The duration of a run that is recorded is kept once, for its job. -/
theorem length_durationsOf_recordRun (job : String) (success : Bool) (seconds : Float)
    (m : Metrics) (id : String) :
    ((m.recordRun job success seconds).durationsOf id).length =
      (m.durationsOf id).length + if id = job then 1 else 0 := by
  unfold durationsOf recordRun recordDuration raise
  by_cases h : id = job
  · subst h
    simp only [lookup_alter_self]
    cases m.durations.lookup id <;> simp
  · simp [lookup_alter_ne h, h]

end Metrics

namespace World

variable {σ : Type} {w w' w'' : World σ} {events events' : List RunEvent}

/-- From one world to another the counters rise and durations are added as some events tell. -/
structure Counts (events : List RunEvent) (w w' : World σ) : Prop where
  succeeded : ∀ id, w'.metrics.count (.succeeded id) =
    w.metrics.count (.succeeded id) + times (ofJob id) RunEvent.isSuccess events
  failed : ∀ id, w'.metrics.count (.failed id) =
    w.metrics.count (.failed id) + times (ofJob id) RunEvent.isFailure events
  durations : ∀ id, (w'.metrics.durationsOf id).length =
    (w.metrics.durationsOf id).length + times (ofJob id) RunEvent.isHanded events
  skipped : ∀ id kind, w'.metrics.count (.skipped id kind) =
    w.metrics.count (.skipped id kind) + times (ofKind id kind) RunEvent.isSkipped events

/-- Events are counted one part after the other. -/
theorem Counts.trans (h : w.Counts events w') (h' : w'.Counts events' w'') :
    w.Counts (events ++ events') w'' where
  succeeded := by
    intro id
    rw [RunEvent.times_append, h'.succeeded, h.succeeded, Nat.add_assoc]
  failed := by
    intro id
    rw [RunEvent.times_append, h'.failed, h.failed, Nat.add_assoc]
  durations := by
    intro id
    rw [RunEvent.times_append, h'.durations, h.durations, Nat.add_assoc]
  skipped := by
    intro id kind
    rw [RunEvent.times_append, h'.skipped, h.skipped, Nat.add_assoc]

/-- Events without record that are not skips are not counted. -/
theorem counts_of_quiet
    (hcounts : ∀ c, (∀ call, c ≠ .lockErrors call) → w'.metrics.count c = w.metrics.count c)
    (hdurations : w'.metrics.durations = w.metrics.durations)
    (hquiet : ∀ e ∈ events, e.report? = none ∧ e.isSkipped = false) : w.Counts events w' := by
  have hnone (sort : RunEvent → Bool) (hsort : ∀ e, e.report? = none → sort e = false)
      (who : String → RunKind → Bool) : times who sort events = 0 :=
        RunEvent.times_eq_zero _ _ (fun e he => hsort e (hquiet e he).1)
  refine ⟨?_, ?_, ?_, ?_⟩
  · intro id
    rw [hcounts (.succeeded id) (by simp), hnone _ (fun e h => by simp [RunEvent.isSuccess, h]),
      Nat.add_zero]
  · intro id
    rw [hcounts (.failed id) (by simp), hnone _ (fun e h => by simp [RunEvent.isFailure, h]),
      Nat.add_zero]
  · intro id
    rw [hnone _ (fun e h => by simp [RunEvent.isHanded, h]), Metrics.durationsOf, hdurations]
    rfl
  · intro id kind
    rw [hcounts (.skipped id kind) (by simp),
      RunEvent.times_eq_zero _ _ (fun e he => (hquiet e he).2), Nat.add_zero]

/-- The same where the books were left alone. -/
theorem counts_of_sameBooks (h : w.SameBooks w')
    (hquiet : ∀ e ∈ events, e.report? = none ∧ e.isSkipped = false) :
    w.Counts events w' := by
  refine counts_of_quiet ?_ h.durations hquiet
  intro c _
  rw [Metrics.count, h.counts]
  rfl

/-- Events without a record or a skip are not counted. -/
theorem counts_of_metrics (h : w'.metrics = w.metrics)
    (hquiet : ∀ e ∈ events, e.report? = none ∧ e.isSkipped = false) :
    w.Counts events w' :=
  counts_of_quiet (fun c _ => by rw [h]) (by rw [h]) hquiet

theorem counts_nil (h : w.SameBooks w') : w.Counts [] w' := counts_of_sameBooks h nofun

theorem Counts.refl (w : World σ) : w.Counts [] w := counts_nil (SameBooks.refl w)

/-- A record that is handed over is counted once, as a success or as a failure. -/
theorem counts_of_recordRun {report : Report} {seconds : Float}
    (h : w'.metrics = w.metrics.recordRun report.job report.success seconds) (kind : RunKind) :
    w.Counts [.handed kind report] w' := by
  refine ⟨?_, ?_, ?_, ?_⟩
  · intro id
    rw [h, Metrics.count_recordRun, RunEvent.times_ofJob_singleton]
    cases hsuccess : report.success <;> simp [RunEvent.job, RunEvent.isSuccess,
      RunEvent.report?, hsuccess]
  · intro id
    rw [h, Metrics.count_recordRun, RunEvent.times_ofJob_singleton]
    cases hsuccess : report.success <;> simp [RunEvent.job, RunEvent.isFailure,
      RunEvent.report?, hsuccess]
  · intro id
    rw [h, Metrics.length_durationsOf_recordRun, RunEvent.times_ofJob_singleton]
    simp [RunEvent.job, RunEvent.isHanded, RunEvent.report?]
  · intro id kind'
    rw [h, Metrics.count_recordRun, RunEvent.times_singleton]
    cases report.success <;> simp [RunEvent.isSkipped]

end World

/-! ## Bodies and sinks -/

section

variable {σ : Type}

/-- A body that begins counts nothing. -/
theorem Body.metrics_start (b : Body) (w : World σ) : (b.start w).2.2.metrics = w.metrics := by
  obtain ⟨tallies, ledger, log, h⟩ := b.start_writes w
  rw [h]

theorem Body.metrics_stop (b : Body) (sleep : Nat) (w : World σ) :
    (b.stop sleep w).metrics = w.metrics := by
  obtain ⟨tallies, h⟩ := b.stop_writes sleep w
  rw [h]

theorem Sink.metrics_take (s : Sink) (report : Report) (w : World σ) :
    (s.take report w).2.metrics = w.metrics := by
  obtain ⟨ledger, recorded, h⟩ := s.take_writes report w
  rw [h]

/-- Reporting a result is not bookkeeping. -/
theorem sameBooks_logResult (result : RunResult) (seconds : Float) (w : World σ) :
    w.SameBooks (logResult result seconds w) := by
  obtain ⟨log, h⟩ := logResult_writes result seconds w
  rw [h]
  exact ⟨⟨rfl, rfl, rfl⟩, rfl, rfl⟩

theorem sameBooks_logSink (answer : SinkAnswer) (w : World σ) : w.SameBooks (logSink answer w) := by
  obtain ⟨log, h⟩ := logSink_writes answer w
  rw [h]
  exact ⟨⟨rfl, rfl, rfl⟩, rfl, rfl⟩

/-- A body that ends is counted with its record, whatever the sink does. -/
theorem Execution.counts_finish (x : Execution) (job : Job) (sink : Sink)
    (kind : RunKind) (w : World σ) :
    w.Counts [.handed kind (x.report job (.ofEnding x.ending) w)] (x.finish job sink w).2 := by
  have hstop : w.Counts [] (job.body.stop x.sleep w) :=
    World.counts_of_metrics (job.body.metrics_stop _ w) nofun
  have hlog := hstop.trans (World.counts_nil (sameBooks_logResult (.ofEnding x.ending)
    (secondsOfMillis ((job.body.stop x.sleep w).elapsed - x.beganAt)) _))
  -- the job and the success that are counted are those of the record
  have hrecord (w : World σ) (report : Report) (hjob : report.job = job.id)
      (hsuccess : report.success = (RunResult.ofEnding x.ending).success) (seconds : Float) :
      w.Counts [.handed kind report]
        (w.measure (·.recordRun job.id (RunResult.ofEnding x.ending).success seconds)) := by
    rw [← hjob, ← hsuccess]
    exact World.counts_of_recordRun rfl kind
  have htake (report : Report) (w : World σ) : w.Counts [] (sink.take report w).2 :=
    World.counts_of_metrics (sink.metrics_take report w) nofun
  exact (hlog.trans (hrecord _ _ rfl rfl _)).trans
    ((htake _ _).trans (World.counts_nil (sameBooks_logSink _ _)))

end

namespace Run

variable {σ : Type}

/-- A run without its lock counts as skipped. -/
theorem counts_skip (r : Run) (w : World σ) :
    w.Counts [.ended r.job.id r.kind .skipped] (r.skip w).2 := by
  have hcount (c : Counter) : (r.skip w).2.metrics.count c =
      w.metrics.count c + if c = .skipped r.job.id r.kind then 1 else 0 :=
      Metrics.count_raise _ c w.metrics
  refine ⟨?_, ?_, ?_, ?_⟩
  · intro id
    rw [hcount, RunEvent.times_ofJob_singleton]
    simp [RunEvent.isSuccess, RunEvent.report?]
  · intro id
    rw [hcount, RunEvent.times_ofJob_singleton]
    simp [RunEvent.isFailure, RunEvent.report?]
  · intro id
    rw [RunEvent.times_ofJob_singleton]
    simp [RunEvent.isHanded, RunEvent.report?, skip, World.measure, World.emit, Metrics.raise,
      Metrics.durationsOf]
  · intro id kind
    rw [hcount, RunEvent.times_ofKind_singleton]
    simp [RunEvent.job, RunEvent.kind, RunEvent.isSkipped]

/-- An error of the store is no event of a run. -/
theorem counts_storeError (message : String) (call : LockCall) (e : LockStoreError) (w : World σ) :
    w.Counts [] (Lock.storeError message call e w) := by
  refine World.counts_of_quiet ?_ rfl nofun
  intro c hc
  show (w.metrics.raise (.lockErrors call)).count c = _
  rw [Metrics.count_raise, if_neg (hc call), Nat.add_zero]

/-- Judging an answer of the lock store counts nothing. -/
theorem counts_judge (l : Lock) (deadline : Option Nat) (number : Nat)
    (answer : Except LockStoreError Bool) (w : World σ) :
    w.Counts [] (l.judge deadline number answer w).2 := by
  cases answer with
  | error e => exact counts_storeError _ _ e w
  | ok yes =>
    cases yes with
    | true => exact World.counts_nil (World.sameBooks_emit _ _ _ w)
    | false =>
      rw [Lock.judge_no]
      exact World.counts_nil (World.sameBooks_emit _ _ _ w)

variable [LockStore σ]

/-- An attempt to take a lock counts nothing but an error of the store. -/
theorem counts_lockAttempt (l : Lock) (id : String) (ttlMillis : Nat) (deadline : Option Nat)
    (number : Nat) (w : World σ) :
    w.Counts [] (l.attempt id ttlMillis deadline number w).2 := by
  have hasked : w.Counts [] (w.setIfAbsent (l.key id) l.holder (Lock.wholeSeconds ttlMillis)).2 :=
    World.counts_nil ⟨⟨rfl, rfl, rfl⟩, rfl, rfl⟩
  exact hasked.trans (counts_judge l deadline number _ _)

theorem counts_lockRelease (l : Lock) (id : String) (w : World σ) :
    w.Counts [] (l.release id w) := by
  have hasked : w.Counts [] (w.compareAndDelete (l.key id) l.holder).2 :=
    World.counts_nil ⟨⟨rfl, rfl, rfl⟩, rfl, rfl⟩
  unfold Lock.release
  rcases hcall : w.compareAndDelete (l.key id) l.holder with ⟨answer, w'⟩
  rw [hcall] at hasked
  cases answer with
  | error e => exact hasked.trans (counts_storeError _ _ e w')
  | ok yes => cases yes <;> exact hasked.trans (World.counts_nil (World.sameBooks_emit _ _ _ w'))

/-- An attempt counts the run if it is skipped. -/
theorem counts_attempt {r : Run} (hsince : r.phase.since? = none) (deadline : Option Nat)
    (number : Nat) (w : World σ) :
    w.Counts (r.event? (r.attempt deadline number w).1 w).toList
      (r.attempt deadline number w).2 := by
  have hattempt := counts_lockAttempt r.guard.lock r.lockId (r.guard.ttlOf r.job) deadline number w
  unfold attempt
  rcases hverdict : r.guard.lock.attempt r.lockId (r.guard.ttlOf r.job) deadline number
    w with ⟨verdict, w'⟩
  rw [hverdict] at hattempt
  cases verdict with
  | acquired | retryAt moment =>
    simp only
    rw [event?_of_asking hsince]
    · exact hattempt
    · exact Option.some_ne_none _
  | refused => exact hattempt.trans (counts_skip r w')

/-- Giving a lock back ends a run, and is not counted. -/
theorem counts_complete (r : Run) (result : Option RunResult) (w : World σ) :
    w.Counts (r.event? (r.complete result w).1 w).toList (r.complete result w).2 := by
  have hrelease := counts_lockRelease r.guard.lock r.lockId w
  have hend (result : RunResult) {w₁ w₂ : World σ} (h : w₁.SameBooks w₂) :
      w₁.Counts [.ended r.job.id r.kind (.completed result)] w₂ :=
    World.counts_of_sameBooks h (List.forall_mem_singleton.2 ⟨rfl, rfl⟩)
  cases result with
  | none => exact hrelease.trans (hend _ (World.sameBooks_emit _ _ _ _))
  | some result => exact hrelease.trans (hend _ (World.SameBooks.refl _))

/-- A piece of a run counts its event. -/
theorem counts_advance {r : Run} (hsink : r.guard.sink ≠ .none) (w : World σ) :
    w.Counts (r.event? (r.advance w).1 w).toList (r.advance w).2 := by
  unfold advance
  cases hphase : r.phase with
  | entering =>
    by_cases hread : unreadable r.job w = true
    · simp only [hread, if_true]
      exact World.counts_of_sameBooks (World.SameBooks.refl w)
        (List.forall_mem_singleton.2 ⟨rfl, rfl⟩)
    · simp only [hread]
      exact counts_attempt (congrArg RunPhase.since? hphase) _ _ w
  | polling deadline attempts => exact counts_attempt (congrArg RunPhase.since? hphase) _ _ w
  | holding since =>
    simp only [begin]
    by_cases hread : unreadable r.job w = true
    · simp only [hread, if_true, event?, hphase]
      exact World.Counts.refl w
    · rw [if_neg hread, event?_began hphase (by simpa using hread)]
      exact World.counts_of_metrics (Body.metrics_start _ _)
        (List.forall_mem_singleton.2 ⟨rfl, rfl⟩)
  | executing since x =>
    simp only [finish]
    rw [event?_finished hphase hsink]
    exact x.counts_finish r.job r.guard.sink r.kind w
  | releasing since result => exact counts_complete r result w

end Run

/-! ## What bodies count themselves -/

/-- A body follows a script. -/
def Body.follows (script : String) : Body → Bool
  | .scripted name _ => name = script
  | .cleanup _ => false

section

variable {σ : Type}

/-- How many bodies that follow a script have begun, as its tally has it. -/
def World.begun (script : String) (w : World σ) : Nat := (w.tally script).invocations

/-- Worlds with the same tallies have the same number. -/
theorem World.begun_of_tallies {w w' : World σ} (h : w'.tallies = w.tallies) (script : String) :
    w'.begun script = w.begun script := by
  unfold begun tally
  rw [h]

/-- A tally is changed for its script and no other. -/
theorem World.begun_setTally (script name : String) (t : Tally) (w : World σ) :
    (w.setTally name t).begun script = if script = name then t.invocations else w.begun script := by
  unfold begun tally setTally
  split
  · next hname =>
    subst hname
    rw [Metrics.lookup_alter_self]
    cases w.tallies.lookup script <;> rfl
  · next hname => rw [Metrics.lookup_alter_ne hname]

/-- A body that begins raises the tally of its script. -/
theorem Body.begun_start (b : Body) (script : String) (w : World σ) :
    (b.start w).2.2.begun script = w.begun script + (b.follows script).toNat := by
  cases b with
  | scripted name runs =>
    show (w.setTally name _).begun script = w.begun script + (decide (name = script)).toNat
    rw [World.begun_setTally]
    split
    · next hname =>
      subst hname
      simp [Tally.entered, World.begun]
    · next hname => simp [Ne.symm hname]
  | cleanup days =>
    refine World.begun_of_tallies ?_ script
    show (cleanupEnding days w).2.tallies = w.tallies
    unfold cleanupEnding
    split
    · rfl
    · split
      · rfl
      · split <;> rfl

/-- One that ends leaves all tallies as high as they are. -/
theorem Body.begun_stop (b : Body) (sleep : Nat) (script : String) (w : World σ) :
    (b.stop sleep w).begun script = w.begun script := by
  cases b with
  | scripted name runs =>
    simp only [stop]
    split
    · rw [World.begun_setTally]
      split
      · next hname =>
        subst hname
        rfl
      · rfl
    · rfl
  | cleanup days => rfl

/-- Neither the end of a run nor its sink raises a tally. -/
theorem Execution.begun_finish (x : Execution) (job : Job) (sink : Sink)
    (script : String) (w : World σ) :
    (x.finish job sink w).2.begun script = w.begun script := by
  have hlog (result : RunResult) (seconds : Float) (w : World σ) :
      (logResult result seconds w).tallies = w.tallies :=
        (sameBooks_logResult result seconds w).tallies
  have htake (report : Report) (w : World σ) : (sink.take report w).2.tallies = w.tallies := by
    obtain ⟨ledger, recorded, h⟩ := sink.take_writes report w
    rw [h]
  rw [← job.body.begun_stop x.sleep script w]
  refine World.begun_of_tallies ?_ script
  simp only [finish]
  rw [(sameBooks_logSink _ _).tallies, htake]
  exact hlog _ _ _

namespace Run

variable [LockStore σ] {r : Run} {w w' : World σ} {p : Progress}

/-- A piece of a run raises the tally of its script if its body begins. -/
theorem Advances.begun (h : r.Advances w p w') (script : String) :
    w'.begun script = w.begun script + (r.job.body.follows script &&
      (r.event? p w).any RunEvent.isBegan).toNat := by
  have hquiet (htallies : w'.begun script = w.begun script) (hevent :
    (r.event? p w).any RunEvent.isBegan = false) :
      w'.begun script =
        w.begun script + (r.job.body.follows script &&
          (r.event? p w).any RunEvent.isBegan).toNat := by
    rw [htallies, hevent, Bool.and_false]
    rfl
  cases h with
  | panicked => exact hquiet rfl rfl
  | took hasks _ _ huntouched | polled hasks _ _ _ huntouched =>
    refine hquiet (World.begun_of_tallies huntouched.tallies script) ?_
    rw [event?_of_asking hasks.since?]
    · rfl
    · exact Option.some_ne_none _
  | skipped _ _ _ huntouched | released _ _ huntouched =>
    exact hquiet (World.begun_of_tallies huntouched.tallies script) rfl
  | broke hphase hpanics =>
    refine hquiet rfl ?_
    simp only [event?, hphase, hpanics, if_true]
    rfl
  | began hphase hread hbegin =>
    have hafter : w' = (r.job.body.start (w.emit .info "Job execution started" [])).2.2 :=
      (congrArg Prod.snd hbegin).symm
    rw [event?_began hphase hread, hafter, Body.begun_start]
    simp [RunEvent.isBegan, World.begun, World.tally, World.emit]
  | @finished since x hphase =>
    refine hquiet (x.begun_finish r.job r.guard.sink script w) ?_
    simp only [event?, hphase]
    cases r.guard.sink <;> rfl

end Run

end

/-! ## What sinks keep -/

/-- The records that a sink has been handed and has kept, in order. -/
def Sink.kept {σ : Type} (s : Sink) (w : World σ) : List Report :=
  match s with
  | .none => []
  | .ledger => w.ledger.rows.map Row.toReport
  | .recorder _ => w.recorded.reverse

/-- From one world to another a sink keeps what it had, and after it the records of some events. -/
structure World.Keeps {σ : Type} (s : Sink) (events : List RunEvent) (w w' : World σ) : Prop where
  kept : s.kept w' = s.kept w ++ RunEvent.reports events
  failing : s = .ledger → w'.ledger.failing = w.ledger.failing

namespace World

variable {σ : Type} {s : Sink} {w w' w'' : World σ} {events events' : List RunEvent}

/-- Records are kept one part after the other. -/
theorem Keeps.trans (h : w.Keeps s events w') (h' : w'.Keeps s events' w'') :
    w.Keeps s (events ++ events') w'' where
  kept := by rw [h'.kept, h.kept, RunEvent.reports_append, List.append_assoc]
  failing hs := (h'.failing hs).trans (h.failing hs)

/-- A sink keeps what it had while its book is left alone and no record is handed over. -/
theorem keeps_of_quiet (hledger : s = .ledger → w'.ledger = w.ledger)
    (hrecorded : w'.recorded = w.recorded) (hquiet : RunEvent.reports events = []) :
    w.Keeps s events w' where
  kept := by
    rw [hquiet, List.append_nil]
    cases s with
    | none => rfl
    | ledger =>
      rw [Sink.kept, hledger rfl]
      rfl
    | recorder ending =>
      rw [Sink.kept, hrecorded]
      rfl
  failing hs := by rw [hledger hs]

/-- Where no record is handed over, a sink that is not touched has what it should. -/
theorem Untouched.keeps (h : w.Untouched w') (hquiet : RunEvent.reports events = []) :
    w.Keeps s events w' :=
  keeps_of_quiet (fun _ => h.ledger) h.recorded hquiet

end World

/-- A body that deletes rows of the ledger. -/
def Body.isCleanup : Body → Bool
  | .scripted _ _ => false
  | .cleanup _ => true

/-- Only a cleanup touches the ledger when it begins. -/
theorem Body.ledger_start {σ : Type} {b : Body} (hbody : b.isCleanup = false) (w : World σ) :
    (b.start w).2.2.ledger = w.ledger := by
  cases b with
  | scripted script runs => rfl
  | cleanup days => cases hbody

theorem Body.recorded_start {σ : Type} (b : Body) (w : World σ) :
    (b.start w).2.2.recorded = w.recorded := by
  obtain ⟨tallies, ledger, log, h⟩ := b.start_writes w
  rw [h]

theorem Body.recorded_stop {σ : Type} (b : Body) (sleep : Nat) (w : World σ) :
    (b.stop sleep w).recorded = w.recorded := by
  obtain ⟨tallies, h⟩ := b.stop_writes sleep w
  rw [h]

/-- A sink keeps the record that it is handed, unless the ledger takes no rows. -/
theorem Sink.keeps_take {σ : Type} {s : Sink} (hsink : s ≠ .none) {w : World σ}
    (hcreate : s = .ledger → .create ∉ w.ledger.failing) (report : Report) (kind : RunKind) :
    w.Keeps s [.handed kind report] (s.take report w).2 := by
  cases s with
  | none => exact absurd rfl hsink
  | recorder ending =>
    have hrecorded : ((Sink.recorder ending).take report w).2.recorded = report :: w.recorded := by
      cases ending <;> rfl
    refine ⟨?_, nofun⟩
    show ((Sink.recorder ending).take report w).2.recorded.reverse = _
    rw [hrecorded, List.reverse_cons]
    rfl
  | ledger =>
    have hledger : (Sink.ledger.take report w).2.ledger = (w.ledger.create w.now report).2 :=
      ledger_take report w
    have hcreated : (w.ledger.create w.now report).2 =
        { w.ledger.insert (Row.ofReport w.ledger.freshId report w.now) with nextId :=
            w.ledger.nextId + 1 } := by
      unfold Ledger.create
      rw [if_neg (hcreate rfl)]
    rw [hcreated] at hledger
    have hfailing : (Sink.ledger.take report w).2.ledger.failing = w.ledger.failing := by
      rw [hledger]
      rfl
    refine ⟨?_, fun _ => hfailing⟩
    show (Sink.ledger.take report w).2.ledger.rows.map Row.toReport = _
    rw [hledger]
    exact List.map_append

/-- A body that ends leaves its record with the sink. -/
theorem Execution.keeps_finish {σ : Type} (x : Execution) (job : Job) {s : Sink}
    (hsink : s ≠ .none) (kind : RunKind) {w : World σ}
    (hcreate : s = .ledger → .create ∉ w.ledger.failing) :
    w.Keeps s [.handed kind (x.report job (.ofEnding x.ending) w)] (x.finish job s w).2 := by
  have hquiet {w w' : World σ} (hledger : w'.ledger = w.ledger) (hrecorded : w'.recorded =
      w.recorded) : w.Keeps s [] w' :=
    World.keeps_of_quiet (fun _ => hledger) hrecorded rfl
  have hbooks {w w' : World σ} (h : w.SameBooks w') : w.Keeps s [] w' := hquiet h.ledger h.recorded
  have hcounted (seconds : Float) :
    w.Keeps s [] ((logResult (.ofEnding x.ending) seconds (job.body.stop x.sleep w)).measure
      (·.recordRun job.id (RunResult.ofEnding x.ending).success seconds)) :=
    (hquiet (Body.ledger_stop _ _ w) (Body.recorded_stop _ _ w)).trans
      ((hbooks (sameBooks_logResult _ seconds _)).trans (hquiet rfl rfl))
  -- the record is made after that, but reads nothing but the clock
  have hstill (seconds : Float) := (job.body.still_stop x.sleep w).trans
    ((still_logResult (.ofEnding x.ending) seconds _).trans
      (World.still_measure (·.recordRun job.id (RunResult.ofEnding x.ending).success seconds) _))
  have hreport (seconds : Float) := report_of_still (hstill seconds) x job (.ofEnding x.ending)
  simp only [Execution.finish, hreport]
  refine (hcounted _).trans
    ((Sink.keeps_take hsink ?_ _ kind).trans (hbooks (sameBooks_logSink _ _)))
  intro hs
  rw [(hcounted _).failing hs]
  exact hcreate hs

namespace Run

variable {σ : Type} [LockStore σ] {r : Run} {w w' : World σ} {p : Progress}

/-- A piece of a run leaves the record of its event with the sink; from a ledger its body must not
    delete rows. -/
theorem Advances.keeps (h : r.Advances w p w') (hsink : r.guard.sink ≠ .none)
    (hcreate : r.guard.sink = .ledger → .create ∉ w.ledger.failing)
    (hbody : r.guard.sink = .ledger → r.job.body.isCleanup = false) :
    w.Keeps r.guard.sink (r.event? p w).toList w' := by
  cases h with
  | panicked => exact World.keeps_of_quiet (fun _ => rfl) rfl rfl
  | took hasks _ _ huntouched | polled hasks _ _ _ huntouched =>
    refine huntouched.keeps ?_
    rw [event?_of_asking hasks.since?]
    · rfl
    · exact Option.some_ne_none _
  | skipped _ _ _ huntouched => exact huntouched.keeps rfl
  | broke hphase hpanics =>
    refine World.keeps_of_quiet (fun _ => rfl) rfl ?_
    simp only [event?, hphase, hpanics, if_true]
    rfl
  | began hphase hread hbegin =>
    have hafter : w' = (r.job.body.start (w.emit .info "Job execution started" [])).2.2 :=
      (congrArg Prod.snd hbegin).symm
    rw [event?_began hphase hread, hafter]
    exact World.keeps_of_quiet (fun hs => Body.ledger_start (hbody hs) _)
      (Body.recorded_start _ _) rfl
  | @finished since x hphase =>
    rw [event?_finished hphase hsink]
    exact x.keeps_finish r.job hsink r.kind hcreate
  | released hphase _ huntouched => exact huntouched.keeps rfl

end Run

end JobFleet
