/-
  JobFleet.Proofs.Fleet.Piece: what one piece of a run does.

  `Run.Advances` has one constructor for each way in which a piece can go: what it needs, the single
  call on the lock store that it makes, and what it leaves alone.  Everything later about runs,
  under any interleaving, goes by cases on it and never opens `Run.advance`.  The store is any
  `LockStore`, so its answers are arbitrary.

  Main results:
    * `Run.advances` — every piece is one of `Run.Advances`.
    * `Execution.still_begin`, `Execution.still_finish` — bodies and sinks touch neither locks nor
      clock.
-/
import JobFleet.Fleet.Guard

namespace JobFleet

variable {σ : Type}

/-! ## Worlds that agree -/

namespace World

/-- The locks, the clock and the start are those of another world. -/
structure Still (w w' : World σ) : Prop where
  locks : w'.locks = w.locks
  elapsed : w'.elapsed = w.elapsed
  start : w'.start = w.start

/-- What bodies and sinks write is as in another world. -/
structure Untouched (w w' : World σ) : Prop where
  tallies : w'.tallies = w.tallies
  ledger : w'.ledger = w.ledger
  recorded : w'.recorded = w.recorded

/-- The books are as in another world: what bodies and sinks write, the counters, and the
    durations. -/
structure SameBooks (w w' : World σ) : Prop extends w.Untouched w' where
  counts : w'.metrics.counts = w.metrics.counts
  durations : w'.metrics.durations = w.metrics.durations

theorem SameBooks.refl (w : World σ) : w.SameBooks w := ⟨⟨rfl, rfl, rfl⟩, rfl, rfl⟩

theorem SameBooks.trans {w₁ w₂ w₃ : World σ} (h : w₁.SameBooks w₂) (h' : w₂.SameBooks w₃) :
    w₁.SameBooks w₃ where
  tallies := by rw [h'.tallies, h.tallies]
  ledger := by rw [h'.ledger, h.ledger]
  recorded := by rw [h'.recorded, h.recorded]
  counts := by rw [h'.counts, h.counts]
  durations := by rw [h'.durations, h.durations]

theorem sameBooks_emit (severity : Severity) (message : String)
    (fields : List (String × Json)) (w : World σ) :
    w.SameBooks (w.emit severity message fields) := ⟨⟨rfl, rfl, rfl⟩, rfl, rfl⟩

theorem Still.refl (w : World σ) : w.Still w := ⟨rfl, rfl, rfl⟩

/-- Steps that leave locks and clock alone leave them alone together. -/
theorem Still.trans {w₁ w₂ w₃ : World σ} (h : w₁.Still w₂) (h' : w₂.Still w₃) : w₁.Still w₃ := by
  refine ⟨?_, ?_, ?_⟩
  · rw [h'.locks, h.locks]
  · rw [h'.elapsed, h.elapsed]
  · rw [h'.start, h.start]

/-- The same clock and the same start show the same instant. -/
theorem Still.now {w w' : World σ} (h : w.Still w') : w'.now = w.now := by
  unfold World.now
  rw [h.elapsed, h.start]

/-- So an instant is as far away as it was. -/
theorem Still.momentOf {w w' : World σ} (h : w.Still w') (instant : Time.Instant) :
    w'.momentOf instant = w.momentOf instant := by
  unfold World.momentOf
  rw [h.start]

/-- Logging takes no time and no lock. -/
theorem still_emit (severity : Severity) (message : String)
    (fields : List (String × Json)) (w : World σ) :
    w.Still (w.emit severity message fields) := ⟨rfl, rfl, rfl⟩

theorem still_measure (change : Metrics → Metrics) (w : World σ) :
    w.Still (w.measure change) := ⟨rfl, rfl, rfl⟩

end World

/-! ## Bodies and sinks -/

/-- A body that starts writes its tally, or the ledger and the log. -/
theorem Body.start_writes (b : Body) (w : World σ) :
    ∃ tallies ledger log, (b.start w).2.2 =
      { w with tallies := tallies, ledger := ledger, log := log } := by
  cases b with
  | scripted script runs => exact ⟨_, w.ledger, w.log, rfl⟩
  | cleanup days =>
    show ∃ tallies ledger log, (cleanupEnding days w).2 =
      { w with tallies := tallies, ledger := ledger, log := log }
    unfold cleanupEnding
    split
    · exact ⟨w.tallies, w.ledger, w.log, rfl⟩
    · split
      · exact ⟨w.tallies, w.ledger, w.log, rfl⟩
      · split
        · exact ⟨w.tallies, w.ledger, w.log, rfl⟩
        · exact ⟨w.tallies, _, _, rfl⟩

/-- The end of a body writes a tally at most. -/
theorem Body.stop_writes (b : Body) (sleep : Nat) (w : World σ) :
    ∃ tallies, b.stop sleep w = { w with tallies := tallies } := by
  cases b with
  | scripted script runs =>
    simp only [Body.stop]
    split
    · exact ⟨_, rfl⟩
    · exact ⟨w.tallies, rfl⟩
  | cleanup days => exact ⟨w.tallies, rfl⟩

/-- A sink writes to the ledger or keeps the record itself. -/
theorem Sink.take_writes (s : Sink) (report : Report) (w : World σ) :
    ∃ ledger recorded, (s.take report w).2 = { w with ledger := ledger, recorded := recorded } := by
  cases s with
  | none => exact ⟨w.ledger, w.recorded, rfl⟩
  | ledger =>
    simp only [Sink.take]
    split <;> exact ⟨_, w.recorded, rfl⟩
  | recorder ending => cases ending <;> exact ⟨w.ledger, _, rfl⟩

/-- Reporting a result writes to the log only. -/
theorem logResult_writes (result : RunResult) (seconds : Float) (w : World σ) :
    ∃ log, logResult result seconds w = { w with log := log } := by
  unfold logResult
  split <;> exact ⟨_, rfl⟩

theorem logSink_writes (answer : SinkAnswer) (w : World σ) :
    ∃ log, logSink answer w = { w with log := log } := by
  cases answer with
  | taken => exact ⟨w.log, rfl⟩
  | failed text => exact ⟨_, rfl⟩
  | panicked text => exact ⟨_, rfl⟩

/-- Bodies take no lock when they begin, and no time passes. -/
theorem Body.still_start (b : Body) (w : World σ) : w.Still (b.start w).2.2 := by
  obtain ⟨tallies, ledger, log, h⟩ := b.start_writes w
  rw [h]
  exact ⟨rfl, rfl, rfl⟩

theorem Body.still_stop (b : Body) (sleep : Nat) (w : World σ) : w.Still (b.stop sleep w) := by
  obtain ⟨tallies, h⟩ := b.stop_writes sleep w
  rw [h]
  exact ⟨rfl, rfl, rfl⟩

theorem Sink.still_take (s : Sink) (report : Report) (w : World σ) :
    w.Still (s.take report w).2 := by
  obtain ⟨ledger, recorded, h⟩ := s.take_writes report w
  rw [h]
  exact ⟨rfl, rfl, rfl⟩

theorem still_logResult (result : RunResult) (seconds : Float) (w : World σ) :
    w.Still (logResult result seconds w) := by
  obtain ⟨log, h⟩ := logResult_writes result seconds w
  rw [h]
  exact ⟨rfl, rfl, rfl⟩

theorem still_logSink (answer : SinkAnswer) (w : World σ) : w.Still (logSink answer w) := by
  obtain ⟨log, h⟩ := logSink_writes answer w
  rw [h]
  exact ⟨rfl, rfl, rfl⟩

namespace Execution

/-- The beginning of an execution touches neither locks nor clock. -/
theorem still_begin {job : Job} {w w' : World σ} {x : Execution}
    (h : Execution.begin job w = (x, w')) :
    w.Still w' := by
  have hstill : w.Still (Execution.begin job w).2 :=
    (World.still_emit _ _ _ w).trans (job.body.still_start _)
  rw [h] at hstill
  exact hstill

/-- An execution knows the moment at which it began. -/
theorem begin_beganAt {job : Job} {w w' : World σ} {x : Execution}
    (h : Execution.begin job w = (x, w')) :
    x.beganAt = w.elapsed := by
  have hbegan : (Execution.begin job w).1.beganAt = w.elapsed := rfl
  rw [h] at hbegan
  exact hbegan

/-- A record only reads the clock of its world. -/
theorem report_of_still {w w' : World σ} (h : w.Still w') (x : Execution) (job : Job)
    (result : RunResult) :
    x.report job result w' = x.report job result w := by
  unfold report
  rw [h.now, h.elapsed, h.start]

/-- The end of an execution, with its record, touches neither locks nor clock. -/
theorem still_finish (x : Execution) (job : Job) (sink : Sink) (w : World σ) :
    w.Still (x.finish job sink w).2 := by
  have hstop : w.Still (job.body.stop x.sleep w) := job.body.still_stop x.sleep w
  have hlog := hstop.trans (still_logResult (.ofEnding x.ending)
    (secondsOfMillis ((job.body.stop x.sleep w).elapsed - x.beganAt)) _)
  have hcount := hlog.trans
    (World.still_measure (·.recordRun job.id (RunResult.ofEnding x.ending).success
    (secondsOfMillis ((job.body.stop x.sleep w).elapsed - x.beganAt))) _)
  exact hcount.trans ((sink.still_take _ _).trans (still_logSink _ _))

end Execution

/-- No body writes to the ledger when it ends. -/
theorem Body.ledger_stop (b : Body) (sleep : Nat) (w : World σ) :
    (b.stop sleep w).ledger = w.ledger := by
  obtain ⟨tallies, h⟩ := b.stop_writes sleep w
  rw [h]

/-- The ledger as a sink enters the record. -/
theorem Sink.ledger_take (report : Report) (w : World σ) :
    (Sink.ledger.take report w).2.ledger = (w.ledger.create w.now report).2 := by
  simp only [Sink.take]
  split <;> rfl

/-! ## Verdicts -/

namespace Lock

/-- Only an answer of yes gets a lock. -/
theorem answer_of_acquired {l : Lock} {deadline : Option Nat} {number : Nat}
    {answer : Except LockStoreError Bool} {w : World σ}
    (h : (l.judge deadline number answer w).1 = .acquired) : answer = .ok true := by
  cases answer with
  | error e => cases h
  | ok yes =>
    cases yes with
    | true => rfl
    | false =>
      unfold judge at h
      simp only at h
      split at h <;> cases h

/-- After an answer of no the time left decides. -/
theorem judge_no (l : Lock) (deadline : Option Nat) (number : Nat) (w : World σ) :
    l.judge deadline number (.ok false) w =
      (match l.retryAt? deadline w.elapsed with
        | some moment => .retryAt moment
        | none => .refused, w.emit .debug "Lock held elsewhere" [("attempts", .ofNat number)]) := by
  unfold judge
  show (match l.retryAt? deadline w.elapsed with
    | some moment => (_, _)
    | none => (_, _)) = _
  cases l.retryAt? deadline w.elapsed <;> rfl

/-- Another attempt comes one delay later and by the deadline. -/
theorem retryAt?_eq_some {l : Lock} {deadline : Option Nat} {now moment : Nat}
    (h : l.retryAt? deadline now = some moment) :
    ∃ last, deadline = some last ∧ moment = now + l.retryDelay ∧ moment ≤ last := by
  unfold retryAt? at h
  obtain ⟨last, hlast, h⟩ := Option.bind_eq_some_iff.1 h
  split at h
  · rename_i hin
    cases h
    exact ⟨last, hlast, rfl, hin⟩
  · cases h

/-- The deadline is a positive timeout from now. -/
theorem deadline?_eq_some {timeout : Option Nat} {now last : Nat}
    (h : deadline? timeout now = some last) :
    ∃ length, timeout = some length ∧ last = now + length := by
  unfold deadline? at h
  obtain ⟨length, hlength, rfl⟩ := Option.map_eq_some_iff.1 h
  exact ⟨length, (Option.filter_eq_some_iff.1 hlength).1, rfl⟩

end Lock

/-! ## Pieces -/

namespace Run

/-- How often runs of the same job and kind were skipped. -/
def skips (r : Run) (w : World σ) : Nat := w.metrics.count (.skipped r.job.id r.kind)

/-- A skip is counted once, for the job and the kind. -/
theorem skips_skip (r : Run) (w : World σ) : r.skips (r.skip w).2 = r.skips w + 1 := by
  show ((World.emit _ _ _ w).metrics.raise _).count _ = _
  rw [Metrics.count_raise]
  simp [skips, World.emit]

variable [LockStore σ]

/-- The answer of the store when a run asks for its lock, and the locks after it. -/
def ask (r : Run) (w : World σ) : Except LockStoreError Bool × σ :=
  LockStore.setIfAbsent w.elapsed r.key r.guard.lock.holder
    (Lock.wholeSeconds (r.guard.ttlOf r.job)) w.locks

/-- The answer of the store when a run gives its lock back, and the locks after it. -/
def giveBack (r : Run) (w : World σ) : Except LockStoreError Bool × σ :=
  LockStore.compareAndDelete w.elapsed r.key r.guard.lock.holder w.locks

/-- The next piece is the attempt with a number, under a deadline. -/
def Asks (r : Run) (w : World σ) (deadline : Option Nat) (number : Nat) : Prop :=
  (r.phase = .entering ∧ unreadable r.job w = false ∧
      deadline = Lock.deadline? r.guard.acquireTimeout w.elapsed ∧ number = 1) ∨
    ∃ attempts, r.phase = .polling deadline attempts ∧ number = attempts + 1

/-- The ways in which the next piece of a run can go, from a world to how far the run gets and the
    world after it. -/
inductive Advances (r : Run) (w : World σ) : Progress → World σ → Prop
  /-- The declaration panics before the first attempt. -/
  | panicked (hphase : r.phase = .entering) (hread : unreadable r.job w = true) :
      Advances r w (.ended .panicked) w
  /-- The store answers yes. -/
  | took {deadline : Option Nat} {number : Nat} {w' : World σ} (hasks : r.Asks w deadline number)
      (hyes : (r.ask w).1 = .ok true) (hstill : World.Still { w with locks := (r.ask w).2 } w')
      (huntouched : w.Untouched w') (hskips : r.skips w' = r.skips w) :
      Advances r w (.going { r with phase := .holding w.elapsed }) w'
  /-- The store answers no and there is time for another attempt. -/
  | polled {deadline : Option Nat} {number moment : Nat} {w' : World σ} (hasks :
    r.Asks w deadline number)
      (hno : (r.ask w).1 = .ok false) (hretry :
        r.guard.lock.retryAt? deadline w.elapsed = some moment)
      (hstill : World.Still { w with locks := (r.ask w).2 } w') (huntouched : w.Untouched w')
      (hskips : r.skips w' = r.skips w) :
      Advances r w (.waiting moment { r with phase := .polling deadline number }) w'
  /-- The store does not answer yes and there is no other attempt. -/
  | skipped {deadline : Option Nat} {number : Nat} {w' : World σ} (hasks : r.Asks w deadline number)
      (hno : (r.ask w).1 ≠ .ok true) (hstill : World.Still { w with locks := (r.ask w).2 } w')
      (huntouched : w.Untouched w') (hskips : r.skips w' = r.skips w + 1) :
      Advances r w (.ended .skipped) w'
  /-- The declaration panics with the lock held. -/
  | broke {since : Nat} (hphase : r.phase = .holding since) (hread : unreadable r.job w = true) :
      Advances r w (.going { r with phase := .releasing since none }) w
  /-- The body begins and waits. -/
  | began {since : Nat} {x : Execution} {w' : World σ} (hphase : r.phase = .holding since)
      (hread : unreadable r.job w = false) (hbegin : Execution.begin r.job w = (x, w')) :
      Advances r w (if 0 < x.sleep then
        .waiting (w.elapsed + x.sleep) { r with phase := .executing since x }
        else .going { r with phase := .executing since x }) w'
  /-- The body ends and its record is handed over. -/
  | finished {since : Nat} {x : Execution} (hphase : r.phase = .executing since x) :
      Advances r w (.going { r with phase := .releasing since (some (.ofEnding x.ending)) })
        (x.finish r.job r.guard.sink w).2
  /-- The lock is given back, whatever the store answers. -/
  | released {since : Nat} {result : Option RunResult} {w' : World σ} (hphase :
    r.phase = .releasing since result)
      (hstill : World.Still { w with locks := (r.giveBack w).2 } w') (huntouched : w.Untouched w') :
      Advances r w (.ended (.completed (result.getD .brokenWrapper))) w'

/-- An attempt is the judgement of the answer of the store. -/
theorem attempt_judge (r : Run) (deadline : Option Nat) (number : Nat) (w : World σ) :
    r.guard.lock.attempt r.lockId (r.guard.ttlOf r.job) deadline number w =
      r.guard.lock.judge deadline number (r.ask w).1
        (w.setIfAbsent r.key r.guard.lock.holder (Lock.wholeSeconds (r.guard.ttlOf r.job))).2 := rfl

/-- Without the lock and without another attempt a run is skipped. -/
theorem advances_skip {r : Run} {w : World σ} {deadline : Option Nat} {number : Nat}
    (hasks : r.Asks w deadline number) (hno : (r.ask w).1 ≠ .ok true) {w₁ : World σ}
    (hstill : World.Still { w with locks := (r.ask w).2 } w₁) (huntouched : w.Untouched w₁)
    (hskips : r.skips w₁ = r.skips w) : Advances r w (r.skip w₁).1 (r.skip w₁).2 := by
  apply Advances.skipped hasks hno
  · exact hstill.trans ⟨rfl, rfl, rfl⟩
  · exact ⟨huntouched.tallies, huntouched.ledger, huntouched.recorded⟩
  · rw [skips_skip, hskips]

/-- An attempt ends, is tried again, or takes the lock. -/
theorem advances_attempt {r : Run} {w : World σ} {deadline : Option Nat} {number : Nat}
    (hasks : r.Asks w deadline number) :
    Advances r w (r.attempt deadline number w).1 (r.attempt deadline number w).2 := by
  unfold attempt
  rw [attempt_judge]
  cases hanswer : (r.ask w).1 with
  | error e =>
    -- an error counts as an answer of no, without another attempt
    have hno : (r.ask w).1 ≠ .ok true := by
      rw [hanswer]
      nofun
    apply advances_skip hasks hno
    · exact ⟨rfl, rfl, rfl⟩
    · exact ⟨rfl, rfl, rfl⟩
    · show (Metrics.raise _ w.metrics).count _ = _
      rw [Metrics.count_raise]
      simp [skips]
  | ok yes =>
    cases yes with
    | true => exact Advances.took hasks hanswer ⟨rfl, rfl, rfl⟩ ⟨rfl, rfl, rfl⟩ rfl
    | false =>
      have hno : (r.ask w).1 ≠ .ok true := by
        rw [hanswer]
        nofun
      have helapsed : (w.setIfAbsent r.key r.guard.lock.holder
          (Lock.wholeSeconds (r.guard.ttlOf r.job))).2.elapsed = w.elapsed := rfl
      rw [Lock.judge_no, helapsed]
      cases hretry : r.guard.lock.retryAt? deadline w.elapsed with
      | none => exact advances_skip hasks hno ⟨rfl, rfl, rfl⟩ ⟨rfl, rfl, rfl⟩ rfl
      | some moment => exact .polled hasks hanswer hretry ⟨rfl, rfl, rfl⟩ ⟨rfl, rfl, rfl⟩ rfl

/-- Giving the lock back is one call, and only logs and counts beside it. -/
theorem still_release (r : Run) (w : World σ) :
    World.Still { w with locks := (r.giveBack w).2 } (r.guard.lock.release r.lockId w) ∧
      w.Untouched (r.guard.lock.release r.lockId w) := by
  unfold Lock.release World.compareAndDelete giveBack key
  rcases LockStore.compareAndDelete w.elapsed (r.guard.lock.key r.lockId)
    r.guard.lock.holder w.locks with
    ⟨answer, locks⟩
  cases answer with
  | error e => exact ⟨⟨rfl, rfl, rfl⟩, ⟨rfl, rfl, rfl⟩⟩
  | ok yes => cases yes <;> exact ⟨⟨rfl, rfl, rfl⟩, ⟨rfl, rfl, rfl⟩⟩

/-- Every piece goes in one of these ways. -/
theorem advances (r : Run) (w : World σ) : Advances r w (r.advance w).1 (r.advance w).2 := by
  unfold advance
  cases hphase : r.phase with
  | entering =>
    by_cases hread : unreadable r.job w = true
    · simp only [hread, if_true]
      exact .panicked hphase hread
    · have hread' : unreadable r.job w = false := by simpa using hread
      simp only [hread']
      exact advances_attempt (.inl ⟨hphase, hread', rfl, rfl⟩)
  | polling deadline attempts => exact advances_attempt (.inr ⟨attempts, hphase, rfl⟩)
  | holding since =>
    simp only [begin]
    by_cases hread : unreadable r.job w = true
    · simp only [hread, if_true]
      exact .broke hphase hread
    · have hread' : unreadable r.job w = false := by simpa using hread
      rw [if_neg hread]
      cases hbegin : Execution.begin r.job w with
      | mk x w' =>
        -- the body waits from now on, since beginning it takes no time
        have helapsed : w'.elapsed = w.elapsed := (Execution.still_begin hbegin).elapsed
        show Advances r w (if 0 < x.sleep then .waiting (w'.elapsed + x.sleep) _ else _) w'
        rw [helapsed]
        exact .began hphase hread' hbegin
  | executing since x => exact .finished hphase
  | releasing since result =>
    obtain ⟨hstill, huntouched⟩ := still_release r w
    cases result with
    | none =>
      apply Advances.released hphase
      · exact hstill.trans ⟨rfl, rfl, rfl⟩
      · exact ⟨huntouched.tallies, huntouched.ledger, huntouched.recorded⟩
    | some result => exact .released hphase hstill huntouched

end Run

/-! ## What all pieces have in common -/

/-- The run that goes on. -/
def Progress.run? : Progress → Option Run
  | .going r => some r
  | .waiting _ r => some r
  | .ended _ => none

/-- When a run took the lock that it has. -/
def RunPhase.since? : RunPhase → Option Nat
  | .entering => none
  | .polling _ _ => none
  | .holding since => some since
  | .executing since _ => some since
  | .releasing since _ => some since

/-- A run asks with one deadline and one number. -/
theorem Run.Asks.unique {r : Run} {w : World σ} {deadline deadline' : Option Nat}
    {number number' : Nat} (h : r.Asks w deadline number) (h' : r.Asks w deadline' number') :
    deadline = deadline' ∧ number = number' := by
  rcases h with ⟨hphase, -, rfl, rfl⟩ | ⟨attempts, hphase, rfl⟩
  · rcases h' with ⟨-, -, rfl, rfl⟩ | ⟨attempts, hphase', -⟩
    · exact ⟨rfl, rfl⟩
    · rw [hphase] at hphase'
      cases hphase'
  · rcases h' with ⟨hphase', -⟩ | ⟨attempts', hphase', rfl⟩
    · rw [hphase] at hphase'
      cases hphase'
    · rw [hphase] at hphase'
      cases hphase'
      exact ⟨rfl, rfl⟩

/-- A run that asks for its lock does not have it. -/
theorem Run.Asks.since? {r : Run} {w : World σ} {deadline : Option Nat} {number : Nat}
    (h : r.Asks w deadline number) : r.phase.since? = none := by
  rcases h with ⟨hphase, -⟩ | ⟨attempts, hphase, -⟩
  · rw [hphase]
    rfl
  · rw [hphase]
    rfl

/-- The guard, the job and the kind of a run are those of another. -/
structure Run.Same (r r' : Run) : Prop where
  guard : r'.guard = r.guard
  job : r'.job = r.job
  kind : r'.kind = r.kind

theorem Run.Same.refl (r : Run) : r.Same r := ⟨rfl, rfl, rfl⟩

/-- A run at another phase is the same run. -/
theorem Run.same_phase (r : Run) (phase : RunPhase) :
    r.Same { r with phase := phase } := ⟨rfl, rfl, rfl⟩

theorem Run.Same.trans {r₁ r₂ r₃ : Run} (h : r₁.Same r₂) (h' : r₂.Same r₃) : r₁.Same r₃ := by
  refine ⟨?_, ?_, ?_⟩
  · rw [h'.guard, h.guard]
  · rw [h'.job, h.job]
  · rw [h'.kind, h.kind]

/-- The key of a run stays the same through its life. -/
theorem Run.Same.key {r r' : Run} (h : r.Same r') : r'.key = r.key := by
  unfold Run.key Run.lockId
  rw [h.guard, h.job, h.kind]

namespace Run.Advances

variable [LockStore σ] {r r' : Run} {w w' : World σ} {p : Progress}

/-- A body that begins goes on at once or waits. -/
theorem run?_began {x : Execution} {moment : Nat} :
    (if 0 < x.sleep then Progress.waiting moment r else .going r).run? = some r := by
  split <;> rfl

/-- A piece only changes the phase of its run. -/
theorem same (h : r.Advances w p w') (hrun : p.run? = some r') : r.Same r' := by
  cases h with
  | panicked => cases hrun
  | skipped => cases hrun
  | released => cases hrun
  | began =>
    rw [run?_began] at hrun
    cases hrun
    exact ⟨rfl, rfl, rfl⟩
  | _ =>
    cases hrun
    exact ⟨rfl, rfl, rfl⟩

/-- A piece takes no time. -/
theorem clock (h : r.Advances w p w') : w'.elapsed = w.elapsed ∧ w'.start = w.start := by
  cases h with
  | panicked => exact ⟨rfl, rfl⟩
  | broke => exact ⟨rfl, rfl⟩
  | took _ _ hstill => exact ⟨hstill.elapsed, hstill.start⟩
  | polled _ _ _ hstill => exact ⟨hstill.elapsed, hstill.start⟩
  | skipped _ _ hstill => exact ⟨hstill.elapsed, hstill.start⟩
  | released _ hstill => exact ⟨hstill.elapsed, hstill.start⟩
  | began _ _ hbegin =>
    have hstill := Execution.still_begin hbegin
    exact ⟨hstill.elapsed, hstill.start⟩
  | @finished since x hphase =>
    have hstill := x.still_finish r.job r.guard.sink w
    exact ⟨hstill.elapsed, hstill.start⟩

/-- What a piece does to the locks: nothing, or one call. -/
theorem locks (h : r.Advances w p w') :
    w'.locks = w.locks ∨ (w'.locks = (r.ask w).2 ∧ r.phase.since? = none) ∨
      (w'.locks = (r.giveBack w).2 ∧ p.run? = none ∧
        ∃ since result, r.phase = .releasing since result) := by
  cases h with
  | panicked => exact .inl rfl
  | broke => exact .inl rfl
  | took hasks _ hstill => exact .inr (.inl ⟨hstill.locks, hasks.since?⟩)
  | polled hasks _ _ hstill => exact .inr (.inl ⟨hstill.locks, hasks.since?⟩)
  | skipped hasks _ hstill => exact .inr (.inl ⟨hstill.locks, hasks.since?⟩)
  | released hphase hstill => exact .inr (.inr ⟨hstill.locks, rfl, _, _, hphase⟩)
  | began _ _ hbegin => exact .inl (Execution.still_begin hbegin).locks
  | @finished since x hphase => exact .inl (x.still_finish r.job r.guard.sink w).locks

/-- A run that has its lock after a piece has just taken it, or had it before. -/
theorem holds (h : r.Advances w p w') (hrun : p.run? = some r') {since : Nat}
    (hsince : r'.phase.since? = some since) :
    (since = w.elapsed ∧ (r.ask w).1 = .ok true ∧ w'.locks = (r.ask w).2) ∨
      (r.phase.since? = some since ∧ w'.locks = w.locks) := by
  cases h with
  | panicked => cases hrun
  | skipped => cases hrun
  | released => cases hrun
  | took _ hyes hstill =>
    cases hrun
    cases hsince
    exact .inl ⟨rfl, hyes, hstill.locks⟩
  | polled =>
    cases hrun
    cases hsince
  | broke hphase =>
    cases hrun
    cases hsince
    exact .inr ⟨by rw [hphase]; rfl, rfl⟩
  | began hphase _ hbegin =>
    rw [run?_began] at hrun
    cases hrun
    cases hsince
    exact .inr ⟨by rw [hphase]; rfl, (Execution.still_begin hbegin).locks⟩
  | @finished _ x hphase =>
    cases hrun
    cases hsince
    exact .inr ⟨by rw [hphase]; rfl, (x.still_finish r.job r.guard.sink w).locks⟩

/-- A piece that asks is one call, whose answer and the time left decide how it goes on. -/
theorem of_asks (h : r.Advances w p w') {deadline : Option Nat} {number : Nat}
    (hasks : r.Asks w deadline number) :
    World.Still { w with locks := (r.ask w).2 } w' ∧ w.Untouched w' ∧
      (((r.ask w).1 = .ok true ∧ p = .going { r with phase := .holding w.elapsed } ∧
        r.skips w' = r.skips w) ∨
        ((r.ask w).1 = .ok false ∧ r.skips w' = r.skips w ∧
          ∃ moment, r.guard.lock.retryAt? deadline w.elapsed = some moment ∧
            p = .waiting moment { r with phase := .polling deadline number }) ∨
        ((r.ask w).1 ≠ .ok true ∧ p = .ended .skipped ∧ r.skips w' = r.skips w + 1)) := by
  have hsince := hasks.since?
  cases h with
  | panicked hphase hread =>
    rcases hasks with ⟨-, hread', -⟩ | ⟨attempts, hphase', -⟩
    · rw [hread] at hread'
      cases hread'
    · rw [hphase] at hphase'
      cases hphase'
  | took _ hyes hstill huntouched hskips => exact ⟨hstill, huntouched, .inl ⟨hyes, rfl, hskips⟩⟩
  | polled hasks' hno hretry hstill huntouched hskips =>
    obtain ⟨rfl, rfl⟩ := hasks.unique hasks'
    exact ⟨hstill, huntouched, .inr (.inl ⟨hno, hskips, _, hretry, rfl⟩)⟩
  | skipped _ hno hstill huntouched hskips =>
    exact ⟨hstill, huntouched, .inr (.inr ⟨hno, rfl, hskips⟩)⟩
  | broke hphase | began hphase | finished hphase | released hphase =>
    rw [hphase] at hsince
    cases hsince

/-- With the lock held either the body begins, or the declaration panics and the lock is given back
    next. -/
theorem of_holding (h : r.Advances w p w') {since : Nat} (hphase : r.phase = .holding since) :
    (unreadable r.job w = true ∧ p.run? = some { r with phase := .releasing since none } ∧ w' = w) ∨
      ∃ x, Execution.begin r.job w = (x, w') ∧
      p.run? = some { r with phase := .executing since x } := by
  cases h with
  | took hasks | polled hasks | skipped hasks =>
    have hsince := hasks.since?
    rw [hphase] at hsince
    cases hsince
  | broke hphase' hread =>
    rw [hphase] at hphase'
    cases hphase'
    exact .inl ⟨hread, rfl, rfl⟩
  | began hphase' hread hbegin =>
    rw [hphase] at hphase'
    cases hphase'
    exact .inr ⟨_, hbegin, run?_began⟩
  | panicked hphase' | finished hphase' | released hphase' =>
    rw [hphase] at hphase'
    cases hphase'

/-- A body ends with the result of its ending. -/
theorem of_executing (h : r.Advances w p w') {since : Nat} {x : Execution}
    (hphase : r.phase = .executing since x) :
    p = .going { r with phase := .releasing since (some (.ofEnding x.ending)) } ∧
      w' = (x.finish r.job r.guard.sink w).2 := by
  cases h with
  | took hasks | polled hasks | skipped hasks =>
    have hsince := hasks.since?
    rw [hphase] at hsince
    cases hsince
  | finished hphase' =>
    rw [hphase] at hphase'
    cases hphase'
    exact ⟨rfl, rfl⟩
  | panicked hphase' | broke hphase' | began hphase' | released hphase' =>
    rw [hphase] at hphase'
    cases hphase'

/-- The last piece of a run that had its lock gives it back. -/
theorem of_releasing (h : r.Advances w p w') {since : Nat} {result : Option RunResult}
    (hphase : r.phase = .releasing since result) :
    p = .ended (.completed (result.getD .brokenWrapper)) ∧
      World.Still { w with locks := (r.giveBack w).2 } w' ∧ w.Untouched w' := by
  cases h with
  | took hasks | polled hasks | skipped hasks =>
    have hsince := hasks.since?
    rw [hphase] at hsince
    cases hsince
  | released hphase' hstill huntouched =>
    rw [hphase] at hphase'
    cases hphase'
    exact ⟨rfl, hstill, huntouched⟩
  | panicked hphase' | broke hphase' | began hphase' | finished hphase' =>
    rw [hphase] at hphase'
    cases hphase'

/-- A body that runs after a piece has begun in it. -/
theorem began_now (h : r.Advances w p w') (hrun : p.run? = some r') {since : Nat} {x : Execution}
    (hphase : r'.phase = .executing since x) : x.beganAt = w.elapsed := by
  cases h with
  | panicked => cases hrun
  | skipped => cases hrun
  | released => cases hrun
  | began _ _ hbegin =>
    rw [run?_began] at hrun
    cases hrun
    cases hphase
    exact Execution.begin_beganAt hbegin
  | _ =>
    cases hrun
    cases hphase

end Run.Advances

/-! ## A small job -/

/-- A job that fires every second, whose runs sleep for the given milliseconds, and whose lock is
    leased for others. -/
def Job.sleeper (ttlMillis : Nat) (sleeps : List Nat) : Job where
  definition := ⟨"sleeper", "sleeper", "Sleeps", .every 1, true, 0, 60, some ttlMillis⟩
  body := .scripted "sleeper" (sleeps.map (fun ms => ⟨ms, .returned ⟨true, "ok", none⟩⟩))

end JobFleet
