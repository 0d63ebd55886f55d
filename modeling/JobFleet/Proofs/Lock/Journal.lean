/-
  JobFleet.Proofs.Lock.Journal: a lock store that writes down the calls made on it.

  A journal answers as the store behind it does.  Running a piece of a run on a journal therefore
  tells which calls the piece makes on any store, whether or not they change anything there.

  Main results:
    * `Run.advance_journaled` — writing the calls down changes nothing else.
    * `Run.calls_of_asks`, `Run.calls_of_holding`, `Run.calls_of_executing`,
      `Run.calls_of_releasing` — the calls of a piece, by the phase of its run.
-/
import JobFleet.Proofs.Fleet.Piece

namespace JobFleet

/-! ## Journals -/

/-- A call that may change a lock store, with its answer. -/
inductive StoreCall
  | setIfAbsent (key : String) (holder : Holder) (seconds : Nat)
    (answer : Except LockStoreError Bool)
  | compareAndDelete (key : String) (holder : Holder) (answer : Except LockStoreError Bool)
  | compareAndExtend (key : String) (holder : Holder) (seconds : Nat)
    (answer : Except LockStoreError Bool)

/-- A lock store and the calls made on it, newest first. -/
structure Journal (σ : Type) where
  store : σ
  calls : List StoreCall := []

variable {σ : Type}

instance [LockStore σ] : LockStore (Journal σ) where
  setIfAbsent now key holder seconds j :=
    let (answer, store) := LockStore.setIfAbsent now key holder seconds j.store
    (answer, ⟨store, .setIfAbsent key holder seconds answer :: j.calls⟩)
  compareAndDelete now key holder j :=
    let (answer, store) := LockStore.compareAndDelete now key holder j.store
    (answer, ⟨store, .compareAndDelete key holder answer :: j.calls⟩)
  isPresent now key j := LockStore.isPresent now key j.store
  secondsLeft now key j := LockStore.secondsLeft now key j.store
  compareAndExtend now key holder seconds j :=
    let (answer, store) := LockStore.compareAndExtend now key holder seconds j.store
    (answer, ⟨store, .compareAndExtend key holder seconds answer :: j.calls⟩)

/-- A world whose store has an empty journal before it. -/
def World.journaled (w : World σ) : World (Journal σ) := { w with locks := ⟨w.locks, []⟩ }

/-- A world without the journal before its store. -/
def World.plain (w : World (Journal σ)) : World σ := { w with locks := w.locks.store }

/-! ## Forgetting the journal -/

namespace Journal

theorem plain_cleanup (days : UInt32) (w : World (Journal σ)) :
    cleanupEnding days w.plain = ((cleanupEnding days w).1, (cleanupEnding days w).2.plain) := by
  have hledger : w.plain.ledger = w.ledger := rfl
  have hnow : w.plain.now = w.now := rfl
  unfold cleanupEnding
  rw [hledger, hnow]
  by_cases hfails : .cleanup ∈ w.ledger.failing
  · rw [if_pos hfails, if_pos hfails]
  · rw [if_neg hfails, if_neg hfails]
    by_cases hleaves : (windowStart? w.now (Time.secondsPerDay * days.toNat)).isNone
    · rw [if_pos hleaves, if_pos hleaves]
    · rw [if_neg hleaves, if_neg hleaves]
      rcases w.ledger.cleanup w.now days.toNat with ⟨answer, ledger⟩
      cases answer <;> rfl

/-- A body begins alike, journal or not: it makes no call on the lock store. -/
theorem plain_start (b : Body) (w : World (Journal σ)) :
    b.start w.plain = ((b.start w).1, (b.start w).2.1, (b.start w).2.2.plain) := by
  cases b with
  | scripted script runs => rfl
  | cleanup days => simp only [Body.start, plain_cleanup]

theorem plain_begin (job : Job) (w : World (Journal σ)) :
    Execution.begin job w.plain = ((Execution.begin job w).1, (Execution.begin job w).2.plain) := by
  have hemit : w.plain.emit .info "Job execution started" [] =
      (w.emit .info "Job execution started" []).plain := rfl
  simp only [Execution.begin, hemit, plain_start]
  rfl

/-- A body ends alike, journal or not. -/
theorem plain_stop (b : Body) (sleep : Nat) (w : World (Journal σ)) :
    b.stop sleep w.plain = (b.stop sleep w).plain := by
  cases b with
  | scripted script runs =>
    unfold Body.stop
    by_cases hsleep : 0 < sleep
    · simp only [hsleep, if_true]
      rfl
    · simp only [hsleep, if_false]
  | cleanup days => rfl

theorem plain_logResult (result : RunResult) (seconds : Float) (w : World (Journal σ)) :
    logResult result seconds w.plain = (logResult result seconds w).plain := by
  unfold logResult
  cases result.success <;> rfl

theorem plain_take (sink : Sink) (report : Report) (w : World (Journal σ)) :
    sink.take report w.plain = ((sink.take report w).1, (sink.take report w).2.plain) := by
  cases sink with
  | none => rfl
  | ledger =>
    show Sink.take .ledger report w.plain = _
    unfold Sink.take
    have hcreate : w.plain.ledger.create w.plain.now report = w.ledger.create w.now report := rfl
    simp only [hcreate]
    rcases w.ledger.create w.now report with ⟨answer, ledger⟩
    cases answer <;> rfl
  | recorder ending => cases ending <;> rfl

theorem plain_logSink (answer : SinkAnswer) (w : World (Journal σ)) :
    logSink answer w.plain = (logSink answer w).plain := by
  cases answer <;> rfl

/-- An execution ends alike, journal or not. -/
theorem plain_finish (x : Execution) (job : Job) (sink : Sink) (w : World (Journal σ)) :
    x.finish job sink w.plain = ((x.finish job sink w).1, (x.finish job sink w).2.plain) := by
  have helapsed (w : World (Journal σ)) : w.plain.elapsed = w.elapsed := rfl
  have hmeasure (change : Metrics → Metrics) (w : World (Journal σ)) :
      w.plain.measure change = (w.measure change).plain :=
    rfl
  have hreport (result : RunResult) (w : World (Journal σ)) :
      x.report job result w.plain = x.report job result w := rfl
  simp only [Execution.finish, plain_stop, helapsed, plain_logResult, hmeasure, hreport,
    plain_take, plain_logSink]

/-- An answer of the store is judged alike, journal or not. -/
theorem plain_judge (l : Lock) (deadline : Option Nat) (number : Nat)
    (answer : Except LockStoreError Bool) (w : World (Journal σ)) :
    l.judge deadline number answer w.plain =
      ((l.judge deadline number answer w).1, (l.judge deadline number answer w).2.plain) := by
  cases answer with
  | error e => rfl
  | ok yes =>
    cases yes with
    | true => rfl
    | false =>
      rw [Lock.judge_no, Lock.judge_no]
      rfl

end Journal

namespace Run

variable [LockStore σ]

/-- A run goes on alike after an attempt, with one call in the journal. -/
theorem plain_attempt (r : Run) (deadline : Option Nat) (number : Nat) (w : World (Journal σ)) :
    r.attempt deadline number w.plain =
      ((r.attempt deadline number w).1, (r.attempt deadline number w).2.plain) := by
  have hattempt : r.guard.lock.attempt r.lockId (r.guard.ttlOf r.job) deadline number w.plain =
      ((r.guard.lock.attempt r.lockId (r.guard.ttlOf r.job) deadline number w).1,
        (r.guard.lock.attempt r.lockId (r.guard.ttlOf r.job) deadline number w).2.plain) := by
    -- both attempts judge the same answer of the same store
    rw [attempt_judge, attempt_judge]
    exact Journal.plain_judge _ _ _ _
      (w.setIfAbsent r.key r.guard.lock.holder (Lock.wholeSeconds (r.guard.ttlOf r.job))).2
  unfold attempt
  rw [hattempt]
  rcases r.guard.lock.attempt r.lockId (r.guard.ttlOf r.job) deadline number w with ⟨verdict, w'⟩
  cases verdict <;> rfl

/-- A lock is given back alike, journal or not. -/
theorem plain_release (l : Lock) (id : String) (w : World (Journal σ)) :
    l.release id w.plain = (l.release id w).plain := by
  have hdelete : w.plain.compareAndDelete (l.key id) l.holder =
      ((w.compareAndDelete (l.key id) l.holder).1,
        (w.compareAndDelete (l.key id) l.holder).2.plain) := rfl
  unfold Lock.release
  rw [hdelete]
  rcases w.compareAndDelete (l.key id) l.holder with ⟨answer, w'⟩
  cases answer with
  | error e => rfl
  | ok yes => cases yes <;> rfl

/-- A piece goes the same way on a journal as on the store behind it. -/
theorem advance_plain (r : Run) (w : World (Journal σ)) :
    r.advance w.plain = ((r.advance w).1, (r.advance w).2.plain) := by
  unfold advance
  cases r.phase with
  | entering =>
    -- whether a declaration can be read does not depend on the locks
    show (if unreadable r.job w then _ else _) = _
    split
    · rfl
    · exact plain_attempt r _ 1 w
  | polling deadline attempts => exact plain_attempt r deadline (attempts + 1) w
  | holding since =>
    show (if unreadable r.job w then _ else _) = ((r.begin since w).1, (r.begin since w).2.plain)
    unfold begin
    split
    · rfl
    · rw [Journal.plain_begin]
      rfl
  | executing since x =>
    simp only [finish, Journal.plain_finish]
  | releasing since result =>
    simp only [complete, plain_release]
    cases result <;> rfl

/-- Writing the calls down changes nothing else. -/
theorem advance_journaled (r : Run) (w : World σ) :
    r.advance w = ((r.advance w.journaled).1, (r.advance w.journaled).2.plain) :=
  r.advance_plain w.journaled

/-! ## What a piece calls -/

/-- The calls that the next piece of a run makes. -/
def calls (r : Run) (w : World σ) : List StoreCall := (r.advance w.journaled).2.locks.calls

/-- A run that panics before it asks calls nothing. -/
theorem calls_of_unreadable {r : Run} {w : World σ} (hphase : r.phase = .entering)
    (hread : unreadable r.job w = true) : r.calls w = [] := by
  have hread' : unreadable r.job w.journaled = true := hread
  unfold calls advance
  rw [hphase]
  simp only [hread', if_true]
  rfl

/-- An attempt is one call to set the key. -/
theorem calls_of_asks {r : Run} {w : World σ} {deadline : Option Nat} {number : Nat}
    (h : r.Asks w deadline number) :
    r.calls w = [.setIfAbsent r.key r.guard.lock.holder (Lock.wholeSeconds (r.guard.ttlOf r.job))
      (r.ask w).1] := by
  have hasks : r.Asks w.journaled deadline number := h
  have hlocks := ((r.advances w.journaled).of_asks hasks).1.locks
  unfold calls
  rw [hlocks]
  rfl

/-- While the lock is held and the body runs there is no call. -/
theorem calls_of_holding {r : Run} {w : World σ} {since : Nat} (h : r.phase = .holding since) :
    r.calls w = [] := by
  have hlocks : (r.advance w.journaled).2.locks = w.journaled.locks := by
    rcases (r.advances w.journaled).of_holding h with ⟨-, -, hw⟩ | ⟨x, hbegin, -⟩
    · rw [hw]
    · exact (Execution.still_begin hbegin).locks
  unfold calls
  rw [hlocks]
  rfl

/-- A run whose body ends makes no call. -/
theorem calls_of_executing {r : Run} {w : World σ} {since : Nat} {x : Execution}
    (h : r.phase = .executing since x) :
    r.calls w = [] := by
  have hlocks : (r.advance w.journaled).2.locks = w.journaled.locks := by
    rw [((r.advances w.journaled).of_executing h).2]
    exact (x.still_finish r.job r.guard.sink w.journaled).locks
  unfold calls
  rw [hlocks]
  rfl

/-- Giving the lock back is one call to delete the key. -/
theorem calls_of_releasing {r : Run} {w : World σ} {since : Nat} {result : Option RunResult}
    (h : r.phase = .releasing since result) :
    r.calls w = [.compareAndDelete r.key r.guard.lock.holder (r.giveBack w).1] := by
  have hlocks := ((r.advances w.journaled).of_releasing h).2.1.locks
  unfold calls
  rw [hlocks]
  rfl

end Run

end JobFleet
