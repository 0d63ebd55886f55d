/-
  JobFleet.Proofs.Lock.Polling: which attempts are made to take a lock.

  `Acquisition.course` makes the attempts of an acquisition one after the other, each at the moment
  at which the one before asked for it.  What happens meanwhile is a parameter: it may do anything
  to the world but set its clock, so what holds of every course holds for every store, however it
  answers from attempt to attempt, and for everything that others do to it.

  The time between two attempts is the retry delay, so how far a course gets is a matter of
  counting: `Polls` says so of the attempts from a moment on, and goes on over one more attempt
  before them.

  Main results:
    * `polls_course` — the attempts of a course, their moments, and why there is no further one.
    * `Run.attempt_eq` — a run that waits for its lock makes its attempts as an acquisition does.
    * `answers_acquireLock` — the turns of the task that a call starts are the attempts of a course.
    * `polls_until_deadline` — from the call to the answer, for every store, and what is in a store
      in memory then.
-/
import JobFleet.Fleet.Manager
import JobFleet.Proofs.Fleet.Turns

namespace JobFleet

/-! ## Courses -/

/-- An attempt to take a lock: the world that it finds, the answer of the store, what this comes to,
    and the world that it leaves. -/
structure Attempt (σ : Type) where
  found : World σ
  answer : Except LockStoreError Bool
  verdict : Lock.Verdict
  left : World σ

/-- The acquisition that a call begins. -/
def Lock.acquisition {σ : Type} (l : Lock) (id : String) (ttlMillis : Nat)
    (timeout : Option Nat) (w : World σ) :
    Acquisition where
  lock := l
  lockId := id
  ttlMillis := ttlMillis
  deadline := Lock.deadline? timeout w.elapsed
  attempts := 0

/-- The world at a later moment, after whatever others have made of it. -/
def World.wakeAt {σ : Type} (others : Nat → World σ → World σ) (moment : Nat)
    (w : World σ) : World σ :=
  { others moment w with elapsed := moment }

namespace Acquisition

variable {σ : Type} [LockStore σ] {a : Acquisition} {w : World σ}

/-- The answer of the store when the lock is asked for, and the locks after it. -/
def ask (a : Acquisition) (w : World σ) : Except LockStoreError Bool × σ :=
  LockStore.setIfAbsent w.elapsed (a.lock.key a.lockId) a.lock.holder
    (Lock.wholeSeconds a.ttlMillis) w.locks

/-- The next attempt. -/
def attempt (a : Acquisition) (w : World σ) : Attempt σ :=
  ⟨w, (a.ask w).1, (a.step w).1, (a.step w).2.2⟩

/-! ## One attempt -/

/-- The ways in which an attempt can come out. -/
inductive ComesTo (a : Acquisition) (w : World σ) : Lock.Verdict → Prop
  /-- The store says yes. -/
  | took (hyes : (a.ask w).1 = .ok true) : ComesTo a w .acquired
  /-- It says no, and there is time for another attempt. -/
  | waits {moment : Nat} (hno : (a.ask w).1 = .ok false)
    (hretry : a.lock.retryAt? a.deadline w.elapsed = some moment) :
      ComesTo a w (.retryAt moment)
  /-- It says no, and there is not. -/
  | late (hno : (a.ask w).1 = .ok false) (hretry : a.lock.retryAt? a.deadline w.elapsed = none) :
    ComesTo a w .refused
  /-- It fails. -/
  | failed {e : LockStoreError} (herror : (a.ask w).1 = .error e) : ComesTo a w .refused

/-- An attempt is the judgement of the answer of the store. -/
theorem step_eq (a : Acquisition) (w : World σ) : a.step w =
    ((a.lock.judge a.deadline (a.attempts + 1) (a.ask w).1
        (w.setIfAbsent (a.lock.key a.lockId) a.lock.holder (Lock.wholeSeconds a.ttlMillis)).2).1,
      { a with attempts := a.attempts + 1 },
      (a.lock.judge a.deadline (a.attempts + 1) (a.ask w).1
        (w.setIfAbsent (a.lock.key a.lockId) a.lock.holder (Lock.wholeSeconds a.ttlMillis)).2).2) :=
  rfl

theorem comesTo_step (a : Acquisition) (w : World σ) : ComesTo a w (a.step w).1 := by
  rw [step_eq]
  cases hanswer : (a.ask w).1 with
  | error e => exact .failed hanswer
  | ok yes =>
    cases yes with
    | true => exact .took hanswer
    | false =>
      have helapsed : (w.setIfAbsent (a.lock.key a.lockId) a.lock.holder
          (Lock.wholeSeconds a.ttlMillis)).2.elapsed = w.elapsed := rfl
      rw [Lock.judge_no, helapsed]
      cases hretry : a.lock.retryAt? a.deadline w.elapsed with
      | some moment => exact .waits hanswer hretry
      | none => exact .late hanswer hretry

/-- An attempt is one call on the store. -/
theorem still_step (a : Acquisition) (w : World σ) :
    World.Still { w with locks := (a.ask w).2 } (a.step w).2.2 := by
  rw [step_eq]
  cases (a.ask w).1 with
  | error e => exact ⟨rfl, rfl, rfl⟩
  | ok yes =>
    cases yes with
    | true => exact ⟨rfl, rfl, rfl⟩
    | false =>
      rw [Lock.judge_no]
      exact ⟨rfl, rfl, rfl⟩

/-- It is counted as an error just when the store fails it. -/
theorem errors_step (a : Acquisition) (w : World σ) :
    (a.step w).2.2.metrics.count (.lockErrors .acquire) =
    w.metrics.count (.lockErrors .acquire) + if (a.ask w).1.isOk then 0 else 1 := by
  rw [step_eq]
  cases (a.ask w).1 with
  | error e =>
    show (Metrics.raise _ w.metrics).count _ = _
    rw [Metrics.count_raise]
    rfl
  | ok yes =>
    cases yes with
    | true => rfl
    | false =>
      rw [Lock.judge_no]
      rfl

theorem retryAt?_eq_some_of_step {moment : Nat} (h : (a.step w).1 = .retryAt moment) :
    (a.ask w).1 = .ok false ∧ a.lock.retryAt? a.deadline w.elapsed = some moment := by
  have hcomes := comesTo_step a w
  rw [h] at hcomes
  cases hcomes with
  | waits hno hretry => exact ⟨hno, hretry⟩

/-! ## All attempts -/

/-- The attempts of an acquisition with a positive delay until it has an answer, each at the moment
    that the one before asked for. -/
def course (others : Nat → World σ → World σ) (a : Acquisition)
    (hdelay : 0 < a.lock.retryDelay) (w : World σ) :
    List (Attempt σ) :=
  match _h : (a.step w).1 with
  | .retryAt moment =>
    a.attempt w :: course others { a with attempts := a.attempts + 1 } hdelay
      ((a.step w).2.2.wakeAt others moment)
  | _ => [a.attempt w]
termination_by a.deadline.getD 0 - w.elapsed
decreasing_by
  -- the deadline stays, and the next attempt is later but no later than it
  obtain ⟨last, hlast, rfl, hle⟩ := Lock.retryAt?_eq_some (retryAt?_eq_some_of_step _h).2
  show a.deadline.getD 0 - (w.elapsed + a.lock.retryDelay) < a.deadline.getD 0 - w.elapsed
  rw [hlast, Option.getD_some]
  omega

theorem course_of_retryAt {moment : Nat} (h : (a.step w).1 = .retryAt moment)
    (others : Nat → World σ → World σ) (hdelay : 0 < a.lock.retryDelay) : a.course others hdelay w =
      a.attempt w ::
        { a with attempts := a.attempts + 1 }.course others hdelay
          ((a.step w).2.2.wakeAt others moment) := by
  rw [course]
  split
  · rename_i hmoment
    rw [h] at hmoment
    cases hmoment
    rfl
  · rename_i hnot
    exact absurd h (hnot moment)

theorem course_of_answer (h : ∀ moment, (a.step w).1 ≠ .retryAt moment)
    (others : Nat → World σ → World σ) (hdelay : 0 < a.lock.retryDelay) :
    a.course others hdelay w = [a.attempt w] := by
  rw [course]
  split
  · rename_i hmoment
    exact absurd hmoment (h _)
  · rfl

/-- The first attempt is the next one. -/
theorem course_eq_cons (others : Nat → World σ → World σ) (a : Acquisition)
    (hdelay : 0 < a.lock.retryDelay) (w : World σ) :
    a.course others hdelay w = a.attempt w :: (a.course others hdelay w).tail := by
  rw [course]
  split <;> rfl

/-- How the attempts of an acquisition follow each other from a moment on: all but the last are
    answered with no, each comes a delay after the one before and by the deadline, and after the
    last there is no further one. -/
structure Polls (a : Acquisition) (start : Nat) (before : List (Attempt σ))
    (last : Attempt σ) : Prop where
  moments : (before ++ [last]).map (·.found.elapsed) =
    (List.range (before.length + 1)).map (start + · * a.lock.retryDelay)
  refused : ∀ t ∈ before, t.answer = .ok false
  allowed : before ≠ [] → ∃ final, a.deadline = some final ∧
    start + before.length * a.lock.retryDelay ≤ final
  ends : (last.answer = .ok true ∧ last.verdict = .acquired) ∨
    (∃ e, last.answer = .error e ∧ last.verdict = .refused) ∨
    (last.answer = .ok false ∧ last.verdict = .refused ∧
      ∀ final, a.deadline = some final → final < start + (before.length + 1) * a.lock.retryDelay)

/-- An attempt that is not followed by another. -/
theorem polls_single (h : ∀ moment, (a.step w).1 ≠ .retryAt moment) :
    a.Polls w.elapsed [] (a.attempt w) := by
  refine ⟨?_, nofun, fun hne => absurd rfl hne, ?_⟩
  · show [w.elapsed] = [w.elapsed + 0 * a.lock.retryDelay]
    rw [Nat.zero_mul, Nat.add_zero]
  · show ((a.ask w).1 = .ok true ∧ (a.step w).1 = .acquired) ∨
      (∃ e, (a.ask w).1 = .error e ∧ (a.step w).1 = .refused) ∨
      ((a.ask w).1 = .ok false ∧ (a.step w).1 = .refused ∧ _)
    have hcomes := comesTo_step a w
    cases hverdict : (a.step w).1 with
    | retryAt moment => exact absurd hverdict (h moment)
    | acquired =>
      rw [hverdict] at hcomes
      cases hcomes with
      | took hyes => exact .inl ⟨hyes, rfl⟩
    | refused =>
      rw [hverdict] at hcomes
      cases hcomes with
      | failed herror => exact .inr (.inl ⟨_, herror, rfl⟩)
      | late hno hretry =>
        refine .inr (.inr ⟨hno, rfl, ?_⟩)
        intro final hfinal
        -- with the deadline not passed there would be a time to try again
        have hpassed : ¬ w.elapsed + a.lock.retryDelay ≤ final := by
          intro hin
          simp [Lock.retryAt?, hfinal, hin] at hretry
        simp only [List.length_nil]
        omega

/-- One more attempt before the others, a delay earlier. -/
theorem Polls.cons {before : List (Attempt σ)} {last : Attempt σ} {moment : Nat}
    (h : (a.step w).1 = .retryAt moment) (hpolls : (a.step w).2.1.Polls moment before last) :
    a.Polls w.elapsed (a.attempt w :: before) last := by
  obtain ⟨hno, hretry⟩ := retryAt?_eq_some_of_step h
  obtain ⟨final, hfinal, rfl, hle⟩ := Lock.retryAt?_eq_some hretry
  -- the later attempts are counted from one delay after the first
  have hshift (i : Nat) :
      w.elapsed + a.lock.retryDelay + i * a.lock.retryDelay =
      w.elapsed + (i + 1) * a.lock.retryDelay := by
    rw [Nat.succ_mul]
    omega
  refine ⟨?_, ?_, ?_, ?_⟩
  · -- the moments: the first one, then those of the rest, each one step on
    have hmoments : (before ++ [last]).map (·.found.elapsed) =
        (List.range (before.length + 1)).map
          (w.elapsed + a.lock.retryDelay + · * a.lock.retryDelay) := hpolls.moments
    have hlater :
        (List.range (before.length + 1)).map
          (w.elapsed + a.lock.retryDelay + · * a.lock.retryDelay) =
        (List.range (before.length + 1)).map (fun i => w.elapsed + (i + 1) * a.lock.retryDelay) :=
      List.map_congr_left fun i _ => hshift i
    have hfirst : w.elapsed + 0 * a.lock.retryDelay = w.elapsed := by
      rw [Nat.zero_mul, Nat.add_zero]
    rw [List.cons_append, List.map_cons, hmoments, hlater, List.length_cons,
      List.range_succ_eq_map (n := before.length + 1),
      List.map_cons, List.map_map, hfirst]
    rfl
  · exact List.forall_mem_cons.2 ⟨hno, hpolls.refused⟩
  · intro _
    refine ⟨final, hfinal, ?_⟩
    rw [List.length_cons, ← hshift]
    -- the attempt after this one was allowed now, those after it before
    cases before with
    | nil => simpa using hle
    | cons t rest =>
      obtain ⟨final', hfinal', hle'⟩ := hpolls.allowed (List.cons_ne_nil t rest)
      cases hfinal.symm.trans hfinal'
      exact hle'
  · refine hpolls.ends.imp_right (Or.imp_right ?_)
    rintro ⟨hlast, hverdict, hpassed⟩
    refine ⟨hlast, hverdict, ?_⟩
    intro final' hfinal'
    rw [List.length_cons, ← hshift]
    exact hpassed final' hfinal'

/-- The attempts of an acquisition poll from the first one on. -/
theorem polls_course (hdelay : 0 < a.lock.retryDelay)
    (others : Nat → World σ → World σ) (w : World σ) :
    ∃ before last, a.course others hdelay w = before ++ [last] ∧ a.Polls w.elapsed before last := by
  induction a, hdelay, w using course.induct others with
  | case1 a hdelay w moment h ih =>
    obtain ⟨before, last, hcourse, hpolls⟩ := ih
    refine ⟨a.attempt w :: before, last, ?_, hpolls.cons h⟩
    rw [course_of_retryAt h, hcourse, List.cons_append]
  | case2 a hdelay w h =>
    exact ⟨[], a.attempt w, course_of_answer h others hdelay, polls_single h⟩

/-! ## What each attempt does -/

/-- Every attempt of a course is one of the acquisition, whatever its number. -/
theorem mem_course {others : Nat → World σ → World σ}
    {hdelay : 0 < a.lock.retryDelay} {t : Attempt σ} (ht : t ∈ a.course others hdelay w) :
    ∃ number, t = Acquisition.attempt { a with attempts := number } t.found := by
  induction a, hdelay, w using course.induct others with
  | case1 a hdelay w moment h ih =>
    rw [course_of_retryAt h] at ht
    rcases List.mem_cons.1 ht with rfl | ht
    · exact ⟨a.attempts, rfl⟩
    · exact ih ht
  | case2 a hdelay w h =>
    rw [course_of_answer h, List.mem_singleton] at ht
    rw [ht]
    exact ⟨a.attempts, rfl⟩

end Acquisition

/-- The store is asked once for a lock of a holder, at the moment of the attempt, and it is counted
    if it fails. -/
structure Attempt.Asks {σ : Type} [LockStore σ] (l : Lock) (id : String) (ttlMillis : Nat)
    (t : Attempt σ) : Prop where
  answer : t.answer =
    (LockStore.setIfAbsent t.found.elapsed (l.key id) l.holder
      (max (ttlMillis / 1000) 1) t.found.locks).1
  locks : t.left.locks =
    (LockStore.setIfAbsent t.found.elapsed (l.key id) l.holder
      (max (ttlMillis / 1000) 1) t.found.locks).2
  elapsed : t.left.elapsed = t.found.elapsed
  errors : t.left.metrics.count (.lockErrors .acquire) =
    t.found.metrics.count (.lockErrors .acquire) + if t.answer.isOk then 0 else 1

theorem Acquisition.asks_of_mem_course {σ : Type} [LockStore σ] {a : Acquisition}
    {others : Nat → World σ → World σ} {hdelay : 0 < a.lock.retryDelay} {w : World σ}
    {t : Attempt σ} (ht : t ∈ a.course others hdelay w) :
    t.Asks a.lock a.lockId a.ttlMillis := by
  obtain ⟨number, ht⟩ := mem_course ht
  have hstill := still_step { a with attempts := number } t.found
  rw [ht]
  exact ⟨rfl, hstill.locks, hstill.elapsed, errors_step { a with attempts := number } t.found⟩

/-! ## In a store in memory -/

namespace FaultyStore

variable {now seconds : Nat} {key other : String} {holder : Holder} {s : FaultyStore}

/-- Unless it is given to the holder, a key has the same live lease after it was asked for. -/
theorem live?_setIfAbsent_of_ne
    (h : (LockStore.setIfAbsent now key holder seconds s).1 ≠ .ok true ∨ other ≠ key) :
    (LockStore.setIfAbsent now key holder seconds s).2.memory.live? now other =
      s.memory.live? now other := by
  refine Option.ext fun lease => ⟨?_, ?_⟩
  · intro hlive
    rcases live?_of_setIfAbsent hlive with hbefore | ⟨hyes, hkey, -⟩
    · exact hbefore
    · rcases h with hno | hother
      · exact absurd hyes hno
      · exact absurd hkey hother
  · intro hlive
    exact MemoryStore.live?_eq_some.2 ⟨lookup_setIfAbsent holder seconds hlive,
      (MemoryStore.live?_eq_some.1 hlive).2⟩

end FaultyStore

/-- What an attempt leaves in a store in memory: with an answer of yes the lease of the holder, and
    otherwise what was there. -/
structure Attempt.Leases (l : Lock) (id : String) (ttlMillis : Nat)
    (t : Attempt FaultyStore) : Prop where
  taken : t.answer = .ok true → t.found.locks.memory.live? t.found.elapsed (l.key id) = none ∧
    t.left.locks.memory.live? t.found.elapsed (l.key id) =
      some ⟨l.holder, t.found.elapsed + 1000 * max (ttlMillis / 1000) 1⟩
  kept : ∀ key, t.answer ≠ .ok true ∨ key ≠ l.key id →
    t.left.locks.memory.live? t.found.elapsed key = t.found.locks.memory.live? t.found.elapsed key

theorem Attempt.Asks.leases {l : Lock} {id : String} {ttlMillis : Nat} {t : Attempt FaultyStore}
    (h : t.Asks l id ttlMillis) :
    t.Leases l id ttlMillis := by
  constructor
  case taken =>
    intro hyes
    rw [h.answer] at hyes
    obtain ⟨hfree, hlease⟩ := FaultyStore.live?_setIfAbsent hyes
    refine ⟨hfree, MemoryStore.live?_eq_some.2 ⟨?_, ?_⟩⟩
    · rw [h.locks]
      exact hlease
    · show t.found.elapsed < t.found.elapsed + 1000 * max (ttlMillis / 1000) 1
      omega
  case kept =>
    intro key hkey
    rw [h.answer] at hkey
    rw [h.locks]
    exact FaultyStore.live?_setIfAbsent_of_ne hkey

/-! ## Who polls -/

/-- A run that has to wait for its lock makes its attempts as an acquisition does. -/
theorem Run.attempt_eq {σ : Type} [LockStore σ] (r : Run) (deadline : Option Nat)
    (attempts : Nat) (w : World σ) :
    r.attempt deadline (attempts + 1) w =
      match (⟨r.guard.lock, r.lockId, r.guard.ttlOf r.job, deadline, attempts⟩ :
        Acquisition).step w with
      | (.acquired, _, w') => (.going { r with phase := .holding w'.elapsed }, w')
      | (.refused, _, w') => r.skip w'
      | (.retryAt moment, a, w') =>
        (.waiting moment { r with phase := .polling a.deadline a.attempts }, w') := by
  have hstep : (⟨r.guard.lock, r.lockId, r.guard.ttlOf r.job, deadline, attempts⟩ :
    Acquisition).step w =
      ((r.guard.lock.attempt r.lockId (r.guard.ttlOf r.job) deadline (attempts + 1) w).1,
        ⟨r.guard.lock, r.lockId, r.guard.ttlOf r.job, deadline, attempts + 1⟩,
        (r.guard.lock.attempt r.lockId (r.guard.ttlOf r.job) deadline (attempts + 1) w).2) := rfl
  rw [hstep]
  unfold Run.attempt
  rcases r.guard.lock.attempt r.lockId (r.guard.ttlOf r.job) deadline (attempts +
    1) w with ⟨verdict, w'⟩
  cases verdict <;> rfl

namespace Fleet

variable {σ : Type}

/-- The number of a task that is added is that of no other. -/
theorem task?_addTask {f : Fleet σ} (hbelow : ∀ t ∈ f.tasks, t.number < f.nextNumber)
    (activity : Activity) (foreground : Bool) :
    (f.addTask activity foreground).task? f.nextNumber =
      some ⟨f.nextNumber, activity, .ready, foreground⟩ := by
  have hnone : f.tasks.find? (fun t => t.number = f.nextNumber) = none := by
    rw [List.find?_eq_none]
    intro t ht
    simpa using Nat.ne_of_lt (hbelow t ht)
  unfold task? addTask
  rw [List.find?_append, hnone]
  simp

/-- A task that keeps its number is found under it. -/
theorem task?_map {f g : Fleet σ} {change : Task → Task} (htasks : g.tasks = f.tasks.map change)
    (hsame : ∀ t, (change t).number = t.number ∧ (change t).activity = t.activity)
    {number : Nat} {t : Task} (h : f.task? number = some t) :
    ∃ t', g.task? number = some t' ∧ t'.number = t.number ∧ t'.activity = t.activity := by
  have hfind : (fun t : Task => decide (t.number = number)) ∘ change = fun t =>
      decide (t.number = number) := by
    funext t
    simp [(hsame t).1]
  refine ⟨change t, ?_, hsame t⟩
  unfold task?
  rw [htasks, List.find?_map, hfind]
  exact congrArg (Option.map change) h

theorem task?_passTo {f : Fleet σ} {number : Nat} {t : Task}
    (h : f.task? number = some t) (moment : Nat) :
    ∃ t', (f.passTo moment).task? number = some t' ∧ t'.number = t.number ∧
    t'.activity = t.activity := by
  refine task?_map rfl (fun t => ?_) h
  cases hstate : t.state with
  | sleeping m => by_cases hm : m ≤ moment <;> simp [hm]
  | _ => exact ⟨rfl, rfl⟩

variable [LockStore σ]

/-- A task that takes a lock makes the next attempt, and then sleeps until the one after it or ends
    with its answer. -/
theorem stepTask_acquire {task : Task} {a : Acquisition}
    (h : task.activity = .acquire a) (f : Fleet σ) :
    f.stepTask task =
      match (a.attempt f.world).verdict with
      | .retryAt moment => { f with world := (a.attempt f.world).left }.park task
          (.acquire { a with attempts := a.attempts + 1 }) (.sleeping moment)
      | .acquired =>
        { f with world := (a.attempt f.world).left }.finish task.number (.acquired true)
      | .refused =>
        { f with world := (a.attempt f.world).left }.finish task.number (.acquired false) := by
  have hnumber : (a.step f.world).2.1 = { a with attempts := a.attempts + 1 } := rfl
  unfold stepTask Acquisition.attempt
  rw [h]
  dsimp only
  rcases hstep : a.step f.world with ⟨verdict, a', w⟩
  rw [hstep] at hnumber
  cases hnumber
  cases verdict <;> rfl

/-! ## Turns of the task -/

/-- The turns that a task has left until it ends with an answer: at each moment that it sleeps to it
    wakes in the next of these worlds, after whatever others have made of the one before. -/
inductive Answers (others : Nat → World σ → World σ) (number : Nat) :
    Fleet σ → List (World σ) → Bool → Prop
  | ended {f : Fleet σ} {answer : Bool} (hgone : ∀ a, ¬ f.Does number a)
      (hend : ∀ taskEnd, (number, taskEnd) ∈ f.ends ↔ taskEnd = .acquired answer) :
      Answers others number f [] answer
  | wakes {f : Fleet σ} {t : Task} {moment : Nat} {worlds : List (World σ)} {answer : Bool}
    (hfound : f.task? number = some t)
      (hsleeps : t.state = .sleeping moment)
      (hturn : Answers others number
        (({ f with world := f.world.wakeAt others moment }.passTo moment).step number) worlds
        answer) : Answers others number f (f.world.wakeAt others moment :: worlds) answer

theorem answers_finish {f : Fleet σ} {number : Nat} (hfresh : ∀ e ∈ f.ends, e.1 ≠ number)
    (others : Nat → World σ → World σ) (answer : Bool) :
    Answers others number (f.finish number (.acquired answer)) [] answer := by
  refine .ended (by simp) ?_
  intro taskEnd
  show (number, taskEnd) ∈ f.ends ++ [(number, TaskEnd.acquired answer)] ↔ _
  rw [List.mem_append, or_iff_right (fun hold => hfresh _ hold rfl)]
  simp

/-- A task that sleeps has its next turn in the world in which it wakes. -/
theorem answers_park {others : Nat → World σ → World σ} {f : Fleet σ} {t : Task}
    {a : Acquisition} {moment : Nat} {worlds : List (World σ)} {answer : Bool}
    (h : ∀ (g : Fleet σ) (t' : Task), g.world = f.world.wakeAt others moment → g.ends = f.ends →
      t'.number = t.number →
      t'.activity = .acquire a → Answers others t.number (g.stepTask t') worlds answer) :
    Answers others t.number (f.park t (.acquire a) (.sleeping moment))
    (f.world.wakeAt others moment :: worlds) answer := by
  refine .wakes (task?_park ..) rfl ?_
  have hparked := task?_park { f with world := f.world.wakeAt others moment } t (.acquire a)
    (.sleeping moment)
  obtain ⟨t', hfound, hnumber, hactivity⟩ := task?_passTo hparked moment
  show Answers others t.number ((Fleet.passTo moment (Fleet.park t (.acquire a) (.sleeping moment)
    { f with world := f.world.wakeAt others moment })).step t.number) worlds answer
  unfold step
  rw [hfound]
  refine h _ t' ?_ rfl hnumber hactivity
  -- the task wakes at the moment that it slept to
  show { f.world.wakeAt others moment with elapsed := max moment moment } = _
  rw [Nat.max_self]
  rfl

/-- The turns of a task that takes a lock are the attempts of its acquisition, and it ends with the
    verdict of the last. -/
theorem answers_stepTask (others : Nat → World σ → World σ) {a : Acquisition}
    {hdelay : 0 < a.lock.retryDelay} {w : World σ} {before : List (Attempt σ)} {last : Attempt σ}
    (hcourse : a.course others hdelay w = before ++ [last]) {f : Fleet σ} {t : Task}
    (hworld : f.world = w) (hactivity : t.activity = .acquire a)
    (hfresh : ∀ e ∈ f.ends, e.1 ≠ t.number) :
    Answers others t.number (f.stepTask t) ((before ++ [last]).tail.map (·.found))
      (last.verdict = .acquired) := by
  induction a, hdelay, w using Acquisition.course.induct others generalizing before f t with
  | case1 a hdelay w moment h ih =>
    subst hworld
    have hverdict : (a.attempt f.world).verdict = .retryAt moment := h
    rw [Acquisition.course_of_retryAt h, Acquisition.course_eq_cons] at hcourse
    cases before with
    -- there is a second attempt
    | nil => exact absurd (List.cons.inj hcourse).2 (List.cons_ne_nil _ _)
    | cons first before =>
      have hlater : _ = before ++ [last] := (List.cons.inj hcourse).2
      have hworlds : (before ++ [last]).map (·.found) =
          (a.step f.world).2.2.wakeAt others moment :: (before ++ [last]).tail.map (·.found) := by
        rw [← hlater]
        rfl
      rw [stepTask_acquire hactivity, hverdict, List.cons_append, List.tail_cons, hworlds]
      refine answers_park fun g t' hworld hends hnumber hactivity' => ?_
      have hfresh' : ∀ e ∈ g.ends, e.1 ≠ t'.number := by
        rw [hends, hnumber]
        exact hfresh
      rw [← hnumber]
      exact ih ((Acquisition.course_eq_cons _ _ _ _).trans hlater) hworld hactivity' hfresh'
  | case2 a hdelay w h =>
    subst hworld
    rw [Acquisition.course_of_answer h] at hcourse
    obtain ⟨rfl, rfl⟩ : before = [] ∧ last = a.attempt f.world := by
      cases before with
      | nil => exact ⟨rfl, (List.cons.inj hcourse).1.symm⟩
      | cons first before => simp at hcourse
    have hverdict : (a.attempt f.world).verdict = (a.step f.world).1 := rfl
    rw [stepTask_acquire hactivity, hverdict]
    cases hstep : (a.step f.world).1 with
    | retryAt moment => exact absurd hstep (h moment)
    | acquired => exact answers_finish (by exact hfresh) others true
    | refused => exact answers_finish (by exact hfresh) others false

/-- A call for a lock is the first attempt of its acquisition, and the task that it leaves makes the
    others. -/
theorem answers_acquireLock (others : Nat → World σ → World σ) {f : Fleet σ} {i : Nat} {l : Lock}
    (hlock : (f.schedulers[i]?).map (·.lock) = some l)
    (hbelow : ∀ t ∈ f.tasks, t.number < f.nextNumber) (hends : ∀ e ∈ f.ends, e.1 < f.nextNumber)
    {id : String} {ttlMillis : Nat} {timeout : Option Nat} {before : List (Attempt σ)}
    {last : Attempt σ} {hdelay : 0 < l.retryDelay}
    (hcourse : (l.acquisition id ttlMillis timeout f.world).course others hdelay f.world =
      before ++ [last])
    (foreground : Bool) :
    (f.acquireLock i id ttlMillis timeout foreground).2.Answers others f.nextNumber
      ((before ++ [last]).tail.map (·.found)) (last.verdict = .acquired) := by
  have hcall : f.acquireLock i id ttlMillis timeout foreground =
      f.launch (.acquire (l.acquisition id ttlMillis timeout f.world)) foreground := by
    unfold acquireLock
    rw [hlock]
    rfl
  rw [hcall]
  unfold launch step
  rw [task?_addTask hbelow]
  have hfresh : ∀ e ∈ f.ends, e.1 ≠ f.nextNumber := fun e he => Nat.ne_of_lt (hends e he)
  exact answers_stepTask (f := f.addTask _ foreground)
    (t := ⟨f.nextNumber, _, .ready, foreground⟩) others hcourse rfl rfl hfresh

end Fleet

/-! ## From the call to the answer -/

/-- A deadline is the timeout after the call. -/
theorem Lock.eq_of_deadline? {timeout : Option Nat} {now last : Nat}
    (h : Lock.deadline? timeout now = some last) :
    last = now + timeout.getD 0 := by
  obtain ⟨length, rfl, rfl⟩ := Lock.deadline?_eq_some h
  rfl

/-- Without a deadline there is no time to wait. -/
theorem Lock.deadline?_eq_none {timeout : Option Nat} {now : Nat}
    (h : Lock.deadline? timeout now = none) :
    timeout.getD 0 = 0 := by
  cases timeout with
  | none => rfl
  | some length =>
    unfold Lock.deadline? at h
    by_cases hpositive : 0 < length
    · simp [Option.filter, hpositive] at h
    · simpa using hpositive

section

variable {σ : Type} {l : Lock} {id : String} {ttlMillis : Nat} {timeout : Option Nat} {w : World σ}
  {before : List (Attempt σ)} {last : Attempt σ}

/-- The last attempt comes after as many delays as there are attempts before it. -/
theorem Acquisition.Polls.elapsed_last {a : Acquisition} {start : Nat}
    (h : a.Polls start before last) :
    last.found.elapsed = start + before.length * a.lock.retryDelay := by
  have hmoment := congrArg List.getLast? h.moments
  rw [List.map_append, List.range_succ, List.map_append] at hmoment
  simpa using hmoment

/-- The delays that pass between the attempts of a call add up to no more than its timeout. -/
theorem Acquisition.Polls.length_le
    (h : (l.acquisition id ttlMillis timeout w).Polls w.elapsed before last) :
    before.length * l.retryDelay ≤ timeout.getD 0 := by
  by_cases hempty : before = []
  · rw [hempty]
    simp
  · obtain ⟨final, hfinal, hle⟩ := h.allowed hempty
    rw [Lock.eq_of_deadline? hfinal] at hle
    exact Nat.le_of_add_le_add_left hle

/-- With one more delay they would add up to more, if there was no other reason to give up. -/
theorem Lock.lt_of_passed (hdelay : 0 < l.retryDelay) {now count : Nat}
    (h : ∀ final, Lock.deadline? timeout now = some final →
    final < now + (count + 1) * l.retryDelay) : timeout.getD 0 < (count + 1) * l.retryDelay := by
  cases hdeadline : Lock.deadline? timeout now with
  | some final =>
    have hlt := h final hdeadline
    rw [Lock.eq_of_deadline? hdeadline] at hlt
    omega
  | none =>
    -- without a deadline the timeout is no time at all
    rw [Lock.deadline?_eq_none hdeadline]
    exact Nat.mul_pos (Nat.succ_pos _) hdelay

end

/-- **Polling goes by the deadline.**  A scheduler with a positive delay that is asked for a lock
    makes an attempt then and after every delay that the timeout still allows, up to the first
    answer of yes or the first error; each is one call on the store, whatever it answers and
    whatever others do meanwhile.  The call is answered with true if the last attempt was answered
    with yes, and otherwise with false, which without an error means that another attempt would have
    come after the deadline.  In a store in memory the holder then has its lease, or no attempt has
    changed a live one. -/
theorem polls_until_deadline (l : Lock) (hdelay : 0 < l.retryDelay) (i : Nat) (id : String)
    (ttlMillis : Nat) (timeout : Option Nat) (foreground : Bool) :
    (∀ (σ : Type) [LockStore σ] (others : Nat → World σ → World σ) (f : Fleet σ),
      (f.schedulers[i]?).map (·.lock) = some l → (∀ t ∈ f.tasks, t.number < f.nextNumber) →
      (∀ e ∈ f.ends, e.1 < f.nextNumber) →
      ∃ before last answer, (l.acquisition id ttlMillis timeout f.world).course others hdelay
        f.world = before ++ [last] ∧
        (f.acquireLock i id ttlMillis timeout foreground).2.Answers others f.nextNumber
          ((before ++ [last]).tail.map (·.found)) answer ∧
        (before ++ [last]).map (·.found.elapsed) =
          (List.range (before.length + 1)).map (f.world.elapsed + · * l.retryDelay) ∧
        before.length * l.retryDelay ≤ timeout.getD 0 ∧
        (∀ t ∈ before, t.answer = .ok false) ∧
        ((last.answer = .ok true ∧ answer = true) ∨
          (∃ e, last.answer = .error e ∧ answer = false) ∨
          (last.answer = .ok false ∧ answer = false ∧
            timeout.getD 0 < (before.length + 1) * l.retryDelay)) ∧
        (∀ t ∈ before ++ [last], t.Asks l id ttlMillis) ∧
        (timeout.getD 0 = 0 → before = []) ∧ last.left.elapsed ≤ f.world.elapsed + timeout.getD 0) ∧
    ∀ (others : Nat → World FaultyStore → World FaultyStore) (w : World FaultyStore),
      ∀ t ∈ (l.acquisition id ttlMillis timeout w).course others hdelay w,
      t.Leases l id ttlMillis := by
  refine ⟨?_, fun others w t ht => (Acquisition.asks_of_mem_course ht).leases⟩
  intro σ _ others f hlock hbelow hends
  obtain ⟨before, last, hcourse, hpolls⟩ :=
    (l.acquisition id ttlMillis timeout f.world).polls_course hdelay others f.world
  have hasks : ∀ t ∈ before ++ [last], t.Asks l id ttlMillis := by
    intro t ht
    rw [← hcourse] at ht
    exact Acquisition.asks_of_mem_course ht
  have hallowed : before.length * l.retryDelay ≤ timeout.getD 0 := hpolls.length_le
  refine ⟨before, last, last.verdict = .acquired, hcourse,
    Fleet.answers_acquireLock others hlock hbelow hends hcourse foreground, hpolls.moments,
    hallowed, hpolls.refused, ?_, hasks, ?_, ?_⟩
  · rcases hpolls.ends with ⟨hyes, hverdict⟩ | ⟨e, herror, hverdict⟩ | ⟨hno, hverdict, hpassed⟩
    · exact .inl ⟨hyes, by rw [hverdict]; rfl⟩
    · exact .inr (.inl ⟨e, herror, by rw [hverdict]; rfl⟩)
    · exact .inr (.inr ⟨hno, by rw [hverdict]; rfl, Lock.lt_of_passed hdelay hpassed⟩)
  · intro hnone
    -- a positive delay fits into no time at all not even once
    rw [hnone] at hallowed
    exact List.length_eq_zero_iff.1
      ((Nat.mul_eq_zero.1 (Nat.le_zero.1 hallowed)).resolve_right (Nat.ne_of_gt hdelay))
  · rw [(hasks last (by simp)).elapsed, hpolls.elapsed_last]
    exact Nat.add_le_add_left hallowed _

/-- Another scheduler has the lock until 300 milliseconds from the beginning. -/
def Fleet.crowded : Fleet FaultyStore where
  world := { start := ⟨0⟩, locks := { memory := ⟨[("job_lock:report", ⟨.scheduler 1, 300⟩)]⟩ } }
  schedulers := [{ config := {}, lock := ⟨"job_lock", .scheduler 0, 100⟩ }]

/-- The attempts of the first scheduler every 100 milliseconds: the fourth one is answered with
    yes. -/
theorem Fleet.answers_crowded
    (hdelay : 0 < ((⟨"job_lock", .scheduler 0, 100⟩ : Lock).acquisition "report" 2500 (some 300)
      Fleet.crowded.world).lock.retryDelay) :
    (((⟨"job_lock", .scheduler 0, 100⟩ :
      Lock).acquisition "report" 2500 (some 300) Fleet.crowded.world).course
        (fun _ w => w) hdelay Fleet.crowded.world).map (·.answer) = [.ok false, .ok false,
        .ok false, .ok true] := by
  rw [@Acquisition.course_of_retryAt _ _ _ _ 100, @Acquisition.course_of_retryAt _ _ _ _ 200,
    @Acquisition.course_of_retryAt _ _ _ _ 300, Acquisition.course_of_answer]
  · decide +kernel
  · exact fun moment => ne_of_eq_of_ne (b := .acquired) (by decide +kernel) nofun
  · decide +kernel
  · decide +kernel
  · decide +kernel

/-- A lock that becomes free at the last moment is taken by the attempt that is made then. -/
theorem acquired_at_deadline : 0 < (⟨"job_lock", .scheduler 0, 100⟩ : Lock).retryDelay ∧ ∃ worlds,
    (Fleet.crowded.acquireLock 0 "report" 2500 (some 300) true).2.Answers
      (fun _ w => w) 0 worlds true ∧
      worlds.map (·.elapsed) = [100, 200, 300] := by
  obtain ⟨before, last, answer, hcourse, hanswers, hmoments, -, -, hends, -, -, -⟩ :=
    (polls_until_deadline ⟨"job_lock", .scheduler 0,
      100⟩ (by decide) 0 "report" 2500 (some 300) true).1 FaultyStore
      (fun _ w => w) Fleet.crowded rfl (fun _ ht => absurd ht List.not_mem_nil) (fun _ he =>
        absurd he List.not_mem_nil)
  have hanswered : (before ++ [last]).map (·.answer) =
      [.ok false, .ok false, .ok false, .ok true] := by
    rw [← hcourse]
    exact Fleet.answers_crowded _
  have hlength : before.length = 3 := by
    have hlength := congrArg List.length hanswered
    simpa using hlength
  have hyes : last.answer = .ok true := by
    have hlast := congrArg List.getLast? hanswered
    simpa using hlast
  refine ⟨by decide, (before ++ [last]).tail.map (·.found), ?_, ?_⟩
  · rcases hends with ⟨-, rfl⟩ | ⟨e, herror, -⟩ | ⟨hno, -, -⟩
    · exact hanswers
    · exact nomatch hyes.symm.trans herror
    · exact nomatch hyes.symm.trans hno
  · rw [hlength] at hmoments
    rw [List.map_map, List.map_tail]
    exact congrArg List.tail hmoments

end JobFleet
