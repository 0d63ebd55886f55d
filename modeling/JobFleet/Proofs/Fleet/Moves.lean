/-
  JobFleet.Proofs.Fleet.Moves: everything that can happen in a fleet, one move at a time.

  A move is one piece of a run, a turn of another task, time that passes, store operations that
  begin or cease to fail, or something that a scheduler is asked to do.  Any list of moves is
  allowed, so what is shown for `Fleet.after` holds for every interleaving.  The moves are those of
  the machine itself: a whole turn of a run, as `Fleet.step` makes it, is a row of pieces.  Bare
  lock calls and writes of others are not moves: a lock is touched through runs only.

  Main results:
    * `make_happens` — a move is calm, lets time pass, changes what fails, or is one piece of one
      run.
    * `sound_after` — every fleet that is reached is sound.
    * `step_eq_after` — a whole turn of a run is a row of moves.
-/
import Mathlib.Data.List.Induction
import JobFleet.Lock.Faulty
import JobFleet.Proofs.Fleet.Frame

namespace JobFleet

/-- What can happen in a fleet. -/
inductive Move
  /-- The next piece of the task with a number. -/
  | turn (number : Nat)
  /-- Time passes to a moment. -/
  | pass (moment : Nat)
  /-- From now on exactly these operations of the lock store fail. -/
  | fail (operations : List StoreOperation)
  | register (scheduler : Nat) (job : Job)
  | registerAll (scheduler : Nat) (jobs : List Job)
  | start (scheduler : Nat)
  | shutdown (scheduler : Nat) (waits foreground : Bool)
  | pause (scheduler : Nat) (id : String)
  | resume (scheduler : Nat) (id : String)
  | remove (scheduler : Nat) (id : String)
  /-- A registered job is to run now. -/
  | request (scheduler : Nat) (id : String) (kind : RunKind) (caller : Caller) (foreground : Bool)

/-- The state of the task of a run that has not ended. -/
def Progress.state? : Progress → Option TaskState
  | .going _ => some .ready
  | .waiting moment _ => some (.sleeping moment)
  | .ended _ => none

/-- A run that has not ended is ready, or sleeps. -/
theorem Progress.state?_of_run? {p : Progress} {r : Run} (h : p.run? = some r) :
    ∃ state, p.state? = some state := by
  cases p with
  | going r => exact ⟨.ready, rfl⟩
  | waiting moment r => exact ⟨.sleeping moment, rfl⟩
  | ended outcome => cases h

namespace Fleet

/-! ## Moves -/

/-- Starts the run that a request makes, if the job is registered. -/
def request {σ : Type} (i : Nat) (id : String) (kind : RunKind) (caller : Caller)
    (foreground : Bool) (f : Fleet σ) : Fleet σ :=
  match f.requested? i id kind caller with
  | some activity => f.addTask activity foreground
  | none => f

/-- Makes a move. -/
def make (f : Fleet FaultyStore) : Move → Fleet FaultyStore
  | .turn number => f.advance number
  | .pass moment => f.passTo moment
  | .fail operations =>
    f.changeWorld (fun w => { w with locks := { w.locks with failing := operations } })
  | .register i job => (f.register i job).2
  | .registerAll i jobs => (f.registerAll i jobs).2
  | .start i => f.start i
  | .shutdown i waits foreground => (f.shutdown i waits foreground).2
  | .pause i id => (f.pause i id).2
  | .resume i id => (f.resume i id).2
  | .remove i id => (f.remove i id).2
  | .request i id kind caller foreground => f.request i id kind caller foreground

/-- The fleet after some moves. -/
def after (f : Fleet FaultyStore) (moves : List Move) : Fleet FaultyStore := moves.foldl make f

theorem after_concat (f : Fleet FaultyStore) (moves : List Move) (m : Move) :
    f.after (moves ++ [m]) = (f.after moves).make m := by
  simp [after]

theorem after_cons (f : Fleet FaultyStore) (m : Move) (moves : List Move) :
    f.after (m :: moves) = (f.make m).after moves := rfl

theorem after_append (f : Fleet FaultyStore) (moves moves' : List Move) :
    f.after (moves ++ moves') = (f.after moves).after moves' := by
  simp [after]

/-! ## A piece of a run in its fleet -/

section

variable {σ : Type}

/-- Telling a caller how its run ended changes neither locks nor clock. -/
theorem still_logReply (caller : Caller) (outcome : RunOutcome) (w : World σ) :
    w.Still (logReply caller outcome w) := by
  unfold logReply
  split
  · exact World.still_emit _ _ _ w
  · exact World.still_emit _ _ _ w
  · exact World.Still.refl w

variable {f : Fleet σ} {t t' : Task} {i : Nat} {r r' : Run} {c : Caller}
    {p : Progress} {w : World σ}

/-- Soundness is about tasks and registries, so the world may be any. -/
theorem sound_withWorld (hs : f.Sound) (w : World σ) : Sound { f with world := w } :=
  ⟨hs.nodup, hs.below, hs.plain, hs.guarded, hs.drivers⟩

/-- After a piece of a run only replies and logging are left to do. -/
theorem still_afterRun (hs : f.Sound) : w.Still (f.afterRun t i c (p, w)).world := by
  cases p with
  | going r => exact World.Still.refl w
  | waiting moment r => exact World.Still.refl w
  | ended outcome =>
    have hend := calm_end (sound_withWorld hs (logReply c outcome w)) t.number (.run outcome)
    exact (still_logReply c outcome w).trans hend.still

/-- A piece of a run leaves the guards of the schedulers alone. -/
theorem guards_afterRun : (f.afterRun t i c (p, w)).guards = f.guards := by
  cases p <;> rfl

/-- A piece of a run gives no number out. -/
theorem nextNumber_afterRun : (f.afterRun t i c (p, w)).nextNumber = f.nextNumber := by
  cases p <;> rfl

/-- The runs after a piece: the others, and the one that made it if it has not ended. -/
theorem mem_afterRun (hs : f.Sound) (ht' : t' ∈ (f.afterRun t i c (p, w)).tasks)
    (hr : t'.run? = some r') :
    (t' ∈ f.tasks ∧ t'.number ≠ t.number) ∨
      (t'.number = t.number ∧ p.run? = some r' ∧ p.state? = some t'.state) := by
  cases p with
  | going r =>
    rcases mem_park.1 ht' with hold | rfl
    · exact .inl hold
    · cases hr
      exact .inr ⟨rfl, rfl, rfl⟩
  | waiting moment r =>
    rcases mem_park.1 ht' with hold | rfl
    · exact .inl hold
    · cases hr
      exact .inr ⟨rfl, rfl, rfl⟩
  | ended outcome =>
    have hend := calm_end (sound_withWorld hs (logReply c outcome w)) t.number (.run outcome)
    -- ending a run wakes shutdowns and starts nothing
    rcases hend.adds t' ht' r' hr with hold | ⟨hnew, -⟩
    · exact .inl (mem_dropTask.1 hold)
    · exact absurd (hend.sound.below t' ht') (Nat.not_lt.2 hnew)

/-- The other runs stay. -/
theorem keeps_afterRun (hs : f.Sound) (ht' : t' ∈ f.tasks) (hr : t'.run? = some r')
    (hne : t'.number ≠ t.number) :
    t' ∈ (f.afterRun t i c (p, w)).tasks := by
  cases p with
  | going r => exact mem_park.2 (.inl ⟨ht', hne⟩)
  | waiting moment r => exact mem_park.2 (.inl ⟨ht', hne⟩)
  | ended outcome =>
    have hend := calm_end (sound_withWorld hs (logReply c outcome w)) t.number (.run outcome)
    exact hend.keeps t' (mem_dropTask.2 ⟨ht', hne⟩) r' hr

/-- Drivers that wait for a fire time after a piece waited before, or begin to. -/
theorem waits_afterRun (hs : f.Sound) (ht' : t' ∈ (f.afterRun t i c (p, w)).tasks) {d : Driver}
    {instant : Time.Instant} (hd : t'.Awaits d instant) :
    t' ∈ f.tasks ∨ t'.BeginsToWait d instant w := by
  cases p with
  | going r =>
    rcases mem_park.1 ht' with ⟨hold, -⟩ | rfl
    · exact .inl hold
    · cases hd.activity
  | waiting moment r =>
    rcases mem_park.1 ht' with ⟨hold, -⟩ | rfl
    · exact .inl hold
    · cases hd.activity
  | ended outcome =>
    have hend := calm_end (sound_withWorld hs (logReply c outcome w)) t.number (.run outcome)
    rcases hend.waits t' ht' d instant hd with hold | hbegins
    · exact .inl (mem_dropTask.1 hold).1
    · exact .inr (hbegins.of_still (still_logReply c outcome w))

/-- A run that has not ended is there. -/
theorem parked_afterRun {state : TaskState} (hr : p.run? = some r')
    (hstate : p.state? = some state) :
    { t with activity := .run i r' c, state := state } ∈ (f.afterRun t i c (p, w)).tasks := by
  cases p with
  | going r =>
    cases hr
    cases hstate
    exact mem_park.2 (.inr rfl)
  | waiting moment r =>
    cases hr
    cases hstate
    exact mem_park.2 (.inr rfl)
  | ended outcome => cases hr

/-- A fleet is sound after a piece of a run that keeps its guard. -/
theorem sound_afterRun (hs : f.Sound) (ht : t ∈ f.tasks) (hactivity : t.activity = .run i r c)
    (hguard : ∀ r', p.run? = some r' → r'.guard = r.guard) : (f.afterRun t i c (p, w)).Sound := by
  have hrun : t.run? = some r := Task.run?_of_activity hactivity
  -- only the number of a run may be parked as a run again
  have hnot : ¬ f.Runless t.number := by
    intro hrunless
    rw [hrunless.2 t ht rfl] at hrun
    cases hrun
  have hpark : ∀ r' state, p.run? = some r' →
      (Fleet.park t (.run i r' c) state { f with world := w }).Sound := by
    intro r' state hr'
    refine sound_park (sound_withWorld hs w) (hs.below t ht) nofun ?_
    intro r₁ hr₁
    cases hr₁
    rw [hguard r' hr']
    exact ⟨hs.guarded t ht r hrun, hnot⟩
  cases p with
  | going r' => exact hpark r' .ready rfl
  | waiting moment r' => exact hpark r' (.sleeping moment) rfl
  | ended outcome => exact (calm_end (sound_withWorld hs _) t.number _).sound

/-! ## Time -/

/-- Passing time only changes the states of tasks. -/
theorem mem_passTo {moment : Nat} (h : t ∈ (f.passTo moment).tasks) :
    ∃ t₀ ∈ f.tasks, t.number = t₀.number ∧ t.activity = t₀.activity ∧
      (t.state = t₀.state ∨ ∃ m, t₀.state = .sleeping m ∧ m ≤ moment ∧ t.state = .due) := by
  obtain ⟨t₀, hold, rfl⟩ := List.mem_map.1 h
  refine ⟨t₀, hold, ?_⟩
  cases hstate : t₀.state with
  | sleeping m =>
    by_cases hm : m ≤ moment
    · simp [hm]
    · simp [hm, hstate]
  | _ => simp [hstate]

/-- Every task is still there after time has passed. -/
theorem exists_mem_passTo (moment : Nat) (ht : t ∈ f.tasks) :
    ∃ t' ∈ (f.passTo moment).tasks, t'.number = t.number ∧ t'.activity = t.activity := by
  refine ⟨_, List.mem_map_of_mem ht, ?_, ?_⟩
  · cases hstate : t.state with
    | sleeping m => by_cases hm : m ≤ moment <;> simp [hm]
    | _ => rfl
  · cases hstate : t.state with
    | sleeping m => by_cases hm : m ≤ moment <;> simp [hm]
    | _ => rfl

/-- Time that passes keeps a fleet sound. -/
theorem sound_passTo (hs : f.Sound) (moment : Nat) : (f.passTo moment).Sound := by
  have hnumbers : (f.passTo moment).tasks.map Task.number = f.tasks.map Task.number := by
    show (f.tasks.map _).map Task.number = _
    rw [List.map_map]
    refine List.map_congr_left (fun t _ => ?_)
    cases hstate : t.state with
    | sleeping m => by_cases hm : m ≤ moment <;> simp [hstate, hm]
    | _ => simp [hstate]
  have htasks : Sound { f with tasks := (f.passTo moment).tasks } := by
    refine hs.of_tasks (hnumbers ▸ hs.nodup) ?_
    intro t ht
    obtain ⟨t₀, hold, hnumber, hactivity, -⟩ := mem_passTo ht
    exact ⟨t₀, hold, hnumber.symm, .inl hactivity⟩
  exact sound_withWorld htasks (f.passTo moment).world

/-- A request starts a run at its beginning, and touches none that is there. -/
theorem calm_request (hs : f.Sound) (i : Nat) (id : String) (kind : RunKind) (caller : Caller)
    (foreground : Bool) :
    f.Calm (f.request i id kind caller foreground) := by
  unfold request requested?
  split
  · rename_i activity h
    split at h
    · rename_i s e hsched hentry
      cases h
      have hadmits : f.Admits (.run i ⟨s.guard, e.job, kind, .entering⟩ caller) :=
        ⟨guard_mem hsched, rfl⟩
      exact calm_addTask hs hadmits foreground
    · cases h
  · exact Calm.refl hs

end

/-! ## What a move can do -/

/-- The ways in which a move can change a fleet. -/
inductive Happens (f : Fleet FaultyStore) : Move → Fleet FaultyStore → Prop
  /-- No run is touched. -/
  | calm {m : Move} {g : Fleet FaultyStore} (h : f.Calm g) : Happens f m g
  | passed (moment : Nat) : Happens f (.pass moment) (f.passTo moment)
  | failed (operations : List StoreOperation) :
    Happens f (.fail operations) (f.make (.fail operations))
  /-- One run makes its next piece. -/
  | piece {t : Task} {i : Nat} {r : Run} {c : Caller} {p : Progress} {w : World FaultyStore}
    (ht : t ∈ f.tasks)
      (hactivity : t.activity = .run i r c) (hadvances : r.Advances f.world p w) :
      Happens f (.turn t.number) (f.afterRun t i c (p, w))

/-- The turn of a run is its next piece. -/
theorem make_turn {f : Fleet FaultyStore} {t : Task} {i : Nat} {r : Run} {c : Caller}
    (hfound : f.task? t.number = some t) (hactivity : t.activity = .run i r c) :
    f.make (.turn t.number) = f.afterRun t i c (r.advance f.world) := by
  simp only [make, advance, hfound, hactivity]

/-- A turn is a piece of one run, or calm. -/
theorem turn_happens {f : Fleet FaultyStore} (hs : f.Sound) (number : Nat) :
    f.Happens (.turn number) (f.make (.turn number)) := by
  show f.Happens (.turn number) (f.advance number)
  unfold advance
  cases hfound : f.task? number with
  | none => exact .calm (Calm.refl hs)
  | some t =>
    obtain ⟨ht, rfl⟩ := task?_eq_some hfound
    simp only
    split
    · rename_i i r c hactivity
      exact .piece ht hactivity (r.advances f.world)
    · rename_i hnot
      refine .calm (calm_stepTask hs ht ?_)
      cases hactivity : t.activity with
      | run i r c => exact absurd hactivity (hnot i r c)
      -- nobody takes a lock without a run
      | acquire a => exact absurd hactivity (hs.plain t ht a)
      | _ => rfl

theorem make_happens {f : Fleet FaultyStore} (hs : f.Sound) (m : Move) :
    f.Happens m (f.make m) := by
  cases m with
  | turn number => exact turn_happens hs number
  | pass moment => exact .passed moment
  | fail operations => exact .failed operations
  | register i job => exact .calm (calm_register hs i job)
  | registerAll i jobs => exact .calm (calm_registerAll hs i jobs)
  | start i => exact .calm (calm_start hs i)
  | shutdown i waits foreground => exact .calm (calm_shutdown hs i waits foreground)
  | pause i id => exact .calm (calm_pause hs i id)
  | resume i id => exact .calm (calm_resume hs i id)
  | remove i id => exact .calm (calm_remove hs i id)
  | request i id kind caller foreground => exact .calm (calm_request hs i id kind caller foreground)

namespace Happens

variable {f g : Fleet FaultyStore} {m : Move}

/-- Whatever happens keeps a fleet sound. -/
theorem sound (hs : f.Sound) (h : f.Happens m g) : g.Sound := by
  cases h with
  | calm h => exact h.sound
  | passed moment => exact sound_passTo hs moment
  | failed operations => exact ⟨hs.nodup, hs.below, hs.plain, hs.guarded, hs.drivers⟩
  | piece ht hactivity hadvances =>
    exact sound_afterRun hs ht hactivity (fun r' hr' => (hadvances.same hr').guard)

theorem guards (h : f.Happens m g) : g.guards = f.guards := by
  cases h with
  | calm h => exact h.guards
  | passed moment => rfl
  | failed operations => rfl
  | piece ht hactivity hadvances => exact guards_afterRun

theorem start (hs : f.Sound) (h : f.Happens m g) : g.world.start = f.world.start := by
  cases h with
  | calm h => exact h.still.start
  | passed moment => rfl
  | failed operations => rfl
  | piece ht hactivity hadvances => rw [(still_afterRun hs).start, hadvances.clock.2]

/-- Time never goes back. -/
theorem elapsed (hs : f.Sound) (h : f.Happens m g) : f.world.elapsed ≤ g.world.elapsed := by
  cases h with
  | calm h => exact Nat.le_of_eq h.still.elapsed.symm
  | passed moment => exact Nat.le_max_left _ _
  | failed operations => exact Nat.le_refl _
  | piece ht hactivity hadvances =>
    exact Nat.le_of_eq (by rw [(still_afterRun hs).elapsed, hadvances.clock.1])

/-- A turn takes no time. -/
theorem elapsed_turn {number : Nat} (hs : f.Sound) (h : f.Happens (.turn number) g) :
    g.world.elapsed = f.world.elapsed := by
  cases h with
  | calm h => exact h.still.elapsed
  | piece ht hactivity hadvances => rw [(still_afterRun hs).elapsed, hadvances.clock.1]

/-- Numbers are given out in order. -/
theorem nextNumber (h : f.Happens m g) : f.nextNumber ≤ g.nextNumber := by
  cases h with
  | calm h => exact h.next
  | passed moment => exact Nat.le_refl _
  | failed operations => exact Nat.le_refl _
  | piece ht hactivity hadvances => exact Nat.le_of_eq nextNumber_afterRun.symm

/-- A run after a move is new and at its beginning, or it was there. -/
theorem origin (hs : f.Sound) (h : f.Happens m g) {t : Task} {r : Run} (ht : t ∈ g.tasks)
    (hrun : t.run? = some r) :
    (f.nextNumber ≤ t.number ∧ r.phase = .entering) ∨
      ∃ t₀ ∈ f.tasks, ∃ r₀, t₀.number = t.number ∧ t₀.run? = some r₀ ∧ r₀.Same r := by
  cases h with
  | calm h =>
    rcases h.adds t ht r hrun with hold | ⟨hnew, -, hphase⟩
    · exact .inr ⟨t, hold, r, rfl, hrun, Run.Same.refl r⟩
    · exact .inl ⟨hnew, hphase⟩
  | passed moment =>
    obtain ⟨t₀, hold, hnumber, hactivity, -⟩ := mem_passTo ht
    refine .inr ⟨t₀, hold, r, hnumber.symm, ?_, Run.Same.refl r⟩
    rw [← Task.run?_congr hactivity]
    exact hrun
  | failed operations => exact .inr ⟨t, ht, r, rfl, hrun, Run.Same.refl r⟩
  | @piece t₀ i r₀ c p w ht₀ hactivity hadvances =>
    rcases mem_afterRun hs ht hrun with ⟨hold, -⟩ | ⟨hnumber, hrest, -⟩
    · exact .inr ⟨t, hold, r, rfl, hrun, Run.Same.refl r⟩
    · exact .inr ⟨t₀, ht₀, r₀, hnumber.symm, Task.run?_of_activity hactivity, hadvances.same hrest⟩

/-- A run is still there after a move, unless the move is its own next piece. -/
theorem stays (hs : f.Sound) (h : f.Happens m g) {t : Task} {r : Run} (ht : t ∈ f.tasks)
    (hrun : t.run? = some r) :
    (∃ t' ∈ g.tasks, t'.number = t.number ∧ t'.run? = some r) ∨
      ∃ i c p w, m = .turn t.number ∧ t.activity = .run i r c ∧ r.Advances f.world p w ∧
        g = f.afterRun t i c (p, w) := by
  cases h with
  | calm h => exact .inl ⟨t, h.keeps t ht r hrun, rfl, hrun⟩
  | passed moment =>
    obtain ⟨t', ht', hnumber, hactivity⟩ := exists_mem_passTo moment ht
    refine .inl ⟨t', ht', hnumber, ?_⟩
    rw [Task.run?_congr hactivity]
    exact hrun
  | failed operations => exact .inl ⟨t, ht, rfl, hrun⟩
  | @piece t₀ i r₀ c p w ht₀ hactivity hadvances =>
    -- the run that makes the piece, or another one that stays
    by_cases hnumber : t.number = t₀.number
    · have hsame := hs.task_unique ht ht₀ hnumber
      subst hsame
      have hrun₀ : some r = some r₀ := by rw [← hrun, Task.run?_of_activity hactivity]
      cases hrun₀
      exact .inr ⟨i, c, p, w, rfl, hactivity, hadvances, rfl⟩
    · exact .inl ⟨t, keeps_afterRun hs ht hrun hnumber, rfl, hrun⟩

end Happens

/-! ## What holds after any moves -/

/-- Before anything has started: no task, and no entry with a driver. -/
structure Fresh (f : Fleet FaultyStore) : Prop where
  tasks : f.tasks = []
  drivers : ∀ s ∈ f.schedulers, ∀ e ∈ s.entries, e.driver = none

/-- A fleet in which nothing has started is sound. -/
theorem Fresh.sound {f : Fleet FaultyStore} (h : f.Fresh) : f.Sound where
  nodup := by
    rw [h.tasks]
    exact List.nodup_nil
  below := by
    rw [h.tasks]
    exact fun t ht => absurd ht List.not_mem_nil
  plain := by
    rw [h.tasks]
    exact fun t ht => absurd ht List.not_mem_nil
  guarded := by
    rw [h.tasks]
    exact fun t ht => absurd ht List.not_mem_nil
  drivers := by
    intro s hs e he n hn
    rw [h.drivers s hs e he] at hn
    cases hn

/-- Every fleet that is reached from a sound one is sound. -/
theorem sound_after {f : Fleet FaultyStore} (hs : f.Sound) (moves : List Move) :
    (f.after moves).Sound := by
  induction moves using List.reverseRecOn with
  | nil => exact hs
  | append_singleton moves m ih =>
    rw [after_concat]
    exact (make_happens ih m).sound ih

theorem guards_after {f : Fleet FaultyStore} (hs : f.Sound) (moves : List Move) :
    (f.after moves).guards = f.guards := by
  induction moves using List.reverseRecOn with
  | nil => rfl
  | append_singleton moves m ih =>
    rw [after_concat, (make_happens (sound_after hs moves) m).guards, ih]

theorem start_after {f : Fleet FaultyStore} (hs : f.Sound) (moves : List Move) :
    (f.after moves).world.start = f.world.start := by
  induction moves using List.reverseRecOn with
  | nil => rfl
  | append_singleton moves m ih =>
    have hsound := sound_after hs moves
    rw [after_concat, (make_happens hsound m).start hsound, ih]

/-- At no point has time gone back behind the beginning. -/
theorem elapsed_after {f : Fleet FaultyStore} (hs : f.Sound) (moves : List Move) :
    f.world.elapsed ≤ (f.after moves).world.elapsed := by
  induction moves using List.reverseRecOn with
  | nil => exact Nat.le_refl _
  | append_singleton moves m ih =>
    have hsound := sound_after hs moves
    rw [after_concat]
    exact Nat.le_trans ih ((make_happens hsound m).elapsed hsound)

theorem elapsed_mono {f : Fleet FaultyStore} (hs : f.Sound) {before moves : List Move}
    (h : before <+: moves) :
    (f.after before).world.elapsed ≤ (f.after moves).world.elapsed := by
  obtain ⟨rest, rfl⟩ := h
  rw [after_append]
  exact elapsed_after (sound_after hs before) rest

/-- Numbers are given out in ascending order. -/
theorem nextNumber_after {f : Fleet FaultyStore} (hs : f.Sound) (moves : List Move) :
    f.nextNumber ≤ (f.after moves).nextNumber := by
  induction moves using List.reverseRecOn with
  | nil => exact Nat.le_refl _
  | append_singleton moves m ih =>
    rw [after_concat]
    exact Nat.le_trans ih (make_happens (sound_after hs moves) m).nextNumber

theorem nextNumber_mono {f : Fleet FaultyStore} (hs : f.Sound) {before moves : List Move}
    (h : before <+: moves) :
    (f.after before).nextNumber ≤ (f.after moves).nextNumber := by
  obtain ⟨rest, rfl⟩ := h
  rw [after_append]
  exact nextNumber_after (sound_after hs before) rest

/-- What holds at first and is kept by every move that follows holds at every point of a row of
    moves. -/
theorem prefix_induction {α : Type} {P : List α → Prop} {moves : List α} (hnil : P [])
    (hstep : ∀ before m, before ++ [m] <+: moves → P before → P (before ++ [m])) :
    ∀ before, before <+: moves → P before := by
  intro before
  induction before using List.reverseRecOn with
  | nil => exact fun _ => hnil
  | append_singleton before m ih =>
    intro h
    exact hstep before m h (ih ((List.prefix_append before [m]).trans h))

/-- The same from some point of the row on. -/
theorem prefix_induction_from {α : Type} {P : List α → Prop} {first moves : List α}
    (hfirst : P first) (hstep : ∀ before m, first <+: before → before ++ [m] <+: moves → P before →
      P (before ++ [m])) :
    ∀ before, first <+: before → before <+: moves → P before := by
  intro before
  induction before using List.reverseRecOn with
  | nil =>
    intro h _
    rw [← List.prefix_nil.1 h]
    exact hfirst
  | append_singleton before m ih =>
    intro h hmoves
    rcases List.prefix_concat_iff.1 h with rfl | h
    · exact hfirst
    · exact hstep before m h hmoves (ih h ((List.prefix_append before [m]).trans hmoves))

/-! ## Whole turns -/

/-- A task that was parked is found under its number. -/
theorem task?_park {σ : Type} (f : Fleet σ) (t : Task) (activity : Activity) (state : TaskState) :
    (f.park t activity state).task? t.number =
      some { t with activity := activity, state := state } := by
  have hnone : (f.tasks.filter (fun t' => t'.number ≠ t.number)).find? (fun t' =>
      t'.number = t.number) = none := by
    rw [List.find?_eq_none]
    intro t' ht'
    have hne := (List.mem_filter.1 ht').2
    simpa using hne
  unfold task? park dropTask
  rw [List.find?_append, hnone]
  simp

/-- What a task comes to does not depend on whether it was parked before. -/
theorem afterRun_park {σ : Type} (f : Fleet σ) (t : Task) (activity : Activity)
    (state : TaskState) (i : Nat) (c : Caller) (w : World σ) (got : Progress × World σ) :
    Fleet.afterRun { t with activity := activity, state := state } i c got
      (Fleet.park t activity state { f with world := w }) = f.afterRun t i c got := by
  have hdrop : (f.tasks.filter (fun t' : Task => t'.number ≠ t.number) ++
      [{ t with activity := activity, state := state }]).filter (fun t' => t'.number ≠ t.number) =
        f.tasks.filter (fun t' => t'.number ≠ t.number) := by
    simp [List.filter_append, List.filter_filter]
  obtain ⟨p, w'⟩ := got
  cases p with
  | going r => simp only [afterRun, park, dropTask, hdrop]
  | waiting moment r => simp only [afterRun, park, dropTask, hdrop]
  | ended outcome => simp only [afterRun, finish, park, dropTask, hdrop]

/-- The turn of a run that makes several pieces is a row of its moves. -/
theorem stepIn_eq_after (fuel : Nat) {f : Fleet FaultyStore} {t : Task} {i : Nat}
    {r : Run} {c : Caller} (hfound : f.task? t.number = some t)
    (hactivity : t.activity = .run i r c) :
    ∃ count, f.afterRun t i c (r.stepIn fuel f.world) =
      f.after (List.replicate (count + 1) (.turn t.number)) := by
  induction fuel generalizing f t r with
  | zero => exact ⟨0, (make_turn hfound hactivity).symm⟩
  | succ fuel ih =>
    unfold Run.stepIn
    rcases hadvance : r.advance f.world with ⟨p, w⟩
    cases p with
    | going r' =>
      -- the task goes on at once: it is parked with the rest of its run and then has the turns that
      -- are left
      have hpark := ih (f := Fleet.park t (.run i r' c) .ready { f with world := w })
        (t := { t with activity := .run i r' c, state := .ready }) (r := r')
        (task?_park { f with world := w } t (.run i r' c) .ready) rfl
      obtain ⟨count, hcount⟩ := hpark
      refine ⟨count + 1, ?_⟩
      rw [afterRun_park f t (.run i r' c) .ready i c w] at hcount
      have hfirst : f.make (.turn t.number) =
          Fleet.park t (.run i r' c) .ready { f with world := w } := by
        rw [make_turn hfound hactivity, hadvance]
        rfl
      rw [List.replicate_succ, after_cons, hfirst]
      exact hcount
    | waiting moment r' =>
      have hfirst := make_turn hfound hactivity
      rw [hadvance] at hfirst
      exact ⟨0, hfirst.symm⟩
    | ended outcome =>
      have hfirst := make_turn hfound hactivity
      rw [hadvance] at hfirst
      exact ⟨0, hfirst.symm⟩

/-- Every whole turn, as the machine takes it, is a row of moves. -/
theorem step_eq_after (f : Fleet FaultyStore) (number : Nat) :
    ∃ count, f.step number = f.after (List.replicate (count + 1) (.turn number)) := by
  cases hfound : f.task? number with
  | none =>
    refine ⟨0, ?_⟩
    show f.step number = f.advance number
    unfold step advance
    rw [hfound]
  | some t =>
    obtain ⟨-, hnumber⟩ := task?_eq_some hfound
    have hstep : f.step number = f.stepTask t := by
      unfold step
      rw [hfound]
    rw [hstep]
    subst hnumber
    cases hactivity : t.activity with
    | run i r c =>
      unfold stepTask
      rw [hactivity]
      exact stepIn_eq_after 3 hfound hactivity
    | _ =>
      refine ⟨0, ?_⟩
      show f.stepTask t = f.advance t.number
      unfold advance
      simp only [hfound, hactivity]

end Fleet

/-! ## A small fleet -/

/-- Schedulers that share a store in memory, have the job registered, and have not been started. -/
def Fleet.instances (count : Nat) (job : Job) (timeout : Option Nat := none) :
    Fleet FaultyStore where
  world := { start := ⟨0⟩, locks := {} }
  schedulers := (List.range count).map fun number =>
    { config := { acquireTimeout := timeout }
      lock := ⟨"job_lock", .scheduler number, 100⟩
      entries := [{ serial := number, job := job, trigger := .interval ⟨1⟩ }] }

namespace Fleet

/-- Instances with a registered job are a fresh fleet. -/
theorem fresh_instances (count : Nat) (job : Job) (timeout : Option Nat := none) :
    (instances count job timeout).Fresh := by
  refine ⟨rfl, ?_⟩
  intro s hs e he
  obtain ⟨number, -, rfl⟩ := List.mem_map.1 hs
  rw [List.mem_singleton.1 he]

/-- All instances share one key prefix. -/
theorem keyPrefix_instances (count : Nat) (job : Job) (timeout : Option Nat := none) :
    ∀ s ∈ (instances count job timeout).schedulers, s.lock.keyPrefix = "job_lock" := by
  intro s hs
  obtain ⟨number, -, rfl⟩ := List.mem_map.1 hs
  rfl

end Fleet

end JobFleet
