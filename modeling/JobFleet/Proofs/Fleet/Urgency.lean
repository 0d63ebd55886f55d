/-
  JobFleet.Proofs.Fleet.Urgency: drivers that have something to do at once are ready to do it.

  A driver that has not begun yet, or that was told to stop, is urgent: it does not wait for a fire
  time.  It is ready from the step on that makes it urgent, and until its turn nothing puts it to
  sleep.  So time does not pass while there is one, if time passes only when no task can go on.

  Main results:
    * `hastens_occur` — a driver that is urgent after an occurrence was so before, or is ready.
    * `eager_through` — through any row of occurrences the urgent drivers are ready.
-/
import JobFleet.Proofs.Fleet.Effects

namespace JobFleet

/-- The task is a driver that does not wait for a fire time: it has not begun, or it was told to
    stop. -/
def Task.Urgent (t : Task) :
    Prop := ∃ d, t.activity = .drive d ∧ (d.stopping = true ∨ d.awaited = none)

namespace Fleet

/-! ## One step -/

section

variable {σ : Type} {f g h : Fleet σ} {t : Task} {i : Nat}

/-- What is urgent after a step was there before, or is ready. -/
def Hastens (f g : Fleet σ) : Prop := ∀ t ∈ g.tasks, t.Urgent → t ∈ f.tasks ∨ Task.isReady t = true

/-- A step that adds no task makes nobody urgent. -/
theorem hastens_of_subset (h : ∀ t ∈ g.tasks, t ∈ f.tasks) : Hastens f g :=
  fun t ht _ => .inl (h t ht)

/-- Steps compose: what is urgent at the end was there at the beginning, or has been made ready. -/
theorem Hastens.trans (hfg : Hastens f g) (hgh : Hastens g h) : Hastens f h := by
  intro t ht hurgent
  rcases hgh t ht hurgent with hold | hready
  · exact hfg t hold hurgent
  · exact .inr hready

theorem hastens_dropTask (number : Nat) : Hastens f (f.dropTask number) :=
  hastens_of_subset fun _ ht => (mem_dropTask.1 ht).1

/-- A new task is ready. -/
theorem hastens_addTask (activity : Activity) (foreground : Bool) :
    Hastens f (f.addTask activity foreground) := by
  intro t ht _
  rcases mem_addTask.1 ht with hold | rfl
  · exact .inl hold
  · exact .inr rfl

/-- Waking makes tasks ready and never urgent. -/
theorem hastens_wake (condition : Task → Bool) : Hastens f (f.wake condition) := by
  intro t ht _
  rcases mem_wake ht with ⟨hold, -⟩ | ⟨t₀, -, -, rfl⟩
  · exact .inl hold
  · exact .inr rfl

/-- The end of a task wakes those that wait for it. -/
theorem hastens_finish (number : Nat) (taskEnd : TaskEnd) : Hastens f (f.finish number taskEnd) :=
  (hastens_dropTask number).trans (hastens_wake (f := { f.dropTask number with
    ends := (f.dropTask number).ends ++ [(number, taskEnd)] }) _)

/-- A task is put to sleep as something that is not urgent. -/
theorem hastens_park {activity : Activity} (state : TaskState)
    (h : ∀ d, activity = .drive d → d.stopping = false ∧ d.awaited ≠ none) :
    Hastens f (f.park t activity state) := by
  intro t' ht' hurgent
  rcases mem_park.1 ht' with ⟨hold, -⟩ | rfl
  · exact .inl hold
  · obtain ⟨d, hactivity, hor⟩ := hurgent
    obtain ⟨hgoes, hawaited⟩ := h d hactivity
    rcases hor with hstops | hnone
    · rw [hgoes] at hstops
      cases hstops
    · exact absurd hnone hawaited

/-- A driver that is told to stop is woken, unless it is ready already. -/
theorem hastens_signalDrivers (i : Nat) : Hastens f (f.signalDrivers i) := by
  intro t ht _
  rcases mem_wake ht with ⟨hold, hcond⟩ | ⟨t₀, -, -, rfl⟩
  · obtain ⟨t₀, ht₀, rfl⟩ := List.mem_map.1 hold
    cases hactivity : t₀.activity with
    | drive d =>
      by_cases hi : d.scheduler = i
      · right
        simpa [hactivity, hi] using hcond
      · left
        simpa [hactivity, hi] using ht₀
    | _ =>
      left
      simpa [hactivity] using ht₀
  · exact .inr rfl

/-! ## Turns -/

/-- Collecting ticks touches no driver. -/
theorem hastens_collectTicks (i : Nat) : Hastens f (f.collectTicks i) := by
  unfold collectTicks
  split
  · exact hastens_of_subset fun _ ht => ht
  · exact hastens_of_subset fun _ ht => ht

/-- The task of a tick is a run, which is never urgent. -/
theorem hastens_startTick (i : Nat) (job : Job) : Hastens f (f.startTick i job) := by
  unfold startTick
  split
  · exact hastens_of_subset fun _ ht => ht
  · exact (hastens_collectTicks i).trans (hastens_addTask (f := f.collectTicks i) _ false)

/-- A driver that has asked its trigger ends or waits for a fire time, so it is not urgent. -/
theorem hastens_driveOn (t : Task) (d : Driver) : Hastens f (f.driveOn t d) := by
  unfold driveOn
  simp only
  split
  · exact hastens_finish (f := changeWorld _ (changeScheduler _ _ f)) t.number .driverDone
  · split
    · exact hastens_finish (f := changeWorld _ (changeWorld _ (changeScheduler _ _ f)))
        t.number .driverDone
    · rename_i hgoes
      refine hastens_park (f := changeWorld _ (changeScheduler _ _ f)) _ ?_
      intro d' hd'
      cases hd'
      exact ⟨by simpa using hgoes, nofun⟩

/-- The turn of a driver that is told to stop ends it, and any other turn makes it wait. -/
theorem hastens_stepDriver (t : Task) (d : Driver) : Hastens f (f.stepDriver t d) := by
  unfold stepDriver
  split
  · split
    · exact hastens_finish t.number .driverDone
    · exact hastens_driveOn t d
  · split
    · exact hastens_finish (f := changeWorld _ f) t.number .driverDone
    · exact (hastens_startTick d.scheduler d.job).trans (hastens_driveOn t d)

/-- A shutdown is no driver. -/
theorem hastens_parkDrain (t : Task) (d : Drain) (state : TaskState) :
    Hastens f (f.park t (.drain d) state) :=
  hastens_park state fun _ hdrive => by cases hdrive

/-- A shutdown that waits for ticks parks itself, which is not a driver. -/
theorem hastens_stepTicks (t : Task) (d : Drain) (ticks : List Nat) :
    Hastens f (f.stepTicks t d ticks) := by
  unfold stepTicks
  simp only
  split
  · exact hastens_finish (f := changeWorld _ (changeWorld _ (f.collect ticks).2)) t.number .stopped
  · exact hastens_parkDrain (f := changeWorld _ (f.collect ticks).2) t _ .blocked

theorem hastens_stepDrain (t : Task) (d : Drain) : Hastens f (f.stepDrain t d) := by
  unfold stepDrain
  split
  · exact hastens_stepTicks t d _
  · simp only
    split
    · exact hastens_parkDrain t _ .blocked
    · split
      · exact hastens_stepTicks (f := changeWorld _ (changeScheduler _ _ (f.collect _).2)) t d _
      · exact hastens_finish
          (f := (collect _ (changeWorld _ (changeScheduler _ _ (f.collect _).2))).2)
          t.number .stopped

theorem hastens_afterRun (t : Task) (i : Nat) (c : Caller) (got : Progress × World σ) :
    Hastens f (f.afterRun t i c got) := by
  have hrun : ∀ r d, Activity.run i r c = .drive d → d.stopping = false ∧ d.awaited ≠ none := by
    intro r d hdrive
    cases hdrive
  obtain ⟨p, w⟩ := got
  cases p with
  | going r => exact hastens_park (f := { f with world := w }) .ready (hrun r)
  | waiting moment r => exact hastens_park (f := { f with world := w }) (.sleeping moment) (hrun r)
  | ended outcome =>
    exact hastens_finish (f := { f with world := logReply c outcome w }) t.number (.run outcome)

/-- Firing once more is a tick and going on. -/
theorem hastens_race (number : Nat) : Hastens f (f.race number) := by
  have hsame : Hastens f f := hastens_of_subset fun _ ht => ht
  unfold race
  split
  · exact hsame
  · split
    · split
      · exact (hastens_startTick _ _).trans (hastens_driveOn _ _)
      · exact hsame
    · exact hsame

/-! ## Requests -/

/-- An aborted driver is dropped from the tasks. -/
theorem hastens_abortDriver (e : Entry) : Hastens f (f.abortDriver e) := by
  unfold abortDriver
  split
  · exact hastens_dropTask _
  · exact hastens_of_subset fun _ ht => ht

/-- Entering a job aborts the driver of the entry that it replaces, and no more. -/
theorem hastens_enter (i : Nat) (e : Entry) : Hastens f (f.enter i e) := by
  unfold enter
  simp only
  split
  · exact hastens_abortDriver (f := f.changeEntries i (Entry.insert e)) _
  · exact hastens_of_subset fun _ ht => ht

/-- Registering may start a driver, which is urgent and ready. -/
theorem hastens_register (i : Nat) (job : Job) : Hastens f (f.register i job).2 := by
  have hsame : Hastens f f := hastens_of_subset fun _ ht => ht
  unfold register
  cases f.schedulers[i]? with
  | none => exact hsame
  | some s =>
    simp only
    split
    · exact hsame
    · cases job.definition.trigger s.config.zone with
      | error e => exact hsame
      | ok trigger =>
        by_cases hruns : s.running = true
        · simp only [hruns, if_true]
          exact (hastens_addTask (f := (f.freshEntry job trigger).2) _ false).trans
            (hastens_enter i _)
        · simp only [if_neg hruns]
          exact hastens_enter (f := (f.freshEntry job trigger).2) i _

theorem hastens_registerAll (i : Nat) (jobs : List Job) : Hastens f (f.registerAll i jobs).2 := by
  induction jobs generalizing f with
  | nil => exact hastens_of_subset fun _ ht => ht
  | cons job rest ih =>
    have hregister := hastens_register (f := f) i job
    unfold registerAll
    rcases hanswer : f.register i job with ⟨answer, g⟩
    rw [hanswer] at hregister
    cases answer with
    | ok registered => exact hregister.trans ih
    | error e => exact hregister.trans (ih (f := changeWorld _ g))

/-- Every driver that a start adds is ready. -/
theorem hastens_startDrivers (i : Nat) (entries : List Entry) :
    Hastens f (f.startDrivers i entries).2 := by
  induction entries generalizing f with
  | nil => exact hastens_of_subset fun _ ht => ht
  | cons e rest ih =>
    rcases hfirst : (if e.paused then (e, f) else f.startDriver i e) with ⟨e', g⟩
    rw [startDrivers_cons f i e rest hfirst]
    refine Hastens.trans ?_ ih
    split at hfirst
    · cases hfirst
      exact hastens_of_subset fun _ ht => ht
    · cases hfirst
      exact hastens_addTask _ false

theorem hastens_start (i : Nat) : Hastens f (f.start i) := by
  unfold start
  split
  · exact hastens_of_subset fun _ ht => ht
  · exact hastens_startDrivers i (f.entriesOf i)

theorem hastens_pause (i : Nat) (id : String) : Hastens f (f.pause i id).2 := by
  unfold pause
  split
  · exact hastens_of_subset fun _ ht => ht
  · exact hastens_abortDriver _

theorem hastens_remove (i : Nat) (id : String) : Hastens f (f.remove i id).2 := by
  unfold remove
  split
  · exact hastens_of_subset fun _ ht => ht
  · exact hastens_abortDriver (f := f.changeEntries i (Entry.erase id)) _

theorem hastens_resume (i : Nat) (id : String) : Hastens f (f.resume i id).2 := by
  unfold resume
  cases Entry.find? id (f.entriesOf i) with
  | none => exact hastens_of_subset fun _ ht => ht
  | some e =>
    by_cases hstarts : (f.isRunning i && e.driver.isNone) = true
    · simp only [hstarts, if_true]
      exact hastens_addTask _ false
    · simp only [if_neg hstarts]
      exact hastens_of_subset fun _ ht => ht

/-- A request for a run adds the task of that run. -/
theorem hastens_request (i : Nat) (id : String) (kind : RunKind) (caller : Caller)
    (foreground : Bool) :
    Hastens f (f.request i id kind caller foreground) := by
  unfold request
  split
  · exact hastens_addTask _ foreground
  · exact hastens_of_subset fun _ ht => ht

end

section

variable {f : Fleet FaultyStore}

/-- Any turn hastens, whoever has it. -/
theorem hastens_stepTask (hs : f.Sound) {t : Task} (ht : t ∈ f.tasks) :
    Hastens f (f.stepTask t) := by
  unfold stepTask
  cases hactivity : t.activity with
  | drive d => exact hastens_stepDriver t d
  | drain d => exact hastens_stepDrain t d
  | run i r c => exact hastens_afterRun t i c _
  -- nobody takes a lock without a run
  | acquire a => exact absurd hactivity (hs.plain t ht a)

theorem hastens_step (hs : f.Sound) (number : Nat) : Hastens f (f.step number) := by
  unfold step
  cases hfound : f.task? number with
  | none => exact hastens_of_subset fun _ ht => ht
  | some t => exact hastens_stepTask hs (task?_eq_some hfound).1

theorem hastens_advance (hs : f.Sound) (number : Nat) : Hastens f (f.advance number) := by
  unfold advance
  cases hfound : f.task? number with
  | none => exact hastens_of_subset fun _ ht => ht
  | some t =>
    simp only
    split
    · exact hastens_afterRun t _ _ _
    · exact hastens_stepTask hs (task?_eq_some hfound).1

/-- A shutdown wakes the drivers that it tells to stop, so they are ready. -/
theorem hastens_shutdown (hs : f.Sound) (i : Nat) (waits foreground : Bool) :
    Hastens f (f.shutdown i waits foreground).2 := by
  unfold shutdown
  split
  · exact hastens_of_subset fun _ ht => ht
  · have hhalted : Hastens f (f.halted i waits foreground) :=
      (hastens_signalDrivers (f := changeScheduler i _ f) i).trans (hastens_addTask _ foreground)
    exact hhalted.trans (hastens_step (sound_halted hs i waits foreground) f.nextNumber)

theorem hastens_occur (hs : f.Sound) (o : Occurrence) (hnot : ∀ moment, o.plain ≠ .pass moment) :
    Hastens f (f.occur o) := by
  cases o with
  | race number => exact hastens_race number
  | move m honest =>
    cases m with
    | turn number => exact hastens_advance hs number
    | pass moment => exact absurd rfl (hnot moment)
    | fail operations => exact hastens_of_subset fun _ ht => ht
    | register i job => exact hastens_register i job
    | registerAll i jobs => exact hastens_registerAll i jobs
    | start i => exact hastens_start i
    | shutdown i waits foreground => exact hastens_shutdown hs i waits foreground
    | pause i id => exact hastens_pause i id
    | resume i id => exact hastens_resume i id
    | remove i id => exact hastens_remove i id
    | request i id kind caller foreground => exact hastens_request i id kind caller foreground

/-! ## Any row -/

/-- The urgent drivers are ready. -/
def Eager (f : Fleet FaultyStore) : Prop := ∀ t ∈ f.tasks, t.Urgent → Task.isReady t = true

theorem eager_occur (hs : f.Sound) (h : f.Eager) (o : Occurrence) : (f.occur o).Eager := by
  intro t ht hurgent
  by_cases hpass : ∃ moment, o.plain = .pass moment
  · -- time passes: what was ready remains so
    obtain ⟨moment, hpass⟩ := hpass
    cases o with
    | race number => cases hpass
    | move m honest =>
      cases hpass
      obtain ⟨t₀, hold, -, hactivity, hstate⟩ := mem_passTo ht
      rcases hstate with hstate | ⟨-, -, -, hstate⟩
      · have hready := h t₀ hold (by unfold Task.Urgent; rw [← hactivity]; exact hurgent)
        unfold Task.isReady at hready ⊢
        rw [hstate]
        exact hready
      · unfold Task.isReady
        rw [hstate]
        rfl
  · rcases hastens_occur hs o (fun moment hplain =>
      hpass ⟨moment, hplain⟩) t ht hurgent with hold | hready
    · exact h t hold hurgent
    · exact hready

theorem eager_through (hfresh : f.Fresh) (row : List Occurrence) : (f.through row).Eager := by
  induction row using List.reverseRecOn with
  | nil =>
    intro t ht
    have hnone : t ∈ f.tasks := ht
    rw [hfresh.tasks] at hnone
    cases hnone
  | append_singleton row o ih =>
    rw [through_concat]
    exact eager_occur (sound_through hfresh.sound row) ih o

end

end Fleet

end JobFleet
