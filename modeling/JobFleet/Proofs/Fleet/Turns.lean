/-
  JobFleet.Proofs.Fleet.Turns: what a turn does to the tasks and the schedulers of a fleet.

  `Does` says which number does what, whatever the order of the tasks and whatever they wait for.
  Each part of the machine has an `iff` about it, so that what a whole turn does is read off its
  parts: the task whose turn it is goes on as something or ends (`Acts`), a driver starts a tick
  (`Fires`), or a shutdown takes over the ticks in flight (`TakesOver`).  No turn changes who is
  registered and who runs (`frames`).

  Main results:
    * `acts_afterRun`, `acts_driveOn` — the turn of a run, and of a driver that does not fire.
    * `driverTurn_stepDriver` — the turn of a driver, which may fire.
    * `drainTurn_stepDrain` — the turn of a shutdown.
    * `turns_advance`, `turns_race`, `turns_request` — what occurs without a request to a registry
      is one of `Turns`.
-/
import JobFleet.Proofs.Fleet.Occurrences

namespace JobFleet

open JobFleet.Schedule JobFleet.Time

/-- An entry without the fire time that its driver announced last. -/
def Entry.plain (e : Entry) : Entry := { e with nextRun := none }

/-- A scheduler without the fire times that were announced and the ticks that were started. -/
def Scheduler.frame (s : Scheduler) :
    Scheduler := { s with entries := s.entries.map Entry.plain, inFlight := [] }

/-- An announcement changes nothing but the fire time that an entry shows. -/
theorem Entry.plain_announce (serial : Nat) (next : Option Instant) (entries : List Entry) :
    (Entry.announce serial next entries).map Entry.plain = entries.map Entry.plain := by
  unfold announce
  rw [List.map_map]
  refine List.map_congr_left (fun e _ => ?_)
  simp only [Function.comp_apply]
  split <;> rfl

namespace Fleet

variable {σ : Type} {f g : Fleet σ} {n m k i : Nat} {a b : Activity} {t : Task}

/-! ## Who does what -/

/-- The task with this number does this. -/
def Does (f : Fleet σ) (n : Nat) (a : Activity) : Prop :=
  ∃ t ∈ f.tasks, t.number = n ∧ t.activity = a

/-- Every task does what it is at. -/
theorem does_of_mem (ht : t ∈ f.tasks) : f.Does t.number t.activity := ⟨t, ht, rfl, rfl⟩

/-- A number is live just while it does something. -/
theorem isLive_iff : f.isLive n = true ↔ ∃ a, f.Does n a := by
  simp [isLive, Does]

/-- In a sound fleet a number does one thing only. -/
theorem Sound.does_unique (hs : f.Sound) (ha : f.Does n a) (hb : f.Does n b) : a = b := by
  obtain ⟨t, ht, hnumber, rfl⟩ := ha
  obtain ⟨t', ht', hnumber', rfl⟩ := hb
  rw [hs.task_unique ht ht' (hnumber.trans hnumber'.symm)]

/-- Numbers in use are below the next one. -/
theorem Sound.lt_of_does (hs : f.Sound) (h : f.Does n a) : n < f.nextNumber := by
  obtain ⟨t, ht, rfl, -⟩ := h
  exact hs.below t ht

/-- Changing a scheduler stops nobody and starts nobody. -/
@[simp] theorem does_changeScheduler (change : Scheduler → Scheduler) :
    (f.changeScheduler i change).Does n a ↔ f.Does n a := Iff.rfl

/-- Everyone but the dropped task goes on. -/
@[simp] theorem does_dropTask : (f.dropTask k).Does n a ↔ n ≠ k ∧ f.Does n a := by
  constructor
  · rintro ⟨t, ht, rfl, rfl⟩
    obtain ⟨hold, hne⟩ := mem_dropTask.1 ht
    exact ⟨hne, does_of_mem hold⟩
  · rintro ⟨hne, t, ht, rfl, rfl⟩
    exact does_of_mem (mem_dropTask.2 ⟨ht, hne⟩)

/-- A new task has the next number. -/
@[simp] theorem does_addTask (foreground : Bool) :
    (f.addTask b foreground).Does n a ↔ f.Does n a ∨ (n = f.nextNumber ∧ a = b) := by
  constructor
  · rintro ⟨t, ht, rfl, rfl⟩
    rcases mem_addTask.1 ht with hold | rfl
    · exact .inl (does_of_mem hold)
    · exact .inr ⟨rfl, rfl⟩
  · rintro (⟨t, ht, rfl, rfl⟩ | ⟨rfl, rfl⟩)
    · exact does_of_mem (mem_addTask.2 (.inl ht))
    · exact ⟨_, mem_addTask.2 (.inr rfl), rfl, rfl⟩

/-- A parked task does what it is parked with, and all others go on. -/
@[simp] theorem does_park (state : TaskState) :
    (f.park t b state).Does n a ↔ (n ≠ t.number ∧ f.Does n a) ∨ (n = t.number ∧ a = b) := by
  constructor
  · rintro ⟨t', ht', rfl, rfl⟩
    rcases mem_park.1 ht' with ⟨hold, hne⟩ | rfl
    · exact .inl ⟨hne, does_of_mem hold⟩
    · exact .inr ⟨rfl, rfl⟩
  · rintro (⟨hne, t', ht', rfl, rfl⟩ | ⟨rfl, rfl⟩)
    · exact does_of_mem (mem_park.2 (.inl ⟨ht', hne⟩))
    · exact ⟨_, mem_park.2 (.inr rfl), rfl, rfl⟩

@[simp] theorem does_wake (condition : Task → Bool) : (f.wake condition).Does n a ↔ f.Does n a := by
  constructor
  · rintro ⟨t, ht, rfl, rfl⟩
    rcases mem_wake ht with ⟨hold, -⟩ | ⟨t₀, hold, -, rfl⟩
    · exact does_of_mem hold
    · exact ⟨t₀, hold, rfl, rfl⟩
  · rintro ⟨t, ht, rfl, rfl⟩
    by_cases hcond : condition t = true
    · refine ⟨{ t with state := .ready }, List.mem_append_right _ ?_, rfl, rfl⟩
      exact List.mem_map_of_mem (List.mem_filter.2 ⟨ht, hcond⟩)
    · exact does_of_mem (List.mem_append_left _ (List.mem_filter.2 ⟨ht, by simpa using hcond⟩))

/-- A task that has ended does nothing any more. -/
@[simp] theorem does_finish (taskEnd : TaskEnd) : (f.finish k taskEnd).Does n a ↔
    n ≠ k ∧ f.Does n a := by
  unfold finish
  rw [does_wake]
  exact does_dropTask

@[simp] theorem does_passTo (moment : Nat) : (f.passTo moment).Does n a ↔ f.Does n a := by
  constructor
  · rintro ⟨t, ht, rfl, rfl⟩
    obtain ⟨t₀, hold, hnumber, hactivity, -⟩ := mem_passTo ht
    exact ⟨t₀, hold, hnumber.symm, hactivity.symm⟩
  · rintro ⟨t, ht, rfl, rfl⟩
    obtain ⟨t', ht', hnumber, hactivity⟩ := exists_mem_passTo moment ht
    exact ⟨t', ht', hnumber, hactivity⟩

/-! ## Who is registered, and what is in flight -/

/-- The schedulers without what the turns of tasks change. -/
def frames (f : Fleet σ) : List Scheduler := f.schedulers.map Scheduler.frame

/-- The registry of a scheduler without the fire times that were announced. -/
def registry (f : Fleet σ) (i : Nat) : List Entry := (f.entriesOf i).map Entry.plain

/-- The ticks of a scheduler that were started and not yet collected. -/
def flights (f : Fleet σ) (i : Nat) : List Nat := ((f.schedulers[i]?).map (·.inFlight)).getD []

theorem registry_frames (f : Fleet σ) (i : Nat) :
    f.registry i = ((f.frames[i]?).map (·.entries)).getD [] := by
  unfold registry entriesOf frames
  rw [List.getElem?_map]
  cases f.schedulers[i]? <;> rfl

theorem isRunning_frames (f : Fleet σ) (i : Nat) :
    f.isRunning i = ((f.frames[i]?).map (·.running)).getD false := by
  unfold isRunning frames
  rw [List.getElem?_map]
  cases f.schedulers[i]? <;> rfl

theorem registry_congr (h : g.frames = f.frames) (i : Nat) : g.registry i = f.registry i := by
  rw [registry_frames, registry_frames, h]

theorem isRunning_congr (h : g.frames = f.frames) (i : Nat) : g.isRunning i = f.isRunning i := by
  rw [isRunning_frames, isRunning_frames, h]

/-- A change that leaves the frame of every scheduler alone changes no frame. -/
theorem frames_changeScheduler (i : Nat) {change : Scheduler → Scheduler}
    (h : ∀ s, (change s).frame = s.frame) :
    (f.changeScheduler i change).frames = f.frames := map_modify i h f.schedulers

/-- A change that leaves the ticks in flight alone is not seen in them. -/
theorem flights_changeScheduler (i j : Nat) (change : Scheduler → Scheduler)
    (h : ∀ s, (change s).inFlight = s.inFlight) :
    (f.changeScheduler j change).flights i = f.flights i := by
  unfold flights changeScheduler
  simp only [List.getElem?_modify]
  split
  · cases f.schedulers[i]? <;> simp [h]
  · simp

theorem flights_changeScheduler_ne (change : Scheduler → Scheduler) {j : Nat} (hne : i ≠ j) :
    (f.changeScheduler j change).flights i = f.flights i := by
  unfold flights changeScheduler
  rw [List.getElem?_modify_ne change f.schedulers (Ne.symm hne)]

/-! ## Turns -/

/-- The task with a number has had a turn: it goes on with an activity, or has ended. -/
structure Acts (n : Nat) (rest : Option Activity) (f g : Fleet σ) : Prop where
  does : ∀ m a, g.Does m a ↔ (m ≠ n ∧ f.Does m a) ∨ (m = n ∧ rest = some a)
  frames : g.frames = f.frames
  flights : ∀ i, g.flights i = f.flights i
  next : g.nextNumber = f.nextNumber
  ends : ∀ e ∈ g.ends, e ∈ f.ends ∨ (e.1 = n ∧ rest = none)

/-- A parked task acts, and goes on with what it is parked with. -/
theorem acts_park (t : Task) (a : Activity) (state : TaskState) :
    Acts t.number (some a) f (f.park t a state) where
  does := by
    intro m a'
    rw [does_park]
    simp [eq_comm]
  frames := rfl
  flights := fun _ => rfl
  next := rfl
  ends := fun _ he => .inl he

/-- A task that ends acts, and has nothing left to do. -/
theorem acts_finish (n : Nat) (taskEnd : TaskEnd) : Acts n none f (f.finish n taskEnd) where
  does := by
    intro m a
    rw [does_finish]
    simp
  frames := rfl
  flights := fun _ => rfl
  next := rfl
  ends := by
    intro e he
    rcases List.mem_append.1 he with hold | hnew
    · exact .inl hold
    · rw [List.mem_singleton.1 hnew]
      exact .inr ⟨rfl, rfl⟩

/-- What is the same in two fleets: what everyone does, who is registered, and what is in flight. -/
structure Alike (f g : Fleet σ) : Prop where
  does : ∀ m a, g.Does m a ↔ f.Does m a
  frames : g.frames = f.frames
  flights : ∀ i, g.flights i = f.flights i
  next : g.nextNumber = f.nextNumber
  ends : ∀ e ∈ g.ends, e ∈ f.ends

theorem Alike.refl (f : Fleet σ) :
    f.Alike f := ⟨fun _ _ => Iff.rfl, rfl, fun _ => rfl, rfl, fun _ he => he⟩

theorem Alike.trans {h : Fleet σ} (hfg : f.Alike g) (hgh : g.Alike h) : f.Alike h where
  does := fun m a => (hgh.does m a).trans (hfg.does m a)
  frames := hgh.frames.trans hfg.frames
  flights := fun i => (hgh.flights i).trans (hfg.flights i)
  next := hgh.next.trans hfg.next
  ends := fun e he => hfg.ends e (hgh.ends e he)

/-- The world can change without a difference. -/
theorem alike_changeWorld (change : World σ → World σ) : f.Alike (f.changeWorld change) :=
  ⟨fun _ _ => Iff.rfl, rfl, fun _ => rfl, rfl, fun _ he => he⟩

/-- Collecting the ends of tasks makes no difference to the tasks that go on. -/
theorem alike_collect (numbers : List Nat) : f.Alike (f.collect numbers).2 :=
  ⟨fun _ _ => Iff.rfl, rfl, fun _ => rfl, rfl, fun _ he => (List.mem_filter.1 he).1⟩

/-- An announcement makes no difference, since registries are compared without it. -/
theorem alike_announce (i serial : Nat) (next : Option Instant) :
    f.Alike (f.changeScheduler i (fun s =>
      { s with entries := Entry.announce serial next s.entries })) where
  does := fun _ _ => Iff.rfl
  frames := frames_changeScheduler i (fun s => by simp only [Scheduler.frame, Entry.plain_announce])
  flights := fun j => flights_changeScheduler j i _ (fun _ => rfl)
  next := rfl
  ends := fun _ he => he

/-- What makes no difference can come before a turn. -/
theorem Alike.acts {h : Fleet σ} {rest : Option Activity} (hfg : f.Alike g)
    (hgh : Acts n rest g h) :
    Acts n rest f h where
  does := by
    intro m a
    rw [hgh.does, hfg.does]
  frames := hgh.frames.trans hfg.frames
  flights := fun i => (hgh.flights i).trans (hfg.flights i)
  next := hgh.next.trans hfg.next
  ends := fun e he => (hgh.ends e he).imp_left (hfg.ends e)

/-- A piece of a run: the run goes on as far as it got. -/
theorem acts_afterRun (i : Nat) (c : Caller) (p : Progress) (w : World σ) :
    Acts t.number (p.run?.map (.run i · c)) f (f.afterRun t i c (p, w)) := by
  cases p with
  | going r => exact (alike_changeWorld (fun _ => w)).acts (acts_park t (.run i r c) .ready)
  | waiting moment r =>
    exact (alike_changeWorld (fun _ => w)).acts (acts_park t (.run i r c) (.sleeping moment))
  | ended outcome =>
    exact (alike_changeWorld (fun _ => logReply c outcome w)).acts
      (acts_finish t.number (.run outcome))

/-! ## Drivers -/

end Fleet

/-- What a driver goes on with after it has asked its trigger at an instant: unless it is to stop,
    or there is no answer, it waits for the answer. -/
def Driver.rest (d : Driver) (now : Instant) : Option Activity :=
  if d.stopping then none
  else (d.trigger.next? d.awaited now).map (fun next => .drive { d with awaited := some next })

/-- A driver that goes on is the same driver, and has an answer of its trigger. -/
theorem Driver.rest_eq_some {d : Driver} {now : Instant} {a : Activity} (h : d.rest now = some a) :
    d.stopping = false ∧ ∃ next, d.trigger.next? d.awaited now = some next ∧
      a = .drive { d with awaited := some next } := by
  unfold rest at h
  split at h
  · cases h
  · rename_i hgoes
    obtain ⟨next, hnext, rfl⟩ := Option.map_eq_some_iff.1 h
    exact ⟨by simpa using hgoes, next, hnext, rfl⟩

namespace Fleet

variable {σ : Type} {f g : Fleet σ} {n : Nat} {t : Task}

theorem acts_driveOn (t : Task) (d : Driver) :
    Acts t.number (d.rest f.world.now) f (f.driveOn t d) := by
  unfold driveOn Driver.rest
  cases hnext : d.trigger.next? d.awaited f.world.now with
  | none =>
    have hsame := (alike_announce (f := f) d.scheduler d.serial none).trans
      (alike_changeWorld (·.emit .info "Trigger has no further fire times"
        [("job_id", .str d.job.id)]))
    simpa using hsame.acts (acts_finish t.number .driverDone)
  | some next =>
    have hsame := (alike_announce (f := f) d.scheduler d.serial (some next)).trans
      (alike_changeWorld (·.emit .debug "Next tick scheduled"
        [("job_id", .str d.job.id), ("next_run_time", .str (Timestamp.display next))]))
    cases hstopping : d.stopping with
    | true =>
      have hstop := hsame.trans
        (alike_changeWorld (·.emit .debug "Shutdown signal received, stopping trigger"
        [("job_id", .str d.job.id)]))
      simpa [hstopping] using hstop.acts (acts_finish t.number .driverDone)
    | false =>
      simpa [hstopping] using hsame.acts (acts_park t (.drive { d with awaited := some next }) _)

/-- A tick of a scheduler has been started: it is in flight, with all that were and have not
    ended. -/
structure Spawns (i : Nat) (r : Run) (f g : Fleet σ) : Prop where
  does : ∀ m a, g.Does m a ↔ f.Does m a ∨ (m = f.nextNumber ∧ a = .run i r .timer)
  frames : g.frames = f.frames
  spawned : f.nextNumber ∈ g.flights i
  flying : ∀ m ∈ f.flights i, m ∈ g.flights i ∨ ∃ e ∈ f.ends, e.1 = m
  others : ∀ j, j ≠ i → g.flights j = f.flights j
  next : g.nextNumber = f.nextNumber + 1
  ends : ∀ e ∈ g.ends, e ∈ f.ends
  world : f.world.Still g.world

theorem flights_of_getElem? {i : Nat} {s : Scheduler} (h : f.schedulers[i]? = some s) :
    f.flights i = s.inFlight := by
  unfold flights
  rw [h]
  rfl

/-- Collecting the ticks of a scheduler that have ended changes nothing but what is in flight there,
    and what has ended. -/
structure Collects (i : Nat) (s : Scheduler) (f g : Fleet σ) : Prop where
  tasks : g.tasks = f.tasks
  frames : g.frames = f.frames
  others : ∀ j, j ≠ i → g.flights j = f.flights j
  flights : g.flights i =
    s.inFlight.filter (fun m =>
      !((f.ends.filter (fun e => s.inFlight.contains e.1)).map (·.1)).contains m)
  next : g.nextNumber = f.nextNumber
  ends : g.ends = f.ends.filter (fun e => !s.inFlight.contains e.1)
  world : f.world.Still g.world

theorem collects_collectTicks {i : Nat} {s : Scheduler} (hsched : f.schedulers[i]? = some s) :
    Collects i s f (f.collectTicks i) := by
  unfold collectTicks
  rw [hsched]
  refine ⟨rfl, ?_, ?_, ?_, rfl, rfl, still_logPanics _ _⟩
  · exact frames_changeScheduler (f := (f.collect s.inFlight).2) i (fun _ => rfl)
  · intro j hne
    exact flights_changeScheduler_ne (f := (f.collect s.inFlight).2) _ hne
  · show ((((f.collect s.inFlight).2.changeScheduler i _).schedulers[i]?).map
      (·.inFlight)).getD [] = _
    simp [changeScheduler, collect, hsched]

/-- A tick that was in flight and has not ended is not collected. -/
theorem Collects.flying {i : Nat} {s : Scheduler} (hsched : f.schedulers[i]? = some s)
    (h : Collects i s f g) {m : Nat} (hm : m ∈ f.flights i) :
    m ∈ g.flights i ∨ ∃ e ∈ f.ends, e.1 = m := by
  rw [flights_of_getElem? hsched] at hm
  by_cases hended : ∃ e ∈ f.ends, e.1 = m
  · exact .inr hended
  · rw [h.flights]
    refine .inl (List.mem_filter.2 ⟨hm, ?_⟩)
    simp only [Bool.not_eq_true', List.contains_eq_mem, decide_eq_false_iff_not,
      List.mem_map, List.mem_filter]
    intro hgone
    obtain ⟨e, ⟨he, -⟩, heq⟩ := hgone
    exact hended ⟨e, he, heq⟩

/-- A scheduler that exists is still there. -/
theorem exists_of_frames {i : Nat} {s : Scheduler} (h : g.frames = f.frames)
    (hsched : f.schedulers[i]? = some s) :
    ∃ s', g.schedulers[i]? = some s' := by
  have hlength : g.schedulers.length = f.schedulers.length := by
    simpa [Fleet.frames] using congrArg List.length h
  obtain ⟨hlt, -⟩ := List.getElem?_eq_some_iff.1 hsched
  exact ⟨_, List.getElem?_eq_getElem (hlength ▸ hlt)⟩

/-- Starting a tick puts its task in flight, in the timer's name. -/
theorem spawns_startTick {i : Nat} {s : Scheduler}
    (hsched : f.schedulers[i]? = some s) (job : Job) :
    Spawns i ⟨s.guard, job, .scheduled, .entering⟩ f (f.startTick i job) := by
  have hcollects := collects_collectTicks hsched
  -- a tick is a run that is added and then noted as in flight
  have hstart : f.startTick i job =
      ((f.collectTicks i).addTask (.run i ⟨s.guard, job, .scheduled, .entering⟩ .timer)
        false).changeScheduler i
        (fun s => { s with inFlight := s.inFlight ++ [f.nextNumber] }) := by
    unfold startTick
    rw [hsched]
  -- collecting comes first, so what has ended is not carried along
  have hflights : (f.startTick i job).flights i = (f.collectTicks i).flights i ++
      [f.nextNumber] := by
    obtain ⟨s', hs'⟩ := exists_of_frames hcollects.frames hsched
    rw [hstart, flights_of_getElem? hs']
    show ((((f.collectTicks i).schedulers.modify i _)[i]?).map (·.inFlight)).getD [] = _
    simp [hs']
  refine ⟨?_, ?_, ?_, ?_, ?_, ?_, ?_, ?_⟩
  · intro m a
    rw [hstart]
    show (Fleet.Does (addTask _ _ _) m a) ↔ _
    rw [does_addTask, hcollects.next]
    unfold Does
    rw [hcollects.tasks]
  · rw [hstart]
    refine Eq.trans (frames_changeScheduler i ?_) hcollects.frames
    exact fun _ => rfl
  · rw [hflights]
    exact List.mem_append_right _ List.mem_cons_self
  · intro m hm
    rw [hflights]
    exact (hcollects.flying hsched hm).imp_left (List.mem_append_left _)
  · intro j hne
    rw [hstart, flights_changeScheduler_ne _ hne]
    exact hcollects.others j hne
  · rw [hstart]
    show (f.collectTicks i).nextNumber + 1 = _
    rw [hcollects.next]
  · intro e he
    rw [hstart] at he
    have he : e ∈ (f.collectTicks i).ends := he
    rw [hcollects.ends] at he
    exact (List.mem_filter.1 he).1
  · rw [hstart]
    exact hcollects.world

/-- A driver has started a tick and goes on. -/
structure Fires (n : Nat) (d : Driver) (r : Run) (f g : Fleet σ) : Prop where
  does : ∀ m a, g.Does m a ↔ (m ≠ n ∧ f.Does m a) ∨ (m = n ∧ d.rest f.world.now = some a) ∨
    (m = f.nextNumber ∧ a = .run d.scheduler r .timer)
  frames : g.frames = f.frames
  spawned : f.nextNumber ∈ g.flights d.scheduler
  flying : ∀ m ∈ f.flights d.scheduler, m ∈ g.flights d.scheduler ∨ ∃ e ∈ f.ends, e.1 = m
  others : ∀ j, j ≠ d.scheduler → g.flights j = f.flights j
  next : g.nextNumber = f.nextNumber + 1
  ends : ∀ e ∈ g.ends, e ∈ f.ends ∨ (e.1 = n ∧ d.rest f.world.now = none)

/-- A driver that starts a tick and goes on fires. -/
theorem fires_driveOn {s : Scheduler} {d : Driver} (hsched : f.schedulers[d.scheduler]? = some s)
    (hbelow : t.number < f.nextNumber) :
    Fires t.number d ⟨s.guard, d.job, .scheduled,
      .entering⟩ f ((f.startTick d.scheduler d.job).driveOn t d) := by
  have hspawns := spawns_startTick hsched d.job
  have hacts := acts_driveOn (f := f.startTick d.scheduler d.job) t d
  rw [hspawns.world.now] at hacts
  refine ⟨?_, hacts.frames.trans hspawns.frames, ?_, ?_, ?_, hacts.next.trans hspawns.next, ?_⟩
  · intro m a
    rw [hacts.does, hspawns.does]
    constructor
    · rintro (⟨hne, hold | hnew⟩ | hrest)
      · exact .inl ⟨hne, hold⟩
      · exact .inr (.inr hnew)
      · exact .inr (.inl hrest)
    · rintro (⟨hne, hold⟩ | hrest | hnew)
      · exact .inl ⟨hne, .inl hold⟩
      · exact .inr hrest
      -- the new number is not that of the driver
      · exact .inl ⟨by omega, .inr hnew⟩
  · rw [hacts.flights]
    exact hspawns.spawned
  · intro m hm
    rw [hacts.flights]
    exact hspawns.flying m hm
  · intro j hne
    rw [hacts.flights, hspawns.others j hne]
  · intro e he
    exact (hacts.ends e he).imp_left (hspawns.ends e)

/-- A driver of a scheduler that does not exist starts nothing. -/
theorem startTick_of_none {i : Nat} (h : f.schedulers[i]? = none) (job : Job) :
    f.startTick i job = f := by
  unfold startTick
  rw [h]

/-- The turn of a driver. -/
inductive DriverTurn (n : Nat) (d : Driver) (f g : Fleet σ) : Prop
  /-- It cannot begin, since its declaration panics. -/
  | fails (hawaited : d.awaited = none) (hread : Run.unreadable d.job f.world = true)
    (hacts : Acts n none f g)
  /-- It begins, and asks its trigger for the first time. -/
  | begins (hawaited : d.awaited = none) (hread : Run.unreadable d.job f.world = false)
      (hacts : Acts n (d.rest f.world.now) f g)
  /-- It was told to stop. -/
  | stops (hstopping : d.stopping = true) (hacts : Acts n none f g)
  /-- It fires, and asks its trigger again; if it was told to stop, then only for a time that has
      come. -/
  | fires {r : Run} (hawaited : d.awaited ≠ none) (hdue : d.stopping = true → d.IsDue f.world)
    (hjob : r.job = d.job)
      (hfires : Fires n d r f g)
  /-- It has no scheduler to fire for. -/
  | stray (hawaited : d.awaited ≠ none) (hnone : f.schedulers[d.scheduler]? = none)
      (hacts : Acts n (d.rest f.world.now) f g)

/-- A driver whose fire time has come fires, if its scheduler exists. -/
theorem driverTurn_startTick (hbelow : t.number < f.nextNumber) {d : Driver}
    (hawaited : d.awaited ≠ none) (hdue : d.stopping = true → d.IsDue f.world) :
    DriverTurn t.number d f ((f.startTick d.scheduler d.job).driveOn t d) := by
  cases hsched : f.schedulers[d.scheduler]? with
  | none =>
    refine .stray hawaited hsched ?_
    rw [startTick_of_none hsched]
    exact acts_driveOn t d
  | some s => exact .fires hawaited hdue rfl (fires_driveOn hsched hbelow)

/-- Every turn of a driver is one of the kinds of `DriverTurn`. -/
theorem driverTurn_stepDriver (hbelow : t.number < f.nextNumber) (d : Driver) :
    DriverTurn t.number d f (f.stepDriver t d) := by
  unfold stepDriver
  cases hawaited : d.awaited with
  | none =>
    by_cases hread : Run.unreadable d.job f.world = true
    · refine .fails hawaited hread ?_
      rw [if_pos hread]
      exact acts_finish t.number .driverDone
    · refine .begins hawaited (by simpa using hread) ?_
      rw [if_neg hread]
      exact acts_driveOn t d
  | some x =>
    by_cases hstopping : d.stopping = true
    · refine .stops hstopping ?_
      simp only
      rw [if_pos hstopping]
      exact (alike_changeWorld _).acts (acts_finish t.number .driverDone)
    · simp only
      rw [if_neg hstopping]
      exact driverTurn_startTick hbelow (by simp [hawaited]) (fun h => absurd h hstopping)

/-! ## Shutdowns -/

/-- What a shutdown that waits for ticks goes on with: it waits for those that have not ended. -/
def stillWaits (f : Fleet σ) (d : Drain) (ticks : List Nat) : Option Activity :=
  if (ticks.filter f.isLive).isEmpty then none
    else some (.drain { d with phase := .ticks (ticks.filter f.isLive) })

/-- A shutdown that goes on waits for every tick that has not ended. -/
theorem stillWaits_eq_some {d : Drain} {ticks : List Nat} {a : Activity}
    (h : f.stillWaits d ticks = some a) :
    a = .drain { d with phase := .ticks (ticks.filter f.isLive) } := by
  unfold stillWaits at h
  split at h
  · cases h
  · cases h
    rfl

/-- A shutdown that does not wait any more has seen all its ticks end. -/
theorem stillWaits_eq_none {d : Drain} {ticks : List Nat} (h : f.stillWaits d ticks = none) :
    ∀ m ∈ ticks, ∀ a, ¬ f.Does m a := by
  unfold stillWaits at h
  split at h
  · rename_i hempty
    intro m hm a hdoes
    have hnone := List.filter_eq_nil_iff.1 (List.isEmpty_iff.1 hempty) m hm
    exact hnone (isLive_iff.2 ⟨a, hdoes⟩)
  · cases h

/-- A shutdown that waits for ticks goes on with those that have not ended. -/
theorem acts_stepTicks (t : Task) (d : Drain) (ticks : List Nat) :
    Acts t.number (f.stillWaits d ticks) f (f.stepTicks t d ticks) := by
  have hsame := (alike_collect (f := f) ticks).trans
    (alike_changeWorld (logPanics (f.collect ticks).1))
  have hlive : ((f.collect ticks).2.changeWorld (logPanics (f.collect ticks).1)).isLive =
      f.isLive := rfl
  unfold stepTicks stillWaits
  simp only [hlive]
  by_cases hempty : (ticks.filter f.isLive).isEmpty = true
  · rw [if_pos hempty, if_pos hempty]
    exact (hsame.trans (alike_changeWorld _)).acts (acts_finish t.number .stopped)
  · rw [if_neg hempty, if_neg hempty]
    exact hsame.acts (acts_park t _ .blocked)

/-- A shutdown whose drivers have ended takes over the ticks in flight, and waits for them or leaves
    them alone. -/
structure TakesOver (n : Nat) (d : Drain) (f g : Fleet σ) : Prop where
  does : ∀ m a, g.Does m a ↔ (m ≠ n ∧ f.Does m a) ∨
    (m = n ∧ (if d.waits then f.stillWaits d (f.flights d.scheduler) else none) = some a)
  frames : g.frames = f.frames
  others : ∀ j, j ≠ d.scheduler → g.flights j = f.flights j
  next : g.nextNumber = f.nextNumber
  ends : ∀ e ∈ g.ends, e ∈ f.ends ∨
    (e.1 = n ∧ (if d.waits then f.stillWaits d (f.flights d.scheduler) else none) = none)

/-- The turn of a shutdown. -/
inductive DrainTurn (n : Nat) (d : Drain) (f g : Fleet σ) : Prop
  /-- Some of the drivers have not ended. -/
  | waits {drivers : List Nat} (hphase : d.phase = .drivers drivers)
      (hacts : Acts n (some (.drain { d with phase := .drivers (drivers.filter f.isLive) })) f g)
  /-- The drivers have ended. -/
  | takes {drivers : List Nat} (hphase : d.phase = .drivers drivers) (hended : ∀ m ∈ drivers,
    ∀ a, ¬ f.Does m a)
      (htakes : TakesOver n d f g)
  /-- It waits for ticks already. -/
  | goesOn {ticks : List Nat} (hphase : d.phase = .ticks ticks) (hacts :
    Acts n (f.stillWaits d ticks) f g)

/-- Taking the ticks in flight away leaves the rest alone. -/
theorem takesOver_of_acts {d : Drain} {drivers : List Nat} {rest : Option Activity}
    (hacts : Acts n rest ((f.collect drivers).2.changeScheduler d.scheduler (fun s =>
      { s with inFlight := [] })) g)
    (hrest : rest = if d.waits then f.stillWaits d (f.flights d.scheduler) else none) :
      TakesOver n d f g := by
  subst hrest
  refine ⟨hacts.does, ?_, ?_, hacts.next, ?_⟩
  · rw [hacts.frames]
    exact frames_changeScheduler (f := (f.collect drivers).2) d.scheduler (fun _ => rfl)
  · intro j hne
    rw [hacts.flights]
    exact flights_changeScheduler_ne (f := (f.collect drivers).2) _ hne
  · exact fun e he => (hacts.ends e he).imp_left ((alike_collect drivers).ends e)

/-- Every turn of a shutdown is one of the kinds of `DrainTurn`. -/
theorem drainTurn_stepDrain (t : Task) (d : Drain) : DrainTurn t.number d f (f.stepDrain t d) := by
  unfold stepDrain
  cases hphase : d.phase with
  | ticks ticks => exact .goesOn hphase (acts_stepTicks t d ticks)
  | drivers drivers =>
    simp only
    by_cases hleft : (drivers.filter f.isLive).isEmpty = true
    · -- no driver is left: the ticks in flight are taken
      rw [if_neg (by simp [hleft])]
      have hended : ∀ m ∈ drivers, ∀ a, ¬ f.Does m a := by
        intro m hm a hdoes
        exact List.filter_eq_nil_iff.1 (List.isEmpty_iff.1 hleft) m hm (isLive_iff.2 ⟨a, hdoes⟩)
      refine .takes hphase hended ?_
      by_cases hwaits : d.waits = true
      · rw [if_pos hwaits]
        refine takesOver_of_acts ((alike_changeWorld _).acts (acts_stepTicks t d _)) ?_
        rw [if_pos hwaits]
        rfl
      · rw [if_neg hwaits]
        refine takesOver_of_acts
          (((alike_changeWorld _).trans (alike_collect _)).acts (acts_finish t.number .stopped)) ?_
        rw [if_neg hwaits]
    · rw [if_pos (by simpa using hleft)]
      exact .waits hphase (acts_park t _ .blocked)

/-- The turn of a shutdown leaves the other tasks alone. -/
theorem does_iff_of_drainTurn {d : Drain} (h : DrainTurn n d f g) (hne : m ≠ n) :
    g.Does m a ↔ f.Does m a := by
  cases h with
  | waits _ hacts => rw [hacts.does]; simp [hne]
  | takes _ _ htakes => rw [htakes.does]; simp [hne]
  | goesOn _ hacts => rw [hacts.does]; simp [hne]

/-- The turn of a shutdown makes nothing but a shutdown. -/
theorem does_of_drainTurn {d : Drain} (h : DrainTurn n d f g) (ha : g.Does m a)
    (hnot : ∀ d', a ≠ .drain d') : f.Does m a := by
  by_cases hm : m = n
  · subst hm
    have hwaits : ∀ ticks, f.stillWaits d ticks ≠ some a := fun ticks hsome =>
      hnot _ (stillWaits_eq_some hsome)
    cases h with
    | waits _ hacts =>
      obtain ⟨hne, -⟩ | ⟨-, hgoes⟩ := (hacts.does m a).1 ha
      · exact absurd rfl hne
      · exact absurd (Option.some.inj hgoes).symm (hnot _)
    | takes _ _ htakes =>
      obtain ⟨hne, -⟩ | ⟨-, hgoes⟩ := (htakes.does m a).1 ha
      · exact absurd rfl hne
      · split at hgoes
        · exact absurd hgoes (hwaits _)
        · cases hgoes
    | goesOn _ hacts =>
      obtain ⟨hne, -⟩ | ⟨-, hgoes⟩ := (hacts.does m a).1 ha
      · exact absurd rfl hne
      · exact absurd hgoes (hwaits _)
  · exact (does_iff_of_drainTurn h hm).1 ha

/-! ## What occurs without a request to the registry -/

/-- A task has been added. -/
structure Adds (a : Activity) (f g : Fleet σ) : Prop where
  does : ∀ m b, g.Does m b ↔ f.Does m b ∨ (m = f.nextNumber ∧ b = a)
  frames : g.frames = f.frames
  flights : ∀ i, g.flights i = f.flights i
  next : g.nextNumber = f.nextNumber + 1
  ends : g.ends = f.ends

theorem adds_addTask (a : Activity) (foreground : Bool) : Adds a f (f.addTask a foreground) where
  does := fun _ _ => does_addTask foreground
  frames := rfl
  flights := fun _ => rfl
  next := rfl
  ends := rfl

/-- What can occur while no scheduler is asked to change its registry, to start or to stop. -/
inductive Turns (f : Fleet FaultyStore) : Occurrence → Fleet FaultyStore → Prop
  /-- Time passes, something is logged, or nothing occurs. -/
  | rests {o : Occurrence} {g : Fleet FaultyStore} (h : f.Alike g) : Turns f o g
  /-- A run is asked for. -/
  | asks {o : Occurrence} {g : Fleet FaultyStore} {i : Nat} {r : Run} {c : Caller}
    (honest : c ≠ .timer)
      (h : Adds (.run i r c) f g) : Turns f o g
  | runs {o : Occurrence} {g : Fleet FaultyStore} {n i : Nat} {r : Run} {c : Caller} {p : Progress}
      (ho : o.plain = .turn n) (hdoes : f.Does n (.run i r c))
      (h : Acts n (p.run?.map (.run i · c)) f g) : Turns f o g
  | drives {o : Occurrence} {g : Fleet FaultyStore} {n : Nat} {d : Driver} (ho : o.plain = .turn n)
      (hdoes : f.Does n (.drive d)) (h : DriverTurn n d f g) : Turns f o g
  | drains {o : Occurrence} {g : Fleet FaultyStore} {n : Nat} {d : Drain} (ho : o.plain = .turn n)
      (hdoes : f.Does n (.drain d)) (h : DrainTurn n d f g) : Turns f o g

/-- A turn of a number is one of `Turns`, whether its task is there or not. -/
theorem turns_advance {f : Fleet FaultyStore} (hs : f.Sound) {n : Nat} {o : Occurrence}
    (ho : o.plain = .turn n) :
    f.Turns o (f.advance n) := by
  unfold advance
  cases hfound : f.task? n with
  | none => exact .rests (Alike.refl f)
  | some t =>
    obtain ⟨ht, rfl⟩ := task?_eq_some hfound
    have hdoes := does_of_mem ht
    cases hactivity : t.activity with
    | drive d =>
      rw [hactivity] at hdoes
      simp only [hactivity, stepTask]
      exact .drives ho hdoes (driverTurn_stepDriver (hs.below t ht) d)
    | drain d =>
      rw [hactivity] at hdoes
      simp only [hactivity, stepTask]
      exact .drains ho hdoes (drainTurn_stepDrain t d)
    | run i r c =>
      rw [hactivity] at hdoes
      simp only [hactivity]
      exact .runs ho hdoes (acts_afterRun i c _ _)
    -- nobody takes a lock without a run
    | acquire a => exact absurd hactivity (hs.plain t ht a)

/-- So is the choice of a driver to fire once more. -/
theorem turns_race {f : Fleet FaultyStore} (hs : f.Sound) (n : Nat) :
    f.Turns (.race n) (f.race n) := by
  unfold race
  cases hfound : f.task? n with
  | none => exact .rests (Alike.refl f)
  | some t =>
    obtain ⟨ht, rfl⟩ := task?_eq_some hfound
    have hdoes := does_of_mem ht
    cases hactivity : t.activity with
    | drive d =>
      rw [hactivity] at hdoes
      simp only [hactivity]
      split
      · rename_i hrace
        obtain ⟨-, hdue⟩ := hrace
        have hawaited : d.awaited ≠ none := by
          obtain ⟨instant, hsome, -⟩ := hdue
          simp [hsome]
        exact .drives rfl hdoes (driverTurn_startTick (hs.below t ht) hawaited (fun _ => hdue))
      · exact .rests (Alike.refl f)
    | _ =>
      simp only [hactivity]
      exact .rests (Alike.refl f)

/-- A run that is asked for is honest about who asks. -/
theorem turns_request {f : Fleet FaultyStore} {i : Nat} {id : String} {kind : RunKind}
    {caller : Caller} {foreground : Bool}
    (honest : (Move.request i id kind caller foreground).IsHonest) (o : Occurrence) :
    f.Turns o (f.request i id kind caller foreground) := by
  unfold request requested?
  cases f.schedulers[i]? with
  | none => exact .rests (Alike.refl f)
  | some s =>
    cases Entry.find? id (f.entriesOf i) with
    | none => exact .rests (Alike.refl f)
    | some e => exact .asks honest (adds_addTask _ foreground)

/-- Time that passes makes no difference to what tasks do. -/
theorem alike_passTo (moment : Nat) : f.Alike (f.passTo moment) :=
  ⟨fun _ _ => does_passTo moment, rfl, fun _ => rfl, rfl, fun _ he => he⟩

end Fleet

end JobFleet
