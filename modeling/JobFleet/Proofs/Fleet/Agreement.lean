/-
  JobFleet.Proofs.Fleet.Agreement: two fleets that are the same to the runs under one key.

  Two fleets agree on a key when they have the same clock, the same lease of the key, the same
  registries, the same drivers and the same runs under the key.  They may differ in everything else:
  other leases, other runs, shutdowns, the ledger, the counters and the log.  A step that concerns
  neither the key nor a driver leaves a fleet in agreement with what it was, and every other step
  keeps two fleets in agreement, so that the runs under the key go the same way in both.

  Main results:
    * `World.Agree.advance` — a run makes the same piece in two worlds that agree on its key.
    * `agree_advance` — the turn of a task that does not concern the key.
    * `Agree.occur` — whatever occurs keeps two fleets in agreement.
-/
import JobFleet.Proofs.Fleet.Effects

namespace JobFleet

open JobFleet.Schedule JobFleet.Time

/-! ## Worlds -/

/-- The clock, what fails and the lease of a key are the same in two worlds. -/
structure World.Agree (key : String) (w w' : World FaultyStore) : Prop where
  start : w'.start = w.start
  elapsed : w'.elapsed = w.elapsed
  locks : w.locks.Agree key w'.locks

namespace World.Agree

variable {key : String} {w w' w₁ w₂ : World FaultyStore} {r : Run}

theorem refl (key : String) (w : World FaultyStore) : w.Agree key w := ⟨rfl, rfl, rfl, rfl⟩

theorem symm (h : w.Agree key w') : w'.Agree key w :=
  ⟨h.start.symm, h.elapsed.symm, h.locks.failing.symm, h.locks.lookup.symm⟩

theorem trans (h : w.Agree key w₁) (h' : w₁.Agree key w₂) : w.Agree key w₂ where
  start := h'.start.trans h.start
  elapsed := h'.elapsed.trans h.elapsed
  locks := ⟨h'.locks.failing.trans h.locks.failing, h'.locks.lookup.trans h.locks.lookup⟩

/-- A step that leaves clock, locks and failures alone leaves a world in agreement with what it was,
    on every key. -/
theorem of_still (h : w.Still w') : w.Agree key w' := by
  refine ⟨h.start, h.elapsed, ?_, ?_⟩
  · rw [h.locks]
  · rw [h.locks]

/-- What is logged and counted afterwards makes no difference. -/
theorem still (h : w.Agree key w') (hw : w.Still w₁) (hw' : w'.Still w₂) : w₁.Agree key w₂ :=
  ((of_still hw).symm.trans h).trans (of_still hw')

theorem now (h : w.Agree key w') : w'.now = w.now := by
  unfold World.now
  rw [h.start, h.elapsed]

theorem isDue (h : w.Agree key w') (d : Driver) : d.IsDue w' ↔ d.IsDue w := by
  unfold Driver.IsDue World.momentOf
  rw [h.start, h.elapsed]

/-! ### Pieces of runs -/

/-- Worlds that agree on the key of a run answer its attempt alike, and agree afterwards. -/
theorem ask (h : w.Agree r.key w') :
    (r.ask w').1 = (r.ask w).1 ∧ (r.ask w).2.Agree r.key (r.ask w').2 := by
  unfold Run.ask
  rw [h.elapsed]
  exact h.locks.setIfAbsent _ _ _

/-- Worlds that agree on the key of a run release its lock alike, and agree afterwards. -/
theorem giveBack (h : w.Agree r.key w') :
    (r.giveBack w').1 = (r.giveBack w).1 ∧ (r.giveBack w).2.Agree r.key (r.giveBack w').2 := by
  unfold Run.giveBack
  rw [h.elapsed]
  exact h.locks.compareAndDelete _ _

/-- Worlds that agree on the key of a run let it go on alike after an attempt. -/
theorem attempt (h : w.Agree r.key w') (deadline : Option Nat) (number : Nat) :
    (r.attempt deadline number w').1 = (r.attempt deadline number w).1 ∧
      (r.attempt deadline number w).2.Agree r.key (r.attempt deadline number w').2 := by
  obtain ⟨hanswer, hlocks⟩ := h.ask
  unfold Run.attempt
  rw [Run.attempt_judge, Run.attempt_judge, hanswer]
  cases (r.ask w).1 with
  | error e => exact ⟨rfl, h.start, h.elapsed, hlocks⟩
  | ok yes =>
    cases yes with
    | true =>
      refine ⟨?_, h.start, h.elapsed, hlocks⟩
      show Progress.going { r with phase := .holding w'.elapsed } =
        .going { r with phase := .holding w.elapsed }
      rw [h.elapsed]
    | false =>
      -- whether there is time for another attempt is a matter of the clock
      have helapsed : (w'.setIfAbsent r.key r.guard.lock.holder
        (Lock.wholeSeconds (r.guard.ttlOf r.job))).2.elapsed =
          (w.setIfAbsent r.key r.guard.lock.holder
            (Lock.wholeSeconds (r.guard.ttlOf r.job))).2.elapsed := h.elapsed
      rw [Lock.judge_no, Lock.judge_no, helapsed]
      cases r.guard.lock.retryAt? deadline
          (w.setIfAbsent r.key r.guard.lock.holder
            (Lock.wholeSeconds (r.guard.ttlOf r.job))).2.elapsed with
      | none => exact ⟨rfl, h.start, h.elapsed, hlocks⟩
      | some moment => exact ⟨rfl, h.start, h.elapsed, hlocks⟩

/-- **The same piece.**  A run gets as far in one world as in the other, and the worlds agree again:
    its lock is taken, refused or given back in both.  What its job says must be the same. -/
theorem advance (h : w.Agree r.key w') (hread : Run.unreadable r.job w' = Run.unreadable r.job w)
    (hbody : ∀ since, r.phase = .holding since →
      (Execution.begin r.job w').1 = (Execution.begin r.job w).1) :
    (r.advance w').1 = (r.advance w).1 ∧ (r.advance w).2.Agree r.key (r.advance w').2 := by
  unfold Run.advance
  cases hphase : r.phase with
  | entering =>
    simp only [hread, h.elapsed]
    split
    · exact ⟨rfl, h⟩
    · exact h.attempt _ _
  | polling deadline attempts => exact h.attempt _ _
  | holding since =>
    have hbegin := hbody since hphase
    have hafter : (Execution.begin r.job w).2.Agree r.key (Execution.begin r.job w').2 :=
      h.still (Execution.still_begin rfl) (Execution.still_begin rfl)
    simp only [Run.begin, hread]
    split
    · exact ⟨rfl, h⟩
    · refine ⟨?_, hafter⟩
      rw [hbegin, hafter.elapsed]
  | executing since x =>
    exact ⟨rfl, h.still (x.still_finish r.job r.guard.sink w)
      (x.still_finish r.job r.guard.sink w')⟩
  | releasing since result =>
    obtain ⟨-, hlocks⟩ := h.giveBack
    have hcalled : World.Agree r.key { w with locks := (r.giveBack w).2 }
        { w' with locks := (r.giveBack w').2 } :=
      ⟨h.start, h.elapsed, hlocks⟩
    have hreleased := hcalled.still (Run.still_release r w).1 (Run.still_release r w').1
    cases result with
    | none => exact ⟨rfl, hreleased.still ⟨rfl, rfl, rfl⟩ ⟨rfl, rfl, rfl⟩⟩
    | some result => exact ⟨rfl, hreleased⟩

/-- A piece of a run under another key does not concern the key. -/
theorem of_advances {p : Progress} (h : r.Advances w p w') (hne : key ≠ r.key) :
    w.Agree key w' := by
  obtain ⟨helapsed, hstart⟩ := h.clock
  refine ⟨hstart, helapsed, ?_⟩
  rcases h.locks with hsame | ⟨hask, -⟩ | ⟨hgive, -⟩
  · rw [hsame]
    exact ⟨rfl, rfl⟩
  · rw [hask]
    exact FaultyStore.Agree.of_setIfAbsent hne _ _ _ _
  · rw [hgive]
    exact FaultyStore.Agree.of_compareAndDelete hne _ _ _

end World.Agree

/-! ## Fleets -/

/-- A scheduler without the ticks that were started. -/
def Scheduler.landed (s : Scheduler) : Scheduler := { s with inFlight := [] }

/-- The runs under a key, and the drivers, which start them. -/
def Activity.Concerns (key : String) : Activity → Prop
  | .drive _ => True
  | .run _ r _ => r.key = key
  | .acquire _ => False
  | .drain _ => False

namespace Fleet

/-- The schedulers without the ticks that were started. -/
def landed (f : Fleet FaultyStore) : List Scheduler := f.schedulers.map Scheduler.landed

/-- Two fleets are the same to the runs under a key. -/
structure Agree (key : String) (f g : Fleet FaultyStore) : Prop where
  world : f.world.Agree key g.world
  landed : g.landed = f.landed
  next : g.nextNumber = f.nextNumber
  does : ∀ n a, a.Concerns key → (g.Does n a ↔ f.Does n a)

variable {key : String} {f g f' g' : Fleet FaultyStore} {n i : Nat} {a : Activity} {t t' : Task}

namespace Agree

theorem refl (key : String) (f : Fleet FaultyStore) : f.Agree key f :=
  ⟨World.Agree.refl key _, rfl, rfl, fun _ _ _ => Iff.rfl⟩

theorem symm (h : f.Agree key g) : g.Agree key f :=
  ⟨h.world.symm, h.landed.symm, h.next.symm, fun n a ha => (h.does n a ha).symm⟩

theorem trans {h : Fleet FaultyStore} (hfg : f.Agree key g) (hgh : g.Agree key h) :
    f.Agree key h where
  world := hfg.world.trans hgh.world
  landed := hgh.landed.trans hfg.landed
  next := hgh.next.trans hfg.next
  does := fun n a ha => (hgh.does n a ha).trans (hfg.does n a ha)

/-- Steps that do not concern the key can be made on both sides. -/
theorem congr (h : f.Agree key g) (hf : f.Agree key f') (hg : g.Agree key g') : f'.Agree key g' :=
  (hf.symm.trans h).trans hg

/-! ### What is read off the schedulers -/

/-- A scheduler of one fleet is that of the other, up to the ticks that were started. -/
theorem scheduler (h : f.Agree key g) (i : Nat) :
    ∃ flights, g.schedulers[i]? =
      (f.schedulers[i]?).map (fun s => { s with inFlight := flights }) := by
  have hlanded : g.landed[i]? = f.landed[i]? := by rw [h.landed]
  unfold Fleet.landed at hlanded
  rw [List.getElem?_map, List.getElem?_map] at hlanded
  cases hf : f.schedulers[i]? with
  | none =>
    rw [hf, Option.map_none, Option.map_eq_none_iff] at hlanded
    exact ⟨[], hlanded⟩
  | some s =>
    rw [hf, Option.map_some, Option.map_eq_some_iff] at hlanded
    obtain ⟨⟨config, lock, sink, running, entries, flights⟩, hg, hsame⟩ := hlanded
    refine ⟨flights, ?_⟩
    rw [hg, Option.map_some]
    simp only [Scheduler.landed, Scheduler.mk.injEq] at hsame
    obtain ⟨rfl, rfl, rfl, rfl, rfl, -⟩ := hsame
    rfl

/-- Fleets that agree have the same registries, down to what their entries show. -/
theorem entriesOf (h : f.Agree key g) (i : Nat) : g.entriesOf i = f.entriesOf i := by
  obtain ⟨flights, hsched⟩ := h.scheduler i
  unfold Fleet.entriesOf
  rw [hsched]
  cases f.schedulers[i]? <;> rfl

/-- Fleets that agree run the same schedulers. -/
theorem isRunning (h : f.Agree key g) (i : Nat) : g.isRunning i = f.isRunning i := by
  obtain ⟨flights, hsched⟩ := h.scheduler i
  unfold Fleet.isRunning
  rw [hsched]
  cases f.schedulers[i]? <;> rfl

/-- Fleets that agree grant the same requests. -/
theorem requested? (h : f.Agree key g) (i : Nat) (id : String) (kind : RunKind) (c : Caller) :
    g.requested? i id kind c = f.requested? i id kind c := by
  obtain ⟨flights, hsched⟩ := h.scheduler i
  unfold Fleet.requested?
  rw [hsched, h.entriesOf]
  cases f.schedulers[i]? with
  | none => rfl
  | some s => cases Entry.find? id (f.entriesOf i) <;> rfl

/-! ### Parts of steps -/

/-- The worlds of two fleets may be replaced by worlds that agree. -/
theorem withWorld (h : f.Agree key g) {w w' : World FaultyStore} (hw : w.Agree key w') :
    Fleet.Agree key { f with world := w } { g with world := w' } := ⟨hw, h.landed, h.next, h.does⟩

/-- The worlds of two fleets may be changed in different ways that leave clock and locks alone. -/
theorem changeWorld (h : f.Agree key g) {change change' : World FaultyStore → World FaultyStore}
    (hf : f.world.Still (change f.world)) (hg : g.world.Still (change' g.world)) :
    (f.changeWorld change).Agree key (g.changeWorld change') := h.withWorld (h.world.still hf hg)

/-- What the log says may differ. -/
theorem emit (h : f.Agree key g) (severity : Severity) (message : String)
    (fields fields' : List (String × Json)) :
    (f.changeWorld (·.emit severity message fields)).Agree key
      (g.changeWorld (·.emit severity message fields')) :=
  h.changeWorld (World.still_emit _ _ _ _) (World.still_emit _ _ _ _)

/-- A change that does not look at the ticks that were started is the same change on both sides. -/
theorem changeScheduler (h : f.Agree key g) (i : Nat) {change : Scheduler → Scheduler}
    (hchange : ∀ s, (change s).landed = (change s.landed).landed) :
    (f.changeScheduler i change).Agree key (g.changeScheduler i change) := by
  have hmodify : ∀ schedulers : List Scheduler, (schedulers.modify i change).map Scheduler.landed =
      ((schedulers.map Scheduler.landed).modify i change).map Scheduler.landed := by
    intro schedulers
    refine List.ext_getElem? (fun j => ?_)
    simp only [List.getElem?_map, List.getElem?_modify]
    cases schedulers[j]? with
    | none => rfl
    | some s =>
      by_cases hj : i = j
      · simp [hj, hchange s]
      · simp [hj, Scheduler.landed]
  refine ⟨h.world, ?_, h.next, h.does⟩
  show (g.schedulers.modify i change).map Scheduler.landed =
    (f.schedulers.modify i change).map Scheduler.landed
  rw [hmodify g.schedulers, hmodify f.schedulers]
  exact congrArg (fun schedulers => (schedulers.modify i change).map Scheduler.landed) h.landed

theorem changeEntries (h : f.Agree key g) (i : Nat) (change : List Entry → List Entry) :
    (f.changeEntries i change).Agree key (g.changeEntries i change) :=
  h.changeScheduler i (fun _ => rfl)

theorem dropTask (h : f.Agree key g) (n : Nat) : (f.dropTask n).Agree key (g.dropTask n) := by
  refine ⟨h.world, h.landed, h.next, ?_⟩
  intro m a ha
  rw [does_dropTask, does_dropTask, h.does m a ha]

/-- A task added to both has the same number in both. -/
theorem addTask (h : f.Agree key g) (a : Activity) (foreground : Bool) :
    (f.addTask a foreground).Agree key (g.addTask a foreground) := by
  refine ⟨h.world, h.landed, congrArg (· + 1) h.next, ?_⟩
  intro m b hb
  rw [does_addTask, does_addTask, h.does m b hb, h.next]

/-- Parking a task with the same activity in both keeps two fleets in agreement, whatever each waits
    for. -/
theorem park (h : f.Agree key g) (hnumber : t'.number = t.number) (a : Activity)
    (state state' : TaskState) :
    (f.park t a state).Agree key (g.park t' a state') := by
  refine ⟨h.world, h.landed, h.next, ?_⟩
  intro m b hb
  rw [does_park, does_park, h.does m b hb, hnumber]

theorem finish (h : f.Agree key g) (n : Nat) (taskEnd : TaskEnd) :
    (f.finish n taskEnd).Agree key (g.finish n taskEnd) := by
  refine ⟨h.world, h.landed, h.next, ?_⟩
  intro m b hb
  rw [does_finish, does_finish, h.does m b hb]

end Agree

/-! ## Steps that do not concern the key -/

/-- The turn of a task that does not concern the key before or after. -/
theorem agree_of_acts {rest : Option Activity} (hacts : Acts n rest f g)
    (hworld : f.world.Agree key g.world) (hlanded : g.landed = f.landed)
    (hbefore : ∀ a, f.Does n a → ¬ a.Concerns key)
    (hafter : ∀ a, rest = some a → ¬ a.Concerns key) : f.Agree key g := by
  refine ⟨hworld, hlanded, hacts.next, ?_⟩
  intro m a ha
  rw [hacts.does]
  constructor
  · intro hdoes
    rcases hdoes with ⟨-, hold⟩ | ⟨-, hrest⟩
    · exact hold
    · exact absurd ha (hafter a hrest)
  · intro hold
    refine .inl ⟨?_, hold⟩
    intro hm
    subst hm
    exact hbefore a hold ha

/-- The ticks in flight are not compared. -/
theorem landed_changeFlights (f : Fleet FaultyStore) (i : Nat) (change : List Nat → List Nat) :
    (f.changeScheduler i (fun s => { s with inFlight := change s.inFlight })).landed =
      f.landed := by
  refine map_modify i ?_ f.schedulers
  intro s
  rfl

theorem agree_collectTicks (f : Fleet FaultyStore) (i : Nat) : f.Agree key (f.collectTicks i) := by
  unfold collectTicks
  cases f.schedulers[i]? with
  | none => exact Agree.refl key f
  | some s =>
    exact ⟨.of_still (still_logPanics _ _), landed_changeFlights _ i _, rfl, fun _ _ _ => Iff.rfl⟩

/-- A shutdown that waits for ticks changes no scheduler, but for the ticks in flight. -/
theorem landed_stepTicks (t : Task) (d : Drain) (ticks : List Nat) :
    (f.stepTicks t d ticks).landed = f.landed := by
  unfold stepTicks
  simp only
  split <;> rfl

theorem landed_stepDrain (t : Task) (d : Drain) : (f.stepDrain t d).landed = f.landed := by
  unfold stepDrain
  cases d.phase with
  | ticks ticks => exact landed_stepTicks t d ticks
  | drivers drivers =>
    simp only
    split
    · rfl
    · -- the ticks in flight are taken, and nothing else of the scheduler
      have htaken := landed_changeFlights (f.collect drivers).2 d.scheduler (fun _ => [])
      split
      · rw [landed_stepTicks]
        exact htaken
      · exact htaken

/-- The turn of a shutdown concerns no key. -/
theorem agree_stepDrain (hs : f.Sound) (ht : t ∈ f.tasks) {d : Drain}
    (hactivity : t.activity = .drain d) :
    f.Agree key (f.stepDrain t d) := by
  have hturn := drainTurn_stepDrain (f := f) t d
  have hcalm := calm_stepDrain hs (hs.runless ht (Task.run?_of_idle (by rw [hactivity]; rfl))) d
  have hdoes : f.Does t.number (.drain d) := ⟨t, ht, rfl, hactivity⟩
  refine ⟨.of_still hcalm.still, landed_stepDrain t d, ?_, ?_⟩
  · cases hturn with
    | waits _ hacts => exact hacts.next
    | takes _ _ htakes => exact htakes.next
    | goesOn _ hacts => exact hacts.next
  · intro m a ha
    by_cases hm : m = t.number
    · subst hm
      constructor
      · intro hafter
        exact does_of_drainTurn hturn hafter (fun d' hdrain => by rw [hdrain] at ha; exact ha)
      · intro hbefore
        rw [hs.does_unique hbefore hdoes] at ha
        exact ha.elim
    · exact does_iff_of_drainTurn hturn hm

/-- A task is found under its number. -/
theorem Sound.exists_task? (hs : f.Sound) (h : f.Does n a) :
    ∃ t, f.task? n = some t ∧ t ∈ f.tasks ∧ t.number = n ∧ t.activity = a := by
  obtain ⟨t, ht, rfl, rfl⟩ := h
  exact ⟨t, hs.task?_eq ht, ht, rfl, rfl⟩

/-- The turn of a task that does not concern the key. -/
theorem agree_advance (hs : f.Sound) (hnot : ∀ a, f.Does n a → ¬ a.Concerns key) :
    f.Agree key (f.advance n) := by
  unfold advance
  cases hfound : f.task? n with
  | none => exact Agree.refl key f
  | some t =>
    obtain ⟨ht, rfl⟩ := task?_eq_some hfound
    have hother := hnot t.activity (does_of_mem ht)
    cases hactivity : t.activity with
    | drive d =>
      rw [hactivity] at hother
      exact absurd trivial hother
    | drain d =>
      simp only [hactivity, stepTask]
      exact agree_stepDrain hs ht hactivity
    | run i r c =>
      rw [hactivity] at hother
      have hne : key ≠ r.key := fun hkey => hother hkey.symm
      have hadvances := r.advances f.world
      simp only [hactivity]
      refine agree_of_acts (acts_afterRun i c _ _) ?_ ?_ hnot ?_
      · exact (World.Agree.of_advances hadvances hne).trans (.of_still (still_afterRun hs))
      · rcases (r.advance f.world) with ⟨p, w⟩
        cases p <;> rfl
      · intro a hrest
        obtain ⟨r', hr', rfl⟩ := Option.map_eq_some_iff.1 hrest
        show ¬ r'.key = key
        rw [(hadvances.same hr').key]
        exact hother
    -- nobody takes a lock without a run
    | acquire a => exact absurd hactivity (hs.plain t ht a)

/-! ## Steps that are made in both fleets -/

/-- What a job says and does is the same in both fleets wherever it matters: each declaration can be
    read in both or in neither, and a body that begins lasts as long in both and ends in the same
    way. -/
structure Unaffected (f g : Fleet FaultyStore) : Prop where
  drivers : ∀ n d, f.Does n (.drive d) → g.Does n (.drive d) →
    Run.unreadable d.job g.world = Run.unreadable d.job f.world
  runs : ∀ n i r c, f.Does n (.run i r c) → g.Does n (.run i r c) →
    Run.unreadable r.job g.world = Run.unreadable r.job f.world ∧
      ∀ since, r.phase = .holding since → (Execution.begin r.job g.world).1 =
        (Execution.begin r.job f.world).1

namespace Agree

/-! ### Requests -/

/-- Time passes alike in fleets that agree. -/
theorem passTo (h : f.Agree key g) (moment : Nat) :
    (f.passTo moment).Agree key (g.passTo moment) := by
  refine ⟨⟨h.world.start, ?_, h.world.locks⟩, h.landed, h.next, ?_⟩
  · show max g.world.elapsed moment = max f.world.elapsed moment
    rw [h.world.elapsed]
  · intro n a ha
    rw [does_passTo, does_passTo, h.does n a ha]

/-- A request starts the same run in fleets that agree, or none. -/
theorem request (h : f.Agree key g) (i : Nat) (id : String) (kind : RunKind) (c : Caller)
    (foreground : Bool) :
    (f.request i id kind c foreground).Agree key (g.request i id kind c foreground) := by
  unfold Fleet.request
  rw [h.requested?]
  cases f.requested? i id kind c with
  | none => exact h
  | some activity => exact h.addTask activity foreground

/-- An entry names the same driver in both, and it is dropped in both. -/
theorem abortDriver (h : f.Agree key g) (e : Entry) :
    (f.abortDriver e).Agree key (g.abortDriver e) := by
  unfold Fleet.abortDriver
  cases e.driver with
  | none => exact h
  | some number => exact h.dropTask number

/-- A driver is started under the same number. -/
theorem startDriver (h : f.Agree key g) (i : Nat) (e : Entry) :
    (g.startDriver i e).1 = (f.startDriver i e).1 ∧
    (f.startDriver i e).2.Agree key (g.startDriver i e).2 := by
  refine ⟨?_, h.addTask _ false⟩
  show { e with driver := some g.nextNumber } = { e with driver := some f.nextNumber }
  rw [h.next]

/-- A driver that is started if its scheduler runs gets the same number in both. -/
theorem startDriver_if (h : f.Agree key g) (i : Nat) (starts : Bool) (e : Entry) :
    (if starts then g.startDriver i e else (e, g)).1 =
      (if starts then f.startDriver i e else (e, f)).1 ∧
      Agree key (if starts then f.startDriver i e else (e, f)).2 (if starts then g.startDriver i e
        else (e, g)).2 := by
  cases starts with
  | true => exact h.startDriver i e
  | false => exact ⟨rfl, h⟩

theorem showRegistered (h : f.Agree key g) (i : Nat) :
    (f.showRegistered i).Agree key (g.showRegistered i) :=
  h.changeWorld (World.still_measure _ _) (World.still_measure _ _)

/-- Entering the same entry keeps two fleets in agreement. -/
theorem enter (h : f.Agree key g) (i : Nat) (e : Entry) :
    (f.enter i e).Agree key (g.enter i e) := by
  have hinsert := h.changeEntries i (Entry.insert e)
  unfold Fleet.enter
  rw [h.entriesOf]
  cases Entry.find? e.id (f.entriesOf i) with
  | none => exact hinsert
  | some old => exact (hinsert.abortDriver old).emit _ _ _ _

/-- A new entry has the same serial number. -/
theorem freshEntry (h : f.Agree key g) (job : Job) (trigger : Trigger) :
    (g.freshEntry job trigger).1 = (f.freshEntry job trigger).1 ∧
      (f.freshEntry job trigger).2.Agree key (g.freshEntry job trigger).2 := by
  refine ⟨?_, h.world, h.landed, congrArg (· + 1) h.next, h.does⟩
  show ({ serial := g.nextNumber, job := job, trigger := trigger } : Entry) =
    { serial := f.nextNumber, job, trigger }
  rw [h.next]

/-- Registering a job is answered alike and keeps two fleets in agreement. -/
theorem register (h : f.Agree key g) (i : Nat) (job : Job) :
    (g.register i job).1 = (f.register i job).1 ∧
    (f.register i job).2.Agree key (g.register i job).2 := by
  obtain ⟨flights, hsched⟩ := h.scheduler i
  unfold Fleet.register
  rw [hsched]
  cases f.schedulers[i]? with
  | none => exact ⟨rfl, h⟩
  | some s =>
    simp only [Option.map_some]
    split
    · exact ⟨rfl, h.emit _ _ _ _⟩
    · cases job.definition.trigger s.config.zone with
      | error e => exact ⟨rfl, h⟩
      | ok trigger =>
        obtain ⟨hentry, hfresh⟩ := h.freshEntry job trigger
        obtain ⟨hdriven, hstarted⟩ := hfresh.startDriver_if i s.running (f.freshEntry job trigger).1
        simp only [hentry, hdriven]
        exact ⟨trivial, ((hstarted.enter i _).showRegistered i).emit _ _ _ _⟩

theorem registerAll (h : f.Agree key g) (i : Nat) (jobs : List Job) :
    (f.registerAll i jobs).2.Agree key (g.registerAll i jobs).2 := by
  induction jobs generalizing f g with
  | nil => exact h
  | cons job rest ih =>
    obtain ⟨hanswer, hregistered⟩ := h.register i job
    unfold Fleet.registerAll
    rcases hf : f.register i job with ⟨answer, f₁⟩
    rcases hg : g.register i job with ⟨answer', g₁⟩
    rw [hf, hg] at hanswer hregistered
    cases hanswer
    cases answer with
    | ok registered => exact ih hregistered
    | error e => exact ih (hregistered.emit _ _ _ _)

/-- Entries are given drivers of the same numbers in both. -/
theorem startDrivers (h : f.Agree key g) (i : Nat) (entries : List Entry) :
    (g.startDrivers i entries).1 = (f.startDrivers i entries).1 ∧
      (f.startDrivers i entries).2.Agree key (g.startDrivers i entries).2 := by
  induction entries generalizing f g with
  | nil => exact ⟨rfl, h⟩
  | cons e rest ih =>
    have hfirst : (if e.paused then (e, g) else g.startDriver i e).1 =
      (if e.paused then (e, f) else f.startDriver i e).1 ∧
        Agree key (if e.paused then (e, f) else f.startDriver i e).2 (if e.paused then (e, g)
          else g.startDriver i e).2 := by
      split
      · exact ⟨rfl, h⟩
      · exact h.startDriver i e
    rcases hf : (if e.paused then (e, f) else f.startDriver i e) with ⟨entry, f₁⟩
    rcases hg : (if e.paused then (e, g) else g.startDriver i e) with ⟨entry', g₁⟩
    rw [hf, hg] at hfirst
    obtain ⟨rfl, hstarted⟩ := hfirst
    obtain ⟨hrest, hall⟩ := ih hstarted
    rw [startDrivers_cons f i e rest hf, startDrivers_cons g i e rest hg]
    exact ⟨congrArg (entry' :: ·) hrest, hall⟩

/-- Starting the same scheduler keeps two fleets in agreement. -/
theorem start (h : f.Agree key g) (i : Nat) : (f.start i).Agree key (g.start i) := by
  unfold Fleet.start
  rw [h.isRunning, h.entriesOf]
  split
  · exact h.emit _ _ _ _
  · obtain ⟨hentries, hstarted⟩ := h.startDrivers i (f.entriesOf i)
    simp only [hentries]
    exact (hstarted.changeScheduler i (fun _ => rfl)).emit _ _ _ _

theorem pause (h : f.Agree key g) (i : Nat) (id : String) :
    (f.pause i id).2.Agree key (g.pause i id).2 := by
  unfold Fleet.pause
  rw [h.entriesOf]
  cases Entry.find? id (f.entriesOf i) with
  | none => exact h
  | some e => exact ((h.abortDriver e).changeEntries i _).emit _ _ _ _

theorem resume (h : f.Agree key g) (i : Nat) (id : String) :
    (f.resume i id).2.Agree key (g.resume i id).2 := by
  unfold Fleet.resume
  rw [h.entriesOf, h.isRunning]
  cases Entry.find? id (f.entriesOf i) with
  | none => exact h
  | some e =>
    obtain ⟨hentry, hstarted⟩ :=
      h.startDriver_if i (f.isRunning i && e.driver.isNone) { e with paused := false }
    simp only [hentry]
    exact (hstarted.changeEntries i _).emit _ _ _ _

theorem remove (h : f.Agree key g) (i : Nat) (id : String) :
    (f.remove i id).2.Agree key (g.remove i id).2 := by
  unfold Fleet.remove
  rw [h.entriesOf]
  cases Entry.find? id (f.entriesOf i) with
  | none => exact h
  | some e => exact (((h.changeEntries i _).abortDriver e).showRegistered i).emit _ _ _ _

/-! ### Shutdowns -/

/-- Telling drivers to stop concerns drivers only, and makes drivers of drivers. -/
theorem signalDrivers (h : f.Agree key g) (i : Nat) :
    (f.signalDrivers i).Agree key (g.signalDrivers i) := by
  have hconcerns : ∀ b : Activity, (b.told i).Concerns key → b.Concerns key := by
    intro b hb
    cases b with
    | drive d => trivial
    | _ => exact hb
  refine ⟨h.world, h.landed, h.next, ?_⟩
  intro n a ha
  rw [does_signalDrivers, does_signalDrivers]
  constructor
  · intro hdoes
    obtain ⟨b, hb, rfl⟩ := hdoes
    exact ⟨b, (h.does n b (hconcerns b ha)).1 hb, rfl⟩
  · intro hdoes
    obtain ⟨b, hb, rfl⟩ := hdoes
    exact ⟨b, (h.does n b (hconcerns b ha)).2 hb, rfl⟩

/-- Telling the drivers of a scheduler to stop keeps two fleets in agreement. -/
theorem halted (h : f.Agree key g) (i : Nat) (waits foreground : Bool) :
    (f.halted i waits foreground).Agree key (g.halted i waits foreground) := by
  have hdrivers : g.driversOf i = f.driversOf i := by
    unfold driversOf
    rw [h.entriesOf]
  unfold Fleet.halted
  rw [hdrivers]
  exact ((h.changeScheduler i (fun _ => rfl)).signalDrivers i).addTask _ foreground

/-- A shutdown keeps two fleets in agreement, whatever ticks it finds in flight in each. -/
theorem shutdown (hf : f.Sound) (hg : g.Sound) (h : f.Agree key g) (i : Nat)
    (waits foreground : Bool) :
    (f.shutdown i waits foreground).2.Agree key (g.shutdown i waits foreground).2 := by
  unfold Fleet.shutdown
  rw [h.isRunning]
  by_cases hruns : f.isRunning i = true
  · -- the drivers are told in both, and the first turn of the shutdown concerns no key
    have hfirst : ∀ f : Fleet FaultyStore, f.Sound → (f.halted i waits foreground).Agree key
        ((f.halted i waits foreground).step f.nextNumber) := by
      intro f hs
      have hhalted := sound_halted hs i waits foreground
      have hdoes : (f.halted i waits foreground).Does f.nextNumber
          (.drain ⟨i, waits, .drivers (f.driversOf i)⟩) :=
        (does_addTask foreground).2 (.inr ⟨rfl, rfl⟩)
      obtain ⟨t, hfound, ht, -, hactivity⟩ := hhalted.exists_task? hdoes
      unfold step
      rw [hfound]
      simp only [stepTask, hactivity]
      exact agree_stepDrain hhalted ht hactivity
    simp only [hruns]
    exact (h.halted i waits foreground).congr (hfirst f hf) (hfirst g hg)
  · simp only [hruns]
    exact h.emit _ _ _ _

/-! ### Turns -/

/-- A driver asks the same trigger at the same time in both, and goes on alike. -/
theorem driveOn (h : f.Agree key g) (hnumber : t'.number = t.number) (d : Driver) :
    (f.driveOn t d).Agree key (g.driveOn t' d) := by
  have hannounced : ∀ next, Agree key
      (f.changeScheduler d.scheduler (fun s =>
        { s with entries := Entry.announce d.serial next s.entries }))
      (g.changeScheduler d.scheduler (fun s =>
        { s with entries := Entry.announce d.serial next s.entries })) :=
    fun next => h.changeScheduler d.scheduler (fun _ => rfl)
  unfold Fleet.driveOn
  rw [h.world.now, hnumber]
  cases d.trigger.next? d.awaited f.world.now with
  | none => exact ((hannounced none).emit _ _ _ _).finish _ _
  | some next =>
    simp only
    split
    · exact (((hannounced (some next)).emit _ _ _ _).emit _ _ _ _).finish _ _
    · exact ((hannounced (some next)).emit _ _ _ _).park hnumber _ _ _

/-- A tick is started under the same number. -/
theorem startTick (h : f.Agree key g) (i : Nat) (job : Job) :
    (f.startTick i job).Agree key (g.startTick i job) := by
  obtain ⟨flights, hsched⟩ := h.scheduler i
  unfold Fleet.startTick
  rw [hsched, h.next]
  cases f.schedulers[i]? with
  | none => exact h
  | some s =>
    have hcollected := h.congr (agree_collectTicks f i) (agree_collectTicks g i)
    exact (hcollected.addTask _ false).changeScheduler i (fun _ => rfl)

/-- A driver has the same turn in both, if its declaration can be read in both or in neither. -/
theorem stepDriver (h : f.Agree key g) (hnumber : t'.number = t.number) {d : Driver}
    (hread : Run.unreadable d.job g.world = Run.unreadable d.job f.world) :
    (f.stepDriver t d).Agree key (g.stepDriver t' d) := by
  unfold Fleet.stepDriver
  cases d.awaited with
  | none =>
    simp only [hread]
    split
    · rw [hnumber]
      exact h.finish _ _
    · exact h.driveOn hnumber d
  | some instant =>
    simp only
    split
    · rw [hnumber]
      exact (h.emit _ _ _ _).finish _ _
    · exact (h.startTick _ _).driveOn hnumber d

/-- A run that has made the same piece in both goes on in the same way. -/
theorem afterRun (h : f.Agree key g) (hnumber : t'.number = t.number) (i : Nat)
    (c : Caller) (p : Progress) {w w' : World FaultyStore} (hw : w.Agree key w') :
    (f.afterRun t i c (p, w)).Agree key (g.afterRun t' i c (p, w')) := by
  cases p with
  | going r => exact (h.withWorld hw).park hnumber _ _ _
  | waiting moment r => exact (h.withWorld hw).park hnumber _ _ _
  | ended outcome =>
    unfold Fleet.afterRun
    simp only [hnumber]
    exact (h.withWorld (hw.still (still_logReply _ _ _) (still_logReply _ _ _))).finish _ _

/-- A turn of one number keeps two fleets in agreement, where jobs say and do the same in both. -/
theorem advance (hf : f.Sound) (hg : g.Sound) (h : f.Agree key g)
    (hjobs : f.Unaffected g) (n : Nat) :
    (f.advance n).Agree key (g.advance n) := by
  by_cases hconcerns : ∃ a, f.Does n a ∧ a.Concerns key
  · obtain ⟨a, hdoes, ha⟩ := hconcerns
    have hdoes' := (h.does n a ha).2 hdoes
    obtain ⟨t, hfound, ht, hnumber, hactivity⟩ := hf.exists_task? hdoes
    obtain ⟨t', hfound', ht', hnumber', hactivity'⟩ := hg.exists_task? hdoes'
    have hsame : t'.number = t.number := hnumber'.trans hnumber.symm
    unfold Fleet.advance
    rw [hfound, hfound']
    cases a with
    | drive d =>
      simp only [stepTask, hactivity, hactivity']
      exact h.stepDriver hsame (hjobs.drivers n d hdoes hdoes')
    | run i r c =>
      obtain ⟨hread, hbody⟩ := hjobs.runs n i r c hdoes hdoes'
      have hkey : r.key = key := ha
      subst hkey
      obtain ⟨hprogress, hworld⟩ := h.world.advance hread hbody
      have hgot : r.advance g.world = ((r.advance f.world).1, (r.advance g.world).2) :=
        Prod.ext hprogress rfl
      simp only [hactivity, hactivity']
      rw [hgot]
      exact h.afterRun hsame i c _ hworld
    | acquire a => exact ha.elim
    | drain d => exact ha.elim
  · -- the task does not concern the key in either fleet, if it is there at all
    have hnot : ∀ a, f.Does n a → ¬ a.Concerns key := fun a hdoes ha => hconcerns ⟨a, hdoes, ha⟩
    have hnot' : ∀ a, g.Does n a → ¬ a.Concerns key := fun a hdoes ha =>
      hnot a ((h.does n a ha).1 hdoes) ha
    exact h.congr (agree_advance hf hnot) (agree_advance hg hnot')

/-- The choice of a driver to fire once more keeps two fleets in agreement. -/
theorem race (hf : f.Sound) (hg : g.Sound) (h : f.Agree key g) (n : Nat) :
    (f.race n).Agree key (g.race n) := by
  have hdriver : ∀ d, g.Does n (.drive d) ↔ f.Does n (.drive d) :=
    fun d => h.does n (.drive d) trivial
  by_cases hdrives : ∃ d, f.Does n (.drive d)
  · obtain ⟨d, hdoes⟩ := hdrives
    obtain ⟨t, hfound, ht, hnumber, hactivity⟩ := hf.exists_task? hdoes
    obtain ⟨t', hfound', ht', hnumber', hactivity'⟩ := hg.exists_task? ((hdriver d).2 hdoes)
    unfold Fleet.race
    rw [hfound, hfound']
    simp only [hactivity, hactivity', h.world.isDue]
    split
    · exact (h.startTick _ _).driveOn (hnumber'.trans hnumber.symm) d
    · exact h
  · have hrests : ∀ f : Fleet FaultyStore, (¬ ∃ d, f.Does n (.drive d)) → f.race n = f := by
      intro f hnot
      unfold Fleet.race
      cases hfound : f.task? n with
      | none => rfl
      | some t =>
        obtain ⟨ht, rfl⟩ := task?_eq_some hfound
        cases hactivity : t.activity with
        | drive d => exact absurd ⟨d, t, ht, rfl, hactivity⟩ hnot
        | _ => simp only [hactivity]
    have hdrives' : ¬ ∃ d, g.Does n (.drive d) := fun ⟨d, hdoes⟩ => hdrives ⟨d, (hdriver d).1 hdoes⟩
    rw [hrests f hdrives, hrests g hdrives']
    exact h

/-- **Agreement is kept.**  Whatever occurs in both fleets, they agree afterwards if they agreed
    before. -/
theorem occur (hf : f.Sound) (hg : g.Sound) (h : f.Agree key g) (hjobs : f.Unaffected g)
    (o : Occurrence) :
    (f.occur o).Agree key (g.occur o) := by
  cases o with
  | race number => exact race hf hg h number
  | move m honest =>
    cases m with
    | turn number => exact advance hf hg h hjobs number
    | pass moment => exact h.passTo moment
    | fail operations =>
      exact h.withWorld ⟨h.world.start, h.world.elapsed, rfl, h.world.locks.lookup⟩
    | register i job => exact (h.register i job).2
    | registerAll i jobs => exact h.registerAll i jobs
    | start i => exact h.start i
    | shutdown i waits foreground => exact shutdown hf hg h i waits foreground
    | pause i id => exact h.pause i id
    | resume i id => exact h.resume i id
    | remove i id => exact h.remove i id
    | request i id kind caller foreground => exact h.request i id kind caller foreground

end Agree

end Fleet

end JobFleet
