/-
  JobFleet.Proofs.Fleet.Effects: what any occurrence does to a fleet.

  There are three kinds: the turn of a task, a request about the jobs of a scheduler, and a
  shutdown.  A shutdown makes two steps at once.  First every driver of the scheduler is told to
  stop, its entries let go of them, and a task is added that waits for them (`Tells`); then that
  task has its first turn.

  Main results:
    * `effect_occur` — every occurrence is of one of the three kinds.
    * `wired_through` — every fleet that is reached is wired.
-/
import JobFleet.Proofs.Fleet.Requests

namespace JobFleet

open JobFleet.Schedule

/-- What a task does after the drivers of a scheduler were told to stop. -/
def Activity.told (i : Nat) : Activity → Activity
  | .drive d => if d.scheduler = i then .drive { d with stopping := true } else .drive d
  | a => a

/-- Only the drivers of the scheduler are told. -/
theorem Activity.told_of_ne {i : Nat} {a : Activity} (h : ∀ d, a = .drive d → d.scheduler ≠ i) :
    a.told i = a := by
  cases a with
  | drive d => exact if_neg (h d rfl)
  | _ => rfl

/-- Only drivers are told. -/
theorem Activity.eq_of_told {i : Nat} {a b : Activity} (h : a.told i = b)
    (hb : ∀ d, b ≠ .drive d) : a = b := by
  cases a with
  | drive d =>
    by_cases hi : d.scheduler = i
    · exact absurd (h.symm.trans (if_pos hi)) (hb _)
    · exact absurd (h.symm.trans (if_neg hi)) (hb _)
  | _ => exact h

/-- A driver after the drivers of a scheduler were told to stop. -/
theorem Activity.told_eq_drive {i : Nat} {a : Activity} {d : Driver} (h : a.told i = .drive d) :
    (d.scheduler ≠ i ∧ a = .drive d) ∨
      (d.scheduler = i ∧ d.stopping = true ∧ ∃ stopping, a =
        .drive { d with stopping := stopping }) := by
  cases a with
  | drive d₀ =>
    by_cases hi : d₀.scheduler = i
    · simp only [told, if_pos hi, Activity.drive.injEq] at h
      subst h
      exact .inr ⟨hi, rfl, d₀.stopping, rfl⟩
    · simp only [told, if_neg hi, Activity.drive.injEq] at h
      subst h
      exact .inl ⟨hi, rfl⟩
  | _ => cases h

namespace Fleet

section

variable {σ : Type} {f g : Fleet σ} {i n : Nat}

/-- Everyone goes on, the drivers of the scheduler knowing that they are to stop. -/
theorem does_signalDrivers {a : Activity} :
    (f.signalDrivers i).Does n a ↔ ∃ b, f.Does n b ∧ a = b.told i := by
  have htold : ∀ t : Task, (told i t).number = t.number ∧
      (told i t).activity = t.activity.told i := by
    intro t
    unfold told
    cases hactivity : t.activity with
    | drive d =>
      simp only [Activity.told]
      split
      · exact ⟨rfl, rfl⟩
      · exact ⟨rfl, hactivity⟩
    | _ => exact ⟨rfl, hactivity⟩
  unfold signalDrivers
  rw [does_wake]
  -- being woken changes nothing about what tasks do, so only the telling counts
  show (∃ t ∈ f.tasks.map (told i), _) ↔ _
  constructor
  · intro hsome
    obtain ⟨t, ht, rfl, rfl⟩ := hsome
    obtain ⟨t₀, hold, rfl⟩ := List.mem_map.1 ht
    exact ⟨t₀.activity, ⟨t₀, hold, (htold t₀).1.symm, rfl⟩, (htold t₀).2⟩
  · intro hsome
    obtain ⟨b, ⟨t₀, hold, rfl, rfl⟩, rfl⟩ := hsome
    exact ⟨told i t₀, List.mem_map_of_mem hold, (htold t₀).1, (htold t₀).2⟩

/-- The drivers of a scheduler that ran have been told to stop, and a shutdown has been added that
    waits for them. -/
structure Tells (i : Nat) (d : Drain) (f g : Fleet σ) : Prop where
  ran : f.isRunning i = true
  stopped : g.isRunning i = false
  scheduler : d.scheduler = i
  drivers : ∃ drivers, d.phase = .drivers drivers ∧
    ∀ e ∈ f.registry i, ∀ n, e.driver = some n → n ∈ drivers
  others : ∀ j, j ≠ i → SameAt j f g
  registry : g.registry i = (f.registry i).map (fun e => { e with driver := none })
  flights : g.flights i = f.flights i
  zone : g.zone? i = f.zone? i
  next : g.nextNumber = f.nextNumber + 1
  ends : g.ends = f.ends
  does : ∀ n a, g.Does n a ↔ (∃ b, f.Does n b ∧ a = b.told i) ∨ (n = f.nextNumber ∧ a = .drain d)

namespace Tells

variable {d : Drain}

/-- An entry after its drivers were told is one from before, without its driver. -/
theorem mem_registry (h : Tells i d f g) {e : Entry} (he : e ∈ g.registry i) :
    ∃ e₀ ∈ f.registry i, e = { e₀ with driver := none } := by
  rw [h.registry] at he
  obtain ⟨e₀, he₀, rfl⟩ := List.mem_map.1 he
  exact ⟨e₀, he₀, rfl⟩

/-- What is not a driver of the scheduler is left alone. -/
theorem stays (h : Tells i d f g) {n : Nat} {a : Activity} (ha : f.Does n a)
    (hother : ∀ d, a = .drive d → d.scheduler ≠ i) : g.Does n a :=
  (h.does n a).2 (.inl ⟨a, ha, (Activity.told_of_ne hother).symm⟩)

/-- A driver afterwards was a driver before, and if it is one of the scheduler it knows that it is
    to stop. -/
theorem of_drive (h : Tells i d f g) {n : Nat} {d' : Driver} (hd' : g.Does n (.drive d')) :
    (d'.scheduler ≠ i ∧ f.Does n (.drive d')) ∨
      (d'.scheduler = i ∧ d'.stopping = true ∧
        ∃ stopping, f.Does n (.drive { d' with stopping := stopping })) := by
  rcases (h.does n _).1 hd' with ⟨b, hb, heq⟩ | ⟨-, hactivity⟩
  · rcases Activity.told_eq_drive heq.symm with ⟨hne, rfl⟩ | ⟨hi, hstops, stopping, rfl⟩
    · exact .inl ⟨hne, hb⟩
    · exact .inr ⟨hi, hstops, stopping, hb⟩
  · cases hactivity

/-- Tasks from before were there. -/
theorem lives_of_lt (h : Tells i d f g) {n : Nat} {a : Activity} (ha : g.Does n a)
    (hlt : n < f.nextNumber) :
    ∃ b, f.Does n b ∧ a = b.told i := by
  rcases (h.does n a).1 ha with hold | ⟨rfl, -⟩
  · exact hold
  · exact absurd hlt (Nat.lt_irrefl _)

theorem sorted (hw : f.Wired) (h : Tells i d f g) (j : Nat) : Entry.Sorted (g.registry j) := by
  by_cases hj : j = i
  · subst hj
    rw [h.registry, Entry.Sorted, List.pairwise_map]
    exact hw.sorted j
  · rw [(h.others j hj).registry]
    exact hw.sorted j

/-- Entries name drivers only where a scheduler still runs, and their own. -/
theorem handles (hw : f.Wired) (h : Tells i d f g) (j : Nat) :
    ∀ e ∈ g.registry j, ∀ n, e.driver = some n → g.isRunning j = true ∧ e.paused = false ∧
      n < g.nextNumber ∧ ∀ a, g.Does n a → ∃ awaited, a =
        .drive { e.driverOf j with awaited := awaited } := by
  intro e he n hn
  by_cases hj : j = i
  · subst hj
    obtain ⟨e₀, -, rfl⟩ := h.mem_registry he
    cases hn
  · rw [(h.others j hj).registry] at he
    rw [(h.others j hj).isRunning, h.next]
    obtain ⟨hruns, hunpaused, hlt, hdoes⟩ := hw.handles j e he n hn
    refine ⟨hruns, hunpaused, Nat.lt_succ_of_lt hlt, ?_⟩
    intro a ha
    obtain ⟨b, hb, rfl⟩ := h.lives_of_lt ha hlt
    obtain ⟨awaited, rfl⟩ := hdoes b hb
    exact ⟨awaited, if_neg hj⟩

/-- Afterwards the new shutdown waits for every driver of the scheduler that was not told before. -/
theorem awaited (hw : f.Wired) (h : Tells i d f g) {n : Nat} {d' : Driver}
    (hd' : g.Does n (.drive d')) (hstops : d'.stopping = true) :
    ∃ m drain drivers, g.Does m (.drain drain) ∧
      drain.scheduler = d'.scheduler ∧ drain.phase = .drivers drivers ∧ n ∈ drivers := by
  have hkept : ∀ d₀ : Driver, d₀.scheduler = d'.scheduler → f.Does n (.drive d₀) →
    d₀.stopping = true →
      ∃ m drain drivers, g.Does m (.drain drain) ∧ drain.scheduler = d'.scheduler ∧
        drain.phase = .drivers drivers ∧
        n ∈ drivers := by
    intro d₀ hscheduler hold hstopped
    obtain ⟨m, drain, drivers, hdrain, hsame, hrest⟩ := hw.awaited n d₀ hold hstopped
    exact ⟨m, drain, drivers, h.stays hdrain (fun _ hdrive => by cases hdrive),
      hsame.trans hscheduler, hrest⟩
  rcases h.of_drive hd' with ⟨-, hold⟩ | ⟨hi, -, stopping, hold⟩
  · exact hkept d' rfl hold hstops
  · cases hstopped : stopping with
    | true => exact hkept { d' with stopping := stopping } rfl hold hstopped
    | false =>
      obtain ⟨e, he, hn⟩ := hw.named n { d' with stopping := stopping } hold hstopped
      obtain ⟨drivers, hphase, hall⟩ := h.drivers
      have he : e ∈ f.registry i := hi ▸ he
      exact ⟨f.nextNumber, d, drivers, (h.does _ _).2 (.inr ⟨rfl, rfl⟩), h.scheduler.trans hi.symm,
        hphase, hall e he n hn⟩

/-- The fleet stays wired: the drivers that were told belong to the new shutdown. -/
theorem wired (hw : f.Wired) (h : Tells i d f g) : g.Wired where
  sorted := h.sorted hw
  serials := by
    intro j e he e' he' hserial
    by_cases hj : j = i
    · subst hj
      obtain ⟨e₀, he₀, rfl⟩ := h.mem_registry he
      obtain ⟨e₁, he₁, rfl⟩ := h.mem_registry he'
      rw [hw.serials j e₀ he₀ e₁ he₁ hserial]
    · rw [(h.others j hj).registry] at he he'
      exact hw.serials j e he e' he' hserial
  below := by
    intro j e he
    rw [h.next]
    by_cases hj : j = i
    · subst hj
      obtain ⟨e₀, he₀, rfl⟩ := h.mem_registry he
      exact Nat.lt_succ_of_lt (hw.below j e₀ he₀)
    · rw [(h.others j hj).registry] at he
      exact Nat.lt_succ_of_lt (hw.below j e he)
  declared := by
    intro j e he
    by_cases hj : j = i
    · subst hj
      obtain ⟨e₀, he₀, rfl⟩ := h.mem_registry he
      rw [h.zone]
      exact hw.declared j e₀ he₀
    · rw [(h.others j hj).registry] at he
      rw [(h.others j hj).zone?]
      exact hw.declared j e he
  handles := h.handles hw
  driven := by
    intro j hruns e he hunpaused
    by_cases hj : j = i
    · subst hj
      -- the scheduler that was told does not run any more
      rw [h.stopped] at hruns
      cases hruns
    · rw [(h.others j hj).registry] at he
      rw [(h.others j hj).isRunning] at hruns
      exact hw.driven j hruns e he hunpaused
  named := by
    intro n d' hd' hgoes
    -- a driver that goes on is one of another scheduler
    rcases h.of_drive hd' with ⟨hne, hold⟩ | ⟨-, hstops, -⟩
    · rw [(h.others _ hne).registry]
      exact hw.named n d' hold hgoes
    · rw [hgoes] at hstops
      cases hstops
  awaited := fun _ _ hd' hstops => h.awaited hw hd' hstops
  buried := by
    intro e he
    rw [h.ends] at he
    rw [h.next]
    obtain ⟨hlt, hgone⟩ := hw.buried e he
    refine ⟨Nat.lt_succ_of_lt hlt, ?_⟩
    intro a ha
    obtain ⟨b, hb, -⟩ := h.lives_of_lt ha hlt
    exact hgone b hb

end Tells

/-! ## A shutdown -/

/-- The drivers that a shutdown waits for. -/
def driversOf (f : Fleet σ) (i : Nat) : List Nat := (f.entriesOf i).filterMap (·.driver)

/-- A scheduler that has been stopped and whose drivers have been told; the shutdown has not had its
    first turn. -/
def halted (i : Nat) (waits foreground : Bool) (f : Fleet σ) : Fleet σ :=
  ((f.changeScheduler i (fun s => { s with
    running := false
    entries := s.entries.map (fun e => { e with driver := none }) })).signalDrivers i).addTask
      (.drain ⟨i, waits, .drivers (f.driversOf i)⟩) foreground

/-- Stopping a scheduler tells its drivers. -/
theorem tells_halted (hruns : f.isRunning i = true) (waits foreground : Bool) :
    Tells i ⟨i, waits, .drivers (f.driversOf i)⟩ f (f.halted i waits foreground) := by
  have hschedulers : (f.halted i waits foreground).schedulers =
    f.schedulers.modify i (fun s => { s with
      running := false
      entries := s.entries.map (fun e => { e with driver := none }) }) := rfl
  have hself := getElem?_of_modify hschedulers
  obtain ⟨s, hsched⟩ : ∃ s, f.schedulers[i]? = some s := by
    unfold isRunning at hruns
    cases hsched : f.schedulers[i]? with
    | some s => exact ⟨s, rfl⟩
    | none =>
      rw [hsched] at hruns
      cases hruns
  rw [hsched] at hself
  refine ⟨hruns, ?_, rfl, ⟨_, rfl, ?_⟩, fun j hne => sameAt_of_modify hschedulers hne, ?_, ?_,
    ?_, rfl, rfl, ?_⟩
  · exact isRunning_of_getElem? hself
  · intro e he n hn
    obtain ⟨e₀, he₀, rfl⟩ := Entry.mem_map_plain.1 he
    exact List.mem_filterMap.2 ⟨e₀, he₀, hn⟩
  · unfold registry
    rw [entriesOf_of_getElem? hself, entriesOf_of_getElem? hsched, List.map_map, List.map_map]
    rfl
  · rw [flights_of_getElem? hself, flights_of_getElem? hsched]
  · rw [zone?_of_getElem? hself, zone?_of_getElem? hsched]
  · intro n a
    unfold halted
    rw [does_addTask, does_signalDrivers]
    exact Iff.rfl

theorem sound_halted (hs : f.Sound) (i : Nat) (waits foreground : Bool) :
    (f.halted i waits foreground).Sound := by
  have hstop := calm_changeScheduler hs i
    (fun s => { s with running := false,
                       entries := s.entries.map (fun e => { e with driver := none }) })
    (fun _ => rfl) (fun s _ e he => by
      obtain ⟨e₀, -, rfl⟩ := List.mem_map.1 he
      exact nofun)
  exact (calm_addTask (calm_signalDrivers hstop.sound i).sound (by trivial) foreground).sound

/-- A running scheduler is shut down: the drivers are told, and then the new task has its first
    turn. -/
def Stops (i : Nat) (waits : Bool) (f g : Fleet σ) : Prop :=
  ∃ mid d, d.waits = waits ∧ Tells i d f mid ∧ mid.Sound ∧ DrainTurn f.nextNumber d mid g

end

/-! ## Every occurrence -/

variable {f g : Fleet FaultyStore} {o : Occurrence} {i : Nat}

/-- A shutdown tells the drivers and then has its first turn. -/
theorem stops_shutdown (hs : f.Sound) (hruns : f.isRunning i = true) (waits foreground : Bool) :
    (f.shutdown i waits foreground).1 = some f.nextNumber ∧
    Stops i waits f (f.shutdown i waits foreground).2 := by
  have hshutdown : f.shutdown i waits foreground =
      (some f.nextNumber, (f.halted i waits foreground).step f.nextNumber) := by
    unfold shutdown
    rw [if_neg (by simp [hruns])]
    rfl
  have hmid := sound_halted hs i waits foreground
  rw [hshutdown]
  refine ⟨rfl, _, _, rfl, tells_halted hruns waits foreground, hmid, ?_⟩
  obtain ⟨t, ht, hnumber, hactivity⟩ :=
    ((tells_halted hruns waits foreground).does f.nextNumber _).2 (.inr ⟨rfl, rfl⟩)
  unfold step
  rw [← hnumber, hmid.task?_eq ht]
  simp only [stepTask, hactivity]
  exact drainTurn_stepDrain t _

/-- What can occur. -/
inductive Effect (f : Fleet FaultyStore) (o : Occurrence) (g : Fleet FaultyStore) : Prop
  | turns (h : f.Turns o g)
  | rewires {j : Nat} (h : Rewires (o.plain = .start j) j f g)
  | stops {j : Nat} {waits foreground : Bool} (ho : o.plain = .shutdown j waits foreground)
    (h : Stops j waits f g)

/-- Whatever occurs is a turn, a request about jobs, or a shutdown. -/
theorem effect_occur (hs : f.Sound) (hw : f.Wired) (o : Occurrence) : Effect f o (f.occur o) := by
  cases o with
  | race number => exact .turns (turns_race hs number)
  | move m honest =>
    cases m with
    | turn number => exact .turns (turns_advance hs rfl)
    | pass moment => exact .turns (.rests (alike_passTo moment))
    | fail operations =>
      have hsame := alike_changeWorld (f := f)
        (fun w => { w with locks := { w.locks with failing := operations } })
      exact .turns (.rests hsame)
    | request i id kind caller foreground => exact .turns (turns_request honest _)
    | register i job =>
      exact .rewires ((enters_register hs hw i job).rewires.weaken (fun h => h.elim))
    | registerAll i jobs =>
      exact .rewires ((enters_registerAll hs hw i jobs).rewires.weaken (fun h => h.elim))
    | pause i id => exact .rewires (((asked_pause hw i id).rewires hs hw).weaken (fun h => h.elim))
    | resume i id =>
      exact .rewires (((asked_resume hw i id).rewires hs hw).weaken (fun h => h.elim))
    | remove i id =>
      exact .rewires (((asked_remove hw i id).rewires hs hw).weaken (fun h => h.elim))
    | start i => exact .rewires (j := i) ((rewires_start hs hw i).weaken (fun _ => rfl))
    | shutdown i waits foreground =>
      by_cases hruns : f.isRunning i = true
      · exact .stops rfl (stops_shutdown hs hruns waits foreground).2
      · -- a scheduler that does not run has nothing to stop
        refine .turns (.rests ?_)
        show f.Alike (f.shutdown i waits foreground).2
        unfold shutdown
        rw [if_pos (by simpa using hruns)]
        exact alike_changeWorld _

/-! ## Shutdowns, and who runs -/

namespace Stops

variable {j : Nat} {waits : Bool}

/-- The first turn of the shutdown changes neither registries nor who runs. -/
theorem turned (h : Stops j waits f g) : ∃ mid d, Tells j d f mid ∧ Turned mid g := by
  obtain ⟨mid, d, -, htells, hmid, hturn⟩ := h
  have hdoes := (htells.does f.nextNumber _).2 (.inr ⟨rfl, rfl⟩)
  exact ⟨mid, d, htells, .of_drainTurn hmid hdoes hturn⟩

/-- A fleet stays wired when a scheduler is shut down. -/
theorem wired (hw : f.Wired) (h : Stops j waits f g) : g.Wired := by
  obtain ⟨mid, d, htells, hturned⟩ := h.turned
  exact (htells.wired hw).of_turned hturned

/-- The scheduler does not run afterwards. -/
theorem idle (h : Stops j waits f g) : g.isRunning j = false := by
  obtain ⟨mid, d, htells, hturned⟩ := h.turned
  exact (isRunning_congr hturned.frames j).trans htells.stopped

/-- The other schedulers are left alone. -/
theorem others (h : Stops j waits f g) (hne : i ≠ j) :
    g.registry i = f.registry i ∧ g.isRunning i = f.isRunning i := by
  obtain ⟨mid, d, htells, hturned⟩ := h.turned
  have hsame := htells.others i hne
  exact ⟨(registry_congr hturned.frames i).trans hsame.registry,
    (isRunning_congr hturned.frames i).trans hsame.isRunning⟩

theorem zone? (h : Stops j waits f g) (i : Nat) : g.zone? i = f.zone? i := by
  obtain ⟨mid, d, htells, hturned⟩ := h.turned
  rw [zone?_congr hturned.frames i]
  by_cases hi : i = j
  · rw [hi]
    exact htells.zone
  · exact (htells.others i hi).zone?

end Stops

/-- Whatever occurs keeps a fleet wired. -/
theorem Effect.wired (hs : f.Sound) (hw : f.Wired) (h : Effect f o g) : g.Wired := by
  cases h with
  | turns h => exact hw.of_turned (turned_of_turns hs h)
  | rewires h => exact h.wired
  | stops _ h => exact h.wired hw

/-- Only a start makes a scheduler run. -/
theorem idle_of_effect (hs : f.Sound) (h : Effect f o g) (hnot : o.plain ≠ .start i)
    (hidle : f.isRunning i = false) :
    g.isRunning i = false := by
  cases h with
  | turns h => exact (isRunning_congr (turned_of_turns hs h).frames i).trans hidle
  | @rewires j h =>
    by_cases hi : i = j
    · subst hi
      exact (h.idle.resolve_left hnot).trans hidle
    · exact (h.others i hi).isRunning.trans hidle
  | @stops j waits foreground ho h =>
    by_cases hi : i = j
    · rw [hi]
      exact h.idle
    · exact (h.others hi).2.trans hidle

/-- A shutdown leaves no scheduler running. -/
theorem idle_of_shutdown (hs : f.Sound) (hw : f.Wired) (hstops : o.Stops i) :
    (f.occur o).isRunning i = false := by
  obtain ⟨waits, foreground, ho⟩ := hstops
  cases hruns : f.isRunning i with
  | false =>
    refine idle_of_effect hs (effect_occur hs hw o) ?_ hruns
    rw [ho]
    exact nofun
  | true =>
    cases o with
    | race number => cases ho
    | move m honest =>
      cases ho
      exact (stops_shutdown hs hruns waits foreground).2.idle

/-- A number that was given out is not given out again, and a run remains a run of its scheduler and
    its caller. -/
theorem Effect.origin (hs : f.Sound) (h : Effect f o g) {n : Nat} {a : Activity} (ha : g.Does n a)
    (hlt : n < f.nextNumber) : ∃ b, f.Does n b ∧ ∀ i r c, b = .run i r c →
    ∃ r', a = .run i r' c := by
  cases h with
  | turns h =>
    obtain ⟨b, hb, hbecomes⟩ | ⟨hnew, -⟩ := (turned_of_turns hs h).origin n a ha
    · refine ⟨b, hb, ?_⟩
      intro i r c hrun
      subst hrun
      exact hbecomes.run_eq
    · omega
  | rewires h =>
    obtain hold | ⟨hnew, -⟩ := h.origin n a ha
    · exact ⟨a, hold, fun i r c hrun => ⟨r, hrun⟩⟩
    · omega
  | stops _ h =>
    obtain ⟨mid, d, -, htells, hmid, hturn⟩ := h
    have hdoes := (htells.does f.nextNumber _).2 (.inr ⟨rfl, rfl⟩)
    have hnext := htells.next
    -- the number was given out before the drivers were told, so it is not that of the shutdown
    obtain ⟨b, hb, hbecomes⟩ | ⟨hnew, -⟩ := (Turned.of_drainTurn hmid hdoes hturn).origin n a ha
    · obtain ⟨b₀, hb₀, rfl⟩ := htells.lives_of_lt hb hlt
      refine ⟨b₀, hb₀, ?_⟩
      intro i r c hrun
      subst hrun
      exact hbecomes.run_eq
    · omega

/-- So every fleet that is reached is wired. -/
theorem wired_through (h : f.Pristine) (row : List Occurrence) : (f.through row).Wired := by
  induction row using List.reverseRecOn with
  | nil => exact h.wired
  | append_singleton row o ih =>
    rw [through_concat]
    have hs := sound_through h.sound row
    exact (effect_occur hs ih o).wired hs ih

end Fleet

end JobFleet
