/-
  JobFleet.Proofs.Fleet.Frame: what the rest of a fleet leaves alone.

  Drivers, shutdowns and everything a scheduler is asked to do may start runs, but they never touch
  one that has started, nor the locks, nor the clock; and a driver waits for nothing but a fire time
  that its trigger has just given.  `Calm` says so of two fleets, one after the other.  It is a
  preorder, so each operation needs one short lemma, put together from those of the parts it is
  written with.

  `Sound` is what makes this true: a task number is used once, and what a registry calls a driver is
  never a run.

  Main results:
    * `calm_stepDriver`, `calm_stepDrain` — the turns of tasks that are not runs.
    * `calm_register`, `calm_start`, `calm_shutdown` and so on — what a scheduler is asked to do.
-/
import Mathlib.Data.List.Nodup
import JobFleet.Fleet.Manager
import JobFleet.Proofs.Fleet.Piece

namespace JobFleet

/-- The run that a task makes, if it makes one. -/
def Task.run? (t : Task) : Option Run :=
  match t.activity with
  | .run _ r _ => some r
  | _ => none

/-- A task that makes a run has that run. -/
theorem Task.run?_of_activity {t : Task} {i : Nat} {r : Run} {c : Caller}
    (h : t.activity = .run i r c) :
    t.run? = some r := by
  unfold Task.run?
  rw [h]

/-- A run belongs to a scheduler and was asked for by somebody. -/
theorem Task.activity_of_run? {t : Task} {r : Run} (h : t.run? = some r) :
    ∃ i c, t.activity = .run i r c := by
  unfold Task.run? at h
  split at h
  · rename_i i r' c hactivity
    cases h
    exact ⟨i, c, hactivity⟩
  · cases h

theorem Task.run?_congr {t t' : Task} (h : t.activity = t'.activity) : t.run? = t'.run? := by
  unfold Task.run?
  rw [h]

/-- A driver or a shutdown, which take no lock. -/
def Activity.isIdle : Activity → Bool
  | .drive _ => true
  | .drain _ => true
  | _ => false

/-- Drivers and shutdowns make no run. -/
theorem Task.run?_of_idle {t : Task} (h : t.activity.isIdle = true) : t.run? = none := by
  unfold Task.run?
  cases hactivity : t.activity with
  | run i r c =>
    rw [hactivity] at h
    cases h
  | _ => rfl

/-- A task is a driver that waits for a fire time and was not told to stop. -/
structure Task.Awaits (t : Task) (d : Driver) (instant : Time.Instant) : Prop where
  activity : t.activity = .drive d
  awaited : d.awaited = some instant
  goes : d.stopping = false

/-- A driver has its fire time from its trigger now, and sleeps until then. -/
structure Task.BeginsToWait {σ : Type} (t : Task) (d : Driver) (instant : Time.Instant)
    (w : World σ) : Prop where
  state : t.state = .sleeping (w.momentOf instant)
  answer : ∃ previous, d.trigger.next? previous w.now = some instant

/-- A driver that begins to wait would have begun to wait earlier within the same moment too. -/
theorem Task.BeginsToWait.of_still {σ : Type} {t : Task} {d : Driver}
    {instant : Time.Instant} {w w' : World σ} (hstill : w.Still w')
    (h : t.BeginsToWait d instant w') : t.BeginsToWait d instant w := by
  obtain ⟨hstate, previous, hanswer⟩ := h
  rw [hstill.momentOf] at hstate
  rw [hstill.now] at hanswer
  exact ⟨hstate, previous, hanswer⟩

namespace Fleet

variable {σ : Type}

/-! ## Sound fleets -/

/-- What the schedulers bring to every run, by number. -/
def guards (f : Fleet σ) : List Guard := f.schedulers.map Scheduler.guard

/-- The number was given out, and not to a run that is still there. -/
def Runless (f : Fleet σ) (number : Nat) : Prop :=
  number < f.nextNumber ∧ ∀ t ∈ f.tasks, t.number = number → t.run? = none

/-- What an entry calls its driver is not a run. -/
def Drives (f : Fleet σ) (e : Entry) : Prop := ∀ number, e.driver = some number → f.Runless number

/-- A registry names drivers only. -/
def NamesDrivers (f : Fleet σ) (entries : List Entry) : Prop := ∀ e ∈ entries, f.Drives e

/-- The state that every operation keeps. -/
structure Sound (f : Fleet σ) : Prop where
  nodup : (f.tasks.map Task.number).Nodup
  below : ∀ t ∈ f.tasks, t.number < f.nextNumber
  /-- Nobody takes a lock without a run. -/
  plain : ∀ t ∈ f.tasks, ∀ a, t.activity ≠ .acquire a
  guarded : ∀ t ∈ f.tasks, ∀ r, t.run? = some r → r.guard ∈ f.guards
  drivers : ∀ s ∈ f.schedulers, f.NamesDrivers s.entries

theorem task?_eq_some {f : Fleet σ} {number : Nat} {t : Task} (h : f.task? number = some t) :
    t ∈ f.tasks ∧ t.number = number :=
  ⟨List.mem_of_find?_eq_some h, by simpa using List.find?_some h⟩

/-- The task of a number is the only one. -/
theorem Sound.task_unique {f : Fleet σ} (hs : f.Sound) {t t' : Task} (ht : t ∈ f.tasks)
    (ht' : t' ∈ f.tasks) (h : t.number = t'.number) : t = t' :=
  List.inj_on_of_nodup_map hs.nodup ht ht' h

/-- Looking the number of a task up gives the task. -/
theorem Sound.task?_eq {f : Fleet σ} (hs : f.Sound) {t : Task} (ht : t ∈ f.tasks) :
    f.task? t.number = some t := by
  cases hfound : f.task? t.number with
  | none =>
    have := List.find?_eq_none.1 hfound t ht
    simp at this
  | some t' =>
    obtain ⟨ht', hn⟩ := task?_eq_some hfound
    rw [hs.task_unique ht' ht hn]

/-- A task that is not a run keeps its number from being one. -/
theorem Sound.runless {f : Fleet σ} (hs : f.Sound) {t : Task} (ht : t ∈ f.tasks)
    (h : t.run? = none) :
    f.Runless t.number := by
  refine ⟨hs.below t ht, ?_⟩
  intro t' ht' hn
  rw [hs.task_unique ht' ht hn]
  exact h

/-- Other tasks keep a fleet sound if each has the number of one that was there, and is idle or does
    what that one did. -/
theorem Sound.of_tasks {f : Fleet σ} (hs : f.Sound) {tasks : List Task}
    (hnodup : (tasks.map Task.number).Nodup)
    (horigin : ∀ t ∈ tasks, ∃ t₀ ∈ f.tasks, t₀.number = t.number ∧
      (t.activity = t₀.activity ∨ t.activity.isIdle = true)) : Sound { f with tasks := tasks } := by
  have hrun : ∀ t ∈ tasks, ∀ r, t.run? = some r → ∃ t₀ ∈ f.tasks, t₀.number = t.number ∧
      t₀.run? = some r := by
    intro t ht r hr
    obtain ⟨t₀, hold, hnumber, hactivity | hidle⟩ := horigin t ht
    · exact ⟨t₀, hold, hnumber, by rw [← Task.run?_congr hactivity]; exact hr⟩
    · rw [Task.run?_of_idle hidle] at hr
      cases hr
  refine ⟨hnodup, ?_, ?_, ?_, ?_⟩
  · intro t ht
    obtain ⟨t₀, hold, hnumber, -⟩ := horigin t ht
    rw [← hnumber]
    exact hs.below t₀ hold
  · intro t ht a ha
    obtain ⟨t₀, hold, -, hactivity | hidle⟩ := horigin t ht
    · exact hs.plain t₀ hold a (hactivity ▸ ha)
    · rw [ha] at hidle
      cases hidle
  · intro t ht r hr
    obtain ⟨t₀, hold, -, hr₀⟩ := hrun t ht r hr
    exact hs.guarded t₀ hold r hr₀
  · intro s hsched e he n hn
    obtain ⟨hlt, hrunless⟩ := hs.drivers s hsched e he n hn
    refine ⟨hlt, ?_⟩
    intro t ht hnumber
    cases hr : t.run? with
    | none => rfl
    | some r =>
      obtain ⟨t₀, hold, hnumber₀, hr₀⟩ := hrun t ht r hr
      rw [hrunless t₀ hold (hnumber₀.trans hnumber)] at hr₀
      cases hr₀

/-! ## Calm -/

/-- From the first fleet to the second no run was touched. -/
structure Calm (f g : Fleet σ) : Prop where
  sound : g.Sound
  still : f.world.Still g.world
  books : f.world.SameBooks g.world
  guards : g.guards = f.guards
  next : f.nextNumber ≤ g.nextNumber
  /-- Runs that were there are there. -/
  keeps : ∀ t ∈ f.tasks, ∀ r, t.run? = some r → t ∈ g.tasks
  /-- Runs that are new are at their beginning. -/
  adds : ∀ t ∈ g.tasks, ∀ r, t.run? = some r →
    t ∈ f.tasks ∨ (f.nextNumber ≤ t.number ∧ t.state = .ready ∧ r.phase = .entering)
  /-- Drivers that wait for a fire time waited before, or begin to. -/
  waits : ∀ t ∈ g.tasks, ∀ d instant, t.Awaits d instant →
    t ∈ f.tasks ∨ t.BeginsToWait d instant f.world

namespace Calm

/-- With the same tasks a fleet is calm if the rest of it is. -/
theorem of_tasks {f g : Fleet σ} (hs : g.Sound) (hstill : f.world.Still g.world)
    (hbooks : f.world.SameBooks g.world) (hguards : g.guards = f.guards)
    (hnext : f.nextNumber ≤ g.nextNumber) (htasks : g.tasks = f.tasks) : f.Calm g where
  sound := hs
  still := hstill
  books := hbooks
  guards := hguards
  next := hnext
  keeps := fun _ ht _ _ => htasks ▸ ht
  adds := fun _ ht _ _ => .inl (htasks ▸ ht)
  waits := fun _ ht _ _ _ => .inl (htasks ▸ ht)

theorem refl {f : Fleet σ} (hs : f.Sound) : f.Calm f :=
  of_tasks hs (World.Still.refl f.world) (World.SameBooks.refl f.world) rfl (Nat.le_refl _) rfl

/-- Calm steps one after the other are calm: a run that the second finds is old, or new since the
    first. -/
theorem trans {f g h : Fleet σ} (hfg : f.Calm g) (hgh : g.Calm h) : f.Calm h where
  sound := hgh.sound
  still := hfg.still.trans hgh.still
  books := hfg.books.trans hgh.books
  guards := by rw [hgh.guards, hfg.guards]
  next := Nat.le_trans hfg.next hgh.next
  keeps := fun t ht r hr => hgh.keeps t (hfg.keeps t ht r hr) r hr
  adds := by
    intro t ht r hr
    rcases hgh.adds t ht r hr with hold | ⟨hn, hfresh⟩
    · exact hfg.adds t hold r hr
    · exact .inr ⟨Nat.le_trans hfg.next hn, hfresh⟩
  waits := by
    intro t ht d instant hd
    rcases hgh.waits t ht d instant hd with hold | hbegins
    · exact hfg.waits t hold d instant hd
    · exact .inr (hbegins.of_still hfg.still)

/-- A number without run stays one. -/
theorem runless {f g : Fleet σ} (h : f.Calm g) {number : Nat} (hn : f.Runless number) :
    g.Runless number := by
  refine ⟨Nat.lt_of_lt_of_le hn.1 h.next, ?_⟩
  intro t ht hnumber
  cases hr : t.run? with
  | none => rfl
  | some r =>
    rcases h.adds t ht r hr with hold | ⟨hnew, -⟩
    · rw [hn.2 t hold hnumber] at hr
      cases hr
    · have := hn.1
      omega

/-- What an entry called its driver is no run after a calm step either. -/
theorem drives {f g : Fleet σ} (h : f.Calm g) {e : Entry} (hd : f.Drives e) : g.Drives e :=
  fun number hn => h.runless (hd number hn)

end Calm

/-! ## Parts -/

/-- A change to the log or to what was counted, with the same locks and books, touches no run. -/
theorem calm_changeWorld {f : Fleet σ} (hs : f.Sound) {change : World σ → World σ}
    (h : f.world.Still (change f.world)) (hbooks : f.world.SameBooks (change f.world)) :
    f.Calm (f.changeWorld change) :=
  .of_tasks ⟨hs.nodup, hs.below, hs.plain, hs.guarded, hs.drivers⟩ h hbooks rfl (Nat.le_refl _) rfl

/-- Logging touches no run. -/
theorem calm_emit {f : Fleet σ} (hs : f.Sound) (severity : Severity) (message : String)
    (fields : List (String × Json)) : f.Calm (f.changeWorld (·.emit severity message fields)) :=
  calm_changeWorld hs (World.still_emit _ _ _ _) (World.sameBooks_emit _ _ _ _)

/-- What is in a list after one place was changed was there, or is the change of something that
    was. -/
theorem mem_modify {α : Type} {i : Nat} {change : α → α} {l : List α} {a : α}
    (h : a ∈ l.modify i change) :
    a ∈ l ∨ ∃ b ∈ l, a = change b := by
  induction l generalizing i with
  | nil => simp at h
  | cons b rest ih =>
    cases i with
    | zero =>
      rw [List.modify_zero_cons] at h
      rcases List.mem_cons.1 h with rfl | hrest
      · exact .inr ⟨b, List.mem_cons_self, rfl⟩
      · exact .inl (List.mem_cons_of_mem b hrest)
    | succ i =>
      rw [List.modify_succ_cons] at h
      rcases List.mem_cons.1 h with rfl | hrest
      · exact .inl List.mem_cons_self
      · rcases ih hrest with hold | ⟨c, hc, hac⟩
        · exact .inl (List.mem_cons_of_mem b hold)
        · exact .inr ⟨c, List.mem_cons_of_mem b hc, hac⟩

/-- A change at one place that a view does not see is not seen in the list of views. -/
theorem map_modify {α β : Type} (i : Nat) {change : α → α} {g : α → β} (h : ∀ a, g (change a) = g a)
    (l : List α) : (l.modify i change).map g = l.map g := by
  induction l generalizing i with
  | nil => rw [List.modify_nil]
  | cons a rest ih =>
    cases i with
    | zero => rw [List.modify_zero_cons, List.map_cons, List.map_cons, h]
    | succ i => rw [List.modify_succ_cons, List.map_cons, List.map_cons, ih]

/-- A scheduler may change all but what it brings to runs, as long as its registry names drivers
    only. -/
theorem calm_changeScheduler {f : Fleet σ} (hs : f.Sound) (i : Nat) (change : Scheduler → Scheduler)
    (hguard : ∀ s, (change s).guard = s.guard)
    (hdrivers : ∀ s ∈ f.schedulers, f.NamesDrivers (change s).entries) :
    f.Calm (f.changeScheduler i change) := by
  have hguards : (f.changeScheduler i change).guards = f.guards := map_modify i hguard f.schedulers
  refine .of_tasks ⟨hs.nodup, hs.below, hs.plain, ?_,
    ?_⟩ (World.Still.refl _) (World.SameBooks.refl _) hguards
    (Nat.le_refl _) rfl
  · rw [hguards]
    exact hs.guarded
  · intro s hmem
    rcases mem_modify hmem with hold | ⟨s₀, hold, rfl⟩
    · exact hs.drivers s hold
    · exact hdrivers s₀ hold

theorem calm_inFlight {f : Fleet σ} (hs : f.Sound) (i : Nat) (change : List Nat → List Nat) :
    f.Calm (f.changeScheduler i (fun s => { s with inFlight := change s.inFlight })) :=
  calm_changeScheduler hs i _ (fun _ => rfl) (fun s hmem => hs.drivers s hmem)

theorem sound_dropTask {f : Fleet σ} (hs : f.Sound) (number : Nat) : (f.dropTask number).Sound :=
  hs.of_tasks (hs.nodup.sublist (List.filter_sublist.map _))
    (fun t ht => ⟨t, (List.mem_filter.1 ht).1, rfl, .inl rfl⟩)

/-- Just the tasks of the number are dropped. -/
theorem mem_dropTask {f : Fleet σ} {number : Nat} {t : Task} :
    t ∈ (f.dropTask number).tasks ↔ t ∈ f.tasks ∧ t.number ≠ number := by
  simp [dropTask]

/-- A task that is no run can be dropped. -/
theorem calm_dropTask {f : Fleet σ} (hs : f.Sound) {number : Nat} (h : f.Runless number) :
    f.Calm (f.dropTask number) := by
  refine ⟨sound_dropTask hs number, World.Still.refl _, World.SameBooks.refl _, rfl,
    Nat.le_refl _, ?_, ?_, ?_⟩
  · intro t ht r hr
    refine mem_dropTask.2 ⟨ht, ?_⟩
    intro heq
    rw [h.2 t ht heq] at hr
    cases hr
  · exact fun t ht r hr => .inl (mem_dropTask.1 ht).1
  · exact fun t ht d instant hd => .inl (mem_dropTask.1 ht).1

/-- What may be started: a driver that does not wait yet, a shutdown, or a run at its beginning with
    a guard of the fleet. -/
def Admits (f : Fleet σ) : Activity → Prop
  | .drive d => d.awaited = none
  | .drain _ => True
  | .run _ r _ => r.guard ∈ f.guards ∧ r.phase = .entering
  | .acquire _ => False

/-- Exactly one task comes in, ready and with the next number. -/
theorem mem_addTask {f : Fleet σ} {activity : Activity} {foreground : Bool} {t : Task} :
    t ∈ (f.addTask activity foreground).tasks ↔ t ∈ f.tasks ∨
    t = ⟨f.nextNumber, activity, .ready, foreground⟩ := by
  simp [addTask]

/-- A run that may be started has a guard of the fleet and is at its beginning. -/
theorem Admits.of_run {f : Fleet σ} {activity : Activity} (h : f.Admits activity) {t : Task}
    (hactivity : t.activity = activity) {r : Run} (hr : t.run? = some r) :
    r.guard ∈ f.guards ∧ r.phase = .entering := by
  obtain ⟨i, c, hrun⟩ := Task.activity_of_run? hr
  rw [← hactivity, hrun] at h
  exact h

/-- A fleet with a new task is sound if the task is one that may be started. -/
theorem sound_addTask {f : Fleet σ} (hs : f.Sound) {activity : Activity} (h : f.Admits activity)
    (foreground : Bool) :
    (f.addTask activity foreground).Sound := by
  refine ⟨?_, ?_, ?_, ?_, ?_⟩
  · show ((f.tasks ++ [_]).map Task.number).Nodup
    rw [List.map_append]
    -- the next number is above all that were given out
    refine hs.nodup.append (List.nodup_singleton _) ?_
    intro n hn hn'
    obtain ⟨t, ht, rfl⟩ := List.mem_map.1 hn
    have heq : t.number = f.nextNumber := by simpa using hn'
    have := hs.below t ht
    omega
  · intro t ht
    show t.number < f.nextNumber + 1
    rcases mem_addTask.1 ht with hold | rfl
    · exact Nat.lt_succ_of_lt (hs.below t hold)
    · exact Nat.lt_succ_self _
  · intro t ht a ha
    rcases mem_addTask.1 ht with hold | rfl
    · exact hs.plain t hold a ha
    · have hacquire : activity = .acquire a := ha
      rw [hacquire] at h
      exact h
  · intro t ht r hr
    rcases mem_addTask.1 ht with hold | rfl
    · exact hs.guarded t hold r hr
    · exact (h.of_run rfl hr).1
  · intro s hsched e he n hn
    obtain ⟨hlt, hrunless⟩ := hs.drivers s hsched e he n hn
    refine ⟨Nat.lt_succ_of_lt hlt, ?_⟩
    intro t ht hnumber
    rcases mem_addTask.1 ht with hold | rfl
    · exact hrunless t hold hnumber
    · exact absurd hnumber (Nat.ne_of_gt hlt)

/-- Starting what may be started touches no run that is there. -/
theorem calm_addTask {f : Fleet σ} (hs : f.Sound) {activity : Activity} (h : f.Admits activity)
    (foreground : Bool) :
    f.Calm (f.addTask activity foreground) := by
  refine ⟨sound_addTask hs h foreground, World.Still.refl _, World.SameBooks.refl _, rfl,
    Nat.le_succ _, ?_, ?_, ?_⟩
  · exact fun t ht r _ => mem_addTask.2 (.inl ht)
  · intro t ht r hr
    rcases mem_addTask.1 ht with hold | rfl
    · exact .inl hold
    · exact .inr ⟨Nat.le_refl _, rfl, (h.of_run rfl hr).2⟩
  · intro t ht d instant hd
    rcases mem_addTask.1 ht with hold | rfl
    · exact .inl hold
    · have hactivity : activity = .drive d := hd.activity
      rw [hactivity] at h
      have hnone : d.awaited = none := h
      rw [hd.awaited] at hnone
      cases hnone

/-- Parking changes the task with the number of the one that is parked. -/
theorem mem_park {f : Fleet σ} {task t : Task} {activity : Activity} {state : TaskState} :
    t ∈ (f.park task activity state).tasks ↔
      (t ∈ f.tasks ∧ t.number ≠ task.number) ∨
      t = { task with activity := activity, state := state } := by
  simp [park, dropTask]

/-- A task may be parked as a run only under the number of a run. -/
theorem sound_park {f : Fleet σ} (hs : f.Sound) {task : Task} (hbelow : task.number < f.nextNumber)
    {activity : Activity} {state : TaskState} (hplain : ∀ a, activity ≠ .acquire a)
    (hrun : ∀ r, Task.run? { task with activity := activity, state := state } = some r →
      r.guard ∈ f.guards ∧ ¬ f.Runless task.number) : (f.park task activity state).Sound := by
  refine ⟨?_, ?_, ?_, ?_, ?_⟩
  · show ((_ ++ [_]).map Task.number).Nodup
    rw [List.map_append]
    refine (hs.nodup.sublist (List.filter_sublist.map _)).append (List.nodup_singleton _) ?_
    intro n hn hn'
    obtain ⟨t, ht, rfl⟩ := List.mem_map.1 hn
    have hne : t.number ≠ task.number := by simpa using (List.mem_filter.1 ht).2
    exact hne (by simpa using hn')
  · intro t ht
    rcases mem_park.1 ht with ⟨hold, -⟩ | rfl
    · exact hs.below t hold
    · exact hbelow
  · intro t ht
    rcases mem_park.1 ht with ⟨hold, -⟩ | rfl
    · exact hs.plain t hold
    · exact hplain
  · intro t ht r hr
    rcases mem_park.1 ht with ⟨hold, -⟩ | rfl
    · exact hs.guarded t hold r hr
    · exact (hrun r hr).1
  · intro s hsched e he n hn
    have hrunless := hs.drivers s hsched e he n hn
    refine ⟨hrunless.1, ?_⟩
    intro t ht hnumber
    rcases mem_park.1 ht with ⟨hold, -⟩ | rfl
    · exact hrunless.2 t hold hnumber
    · cases hr : Task.run? { task with activity := activity, state := state } with
      | none => rfl
      | some r => exact absurd (hnumber ▸ hrunless) (hrun r hr).2

/-- A task that is no run may go on as a driver or shutdown; a driver then waits for what its
    trigger says now. -/
theorem calm_park {f : Fleet σ} (hs : f.Sound) {task : Task} (h : f.Runless task.number)
    {activity : Activity} (hidle : activity.isIdle = true) (state : TaskState)
    (hwaits : ∀ d instant,
      Task.Awaits { task with activity := activity, state := state } d instant →
      Task.BeginsToWait { task with activity := activity, state := state } d instant f.world) :
    f.Calm (f.park task activity state) := by
  have hplain : ∀ a, activity ≠ .acquire a := by
    rintro a rfl
    cases hidle
  have hnone : Task.run? { task with activity := activity, state := state } = none :=
    Task.run?_of_idle (t := { task with activity := activity, state := state }) hidle
  refine ⟨sound_park hs h.1 hplain ?_, World.Still.refl _, World.SameBooks.refl _, rfl,
    Nat.le_refl _, ?_, ?_, ?_⟩
  · intro r hr
    rw [hnone] at hr
    cases hr
  · intro t ht r hr
    refine mem_park.2 (.inl ⟨ht, ?_⟩)
    intro heq
    rw [h.2 t ht heq] at hr
    cases hr
  · intro t ht r hr
    rcases mem_park.1 ht with ⟨hold, -⟩ | rfl
    · exact .inl hold
    · rw [hnone] at hr
      cases hr
  · intro t ht d instant hd
    rcases mem_park.1 ht with ⟨hold, -⟩ | rfl
    · exact .inl hold
    · exact .inr (hwaits d instant hd)

/-- A shutdown may be parked in any way. -/
theorem calm_parkDrain {f : Fleet σ} (hs : f.Sound) {task : Task}
    (h : f.Runless task.number) (d : Drain) (state : TaskState) :
    f.Calm (f.park task (.drain d) state) := by
  refine calm_park hs h rfl state ?_
  intro d' instant hd
  cases hd.activity

/-- Waking keeps every task, except that some become ready. -/
theorem mem_wake {f : Fleet σ} {condition : Task → Bool} {t : Task}
    (ht : t ∈ (f.wake condition).tasks) :
    (t ∈ f.tasks ∧ condition t = false) ∨
      ∃ t₀ ∈ f.tasks, condition t₀ = true ∧ t = { t₀ with state := .ready } := by
  rcases List.mem_append.1 ht with hleft | hright
  · obtain ⟨hmem, hcond⟩ := List.mem_filter.1 hleft
    exact .inl ⟨hmem, by simpa using hcond⟩
  · obtain ⟨t₀, hmem, rfl⟩ := List.mem_map.1 hright
    obtain ⟨hmem, hcond⟩ := List.mem_filter.1 hmem
    exact .inr ⟨t₀, hmem, hcond, rfl⟩

/-- Waking rearranges the tasks and keeps their numbers. -/
theorem numbers_wake (f : Fleet σ) (condition : Task → Bool) :
    ((f.wake condition).tasks.map Task.number).Perm (f.tasks.map Task.number) := by
  have hsplit : (f.wake condition).tasks.map Task.number =
      ((f.tasks.filter (fun t => !condition t)) ++ f.tasks.filter condition).map Task.number := by
    simp [wake, Function.comp_def]
  rw [hsplit]
  refine List.Perm.map _ ?_
  exact List.perm_append_comm.trans (List.filter_append_perm condition f.tasks)

/-- Tasks that are woken are neither runs nor drivers that wait for a fire time. -/
theorem calm_wake {f : Fleet σ} (hs : f.Sound) {condition : Task → Bool}
    (h : ∀ t ∈ f.tasks, condition t = true → t.run? = none)
    (hwaits : ∀ t ∈ f.tasks, condition t = true → ∀ d instant, ¬ t.Awaits d instant) :
    f.Calm (f.wake condition) := by
  have hsound : (f.wake condition).Sound := by
    refine hs.of_tasks ((numbers_wake f condition).nodup_iff.2 hs.nodup) ?_
    intro t ht
    rcases mem_wake ht with ⟨hold, -⟩ | ⟨t₀, hold, -, rfl⟩
    · exact ⟨t, hold, rfl, .inl rfl⟩
    · exact ⟨t₀, hold, rfl, .inl rfl⟩
  refine ⟨hsound, World.Still.refl _, World.SameBooks.refl _, rfl, Nat.le_refl _, ?_, ?_, ?_⟩
  · intro t ht r hr
    refine List.mem_append_left _ (List.mem_filter.2 ⟨ht, ?_⟩)
    cases hcond : condition t with
    | false => rfl
    | true =>
      rw [h t ht hcond] at hr
      cases hr
  · intro t ht r hr
    rcases mem_wake ht with ⟨hold, -⟩ | ⟨t₀, hold, hcond, rfl⟩
    · exact .inl hold
    · have hnone : t₀.run? = some r := hr
      rw [h t₀ hold hcond] at hnone
      cases hnone
  · intro t ht d instant hd
    rcases mem_wake ht with ⟨hold, -⟩ | ⟨t₀, hold, hcond, rfl⟩
    · exact .inl hold
    · exact absurd ⟨hd.activity, hd.awaited, hd.goes⟩ (hwaits t₀ hold hcond d instant)

/-- Only shutdowns wait for the end of a task. -/
theorem drain_of_awaits {number : Nat} {t : Task} (h : Activity.awaits number t.activity = true) :
    ∃ d, t.activity = .drain d := by
  cases hactivity : t.activity with
  | drain d => exact ⟨d, rfl⟩
  | _ =>
    rw [hactivity] at h
    cases h

/-- Collecting ends touches no task. -/
theorem calm_collect {f : Fleet σ} (hs : f.Sound) (numbers : List Nat) :
    f.Calm (f.collect numbers).2 :=
  .of_tasks ⟨hs.nodup, hs.below, hs.plain, hs.guarded,
    hs.drivers⟩ (World.Still.refl _) (World.SameBooks.refl _) rfl
    (Nat.le_refl _) rfl

/-- Ending a task is taking it away and waking who waited for it. -/
theorem calm_end {f : Fleet σ} (hs : f.Sound) (number : Nat) (taskEnd : TaskEnd) :
    (f.dropTask number).Calm (f.finish number taskEnd) := by
  have hdrop : (f.dropTask number).Sound := sound_dropTask hs number
  have hends : (f.dropTask number).Calm
      { f.dropTask number with ends := (f.dropTask number).ends ++ [(number, taskEnd)] } :=
    .of_tasks ⟨hdrop.nodup, hdrop.below, hdrop.plain, hdrop.guarded,
      hdrop.drivers⟩ (World.Still.refl _)
      (World.SameBooks.refl _) rfl (Nat.le_refl _) rfl
  refine hends.trans (calm_wake hends.sound ?_ ?_)
  · intro t _ hcond
    obtain ⟨d, hactivity⟩ := drain_of_awaits hcond
    exact Task.run?_of_idle (by rw [hactivity]; rfl)
  · intro t _ hcond d instant hd
    obtain ⟨d', hactivity⟩ := drain_of_awaits hcond
    rw [hd.activity] at hactivity
    cases hactivity

/-- A task that is no run may end. -/
theorem calm_finish {f : Fleet σ} (hs : f.Sound) {number : Nat} (h : f.Runless number)
    (taskEnd : TaskEnd) :
    f.Calm (f.finish number taskEnd) :=
  (calm_dropTask hs h).trans (calm_end hs number taskEnd)

/-! ## Turns of other tasks -/

/-- Logging what panicked changes neither locks nor clock. -/
theorem still_logPanics (ends : List (Nat × TaskEnd)) (w : World σ) :
    w.Still (logPanics ends w) := by
  unfold logPanics
  induction ends.filter (fun e => panicked? e.2) generalizing w with
  | nil => exact World.Still.refl w
  | cons e rest ih => exact (World.still_emit _ _ _ w).trans (ih _)

theorem sameBooks_logPanics (ends : List (Nat × TaskEnd)) (w : World σ) :
    w.SameBooks (logPanics ends w) := by
  unfold logPanics
  induction ends.filter (fun e => panicked? e.2) generalizing w with
  | nil => exact World.SameBooks.refl w
  | cons e rest ih => exact (World.sameBooks_emit _ _ _ w).trans (ih _)

/-- Collecting the ticks of a scheduler touches no run. -/
theorem calm_collectTicks {f : Fleet σ} (hs : f.Sound) (i : Nat) : f.Calm (f.collectTicks i) := by
  unfold collectTicks
  cases f.schedulers[i]? with
  | none => exact Calm.refl hs
  | some s =>
    have hcollect : f.Calm (f.collect s.inFlight).2 := calm_collect hs s.inFlight
    have hflight := hcollect.trans (calm_inFlight hcollect.sound i
      (·.filter (fun n => !((f.collect s.inFlight).1.map (·.1)).contains n)))
    exact hflight.trans (calm_changeWorld hflight.sound (still_logPanics _ _)
      (sameBooks_logPanics _ _))

/-- A scheduler's guard is one of the guards of the fleet. -/
theorem guard_mem {f : Fleet σ} {i : Nat} {s : Scheduler} (h : f.schedulers[i]? = some s) :
    s.guard ∈ f.guards :=
  List.mem_map_of_mem (List.mem_of_getElem? h)

/-- A tick begins at its beginning, with the guard of its scheduler. -/
theorem calm_startTick {f : Fleet σ} (hs : f.Sound) (i : Nat) (job : Job) :
    f.Calm (f.startTick i job) := by
  unfold startTick
  cases hsched : f.schedulers[i]? with
  | none => exact Calm.refl hs
  | some s =>
    have hcollect := calm_collectTicks hs i
    have hadmits : (f.collectTicks i).Admits (.run i ⟨s.guard, job, .scheduled,
        .entering⟩ .timer) := by
      refine ⟨?_, rfl⟩
      rw [hcollect.guards]
      exact guard_mem hsched
    have hadd := hcollect.trans (calm_addTask hcollect.sound hadmits false)
    exact hadd.trans (calm_inFlight hadd.sound i (· ++ [f.nextNumber]))

/-- Announcing a fire time does not name other drivers. -/
theorem namesDrivers_announce {f : Fleet σ} {entries : List Entry}
    (h : f.NamesDrivers entries) (serial : Nat) (next : Option Time.Instant) :
    f.NamesDrivers (Entry.announce serial next entries) := by
  intro e he n hn
  obtain ⟨e₀, hmem, rfl⟩ := List.mem_map.1 he
  refine h e₀ hmem n ?_
  by_cases hserial : e₀.serial = serial
  · simpa [hserial] using hn
  · simpa [hserial] using hn

/-- Announcing a fire time leaves the drivers that the registry names. -/
theorem calm_announce {f : Fleet σ} (hs : f.Sound) (i serial : Nat) (next : Option Time.Instant) :
    f.Calm (f.changeScheduler i (fun s =>
      { s with entries := Entry.announce serial next s.entries })) :=
  calm_changeScheduler hs i _ (fun _ => rfl) (fun s hs' =>
    namesDrivers_announce (hs.drivers s hs') serial next)

/-- A driver that has asked its trigger waits for the answer, or ends. -/
theorem calm_driveOn {f : Fleet σ} (hs : f.Sound) {task : Task}
    (h : f.Runless task.number) (d : Driver) :
    f.Calm (f.driveOn task d) := by
  unfold driveOn
  cases hnext : d.trigger.next? d.awaited f.world.now with
  | none =>
    have hannounce := calm_announce hs d.scheduler d.serial none
    have hlog := hannounce.trans
      (calm_emit hannounce.sound .info "Trigger has no further fire times"
      [("job_id", .str d.job.id)])
    exact hlog.trans (calm_finish hlog.sound (hlog.runless h) _)
  | some next =>
    have hannounce := calm_announce hs d.scheduler d.serial (some next)
    have hlog := hannounce.trans (calm_emit hannounce.sound .debug "Next tick scheduled"
      [("job_id", .str d.job.id), ("next_run_time", .str (Time.Timestamp.display next))])
    simp only
    split
    · have hstop := hlog.trans
        (calm_emit hlog.sound .debug "Shutdown signal received, stopping trigger"
        [("job_id", .str d.job.id)])
      exact hstop.trans (calm_finish hstop.sound (hstop.runless h) _)
    · refine hlog.trans (calm_park hlog.sound (hlog.runless h) rfl _ ?_)
      -- the driver sleeps until the time that its trigger has just answered
      rintro d' instant ⟨⟨⟩, ⟨⟩, -⟩
      exact ⟨rfl, d.awaited, hnext⟩

/-- The turn of a driver touches no run that is there; it may start one. -/
theorem calm_stepDriver {f : Fleet σ} (hs : f.Sound) {task : Task}
    (h : f.Runless task.number) (d : Driver) :
    f.Calm (f.stepDriver task d) := by
  unfold stepDriver
  cases d.awaited with
  | none =>
    simp only
    split
    · exact calm_finish hs h _
    · exact calm_driveOn hs h d
  | some awaited =>
    simp only
    split
    · have hstop := calm_emit hs .debug "Shutdown signal received, stopping trigger"
        [("job_id", .str d.job.id)]
      exact hstop.trans (calm_finish hstop.sound (hstop.runless h) _)
    -- the tick is a task of its own, and then the driver waits again
    · have htick := calm_startTick hs d.scheduler d.job
      exact htick.trans (calm_driveOn htick.sound (htick.runless h) d)

/-- A shutdown that waits for ticks only looks at their ends. -/
theorem calm_stepTicks {f : Fleet σ} (hs : f.Sound) {task : Task}
    (h : f.Runless task.number) (d : Drain) (ticks : List Nat) :
    f.Calm (f.stepTicks task d ticks) := by
  have hcollect := calm_collect hs ticks
  have hlog := hcollect.trans
    (calm_changeWorld hcollect.sound (still_logPanics (f.collect ticks).1 _)
    (sameBooks_logPanics _ _))
  unfold stepTicks
  simp only
  split
  · have hstop := hlog.trans (calm_emit hlog.sound .info "Scheduler stopped" [])
    exact hstop.trans (calm_finish hstop.sound (hstop.runless h) _)
  · exact hlog.trans (calm_parkDrain hlog.sound (hlog.runless h) _ _)

theorem calm_stepDrain {f : Fleet σ} (hs : f.Sound) {task : Task}
    (h : f.Runless task.number) (d : Drain) :
    f.Calm (f.stepDrain task d) := by
  unfold stepDrain
  cases d.phase with
  | ticks ticks => exact calm_stepTicks hs h d ticks
  | drivers drivers =>
    simp only
    split
    · exact calm_parkDrain hs h _ _
    -- all drivers have ended: what is left are the ticks in flight
    · have hcollect := calm_collect hs drivers
      have hflight := hcollect.trans (calm_inFlight hcollect.sound d.scheduler (fun _ => []))
      generalize ((f.schedulers[d.scheduler]?).map (·.inFlight)).getD [] = ticks
      split
      · have hlog := hflight.trans (calm_emit hflight.sound .info "Waiting for in-flight executions"
          [("in_flight", .ofNat ticks.length)])
        exact hlog.trans (calm_stepTicks hlog.sound (hlog.runless h) d _)
      · have hlog := hflight.trans (calm_emit hflight.sound .info "Abandoning in-flight executions"
          [("in_flight", .ofNat ticks.length)])
        have hstop := hlog.trans (calm_emit hlog.sound .info "Scheduler stopped" [])
        have hends := hstop.trans (calm_collect hstop.sound ticks)
        exact hends.trans (calm_finish hends.sound (hends.runless h) _)

/-! ## What a scheduler is asked to do -/

/-- A registry that is looked up names drivers only. -/
theorem Sound.entriesOf {f : Fleet σ} (hs : f.Sound) (i : Nat) :
    f.NamesDrivers (f.entriesOf i) := by
  unfold Fleet.entriesOf
  cases hsched : f.schedulers[i]? with
  | none => exact fun e he => absurd he List.not_mem_nil
  | some s => exact hs.drivers s (List.mem_of_getElem? hsched)

theorem calm_changeEntries {f : Fleet σ} (hs : f.Sound) (i : Nat) (change : List Entry → List Entry)
    (h : ∀ entries, f.NamesDrivers entries → f.NamesDrivers (change entries)) :
    f.Calm (f.changeEntries i change) :=
  calm_changeScheduler hs i _ (fun _ => rfl) (fun s hmem => h s.entries (hs.drivers s hmem))

/-- Aborting what an entry calls its driver drops no run. -/
theorem calm_abortDriver {f : Fleet σ} (hs : f.Sound) {e : Entry} (h : f.Drives e) :
    f.Calm (f.abortDriver e) := by
  unfold abortDriver
  cases hdriver : e.driver with
  | none => exact Calm.refl hs
  | some number => exact calm_dropTask hs (h number hdriver)

/-- An entry can be given a new driver, and names it afterwards. -/
theorem calm_startDriver {f : Fleet σ} (hs : f.Sound) (i : Nat) (e : Entry) :
    f.Calm (f.startDriver i e).2 ∧ (f.startDriver i e).2.Drives (f.startDriver i e).1 := by
  have hadmits : f.Admits (.drive { scheduler := i, serial := e.serial, job := e.job,
                                    trigger := e.trigger }) :=
    rfl
  have hadd : f.Calm (f.startDriver i e).2 := calm_addTask hs hadmits false
  refine ⟨hadd, ?_⟩
  intro number hnumber
  cases hnumber
  -- the entry now names the task that was just added, which is a driver
  have hmem : (⟨f.nextNumber, _, .ready, false⟩ : Task) ∈ (f.startDriver i e).2.tasks :=
    List.mem_append_right _ List.mem_cons_self
  exact hadd.sound.runless hmem rfl

/-- The same where a driver is only started if the scheduler runs. -/
theorem calm_startDriver_if {f : Fleet σ} (hs : f.Sound) (i : Nat) (running : Bool) {e : Entry}
    (h : f.Drives e) :
    f.Calm (if running then f.startDriver i e else (e, f)).2 ∧
      Drives (if running then f.startDriver i e else (e, f)).2 (if running then f.startDriver i e
        else (e, f)).1 := by
  cases running with
  | true => exact calm_startDriver hs i e
  | false => exact ⟨Calm.refl hs, h⟩

/-- What a registry has after an entry was put in is that entry, or was there. -/
theorem mem_insert {e e' : Entry} {entries : List Entry} (h : e' ∈ Entry.insert e entries) :
    e' = e ∨ e' ∈ entries := by
  induction entries with
  | nil => simpa [Entry.insert] using h
  | cons first rest ih =>
    unfold Entry.insert at h
    split at h
    · simpa using h
    · split at h
      · rcases List.mem_cons.1 h with rfl | hrest
        · exact .inl rfl
        · exact .inr (List.mem_cons_of_mem first hrest)
      · rcases List.mem_cons.1 h with rfl | hrest
        · exact .inr List.mem_cons_self
        · exact (ih hrest).imp_right (List.mem_cons_of_mem first)

/-- Putting an entry in aborts the driver of the entry of the same identity, and no run. -/
theorem calm_enter {f : Fleet σ} (hs : f.Sound) (i : Nat) {e : Entry} (h : f.Drives e) :
    f.Calm (f.enter i e) := by
  have hinsert : f.Calm (f.changeEntries i (Entry.insert e)) := by
    apply calm_changeEntries hs
    intro entries hnames e' he'
    rcases mem_insert he' with rfl | hold
    · exact h
    · exact hnames e' hold
  unfold enter
  cases hprevious : Entry.find? e.id (f.entriesOf i) with
  | none => exact hinsert
  | some old =>
    -- the entry that is replaced loses its driver, which is not a run
    have hold : f.Drives old := hs.entriesOf i old (List.mem_of_find?_eq_some hprevious)
    have habort := hinsert.trans (calm_abortDriver hinsert.sound (hinsert.drives hold))
    exact habort.trans (calm_emit habort.sound .warn
      "Job already registered, replacing previous definition" [])

theorem calm_showRegistered {f : Fleet σ} (hs : f.Sound) (i : Nat) : f.Calm (f.showRegistered i) :=
  calm_changeWorld hs (World.still_measure _ _) ⟨⟨rfl, rfl, rfl⟩, rfl, rfl⟩

theorem calm_freshEntry {f : Fleet σ} (hs : f.Sound) (job : Job) (trigger : Schedule.Trigger) :
    f.Calm (f.freshEntry job trigger).2 :=
  .of_tasks ⟨hs.nodup, fun t ht => Nat.lt_succ_of_lt (hs.below t ht), hs.plain, hs.guarded,
      fun s hmem e he n hn =>
      ⟨Nat.lt_succ_of_lt (hs.drivers s hmem e he n hn).1, (hs.drivers s hmem e he n hn).2⟩⟩
    (World.Still.refl _) (World.SameBooks.refl _) rfl (Nat.le_succ _) rfl

/-- Registering a job touches no run, whether it succeeds or not. -/
theorem calm_register {f : Fleet σ} (hs : f.Sound) (i : Nat) (job : Job) :
    f.Calm (f.register i job).2 := by
  unfold register
  cases f.schedulers[i]? with
  | none => exact Calm.refl hs
  | some s =>
    simp only
    split
    · exact calm_emit hs .info "Job disabled, not registering" []
    · cases job.definition.trigger s.config.zone with
      | error e => exact Calm.refl hs
      | ok trigger =>
        have hfresh := calm_freshEntry hs job trigger
        obtain ⟨hdriver, hdrives⟩ :=
          calm_startDriver_if (e := (f.freshEntry job trigger).1) hfresh.sound i s.running nofun
        have hdriver := hfresh.trans hdriver
        have henter := hdriver.trans (calm_enter hdriver.sound i hdrives)
        have hshow := henter.trans (calm_showRegistered henter.sound i)
        exact hshow.trans (calm_emit hshow.sound .info "Job registered"
          [("trigger", .str trigger.display)])

theorem calm_registerAll {f : Fleet σ} (hs : f.Sound) (i : Nat) (jobs : List Job) :
    f.Calm (f.registerAll i jobs).2 := by
  induction jobs generalizing f with
  | nil => exact Calm.refl hs
  | cons job rest ih =>
    have hregister := calm_register hs i job
    unfold registerAll
    rcases hanswer : f.register i job with ⟨answer, g⟩
    rw [hanswer] at hregister
    cases answer with
    | ok registered => exact hregister.trans (ih hregister.sound)
    | error e =>
      have hlog := hregister.trans (calm_emit hregister.sound .error "Failed to register job"
        [("job_id", .str job.id), ("error", .str e.message)])
      exact hlog.trans (ih hlog.sound)

/-- Drivers are given to the first entry and then to the others. -/
theorem startDrivers_cons (f : Fleet σ) (i : Nat) (e : Entry) (rest : List Entry)
    {e' : Entry} {g : Fleet σ} (h : (if e.paused then (e, f) else f.startDriver i e) = (e', g)) :
    f.startDrivers i (e :: rest) = (e' :: (g.startDrivers i rest).1,
      (g.startDrivers i rest).2) := by
  simp only [startDrivers, h]

/-- Giving drivers to entries touches no run, and the entries name drivers afterwards. -/
theorem calm_startDrivers {f : Fleet σ} (hs : f.Sound) (i : Nat) {entries : List Entry}
    (h : f.NamesDrivers entries) :
    f.Calm (f.startDrivers i entries).2 ∧
    (f.startDrivers i entries).2.NamesDrivers (f.startDrivers i entries).1 := by
  induction entries generalizing f with
  | nil => exact ⟨Calm.refl hs, fun e he => absurd he List.not_mem_nil⟩
  | cons e rest ih =>
    rcases hfirst : (if e.paused then (e, f) else f.startDriver i e) with ⟨e', g⟩
    have hstart : f.Calm g ∧ g.Drives e' := by
      split at hfirst
      · cases hfirst
        exact ⟨Calm.refl hs, h e List.mem_cons_self⟩
      · have hdriver := calm_startDriver hs i e
        rw [hfirst] at hdriver
        exact hdriver
    obtain ⟨hcalm, hdrives⟩ := hstart
    obtain ⟨hrest, hnames⟩ :=
      ih hcalm.sound (fun e₁ he₁ => hcalm.drives (h e₁ (List.mem_cons_of_mem e he₁)))
    rw [startDrivers_cons f i e rest hfirst]
    refine ⟨hcalm.trans hrest, ?_⟩
    intro e₁ he₁
    rcases List.mem_cons.1 he₁ with rfl | hold
    · exact hrest.drives hdrives
    · exact hnames e₁ hold

/-- Starting a scheduler touches no run. -/
theorem calm_start {f : Fleet σ} (hs : f.Sound) (i : Nat) : f.Calm (f.start i) := by
  unfold start
  split
  · exact calm_emit hs .warn "Scheduler already running" []
  · obtain ⟨hdrivers, hnames⟩ := calm_startDrivers hs i (hs.entriesOf i)
    have hrunning := hdrivers.trans (calm_changeScheduler hdrivers.sound i
      (fun s => { s with running := true, entries := (f.startDrivers i (f.entriesOf i)).1 })
      (fun _ => rfl) (fun _ _ => hnames))
    exact hrunning.trans (calm_emit hrunning.sound .info "Scheduler started"
      [("job_count", .ofNat (f.startDrivers i (f.entriesOf i)).1.length)])

/-- A registry in which one entry is changed names drivers only if the changed entry does. -/
theorem namesDrivers_change {f : Fleet σ} {entries : List Entry}
    (h : f.NamesDrivers entries) (id : String) {change : Entry → Entry}
    (hchange : ∀ e, f.Drives e → f.Drives (change e)) :
    f.NamesDrivers (Entry.change id change entries) := by
  intro e he
  obtain ⟨e₀, hmem, rfl⟩ := List.mem_map.1 he
  by_cases hid : e₀.id = id
  · rw [if_pos hid]
    exact hchange e₀ (h e₀ hmem)
  · rw [if_neg hid]
    exact h e₀ hmem

/-- Pausing a job touches no run, also none of that job. -/
theorem calm_pause {f : Fleet σ} (hs : f.Sound) (i : Nat) (id : String) :
    f.Calm (f.pause i id).2 := by
  unfold pause
  cases hfound : Entry.find? id (f.entriesOf i) with
  | none => exact Calm.refl hs
  | some e =>
    have habort := calm_abortDriver hs (hs.entriesOf i e (List.mem_of_find?_eq_some hfound))
    have hchange := habort.trans (calm_changeEntries habort.sound i
      (Entry.change id (fun e => { e with paused := true, nextRun := none, driver := none }))
      (fun _ hnames => namesDrivers_change hnames id (fun _ _ => nofun)))
    exact hchange.trans (calm_emit hchange.sound .info "Job paused" [])

theorem calm_resume {f : Fleet σ} (hs : f.Sound) (i : Nat) (id : String) :
    f.Calm (f.resume i id).2 := by
  unfold resume
  cases hfound : Entry.find? id (f.entriesOf i) with
  | none => exact Calm.refl hs
  | some e =>
    have hold : f.Drives { e with paused := false } :=
      hs.entriesOf i e (List.mem_of_find?_eq_some hfound)
    obtain ⟨hdriver, hdrives⟩ := calm_startDriver_if hs i (f.isRunning i && e.driver.isNone) hold
    have hchange := hdriver.trans (calm_changeEntries hdriver.sound i _
      (fun _ hnames => namesDrivers_change hnames id (fun _ _ => hdrives)))
    exact hchange.trans (calm_emit hchange.sound .info "Job resumed" [])

/-- Removing a job touches no run, also none of that job. -/
theorem calm_remove {f : Fleet σ} (hs : f.Sound) (i : Nat) (id : String) :
    f.Calm (f.remove i id).2 := by
  unfold remove
  cases hfound : Entry.find? id (f.entriesOf i) with
  | none => exact Calm.refl hs
  | some e =>
    have herase := calm_changeEntries hs i (Entry.erase id)
      (fun _ hnames e he => hnames e (List.mem_filter.1 he).1)
    have hold := herase.drives (hs.entriesOf i e (List.mem_of_find?_eq_some hfound))
    have habort := herase.trans (calm_abortDriver herase.sound hold)
    have hshow := habort.trans (calm_showRegistered habort.sound i)
    exact hshow.trans (calm_emit hshow.sound .info "Job removed" [])

/-- Telling drivers something changes tasks that are neither runs nor bare locks. -/
theorem calm_mapTasks {f : Fleet σ} (hs : f.Sound) {change : Task → Task}
    (hnumber : ∀ t, (change t).number = t.number)
    (hidle : ∀ t, change t = t ∨ (t.activity.isIdle = true ∧ (change t).activity.isIdle = true ∧
      ∀ d instant, ¬ (change t).Awaits d instant)) :
      f.Calm { f with tasks := f.tasks.map change } := by
  have hsound : Sound { f with tasks := f.tasks.map change } := by
    refine hs.of_tasks ?_ ?_
    · have hnumbers : (f.tasks.map change).map Task.number = f.tasks.map Task.number := by
        rw [List.map_map]
        exact List.map_congr_left (fun t _ => hnumber t)
      rw [hnumbers]
      exact hs.nodup
    · intro t ht
      obtain ⟨t₀, hold, rfl⟩ := List.mem_map.1 ht
      refine ⟨t₀, hold, (hnumber t₀).symm, ?_⟩
      rcases hidle t₀ with hsame | ⟨-, hafter, -⟩
      · exact .inl (by rw [hsame])
      · exact .inr hafter
  refine ⟨hsound, World.Still.refl _, World.SameBooks.refl _, rfl, Nat.le_refl _, ?_, ?_, ?_⟩
  · intro t ht r hr
    have hmem := List.mem_map_of_mem (f := change) ht
    rcases hidle t with hsame | ⟨hbefore, -⟩
    · rw [hsame] at hmem
      exact hmem
    · rw [Task.run?_of_idle hbefore] at hr
      cases hr
  · intro t ht r hr
    obtain ⟨t₀, hold, rfl⟩ := List.mem_map.1 ht
    rcases hidle t₀ with hsame | ⟨-, hafter, -⟩
    · rw [hsame]
      exact .inl hold
    · rw [Task.run?_of_idle hafter] at hr
      cases hr
  · intro t ht d instant hd
    obtain ⟨t₀, hold, rfl⟩ := List.mem_map.1 ht
    rcases hidle t₀ with hsame | ⟨-, -, hnot⟩
    · rw [hsame]
      exact .inl hold
    · exact absurd hd (hnot d instant)

/-- A task after the drivers of a scheduler were told to stop. -/
def told (i : Nat) (t : Task) : Task :=
  match t.activity with
  | .drive d =>
    if d.scheduler = i then { t with activity := .drive { d with stopping := true } } else t
  | _ => t

/-- The drivers of the scheduler then know that they are to stop. -/
theorem stopping_of_told {i : Nat} {t : Task} {d : Driver} (h : (told i t).activity = .drive d)
    (hi : d.scheduler = i) : d.stopping = true := by
  unfold told at h
  cases hactivity : t.activity with
  | drive d₀ =>
    simp only [hactivity] at h
    split at h
    · cases h
      rfl
    · rename_i hne
      rw [hactivity] at h
      cases h
      exact absurd hi hne
  | _ =>
    simp only [hactivity] at h
    cases h

/-- Telling drivers to stop touches no run. -/
theorem calm_signalDrivers {f : Fleet σ} (hs : f.Sound) (i : Nat) : f.Calm (f.signalDrivers i) := by
  unfold signalDrivers
  have htold : f.Calm { f with tasks := f.tasks.map (told i) } := by
    apply calm_mapTasks hs
    · intro t
      unfold told
      cases t.activity with
      | drive d =>
        simp only
        split <;> rfl
      | _ => rfl
    · intro t
      unfold told
      cases hactivity : t.activity with
      | drive d =>
        simp only
        split
        · refine .inr ⟨rfl, rfl, ?_⟩
          rintro d' instant ⟨⟨⟩, -, hgoes⟩
          cases hgoes
        · exact .inl rfl
      | _ => exact .inl rfl
  refine htold.trans (calm_wake htold.sound ?_ ?_)
  · intro t _ hcond
    cases hactivity : t.activity with
    | drive d => exact Task.run?_of_idle (by rw [hactivity]; rfl)
    | _ => simp [hactivity] at hcond
  · intro t ht hcond d instant hd
    obtain ⟨t₀, -, rfl⟩ := List.mem_map.1 ht
    have hi : d.scheduler = i := by
      simp only [hd.activity, Bool.and_eq_true, decide_eq_true_eq] at hcond
      exact hcond.1
    have hstops := stopping_of_told hd.activity hi
    rw [hd.goes] at hstops
    cases hstops

section

variable [LockStore σ]

/-- The turn of a driver or a shutdown. -/
theorem calm_stepTask {f : Fleet σ} (hs : f.Sound) {task : Task} (ht : task ∈ f.tasks)
    (hidle : task.activity.isIdle = true) : f.Calm (f.stepTask task) := by
  have hrunless : f.Runless task.number := hs.runless ht (Task.run?_of_idle hidle)
  unfold stepTask
  cases hactivity : task.activity with
  | drive d => exact calm_stepDriver hs hrunless d
  | drain d => exact calm_stepDrain hs hrunless d
  | run i r c =>
    rw [hactivity] at hidle
    cases hidle
  | acquire a =>
    rw [hactivity] at hidle
    cases hidle

/-- Starting a driver or a shutdown and taking it to its first wait. -/
theorem calm_launch {f : Fleet σ} (hs : f.Sound) {activity : Activity} (hadmits : f.Admits activity)
    (hidle : activity.isIdle = true) (foreground : Bool) :
    f.Calm (f.launch activity foreground).2 := by
  have hadd := calm_addTask hs hadmits foreground
  have hmem : (⟨f.nextNumber, activity, .ready, foreground⟩ : Task) ∈
      (f.addTask activity foreground).tasks :=
    List.mem_append_right _ List.mem_cons_self
  show f.Calm ((f.addTask activity foreground).step f.nextNumber)
  unfold step
  rw [hadd.sound.task?_eq hmem]
  exact hadd.trans (calm_stepTask hadd.sound hmem hidle)

/-- Shutting a scheduler down touches no run by itself. -/
theorem calm_shutdown {f : Fleet σ} (hs : f.Sound) (i : Nat) (waits foreground : Bool) :
    f.Calm (f.shutdown i waits foreground).2 := by
  unfold shutdown
  split
  · exact calm_emit hs .debug "Scheduler not running" []
  · have hstop := calm_changeScheduler hs i
      (fun s => { s with running := false,
                         entries := s.entries.map (fun e => { e with driver := none }) })
      (fun _ => rfl) (fun s _ e he => by
        obtain ⟨e₀, -, rfl⟩ := List.mem_map.1 he
        exact nofun)
    have hsignal := hstop.trans (calm_signalDrivers hstop.sound i)
    exact hsignal.trans (calm_launch hsignal.sound (by trivial) rfl foreground)

end

end Fleet

end JobFleet
