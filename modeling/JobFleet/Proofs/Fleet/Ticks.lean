/-
  JobFleet.Proofs.Fleet.Ticks: counting the ticks that the timer starts.

  A tick that an occurrence starts is there afterwards under a number that was not given out before.
  Only the turn of a driver starts one, and it starts one tick of its own job.  `ticksAt` counts the
  ticks of a job over a row of occurrences, at one instant.

  Main results:
    * `fired_of_started`, `started_of_fired` — a tick is started by a driver that fires, and it is
      the only one.
    * `ticksAt_of_lt`, `ticksAt_of_gt` — an instant has no ticks before the clock has reached it,
      and no more after.
-/
import JobFleet.Proofs.Fleet.Periods

namespace JobFleet

open JobFleet.Time

/-- The task is a tick of this job of the scheduler, and the timer started it. -/
def Task.isTick (i : Nat) (id : String) (t : Task) : Bool :=
  match t.activity with
  | .run j r .timer => decide (j = i ∧ r.job.id = id)
  | _ => false

theorem Task.isTick_iff {i : Nat} {id : String} {t : Task} :
    t.isTick i id = true ↔ ∃ r, t.activity = .run i r .timer ∧ r.job.id = id := by
  unfold isTick
  constructor
  · intro h
    split at h
    · rename_i j r hactivity
      obtain ⟨rfl, hid⟩ := of_decide_eq_true h
      exact ⟨r, hactivity, hid⟩
    · cases h
  · intro h
    obtain ⟨r, hactivity, hid⟩ := h
    rw [hactivity]
    exact decide_eq_true ⟨rfl, hid⟩

namespace Fleet

/-- How many ticks of a job the timer starts in an occurrence. -/
def started (f : Fleet FaultyStore) (o : Occurrence) (i : Nat) (id : String) : Nat :=
  (f.occur o).tasks.countP (fun t => decide (f.nextNumber ≤ t.number) && t.isTick i id)

/-- How many ticks of a job the timer starts at an instant. -/
def ticksAt (i : Nat) (id : String) (x : Instant) (f : Fleet FaultyStore) : List Occurrence → Nat
  | [] => 0
  | o :: rest => (if f.world.now = x then f.started o i id else 0) + (f.occur o).ticksAt i id x rest

section

variable {f g : Fleet FaultyStore} {o : Occurrence} {i n m : Nat} {id : String}
    {d : Driver} {r : Run}

/-! ## One occurrence -/

/-- The turn of a driver leaves the other tasks alone. -/
theorem does_of_driverTurn (h : DriverTurn n d f g) {a : Activity} (hne : m ≠ n) :
    f.Does m a → g.Does m a := by
  intro ha
  cases h with
  | fails _ _ h => exact (h.does m a).2 (.inl ⟨hne, ha⟩)
  | begins _ _ h => exact (h.does m a).2 (.inl ⟨hne, ha⟩)
  | stops _ h => exact (h.does m a).2 (.inl ⟨hne, ha⟩)
  | stray _ _ h => exact (h.does m a).2 (.inl ⟨hne, ha⟩)
  | fires _ _ _ h => exact (h.does m a).2 (.inl ⟨hne, ha⟩)

/-- What a driver goes on with is not a run. -/
theorem rest_ne_run {now : Instant} {c : Caller} : d.rest now ≠ some (.run i r c) := by
  intro hrest
  obtain ⟨-, next, -, hactivity⟩ := Driver.rest_eq_some hrest
  cases hactivity

/-- A driver has its turn and fires; if it was told to stop, then only for a time that has come. -/
structure Fired (n : Nat) (d : Driver) (f : Fleet FaultyStore) (o : Occurrence)
    (g : Fleet FaultyStore) : Prop where
  turn : o.plain = .turn n
  does : f.Does n (.drive d)
  awaited : d.awaited ≠ none
  due : d.stopping = true → d.IsDue f.world
  fires : ∃ r : Run, r.job = d.job ∧ Fires n d r f g

/-- Only a driver that fires starts a tick. -/
theorem fired_of_does (hs : f.Sound) (h : Effect f o g) (hnew : f.nextNumber ≤ m)
    (hr : g.Does m (.run i r .timer)) :
    ∃ n d, Fired n d f o g := by
  have hold : ¬ f.Does m (.run i r .timer) := fun hold =>
    absurd (hs.lt_of_does hold) (Nat.not_lt.2 hnew)
  cases h with
  | turns h =>
    cases h with
    | rests h => exact absurd ((h.does m _).1 hr) hold
    | asks honest h =>
      obtain hbefore | ⟨-, hadded⟩ := (h.does m _).1 hr
      · exact absurd hbefore hold
      · injection hadded with _ _ hcaller
        exact absurd hcaller.symm honest
    | runs _ hdoes h =>
      obtain ⟨-, hbefore⟩ | ⟨rfl, -⟩ := (h.does m _).1 hr
      · exact absurd hbefore hold
      · exact absurd (hs.lt_of_does hdoes) (Nat.not_lt.2 hnew)
    | drains _ _ h => exact absurd (does_of_drainTurn h hr (fun _ => by simp)) hold
    | @drives n d ho hdoes h =>
      -- a driver that only goes on or ends starts nothing
      have hacts : ∀ now, ¬ Acts n (d.rest now) f g := by
        intro now hacts
        obtain ⟨-, hbefore⟩ | ⟨-, hgoes⟩ := (hacts.does m _).1 hr
        · exact hold hbefore
        · exact rest_ne_run hgoes
      have hends : ¬ Acts n none f g := by
        intro hacts
        obtain ⟨-, hbefore⟩ | ⟨-, hgoes⟩ := (hacts.does m _).1 hr
        · exact hold hbefore
        · cases hgoes
      cases h with
      | fails _ _ h => exact absurd h hends
      | begins _ _ h => exact absurd h (hacts _)
      | stops _ h => exact absurd h hends
      | stray _ _ h => exact absurd h (hacts _)
      | fires hawaited hdue hjob h => exact ⟨n, d, ho, hdoes, hawaited, hdue, _, hjob, h⟩
  | rewires h =>
    obtain hbefore | ⟨-, -, e, hdriver⟩ := h.origin m _ hr
    · exact absurd hbefore hold
    · cases hdriver
  | stops _ h =>
    obtain ⟨mid, drain, -, htells, -, hturn⟩ := h
    obtain ⟨b, hb, htold⟩ | ⟨-, hdrain⟩ :=
      (htells.does m _).1 (does_of_drainTurn hturn hr (fun _ => by simp))
    · rw [Activity.eq_of_told htold.symm (fun _ hdrive => by cases hdrive)] at hb
      exact absurd hb hold
    · cases hdrain

/-- A tick that has been started is one of the job whose driver fired. -/
theorem run_of_fires (hs : f.Sound) (h : Fires n d r f g) (hdoes : f.Does n (.drive d))
    {c : Caller} {r' : Run} (hnew : f.nextNumber ≤ m) (hr : g.Does m (.run i r' c)) :
    m = f.nextNumber ∧ i = d.scheduler ∧ r' = r := by
  obtain ⟨-, hold⟩ | ⟨rfl, -⟩ | ⟨hm, hrun⟩ := (h.does m _).1 hr
  · exact absurd (hs.lt_of_does hold) (Nat.not_lt.2 hnew)
  · exact absurd (hs.lt_of_does hdoes) (Nat.not_lt.2 hnew)
  · injection hrun with hi hrun _
    exact ⟨hm, hi, hrun⟩

/-- What starts a tick of a job is a driver of the job that fires. -/
theorem fired_of_started (hs : f.Sound) (hw : f.Wired) (h : f.started o i id ≠ 0) :
    ∃ n d, d.scheduler = i ∧ d.job.id = id ∧ Fired n d f o (f.occur o) := by
  obtain ⟨t, ht, hcounts⟩ := List.countP_pos_iff.1 (Nat.pos_of_ne_zero h)
  obtain ⟨hnumber, htick⟩ := Bool.and_eq_true_iff.1 hcounts
  have hnew := of_decide_eq_true hnumber
  obtain ⟨r', hactivity, hid⟩ := Task.isTick_iff.1 htick
  have hr : (f.occur o).Does t.number (.run i r' .timer) := hactivity ▸ does_of_mem ht
  obtain ⟨n, d, hfired⟩ := fired_of_does hs (effect_occur hs hw o) hnew hr
  obtain ⟨r, hjob, hfires⟩ := hfired.fires
  obtain ⟨-, rfl, rfl⟩ := run_of_fires hs hfires hfired.does hnew hr
  exact ⟨n, d, rfl, hjob ▸ hid, hfired⟩

/-- A driver that fires starts one tick. -/
theorem started_of_fired (hs : f.Sound) (h : Fired n d f o (f.occur o)) :
    f.started o d.scheduler d.job.id = 1 := by
  have hsound := (occur_happens hs o).sound hs
  obtain ⟨r, hjob, hfires⟩ := h.fires
  obtain ⟨t, ht, hnumber, hactivity⟩ := (hfires.does f.nextNumber _).2 (.inr (.inr ⟨rfl, rfl⟩))
  -- the ticks that are counted are those with the next number
  have hcounted : ∀ t' ∈ (f.occur o).tasks,
    (decide (f.nextNumber ≤ t'.number) && t'.isTick d.scheduler d.job.id) = true ↔
      (t'.number == f.nextNumber) = true := by
    intro t' ht'
    rw [Bool.and_eq_true_iff, decide_eq_true_eq, Task.isTick_iff, beq_iff_eq]
    constructor
    · intro hcounts
      obtain ⟨hnew, r', hactivity', -⟩ := hcounts
      exact (run_of_fires hs hfires h.does hnew (hactivity' ▸ does_of_mem ht')).1
    · intro hsame
      rw [hsound.task_unique ht' ht (hsame.trans hnumber.symm)]
      exact ⟨Nat.le_of_eq hnumber.symm, r, hactivity, by rw [hjob]⟩
  have hcount := List.count_eq_one_of_mem hsound.nodup (List.mem_map_of_mem ht)
  rw [hnumber, List.count, List.countP_map] at hcount
  unfold started
  rw [List.countP_congr hcounted]
  exact hcount

end

/-! ## A row of occurrences -/

section

variable {f : Fleet FaultyStore} {row before : List Occurrence} {o : Occurrence} {i : Nat}
    {id : String} {x : Instant}

theorem ticksAt_concat (f : Fleet FaultyStore) (row : List Occurrence) (o : Occurrence) :
    f.ticksAt i id x (row ++ [o]) =
      f.ticksAt i id x row + if (f.through row).world.now = x then
      (f.through row).started o i id else 0 := by
  induction row generalizing f with
  | nil => exact Nat.add_comm _ 0
  | cons o₀ row ih =>
    show (if f.world.now = x then f.started o₀ i id else 0) +
      (f.occur o₀).ticksAt i id x (row ++ [o]) =
      (if f.world.now = x then f.started o₀ i id else 0) + (f.occur o₀).ticksAt i id x row + _
    rw [ih, Nat.add_assoc]
    rfl

/-- The clock does not go back. -/
theorem now_through (hs : f.Sound) (h : before <+: row) :
    (f.through before).world.now ≤ (f.through row).world.now := by
  have hle := elapsed_through hs h
  show (f.through before).world.start.nanos + (f.through before).world.elapsed * nanosPerMilli ≤
    (f.through row).world.start.nanos + (f.through row).world.elapsed * nanosPerMilli
  rw [start_through hs, start_through hs]
  unfold nanosPerMilli
  omega

/-- An instant that the clock has not reached has no ticks. -/
theorem ticksAt_of_lt (hs : f.Sound) (hlt : (f.through row).world.now.nanos < x.nanos) :
    f.ticksAt i id x row = 0 := by
  induction row using List.reverseRecOn with
  | nil => rfl
  | append_singleton row o ih =>
    have hle : (f.through row).world.now.nanos ≤ (f.through (row ++ [o])).world.now.nanos :=
      now_through hs (List.prefix_append row [o])
    have hbefore : (f.through row).world.now.nanos < x.nanos := Int.lt_of_le_of_lt hle hlt
    rw [ticksAt_concat, ih hbefore, if_neg]
    intro hnow
    rw [hnow] at hbefore
    exact Int.lt_irrefl _ hbefore

/-- An instant that has passed gets no more ticks. -/
theorem ticksAt_of_gt (hs : f.Sound) (hpre : before <+: row)
    (hlt : x.nanos < (f.through before).world.now.nanos) :
    f.ticksAt i id x row = f.ticksAt i id x before := by
  obtain ⟨rest, rfl⟩ := hpre
  induction rest using List.reverseRecOn with
  | nil => rw [List.append_nil]
  | append_singleton rest o ih =>
    have hle : (f.through before).world.now.nanos ≤ (f.through (before ++ rest)).world.now.nanos :=
      now_through hs (List.prefix_append before rest)
    rw [← List.append_assoc, ticksAt_concat, ih, if_neg]
    · rfl
    · intro hnow
      rw [hnow] at hle
      exact absurd hle (Int.not_le.2 hlt)

/-- An instant with a tick is that of the clock at some point, and there a tick is started. -/
theorem exists_started (h : 0 < f.ticksAt i id x row) :
    ∃ point o, point ++ [o] <+: row ∧ (f.through point).world.now = x ∧
    (f.through point).started o i id ≠ 0 := by
  induction row using List.reverseRecOn with
  | nil => cases h
  | append_singleton row o ih =>
    by_cases hbefore : 0 < f.ticksAt i id x row
    · obtain ⟨point, o', hpre, hrest⟩ := ih hbefore
      exact ⟨point, o', hpre.trans (List.prefix_append row [o]), hrest⟩
    · rw [ticksAt_concat] at h
      by_cases hnow : (f.through row).world.now = x
      · rw [if_pos hnow] at h
        exact ⟨row, o, List.prefix_rfl, hnow, by omega⟩
      · rw [if_neg hnow] at h
        omega

end

end Fleet

end JobFleet
