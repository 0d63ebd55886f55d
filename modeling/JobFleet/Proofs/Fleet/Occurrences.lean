/-
  JobFleet.Proofs.Fleet.Occurrences: moves, and drivers that fire although they were told to stop.

  A driver whose fire time comes at the moment at which its scheduler is stopped finds two things to
  wake it, and may take either first.  The machine lets it stop.  An occurrence is a move, or the
  other choice: the driver fires once more before it stops.  What is shown for `Fleet.through` holds
  whichever choice is made each time, and for every interleaving.

  A request is never made in the timer's name, so that the ticks of a row of occurrences are those
  that drivers start.

  Main results:
    * `occur_happens` — an occurrence is calm, lets time pass, changes what fails, or is one piece
      of one run.
    * `sound_through` — every fleet that is reached is sound.
-/
import JobFleet.Proofs.Fleet.Punctual

namespace JobFleet

/-! ## Occurrences -/

/-- A request names who makes it, and that is not the timer. -/
def Move.IsHonest : Move → Prop
  | .request _ _ _ caller _ => caller ≠ .timer
  | _ => True

instance : DecidablePred Move.IsHonest
  | .request _ _ _ caller _ => inferInstanceAs (Decidable (caller ≠ .timer))
  | .turn _ | .pass _ | .fail _ | .register _ _ | .registerAll _ _ | .start _ | .shutdown _ _
    _ | .pause _ _ | .resume _ _
  | .remove _ _ => .isTrue trivial

/-- What can occur in a fleet. -/
inductive Occurrence
  | move (m : Move) (honest : m.IsHonest := by trivial)
  /-- A driver that was told to stop fires for the time that has come, and then stops. -/
  | race (number : Nat)

/-- The move in whose place it occurs. -/
def Occurrence.plain : Occurrence → Move
  | .move m _ => m
  | .race number => .turn number

/-- A scheduler is shut down. -/
def Occurrence.Stops (i : Nat) (o : Occurrence) : Prop :=
  ∃ waits foreground, o.plain = .shutdown i waits foreground

/-- The fire time of a driver has come. -/
def Driver.IsDue {σ : Type} (d : Driver) (w : World σ) : Prop :=
  ∃ instant, d.awaited = some instant ∧ w.momentOf instant ≤ w.elapsed

instance {σ : Type} (d : Driver) (w : World σ) : Decidable (d.IsDue w) :=
  match h : d.awaited with
  | none => .isFalse (by rintro ⟨instant, hawaited, -⟩; rw [h] at hawaited; cases hawaited)
  | some instant =>
    decidable_of_iff (w.momentOf instant ≤ w.elapsed)
      ⟨fun hle => ⟨instant, h, hle⟩, fun ⟨_, hawaited, hle⟩ =>
        Option.some.inj (h.symm.trans hawaited) ▸ hle⟩

namespace Fleet

/-- A driver fires although it was told to stop, if its fire time has come. -/
def race {σ : Type} (number : Nat) (f : Fleet σ) : Fleet σ :=
  match f.task? number with
  | none => f
  | some task =>
    match task.activity with
    | .drive d =>
      if d.stopping = true ∧ d.IsDue f.world then
        (f.startTick d.scheduler d.job).driveOn task d else f
    | _ => f

/-- Lets something occur. -/
def occur (f : Fleet FaultyStore) : Occurrence → Fleet FaultyStore
  | .move m _ => f.make m
  | .race number => f.race number

/-- The fleet after a row of occurrences. -/
def through (f : Fleet FaultyStore) (row : List Occurrence) : Fleet FaultyStore := row.foldl occur f

/-- The last occurrence of a row comes after the others. -/
theorem through_concat (f : Fleet FaultyStore) (row : List Occurrence) (o : Occurrence) :
    f.through (row ++ [o]) = (f.through row).occur o := by
  simp [through]

/-- Racing leaves the runs alone, as the turn of a driver does. -/
theorem calm_race {f : Fleet FaultyStore} (hs : f.Sound) (number : Nat) :
    f.Calm (f.race number) := by
  unfold race
  cases hfound : f.task? number with
  | none => exact Calm.refl hs
  | some t =>
    obtain ⟨ht, -⟩ := task?_eq_some hfound
    cases hactivity : t.activity with
    | drive d =>
      simp only [hactivity]
      split
      · have hrunless : f.Runless t.number :=
          hs.runless ht (Task.run?_of_idle (by rw [hactivity]; rfl))
        have htick := calm_startTick hs d.scheduler d.job
        exact htick.trans (calm_driveOn htick.sound (htick.runless hrunless) d)
      · exact Calm.refl hs
    | _ =>
      simp only [hactivity]
      exact Calm.refl hs

theorem occur_happens {f : Fleet FaultyStore} (hs : f.Sound) (o : Occurrence) :
    f.Happens o.plain (f.occur o) := by
  cases o with
  | move m honest => exact make_happens hs m
  | race number => exact .calm (calm_race hs number)

/-! ## What holds through any row -/

variable {f : Fleet FaultyStore} {row before : List Occurrence} {o : Occurrence}

/-- Every fleet that is reached from a sound one is sound. -/
theorem sound_through (hs : f.Sound) (row : List Occurrence) : (f.through row).Sound := by
  induction row using List.reverseRecOn with
  | nil => exact hs
  | append_singleton row o ih =>
    rw [through_concat]
    exact (occur_happens ih o).sound ih

theorem guards_through (hs : f.Sound) (row : List Occurrence) :
    (f.through row).guards = f.guards := by
  induction row using List.reverseRecOn with
  | nil => rfl
  | append_singleton row o ih =>
    rw [through_concat, (occur_happens (sound_through hs row) o).guards, ih]

theorem start_through (hs : f.Sound) (row : List Occurrence) :
    (f.through row).world.start = f.world.start := by
  induction row using List.reverseRecOn with
  | nil => rfl
  | append_singleton row o ih =>
    have hsound := sound_through hs row
    rw [through_concat, (occur_happens hsound o).start hsound, ih]

/-- Time does not go back from one point of a row to a later one. -/
theorem elapsed_through (hs : f.Sound) (h : before <+: row) :
    (f.through before).world.elapsed ≤ (f.through row).world.elapsed := by
  obtain ⟨rest, rfl⟩ := h
  induction rest using List.reverseRecOn with
  | nil => rw [List.append_nil]
  | append_singleton rest o ih =>
    have hsound := sound_through hs (before ++ rest)
    rw [← List.append_assoc, through_concat]
    exact Nat.le_trans ih ((occur_happens hsound o).elapsed hsound)

/-! ## Before anything was asked -/

/-- Nothing has been asked yet: no scheduler runs, and nothing is registered. -/
structure Pristine (f : Fleet FaultyStore) : Prop where
  tasks : f.tasks = []
  ends : f.ends = []
  idle : ∀ s ∈ f.schedulers, s.running = false ∧ s.entries = [] ∧ s.inFlight = []

/-- A fleet of which nothing has been asked is fresh. -/
theorem Pristine.fresh (h : f.Pristine) : f.Fresh where
  tasks := h.tasks
  drivers := by
    intro s hs e he
    rw [(h.idle s hs).2.1] at he
    cases he

theorem Pristine.sound (h : f.Pristine) : f.Sound := h.fresh.sound

/-- One scheduler of which nothing has been asked. -/
def untouched : Fleet FaultyStore where
  world := { start := ⟨0⟩, locks := {} }
  schedulers := [{ config := {}, lock := ⟨"job_lock", .scheduler 0, 100⟩ }]

theorem pristine_untouched : untouched.Pristine := by
  refine ⟨rfl, rfl, ?_⟩
  intro s hs
  rw [List.mem_singleton.1 hs]
  exact ⟨rfl, rfl, rfl⟩

end Fleet

end JobFleet
