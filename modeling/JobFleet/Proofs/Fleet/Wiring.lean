/-
  JobFleet.Proofs.Fleet.Wiring: every driver belongs to an entry, or to a shutdown.

  `Wired` is what holds of the registries and the drivers of a fleet at all times.  An entry names
  its driver exactly while its scheduler runs and it is not paused.  A driver that was not told to
  stop is the one that some entry names, and fires what that entry says; a driver that was told to
  stop is one that a shutdown waits for.

  The turns of tasks keep this, since they change no registry and a task only becomes what it can
  become (`Becomes`).

  Main results:
    * `Wired.of_turned` — what occurs without a request to a registry keeps a fleet wired.
-/
import JobFleet.Proofs.Fleet.Registry

namespace JobFleet

open JobFleet.Schedule

namespace Fleet

section

variable {σ : Type} {f g : Fleet σ}

/-- How the drivers of a fleet belong to its registries and its shutdowns. -/
structure Wired (f : Fleet σ) : Prop where
  sorted : ∀ i, Entry.Sorted (f.registry i)
  /-- A serial number tells an entry from the others. -/
  serials : ∀ i, ∀ e ∈ f.registry i, ∀ e' ∈ f.registry i, e.serial = e'.serial → e = e'
  below : ∀ i, ∀ e ∈ f.registry i, e.serial < f.nextNumber
  declared : ∀ i, ∀ e ∈ f.registry i, ∃ zone, f.zone? i = some zone ∧
    e.job.definition.trigger zone = .ok e.trigger
  /-- An entry only has a driver while it may fire, and that is a driver of its own. -/
  handles : ∀ i, ∀ e ∈ f.registry i, ∀ n, e.driver = some n → f.isRunning i = true ∧
    e.paused = false ∧
    n < f.nextNumber ∧ ∀ a, f.Does n a → ∃ awaited, a =
      .drive { e.driverOf i with awaited := awaited }
  /-- While an entry may fire it has a driver. -/
  driven : ∀ i, f.isRunning i = true → ∀ e ∈ f.registry i, e.paused = false → ∃ n, e.driver = some n
  /-- A driver that was not told to stop is the driver of an entry. -/
  named : ∀ n d, f.Does n (.drive d) → d.stopping = false →
    ∃ e ∈ f.registry d.scheduler, e.driver = some n
  /-- A shutdown waits for a driver that was told to stop. -/
  awaited : ∀ n d, f.Does n (.drive d) → d.stopping = true →
    ∃ m drain drivers, f.Does m (.drain drain) ∧
    drain.scheduler = d.scheduler ∧ drain.phase = .drivers drivers ∧ n ∈ drivers
  /-- What has ended is not there. -/
  buried : ∀ e ∈ f.ends, e.1 < f.nextNumber ∧ ∀ a, ¬ f.Does e.1 a

/-! ## What a task can become -/

/-- One activity can become the other while a task goes on. -/
inductive Becomes : Activity → Activity → Prop
  | same (a : Activity) : Becomes a a
  /-- A driver waits for another fire time. -/
  | drive (d : Driver) (awaited : Option Time.Instant) : Becomes (.drive d)
    (.drive { d with awaited := awaited })
  | run (i : Nat) (r r' : Run) (c : Caller) : Becomes (.run i r c) (.run i r' c)
  /-- A shutdown does not go back to waiting for drivers. -/
  | drain (d : Drain) (phase : DrainPhase) (h : ∀ ticks, d.phase = .ticks ticks →
    ∃ left, phase = .ticks left) :
      Becomes (.drain d) (.drain { d with phase := phase })

/-- A driver comes from a driver that differs from it at most in what it waits for. -/
theorem Becomes.of_drive {a : Activity} {d : Driver} (h : Becomes a (.drive d)) :
    ∃ awaited, a = .drive { d with awaited := awaited } := by
  cases h with
  | same => exact ⟨d.awaited, rfl⟩
  | drive d₀ awaited => exact ⟨d₀.awaited, rfl⟩

theorem Becomes.drive_eq {a : Activity} {d : Driver} (h : Becomes (.drive d) a) :
    ∃ awaited, a = .drive { d with awaited := awaited } := by
  cases h with
  | same => exact ⟨d.awaited, rfl⟩
  | drive _ awaited => exact ⟨awaited, rfl⟩

/-- A run comes from a run of the same scheduler and caller. -/
theorem Becomes.of_run {a : Activity} {i : Nat} {r : Run} {c : Caller}
    (h : Becomes a (.run i r c)) :
    ∃ r₀, a = .run i r₀ c := by
  cases h with
  | same => exact ⟨r, rfl⟩
  | run _ r₀ => exact ⟨r₀, rfl⟩

theorem Becomes.run_eq {a : Activity} {i : Nat} {r : Run} {c : Caller}
    (h : Becomes (.run i r c) a) :
    ∃ r', a = .run i r' c := by
  cases h with
  | same => exact ⟨r, rfl⟩
  | run _ _ r' => exact ⟨r', rfl⟩

/-- A shutdown comes from a shutdown, and one that waits for ticks goes on waiting for ticks. -/
theorem Becomes.of_drain {a : Activity} {d : Drain} (h : Becomes a (.drain d)) :
    ∃ d₀, a = .drain d₀ ∧ d₀.scheduler = d.scheduler ∧
    (∀ ticks, d₀.phase = .ticks ticks → ∃ left, d.phase = .ticks left) := by
  cases h with
  | same => exact ⟨d, rfl, rfl, fun ticks hticks => ⟨ticks, hticks⟩⟩
  | drain d₀ phase hphase => exact ⟨d₀, rfl, rfl, hphase⟩

/-- What a driver goes on with is what a driver can become. -/
theorem becomes_rest {d : Driver} {now : Time.Instant} {a : Activity} (h : d.rest now = some a) :
    Becomes (.drive d) a := by
  obtain ⟨-, next, -, rfl⟩ := Driver.rest_eq_some h
  exact .drive d (some next)

/-- A shutdown that still waits is what a shutdown can become. -/
theorem becomes_stillWaits {d : Drain} {ticks : List Nat} {a : Activity}
    (h : f.stillWaits d ticks = some a) :
    Becomes (.drain d) a := by
  rw [stillWaits_eq_some h]
  exact .drain d _ (fun _ _ => ⟨_, rfl⟩)

/-! ## Turns -/

/-- What every turn has in common: registries stay, every task is one that was there or a run, and a
    shutdown goes on waiting for the drivers that have not ended. -/
structure Turned (f g : Fleet σ) : Prop where
  frames : g.frames = f.frames
  next : f.nextNumber ≤ g.nextNumber
  origin : ∀ n a, g.Does n a → (∃ a₀, f.Does n a₀ ∧ Becomes a₀ a) ∨
    (f.nextNumber ≤ n ∧ ∃ i r c, a = .run i r c)
  waiting : ∀ m d drivers, f.Does m (.drain d) → d.phase = .drivers drivers →
    ∀ n ∈ drivers, (∃ a, f.Does n a) →
    ∃ d' left, g.Does m (.drain d') ∧ d'.scheduler = d.scheduler ∧
    d'.phase = .drivers left ∧ n ∈ left
  ends : ∀ e ∈ g.ends, e ∈ f.ends ∨ (e.1 < f.nextNumber ∧ ∀ a, ¬ g.Does e.1 a)

/-- Where nothing is different, nothing has turned. -/
theorem Turned.of_alike (h : f.Alike g) : Turned f g where
  frames := h.frames
  next := Nat.le_of_eq h.next.symm
  origin := fun n a ha => .inl ⟨a, (h.does n a).1 ha, .same a⟩
  waiting := fun m d drivers hdoes hphase _ hn _ =>
    ⟨d, drivers, (h.does m _).2 hdoes, rfl, hphase, hn⟩
  ends := fun e he => .inl (h.ends e he)

/-- A run that was added is a new task. -/
theorem Turned.of_adds {i : Nat} {r : Run} {c : Caller}
    (h : Adds (.run i r c) f g) : Turned f g where
  frames := h.frames
  next := by
    rw [h.next]
    exact Nat.le_succ _
  origin := by
    intro n a ha
    rcases (h.does n a).1 ha with hold | ⟨rfl, rfl⟩
    · exact .inl ⟨a, hold, .same a⟩
    · exact .inr ⟨Nat.le_refl _, i, r, c, rfl⟩
  waiting := fun m d drivers hdoes hphase _ hn _ =>
    ⟨d, drivers, (h.does m _).2 (.inl hdoes), rfl, hphase, hn⟩
  ends := by
    intro e he
    rw [h.ends] at he
    exact .inl he

/-- The turn of a task that goes on as it can, and of which no shutdown for drivers is left without
    its drivers. -/
theorem Turned.of_does {n : Nat} {a : Activity} {rest : Option Activity}
    (new : Nat → Activity → Prop) (hs : f.Sound) (hdoes : f.Does n a)
    (hframes : g.frames = f.frames) (hnext : f.nextNumber ≤ g.nextNumber)
    (h : ∀ m b, g.Does m b ↔ (m ≠ n ∧ f.Does m b) ∨ (m = n ∧ rest = some b) ∨ new m b)
    (hnew : ∀ m b, new m b → m = f.nextNumber ∧ ∃ i r c, b = .run i r c)
    (hends : ∀ e ∈ g.ends, e ∈ f.ends ∨ (e.1 = n ∧ rest = none))
    (hrest : ∀ b, rest = some b → Becomes a b)
    (hwaiting : ∀ d drivers, a = .drain d → d.phase = .drivers drivers →
      ∀ k ∈ drivers, (∃ b, f.Does k b) →
      ∃ left, rest = some (.drain { d with phase := .drivers left }) ∧ k ∈ left) : Turned f g where
  frames := hframes
  next := hnext
  origin := by
    intro m b hb
    -- another task, the task whose turn it was, or the run that it started
    rcases (h m b).1 hb with ⟨-, hold⟩ | ⟨rfl, hgoes⟩ | hadded
    · exact .inl ⟨b, hold, .same b⟩
    · exact .inl ⟨a, hdoes, hrest b hgoes⟩
    · obtain ⟨rfl, hrun⟩ := hnew m b hadded
      exact .inr ⟨Nat.le_refl _, hrun⟩
  waiting := by
    intro m d drivers hdrain hphase k hk hlive
    by_cases hm : m = n
    · -- the shutdown itself has its turn
      subst hm
      obtain ⟨left, hgoes, hmem⟩ :=
        hwaiting d drivers (hs.does_unique hdoes hdrain) hphase k hk hlive
      exact ⟨_, left, (h m _).2 (.inr (.inl ⟨rfl, hgoes⟩)), rfl, rfl, hmem⟩
    · exact ⟨d, drivers, (h m _).2 (.inl ⟨hm, hdrain⟩), rfl, hphase, hk⟩
  ends := by
    intro e he
    rcases hends e he with hold | ⟨heq, hnone⟩
    · exact .inl hold
    · have hbelow := hs.lt_of_does hdoes
      refine .inr ⟨heq ▸ hbelow, ?_⟩
      intro b hb
      rcases (h e.1 b).1 hb with ⟨hne, -⟩ | ⟨-, hgoes⟩ | hadded
      · exact hne heq
      · rw [hnone] at hgoes
        cases hgoes
      · have := (hnew _ _ hadded).1
        omega

/-- A task that acts turns the fleet, if it becomes what it can become and waits on for drivers that
    have not ended. -/
theorem Turned.of_acts {n : Nat} {a : Activity} {rest : Option Activity} (hs : f.Sound)
    (hdoes : f.Does n a) (h : Acts n rest f g) (hrest : ∀ b, rest = some b → Becomes a b)
    (hwaiting : ∀ d drivers, a = .drain d → d.phase = .drivers drivers →
      ∀ k ∈ drivers, (∃ b, f.Does k b) →
      ∃ left, rest = some (.drain { d with phase := .drivers left }) ∧ k ∈ left) : Turned f g := by
  refine .of_does (fun _ _ => False) hs hdoes h.frames
    (Nat.le_of_eq h.next.symm) ?_ ?_ h.ends hrest hwaiting
  · intro m b
    rw [h.does]
    simp
  · exact fun _ _ hfalse => absurd hfalse id

/-- The turn of a driver turns the fleet, also when it fires. -/
theorem Turned.of_driverTurn {n : Nat} {d : Driver} (hs : f.Sound) (hdoes : f.Does n (.drive d))
    (h : DriverTurn n d f g) : Turned f g := by
  -- a driver is no shutdown
  have hwaiting : ∀ (rest : Option Activity) (d' : Drain) (drivers : List Nat),
    Activity.drive d = .drain d' →
      d'.phase = .drivers drivers → ∀ k ∈ drivers, (∃ b, f.Does k b) →
        ∃ left, rest = some (.drain { d' with phase := .drivers left }) ∧ k ∈ left := by
    intro rest d' drivers hactivity
    cases hactivity
  have hnone : ∀ b, none = some b → Becomes (.drive d) b := by
    intro b hb
    cases hb
  cases h with
  | fails _ _ hacts => exact .of_acts hs hdoes hacts hnone (hwaiting none)
  | begins _ _ hacts => exact .of_acts hs hdoes hacts (fun _ => becomes_rest) (hwaiting _)
  | stops _ hacts => exact .of_acts hs hdoes hacts hnone (hwaiting none)
  | stray _ _ hacts => exact .of_acts hs hdoes hacts (fun _ => becomes_rest) (hwaiting _)
  | @fires r _ _ _ hfires =>
    refine .of_does _ hs hdoes hfires.frames ?_ hfires.does ?_ hfires.ends
      (fun _ => becomes_rest) (hwaiting _)
    · rw [hfires.next]
      exact Nat.le_succ _
    · intro m b hnew
      obtain ⟨rfl, rfl⟩ := hnew
      exact ⟨rfl, _, r, _, rfl⟩

theorem Turned.of_drainTurn {n : Nat} {d : Drain} (hs : f.Sound) (hdoes : f.Does n (.drain d))
    (h : DrainTurn n d f g) : Turned f g := by
  cases h with
  | @waits drivers hphase hacts =>
    refine .of_acts hs hdoes hacts ?_ ?_
    · intro b hb
      cases hb
      refine .drain d _ (fun ticks hticks => ?_)
      rw [hphase] at hticks
      cases hticks
    · intro d' drivers' hd' hphase' k hk hlive
      cases hd'
      rw [hphase] at hphase'
      cases hphase'
      -- it goes on waiting for those that have not ended
      exact ⟨_, rfl, List.mem_filter.2 ⟨hk, isLive_iff.2 hlive⟩⟩
  | @takes drivers hphase hended htakes =>
    refine .of_does (fun _ _ => False) hs hdoes htakes.frames
      (Nat.le_of_eq htakes.next.symm) ?_ ?_ htakes.ends ?_ ?_
    · intro m b
      rw [htakes.does]
      simp
    · exact fun _ _ hfalse => absurd hfalse id
    · intro b hb
      split at hb
      · exact becomes_stillWaits hb
      · cases hb
    · intro d' drivers' hd' hphase' k hk hlive
      cases hd'
      rw [hphase] at hphase'
      cases hphase'
      obtain ⟨b, hb⟩ := hlive
      exact absurd hb (hended k hk b)
  | @goesOn ticks hphase hacts =>
    refine .of_acts hs hdoes hacts (fun _ => becomes_stillWaits) ?_
    intro d' drivers hd' hphase'
    cases hd'
    rw [hphase] at hphase'
    cases hphase'

theorem zone?_congr (h : g.frames = f.frames) (i : Nat) : g.zone? i = f.zone? i := by
  have hzone : ∀ f : Fleet σ, f.zone? i = (f.frames[i]?).map (·.config.zone) := by
    intro f
    unfold zone? frames
    rw [List.getElem?_map]
    cases f.schedulers[i]? <;> rfl
  rw [hzone, hzone, h]

/-- A turn keeps a fleet wired. -/
theorem Wired.of_turned (hw : f.Wired) (h : Turned f g) : g.Wired := by
  have hregistry := registry_congr h.frames
  have hrunning := isRunning_congr h.frames
  refine ⟨?_, ?_, ?_, ?_, ?_, ?_, ?_, ?_, ?_⟩
  · intro i
    rw [hregistry]
    exact hw.sorted i
  · intro i
    rw [hregistry]
    exact hw.serials i
  · intro i e he
    rw [hregistry] at he
    exact Nat.lt_of_lt_of_le (hw.below i e he) h.next
  · intro i e he
    rw [hregistry] at he
    rw [zone?_congr h.frames]
    exact hw.declared i e he
  · intro i e he n hn
    rw [hregistry] at he
    rw [hrunning]
    obtain ⟨hruns, hunpaused, hbelow, hdoes⟩ := hw.handles i e he n hn
    refine ⟨hruns, hunpaused, Nat.lt_of_lt_of_le hbelow h.next, ?_⟩
    intro a ha
    rcases h.origin n a ha with ⟨a₀, hold, hbecomes⟩ | ⟨hnew, -⟩
    · obtain ⟨awaited, rfl⟩ := hdoes a₀ hold
      obtain ⟨awaited', rfl⟩ := hbecomes.drive_eq
      exact ⟨awaited', rfl⟩
    · omega
  · intro i hruns e he
    rw [hregistry] at he
    rw [hrunning] at hruns
    exact hw.driven i hruns e he
  · intro n d hd hgoes
    rw [hregistry]
    rcases h.origin n _ hd with ⟨a₀, hold, hbecomes⟩ | ⟨-, i, r, c, hrun⟩
    · obtain ⟨awaited, rfl⟩ := hbecomes.of_drive
      exact hw.named n { d with awaited := awaited } hold hgoes
    · cases hrun
  · intro n d hd hstops
    rcases h.origin n _ hd with ⟨a₀, hold, hbecomes⟩ | ⟨-, i, r, c, hrun⟩
    · obtain ⟨awaited, rfl⟩ := hbecomes.of_drive
      obtain ⟨m, drain, drivers, hdrain, hscheduler, hphase, hmem⟩ :=
        hw.awaited n { d with awaited := awaited } hold hstops
      -- the driver has not ended, so the shutdown goes on waiting for it
      obtain ⟨drain', left, hdrain', hsame, hphase', hmem'⟩ :=
        h.waiting m drain drivers hdrain hphase n hmem ⟨_, hold⟩
      exact ⟨m, drain', left, hdrain', hsame.trans hscheduler, hphase', hmem'⟩
    · cases hrun
  · intro e he
    rcases h.ends e he with hold | ⟨hbelow, hgone⟩
    · obtain ⟨hbelow, hgone⟩ := hw.buried e hold
      refine ⟨Nat.lt_of_lt_of_le hbelow h.next, ?_⟩
      intro a ha
      rcases h.origin e.1 a ha with ⟨a₀, hold', -⟩ | ⟨hnew, -⟩
      · exact hgone a₀ hold'
      · omega
    · exact ⟨Nat.lt_of_lt_of_le hbelow h.next, hgone⟩

end

section

variable {f g : Fleet FaultyStore} {o : Occurrence}

/-- Whatever occurs without a request to a registry turns the fleet. -/
theorem turned_of_turns (hs : f.Sound) (h : f.Turns o g) : Turned f g := by
  cases h with
  | rests h => exact .of_alike h
  | asks _ h => exact .of_adds h
  | drives _ hdoes h => exact .of_driverTurn hs hdoes h
  | drains _ hdoes h => exact .of_drainTurn hs hdoes h
  | runs _ hdoes h =>
    refine .of_acts hs hdoes h ?_ ?_
    · intro b hb
      obtain ⟨r', -, rfl⟩ := Option.map_eq_some_iff.1 hb
      exact .run _ _ r' _
    · intro d drivers hactivity
      cases hactivity

end

/-- Before anything was asked there is nothing registered. -/
theorem Pristine.registry {f : Fleet FaultyStore} (h : f.Pristine) (i : Nat) :
    f.registry i = [] := by
  unfold Fleet.registry entriesOf
  cases hsched : f.schedulers[i]? with
  | none => rfl
  | some s =>
    show s.entries.map Entry.plain = []
    rw [(h.idle s (List.mem_of_getElem? hsched)).2.1]
    rfl

/-- Before anything was asked there is nothing to wire. -/
theorem Pristine.wired {f : Fleet FaultyStore} (h : f.Pristine) : f.Wired := by
  have hregistry := h.registry
  have hnone : ∀ n a, ¬ f.Does n a := by
    intro n a hdoes
    obtain ⟨t, ht, -⟩ := hdoes
    rw [h.tasks] at ht
    cases ht
  refine ⟨?_, ?_, ?_, ?_, ?_, ?_, ?_, ?_, ?_⟩
  · intro i
    rw [hregistry]
    exact List.Pairwise.nil
  · intro i e he
    rw [hregistry] at he
    cases he
  · intro i e he
    rw [hregistry] at he
    cases he
  · intro i e he
    rw [hregistry] at he
    cases he
  · intro i e he
    rw [hregistry] at he
    cases he
  · intro i _ e he
    rw [hregistry] at he
    cases he
  · exact fun n d hd => absurd hd (hnone n _)
  · exact fun n d hd => absurd hd (hnone n _)
  · intro e he
    rw [h.ends] at he
    cases he

end Fleet

end JobFleet
