/-
  JobFleet.Proofs.Fleet.Draining: a shutdown that waits returns when nothing of its scheduler is
  left.

  Every tick that the timer has started since the scheduler was started is in flight until it has
  ended, whatever becomes of its driver and its entry meanwhile.  A shutdown first waits for the
  drivers, so that no other tick can start, and only then takes the ticks in flight over, to wait
  for them.  The state of a shutdown says what it still has to see end (`Draining`); every step
  keeps it or brings it on.

  One thing can break this: a scheduler that is started while an earlier shutdown still waits for
  its drivers.  The drivers from before the start are then only known to the earlier shutdown, and
  the ticks in flight are taken by whichever of the two is first.

  Main results:
    * `carries_of_effect` — what a step does to the ticks and the shutdowns of a scheduler.
    * `shutdown_drains` — when a shutdown that waits has returned, every tick since the start has
      ended and, if it had its lock, has given it back, and no driver is left.
    * `overlapping_shutdown_leaves_driver` — with an earlier shutdown still under way a driver can
      be left.
-/
import JobFleet.Proofs.Fleet.Effects
import JobFleet.Proofs.Fleet.Takeover

namespace JobFleet

namespace Fleet

/-! ## The ticks and the shutdowns of one scheduler -/

section

variable {σ : Type} {f g k : Fleet σ} {i n : Nat} {d : Drain}

/-- A shutdown of the scheduler waits for its drivers. -/
def StopsDrivers (f : Fleet σ) (i : Nat) : Prop :=
  ∃ m d drivers, f.Does m (.drain d) ∧ d.scheduler = i ∧ d.phase = .drivers drivers

/-- Some driver of the scheduler is there. -/
def HasDriver (f : Fleet σ) (i : Nat) : Prop := ∃ m d, f.Does m (.drive d) ∧ d.scheduler = i

/-- No shutdown of the scheduler has its turn: they go on as they were, and what is in flight stays
    so until it has ended.  A tick is new only if one may be started, and then it is in flight. -/
structure Leaves (starts : Prop) (i : Nat) (f g : Fleet σ) : Prop where
  ticks : ∀ n r, g.Does n (.run i r .timer) → (∃ r₀, f.Does n (.run i r₀ .timer)) ∨
    (n ∈ g.flights i ∧ starts)
  drains : ∀ m d, d.scheduler = i → (g.Does m (.drain d) ↔ f.Does m (.drain d))
  flights : ∀ m a, f.Does m a → m ∈ f.flights i → m ∈ g.flights i

theorem Leaves.trans {starts : Prop} (h : Leaves starts i f g) (h' : Leaves False i g k)
    (hflights : k.flights i = g.flights i) : Leaves starts i f k where
  ticks := by
    intro n r hr
    obtain hold | ⟨-, hnever⟩ := h'.ticks n r hr
    · obtain ⟨r₀, hr₀⟩ := hold
      rw [hflights]
      exact h.ticks n r₀ hr₀
    · exact hnever.elim
  drains := fun m d hd => (h'.drains m d hd).trans (h.drains m d hd)
  flights := by
    intro m a ha hm
    rw [hflights]
    exact h.flights m a ha hm

/-- Nothing that matters changes. -/
theorem leaves_of_alike {starts : Prop} (h : f.Alike g) : Leaves starts i f g where
  ticks := fun n r hr => .inl ⟨r, (h.does n _).1 hr⟩
  drains := fun m d _ => h.does m _
  flights := by
    intro m _ _ hm
    rw [h.flights]
    exact hm

/-- A task that is no shutdown of the scheduler goes on as what it can become, or ends. -/
theorem leaves_of_does {starts : Prop} {a : Activity} {rest : Option Activity} (hs : f.Sound)
    (hdoes : f.Does n a) (hother : ∀ d, a = .drain d → d.scheduler ≠ i)
    (h : ∀ m b, g.Does m b ↔ (m ≠ n ∧ f.Does m b) ∨ (m = n ∧ rest = some b))
    (hrest : ∀ b, rest = some b → Becomes a b) (hflights : g.flights i = f.flights i) :
    Leaves starts i f g where
  ticks := by
    intro m r hr
    obtain ⟨-, hold⟩ | ⟨rfl, hgoes⟩ := (h m _).1 hr
    · exact .inl ⟨r, hold⟩
    · obtain ⟨r₀, rfl⟩ := (hrest _ hgoes).of_run
      exact .inl ⟨r₀, hdoes⟩
  drains := by
    intro m d hd
    rw [h]
    constructor
    · intro hor
      obtain ⟨-, hold⟩ | ⟨-, hgoes⟩ := hor
      · exact hold
      · obtain ⟨d₀, ha, hsame, -⟩ := (hrest _ hgoes).of_drain
        exact absurd (hsame.trans hd) (hother d₀ ha)
    · intro hold
      -- the task that had its turn is no shutdown of the scheduler
      by_cases hm : m = n
      · subst hm
        exact absurd hd (hother d (hs.does_unique hdoes hold))
      · exact .inl ⟨hm, hold⟩
  flights := by
    intro m _ _ hm
    rw [hflights]
    exact hm

theorem leaves_of_acts {starts : Prop} {a : Activity} {rest : Option Activity} (hs : f.Sound)
    (hdoes : f.Does n a) (hother : ∀ d, a = .drain d → d.scheduler ≠ i) (h : Acts n rest f g)
    (hrest : ∀ b, rest = some b → Becomes a b) :
    Leaves starts i f g :=
  leaves_of_does hs hdoes hother h.does hrest (h.flights i)

/-- A driver fires: if it is one of the scheduler, the tick is in flight. -/
theorem leaves_of_fires {d : Driver} {r : Run} (hs : f.Sound) (hw : f.Wired)
    (hdoes : f.Does n (.drive d)) (h : Fires n d r f g) : Leaves (f.HasDriver i) i f g where
  ticks := by
    intro m r' hr'
    obtain ⟨-, hold⟩ | ⟨-, hgoes⟩ | ⟨rfl, hnew⟩ := (h.does m _).1 hr'
    · exact .inl ⟨r', hold⟩
    · obtain ⟨-, _, -, hdrive⟩ := Driver.rest_eq_some hgoes
      cases hdrive
    · have hi : i = d.scheduler := by
        injection hnew
      subst hi
      exact .inr ⟨h.spawned, n, d, hdoes, rfl⟩
  drains := by
    intro m d' _
    rw [h.does]
    constructor
    · intro hor
      obtain ⟨-, hold⟩ | ⟨-, hgoes⟩ | ⟨-, hnew⟩ := hor
      · exact hold
      · obtain ⟨-, _, -, hdrive⟩ := Driver.rest_eq_some hgoes
        cases hdrive
      · cases hnew
    · intro hold
      refine .inl ⟨?_, hold⟩
      intro hm
      subst hm
      have hsame := hs.does_unique hdoes hold
      cases hsame
  flights := by
    intro m a ha hm
    by_cases hi : i = d.scheduler
    · subst hi
      obtain hin | ⟨e, he, rfl⟩ := h.flying m hm
      · exact hin
      -- only a tick that has ended is collected
      · exact absurd ha ((hw.buried e he).2 a)
    · rw [h.others i hi]
      exact hm

theorem leaves_of_driverTurn {d : Driver} (hs : f.Sound) (hw : f.Wired)
    (hdoes : f.Does n (.drive d)) (h : DriverTurn n d f g) : Leaves (f.HasDriver i) i f g := by
  have hother : ∀ d', Activity.drive d = .drain d' → d'.scheduler ≠ i := by
    intro d' hdrive
    cases hdrive
  have hnone : ∀ b, none = some b → Becomes (.drive d) b := by
    intro b hb
    cases hb
  cases h with
  | fails _ _ hacts => exact leaves_of_acts hs hdoes hother hacts hnone
  | begins _ _ hacts => exact leaves_of_acts hs hdoes hother hacts (fun _ => becomes_rest)
  | stops _ hacts => exact leaves_of_acts hs hdoes hother hacts hnone
  | stray _ _ hacts => exact leaves_of_acts hs hdoes hother hacts (fun _ => becomes_rest)
  | fires _ _ _ hfires => exact leaves_of_fires hs hw hdoes hfires

/-- The shutdown of another scheduler has its turn. -/
theorem leaves_of_drainTurn (hs : f.Sound) (hdoes : f.Does n (.drain d)) (hne : d.scheduler ≠ i)
    (h : DrainTurn n d f g) : Leaves False i f g ∧ g.flights i = f.flights i := by
  have hother : ∀ d', Activity.drain d = .drain d' → d'.scheduler ≠ i := by
    intro d' hdrain
    cases hdrain
    exact hne
  cases h with
  | waits hphase hacts =>
    refine ⟨leaves_of_acts hs hdoes hother hacts ?_, hacts.flights i⟩
    intro b hb
    cases hb
    refine .drain d _ (fun ticks hticks => ?_)
    rw [hphase] at hticks
    cases hticks
  | takes _ _ htakes =>
    refine ⟨leaves_of_does hs hdoes hother htakes.does ?_ (htakes.others i (Ne.symm hne)),
      htakes.others i (Ne.symm hne)⟩
    intro b hb
    split at hb
    · exact becomes_stillWaits hb
    · cases hb
  | goesOn _ hacts =>
    exact ⟨leaves_of_acts hs hdoes hother hacts (fun _ => becomes_stillWaits), hacts.flights i⟩

/-- Nothing but drivers is started or stopped. -/
theorem leaves_of_rewires {started starts : Prop} {j : Nat} (h : Rewires started j f g) :
    Leaves starts i f g where
  ticks := by
    intro n r hr
    obtain hold | ⟨-, -, e, hdrive⟩ := h.origin n _ hr
    · exact .inl ⟨r, hold⟩
    · cases hdrive
  drains := by
    intro m d _
    constructor
    · intro hnow
      obtain hold | ⟨-, -, e, hdrive⟩ := h.origin m _ hnow
      · exact hold
      · cases hdrive
    · exact fun hold => h.stays m _ hold (fun _ hdrive => by cases hdrive)
  flights := by
    intro m _ _ hm
    by_cases hi : i = j
    · subst hi
      rw [h.flights]
      exact hm
    · rw [(h.others i hi).flights]
      exact hm

/-- The drivers of another scheduler are told to stop. -/
theorem leaves_of_tells {starts : Prop} {j : Nat} (hne : j ≠ i) (h : Tells j d f g) :
    Leaves starts i f g where
  ticks := by
    intro n r hr
    obtain ⟨b, hb, htold⟩ | ⟨-, hdrain⟩ := (h.does n _).1 hr
    · rw [Activity.eq_of_told htold.symm (fun _ hdrive => by cases hdrive)] at hb
      exact .inl ⟨r, hb⟩
    · cases hdrain
  drains := by
    intro m d' hd'
    rw [h.does]
    constructor
    · intro hor
      obtain ⟨b, hb, htold⟩ | ⟨-, hdrain⟩ := hor
      · rw [Activity.eq_of_told htold.symm (fun _ hdrive => by cases hdrive)] at hb
        exact hb
      · -- the shutdown that was added is one of the other scheduler
        cases hdrain
        exact absurd (h.scheduler.symm.trans hd') hne
    · exact fun hold => .inl ⟨_, hold, rfl⟩
  flights := by
    intro m _ _ hm
    rw [(h.others i (Ne.symm hne)).flights]
    exact hm

end

/-! ## Every step -/

variable {f g : Fleet FaultyStore} {o : Occurrence} {i z first : Nat}

/-- What a step that does not shut the scheduler down does about its ticks and its shutdowns. -/
inductive Carries (i : Nat) (f g : Fleet FaultyStore) : Prop
  | leaves (h : Leaves (f.HasDriver i) i f g)
  /-- A shutdown of the scheduler has its turn. -/
  | drains {n : Nat} {d : Drain} (hdoes : f.Does n (.drain d)) (hd : d.scheduler = i)
    (h : DrainTurn n d f g)

theorem carries_of_turns (hs : f.Sound) (hw : f.Wired) (h : f.Turns o g) : Carries i f g := by
  cases h with
  | rests h => exact .leaves (leaves_of_alike h)
  | asks honest h =>
    refine .leaves ⟨?_, ?_, ?_⟩
    · -- a run that was asked for is no tick of the timer
      intro n r hr
      obtain hold | ⟨-, hnew⟩ := (h.does n _).1 hr
      · exact .inl ⟨r, hold⟩
      · injection hnew with _ _ hcaller
        exact absurd hcaller.symm honest
    · intro m d _
      rw [h.does]
      constructor
      · intro hor
        obtain hold | ⟨-, hnew⟩ := hor
        · exact hold
        · cases hnew
      · exact .inl
    · intro m _ _ hm
      rw [h.flights]
      exact hm
  | runs _ hdoes h =>
    refine .leaves (leaves_of_acts hs hdoes ?_ h ?_)
    · intro d hdrain
      cases hdrain
    · intro b hb
      obtain ⟨r', -, rfl⟩ := Option.map_eq_some_iff.1 hb
      exact .run _ _ r' _
  | drives _ hdoes h => exact .leaves (leaves_of_driverTurn hs hw hdoes h)
  | @drains n d _ hdoes h =>
    by_cases hd : d.scheduler = i
    · exact .drains hdoes hd h
    · have hleaves := (leaves_of_drainTurn hs hdoes hd h).1
      exact .leaves ⟨fun n r hr => .inl ((hleaves.ticks n r hr).resolve_right And.right),
        hleaves.drains, hleaves.flights⟩

/-- What any step does about the ticks and the shutdowns of a scheduler that it does not shut
    down. -/
theorem carries_of_effect (hs : f.Sound) (hw : f.Wired) (h : Effect f o g)
    (hnot : o.Stops i → f.isRunning i = false) : Carries i f g := by
  cases h with
  | turns h => exact carries_of_turns hs hw h
  | rewires h => exact .leaves (leaves_of_rewires h)
  | @stops j waits foreground ho h =>
    obtain ⟨mid, d, -, htells, hmid, hturn⟩ := h
    -- a scheduler that does not run has nothing to stop, so it is another one
    have hne : j ≠ i := by
      intro hj
      subst hj
      have hidle := hnot ⟨waits, foreground, ho⟩
      rw [htells.ran] at hidle
      cases hidle
    have hdoes := (htells.does f.nextNumber _).2 (.inr ⟨rfl, rfl⟩)
    have hne' : d.scheduler ≠ i := by
      rw [htells.scheduler]
      exact hne
    obtain ⟨hleaves, hflights⟩ := leaves_of_drainTurn hmid hdoes hne' hturn
    exact .leaves ((leaves_of_tells hne htells).trans hleaves hflights)

/-! ## What a shutdown still has to see end -/

/-- Every tick of the scheduler that the timer started under a number from the first one on is among
    these. -/
def Tracked (f : Fleet FaultyStore) (i first : Nat) (ticks : List Nat) : Prop :=
  ∀ n r, f.Does n (.run i r .timer) → first ≤ n → n ∈ ticks

/-- A scheduler that does not run and of which no shutdown waits for drivers has none. -/
theorem not_hasDriver (hw : f.Wired) (hidle : f.isRunning i = false) (hquiet : ¬ f.StopsDrivers i) :
    ¬ f.HasDriver i := by
  intro hsome
  obtain ⟨n, d, hd, rfl⟩ := hsome
  cases hstopping : d.stopping with
  | false =>
    -- a driver that goes on is that of an entry, and only a scheduler that runs has such entries
    obtain ⟨e, he, hn⟩ := hw.named n d hd hstopping
    rw [(hw.handles _ e he n hn).1] at hidle
    cases hidle
  | true =>
    obtain ⟨m, drain, drivers, hdrain, hsame, hphase, -⟩ := hw.awaited n d hd hstopping
    exact hquiet ⟨m, drain, drivers, hdrain, hsame, hphase⟩

/-- No shutdown begins to wait for drivers, unless one is asked for. -/
theorem quiet_of_carries (hs : f.Sound) (h : Carries i f g) (hquiet : ¬ f.StopsDrivers i) :
    ¬ g.StopsDrivers i := by
  intro hsome
  obtain ⟨m, d, drivers, hdrain, hd, hphase⟩ := hsome
  cases h with
  | leaves h => exact hquiet ⟨m, d, drivers, (h.drains m d hd).1 hdrain, hd, hphase⟩
  | drains hdoes _ h =>
    obtain ⟨a₀, hold, hbecomes⟩ | ⟨-, _, _, _, hrun⟩ :=
      (Turned.of_drainTurn hs hdoes h).origin m _ hdrain
    · obtain ⟨d₀, rfl, hsame, hticks⟩ := hbecomes.of_drain
      -- a shutdown does not go back from ticks to drivers
      cases hphase₀ : d₀.phase with
      | drivers drivers₀ => exact hquiet ⟨m, d₀, drivers₀, hold, hsame.trans hd, hphase₀⟩
      | ticks ticks =>
        obtain ⟨left, hleft⟩ := hticks ticks hphase₀
        rw [hphase] at hleft
        cases hleft
    · cases hrun

/-- A tick is old, unless a driver may have started it, and then it is in flight. -/
theorem ticks_of_carries (h : Carries i f g) {n : Nat} {r : Run} (hr : g.Does n (.run i r .timer)) :
    (∃ r₀, f.Does n (.run i r₀ .timer)) ∨ (n ∈ g.flights i ∧ f.HasDriver i) := by
  cases h with
  | leaves h => exact h.ticks n r hr
  | drains _ _ h => exact .inl ⟨r, does_of_drainTurn h hr (fun _ => by simp)⟩

/-- While no shutdown waits for the drivers, every tick is in flight. -/
theorem tracked_of_carries (h : Carries i f g) (hquiet : ¬ f.StopsDrivers i)
    (htracked : f.Tracked i first (f.flights i)) : g.Tracked i first (g.flights i) := by
  intro n r hr hfirst
  obtain hold | ⟨hin, -⟩ := ticks_of_carries h hr
  · obtain ⟨r₀, hr₀⟩ := hold
    have hin := htracked n r₀ hr₀ hfirst
    cases h with
    | leaves h => exact h.flights n _ hr₀ hin
    | drains hdoes hd h =>
      cases h with
      | waits hphase => exact absurd ⟨_, _, _, hdoes, hd, hphase⟩ hquiet
      | takes hphase => exact absurd ⟨_, _, _, hdoes, hd, hphase⟩ hquiet
      | goesOn _ hacts =>
        rw [hacts.flights]
        exact hin
  · exact hin

/-- What a shutdown, under its number, still has to see end before no tick since the first one is
    left. -/
inductive Draining (i z first : Nat) (f : Fleet FaultyStore) : Prop
  /-- It waits for the drivers, alone, and every tick is in flight. -/
  | drivers {d : Drain} {drivers : List Nat} (hdoes : f.Does z (.drain d)) (hd : d.scheduler = i)
    (hwaits : d.waits = true)
      (hphase : d.phase = .drivers drivers)
      (halone : ∀ m d' drivers', f.Does m (.drain d') → d'.scheduler = i →
        d'.phase = .drivers drivers' → m = z)
      (htracked : f.Tracked i first (f.flights i))
  /-- It waits for the ticks, and there are no others. -/
  | ticks {d : Drain} {ticks : List Nat} (hdoes : f.Does z (.drain d)) (hd : d.scheduler = i)
    (hphase : d.phase = .ticks ticks)
      (hquiet : ¬ f.StopsDrivers i) (htracked : f.Tracked i first ticks)
  | done (hquiet : ¬ f.StopsDrivers i) (htracked : f.Tracked i first [])

/-- A shutdown that goes on with ticks waits for those that have not ended, or is done. -/
theorem draining_of_stillWaits {d : Drain} {ticks : List Nat} (hd : d.scheduler = i)
    (hquiet : ¬ g.StopsDrivers i) (hdoes : ∀ a, f.stillWaits d ticks = some a → g.Does z a)
    (hticks : ∀ n r, g.Does n (.run i r .timer) → f.Does n (.run i r .timer))
    (htracked : f.Tracked i first ticks) :
    Draining i z first g := by
  cases hstill : f.stillWaits d ticks with
  | none =>
    refine .done hquiet ?_
    intro n r hr hfirst
    have hold := hticks n r hr
    exact absurd hold (stillWaits_eq_none hstill n (htracked n r hold hfirst) _)
  | some a =>
    have hgoes := hdoes a hstill
    rw [stillWaits_eq_some hstill] at hgoes
    refine .ticks hgoes hd rfl hquiet ?_
    intro n r hr hfirst
    have hold := hticks n r hr
    exact List.mem_filter.2 ⟨htracked n r hold hfirst, isLive_iff.2 ⟨_, hold⟩⟩

/-- The turn of the shutdown itself, while it waits for the drivers. -/
theorem draining_of_own_turn {d : Drain} {drivers : List Nat} (hd : d.scheduler = i)
    (hwaits : d.waits = true) (hphase : d.phase = .drivers drivers)
    (halone : ∀ m d' drivers', f.Does m (.drain d') → d'.scheduler = i →
      d'.phase = .drivers drivers' → m = z)
    (htracked : f.Tracked i first (f.flights i)) (h : DrainTurn z d f g) :
    Draining i z first g := by
  have hticks : ∀ n r, g.Does n (.run i r .timer) → f.Does n (.run i r .timer) :=
    fun n r hr => does_of_drainTurn h hr (fun _ => by simp)
  -- the other shutdowns of the scheduler wait for ticks, before and after
  have hothers : ∀ m d' drivers', g.Does m (.drain d') → d'.scheduler = i →
      d'.phase = .drivers drivers' → m = z := by
    intro m d' drivers' hdrain hd' hphase'
    by_contra hne
    exact hne (halone m d' drivers' ((does_iff_of_drainTurn h hne).1 hdrain) hd' hphase')
  cases h with
  | waits _ hacts =>
    refine .drivers ((hacts.does z _).2 (.inr ⟨rfl, rfl⟩)) hd hwaits rfl hothers ?_
    intro n r hr hfirst
    rw [hacts.flights]
    exact htracked n r (hticks n r hr) hfirst
  | takes _ _ htakes =>
    have hdoes : ∀ a, g.Does z a ↔ f.stillWaits d (f.flights i) = some a := by
      intro a
      rw [htakes.does, hwaits, hd]
      simp
    refine draining_of_stillWaits hd ?_ (fun a ha => (hdoes a).2 ha) hticks htracked
    intro hsome
    obtain ⟨m, d', drivers', hdrain, hd', hphase'⟩ := hsome
    have hm := hothers m d' drivers' hdrain hd' hphase'
    subst hm
    have hgoes := stillWaits_eq_some ((hdoes _).1 hdrain)
    cases hgoes
    cases hphase'
  | goesOn hphase' =>
    rw [hphase] at hphase'
    cases hphase'

/-- A step while the shutdown waits for the drivers, alone. -/
theorem draining_drivers_step (hs : f.Sound) (h : Carries i f g) {d : Drain} {drivers : List Nat}
    (hdoes : f.Does z (.drain d)) (hd : d.scheduler = i) (hwaits : d.waits = true)
    (hphase : d.phase = .drivers drivers)
    (halone : ∀ m d' drivers', f.Does m (.drain d') → d'.scheduler = i →
      d'.phase = .drivers drivers' → m = z)
    (htracked : f.Tracked i first (f.flights i)) : Draining i z first g := by
  cases h with
  | leaves h =>
    refine .drivers ((h.drains z _ hd).2 hdoes) hd hwaits hphase ?_ ?_
    · exact fun m d' drivers' hdrain hd' => halone m d' drivers' ((h.drains m d' hd').1 hdrain) hd'
    · intro n r hr hfirst
      obtain hold | ⟨hin, -⟩ := h.ticks n r hr
      · obtain ⟨r₀, hr₀⟩ := hold
        exact h.flights n _ hr₀ (htracked n r₀ hr₀ hfirst)
      · exact hin
  | @drains n d' hdoes' hd' h =>
    by_cases hn : n = z
    · subst hn
      cases hs.does_unique hdoes hdoes'
      exact draining_of_own_turn hd hwaits hphase halone htracked h
    · -- another shutdown of the scheduler waits for ticks
      have hticks := fun n r hr =>
          does_of_drainTurn (m := n) (a := .run i r .timer) h hr (fun _ => by simp)
      cases h with
      | waits hphase' => exact absurd (halone n d' _ hdoes' hd' hphase') hn
      | takes hphase' => exact absurd (halone n d' _ hdoes' hd' hphase') hn
      | goesOn hphase' hacts =>
        refine .drivers ((hacts.does z _).2 (.inl ⟨Ne.symm hn, hdoes⟩)) hd hwaits hphase ?_ ?_
        · intro m d'' drivers' hdrain hd'' hphase''
          obtain ⟨-, hold⟩ | ⟨-, hgoes⟩ := (hacts.does m _).1 hdrain
          · exact halone m d'' drivers' hold hd'' hphase''
          · cases stillWaits_eq_some hgoes
            cases hphase''
        · intro m r hr hfirst
          rw [hacts.flights]
          exact htracked m r (hticks m r hr) hfirst

/-- While a scheduler has no driver, no step starts a tick of it. -/
theorem tracked_of_noDriver (h : Carries i f g) (hnone : ¬ f.HasDriver i) {ticks : List Nat}
    (htracked : f.Tracked i first ticks) : g.Tracked i first ticks := by
  intro n r hr hfirst
  obtain ⟨r₀, hr₀⟩ | ⟨-, hdriver⟩ := ticks_of_carries h hr
  · exact htracked n r₀ hr₀ hfirst
  · exact absurd hdriver hnone

/-- A step while the shutdown waits for the ticks. -/
theorem draining_ticks_step (hs : f.Sound) (h : Carries i f g) {d : Drain} {ticks : List Nat}
    (hnone : ¬ f.HasDriver i) (hdoes : f.Does z (.drain d)) (hd : d.scheduler = i)
    (hphase : d.phase = .ticks ticks) (hquiet : ¬ f.StopsDrivers i)
    (htracked : f.Tracked i first ticks) : Draining i z first g := by
  have hquiet' := quiet_of_carries hs h hquiet
  have hkept := tracked_of_noDriver h hnone htracked
  cases h with
  | leaves h => exact .ticks ((h.drains z _ hd).2 hdoes) hd hphase hquiet' hkept
  | @drains n d' hdoes' hd' h =>
    by_cases hn : n = z
    · subst hn
      cases hs.does_unique hdoes hdoes'
      have hticks := fun n r hr =>
          does_of_drainTurn (m := n) (a := .run i r .timer) h hr (fun _ => by simp)
      cases h with
      | waits hphase' => exact absurd ⟨n, _, _, hdoes, hd, hphase'⟩ hquiet
      | takes hphase' => exact absurd ⟨n, _, _, hdoes, hd, hphase'⟩ hquiet
      | goesOn hphase' hacts =>
        rw [hphase] at hphase'
        cases hphase'
        exact draining_of_stillWaits hd hquiet' (fun a ha =>
          (hacts.does n a).2 (.inr ⟨rfl, ha⟩)) hticks htracked
    · exact .ticks ((does_iff_of_drainTurn h (Ne.symm hn)).2 hdoes) hd hphase hquiet' hkept

/-- While a scheduler does not run, every step keeps what a shutdown of it has to see end, or brings
    it on. -/
theorem draining_of_carries (hs : f.Sound) (hw : f.Wired) (hidle : f.isRunning i = false)
    (h : Carries i f g) (hdraining : Draining i z first f) : Draining i z first g := by
  cases hdraining with
  | drivers hdoes hd hwaits hphase halone htracked =>
    exact draining_drivers_step hs h hdoes hd hwaits hphase halone htracked
  | ticks hdoes hd hphase hquiet htracked =>
    exact draining_ticks_step hs h (not_hasDriver hw hidle hquiet) hdoes hd hphase hquiet htracked
  | done hquiet htracked =>
    exact .done (quiet_of_carries hs h hquiet)
      (tracked_of_noDriver h (not_hasDriver hw hidle hquiet) htracked)

/-- A shutdown of a scheduler of which no other shutdown waits for the drivers. -/
theorem draining_of_stops (hquiet : ¬ f.StopsDrivers i)
    (htracked : f.Tracked i first (f.flights i)) (h : Stops i true f g) :
    Draining i f.nextNumber first g := by
  obtain ⟨mid, d, hwaits, htells, hmid, hturn⟩ := h
  have hdoes := (htells.does f.nextNumber _).2 (.inr ⟨rfl, rfl⟩)
  obtain ⟨drivers, hphase, -⟩ := htells.drivers
  refine draining_of_own_turn htells.scheduler hwaits hphase ?_ ?_ hturn
  · intro m d' drivers' hdrain hd' hphase'
    obtain ⟨b, hb, htold⟩ | ⟨rfl, -⟩ := (htells.does m _).1 hdrain
    · rw [Activity.eq_of_told htold.symm (fun _ hdrive => by cases hdrive)] at hb
      exact absurd ⟨m, d', drivers', hb, hd', hphase'⟩ hquiet
    · rfl
  · intro n r hr hfirst
    obtain ⟨b, hb, htold⟩ | ⟨-, hdrain⟩ := (htells.does n _).1 hr
    · rw [Activity.eq_of_told htold.symm (fun _ hdrive => by cases hdrive)] at hb
      rw [htells.flights]
      exact htracked n r hb hfirst
    · cases hdrain

/-! ## Giving the lock back -/

/-- Between two points of a row the task with a number makes the call that gives a lock back. -/
def GivesBack (f : Fleet FaultyStore) (between row : List Occurrence) (n : Nat)
    (key : String) : Prop :=
  ∃ point o t r, between <+: point ∧ point ++ [o] <+: row ∧ o.plain = .turn n ∧
    t.number = n ∧ r.key = key ∧
    (f.through point).Releases t r ∧
    (f.through (point ++ [o])).world.locks = (r.giveBack (f.through point).world).2

/-- A run with its lock keeps it through a piece, or gives it back and ends. -/
theorem keeps_or_gives_back {r : Run} {w w' : World FaultyStore} {p : Progress}
    (h : r.Advances w p w') (hholds : r.phase.since? ≠ none) :
    (∃ r', p.run? = some r' ∧ r'.phase.since? ≠ none) ∨
      (p.run? = none ∧ r.phase.isReleasing = true ∧ w'.locks = (r.giveBack w).2) := by
  cases h with
  | panicked hphase => simp [hphase, RunPhase.since?] at hholds
  | took hasks => exact absurd hasks.since? hholds
  | polled hasks => exact absurd hasks.since? hholds
  | skipped hasks => exact absurd hasks.since? hholds
  | broke => exact .inl ⟨_, rfl, nofun⟩
  | began => exact .inl ⟨_, Run.Advances.run?_began, nofun⟩
  | finished => exact .inl ⟨_, rfl, nofun⟩
  | released hphase hstill => exact .inr ⟨rfl, by rw [hphase]; rfl, hstill.locks⟩

/-- A run that had its lock and has ended has given it back. -/
theorem gives_back (hs : f.Sound) {between row : List Occurrence} {n : Nat} {r : Run} {c : Caller}
    (hpre : between <+: row) (hdoes : (f.through between).Does n (.run i r c))
    (hholds : r.phase.since? ≠ none) (hended : (f.through row).isLive n = false) :
    GivesBack f between row n r.key := by
  -- up to any point it has given the lock back, or goes on with it
  have hall : ∀ point, between <+: point → point <+: row → GivesBack f between point n r.key ∨
      ∃ t r', t ∈ (f.through point).tasks ∧ t.number = n ∧ t.run? = some r' ∧ r'.key = r.key ∧
      r'.phase.since? ≠ none := by
    refine prefix_induction_from ?_ ?_
    · obtain ⟨t, ht, hnumber, hactivity⟩ := hdoes
      exact .inr ⟨t, r, ht, hnumber, Task.run?_of_activity hactivity, rfl, hholds⟩
    · intro point o hfrom _ ih
      obtain hgiven | ⟨t, r', ht, rfl, hrun, hkey, hholds'⟩ := ih
      · obtain ⟨point', o', t, r', hfrom', hto, hrest⟩ := hgiven
        exact .inl ⟨point', o', t, r', hfrom', hto.trans (List.prefix_append point [o]), hrest⟩
      · have hsound := sound_through hs point
        rw [through_concat]
        obtain hkept | ⟨i, c', p, w, hturn, hactivity, hadvances, heq⟩ :=
          (occur_happens hsound o).stays hsound ht hrun
        · obtain ⟨t', ht', hnumber, hrun'⟩ := hkept
          exact .inr ⟨t', r', ht', hnumber, hrun', hkey, hholds'⟩
        · -- the run makes its own next piece
          obtain ⟨r₁, hrest, hholds₁⟩ | ⟨-, hreleasing, hlocks⟩ :=
            keeps_or_gives_back hadvances hholds'
          · obtain ⟨state, hstate⟩ := Progress.state?_of_run? hrest
            rw [heq]
            exact .inr ⟨_, r₁, parked_afterRun hrest hstate, rfl, rfl,
              (hadvances.same hrest).key.trans hkey, hholds₁⟩
          · refine .inl ⟨point, o, t, r', hfrom, List.prefix_rfl, hturn, rfl, hkey,
              ⟨ht, hrun, hreleasing⟩, ?_⟩
            rw [through_concat, heq, (still_afterRun hsound).locks]
            exact hlocks
  obtain hgiven | ⟨t, r', ht, rfl, -⟩ := hall row hpre List.prefix_rfl
  · exact hgiven
  · have hlive : (f.through row).isLive t.number = true := isLive_iff.2 ⟨_, does_of_mem ht⟩
    rw [hended] at hlive
    cases hlive

/-- A run that was there is still a run of its scheduler and its caller, or has ended. -/
theorem run_of_live (hpristine : f.Pristine) {between row : List Occurrence} {n : Nat}
    {r : Run} {c : Caller} (hpre : between <+: row)
    (hdoes : (f.through between).Does n (.run i r c)) :
    ∀ a, (f.through row).Does n a → ∃ r', a = .run i r' c := by
  have hall : ∀ point, between <+: point → point <+: row →
      n < (f.through point).nextNumber ∧ ∀ a, (f.through point).Does n a →
      ∃ r', a = .run i r' c := by
    refine prefix_induction_from ?_ ?_
    · have hs := sound_through hpristine.sound between
      exact ⟨hs.lt_of_does hdoes, fun a ha => ⟨r, hs.does_unique ha hdoes⟩⟩
    · intro point o _ _ ih
      obtain ⟨hlt, hrun⟩ := ih
      have hs := sound_through hpristine.sound point
      have heffect := effect_occur hs (wired_through hpristine point) o
      rw [through_concat]
      refine ⟨Nat.lt_of_lt_of_le hlt (occur_happens hs o).nextNumber, ?_⟩
      intro a ha
      obtain ⟨b, hb, hremains⟩ := heffect.origin hs ha hlt
      obtain ⟨r', rfl⟩ := hrun b hb
      exact hremains i r' c rfl
  exact (hall row hpre List.prefix_rfl).2

/-! ## Whole rows -/

/-- Until the scheduler is shut down, no shutdown waits for its drivers, and every tick since a
    point is in flight. -/
theorem tracked_through (hpristine : f.Pristine) {before : List Occurrence} (rest : List Occurrence)
    (hquiet : ¬ (f.through before).StopsDrivers i)
    (hnever : ∀ o ∈ rest, ¬ o.Stops i) : ¬ (f.through (before ++ rest)).StopsDrivers i ∧
      (f.through (before ++ rest)).Tracked i (f.through before).nextNumber
        ((f.through (before ++ rest)).flights i) := by
  induction rest using List.reverseRecOn with
  | nil =>
    rw [List.append_nil]
    refine ⟨hquiet, ?_⟩
    -- at the point itself there is no tick since
    intro n r hr hfirst
    exact absurd ((sound_through hpristine.sound before).lt_of_does hr) (Nat.not_lt.2 hfirst)
  | append_singleton rest o ih =>
    obtain ⟨hquiet', htracked⟩ := ih (fun o' ho' => hnever o' (List.mem_append_left _ ho'))
    have hs := sound_through hpristine.sound (before ++ rest)
    have hw := wired_through hpristine (before ++ rest)
    have hcarries := carries_of_effect (i := i) hs hw (effect_occur hs hw o)
      (fun hstops => absurd hstops (hnever o (List.mem_append_right _ List.mem_cons_self)))
    rw [← List.append_assoc, through_concat]
    exact ⟨quiet_of_carries hs hcarries hquiet', tracked_of_carries hcarries hquiet' htracked⟩

/-- Until the scheduler is started again, it does not run, and the shutdown gets on. -/
theorem draining_through (hpristine : f.Pristine) {before : List Occurrence}
    (rest : List Occurrence) (hidle : (f.through before).isRunning i = false)
    (hdraining : Draining i z first (f.through before)) (hnever : ∀ o ∈ rest, o.plain ≠ .start i) :
    (f.through (before ++ rest)).isRunning i = false ∧
    Draining i z first (f.through (before ++ rest)) := by
  induction rest using List.reverseRecOn with
  | nil =>
    rw [List.append_nil]
    exact ⟨hidle, hdraining⟩
  | append_singleton rest o ih =>
    obtain ⟨hidle', hdraining'⟩ := ih (fun o' ho' => hnever o' (List.mem_append_left _ ho'))
    have hs := sound_through hpristine.sound (before ++ rest)
    have hw := wired_through hpristine (before ++ rest)
    have heffect := effect_occur hs hw o
    rw [← List.append_assoc, through_concat]
    exact ⟨idle_of_effect hs heffect (hnever o (List.mem_append_right _ List.mem_cons_self)) hidle',
      draining_of_carries hs hw hidle'
        (carries_of_effect hs hw heffect (fun _ => hidle')) hdraining'⟩

/-- A shutdown that has returned has nothing left to wait for. -/
theorem Draining.of_returned (h : Draining i z first f) (hreturned : f.isLive z = false) :
    ¬ f.StopsDrivers i ∧ f.Tracked i first [] := by
  have hgone : ∀ a, ¬ f.Does z a := by
    intro a ha
    rw [isLive_iff.2 ⟨a, ha⟩] at hreturned
    cases hreturned
  cases h with
  | drivers hdoes => exact absurd hdoes (hgone _)
  | ticks hdoes => exact absurd hdoes (hgone _)
  | done hquiet htracked => exact ⟨hquiet, htracked⟩

/-- What a call that waits for ticks still has to see end, or has seen end, at any later point
    before the next start. -/
theorem draining_of_call (hpristine : f.Pristine) {called later : List Occurrence}
    {foreground : Bool} (hquiet : ¬ (f.through called).StopsDrivers i)
    (htracked : (f.through called).Tracked i first ((f.through called).flights i))
    (hcall : ((f.through called).shutdown i true foreground).1 = some z)
    (hlater : ∀ o ∈ later, o.plain ≠ .start i) :
    (f.through (called ++ .move (.shutdown i true foreground) :: later)).isRunning i = false ∧
      Draining i z first (f.through (called ++ .move (.shutdown i true foreground) :: later)) := by
  have hs := sound_through hpristine.sound called
  have hruns : (f.through called).isRunning i = true := by
    by_contra hnot
    unfold shutdown at hcall
    rw [if_pos (by simpa using hnot)] at hcall
    cases hcall
  obtain ⟨hnumber, hstops⟩ := stops_shutdown hs hruns true foreground
  rw [hnumber, Option.some.injEq] at hcall
  subst hcall
  -- the step of the call itself, and then the row after it
  have hidle : (f.through (called ++ [.move (.shutdown i true foreground)])).isRunning i =
      false := by
    rw [through_concat]
    exact hstops.idle
  have hdraining : Draining i (f.through called).nextNumber first
      (f.through (called ++ [.move (.shutdown i true foreground)])) := by
    rw [through_concat]
    exact draining_of_stops hquiet htracked hstops
  have hreached := draining_through hpristine later hidle hdraining hlater
  rw [List.append_assoc] at hreached
  exact hreached

/-- Once nothing is left to wait for, there is no driver and no tick until the next start. -/
theorem drained_through (hpristine : f.Pristine) {row rest : List Occurrence}
    (hidle : (f.through row).isRunning i = false) (hquiet : ¬ (f.through row).StopsDrivers i)
    (hnone : (f.through row).Tracked i first []) (hrest : ∀ o ∈ rest, o.plain ≠ .start i) :
    ¬ (f.through (row ++ rest)).HasDriver i ∧
      ∀ n r, (f.through (row ++ rest)).Does n (.run i r .timer) → n < first := by
  -- nothing is left to wait for, under whatever number: also under one that was never given out
  have hlast : (f.through (row ++ rest)).isLive (f.through (row ++ rest)).nextNumber = false := by
    by_contra hlive
    obtain ⟨a, ha⟩ := isLive_iff.1 (by simpa using hlive)
    exact absurd ((sound_through hpristine.sound _).lt_of_does ha) (Nat.lt_irrefl _)
  obtain ⟨hidle', hdone⟩ := draining_through hpristine rest hidle (.done hquiet hnone) hrest
  obtain ⟨hquiet', hnone'⟩ := hdone.of_returned hlast
  refine ⟨not_hasDriver (wired_through hpristine _) hidle' hquiet', ?_⟩
  intro n r hr
  by_contra hfirst
  exact absurd (hnone' n r hr (Nat.not_lt.1 hfirst)) List.not_mem_nil

/-- **Draining.**  A scheduler is started while no shutdown of it waits for its drivers, and later
    shut down by a call that waits for ticks.  Whatever happens in between and meanwhile, when the
    call has returned every tick that the timer started since the start has ended, after giving its
    lock back if it had it; and until the next start there is no driver of the scheduler and no tick
    starts. -/
theorem shutdown_drains {f : Fleet FaultyStore} (hpristine : f.Pristine) {i : Nat}
    {before during later row : List Occurrence} {foreground : Bool} {z : Nat}
    (hrow : row = before ++ .move (.start i) :: during ++
      .move (.shutdown i true foreground) :: later)
    (hquiet : ¬ (f.through before).StopsDrivers i) (hduring : ∀ o ∈ during, ¬ o.Stops i)
    (hcall : ((f.through (before ++ .move (.start i) :: during)).shutdown i true foreground).1 =
      some z)
    (hlater : ∀ o ∈ later, o.plain ≠ .start i) (hreturned : (f.through row).isLive z = false) :
    (∀ between n r, between <+: row → (f.through between).Does n (.run i r .timer) →
      (f.through before).nextNumber ≤ n → (f.through row).isLive n = false ∧
        (r.phase.since? ≠ none → f.GivesBack between row n r.key)) ∧
      ∀ rest, (∀ o ∈ rest, o.plain ≠ .start i) → ¬ (f.through (row ++ rest)).HasDriver i ∧
        ∀ n r, (f.through (row ++ rest)).Does n (.run i r .timer) →
        n < (f.through before).nextNumber := by
  -- up to the call every tick is in flight
  have hnever : ∀ o ∈ Occurrence.move (.start i) :: during, ¬ o.Stops i := by
    intro o ho
    rcases List.mem_cons.1 ho with rfl | hin
    · intro hstops
      obtain ⟨_, _, hplain⟩ := hstops
      cases hplain
    · exact hduring o hin
  obtain ⟨hquiet', htracked⟩ := tracked_through hpristine _ hquiet hnever
  -- when it has returned, the shutdown has seen everything end
  obtain ⟨hidle, hdone⟩ := draining_of_call hpristine hquiet' htracked hcall hlater
  rw [← hrow] at hidle hdone
  obtain ⟨hquietEnd, hnone⟩ := hdone.of_returned hreturned
  refine ⟨?_, ?_⟩
  · intro between n r hpre hdoes hfirst
    have hended : (f.through row).isLive n = false := by
      by_contra hlive
      obtain ⟨a, ha⟩ := isLive_iff.1 (by simpa using hlive)
      obtain ⟨r', rfl⟩ := run_of_live hpristine hpre hdoes a ha
      exact absurd (hnone n r' ha hfirst) List.not_mem_nil
    exact ⟨hended, fun hholds => gives_back hpristine.sound hpre hdoes hholds hended⟩
  · intro rest hrest
    exact drained_through hpristine hidle hquietEnd hnone hrest

/-- A job whose body waits half a second is registered. -/
def registering : List Occurrence := [.move (.register 0 (.sleeper 2000 [500]))]

/-- The driver begins, fires after a second, and the tick takes its lock. -/
def firing : List Occurrence :=
  [.move (.turn 1), .move (.pass 1000), .move (.turn 1), .move (.turn 2)]

/-- The tick runs its body and gives its lock back, and the shutdown sees it end. -/
def windingDown : List Occurrence :=
  [.move (.turn 2), .move (.pass 1500), .move (.turn 2), .move (.turn 2), .move (.turn 3)]

/-- The job is paused while the tick has its lock, and then the scheduler is shut down. -/
def drainingRow : List Occurrence :=
  registering ++ .move (.start 0) :: (firing ++ [.move (.pause 0 "sleeper")]) ++
    .move (.shutdown 0 true true) :: windingDown

/-- The tick of a paused job that has its lock when the scheduler is shut down. -/
theorem shutdown_drains_paused : (untouched.through drainingRow).isLive 2 = false ∧
    untouched.GivesBack (registering ++ .move (.start 0) ::
      firing) drainingRow 2 "job_lock:sleeper" := by
  have hfound : (untouched.through (registering ++ .move (.start 0) :: firing)).task? 2 =
      some ⟨2, .run 0 ⟨⟨⟨"job_lock", .scheduler 0, 100⟩, 600000, none, .ledger⟩,
        .sleeper 2000 [500], .scheduled, .holding 1000⟩ .timer, .ready, false⟩ := by
    rfl
  obtain ⟨hmem, -⟩ := task?_eq_some hfound
  have hquiet : ¬ (untouched.through registering).StopsDrivers 0 := by
    intro hsome
    obtain ⟨m, d, drivers, ⟨t, ht, -⟩, -⟩ := hsome
    cases ht
  have hduring : ∀ o ∈ firing ++ [.move (.pause 0 "sleeper")], ¬ o.Stops 0 := by
    intro o ho hstops
    obtain ⟨_, _, hplain⟩ := hstops
    simp only [firing, List.cons_append, List.nil_append, List.mem_cons,
      List.not_mem_nil, or_false] at ho
    rcases ho with rfl | rfl | rfl | rfl | rfl <;> cases hplain
  have hlater : ∀ o ∈ windingDown, o.plain ≠ .start 0 := by
    intro o ho hplain
    simp only [windingDown, List.mem_cons, List.not_mem_nil, or_false] at ho
    rcases ho with rfl | rfl | rfl | rfl | rfl <;> cases hplain
  have hcall : ((untouched.through (registering ++ .move (.start 0) ::
      (firing ++ [.move (.pause 0 "sleeper")]))).shutdown 0 true true).1 = some 3 := by
    decide +kernel
  have hreturned : (untouched.through drainingRow).isLive 3 = false := by
    decide +kernel
  obtain ⟨hended, hgiven⟩ :=
    (shutdown_drains pristine_untouched rfl hquiet hduring hcall hlater hreturned).1
    (registering ++ .move (.start 0) :: firing) 2 _ ⟨_, rfl⟩ (does_of_mem hmem) (by decide +kernel)
  exact ⟨hended, hgiven nofun⟩

/-- The scheduler is stopped, and while that waits for the driver the job is paused. -/
def stoppingOnce : List Occurrence :=
  registering ++ [.move (.start 0), .move (.turn 1), .move (.shutdown 0 true true),
    .move (.pause 0 "sleeper")]

/-- With an earlier shutdown still under way when the scheduler is started, a later one can return
    while a driver is left. -/
theorem overlapping_shutdown_leaves_driver :
    ¬ ∀ (f : Fleet FaultyStore), f.Pristine →
    ∀ (i : Nat) (before during later row : List Occurrence) (foreground : Bool)
      (z : Nat), row = before ++ .move (.start i) :: during ++
        .move (.shutdown i true foreground) :: later →
      (f.through before).isRunning i = false → (∀ o ∈ during, ¬ o.Stops i) →
      ((f.through (before ++ .move (.start i) :: during)).shutdown i true foreground).1 = some z →
      (∀ o ∈ later, o.plain ≠ .start i) → (f.through row).isLive z = false →
      ¬ (f.through row).HasDriver i := by
  intro h
  have hfound : (untouched.through (stoppingOnce ++
    [.move (.start 0), .move (.shutdown 0 true true)])).task? 1 =
      some ⟨1, .drive ⟨0, 0, .sleeper 2000 [500], .interval ⟨1⟩, some ⟨1000000000⟩, true⟩,
        .ready, false⟩ := by
    rfl
  obtain ⟨hmem, -⟩ := task?_eq_some hfound
  refine h untouched pristine_untouched 0 stoppingOnce [] [] _ true 3 rfl (by decide +kernel) nofun
    (by decide +kernel)
    nofun (by decide +kernel) ⟨1, _, does_of_mem hmem, rfl⟩

end Fleet

end JobFleet
