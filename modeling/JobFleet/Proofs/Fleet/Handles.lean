/-
  JobFleet.Proofs.Fleet.Handles: no driver without its entry, and no entry with two drivers.

  A driver that was told to stop is on its way out, and belongs to a shutdown rather than to an
  entry.  But it is ready until it has ended.  So where everyone waits for something that has not
  come yet (`Settled`), every driver that is left is the one that the entry of its job names.  How
  far that driver has got says when it is there at all: while its job is active and the trigger has
  another fire time, counted from when the job became active.

  Main results:
    * `named_of_settled` — in a settled fleet a driver is named by the entry of its job.
    * `fires_again_of_does`, `does_of_fires_again` — an active job has its driver exactly while its
      trigger fires again.
    * `drivers_accounted` — the drivers of a settled fleet are those that the registries name.
-/
import JobFleet.Proofs.Fleet.TimerTrace

namespace JobFleet

open JobFleet.Schedule JobFleet.Time

namespace Fleet

/-- Every task whose time has come has gone on to its next wait: nobody is ready, and who sleeps
    sleeps on. -/
def Settled {σ : Type} (f : Fleet σ) :
    Prop := ∀ t ∈ f.tasks, t.state.RestsUntil (f.world.elapsed + 1)

instance {σ : Type} (f : Fleet σ) : Decidable f.Settled :=
  inferInstanceAs (Decidable (∀ t ∈ f.tasks, t.state.RestsUntil (f.world.elapsed + 1)))

/-- The trigger of an entry that has been active from some point on has another fire time. -/
def FiresAgain (f : Fleet FaultyStore) (row : List Occurrence) (i : Nat) (e : Entry) : Prop :=
  ∀ first, Period f i e first row →
    ∃ x, e.trigger.Yields (f.through first).world.now x ∧ (f.through row).world.now.nanos < x.nanos

section

variable {f : Fleet FaultyStore} {row : List Occurrence} {i m n : Nat} {d : Driver}
    {e : Entry} {x : Instant}

/-! ## Drivers of a settled fleet -/

theorem Settled.not_ready {t : Task} (h : f.Settled) (ht : t ∈ f.tasks) :
    Task.isReady t = false := by
  have hrests := h t ht
  unfold Task.isReady
  cases hstate : t.state with
  | due | ready =>
    rw [hstate] at hrests
    exact absurd hrests id
  | sleeping wake | blocked => rfl

/-- No driver of a settled fleet is urgent: it waits for a fire time, and was not told to stop. -/
theorem Settled.waits (h : f.Settled) (heager : f.Eager) (hdoes : f.Does n (.drive d)) :
    d.stopping = false ∧ ∃ x, d.awaited = some x := by
  obtain ⟨t, ht, -, hactivity⟩ := hdoes
  have hnot : ¬ (d.stopping = true ∨ d.awaited = none) := by
    intro hurgent
    have hready := heager t ht ⟨d, hactivity, hurgent⟩
    rw [h.not_ready ht] at hready
    cases hready
  obtain ⟨hgoes, hawaited⟩ := not_or.1 hnot
  exact ⟨by simpa using hgoes, Option.ne_none_iff_exists'.1 hawaited⟩

/-- In a settled fleet a driver is the one that the entry of its job names. -/
theorem named_of_settled (hw : f.Wired) (heager : f.Eager) (h : f.Settled)
    (hdoes : f.Does n (.drive d)) :
    ∃ e ∈ f.registry d.scheduler, e.job = d.job ∧ e.driver = some n := by
  obtain ⟨hgoes, -⟩ := h.waits heager hdoes
  obtain ⟨e, he, hn⟩ := hw.named n d hdoes hgoes
  obtain ⟨-, -, -, hdriver⟩ := hw.handles _ e he n hn
  obtain ⟨awaited, hactivity⟩ := hdriver _ hdoes
  injection hactivity with hdrive
  refine ⟨e, he, ?_, hn⟩
  rw [hdrive]
  rfl

/-- The driver of a job is the one that the entry of the job names. -/
theorem driver_of_settled (hw : f.Wired) (heager : f.Eager) (h : f.Settled)
    (he : e ∈ f.registry d.scheduler) (hid : d.job.id = e.id) (hdoes : f.Does n (.drive d)) :
    e.driver = some n := by
  obtain ⟨e', he', hjob, hn⟩ := named_of_settled hw heager h hdoes
  have hid' : e'.id = d.job.id := congrArg Job.id hjob
  rw [(hw.sorted _).eq_of_id he he' (hid.symm.trans hid'.symm)]
  exact hn

/-! ## While the trigger fires again -/

namespace Regulated

/-- What a driver of a settled fleet waits for is still to come. -/
theorem now_lt_awaited (h : f.Regulated row) (hsettled : (f.through row).Settled)
    {first : List Occurrence} {k : Nat} (hdeclared : e.trigger.IsDeclared)
    (hx : e.trigger.nth? (f.through first).world.now k = some x)
    (hdoes : (f.through row).Does m (.drive { e.driverOf i with awaited := some x })) :
    (f.through row).world.now.nanos < x.nanos := by
  obtain ⟨t, ht, -, hactivity⟩ := hdoes
  have hwithin := h.alert List.prefix_rfl t ht _ x ⟨hactivity, rfl, rfl⟩ hdeclared.looksAhead
  have hrests := hsettled t ht
  obtain ⟨hwhole, hstart⟩ :
      x.nanos % nanosPerMilli = 0 ∧ (f.through row).world.start.nanos ≤ x.nanos :=
    h.whole_of_fire hdeclared hx
  have hexact := momentOf_whole (through_whole h.pristine.sound h.whole row) hwhole hstart
  cases hstate : t.state with
  | due | ready =>
    rw [hstate] at hrests
    exact absurd hrests id
  | blocked =>
    rw [hstate] at hwithin
    exact absurd hwithin id
  | sleeping wake =>
    -- it sleeps until the moment of its fire time, and sleeps on
    rw [hstate] at hrests hwithin
    have hlater : (f.through row).world.elapsed + 1 ≤ wake := hrests
    have hlimit : wake < (f.through row).world.momentOf x + 1 := hwithin.2.2
    show (f.through row).world.start.nanos + (f.through row).world.elapsed * nanosPerMilli < x.nanos
    rw [← hexact]
    unfold nanosPerMilli
    omega

/-- A job that has its driver fires again. -/
theorem fires_again_of_does (h : f.Regulated row) (hsettled : (f.through row).Settled)
    (he : e ∈ (f.through row).registry i) (hm : e.driver = some m)
    (hdoes : (f.through row).Does m (.drive d)) :
    f.FiresAgain row i e := by
  intro first hperiod
  obtain ⟨-, x, hawaited⟩ := hsettled.waits (h.eager row) hdoes
  obtain ⟨-, k, hstage, -⟩ :=
    h.traced_through hperiod List.prefix_rfl hm row hperiod.order List.prefix_rfl
  cases hstage with
  | begins hbegins =>
    -- a driver that has not begun waits for nothing
    cases (h.sound row).does_unique hdoes hbegins
    cases hawaited
  | @waits k y hwaits hy => exact ⟨y, ⟨k, hy⟩, h.now_lt_awaited hsettled (h.declared he) hy hwaits⟩
  | ended hgone => exact absurd hdoes (hgone _)

/-- The fire times for which the driver of a period has fired have come. -/
theorem le_now_of_fired (h : f.Regulated row) {first : List Occurrence} {j k : Nat}
    (hdeclared : e.trigger.IsDeclared)
    (hticks : ∀ x : Instant, (f.through first).world.now.nanos < x.nanos →
      f.ticksAt i e.id x row = e.trigger.among (f.through first).world.now k x)
    (hjk : j < k) (hx : e.trigger.nth? (f.through first).world.now j = some x) :
    x.nanos ≤ (f.through row).world.now.nanos := by
  by_contra hnot
  -- it had its tick, and an instant that the clock has not reached has none
  have hone := hticks x (Trigger.lt_nth hdeclared hx)
  rw [Trigger.among_eq_one hdeclared hjk hx,
    ticksAt_of_lt h.pristine.sound (Int.not_le.1 hnot)] at hone
  cases hone

/-- An active job that fires again has its driver, if its declaration can be read. -/
theorem does_of_fires_again (h : f.Regulated row) (he : e ∈ (f.through row).registry i)
    (hreads : e.job.unreadableWhileLocked = false) (hruns : (f.through row).isRunning i = true)
    (hunpaused : e.paused = false) (hagain : f.FiresAgain row i e) :
    ∃ m awaited, (f.through row).Does m (.drive { e.driverOf i with awaited := awaited }) := by
  obtain ⟨first, hperiod⟩ :=
    h.exists_period i row List.prefix_rfl e he ⟨hruns, e, he, rfl, hunpaused⟩
  obtain ⟨m, hm⟩ := (h.wired row).driven i hruns e he hunpaused
  obtain ⟨-, k, hstage, hticks⟩ :=
    h.traced_through hperiod List.prefix_rfl hm row hperiod.order List.prefix_rfl
  cases hstage with
  | begins hbegins => exact ⟨m, none, hbegins⟩
  | waits hwaits => exact ⟨m, _, hwaits⟩
  | ended _ _ hlast =>
    obtain ⟨x, ⟨j, hj⟩, hlater⟩ := hagain first hperiod
    obtain hnone | hunreadable := hlast
    · -- the driver has ended after the last fire time, so all of them have come
      have hjk : j < k := by
        by_contra hle
        rw [Trigger.nth?_none_mono (Nat.not_lt.1 hle) hnone] at hj
        cases hj
      exact absurd (h.le_now_of_fired (h.declared he) hticks hjk hj) (Int.not_le.2 hlater)
    · rw [hreads] at hunreadable
      cases hunreadable

end Regulated

end

/-- **Drivers accounted for.**  Whatever was asked of the schedulers, in any order, and however time
    has passed since: once every task whose time has come has gone on to its next wait, every driver
    is the one that the entry of its own job names, and no job of a scheduler has two.  The entries
    of a scheduler that does not run name none.  And while nothing goes on too late, a job whose
    declaration can be read has a driver exactly if its scheduler runs, it is not paused, and its
    trigger has another fire time. -/
theorem drivers_accounted {f : Fleet FaultyStore} {row : List Occurrence} (hpristine : f.Pristine)
    (hsettled : (f.through row).Settled) :
    (∀ n d, (f.through row).Does n (.drive d) →
      ∃ e ∈ (f.through row).registry d.scheduler, e.job = d.job ∧ e.driver = some n) ∧
    (∀ n n' d d', (f.through row).Does n (.drive d) → (f.through row).Does n' (.drive d') →
      d.scheduler = d'.scheduler →
      d.job.id = d'.job.id → n = n') ∧
    (∀ i, (f.through row).isRunning i = false → ∀ e ∈ (f.through row).registry i, e.driver = none) ∧
    (f.Timely row → f.Whole → (∀ i zone, f.zone? i = some zone → zone.Orderly) →
      ∀ i, ∀ e ∈ (f.through row).registry i,
      e.job.unreadableWhileLocked = false →
        ((∃ n d, (f.through row).Does n (.drive d) ∧ d.scheduler = i ∧ d.job.id = e.id) ↔
          (f.through row).isRunning i = true ∧ e.paused = false ∧ f.FiresAgain row i e)) := by
  have hw : (f.through row).Wired := wired_through hpristine row
  have heager : (f.through row).Eager := eager_through hpristine.fresh row
  refine ⟨?_, ?_, ?_, ?_⟩
  · exact fun n d hdoes => named_of_settled hw heager hsettled hdoes
  · intro n n' d d' hdoes hdoes' hscheduler hid
    -- both are the driver that the one entry of the job names
    obtain ⟨e, he, hjob, hn⟩ := named_of_settled hw heager hsettled hdoes
    have hid' : d'.job.id = e.id := by
      rw [← hid, ← hjob]
      rfl
    have hn' := driver_of_settled hw heager hsettled (hscheduler ▸ he) hid' hdoes'
    rw [hn] at hn'
    exact Option.some.inj hn'
  · intro i hidle e he
    cases hdriver : e.driver with
    | none => rfl
    | some n =>
      -- an entry names a driver only where its scheduler runs
      have hruns := (hw.handles i e he n hdriver).1
      rw [hidle] at hruns
      cases hruns
  · intro htimely hwhole horderly i e he hreads
    have h : f.Regulated row := ⟨hpristine, htimely, hwhole, horderly⟩
    constructor
    · intro hlive
      obtain ⟨n, d, hdoes, hi, hid⟩ := hlive
      subst hi
      have hn := driver_of_settled hw heager hsettled he hid hdoes
      obtain ⟨hruns, hunpaused, -⟩ := hw.handles _ e he n hn
      exact ⟨hruns, hunpaused, h.fires_again_of_does hsettled he hn hdoes⟩
    · intro hactive
      obtain ⟨hruns, hunpaused, hagain⟩ := hactive
      obtain ⟨m, awaited, hdoes⟩ := h.does_of_fires_again he hreads hruns hunpaused hagain
      exact ⟨m, _, hdoes, rfl, rfl⟩

/-- A job is registered again while its driver waits, paused, and resumed; then the trigger fires,
    and the tick sleeps. -/
def reregistering : List Occurrence :=
  [.move (.register 0 (.sleeper 2000 [500])), .move (.start 0), .move (.turn 1), .move (.pass 300),
    .move (.register 0 (.sleeper 2000 [500])), .move (.turn 3), .move (.pass 600),
    .move (.pause 0 "sleeper"), .move (.resume 0 "sleeper"), .move (.turn 4), .move (.pass 1600),
    .move (.turn 4), .move (.turn 5), .move (.turn 5)]

/-- The driver that is left of three is that of the entry, and will fire again. -/
theorem drivers_accounted_reregistering : (untouched.through reregistering).Settled ∧
    (∃ e ∈ (untouched.through reregistering).registry 0, e.job = .sleeper 2000 [500] ∧
      e.driver = some 4) ∧
    untouched.FiresAgain reregistering 0 ⟨2, .sleeper 2000 [500], .interval ⟨1⟩, false,
      none, some 4⟩ := by
  have hsettled : (untouched.through reregistering).Settled := by
    decide +kernel
  have htimely : untouched.Timely reregistering := by
    decide +kernel
  have horderly : ∀ i zone, untouched.zone? i = some zone → zone.Orderly := by
    intro i zone hzone
    cases i with
    | zero =>
      cases hzone
      exact orderly_of_mem_tabledZones List.mem_cons_self
    | succ i => cases hzone
  have hfound : (untouched.through reregistering).task? 4 =
    some ⟨4, .drive ⟨0, 2, .sleeper 2000 [500], .interval ⟨1⟩,
      some ⟨2600000000⟩, false⟩, .sleeping 2600, false⟩ := by
    rfl
  have hdoes := does_of_mem (task?_eq_some hfound).1
  obtain ⟨hnamed, -, -, hfires⟩ := drivers_accounted pristine_untouched hsettled
  refine ⟨hsettled, hnamed _ _ hdoes, ?_⟩
  exact ((hfires htimely rfl horderly 0 _ List.mem_cons_self rfl).1 ⟨_, _, hdoes, rfl, rfl⟩).2.2

end Fleet

end JobFleet
