/-
  JobFleet.Proofs.Fleet.Periods: when the trigger of a job may fire, and which driver serves it
  then.

  A job is active while its scheduler runs and it is registered and not paused.  A period is a
  stretch of a row of occurrences through which one registration of a job is active, and before
  which it was not.  Every driver there is serves a period: one that has not ended, or that has
  ended at this very moment because the scheduler was shut down.  And what it waits for is one of
  the fire times that its trigger has from the beginning of the period on.

  This needs the row to be timely: a task only goes on when its time has come, and time passes only
  while no task can go on.

  Main results:
    * `driverFrom_of_effect` — where a driver after a step comes from.
    * `serves_through` — every driver serves a period, on its cadence.
-/
import JobFleet.Proofs.Fleet.Urgency
import JobFleet.Proofs.Schedule.Cadence

namespace JobFleet

open JobFleet.Schedule JobFleet.Time

/-- A call that ends a period of a job: its scheduler is shut down, or it is paused, removed or
    registered again. -/
def Occurrence.Ends (i : Nat) (id : String) (o : Occurrence) : Prop :=
  match o.plain with
  | .shutdown j _ _ => j = i
  | .pause j name | .remove j name => j = i ∧ name = id
  | .register j job => j = i ∧ job.id = id
  | .registerAll j jobs => j = i ∧ id ∈ jobs.map (·.id)
  | _ => False

namespace Fleet

/-! ## Timely rows -/

/-- Every occurrence of a row is made in time. -/
def Timely (f : Fleet FaultyStore) : List Occurrence → Prop
  | [] => True
  | o :: rest => f.Prompt o.plain ∧ (f.occur o).Timely rest

instance decidableTimely : (f : Fleet FaultyStore) → DecidablePred f.Timely
  | _, [] => .isTrue trivial
  | f, o :: rest =>
    haveI := decidableTimely (f.occur o) rest
    inferInstanceAs (Decidable (f.Prompt o.plain ∧ (f.occur o).Timely rest))

section

variable {f g : Fleet FaultyStore} {row before point : List Occurrence} {o : Occurrence}
    {i m : Nat} {d : Driver}

/-- Every occurrence of a timely row is made in time. -/
theorem Timely.prompt (h : f.Timely row) (hpre : before ++ [o] <+: row) :
    (f.through before).Prompt o.plain := by
  induction before generalizing f row with
  | nil =>
    obtain ⟨rest, rfl⟩ := hpre
    exact h.1
  | cons o₀ before ih =>
    obtain ⟨rest, rfl⟩ := hpre
    exact ih h.2 (List.prefix_append _ rest)

/-- Where everything is made in time, nobody oversleeps. -/
theorem alert_through (hfresh : f.Fresh) (htimely : f.Timely row) :
    ∀ point, point <+: row → (f.through point).Alert := by
  refine prefix_induction ?_ ?_
  · intro t ht
    have hnone : t ∈ f.tasks := ht
    rw [hfresh.tasks] at hnone
    cases hnone
  · intro point o hpre ih
    have hsound := sound_through hfresh.sound point
    rw [through_concat]
    exact alert_happens hsound (htimely.prompt hpre) (occur_happens hsound o) ih

/-- Time passes only while there is no urgent driver. -/
theorem not_pass_of_urgent (heager : f.Eager) (hprompt : f.Prompt o.plain)
    (hdoes : f.Does m (.drive d)) (hurgent : d.stopping = true ∨ d.awaited = none) (moment : Nat) :
    o.plain ≠ .pass moment := by
  intro hpass
  obtain ⟨t, ht, -, hactivity⟩ := hdoes
  have hready := heager t ht ⟨d, hactivity, hurgent⟩
  rw [hpass] at hprompt
  have hrests := hprompt t ht
  unfold Task.isReady at hready
  cases hstate : t.state with
  | due | ready =>
    rw [hstate] at hrests
    exact hrests
  | sleeping wake | blocked =>
    rw [hstate] at hready
    cases hready

/-- Only the passing of time takes time. -/
theorem elapsed_occur (hs : f.Sound) (hnot : ∀ moment, o.plain ≠ .pass moment) :
    (f.occur o).world.elapsed = f.world.elapsed := by
  have h := occur_happens hs o
  generalize f.occur o = g at h ⊢
  generalize o.plain = move at h hnot
  cases h with
  | calm h => exact h.still.elapsed
  | passed moment => exact absurd rfl (hnot moment)
  | failed operations => rfl
  | piece _ _ hadvances => rw [(still_afterRun hs).elapsed, hadvances.clock.1]

/-! ## Moments and instants -/

/-- A fleet counts whole milliseconds from a whole millisecond on, so its clock shows whole
    milliseconds. -/
def Whole (f : Fleet FaultyStore) : Prop := f.world.start.nanos % nanosPerMilli = 0

/-- The clock shows whole milliseconds. -/
theorem now_whole (h : f.Whole) : f.world.now.nanos % nanosPerMilli = 0 := by
  have h : f.world.start.nanos % nanosPerMilli = 0 := h
  show (f.world.start.nanos + f.world.elapsed * nanosPerMilli) % nanosPerMilli = 0
  unfold nanosPerMilli at *
  omega

/-- The moment of a whole millisecond is exact. -/
theorem momentOf_whole (h : f.Whole) {x : Instant} (hx : x.nanos % nanosPerMilli = 0)
    (hle : f.world.start.nanos ≤ x.nanos) :
    f.world.start.nanos + f.world.momentOf x * nanosPerMilli = x.nanos := by
  have h : f.world.start.nanos % nanosPerMilli = 0 := h
  unfold World.momentOf
  unfold nanosPerMilli at *
  omega

/-- The clock never shows an instant before its start. -/
theorem start_le_now (f : Fleet FaultyStore) : f.world.start.nanos ≤ f.world.now.nanos := by
  show f.world.start.nanos ≤ f.world.start.nanos + f.world.elapsed * nanosPerMilli
  unfold nanosPerMilli
  omega

/-- What an alert driver waits for has not passed. -/
theorem now_le_awaited (h : f.Whole) (halert : f.Alert) (hdoes : f.Does m (.drive d))
    (hgoes : d.stopping = false) (hahead : d.trigger.LooksAhead) {x : Instant}
    (hawaited : d.awaited = some x) (hx : x.nanos % nanosPerMilli = 0)
    (hle : f.world.start.nanos ≤ x.nanos) : f.world.now ≤ x := by
  obtain ⟨t, ht, -, hactivity⟩ := hdoes
  have hwithin := (halert t ht d x ⟨hactivity, hawaited, hgoes⟩ hahead).lt
  have hexact := momentOf_whole h hx hle
  show f.world.start.nanos + f.world.elapsed * nanosPerMilli ≤ x.nanos
  unfold nanosPerMilli at *
  omega

/-- An alert driver has its turn at the very instant for which it waits. -/
theorem now_eq_awaited (h : f.Whole) (halert : f.Alert) (hprompt : f.Prompt (.turn m))
    (hdoes : f.Does m (.drive d)) (hgoes : d.stopping = false) (hahead : d.trigger.LooksAhead)
    {x : Instant} (hawaited : d.awaited = some x) (hx : x.nanos % nanosPerMilli = 0)
    (hle : f.world.start.nanos ≤ x.nanos) : f.world.now = x := by
  obtain ⟨t, ht, hnumber, hactivity⟩ := hdoes
  obtain ⟨hfirst, hlast⟩ :=
    (halert t ht d x ⟨hactivity, hawaited, hgoes⟩ hahead).of_ready (hprompt t ht hnumber)
  have hexact := momentOf_whole h hx hle
  have hnanos : f.world.start.nanos + f.world.elapsed * nanosPerMilli = x.nanos := by
    rw [← hexact, show f.world.elapsed = f.world.momentOf x by omega]
  show Instant.mk _ = x
  rw [hnanos]

theorem through_whole (hs : f.Sound) (h : f.Whole) (point : List Occurrence) :
    (f.through point).Whole := by
  unfold Whole
  rw [start_through hs]
  exact h

/-! ## Active registrations -/

/-- The scheduler runs, and the registration with this number is not paused. -/
def Active {σ : Type} (f : Fleet σ) (i serial : Nat) : Prop :=
  f.isRunning i = true ∧ ∃ e ∈ f.registry i, e.serial = serial ∧ e.paused = false

instance {σ : Type} (f : Fleet σ) (i serial : Nat) : Decidable (f.Active i serial) :=
  inferInstanceAs (Decidable (f.isRunning i = true ∧ ∃ e ∈ f.registry i, e.serial = serial ∧
    e.paused = false))

/-- Whether a registration is active is read off the frames. -/
theorem active_congr (h : g.frames = f.frames) {serial : Nat} (hactive : f.Active i serial) :
    g.Active i serial := by
  unfold Active
  rw [isRunning_congr h, registry_congr h]
  exact hactive

/-- An entry whose registration is active is not paused. -/
theorem unpaused_of_active (hw : f.Wired) {e : Entry} (he : e ∈ f.registry i)
    (hactive : f.Active i e.serial) :
    e.paused = false := by
  obtain ⟨-, e', he', hserial, hunpaused⟩ := hactive
  rw [hw.serials i e he e' he' hserial.symm]
  exact hunpaused

/-- What is asked of one scheduler leaves the others active, and this one runs on. -/
theorem active_of_rewires {started : Prop} {j : Nat} (hw : f.Wired)
    (h : Rewires started j f g) {e : Entry} (he : e ∈ f.registry i) (hactive : f.Active i e.serial)
    (hstays : i = j → ∃ e' ∈ g.registry i, e'.serial = e.serial ∧ e'.paused = false) :
    g.Active i e.serial := by
  by_cases hi : i = j
  · subst hi
    exact ⟨h.running hactive.1, hstays rfl⟩
  · unfold Active
    rw [(h.others i hi).isRunning, (h.others i hi).registry]
    exact ⟨hactive.1, e, he, rfl, unpaused_of_active hw he hactive⟩

/-- A request about another job leaves a registration active. -/
theorem active_of_asked {j : Nat} {name : String} (hs : f.Sound) (hw : f.Wired)
    (h : Asked j name f g) {e : Entry} (he : e ∈ f.registry i) (hactive : f.Active i e.serial)
    (hother : ¬ (j = i ∧ name = e.id)) : g.Active i e.serial := by
  refine active_of_rewires hw (h.rewires hs hw) he hactive ?_
  intro hi
  subst hi
  exact ⟨e, h.keeps he (fun hid => hother ⟨rfl, hid.symm⟩), rfl, unpaused_of_active hw he hactive⟩

/-- Resuming leaves a registration active, also that of the job itself. -/
theorem active_of_resume (hs : f.Sound) (hw : f.Wired) {e : Entry} (he : e ∈ f.registry i)
    (hactive : f.Active i e.serial) (j : Nat) (name : String) :
    (f.resume j name).2.Active i e.serial := by
  by_cases hself : j = i ∧ name = e.id
  · refine active_of_rewires hw ((asked_resume hw j name).rewires hs hw) he hactive ?_
    intro hi
    subst hi
    cases hfound : Entry.find? name (f.entriesOf i) with
    | none =>
      obtain ⟨e₀, he₀, rfl⟩ := Entry.mem_map_plain.1 he
      exact absurd hself.2.symm (Entry.find?_eq_none hfound e₀ he₀)
    | some e₀ =>
      -- the entry that is resumed keeps its serial number
      obtain ⟨e', hserial, hunpaused, hswaps⟩ := swaps_resume hw hfound
      obtain ⟨hmem, hid⟩ := Entry.find?_eq_some hfound
      have hsame := (hw.sorted i).eq_of_id he (List.mem_map_of_mem hmem)
        (hself.2.symm.trans hid.symm)
      refine ⟨e', (hswaps.swapped.2 e').2 (.inr rfl), ?_, hunpaused⟩
      rw [hserial, hsame]
      rfl
  · exact active_of_asked hs hw (asked_resume hw j name) he hactive hself

/-- Registering other jobs leaves a registration active. -/
theorem active_of_enters {j : Nat} {ids : List String} (hw : f.Wired)
    (h : Enters j ids f g) {e : Entry} (he : e ∈ f.registry i) (hactive : f.Active i e.serial)
    (hother : ¬ (j = i ∧ e.id ∈ ids)) : g.Active i e.serial := by
  refine active_of_rewires hw h.rewires he hactive ?_
  intro hi
  subst hi
  exact ⟨e, h.keeps e he (fun hid => hother ⟨rfl, hid⟩), rfl, unpaused_of_active hw he hactive⟩

/-- Starting a scheduler that runs changes nothing. -/
theorem active_of_start (hs : f.Sound) (hw : f.Wired) {e : Entry} (he : e ∈ f.registry i)
    (hactive : f.Active i e.serial) (j : Nat) : (f.start j).Active i e.serial := by
  refine active_of_rewires hw (rewires_start hs hw j) he hactive ?_
  intro hi
  subst hi
  refine ⟨e, ?_, rfl, unpaused_of_active hw he hactive⟩
  unfold start
  rw [if_pos hactive.1]
  exact he

theorem active_of_shutdown (hs : f.Sound) {e : Entry} (hactive : f.Active i e.serial)
    {j : Nat} (hother : j ≠ i) (waits foreground : Bool) :
    (f.shutdown j waits foreground).2.Active i e.serial := by
  by_cases hruns : f.isRunning j = true
  · obtain ⟨hregistry, hrunning⟩ :=
      (stops_shutdown hs hruns waits foreground).2.others (Ne.symm hother)
    unfold Active
    rw [hregistry, hrunning]
    exact hactive
  · unfold shutdown
    rw [if_pos (by simpa using hruns)]
    exact hactive

/-- Only a call that ends its period makes an active registration inactive, or replaces it. -/
theorem active_occur (hs : f.Sound) (hw : f.Wired) {e : Entry} (he : e ∈ f.registry i)
    (hactive : f.Active i e.serial) (hnot : ¬ o.Ends i e.id) : (f.occur o).Active i e.serial := by
  have hturns : ∀ {o' : Occurrence} {g : Fleet FaultyStore}, f.Turns o' g → g.Active i e.serial :=
    fun h => active_congr (turned_of_turns hs h).frames hactive
  cases o with
  | race number => exact hturns (turns_race hs number)
  | move m honest =>
    cases m with
    | turn number => exact hturns (turns_advance (o := .move (.turn number) honest) hs rfl)
    | pass moment => exact active_congr (alike_passTo moment).frames hactive
    | fail operations => exact hactive
    | request j id kind caller foreground => exact hturns (turns_request honest (.move _ honest))
    | register j job =>
      refine active_of_enters hw (enters_register hs hw j job) he hactive ?_
      exact fun hsame => hnot ⟨hsame.1, (List.mem_singleton.1 hsame.2).symm⟩
    | registerAll j jobs =>
      exact active_of_enters hw (enters_registerAll hs hw j jobs) he hactive hnot
    | pause j name => exact active_of_asked hs hw (asked_pause hw j name) he hactive hnot
    | remove j name => exact active_of_asked hs hw (asked_remove hw j name) he hactive hnot
    | resume j name => exact active_of_resume hs hw he hactive j name
    | start j => exact active_of_start hs hw he hactive j
    | shutdown j waits foreground => exact active_of_shutdown hs hactive hnot waits foreground

/-! ## Where a driver comes from -/

/-- A driver that was not told to stop serves a registration that is active. -/
theorem active_of_driver (hw : f.Wired) (hdoes : f.Does m (.drive d)) (hgoes : d.stopping = false) :
    f.Active d.scheduler d.serial := by
  obtain ⟨e, he, hn⟩ := hw.named m d hdoes hgoes
  obtain ⟨hruns, hunpaused, -, hdriver⟩ := hw.handles _ e he m hn
  obtain ⟨awaited, hactivity⟩ := hdriver _ hdoes
  injection hactivity with hdrive
  refine ⟨hruns, e, he, ?_, hunpaused⟩
  rw [hdrive]
  rfl

/-- Where a driver after a step comes from. -/
inductive DriverFrom (f : Fleet FaultyStore) (o : Occurrence) (m : Nat) (d : Driver)
    (g : Fleet FaultyStore) : Prop
  /-- It was there, as it is. -/
  | stays (hdoes : f.Does m (.drive d))
  /-- It was told to stop. -/
  | told (ho : o.Stops d.scheduler) (hstops : d.stopping = true)
    (hdoes : f.Does m (.drive { d with stopping := false }))
  /-- It had its turn, and now waits for what its trigger answered. -/
  | turned {d₀ : Driver} (ho : o.plain = .turn m) (hdoes : f.Does m (.drive d₀))
      (hrest : d₀.rest f.world.now = some (.drive d))
  /-- It was started for an entry that was not active. -/
  | born {e : Entry} (he : e ∈ g.registry d.scheduler) (hdriver : e.driver = some m) (hd :
    d = e.driverOf d.scheduler)
      (hidle : ¬ f.Active d.scheduler e.serial)

/-- A driver after a turn was there, or was asking its trigger. -/
theorem driverFrom_of_turns (h : f.Turns o g) (hd : g.Does m (.drive d)) :
    DriverFrom f o m d g := by
  cases h with
  | rests h => exact .stays ((h.does m _).1 hd)
  | asks _ h =>
    obtain hold | ⟨-, hnew⟩ := (h.does m _).1 hd
    · exact .stays hold
    · cases hnew
  | runs _ _ h =>
    obtain ⟨-, hold⟩ | ⟨-, hgoes⟩ := (h.does m _).1 hd
    · exact .stays hold
    · obtain ⟨r', -, hrun⟩ := Option.map_eq_some_iff.1 hgoes
      cases hrun
  | drains _ _ h => exact .stays (does_of_drainTurn h hd (fun _ => by simp))
  | @drives n d₀ ho hdoes h =>
    -- the driver that has its turn ends, or goes on with an answer of its trigger
    have hacts : ∀ rest, Acts n rest f g → (∀ a, rest = some a → d₀.rest f.world.now = some a) →
        DriverFrom f o m d g := by
      intro rest hacts hrest
      obtain ⟨-, hold⟩ | ⟨hm, hgoes⟩ := (hacts.does m _).1 hd
      · exact .stays hold
      · subst hm
        exact .turned ho hdoes (hrest _ hgoes)
    cases h with
    | fails _ _ h => exact hacts none h (fun a ha => by cases ha)
    | begins _ _ h => exact hacts _ h (fun a ha => ha)
    | stops _ h => exact hacts none h (fun a ha => by cases ha)
    | stray _ _ h => exact hacts _ h (fun a ha => ha)
    | fires _ _ _ h =>
      obtain ⟨-, hold⟩ | ⟨hm, hgoes⟩ | ⟨-, hnew⟩ := (h.does m _).1 hd
      · exact .stays hold
      · subst hm
        exact .turned ho hdoes hgoes
      · cases hnew

/-- What a driver that is new serves was not active before. -/
theorem driverFrom_of_rewires {started : Prop} {j : Nat} (hs : g.Sound) (hw : f.Wired)
    (h : Rewires started j f g) (hd : g.Does m (.drive d)) : DriverFrom f o m d g := by
  obtain hold | ⟨hnew, -, e₁, hactivity⟩ := h.origin m _ hd
  · exact .stays hold
  · injection hactivity with hdrive
    obtain ⟨e, he, hn⟩ := h.wired.named m d hd (by rw [hdrive]; rfl)
    obtain ⟨hold, -⟩ | ⟨-, hdoes, hnone⟩ := h.persists _ e he m hn
    · -- a driver that an entry had before is not new
      have hlt := (hw.handles _ e hold m hn).2.2.1
      omega
    · have hsame := hs.does_unique hd hdoes
      injection hsame with hsame
      refine .born he hn hsame ?_
      intro hactive
      obtain ⟨hruns, e₀, he₀, hserial, hunpaused⟩ := hactive
      obtain ⟨k, hk⟩ := hw.driven _ hruns e₀ he₀ hunpaused
      rw [hnone e₀ he₀ hserial] at hk
      cases hk

/-- A driver of a scheduler that is shut down is told, and keeps what it waits for. -/
theorem driverFrom_of_stops {j : Nat} {waits foreground : Bool}
    (ho : o.plain = .shutdown j waits foreground) (h : Stops j waits f g)
    (hd : g.Does m (.drive d)) : DriverFrom f o m d g := by
  obtain ⟨mid, drain, -, htells, -, hturn⟩ := h
  obtain ⟨-, hold⟩ | ⟨hi, hstops, stopping, hold⟩ :=
    htells.of_drive (does_of_drainTurn hturn hd (fun _ => by simp))
  · exact .stays hold
  · cases stopping with
    | false =>
      refine .told ?_ hstops hold
      rw [hi]
      exact ⟨waits, foreground, ho⟩
    | true =>
      refine .stays ?_
      rw [show d = { d with stopping := true } by rw [← hstops]]
      exact hold

/-- A driver after any occurrence was there, or is the new one of an entry. -/
theorem driverFrom_of_effect (hs : f.Sound) (hw : f.Wired) (hd : (f.occur o).Does m (.drive d)) :
    DriverFrom f o m d (f.occur o) := by
  cases effect_occur hs hw o with
  | turns h => exact driverFrom_of_turns h hd
  | rewires h => exact driverFrom_of_rewires ((occur_happens hs o).sound hs) hw h hd
  | stops ho h => exact driverFrom_of_stops ho h hd

/-- A driver that is to stop was to stop before, or was told just now. -/
theorem DriverFrom.of_stopping (h : DriverFrom f o m d g) (hstopping : d.stopping = true) :
    f.Does m (.drive d) ∨ (o.Stops d.scheduler ∧
      f.Does m (.drive { d with stopping := false })) := by
  cases h with
  | stays hdoes => exact .inl hdoes
  | told ho _ hdoes => exact .inr ⟨ho, hdoes⟩
  | turned _ _ hrest =>
    -- a driver that goes on was not told
    obtain ⟨hgoes, next, -, hactivity⟩ := Driver.rest_eq_some hrest
    injection hactivity with hdrive
    rw [hdrive, hgoes] at hstopping
    cases hstopping
  | born _ _ hdrive =>
    rw [hdrive] at hstopping
    cases hstopping

/-! ## Periods -/

/-- A stretch of rows through which the registration of an entry is active, and before which it was
    not. -/
structure Period (f : Fleet FaultyStore) (i : Nat) (e : Entry)
    (first last : List Occurrence) : Prop where
  order : first <+: last
  entry : e ∈ (f.through first).registry i
  active : ∀ point, first <+: point → point <+: last → (f.through point).Active i e.serial
  begins : ∀ before o, first = before ++ [o] → ¬ (f.through before).Active i e.serial

/-- A period begins when a registration becomes active. -/
theorem Period.of_begin {e : Entry} (he : e ∈ (f.through (point ++ [o])).registry i)
    (hactive : (f.through (point ++ [o])).Active i e.serial)
    (hidle : ¬ (f.through point).Active i e.serial) :
    Period f i e (point ++ [o]) (point ++ [o]) where
  order := List.prefix_rfl
  entry := he
  active := by
    intro between hfrom hto
    rw [← List.IsPrefix.eq_of_length_le hfrom hto.length_le]
    exact hactive
  begins := by
    intro before o' heq
    obtain ⟨rfl, -⟩ := List.append_inj' heq rfl
    exact hidle

/-- A period goes on while its registration is active. -/
theorem Period.concat {e : Entry} {first last : List Occurrence} (h : Period f i e first last)
    (hactive : (f.through (last ++ [o])).Active i e.serial) : Period f i e first (last ++ [o]) where
  order := h.order.trans (List.prefix_append last [o])
  entry := h.entry
  active := by
    intro point hfrom hto
    rcases List.prefix_concat_iff.1 hto with rfl | hto
    · exact hactive
    · exact h.active point hfrom hto
  begins := h.begins

/-- What a driver waits for, if it serves a trigger that was set at an instant: it has not begun,
    and no time has passed; or it waits for one of the fire times, which has not passed. -/
def OnCadence (t : Trigger) (since now : Instant) : Option Instant → Prop
  | none => now = since
  | some x => now ≤ x ∧ ∃ k, t.nth? since k = some x

/-- A driver serves a period that has not ended, or has ended at this very moment since the
    scheduler was shut down. -/
structure Serves (f : Fleet FaultyStore) (point : List Occurrence) (m : Nat)
    (d : Driver) (e : Entry) (first last : List Occurrence) : Prop where
  period : Period f d.scheduler e first last
  within : last <+: point
  handle : e.driver = some m
  same : d = { e.driverOf d.scheduler with awaited := d.awaited, stopping := d.stopping }
  goes : d.stopping = false → last = point
  now : (f.through last).world.now = (f.through point).world.now
  cadence : OnCadence e.trigger (f.through first).world.now (f.through point).world.now d.awaited

/-- Every trigger of the fleet can be that of a schedule. -/
def Declared (f : Fleet FaultyStore) : Prop := ∀ i, ∀ e ∈ f.registry i, e.trigger.IsDeclared

/-- A driver that has just been started serves a period that begins. -/
theorem serves_of_born {e : Entry} (hw : (f.through (point ++ [o])).Wired)
    (hdoes : (f.through (point ++ [o])).Does m (.drive d))
    (he : e ∈ (f.through (point ++ [o])).registry d.scheduler) (hdriver : e.driver = some m)
    (hd : d = e.driverOf d.scheduler) (hidle : ¬ (f.through point).Active d.scheduler e.serial) :
    Serves f (point ++ [o]) m d e (point ++ [o]) (point ++ [o]) where
  period := by
    have hactive := active_of_driver hw hdoes (by rw [hd]; rfl)
    rw [show d.serial = e.serial by rw [hd]; rfl] at hactive
    exact .of_begin he hactive hidle
  within := List.prefix_rfl
  handle := hdriver
  same := by
    rw [hd]
    rfl
  goes := fun _ => rfl
  now := rfl
  cadence := by
    rw [hd]
    rfl

/-- A driver that goes on serves the same period, which goes on as well. -/
theorem Serves.goesOn {d₀ : Driver} {e : Entry} {first last : List Occurrence}
    (h : Serves f point m d₀ e first last) (hgoes₀ : d₀.stopping = false)
    (hd : d = { d₀ with awaited := d.awaited }) (hw : (f.through (point ++ [o])).Wired)
    (hdoes : (f.through (point ++ [o])).Does m (.drive d))
    (hcadence : OnCadence e.trigger (f.through first).world.now
      (f.through (point ++ [o])).world.now d.awaited) :
    Serves f (point ++ [o]) m d e first (point ++ [o]) := by
  have hlast := h.goes hgoes₀
  subst hlast
  have hgoes : d.stopping = false := by
    rw [hd]
    exact hgoes₀
  have hscheduler : d.scheduler = d₀.scheduler := by rw [hd]
  have hserial : d.serial = e.serial := by rw [hd, h.same]; rfl
  refine ⟨?_, List.prefix_rfl, h.handle, ?_, fun _ => rfl, rfl, hcadence⟩
  · have hactive := active_of_driver hw hdoes hgoes
    rw [hserial, hscheduler] at hactive
    rw [hscheduler]
    exact h.period.concat hactive
  · rw [hscheduler, hd, h.same]
    rfl

/-- A driver that is to stop serves the period that has ended, as long as no time passes. -/
theorem Serves.ends {d₀ : Driver} {e : Entry} {first last : List Occurrence}
    (h : Serves f point m d₀ e first last) (hd : d = { d₀ with stopping := true })
    (hnow : (f.through (point ++ [o])).world.now = (f.through point).world.now) :
    Serves f (point ++ [o]) m d e first last := by
  subst hd
  refine ⟨h.period, h.within.trans (List.prefix_append point [o]), h.handle, ?_, nofun,
    h.now.trans hnow.symm, ?_⟩
  · rw [h.same]
    rfl
  · rw [hnow]
    exact h.cadence

/-! ## Any timely row -/

/-- No step changes where a scheduler evaluates cron expressions. -/
theorem zone?_of_effect (hs : f.Sound) (h : Effect f o g) (i : Nat) : g.zone? i = f.zone? i := by
  cases h with
  | turns h => exact zone?_congr (turned_of_turns hs h).frames i
  | @rewires j h =>
    by_cases hi : i = j
    · subst hi
      exact h.zone
    · exact (h.others i hi).zone?
  | stops _ h => exact h.zone? i

/-- A scheduler keeps its zone. -/
theorem zone?_through (h : f.Pristine) (row : List Occurrence) (i : Nat) :
    (f.through row).zone? i = f.zone? i := by
  induction row using List.reverseRecOn with
  | nil => rfl
  | append_singleton row o ih =>
    have hs := sound_through h.sound row
    rw [through_concat, zone?_of_effect hs (effect_occur hs (wired_through h row) o), ih]

/-- Whatever is registered has a trigger of a schedule, and zones are orderly. -/
theorem declared_through (h : f.Pristine) (hzones : ∀ i zone, f.zone? i = some zone → zone.Orderly)
    (row : List Occurrence) : (f.through row).Declared := by
  intro i e he
  obtain ⟨zone, hzone, htrigger⟩ := (wired_through h row).declared i e he
  rw [zone?_through h] at hzone
  exact Trigger.isDeclared_ofSchedule (hzones i zone hzone) htrigger

/-- The clock stands unless time passes. -/
theorem now_occur (hs : f.Sound) (hnot : ∀ moment, o.plain ≠ .pass moment) :
    (f.occur o).world.now = f.world.now := by
  unfold World.now
  rw [elapsed_occur hs hnot, (occur_happens hs o).start hs]

/-- What the rows of a fleet have in common: nothing was asked before, occurrences are made in time,
    the clock shows whole milliseconds, and zones are orderly. -/
structure Regulated (f : Fleet FaultyStore) (row : List Occurrence) : Prop where
  pristine : f.Pristine
  timely : f.Timely row
  whole : f.Whole
  orderly : ∀ i zone, f.zone? i = some zone → zone.Orderly

namespace Regulated

theorem sound (h : f.Regulated row) (point : List Occurrence) : (f.through point).Sound :=
  sound_through h.pristine.sound point

theorem wired (h : f.Regulated row) (point : List Occurrence) : (f.through point).Wired :=
  wired_through h.pristine point

theorem eager (h : f.Regulated row) (point : List Occurrence) : (f.through point).Eager :=
  eager_through h.pristine.fresh point

theorem alert (h : f.Regulated row) (hpoint : point <+: row) : (f.through point).Alert :=
  alert_through h.pristine.fresh h.timely point hpoint

/-- What a driver on its cadence waits for is a whole millisecond, and the clock began before it. -/
theorem whole_of_nth (h : f.Regulated row) {first : List Occurrence} {t : Trigger}
    {k : Nat} {x : Instant} (hx : t.nth? (f.through first).world.now k = some x)
    (hle : (f.through point).world.now ≤ x) :
    x.nanos % nanosPerMilli = 0 ∧ f.world.start.nanos ≤ x.nanos := by
  refine ⟨Trigger.nth?_whole (now_whole (through_whole h.pristine.sound h.whole first)) hx, ?_⟩
  have hstart := start_le_now (f.through point)
  rw [start_through h.pristine.sound] at hstart
  exact Int.le_trans hstart hle

/-- The trigger that a driver fires is that of its entry. -/
theorem trigger_eq {e : Entry} {first last : List Occurrence}
    (hserves : Serves f point m d e first last) :
    d.trigger = e.trigger := by
  rw [hserves.same]
  rfl

/-- A driver that serves a period has a trigger that a schedule can have. -/
theorem isDeclared (h : f.Regulated row) {e : Entry} {first last : List Occurrence}
    (hserves : Serves f point m d e first last) : e.trigger.IsDeclared :=
  declared_through h.pristine h.orderly first _ e hserves.period.entry

/-- A driver that has its turn has it at the very instant for which it waits. -/
theorem now_eq (h : f.Regulated row) (hpoint : point <+: row) {e : Entry}
    {first last : List Occurrence} (hserves : Serves f point m d e first last)
    (hprompt : (f.through point).Prompt (.turn m)) (hdoes : (f.through point).Does m (.drive d))
    (hgoes : d.stopping = false) {x : Instant} (hawaited : d.awaited = some x) :
    (f.through point).world.now = x := by
  have hcadence := hserves.cadence
  rw [hawaited] at hcadence
  obtain ⟨hle, k, hx⟩ := hcadence
  obtain ⟨hwhole, hstart⟩ := h.whole_of_nth hx hle
  refine now_eq_awaited (through_whole h.pristine.sound h.whole point)
    (h.alert hpoint) hprompt hdoes hgoes ?_ hawaited
    hwhole ?_
  · rw [trigger_eq hserves]
    exact (h.isDeclared hserves).looksAhead
  · rw [start_through h.pristine.sound]
    exact hstart

/-- The driver was there and did not have its turn. -/
theorem serves_of_stays (h : f.Regulated row) (hpre : point ++ [o] <+: row) {e : Entry}
    {first last : List Occurrence} (hserves : Serves f point m d e first last)
    (hold : (f.through point).Does m (.drive d))
    (hdoes : (f.through (point ++ [o])).Does m (.drive d)) :
    ∃ last', Serves f (point ++ [o]) m d e first last' := by
  by_cases hurgent : d.stopping = true ∨ d.awaited = none
  · -- no time passes before an urgent driver has its turn
    have hnot := not_pass_of_urgent (h.eager point) (h.timely.prompt hpre) hold hurgent
    have hnow : (f.through (point ++ [o])).world.now = (f.through point).world.now := by
      rw [through_concat]
      exact now_occur (h.sound point) hnot
    cases hstopping : d.stopping with
    | true => exact ⟨last, hserves.ends (by rw [← hstopping]) hnow⟩
    | false => exact ⟨_, hserves.goesOn hstopping rfl (h.wired _) hdoes (hnow ▸ hserves.cadence)⟩
  · -- it waits for a fire time, and an alert driver does not let that pass
    obtain ⟨hstopping, hsome⟩ := not_or.1 hurgent
    have hgoes : d.stopping = false := by simpa using hstopping
    obtain ⟨x, hawaited⟩ := Option.ne_none_iff_exists'.1 hsome
    have hcadence := hserves.cadence
    rw [hawaited] at hcadence
    obtain ⟨hle, k, hx⟩ := hcadence
    obtain ⟨hwhole, hstart⟩ := h.whole_of_nth hx hle
    refine ⟨_, hserves.goesOn hgoes rfl (h.wired _) hdoes ?_⟩
    rw [hawaited]
    refine ⟨now_le_awaited (through_whole h.pristine.sound h.whole _)
      (h.alert hpre) hdoes hgoes ?_ hawaited hwhole ?_, k, hx⟩
    · rw [trigger_eq hserves]
      exact (h.isDeclared hserves).looksAhead
    · rw [start_through h.pristine.sound]
      exact hstart

/-- The driver had its turn, and its trigger answered the next fire time. -/
theorem serves_of_turned (h : f.Regulated row) (hpre : point ++ [o] <+: row)
    {d₀ : Driver} {e : Entry} {first last : List Occurrence}
    (hserves : Serves f point m d₀ e first last) (ho : o.plain = .turn m)
    (hold : (f.through point).Does m (.drive d₀))
    (hrest : d₀.rest (f.through point).world.now = some (.drive d))
    (hdoes : (f.through (point ++ [o])).Does m (.drive d)) :
    ∃ last', Serves f (point ++ [o]) m d e first last' := by
  obtain ⟨hgoes, next, hnext, hactivity⟩ := Driver.rest_eq_some hrest
  injection hactivity with hd
  have hpoint : point <+: row := (List.prefix_append point [o]).trans hpre
  have hdeclared := h.isDeclared hserves
  have hnow : (f.through (point ++ [o])).world.now = (f.through point).world.now := by
    rw [through_concat]
    refine now_occur (h.sound point) ?_
    rw [ho]
    exact nofun
  rw [trigger_eq hserves] at hnext
  have hahead := hdeclared.looksAhead _ _ _ hnext
  have hcadence := hserves.cadence
  have hfires : ∃ k, e.trigger.nth? (f.through first).world.now k = some next := by
    cases hawaited : d₀.awaited with
    | none =>
      -- it begins, and no time has passed since the period began
      rw [hawaited] at hnext hcadence
      have hsince : (f.through point).world.now = (f.through first).world.now := hcadence
      rw [Trigger.next?_none hdeclared, hsince] at hnext
      exact ⟨0, hnext⟩
    | some x =>
      have hx := h.now_eq hpoint hserves (ho ▸ h.timely.prompt hpre) hold hgoes hawaited
      rw [hawaited] at hnext hcadence
      obtain ⟨-, k, hk⟩ := hcadence
      rw [hx, Trigger.next?_nth hdeclared hk] at hnext
      exact ⟨k + 1, hnext⟩
  refine ⟨_, hserves.goesOn hgoes (by rw [hd]) (h.wired _) hdoes ?_⟩
  rw [hd, hnow]
  exact ⟨hahead, hfires⟩

/-- Every driver serves a period. -/
theorem serves_through (h : f.Regulated row) :
    ∀ point, point <+: row → ∀ m d, (f.through point).Does m (.drive d) →
    ∃ e first last, Serves f point m d e first last := by
  refine prefix_induction ?_ ?_
  · intro m d hd
    obtain ⟨t, ht, -⟩ := hd
    have hnone : t ∈ f.tasks := ht
    rw [h.pristine.tasks] at hnone
    cases hnone
  · intro point o hpre ih m d hd
    have hd' := hd
    rw [through_concat] at hd'
    cases driverFrom_of_effect (h.sound point) (h.wired point) hd' with
    | stays hold =>
      obtain ⟨e, first, last, hserves⟩ := ih m d hold
      exact ⟨e, first, h.serves_of_stays hpre hserves hold hd⟩
    | told ho hstops hold =>
      obtain ⟨e, first, last, hserves⟩ := ih m _ hold
      have hnow : (f.through (point ++ [o])).world.now = (f.through point).world.now := by
        obtain ⟨waits, foreground, hplain⟩ := ho
        rw [through_concat]
        refine now_occur (h.sound point) ?_
        rw [hplain]
        exact nofun
      exact ⟨e, first, last, hserves.ends (by rw [← hstops]) hnow⟩
    | turned ho hold hrest =>
      obtain ⟨e, first, last, hserves⟩ := ih m _ hold
      exact ⟨e, first, h.serves_of_turned hpre hserves ho hold hrest hd⟩
    | born he hdriver hdrive hidle =>
      rw [← through_concat] at he
      exact ⟨_, _, _, serves_of_born (h.wired _) hd he hdriver hdrive hidle⟩

end Regulated

end

end Fleet

end JobFleet
