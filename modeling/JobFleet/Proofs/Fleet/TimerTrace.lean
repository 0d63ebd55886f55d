/-
  JobFleet.Proofs.Fleet.TimerTrace: at which instants the timer starts the ticks of a job.

  A period of a job has one driver, from its beginning to its end.  That driver begins while no time
  passes, asks its trigger, and then has each of its turns at the very instant for which it waits.
  So as often as it has fired, as many of the fire times of its trigger have come (`Stage`), and
  each had its tick (`Traced`).  Any other driver of the job was told to stop before the period, and
  is gone before time passes.

  Main results:
    * `traced_through` — how far the driver of a period has got, and the ticks that it started.
    * `timer_trace` — the ticks of a job are started at the fire times of its periods, once each,
      and never else.
-/
import JobFleet.Proofs.Fleet.Ticks

namespace JobFleet

open JobFleet.Schedule JobFleet.Time

namespace Fleet

section

variable {f g : Fleet FaultyStore} {o : Occurrence} {i k m : Nat} {e : Entry} {d : Driver}
    {since : Instant}

/-! ## The driver of an active registration -/

/-- An entry whose registration stays active is left as it is. -/
theorem entry_of_effect (hs : f.Sound) (hw : f.Wired) (h : Effect f o g) (he : e ∈ f.registry i)
    (hm : e.driver = some m) (hactive : g.Active i e.serial) : e ∈ g.registry i := by
  cases h with
  | turns h =>
    rw [registry_congr (turned_of_turns hs h).frames]
    exact he
  | rewires h =>
    obtain ⟨hruns, e', he', hserial, hunpaused⟩ := hactive
    -- the active entry has a driver, old with its entry or new
    obtain ⟨n, hn⟩ := h.wired.driven i hruns e' he' hunpaused
    obtain ⟨hold, -⟩ | ⟨-, -, hnone⟩ := h.persists i e' he' n hn
    · rw [hw.serials i e he e' hold hserial.symm]
      exact he'
    · -- an entry that has a driver is not given another
      rw [hnone e he hserial.symm] at hm
      cases hm
  | @stops j waits foreground ho h =>
    have hi : i ≠ j := by
      intro hi
      subst hi
      have hidle := h.idle
      rw [hactive.1] at hidle
      cases hidle
    rw [(h.others hi).1]
    exact he

/-- Its driver stays as it is, or has its turn. -/
theorem driver_of_effect (hs : f.Sound) (hw : f.Wired) (h : Effect f o g) (he : e ∈ f.registry i)
    (hm : e.driver = some m) (hactive : g.Active i e.serial) (hd : f.Does m (.drive d)) :
    g.Does m (.drive d) ∨ (o.plain = .turn m ∧ DriverTurn m d f g) := by
  cases h with
  | turns h =>
    cases h with
    | rests h => exact .inl ((h.does m _).2 hd)
    | asks _ h => exact .inl ((h.does m _).2 (.inl hd))
    | runs _ hdoes h =>
      refine .inl ((h.does m _).2 (.inl ⟨?_, hd⟩))
      intro hmn
      subst hmn
      cases hs.does_unique hd hdoes
    | drains _ hdoes h =>
      refine .inl ((does_iff_of_drainTurn h ?_).2 hd)
      intro hmn
      subst hmn
      cases hs.does_unique hd hdoes
    | @drives n d' ho hdoes h =>
      by_cases hmn : m = n
      · subst hmn
        cases hs.does_unique hd hdoes
        exact .inr ⟨ho, h⟩
      · exact .inl (does_of_driverTurn h hmn hd)
  | rewires h =>
    have he' := entry_of_effect hs hw (.rewires h) he hm hactive
    obtain ⟨-, hkeeps⟩ | ⟨hnew, -⟩ := h.persists i e he' m hm
    · exact .inl (hkeeps _ hd)
    · exact absurd (hs.lt_of_does hd) (Nat.not_lt.2 hnew)
  | @stops j waits foreground ho h =>
    have hidle := h.idle
    obtain ⟨mid, drain, -, htells, -, hturn⟩ := h
    obtain ⟨-, -, -, hdriver⟩ := hw.handles i e he m hm
    obtain ⟨awaited, hactivity⟩ := hdriver _ hd
    have hmid : mid.Does m (.drive d) := by
      refine htells.stays hd ?_
      intro d' hd' hj
      rw [hactivity] at hd'
      injection hd' with hd'
      subst hd'
      -- the scheduler runs afterwards, so it is not the one that was shut down
      have hi : i = j := hj
      rw [← hi, hactive.1] at hidle
      cases hidle
    exact .inl ((does_iff_of_drainTurn hturn (Nat.ne_of_lt (hs.lt_of_does hd))).2 hmid)

/-- A driver of the job that was not told to stop is that of the entry. -/
theorem Wired.eq_driver (hw : f.Wired) (he : e ∈ f.registry i) (hm : e.driver = some m) {n : Nat}
    (hd : f.Does n (.drive d)) (hi : d.scheduler = i) (hid : d.job.id = e.id)
    (hgoes : d.stopping = false) : n = m := by
  obtain ⟨e', he', hn⟩ := hw.named n d hd hgoes
  obtain ⟨-, -, -, hdriver⟩ := hw.handles _ e' he' n hn
  obtain ⟨awaited, hactivity⟩ := hdriver _ hd
  injection hactivity with hdrive
  have hid' : e'.id = e.id := by
    rw [← hid, hdrive]
    rfl
  -- it is the driver of the same entry
  rw [(hw.sorted i).eq_of_id (hi ▸ he') he hid', hm] at hn
  exact (Option.some.inj hn).symm

/-! ## How far a driver has got -/

/-- How far the driver of an entry has got that was started at an instant and has fired a number of
    times since. -/
inductive Stage (i : Nat) (e : Entry) (m : Nat) (since : Instant)
    (f : Fleet FaultyStore) : Nat → Prop
  /-- It has not begun, and no time has passed. -/
  | begins (hdoes : f.Does m (.drive (e.driverOf i))) (hnow : f.world.now = since) :
    Stage i e m since f 0
  /-- It waits for the next fire time. -/
  | waits {k : Nat} {x : Instant}
    (hdoes : f.Does m (.drive { e.driverOf i with awaited := some x }))
      (hx : e.trigger.nth? since k = some x) : Stage i e m since f k
  /-- It is gone, since there are no more fire times or it could not read its job. -/
  | ended {k : Nat} (hgone : ∀ a, ¬ f.Does m a) (hbelow : m < f.nextNumber)
      (hlast : e.trigger.nth? since k = none ∨ e.job.unreadableWhileLocked = true) :
        Stage i e m since f k

/-- A driver that has asked its trigger waits for the answer, or has ended. -/
theorem stage_of_answer (awaited : Option Instant) (now : Instant)
    (hdoes : ∀ a, g.Does m a ↔ Driver.rest { e.driverOf i with awaited := awaited } now = some a)
    (hanswer : e.trigger.next? awaited now = e.trigger.nth? since k) (hbelow : m < g.nextNumber) :
    Stage i e m since g k := by
  have hrest : Driver.rest { e.driverOf i with awaited := awaited } now =
      (e.trigger.next? awaited now).map (fun next =>
        .drive { e.driverOf i with awaited := some next }) := rfl
  rw [hrest, hanswer] at hdoes
  cases hk : e.trigger.nth? since k with
  | none =>
    refine .ended ?_ hbelow (.inl hk)
    intro a ha
    rw [hdoes, hk] at ha
    cases ha
  | some x =>
    refine .waits ((hdoes _).2 ?_) hk
    rw [hk]
    rfl

/-- A task that only goes on as what its turn made of it does nothing else. -/
theorem Acts.does_self {rest : Option Activity} (h : Acts m rest f g) (a : Activity) :
    g.Does m a ↔ rest = some a := by
  rw [h.does]
  simp

/-- The first turn of a driver. -/
theorem stage_of_turn (hs : f.Sound) (hdeclared : e.trigger.IsDeclared)
    (hturn : DriverTurn m (e.driverOf i) f g) (hdoes : f.Does m (.drive (e.driverOf i)))
    (hnow : f.world.now = since) : Stage i e m since g 0 := by
  have hbelow := hs.lt_of_does hdoes
  cases hturn with
  | fails _ hread h =>
    refine .ended ?_ (h.next ▸ hbelow) (.inr (Bool.and_eq_true_iff.1 hread).1)
    intro a ha
    cases (h.does_self a).1 ha
  | begins _ _ h =>
    refine stage_of_answer none f.world.now (fun a => h.does_self a) ?_ (h.next ▸ hbelow)
    rw [hnow]
    exact Trigger.next?_none hdeclared
  | stops hstopping => cases hstopping
  | fires hawaited => exact absurd rfl hawaited
  | stray hawaited => exact absurd rfl hawaited

end

/-! ## Periods of a timely row -/

/-- What has come of a period up to a point: its entry is registered, and its driver has fired for
    the first fire times, once each. -/
structure Traced (f : Fleet FaultyStore) (i : Nat) (e : Entry) (m : Nat)
    (first point : List Occurrence) : Prop where
  entry : e ∈ (f.through point).registry i
  stage : ∃ k, Stage i e m (f.through first).world.now (f.through point) k ∧
    ∀ x : Instant, (f.through first).world.now.nanos < x.nanos →
      f.ticksAt i e.id x point = e.trigger.among (f.through first).world.now k x

namespace Regulated

variable {f : Fleet FaultyStore} {row first last point : List Occurrence} {o : Occurrence}
    {i k m : Nat} {e : Entry}
  {d : Driver} {x : Instant}

/-- A driver that is to stop while a period goes on was told before, so no time has passed since the
    period began. -/
theorem now_of_stopping (h : f.Regulated row) (hperiod : Period f i e first last)
    (hlast : last <+: row) :
    ∀ point, first <+: point → point <+: last → ∀ n d, (f.through point).Does n (.drive d) →
      d.scheduler = i →
      d.stopping = true → (f.through point).world.now = (f.through first).world.now := by
  refine prefix_induction_from ?_ ?_
  · intros
    rfl
  · intro point o hfrom hto ih n d hd hi hstops
    have hd' := hd
    rw [through_concat] at hd'
    have hold : (f.through point).Does n (.drive d) := by
      obtain hold | ⟨ho, -⟩ :=
        (driverFrom_of_effect (h.sound point) (h.wired point) hd').of_stopping hstops
      · exact hold
      · -- the scheduler still runs, so it was not shut down
        have hidle := idle_of_shutdown (h.sound point) (h.wired point) ho
        have hactive := hperiod.active _ (hfrom.trans (List.prefix_append point [o])) hto
        rw [through_concat] at hactive
        rw [hi, hactive.1] at hidle
        cases hidle
    have hnot := not_pass_of_urgent (h.eager point)
      (h.timely.prompt (hto.trans hlast)) hold (.inl hstops)
    rw [through_concat, now_occur (h.sound point) hnot]
    exact ih n d hold hi hstops

/-- A driver of the job that is not that of the period only fires at the instant at which the period
    began. -/
theorem now_of_other (h : f.Regulated row) (hperiod : Period f i e first last)
    (hlast : last <+: row) (hfrom : first <+: point) (hto : point <+: last)
    (he : e ∈ (f.through point).registry i) (hm : e.driver = some m) {n : Nat}
    (hd : (f.through point).Does n (.drive d)) (hi : d.scheduler = i)
    (hid : d.job.id = e.id) (hne : n ≠ m) :
    (f.through point).world.now = (f.through first).world.now := by
  cases hstopping : d.stopping with
  | true => exact h.now_of_stopping hperiod hlast point hfrom hto n d hd hi hstopping
  | false => exact absurd ((h.wired point).eq_driver he hm hd hi hid hstopping) hne

/-- The trigger of an entry is one of a schedule. -/
theorem declared (h : f.Regulated row) (he : e ∈ (f.through point).registry i) :
    e.trigger.IsDeclared :=
  declared_through h.pristine h.orderly point i e he

/-- What the driver of a period waits for is a whole millisecond, and the clock began before it. -/
theorem whole_of_fire (h : f.Regulated row) {t : Trigger} (hdeclared : t.IsDeclared)
    (hx : t.nth? (f.through first).world.now k = some x) :
    x.nanos % nanosPerMilli = 0 ∧ (f.through point).world.start.nanos ≤ x.nanos := by
  have hle : (f.through first).world.now ≤ x := Int.le_of_lt (Trigger.lt_nth hdeclared hx)
  rw [start_through h.pristine.sound]
  exact h.whole_of_nth hx hle

/-- When the driver of a period fires, its next fire time has come. -/
theorem stage_of_fired (h : f.Regulated row) (hpre : point ++ [o] <+: row)
    (hdeclared : e.trigger.IsDeclared)
    (hstage : Stage i e m (f.through first).world.now (f.through point) k)
    (hfired : Fired m d (f.through point) o ((f.through point).occur o)) :
    e.trigger.nth? (f.through first).world.now k = some (f.through point).world.now ∧
      Stage i e m (f.through first).world.now (f.through (point ++ [o])) (k + 1) := by
  have hs := h.sound point
  have hdoes := hfired.does
  cases hstage with
  | begins hdoes' =>
    cases hs.does_unique hdoes hdoes'
    exact absurd rfl hfired.awaited
  | ended hgone => exact absurd hdoes (hgone _)
  | @waits k x hdoes' hx =>
    cases hs.does_unique hdoes hdoes'
    obtain ⟨hwhole, hstart⟩ := h.whole_of_fire hdeclared hx
    have hpoint : point <+: row := (List.prefix_append point [o]).trans hpre
    have hprompt : (f.through point).Prompt (.turn m) := hfired.turn ▸ h.timely.prompt hpre
    have hnow : (f.through point).world.now = x :=
      now_eq_awaited (through_whole h.pristine.sound h.whole point)
        (h.alert hpoint) hprompt hdoes rfl hdeclared.looksAhead
        rfl hwhole hstart
    have hbelow := hs.lt_of_does hdoes
    obtain ⟨r, -, hfires⟩ := hfired.fires
    -- asked at a fire time, the trigger answers the next one
    rw [through_concat, hnow]
    refine ⟨hx, stage_of_answer (some x) x ?_ (Trigger.next?_nth hdeclared hx) ?_⟩
    · intro a
      rw [hfires.does, hnow]
      constructor
      · intro hor
        obtain ⟨hne, -⟩ | ⟨-, hgoes⟩ | ⟨hnew, -⟩ := hor
        · exact absurd rfl hne
        · exact hgoes
        · omega
      · exact fun hgoes => .inr (.inl ⟨rfl, hgoes⟩)
    · rw [hfires.next]
      omega

/-- While the driver of a period does not fire it gets no further, but may begin. -/
theorem stage_of_quiet (h : f.Regulated row) (hpre : point ++ [o] <+: row)
    (he : e ∈ (f.through point).registry i) (hm : e.driver = some m)
    (hactive : (f.through (point ++ [o])).Active i e.serial) {since : Instant}
    (hstage : Stage i e m since (f.through point) k)
    (hquiet : ∀ d, ¬ Fired m d (f.through point) o ((f.through point).occur o)) :
    Stage i e m since (f.through (point ++ [o])) k := by
  have hs := h.sound point
  have hw := h.wired point
  have heffect := effect_occur hs hw o
  rw [through_concat] at hactive ⊢
  cases hstage with
  | begins hdoes hnow =>
    obtain hkept | ⟨-, hturn⟩ := driver_of_effect hs hw heffect he hm hactive hdoes
    · -- no time passes before it begins
      refine .begins hkept ?_
      rw [now_occur hs (not_pass_of_urgent (h.eager point) (h.timely.prompt hpre) hdoes (.inr rfl))]
      exact hnow
    · exact stage_of_turn hs (h.declared he) hturn hdoes hnow
  | waits hdoes hx =>
    obtain hkept | ⟨ho, hturn⟩ := driver_of_effect hs hw heffect he hm hactive hdoes
    · exact .waits hkept hx
    · cases hturn with
      | fails hnone => cases hnone
      | begins hnone => cases hnone
      | stops hstopping => cases hstopping
      | fires hawaited hdue hjob hfires =>
        exact absurd ⟨ho, hdoes, hawaited, hdue, _, hjob, hfires⟩ (hquiet _)
      | stray _ hnone =>
        obtain ⟨s, hsched⟩ := exists_of_mem_registry he
        have hnone : (f.through point).schedulers[i]? = none := hnone
        rw [hsched] at hnone
        cases hnone
  | ended hgone hbelow hlast =>
    refine .ended ?_ (Nat.lt_of_lt_of_le hbelow (occur_happens hs o).nextNumber) hlast
    intro a ha
    obtain ⟨b, hb, -⟩ := heffect.origin hs ha hbelow
    exact hgone b hb

/-- The driver of an entry is that of the job. -/
theorem driver_eq (h : f.Regulated row) (he : e ∈ (f.through point).registry i)
    (hm : e.driver = some m) (hdoes : (f.through point).Does m (.drive d)) :
    d.scheduler = i ∧ d.job.id = e.id := by
  obtain ⟨-, -, -, hdriver⟩ := (h.wired point).handles i e he m hm
  obtain ⟨awaited, hactivity⟩ := hdriver _ hdoes
  injection hactivity with hdrive
  rw [hdrive]
  exact ⟨rfl, rfl⟩

/-- One step of a period. -/
theorem traced_step (h : f.Regulated row) (hperiod : Period f i e first last) (hlast : last <+: row)
    (hm : e.driver = some m) (hfrom : first <+: point) (hto : point ++ [o] <+: last)
    (htraced : Traced f i e m first point) :
    Traced f i e m first (point ++ [o]) := by
  obtain ⟨he, k, hstage, hticks⟩ := htraced
  have hs := h.sound point
  have hw := h.wired point
  have hpre := hto.trans hlast
  have hactive := hperiod.active _ (hfrom.trans (List.prefix_append point [o])) hto
  constructor
  · rw [through_concat] at hactive ⊢
    exact entry_of_effect hs hw (effect_occur hs hw o) he hm hactive
  · by_cases hown : ∃ d, Fired m d (f.through point) o ((f.through point).occur o)
    · -- the driver fires: one more tick, at the next fire time
      obtain ⟨d, hfired⟩ := hown
      obtain ⟨hx, hstage'⟩ := h.stage_of_fired hpre (h.declared he) hstage hfired
      obtain ⟨rfl, hid⟩ := h.driver_eq he hm hfired.does
      have hone := started_of_fired hs hfired
      refine ⟨k + 1, hstage', ?_⟩
      intro x hlt
      rw [ticksAt_concat, hticks x hlt, ← hid, hone, Trigger.among_succ, hx]
      simp only [Option.some.injEq]
    · refine ⟨k, h.stage_of_quiet hpre he hm hactive hstage (fun d hfired => hown ⟨d, hfired⟩), ?_⟩
      intro x hlt
      rw [ticksAt_concat, hticks x hlt]
      -- another driver fires only when the period begins
      have hnone : (f.through point).world.now = x → (f.through point).started o i e.id = 0 := by
        intro hnow
        by_contra hstarted
        obtain ⟨n, d, hi, hid, hfired⟩ := fired_of_started hs hw hstarted
        have hne : n ≠ m := by
          intro hnm
          subst hnm
          exact hown ⟨d, hfired⟩
        have hbegin := h.now_of_other hperiod hlast hfrom
          ((List.prefix_append point [o]).trans hto) he hm hfired.does hi hid
          hne
        rw [← hbegin, hnow] at hlt
        exact Int.lt_irrefl _ hlt
      rw [ite_eq_right_iff.2 hnone, Nat.add_zero]

/-- When a period begins its driver has just been started. -/
theorem does_of_begin (h : f.Regulated row) (hperiod : Period f i e first last)
    (hm : e.driver = some m) :
    (f.through first).Does m (.drive (e.driverOf i)) := by
  have he := hperiod.entry
  have hactive := hperiod.active first List.prefix_rfl hperiod.order
  rcases List.eq_nil_or_concat' first with rfl | ⟨before, o, rfl⟩
  · rw [show f.through [] = f from rfl, h.pristine.registry] at he
    cases he
  · have hidle := hperiod.begins before o rfl
    have hs := h.sound before
    rw [through_concat] at he hactive ⊢
    cases effect_occur hs (h.wired before) o with
    -- the turn of a task does not make anything active
    | turns h => exact absurd (active_congr (turned_of_turns hs h).frames.symm hactive) hidle
    | rewires hrewires =>
      obtain ⟨hold, -⟩ | ⟨-, hdoes, -⟩ := hrewires.persists i e he m hm
      · -- an entry that had its driver was active
        obtain ⟨hruns, hunpaused, -⟩ := (h.wired before).handles i e hold m hm
        exact absurd ⟨hruns, e, hold, rfl, hunpaused⟩ hidle
      · exact hdoes
    | @stops j waits foreground ho hstops =>
      have hi : i ≠ j := by
        intro hi
        subst hi
        have hstopped := hstops.idle
        rw [hactive.1] at hstopped
        cases hstopped
      obtain ⟨hregistry, hrunning⟩ := hstops.others hi
      unfold Active at hactive
      rw [hregistry, hrunning] at hactive
      exact absurd hactive hidle

/-- **Periods.** All through a period its driver fires for the first fire times from the beginning
    on. -/
theorem traced_through (h : f.Regulated row) (hperiod : Period f i e first last)
    (hlast : last <+: row) (hm : e.driver = some m) : ∀ point, first <+: point → point <+: last →
    Traced f i e m first point := by
  refine prefix_induction_from ?_ ?_
  · refine ⟨hperiod.entry, 0, .begins (h.does_of_begin hperiod hm) rfl, ?_⟩
    intro x hlt
    rw [ticksAt_of_lt h.pristine.sound hlt]
    rfl
  · intro point o hfrom hto ih
    exact h.traced_step hperiod hlast hm hfrom hto ih

/-- The ticks that are started strictly within a period. -/
theorem ticks_of_period (h : f.Regulated row) (hperiod : Period f i e first last)
    (hlast : last <+: row) (hafter : (f.through first).world.now.nanos < x.nanos)
    (hbefore : x.nanos < (f.through last).world.now.nanos) :
    (e.job.unreadableWhileLocked = false → e.trigger.Yields (f.through first).world.now x →
      f.ticksAt i e.id x row = 1) ∧
      (¬ e.trigger.Yields (f.through first).world.now x → f.ticksAt i e.id x row = 0) := by
  have hactive := hperiod.active first List.prefix_rfl hperiod.order
  have hunpaused := unpaused_of_active (h.wired first) hperiod.entry hactive
  obtain ⟨m, hm⟩ := (h.wired first).driven i hactive.1 e hperiod.entry hunpaused
  obtain ⟨-, k, hstage, hticks⟩ :=
    h.traced_through hperiod hlast hm last hperiod.order List.prefix_rfl
  have hdeclared := h.declared hperiod.entry
  rw [ticksAt_of_gt h.pristine.sound hlast hbefore, hticks x hafter]
  cases hstage with
  | begins _ hnow =>
    rw [hnow] at hbefore
    exact absurd hbefore (Int.not_lt.2 (Int.le_of_lt hafter))
  | @waits k y hdoes hy =>
    -- the next fire time has not passed
    obtain ⟨hwhole, hstart⟩ := h.whole_of_fire hdeclared hy
    have hle : (f.through last).world.now ≤ y :=
      now_le_awaited (through_whole h.pristine.sound h.whole last)
        (h.alert hlast) hdoes rfl hdeclared.looksAhead rfl hwhole
        hstart
    have hcount := Trigger.among_eq_one_iff (x := x) hdeclared (fun y' hy' => by
      rw [hy, Option.some.injEq] at hy'
      subst hy'
      exact Int.lt_of_lt_of_le hbefore hle)
    exact ⟨fun _ => hcount.1, hcount.2⟩
  | ended _ _ hlast =>
    refine ⟨?_, ?_⟩
    · intro hreads hyields
      obtain hnone | hunreadable := hlast
      · refine (Trigger.among_eq_one_iff hdeclared ?_).1 hyields
        intro y hy
        rw [hnone] at hy
        cases hy
      · rw [hreads] at hunreadable
        cases hunreadable
    · intro hnot
      exact Trigger.among_eq_zero fun j _ hj => hnot ⟨j, hj⟩

/-- A driver that has its turn has it at the very instant for which it waits, also if it was told to
    stop and fires still. -/
theorem now_of_turn (h : f.Regulated row) (hpre : point ++ [o] <+: row)
    (hserves : Serves f point m d e first last) (ho : o.plain = .turn m)
    (hdoes : (f.through point).Does m (.drive d))
    (hdue : d.stopping = true → d.IsDue (f.through point).world) (hawaited : d.awaited = some x) :
    (f.through point).world.now = x := by
  have hpoint : point <+: row := (List.prefix_append point [o]).trans hpre
  cases hstopping : d.stopping with
  | false =>
    have hprompt : (f.through point).Prompt (.turn m) := ho ▸ h.timely.prompt hpre
    exact h.now_eq hpoint hserves hprompt hdoes hstopping hawaited
  | true =>
    have hcadence := hserves.cadence
    rw [hawaited] at hcadence
    obtain ⟨hle, k, hk⟩ := hcadence
    obtain ⟨hwhole, hstart⟩ := h.whole_of_nth hk hle
    obtain ⟨y, hy, hcome⟩ := hdue hstopping
    rw [hawaited, Option.some.injEq] at hy
    subst hy
    -- the fire time has come, and it has not passed
    have hexact := momentOf_whole (through_whole h.pristine.sound h.whole point) hwhole (by
      rw [start_through h.pristine.sound]
      exact hstart)
    have hge : x.nanos ≤ (f.through point).world.now.nanos := by
      show _ ≤ (f.through point).world.start.nanos + (f.through point).world.elapsed * nanosPerMilli
      rw [← hexact]
      unfold nanosPerMilli
      omega
    exact Instant.eq_of_le hle hge

/-- A tick is started in a period, at one of its fire times: before the period has ended, or at the
    instant at which it ends. -/
theorem period_of_tick (h : f.Regulated row) {id : String} (hticks : 0 < f.ticksAt i id x row) :
    ∃ e first last, Period f i e first last ∧ last <+: row ∧ e.id = id ∧
      (f.through first).world.now.nanos < x.nanos ∧ (f.through last).world.now = x ∧
      e.trigger.Yields (f.through first).world.now x := by
  obtain ⟨point, o, hpre, hnow, hstarted⟩ := exists_started hticks
  obtain ⟨n, d, hi, hid, hfired⟩ := fired_of_started (h.sound point) (h.wired point) hstarted
  have hpoint : point <+: row := (List.prefix_append point [o]).trans hpre
  obtain ⟨e, first, last, hserves⟩ := h.serves_through point hpoint n d hfired.does
  obtain ⟨y, hawaited⟩ := Option.ne_none_iff_exists'.1 hfired.awaited
  rw [← through_concat] at hfired
  have hy := h.now_of_turn hpre hserves hfired.turn hfired.does hfired.due hawaited
  have hcadence := hserves.cadence
  rw [hawaited, ← hy, hnow] at hcadence
  obtain ⟨-, k, hk⟩ := hcadence
  have hsame : e.id = id := by
    rw [← hid, hserves.same]
    rfl
  exact ⟨e, first, last, hi ▸ hserves.period, hserves.within.trans hpoint, hsame,
    Trigger.lt_nth (h.isDeclared hserves) hk, hserves.now.trans hnow, k, hk⟩

/-- A registration that is active is in a period. -/
theorem exists_period (h : f.Regulated row) (i : Nat) :
    ∀ point, point <+: row → ∀ e ∈ (f.through point).registry i,
    (f.through point).Active i e.serial → ∃ first, Period f i e first point := by
  refine prefix_induction ?_ ?_
  · intro e he
    have hnone : e ∈ f.registry i := he
    rw [h.pristine.registry] at hnone
    cases hnone
  · intro point o hpre ih e he hactive
    by_cases hbefore : (f.through point).Active i e.serial
    · -- it was active, so it is the same entry, and the period goes on
      obtain ⟨hruns, e', he', hserial, hunpaused⟩ := id hbefore
      obtain ⟨m, hm⟩ := (h.wired point).driven i hruns e' he' hunpaused
      have hkept : e' ∈ (f.through (point ++ [o])).registry i := by
        have hs := h.sound point
        rw [← hserial] at hactive
        rw [through_concat] at hactive ⊢
        exact entry_of_effect hs (h.wired point) (effect_occur hs (h.wired point) o) he' hm hactive
      have hsame := (h.wired _).serials i e' hkept e he hserial
      subst hsame
      obtain ⟨first, hperiod⟩ := ih e' he' hbefore
      exact ⟨first, hperiod.concat hactive⟩
    · exact ⟨_, .of_begin he hactive hbefore⟩

/-- A period goes on, unless a call ends it. -/
theorem period_goesOn (h : f.Regulated row) (hpre : point ++ [o] <+: row)
    (hperiod : Period f i e first point) (hnot : ¬ o.Ends i e.id) :
    Period f i e first (point ++ [o]) := by
  have hpoint : point <+: row := (List.prefix_append point [o]).trans hpre
  have hbegin := hperiod.active first List.prefix_rfl hperiod.order
  have hunpaused := unpaused_of_active (h.wired first) hperiod.entry hbegin
  obtain ⟨m, hm⟩ := (h.wired first).driven i hbegin.1 e hperiod.entry hunpaused
  have he := (h.traced_through hperiod hpoint hm point hperiod.order List.prefix_rfl).entry
  refine hperiod.concat ?_
  rw [through_concat]
  exact active_occur (h.sound point) (h.wired point) he
    (hperiod.active point hperiod.order List.prefix_rfl) hnot

end Regulated

/-- **Timer trace.**  Whatever is asked of a scheduler and whatever the bodies of its jobs do: a job
    is in a period whenever it is active, and the period goes on until the scheduler is shut down,
    or the job is paused, removed or registered again.  Strictly within a period of a job whose
    declaration can be read, the timer starts one tick at each fire time that the trigger has from
    the beginning of the period on, and none at any other instant.  And a tick is only started in a
    period, or at the instant at which one ends. -/
theorem timer_trace {f : Fleet FaultyStore} {row : List Occurrence} (hpristine : f.Pristine)
    (hwhole : f.Whole) (horderly : ∀ i zone, f.zone? i = some zone → zone.Orderly)
    (htimely : f.Timely row) (i : Nat) (id : String) :
    (∀ point, point <+: row → ∀ e ∈ (f.through point).registry i,
      (f.through point).Active i e.serial →
      ∃ first, Period f i e first point) ∧
    (∀ e first point o, Period f i e first point → point ++ [o] <+: row → ¬ o.Ends i e.id →
      Period f i e first (point ++ [o])) ∧
    (∀ e first last x, Period f i e first last → last <+: row → e.id = id →
      (f.through first).world.now.nanos < x.nanos → x.nanos < (f.through last).world.now.nanos →
        (e.job.unreadableWhileLocked = false → e.trigger.Yields (f.through first).world.now x →
          f.ticksAt i id x row = 1) ∧
        (¬ e.trigger.Yields (f.through first).world.now x → f.ticksAt i id x row = 0)) ∧
    ∀ x, 0 < f.ticksAt i id x row → ∃ e first last, Period f i e first last ∧
      last <+: row ∧ e.id = id ∧
      (f.through first).world.now.nanos < x.nanos ∧ (f.through last).world.now = x ∧
      e.trigger.Yields (f.through first).world.now x := by
  have h : f.Regulated row := ⟨hpristine, htimely, hwhole, horderly⟩
  refine ⟨h.exists_period i, ?_, ?_, ?_⟩
  · exact fun e first point o hperiod hpre hnot => h.period_goesOn hpre hperiod hnot
  · intro e first last x hperiod hlast hid hafter hbefore
    subst hid
    exact h.ticks_of_period hperiod hlast hafter hbefore
  · exact fun x hticks => h.period_of_tick hticks

/-- A job is registered and its scheduler started.  Then the scheduler is started and the job
    resumed once more, it fires after a second, and its tick sleeps. -/
def ticking : List Occurrence :=
  [.move (.register 0 (.sleeper 2000 [500])), .move (.start 0), .move (.turn 1), .move (.pass 600),
    .move (.start 0), .move (.resume 0 "sleeper"), .move (.pass 1000), .move (.turn 1),
    .move (.turn 2), .move (.turn 2), .move (.pass 1500)]

/-- The tick of a job that is paused while it sleeps. -/
theorem timer_trace_sleeper : untouched.Timely (ticking ++ [.move (.pause 0 "sleeper")]) ∧
    untouched.ticksAt 0 "sleeper" ⟨1000000000⟩ (ticking ++ [.move (.pause 0 "sleeper")]) = 1 := by
  have htimely : untouched.Timely (ticking ++ [.move (.pause 0 "sleeper")]) := by
    decide +kernel
  have horderly : ∀ i zone, untouched.zone? i = some zone → zone.Orderly := by
    intro i zone hzone
    cases i with
    | zero =>
      cases hzone
      exact orderly_of_mem_tabledZones List.mem_cons_self
    | succ i => cases hzone
  have hperiod : Period untouched 0 ⟨0, .sleeper 2000 [500], .interval ⟨1⟩, false, none,
      some 1⟩ (ticking.take 2) ticking := by
    refine ⟨List.take_prefix 2 ticking, List.mem_cons_self, ?_, ?_⟩
    · have hall : ∀ k, k ≤ 11 → 2 ≤ k → (untouched.through (ticking.take k)).Active 0 0 := by
        decide +kernel
      intro point hfrom hto
      rw [List.prefix_iff_eq_take.1 hto]
      exact hall _ hto.length_le hfrom.length_le
    · intro before o heq
      obtain ⟨rfl, -⟩ := List.append_inj' (show ticking.take 1 ++ [.move (.start 0)] =
        before ++ [o] from heq) rfl
      decide +kernel
  refine ⟨htimely, ?_⟩
  refine ((timer_trace pristine_untouched rfl horderly htimely 0 "sleeper").2.2.1 _ _ _ _ hperiod
    (List.prefix_append _ _) rfl ?_
    ?_).1 rfl ⟨0, rfl⟩
  · decide +kernel
  · decide +kernel

end Fleet

end JobFleet
