/-
  JobFleet.Proofs.Fleet.NextRun: whether the next run time that is reported of a job is the truth.

  What a running scheduler reports is what an entry shows, and what a stopped one reports is what
  its trigger would answer now.  The next tick of a job is told by what comes after: however the row
  goes on, as long as no call ends the period of the job, the timer starts no tick of it before the
  instant, and one at the instant (`NextTick`).

  One report is not the truth.  After a shutdown the entry of a job still shows what was announced
  before (`Interrupted`), and when the scheduler is started again this is reported until the new
  driver has had its first turn (`Unbegun`), also if it has passed by then.

  Main results:
    * `nextTick_of_waits`, `nextTick_of_begins` — what a driver waits for, or will be answered, is
      its next tick.
    * `reports_next_run` — a report is the truth, but for an interrupted job whose driver has not
      begun.
    * `reports_past_run` — a time that has passed is reported of such a job.
-/
import JobFleet.Proofs.Fleet.Displays
import JobFleet.Proofs.Fleet.Enrolment

namespace JobFleet

open JobFleet.Schedule JobFleet.Time

namespace Fleet

/-! ## What is reported, and what is to come -/

/-- The scheduler reports this of a job, asked for the job or for all of them. -/
def Reports {σ : Type} (f : Fleet σ) (i : Nat) (info : JobInfo) : Prop :=
  info ∈ f.infos i ∨ f.info? i info.id = some info

/-- A driver of the job was told to stop and has not ended; if its time has come, it may still
    fire. -/
def Lingers (f : Fleet FaultyStore) (i : Nat) (id : String) : Prop :=
  ∃ m d, f.Does m (.drive d) ∧ d.scheduler = i ∧ d.job.id = id ∧ d.stopping = true

/-- A driver of the job has not had its first turn. -/
def Unbegun (f : Fleet FaultyStore) (i : Nat) (id : String) : Prop :=
  ∃ m d, f.Does m (.drive d) ∧ d.scheduler = i ∧ d.job.id = id ∧
    d.stopping = false ∧ d.awaited = none

/-- The declaration of the job can be read at any time. -/
def Readable (f : Fleet FaultyStore) (i : Nat) (id : String) : Prop :=
  ∀ e ∈ f.registry i, e.id = id → e.job.unreadableWhileLocked = false

/-- The registration of the job was active when the scheduler was shut down once. -/
def Interrupted (f : Fleet FaultyStore) (row : List Occurrence) (i : Nat) (id : String) : Prop :=
  ∃ e ∈ (f.through row).registry i, e.id = id ∧ CutOff f row i e.serial

/-- However the row goes on without a call that ends the period of a job, the timer starts no tick
    of it at an instant. -/
def NoTickAt (f : Fleet FaultyStore) (i : Nat) (id : String) (y : Instant) : Prop :=
  ∀ rest, f.Timely rest → (∀ o ∈ rest, ¬ o.Ends i id) → (y = f.world.now → ¬ f.Lingers i id) →
    f.ticksAt i id y rest = 0

/-- An instant is that of the next tick of a job, unless a call ends its period before. -/
structure NextTick (f : Fleet FaultyStore) (i : Nat) (id : String) (x : Instant) : Prop where
  ahead : f.world.now ≤ x
  quiet : ∀ y : Instant, y.nanos < x.nanos → f.NoTickAt i id y
  ticks : ∀ rest, f.Timely rest → (∀ o ∈ rest, ¬ o.Ends i id) →
    x.nanos < (f.through rest).world.now.nanos →
    f.ticksAt i id x rest = 1

section

variable {f : Fleet FaultyStore} {first point rest : List Occurrence} {i k m n : Nat} {id : String}
    {d : Driver} {e : Entry}
  {x y : Instant}

/-! ## Rows that go on -/

/-- Ticks are counted one part of a row after the other. -/
theorem ticksAt_append (f : Fleet FaultyStore) (before rest : List Occurrence) :
    f.ticksAt i id x (before ++ rest) = f.ticksAt i id x before +
      (f.through before).ticksAt i id x rest := by
  induction before generalizing f with
  | nil => exact (Nat.zero_add _).symm
  | cons o before ih =>
    show (if f.world.now = x then f.started o i id else 0) +
      (f.occur o).ticksAt i id x (before ++ rest) =
      (if f.world.now = x then f.started o i id else 0) + (f.occur o).ticksAt i id x before + _
    rw [ih, Nat.add_assoc]
    rfl

theorem prefix_step {r : List Occurrence} {o : Occurrence} (h : r ++ [o] <+: rest) :
    point ++ r ++ [o] <+: point ++ rest := by
  rw [List.append_assoc]
  exact (List.prefix_append_right_inj point).2 h

/-- A shutdown ends the periods of all jobs of its scheduler. -/
theorem ends_of_stops {o : Occurrence} (h : o.Stops i) : o.Ends i id := by
  obtain ⟨waits, foreground, ho⟩ := h
  unfold Occurrence.Ends
  rw [ho]

/-- Without a shutdown no driver is told to stop. -/
theorem lingers_of_append (hpristine : f.Pristine) (hnot : ∀ o ∈ rest, ¬ o.Stops i) :
    ∀ r, r <+: rest → ∀ n d,
    (f.through (point ++ r)).Does n (.drive d) → d.scheduler = i → d.stopping = true →
      (f.through point).Does n (.drive d) := by
  refine prefix_induction ?_ ?_
  · intro n d hdoes _ _
    rw [List.append_nil] at hdoes
    exact hdoes
  · intro r o hpre ih n d hdoes hi hstopping
    rw [← List.append_assoc, through_concat] at hdoes
    have hfrom := driverFrom_of_effect (sound_through hpristine.sound _)
      (wired_through hpristine _) hdoes
    obtain hold | ⟨ho, -⟩ := hfrom.of_stopping hstopping
    · exact ih n d hold hi hstopping
    · exact absurd (hi ▸ ho) (hnot o (hpre.subset (by simp)))

/-! ## Periods that are under way -/

/-- The driver of a period has fired a number of times up to a point. -/
structure Underway (f : Fleet FaultyStore) (i : Nat) (e : Entry) (m k : Nat)
    (first point : List Occurrence) : Prop where
  period : Period f i e first point
  handle : e.driver = some m
  stage : Stage i e m (f.through first).world.now (f.through point) k
  ticks : ∀ x : Instant, (f.through first).world.now.nanos < x.nanos →
    f.ticksAt i e.id x point = e.trigger.among (f.through first).world.now k x

namespace Regulated

/-- A period of a regulated row has its driver under way. -/
theorem underway_of_period (h : f.Regulated point) (hperiod : Period f i e first point) :
    ∃ m k, Underway f i e m k first point := by
  have hactive := hperiod.active first List.prefix_rfl hperiod.order
  have hunpaused := unpaused_of_active (h.wired first) hperiod.entry hactive
  obtain ⟨m, hm⟩ := (h.wired first).driven i hactive.1 e hperiod.entry hunpaused
  obtain ⟨-, k, hstage, hticks⟩ :=
    h.traced_through hperiod List.prefix_rfl hm point hperiod.order List.prefix_rfl
  exact ⟨m, k, hperiod, hm, hstage, hticks⟩

/-- A period goes on as long as no call ends it. -/
theorem period_append (h : f.Regulated (point ++ rest)) (hperiod : Period f i e first point)
    (hnot : ∀ o ∈ rest, ¬ o.Ends i e.id) : ∀ r, r <+: rest → Period f i e first (point ++ r) := by
  refine prefix_induction ?_ ?_
  · rw [List.append_nil]
    exact hperiod
  · intro r o hpre ih
    rw [← List.append_assoc]
    exact h.period_goesOn (prefix_step hpre) ih (hnot o (hpre.subset (by simp)))

/-- And its driver stays on its trace. -/
theorem traced_append (h : f.Regulated (point ++ rest)) (hunder : Underway f i e m k first point)
    (hnot : ∀ o ∈ rest, ¬ o.Ends i e.id) {r : List Occurrence} (hr : r <+: rest) :
    Traced f i e m first (point ++ r) := by
  have hperiod := h.period_append hunder.period hnot r hr
  exact h.traced_through hperiod ((List.prefix_append_right_inj point).2 hr) hunder.handle _
    hperiod.order List.prefix_rfl

/-- While a period is under way its driver does not fire at the instant at which the period began,
    and no other driver does but one that was told to stop before. -/
theorem noTick_at_begin (h : f.Regulated (point ++ rest)) (hunder : Underway f i e m k first point)
    (hnot : ∀ o ∈ rest, ¬ o.Ends i e.id) (hnow : y = (f.through first).world.now)
    (hstill : ¬ (f.through point).Lingers i e.id) :
    (f.through point).ticksAt i e.id y rest = 0 := by
  by_contra hticks
  obtain ⟨r, o, hpre, hy, hstarted⟩ := exists_started (Nat.pos_of_ne_zero hticks)
  rw [← through_append] at hy hstarted
  have hr : r <+: rest := (List.prefix_append r [o]).trans hpre
  have htraced := h.traced_append hunder hnot hr
  obtain ⟨k', hstage, -⟩ := htraced.stage
  have hw := h.wired (point ++ r)
  obtain ⟨n, d, hi, hid, hfired⟩ := fired_of_started (h.sound _) hw hstarted
  by_cases hn : n = m
  · -- its own driver fires at a fire time, which is later than the beginning
    subst hn
    have hdeclared := h.declared htraced.entry
    obtain ⟨hk, -⟩ := h.stage_of_fired (prefix_step hpre) hdeclared hstage hfired
    have hlater := Trigger.lt_nth hdeclared hk
    rw [hy, hnow] at hlater
    exact Int.lt_irrefl _ hlater
  · cases hstopping : d.stopping with
    | false => exact hn (hw.eq_driver htraced.entry hunder.handle hfired.does hi hid hstopping)
    | true =>
      have hold := lingers_of_append h.pristine (fun o ho hstops =>
        hnot o ho (ends_of_stops hstops)) r hr n d hfired.does hi
        hstopping
      exact hstill ⟨n, d, hold, hi, hid, hstopping⟩

/-- What is not a fire time that is still to come has no tick. -/
theorem noTickAt_of_underway (h : f.Regulated point) (hunder : Underway f i e m k first point)
    (hnever : ∀ j, k ≤ j → e.trigger.nth? (f.through first).world.now j ≠ some y) :
    (f.through point).NoTickAt i e.id y := by
  intro rest hrest hnot hstill
  have h' := h.append rest hrest
  have hle : (f.through first).world.now ≤ (f.through point).world.now :=
    now_through h.pristine.sound hunder.period.order
  by_cases hafter : (f.through first).world.now.nanos < y.nanos
  · -- the fire times for which the driver fires from now on are others
    obtain ⟨m', k', hunder'⟩ :=
      h'.underway_of_period (h'.period_append hunder.period hnot rest List.prefix_rfl)
    have hcount := hunder'.ticks y hafter
    rw [ticksAt_append, hunder.ticks y hafter] at hcount
    have hmore := Trigger.among_le hnever k'
    omega
  · by_cases hnow : y = (f.through point).world.now
    · have hbegin : y = (f.through first).world.now := by
        refine Instant.eq_of_le (Int.not_lt.1 hafter) ?_
        rw [hnow]
        exact hle
      exact h'.noTick_at_begin hunder hnot hbegin (hstill hnow)
    · -- it has passed
      have hpassed : y.nanos < (f.through point).world.now.nanos := by
        by_contra hreached
        exact hnow (Instant.eq_of_le (Int.le_trans (Int.not_lt.1 hafter) hle)
          (Int.not_lt.1 hreached))
      exact ticksAt_of_gt (h.sound point) List.nil_prefix hpassed

/-- A driver that waits for an instant goes on waiting, or has fired for it. -/
theorem waits_or_ticks (h : f.Regulated (point ++ rest)) (hunder : Underway f i e m k first point)
    (hnot : ∀ o ∈ rest, ¬ o.Ends i e.id)
    (hdoes : (f.through point).Does m (.drive { e.driverOf i with awaited := some x })) :
    ∀ r, r <+: rest →
      (f.through (point ++ r)).Does m (.drive { e.driverOf i with awaited := some x }) ∨
        0 < (f.through point).ticksAt i e.id x r := by
  refine prefix_induction ?_ ?_
  · rw [List.append_nil]
    exact .inl hdoes
  · intro r o hpre ih
    rw [ticksAt_concat]
    obtain hwaits | hticks := ih
    · have hstep : point ++ r ++ [o] <+: point ++ rest := prefix_step hpre
      have htraced := h.traced_append hunder hnot ((List.prefix_append r [o]).trans hpre)
      have hperiod := h.period_append hunder.period hnot _ hpre
      have hs := h.sound (point ++ r)
      have hw := h.wired (point ++ r)
      have hactive := hperiod.active _ hperiod.order List.prefix_rfl
      rw [← List.append_assoc, through_concat] at hactive ⊢
      obtain hkept | ⟨ho, hturn⟩ :=
        driver_of_effect hs hw (effect_occur hs hw o) htraced.entry hunder.handle hactive hwaits
      · exact .inl hkept
      · -- it has its turn, and fires
        cases hturn with
        | fails hnone => cases hnone
        | begins hnone => cases hnone
        | stops hstopping => cases hstopping
        | stray _ hnone =>
          obtain ⟨s, hsched⟩ := exists_of_mem_registry htraced.entry
          have hnone : (f.through (point ++ r)).schedulers[i]? = none := hnone
          rw [hsched] at hnone
          cases hnone
        | fires hawaited hdue hjob hfires =>
          have hfired : Fired m { e.driverOf i with awaited := some x } (f.through (point ++ r)) o
              ((f.through (point ++ r)).occur o) := ⟨ho, hwaits, hawaited, hdue, _, hjob, hfires⟩
          have hone : (f.through (point ++ r)).started o i e.id = 1 := started_of_fired hs hfired
          obtain ⟨e₂, first₂, last₂, hserves⟩ :=
            h.serves_through _ ((List.prefix_append _ [o]).trans hstep) m _ hwaits
          have hnow : (f.through (point ++ r)).world.now = x :=
            h.now_of_turn hstep hserves ho hwaits nofun rfl
          rw [through_append] at hnow hone
          rw [if_pos hnow, hone]
          exact .inr (Nat.succ_pos _)
    · exact .inr (Nat.lt_of_lt_of_le hticks (Nat.le_add_right _ _))

/-- What its driver waits for is the next tick of a job. -/
theorem nextTick_of_waits (h : f.Regulated point) (hunder : Underway f i e m k first point)
    (hdoes : (f.through point).Does m (.drive { e.driverOf i with awaited := some x }))
    (hx : e.trigger.nth? (f.through first).world.now k = some x) :
      (f.through point).NextTick i e.id x := by
  have hdeclared := declared_through h.pristine h.orderly first i e hunder.period.entry
  obtain ⟨hwhole, hstart⟩ :
      x.nanos % nanosPerMilli = 0 ∧ (f.through point).world.start.nanos ≤ x.nanos :=
    h.whole_of_fire hdeclared hx
  refine ⟨?_, ?_, ?_⟩
  · exact now_le_awaited (through_whole h.pristine.sound h.whole point)
      (h.alert List.prefix_rfl) hdoes rfl
      hdeclared.looksAhead rfl hwhole hstart
  · exact fun y hy => h.noTickAt_of_underway hunder fun j hkj => Trigger.nth?_ne hdeclared hx hy hkj
  · intro rest hrest hnot hpassed
    have h' := h.append rest hrest
    have hafter := Trigger.lt_nth hdeclared hx
    -- there is one tick at most: none up to now, and one fire time
    have hnone : f.ticksAt i e.id x point = 0 := by
      rw [hunder.ticks x hafter]
      refine Trigger.among_eq_zero ?_
      intro j hjk hj
      exact Int.lt_irrefl _ (Trigger.nth_lt_nth hdeclared hjk hj hx)
    obtain ⟨m', k', hunder'⟩ :=
      h'.underway_of_period (h'.period_append hunder.period hnot rest List.prefix_rfl)
    have hmost : e.trigger.among (f.through first).world.now k' x ≤ 1 :=
      Trigger.among_le_one hdeclared k' x
    rw [← hunder'.ticks x hafter, ticksAt_append, hnone] at hmost
    -- and the driver no longer waits
    obtain hwaits | hticks := h'.waits_or_ticks hunder hnot hdoes rest List.prefix_rfl
    · have hle : (f.through (point ++ rest)).world.now ≤ x :=
        now_le_awaited (through_whole h.pristine.sound h.whole _)
          (h'.alert List.prefix_rfl) hwaits rfl hdeclared.looksAhead
          rfl hwhole (by rw [start_through h.pristine.sound] at hstart ⊢; exact hstart)
      rw [through_append] at hle
      exact absurd hle (Int.not_le.2 hpassed)
    · omega

/-- What a driver that has not begun will be answered is the next tick of a job that can be read. -/
theorem nextTick_of_begins (h : f.Regulated point) (hunder : Underway f i e m k first point)
    (hreads : e.job.unreadableWhileLocked = false)
    (hnow : (f.through point).world.now = (f.through first).world.now)
    (hx : e.trigger.nth? (f.through first).world.now 0 = some x) :
    (f.through point).NextTick i e.id x := by
  have hdeclared := declared_through h.pristine h.orderly first i e hunder.period.entry
  have hafter := Trigger.lt_nth hdeclared hx
  refine ⟨?_, ?_, ?_⟩
  · rw [hnow]
    exact Int.le_of_lt hafter
  · exact fun y hy => h.noTickAt_of_underway hunder fun j _ =>
      Trigger.nth?_ne hdeclared hx hy (Nat.zero_le j)
  · intro rest hrest hnot hpassed
    have h' := h.append rest hrest
    have hperiod := h'.period_append hunder.period hnot rest List.prefix_rfl
    rw [← through_append] at hpassed
    have hone := (h'.ticks_of_period hperiod List.prefix_rfl hafter hpassed).1 hreads ⟨0, hx⟩
    rw [ticksAt_append, ticksAt_of_lt h.pristine.sound (by rw [hnow]; exact hafter),
      Nat.zero_add] at hone
    exact hone

/-! ## What is reported -/

/-- What a running scheduler shows of an active job is its next tick. -/
theorem nextTick_of_shown (h : f.Regulated point) (he : e ∈ (f.through point).entriesOf i)
    (hactive : (f.through point).Active i e.serial) (hshown : e.nextRun = some x)
    (hbegun : CutOff f point i e.serial → ¬ (f.through point).Unbegun i e.id ∧
      e.job.unreadableWhileLocked = false) :
    (f.through point).NextTick i e.id x := by
  have hmem : e.plain ∈ (f.through point).registry i := List.mem_map_of_mem he
  obtain ⟨first, hperiod⟩ := h.exists_period i point List.prefix_rfl e.plain hmem hactive
  obtain ⟨m, k, hunder⟩ := h.underway_of_period hperiod
  have hdisplays := h.displays_through hperiod List.prefix_rfl hunder.handle point hperiod.order
    List.prefix_rfl e he rfl
  rw [hshown] at hdisplays
  have hstage := hunder.stage
  cases hstage with
  | begins hdoes =>
    -- it shows what was announced before it was cut off
    obtain hnone | hcut := hdisplays.begins hdoes
    · cases hnone
    · exact absurd ⟨m, _, hdoes, rfl, rfl, rfl, rfl⟩ (hbegun hcut).1
  | waits hdoes hx =>
    have hsame := hdisplays.waits _ hdoes
    rw [Option.some.injEq] at hsame
    subst hsame
    exact h.nextTick_of_waits (e := e.plain) hunder hdoes hx
  | ended hgone =>
    obtain hnone | ⟨hcut, hunreadable⟩ := hdisplays.ended hgone
    · cases hnone
    · have hreads := (hbegun hcut).2
      have hunreadable : e.job.unreadableWhileLocked = true := hunreadable
      rw [hreads] at hunreadable
      cases hunreadable

/-- Once a scheduler that does not run is started, a period begins for each of its jobs that is not
    paused. -/
theorem underway_of_start (h : f.Regulated point) (hidle : (f.through point).isRunning i = false)
    (he : e ∈ (f.through point).registry i) (hunpaused : e.paused = false) :
    ∃ e' m k, e'.job = e.job ∧ e'.trigger = e.trigger ∧
      Underway f i e' m k (point ++ [.move (.start i)]) (point ++ [.move (.start i)]) := by
  have hw := h.wired point
  obtain ⟨s, hsched⟩ := exists_of_mem_registry he
  -- the job is still known, as it was
  have hknown : (f.through point).known i e.id = some e.enrolment := by
    unfold known
    rw [(hw.sorted i).find?_eq_some_iff.2 ⟨he, rfl⟩]
    rfl
  rw [← known_start hw i i] at hknown
  obtain ⟨e', hfound, henrolment⟩ := Option.map_eq_some_iff.1 hknown
  have he' := (Entry.find?_eq_some hfound).1
  injection henrolment with hjob htrigger hpaused
  have hruns := (starts_start hw hidle hsched).runs
  have hstart : (f.through point).start i = f.through (point ++ [.move (.start i)]) := by
    rw [through_concat]
    rfl
  rw [hstart] at he' hruns
  have hperiod : Period f i e' (point ++ [.move (.start i)]) (point ++ [.move (.start i)]) := by
    refine .of_begin he' ⟨hruns, e', he', rfl, hpaused.trans hunpaused⟩ ?_
    intro hactive
    rw [hactive.1] at hidle
    cases hidle
  obtain ⟨m, k, hunder⟩ :=
    (h.append [.move (.start i)] ⟨trivial, trivial⟩).underway_of_period hperiod
  exact ⟨e', m, k, hjob, htrigger, hunder⟩

/-- If a scheduler that does not run is started now, the first tick of a job is at what its trigger
    answers now. -/
theorem nextTick_of_start (h : f.Regulated point) (hidle : (f.through point).isRunning i = false)
    (he : e ∈ (f.through point).registry i) (hunpaused : e.paused = false)
    (hreads : e.job.unreadableWhileLocked = false) :
    (∀ x, e.trigger.next? none (f.through point).world.now = some x →
      ((f.through point).start i).NextTick i e.id x) ∧
    (e.trigger.next? none (f.through point).world.now = none →
      ∀ y, ((f.through point).start i).NoTickAt i e.id y) := by
  obtain ⟨e', m, k, hjob, htrigger, hunder⟩ := h.underway_of_start hidle he hunpaused
  have h' : f.Regulated (point ++ [.move (.start i)]) :=
    h.append [.move (.start i)] ⟨trivial, trivial⟩
  have hid : e'.id = e.id := congrArg Job.id hjob
  have hstart : (f.through point).start i = f.through (point ++ [.move (.start i)]) := by
    rw [through_concat]
    rfl
  have hnow : (f.through (point ++ [.move (.start i)])).world.now =
      (f.through point).world.now := by
    rw [through_concat]
    exact now_occur (h.sound point) nofun
  -- what is answered now is the first fire time of the new period
  rw [Trigger.next?_none (h.declared he), ← hnow, ← htrigger, hstart, ← hid]
  refine ⟨?_, ?_⟩
  · intro x hx
    exact h'.nextTick_of_begins hunder (hjob ▸ hreads) rfl hx
  · intro hnone y
    refine h'.noTickAt_of_underway hunder ?_
    intro j _ hj
    rw [Trigger.nth?_none_mono (Nat.zero_le j) hnone] at hj
    cases hj

end Regulated

/-- A running scheduler reports what the entry shows. -/
theorem nextRunOf_of_running {s : Scheduler} (hruns : s.running = true)
    (hunpaused : e.paused = false) (now : Instant) :
    s.nextRunOf e now = e.nextRun := by
  unfold Scheduler.nextRunOf
  rw [if_neg (by simp [hunpaused]), if_pos hruns]

theorem nextRunOf_of_idle {s : Scheduler} (hidle : s.running = false) (hunpaused : e.paused = false)
    (now : Instant) :
    s.nextRunOf e now = e.trigger.next? none now := by
  unfold Scheduler.nextRunOf
  rw [if_neg (by simp [hunpaused]), if_neg (by simp [hidle])]

theorem exists_of_reports {σ : Type} {f : Fleet σ} {info : JobInfo} (h : f.Reports i info) :
    ∃ s e, f.schedulers[i]? = some s ∧ e ∈ s.entries ∧ info = s.infoOf e f.world.now := by
  obtain hlisted | hasked := h
  · unfold infos at hlisted
    cases hsched : f.schedulers[i]? with
    | none =>
      rw [hsched] at hlisted
      cases hlisted
    | some s =>
      rw [hsched] at hlisted
      obtain ⟨e, he, rfl⟩ := List.mem_map.1 hlisted
      exact ⟨s, e, rfl, he, rfl⟩
  · obtain ⟨s, hsched, hinfo⟩ := Option.bind_eq_some_iff.1 hasked
    obtain ⟨e, hfound, rfl⟩ := Option.map_eq_some_iff.1 hinfo
    exact ⟨s, e, hsched, (Entry.find?_eq_some hfound).1, rfl⟩

end

/-- **Next run time.**  At any point of any timely row, whatever is reported of a job, asked for it
    or for all jobs: a paused job has no next run time.  While the scheduler runs, the time that is
    reported of a job that is not paused has not passed and is that of the next tick of the job,
    unless the job was interrupted and its driver has not begun since, or could not.  While the
    scheduler does not run, the time is that of the first tick that follows if the scheduler is
    started now, and if none is reported there follows none. -/
theorem reports_next_run {f : Fleet FaultyStore} {point : List Occurrence} (hpristine : f.Pristine)
    (hwhole : f.Whole) (horderly : ∀ i zone, f.zone? i = some zone → zone.Orderly)
    (htimely : f.Timely point) {i : Nat} {info : JobInfo}
    (hreports : (f.through point).Reports i info) :
    (info.paused = true → info.nextRunTime = none) ∧
    ((f.through point).isRunning i = true → info.paused = false →
      (Interrupted f point i info.id → ¬ (f.through point).Unbegun i info.id ∧
        (f.through point).Readable i info.id) →
        ∀ x, info.nextRunTime = some x → (f.through point).NextTick i info.id x) ∧
    ((f.through point).isRunning i = false → info.paused = false →
      (f.through point).Readable i info.id →
      (∀ x, info.nextRunTime = some x → ((f.through point).start i).NextTick i info.id x) ∧
      (info.nextRunTime = none → ∀ y, ((f.through point).start i).NoTickAt i info.id y)) := by
  have h : f.Regulated point := ⟨hpristine, htimely, hwhole, horderly⟩
  obtain ⟨s, e, hsched, he, rfl⟩ := exists_of_reports hreports
  have hentries : (f.through point).entriesOf i = s.entries := entriesOf_of_getElem? hsched
  have hrunning : (f.through point).isRunning i = s.running := isRunning_of_getElem? hsched
  have hmem : e.plain ∈ (f.through point).registry i := by
    rw [← hentries] at he
    exact List.mem_map_of_mem he
  refine ⟨?_, ?_, ?_⟩
  · intro hpaused
    exact if_pos hpaused
  · intro hruns hunpaused hbegun x hx
    have hshown : e.nextRun = some x :=
      (nextRunOf_of_running (hrunning ▸ hruns) hunpaused _).symm.trans hx
    refine h.nextTick_of_shown (hentries ▸ he) ⟨hruns, e.plain, hmem, rfl, hunpaused⟩ hshown ?_
    intro hcut
    obtain ⟨hnot, hreads⟩ := hbegun ⟨e.plain, hmem, rfl, hcut⟩
    exact ⟨hnot, hreads e.plain hmem rfl⟩
  · intro hidle hunpaused hreads
    -- a stopped scheduler reports what the trigger would answer now
    have hanswer : (s.infoOf e (f.through point).world.now).nextRunTime =
        e.trigger.next? none (f.through point).world.now :=
      nextRunOf_of_idle (hrunning ▸ hidle) hunpaused _
    rw [hanswer]
    exact h.nextTick_of_start (e := e.plain) hidle hmem hunpaused (hreads e.plain hmem rfl)

/-- A job of every second is registered and its scheduler started.  The scheduler is shut down
    before the job has fired, and started again a minute later. -/
def restarting : List Occurrence :=
  [.move (.register 0 (.sleeper 2000 [500])), .move (.start 0), .move (.turn 1), .move (.pass 300),
    .move (.shutdown 0 true true), .move (.turn 1), .move (.turn 2), .move (.pass 60000),
    .move (.start 0)]

/-- The next run time of the job after the first turn of its new driver. -/
theorem reports_next_run_restarted :
    ∃ info, (untouched.through (restarting ++ [.move (.turn 3)])).info? 0 "sleeper" = some info ∧
    info.nextRunTime = some ⟨61000000000⟩ ∧
    (untouched.through (restarting ++ [.move (.turn 3)])).NextTick 0 "sleeper" ⟨61000000000⟩ := by
  have htimely : untouched.Timely (restarting ++ [.move (.turn 3)]) := by
    decide +kernel
  have horderly : ∀ i zone, untouched.zone? i = some zone → zone.Orderly := by
    intro i zone hzone
    cases i with
    | zero =>
      cases hzone
      exact orderly_of_mem_tabledZones List.mem_cons_self
    | succ i => cases hzone
  have hshown : ((untouched.through (restarting ++ [.move (.turn 3)])).info? 0 "sleeper").map
      (fun info => (info.id, info.paused, info.nextRunTime)) =
        some ("sleeper", false, some ⟨61000000000⟩) := by
    decide +kernel
  have htasks : (untouched.through (restarting ++ [.move (.turn 3)])).tasks =
    [⟨3, .drive ⟨0, 0, .sleeper 2000 [500],
      .interval ⟨1⟩, some ⟨61000000000⟩, false⟩, .sleeping 61000, false⟩] := by
    rfl
  have hregistry : (untouched.through (restarting ++ [.move (.turn 3)])).registry 0 =
      [⟨0, .sleeper 2000 [500], .interval ⟨1⟩, false, none, some 3⟩] := by
    rfl
  obtain ⟨info, hinfo, hfields⟩ := Option.map_eq_some_iff.1 hshown
  injection hfields with hid hrest
  injection hrest with hunpaused hnext
  have hreports : (untouched.through (restarting ++ [.move (.turn 3)])).Reports 0 info :=
    .inr (hid ▸ hinfo)
  refine ⟨info, hinfo, hnext, hid ▸ ?_⟩
  refine (reports_next_run pristine_untouched rfl horderly htimely hreports).2.1 ?_ hunpaused
    (fun _ => ⟨?_, ?_⟩) _ hnext
  · decide +kernel
  · -- the only driver has asked its trigger
    intro hunbegun
    obtain ⟨m, d, ⟨t, ht, -, hactivity⟩, -, -, -, hnone⟩ := hunbegun
    rw [htasks] at ht
    cases List.mem_singleton.1 ht
    cases hactivity
    cases hnone
  · intro e he _
    rw [hregistry] at he
    cases List.mem_singleton.1 he
    rfl

/-- Before that turn, a running scheduler reports the time that was announced before the shutdown,
    and it has passed. -/
theorem reports_past_run :
    untouched.Timely restarting ∧ (untouched.through restarting).isRunning 0 = true ∧
    ∃ info x, (untouched.through restarting).info? 0 "sleeper" = some info ∧ info.paused = false ∧
      info.nextRunTime = some x ∧ x.nanos < (untouched.through restarting).world.now.nanos := by
  have hshown : ((untouched.through restarting).info? 0 "sleeper").map (fun info =>
    (info.paused, info.nextRunTime)) =
      some (false, some ⟨1000000000⟩) := by
    decide +kernel
  obtain ⟨info, hinfo, hfields⟩ := Option.map_eq_some_iff.1 hshown
  injection hfields with hunpaused hnext
  refine ⟨?_, ?_, info, _, hinfo, hunpaused, hnext, ?_⟩
  · decide +kernel
  · decide +kernel
  · decide +kernel

end Fleet

end JobFleet
