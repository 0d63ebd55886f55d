/-
  JobFleet.Proofs.Fleet.Announcements: the fire times that the entries of a scheduler show.

  Fleets were compared without the fire times that drivers announce (`Entry.plain`).  Here they are
  followed.  Requests never announce anything: an entry afterwards was there before and shows what
  it did, or it shows nothing (`Inherits`).  Only a driver that asks its trigger announces the
  answer, to the entry with its serial number, and then waits for that very answer or ends.

  Main results:
    * `announced_occur` — what any occurrence does to what the entries show.
    * `bare_through` — a serial number stands for one declaration for ever.
-/
import JobFleet.Proofs.Fleet.Ticks

namespace JobFleet

open JobFleet.Schedule JobFleet.Time

namespace Entry

/-- An entry as it was entered. -/
def bare (e : Entry) : Entry := { serial := e.serial, job := e.job, trigger := e.trigger }

/-- Where an entry comes from, and what it shows of its next fire time. -/
inductive Inherits (entries : List Entry) (bound : Nat) (e' : Entry) : Prop
  /-- It was there, and shows what it did. -/
  | stays {e : Entry} (he : e ∈ entries) (hbare : e'.bare = e.bare) (hnext : e'.nextRun = e.nextRun)
      (hunpaused : e.paused = false → e'.paused = false)
  /-- It was there, and was paused, so that it no longer shows anything. -/
  | clears {e : Entry} (he : e ∈ entries) (hbare : e'.bare = e.bare) (hnone : e'.nextRun = none)
    (hpaused : e'.paused = true)
  /-- It is new, and does not show anything yet. -/
  | enters (hnew : bound ≤ e'.serial) (hnone : e'.nextRun = none)

variable {e e' : Entry} {entries : List Entry} {bound : Nat}

/-- An entry keeps its serial number with its declaration. -/
theorem serial_of_bare (h : e'.bare = e.bare) : e'.serial = e.serial := by
  show e'.bare.serial = e.bare.serial
  rw [h]

/-- An entry that was there shows what it did. -/
theorem Inherits.of_mem (he : e ∈ entries) : Inherits entries bound e :=
  .stays he rfl rfl fun h => h

/-- Putting an entry in brings nothing else. -/
theorem mem_of_mem_insert (h : e' ∈ Entry.insert e entries) : e' ∈ entries ∨ e' = e := by
  induction entries with
  | nil => exact .inr (List.mem_singleton.1 h)
  | cons first rest ih =>
    unfold Entry.insert at h
    split at h
    · exact (List.mem_cons.1 h).symm
    · split at h
      · obtain rfl | hrest := List.mem_cons.1 h
        · exact .inr rfl
        · exact .inl (List.mem_cons_of_mem _ hrest)
      · obtain rfl | hrest := List.mem_cons.1 h
        · exact .inl List.mem_cons_self
        · exact (ih hrest).imp_left (List.mem_cons_of_mem _)

end Entry

namespace Fleet

section

variable {σ : Type} {f g k : Fleet σ} {i j : Nat} {t : Task} {d : Driver}

/-! ## Requests -/

/-- The entries of a scheduler show what they did, or nothing. -/
def Silent (i : Nat) (f g : Fleet σ) :
    Prop := ∀ e' ∈ g.entriesOf i, Entry.Inherits (f.entriesOf i) f.nextNumber e'

/-- Where no entry changes, none shows anything else. -/
theorem silent_of_entries (h : g.entriesOf i = f.entriesOf i) : Silent i f g := by
  intro e' he'
  rw [h] at he'
  exact .of_mem he'

theorem entriesOf_of_schedulers (h : g.schedulers = f.schedulers) (i : Nat) :
    g.entriesOf i = f.entriesOf i := by
  unfold entriesOf
  rw [h]

/-- After a change of one scheduler its entries are those of the change, and the others have
    theirs. -/
theorem mem_entriesOf_modify {P : List Entry → Entry → Prop} {change : Scheduler → Scheduler}
    (h : g.schedulers = f.schedulers.modify j change)
    (hsame : ∀ entries, ∀ e ∈ entries, P entries e)
    (hchange : ∀ s, f.schedulers[j]? = some s → ∀ e' ∈ (change s).entries, P s.entries e') :
    ∀ e' ∈ g.entriesOf i, P (f.entriesOf i) e' := by
  intro e' he'
  by_cases hi : i = j
  · subst hi
    have hself := getElem?_of_modify h
    cases hsched : f.schedulers[i]? with
    | none =>
      rw [hsched] at hself
      obtain ⟨s, hnone⟩ := exists_of_mem_entriesOf he'
      rw [hself] at hnone
      cases hnone
    | some s =>
      rw [hsched] at hself
      rw [entriesOf_of_getElem? hself] at he'
      rw [entriesOf_of_getElem? hsched]
      exact hchange s hsched e' he'
  · have hentries : g.entriesOf i = f.entriesOf i := by
      unfold entriesOf
      rw [h, List.getElem?_modify_ne change f.schedulers (Ne.symm hi)]
    rw [hentries] at he'
    exact hsame _ e' he'

/-- A change of one scheduler is silent if it is for the entries of that one. -/
theorem silent_of_modify {change : Scheduler → Scheduler}
    (h : g.schedulers = f.schedulers.modify j change)
    (hchange : ∀ s, f.schedulers[j]? = some s →
      ∀ e' ∈ (change s).entries, Entry.Inherits s.entries f.nextNumber e') :
    Silent i f g :=
  mem_entriesOf_modify (P := fun entries => Entry.Inherits entries f.nextNumber) h
    (fun _ _ he => .of_mem he) hchange

/-- A change that leaves all entries alone is not seen in them. -/
theorem entriesOf_changeScheduler {change : Scheduler → Scheduler}
    (h : ∀ s, (change s).entries = s.entries) :
    (f.changeScheduler j change).entriesOf i = f.entriesOf i := by
  unfold entriesOf changeScheduler
  simp only [List.getElem?_modify]
  split
  · cases f.schedulers[i]? <;> simp [h]
  · simp

/-- A paused entry shows nothing. -/
theorem silent_pause (i j : Nat) (id : String) : Silent i f (f.pause j id).2 := by
  unfold pause
  cases Entry.find? id (f.entriesOf j) with
  | none => exact silent_of_entries rfl
  | some e =>
    refine silent_of_modify (congrArg (List.modify · j _) (schedulers_abortDriver e)) ?_
    intro s _ e' he'
    obtain ⟨e₀, he₀, rfl⟩ := List.mem_map.1 he'
    split
    · exact .clears he₀ rfl rfl rfl
    · exact .of_mem he₀

/-- A resumed entry shows what it showed. -/
theorem silent_resume (i j : Nat) (id : String) : Silent i f (f.resume j id).2 := by
  unfold resume
  cases hfound : Entry.find? id (f.entriesOf j) with
  | none => exact silent_of_entries rfl
  | some e =>
    -- the entry that is put in its place shows what it did, with a driver or without
    have hresumed : ∀ (k : Fleet σ) (e₁ : Entry), k.schedulers = f.schedulers → e₁.bare = e.bare →
      e₁.nextRun = e.nextRun →
        e₁.paused = false → Silent i f (k.changeEntries j (Entry.change id (fun _ => e₁))) := by
      intro k e₁ hk hbare hnext hunpaused
      refine silent_of_modify (congrArg (List.modify · j _) hk) ?_
      intro s hsched e' he'
      obtain ⟨hmem, -⟩ := Entry.find?_eq_some hfound
      rw [entriesOf_of_getElem? hsched] at hmem
      obtain ⟨e₀, he₀, rfl⟩ := List.mem_map.1 he'
      split
      · exact .stays hmem hbare hnext (fun _ => hunpaused)
      · exact .of_mem he₀
    simp only
    split
    · exact hresumed (f.startDriver j { e with paused := false }).2 _ rfl rfl rfl rfl
    · exact hresumed f _ rfl rfl rfl rfl

/-- Removing an entry leaves the others as they are. -/
theorem silent_remove (i j : Nat) (id : String) : Silent i f (f.remove j id).2 := by
  unfold remove
  cases Entry.find? id (f.entriesOf j) with
  | none => exact silent_of_entries rfl
  | some e =>
    refine silent_of_modify (schedulers_abortDriver (f := f.changeEntries j (Entry.erase id)) e) ?_
    intro s _ e' he'
    exact .of_mem (List.mem_filter.1 he').1

/-- Registering a job puts an entry in that has a new serial number and does not show anything, or
    changes no scheduler. -/
theorem schedulers_register (f : Fleet σ) (j : Nat) (job : Job) :
    f.nextNumber ≤ (f.register j job).2.nextNumber ∧
    ((f.register j job).2.schedulers = f.schedulers ∨ ∃ entry : Entry, f.nextNumber ≤ entry.serial ∧
      entry.nextRun = none ∧
      (f.register j job).2.schedulers =
        f.schedulers.modify j (fun s => { s with entries := Entry.insert entry s.entries })) := by
  unfold register
  cases f.schedulers[j]? with
  | none => exact ⟨Nat.le_refl _, .inl rfl⟩
  | some s =>
    simp only
    split
    · exact ⟨Nat.le_refl _, .inl rfl⟩
    · cases job.definition.trigger s.config.zone with
      | error fault => exact ⟨Nat.le_refl _, .inl rfl⟩
      | ok trigger =>
        cases s.running with
        | true =>
          refine ⟨?_, .inr ⟨_, Nat.le_refl _, rfl, (enter_spec _ j _).1⟩⟩
          show f.nextNumber ≤ (Fleet.enter j _ _).nextNumber
          rw [(enter_spec _ j _).2.2.1]
          show f.nextNumber ≤ f.nextNumber + 1 + 1
          omega
        | false =>
          refine ⟨?_, .inr ⟨_, Nat.le_refl _, rfl, (enter_spec _ j _).1⟩⟩
          show f.nextNumber ≤ (Fleet.enter j _ _).nextNumber
          rw [(enter_spec _ j _).2.2.1]
          exact Nat.le_succ _

/-- What is registered was there as it is, or has a new serial number and does not show anything. -/
theorem mem_entriesOf_register (i j : Nat) (job : Job) : ∀ e' ∈ (f.register j job).2.entriesOf i,
    e' ∈ f.entriesOf i ∨ (f.nextNumber ≤ e'.serial ∧ e'.nextRun = none) := by
  obtain ⟨-, hsame | ⟨entry, hserial, hnone, hschedulers⟩⟩ := schedulers_register f j job
  · intro e' he'
    rw [entriesOf_of_schedulers hsame] at he'
    exact .inl he'
  · refine mem_entriesOf_modify (P := fun entries e' => e' ∈ entries ∨
      (f.nextNumber ≤ e'.serial ∧ e'.nextRun = none))
      hschedulers (fun _ _ he => .inl he) ?_
    intro s _ e' he'
    obtain hold | rfl := Entry.mem_of_mem_insert he'
    · exact .inl hold
    · exact .inr ⟨hserial, hnone⟩

/-- An entry after several jobs were registered was there, or is new and shows nothing. -/
theorem mem_entriesOf_registerAll (i j : Nat) (jobs : List Job) :
    ∀ e' ∈ (f.registerAll j jobs).2.entriesOf i,
    e' ∈ f.entriesOf i ∨ (f.nextNumber ≤ e'.serial ∧ e'.nextRun = none) := by
  induction jobs generalizing f with
  | nil => exact fun e' he' => .inl he'
  | cons job rest ih =>
    obtain ⟨hnext, -⟩ := schedulers_register f j job
    have hfirst := mem_entriesOf_register (f := f) i j job
    unfold registerAll
    rcases hanswer : f.register j job with ⟨answer, g⟩
    rw [hanswer] at hnext hfirst
    -- what comes of the others was there after the first, or is newer still
    have hrest : ∀ e', (e' ∈ g.entriesOf i ∨ (g.nextNumber ≤ e'.serial ∧ e'.nextRun = none)) →
        e' ∈ f.entriesOf i ∨ (f.nextNumber ≤ e'.serial ∧ e'.nextRun = none) := by
      intro e' hor
      obtain hmem | ⟨hnew, hnone⟩ := hor
      · exact hfirst e' hmem
      · exact .inr ⟨Nat.le_trans hnext hnew, hnone⟩
    cases answer with
    | ok registered => exact fun e' he' => hrest e' (ih e' he')
    | error fault =>
      have hlogged := ih (f := g.changeWorld (·.emit .error "Failed to register job"
        [("job_id", .str job.id), ("error", .str fault.message)]))
      exact fun e' he' => hrest e' (hlogged e' he')

/-- Registering is silent, since no entry that is new shows anything. -/
theorem silent_of_enters
    (h : ∀ e' ∈ g.entriesOf i, e' ∈ f.entriesOf i ∨
      (f.nextNumber ≤ e'.serial ∧ e'.nextRun = none)) :
    Silent i f g := by
  intro e' he'
  obtain hold | ⟨hnew, hnone⟩ := h e' he'
  · exact .of_mem hold
  · exact .enters hnew hnone

theorem silent_start (i j : Nat) : Silent i f (f.start j) := by
  cases hruns : f.isRunning j with
  | true =>
    unfold start
    rw [if_pos hruns]
    exact silent_of_entries rfl
  | false =>
    have hdrivers := startsDrivers_startDrivers j (f.entriesOf j) f
    rw [start_of_idle hruns]
    refine silent_of_modify (congrArg (List.modify · j _) hdrivers.schedulers) ?_
    intro s hsched e' he'
    obtain ⟨e, he, hgiven⟩ := hdrivers.given e' he'
    rw [entriesOf_of_getElem? hsched] at he
    obtain ⟨-, rfl⟩ | ⟨-, n, rfl, -⟩ := hgiven
    · exact .of_mem he
    · exact .stays he rfl rfl (fun h => h)

/-! ## Tasks that are not drivers -/

/-- A piece of a run changes no entry. -/
theorem entriesOf_afterRun (c : Caller) (got : Progress × World σ) :
    (f.afterRun t j c got).entriesOf i = f.entriesOf i := by
  obtain ⟨p, w⟩ := got
  cases p <;> rfl

/-- A shutdown that waits for ticks changes no entry. -/
theorem entriesOf_stepTicks (d : Drain) (ticks : List Nat) :
    (f.stepTicks t d ticks).entriesOf i = f.entriesOf i := by
  unfold stepTicks
  simp only
  split <;> rfl

theorem entriesOf_stepDrain (t : Task) (d : Drain) :
    (f.stepDrain t d).entriesOf i = f.entriesOf i := by
  unfold stepDrain
  cases d.phase with
  | ticks ticks => exact entriesOf_stepTicks d ticks
  | drivers drivers =>
    have hflights : ((f.collect drivers).2.changeScheduler d.scheduler (fun s =>
        { s with inFlight := [] })).entriesOf i =
        f.entriesOf i := entriesOf_changeScheduler (f := (f.collect drivers).2) (fun _ => rfl)
    simp only
    split
    · rfl
    · split
      · rw [entriesOf_stepTicks]
        exact hflights
      · exact hflights

theorem entriesOf_collectTicks (j : Nat) : (f.collectTicks j).entriesOf i = f.entriesOf i := by
  unfold collectTicks
  cases f.schedulers[j]? with
  | none => rfl
  | some s => exact entriesOf_changeScheduler (f := (f.collect s.inFlight).2) (fun _ => rfl)

theorem entriesOf_startTick (j : Nat) (job : Job) :
    (f.startTick j job).entriesOf i = f.entriesOf i := by
  unfold startTick
  cases f.schedulers[j]? with
  | none => rfl
  | some s =>
    show (Fleet.changeScheduler j _ (Fleet.addTask _ false (f.collectTicks j))).entriesOf i = _
    refine (entriesOf_changeScheduler ?_).trans (entriesOf_collectTicks j)
    exact fun _ => rfl

/-! ## Drivers -/

/-- A driver announces the answer of its trigger. -/
theorem entriesOf_driveOn (t : Task) (d : Driver) : (f.driveOn t d).entriesOf i =
    if d.scheduler = i then
    Entry.announce d.serial (d.trigger.next? d.awaited f.world.now) (f.entriesOf i)
    else f.entriesOf i := by
  have hannounce : ∀ next, (f.changeScheduler d.scheduler (fun s => { s with
      entries := Entry.announce d.serial next s.entries })).entriesOf i =
        if d.scheduler = i then Entry.announce d.serial next (f.entriesOf i)
        else f.entriesOf i := by
    intro next
    unfold entriesOf changeScheduler
    simp only [List.getElem?_modify]
    split
    · cases f.schedulers[i]? <;> rfl
    · simp
  unfold driveOn
  cases d.trigger.next? d.awaited f.world.now with
  | none => exact hannounce none
  | some next =>
    simp only
    split
    · exact hannounce (some next)
    · exact hannounce (some next)

end

section

variable {f g : Fleet FaultyStore} {o : Occurrence} {i m : Nat} {t : Task}
    {d : Driver} {e e' : Entry}

/-! ## Any occurrence -/

/-- What an occurrence does to what the entries of a scheduler show. -/
inductive Announced (i : Nat) (f : Fleet FaultyStore) (o : Occurrence)
    (g : Fleet FaultyStore) : Prop
  /-- No driver of the scheduler asks its trigger: one that has its turn was told to stop, or cannot
      read its job. -/
  | silent (hsilent : Silent i f g)
    (hquiet : ∀ m d, o.plain = .turn m → f.Does m (.drive d) → d.scheduler = i →
      g.Does m (.drive d) ∨ d.stopping = true ∨
      (d.awaited = none ∧ Run.unreadable d.job f.world = true))
  /-- A driver of the scheduler asks its trigger, announces the answer and goes on with it. -/
  | announces {m : Nat} {d : Driver} (ho : o.plain = .turn m) (hdoes : f.Does m (.drive d))
    (hi : d.scheduler = i)
      (hdue : d.awaited ≠ none → d.stopping = true → d.IsDue f.world)
      (hrest : ∀ a, g.Does m a ↔ d.rest f.world.now = some a)
      (hentries : g.entriesOf i =
        Entry.announce d.serial (d.trigger.next? d.awaited f.world.now) (f.entriesOf i))

/-- What is silent and not a turn announces nothing. -/
theorem announced_of_request (hsilent : Silent i f g) (hnot : ∀ m, o.plain ≠ .turn m) :
    Announced i f o g :=
  .silent hsilent fun m _ ho => absurd ho (hnot m)

/-- Of a task that is not a driver nothing is announced. -/
theorem announced_of_other (hs : f.Sound) (ho : o.plain = .turn t.number) (ht : t ∈ f.tasks)
    (hother : ∀ d, t.activity ≠ .drive d) (hentries : g.entriesOf i = f.entriesOf i) :
    Announced i f o g := by
  refine .silent (silent_of_entries hentries) ?_
  intro m d hm hd
  have hm : t.number = m := by
    rw [ho] at hm
    injection hm
  subst hm
  exact absurd (hs.does_unique (does_of_mem ht) hd) (hother d)

/-- A driver goes on, in a fleet that may have one more tick. -/
theorem announced_driveOn (hs : f.Sound) (ho : o.plain = .turn t.number)
    (hdoes : f.Does t.number (.drive d))
    (hdue : d.awaited ≠ none → d.stopping = true → d.IsDue f.world)
    (hentries : ∀ i, g.entriesOf i = f.entriesOf i) (hnow : g.world.now = f.world.now)
    (hrest : ∀ a, (g.driveOn t d).Does t.number a ↔ d.rest f.world.now = some a) :
    Announced i f o (g.driveOn t d) := by
  have hdriven := entriesOf_driveOn (f := g) (i := i) t d
  rw [hentries, hnow] at hdriven
  by_cases hi : d.scheduler = i
  · rw [if_pos hi] at hdriven
    exact .announces ho hdoes hi hdue hrest hdriven
  · -- it is a driver of another scheduler
    rw [if_neg hi] at hdriven
    refine .silent (silent_of_entries hdriven) ?_
    intro m d' hm hd' hi'
    rw [ho] at hm
    injection hm with hm
    subst hm
    cases hs.does_unique hdoes hd'
    exact absurd hi' hi

/-- A driver fires and goes on. -/
theorem announced_startTick (hs : f.Sound) (ho : o.plain = .turn t.number)
    (hdoes : f.Does t.number (.drive d))
    (hdue : d.awaited ≠ none → d.stopping = true → d.IsDue f.world) :
    Announced i f o ((f.startTick d.scheduler d.job).driveOn t d) := by
  cases hsched : f.schedulers[d.scheduler]? with
  | none =>
    rw [startTick_of_none hsched]
    refine announced_driveOn hs ho hdoes hdue (fun _ => rfl) rfl ?_
    intro a
    rw [(acts_driveOn t d).does]
    simp
  | some s =>
    have hbelow := hs.lt_of_does hdoes
    refine announced_driveOn hs ho hdoes hdue (fun _ => entriesOf_startTick _ _)
      (spawns_startTick hsched d.job).world.now ?_
    intro a
    rw [(fires_driveOn hsched hbelow).does]
    have hne : t.number ≠ f.nextNumber := Nat.ne_of_lt hbelow
    simp [hne]

/-- The turn of a driver announces to its own entry what its trigger answers. -/
theorem announced_stepDriver (hs : f.Sound) (ho : o.plain = .turn t.number)
    (hdoes : f.Does t.number (.drive d)) :
    Announced i f o (f.stepDriver t d) := by
  -- what is left of a driver that does not ask its trigger
  have hsilent : ∀ g : Fleet FaultyStore, g.entriesOf i = f.entriesOf i →
      (d.stopping = true ∨ (d.awaited = none ∧ Run.unreadable d.job f.world = true)) →
      Announced i f o g := by
    intro g hentries hor
    refine .silent (silent_of_entries hentries) ?_
    intro m d' hm hd' _
    rw [ho] at hm
    injection hm with hm
    subst hm
    cases hs.does_unique hdoes hd'
    exact .inr hor
  unfold stepDriver
  cases hawaited : d.awaited with
  | none =>
    simp only
    split
    · rename_i hread
      exact hsilent _ rfl (.inr ⟨hawaited, hread⟩)
    · refine announced_driveOn hs ho hdoes (fun hsome => absurd hawaited hsome)
        (fun _ => rfl) rfl ?_
      intro a
      rw [(acts_driveOn t d).does]
      simp
  | some x =>
    simp only
    split
    · rename_i hstopping
      exact hsilent _ rfl (.inl hstopping)
    · rename_i hgoes
      exact announced_startTick hs ho hdoes (fun _ hstopping => absurd hstopping hgoes)

/-- Among turns only those of drivers announce anything. -/
theorem announced_advance (hs : f.Sound) (ho : o.plain = .turn m) :
    Announced i f o (f.advance m) := by
  unfold advance
  cases hfound : f.task? m with
  | none => exact .silent (silent_of_entries rfl) fun _ _ _ hd _ => .inl hd
  | some t =>
    obtain ⟨ht, rfl⟩ := task?_eq_some hfound
    have hdoes := does_of_mem ht
    cases hactivity : t.activity with
    | drive d =>
      simp only [hactivity, stepTask]
      exact announced_stepDriver hs ho (hactivity ▸ hdoes)
    | drain d =>
      simp only [hactivity, stepTask]
      exact announced_of_other hs ho ht (by simp [hactivity]) (entriesOf_stepDrain t d)
    | run j r c =>
      simp only [hactivity]
      exact announced_of_other hs ho ht (by simp [hactivity]) (entriesOf_afterRun c _)
    -- nobody takes a lock without a run
    | acquire a => exact absurd hactivity (hs.plain t ht a)

/-- A driver that fires although it was told to stop announces its next fire time, and ends. -/
theorem announced_race (hs : f.Sound) (m : Nat) : Announced i f (.race m) (f.race m) := by
  -- nothing occurs
  have hsame : Announced i f (.race m) f :=
    .silent (silent_of_entries rfl) fun _ _ _ hd _ => .inl hd
  unfold race
  cases hfound : f.task? m with
  | none => exact hsame
  | some t =>
    obtain ⟨ht, rfl⟩ := task?_eq_some hfound
    have hdoes := does_of_mem ht
    cases hactivity : t.activity with
    | drive d =>
      simp only [hactivity]
      split
      · rename_i hrace
        exact announced_startTick hs rfl (hactivity ▸ hdoes) (fun _ _ => hrace.2)
      · exact hsame
    | _ =>
      simp only [hactivity]
      exact hsame

/-- A shutdown takes the drivers of its entries away, and has its first turn. -/
theorem silent_shutdown (hs : f.Sound) (i j : Nat) (waits foreground : Bool) :
    Silent i f (f.shutdown j waits foreground).2 := by
  by_cases hruns : f.isRunning j = true
  · have hmid := sound_halted hs j waits foreground
    have hshutdown : (f.shutdown j waits foreground).2 =
        (f.halted j waits foreground).step f.nextNumber := by
      unfold shutdown
      rw [if_neg (by simp [hruns])]
      rfl
    obtain ⟨t, ht, hnumber, hactivity⟩ :=
      ((tells_halted hruns waits foreground).does f.nextNumber _).2 (.inr ⟨rfl, rfl⟩)
    have hstep : (f.halted j waits foreground).step f.nextNumber =
        (f.halted j waits foreground).stepDrain t ⟨j, waits, .drivers (f.driversOf j)⟩ := by
      unfold step
      rw [← hnumber, hmid.task?_eq ht]
      simp only [stepTask, hactivity]
    have hhalted : Silent i f (f.halted j waits foreground) := by
      refine silent_of_modify (j := j) rfl ?_
      intro s _ e' he'
      obtain ⟨e, he, rfl⟩ := List.mem_map.1 he'
      exact .stays he rfl rfl fun h => h
    rw [hshutdown, hstep]
    intro e' he'
    rw [entriesOf_stepDrain] at he'
    exact hhalted e' he'
  · unfold shutdown
    rw [if_pos (by simpa using hruns)]
    exact silent_of_entries rfl

/-- **Announcements.** Only a driver that asks its trigger changes what an entry shows into a fire
    time. -/
theorem announced_occur (hs : f.Sound) (o : Occurrence) (i : Nat) :
    Announced i f o (f.occur o) := by
  cases o with
  | race number => exact announced_race hs number
  | move move honest =>
    cases move with
    | turn number => exact announced_advance hs rfl
    | pass moment => exact announced_of_request (silent_of_entries rfl) nofun
    | fail operations => exact announced_of_request (silent_of_entries rfl) nofun
    | request j id kind caller foreground =>
      refine announced_of_request (silent_of_entries ?_) nofun
      show (f.request j id kind caller foreground).entriesOf i = _
      unfold request
      split <;> rfl
    | register j job =>
      exact announced_of_request (silent_of_enters (mem_entriesOf_register i j job)) nofun
    | registerAll j jobs =>
      exact announced_of_request (silent_of_enters (mem_entriesOf_registerAll i j jobs)) nofun
    | pause j id => exact announced_of_request (silent_pause i j id) nofun
    | resume j id => exact announced_of_request (silent_resume i j id) nofun
    | remove j id => exact announced_of_request (silent_remove i j id) nofun
    | start j => exact announced_of_request (silent_start i j) nofun
    | shutdown j waits foreground =>
      exact announced_of_request (silent_shutdown hs i j waits foreground) nofun

/-! ## Serial numbers -/

/-- An entry was there, as it was entered, or it is new. -/
theorem Announced.origin (h : Announced i f o g) (he' : e' ∈ g.entriesOf i) :
    (∃ e ∈ f.entriesOf i, e'.bare = e.bare) ∨ f.nextNumber ≤ e'.serial := by
  cases h with
  | silent hsilent =>
    cases hsilent e' he' with
    | stays he hbare => exact .inl ⟨_, he, hbare⟩
    | clears he hbare => exact .inl ⟨_, he, hbare⟩
    | enters hnew => exact .inr hnew
  | announces _ _ _ _ _ hentries =>
    rw [hentries] at he'
    obtain ⟨e, he, rfl⟩ := List.mem_map.1 he'
    refine .inl ⟨e, he, ?_⟩
    split <;> rfl

end

/-- A serial number stands for one declaration for ever. -/
theorem bare_through {f : Fleet FaultyStore} (hpristine : f.Pristine) {i : Nat}
    {first : List Occurrence} {e : Entry} (he : e ∈ (f.through first).registry i)
    {last : List Occurrence} (hle : first <+: last) {e' : Entry}
    (he' : e' ∈ (f.through last).registry i) (hserial : e'.serial = e.serial) :
    e'.bare = e.bare := by
  have hall : ∀ point, first <+: point → point <+: last → e.serial < (f.through point).nextNumber ∧
      ∀ e' ∈ (f.through point).registry i, e'.serial = e.serial → e'.bare = e.bare := by
    refine prefix_induction_from ?_ ?_
    · have hw := wired_through hpristine first
      refine ⟨hw.below i e he, ?_⟩
      intro e' he' hserial
      rw [hw.serials i e' he' e he hserial]
    · intro point o _ _ ih
      obtain ⟨hbelow, hsame⟩ := ih
      have hs := sound_through hpristine.sound point
      rw [through_concat]
      refine ⟨Nat.lt_of_lt_of_le hbelow (occur_happens hs o).nextNumber, ?_⟩
      intro e' he' hserial
      obtain ⟨e₁, he₁, rfl⟩ := Entry.mem_map_plain.1 he'
      have hserial : e₁.serial = e.serial := hserial
      obtain ⟨e₀, he₀, hbare⟩ | hnew := (announced_occur hs o i).origin he₁
      · exact hbare.trans (hsame e₀.plain (List.mem_map_of_mem he₀)
          ((Entry.serial_of_bare hbare).symm.trans hserial))
      · -- a number that is given out now is not that of an entry from before
        omega
  exact (hall last hle List.prefix_rfl).2 e' he' hserial

end Fleet

end JobFleet
