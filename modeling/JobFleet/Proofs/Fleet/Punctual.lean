/-
  JobFleet.Proofs.Fleet.Punctual: moves that are made in time.

  A row of moves is punctual if a task only goes on when its time has come, and time passes only
  while no task can go on, up to the first moment at which one wakes.  The machine itself takes
  turns in this way.  What a run waits for is then also when it goes on: `OnTime` is what each phase
  of a run says about now, and every punctual move keeps it.

  Main results:
    * `prompt_next`, `prompt_nextMoment` — the turns and the waits of the machine are made in time.
    * `onTime_happens` — a move that is made in time keeps the runs under a key on time.
    * `Regular.leased` — with punctual moves every run under a key has its lock in time, so the
      store knows it.
    * `fires_at_momentOf` — a driver fires for an instant at the moment at which the instant comes.
-/
import JobFleet.Proofs.Fleet.Exclusion
import JobFleet.Proofs.Schedule.Ahead

namespace JobFleet

/-! ## Punctual moves -/

/-- A task in this state neither goes on now nor wakes before a moment. -/
def TaskState.RestsUntil (s : TaskState) (moment : Nat) : Prop :=
  match s with
  | .due => False
  | .ready => False
  | .sleeping wake => moment ≤ wake
  | .blocked => True

instance (s : TaskState) (moment : Nat) : Decidable (s.RestsUntil moment) :=
  match s with
  | .due => .isFalse id
  | .ready => .isFalse id
  | .sleeping wake => inferInstanceAs (Decidable (moment ≤ wake))
  | .blocked => .isTrue trivial

namespace Fleet

variable {f g : Fleet FaultyStore} {m : Move} {moves before : List Move} {key : String}
    {patience : Nat} {t : Task}
  {r r' : Run}

/-- A move is made in time: a turn of a task that can go on, or a wait while none can. -/
def Prompt (f : Fleet FaultyStore) : Move → Prop
  | .turn number => ∀ t ∈ f.tasks, t.number = number → Task.isReady t = true
  | .pass moment => ∀ t ∈ f.tasks, t.state.RestsUntil moment
  | _ => True

instance decidablePrompt : DecidablePred f.Prompt
  | .turn number =>
    inferInstanceAs (Decidable (∀ t ∈ f.tasks, t.number = number → Task.isReady t = true))
  | .pass moment => inferInstanceAs (Decidable (∀ t ∈ f.tasks, t.state.RestsUntil moment))
  | .fail _ | .register _ _ | .registerAll _ _ | .start _ | .shutdown _ _ _ | .pause _ _ | .resume
    _ _ | .remove _ _
  | .request _ _ _ _ _ => .isTrue trivial

/-- Every move of a row is made in time. -/
def Punctual (f : Fleet FaultyStore) : List Move → Prop
  | [] => True
  | m :: rest => f.Prompt m ∧ (f.make m).Punctual rest

instance decidablePunctual : (f : Fleet FaultyStore) → DecidablePred f.Punctual
  | _, [] => .isTrue trivial
  | f, m :: rest =>
    haveI := decidablePunctual (f.make m) rest
    inferInstanceAs (Decidable (f.Prompt m ∧ (f.make m).Punctual rest))

/-- Every move of a punctual row is made in time. -/
theorem Punctual.prompt (h : f.Punctual moves) (hpre : before ++ [m] <+: moves) :
    (f.after before).Prompt m := by
  induction before generalizing f moves with
  | nil =>
    obtain ⟨rest, rfl⟩ := hpre
    exact h.1
  | cons m₀ before ih =>
    obtain ⟨rest, rfl⟩ := hpre
    exact ih h.2 (List.prefix_append _ rest)

/-- The task whose turn it is can go on. -/
theorem exists_ready_of_next {number : Nat} (h : f.next? = some number) :
    ∃ t ∈ f.tasks, t.number = number ∧ Task.isReady t = true := by
  unfold next? at h
  cases hmin : ((f.tasks.filter fun t => t.foreground && t.state = .due).map (·.number)).min? with
  | some found =>
    simp only [hmin, Option.some.injEq] at h
    subst h
    obtain ⟨t, ht, hnumber⟩ := List.mem_map.1 (List.min?_mem hmin)
    obtain ⟨hmem, hdue⟩ := List.mem_filter.1 ht
    have hstate : t.state = .due := by simpa using (Bool.and_eq_true_iff.1 hdue).2
    refine ⟨t, hmem, hnumber, ?_⟩
    unfold Task.isReady
    rw [hstate]
    rfl
  | none =>
    cases hfind : f.tasks.find? (fun t => !t.foreground && Task.isReady t) with
    | some t =>
      simp only [hmin, hfind, Option.some.injEq] at h
      have hready := List.find?_some hfind
      exact ⟨t, List.mem_of_find?_eq_some hfind, h, (Bool.and_eq_true_iff.1 hready).2⟩
    | none =>
      simp only [hmin, hfind] at h
      obtain ⟨t, hfound, hnumber⟩ := Option.map_eq_some_iff.1 h
      exact ⟨t, List.mem_of_find?_eq_some hfound, hnumber, List.find?_some hfound⟩

/-- Without a turn to take no task can go on. -/
theorem not_ready_of_next (h : f.next? = none) : ∀ t ∈ f.tasks, Task.isReady t = false := by
  unfold next? at h
  cases hmin : ((f.tasks.filter fun t => t.foreground && t.state = .due).map (·.number)).min? with
  | some found =>
    simp only [hmin] at h
    cases h
  | none =>
    cases hfind : f.tasks.find? (fun t => !t.foreground && Task.isReady t) with
    | some t =>
      simp only [hmin, hfind] at h
      cases h
    | none =>
      simp only [hmin, hfind] at h
      have hnone := List.find?_eq_none.1 (Option.map_eq_none_iff.1 h)
      exact fun t ht => by simpa using hnone t ht

/-- The turn that the machine takes is made in time. -/
theorem prompt_next (hs : f.Sound) {number : Nat} (h : f.next? = some number) :
    f.Prompt (.turn number) := by
  obtain ⟨t, ht, hnumber, hready⟩ := exists_ready_of_next h
  intro t' ht' hnumber'
  rw [hs.task_unique ht' ht (hnumber'.trans hnumber.symm)]
  exact hready

/-- Without a turn to take, the machine waits in time until the first task wakes. -/
theorem prompt_nextMoment (h : f.next? = none) {moment : Nat}
    (hmoment : f.nextMoment? = some moment) :
    f.Prompt (.pass moment) := by
  intro t ht
  cases hstate : t.state with
  | due | ready =>
    have hnot := not_ready_of_next h t ht
    unfold Task.isReady at hnot
    rw [hstate] at hnot
    cases hnot
  | blocked => trivial
  | sleeping wake =>
    unfold nextMoment? at hmoment
    refine (List.min?_eq_some_iff.1 hmoment).2 wake (List.mem_filterMap.2 ⟨t, ht, ?_⟩)
    rw [hstate]

end Fleet

/-! ## Runs on time -/

/-- A task in this state goes on at a moment from the first on and before the last. -/
def TaskState.Within (s : TaskState) (now first last : Nat) : Prop :=
  match s with
  | .due => first ≤ now ∧ now < last
  | .ready => first ≤ now ∧ now < last
  | .sleeping wake => now ≤ wake ∧ first ≤ wake ∧ wake < last
  | .blocked => False

/-- A task that is ready now is within bounds that have begun and not ended. -/
theorem TaskState.Within.of_ready {t : Task} {now first last : Nat}
    (h : t.state.Within now first last) (hready : Fleet.Task.isReady t = true) :
    first ≤ now ∧ now < last := by
  unfold Fleet.Task.isReady at hready
  cases hstate : t.state with
  | due | ready =>
    rw [hstate] at h
    exact h
  | sleeping wake | blocked =>
    rw [hstate] at hready
    cases hready

theorem TaskState.Within.lt {s : TaskState} {now first last : Nat}
    (h : s.Within now first last) : now < last := by
  cases s with
  | due | ready => exact h.2
  | sleeping wake => exact Nat.lt_of_le_of_lt h.1 h.2.2
  | blocked => exact absurd h id

/-- A task that sleeps is woken at its moment, neither before nor after. -/
theorem TaskState.Within.pass {s s' : TaskState} {now first last moment : Nat}
    (h : s.Within now first last) (hrests : s.RestsUntil moment)
    (hstate : s' = s ∨ ∃ wake, s = .sleeping wake ∧ wake ≤ moment ∧ s' = .due) :
    s'.Within (max now moment) first last := by
  cases s with
  | due | ready => exact absurd hrests id
  | blocked => exact absurd h id
  | sleeping wake =>
    obtain ⟨hnow, hfirst, hlast⟩ := h
    have hrests : moment ≤ wake := hrests
    rcases hstate with rfl | ⟨wake', hwake, hle, rfl⟩
    · exact ⟨Nat.max_le.2 ⟨hnow, hrests⟩, hfirst, hlast⟩
    · cases hwake
      -- time passes to the very moment at which the task wakes
      have hmax : max now moment = wake := by omega
      rw [hmax]
      exact ⟨hfirst, hlast⟩

/-- Where a run under its lock is in time, if it began at a moment: it asks until its patience ends,
    its body begins as soon as it has the lock and lasts longer than the patience, and it gives the
    lock back as soon as the body has ended. -/
def Run.OnTime (r : Run) (patience birth now : Nat) (s : TaskState) : Prop :=
  match r.phase with
  | .entering => s.Within now birth (birth + 1)
  | .polling deadline _ => (∀ last, deadline = some last → last ≤ birth + patience) ∧
      s.Within now birth (birth + patience + 1)
  | .holding since => birth ≤ since ∧ since ≤ birth + patience ∧ s.Within now since (since + 1)
  | .executing since _ => birth ≤ since ∧ since ≤ birth + patience ∧
      s.Within now (since + patience + 1) (r.leaseEnd since)
  | .releasing since result => birth ≤ since ∧ since ≤ birth + patience ∧
      s.Within now (if result.isSome then since + patience + 1 else since) (r.leaseEnd since)

/-- A lease lasts. -/
theorem Run.lt_leaseEnd (r : Run) (since : Nat) : since < r.leaseEnd since := by
  have hpos : 1 ≤ Lock.wholeSeconds (r.guard.ttlOf r.job) := Nat.le_max_right _ _
  unfold Run.leaseEnd
  omega

namespace Run.OnTime

variable {r r' : Run} {patience birth now : Nat} {s : TaskState}

/-- A run that asks has not run out of patience. -/
theorem asks_le {t : Task} (h : r.OnTime patience birth now t.state)
    (hready : Fleet.Task.isReady t = true) (hsince : r.phase.since? = none) :
    birth ≤ now ∧ now ≤ birth + patience := by
  unfold Run.OnTime at h
  cases hphase : r.phase with
  | entering =>
    rw [hphase] at h
    have := TaskState.Within.of_ready h hready
    omega
  | polling deadline attempts =>
    rw [hphase] at h
    have := TaskState.Within.of_ready h.2 hready
    omega
  | _ =>
    rw [hphase] at hsince
    cases hsince

/-- A run without its lock, or one whose body has not begun, is still within its patience. -/
theorem le_patience (h : r.OnTime patience birth now s)
    (hphase : r.phase.since? = none ∨ ∃ since, r.phase = .holding since) :
    now ≤ birth + patience := by
  unfold Run.OnTime at h
  rcases hphase with hsince | ⟨since, hholding⟩
  · cases hphase : r.phase with
    | entering =>
      rw [hphase] at h
      have := TaskState.Within.lt h
      omega
    | polling deadline attempts =>
      rw [hphase] at h
      have := TaskState.Within.lt h.2
      omega
    | _ =>
      rw [hphase] at hsince
      cases hsince
  · rw [hholding] at h
    have := TaskState.Within.lt h.2.2
    omega

/-- A run takes its lock within its patience, and has it in time. -/
theorem holds (h : r.OnTime patience birth now s) {since : Nat}
    (hsince : r.phase.since? = some since) :
    birth ≤ since ∧ since ≤ birth + patience ∧ now < r.leaseEnd since := by
  have hlease := r.lt_leaseEnd since
  unfold Run.OnTime at h
  cases hphase : r.phase with
  | holding a =>
    rw [hphase] at h hsince
    cases hsince
    have := TaskState.Within.lt h.2.2
    exact ⟨h.1, h.2.1, by omega⟩
  | executing a x =>
    rw [hphase] at h hsince
    cases hsince
    exact ⟨h.1, h.2.1, TaskState.Within.lt h.2.2⟩
  | releasing a result =>
    rw [hphase] at h hsince
    cases hsince
    exact ⟨h.1, h.2.1, TaskState.Within.lt h.2.2⟩
  | _ =>
    rw [hphase] at hsince
    cases hsince

/-- A lock whose body has run is given back after the patience of everyone who asked when its run
    did. -/
theorem patience_lt {t : Task} (h : r.OnTime patience birth now t.state)
    (hready : Fleet.Task.isReady t = true) {since : Nat} {result : RunResult}
    (hphase : r.phase = .releasing since (some result)) :
    birth + patience < now := by
  unfold Run.OnTime at h
  rw [hphase] at h
  have := TaskState.Within.of_ready h.2.2 hready
  have := h.1
  simp only [Option.isSome_some, if_true] at *
  omega

/-- Time that passes up to the first wake keeps a run on time. -/
theorem pass {moment : Nat} {s' : TaskState} (h : r.OnTime patience birth now s)
    (hrests : s.RestsUntil moment)
    (hstate : s' = s ∨ ∃ wake, s = .sleeping wake ∧ wake ≤ moment ∧ s' = .due) :
    r.OnTime patience birth (max now moment) s' := by
  unfold Run.OnTime at h ⊢
  cases hphase : r.phase with
  | entering =>
    rw [hphase] at h
    exact TaskState.Within.pass h hrests hstate
  | polling deadline attempts =>
    rw [hphase] at h
    exact ⟨h.1, TaskState.Within.pass h.2 hrests hstate⟩
  | holding since | executing since x | releasing since result =>
    rw [hphase] at h
    exact ⟨h.1, h.2.1, TaskState.Within.pass h.2.2 hrests hstate⟩

end Run.OnTime

/-! ## One move -/

/-- The deadline of a run that asks ends with its patience. -/
theorem Run.OnTime.deadline_le {r : Run} {w : World FaultyStore} {t : Task}
    {patience birth attempt : Nat} {deadline : Option Nat}
    (h : r.OnTime patience birth w.elapsed t.state) (hready : Fleet.Task.isReady t = true)
    (hasks : r.Asks w deadline attempt)
    (hpatience : ∀ timeout, r.guard.acquireTimeout = some timeout → timeout ≤ patience) :
    ∀ last, deadline = some last → last ≤ birth + patience := by
  intro last hdeadline
  unfold Run.OnTime at h
  rcases hasks with ⟨hphase, -, hfirst, -⟩ | ⟨attempts, hphase, -⟩
  · rw [hphase] at h
    have hnow := TaskState.Within.of_ready h hready
    obtain ⟨length, hlength, rfl⟩ := Lock.deadline?_eq_some (hfirst ▸ hdeadline)
    have hlimit := hpatience length hlength
    omega
  · rw [hphase] at h
    exact h.1 last hdeadline

/-- The body begins at the moment at which the lock was taken. -/
theorem Run.OnTime.eq_since {r : Run} {t : Task} {patience birth now since : Nat}
    (h : r.OnTime patience birth now t.state) (hready : Fleet.Task.isReady t = true)
    (hphase : r.phase = .holding since) :
    birth ≤ since ∧ since ≤ birth + patience ∧ now = since := by
  unfold Run.OnTime at h
  rw [hphase] at h
  have hnow := TaskState.Within.of_ready h.2.2 hready
  exact ⟨h.1, h.2.1, by omega⟩

/-- A piece of a run that can go on keeps it on time, if the body that begins lasts longer than the
    patience and ends before the lease. -/
theorem Run.Advances.onTime {r r' : Run} {w w' : World FaultyStore} {p : Progress}
    {s : TaskState} {t : Task} {patience birth : Nat} (h : r.Advances w p w')
    (hrun : p.run? = some r') (hstate : p.state? = some s) (hready : Fleet.Task.isReady t = true)
    (hontime : r.OnTime patience birth w.elapsed t.state)
    (hpatience : ∀ timeout, r.guard.acquireTimeout = some timeout → timeout ≤ patience)
    (hbody : ∀ since x, r'.phase = .executing since x → patience < x.sleep ∧
      since + x.sleep < r'.leaseEnd since) :
    r'.OnTime patience birth w.elapsed s := by
  cases h with
  | panicked | skipped | released => cases hrun
  | took hasks =>
    cases hrun
    cases hstate
    obtain ⟨hbirth, hlimit⟩ := hontime.asks_le hready hasks.since?
    exact ⟨hbirth, hlimit, Nat.le_refl _, Nat.lt_succ_self _⟩
  | polled hasks _ hretry =>
    cases hrun
    cases hstate
    obtain ⟨hbirth, -⟩ := hontime.asks_le hready hasks.since?
    -- another attempt is only made by the deadline
    have hlast := hontime.deadline_le hready hasks hpatience
    obtain ⟨last, hdeadline, rfl, hle⟩ := Lock.retryAt?_eq_some hretry
    have hlimit := hlast last hdeadline
    refine ⟨hlast, ?_⟩
    show w.elapsed ≤ _ ∧ birth ≤ _ ∧ _ < birth + patience + 1
    omega
  | @broke since hphase =>
    cases hrun
    cases hstate
    obtain ⟨hbirth, hlimit, hnow⟩ := hontime.eq_since hready hphase
    refine ⟨hbirth, hlimit, ?_⟩
    rw [hnow]
    exact ⟨Nat.le_refl _, Run.lt_leaseEnd _ since⟩
  | @began since x w' hphase _ _ =>
    rw [run?_began] at hrun
    cases hrun
    obtain ⟨hlong, hshort⟩ := hbody since x rfl
    -- a body that outlasts the patience takes time, so the run sleeps until the body ends
    rw [if_pos (Nat.lt_of_le_of_lt (Nat.zero_le _) hlong)] at hstate
    cases hstate
    obtain ⟨hbirth, hlimit, hnow⟩ := hontime.eq_since hready hphase
    refine ⟨hbirth, hlimit, ?_⟩
    show w.elapsed ≤ w.elapsed + x.sleep ∧ since + patience + 1 ≤ w.elapsed + x.sleep ∧
      w.elapsed + x.sleep < Run.leaseEnd { r with phase := .executing since x } since
    rw [hnow]
    exact ⟨Nat.le_add_right _ _, by omega, hshort⟩
  | @finished since x hphase =>
    cases hrun
    cases hstate
    unfold Run.OnTime at hontime
    rw [hphase] at hontime
    exact ⟨hontime.1, hontime.2.1, TaskState.Within.of_ready hontime.2.2 hready⟩

/-- The body that runs in a phase. -/
def RunPhase.execution? : RunPhase → Option Execution
  | .executing _ x => some x
  | _ => none

/-- An execution is that of a run whose body runs. -/
theorem RunPhase.execution?_eq_some {phase : RunPhase} {x : Execution} :
    phase.execution? = some x ↔ ∃ since, phase = .executing since x := by
  cases phase <;> simp [execution?]

namespace Fleet

/-- Nobody in the fleet waits longer for a lock. -/
def Patient (f : Fleet FaultyStore) (patience : Nat) : Prop :=
  ∀ g ∈ f.guards, ∀ timeout, g.acquireTimeout = some timeout → timeout ≤ patience

/-- A body that runs under a key lasts longer than the patience of the fleet, and ends before its
    lease does. -/
def Lasting (f : Fleet FaultyStore) (key : String) (patience : Nat) : Prop :=
  ∀ t r x, f.Executes t r x → r.key = key → patience < x.sleep ∧
    x.sleep < 1000 * Lock.wholeSeconds (r.guard.ttlOf r.job)

variable {f g : Fleet FaultyStore} {m : Move} {key : String} {patience : Nat} {t : Task} {r : Run}

theorem lasting_iff : f.Lasting key patience ↔
    ∀ t ∈ f.tasks, ∀ r ∈ t.run?, ∀ x ∈ r.phase.execution?, r.key = key →
    patience < x.sleep ∧ x.sleep < 1000 * Lock.wholeSeconds (r.guard.ttlOf r.job) := by
  constructor
  · exact fun h t ht r hr x hx => h t r x ⟨ht, hr, RunPhase.execution?_eq_some.1 hx⟩
  · exact fun h t r x hx => h t hx.mem r hx.run x (RunPhase.execution?_eq_some.2 hx.phase)

instance : Decidable (f.Lasting key patience) := decidable_of_iff' _ lasting_iff

/-- A run after a move that is made in time is new and began now, or it was there, and is on time if
    it was before. -/
theorem onTime_happens (hs : f.Sound) (hpatient : f.Patient patience) (hprompt : f.Prompt m)
    (h : f.Happens m g) (hlasting : g.Lasting key patience) (ht : t ∈ g.tasks)
    (hrun : t.run? = some r) (hkey : r.key = key) :
    (f.nextNumber ≤ t.number ∧ r.OnTime patience f.world.elapsed g.world.elapsed t.state) ∨
      ∃ t₀ ∈ f.tasks, ∃ r₀, t₀.number = t.number ∧ t₀.run? = some r₀ ∧ r₀.key = key ∧
        ∀ birth, r₀.OnTime patience birth f.world.elapsed t₀.state →
          r.OnTime patience birth g.world.elapsed t.state := by
  cases h with
  | calm h =>
    rw [h.still.elapsed]
    rcases h.adds t ht r hrun with hold | ⟨hnew, hstate, hphase⟩
    · exact .inr ⟨t, hold, r, rfl, hrun, hkey, fun birth hontime => hontime⟩
    · refine .inl ⟨hnew, ?_⟩
      unfold Run.OnTime
      rw [hstate, hphase]
      exact ⟨Nat.le_refl _, Nat.lt_succ_self _⟩
  | passed moment =>
    obtain ⟨t₀, hold, hnumber, hactivity, hstate⟩ := mem_passTo ht
    refine .inr ⟨t₀, hold, r, hnumber.symm, ?_, hkey,
      fun birth hontime => hontime.pass (hprompt t₀ hold) hstate⟩
    rw [← Task.run?_congr hactivity]
    exact hrun
  | failed operations => exact .inr ⟨t, ht, r, rfl, hrun, hkey, fun birth hontime => hontime⟩
  | @piece t₀ i r₀ c p w ht₀ hactivity hadvances =>
    have helapsed : (f.afterRun t₀ i c (p, w)).world.elapsed = f.world.elapsed := by
      rw [(still_afterRun hs).elapsed, hadvances.clock.1]
    rw [helapsed]
    -- the runs that did not move are as they were
    rcases mem_afterRun hs ht hrun with ⟨hold, -⟩ | ⟨hnumber, hrest, hstate⟩
    · exact .inr ⟨t, hold, r, rfl, hrun, hkey, fun birth hontime => hontime⟩
    · have hsame := hadvances.same hrest
      have hrun₀ : t₀.run? = some r₀ := Task.run?_of_activity hactivity
      refine .inr ⟨t₀, ht₀, r₀, hnumber.symm, hrun₀, hsame.key ▸ hkey, ?_⟩
      intro birth hontime
      refine hadvances.onTime hrest hstate (hprompt t₀ ht₀ rfl) hontime ?_ ?_
      · exact hpatient r₀.guard (hs.guarded t₀ ht₀ r₀ hrun₀)
      · intro since x hphase
        obtain ⟨hlong, hshort⟩ := hlasting t r x ⟨ht, hrun, since, hphase⟩ hkey
        exact ⟨hlong, Nat.add_lt_add_left hshort since⟩

/-! ## Any punctual moves -/

variable {moves : List Move}

/-- Locks are waited for as long as at the beginning. -/
theorem patient_after (hs : f.Sound) (h : f.Patient patience) (moves : List Move) :
    (f.after moves).Patient patience := by
  unfold Patient
  rw [guards_after hs]
  exact h

/-- Punctual moves of a fleet whose bodies under a key outlast everyone's patience, but not their
    leases. -/
structure Regular (f : Fleet FaultyStore) (moves : List Move) (key : String)
    (patience : Nat) : Prop where
  fresh : f.Fresh
  punctual : f.Punctual moves
  patient : f.Patient patience
  lasting : ∀ before, before <+: moves → (f.after before).Lasting key patience

/-- Every run under a key is on time, for some beginning. -/
def AllOnTime (f : Fleet FaultyStore) (key : String) (patience : Nat) : Prop :=
  ∀ t ∈ f.tasks, ∀ r, t.run? = some r → r.key = key →
    ∃ birth, r.OnTime patience birth f.world.elapsed t.state

/-- A run that is on time has its lock in time. -/
theorem AllOnTime.heldInTime (h : f.AllOnTime key patience) : f.HeldInTime key := by
  intro t r since hholds hkey
  obtain ⟨birth, hontime⟩ := h t hholds.mem r hholds.run hkey
  exact (hontime.holds hholds.since).2.2

namespace Regular

theorem sound (h : f.Regular moves key patience) (before : List Move) : (f.after before).Sound :=
  sound_after h.fresh.sound before

/-- One more punctual move: a run after it is new and began now, or it was there, and is on time if
    it was before. -/
theorem onTime_concat (h : f.Regular moves key patience) {before : List Move}
    (hpre : before ++ [m] <+: moves) (ht : t ∈ (f.after (before ++ [m])).tasks)
    (hrun : t.run? = some r) (hkey : r.key = key) :
    ((f.after before).nextNumber ≤ t.number ∧ r.OnTime patience (f.after before).world.elapsed
        (f.after (before ++ [m])).world.elapsed t.state) ∨
      ∃ t₀ ∈ (f.after before).tasks, ∃ r₀, t₀.number = t.number ∧ t₀.run? = some r₀ ∧ r₀.key = key ∧
        ∀ birth, r₀.OnTime patience birth (f.after before).world.elapsed t₀.state →
          r.OnTime patience birth (f.after (before ++ [m])).world.elapsed t.state := by
  have hlasts := h.lasting (before ++ [m]) hpre
  rw [after_concat] at ht hlasts ⊢
  exact onTime_happens (h.sound before) (patient_after h.fresh.sound h.patient before)
    (h.punctual.prompt hpre)
    (make_happens (h.sound before) m) hlasts ht hrun hkey

/-- At every point of a regular row every run under the key is on time. -/
theorem allOnTime (h : f.Regular moves key patience) :
    ∀ before, before <+: moves → (f.after before).AllOnTime key patience := by
  refine prefix_induction ?_ ?_
  · intro t ht
    have hnone : t ∈ f.tasks := ht
    rw [h.fresh.tasks] at hnone
    exact absurd hnone List.not_mem_nil
  · intro before m hpre ih t ht r hrun hkey
    rcases h.onTime_concat hpre ht hrun hkey with ⟨-, hnew⟩ | ⟨t₀, hold, r₀, -,
      hrun₀, hkey₀, hkeeps⟩
    · exact ⟨_, hnew⟩
    · obtain ⟨birth, hbirth⟩ := ih t₀ hold r₀ hrun₀ hkey₀
      exact ⟨birth, hkeeps birth hbirth⟩

theorem heldInTime (h : f.Regular moves key patience) {before : List Move}
    (hpre : before <+: moves) :
    (f.after before).HeldInTime key :=
  (h.allOnTime before hpre).heldInTime

theorem leased (h : f.Regular moves key patience) {before : List Move} (hpre : before <+: moves) :
    (f.after before).Leased key :=
  leased_after h.fresh.sound (h.fresh.leased key) (fun _ hbefore =>
    h.heldInTime hbefore) before hpre

end Regular

/-! ## Drivers -/

/-- An instant that has not passed comes at a moment that has not passed. -/
theorem elapsed_le_momentOf {σ : Type} {w : World σ} {instant : Time.Instant}
    (h : w.now ≤ instant) :
    w.elapsed ≤ w.momentOf instant := by
  have h : w.start.nanos + w.elapsed * Time.nanosPerMilli ≤ instant.nanos := h
  unfold World.momentOf
  unfold Time.nanosPerMilli at h ⊢
  omega

/-- A driver whose trigger looks ahead begins to wait for a moment that has not passed. -/
theorem within_of_beginsToWait {σ : Type} {w : World σ} {d : Driver} {instant : Time.Instant}
    (h : t.BeginsToWait d instant w) (hahead : d.trigger.LooksAhead) :
    t.state.Within w.elapsed (w.momentOf instant) (w.momentOf instant + 1) := by
  obtain ⟨previous, hanswer⟩ := h.answer
  rw [h.state]
  exact ⟨elapsed_le_momentOf (hahead previous w.now instant hanswer), Nat.le_refl _,
    Nat.lt_succ_self _⟩

/-- A driver whose trigger looks ahead goes on at its fire time, neither before nor after. -/
def Alert (f : Fleet FaultyStore) : Prop :=
  ∀ t ∈ f.tasks, ∀ d instant, t.Awaits d instant → d.trigger.LooksAhead →
    t.state.Within f.world.elapsed (f.world.momentOf instant) (f.world.momentOf instant + 1)

/-- A move that is made in time keeps the drivers alert. -/
theorem alert_happens (hs : f.Sound) (hprompt : f.Prompt m) (h : f.Happens m g)
    (halert : f.Alert) : g.Alert := by
  intro t ht d instant hd hahead
  cases h with
  | calm h =>
    rw [h.still.elapsed, h.still.momentOf]
    -- nothing that is calm wakes a driver, it can only begin to wait
    rcases h.waits t ht d instant hd with hold | hbegins
    · exact halert t hold d instant hd hahead
    · exact within_of_beginsToWait hbegins hahead
  | passed moment =>
    obtain ⟨t₀, hold, -, hactivity, hstate⟩ := mem_passTo ht
    have hd₀ : t₀.Awaits d instant := ⟨hactivity ▸ hd.activity, hd.awaited, hd.goes⟩
    exact (halert t₀ hold d instant hd₀ hahead).pass (hprompt t₀ hold) hstate
  | failed operations => exact halert t ht d instant hd hahead
  | @piece t₀ i r₀ c p w ht₀ hactivity hadvances =>
    have hstill := still_afterRun (t := t₀) (i := i) (c := c) (p := p) (w := w) hs
    rw [hstill.elapsed, hstill.momentOf]
    rcases waits_afterRun hs ht hd with hold | hbegins
    · have hwithin := halert t hold d instant hd hahead
      rw [hadvances.clock.1]
      unfold World.momentOf at hwithin ⊢
      rw [hadvances.clock.2]
      exact hwithin
    · exact within_of_beginsToWait hbegins hahead

/-- Over a punctual row nobody oversleeps. -/
theorem alert_after (hfresh : f.Fresh) (hpunctual : f.Punctual moves) :
    ∀ before, before <+: moves → (f.after before).Alert := by
  refine prefix_induction ?_ ?_
  · intro t ht
    have hnone : t ∈ f.tasks := ht
    rw [hfresh.tasks] at hnone
    exact absurd hnone List.not_mem_nil
  · intro before m hpre ih
    have hsound := sound_after hfresh.sound before
    rw [after_concat]
    exact alert_happens hsound (hpunctual.prompt hpre) (make_happens hsound m) ih

/-- A driver that fires for an instant does so at the moment at which the instant comes. -/
theorem fires_at_momentOf (hfresh : f.Fresh) (hpunctual : f.Punctual moves) {before : List Move}
    (hpre : before ++ [.turn t.number] <+: moves) (ht : t ∈ (f.after before).tasks) {d : Driver}
    {instant : Time.Instant} (hd : t.Awaits d instant) (hahead : d.trigger.LooksAhead) :
    (f.after before).world.elapsed = f.world.momentOf instant := by
  have hbefore : before <+: moves := (List.prefix_append before _).trans hpre
  have hwithin := alert_after hfresh hpunctual before hbefore t ht d instant hd hahead
  have hready : Task.isReady t = true := hpunctual.prompt hpre t ht rfl
  -- a driver that can go on has its moment now
  have hnow := hwithin.of_ready hready
  have hmoment : (f.after before).world.momentOf instant = f.world.momentOf instant := by
    unfold World.momentOf
    rw [start_after hfresh.sound]
  omega

end Fleet

end JobFleet
