/-
  JobFleet.Proofs.Fleet.FireInstant: ticks for one fire time.

  When a trigger fires, every instance starts a tick at the same moment, and all of them ask for one
  lock.  A lock keeps the others out only while it is held: a body that is over before everyone has
  asked is run again by the next.  So the ticks of a moment need bodies that last longer than anyone
  waits for the lock.  Then the first body ends after the last attempt of the others, and one tick
  runs while the rest are skipped.

  Main results:
    * `begun_after` — a body that has begun keeps its lock until everyone who started with it has
      given up.
    * `taken_later` — so the lock is taken by one of the others only when it is too late for it.
    * `not_both_ran`, `ran_or_missed` — of the runs that start at one moment at most one runs its
      body, and the others are skipped.
    * `FiresFor.startsAt` — the ticks for a fire time start at the moment at which it comes.
    * `once_per_instant` — so of the ticks for a fire time at most one runs its body, and the others
      are skipped.
    * `fast_body_runs_twice` — a body that takes no time is run by both of two instances.
-/
import JobFleet.Proofs.Fleet.Punctual

namespace JobFleet

/-- The body of a run has begun, and its lock has not been given back. -/
def RunPhase.hasBegun : RunPhase → Bool
  | .executing _ _ => true
  | .releasing _ result => result.isSome
  | _ => false

/-- A body only begins with the lock. -/
theorem RunPhase.since?_of_hasBegun {phase : RunPhase} (h : phase.hasBegun = true) :
    ∃ since, phase.since? = some since := by
  cases phase with
  | executing since x | releasing since result => exact ⟨since, rfl⟩
  | _ => cases h

namespace Fleet

variable {f g : Fleet FaultyStore} {m : Move} {moves before : List Move} {key : String}
  {patience moment number number' : Nat} {t : Task} {r r' : Run}

/-! ## Runs in a row of moves -/

/-- A run starts at a moment: a move is made then, and after it the run is there under a new
    number. -/
def StartsAt (f : Fleet FaultyStore) (moves : List Move) (moment number : Nat) (r : Run) : Prop :=
  ∃ before m t, before ++ [m] <+: moves ∧ (f.after before).world.elapsed = moment ∧
    (f.after before).nextNumber ≤ number ∧ t ∈ (f.after (before ++ [m])).tasks ∧
    t.number = number ∧ t.run? = some r

/-- The body of a run runs at some point. -/
def Ran (f : Fleet FaultyStore) (moves : List Move) (number : Nat) : Prop :=
  ∃ before t r x, before <+: moves ∧ (f.after before).Executes t r x ∧ t.number = number

/-- At some point the next piece of a run ends it without its lock. -/
def Missed (f : Fleet FaultyStore) (moves : List Move) (number : Nat) : Prop :=
  ∃ before t r, before ++ [.turn number] <+: moves ∧ t ∈ (f.after before).tasks ∧
    t.number = number ∧
    t.run? = some r ∧ (r.advance (f.after before).world).1 = .ended .skipped

theorem Ran.concat (h : f.Ran before number) (m : Move) : f.Ran (before ++ [m]) number := by
  obtain ⟨first, t, r, x, hpre, hx, hnumber⟩ := h
  exact ⟨first, t, r, x, hpre.trans (List.prefix_append before [m]), hx, hnumber⟩

theorem Missed.concat (h : f.Missed before number) (m : Move) :
    f.Missed (before ++ [m]) number := by
  obtain ⟨first, t, r, hpre, ht, hnumber, hrun, hended⟩ := h
  exact ⟨first, t, r, hpre.trans (List.prefix_append before [m]), ht, hnumber, hrun, hended⟩

/-- A number is new once: a run that is new under the number of a run that starts is this run, at
    its moment. -/
theorem StartsAt.unique (hs : f.Sound) (h : f.StartsAt moves moment number r)
    (hpre : before ++ [m] <+: moves) (ht : t ∈ (f.after (before ++ [m])).tasks)
    (hnumber : t.number = number) (hnew : (f.after before).nextNumber ≤ number) :
    (f.after before).world.elapsed = moment ∧ t.run? = some r := by
  obtain ⟨before', m', t', hpre', helapsed, hnew', ht', hnumber', hrun'⟩ := h
  have hbelow := (sound_after hs (before ++ [m])).below t ht
  have hbelow' := (sound_after hs (before' ++ [m'])).below t' ht'
  -- were one of the two moves earlier, it would have used up the number
  have hsame : before ++ [m] = before' ++ [m'] := by
    rcases List.prefix_or_prefix_of_prefix hpre hpre' with hle | hle
    · rcases List.prefix_concat_iff.1 hle with heq | hle
      · exact heq
      · have := nextNumber_mono hs hle
        omega
    · rcases List.prefix_concat_iff.1 hle with heq | hle
      · exact heq.symm
      · have := nextNumber_mono hs hle
        omega
  rw [← hsame] at ht'
  have htask := (sound_after hs (before ++ [m])).task_unique ht ht' (hnumber.trans hnumber'.symm)
  rw [(List.append_inj' hsame rfl).1, htask]
  exact ⟨helapsed, hrun'⟩

/-- Under the number of a run there is never another run. -/
theorem StartsAt.same (hfresh : f.Fresh) (h : f.StartsAt moves moment number r) :
    ∀ before, before <+: moves → ∀ t ∈ (f.after before).tasks, t.number = number →
      ∀ r', t.run? = some r' →
      r.Same r' := by
  refine prefix_induction ?_ ?_
  · intro t ht
    have hnone : t ∈ f.tasks := ht
    rw [hfresh.tasks] at hnone
    exact absurd hnone List.not_mem_nil
  · intro before m hpre ih t ht hnumber r' hrun
    have hsound := sound_after hfresh.sound before
    have ht' := ht
    rw [after_concat] at ht'
    rcases (make_happens hsound m).origin hsound ht' hrun with ⟨hnew, -⟩ | ⟨t₀, hold, r₀,
      hnumber₀, hrun₀, hsame⟩
    · rw [(h.unique hfresh.sound hpre ht hnumber (hnumber ▸ hnew)).2] at hrun
      cases hrun
      exact Run.Same.refl r
    · exact (ih t₀ hold (hnumber₀.trans hnumber) r₀ hrun₀).trans hsame

namespace Regular

/-- A run is on time for the moment at which it started. -/
theorem onTime_of_startsAt (h : f.Regular moves key patience)
    (hstarts : f.StartsAt moves moment number r) :
    ∀ before, before <+: moves → ∀ t ∈ (f.after before).tasks, t.number = number →
      ∀ r', t.run? = some r' →
      r'.key = key → r'.OnTime patience moment (f.after before).world.elapsed t.state := by
  refine prefix_induction ?_ ?_
  · intro t ht
    have hnone : t ∈ f.tasks := ht
    rw [h.fresh.tasks] at hnone
    exact absurd hnone List.not_mem_nil
  · intro before m hpre ih t ht hnumber r' hrun hkey
    rcases h.onTime_concat hpre ht hrun hkey with ⟨hnew, hontime⟩ | ⟨t₀, hold, r₀, hsame,
      hrun₀, hkey₀, hkeeps⟩
    · rw [hnumber] at hnew
      rw [(hstarts.unique h.fresh.sound hpre ht hnumber hnew).1] at hontime
      exact hontime
    · exact hkeeps moment (ih t₀ hold (hsame.trans hnumber) r₀ hrun₀ hkey₀)

end Regular

/-! ## The run whose body has begun -/

/-- The body of the run with a number has begun, and the run still has the lock with a key. -/
def HasBegun (f : Fleet FaultyStore) (key : String) (number : Nat) : Prop :=
  ∃ t ∈ f.tasks, ∃ r, t.number = number ∧ t.run? = some r ∧ r.key = key ∧ r.phase.hasBegun = true

theorem HasBegun.holds (h : f.HasBegun key number) :
    ∃ t r since, f.Holds t r since ∧ t.number = number ∧ r.key = key := by
  obtain ⟨t, ht, r, hnumber, hrun, hkey, hbegun⟩ := h
  obtain ⟨since, hsince⟩ := RunPhase.since?_of_hasBegun hbegun
  exact ⟨t, r, since, ⟨ht, hrun, hsince⟩, hnumber, hkey⟩

theorem Executes.hasBegun {x : Execution} (h : f.Executes t r x) (hkey : r.key = key) :
    f.HasBegun key t.number := by
  obtain ⟨since, hphase⟩ := h.phase
  refine ⟨t, h.mem, r, rfl, h.run, hkey, ?_⟩
  rw [hphase]
  rfl

/-- A run whose body has begun goes on having its lock, or it gives it back, later than its
    patience. -/
theorem begun_happens (hs : f.Sound) (hprompt : f.Prompt m) (h : f.Happens m g) (ht : t ∈ f.tasks)
    (hrun : t.run? = some r) (hkey : r.key = key) (hbegun : r.phase.hasBegun = true)
    (hontime : r.OnTime patience moment f.world.elapsed t.state) :
    g.HasBegun key t.number ∨ moment + patience < f.world.elapsed := by
  rcases h.stays hs ht hrun with ⟨t', ht', hnumber, hrun'⟩ | ⟨i, c, p, w, rfl,
    hactivity, hadvances, rfl⟩
  · exact .inl ⟨t', ht', r, hnumber, hrun', hkey, hbegun⟩
  · cases hphase : r.phase with
    | executing since x =>
      obtain ⟨rfl, -⟩ := hadvances.of_executing hphase
      exact .inl ⟨_, parked_afterRun rfl rfl, _, rfl, rfl, hkey, rfl⟩
    | releasing since result =>
      rw [hphase] at hbegun
      obtain ⟨ending, rfl⟩ := Option.isSome_iff_exists.1 hbegun
      exact .inr (hontime.patience_lt (hprompt t ht rfl) hphase)
    | _ =>
      rw [hphase] at hbegun
      cases hbegun

/-- From the point on at which a body runs, its run has the lock, or everyone who started with it
    has given up. -/
theorem begun_after (h : f.Regular moves key patience) (hstarts : f.StartsAt moves moment number r)
    (hbegun : (f.after before).HasBegun key number) :
    ∀ later, before <+: later → later <+: moves →
      (f.after later).HasBegun key number ∨ moment + patience < (f.after later).world.elapsed := by
  refine prefix_induction_from (.inl hbegun) ?_
  intro later m _ hpre ih
  have hlater : later <+: moves := (List.prefix_append later [m]).trans hpre
  have hhappens := make_happens (h.sound later) m
  have helapsed := hhappens.elapsed (h.sound later)
  rw [after_concat]
  rcases ih with ⟨t, ht, r', hnumber, hrun, hkey, hbegun⟩ | hlate
  · have hontime := h.onTime_of_startsAt hstarts later hlater t ht hnumber r' hrun hkey
    rcases begun_happens (h.sound later) (h.punctual.prompt hpre) hhappens ht hrun hkey hbegun
      hontime with hnext | hlate
    · exact .inl (hnumber ▸ hnext)
    · exact .inr (Nat.lt_of_lt_of_le hlate helapsed)
  · exact .inr (Nat.lt_of_lt_of_le hlate helapsed)

/-! ## The others -/

/-- From the point on at which the body of one run runs, another takes the lock too late to have
    started with it. -/
theorem taken_later (h : f.Regular moves key patience) (hstarts : f.StartsAt moves moment number r)
    (hpre : before <+: moves) (hbegun : (f.after before).HasBegun key number)
    (hne : number ≠ number') :
    ∀ later, before <+: later → later <+: moves → ∀ t r' since, (f.after later).Holds t r' since →
      t.number = number' → r'.key = key → moment + patience < since := by
  refine prefix_induction_from ?_ ?_
  · intro t r' since hholds hnumber hkey
    obtain ⟨t₀, r₀, since₀, hholds₀, hnumber₀, hkey₀⟩ := hbegun.holds
    -- at first the run whose body runs is the only one with the lock
    have hsame := (h.leased hpre).alone t₀ t r₀ r' since₀ since hholds₀ hholds hkey₀ hkey
    exact absurd (hnumber₀.symm.trans (hsame.trans hnumber)) hne
  · intro later m hbefore hlater ih t r' since hholds hnumber hkey
    have hpre' : later <+: moves := (List.prefix_append later [m]).trans hlater
    rw [after_concat] at hholds
    rcases holds_happens (h.sound later) (make_happens (h.sound later) m) hholds with
      ⟨t₀, r₀, hnumber₀, hkey₀, hold⟩ | ⟨r₀, hkey₀, rfl, hyes⟩
    · exact ih t₀ r₀ since hold (hnumber₀.trans hnumber) (hkey₀.trans hkey)
    · rcases begun_after h hstarts hbegun later hbefore hpre' with hbegun' | hlate
      · -- the store gave the lock away, so nobody had it
        obtain ⟨t₁, r₁, since₁, hholds₁, -, hkey₁⟩ := hbegun'.holds
        have hlive := (h.leased hpre').live (h.heldInTime hpre') hholds₁ hkey₁
        have hfree := (FaultyStore.live?_setIfAbsent hyes).1
        have hkey' : r₀.guard.lock.key r₀.lockId = key := hkey₀.trans hkey
        rw [show r₀.key = key from hkey', hlive] at hfree
        cases hfree
      · exact hlate

/-- After the body of one run runs, no body of another that started with it does. -/
theorem not_executes_later (h : f.Regular moves key patience)
    (hstarts : f.StartsAt moves moment number r) (hstarts' : f.StartsAt moves moment number' r')
    (hkey : r.key = key) (hkey' : r'.key = key) (hne : number ≠ number') {later : List Move}
    (hlater : before <+: later) (hpre : later <+: moves) {t t' : Task} {r₁ r₁' : Run}
    {x x' : Execution} (hx : (f.after before).Executes t r₁ x)
    (hx' : (f.after later).Executes t' r₁' x') (hnumber : t.number = number) :
    t'.number ≠ number' := by
  intro hnumber'
  have hbefore : before <+: moves := hlater.trans hpre
  have hkey₁ := (hstarts.same h.fresh before hbefore t hx.mem hnumber r₁ hx.run).key
  have hkey₁' := (hstarts'.same h.fresh later hpre t' hx'.mem hnumber' r₁' hx'.run).key
  have hbegun : (f.after before).HasBegun key number := hnumber ▸ hx.hasBegun (hkey₁.trans hkey)
  obtain ⟨since, hholds⟩ := hx'.holds
  -- the other has taken the lock too late, but it is on time
  have hlate := taken_later h hstarts hbefore hbegun hne later hlater hpre t' r₁'
    since hholds hnumber'
    (hkey₁'.trans hkey')
  have hontime := h.onTime_of_startsAt hstarts' later hpre t' hx'.mem hnumber' r₁' hx'.run
    (hkey₁'.trans hkey')
  exact absurd (hontime.holds hholds.since).2.1 (Nat.not_le.2 hlate)

/-- Of two runs that start at one moment only one runs its body. -/
theorem not_both_ran (h : f.Regular moves key patience) (hstarts : f.StartsAt moves moment number r)
    (hstarts' : f.StartsAt moves moment number' r') (hkey : r.key = key) (hkey' : r'.key = key)
    (hne : number ≠ number') :
    ¬ (f.Ran moves number ∧ f.Ran moves number') := by
  rintro ⟨⟨before, t, r₁, x, hpre, hx, hnumber⟩, ⟨before', t', r₁', x', hpre', hx', hnumber'⟩⟩
  rcases List.prefix_or_prefix_of_prefix hpre hpre' with hlater | hlater
  · exact not_executes_later h hstarts hstarts' hkey hkey' hne hlater hpre' hx hx' hnumber hnumber'
  · exact not_executes_later h hstarts' hstarts hkey' hkey hne.symm hlater hpre hx'
      hx hnumber' hnumber

/-! ## How the runs end -/

/-- A run with a number has not begun its body, and can read the declaration of its job. -/
def Waits (f : Fleet FaultyStore) (number : Nat) : Prop :=
  ∃ t ∈ f.tasks, ∃ r, t.number = number ∧ t.run? = some r ∧ r.job.unreadableWhileLocked = false ∧
    (r.phase.since? = none ∨ ∃ since, r.phase = .holding since)

/-- The next piece of a run that waits leaves it waiting, begins its body, or skips it. -/
theorem waits_piece (hs : f.Sound) (ht : t ∈ f.tasks) {i : Nat} {c : Caller}
    (hactivity : t.activity = .run i r c) (hread : r.job.unreadableWhileLocked = false)
    (hphase : r.phase.since? = none ∨ ∃ since, r.phase = .holding since) :
    (f.make (.turn t.number)).Waits t.number ∨
      (∃ t' r' x, (f.make (.turn t.number)).Executes t' r' x ∧ t'.number = t.number) ∨
      (r.advance f.world).1 = .ended .skipped := by
  have hreads : Run.unreadable r.job f.world = false := by
    unfold Run.unreadable
    rw [hread]
    rfl
  have hasks : r.phase.since? = none → ∃ deadline attempt, r.Asks f.world deadline attempt := by
    intro hsince
    cases hphase : r.phase with
    | entering => exact ⟨_, _, .inl ⟨hphase, hreads, rfl, rfl⟩⟩
    | polling deadline attempts => exact ⟨_, _, .inr ⟨attempts, hphase, rfl⟩⟩
    | _ =>
      rw [hphase] at hsince
      cases hsince
  have hadvances := r.advances f.world
  rw [make_turn (hs.task?_eq ht) hactivity]
  generalize r.advance f.world = got at hadvances ⊢
  obtain ⟨p, w⟩ := got
  simp only at hadvances
  rcases hphase with hsince | ⟨since, hholding⟩
  · obtain ⟨deadline, attempt, hasks⟩ := hasks hsince
    rcases (hadvances.of_asks hasks).2.2 with ⟨-, rfl, -⟩ | ⟨-, -, wake, -, rfl⟩ | ⟨-, rfl, -⟩
    · exact .inl ⟨_, parked_afterRun rfl rfl, _, rfl, rfl, hread, .inr ⟨f.world.elapsed, rfl⟩⟩
    · exact .inl ⟨_, parked_afterRun rfl rfl, _, rfl, rfl, hread, .inl rfl⟩
    · exact .inr (.inr rfl)
  · rcases hadvances.of_holding hholding with ⟨hbroke, -⟩ | ⟨x, -, hrest⟩
    · rw [hreads] at hbroke
      cases hbroke
    -- with the lock and a declaration that can be read the body begins
    · obtain ⟨state, hstate⟩ := Progress.state?_of_run? hrest
      exact .inr (.inl ⟨_, _, x, ⟨parked_afterRun hrest hstate, rfl, since, rfl⟩, rfl⟩)

/-- A run that waits goes on waiting after a move, or its body runs, or it is skipped. -/
theorem waits_concat (hs : f.Sound) (h : (f.after before).Waits number) (m : Move) :
    (f.after (before ++ [m])).Waits number ∨ f.Ran (before ++ [m]) number ∨
    f.Missed (before ++ [m]) number := by
  have hsound := sound_after hs before
  obtain ⟨t, ht, r, rfl, hrun, hread, hphase⟩ := h
  rcases (make_happens hsound m).stays hsound ht hrun with ⟨t', ht', hnumber, hrun'⟩ | ⟨i, c, p, w,
    rfl, hactivity, -⟩
  · rw [← after_concat] at ht'
    exact .inl ⟨t', ht', r, hnumber, hrun', hread, hphase⟩
  · have hpiece := waits_piece hsound ht hactivity hread hphase
    rw [← after_concat] at hpiece
    rcases hpiece with hwaits | ⟨t', r', x, hx, hnumber⟩ | hskipped
    · exact .inl hwaits
    · exact .inr (.inl ⟨_, t', r', x, List.prefix_rfl, hx, hnumber⟩)
    · exact .inr (.inr ⟨before, t, r, List.prefix_rfl, ht, rfl, hrun, hskipped⟩)

/-- A run that has started waits, or its body has run, or it was skipped. -/
theorem waits_or_ended (hfresh : f.Fresh) (hpre : before ++ [m] <+: moves)
    (ht : t ∈ (f.after (before ++ [m])).tasks) (hrun : t.run? = some r)
    (hnew : (f.after before).nextNumber ≤ t.number) (hread : r.job.unreadableWhileLocked = false) :
    (f.after moves).Waits t.number ∨ f.Ran moves t.number ∨ f.Missed moves t.number := by
  have hs := hfresh.sound
  have hsound := sound_after hs before
  have hentering : r.phase = .entering := by
    have ht' := ht
    rw [after_concat] at ht'
    rcases (make_happens hsound m).origin hsound ht' hrun with ⟨-, hphase⟩ | ⟨t₀,
      hold, -, hnumber, -⟩
    · exact hphase
    · exact absurd (hsound.below t₀ hold) (Nat.not_lt.2 (hnumber ▸ hnew))
  have hfirst : (f.after (before ++ [m])).Waits t.number :=
    ⟨t, ht, r, rfl, hrun, hread, .inl (by rw [hentering]; rfl)⟩
  have hall : ∀ later, before ++ [m] <+: later → later <+: moves →
      (f.after later).Waits t.number ∨ f.Ran later t.number ∨ f.Missed later t.number := by
    refine prefix_induction_from (.inl hfirst) ?_
    intro later m' _ _ ih
    rcases ih with hwaits | hran | hmissed
    · exact waits_concat hs hwaits m'
    · exact .inr (.inl (hran.concat m'))
    · exact .inr (.inr (hmissed.concat m'))
  exact hall moves hpre List.prefix_rfl

/-- A run has run its body or was skipped once its patience is over, if the declaration of its job
    can be read. -/
theorem ran_or_missed (hregular : f.Regular moves key patience)
    (hstarts : f.StartsAt moves moment number r) (hkey : r.key = key)
    (hread : r.job.unreadableWhileLocked = false)
    (hlate : moment + patience < (f.after moves).world.elapsed) :
    f.Ran moves number ∨ f.Missed moves number := by
  obtain ⟨before, m, t, hpre, -, hnew, ht, rfl, hrun⟩ := id hstarts
  rcases waits_or_ended hregular.fresh hpre ht hrun hnew hread with hwaits | hended
  · obtain ⟨t', ht', r', hnumber, hrun', -, hphase⟩ := hwaits
    have hkey' := (hstarts.same hregular.fresh moves List.prefix_rfl t' ht' hnumber r' hrun').key
    have hontime := hregular.onTime_of_startsAt hstarts moves List.prefix_rfl t' ht' hnumber r'
      hrun' (hkey'.trans hkey)
    exact absurd (hontime.le_patience hphase) (Nat.not_le.2 hlate)
  · exact hended

/-! ## Ticks -/

/-- A driver starts a tick for a fire time: it has waited for it, and its trigger looks ahead. -/
def FiresFor (f : Fleet FaultyStore) (moves : List Move) (instant : Time.Instant) (number : Nat)
    (r : Run) : Prop :=
  ∃ before t d s, before ++ [.turn t.number] <+: moves ∧ t ∈ (f.after before).tasks ∧
    t.Awaits d instant ∧
    d.trigger.LooksAhead ∧ (f.after before).schedulers[d.scheduler]? = some s ∧
    number = (f.after before).nextNumber ∧ r = ⟨s.guard, d.job, .scheduled, .entering⟩

theorem mem_startTick {i : Nat} {s : Scheduler} (hsched : f.schedulers[i]? = some s) (job : Job) :
    ⟨f.nextNumber, .run i ⟨s.guard, job, .scheduled, .entering⟩ .timer, .ready, false⟩ ∈
      (f.startTick i job).tasks := by
  have hnext : (f.collectTicks i).nextNumber = f.nextNumber := by
    unfold collectTicks
    rw [hsched]
    rfl
  unfold startTick
  rw [hsched]
  show _ ∈ (f.collectTicks i).tasks ++ [⟨(f.collectTicks i).nextNumber, _, _, _⟩]
  rw [hnext]
  exact List.mem_append_right _ (List.mem_singleton.2 rfl)

/-- The turn of a driver whose fire time has come starts a tick, and the driver goes on waiting. -/
theorem make_of_awaits (hs : f.Sound) (ht : t ∈ f.tasks) {d : Driver} {instant : Time.Instant}
    (hd : t.Awaits d instant) :
    f.make (.turn t.number) = (f.startTick d.scheduler d.job).driveOn t d := by
  simp only [make, advance, hs.task?_eq ht, hd.activity, stepTask, stepDriver, hd.awaited, hd.goes]
  rfl

/-- A tick for a fire time starts at the moment at which the time has come. -/
theorem FiresFor.startsAt (hfresh : f.Fresh) (hpunctual : f.Punctual moves) {instant : Time.Instant}
    (h : f.FiresFor moves instant number r) :
    f.StartsAt moves (f.world.momentOf instant) number r := by
  obtain ⟨before, t, d, s, hpre, ht, hd, hahead, hsched, rfl, rfl⟩ := h
  have hsound := sound_after hfresh.sound before
  have helapsed := fires_at_momentOf hfresh hpunctual hpre ht hd hahead
  have hrunless : (f.after before).Runless t.number :=
    hsound.runless ht (Task.run?_of_idle (by rw [hd.activity]; rfl))
  have htick := calm_startTick hsound d.scheduler d.job
  have hdrive := calm_driveOn htick.sound (htick.runless hrunless) d
  -- the driver goes on after it has started the tick, and leaves it alone
  have hmem := hdrive.keeps _ (mem_startTick hsched d.job) _ rfl
  rw [← make_of_awaits hsound ht hd, ← after_concat] at hmem
  exact ⟨before, .turn t.number, _, hpre, helapsed, Nat.le_refl _, hmem, rfl, rfl⟩

/-- **One run per fire instant.** With punctual moves, and bodies under a key that outlast
    everyone's patience but not their leases, at most one of the ticks under the key that are
    started for a fire time runs its body; and each of them has run its body or was skipped once the
    patience is over, if the declaration of its job can be read. -/
theorem once_per_instant {f : Fleet FaultyStore} {moves : List Move} {key : String} {patience : Nat}
    (hregular : f.Regular moves key patience) {instant : Time.Instant} {number : Nat} {r : Run}
    (hfires : f.FiresFor moves instant number r) (hkey : r.key = key) :
    (∀ number' r', f.FiresFor moves instant number' r' → r'.key = key → number ≠ number' →
      ¬ (f.Ran moves number ∧ f.Ran moves number')) ∧
      (r.job.unreadableWhileLocked = false → f.world.momentOf instant + patience <
        (f.after moves).world.elapsed →
        f.Ran moves number ∨ f.Missed moves number) := by
  have hstarts := hfires.startsAt hregular.fresh hregular.punctual
  refine ⟨?_, ran_or_missed hregular hstarts hkey⟩
  intro number' r' hfires' hkey' hne
  exact not_both_ran hregular hstarts
    (hfires'.startsAt hregular.fresh hregular.punctual) hkey hkey' hne

/-! ## Two instances -/

/-- A body runs at some point if it is seen there. -/
theorem ran_of_any (hpre : before <+: moves) (h : ((f.after before).tasks.any fun t =>
    t.number = number && (t.run?).any (·.phase.execution?.isSome)) = true) :
    f.Ran moves number := by
  simp only [List.any_eq_true, Option.any_eq_true, Bool.and_eq_true, decide_eq_true_eq,
    Option.isSome_iff_exists, RunPhase.execution?_eq_some] at h
  obtain ⟨t, ht, hnumber, r, hrun, x, hphase⟩ := h
  exact ⟨before, t, r, x, hpre, ⟨ht, hrun, hphase⟩, hnumber⟩

/-- Two instances are started; their drivers wait for the first fire time. -/
def waking : List Move := [.start 0, .start 1, .turn 0, .turn 1, .pass 1000]

/-- The driver of an instance when it fires for the first time. -/
def firstDriver (i : Nat) (job : Job) : Task :=
  ⟨i, .drive ⟨i, i, job, .interval ⟨1⟩, some ⟨1000000000⟩, false⟩, .due, false⟩

/-- The first tick of an instance. -/
def firstTick (i : Nat) (job : Job) (timeout : Option Nat) : Run :=
  ⟨⟨⟨"job_lock", .scheduler i, 100⟩, 600000, timeout, .ledger⟩, job, .scheduled, .entering⟩

/-- The fire time for which the drivers wait: one second after the start. -/
def firstInstant : Time.Instant := ⟨1000000000⟩

/-- A driver that is found waiting for this time fires for it when its turn comes. -/
theorem fires_of_found (before : List Move) {i : Nat} {job : Job} {s : Scheduler}
    (hpre : before ++ [.turn i] <+: moves)
    (hfound : (f.after before).task? i = some (firstDriver i job))
    (hsched : (f.after before).schedulers[i]? = some s)
    (hnumber : number = (f.after before).nextNumber)
    (hr : r = ⟨s.guard, job, .scheduled, .entering⟩) :
    f.FiresFor moves firstInstant number r :=
  ⟨before, firstDriver i job, _, s, hpre, (task?_eq_some hfound).1, ⟨rfl, rfl, rfl⟩,
    Schedule.looksAhead_interval ⟨1⟩, hsched, hnumber, hr⟩

/-- The tick of the second instance asks while the body of the first runs. -/
def sharing : List Move :=
  waking ++ [.turn 0, .turn 1, .turn 2, .turn 2, .turn 3, .pass 1500, .turn 2, .turn 2]

/-- The body of the first takes half a second: it runs, and the tick of the second is skipped. -/
theorem once_per_instant_sharing :
    (instances 2 (.sleeper 2000 [500])).Ran sharing 2 ∧
      ¬ (instances 2 (.sleeper 2000 [500])).Ran sharing 3 ∧
      (instances 2 (.sleeper 2000 [500])).Missed sharing 3 := by
  have hlasting : ∀ before ∈ sharing.inits,
      ((instances 2 (.sleeper 2000 [500])).after before).Lasting "job_lock:sleeper" 0 := by
    decide +kernel
  have hregular : (instances 2 (.sleeper 2000 [500])).Regular sharing "job_lock:sleeper" 0 :=
    { fresh := fresh_instances 2 _
      punctual := by decide +kernel
      patient := by
        intro g hg timeout htimeout
        have hnone : ∀ g ∈ (instances 2 (.sleeper 2000 [500])).guards,
            g.acquireTimeout = none := by decide +kernel
        rw [hnone g hg] at htimeout
        cases htimeout
      lasting := fun before hbefore => hlasting before ((List.mem_inits before sharing).2 hbefore) }
  have hfirst : (instances 2 (.sleeper 2000 [500])).FiresFor sharing firstInstant 2
      (firstTick 0 (.sleeper 2000 [500]) none) :=
    fires_of_found waking (List.take_prefix 6 sharing) rfl rfl rfl rfl
  have hsecond : (instances 2 (.sleeper 2000 [500])).FiresFor sharing firstInstant 3
      (firstTick 1 (.sleeper 2000 [500]) none) :=
    fires_of_found (waking ++ [.turn 0]) (List.take_prefix 7 sharing) rfl rfl rfl rfl
  have hran : (instances 2 (.sleeper 2000 [500])).Ran sharing 2 :=
    ran_of_any (List.take_prefix 9 sharing) (by decide +kernel)
  have hnot := (once_per_instant hregular hfirst rfl).1 3 _ hsecond rfl (by decide)
  have hends := (once_per_instant hregular hsecond rfl).2 rfl (by decide +kernel)
  have hnever : ¬ (instances 2 (.sleeper 2000 [500])).Ran sharing 3 := fun h => hnot ⟨hran, h⟩
  exact ⟨hran, hnever, hends.resolve_left hnever⟩

/-- Of the ticks under a key that are started for one fire time at most one runs its body, in all
    punctual moves in which the bodies under the key are shorter than their leases and as a
    condition says. -/
def OnceIf (condition : Execution → Prop) : Prop :=
  ∀ (f : Fleet FaultyStore) (moves : List Move) (key : String), f.Fresh → f.Punctual moves →
    (∀ before, before <+: moves → ∀ t r x, (f.after before).Executes t r x → r.key = key →
      condition x ∧ x.sleep < 1000 * Lock.wholeSeconds (r.guard.ttlOf r.job)) →
    ∀ instant number number' r r', f.FiresFor moves instant number r →
      f.FiresFor moves instant number' r' →
      r.key = key → r'.key = key → number ≠ number' → ¬ (f.Ran moves number ∧ f.Ran moves number')

/-- Two ticks for one fire time that both run their bodies are against it. -/
theorem not_onceIf {condition : Execution → Prop} (hfresh : f.Fresh) (hpunctual : f.Punctual moves)
    (hfits : ∀ before ∈ moves.inits, ∀ t ∈ (f.after before).tasks, ∀ r ∈ t.run?,
      ∀ x ∈ r.phase.execution?,
      condition x ∧ x.sleep < 1000 * Lock.wholeSeconds (r.guard.ttlOf r.job))
    {instant : Time.Instant} (hfires : f.FiresFor moves instant number r)
    (hfires' : f.FiresFor moves instant number' r') (hkey : r'.key = r.key) (hne : number ≠ number')
    (hran : f.Ran moves number) (hran' : f.Ran moves number') :
    ¬ OnceIf condition := by
  intro h
  refine h f moves r.key hfresh hpunctual ?_ instant number number' r r' hfires hfires' rfl hkey
    hne ⟨hran, hran'⟩
  intro before hbefore t r x hx _
  exact hfits before ((List.mem_inits before moves).2 hbefore) t hx.mem r hx.run x
    (RunPhase.execution?_eq_some.2 hx.phase)

/-- The tick of the first instance makes all its pieces before that of the second asks. -/
def racing : List Move :=
  waking ++ [.turn 0, .turn 1, .turn 2, .turn 2, .turn 2, .turn 2, .turn 3, .turn 3]

/-- A body that takes no time is run by both instances. -/
theorem fast_body_runs_twice : ¬ OnceIf (fun _ => True) := by
  have hfirst : (instances 2 (.sleeper 2000 [0])).FiresFor racing firstInstant 2
      (firstTick 0 (.sleeper 2000 [0]) none) :=
    fires_of_found waking (List.take_prefix 6 racing) rfl rfl rfl rfl
  have hsecond : (instances 2 (.sleeper 2000 [0])).FiresFor racing firstInstant 3
      (firstTick 1 (.sleeper 2000 [0]) none) :=
    fires_of_found (waking ++ [.turn 0]) (List.take_prefix 7 racing) rfl rfl rfl rfl
  refine not_onceIf (fresh_instances 2 _) (by decide +kernel) (by decide +kernel) hfirst hsecond rfl
    (by decide) ?_ ?_
  · exact ran_of_any (List.take_prefix 9 racing) (by decide +kernel)
  · exact ran_of_any List.prefix_rfl (by decide +kernel)

end Fleet

end JobFleet
