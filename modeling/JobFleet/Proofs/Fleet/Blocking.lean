/-
  JobFleet.Proofs.Fleet.Blocking: who keeps a run from its lock.

  While the store does not fail, every live lease is that of a run that has its lock (`Backed`).  A
  lease comes with the run that takes the lock, and a run that gives its lock back leaves no lease
  that could have been its own.  No run needs to be in time for this.  So an attempt fails only
  because another run has the lock with the same key.

  With one key prefix the key of a run tells its job and its kind, but for one thing: a manual run
  locks the identity of its job with a suffix, and another job can have just that identity.
  `Run.SharesLock` says when two runs have one key.

  Main results:
    * `backed_through` — every live lease is that of a run that has its lock.
    * `run_origin` — a run that still asks for its lock has never had it.
    * `skipped_by_holder` — at each attempt of a run that ends skipped, another run with the same
      lock has it.
    * `namesake_is_skipped` — this can be a run of another job.
-/
import JobFleet.Proofs.Fleet.Takeover
import JobFleet.Proofs.Fleet.Turns

namespace JobFleet

/-! ## Runs with one lock -/

/-- The runs are of one job and kind, or one is a manual run and the other a scheduled run of a job
    whose identity is that of the first with the suffix. -/
def Run.SharesLock (r r' : Run) : Prop :=
  (r'.job.id = r.job.id ∧ r'.kind = r.kind) ∨
    (r.kind = .scheduled ∧ r'.kind = .manual ∧ r.job.id = r'.job.id ++ manualSuffix) ∨
    (r.kind = .manual ∧ r'.kind = .scheduled ∧ r'.job.id = r.job.id ++ manualSuffix)

theorem RunKind.lockId_eq_iff {k k' : RunKind} {id id' : String} : k'.lockId id' = k.lockId id ↔
    (id' = id ∧ k' = k) ∨ (k = .scheduled ∧ k' = .manual ∧ id = id' ++ manualSuffix) ∨
      (k = .manual ∧ k' = .scheduled ∧ id' = id ++ manualSuffix) := by
  cases k <;> cases k' <;> simp [lockId, eq_comm]

/-- Two runs share a lock exactly if their locks have one name. -/
theorem Run.sharesLock_iff {r r' : Run} : r.SharesLock r' ↔ r'.lockId = r.lockId :=
  RunKind.lockId_eq_iff.symm

/-! ## Pieces -/

namespace Run.Advances

variable {r r' : Run} {w w' : World FaultyStore} {p : Progress}

/-- A run that has its lock goes on with it, unless it is about to give it back. -/
theorem keeps_lock (h : r.Advances w p w') {since : Nat} (hsince : r.phase.since? = some since)
    (hnot : r.phase.isReleasing = false) :
    ∃ r', p.run? = some r' ∧ r'.phase.since? = some since := by
  cases hphase : r.phase with
  | entering | polling =>
    rw [hphase] at hsince
    cases hsince
  | holding since' =>
    rw [hphase] at hsince
    obtain ⟨-, hrun, -⟩ | ⟨x, -, hrun⟩ := h.of_holding hphase
    · exact ⟨_, hrun, hsince⟩
    · exact ⟨_, hrun, hsince⟩
  | executing since' x =>
    rw [hphase] at hsince
    obtain ⟨rfl, -⟩ := h.of_executing hphase
    exact ⟨_, rfl, hsince⟩
  | releasing since' result =>
    rw [hphase] at hnot
    cases hnot

/-- A run that still asks for its lock has asked, and the store has said no. -/
theorem asked (h : r.Advances w p w') (hrun : p.run? = some r') (hnone : r'.phase.since? = none) :
    r.phase.since? = none ∧ (r.ask w).1 ≠ .ok true := by
  cases h with
  | panicked | skipped | released => cases hrun
  | took | broke | finished =>
    cases hrun
    cases hnone
  | began =>
    rw [run?_began] at hrun
    cases hrun
    cases hnone
  | polled hasks hno =>
    rw [hno]
    exact ⟨hasks.since?, nofun⟩

/-- A run that is skipped has asked, and the store has not said yes. -/
theorem of_skipped (h : r.Advances w (.ended .skipped) w') :
    r.phase.since? = none ∧ (r.ask w).1 ≠ .ok true := by
  generalize hp : Progress.ended .skipped = p at h
  cases h with
  | skipped hasks hno => exact ⟨hasks.since?, hno⟩
  | began =>
    split at hp
    · cases hp
    · cases hp
  | _ => cases hp

end Run.Advances

namespace Fleet

/-- Every live lease is that of a run that has its lock. -/
def Backed (f : Fleet FaultyStore) : Prop :=
  ∀ key lease, f.leaseOf key = some lease → ∃ t r since, f.Holds t r since ∧ r.key = key ∧
    r.lease since = lease

section

variable {f g : Fleet FaultyStore} {m : Move} {t t' : Task} {i : Nat} {r r' : Run}
    {c : Caller} {p : Progress}
  {w : World FaultyStore} {key : String} {lease : Lease} {since : Nat}

/-! ## One piece -/

theorem leaseOf_piece (hs : f.Sound) (hadvances : r.Advances f.world p w) :
    (f.afterRun t i c (p, w)).leaseOf key = w.locks.memory.live? f.world.elapsed key := by
  have hstill : w.Still (f.afterRun t i c (p, w)).world := still_afterRun hs
  unfold leaseOf
  rw [hstill.locks, hstill.elapsed, hadvances.clock.1]

/-- A lease that is live after a piece was live before, or the piece has just taken it. -/
theorem leaseOf_origin (hs : f.Sound) (hadvances : r.Advances f.world p w)
    (hlive : (f.afterRun t i c (p, w)).leaseOf key = some lease) :
    f.leaseOf key = some lease ∨
      (p.run? = some { r with phase := .holding f.world.elapsed } ∧ r.key = key ∧
        r.lease f.world.elapsed = lease) := by
  rw [leaseOf_piece hs hadvances] at hlive
  -- setting a key adds its own lease, and only on a yes
  have hask : (r.ask f.world).2.memory.live? f.world.elapsed key = some lease →
    f.leaseOf key = some lease ∨
      ((r.ask f.world).1 = .ok true ∧ key = r.key ∧ lease = r.lease f.world.elapsed) :=
      FaultyStore.live?_of_setIfAbsent
  cases hadvances with
  | panicked | broke => exact .inl hlive
  | took _ _ hstill =>
    rw [hstill.locks] at hlive
    refine (hask hlive).imp_right ?_
    intro hnew
    exact ⟨rfl, hnew.2.1.symm, hnew.2.2.symm⟩
  | polled _ hno _ hstill =>
    rw [hstill.locks] at hlive
    refine (hask hlive).imp_right ?_
    intro hnew
    rw [hno] at hnew
    cases hnew.1
  | skipped _ hno hstill =>
    rw [hstill.locks] at hlive
    exact (hask hlive).imp_right (fun hnew => absurd hnew.1 hno)
  | began _ _ hbegin =>
    rw [(Execution.still_begin hbegin).locks] at hlive
    exact .inl hlive
  | @finished since x =>
    rw [(x.still_finish r.job r.guard.sink f.world).locks] at hlive
    exact .inl hlive
  | released _ hstill =>
    rw [hstill.locks] at hlive
    exact .inl (FaultyStore.live?_of_compareAndDelete hlive)

/-- A run that gives its lock back to a store that works leaves no lease of its instance under its
    key. -/
theorem holder_ne_of_released (hs : f.Sound) (hadvances : r.Advances f.world p w)
    (hreleasing : r.phase.isReleasing = true) (hworks : f.world.locks.failing = [])
    (hlive : (f.afterRun t i c (p, w)).leaseOf r.key = some lease) :
    lease.holder ≠ r.holder := by
  intro hholder
  rw [leaseOf_piece hs hadvances] at hlive
  cases hphase : r.phase with
  | releasing since result =>
    obtain ⟨-, hstill, -⟩ := hadvances.of_releasing hphase
    rw [hstill.locks] at hlive
    have hanswer : ∃ answer, (r.giveBack f.world).1 = .ok answer := by
      simp [Run.giveBack, LockStore.compareAndDelete, FaultyStore.change, hworks]
    obtain ⟨answer, hanswer⟩ := hanswer
    refine FaultyStore.holder?_compareAndDelete hanswer ?_
    show (((r.giveBack f.world).2.memory.live? f.world.elapsed r.key).map Lease.holder) =
      some r.holder
    rw [hlive, ← hholder]
    rfl
  | _ =>
    rw [hphase] at hreleasing
    cases hreleasing

/-- The run that has its lock under the number of a task is the run of that task. -/
theorem Holds.run_eq (hs : f.Sound) (hholds : f.Holds t' r' since) (ht : t ∈ f.tasks)
    (hactivity : t.activity = .run i r c) (hnumber : t'.number = t.number) : r' = r := by
  have hrun := hholds.run
  rw [hs.task_unique hholds.mem ht hnumber, Task.run?_of_activity hactivity] at hrun
  exact (Option.some.inj hrun).symm

/-- A run that has its lock has it after a piece, unless the piece gives it back. -/
theorem holds_piece (hs : f.Sound) (ht : t ∈ f.tasks) (hactivity : t.activity = .run i r c)
    (hadvances : r.Advances f.world p w) (hholds : f.Holds t' r' since)
    (hnot : t'.number = t.number → r.phase.isReleasing = false) :
    ∃ t₁ r₁, (f.afterRun t i c (p, w)).Holds t₁ r₁ since ∧ r'.Same r₁ := by
  by_cases hnumber : t'.number = t.number
  · -- it is the run that makes the piece
    obtain rfl := hholds.run_eq hs ht hactivity hnumber
    obtain ⟨r₁, hrest, hsince⟩ := hadvances.keeps_lock hholds.since (hnot hnumber)
    obtain ⟨state, hstate⟩ := Progress.state?_of_run? hrest
    exact ⟨_, r₁, ⟨parked_afterRun hrest hstate, rfl, hsince⟩, hadvances.same hrest⟩
  · exact ⟨t', r', ⟨keeps_afterRun hs hholds.mem hholds.run hnumber, hholds.run, hholds.since⟩,
      Run.Same.refl r'⟩

/-- A piece keeps the live leases backed, if the store works. -/
theorem backed_piece (hs : f.Sound) (hworks : f.world.locks.failing = []) (hbacked : f.Backed)
    (ht : t ∈ f.tasks) (hactivity : t.activity = .run i r c) (hadvances : r.Advances f.world p w) :
    (f.afterRun t i c (p, w)).Backed := by
  intro key lease hlive
  obtain hold | ⟨hrest, rfl, rfl⟩ := leaseOf_origin hs hadvances hlive
  · obtain ⟨t', r', since, hholds, rfl, rfl⟩ := hbacked key lease hold
    have hnot : t'.number = t.number → r.phase.isReleasing = false := by
      intro hnumber
      obtain rfl := hholds.run_eq hs ht hactivity hnumber
      by_contra hreleasing
      -- it would have given back this very lease
      exact holder_ne_of_released hs hadvances (by simpa using hreleasing) hworks hlive rfl
    obtain ⟨t₁, r₁, hholds₁, hsame⟩ := holds_piece hs ht hactivity hadvances hholds hnot
    exact ⟨t₁, r₁, since, hholds₁, hsame.key, hsame.lease since⟩
  · obtain ⟨state, hstate⟩ := Progress.state?_of_run? hrest
    exact ⟨_, _, _, ⟨parked_afterRun hrest hstate, rfl, rfl⟩, rfl, rfl⟩

/-! ## Any row -/

theorem backed_happens (hs : f.Sound) (hworks : f.world.locks.failing = []) (hbacked : f.Backed)
    (h : f.Happens m g) :
    g.Backed := by
  cases h with
  | calm h =>
    intro key lease hlive
    unfold leaseOf at hlive
    rw [h.still.locks, h.still.elapsed] at hlive
    obtain ⟨t, r, since, hholds, hkey, hlease⟩ := hbacked key lease hlive
    exact ⟨t, r, since, ⟨h.keeps t hholds.mem r hholds.run, hholds.run, hholds.since⟩, hkey, hlease⟩
  | passed moment =>
    intro key lease hlive
    obtain ⟨hlookup, hlater⟩ := MemoryStore.live?_eq_some.1 hlive
    -- a lease that is not over now was not over before
    have hbefore : f.leaseOf key = some lease :=
      MemoryStore.live?_eq_some.2 ⟨hlookup, Nat.lt_of_le_of_lt (Nat.le_max_left _ _) hlater⟩
    obtain ⟨t, r, since, hholds, hkey, hlease⟩ := hbacked key lease hbefore
    obtain ⟨t', ht', -, hactivity⟩ := exists_mem_passTo moment hholds.mem
    exact ⟨t', r, since, ⟨ht', by rw [Task.run?_congr hactivity]; exact hholds.run, hholds.since⟩,
      hkey, hlease⟩
  | failed operations =>
    intro key lease hlive
    obtain ⟨t, r, since, hholds, hkey, hlease⟩ := hbacked key lease hlive
    exact ⟨t, r, since, ⟨hholds.mem, hholds.run, hholds.since⟩, hkey, hlease⟩
  | piece ht hactivity hadvances => exact backed_piece hs hworks hbacked ht hactivity hadvances

end

section

variable {f : Fleet FaultyStore} {row before point : List Occurrence} {n i : Nat}
    {r : Run} {c : Caller}

theorem backed_through (hs : f.Sound) (hnew : f.world.locks.memory = {})
    (hworks : ∀ point, point <+: row → (f.through point).world.locks.failing = []) :
    ∀ point, point <+: row → (f.through point).Backed := by
  refine prefix_induction ?_ ?_
  · intro key lease hlive
    have hlookup : f.world.locks.memory.lookup key = some lease :=
      (MemoryStore.live?_eq_some.1 hlive).1
    rw [hnew] at hlookup
    cases hlookup
  · intro point o hpre ih
    have hsound := sound_through hs point
    rw [through_concat]
    exact backed_happens hsound (hworks point ((List.prefix_append point [o]).trans hpre)) ih
      (occur_happens hsound o)

/-- The key of a run is that of its lock, under the one key prefix. -/
theorem key_through (hs : f.Sound) {keyPrefix : String}
    (hkeyed : ∀ s ∈ f.schedulers, s.lock.keyPrefix = keyPrefix) {t : Task}
    (ht : t ∈ (f.through point).tasks) (hrun : t.run? = some r) :
    r.key = keyPrefix ++ ":" ++ r.lockId := by
  have hguard := (sound_through hs point).guarded t ht r hrun
  rw [guards_through hs] at hguard
  obtain ⟨s, hmem, hsame⟩ := List.mem_map.1 hguard
  have hlock : r.guard.lock.keyPrefix = keyPrefix := by
    rw [← hsame]
    exact hkeyed s hmem
  unfold Run.key Lock.key
  rw [hlock]

/-! ## Runs that ask -/

/-- A run that is there after an occurrence is new, or was there before; and if it still asks for
    its lock, it did so before. -/
theorem asking_happens {g : Fleet FaultyStore} {m : Move} (hs : f.Sound) (h : f.Happens m g)
    (hbelow : n < f.nextNumber) (hdoes : g.Does n (.run i r c)) :
    ∃ i₀ r₀ c₀, f.Does n (.run i₀ r₀ c₀) ∧ r₀.Same r ∧
      (r.phase.since? = none → r₀.phase.since? = none) := by
  obtain ⟨t, ht, rfl, hactivity⟩ := hdoes
  have hrun : t.run? = some r := Task.run?_of_activity hactivity
  have hstays : f.Does t.number (.run i r c) →
    ∃ i₀ r₀ c₀, f.Does t.number (.run i₀ r₀ c₀) ∧ r₀.Same r ∧
      (r.phase.since? = none → r₀.phase.since? = none) :=
      fun hold => ⟨i, r, c, hold, Run.Same.refl r, id⟩
  cases h with
  | calm h =>
    rcases h.adds t ht r hrun with hold | ⟨hnew, -⟩
    · exact hstays ⟨t, hold, rfl, hactivity⟩
    · exact absurd hbelow (Nat.not_lt.2 hnew)
  | passed moment => exact hstays ((does_passTo moment).1 ⟨t, ht, rfl, hactivity⟩)
  | failed operations => exact hstays ⟨t, ht, rfl, hactivity⟩
  | @piece t₀ i₀ r₀ c₀ p w ht₀ hactivity₀ hadvances =>
    rcases mem_afterRun hs ht hrun with ⟨hold, -⟩ | ⟨hnumber, hrest, -⟩
    · exact hstays ⟨t, hold, rfl, hactivity⟩
    · exact ⟨i₀, r₀, c₀, ⟨t₀, ht₀, hnumber.symm, hactivity₀⟩, hadvances.same hrest,
        fun hnone => (hadvances.asked hrest hnone).1⟩

/-- A run was there at every earlier point at which its number had been given out; and if it still
    asks for its lock, it did so there. -/
theorem run_origin (hs : f.Sound) (hbelow : n < (f.through before).nextNumber)
    (hpre : before <+: point) (hdoes : (f.through point).Does n (.run i r c)) :
    ∃ i₀ r₀ c₀, (f.through before).Does n (.run i₀ r₀ c₀) ∧ r₀.Same r ∧
      (r.phase.since? = none → r₀.phase.since? = none) := by
  have hall : ∀ mid, before <+: mid → mid <+: point → n < (f.through mid).nextNumber ∧
      ∀ i r c, (f.through mid).Does n (.run i r c) →
        ∃ i₀ r₀ c₀, (f.through before).Does n (.run i₀ r₀ c₀) ∧ r₀.Same r ∧
        (r.phase.since? = none → r₀.phase.since? = none) := by
    refine prefix_induction_from ⟨hbelow,
      fun i r c hdoes => ⟨i, r, c, hdoes, Run.Same.refl r, id⟩⟩ ?_
    intro mid o _ _ ih
    obtain ⟨hnumber, horigin⟩ := ih
    have hhappens := occur_happens (sound_through hs mid) o
    rw [through_concat]
    refine ⟨Nat.lt_of_lt_of_le hnumber hhappens.nextNumber, ?_⟩
    intro i r c hdoes
    obtain ⟨i₁, r₁, c₁, hdoes₁, hsame₁, hnone₁⟩ :=
      asking_happens (sound_through hs mid) hhappens hnumber hdoes
    obtain ⟨i₀, r₀, c₀, hdoes₀, hsame₀, hnone₀⟩ := horigin i₁ r₁ c₁ hdoes₁
    exact ⟨i₀, r₀, c₀, hdoes₀, hsame₀.trans hsame₁, fun hnone => hnone₀ (hnone₁ hnone)⟩
  exact (hall point hpre List.prefix_rfl).2 i r c hdoes

/-- The turn of a run is its next piece. -/
theorem through_turn (hs : f.Sound) (hdoes : (f.through before).Does n (.run i r c)) :
    ∃ t ∈ (f.through before).tasks, t.number = n ∧ t.activity = .run i r c ∧
      f.through (before ++ [.move (.turn n)]) =
        (f.through before).afterRun t i c (r.advance (f.through before).world) := by
  obtain ⟨t, ht, rfl, hactivity⟩ := hdoes
  refine ⟨t, ht, rfl, hactivity, ?_⟩
  rw [through_concat]
  exact make_turn ((sound_through hs before).task?_eq ht) hactivity

/-- At each turn of a run that still asks for its lock, or is skipped, the store has not said
    yes. -/
theorem refused_before (hs : f.Sound) (hdoes : (f.through point).Does n (.run i r c))
    {w : World FaultyStore} (hskip : r.advance (f.through point).world = (.ended .skipped, w))
    (hpre : before ++ [.move (.turn n)] <+: point ++ [.move (.turn n)]) {i₀ : Nat}
    {r₀ : Run} {c₀ : Caller} (hdoes₀ : (f.through before).Does n (.run i₀ r₀ c₀)) :
    r₀.Same r ∧ r₀.phase.since? = none ∧ (r₀.ask (f.through before).world).1 ≠ .ok true := by
  have hskipped : r.Advances (f.through point).world (.ended .skipped) w := by
    have hadvances := r.advances (f.through point).world
    rw [hskip] at hadvances
    exact hadvances
  obtain ⟨hnone, hno⟩ := hskipped.of_skipped
  have hbelow := (sound_through hs before).lt_of_does hdoes₀
  rcases List.prefix_concat_iff.1 hpre with heq | hpoint
  · -- the turn in which it is skipped
    obtain ⟨rfl, -⟩ := List.append_inj' heq rfl
    cases (sound_through hs before).does_unique hdoes hdoes₀
    exact ⟨Run.Same.refl r, hnone, hno⟩
  · obtain ⟨t, ht, rfl, hactivity, hthrough⟩ := through_turn hs hdoes₀
    have hnext : t.number < (f.through (before ++ [.move (.turn t.number)])).nextNumber := by
      rw [hthrough, nextNumber_afterRun]
      exact hbelow
    obtain ⟨i₁, r₁, c₁, hdoes₁, hsame₁, hnone₁⟩ := run_origin hs hnext hpoint hdoes
    rw [hthrough] at hdoes₁
    obtain ⟨hne, -⟩ | ⟨-, hrest⟩ := ((acts_afterRun i₀ c₀ _ _).does _ _).1 hdoes₁
    · exact absurd rfl hne
    · obtain ⟨r₂, hrun, hactivity₂⟩ := Option.map_eq_some_iff.1 hrest
      injection hactivity₂ with _ hr₂ _
      subst hr₂
      have hadvances := r₀.advances (f.through before).world
      exact ⟨(hadvances.same hrun).trans hsame₁, hadvances.asked hrun (hnone₁ hnone)⟩

end

/-- **Skipped by a holder.**  Whatever happens in a fleet whose schedulers share one new store that
    never fails and one key prefix, and however long bodies last: when a run ends skipped, then at
    each of its attempts another run had the lock, and the lease that was in the way was that run's.
    The other run is of the same job and kind, or one of the two is manual and the other is a
    scheduled run of a job that has the identity of the first with the suffix of manual locks. -/
theorem skipped_by_holder {f : Fleet FaultyStore} {row point : List Occurrence} (hfresh : f.Fresh)
    (hnew : f.world.locks.memory = {})
    (hworks : ∀ point, point <+: row → (f.through point).world.locks.failing = [])
    {keyPrefix : String} (hkeyed : ∀ s ∈ f.schedulers, s.lock.keyPrefix = keyPrefix) {n i : Nat}
    {r : Run} {c : Caller} (hpre : point ++ [.move (.turn n)] <+: row)
    (hdoes : (f.through point).Does n (.run i r c))
    (hskip : (r.advance (f.through point).world).1 = .ended .skipped) :
    ∀ before i₀ r₀ c₀, before ++ [.move (.turn n)] <+: point ++ [.move (.turn n)] →
      (f.through before).Does n (.run i₀ r₀ c₀) →
      r₀.Same r ∧ ∃ t r' since, (f.through before).Holds t r' since ∧ t.number ≠ n ∧
        (f.through before).leaseOf r₀.key = some (r'.lease since) ∧ r₀.SharesLock r' := by
  intro before i₀ r₀ c₀ hturn hdoes₀
  have hs := hfresh.sound
  have hbefore : before <+: row := (List.prefix_append before _).trans (hturn.trans hpre)
  obtain ⟨hsame, hnone, hno⟩ := refused_before hs hdoes (Prod.ext hskip rfl) hturn hdoes₀
  -- the lease that is in the way is that of a run that has its lock
  obtain ⟨lease, hlive⟩ := FaultyStore.live?_of_refused (hworks before hbefore) hno
  obtain ⟨t, r', since, hholds, hkey, rfl⟩ :=
    backed_through hs hnew hworks before hbefore r₀.key lease hlive
  refine ⟨hsame, t, r', since, hholds, ?_, hlive, ?_⟩
  · intro hnumber
    obtain ⟨j, c', hactivity⟩ := Task.activity_of_run? hholds.run
    have hactivities := (sound_through hs before).does_unique hdoes₀ ⟨t, hholds.mem,
      hnumber, hactivity⟩
    injection hactivities with _ hr _
    rw [hr, hholds.since] at hnone
    cases hnone
  · obtain ⟨t₀, ht₀, -, hactivity₀⟩ := hdoes₀
    rw [key_through hs hkeyed hholds.mem hholds.run,
      key_through hs hkeyed ht₀ (Task.run?_of_activity hactivity₀)] at hkey
    exact Run.sharesLock_iff.2 (by simpa using hkey)

/-- One of two instances runs a job.  The other asks for the lock three times, and then has no time
    left for another attempt. -/
def waitingInVain : List Occurrence :=
  [.move (.request 0 "sleeper" .scheduled .operator false), .move (.turn 0), .move (.turn 0),
    .move (.request 1 "sleeper" .scheduled .operator false), .move (.turn 1),
    .move (.pass 100), .move (.turn 1), .move (.pass 200), .move (.turn 1)]

/-- The run of the other instance. -/
def waiter (phase : RunPhase) : Run :=
  ⟨⟨⟨"job_lock", .scheduler 1, 100⟩, 600000, some 250, .ledger⟩, .sleeper 2000 [500],
    .scheduled, phase⟩

/-- Already at its first attempt another run with the same lock had it. -/
theorem skipped_by_holder_waitingInVain : ∃ t r' since,
    ((instances 2 (.sleeper 2000 [500]) (some 250)).through (waitingInVain.take 4)).Holds t r'
      since ∧ t.number ≠ 1 ∧
      (waiter .entering).SharesLock r' := by
  have hworks : ∀ point ∈ waitingInVain.inits,
      ((instances 2 (.sleeper 2000 [500]) (some 250)).through point).world.locks.failing = [] := by
    decide +kernel
  have hfirst : ((instances 2 (.sleeper 2000 [500]) (some 250)).through
    (waitingInVain.take 4)).task? 1 =
      some ⟨1, .run 1 (waiter .entering) .operator, .ready, false⟩ := by
    rfl
  have hlast : ((instances 2 (.sleeper 2000 [500]) (some 250)).through
    (waitingInVain.take 8)).task? 1 =
      some ⟨1, .run 1 (waiter (.polling (some 250) 2)) .operator, .due, false⟩ := by
    rfl
  have hbegins := does_of_mem (task?_eq_some hfirst).1
  have hends := does_of_mem (task?_eq_some hlast).1
  obtain ⟨-, t, r', since, hholds, hne, -, hshares⟩ := skipped_by_holder (fresh_instances 2 _ _) rfl
    (fun point hpoint => hworks point ((List.mem_inits point _).2 hpoint))
      (keyPrefix_instances 2 _ _)
    (List.take_prefix 9 waitingInVain) hends rfl (waitingInVain.take 4) _ _ _
      (List.take_prefix 5 waitingInVain) hbegins
  exact ⟨t, r', since, hholds, hne, hshares⟩

/-- The job whose scheduled runs have the lock of the manual runs of the other one. -/
def namesake : Job := { Job.sleeper 2000 [500] with definition :=
  ⟨"sleeper_manual", "sleeper_manual", "Sleeps", .every 1, true, 0, 60, some 2000⟩ }

/-- Someone asks for a manual run of one job, and while its body runs for a scheduled run of the
    other. -/
def colliding : List Occurrence :=
  [.move (.register 0 (.sleeper 2000 [500])), .move (.register 0 namesake),
    .move (.request 0 "sleeper" .manual .operator false), .move (.turn 2), .move (.turn 2),
    .move (.request 0 "sleeper_manual" .scheduled .operator false), .move (.turn 3)]

/-- A run can be skipped while no other run of its own job and kind has a lock. -/
theorem namesake_is_skipped :
    ¬ ∀ (f : Fleet FaultyStore) (row point : List Occurrence) (keyPrefix : String) (n i : Nat)
      (r : Run) (c : Caller),
      f.Fresh → f.world.locks.memory = {} →
      (∀ point, point <+: row → (f.through point).world.locks.failing = []) →
      (∀ s ∈ f.schedulers, s.lock.keyPrefix = keyPrefix) →
      (∀ point, point <+: row → ∀ key, (f.through point).HeldInTime key) →
      point ++ [.move (.turn n)] <+: row →
      (f.through point).Does n (.run i r c) →
        (r.advance (f.through point).world).1 = .ended .skipped →
        ∃ t r' since, (f.through point).Holds t r' since ∧ r'.job.id = r.job.id ∧
        r'.kind = r.kind := by
  intro h
  have hworks : ∀ point ∈ colliding.inits, (untouched.through point).world.locks.failing = [] := by
    decide +kernel
  have hnow : ∀ point ∈ colliding.inits, (untouched.through point).world.elapsed = 0 := by
    decide +kernel
  have hfound : (untouched.through (colliding.take 6)).task? 3 =
    some ⟨3, .run 0 ⟨⟨⟨"job_lock", .scheduler 0, 100⟩, 600000, none,
      .ledger⟩, namesake, .scheduled, .entering⟩ .operator, .ready, false⟩ := by
    rfl
  -- all that have a lock are runs of the other job
  have hothers : ∀ t ∈ (untouched.through (colliding.take 6)).tasks,
      (t.run?).all (fun r => r.phase.since?.isNone || r.job.id ≠ "sleeper_manual") = true := by
    decide +kernel
  have hheld : ∀ point, point <+: colliding → ∀ key, (untouched.through point).HeldInTime key := by
    intro point hpoint key t r since _ _
    rw [hnow point ((List.mem_inits point _).2 hpoint)]
    exact Nat.lt_of_le_of_lt (Nat.zero_le since) (r.lt_leaseEnd since)
  obtain ⟨t, r', since, hholds, hid, -⟩ :=
    h untouched colliding (colliding.take 6) "job_lock" 3 0 _ _
    pristine_untouched.fresh rfl (fun point hpoint =>
      hworks point ((List.mem_inits point _).2 hpoint))
    (fun s hs => by rw [List.mem_singleton.1 hs]) hheld (List.take_prefix 7 colliding)
    (does_of_mem (task?_eq_some hfound).1) rfl
  have hother := hothers t hholds.mem
  rw [hholds.run] at hother
  simp only [Option.all_some, hholds.since, Option.isNone_some, Bool.false_or,
    decide_eq_true_eq] at hother
  exact hother hid

end Fleet

end JobFleet
