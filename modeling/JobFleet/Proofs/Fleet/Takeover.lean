/-
  JobFleet.Proofs.Fleet.Takeover: runs that come too late to give their lock back.

  A run that outlives its lease still makes its release call.  The call names the holder, and the
  holder is the instance, not the run: the lease of another instance that has taken the lock over
  meanwhile is left alone, but one that a later run of the same instance has taken is given back in
  its place.  So a lease ends by time, or by a release of its own instance, and by nothing else.  No
  run needs to be in time for this.

  Main results:
    * `lookup_happens` — a move keeps a live lease, unless it is a release by its holder.
    * `takeover_kept` — a late release leaves the leases of other instances alone, and a run that
      took a lock keeps everyone out until its instance releases the key or its lease ends.
    * `late_release_frees_successor` — within one instance a late release does free the lock of the
      run that took it over.
-/
import JobFleet.Proofs.Fleet.Exclusion

namespace JobFleet

/-- The run is about to give its lock back. -/
def RunPhase.isReleasing : RunPhase → Bool
  | .releasing _ _ => true
  | _ => false

/-- The holder that a run writes into its lease: the instance that makes the run. -/
def Run.holder (r : Run) : Holder := r.guard.lock.holder

namespace Fleet

variable {f g : Fleet FaultyStore} {m : Move} {t t' : Task} {r r' : Run}
    {key : String} {lease : Lease}

/-- The live lease of a key now. -/
def leaseOf (f : Fleet FaultyStore) (key : String) : Option Lease :=
  f.world.locks.memory.live? f.world.elapsed key

/-! ## Taking and giving back -/

/-- The next piece of a task gives its lock back. -/
structure Releases (f : Fleet FaultyStore) (t : Task) (r : Run) : Prop where
  mem : t ∈ f.tasks
  run : t.run? = some r
  phase : r.phase.isReleasing = true

/-- The next piece of a task asks the store for its lock, and the store answers yes. -/
structure Takes (f : Fleet FaultyStore) (t : Task) (r : Run) : Prop where
  mem : t ∈ f.tasks
  run : t.run? = some r
  asks : ∃ deadline number, r.Asks f.world deadline number
  yes : (r.ask f.world).1 = .ok true

/-- A run that takes its lock gets the lease that its job asks for. -/
theorem Takes.lookup (hs : f.Sound) (h : f.Takes t r) :
    (f.make (.turn t.number)).world.locks.memory.lookup r.key = some (r.lease f.world.elapsed) := by
  obtain ⟨i, c, hactivity⟩ := Task.activity_of_run? h.run
  obtain ⟨deadline, number, hasks⟩ := h.asks
  have hlocks : (f.afterRun t i c (r.advance f.world)).world.locks = (r.ask f.world).2 := by
    rw [(still_afterRun hs).locks]
    exact ((r.advances f.world).of_asks hasks).1.locks
  rw [make_turn (hs.task?_eq h.mem) hactivity, hlocks]
  exact (FaultyStore.live?_setIfAbsent h.yes).2

/-! ## Leases stay -/

/-- A move keeps a live lease, unless it is a release by its holder under its key. -/
theorem lookup_happens (hs : f.Sound) (h : f.Happens m g) (hlive : f.leaseOf key = some lease)
    (hnot : ∀ t r, m = .turn t.number → f.Releases t r → r.key = key → r.holder ≠ lease.holder) :
    g.world.locks.memory.lookup key = some lease := by
  have hlookup := (MemoryStore.live?_eq_some.1 hlive).1
  cases h with
  | calm h =>
    rw [h.still.locks]
    exact hlookup
  | passed moment => exact hlookup
  | failed operations => exact hlookup
  | @piece t i r c p w ht hactivity hadvances =>
    have hlocks : (f.afterRun t i c (p, w)).world.locks = w.locks := (still_afterRun hs).locks
    rw [hlocks]
    rcases hadvances.locks with hw | ⟨hw, -⟩ | ⟨hw, -, since, result, hphase⟩
    · rw [hw]
      exact hlookup
    · rw [hw]
      exact FaultyStore.lookup_setIfAbsent _ _ hlive
    · rw [hw]
      refine FaultyStore.lookup_compareAndDelete hlive ?_
      -- the run that releases deletes a lease of its own holder under its own key
      by_cases hkey : key = r.key
      · have hreleases : f.Releases t r :=
          ⟨ht, Task.run?_of_activity hactivity, by rw [hphase]; rfl⟩
        exact .inr (hnot t r rfl hreleases hkey.symm).symm
      · exact .inl hkey

/-- Through any moves a lease stays until it is over or its holder releases its key. -/
theorem lookup_after (hs : f.Sound) (hlookup : f.world.locks.memory.lookup key = some lease)
    {moves : List Move} (htime : (f.after moves).world.elapsed < lease.expiresAt)
    (hnot : ∀ before t r, before ++ [.turn t.number] <+: moves →
      (f.after before).Releases t r → r.key = key →
      r.holder ≠ lease.holder) : (f.after moves).world.locks.memory.lookup key = some lease := by
  have hall : ∀ before, before <+: moves →
      (f.after before).world.locks.memory.lookup key = some lease := by
    refine prefix_induction hlookup ?_
    intro before m hpre ih
    have hbefore : before <+: moves := (List.prefix_append before [m]).trans hpre
    have hsound := sound_after hs before
    -- the lease is not over yet, since it is not over after all the moves
    have hlive : (f.after before).leaseOf key = some lease :=
      MemoryStore.live?_eq_some.2 ⟨ih, Nat.lt_of_le_of_lt (elapsed_mono hs hbefore) htime⟩
    rw [after_concat]
    refine lookup_happens hsound (make_happens hsound m) hlive ?_
    rintro t r rfl hreleases hkey
    exact hnot before t r hpre hreleases hkey
  exact hall moves List.prefix_rfl

/-- Nobody gets a lock whose key has a live lease. -/
theorem attempt_of_live (hlive : f.leaseOf key = some lease) (l : Lock) {id : String}
    (hkey : l.key id = key) (ttlMillis : Nat) (deadline : Option Nat) (number : Nat) :
    (l.attempt id ttlMillis deadline number f.world).1 ≠ .acquired := by
  intro hacquired
  have hyes : (LockStore.setIfAbsent f.world.elapsed (l.key id) l.holder
    (Lock.wholeSeconds ttlMillis)
      f.world.locks).1 = .ok true := Lock.answer_of_acquired hacquired
  obtain ⟨hfree, -⟩ := FaultyStore.live?_setIfAbsent hyes
  rw [hkey] at hfree
  have hnone : f.leaseOf key = none := hfree
  rw [hnone] at hlive
  cases hlive

/-- **Takeover.** After any moves: a release, however late, leaves every live lease of another
    instance alone; and a run that takes its lock keeps everyone from acquiring it until its own
    instance releases the key or its lease ends. -/
theorem takeover_kept {f : Fleet FaultyStore} (hfresh : f.Fresh) (before : List Move) :
    (∀ t r, (f.after before).Releases t r → ∀ key lease, (f.after before).leaseOf key = some lease →
      lease.holder ≠ r.holder → ((f.after before).make (.turn t.number)).leaseOf key = some lease) ∧
    ∀ t r later, (f.after before).Takes t r →
      (f.after (before ++ .turn t.number :: later)).world.elapsed <
        r.leaseEnd (f.after before).world.elapsed →
      (∀ mid t' r', mid ++ [.turn t'.number] <+: later →
        (f.after (before ++ .turn t.number :: mid)).Releases t' r' → r'.key = r.key →
        r'.holder ≠ r.holder) →
      ∀ (l : Lock) (id : String) (ttlMillis : Nat) (deadline : Option Nat) (number : Nat),
        l.key id = r.key →
        (l.attempt id ttlMillis deadline number
          (f.after (before ++ .turn t.number :: later)).world).1 ≠ .acquired := by
  have hsound : (f.after before).Sound := sound_after hfresh.sound before
  refine ⟨?_, ?_⟩
  · intro t r hreleases key lease hlive hother
    have hhappens := make_happens hsound (.turn t.number)
    have hkept : ((f.after before).make (.turn t.number)).world.locks.memory.lookup key =
        some lease := by
      refine lookup_happens hsound hhappens hlive ?_
      intro t' r' hturn hreleases' hkey
      have hnumber : t.number = t'.number := Move.turn.inj hturn
      -- the run that makes the turn is the one that releases
      have hsame : t = t' := hsound.task_unique hreleases.mem hreleases'.mem hnumber
      have hrun : some r = some r' := by rw [← hreleases.run, ← hreleases'.run, hsame]
      cases hrun
      exact hother.symm
    refine MemoryStore.live?_eq_some.2 ⟨hkept, ?_⟩
    rw [hhappens.elapsed_turn hsound]
    exact (MemoryStore.live?_eq_some.1 hlive).2
  · intro t r later htakes htime hown l id ttlMillis deadline number hkey
    have hafter : f.after (before ++ .turn t.number :: later) =
        ((f.after before).make (.turn t.number)).after later := by
      rw [after_append, after_cons]
    have hsound' : ((f.after before).make (.turn t.number)).Sound :=
      (make_happens hsound _).sound hsound
    rw [hafter] at htime ⊢
    have hlookup := lookup_after hsound' (htakes.lookup hsound) htime ?_
    · have hlive : (((f.after before).make (.turn t.number)).after later).leaseOf r.key =
          some (r.lease (f.after before).world.elapsed) :=
          MemoryStore.live?_eq_some.2 ⟨hlookup, htime⟩
      exact attempt_of_live hlive l hkey ttlMillis deadline number
    · intro mid t' r' hpre hreleases hkey'
      refine hown mid t' r' hpre ?_ hkey'
      rw [after_append, after_cons]
      exact hreleases

/-- The second of two instances takes over when the first has outlived its lease; then the first
    releases. -/
def takingOver : List Move :=
  [.request 0 "sleeper" .scheduled .operator false, .turn 0, .turn 0, .pass 2500,
    .request 1 "sleeper" .scheduled .operator false]

/-- The run of the second instance takes the lock, its body begins, and the first run ends and
    releases. -/
def comingLate : List Move := [.turn 1, .pass 3000, .turn 0, .turn 0]

/-- The run of the second instance. -/
def successor : Run :=
  ⟨⟨⟨"job_lock", .scheduler 1, 100⟩, 600000, none, .ledger⟩, .sleeper 2000 [3000, 1500],
    .scheduled, .entering⟩

/-- The first run has released late; an attempt of a third instance fails all the same. -/
theorem takeover_kept_three_instances :
    (Lock.attempt ⟨"job_lock", .scheduler 2, 100⟩ "sleeper" 2000 none 1
      ((instances 3 (.sleeper 2000 [3000, 1500])).after (takingOver ++ .turn 1 ::
        comingLate)).world).1 ≠
        .acquired := by
  have hfound : ((instances 3 (.sleeper 2000 [3000, 1500])).after takingOver).task? 1 =
      some ⟨1, .run 1 successor .operator, .ready, false⟩ := by
    rfl
  have htakes : ((instances 3 (.sleeper 2000 [3000, 1500])).after takingOver).Takes
      ⟨1, .run 1 successor .operator, .ready, false⟩ successor :=
    ⟨(task?_eq_some hfound).1, rfl, ⟨none, 1, .inl ⟨rfl, rfl, rfl, rfl⟩⟩, rfl⟩
  -- the second instance releases nothing meanwhile
  have hnever : ∀ mid ∈ comingLate.inits, ∀ t ∈ ((instances 3 (.sleeper 2000 [3000, 1500])).after
      (takingOver ++ .turn 1 :: mid)).tasks,
        (t.run?).all (fun r => !r.phase.isReleasing || r.holder ≠ .scheduler 1) = true := by
    decide +kernel
  refine (takeover_kept (fresh_instances 3 _) takingOver).2 _ successor comingLate htakes
    ?_ ?_ _ _ _ _ _ rfl
  · decide +kernel
  · intro mid t r hpre hreleases _
    have hmid : mid <+: comingLate := (List.prefix_append mid _).trans hpre
    have hall := hnever mid ((List.mem_inits mid comingLate).2 hmid) t hreleases.mem
    have hother : r.holder ≠ .scheduler 1 := by
      rw [hreleases.run] at hall
      simpa [hreleases.phase] using hall
    exact hother

/-- Two runs of one instance: the second takes over when the first has outlived its lease; the first
    is about to release. -/
def overlapping : List Move :=
  [.request 0 "sleeper" .scheduled .operator false, .turn 0, .turn 0, .pass 2500,
    .request 0 "sleeper" .scheduled .operator false, .turn 1, .turn 1, .pass 3000, .turn 0]

/-- Within one instance a late release does remove the lease of the run that took over. -/
theorem late_release_frees_successor :
    ¬ ∀ (f : Fleet FaultyStore), f.Fresh → ∀ before t r since, (f.after before).Holds t r since →
      (f.after before).Releases t r → r.leaseEnd since ≤ (f.after before).world.elapsed →
      ∀ lease, (f.after before).leaseOf r.key = some lease →
        ((f.after before).make (.turn t.number)).leaseOf r.key = some lease := by
  intro h
  have hlate : (((instances 1 (.sleeper 2000 [3000, 1500])).after overlapping).tasks.any fun t =>
      t.number = 0 && (t.run?).any fun r => r.phase.isReleasing && r.phase.since? = some 0 &&
        r.key = "job_lock:sleeper" && r.leaseEnd 0 = 2000) = true := by
    decide +kernel
  simp only [List.any_eq_true, Option.any_eq_true, Bool.and_eq_true, decide_eq_true_eq] at hlate
  obtain ⟨t, ht, hnumber, r, hrun, ⟨⟨hreleasing, hsince⟩, hkey⟩, hend⟩ := hlate
  have htime : ((instances 1 (.sleeper 2000 [3000, 1500])).after overlapping).world.elapsed =
      3000 := by
    decide +kernel
  have hbefore : ((instances 1 (.sleeper 2000 [3000, 1500])).after overlapping).leaseOf
    "job_lock:sleeper" =
      some ⟨.scheduler 0, 4500⟩ := by
    decide +kernel
  have hafter : (((instances 1 (.sleeper 2000 [3000, 1500])).after overlapping).make
    (.turn 0)).leaseOf
      "job_lock:sleeper" = none := by
    decide +kernel
  have hkept := h _ (fresh_instances 1 _) overlapping t r 0 ⟨ht, hrun, hsince⟩ ⟨ht,
    hrun, hreleasing⟩
    (by rw [hend, htime]; decide) ⟨.scheduler 0, 4500⟩ (by rw [hkey]; exact hbefore)
  rw [hnumber, hkey, hafter] at hkept
  cases hkept

end Fleet

end JobFleet
