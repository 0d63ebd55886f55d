/-
  JobFleet.Proofs.Fleet.LeaseTime: how much of a declared time a lease keeps.

  The store counts whole seconds, and a time in milliseconds is rounded down on its way there,
  though never to nothing when a lock is taken.  So a lease lasts as long as its job declares
  exactly if that is a number of whole seconds, or less than one; otherwise it ends early, by less
  than a second.  Lengthening a lock rounds down as well.

  Main results:
    * `le_wholeSeconds_iff`, `le_seconds_iff` — when rounding down loses nothing.
    * `lease_keeps_whole_seconds` — what a lease keeps of its time, and that nobody takes the lock
      before it ends.
    * `lease_loses_fraction` — a run of another instance can begin although the declared time has
      not passed.
-/
import JobFleet.Proofs.Fleet.Takeover

namespace JobFleet

namespace Lock

/-! ## Rounding -/

/-- Rounding a time to live loses nothing of whole seconds, nor of a time below one second. -/
theorem le_wholeSeconds_iff (ttlMillis : Nat) :
    ttlMillis ≤ 1000 * wholeSeconds ttlMillis ↔ ttlMillis % 1000 = 0 ∨ ttlMillis < 1000 := by
  unfold wholeSeconds
  omega

/-- It loses less than a second. -/
theorem lt_wholeSeconds (ttlMillis : Nat) : ttlMillis < 1000 * wholeSeconds ttlMillis + 1000 := by
  unfold wholeSeconds
  omega

/-- Rounding a time by which a lock is lengthened loses nothing of whole seconds only. -/
theorem le_seconds_iff (extraMillis : Nat) : extraMillis ≤ 1000 * (extraMillis / 1000) ↔
    extraMillis % 1000 = 0 := by
  omega

/-! ## Lengthening -/

/-- Lengthening is one call on the store, and says yes when the store does. -/
theorem extend_eq_true {l : Lock} {id : String} {extraMillis : Nat} {w : World FaultyStore}
    (h : (l.extend id extraMillis w).1 = true) :
    (LockStore.compareAndExtend w.elapsed (l.key id) l.holder (extraMillis / 1000) w.locks).1 =
      .ok true ∧
      (l.extend id extraMillis w).2.locks =
        (LockStore.compareAndExtend w.elapsed (l.key id) l.holder (extraMillis /
          1000) w.locks).2 := by
  unfold extend World.compareAndExtend at h ⊢
  generalize LockStore.compareAndExtend w.elapsed (l.key id) l.holder (extraMillis / 1000) w.locks =
    answered at h ⊢
  obtain ⟨answer, locks⟩ := answered
  cases answer with
  | error e => cases h
  | ok yes =>
    cases yes with
    | true => exact ⟨rfl, rfl⟩
    | false => cases h

/-- What a lock that is lengthened with success has gained: the whole seconds of the time that was
    given. -/
theorem extend_lengthens {l : Lock} {id : String} {extraMillis : Nat} {w : World FaultyStore}
    (h : (l.extend id extraMillis w).1 = true) :
    ∃ lease lease', w.locks.memory.live? w.elapsed (l.key id) = some lease ∧
      lease.holder = l.holder ∧
      (l.extend id extraMillis w).2.locks.memory.live? w.elapsed (l.key id) = some lease' ∧
      lease'.holder = l.holder ∧
      (lease.expiresAt + extraMillis ≤ lease'.expiresAt ↔ extraMillis % 1000 = 0) ∧
      lease.expiresAt + extraMillis < lease'.expiresAt + 1000 := by
  obtain ⟨hyes, hlocks⟩ := extend_eq_true h
  obtain ⟨lease, hlive, hholder, hlive'⟩ := FaultyStore.live?_compareAndExtend hyes
  refine ⟨lease, ⟨l.holder, lease.expiresAt + 1000 * (extraMillis / 1000)⟩, hlive,
    hholder, ?_, rfl, ?_, ?_⟩
  · rw [hlocks]
    exact hlive'
  · rw [← le_seconds_iff]
    exact Nat.add_le_add_iff_left
  · show _ < lease.expiresAt + 1000 * (extraMillis / 1000) + 1000
    omega

end Lock

namespace Fleet

variable {f : Fleet FaultyStore} {moves : List Move} {t : Task} {r : Run}
    {key : String} {lease : Lease}

/-- Nobody takes a lock whose key has a live lease. -/
theorem Takes.key_ne (h : f.Takes t r) (hlive : f.leaseOf key = some lease) : r.key ≠ key := by
  intro hkey
  obtain ⟨hfree, -⟩ := FaultyStore.live?_setIfAbsent h.yes
  have hnone : f.leaseOf r.key = none := hfree
  rw [hkey, hlive] at hnone
  cases hnone

/-- A run that takes its lock has the lease from the next moment on. -/
theorem Takes.leaseOf (hs : f.Sound) (h : f.Takes t r) :
    (f.make (.turn t.number)).leaseOf r.key = some (r.lease f.world.elapsed) := by
  refine MemoryStore.live?_eq_some.2 ⟨h.lookup hs, ?_⟩
  rw [(make_happens hs (.turn t.number)).elapsed_turn hs]
  show f.world.elapsed < f.world.elapsed + 1000 * max (r.guard.ttlOf r.job / 1000) 1
  omega

/-- Until a lease is over no run takes its key, unless its holder gives the key back before. -/
theorem key_ne_of_leaseOf (hs : f.Sound) (hlive : f.leaseOf key = some lease)
    (hearly : (f.after moves).world.elapsed < lease.expiresAt)
    (hown : ∀ mid t r, mid ++ [.turn t.number] <+: moves → (f.after mid).Releases t r →
      r.key = key → r.holder ≠ lease.holder)
    (htakes : (f.after moves).Takes t r) : r.key ≠ key := by
  have hkept := lookup_after hs (MemoryStore.live?_eq_some.1 hlive).1 hearly hown
  exact htakes.key_ne (MemoryStore.live?_eq_some.2 ⟨hkept, hearly⟩)

/-- **Declared times.**  Whatever happens in a fleet, and whatever store operations fail: a run that
    takes its lock gets a lease for the whole seconds of its declared time, and at least for one.
    So the lease does not end before that time exactly if this is a number of whole seconds or less
    than one, and it never ends a second early.  Until it ends no run takes the lock, unless the
    instance gives the key back before.  And a lock that is lengthened with success lasts longer by
    the whole seconds of the time that was given. -/
theorem lease_keeps_whole_seconds {f : Fleet FaultyStore} (hfresh : f.Fresh) (before : List Move) :
    (∀ t r, (f.after before).Takes t r → ∃ lease,
      ((f.after before).make (.turn t.number)).leaseOf r.key = some lease ∧
      lease.holder = r.holder ∧
      ((f.after before).world.elapsed + r.guard.ttlOf r.job ≤ lease.expiresAt ↔
        r.guard.ttlOf r.job % 1000 = 0 ∨ r.guard.ttlOf r.job < 1000) ∧
      (f.after before).world.elapsed + r.guard.ttlOf r.job < lease.expiresAt + 1000 ∧
      ∀ later, (f.after (before ++ .turn t.number :: later)).world.elapsed < lease.expiresAt →
        (∀ mid t' r', mid ++ [.turn t'.number] <+: later →
          (f.after (before ++ .turn t.number :: mid)).Releases t' r' →
          r'.key = r.key → r'.holder ≠ r.holder) →
        ∀ t' r', (f.after (before ++ .turn t.number :: later)).Takes t' r' → r'.key ≠ r.key) ∧
    ∀ (l : Lock) (id : String) (extraMillis : Nat) (w : World FaultyStore),
      (l.extend id extraMillis w).1 = true →
      ∃ lease lease', w.locks.memory.live? w.elapsed (l.key id) = some lease ∧
        lease.holder = l.holder ∧
        (l.extend id extraMillis w).2.locks.memory.live? w.elapsed (l.key id) = some lease' ∧
        lease'.holder = l.holder ∧
        (lease.expiresAt + extraMillis ≤ lease'.expiresAt ↔ extraMillis % 1000 = 0) ∧
        lease.expiresAt + extraMillis < lease'.expiresAt + 1000 := by
  have hsound : (f.after before).Sound := sound_after hfresh.sound before
  refine ⟨?_, ?_⟩
  · intro t r htakes
    have hsound' : ((f.after before).make (.turn t.number)).Sound :=
      (make_happens hsound _).sound hsound
    have hlease := htakes.leaseOf hsound
    -- the lease is for the whole seconds of the declared time
    refine ⟨r.lease (f.after before).world.elapsed, hlease, rfl, ?_, ?_, ?_⟩
    · rw [← Lock.le_wholeSeconds_iff]
      exact Nat.add_le_add_iff_left
    · have hlost := Lock.lt_wholeSeconds (r.guard.ttlOf r.job)
      show _ < (f.after before).world.elapsed + 1000 *
        Lock.wholeSeconds (r.guard.ttlOf r.job) + 1000
      omega
    · intro later hearly hown t' r' htakes'
      -- the rest of the row starts where the lock was taken
      have hsplit : ∀ rest, f.after (before ++ .turn t.number :: rest) =
          ((f.after before).make (.turn t.number)).after rest := by
        intro rest
        rw [after_append, after_cons]
      rw [hsplit] at hearly htakes'
      refine key_ne_of_leaseOf hsound' hlease hearly ?_ htakes'
      intro mid t' r' hpre hreleases hkey
      refine hown mid t' r' hpre ?_ hkey
      rw [hsplit]
      exact hreleases
  · exact fun l id extraMillis w hextend => Lock.extend_lengthens hextend

/-- One instance runs a job whose time to live is two and a half seconds, and whose body ends in
    time.  After two seconds the other instance is to run it as well. -/
def cutShort : List Move :=
  [.request 0 "sleeper" .scheduled .operator false, .turn 0, .turn 0, .pass 2200,
    .request 1 "sleeper" .scheduled .operator false]

/-- The run of an instance at its beginning. -/
def beginner (i : Nat) (ttlMillis : Nat) (sleeps : List Nat) : Run :=
  ⟨⟨⟨"job_lock", .scheduler i, 100⟩, 600000, none, .ledger⟩, .sleeper ttlMillis sleeps,
    .scheduled, .entering⟩

/-- The lease of a time to live of three seconds lasts for three seconds. -/
theorem lease_keeps_whole_seconds_three : ∃ lease,
    ((instances 1 (.sleeper 3000 [500])).after [.request 0 "sleeper" .scheduled .operator false,
      .turn 0]).leaseOf
      "job_lock:sleeper" = some lease ∧ 3000 ≤ lease.expiresAt := by
  have hfound : ((instances 1 (.sleeper 3000 [500])).after
    [.request 0 "sleeper" .scheduled .operator false]).task? 0 =
      some ⟨0, .run 0 (beginner 0 3000 [500]) .operator, .ready, false⟩ := by
    rfl
  have htakes : ((instances 1 (.sleeper 3000 [500])).after
    [.request 0 "sleeper" .scheduled .operator false]).Takes
      ⟨0, .run 0 (beginner 0 3000 [500]) .operator, .ready, false⟩ (beginner 0 3000 [500]) :=
    ⟨(task?_eq_some hfound).1, rfl, ⟨none, 1, .inl ⟨rfl, rfl, rfl, rfl⟩⟩, rfl⟩
  obtain ⟨lease, hlive, -, hends, -⟩ :=
    (lease_keeps_whole_seconds (fresh_instances 1 _) _).1 _ _ htakes
  refine ⟨lease, hlive, ?_⟩
  have hkept := hends.2 (.inl rfl)
  have htime : ((instances 1 (.sleeper 3000 [500])).after
      [.request 0 "sleeper" .scheduled .operator false]).world.elapsed = 0 := rfl
  rw [htime] at hkept
  exact Nat.le_trans (Nat.le_of_eq (Nat.zero_add _).symm) hkept

/-- Within the declared time of a run that has not given its lock back another run can take the
    lock. -/
theorem lease_loses_fraction :
    ¬ ∀ (f : Fleet FaultyStore), f.Fresh → ∀ before t r later, (f.after before).Takes t r →
      (f.after (before ++ .turn t.number :: later)).world.elapsed <
        (f.after before).world.elapsed + r.guard.ttlOf r.job →
      (∀ mid, mid <+: later →
        ∀ t' r', ¬ (f.after (before ++ .turn t.number :: mid)).Releases t' r') →
      ∀ t' r', (f.after (before ++ .turn t.number :: later)).Takes t' r' → r'.key ≠ r.key := by
  intro h
  have hfirst : ((instances 2 (.sleeper 2500 [2400])).after (cutShort.take 1)).task? 0 =
      some ⟨0, .run 0 (beginner 0 2500 [2400]) .operator, .ready, false⟩ := by
    rfl
  have hsecond : ((instances 2 (.sleeper 2500 [2400])).after cutShort).task? 1 =
      some ⟨1, .run 1 (beginner 1 2500 [2400]) .operator, .ready, false⟩ := by
    rfl
  have htakes : ((instances 2 (.sleeper 2500 [2400])).after (cutShort.take 1)).Takes
      ⟨0, .run 0 (beginner 0 2500 [2400]) .operator, .ready, false⟩ (beginner 0 2500 [2400]) :=
    ⟨(task?_eq_some hfirst).1, rfl, ⟨none, 1, .inl ⟨rfl, rfl, rfl, rfl⟩⟩, rfl⟩
  have htakes' : ((instances 2 (.sleeper 2500 [2400])).after cutShort).Takes
      ⟨1, .run 1 (beginner 1 2500 [2400]) .operator, .ready, false⟩ (beginner 1 2500 [2400]) :=
    ⟨(task?_eq_some hsecond).1, rfl, ⟨none, 1, .inl ⟨rfl, rfl, rfl, rfl⟩⟩, rfl⟩
  have htime : ((instances 2 (.sleeper 2500 [2400])).after cutShort).world.elapsed <
      ((instances 2 (.sleeper 2500 [2400])).after (cutShort.take 1)).world.elapsed + 2500 := by
    decide +kernel
  -- the body of the first run has not ended
  have hnever : ∀ mid ∈ (cutShort.drop 2).inits, ∀ t ∈ ((instances 2 (.sleeper 2500 [2400])).after
      (cutShort.take 1 ++ .turn 0 :: mid)).tasks, (t.run?).all (fun r =>
      !r.phase.isReleasing) = true := by
    decide +kernel
  refine h _ (fresh_instances 2 _) (cutShort.take 1) _ _
    (cutShort.drop 2) htakes htime ?_ _ _ htakes' rfl
  intro mid hmid t r hreleases
  have hall := hnever mid ((List.mem_inits mid _).2 hmid) t hreleases.mem
  rw [hreleases.run] at hall
  simp [hreleases.phase] at hall

end Fleet

end JobFleet
