/-
  JobFleet.Proofs.Fleet.Exclusion: no two bodies run under one lock.

  As long as every run under a key gives its lock back before the lease of the lock ends, the store
  has a live lease for a run that has the key, and no two runs have it.  `Leased` is this invariant.
  It is kept by every move, whatever store operations fail: setting a key keeps live leases, and
  only the run that has a lock gives it back.  Runs under other keys may outlive their leases.

  Main results:
    * `leased_happens` — one move keeps the invariant.
    * `leased_after` — so it holds after any moves.
    * `bodies_exclude` — at no point do two bodies run under one key, and the records of runs of one
      job and kind are of times that do not meet.
-/
import Mathlib.Data.List.Infix
import JobFleet.Proofs.Fleet.Moves
import JobFleet.Proofs.Lock.Lease

namespace JobFleet

open JobFleet.Time

/-- The end of the lease of a lock that a run took at a moment. -/
def Run.leaseEnd (r : Run) (since : Nat) :
    Nat := since + 1000 * Lock.wholeSeconds (r.guard.ttlOf r.job)

/-- The lease of a lock that a run took at a moment. -/
def Run.lease (r : Run) (since : Nat) : Lease := ⟨r.guard.lock.holder, r.leaseEnd since⟩

/-- The lease of a run stays the same through its life. -/
theorem Run.Same.lease {r r' : Run} (h : r.Same r') (since : Nat) :
    r'.lease since = r.lease since := by
  unfold Run.lease Run.leaseEnd
  rw [h.guard, h.job]

/-- An instant lies in the time of a record, to which its beginning belongs but not its end. -/
def Report.Covers (record : Report) (instant : Instant) : Prop :=
  record.startedAt ≤ instant ∧ instant < record.finishedAt

/-- No instant lies in the times of two records of which one ends before the other begins. -/
theorem Report.not_covers {ρ ρ' : Report} (h : ρ.finishedAt ≤ ρ'.startedAt) (instant : Instant) :
    ¬ (ρ.Covers instant ∧ ρ'.Covers instant) := by
  rintro ⟨⟨-, hend⟩, hbegin, -⟩
  have hend : instant.nanos < ρ.finishedAt.nanos := hend
  have hbegin : ρ'.startedAt.nanos ≤ instant.nanos := hbegin
  have h : ρ.finishedAt.nanos ≤ ρ'.startedAt.nanos := h
  omega

namespace Fleet

variable {f g : Fleet FaultyStore} {m : Move} {key : String} {t t' : Task} {r r' : Run}
    {since since' : Nat}

/-! ## Runs that have their lock -/

/-- A task is a run that has had its lock since a moment. -/
structure Holds (f : Fleet FaultyStore) (t : Task) (r : Run) (since : Nat) : Prop where
  mem : t ∈ f.tasks
  run : t.run? = some r
  since : r.phase.since? = some since

/-- Every run that has the lock with a key has had it for less than the lease lasts. -/
def HeldInTime (f : Fleet FaultyStore) (key : String) : Prop :=
  ∀ t r since, f.Holds t r since → r.key = key → f.world.elapsed < r.leaseEnd since

/-- Whether locks are held in time can be decided task by task. -/
theorem heldInTime_iff : f.HeldInTime key ↔
    ∀ t ∈ f.tasks, ∀ r ∈ t.run?, ∀ since ∈ r.phase.since?, r.key = key →
    f.world.elapsed < r.leaseEnd since := by
  constructor
  · exact fun h t ht r hr since hsince => h t r since ⟨ht, hr, hsince⟩
  · exact fun h t r since hholds => h t hholds.mem r hholds.run since hholds.since

instance : Decidable (f.HeldInTime key) := decidable_of_iff' _ heldInTime_iff

/-- The store knows a run that has the lock with a key, and no two runs have it. -/
structure Leased (f : Fleet FaultyStore) (key : String) : Prop where
  lease : ∀ t r since, f.Holds t r since → r.key = key →
    f.world.locks.memory.lookup key = some (r.lease since)
  alone : ∀ t t' r r' since since', f.Holds t r since → f.Holds t' r' since' →
    r.key = key → r'.key = key →
    t.number = t'.number

/-- A lock that is held in time is leased now. -/
theorem Leased.live (h : f.Leased key) (hheld : f.HeldInTime key) (hholds : f.Holds t r since)
    (hkey : r.key = key) :
    f.world.locks.memory.live? f.world.elapsed key = some (r.lease since) :=
  MemoryStore.live?_eq_some.2 ⟨h.lease t r since hholds hkey, hheld t r since hholds hkey⟩

/-! ## One move -/

/-- Runs that had their lock before a calm move are all that have one after it. -/
theorem Calm.holds (h : f.Calm g) (hholds : g.Holds t r since) : f.Holds t r since := by
  rcases h.adds t hholds.mem r hholds.run with hold | ⟨-, -, hphase⟩
  · exact ⟨hold, hholds.run, hholds.since⟩
  · have hsince := hholds.since
    rw [hphase] at hsince
    cases hsince

/-- Who has a lock after time has passed had it before. -/
theorem holds_passTo {moment : Nat} (h : (f.passTo moment).Holds t r since) :
    ∃ t₀, t₀.number = t.number ∧ f.Holds t₀ r since := by
  obtain ⟨t₀, hold, hnumber, hactivity, -⟩ := mem_passTo h.mem
  refine ⟨t₀, hnumber.symm, hold, ?_, h.since⟩
  rw [← Task.run?_congr hactivity]
  exact h.run

/-- A run that has its lock after a piece is another one that had it before, or the one that made
    the piece. -/
theorem holds_afterRun (hs : f.Sound) {i : Nat} {c : Caller} {p : Progress} {w : World FaultyStore}
    (h : (f.afterRun t i c (p, w)).Holds t' r' since') :
    (f.Holds t' r' since' ∧ t'.number ≠ t.number) ∨ (t'.number = t.number ∧ p.run? = some r') := by
  rcases mem_afterRun hs h.mem h.run with ⟨hold, hne⟩ | ⟨hnumber, hrest, -⟩
  · exact .inl ⟨⟨hold, h.run, h.since⟩, hne⟩
  · exact .inr ⟨hnumber, hrest⟩

/-- A run that has its lock after a move had it before, or was given it in the move. -/
theorem holds_happens (hs : f.Sound) (h : f.Happens m g) (hholds : g.Holds t r since) :
    (∃ t₀ r₀, t₀.number = t.number ∧ r₀.key = r.key ∧ f.Holds t₀ r₀ since) ∨
      ∃ r₀ : Run, r₀.key = r.key ∧ since = f.world.elapsed ∧ (r₀.ask f.world).1 = .ok true := by
  cases h with
  | calm h => exact .inl ⟨t, r, rfl, rfl, h.holds hholds⟩
  | passed moment =>
    obtain ⟨t₀, hnumber, hold⟩ := holds_passTo hholds
    exact .inl ⟨t₀, r, hnumber, rfl, hold⟩
  | failed operations => exact .inl ⟨t, r, rfl, rfl, hholds.mem, hholds.run, hholds.since⟩
  | @piece t₀ i r₀ c p w ht₀ hactivity hadvances =>
    rcases holds_afterRun hs hholds with ⟨hold, -⟩ | ⟨hnumber, hrest⟩
    · exact .inl ⟨t, r, rfl, rfl, hold⟩
    · have hkey := (hadvances.same hrest).key
      rcases hadvances.holds hrest hholds.since with ⟨hnow, hyes, -⟩ | ⟨hsince, -⟩
      · exact .inr ⟨r₀, hkey.symm, hnow, hyes⟩
      · exact .inl ⟨t₀, r₀, hnumber.symm, hkey.symm, ht₀, Task.run?_of_activity hactivity, hsince⟩

section

variable {p : Progress} {w : World FaultyStore}

/-- The locks of the other runs stay through a piece. -/
theorem lookup_piece (hleased : f.Leased key) (hheld : f.HeldInTime key) (ht : t ∈ f.tasks)
    (hrun : t.run? = some r) (hadvances : r.Advances f.world p w) (hother : f.Holds t' r' since')
    (hkey' : r'.key = key) (hne : t'.number ≠ t.number) :
    w.locks.memory.lookup key = some (r'.lease since') := by
  have hlive := hleased.live hheld hother hkey'
  rcases hadvances.locks with hlocks | ⟨hlocks, -⟩ | ⟨hlocks, -, since, result, hphase⟩
  · rw [hlocks]
    exact hleased.lease t' r' since' hother hkey'
  · rw [hlocks]
    exact FaultyStore.lookup_setIfAbsent _ _ hlive
  · rw [hlocks]
    -- the run that gives its lock back has that lock, so the other has another
    have hholds : f.Holds t r since := ⟨ht, hrun, by rw [hphase]; rfl⟩
    refine FaultyStore.lookup_compareAndDelete hlive (.inl ?_)
    intro hkey
    exact hne (hleased.alone t' t r' r since' since hother hholds hkey' hkey.symm)

/-- A run that made a piece and has its lock has a lease for it, and no other run has that lock. -/
theorem leased_own (hleased : f.Leased key) (hheld : f.HeldInTime key) (ht : t ∈ f.tasks)
    (hrun : t.run? = some r) (hadvances : r.Advances f.world p w) (hrest : p.run? = some r')
    (hsince : r'.phase.since? = some since') (hkey : r'.key = key) :
    w.locks.memory.lookup key = some (r'.lease since') ∧
      ∀ t₁ r₁ since₁, f.Holds t₁ r₁ since₁ → t₁.number ≠ t.number → r₁.key ≠ key := by
  have hsame := hadvances.same hrest
  rw [hsame.key] at hkey
  rcases hadvances.holds hrest hsince with ⟨rfl, hyes, hw⟩ | ⟨hbefore, hw⟩
  · -- the store has just said yes, so nobody had a live lease,
    -- and whoever has the lock would have one
    obtain ⟨hfree, hlookup⟩ := FaultyStore.live?_setIfAbsent hyes
    refine ⟨?_, ?_⟩
    · rw [hw, hsame.lease, ← hkey]
      exact hlookup
    · intro t₁ r₁ since₁ hother hne hkey₁
      have hlive := hleased.live hheld hother hkey₁
      rw [← hkey, hfree] at hlive
      cases hlive
  · have hholds : f.Holds t r since' := ⟨ht, hrun, hbefore⟩
    refine ⟨?_, ?_⟩
    · rw [hw, hsame.lease]
      exact hleased.lease t r since' hholds hkey
    · intro t₁ r₁ since₁ hother hne hkey₁
      exact hne (hleased.alone t₁ t r₁ r since₁ since' hother hholds hkey₁ hkey)

/-- A piece of a run keeps the invariant: a yes finds no live lease, and only its own lock is
    released. -/
theorem leased_piece (hs : f.Sound) (hleased : f.Leased key) (hheld : f.HeldInTime key)
    {i : Nat} {c : Caller} (ht : t ∈ f.tasks) (hactivity : t.activity = .run i r c)
    (hadvances : r.Advances f.world p w) :
    (f.afterRun t i c (p, w)).Leased key := by
  have hrun : t.run? = some r := Task.run?_of_activity hactivity
  refine ⟨?_, ?_⟩
  · intro t' r' since' h hkey
    rw [(still_afterRun hs).locks]
    rcases holds_afterRun hs h with ⟨hother, hne⟩ | ⟨-, hrest⟩
    · exact lookup_piece hleased hheld ht hrun hadvances hother hkey hne
    · exact (leased_own hleased hheld ht hrun hadvances hrest h.since hkey).1
  · intro t₁ t₂ r₁ r₂ since₁ since₂ h₁ h₂ hkey₁ hkey₂
    rcases holds_afterRun hs h₁ with ⟨hother₁, hne₁⟩ | ⟨hnumber₁, hrest₁⟩
    · rcases holds_afterRun hs h₂ with ⟨hother₂, -⟩ | ⟨-, hrest₂⟩
      · exact hleased.alone t₁ t₂ r₁ r₂ since₁ since₂ hother₁ hother₂ hkey₁ hkey₂
      · have hown := (leased_own hleased hheld ht hrun hadvances hrest₂ h₂.since hkey₂).2
        exact absurd hkey₁ (hown t₁ r₁ since₁ hother₁ hne₁)
    · rcases holds_afterRun hs h₂ with ⟨hother₂, hne₂⟩ | ⟨hnumber₂, -⟩
      · have hown := (leased_own hleased hheld ht hrun hadvances hrest₁ h₁.since hkey₁).2
        exact absurd hkey₂ (hown t₂ r₂ since₂ hother₂ hne₂)
      · rw [hnumber₁, hnumber₂]

end

/-- A move keeps the invariant, if the locks with the key have been held in time so far. -/
theorem leased_happens (hs : f.Sound) (hheld : f.HeldInTime key) (hleased : f.Leased key)
    (h : f.Happens m g) :
    g.Leased key := by
  cases h with
  | calm h =>
    refine ⟨?_, ?_⟩
    · intro t r since hholds hkey
      rw [h.still.locks]
      exact hleased.lease t r since (h.holds hholds) hkey
    · exact fun t t' r r' since since' h₁ h₂ =>
        hleased.alone t t' r r' since since' (h.holds h₁) (h.holds h₂)
  | passed moment =>
    refine ⟨?_, ?_⟩
    · intro t r since hholds hkey
      obtain ⟨t₀, -, hold⟩ := holds_passTo hholds
      exact hleased.lease t₀ r since hold hkey
    · intro t t' r r' since since' h₁ h₂ hkey hkey'
      obtain ⟨t₁, hnumber₁, hold₁⟩ := holds_passTo h₁
      obtain ⟨t₂, hnumber₂, hold₂⟩ := holds_passTo h₂
      rw [← hnumber₁, ← hnumber₂]
      exact hleased.alone t₁ t₂ r r' since since' hold₁ hold₂ hkey hkey'
  | failed operations =>
    exact ⟨fun t r since hholds => hleased.lease t r since ⟨hholds.mem, hholds.run, hholds.since⟩,
      fun t t' r r' since since' h₁ h₂ =>
      hleased.alone t t' r r' since since' ⟨h₁.mem, h₁.run, h₁.since⟩
        ⟨h₂.mem, h₂.run, h₂.since⟩⟩
  | piece ht hactivity hadvances => exact leased_piece hs hleased hheld ht hactivity hadvances

/-! ## Any moves -/

theorem Fresh.leased (h : f.Fresh) (key : String) : f.Leased key := by
  have hnone : ∀ t r since, ¬ f.Holds t r since := by
    intro t r since hholds
    have hmem := hholds.mem
    rw [h.tasks] at hmem
    exact List.not_mem_nil hmem
  exact ⟨fun t r since hholds => absurd hholds (hnone t r since),
    fun t t' r r' since since' hholds => absurd hholds (hnone t r since)⟩

/-- The invariant holds at every point as long as locks are held in time. -/
theorem leased_after (hs : f.Sound) (hleased : f.Leased key) {moves : List Move}
    (hheld : ∀ before, before <+: moves → (f.after before).HeldInTime key) :
    ∀ before, before <+: moves → (f.after before).Leased key := by
  refine prefix_induction hleased ?_
  intro before m hpre ih
  have hsound := sound_after hs before
  rw [after_concat]
  exact leased_happens hsound (hheld before ((List.prefix_append before [m]).trans hpre)) ih
    (make_happens hsound m)

/-! ## Bodies -/

/-- A task is a run whose body runs. -/
structure Executes (f : Fleet FaultyStore) (t : Task) (r : Run) (x : Execution) : Prop where
  mem : t ∈ f.tasks
  run : t.run? = some r
  phase : ∃ since, r.phase = .executing since x

/-- No two bodies run under a key. -/
def Exclusive (f : Fleet FaultyStore) (key : String) : Prop :=
  ∀ t t' r r' x x', f.Executes t r x → f.Executes t' r' x' → r.key = key → r'.key = key → t = t'

/-- A run whose body runs has its lock. -/
theorem Executes.holds {x : Execution} (h : f.Executes t r x) : ∃ since, f.Holds t r since := by
  obtain ⟨since, hphase⟩ := h.phase
  exact ⟨since, h.mem, h.run, by rw [hphase]; rfl⟩

/-- Where the invariant holds, no two bodies run under the key. -/
theorem Leased.exclusive (hs : f.Sound) (hleased : f.Leased key) : f.Exclusive key := by
  intro t t' r r' x x' h h' hkey hkey'
  obtain ⟨since, hholds⟩ := h.holds
  obtain ⟨since', hholds'⟩ := h'.holds
  exact hs.task_unique h.mem h'.mem (hleased.alone t t' r r' since since' hholds hholds' hkey hkey')

/-- A body that runs after a move ran before it, or began in it. -/
theorem executes_happens (hs : f.Sound) (h : f.Happens m g) {x : Execution}
    (hx : g.Executes t r x) :
    x.beganAt = f.world.elapsed ∨ ∃ t₀, t₀.number = t.number ∧ f.Executes t₀ r x := by
  obtain ⟨since, hphase⟩ := hx.phase
  cases h with
  | calm h =>
    have hholds := h.holds ⟨hx.mem, hx.run, by rw [hphase]; rfl⟩
    exact .inr ⟨t, rfl, hholds.mem, hx.run, hx.phase⟩
  | passed moment =>
    obtain ⟨t₀, hold, hnumber, hactivity, -⟩ := mem_passTo hx.mem
    refine .inr ⟨t₀, hnumber.symm, hold, ?_, hx.phase⟩
    rw [← Task.run?_congr hactivity]
    exact hx.run
  | failed operations => exact .inr ⟨t, rfl, hx.mem, hx.run, hx.phase⟩
  | piece ht hactivity hadvances =>
    rcases mem_afterRun hs hx.mem hx.run with ⟨hold, -⟩ | ⟨-, hrest, -⟩
    · exact .inr ⟨t, rfl, hold, hx.run, hx.phase⟩
    · exact .inl (hadvances.began_now hrest hphase)

/-- A body under a key that did not run at some point of a row of moves began after that point. -/
theorem began_later (hs : f.Sound) {number : Nat}
    (hnot : ∀ t r x, f.Executes t r x → t.number = number → r.key ≠ key) (moves : List Move) :
    ∀ t r x, (f.after moves).Executes t r x → t.number = number → r.key = key →
    f.world.elapsed ≤ x.beganAt := by
  induction moves using List.reverseRecOn with
  | nil => exact fun t r x hx hnumber hkey => absurd hkey (hnot t r x hx hnumber)
  | append_singleton moves m ih =>
    intro t r x hx hnumber hkey
    have hsound := sound_after hs moves
    rw [after_concat] at hx
    rcases executes_happens hsound (make_happens hsound m) hx with hnow | ⟨t₀, hsame, hbefore⟩
    · rw [hnow]
      exact elapsed_after hs moves
    · exact ih t₀ r x hbefore (hsame.trans hnumber) hkey

/-! ## Records -/

/-- The record that a body hands over if it ends now. -/
def recordOf (f : Fleet FaultyStore) (r : Run) (x : Execution) : Report :=
  x.report r.job (.ofEnding x.ending) f.world

theorem plusMillis_le {start : Instant} {a b : Nat} (h : a ≤ b) :
    start.plusMillis a ≤ start.plusMillis b := by
  show start.nanos + a * nanosPerMilli ≤ start.nanos + b * nanosPerMilli
  unfold nanosPerMilli
  omega

/-- Of two bodies under one key the one that ends later began after the other had ended. -/
theorem finished_before_began (hs : f.Sound) {before rest : List Move}
    (hexclusive : (f.after before).Exclusive key) {x x' : Execution}
    (hx : (f.after before).Executes t r x) (hx' : (f.after (before ++ rest)).Executes t' r' x')
    (hne : t.number ≠ t'.number) (hkey : r.key = key) (hkey' : r'.key = key) :
    ((f.after before).recordOf r x).finishedAt ≤
      ((f.after (before ++ rest)).recordOf r' x').startedAt := by
  have hsound := sound_after hs before
  have hnot : ∀ t₁ r₁ x₁, (f.after before).Executes t₁ r₁ x₁ → t₁.number = t'.number →
      r₁.key ≠ key := by
    intro t₁ r₁ x₁ hx₁ hnumber hkey₁
    have hsame := hexclusive t t₁ r r₁ x x₁ hx hx₁ hkey hkey₁
    exact hne (hsame ▸ hnumber)
  -- the second body does not run while the first does, so it begins later
  have hbegan : (f.after before).world.elapsed ≤ x'.beganAt := by
    rw [after_append] at hx'
    exact began_later hsound hnot rest t' r' x' hx' rfl hkey'
  have hstart : (f.after (before ++ rest)).world.start = (f.after before).world.start := by
    rw [start_after hs, start_after hs]
  show (f.after before).world.start.plusMillis _ ≤
    (f.after (before ++ rest)).world.start.plusMillis _
  rw [hstart]
  exact plusMillis_le hbegan

/-- With one key prefix in the fleet the job and the kind of a run give its key. -/
theorem key_eq (hs : f.Sound) {keyPrefix : String}
    (hpre : ∀ s ∈ f.schedulers, s.lock.keyPrefix = keyPrefix) {moves : List Move}
    (ht : t ∈ (f.after moves).tasks) (hrun : t.run? = some r) :
    r.key = keyPrefix ++ ":" ++ r.kind.lockId r.job.id := by
  have hguard := (sound_after hs moves).guarded t ht r hrun
  rw [guards_after hs] at hguard
  obtain ⟨s, hmem, hsame⟩ := List.mem_map.1 hguard
  have hlock : r.guard.lock.keyPrefix = keyPrefix := by
    rw [← hsame]
    exact hpre s hmem
  unfold Run.key Lock.key Run.lockId
  rw [hlock]

/-- **Mutual exclusion.** Whatever happens in a fleet whose schedulers share one store and one key
    prefix, and whatever store operations fail: as long as the locks with a key are held in time, no
    two bodies run under that key at any point, and the records of two runs of one job and kind are
    of times that have no instant in common. -/
theorem bodies_exclude {f : Fleet FaultyStore} (hfresh : f.Fresh) {keyPrefix : String}
    (hpre : ∀ s ∈ f.schedulers, s.lock.keyPrefix = keyPrefix) {moves : List Move} {key : String}
    (hheld : ∀ before, before <+: moves → (f.after before).HeldInTime key) :
    (∀ before, before <+: moves → (f.after before).Exclusive key) ∧
      ∀ before before' t t' r r' x x',
        before ++ [.turn t.number] <+: moves → before' ++ [.turn t'.number] <+: moves →
        (f.after before).Executes t r x → (f.after before').Executes t' r' x' → r.key = key →
        t.number ≠ t'.number → r.kind = r'.kind → r.job.id = r'.job.id →
        ∀ instant, ¬ (((f.after before).recordOf r x).Covers instant ∧
          ((f.after before').recordOf r' x').Covers instant) := by
  have hs := hfresh.sound
  have hexclusive : ∀ before, before <+: moves → (f.after before).Exclusive key :=
    fun before hbefore =>
    (leased_after hs (hfresh.leased key) hheld before hbefore).exclusive (sound_after hs before)
  refine ⟨hexclusive, ?_⟩
  intro before before' t t' r r' x x' hturn hturn' hx hx' hkey hne hkind hjob instant
  have hbefore : before <+: moves := (List.prefix_append before _).trans hturn
  have hbefore' : before' <+: moves := (List.prefix_append before' _).trans hturn'
  -- one key prefix: the same job and kind have the same key
  have hkey' : r'.key = key := by
    rw [← hkey, key_eq hs hpre hx.mem hx.run, key_eq hs hpre hx'.mem hx'.run, hkind, hjob]
  -- one of the two bodies ends before the other
  rcases List.prefix_or_prefix_of_prefix hbefore hbefore' with ⟨rest, rfl⟩ | ⟨rest, rfl⟩
  · exact Report.not_covers
      (finished_before_began hs (hexclusive before hbefore) hx hx' hne hkey hkey') instant
  · intro hboth
    exact Report.not_covers
      (finished_before_began hs (hexclusive before' hbefore') hx' hx hne.symm hkey' hkey) instant
      ⟨hboth.2, hboth.1⟩

/-- Two instances are asked to run one job: the first runs it, the second only once the first is
    done. -/
def takingTurns : List Move :=
  [.request 0 "sleeper" .scheduled .operator false, .request 1 "sleeper" .scheduled .operator false,
    .turn 0, .turn 1, .turn 0, .pass 500, .turn 0, .turn 0,
    .request 1 "sleeper" .scheduled .operator false, .turn 2, .turn 2, .pass 1000, .turn 2]

/-- The run of an instance whose body began at a moment. -/
def turnTaker (i began : Nat) : Run :=
  ⟨⟨⟨"job_lock", .scheduler i, 100⟩, 600000, none, .ledger⟩, .sleeper 2000 [500], .scheduled,
    .executing began ⟨began, 500, .returned ⟨true, "ok", none⟩⟩⟩

/-- The bodies exclude each other, and the record of the first is over when that of the second
    begins. -/
theorem takingTurns_exclude :
    (∀ before, before <+: takingTurns →
      ((instances 2 (.sleeper 2000 [500])).after before).Exclusive "job_lock:sleeper") ∧
    ∀ instant, ¬ ((((instances 2 (.sleeper 2000 [500])).after (takingTurns.take 6)).recordOf
        (turnTaker 0 0) ⟨0, 500, .returned ⟨true, "ok", none⟩⟩).Covers instant ∧
      (((instances 2 (.sleeper 2000 [500])).after (takingTurns.take 12)).recordOf (turnTaker 1 500)
        ⟨500, 500, .returned ⟨true, "ok", none⟩⟩).Covers instant) := by
  have hheld : ∀ before ∈ takingTurns.inits,
      ((instances 2 (.sleeper 2000 [500])).after before).HeldInTime "job_lock:sleeper" := by
    decide +kernel
  have hfirst : ((instances 2 (.sleeper 2000 [500])).after (takingTurns.take 6)).task? 0 =
      some ⟨0, .run 0 (turnTaker 0 0) .operator, .due, false⟩ := by
    rfl
  have hsecond : ((instances 2 (.sleeper 2000 [500])).after (takingTurns.take 12)).task? 2 =
      some ⟨2, .run 1 (turnTaker 1 500) .operator, .due, false⟩ := by
    rfl
  have hturn : takingTurns.take 6 ++ [.turn 0] <+: takingTurns := List.take_prefix 7 takingTurns
  have hturn' : takingTurns.take 12 ++ [.turn 2] <+: takingTurns := List.take_prefix 13 takingTurns
  obtain ⟨hexclusive, hapart⟩ := bodies_exclude (fresh_instances 2 _) (keyPrefix_instances 2 _)
    (fun before hbefore => hheld before ((List.mem_inits before takingTurns).2 hbefore))
  refine ⟨hexclusive, ?_⟩
  exact hapart _ _ ⟨0, .run 0 (turnTaker 0 0) .operator, .due, false⟩
    ⟨2, .run 1 (turnTaker 1 500) .operator, .due, false⟩ _ _ _ _ hturn hturn'
    ⟨(task?_eq_some hfirst).1, rfl, 0, rfl⟩ ⟨(task?_eq_some hsecond).1, rfl, 500,
      rfl⟩ rfl (by decide) rfl rfl

end Fleet

end JobFleet
