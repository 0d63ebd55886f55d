/-
  JobFleet.Proofs.Fleet.Status: the status of a job, and the three stores it is joined from.

  A status is a function of the registry, the ledger, the lease under the job's key and the time
  (`viewOf`): to look at the lock store may log a failure, and nothing that is shown depends on the
  log (`viewOf_lockState`).  So the statuses of all jobs are the status of each.  What is shown of
  the lock goes by the live lease of the key of scheduled runs, as an attempt to take it does.

  Main results:
    * `statusesOf_eq` — the statuses of several jobs, one job at a time.
    * `remaining_eq` — what is left of a lock.
    * `status_joins_stores` — the statuses of a fleet, and what each of them shows.
-/
import JobFleet.Proofs.Fleet.History
import JobFleet.Proofs.Fleet.Interference
import JobFleet.Proofs.Fleet.Occurrences
import JobFleet.Proofs.Lock.Lease

namespace JobFleet

open JobFleet.Time

/-! ## The parts of a status -/

/-- The status shows the live state of the job and what the ledger has of it. -/
structure StatusView.Reports (view : StatusView) (info : JobInfo) (l : Ledger)
    (now : Instant) : Prop where
  job : view.job = info
  last : ∀ row, view.lastExecution = some row →
    row ∈ l.rows ∧ row.job = info.id ∧ ∀ other ∈ l.rows, other.job = info.id →
    other.startedAt ≤ row.startedAt
  noLast : view.lastExecution = none ↔ ∀ row ∈ l.rows, row.job ≠ info.id
  failures : ∃ recent, l.recent now 24 = .ok recent ∧
    view.failuresLast24h = recent.countP (fun r => !r.success && decide (r.job = info.id))

/-- The status shows the lock of the scheduled runs of the job. -/
structure StatusView.ShowsLock (view : StatusView) (lock : Lock) (id : String)
    (w : World FaultyStore) : Prop where
  locked : ∀ ttlMillis deadline number, view.locked = true ↔
    (lock.attempt (RunKind.scheduled.lockId id) ttlMillis deadline number w).1 ≠ .acquired
  present : view.lockTtlRemainingSeconds.isSome = view.locked
  rounded : ∀ seconds, view.lockTtlRemainingSeconds = some seconds →
    ∃ lease, w.locks.memory.live? w.elapsed (lock.key id) = some lease ∧
      (lease.expiresAt : Int) - w.elapsed ≤ 1000 * seconds ∧
      1000 * seconds < (lease.expiresAt : Int) - w.elapsed + 1000

/-- An entry is found under its identity. -/
theorem Entry.find?_of_mem {entries : List Entry} (h : Sorted entries) {e : Entry}
    (he : e ∈ entries) :
    find? e.id entries = some e := by
  cases hfound : find? e.id entries with
  | none => exact absurd rfl (find?_eq_none hfound e he)
  | some found =>
    obtain ⟨hmem, hid⟩ := find?_eq_some hfound
    rw [h.eq_of_id hmem he hid]

namespace Fleet

section Views
variable {σ : Type} [LockStore σ] {lock : Lock} {info : JobInfo} {job : String} {w : World σ}

/-- The status of a job while the ledger works. -/
def viewOf (lock : Lock) (w : World σ) (info : JobInfo) : StatusView where
  job := info
  locked := (lockState lock info.id w).1.isSome
  lockTtlRemainingSeconds := (lockState lock info.id w).1
  lastExecution := (Row.newest (Row.ofJob info.id w.ledger.rows)).getLast?
  failuresLast24h := ((Row.since (hoursAgo w.now failureWindowHours) w.ledger.rows).filter
    (fun r => !r.success && Ledger.isOf (some info.id) r)).length

/-- With a ledger that works, the status of a job is its view. -/
theorem statusOf_eq (hf : w.ledger.failing = []) (info : JobInfo) :
    statusOf lock info w = (.ok (viewOf lock w info), (lockState lock info.id w).2) := by
  have hcount : w.ledger.countFailed (some info.id) w.now failureWindowHours =
      .ok (viewOf lock w info).failuresLast24h := Ledger.answer_eq hf _ _
  unfold statusOf
  rw [Ledger.latest?_ledger hf, hcount]
  rfl

/-! ## All jobs -/

/-- To look at the lock changes nothing but the log. -/
theorem lockState_snd (lock : Lock) (job : String) (w : World σ) : (lockState lock job w).2 = w ∨
    ∃ fields, (lockState lock job w).2 = w.emit .warn "Lock state unavailable" fields := by
  unfold lockState
  cases lock.remaining job w with
  | ok left => exact .inl rfl
  | error e => exact .inr ⟨_, rfl⟩

theorem lockState_emit (severity : Severity) (message : String) (fields : List (String × Json)) :
    (lockState lock job (w.emit severity message fields)).1 = (lockState lock job w).1 := by
  have hsame : lock.remaining job (w.emit severity message fields) = lock.remaining job w := rfl
  unfold lockState
  rw [hsame]
  cases lock.remaining job w <;> rfl

/-- The status of a job is the same before and after a look at the lock of another. -/
theorem viewOf_lockState : viewOf lock (lockState lock job w).2 info = viewOf lock w info := by
  rcases lockState_snd lock job w with heq | ⟨fields, heq⟩
  · rw [heq]
  · rw [heq]
    unfold viewOf
    rw [lockState_emit]
    rfl

/-- The statuses of several jobs are the status of each of them. -/
theorem statusesOf_eq (hf : w.ledger.failing = []) (infos : List JobInfo) :
    (statusesOf lock infos w).1 = .ok (infos.map (viewOf lock w)) := by
  induction infos generalizing w with
  | nil => rfl
  | cons info rest ih =>
    have hledger : (lockState lock info.id w).2.ledger = w.ledger := by
      rcases lockState_snd lock info.id w with heq | ⟨fields, heq⟩ <;> rw [heq]
      rfl
    have hrest := ih (w := (lockState lock info.id w).2) (by rw [hledger, hf])
    have hviews : rest.map (viewOf lock (lockState lock info.id w).2) = rest.map (viewOf lock w) :=
      List.map_congr_left fun other _ => viewOf_lockState
    rcases hall : statusesOf lock rest (lockState lock info.id w).2 with ⟨answer, w'⟩
    rw [hall, hviews] at hrest
    simp only at hrest
    simp only [statusesOf, statusOf_eq hf, hall, hrest, List.map_cons]

end Views

/-! ## The ledger -/

/-- A view reports what the ledger says of the job. -/
theorem reports_viewOf {σ : Type} [LockStore σ] {w : World σ} (hf : w.ledger.failing = [])
    (lock : Lock) (info : JobInfo) :
    (viewOf lock w info).Reports info w.ledger w.now where
  job := rfl
  last := by
    intro row hrow
    obtain ⟨hmem, hgreatest⟩ := Row.mem_newest_iff.1 (List.mem_of_getLast? hrow)
    obtain ⟨hrows, hjob⟩ := List.mem_filter.1 hmem
    refine ⟨hrows, of_decide_eq_true hjob, fun other hother hsame => ?_⟩
    exact hgreatest other (List.mem_filter.2 ⟨hother, decide_eq_true hsame⟩)
  noLast := by
    show (Row.newest (Row.ofJob info.id w.ledger.rows)).getLast? = none ↔ _
    rw [List.getLast?_eq_none_iff, Row.newest_eq_nil_iff]
    simp [Row.ofJob, List.filter_eq_nil_iff]
  failures := by
    refine ⟨_, Ledger.answer_eq hf _ _, ?_⟩
    rw [(Row.isNewestFirst_newestFirst _).same.countP_eq, List.countP_eq_length_filter]
    rfl

/-! ## The lock store -/

section Locks
variable {lock : Lock} {id : String} {w : World FaultyStore}

/-- What is left of a lock: the rest of the live lease in seconds, rounded up. -/
theorem remaining_eq (h : StoreOperation.secondsLeft ∉ w.locks.failing) : lock.remaining id w =
    .ok ((w.locks.memory.live? w.elapsed (lock.key id)).map fun lease =>
      (((lease.expiresAt - w.elapsed + 999) / 1000 : Nat) : Int)) := by
  have hanswer : w.secondsLeft (lock.key id) =
      .ok (w.locks.memory.secondsLeft w.elapsed (lock.key id)).1 := if_neg h
  unfold Lock.remaining
  rw [hanswer]
  simp only [MemoryStore.secondsLeft, MemoryStore.lookup_purge_self]
  cases w.locks.memory.live? w.elapsed (lock.key id) with
  | none => rfl
  | some lease => exact congrArg Except.ok (if_pos (Int.natCast_nonneg _))

/-- An attempt gets the lock just when no lease of its key is live. -/
theorem attempt_acquired_iff (h : StoreOperation.setIfAbsent ∉ w.locks.failing) (ttlMillis : Nat)
    (deadline : Option Nat) (number : Nat) :
    (lock.attempt id ttlMillis deadline number w).1 = .acquired ↔
      w.locks.memory.live? w.elapsed (lock.key id) = none := by
  have hanswer : (w.setIfAbsent (lock.key id) lock.holder (Lock.wholeSeconds ttlMillis)).1 =
      .ok (w.locks.memory.setIfAbsent w.elapsed (lock.key id) lock.holder
        (Lock.wholeSeconds ttlMillis)).1 := by
    simp only [World.setIfAbsent, LockStore.setIfAbsent, FaultyStore.change, h, if_false]
  unfold Lock.attempt
  rcases hset : w.setIfAbsent (lock.key id) lock.holder
    (Lock.wholeSeconds ttlMillis) with ⟨answer, w'⟩
  rw [hset] at hanswer
  simp only at hanswer ⊢
  cases hlive : w.locks.memory.live? w.elapsed (lock.key id) with
  | none =>
    rw [MemoryStore.setIfAbsent_of_free lock.holder _ hlive] at hanswer
    rw [hanswer]
    exact iff_of_true rfl rfl
  | some lease =>
    rw [MemoryStore.setIfAbsent_of_live lock.holder _ hlive] at hanswer
    rw [hanswer]
    refine iff_of_false ?_ (by simp)
    simp only [Lock.judge]
    split <;> simp

/-- With a lock store that works, a view shows the lock as it is. -/
theorem showsLock_viewOf (h : w.locks.failing = []) (lock : Lock) (info : JobInfo) :
    (viewOf lock w info).ShowsLock lock info.id w := by
  have hleft : (lockState lock info.id w).1 =
    (w.locks.memory.live? w.elapsed (lock.key info.id)).map
      fun lease => (((lease.expiresAt - w.elapsed + 999) / 1000 : Nat) : Int) := by
    unfold lockState
    rw [remaining_eq (by simp [h])]
  refine ⟨fun ttlMillis deadline number => ?_, rfl, fun seconds hseconds => ?_⟩
  · show (lockState lock info.id w).1.isSome = true ↔ _
    have hacquired : (lock.attempt (RunKind.scheduled.lockId info.id) ttlMillis deadline number
      w).1 = .acquired ↔
        w.locks.memory.live? w.elapsed (lock.key info.id) = none :=
        attempt_acquired_iff (by simp [h]) ..
    rw [hleft, Option.isSome_map, ne_eq, hacquired, Option.isSome_iff_ne_none]
  · have hsome : (lockState lock info.id w).1 = some seconds := hseconds
    rw [hleft] at hsome
    obtain ⟨lease, hlive, rfl⟩ := Option.map_eq_some_iff.1 hsome
    have hbefore := (MemoryStore.live?_eq_some.1 hlive).2
    refine ⟨lease, hlive, ?_, ?_⟩ <;> omega

/-- A lock store that fails is taken for one without the lock. -/
theorem lockState_of_failing (h : StoreOperation.secondsLeft ∈ w.locks.failing) :
    (lockState lock id w).1 = none := by
  have hanswer : w.secondsLeft (lock.key id) = .error FaultyStore.refusal := if_pos h
  unfold lockState Lock.remaining
  rw [hanswer]
  rfl

/-- Only the lease of the key counts. -/
theorem lockState_congr {locks : FaultyStore} (hfailing : locks.failing = w.locks.failing)
    (hlookup : locks.memory.lookup (lock.key id) = w.locks.memory.lookup (lock.key id)) :
    (lockState lock id { w with locks := locks }).1 = (lockState lock id w).1 := by
  by_cases h : StoreOperation.secondsLeft ∈ w.locks.failing
  · rw [lockState_of_failing h,
      lockState_of_failing (w := { w with locks := locks }) (hfailing ▸ h)]
  · have hlive : locks.memory.live? w.elapsed (lock.key id) =
        w.locks.memory.live? w.elapsed (lock.key id) := by
      unfold MemoryStore.live?
      rw [hlookup]
    unfold lockState
    rw [remaining_eq h, remaining_eq (w := { w with locks := locks }) (hfailing ▸ h), hlive]

end Locks

/-! ## Fleets -/

section Fleets
variable {f : Fleet FaultyStore} {i : Nat} {s : Scheduler} {id : String} {view : StatusView}

/-- The fleet with other contents of its lock store. -/
def withLocks (locks : FaultyStore) (f : Fleet FaultyStore) : Fleet FaultyStore :=
  { f with world := { f.world with locks := locks } }

/-- There is information on the jobs that are registered. -/
theorem mem_ids_iff_info? : id ∈ f.ids i ↔ ∃ info, f.info? i id = some info := by
  unfold ids info?
  cases hs : f.schedulers[i]? with
  | none => simp
  | some s =>
    show id ∈ s.entries.map Entry.id ↔
      ∃ info, (Entry.find? id s.entries).map (fun e => s.infoOf e f.world.now) = some info
    constructor
    · intro hid
      obtain ⟨e, he, hid⟩ := List.mem_map.1 hid
      cases hfound : Entry.find? id s.entries with
      | none => exact absurd hid (Entry.find?_eq_none hfound e he)
      | some found => exact ⟨_, rfl⟩
    · rintro ⟨info, hinfo⟩
      obtain ⟨e, hfound, -⟩ := Option.map_eq_some_iff.1 hinfo
      obtain ⟨he, hid⟩ := Entry.find?_eq_some hfound
      exact List.mem_map.2 ⟨e, he, hid⟩

theorem id_of_info? {info : JobInfo} (h : f.info? i id = some info) : info.id = id := by
  obtain ⟨s, -, hinfo⟩ := Option.bind_eq_some_iff.1 h
  obtain ⟨e, hfound, rfl⟩ := Option.map_eq_some_iff.1 hinfo
  exact (Entry.find?_eq_some hfound).2

/-- The status of a registered job is its view. -/
theorem status_eq_ok (hf : f.world.ledger.failing = [])
    (hs : f.schedulers[i]? = some s) {info : JobInfo} (h : f.info? i id = some info) :
    (f.status i id).1 = .ok (viewOf s.lock f.world info) := by
  unfold status
  rw [hs, h]
  simp only [ofLedger, statusOf_eq hf]
  rfl

/-- The status of a job is its view whatever the locks are. -/
theorem status_withLocks (hf : f.world.ledger.failing = [])
    (hs : f.schedulers[i]? = some s) {info : JobInfo} (h : f.info? i id = some info)
    (locks : FaultyStore) :
    ((f.withLocks locks).status i id).1 =
      .ok (viewOf s.lock { f.world with locks := locks } info) :=
  status_eq_ok (f := f.withLocks locks) hf hs h

/-- An identity that is not registered has no status. -/
theorem status_eq_notFound (h : f.info? i id = none) :
    (f.status i id).1 = .error (.notFound id) := by
  unfold status
  rw [h]
  cases f.schedulers[i]? <;> rfl

/-- A status is the view of a registered job. -/
theorem exists_of_status (hf : f.world.ledger.failing = []) (hs : f.schedulers[i]? = some s)
    (h : (f.status i id).1 = .ok view) : ∃ info, f.info? i id = some info ∧ info.id = id ∧
    viewOf s.lock f.world info = view := by
  cases hinfo : f.info? i id with
  | none =>
    rw [status_eq_notFound hinfo] at h
    cases h
  | some info =>
    rw [status_eq_ok hf hs hinfo, Except.ok.injEq] at h
    exact ⟨info, rfl, id_of_info? hinfo, h⟩

/-- **A status joins its stores.**  The statuses of all jobs are the status of each registered
    identity, in order, and only of an identity that is not registered there is none.  A status
    shows the live state of the job, the row of it that started last and the number of its failures
    among the recent rows.  It shows the lock just when a scheduled run could not take it now, with
    the time left, rounded up.  A lock of a manual run does not show; while the lock store fails,
    neither does any other, and the rest of the status is the same. -/
theorem status_joins_stores (f : Fleet FaultyStore) (i : Nat)
    (hsorted : Entry.Sorted (f.entriesOf i)) (hledger : f.world.ledger.failing = []) :
    (∃ views, (f.statuses i).1 = .ok views ∧
      List.Forall₂ (fun id view => (f.status i id).1 = .ok view) (f.ids i) views) ∧
    (∀ id, (f.status i id).1 = .error (.notFound id) ↔ id ∉ f.ids i) ∧
    ∀ s id view, f.schedulers[i]? = some s → (f.status i id).1 = .ok view →
      (∃ info, f.info? i id = some info ∧ view.Reports info f.world.ledger f.world.now) ∧
      (f.world.locks.failing = [] → view.ShowsLock s.lock id f.world) ∧
      (∀ locks : FaultyStore, locks.failing = f.world.locks.failing →
        (∀ key, (∀ lock : Lock, key ≠ lock.key (RunKind.manual.lockId id)) →
          locks.memory.lookup key = f.world.locks.memory.lookup key) →
        ((f.withLocks locks).status i id).1 = .ok view) ∧
      ∀ locks : FaultyStore, .secondsLeft ∈ locks.failing →
        ((f.withLocks locks).status i id).1 =
          .ok { view with locked := false, lockTtlRemainingSeconds := none } := by
  refine ⟨?_, ?_, ?_⟩
  · cases hs : f.schedulers[i]? with
    | none =>
      refine ⟨[], by simp only [statuses, hs], ?_⟩
      simp only [ids, hs, Option.map_none, Option.getD_none]
      exact .nil
    | some s =>
      rw [entriesOf_of_getElem? hs] at hsorted
      have hids : f.ids i = s.entries.map Entry.id := by
        simp only [ids, hs, Option.map_some, Option.getD_some]; rfl
      have hinfos : f.infos i = s.entries.map (fun e => s.infoOf e f.world.now) := by
        simp only [infos, hs, Option.map_some, Option.getD_some]
        rfl
      -- the views of all, in the order of the registry
      refine ⟨(f.infos i).map (viewOf s.lock f.world), ?_, ?_⟩
      · simp only [statuses, hs, ofLedger, statusesOf_eq hledger]
        rfl
      · rw [hids, hinfos, List.map_map, List.forall₂_map_left_iff, List.forall₂_map_right_iff,
          List.forall₂_same]
        intro e he
        -- identities are distinct, so each entry is found under its own
        refine status_eq_ok hledger hs ?_
        simp only [info?, hs, Option.bind_some, Scheduler.info?,
          Entry.find?_of_mem hsorted he, Option.map_some]
  · intro id
    rw [mem_ids_iff_info?, not_exists]
    constructor
    · intro hstatus info hinfo
      obtain ⟨s, hs, -⟩ := Option.bind_eq_some_iff.1 hinfo
      rw [status_eq_ok hledger hs hinfo] at hstatus
      cases hstatus
    · intro hnone
      exact status_eq_notFound (Option.eq_none_iff_forall_ne_some.2 hnone)
  · intro s id view hs hstatus
    obtain ⟨info, hinfo, rfl, rfl⟩ := exists_of_status hledger hs hstatus
    refine ⟨⟨info, hinfo, reports_viewOf hledger s.lock info⟩,
      fun hworks => showsLock_viewOf hworks s.lock info, ?_, ?_⟩
    · intro locks hfailing hsame
      have hkey : locks.memory.lookup (s.lock.key info.id) =
          f.world.locks.memory.lookup (s.lock.key info.id) :=
        -- no manual key is the key that the view looks at
        hsame _ fun lock => Lock.key_manual_ne s.lock lock info.id
      rw [status_withLocks hledger hs hinfo]
      simp only [viewOf, lockState_congr hfailing hkey]
      rfl
    · intro locks hfailing
      rw [status_withLocks hledger hs hinfo]
      simp only [viewOf, lockState_of_failing (w := { f.world with locks := locks }) hfailing]
      rfl

/-- A job that does nothing. -/
def jobNamed (id : String) :
    Job := ⟨⟨id, id, "Job " ++ id, .every 60, true, 0, 60, none⟩, .scripted id [], false⟩

/-- Two registered jobs: the lock of one is held, that of the other is just over but not yet purged,
    while a manual run of it is under way. -/
def twoLocks : Fleet FaultyStore where
  world :=
    { start := ⟨0⟩
      elapsed := 1500
      locks := ⟨⟨[("job_lock:p", ⟨.foreign "other", 4000⟩),
        ("job_lock:q", ⟨.foreign "other", 1500⟩),
        ("job_lock:q_manual", ⟨.foreign "other", 9000⟩)]⟩, []⟩
      ledger := sixRuns }
  schedulers :=
    [{ config := {}
       lock := ⟨"job_lock", .scheduler 0, 100⟩
       entries := [⟨0, jobNamed "p", .interval ⟨60⟩, false, none, none⟩,
         ⟨1, jobNamed "q", .interval ⟨60⟩, false, none, none⟩] }]

/-- The lock that is over does not show, and neither does that of the manual run; the other one has
    two and a half seconds left. -/
theorem status_joins_stores_twoLocks :
    Entry.Sorted (twoLocks.entriesOf 0) ∧ twoLocks.world.ledger.failing = [] ∧
      (∃ views, (twoLocks.statuses 0).1 = .ok views ∧
        List.Forall₂ (fun id view => (twoLocks.status 0 id).1 = .ok view) ["p", "q"] views) ∧
      (twoLocks.status 0 "q_manual").1 = .error (.notFound "q_manual") ∧
      ∃ p q, (twoLocks.status 0 "p").1 = .ok p ∧ p.lockTtlRemainingSeconds = some 3 ∧
        (twoLocks.status 0 "q").1 = .ok q ∧ q.locked = false ∧
        q.ShowsLock ⟨"job_lock", .scheduler 0, 100⟩ "q" twoLocks.world := by
  have hsorted : Entry.Sorted (twoLocks.entriesOf 0) := by
    show List.Pairwise (fun e e' : Entry => e.id < e'.id) [_, _]
    simp only [List.pairwise_cons, List.mem_singleton, forall_eq, List.not_mem_nil, false_implies,
      implies_true, and_true, List.Pairwise.nil]
    decide
  have hledger : twoLocks.world.ledger.failing = [] := rfl
  obtain ⟨hall, hknown, hshows⟩ := status_joins_stores twoLocks 0 hsorted hledger
  have hother : "q_manual" ∉ twoLocks.ids 0 := by decide
  have hp : (twoLocks.status 0 "p").1 = .ok _ := status_eq_ok hledger rfl rfl
  have hq : (twoLocks.status 0 "q").1 = .ok _ := status_eq_ok hledger rfl rfl
  refine ⟨hsorted, hledger, hall, (hknown "q_manual").2 hother, _, _, hp, by decide,
    hq, by decide, ?_⟩
  exact (hshows _ "q" _ rfl hq).2.1 rfl

end Fleets

end Fleet

end JobFleet
