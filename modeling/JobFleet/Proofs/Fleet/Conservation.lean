/-
  JobFleet.Proofs.Fleet.Conservation: nothing is lost, and nothing is counted twice.

  The runs of a fleet are accounted for as in double entry: an account says which events open a
  place in it, which events close one, and at which stages a run has a place (`Account`).  If each
  step of a run keeps an account balanced, so does everything that occurs in a fleet, and over any
  row what was opened is what was closed and what is still held (`balance_through`).  There are
  three accounts: of the calls, which end completed or skipped; of the bodies, whose records are
  handed over; and of the records, whose runs are completed.  When no run is in progress nothing is
  held, and the three accounts, the counters and what the sinks have kept all give the same numbers.

  Main results:
    * `balance_through` — the accounts stay balanced, whatever occurs.
    * `counts_through` — the counters are those that the chronicle tells of.
    * `begun_through` — the tallies are those that the chronicle tells of.
    * `keeps_through` — a shared sink keeps every record once, in order.
    * `books_agree_at_rest` — the books agree when no run is in progress.
-/
import JobFleet.Proofs.Fleet.Books

namespace JobFleet

open RunEvent (times ofJob ofKind)

/-! ## Accounts -/

/-- An account of runs: the events that open a place in it, those that close one, and the stages at
    which a run has one. -/
structure Account where
  opens : RunEvent → Bool
  closes : RunEvent → Bool
  holds : RunStage → Bool

/-- The calls: a run that was asked for is completed or skipped. -/
def Account.calls : Account where
  opens := RunEvent.isAsked
  closes e := e.isCompleted || e.isSkipped
  holds _ := true

/-- The bodies: one that began has its record handed over. -/
def Account.bodies : Account where
  opens := RunEvent.isBegan
  closes := RunEvent.isHanded
  holds stage := stage = .within

/-- The records: a run whose record was handed over is completed. -/
def Account.records : Account where
  opens := RunEvent.isHanded
  closes := RunEvent.isCompleted
  holds stage := stage = .behind

/-- A run that is asked for opens a place if it has one then, and every step of a run opens and
    closes what it must. -/
structure Account.Balanced (a : Account) : Prop where
  asked : ∀ job kind, a.opens (.asked job kind) = a.holds .before ∧
    a.closes (.asked job kind) = false
  life : ∀ job kind stage event rest, Run.Life job kind stage event rest →
    (event.any a.opens).toNat + (a.holds stage).toNat =
      (event.any a.closes).toNat + (rest.any a.holds).toNat

/-- A call that was made is completed or skipped, at every step. -/
theorem Account.balanced_calls : Account.calls.Balanced where
  asked := fun _ _ => ⟨rfl, rfl⟩
  life := by
    intro job kind stage event rest h
    cases h <;> rfl

/-- A body that began has its record handed over, at every step. -/
theorem Account.balanced_bodies : Account.bodies.Balanced where
  asked := fun _ _ => ⟨rfl, rfl⟩
  life := by
    intro job kind stage event rest h
    cases h <;> rfl

/-- A run whose record was handed over is completed, at every step. -/
theorem Account.balanced_records : Account.records.Balanced where
  asked := fun _ _ => ⟨rfl, rfl⟩
  life := by
    intro job kind stage event rest h
    cases h <;> rfl

/-- How many of certain runs have a place. -/
def held (who : String → RunKind → Bool) (holds : RunStage → Bool)
    (runs : List (Nat × Run)) : Nat :=
  runs.countP (fun x => who x.2.job.id x.2.kind && holds x.2.phase.stage)

section

variable (who : String → RunKind → Bool) (holds : RunStage → Bool)

theorem held_append (runs runs' : List (Nat × Run)) :
    held who holds (runs ++ runs') = held who holds runs + held who holds runs' :=
  List.countP_append

/-- The order of runs does not matter to their places. -/
theorem held_perm {runs runs' : List (Nat × Run)} (h : runs.Perm runs') :
    held who holds runs = held who holds runs' :=
  h.countP_eq _

/-- One run has one place at most. -/
theorem held_singleton (n : Nat) (r : Run) :
    held who holds [(n, r)] = (who r.job.id r.kind && holds r.phase.stage).toNat := by
  unfold held
  rw [List.countP_singleton]
  cases who r.job.id r.kind && holds r.phase.stage <;> rfl

/-- The event of a step tells of the run that makes it. -/
theorem times_of_life {job : String} {kind : RunKind} {stage : RunStage} {event : Option RunEvent}
    {rest : Option RunStage} (h : Run.Life job kind stage event rest) (sort : RunEvent → Bool) :
    times who sort event.toList = (who job kind && event.any sort).toNat := by
  cases h with
  | asks => simp
  | handed report hjob =>
    subst hjob
    exact RunEvent.times_singleton who sort _
  | _ => exact RunEvent.times_singleton who sort _

end

namespace Fleet

variable {f g : Fleet FaultyStore} {row : List Occurrence} {events : List RunEvent} {a : Account}

/-- The declarations of the runs in progress can be read now, and each run has a sink. -/
def RunsWell (f : Fleet FaultyStore) : Prop :=
  ∀ x ∈ f.runs, Run.unreadable x.2.job f.world = false ∧ x.2.guard.sink ≠ .none

/-- A run that goes on has a place by its stage; one that has ended has none. -/
theorem held_goes {r : Run} {w w' : World FaultyStore} {p : Progress}
    (h : r.Advances w p w') (n : Nat) (who : String → RunKind → Bool) (holds : RunStage → Bool) :
    held who holds (p.run?.toList.map (Prod.mk n)) =
      (who r.job.id r.kind && (p.run?.map (·.phase.stage)).any holds).toNat := by
  cases hgoes : p.run? with
  | none =>
    rw [Option.map_none, Option.any_none, Bool.and_false]
    rfl
  | some r' =>
    obtain ⟨-, hjob, hkind⟩ := h.same hgoes
    rw [← hjob, ← hkind]
    exact held_singleton who holds n r'

/-- Whatever occurs, what was held or is opened is closed, or held afterwards. -/
theorem balance_proceeds (ha : a.Balanced) (hwell : f.RunsWell) (h : f.Proceeds events g)
    (who : String → RunKind → Bool) :
    times who a.opens events + held who a.holds f.runs =
      times who a.closes events + held who a.holds g.runs := by
  cases h with
  | asks new hentering hruns hbooks =>
    have hopened : times who a.opens (new.map (fun x => .asked x.2.job.id x.2.kind)) =
        held who a.holds new := by
      unfold times held
      rw [List.countP_map]
      refine List.countP_congr (fun x hx => ?_)
      rw [Function.comp_apply, (ha.asked _ _).1, hentering x hx]
      rfl
    have hclosed : times who a.closes (new.map (fun x => .asked x.2.job.id x.2.kind)) = 0 := by
      refine RunEvent.times_eq_zero who a.closes ?_
      intro e he
      obtain ⟨x, -, rfl⟩ := List.mem_map.1 he
      exact (ha.asked _ _).2
    rw [held_perm who a.holds hruns, held_append, hopened, hclosed]
    omega
  | goes n r others hbefore hafter hbooks =>
    have hmem : (n, r) ∈ f.runs := hbefore.mem_iff.2 List.mem_cons_self
    obtain ⟨hread, hsink⟩ := hwell (n, r) hmem
    have hlife := (r.advances f.world).life hread hsink
    have hbalance := ha.life _ _ _ _ _ hlife
    have hheld : held who a.holds f.runs =
        (who r.job.id r.kind && a.holds r.phase.stage).toNat + held who a.holds others := by
      rw [held_perm who a.holds hbefore, ← held_singleton who a.holds n r, ← held_append]
      rfl
    rw [hheld, held_perm who a.holds hafter, held_append, held_goes (r.advances f.world),
      times_of_life who hlife, times_of_life who hlife]
    -- runs of others count nothing, on either side
    cases who r.job.id r.kind with
    | false => simp
    | true =>
      simp only [Bool.true_and]
      omega

/-! ## Rows of occurrences -/

/-- **The accounts stay balanced.**  Over any row, what was opened is what was closed and what is
    still held. -/
theorem balance_through (ha : a.Balanced) (hfresh : f.Fresh)
    (hwell : ∀ point, point <+: row → (f.through point).RunsWell) (who : String → RunKind → Bool) :
    ∀ point, point <+: row →
      times who a.opens (f.chronicle point) =
        times who a.closes (f.chronicle point) + held who a.holds (f.through point).runs := by
  have hnone : held who a.holds f.runs = 0 := by
    rw [runs, hfresh.tasks]
    rfl
  refine chronicle_induction hfresh.sound
    (P := fun events g => times who a.opens events =
      times who a.closes events + held who a.holds g.runs) ?_ ?_
  · rw [hnone]
    rfl
  · intro point hpoint events new g ih hproceeds
    have hstep := balance_proceeds ha (hwell point hpoint) hproceeds who
    rw [RunEvent.times_append, RunEvent.times_append]
    omega

/-- Every step of a fleet counts the events that it tells of. -/
theorem counts_proceeds (hwell : f.RunsWell) (h : f.Proceeds events g) :
    f.world.Counts events g.world := by
  cases h with
  | asks new _ _ hbooks =>
    refine World.counts_of_sameBooks hbooks ?_
    intro e he
    obtain ⟨x, -, rfl⟩ := List.mem_map.1 he
    exact ⟨rfl, rfl⟩
  | goes n r others hbefore _ hbooks =>
    obtain ⟨-, hsink⟩ := hwell (n, r) (hbefore.mem_iff.2 List.mem_cons_self)
    have hcounts := (Run.counts_advance hsink f.world).trans (World.counts_nil hbooks)
    rw [List.append_nil] at hcounts
    exact hcounts

/-- **The counters.**  Over any row they rise by what the chronicle tells. -/
theorem counts_through (hfresh : f.Fresh)
    (hwell : ∀ point, point <+: row → (f.through point).RunsWell) :
    ∀ point, point <+: row → f.world.Counts (f.chronicle point) (f.through point).world := by
  refine chronicle_induction hfresh.sound
    (P := fun events g => f.world.Counts events g.world) (World.Counts.refl f.world) ?_
  intro point hpoint events new g ih hproceeds
  exact ih.trans (counts_proceeds (hwell point hpoint) hproceeds)

/-- The runs in progress that follow a script are those of a job. -/
def Scripted (f : Fleet FaultyStore) (script id : String) : Prop :=
  ∀ x ∈ f.runs, x.2.job.body.follows script = decide (x.2.job.id = id)

/-- Every step of a fleet tallies the bodies that it tells of. -/
theorem begun_proceeds {script id : String} (hwell : f.RunsWell) (hscript : f.Scripted script id)
    (h : f.Proceeds events g) :
    g.world.begun script = f.world.begun script + times (ofJob id) RunEvent.isBegan events := by
  cases h with
  | asks new _ _ hbooks =>
    have hnone : times (ofJob id) RunEvent.isBegan
        (new.map (fun x => .asked x.2.job.id x.2.kind)) = 0 := by
      refine RunEvent.times_eq_zero _ _ ?_
      intro e he
      obtain ⟨x, -, rfl⟩ := List.mem_map.1 he
      rfl
    rw [hnone, World.begun_of_tallies hbooks.tallies]
    rfl
  | goes n r others hbefore _ hbooks =>
    have hmem : (n, r) ∈ f.runs := hbefore.mem_iff.2 List.mem_cons_self
    obtain ⟨hread, hsink⟩ := hwell (n, r) hmem
    have hlife := (r.advances f.world).life hread hsink
    rw [World.begun_of_tallies hbooks.tallies, (r.advances f.world).begun script,
      hscript (n, r) hmem, times_of_life _ hlife]
    rfl

/-- **The tallies.**  Over any row the tally of a script rises by the bodies that began, if they are
    those of a job. -/
theorem begun_through {script id : String} (hfresh : f.Fresh)
    (hwell : ∀ point, point <+: row → (f.through point).RunsWell)
    (hscript : ∀ point, point <+: row → (f.through point).Scripted script id) :
    ∀ point, point <+: row →
      (f.through point).world.begun script =
        f.world.begun script + times (ofJob id) RunEvent.isBegan (f.chronicle point) := by
  refine chronicle_induction hfresh.sound
    (P := fun events g => g.world.begun script = f.world.begun script +
      times (ofJob id) RunEvent.isBegan events)
    rfl ?_
  intro point hpoint events new g ih hproceeds
  rw [begun_proceeds (hwell point hpoint) (hscript point hpoint) hproceeds, ih,
    RunEvent.times_append, Nat.add_assoc]

/-- No run in progress deletes rows. -/
def KeepsRows (f : Fleet FaultyStore) : Prop := ∀ x ∈ f.runs, x.2.job.body.isCleanup = false

/-- Every step of a fleet leaves with the shared sink the records that it tells of. -/
theorem keeps_proceeds {s : Sink} (hsink : s ≠ .none) (hshared : ∀ x ∈ f.runs, x.2.guard.sink = s)
    (hcreate : s = .ledger → .create ∉ f.world.ledger.failing) (hrows : s = .ledger → f.KeepsRows)
    (h : f.Proceeds events g) : f.world.Keeps s events g.world := by
  cases h with
  | asks new _ _ hbooks =>
    refine World.Untouched.keeps hbooks.toUntouched ?_
    rw [RunEvent.reports, List.filterMap_map]
    exact List.filterMap_eq_nil_iff.2 (fun x _ => rfl)
  | goes n r others hbefore _ hbooks =>
    have hmem : (n, r) ∈ f.runs := hbefore.mem_iff.2 List.mem_cons_self
    have hguard : r.guard.sink = s := hshared (n, r) hmem
    subst hguard
    have hafter : (r.advance f.world).2.Keeps r.guard.sink [] g.world :=
      World.Untouched.keeps hbooks.toUntouched rfl
    have hkeeps := ((r.advances f.world).keeps hsink hcreate (fun hs =>
      hrows hs (n, r) hmem)).trans hafter
    rw [List.append_nil] at hkeeps
    exact hkeeps

/-- The sink of a run in progress is that of a scheduler. -/
theorem sink_through (hs : f.Sound) (point : List Occurrence) :
    ∀ x ∈ (f.through point).runs, ∃ s ∈ f.schedulers, s.sink = x.2.guard.sink := by
  rintro ⟨n, r⟩ hx
  obtain ⟨t, ht, -, hrun⟩ := mem_runs.1 hx
  have hguard := (sound_through hs point).guarded t ht r hrun
  rw [guards_through hs] at hguard
  obtain ⟨s, hmem, hsame⟩ := List.mem_map.1 hguard
  exact ⟨s, hmem, congrArg Guard.sink hsame⟩

/-- **The records.**  A sink that all schedulers share keeps every record that was handed over, once
    and in order. -/
theorem keeps_through (hfresh : f.Fresh) {s : Sink} (hsink : s ≠ .none)
    (hshared : ∀ i ∈ f.schedulers, i.sink = s)
    (hcreate : s = .ledger → .create ∉ f.world.ledger.failing)
    (hrows : s = .ledger → ∀ point, point <+: row → (f.through point).KeepsRows) :
    ∀ point, point <+: row → f.world.Keeps s (f.chronicle point) (f.through point).world := by
  refine chronicle_induction hfresh.sound (P := fun events g => f.world.Keeps s events g.world)
    (World.keeps_of_quiet (fun _ => rfl) rfl rfl) ?_
  intro point hpoint events new g ih hproceeds
  have hworks : s = .ledger → .create ∉ (f.through point).world.ledger.failing :=
    fun hs => (ih.failing hs).symm ▸ hcreate hs
  have hsame : ∀ x ∈ (f.through point).runs, x.2.guard.sink = s := by
    intro x hx
    obtain ⟨i, hi, hsink⟩ := sink_through hfresh.sound point x hx
    rw [← hsink]
    exact hshared i hi
  exact ih.trans (keeps_proceeds hsink hsame hworks (fun hs => hrows hs point hpoint) hproceeds)

/-! ## At rest -/

/-- The schedulers are new, as are their counters, every one has a sink, and over a row no
    declaration of a run in progress panics when it is read. -/
structure Accountable (f : Fleet FaultyStore) (row : List Occurrence) : Prop where
  fresh : f.Fresh
  metrics : f.world.metrics = {}
  sinks : ∀ s ∈ f.schedulers, s.sink ≠ .none
  reads : ∀ point, point <+: row → ∀ x ∈ (f.through point).runs,
    Run.unreadable x.2.job (f.through point).world = false

/-- Over such a row declarations can be read and records are handed over. -/
theorem Accountable.runsWell (h : f.Accountable row) :
    ∀ point, point <+: row → (f.through point).RunsWell := by
  intro point hpoint x hx
  refine ⟨h.reads point hpoint x hx, ?_⟩
  obtain ⟨s, hs, hsink⟩ := sink_through h.fresh.sound point x hx
  rw [← hsink]
  exact h.sinks s hs

/-- At rest nothing is held: what was opened has been closed. -/
theorem Accountable.balance (h : f.Accountable row) (hrest : (f.through row).runs = [])
    (ha : a.Balanced) (who : String → RunKind → Bool) :
    times who a.opens (f.chronicle row) = times who a.closes (f.chronicle row) := by
  have hbalance := balance_through ha h.fresh h.runsWell who row List.prefix_rfl
  rw [hrest] at hbalance
  exact hbalance

/-- The counters are those of the chronicle. -/
theorem Accountable.counts (h : f.Accountable row) :
    f.world.Counts (f.chronicle row) (f.through row).world :=
  counts_through h.fresh h.runsWell row List.prefix_rfl

theorem Accountable.succeeded (h : f.Accountable row) (id : String) :
    (f.through row).world.metrics.count (.succeeded id) =
      times (ofJob id) RunEvent.isSuccess (f.chronicle row) := by
  rw [h.counts.succeeded, h.metrics]
  exact Nat.zero_add _

theorem Accountable.durations (h : f.Accountable row) (id : String) :
    ((f.through row).world.metrics.durationsOf id).length =
      times (ofJob id) RunEvent.isHanded (f.chronicle row) := by
  rw [h.counts.durations, h.metrics]
  exact Nat.zero_add _

/-- A record is one of a success or of a failure, and counted as that. -/
theorem Accountable.counted (h : f.Accountable row) (id : String) :
    (f.through row).world.metrics.count (.succeeded id) +
      (f.through row).world.metrics.count (.failed id) =
      times (ofJob id) RunEvent.isHanded (f.chronicle row) := by
  have hfailed : (f.through row).world.metrics.count (.failed id) =
      times (ofJob id) RunEvent.isFailure (f.chronicle row) := by
    rw [h.counts.failed, h.metrics]
    exact Nat.zero_add _
  rw [h.succeeded, hfailed, RunEvent.times_isHanded]

/-- The runs of a kind that were asked for have been completed or skipped. -/
theorem Accountable.called (h : f.Accountable row) (hrest : (f.through row).runs = [])
    (who : String → RunKind → Bool) :
    times who RunEvent.isAsked (f.chronicle row) =
      times who RunEvent.isCompleted (f.chronicle row) +
        times who RunEvent.isSkipped (f.chronicle row) := by
  rw [← RunEvent.times_or]
  · exact h.balance hrest Account.balanced_calls who
  · intro e
    cases e with
    | ended job kind outcome => cases outcome <;> rfl
    | _ => rfl

/-- A sink that everyone shares has the records that were handed over. -/
theorem Accountable.kept (h : f.Accountable row) {s : Sink} (hsink : s ≠ .none)
    (hshared : ∀ i ∈ f.schedulers, i.sink = s) (hempty : s.kept f.world = [])
    (hcreate : s = .ledger → .create ∉ f.world.ledger.failing)
    (hrows : s = .ledger → ∀ point, point <+: row → (f.through point).KeepsRows) :
    s.kept (f.through row).world = RunEvent.reports (f.chronicle row) := by
  have hkept := (keeps_through h.fresh hsink hshared hcreate hrows row List.prefix_rfl).kept
  rwa [hempty, List.nil_append] at hkept

/-- The rows of a ledger that is everyone's sink are the records that were handed over. -/
theorem Accountable.rows (h : f.Accountable row) (hledger : ∀ s ∈ f.schedulers, s.sink = .ledger)
    (hempty : f.world.ledger.rows = []) (hcreate : .create ∉ f.world.ledger.failing)
    (hrows : ∀ point, point <+: row → (f.through point).KeepsRows) (id : String) :
    (Row.ofJob id (f.through row).world.ledger.rows).map Row.toReport =
      (RunEvent.reports (f.chronicle row)).filter (fun report => report.job = id) := by
  have hnone : Sink.ledger.kept f.world = [] := congrArg (List.map Row.toReport) hempty
  have hsink : Sink.ledger ≠ .none := nofun
  rw [← h.kept hsink hledger hnone (fun _ => hcreate) (fun _ => hrows), Sink.kept, List.filter_map]
  rfl

/-- At rest there is one record of a job for each body of it, and one of a success for each that was
    counted. -/
theorem Accountable.reports (h : f.Accountable row)
    (hrest : (f.through row).runs = []) (id : String) :
    ((RunEvent.reports (f.chronicle row)).filter (fun report => report.job = id)).length =
        times (ofJob id) RunEvent.isBegan (f.chronicle row) ∧
      ((RunEvent.reports (f.chronicle row)).filter (fun report => report.job = id)).countP
        (·.success) =
        (f.through row).world.metrics.count (.succeeded id) := by
  have hbodies : times (ofJob id) RunEvent.isBegan (f.chronicle row) =
      times (ofJob id) RunEvent.isHanded (f.chronicle row) :=
      h.balance hrest Account.balanced_bodies (ofJob id)
  have hhanded := RunEvent.countP_reports id (fun _ => true) (f.chronicle row)
  rw [List.countP_true] at hhanded
  refine ⟨?_, ?_⟩
  · rw [hhanded, hbodies]
    refine congrArg (fun sort => times (ofJob id) sort (f.chronicle row)) (funext fun e => ?_)
    cases e <;> rfl
  · rw [h.succeeded]
    exact RunEvent.countP_reports id (·.success) (f.chronicle row)

/-- **The books agree.**  Schedulers share a lock store, a ledger and counters, which are new, and
    every one has a sink.  Whatever occurs, and whatever store operations fail, provided that
    reading a declaration does not panic: at every point without a run in progress, the runs of each
    job that are counted as succeeded and as failed are together as many as there are durations,
    bodies that began, runs that were completed, and records that were handed over; the runs of each
    kind that were asked for have been completed or skipped, and those that were skipped are
    counted.  If the ledger is the sink of all, it takes rows and no body deletes any, then its rows
    of a job are these records, in order, one for each body, and those of a success are as many as
    were counted.  The same holds of what a recorder has that is the sink of all, whatever it
    answers.  And if the runs that follow a script are those of a job, its bodies have counted
    themselves as often as the chronicle tells. -/
theorem books_agree_at_rest {f : Fleet FaultyStore} {row : List Occurrence} (h : f.Accountable row)
    (hrest : (f.through row).runs = []) :
    (∀ id,
      (f.through row).world.metrics.count (.succeeded id) +
        (f.through row).world.metrics.count (.failed id) =
        ((f.through row).world.metrics.durationsOf id).length ∧
      ((f.through row).world.metrics.durationsOf id).length =
        times (ofJob id) RunEvent.isBegan (f.chronicle row) ∧
      times (ofJob id) RunEvent.isBegan (f.chronicle row) =
        times (ofJob id) RunEvent.isCompleted (f.chronicle row) ∧
      times (ofJob id) RunEvent.isCompleted (f.chronicle row) =
        times (ofJob id) RunEvent.isHanded (f.chronicle row)) ∧
    (∀ id kind,
      times (ofKind id kind) RunEvent.isAsked (f.chronicle row) =
        times (ofKind id kind) RunEvent.isCompleted (f.chronicle row) +
          times (ofKind id kind) RunEvent.isSkipped (f.chronicle row) ∧
      (f.through row).world.metrics.count (.skipped id kind) =
        times (ofKind id kind) RunEvent.isSkipped (f.chronicle row)) ∧
    ((∀ s ∈ f.schedulers, s.sink = .ledger) → f.world.ledger.rows = [] →
      .create ∉ f.world.ledger.failing →
      (∀ point, point <+: row → (f.through point).KeepsRows) → ∀ id,
        (Row.ofJob id (f.through row).world.ledger.rows).map Row.toReport =
          (RunEvent.reports (f.chronicle row)).filter (fun report => report.job = id) ∧
        (Row.ofJob id (f.through row).world.ledger.rows).length =
          times (ofJob id) RunEvent.isBegan (f.chronicle row) ∧
        (Row.ofJob id (f.through row).world.ledger.rows).countP (·.success) =
          (f.through row).world.metrics.count (.succeeded id)) ∧
    (∀ ending, (∀ s ∈ f.schedulers, s.sink = .recorder ending) → f.world.recorded = [] →
      (f.through row).world.recorded.reverse = RunEvent.reports (f.chronicle row) ∧ ∀ id,
        (f.through row).world.recorded.countP (·.job = id) =
          times (ofJob id) RunEvent.isBegan (f.chronicle row) ∧
        (f.through row).world.recorded.countP (fun report => report.job = id ∧ report.success) =
          (f.through row).world.metrics.count (.succeeded id)) ∧
    (∀ script id, (∀ point, point <+: row → (f.through point).Scripted script id) →
      ((f.through row).world.tally script).invocations =
        (f.world.tally script).invocations +
          times (ofJob id) RunEvent.isBegan (f.chronicle row)) := by
  -- two of the accounts, closed: every body has its record, and every record its end
  have hbodies (id : String) : times (ofJob id) RunEvent.isBegan (f.chronicle row) =
      times (ofJob id) RunEvent.isHanded (f.chronicle row) :=
      h.balance hrest Account.balanced_bodies (ofJob id)
  have hrecords (id : String) : times (ofJob id) RunEvent.isHanded (f.chronicle row) =
      times (ofJob id) RunEvent.isCompleted (f.chronicle row) :=
      h.balance hrest Account.balanced_records (ofJob id)
  refine ⟨?_, ?_, ?_, ?_, ?_⟩
  · intro id
    -- all four are counts of the chronicle
    rw [h.counted, h.durations, hbodies, hrecords]
    exact ⟨rfl, rfl, rfl, rfl⟩
  · intro id kind
    refine ⟨h.called hrest _, ?_⟩
    rw [h.counts.skipped, h.metrics]
    exact Nat.zero_add _
  · intro hledger hempty hcreate hrows id
    -- the ledger, read by job, is the list of records of that job
    have hkept := h.rows hledger hempty hcreate hrows id
    obtain ⟨hlength, hsuccess⟩ := h.reports hrest id
    rw [← hkept, List.length_map] at hlength
    rw [← hkept, List.countP_map] at hsuccess
    exact ⟨hkept, hlength, hsuccess⟩
  · intro ending hshared hempty
    -- a recorder puts each new record first
    have hkept : (f.through row).world.recorded.reverse = RunEvent.reports (f.chronicle row) :=
      h.kept (s := .recorder ending) nofun hshared (congrArg List.reverse hempty) nofun nofun
    refine ⟨hkept, fun id => ?_⟩
    obtain ⟨hlength, hsuccess⟩ := h.reports hrest id
    rw [← hkept, ← List.countP_eq_length_filter, List.countP_reverse] at hlength
    rw [← hkept, List.countP_filter, List.countP_reverse] at hsuccess
    refine ⟨hlength, Eq.trans ?_ hsuccess⟩
    refine List.countP_congr fun report _ => ?_
    simp [and_comm]
  · intro script id hscript
    -- what a script was told before is in its tally already
    exact begun_through h.fresh h.runsWell hscript row List.prefix_rfl

/-- A job whose body sleeps and succeeds in its first run, and fails in those after it. -/
def faltering : Job :=
  { Job.sleeper 2000 [] with
    body := .scripted "sleeper" [⟨500, .returned ⟨true, "ok", none⟩⟩,
      ⟨0, .failed ⟨"out of order", []⟩⟩] }

/-- Two instances fire at the same moment: one runs the job and the other is skipped.  Then an
    operator runs the job again. -/
def firingTogether : List Occurrence :=
  [.move (.start 0), .move (.start 1), .move (.turn 0), .move (.turn 1), .move (.pass 1000),
    .move (.turn 0), .move (.turn 1), .move (.turn 2), .move (.turn 2), .move (.turn 3),
    .move (.pass 1500), .move (.turn 2), .move (.turn 2),
    .move (.request 1 "sleeper" .manual .operator true), .move (.turn 4), .move (.turn 4),
    .move (.turn 4), .move (.turn 4)]

/-- Two bodies, a success and a failure, and one skip are what all the books have. -/
theorem books_agree_at_rest_firingTogether :
    ((instances 2 faltering).through firingTogether).runs = [] ∧
      times (ofKind "sleeper" .scheduled) RunEvent.isAsked
        ((instances 2 faltering).chronicle firingTogether) = 2 ∧
      ((instances 2 faltering).through firingTogether).world.metrics.count
        (.skipped "sleeper" .scheduled) = 1 ∧
      times (ofJob "sleeper") RunEvent.isBegan
        ((instances 2 faltering).chronicle firingTogether) = 2 ∧
      ((instances 2 faltering).through firingTogether).world.metrics.count
        (.succeeded "sleeper") = 1 ∧
      ((instances 2 faltering).through firingTogether).world.metrics.count (.failed "sleeper") = 1 ∧
      (Row.ofJob "sleeper"
        ((instances 2 faltering).through firingTogether).world.ledger.rows).length = 2 ∧
      (Row.ofJob "sleeper"
        ((instances 2 faltering).through firingTogether).world.ledger.rows).countP
          (·.success) = 1 ∧
      (((instances 2 faltering).through firingTogether).world.tally "sleeper").invocations = 2 := by
  have hledger : ∀ s ∈ (instances 2 faltering).schedulers, s.sink = .ledger := by
    intro s hs
    obtain ⟨number, -, rfl⟩ := List.mem_map.1 hs
    rfl
  have hruns : ∀ point ∈ firingTogether.inits, ∀ x ∈ ((instances 2 faltering).through point).runs,
      Run.unreadable x.2.job ((instances 2 faltering).through point).world = false ∧
        x.2.job.body.isCleanup = false ∧
        x.2.job.body.follows "sleeper" = decide (x.2.job.id = "sleeper") := by
    decide +kernel
  have hpoints : ∀ point, point <+: firingTogether → point ∈ firingTogether.inits :=
    fun point => (List.mem_inits point _).2
  have haccountable : (instances 2 faltering).Accountable firingTogether := by
    refine ⟨fresh_instances 2 _, rfl, ?_,
      fun point hpoint x hx => (hruns point (hpoints point hpoint) x hx).1⟩
    intro s hs
    rw [hledger s hs]
    nofun
  have hrest : ((instances 2 faltering).through firingTogether).runs = [] := by
    rfl
  have hcreate : LedgerOperation.create ∉ (instances 2 faltering).world.ledger.failing := by
    decide
  obtain ⟨hbooks, hcalls, hrows, -, htallies⟩ := books_agree_at_rest haccountable hrest
  obtain ⟨-, hbodies, hsuccesses⟩ := hrows hledger rfl hcreate
    (fun point hpoint x hx => (hruns point (hpoints point hpoint) x hx).2.1) "sleeper"
  have htally := htallies "sleeper" "sleeper" (fun point hpoint x hx =>
    (hruns point (hpoints point hpoint) x hx).2.2)
  have hnew : ((instances 2 faltering).world.tally "sleeper").invocations = 0 := rfl
  have hbegan : times (ofJob "sleeper") RunEvent.isBegan
      ((instances 2 faltering).chronicle firingTogether) = 2 := by
    decide +kernel
  have hsucceeded : ((instances 2 faltering).through firingTogether).world.metrics.count
      (.succeeded "sleeper") = 1 := by
    decide +kernel
  have hasked : times (ofKind "sleeper" .scheduled) RunEvent.isAsked
      ((instances 2 faltering).chronicle firingTogether) = 2 := by
    decide +kernel
  have hcompleted : times (ofKind "sleeper" .scheduled) RunEvent.isCompleted
      ((instances 2 faltering).chronicle firingTogether) = 1 := by
    decide +kernel
  obtain ⟨hcalled, hskipped⟩ := hcalls "sleeper" .scheduled
  obtain ⟨hcounted, hdurations, -, -⟩ := hbooks "sleeper"
  exact ⟨hrest, hasked, by omega, hbegan, hsucceeded, by omega, by omega, by omega, by omega⟩

end Fleet

end JobFleet
