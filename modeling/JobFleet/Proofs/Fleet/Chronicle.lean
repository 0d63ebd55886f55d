/-
  JobFleet.Proofs.Fleet.Chronicle: what becomes of the runs of a fleet, event by event.

  A run is asked for, its body begins, its record is handed over, and it ends; without its lock it
  ends at once.  Each of these is an event, and the chronicle of a row of occurrences lists them in
  order.  Beside it stand the runs in progress.  Whatever occurs, either runs are asked for and none
  makes a piece, or one run makes a piece, which is one event or none (`Fleet.Proceeds`).  The
  events of one run come in one order only, that of its stages (`Run.Life`).

  Main results:
    * `Run.Advances.life` — every piece of a run follows the stages.
    * `proceeds_occur` — what an occurrence does to the runs in progress, and its events.
    * `chronicle_induction` — how to prove something of the chronicle and the fleet at every point
      of a row.
    * `events_request`, `events_fire` — a call and a trigger that fires ask for one run each.
-/
import JobFleet.Proofs.Fleet.Turns

namespace JobFleet

/-! ## Events -/

/-- What a chronicle tells. -/
inductive RunEvent
  /-- A trigger fired or someone called: a run of a job was started. -/
  | asked (job : String) (kind : RunKind)
  /-- A body began. -/
  | began (job : String) (kind : RunKind)
  /-- A body ended and its record was handed to the sink. -/
  | handed (kind : RunKind) (report : Report)
  /-- A run ended. -/
  | ended (job : String) (kind : RunKind) (outcome : RunOutcome)

namespace RunEvent

/-- The job that an event is about. -/
def job : RunEvent → String
  | asked job _ => job
  | began job _ => job
  | handed _ report => report.job
  | ended job _ _ => job

/-- The kind of the run that an event is about. -/
def kind : RunEvent → RunKind
  | asked _ kind => kind
  | began _ kind => kind
  | handed kind _ => kind
  | ended _ kind _ => kind

/-- The record that was handed over. -/
def report? : RunEvent → Option Report
  | handed _ report => some report
  | _ => none

/-- A run was asked for. -/
def isAsked : RunEvent → Bool
  | asked _ _ => true
  | _ => false

/-- A body began. -/
def isBegan : RunEvent → Bool
  | began _ _ => true
  | _ => false

/-- A record was handed over. -/
def isHanded (e : RunEvent) : Bool := e.report?.isSome

/-- The record of a success was handed over. -/
def isSuccess (e : RunEvent) : Bool := e.report?.any (·.success)

/-- The record of a failure was handed over. -/
def isFailure (e : RunEvent) : Bool := e.report?.any (!·.success)

/-- A run was completed. -/
def isCompleted : RunEvent → Bool
  | ended _ _ (.completed _) => true
  | _ => false

/-- A run was skipped. -/
def isSkipped : RunEvent → Bool
  | ended _ _ .skipped => true
  | _ => false

/-- All runs of a job. -/
def ofJob (id : String) (job : String) (_ : RunKind) : Bool := job = id

/-- The runs of a job and a kind. -/
def ofKind (id : String) (kind : RunKind) (job : String) (k : RunKind) : Bool := job = id ∧ k = kind

/-- The records that were handed over, in order. -/
def reports (events : List RunEvent) : List Report := events.filterMap report?

/-- How many events of a sort tell of certain runs. -/
def times (who : String → RunKind → Bool) (sort : RunEvent → Bool) (events : List RunEvent) : Nat :=
  events.countP (fun e => who e.job e.kind && sort e)

section

variable (who : String → RunKind → Bool) (sort : RunEvent → Bool)

@[simp] theorem times_nil : times who sort [] = 0 := rfl

theorem times_append (events events' : List RunEvent) :
    times who sort (events ++ events') = times who sort events + times who sort events' :=
  List.countP_append

/-- One event is counted once if it is one of those that are counted. -/
theorem times_singleton (e : RunEvent) :
    times who sort [e] = (who e.job e.kind && sort e).toNat := by
  unfold times
  rw [List.countP_singleton]
  cases who e.job e.kind && sort e <;> rfl

/-- One event counts at most once. -/
theorem times_ofJob_singleton (id : String) (e : RunEvent) :
    times (ofJob id) sort [e] = if id = e.job ∧ sort e = true then 1 else 0 := by
  rw [times_singleton]
  by_cases hid : id = e.job
  · cases hsort : sort e <;> simp [ofJob, hid]
  · simp [ofJob, hid, Ne.symm hid]

/-- One event is counted for a job and a kind if it is theirs and of the sort. -/
theorem times_ofKind_singleton (id : String) (kind : RunKind) (e : RunEvent) :
    times (ofKind id kind) sort [e] =
      if id = e.job ∧ kind = e.kind ∧ sort e = true then 1 else 0 := by
  rw [times_singleton]
  by_cases hid : id = e.job
  · by_cases hkind : kind = e.kind
    · cases hsort : sort e <;> simp [ofKind, hid, hkind]
    · simp [ofKind, hkind, Ne.symm hkind]
  · simp [ofKind, hid, Ne.symm hid]

/-- Events of another sort do not count. -/
theorem times_eq_zero {events : List RunEvent} (h : ∀ e ∈ events, sort e = false) :
    times who sort events = 0 := by
  refine List.countP_eq_zero.2 ?_
  intro e he
  rw [h e he, Bool.and_false]
  exact Bool.false_ne_true

/-- Sorts that no event has both count together. -/
theorem times_or (sort' : RunEvent → Bool) (h : ∀ e, (sort e && sort' e) = false)
    (events : List RunEvent) :
    times who (fun e => sort e || sort' e) events =
      times who sort events + times who sort' events := by
  induction events with
  | nil => rfl
  | cons e rest ih =>
    have hone : times who (fun e => sort e || sort' e) [e] =
        times who sort [e] + times who sort' [e] := by
      have hnot := h e
      rw [times_singleton, times_singleton, times_singleton]
      cases hsort : sort e <;> cases hsort' : sort' e <;> simp_all
    rw [← List.singleton_append, times_append, times_append, times_append, ih, hone]
    omega

/-- A record is one of a success or of a failure. -/
theorem times_isHanded (events : List RunEvent) :
    times who isHanded events = times who isSuccess events + times who isFailure events := by
  rw [← times_or]
  · refine congrArg (fun sort => times who sort events) (funext fun e => ?_)
    cases e with
    | handed kind report =>
      cases hsuccess : report.success <;> simp [isSuccess, isFailure, isHanded, report?, hsuccess]
    | _ => rfl
  · intro e
    cases e with
    | handed kind report =>
      cases hsuccess : report.success <;> simp [isSuccess, isFailure, report?, hsuccess]
    | _ => rfl

theorem reports_append (events events' : List RunEvent) :
    reports (events ++ events') = reports events ++ reports events' :=
  List.filterMap_append

/-- The records of a job that satisfy a condition are those that its events tell of. -/
theorem countP_reports (id : String) (condition : Report → Bool) (events : List RunEvent) :
    ((reports events).filter (fun report => report.job = id)).countP condition =
      times (ofJob id) (fun e => e.report?.any condition) events := by
  induction events with
  | nil => rfl
  | cons e rest ih =>
    rw [← List.singleton_append, reports_append, List.filter_append, List.countP_append,
      times_append, ih, times_singleton]
    congr 1
    cases e with
    | handed kind report =>
      by_cases hid : report.job = id
      · cases hcondition : condition report <;> simp [reports, report?, ofJob, job, hid, hcondition]
      · simp [reports, report?, ofJob, job, hid]
    | _ => simp [reports, report?]

end

end RunEvent

/-! ## The stages of a run -/

/-- Where a run is, as its events tell. -/
inductive RunStage
  /-- Before its body. -/
  | before
  /-- In its body. -/
  | within
  /-- After its body. -/
  | behind
deriving DecidableEq, Repr

/-- The stage of a phase. -/
def RunPhase.stage : RunPhase → RunStage
  | .entering => .before
  | .polling _ _ => .before
  | .holding _ => .before
  | .executing _ _ => .within
  | .releasing _ _ => .behind

/-- The event of a piece that takes a run so far. -/
def Run.event? {σ : Type} (r : Run) (p : Progress) (w : World σ) : Option RunEvent :=
  match p with
  | .ended outcome => some (.ended r.job.id r.kind outcome)
  | _ =>
    match r.phase with
    | .holding _ => if Run.unreadable r.job w then none else some (.began r.job.id r.kind)
    | .executing _ x =>
      match r.guard.sink with
      | .none => none
      | _ => some (.handed r.kind (x.report r.job (.ofEnding x.ending) w))
    | _ => none

/-- From a stage to the next: the event, and where the run is then, unless it has ended. -/
inductive Run.Life (job : String) (kind : RunKind) : RunStage → Option RunEvent →
    Option RunStage → Prop
  /-- It asks for its lock, or has it. -/
  | asks : Life job kind .before none (some .before)
  | skipped : Life job kind .before (some (.ended job kind .skipped)) none
  | began : Life job kind .before (some (.began job kind)) (some .within)
  | handed (report : Report) (hjob : report.job = job) :
    Life job kind .within (some (.handed kind report)) (some .behind)
  | completed (result : RunResult) :
    Life job kind .behind (some (.ended job kind (.completed result))) none

namespace Run

variable {σ : Type} {r : Run} {w w' : World σ} {p : Progress}

/-- A run that asks for its lock and goes on has no event. -/
theorem event?_of_asking (hsince : r.phase.since? = none) (hgoes : p.run? ≠ none) :
    r.event? p w = none := by
  cases p with
  | ended outcome => exact absurd rfl hgoes
  | _ =>
    cases hphase : r.phase with
    | entering | polling => simp only [event?, hphase]
    | _ =>
      rw [hphase] at hsince
      cases hsince

/-- A body that begins is an event, whether it waits or not. -/
theorem event?_began {since : Nat} {x : Execution} {moment : Nat} {r' : Run}
    (hphase : r.phase = .holding since) (hread : unreadable r.job w = false) :
    r.event? (if 0 < x.sleep then .waiting moment r' else .going r') w =
      some (.began r.job.id r.kind) := by
  split <;> simp only [event?, hphase, hread, Bool.false_eq_true, if_false]

/-- A body that ends is an event, if there is a sink. -/
theorem event?_finished {since : Nat} {x : Execution} {r' : Run}
    (hphase : r.phase = .executing since x) (hsink : r.guard.sink ≠ .none) :
    r.event? (.going r') w = some (.handed r.kind (x.report r.job (.ofEnding x.ending) w)) := by
  cases hs : r.guard.sink with
  | none => exact absurd hs hsink
  | _ => simp only [event?, hphase, hs]

/-- A run that asks for its lock is before its body. -/
theorem Asks.stage {deadline : Option Nat} {number : Nat} (h : r.Asks w deadline number) :
    r.phase.stage = .before := by
  obtain ⟨hphase, -⟩ | ⟨attempts, hphase, -⟩ := h
  · rw [hphase]
    rfl
  · rw [hphase]
    rfl

/-- Every piece of a run follows the stages, if its declaration can be read and it has a sink. -/
theorem Advances.life [LockStore σ] (h : r.Advances w p w') (hread : unreadable r.job w = false)
    (hsink : r.guard.sink ≠ .none) :
    Life r.job.id r.kind r.phase.stage (r.event? p w) (p.run?.map (·.phase.stage)) := by
  cases h with
  | panicked _ hpanics | broke _ hpanics =>
    rw [hread] at hpanics
    cases hpanics
  | took hasks | polled hasks =>
    rw [hasks.stage, event?_of_asking hasks.since?]
    · exact .asks
    · exact Option.some_ne_none _
  | skipped hasks =>
    rw [hasks.stage]
    exact .skipped
  | began hphase _ hbegin =>
    rw [event?_began hphase hread, run?_began, hphase]
    exact .began
  | finished hphase =>
    rw [event?_finished hphase hsink, hphase]
    exact .handed _ rfl
  | released hphase =>
    rw [hphase]
    exact .completed _

end Run

/-! ## Runs in progress -/

namespace Fleet

section

variable {σ : Type} {f g : Fleet σ}

/-- The runs in progress, with the numbers of their tasks. -/
def runs (f : Fleet σ) :
    List (Nat × Run) := f.tasks.filterMap (fun t => t.run?.map (Prod.mk t.number))

/-- The runs in progress whose numbers were given out since. -/
def runsFrom (first : Nat) (f : Fleet σ) : List (Nat × Run) := f.runs.filter (fun x => first ≤ x.1)

/-- A run in progress is that of a task. -/
theorem mem_runs {n : Nat} {r : Run} : (n, r) ∈ f.runs ↔ ∃ t ∈ f.tasks, t.number = n ∧
    t.run? = some r := by
  simp [runs, and_comm]

/-- Every run in progress has a number of its own. -/
theorem nodup_runs (hs : f.Sound) : f.runs.Nodup := by
  have hnumbers : (f.runs.map Prod.fst).Sublist (f.tasks.map Task.number) := by
    rw [runs, List.map_filterMap]
    generalize f.tasks = tasks
    induction tasks with
    | nil => exact List.Sublist.refl _
    | cons t rest ih =>
      cases hrun : t.run? with
      | none =>
        rw [List.filterMap_cons_none (by rw [hrun]; rfl)]
        exact ih.cons _
      | some r =>
        rw [List.filterMap_cons_some (by rw [hrun]; rfl)]
        exact ih.cons_cons _
  exact (hs.nodup.sublist hnumbers).of_map

/-- Runs in progress have numbers that were given out. -/
theorem lt_of_mem_runs (hs : f.Sound) {x : Nat × Run} (h : x ∈ f.runs) : x.1 < f.nextNumber := by
  obtain ⟨t, ht, hnumber, -⟩ := mem_runs.1 h
  rw [← hnumber]
  exact hs.below t ht

/-- No run makes a piece. -/
structure Rests (f g : Fleet σ) : Prop where
  books : f.world.SameBooks g.world
  keeps : ∀ x ∈ f.runs, x ∈ g.runs
  adds : ∀ x ∈ g.runs, x ∈ f.runs ∨ (f.nextNumber ≤ x.1 ∧ x.2.phase = .entering)

/-- In a calm step no run makes a piece. -/
theorem Calm.rests (h : f.Calm g) : f.Rests g where
  books := h.books
  keeps := by
    rintro ⟨n, r⟩ hx
    obtain ⟨t, ht, hnumber, hrun⟩ := mem_runs.1 hx
    exact mem_runs.2 ⟨t, h.keeps t ht r hrun, hnumber, hrun⟩
  adds := by
    rintro ⟨n, r⟩ hx
    obtain ⟨t, ht, rfl, hrun⟩ := mem_runs.1 hx
    obtain hold | ⟨hnew, -, hphase⟩ := h.adds t ht r hrun
    · exact .inl (mem_runs.2 ⟨t, hold, rfl, hrun⟩)
    · exact .inr ⟨hnew, hphase⟩

theorem rests_passTo (moment : Nat) : f.Rests (f.passTo moment) where
  books := ⟨⟨rfl, rfl, rfl⟩, rfl, rfl⟩
  keeps := by
    rintro ⟨n, r⟩ hx
    obtain ⟨t, ht, rfl, hrun⟩ := mem_runs.1 hx
    obtain ⟨t', ht', hnumber, hactivity⟩ := exists_mem_passTo moment ht
    exact mem_runs.2 ⟨t', ht', hnumber, by rw [Task.run?_congr hactivity, hrun]⟩
  adds := by
    rintro ⟨n, r⟩ hx
    obtain ⟨t, ht, rfl, hrun⟩ := mem_runs.1 hx
    obtain ⟨t₀, ht₀, hnumber, hactivity, -⟩ := mem_passTo ht
    exact .inl (mem_runs.2 ⟨t₀, ht₀, hnumber.symm, by rw [← Task.run?_congr hactivity, hrun]⟩)

/-- The runs afterwards are those before and the new ones. -/
theorem Rests.perm (hs : f.Sound) (hs' : g.Sound) (h : f.Rests g) :
    g.runs.Perm (f.runs ++ g.runsFrom f.nextNumber) := by
  have hnodup : (f.runs ++ g.runsFrom f.nextNumber).Nodup := by
    refine (nodup_runs hs).append ((nodup_runs hs').filter _) ?_
    intro x hold hnew
    have hlt := lt_of_mem_runs hs hold
    have hle := of_decide_eq_true (List.mem_filter.1 hnew).2
    omega
  refine (List.perm_ext_iff_of_nodup (nodup_runs hs') hnodup).2 ?_
  intro x
  rw [List.mem_append]
  constructor
  · intro hx
    exact (h.adds x hx).imp_right (fun hnew => List.mem_filter.2 ⟨hx, decide_eq_true hnew.1⟩)
  · rintro (hold | hnew)
    · exact h.keeps x hold
    · exact (List.mem_filter.1 hnew).1

/-- Runs that came in meanwhile are at their beginning. -/
theorem Rests.entering (hs : f.Sound) (h : f.Rests g) {x : Nat × Run}
    (hx : x ∈ g.runsFrom f.nextNumber) :
    x.2.phase = .entering := by
  obtain ⟨hmem, hle⟩ := List.mem_filter.1 hx
  obtain hold | ⟨-, hphase⟩ := h.adds x hmem
  · exact absurd (lt_of_mem_runs hs hold) (Nat.not_lt.2 (of_decide_eq_true hle))
  · exact hphase

variable {t : Task} {i : Nat} {r : Run} {c : Caller} {p : Progress} {w : World σ}

/-- A run and the others. -/
theorem runs_perm_cons (hs : f.Sound) (ht : t ∈ f.tasks) (hrun : t.run? = some r) :
    f.runs.Perm ((t.number, r) :: f.runs.filter (fun x => x.1 ≠ t.number)) := by
  have hnodup : ((t.number, r) :: f.runs.filter (fun x => x.1 ≠ t.number)).Nodup := by
    refine List.nodup_cons.2 ⟨?_, (nodup_runs hs).filter _⟩
    intro hmem
    simpa using (List.mem_filter.1 hmem).2
  refine (List.perm_ext_iff_of_nodup (nodup_runs hs) hnodup).2 ?_
  rintro ⟨n, r'⟩
  simp only [List.mem_cons, Prod.mk.injEq, List.mem_filter, decide_eq_true_eq]
  constructor
  · intro hx
    by_cases hn : n = t.number
    · obtain ⟨t', ht', hnumber, hrun'⟩ := mem_runs.1 hx
      rw [hs.task_unique ht' ht (hnumber.trans hn), hrun] at hrun'
      exact .inl ⟨hn, (Option.some.inj hrun').symm⟩
    · exact .inr ⟨hx, hn⟩
  · rintro (⟨rfl, rfl⟩ | ⟨hx, -⟩)
    · exact mem_runs.2 ⟨t, ht, rfl, hrun⟩
    · exact hx

/-- After a piece there are the others, and the run that made it unless it has ended. -/
theorem runs_afterRun (hs : f.Sound) (hs' : (f.afterRun t i c (p, w)).Sound) :
    (f.afterRun t i c (p, w)).runs.Perm
      (p.run?.toList.map (Prod.mk t.number) ++ f.runs.filter (fun x => x.1 ≠ t.number)) := by
  have hnodup : (p.run?.toList.map (Prod.mk t.number) ++
      f.runs.filter (fun x => x.1 ≠ t.number)).Nodup := by
    refine List.Nodup.append ?_ ((nodup_runs hs).filter _) ?_
    · cases p.run? with
      | none => exact List.nodup_nil
      | some r' => exact List.nodup_singleton _
    · intro x hown hother
      obtain ⟨r', -, rfl⟩ := List.mem_map.1 hown
      simpa using (List.mem_filter.1 hother).2
  refine (List.perm_ext_iff_of_nodup (nodup_runs hs') hnodup).2 ?_
  rintro ⟨n, r'⟩
  simp only [List.mem_append, List.mem_map, Option.mem_toList, Prod.mk.injEq, List.mem_filter,
    decide_eq_true_eq]
  constructor
  · intro hx
    obtain ⟨t', ht', rfl, hrun⟩ := mem_runs.1 hx
    obtain ⟨hold, hne⟩ | ⟨hnumber, hgoes, -⟩ := mem_afterRun hs ht' hrun
    · exact .inr ⟨mem_runs.2 ⟨t', hold, rfl, hrun⟩, hne⟩
    · exact .inl ⟨r', hgoes, hnumber.symm, rfl⟩
  · rintro (⟨r₁, hgoes, rfl, rfl⟩ | ⟨hx, hne⟩)
    · obtain ⟨state, hstate⟩ := Progress.state?_of_run? hgoes
      exact mem_runs.2 ⟨_, parked_afterRun hgoes hstate, rfl, rfl⟩
    · obtain ⟨t', ht', rfl, hrun⟩ := mem_runs.1 hx
      exact mem_runs.2 ⟨t', keeps_afterRun hs ht' hrun hne, rfl, hrun⟩

/-- A piece does not ask for runs. -/
theorem runsFrom_afterRun (hs' : (f.afterRun t i c (p, w)).Sound) :
    (f.afterRun t i c (p, w)).runsFrom f.nextNumber = [] := by
  refine List.filter_eq_nil_iff.2 ?_
  intro x hx
  have hlt := lt_of_mem_runs hs' hx
  rw [nextNumber_afterRun] at hlt
  simpa using hlt

theorem sameBooks_afterRun : w.SameBooks (f.afterRun t i c (p, w)).world := by
  cases p with
  | going r => exact World.SameBooks.refl w
  | waiting moment r => exact World.SameBooks.refl w
  | ended outcome =>
    show w.SameBooks (logReply c outcome w)
    unfold logReply
    split
    · exact World.sameBooks_emit _ _ _ w
    · exact World.sameBooks_emit _ _ _ w
    · exact World.SameBooks.refl w

end

/-! ## Chronicles -/

/-- The run whose next piece an occurrence is. -/
def turnOf? (f : Fleet FaultyStore) : Occurrence → Option Run
  | .move (.turn number) _ => (f.task? number).bind Task.run?
  | _ => none

/-- The events of an occurrence: that of the piece of a run, and the runs that are asked for. -/
def events (f : Fleet FaultyStore) (o : Occurrence) : List RunEvent :=
  ((f.turnOf? o).bind (fun r => r.event? (r.advance f.world).1 f.world)).toList ++
    ((f.occur o).runsFrom f.nextNumber).map (fun x => .asked x.2.job.id x.2.kind)

/-- The events of a row of occurrences, in order. -/
def chronicle (f : Fleet FaultyStore) : List Occurrence → List RunEvent
  | [] => []
  | o :: rest => f.events o ++ (f.occur o).chronicle rest

/-- The last events are those of the last occurrence. -/
theorem chronicle_concat (f : Fleet FaultyStore) (row : List Occurrence) (o : Occurrence) :
    f.chronicle (row ++ [o]) = f.chronicle row ++ (f.through row).events o := by
  induction row generalizing f with
  | nil => exact List.append_nil _
  | cons o₀ row ih =>
    show f.events o₀ ++ (f.occur o₀).chronicle (row ++ [o]) =
      f.events o₀ ++ (f.occur o₀).chronicle row ++ _
    rw [ih, List.append_assoc]
    rfl

/-- What an occurrence does to the runs in progress and to the world, and its events. -/
inductive Proceeds (f : Fleet FaultyStore) : List RunEvent → Fleet FaultyStore → Prop
  /-- Runs may be asked for, and none makes a piece. -/
  | asks {g : Fleet FaultyStore} (new : List (Nat × Run))
    (hentering : ∀ x ∈ new, x.2.phase = .entering)
      (hruns : g.runs.Perm (f.runs ++ new)) (hbooks : f.world.SameBooks g.world) :
      Proceeds f (new.map (fun x => .asked x.2.job.id x.2.kind)) g
  /-- One run makes its next piece. -/
  | goes {g : Fleet FaultyStore} (n : Nat) (r : Run) (others : List (Nat × Run))
    (hbefore : f.runs.Perm ((n, r) :: others))
      (hafter : g.runs.Perm ((r.advance f.world).1.run?.toList.map (Prod.mk n) ++ others))
      (hbooks : (r.advance f.world).2.SameBooks g.world) :
      Proceeds f (r.event? (r.advance f.world).1 f.world).toList g

/-- An occurrence in which no run makes a piece tells of the runs that are asked for. -/
theorem proceeds_of_rests {f : Fleet FaultyStore} {o : Occurrence} (hs : f.Sound)
    (hnone : f.turnOf? o = none) (h : f.Rests (f.occur o)) :
    f.Proceeds (f.events o) (f.occur o) := by
  have hs' := (occur_happens hs o).sound hs
  have hevents : f.events o =
      ((f.occur o).runsFrom f.nextNumber).map (fun x => .asked x.2.job.id x.2.kind) := by
    rw [events, hnone]
    rfl
  rw [hevents]
  exact .asks _ (fun x hx => h.entering hs hx) (h.perm hs hs') h.books

/-- An occurrence that is a piece of a run tells of that piece. -/
theorem proceeds_of_piece {f : Fleet FaultyStore} {o : Occurrence} (hs : f.Sound) {t : Task}
    {i : Nat} {r : Run} {c : Caller} (ht : t ∈ f.tasks) (hactivity : t.activity = .run i r c)
    (hturn : f.turnOf? o = some r) (hoccur : f.occur o = f.afterRun t i c (r.advance f.world)) :
    f.Proceeds (f.events o) (f.occur o) := by
  have hrun := Task.run?_of_activity hactivity
  have hs' : (f.afterRun t i c (r.advance f.world)).Sound := hoccur ▸ (occur_happens hs o).sound hs
  have hevents : f.events o = (r.event? (r.advance f.world).1 f.world).toList := by
    rw [events, hturn, hoccur]
    exact (congrArg _ (congrArg _ (runsFrom_afterRun hs'))).trans (List.append_nil _)
  rw [hevents, hoccur]
  exact .goes t.number r _ (runs_perm_cons hs ht hrun) (runs_afterRun hs hs') sameBooks_afterRun

/-- The turn of a task is a piece of its run, or leaves the runs alone. -/
theorem proceeds_turn {f : Fleet FaultyStore} (hs : f.Sound) (number : Nat)
    (honest : (Move.turn number).IsHonest) :
    f.Proceeds (f.events (.move (.turn number) honest))
      (f.occur (.move (.turn number) honest)) := by
  have hadvance : f.occur (.move (.turn number) honest) = f.advance number := rfl
  cases hfound : f.task? number with
  | none =>
    refine proceeds_of_rests hs (by simp [turnOf?, hfound]) ?_
    rw [hadvance, advance, hfound]
    exact (Calm.refl hs).rests
  | some t =>
    obtain ⟨ht, rfl⟩ := task?_eq_some hfound
    have hturn : f.turnOf? (.move (.turn t.number) honest) = t.run? := by simp [turnOf?, hfound]
    cases hactivity : t.activity with
    | run i r c =>
      exact proceeds_of_piece hs ht hactivity (hturn.trans (Task.run?_of_activity hactivity))
        (make_turn hfound hactivity)
    -- nobody takes a lock without a run
    | acquire a => exact absurd hactivity (hs.plain t ht a)
    | drive d | drain d =>
      have hidle : t.activity.isIdle = true := by
        rw [hactivity]
        rfl
      refine proceeds_of_rests hs (hturn.trans (Task.run?_of_idle hidle)) ?_
      have hstep : f.advance t.number = f.stepTask t := by simp only [advance, hfound, hactivity]
      rw [hadvance, hstep]
      exact (calm_stepTask hs ht hidle).rests

/-- Whatever occurs asks for runs, or is one piece of one run. -/
theorem proceeds_occur {f : Fleet FaultyStore} (hs : f.Sound) (o : Occurrence) :
    f.Proceeds (f.events o) (f.occur o) := by
  have hcalm (hnone : f.turnOf? o = none) (h : f.Calm (f.occur o)) :
      f.Proceeds (f.events o) (f.occur o) :=
    proceeds_of_rests hs hnone h.rests
  cases o with
  | race number => exact hcalm rfl (calm_race hs number)
  | move m honest =>
    cases m with
    | turn number => exact proceeds_turn hs number honest
    | pass moment => exact proceeds_of_rests hs rfl (rests_passTo moment)
    | fail operations =>
      exact proceeds_of_rests hs rfl ⟨⟨⟨rfl, rfl, rfl⟩, rfl, rfl⟩, fun _ hx => hx,
        fun _ hx => .inl hx⟩
    | register i job => exact hcalm rfl (calm_register hs i job)
    | registerAll i jobs => exact hcalm rfl (calm_registerAll hs i jobs)
    | start i => exact hcalm rfl (calm_start hs i)
    | shutdown i waits foreground => exact hcalm rfl (calm_shutdown hs i waits foreground)
    | pause i id => exact hcalm rfl (calm_pause hs i id)
    | resume i id => exact hcalm rfl (calm_resume hs i id)
    | remove i id => exact hcalm rfl (calm_remove hs i id)
    | request i id kind caller foreground =>
      exact hcalm rfl (calm_request hs i id kind caller foreground)

/-- What holds at first, and is kept by everything that occurs together with its events, holds at
    every point of a row. -/
theorem chronicle_induction {f : Fleet FaultyStore} {row : List Occurrence} (hs : f.Sound)
    {P : List RunEvent → Fleet FaultyStore → Prop} (hnil : P [] f)
    (hstep : ∀ point, point <+: row → ∀ events new g, P events (f.through point) →
      (f.through point).Proceeds new g →
      P (events ++ new) g) : ∀ point, point <+: row → P (f.chronicle point) (f.through point) := by
  refine prefix_induction hnil ?_
  intro before o hpre ih
  rw [chronicle_concat, through_concat]
  exact hstep before ((List.prefix_append before [o]).trans hpre) _ _ _ ih
    (proceeds_occur (sound_through hs before) o)

/-! ## Who asks -/

section

variable {f : Fleet FaultyStore} {o : Occurrence}

/-- The runs in progress are what tasks do that are runs. -/
theorem mem_runs_iff_does {n : Nat} {r : Run} : (n, r) ∈ f.runs ↔ ∃ i c, f.Does n (.run i r c) := by
  constructor
  · intro hx
    obtain ⟨t, ht, rfl, hrun⟩ := mem_runs.1 hx
    obtain ⟨i, c, hactivity⟩ := Task.activity_of_run? hrun
    exact ⟨i, c, hactivity ▸ does_of_mem ht⟩
  · intro hdoes
    obtain ⟨i, c, t, ht, hnumber, hactivity⟩ := hdoes
    exact mem_runs.2 ⟨t, ht, hnumber, Task.run?_of_activity hactivity⟩

/-- If one run is new afterwards, then one run was asked for. -/
theorem events_eq_asked (hs : f.Sound) (hnone : f.turnOf? o = none) {r : Run}
    (hnew : ∀ m i r' c, f.nextNumber ≤ m → (f.occur o).Does m (.run i r' c) →
      m = f.nextNumber ∧ r' = r)
    (hthere : ∃ i c, (f.occur o).Does f.nextNumber (.run i r c)) :
    f.events o = [.asked r.job.id r.kind] := by
  have hs' := (occur_happens hs o).sound hs
  have hone : ((f.occur o).runsFrom f.nextNumber).Perm [(f.nextNumber, r)] := by
    refine (List.perm_ext_iff_of_nodup ((nodup_runs hs').filter _) (List.nodup_singleton _)).2 ?_
    rintro ⟨m, r'⟩
    rw [List.mem_singleton, List.mem_filter, mem_runs_iff_does, decide_eq_true_eq]
    constructor
    · intro hx
      obtain ⟨⟨i, c, hdoes⟩, hle⟩ := hx
      obtain ⟨rfl, rfl⟩ := hnew m i r' c hle hdoes
      rfl
    · intro hx
      cases hx
      exact ⟨hthere, Nat.le_refl _⟩
  rw [events, hnone, List.perm_singleton.1 hone]
  rfl

/-- A call for a registered job asks for one run of it. -/
theorem events_request (hs : f.Sound) {i : Nat} {id : String} {s : Scheduler} {e : Entry}
    (hsched : f.schedulers[i]? = some s) (hentry : Entry.find? id (f.entriesOf i) = some e)
    {kind : RunKind} {caller : Caller} {foreground : Bool}
    (honest : (Move.request i id kind caller foreground).IsHonest) :
    f.events (.move (.request i id kind caller foreground) honest) = [.asked id kind] := by
  have hid : e.id = id := by simpa using List.find?_some hentry
  have hoccur : f.occur (.move (.request i id kind caller foreground) honest) =
      f.addTask (.run i ⟨s.guard, e.job, kind, .entering⟩ caller) foreground := by
    show f.request i id kind caller foreground = _
    rw [request, requested?, hsched, hentry]
  subst hid
  refine events_eq_asked hs rfl (r := ⟨s.guard, e.job, kind, .entering⟩) ?_ ?_
  · intro m j r' c hle hdoes
    rw [hoccur] at hdoes
    obtain hold | ⟨hm, hrun⟩ := (does_addTask foreground).1 hdoes
    · exact absurd (hs.lt_of_does hold) (Nat.not_lt.2 hle)
    · cases hrun
      exact ⟨hm, rfl⟩
  · rw [hoccur]
    exact ⟨i, caller, (does_addTask foreground).2 (.inr ⟨rfl, rfl⟩)⟩

/-- A driver that fires asks for one scheduled run of its job. -/
theorem events_fire (hs : f.Sound) {t : Task} (ht : t ∈ f.tasks) {d : Driver}
    (hactivity : t.activity = .drive d) (hawaited : d.awaited ≠ none)
    (hgoes : d.stopping = false) {s : Scheduler} (hsched : f.schedulers[d.scheduler]? = some s) :
    f.events (.move (.turn t.number)) = [.asked d.job.id .scheduled] := by
  have hfound := hs.task?_eq ht
  have hoccur : f.occur (.move (.turn t.number)) = (f.startTick d.scheduler d.job).driveOn t d := by
    show f.advance t.number = _
    cases hawait : d.awaited with
    | none => exact absurd hawait hawaited
    | some instant => simp [advance, hfound, hactivity, stepTask, stepDriver, hawait, hgoes]
  have hfires := fires_driveOn hsched (hs.below t ht)
  rw [← hoccur] at hfires
  have hnone : f.turnOf? (.move (.turn t.number)) = none := by
    simp [turnOf?, hfound, Task.run?, hactivity]
  refine events_eq_asked hs hnone (r := ⟨s.guard, d.job, .scheduled, .entering⟩) ?_ ?_
  · intro m i r' c hle hdoes
    obtain ⟨-, hold⟩ | ⟨rfl, -⟩ | ⟨hm, hrun⟩ := (hfires.does m _).1 hdoes
    · exact absurd (hs.lt_of_does hold) (Nat.not_lt.2 hle)
    · exact absurd (hs.below t ht) (Nat.not_lt.2 hle)
    · cases hrun
      exact ⟨hm, rfl⟩
  · exact ⟨d.scheduler, .timer, (hfires.does _ _).2 (.inr (.inr ⟨rfl, rfl⟩))⟩

end

end Fleet

end JobFleet
