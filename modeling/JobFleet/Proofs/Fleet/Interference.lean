/-
  JobFleet.Proofs.Fleet.Interference: scheduled and manual runs of one job do not interfere.

  This compares two executions of one row of occurrences.  In the second one all runs of a kind of a
  job are struck: each is taken away when it is asked for, or when its trigger fires, before it has
  its first turn.  Everything else stays in its place, and keeps its number.  The runs of the other
  kind lock another key, so the two fleets agree on that key all the time: what the struck runs do
  to the store, to the other tasks and to shutdowns concerns other keys only.

  Main results:
    * `key_ne_of_kinds` — the two kinds of runs of a job never lock one key, under whatever key
      prefixes.
    * `agree_throughWithout` — both executions agree on every key that the struck runs do not lock.
    * `kinds_do_not_interfere` — a run of the other kind is there at the same time, and every piece
      of it goes the same way.
-/
import JobFleet.Proofs.Fleet.Agreement

namespace JobFleet

/-! ## Keys -/

/-- A manual run and a scheduled run of one job lock different keys. -/
theorem Lock.key_manual_ne (l l' : Lock) (id : String) :
    l.key (RunKind.lockId .scheduled id) ≠ l'.key (RunKind.lockId .manual id) := by
  intro heq
  have hchars : l.keyPrefix.toList ++ ':' :: id.toList =
      l'.keyPrefix.toList ++ ':' :: (id.toList ++ manualSuffix.toList) := by
    simpa [key, RunKind.lockId] using congrArg String.toList heq
  have hlong : id.toList ++ manualSuffix.toList <:+ l.keyPrefix.toList ++ ':' :: id.toList := by
    rw [hchars]
    exact (List.suffix_cons ':' _).trans (List.suffix_append _ _)
  -- the end of the scheduled key from its last separator on would end the name of the manual lock
  have hends : ':' :: id.toList <:+ id.toList ++ manualSuffix.toList := by
    refine List.suffix_of_suffix_length_le (List.suffix_append _ _) hlong ?_
    simp [manualSuffix]
  have hcount := hends.sublist.count_le ':'
  have hnone : manualSuffix.toList.count ':' = 0 := by decide
  rw [List.count_cons_self, List.count_append, hnone] at hcount
  omega

/-- The runs of the two kinds of a job lock different keys. -/
theorem Lock.key_ne_of_kinds (l l' : Lock) (id : String) {kind kind' : RunKind}
    (hne : kind ≠ kind') :
    l.key (kind.lockId id) ≠ l'.key (kind'.lockId id) := by
  cases kind with
  | scheduled =>
    cases kind' with
    | scheduled => exact absurd rfl hne
    | manual => exact key_manual_ne l l' id
  | manual =>
    cases kind' with
    | scheduled => exact (key_manual_ne l' l id).symm
    | manual => exact absurd rfl hne

/-- A run of a kind of the job with an identity. -/
structure Run.IsOf (id : String) (kind : RunKind) (r : Run) : Prop where
  id_eq : r.job.id = id
  kind_eq : r.kind = kind

instance (id : String) (kind : RunKind) (r : Run) : Decidable (r.IsOf id kind) :=
  decidable_of_iff (r.job.id = id ∧ r.kind = kind) ⟨fun h => ⟨h.1, h.2⟩,
    fun h => ⟨h.id_eq, h.kind_eq⟩⟩

theorem Run.IsOf.key_ne {id : String} {kind kind' : RunKind} {r r' : Run} (h : r.IsOf id kind)
    (h' : r'.IsOf id kind') (hne : kind ≠ kind') : r.key ≠ r'.key := by
  have hkey := Lock.key_ne_of_kinds r.guard.lock r'.guard.lock id hne
  rw [← h.kind_eq, ← h'.kind_eq] at hkey
  unfold Run.key Run.lockId
  rw [h.id_eq, h'.id_eq]
  exact hkey

namespace Fleet

variable {f : Fleet FaultyStore} {id key : String} {kind : RunKind} {row : List Occurrence}
    {n i : Nat} {a : Activity}

/-! ## Striking runs -/

/-- Takes the runs of a kind of a job away. -/
def strike (id : String) (kind : RunKind) (f : Fleet FaultyStore) : Fleet FaultyStore :=
  { f with tasks := f.tasks.filter (fun t => !(t.run?).any (fun r => r.IsOf id kind)) }

/-- The fleet after a row of occurrences from which the runs of a kind of a job are struck. -/
def throughWithout (id : String) (kind : RunKind) (f : Fleet FaultyStore) (row : List Occurrence) :
    Fleet FaultyStore :=
  row.foldl (fun f o => (f.occur o).strike id kind) f

theorem throughWithout_concat (row : List Occurrence) (o : Occurrence) :
    f.throughWithout id kind (row ++ [o]) =
      ((f.throughWithout id kind row).occur o).strike id kind := by
  simp [throughWithout]

theorem does_strike : (f.strike id kind).Does n a ↔ f.Does n a ∧ ∀ i r c, a = .run i r c →
    ¬ r.IsOf id kind := by
  constructor
  · intro hdoes
    obtain ⟨t, ht, rfl, rfl⟩ := hdoes
    obtain ⟨hold, hstays⟩ := List.mem_filter.1 ht
    refine ⟨does_of_mem hold, ?_⟩
    intro i r c hactivity hof
    simp [Task.run?_of_activity hactivity, hof] at hstays
  · intro hdoes
    obtain ⟨⟨t, ht, rfl, rfl⟩, hnot⟩ := hdoes
    refine does_of_mem (List.mem_filter.2 ⟨ht, ?_⟩)
    cases hrun : t.run? with
    | none => rfl
    | some r =>
      obtain ⟨i, c, hactivity⟩ := Task.activity_of_run? hrun
      simpa using hnot i r c hactivity

theorem sound_strike (hs : f.Sound) (id : String) (kind : RunKind) : (f.strike id kind).Sound := by
  refine hs.of_tasks (hs.nodup.sublist (List.filter_sublist.map _)) ?_
  intro t ht
  exact ⟨t, (List.mem_filter.1 ht).1, rfl, .inl rfl⟩

/-- Striking runs does not concern the keys that they do not lock. -/
theorem agree_strike (hother : ∀ r : Run, r.IsOf id kind → r.key ≠ key) :
    f.Agree key (f.strike id kind) := by
  refine ⟨World.Agree.refl key _, rfl, rfl, ?_⟩
  intro n a ha
  rw [does_strike, and_iff_left_iff_imp]
  intro hdoes i r c hactivity hof
  subst hactivity
  exact hother r hof ha

/-! ## Both executions -/

theorem sound_throughWithout (hs : f.Sound) (id : String) (kind : RunKind) (row : List Occurrence) :
    (f.throughWithout id kind row).Sound := by
  induction row using List.reverseRecOn with
  | nil => exact hs
  | append_singleton row o ih =>
    rw [throughWithout_concat]
    exact sound_strike ((occur_happens ih o).sound ih) id kind

/-- What is struck is never there. -/
theorem not_does_throughWithout (hfresh : f.Fresh) {r : Run} {c : Caller} (hof : r.IsOf id kind) :
    ¬ (f.throughWithout id kind row).Does n (.run i r c) := by
  induction row using List.reverseRecOn with
  | nil =>
    intro hdoes
    obtain ⟨t, ht, -⟩ := hdoes
    have hmem : t ∈ f.tasks := ht
    rw [hfresh.tasks] at hmem
    cases hmem
  | append_singleton row o ih =>
    rw [throughWithout_concat, does_strike]
    exact fun hdoes => hdoes.2 i r c rfl hof

/-- **Both executions agree** on every key that the struck runs do not lock. -/
theorem agree_throughWithout (hs : f.Sound) (hother : ∀ r : Run, r.IsOf id kind → r.key ≠ key)
    (hjobs : ∀ point, point <+: row →
      (f.through point).Unaffected (f.throughWithout id kind point)) :
    ∀ point, point <+: row → (f.through point).Agree key (f.throughWithout id kind point) := by
  refine prefix_induction (Agree.refl key f) ?_
  intro before o hpre hagree
  have hbefore : before <+: row := (List.prefix_append before [o]).trans hpre
  rw [through_concat, throughWithout_concat]
  have hoccur := Agree.occur (sound_through hs before)
    (sound_throughWithout hs id kind before) hagree (hjobs before hbefore) o
  exact hoccur.trans (agree_strike hother)

/-- **Scheduled and manual runs.**  Whatever occurs in a fleet, and whatever store operations fail:
    when all runs of one kind of a job are struck, the runs of the other kind stay as they are,
    provided that what jobs say and do does not depend on other runs.  At every point of the row it
    is the same time in both executions, the same runs of the other kind are there and equally far,
    and the next piece of each goes the same way: it takes its lock, tries again at the same moment
    or is skipped in both, and if it ends it ends in the same way. -/
theorem kinds_do_not_interfere {f : Fleet FaultyStore} {row : List Occurrence} {id : String}
    {kind : RunKind} (hfresh : f.Fresh)
    (hjobs : ∀ point, point <+: row →
      (f.through point).Unaffected (f.throughWithout id kind point)) :
    ∀ point, point <+: row →
      (f.throughWithout id kind point).world.elapsed = (f.through point).world.elapsed ∧
      ∀ n i r c,
        (r.IsOf id kind → ¬ (f.throughWithout id kind point).Does n (.run i r c)) ∧
        (∀ other, other ≠ kind → r.IsOf id other →
          ((f.throughWithout id kind point).Does n (.run i r c) ↔
            (f.through point).Does n (.run i r c)) ∧
          ((f.through point).Does n (.run i r c) →
            (r.advance (f.throughWithout id kind point).world).1 =
              (r.advance (f.through point).world).1)) := by
  intro point hpoint
  have hs := hfresh.sound
  refine ⟨?_, ?_⟩
  · -- no run at all locks the empty key
    have hkeyed : ∀ r : Run, r.IsOf id kind → r.key ≠ "" := by
      intro r _
      simp [Run.key, Lock.key]
    exact (agree_throughWithout hs hkeyed hjobs point hpoint).world.elapsed
  · intro n i r c
    refine ⟨not_does_throughWithout hfresh, ?_⟩
    intro other hne hof
    have hagree := agree_throughWithout hs (fun r' hof' =>
      hof'.key_ne hof hne.symm) hjobs point hpoint
    have hsame := hagree.does n (.run i r c) rfl
    refine ⟨hsame, ?_⟩
    intro hdoes
    obtain ⟨hread, hbody⟩ := (hjobs point hpoint).runs n i r c hdoes (hsame.2 hdoes)
    exact (hagree.world.advance hread hbody).1

end Fleet

/-! ## Jobs that depend on nothing -/

/-- A job whose declaration can always be read, and whose body follows a script of one line. -/
def Job.isSteady (job : Job) : Bool :=
  !job.unreadableWhileLocked && match job.body with
    | .scripted _ runs => runs.length = 1
    | .cleanup _ => false

/-- The job that a task is about. -/
def Activity.job? : Activity → Option Job
  | .drive d => some d.job
  | .run _ r _ => some r.job
  | .acquire _ => none
  | .drain _ => none

theorem scriptedRun_singleton (run : ScriptedRun) (number : Nat) :
    scriptedRun [run] number = run := by
  cases number <;> rfl

/-- What a steady job does depends on the clock only. -/
theorem Job.begin_of_steady {job : Job} (h : job.isSteady = true) {w w' : World FaultyStore}
    (helapsed : w'.elapsed = w.elapsed) :
    (Execution.begin job w').1 = (Execution.begin job w).1 := by
  obtain ⟨-, hbody⟩ := Bool.and_eq_true_iff.1 h
  unfold Execution.begin
  cases hkind : job.body with
  | cleanup days =>
    rw [hkind] at hbody
    cases hbody
  | scripted script runs =>
    rw [hkind] at hbody
    obtain ⟨run, rfl⟩ := List.length_eq_one_iff.1 (of_decide_eq_true hbody)
    simp only [Body.start, scriptedRun_singleton, World.setTally, World.emit, helapsed]

theorem Job.unreadable_of_steady {job : Job} (h : job.isSteady = true) (w : World FaultyStore) :
    Run.unreadable job w = false := by
  obtain ⟨hreads, -⟩ := Bool.and_eq_true_iff.1 h
  simp only [Bool.not_eq_true'] at hreads
  unfold Run.unreadable
  rw [hreads]
  rfl

namespace Fleet

/-- Steady jobs do not depend on what else there is. -/
theorem unaffected_of_steady {f g : Fleet FaultyStore}
    (helapsed : g.world.elapsed = f.world.elapsed)
    (hsteady : ∀ t ∈ f.tasks, (t.activity.job?).all Job.isSteady = true) : f.Unaffected g := by
  have hjob : ∀ n a job, f.Does n a → a.job? = some job → job.isSteady = true := by
    intro n a job hdoes hsome
    obtain ⟨t, ht, -, rfl⟩ := hdoes
    have hall := hsteady t ht
    rw [hsome] at hall
    exact hall
  refine ⟨?_, ?_⟩
  · intro n d hdoes _
    have hsteady := hjob n _ d.job hdoes rfl
    rw [Job.unreadable_of_steady hsteady, Job.unreadable_of_steady hsteady]
  · intro n i r c hdoes _
    have hsteady := hjob n _ r.job hdoes rfl
    refine ⟨?_, fun _ _ => Job.begin_of_steady hsteady helapsed⟩
    rw [Job.unreadable_of_steady hsteady, Job.unreadable_of_steady hsteady]

/-- While a manual run sleeps in one instance, the schedule of the other one fires, and its tick
    begins and ends. -/
def sideBySide : List Occurrence :=
  [.move (.start 1), .move (.turn 0), .move (.pass 700),
    .move (.request 0 "sleeper" .manual .service false), .move (.turn 1), .move (.turn 1),
    .move (.pass 1000), .move (.turn 0), .move (.turn 2), .move (.turn 2),
    .move (.pass 1200), .move (.turn 1), .move (.turn 1), .move (.pass 1500), .move (.turn 2)]

/-- The tick when its body has ended. -/
def endedTick : Run :=
  ⟨⟨⟨"job_lock", .scheduler 1, 100⟩, 600000, none, .ledger⟩, .sleeper 2000 [500], .scheduled,
    .releasing 1000 (some (.ofEnding (.returned ⟨true, "ok", none⟩)))⟩

/-- The tick ends as it would without the manual run. -/
theorem kinds_do_not_interfere_sideBySide :
    ((instances 2 (.sleeper 2000 [500])).throughWithout "sleeper" .manual sideBySide).Does 2
        (.run 1 endedTick .timer) ∧
      (endedTick.advance
        ((instances 2 (.sleeper 2000 [500])).throughWithout "sleeper" .manual sideBySide).world).1 =
        .ended (.completed (.ofEnding (.returned ⟨true, "ok", none⟩))) := by
  have hsteady : ∀ point ∈ sideBySide.inits,
      ((instances 2 (.sleeper 2000 [500])).throughWithout "sleeper" .manual point).world.elapsed =
        ((instances 2 (.sleeper 2000 [500])).through point).world.elapsed ∧
      ∀ t ∈ ((instances 2 (.sleeper 2000 [500])).through point).tasks,
        (t.activity.job?).all Job.isSteady = true := by
    decide +kernel
  have hjobs : ∀ point, point <+: sideBySide →
    ((instances 2 (.sleeper 2000 [500])).through point).Unaffected
      ((instances 2 (.sleeper 2000 [500])).throughWithout "sleeper" .manual point) := by
    intro point hpoint
    obtain ⟨helapsed, htasks⟩ := hsteady point ((List.mem_inits point _).2 hpoint)
    exact unaffected_of_steady helapsed htasks
  have hfound : ((instances 2 (.sleeper 2000 [500])).through sideBySide).task? 2 =
      some ⟨2, .run 1 endedTick .timer, .ready, false⟩ := by
    rfl
  have hdoes := does_of_mem (task?_eq_some hfound).1
  obtain ⟨-, hothers⟩ :=
    (kinds_do_not_interfere (fresh_instances 2 _) hjobs sideBySide List.prefix_rfl).2 2
    1 endedTick .timer
  obtain ⟨hsame, hgot⟩ := hothers .scheduled (by decide) ⟨rfl, rfl⟩
  exact ⟨hsame.2 hdoes, hgot hdoes⟩

end Fleet

end JobFleet
