/-
  JobFleet.Proofs.Settings.Readiness: settings that are valid start up.

  Four places read the zone and the expression of the retention job: the validation, the
  configuration of a scheduler, the construction of the job, and its registration.  All of them come
  down to the same two questions, whether there is a zone of that name and whether the expression
  can be read in it, so the first place answers for the other three.

  Main results:
    * `validate_eq_ok_iff` — what is asked of valid settings.
    * `CleanupJob.ofSettings_eq` — the retention job fails with the zone or with the expression, and
      never otherwise.
    * `Fleet.find?_register` — a job that can be registered is found afterwards.
    * `valid_settings_start_up` — valid settings start up, and a zone or expression that cannot be
      read is refused.
-/
import JobFleet.Proofs.Fleet.Enrolment
import JobFleet.Settings.Validation

namespace JobFleet

open JobFleet.Schedule JobFleet.Time JobFleet.Text

/-! ## The retention job -/

namespace CleanupJob

/-- The retention job for a number of days and an expression. -/
def declared (days : UInt32) (cron : String) : CleanupJob where
  definition := {
    id := jobId
    name := "Execution log cleanup"
    description := describe days
    schedule := .ofCron cron
    enabled := true
    maxRetries := 0
    retryDelaySeconds := 60
    lockTtlMillis := none }
  retentionDays := days

theorem describe_not_blank (days : UInt32) : allBlank (describe days) = false := by
  unfold allBlank describe
  rw [String.toList_append, String.toList_append, List.all_append, List.all_append]
  rfl

/-- The job can be built if the expression can be read in the zone. -/
theorem build_eq (days : UInt32) (cron : String) (zone : Zone) :
    build days cron zone = (CronTrigger.parse cron zone).map (fun _ => declared days cron) := by
  have hdeclared : Definition.declare jobId (describe days) (.ofCron cron) =
      .ok { (declared days cron).definition with name := jobId } := by
    unfold Definition.declare
    rw [if_neg (by decide), describe_not_blank, if_neg (by decide)]
    rfl
  unfold build
  rw [hdeclared]
  show ((CronTrigger.parse cron zone).map Trigger.cron).bind (fun _ =>
    Except.ok (declared days cron)) = _
  cases CronTrigger.parse cron zone <;> rfl

theorem ofSettings_eq (s : SchedulerSettings) (zones : ZoneDatabase) :
    ofSettings s zones = (s.zone zones).bind (fun zone =>
    (CronTrigger.parse s.retentionCron zone).map (fun _ =>
      declared s.retentionDays s.retentionCron)) := by
  unfold ofSettings
  cases hzone : s.zone zones with
  | error fault => rfl
  | ok zone => exact build_eq s.retentionDays s.retentionCron zone

end CleanupJob

/-! ## Validation -/

/-- A zone that settings name has that name. -/
theorem SchedulerSettings.zone_name {s : SchedulerSettings} {zones : ZoneDatabase} {zone : Zone}
    (h : s.zone zones = .ok zone) : zone.name = s.timezone := by
  unfold SchedulerSettings.zone zoneNamed at h
  cases hfound : zones.find? s.timezone with
  | none =>
    rw [hfound] at h
    cases h
  | some found =>
    rw [hfound] at h
    cases h
    exact zones.name_of_find? hfound

/-- Settings are valid if no plain check finds a fault, the zone is known, and the expression can be
    read in it. -/
theorem validate_eq_ok_iff {s : Settings} {zones : ZoneDatabase} : s.validate zones = .ok () ↔
    s.plainChecks.find? (·.1) = none ∧
    ∃ zone cron, s.scheduler.zone zones = .ok zone ∧
    CronTrigger.parse s.scheduler.retentionCron zone = .ok cron := by
  unfold Settings.validate
  cases s.plainChecks.find? (·.1) with
  | some found => simp
  | none =>
    cases hzone : s.scheduler.zone zones with
    | error fault => simp
    | ok zone => cases hcron : CronTrigger.parse s.scheduler.retentionCron zone <;> simp [hcron]

/-! ## Registration -/

theorem Entry.find?_insert_self (e : Entry) (entries : List Entry) :
    Entry.find? e.id (Entry.insert e entries) = some e := by
  unfold Entry.find?
  induction entries with
  | nil => simp [Entry.insert]
  | cons first rest ih =>
    unfold Entry.insert
    split
    · simp
    · split
      · simp
      · rename_i _ hne
        rw [List.find?_cons_of_neg (by simpa using Ne.symm hne)]
        exact ih

namespace Fleet

variable {σ : Type} {f : Fleet σ} {i : Nat} {job : Job}

/-- A job that can be registered is found in the registry afterwards, with its trigger. -/
theorem find?_register {s : Scheduler} {trigger : Trigger} (hsched : f.schedulers[i]? = some s)
    (htrigger : job.trigger? s.config.zone = some trigger) : (f.register i job).1 = .ok true ∧
      ∃ e, Entry.find? job.id ((f.register i job).2.entriesOf i) = some e ∧
      e.enrolment = ⟨job, trigger, false⟩ := by
  obtain ⟨hok, entry, hentry, hschedulers⟩ := register_of_some hsched htrigger
  refine ⟨hok, entry, ?_, hentry⟩
  have hself := getElem?_of_modify hschedulers
  rw [hsched] at hself
  have hid : job.id = entry.id := congrArg (fun en => en.job.id) hentry.symm
  rw [entriesOf_of_getElem? hself, hid]
  exact Entry.find?_insert_self entry s.entries

end Fleet

/-! ## Starting up -/

/-- **Valid settings start up.**  Let there be any zones.  If settings are valid then the
    configuration of the scheduler and the retention job can be made from them, the job is the only
    one that the program runs, and any scheduler with that configuration registers it, under its
    identity and with the trigger that the expression stands for in the configured zone.  If the
    zone is not known or the expression cannot be read in it, then the settings are not valid and
    the job cannot be made. -/
theorem valid_settings_start_up (zones : ZoneDatabase) (s : Settings) :
    (s.validate zones = .ok () → ∃ zone cron config cleanup, s.scheduler.zone zones = .ok zone ∧
      zone.name = s.scheduler.timezone ∧
      CronTrigger.parse s.scheduler.retentionCron zone = .ok cron ∧
      SchedulerConfig.ofSettings s.scheduler zones = .ok config ∧ config.zone = zone ∧
      CleanupJob.ofSettings s.scheduler zones = .ok cleanup ∧
      programJobs s.scheduler zones = [cleanup] ∧
      ∀ (σ : Type) (f : Fleet σ) (i : Nat) (sched : Scheduler), f.schedulers[i]? = some sched →
        sched.config = config →
        (f.register i (.ofCleanup cleanup)).1 = .ok true ∧
          ∃ e, Entry.find? CleanupJob.jobId ((f.register i (.ofCleanup cleanup)).2.entriesOf i) =
            some e ∧
            e.job = .ofCleanup cleanup ∧ e.trigger = .cron cron) ∧
    ((¬ ∃ zone cron, s.scheduler.zone zones = .ok zone ∧
      CronTrigger.parse s.scheduler.retentionCron zone = .ok cron) →
      (∃ fault, s.validate zones = .error fault) ∧
      ∃ fault, CleanupJob.ofSettings s.scheduler zones = .error fault) := by
  constructor
  · intro hvalid
    obtain ⟨-, zone, cron, hzone, hcron⟩ := validate_eq_ok_iff.1 hvalid
    let cleanup := CleanupJob.declared s.scheduler.retentionDays s.scheduler.retentionCron
    let config : SchedulerConfig :=
      ⟨s.scheduler.lockTtlMillis, s.scheduler.acquireTimeoutMillis?, zone⟩
    have hconfig : SchedulerConfig.ofSettings s.scheduler zones = .ok config := by
      unfold SchedulerConfig.ofSettings
      rw [hzone]
      rfl
    have hcleanup : CleanupJob.ofSettings s.scheduler zones = .ok cleanup := by
      rw [CleanupJob.ofSettings_eq, hzone]
      show (CronTrigger.parse s.scheduler.retentionCron zone).map _ = _
      rw [hcron]
      rfl
    have hprogram : programJobs s.scheduler zones = [cleanup] := by
      unfold programJobs
      rw [hcleanup]
    refine ⟨zone, cron, config, cleanup, hzone, SchedulerSettings.zone_name hzone, hcron, hconfig,
      rfl, hcleanup, hprogram, ?_⟩
    intro σ f i sched hsched hsame
    -- the job is enabled, and its trigger is that of the expression
    have htrigger : (Job.ofCleanup cleanup).trigger? sched.config.zone = some (.cron cron) := by
      rw [hsame]
      show ((CronTrigger.parse s.scheduler.retentionCron zone).map Trigger.cron).toOption = _
      rw [hcron]
      rfl
    obtain ⟨hok, e, hfound, hentry⟩ := Fleet.find?_register hsched htrigger
    exact ⟨hok, e, hfound, congrArg Enrolment.job hentry, congrArg Enrolment.trigger hentry⟩
  · intro hunreadable
    constructor
    · cases hvalidate : s.validate zones with
      | error fault => exact ⟨fault, rfl⟩
      | ok accepted => exact absurd (validate_eq_ok_iff.1 hvalidate).2 hunreadable
    · rw [CleanupJob.ofSettings_eq]
      cases hzone : s.scheduler.zone zones with
      | error fault => exact ⟨fault, rfl⟩
      | ok zone =>
        cases hcron : CronTrigger.parse s.scheduler.retentionCron zone with
        | error fault =>
          refine ⟨fault, ?_⟩
          show (CronTrigger.parse s.scheduler.retentionCron zone).map _ = _
          rw [hcron]
          rfl
        | ok cron => exact absurd ⟨zone, cron, hzone, hcron⟩ hunreadable

/-- Settings that delete old rows in the night before each working day in Vietnam. -/
def officeDays : Settings :=
  { scheduler := { timezone := "Asia/Ho_Chi_Minh", retentionCron := "0 1 * * 1-5" } }

/-- They are valid, and a scheduler with their configuration registers the retention job. -/
theorem valid_settings_start_up_officeDays : officeDays.validate .tabled = .ok () ∧
    ∃ config cleanup, SchedulerConfig.ofSettings officeDays.scheduler .tabled = .ok config ∧
      programJobs officeDays.scheduler .tabled = [cleanup] ∧
      (({ world := { start := ⟨0⟩, locks := ({} : FaultyStore) },
          schedulers := [{ config := config, lock := ⟨"job_lock", .scheduler 0, 200⟩ }] } :
          Fleet FaultyStore).register 0
        (.ofCleanup cleanup)).1 = .ok true := by
  have hvalid : officeDays.validate .tabled = .ok () := by
    rfl
  obtain ⟨_, _, config, cleanup, _, _, _, hconfig, _, _, hprogram, hregisters⟩ :=
    (valid_settings_start_up .tabled officeDays).1 hvalid
  exact ⟨hvalid, config, cleanup, hconfig, hprogram, (hregisters FaultyStore _ 0 _ rfl rfl).1⟩

end JobFleet
