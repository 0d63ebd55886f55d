/-
  JobFleet.Proofs.Settings.Requirements: which settings the program may run with, and which of them
  it checks.

  The requirements are told without the checks: texts that are not empty, numbers that are not zero,
  the name of a zone that the database has, and an expression of the grammar.  `Settings.validate`
  asks for all of them but one, so that settings which leave no time to connect to the database go
  through.  This is so whichever zones there are.

  Main results:
    * `Settings.validate_eq_ok_iff_checked` — what the validation asks for.
    * `Settings.holds_of_validate_eq_error` — what it reports is so.
    * `Settings.validate_permits` — how this compares with what is required.
-/
import JobFleet.Proofs.Schedule.Expression
import JobFleet.Proofs.Settings.Readiness

namespace JobFleet

open JobFleet.Schedule JobFleet.Time

/-! ## Requirements -/

/-- What is required of settings where there are these zones, but for the time that connecting to
    the database may take. -/
structure Settings.Checked (zones : ZoneDatabase) (s : Settings) : Prop where
  databaseUrl : s.database.url ≠ ""
  databaseConnections : 0 < s.database.maxConnections
  redisUrl : s.redis.url ≠ ""
  redisTimeout : 0 < s.redis.connectTimeoutSeconds
  lockKeyPrefix : s.scheduler.lockKeyPrefix ≠ ""
  lockTtl : 0 < s.scheduler.lockTtlSeconds
  retentionDays : 0 < s.scheduler.retentionDays
  timezone : ∃ zone, zones.find? s.scheduler.timezone = some zone
  retentionCron : ∃ fields parts, Reads s.scheduler.retentionCron fields parts

/-- Settings that the program may run with. -/
structure Settings.Permitted (zones : ZoneDatabase) (s : Settings) :
    Prop extends s.Checked zones where
  databaseTimeout : 0 < s.database.connectTimeoutSeconds

/-- The settings have the fault where there are these zones. -/
def SettingsFault.Holds (zones : ZoneDatabase) (s : Settings) : SettingsFault → Prop
  | .emptyDatabaseUrl => s.database.url = ""
  | .noDatabaseConnections => s.database.maxConnections = 0
  | .emptyRedisUrl => s.redis.url = ""
  | .noRedisConnectTimeout => s.redis.connectTimeoutSeconds = 0
  | .emptyLockKeyPrefix => s.scheduler.lockKeyPrefix = ""
  | .noLockTtl => s.scheduler.lockTtlSeconds = 0
  | .noRetentionDays => s.scheduler.retentionDays = 0
  | .timezone error =>
    error = .invalidTimezone s.scheduler.timezone ∧ zones.find? s.scheduler.timezone = none
  | .retentionCron error => Refused s.scheduler.retentionCron error

/-! ## Zones -/

/-- There is a zone to a name if the database has one. -/
theorem zoneNamed_eq_ok_iff {zones : ZoneDatabase} {name : String} {zone : Zone} :
    zoneNamed name zones = .ok zone ↔ zones.find? name = some zone := by
  unfold zoneNamed
  cases zones.find? name <;> simp

/-- Otherwise the name is refused. -/
theorem zoneNamed_eq_error_iff {zones : ZoneDatabase} {name : String} {error : ConfigError} :
    zoneNamed name zones = .error error ↔ error = .invalidTimezone name ∧
    zones.find? name = none := by
  unfold zoneNamed
  cases zones.find? name <;> simp [eq_comm]

/-! ## Checks -/

namespace Settings

variable {zones : ZoneDatabase} {s : Settings}

/-- No plain check finds a fault in texts that are not empty and numbers that are not zero. -/
theorem plainChecks_pass_iff : s.plainChecks.find? (·.1) = none ↔
    s.database.url ≠ "" ∧ 0 < s.database.maxConnections ∧ s.redis.url ≠ "" ∧
      0 < s.redis.connectTimeoutSeconds ∧
      s.scheduler.lockKeyPrefix ≠ "" ∧ 0 < s.scheduler.lockTtlSeconds ∧
      0 < s.scheduler.retentionDays := by
  simp only [plainChecks, List.find?_eq_none, List.forall_mem_cons, decide_eq_true_eq,
    UInt32.pos_iff_ne_zero, UInt64.pos_iff_ne_zero]
  simp

/-- A plain check that is not passed finds what it looks for. -/
theorem holds_of_mem_plainChecks {fault : SettingsFault} (h : (true, fault) ∈ s.plainChecks) :
    fault.Holds zones s := by
  simp only [plainChecks, List.mem_cons, Prod.mk.injEq, List.not_mem_nil, or_false,
    eq_comm (a := true),
    decide_eq_true_eq] at h
  rcases h with ⟨h, rfl⟩ | ⟨h, rfl⟩ | ⟨h, rfl⟩ | ⟨h, rfl⟩ | ⟨h, rfl⟩ | ⟨h,
    rfl⟩ | ⟨h, rfl⟩ <;> exact h

theorem validate_eq_ok_iff_checked : s.validate zones = .ok () ↔ s.Checked zones := by
  rw [validate_eq_ok_iff, plainChecks_pass_iff]
  constructor
  · rintro ⟨⟨hurl, hconnections, hredis, htimeout, hprefix, httl, hdays⟩, zone, cron, hzone, hcron⟩
    obtain ⟨fields, parts, hreads, -⟩ := parse_eq_ok_iff.1 hcron
    exact ⟨hurl, hconnections, hredis, htimeout, hprefix, httl, hdays,
      ⟨zone, zoneNamed_eq_ok_iff.1 hzone⟩, fields, parts, hreads⟩
  · intro h
    obtain ⟨zone, hfound⟩ := h.timezone
    obtain ⟨fields, parts, hreads⟩ := h.retentionCron
    exact ⟨⟨h.databaseUrl, h.databaseConnections, h.redisUrl, h.redisTimeout, h.lockKeyPrefix,
      h.lockTtl, h.retentionDays⟩, zone, _, zoneNamed_eq_ok_iff.2 hfound, parse_eq_ok_iff.2 ⟨fields,
      parts, hreads, rfl⟩⟩

/-- The fault that is reported is one of the settings. -/
theorem holds_of_validate_eq_error {fault : SettingsFault} (h : s.validate zones = .error fault) :
    fault.Holds zones s := by
  unfold validate at h
  -- the checks of one value each come first, then the zone, then the expression
  cases hplain : s.plainChecks.find? (·.1) with
  | some found =>
    obtain ⟨failed, fault'⟩ := found
    rw [hplain] at h
    cases h
    have hfailed : failed = true := List.find?_some hplain
    rw [hfailed] at hplain
    exact holds_of_mem_plainChecks (List.mem_of_find?_eq_some hplain)
  | none =>
    rw [hplain] at h
    cases hzone : s.scheduler.zone zones with
    | error error =>
      rw [hzone] at h
      cases h
      exact zoneNamed_eq_error_iff.1 hzone
    | ok zone =>
      simp only [hzone] at h
      cases hcron : CronTrigger.parse s.scheduler.retentionCron zone with
      | error error =>
        simp only [hcron] at h
        cases h
        exact parse_eq_error_iff.1 hcron
      | ok cron =>
        simp only [hcron] at h
        cases h

/-! ## Comparison -/

/-- **Validation permits what is required, but for the database timeout.**  Whichever zones there
    are, settings are accepted just when they fulfil all requirements but that of a positive time to
    connect to the database.  So with such a time exactly the permitted settings are accepted, and
    those that are accepted without being permitted are the ones that lack nothing else.  The fault
    that is reported of other settings is one that they have. -/
theorem validate_permits (zones : ZoneDatabase) (s : Settings) :
    (s.validate zones = .ok () ↔ s.Checked zones) ∧
    (0 < s.database.connectTimeoutSeconds → (s.validate zones = .ok () ↔ s.Permitted zones)) ∧
    (s.validate zones = .ok () ∧ ¬ s.Permitted zones ↔
      s.Checked zones ∧ s.database.connectTimeoutSeconds = 0) ∧
    ∀ fault, s.validate zones = .error fault → fault.Holds zones s := by
  refine ⟨validate_eq_ok_iff_checked, ?_, ?_, fun fault => holds_of_validate_eq_error⟩
  · intro htimeout
    rw [validate_eq_ok_iff_checked]
    exact ⟨fun h => ⟨h, htimeout⟩, fun h => h.toChecked⟩
  · rw [validate_eq_ok_iff_checked]
    constructor
    · rintro ⟨hchecked, hnot⟩
      refine ⟨hchecked, ?_⟩
      by_contra hne
      exact hnot ⟨hchecked, UInt64.pos_iff_ne_zero.2 hne⟩
    · rintro ⟨hchecked, hzero⟩
      refine ⟨hchecked, fun h => ?_⟩
      exact UInt64.pos_iff_ne_zero.1 h.databaseTimeout hzero

/-- The settings that are built in are permitted. -/
theorem default_permitted : 0 < ({} : Settings).database.connectTimeoutSeconds ∧
    ({} : Settings).Permitted .tabled := by
  have htimeout : 0 < ({} : Settings).database.connectTimeoutSeconds := by decide
  exact ⟨htimeout, ((validate_permits .tabled {}).2.1 htimeout).1 rfl⟩

/-- Settings that leave no time to connect to the database are accepted. -/
theorem validates_without_databaseTimeout :
    ({ database := { connectTimeoutSeconds := 0 } } : Settings).validate .tabled = .ok () ∧
      ¬ ({ database := { connectTimeoutSeconds := 0 } } : Settings).Permitted .tabled := by
  refine ⟨rfl, fun h => ?_⟩
  exact absurd h.databaseTimeout (by decide)

end Settings

end JobFleet
