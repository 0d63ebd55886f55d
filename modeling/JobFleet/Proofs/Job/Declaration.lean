/-
  JobFleet.Proofs.Job.Declaration: the two checks of a schedule agree.

  The rule about schedules is applied twice, with its cases in a different order: when a job is
  declared, and again when its trigger is made.  `Schedule.WellShaped` and `Schedule.Misshapen`
  state the rule once, apart from both.  What the second check refuses of a declared job is then the
  fault of a cron expression, and no time zone changes it.

  Main results:
    * `declare_eq_error_iff` — which error a refused declaration gets.
    * `validators_agree` — what is accepted, and that the maker of triggers says the same.
-/
import JobFleet.Proofs.Schedule.Expression
import JobFleet.Job.Definition

namespace JobFleet

open JobFleet.Text JobFleet.Schedule JobFleet.Time

/-! ## The rule -/

/-- The text has a character that is not white space. -/
def Visible (text : String) : Prop := ∃ c ∈ text.toList, isBlank c = false

/-- A schedule of exactly one kind, with an interval in bounds. -/
inductive Schedule.WellShaped : Schedule → Prop
  | cron (expression : String) : WellShaped (.ofCron expression)
  | interval {seconds : UInt64} (hpos : 1 ≤ seconds.toNat)
    (hle : seconds.toNat ≤ maxIntervalSeconds) :
      WellShaped (.every seconds)

/-- What is wrong with any other schedule.  With both kinds declared the interval is not looked
    at. -/
inductive Schedule.Misshapen (job : String) : Schedule → ConfigError → Prop
  | neither : Misshapen job ⟨none, none⟩ (.missingSchedule job)
  | both (expression : String) (seconds : UInt64) :
      Misshapen job ⟨some expression, some seconds⟩ (.ambiguousSchedule job)
  | bounds {seconds : UInt64} (h : seconds.toNat = 0 ∨ maxIntervalSeconds < seconds.toNat) :
      Misshapen job (.every seconds) (.invalidInterval job)

/-! ## The check of a declaration -/

section Declaring
variable {id description job : String} {schedule : Schedule} {e : ConfigError} {d : Definition}

/-- A text is visible if it is not blank. -/
theorem visible_iff (text : String) : Visible text ↔ ¬ allBlank text = true := by
  simp [allBlank, Visible]

/-- Nothing is wrong with a schedule just if it is well shaped. -/
theorem scheduleFault?_eq_none_iff : Definition.scheduleFault? job schedule = none ↔
    schedule.WellShaped := by
  constructor
  · intro h
    match schedule, h with
    | ⟨some expression, none⟩, _ => exact .cron expression
    | ⟨none, some seconds⟩, h =>
      have hbounds : ¬ (seconds.toNat = 0 ∨ maxIntervalSeconds < seconds.toNat) := by
        simpa [Definition.scheduleFault?] using h
      exact .interval (by omega) (by omega)
  · rintro (expression | ⟨hpos, hle⟩)
    · rfl
    · exact if_neg (by omega)

/-- A schedule that is not well shaped has the fault of its shape. -/
theorem scheduleFault?_eq_some_iff :
    Definition.scheduleFault? job schedule = some e ↔ schedule.Misshapen job e := by
  constructor
  · intro h
    match schedule, h with
    | ⟨none, none⟩, h => cases h; exact .neither
    | ⟨some expression, some seconds⟩, h => cases h; exact .both expression seconds
    | ⟨none, some seconds⟩, h =>
      obtain ⟨hbounds, rfl⟩ : (seconds.toNat = 0 ∨ maxIntervalSeconds < seconds.toNat) ∧
          .invalidInterval job = e := by
        simpa [Definition.scheduleFault?] using h
      exact .bounds hbounds
  · rintro (_ | ⟨expression, seconds⟩ | hbounds)
    · rfl
    · rfl
    · exact if_pos hbounds

/-- A declaration that is accepted is kept as it was made, and only a well-shaped one is. -/
theorem declare_eq_ok (h : Definition.declare id description schedule = .ok d) :
    (Visible id ∧ Visible description ∧ schedule.WellShaped) ∧ d.id = id ∧
    d.schedule = schedule := by
  unfold Definition.declare at h
  split at h
  · cases h
  · rename_i hid
    split at h
    · cases h
    · rename_i hdescription
      split at h
      · cases h
      · rename_i hfault
        cases h
        exact ⟨⟨(visible_iff id).2 hid, (visible_iff description).2 hdescription,
          scheduleFault?_eq_none_iff.1 hfault⟩, rfl, rfl⟩

/-- A job with an identity, a description and a well-shaped schedule can be declared. -/
theorem exists_declare (hid : Visible id) (hdescription : Visible description)
    (hschedule : schedule.WellShaped) :
    ∃ d, Definition.declare id description schedule = .ok d := by
  have hnone : Definition.scheduleFault? id schedule = none :=
    scheduleFault?_eq_none_iff.2 hschedule
  unfold Definition.declare
  rw [if_neg ((visible_iff id).1 hid), if_neg ((visible_iff description).1 hdescription), hnone]
  exact ⟨_, rfl⟩

/-- **The error of a refused declaration.** The identity is looked at first, then the description,
    then the schedule. -/
theorem declare_eq_error_iff : Definition.declare id description schedule = .error e ↔
    (¬ Visible id ∧ e = .missingAttribute "identity") ∨
    (Visible id ∧ ¬ Visible description ∧ e = .missingAttribute "description") ∨
    (Visible id ∧ Visible description ∧ schedule.Misshapen id e) := by
  simp only [visible_iff, not_not, ← scheduleFault?_eq_some_iff]
  unfold Definition.declare
  split
  · rename_i hid
    simp [hid, eq_comm (a := e)]
  · rename_i hid
    split
    · rename_i hdescription
      simp [hid, hdescription, eq_comm (a := e)]
    · rename_i hdescription
      cases Definition.scheduleFault? id schedule <;> simp [hid, hdescription]

end Declaring

/-! ## The maker of triggers -/

section Making
variable {job : String} {schedule : Schedule} {zone : Zone} {e : ConfigError}

/-- A misshapen schedule makes no trigger, and the error is the same. -/
theorem ofSchedule_of_misshapen (h : schedule.Misshapen job e) :
    Trigger.ofSchedule job schedule zone = .error e := by
  rcases h with _ | ⟨expression, seconds⟩ | hbounds
  · rfl
  · rfl
  · exact if_neg (by omega)

/-- An interval that is neither zero nor too long makes a trigger. -/
theorem ofSchedule_every {seconds : UInt64} (hpos : 1 ≤ seconds.toNat)
    (hle : seconds.toNat ≤ maxIntervalSeconds) :
    Trigger.ofSchedule job (.every seconds) zone = .ok (.interval ⟨seconds.toNat⟩) :=
  if_pos ⟨hpos, hle⟩

/-- A cron expression is refused for its grammar alone. -/
theorem ofSchedule_ofCron_eq_error_iff {expression : String} :
    Trigger.ofSchedule job (.ofCron expression) zone = .error e ↔ Refused expression e := by
  have hparse : CronTrigger.parse expression zone = .error e ↔ Refused expression e :=
    parse_eq_error_iff
  rw [← hparse]
  simp only [Trigger.ofSchedule, ofCron]
  cases CronTrigger.parse expression zone <;> simp [Except.map]

/-- What is wrong with a refused cron expression: the number of its fields, or one of them. -/
theorem Schedule.Refused.kind {expression : String} (h : Refused expression e) :
    (∃ found, e = .cronFieldCount expression found) ∨
    ∃ field value reason, e = .invalidCronField field value reason := by
  cases h with
  | count => exact .inl ⟨_, rfl⟩
  | field => exact .inr ⟨_, _, _, rfl⟩

end Making

/-! ## Both together -/

/-- **The two checks agree.**  A declaration is accepted just when identity and description are
    visible and the schedule has one kind, in bounds; when it is refused for its schedule, no
    trigger can be made of that schedule either, with the same error.  A declared interval always
    becomes a trigger, and a declared cron expression is refused, if at all, for its fields, in
    every zone alike. -/
theorem validators_agree (id description : String) (schedule : Schedule) :
    ((∃ d, Definition.declare id description schedule = .ok d) ↔
      Visible id ∧ Visible description ∧ schedule.WellShaped) ∧
    (∀ e, Definition.declare id description schedule = .error e →
      (¬ Visible id ∧ e = .missingAttribute "identity") ∨
      (Visible id ∧ ¬ Visible description ∧ e = .missingAttribute "description") ∨
      (Visible id ∧ Visible description ∧ schedule.Misshapen id e ∧
        ∀ zone, Trigger.ofSchedule id schedule zone = .error e)) ∧
    (∀ d, Definition.declare id description schedule = .ok d → ∀ zone,
      (∀ seconds, schedule.interval = some seconds →
        d.trigger zone = .ok (.interval ⟨seconds.toNat⟩)) ∧
      (∀ e, d.trigger zone = .error e → ∃ expression, schedule.cron = some expression ∧
        ((∃ found, e = .cronFieldCount expression found) ∨
          ∃ field value reason, e = .invalidCronField field value reason) ∧
        ∀ other, d.trigger other = .error e)) := by
  refine ⟨⟨?_, ?_⟩, ?_, ?_⟩
  · rintro ⟨d, hd⟩
    exact (declare_eq_ok hd).1
  · rintro ⟨hid, hdescription, hschedule⟩
    exact exists_declare hid hdescription hschedule
  · intro e he
    rcases declare_eq_error_iff.1 he with hblank | hblank | ⟨hid, hdescription, hfault⟩
    · exact .inl hblank
    · exact .inr (.inl hblank)
    · exact .inr (.inr ⟨hid, hdescription, hfault, fun zone => ofSchedule_of_misshapen hfault⟩)
  · intro d hd zone
    -- a job that was declared keeps its schedule, so only its shape matters
    obtain ⟨⟨-, -, hshape⟩, -, hkept⟩ := declare_eq_ok hd
    simp only [Definition.trigger, hkept]
    cases hshape with
    | cron expression =>
      refine ⟨fun seconds hseconds => (by cases hseconds), fun e he => ?_⟩
      -- the grammar of an expression does not look at the zone
      have hrefused := ofSchedule_ofCron_eq_error_iff.1 he
      exact ⟨expression, rfl, hrefused.kind, fun other => ofSchedule_ofCron_eq_error_iff.2 hrefused⟩
    | interval hpos hle =>
      have hmade : ∀ zone, Trigger.ofSchedule d.id (.every _) zone = .ok _ :=
        fun zone => ofSchedule_every hpos hle
      refine ⟨fun seconds hseconds => ?_, fun e he => ?_⟩
      · cases hseconds
        exact hmade zone
      · rw [hmade zone] at he
        cases he

/-- With two faults at once both checks report the same one: a schedule of both kinds is ambiguous,
    its interval of zero seconds goes unmentioned. -/
theorem validators_agree_both_faults :
    Definition.declare "p" "Job p" ⟨some "61 * * * *", some 0⟩ = .error (.ambiguousSchedule "p") ∧
    ∀ zone, Trigger.ofSchedule "p" ⟨some "61 * * * *", some 0⟩ zone =
      .error (.ambiguousSchedule "p") := by
  have hrefused : Definition.declare "p" "Job p" ⟨some "61 * * * *", some 0⟩ =
      .error (.ambiguousSchedule "p") := by decide
  obtain ⟨-, he⟩ | ⟨-, -, he⟩ | ⟨-, -, -, hmade⟩ := (validators_agree "p" "Job p" _).2.1 _ hrefused
  · cases he
  · cases he
  · exact ⟨hrefused, hmade⟩

end JobFleet
