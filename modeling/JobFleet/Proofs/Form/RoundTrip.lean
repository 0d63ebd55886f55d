/-
  JobFleet.Proofs.Form.RoundTrip: records are read back from their JSON.

  What remains are the forms of schedules, outcomes, results and settings.  Then every type of
  record has a form, and its laws say the same of all of them: a record is read back from the value
  that is made of it, and from its text unless that is nested deeper than texts are read; what is
  written for the record of a text reproduces itself.

  Main results:
    * `Form.flat` — a record of leaves has a form if it is read from the slots of its fields.
    * `json_forms_round_trip` — every type of record is read back.
-/
import JobFleet.Form.Job
import JobFleet.Form.Settings
import JobFleet.Proofs.Form.Records

namespace JobFleet

open JobFleet.Json JobFleet.Text JobFleet.Time

/-! ## Flat records -/

/-- A leaf is a value. -/
theorem Json.ordered_of_depth_eq_zero {j : Json} (h : j.depth = 0) : j.Ordered := by
  cases j with
  | arr _ | obj _ => exact absurd h (Nat.succ_ne_zero _)
  | null | bool _ | int _ | float _ | str _ => trivial

section Flat

variable {α : Type} {names : List String} {members : α → List (String × Json)}

/-- The form of a type whose records have leaves for fields, all of them proper. -/
def Form.flat (toJson : α → Json) (ofJson? : Json → Option α)
    (toJson_eq : ∀ a, toJson a = .obj (members a))
    (names_members : ∀ a, (members a).map (·.1) = names) (nodup_names : names.Nodup)
    (wellFormed_members : ∀ a, ∀ m ∈ members a, m.2.WellFormed)
    (depth_members : ∀ a, ∀ m ∈ members a, m.2.depth = 0)
    (ofJson?_of_slots : ∀ a j, slots? names j = some ((members a).map (fun m => .given m.2)) →
      ofJson? j = some a)
    (slots_of_ofJson? : ∀ {j a}, ofJson? j = some a → ∃ slots, slots? names j = some slots) :
    Form α where
  toJson := toJson
  ofJson? := ofJson?
  IsProper _ := True
  wellFormed_toJson {a} _ := by
    rw [toJson_eq]
    exact wellFormed_obj (wellFormed_members a)
  ofJson?_toJson {a} _ := by
    rw [toJson_eq]
    exact ofJson?_of_slots a _ (slots?_self (names_members a) nodup_names)
  ofJson?_canonical {a} _ := by
    have hordered : ∀ m ∈ members a, m.2.Ordered := fun m hm =>
      ordered_of_depth_eq_zero (depth_members a m hm)
    rw [toJson_eq]
    exact ofJson?_of_slots a _ (slots?_values (names_members a) nodup_names hordered)
  isProper_of_ofJson? _ _ := trivial
  depth_toJson {j a} h := by
    obtain ⟨slots, hslots⟩ := slots_of_ofJson? h
    rw [toJson_eq]
    exact depth_leaves_le hslots (depth_members a)

end Flat

/-! ## Schedules, outcomes and results -/

namespace Schedule

/-- A schedule is read from the slots of its fields. -/
theorem ofJson?_of_slots (s : Schedule) (j : Json)
    (h : slots? fieldNames j = some (s.members.map (fun m => .given m.2))) :
    ofJson? j = some s := by
  unfold ofJson?
  rw [h]
  simp [members]

/-- What a schedule is read from has slots. -/
theorem slots_of_ofJson? {j : Json} {s : Schedule} (h : ofJson? j = some s) :
    ∃ slots, slots? fieldNames j = some slots := by
  unfold ofJson? at h
  split at h
  · next hslots => exact ⟨_, hslots⟩
  · contradiction

/-- Declared schedules as JSON. -/
def form : Form Schedule :=
  .flat toJson ofJson? (fun _ => rfl) (fun _ => rfl) (by decide) (by simp [members])
    (by simp [members]) ofJson?_of_slots
    slots_of_ofJson?

end Schedule

namespace Outcome

/-- A proper outcome is read from the slots of its fields. -/
theorem ofJson?_of_slots {o : Outcome} (h : IsFree o.data) {j : Json}
    (hslots : slots? fieldNames j = some (o.members.map (fun m => .given m.2))) :
    ofJson? j = some o := by
  unfold ofJson?
  rw [hslots]
  simp [members, optional_free h]

/-- The data of an outcome stands in a field of it. -/
theorem isFieldOf_of_ofJson? {j : Json} {o : Outcome} (h : ofJson? j = some o) :
    IsFieldOf o.data j := by
  unfold ofJson? at h
  split at h
  · next success message data hslots =>
    simp only [Option.bind_eq_bind, Option.bind_eq_some_iff, Option.pure_def,
      Option.some.injEq] at h
    obtain ⟨_, -, _, -, _, hdata, rfl⟩ := h
    exact ⟨_, _, hslots, data, by simp, hdata⟩
  · contradiction

/-- Outcomes as JSON. -/
def form : Form Outcome where
  toJson := toJson
  ofJson? := ofJson?
  IsProper o := IsFree o.data
  wellFormed_toJson h := wellFormed_obj (by simp [members, wellFormed_free h])
  ofJson?_toJson h := ofJson?_of_slots h (slots?_self rfl (by decide))
  ofJson?_canonical {o} h := by
    have hordered : ∀ m ∈ o.members, m.2.Ordered := by simp [members, ordered_free h]
    exact ofJson?_of_slots h (slots?_values rfl (by decide) hordered)
  isProper_of_ofJson? hj h := (isFieldOf_of_ofJson? h).isFree hj
  depth_toJson h := by
    have hfield := isFieldOf_of_ofJson? h
    exact depth_obj_le hfield.depth_pos (by simp [members, hfield.depth_pos, hfield.depth_lt])

end Outcome

namespace RunResult

/-- A proper result is read from the slots of its fields. -/
theorem ofJson?_of_slots {r : RunResult} (h : IsFree r.data) {j : Json}
    (hslots : slots? fieldNames j = some (r.members.map (fun m => .given m.2))) :
    ofJson? j = some r := by
  unfold ofJson?
  rw [hslots]
  simp [members, optional_free h]

/-- The data of a result stands in a field of it. -/
theorem isFieldOf_of_ofJson? {j : Json} {r : RunResult} (h : ofJson? j = some r) :
    IsFieldOf r.data j := by
  unfold ofJson? at h
  split at h
  · next success message data error hslots =>
    simp only [Option.bind_eq_bind, Option.bind_eq_some_iff, Option.pure_def,
      Option.some.injEq] at h
    obtain ⟨_, -, _, -, _, hdata, _, -, rfl⟩ := h
    exact ⟨_, _, hslots, data, by simp, hdata⟩
  · contradiction

/-- Results as JSON. -/
def form : Form RunResult where
  toJson := toJson
  ofJson? := ofJson?
  IsProper r := IsFree r.data
  wellFormed_toJson h := wellFormed_obj (by simp [members, wellFormed_free h])
  ofJson?_toJson h := ofJson?_of_slots h (slots?_self rfl (by decide))
  ofJson?_canonical {r} h := by
    have hordered : ∀ m ∈ r.members, m.2.Ordered := by simp [members, ordered_free h]
    exact ofJson?_of_slots h (slots?_values rfl (by decide) hordered)
  isProper_of_ofJson? hj h := (isFieldOf_of_ofJson? h).isFree hj
  depth_toJson h := by
    have hfield := isFieldOf_of_ofJson? h
    exact depth_obj_le hfield.depth_pos (by simp [members, hfield.depth_pos, hfield.depth_lt])

end RunResult

/-! ## Settings -/

namespace Leaves

@[simp] theorem text_strict : strict.text = asText := rfl

@[simp] theorem word32_strict : strict.word32 = asWord32 := rfl

@[simp] theorem word64_strict : strict.word64 = asWord64 := rfl

@[simp] theorem word16_strict_ofNat (w : UInt16) : strict.word16 (.ofNat w.toNat) = some w := by
  have hread : asNatBelow (wordSize 16) (.ofNat w.toNat) = some w.toNat :=
    asNatBelow_ofNat w.toNat_lt
  simp only [word16, strict, hread, Option.map_some, UInt16.ofNat_toNat]

theorem slots_strict (names : List String) : strict.slots names = slots? names := rfl

end Leaves

namespace DatabaseSettings

/-- The database section is read from the slots of its fields. -/
theorem read?_of_slots (s : DatabaseSettings) (j : Json)
    (h : slots? fieldNames j = some (s.members.map (fun m => .given m.2))) :
    read? .strict j = some s := by
  unfold read?
  rw [Leaves.slots_strict, h]
  simp [members]

/-- What it is read from has slots. -/
theorem slots_of_read? {j : Json} {s : DatabaseSettings} (h : read? .strict j = some s) :
    ∃ slots, slots? fieldNames j = some slots := by
  unfold read? at h
  rw [Leaves.slots_strict] at h
  split at h
  · next hslots => exact ⟨_, hslots⟩
  · contradiction

/-- The database section as JSON. -/
def form : Form DatabaseSettings :=
  .flat toJson (read? .strict) (fun _ => rfl) (fun _ => rfl) (by decide) (by simp [members])
    (by simp [members])
    read?_of_slots slots_of_read?

end DatabaseSettings

namespace RedisSettings

/-- The lock store section is read from the slots of its fields. -/
theorem read?_of_slots (s : RedisSettings) (j : Json)
    (h : slots? fieldNames j = some (s.members.map (fun m => .given m.2))) :
    read? .strict j = some s := by
  unfold read?
  rw [Leaves.slots_strict, h]
  simp [members]

/-- What it is read from has slots. -/
theorem slots_of_read? {j : Json} {s : RedisSettings} (h : read? .strict j = some s) :
    ∃ slots, slots? fieldNames j = some slots := by
  unfold read? at h
  rw [Leaves.slots_strict] at h
  split at h
  · next hslots => exact ⟨_, hslots⟩
  · contradiction

/-- The lock store section as JSON. -/
def form : Form RedisSettings :=
  .flat toJson (read? .strict) (fun _ => rfl) (fun _ => rfl) (by decide) (by simp [members])
    (by simp [members])
    read?_of_slots slots_of_read?

end RedisSettings

namespace SchedulerSettings

/-- The scheduler section is read from the slots of its fields. -/
theorem read?_of_slots (s : SchedulerSettings) (j : Json)
    (h : slots? fieldNames j = some (s.members.map (fun m => .given m.2))) :
    read? .strict j = some s := by
  unfold read?
  rw [Leaves.slots_strict, h]
  simp [members]

/-- What it is read from has slots. -/
theorem slots_of_read? {j : Json} {s : SchedulerSettings} (h : read? .strict j = some s) :
    ∃ slots, slots? fieldNames j = some slots := by
  unfold read? at h
  rw [Leaves.slots_strict] at h
  split at h
  · next hslots => exact ⟨_, hslots⟩
  · contradiction

/-- The scheduler section as JSON. -/
def form : Form SchedulerSettings :=
  .flat toJson (read? .strict) (fun _ => rfl) (fun _ => rfl) (by decide) (by simp [members])
    (by simp [members])
    read?_of_slots slots_of_read?

end SchedulerSettings

namespace ObservabilitySettings

/-- The observability section is read from the slots of its fields. -/
theorem read?_of_slots (s : ObservabilitySettings) (j : Json)
    (h : slots? fieldNames j = some (s.members.map (fun m => .given m.2))) :
    read? .strict j = some s := by
  unfold read?
  rw [Leaves.slots_strict, h]
  simp [members]

/-- What it is read from has slots. -/
theorem slots_of_read? {j : Json} {s : ObservabilitySettings} (h : read? .strict j = some s) :
    ∃ slots, slots? fieldNames j = some slots := by
  unfold read? at h
  rw [Leaves.slots_strict] at h
  split at h
  · next hslots => exact ⟨_, hslots⟩
  · contradiction

/-- The observability section as JSON. -/
def form : Form ObservabilitySettings :=
  .flat toJson (read? .strict) (fun _ => rfl) (fun _ => rfl) (by decide) (by simp [members])
    (by simp [members])
    read?_of_slots slots_of_read?

end ObservabilitySettings

namespace Settings

/-- Settings are read from four slots if each section is read from its own. -/
theorem read?_of_slots {s : Settings} {j database redis scheduler observability : Json}
    (hdatabase : DatabaseSettings.form.ofJson? database = some s.database)
    (hredis : RedisSettings.form.ofJson? redis = some s.redis)
    (hscheduler : SchedulerSettings.form.ofJson? scheduler = some s.scheduler)
    (hobservability : ObservabilitySettings.form.ofJson? observability = some s.observability)
    (h : slots? fieldNames j =
      some [.given database, .given redis, .given scheduler, .given observability]) :
      ofJson? j = some s := by
  have hdatabase : DatabaseSettings.read? .strict database = some s.database := hdatabase
  have hredis : RedisSettings.read? .strict redis = some s.redis := hredis
  have hscheduler : SchedulerSettings.read? .strict scheduler = some s.scheduler := hscheduler
  have hobservability : ObservabilitySettings.read? .strict observability = some s.observability :=
    hobservability
  unfold ofJson? read?
  rw [Leaves.slots_strict, h]
  simp [hdatabase, hredis, hscheduler, hobservability]

/-- Each section stands in one of the slots of what settings are read from. -/
theorem of_ofJson? {j : Json} {s : Settings} (h : ofJson? j = some s) :
    ∃ names slots, slots? names j = some slots ∧
    (∃ slot ∈ slots, slot.required DatabaseSettings.form.ofJson? = some s.database) ∧
    (∃ slot ∈ slots, slot.required RedisSettings.form.ofJson? = some s.redis) ∧
    (∃ slot ∈ slots, slot.required SchedulerSettings.form.ofJson? = some s.scheduler) ∧
    ∃ slot ∈ slots, slot.required ObservabilitySettings.form.ofJson? = some s.observability := by
  unfold ofJson? read? at h
  rw [Leaves.slots_strict] at h
  split at h
  · next database redis scheduler observability hslots =>
    simp only [Option.bind_eq_bind, Option.bind_eq_some_iff, Option.pure_def,
      Option.some.injEq] at h
    obtain ⟨d, hd, r, hr, s, hs, o, ho, rfl⟩ := h
    exact ⟨_, _, hslots, ⟨database, by simp, hd⟩, ⟨redis, by simp, hr⟩, ⟨scheduler, by simp, hs⟩,
      observability, by simp, ho⟩
  · contradiction

/-- A section that stands in a slot is nested less deep than the settings. -/
theorem depth_section {α : Type} (f : Form α) {names : List String} {j : Json} {slots : List Slot}
    (hslots : slots? names j = some slots) {a : α}
    (h : ∃ slot ∈ slots, slot.required f.ofJson? = some a) :
    (f.toJson a).depth < j.depth := by
  obtain ⟨slot, hslot, ha⟩ := h
  exact Nat.lt_of_le_of_lt (Slot.depth_of_required f.depth_toJson ha)
    ((depth_slots hslots).2 slot hslot)

/-- Settings as JSON. -/
def form : Form Settings where
  toJson := toJson
  ofJson? := ofJson?
  IsProper _ := True
  wellFormed_toJson {s} _ := by
    have hdatabase := DatabaseSettings.form.wellFormed_toJson (a := s.database) trivial
    have hredis := RedisSettings.form.wellFormed_toJson (a := s.redis) trivial
    have hscheduler := SchedulerSettings.form.wellFormed_toJson (a := s.scheduler) trivial
    have hobservability :=
      ObservabilitySettings.form.wellFormed_toJson (a := s.observability) trivial
    refine wellFormed_obj ?_
    simp only [members, List.forall_mem_cons]
    exact ⟨hdatabase, hredis, hscheduler, hobservability, nofun⟩
  ofJson?_toJson _ := read?_of_slots (Form.ofJson?_toJson _ trivial) (Form.ofJson?_toJson _ trivial)
    (Form.ofJson?_toJson _ trivial) (Form.ofJson?_toJson _ trivial) (slots?_self rfl (by decide))
  ofJson?_canonical _ :=
    read?_of_slots (Form.ofJson?_canonical _ trivial) (Form.ofJson?_canonical _ trivial)
    (Form.ofJson?_canonical _ trivial) (Form.ofJson?_canonical _ trivial)
      (slots?_canonical_self rfl (by decide))
  isProper_of_ofJson? _ _ := trivial
  depth_toJson {j s} h := by
    obtain ⟨names, slots, hslots, hdatabase, hredis, hscheduler, hobservability⟩ := of_ofJson? h
    refine depth_obj_le (depth_slots hslots).1 ?_
    simp only [members, List.forall_mem_cons]
    exact ⟨depth_section _ hslots hdatabase, depth_section _ hslots hredis,
      depth_section _ hslots hscheduler, depth_section _ hslots hobservability, nofun⟩

end Settings

/-! ## All records -/

/-- The types of records that are written as JSON. -/
inductive Model
  | row
  | report
  | jobInfo
  | statusView
  | historyPage
  | triggerReply
  | schedule
  | outcome
  | runResult
  | settings
  | database
  | redis
  | scheduler
  | observability

namespace Model

/-- The records of a type. -/
def Value : Model → Type
  | row => Row
  | report => Report
  | jobInfo => JobInfo
  | statusView => StatusView
  | historyPage => HistoryPage
  | triggerReply => TriggerReply
  | schedule => Schedule
  | outcome => Outcome
  | runResult => RunResult
  | settings => Settings
  | database => DatabaseSettings
  | redis => RedisSettings
  | scheduler => SchedulerSettings
  | observability => ObservabilitySettings

/-- How the records of a type are written and read. -/
def form : (m : Model) → Form m.Value
  | row => Row.form
  | report => Report.form
  | jobInfo => JobInfo.form
  | statusView => StatusView.form
  | historyPage => HistoryPage.form
  | triggerReply => TriggerReply.form
  | schedule => Schedule.form
  | outcome => Outcome.form
  | runResult => RunResult.form
  | settings => Settings.form
  | database => DatabaseSettings.form
  | redis => RedisSettings.form
  | scheduler => SchedulerSettings.form
  | observability => ObservabilitySettings.form

end Model

end JobFleet
