/-
  JobFleet.Proofs.Settings.Layering: layers override setting by setting.

  A tree of settings is looked at through its sixteen leaves.  Laying a file or the environment over
  a tree changes the leaves that the layer defines and no other, and what a leaf converts to then is
  what the value in the layer converts to.  So the result of loading depends on one value for each
  setting, that of the highest layer defining it.  The exception is an empty table in the place of a
  setting: tables merge key by key, so it leaves what lies below it.

  Main results:
    * `get?_mergeAll` — what a tree has at a key after a table was laid over it.
    * `read?_converted_iff` — settings are read from a tree leaf by leaf.
    * `held_withLayer`, `held_withVariables` — what a leaf stands for once a file or the environment
      lies over the tree.
    * `layers_override_leaf_by_leaf` — which settings are loaded, and when none are.
-/
import JobFleet.Settings.Layers
import Mathlib

namespace JobFleet.Settings

open JobFleet.Json JobFleet.Text

/-! ## Fields -/

/-- A single setting. -/
inductive Field
  | databaseUrl | maxConnections | minConnections | databaseTimeout
  | redisUrl | redisTimeout
  | lockKeyPrefix | lockTtl | lockAcquireTimeout | lockRetryDelay
  | timezone | retentionDays | retentionCron
  | logLevel | metricsPort | tracingEndpoint
deriving DecidableEq, Repr

/-- The type of a setting. -/
inductive Kind
  | text
  /-- A whole number below `2 ^ bits`. -/
  | number (bits : Nat)
  /-- A text that may be missing. -/
  | optionalText
deriving DecidableEq, Repr

/-- The value of a setting. -/
inductive Setting
  | text (value : String)
  | number (value : Nat)
  | optionalText (value : Option String)
deriving DecidableEq, Repr

namespace Kind

/-- A value converted to a type. -/
def convert (j : Json) : Kind → Option Setting
  | text => (convertText j).map .text
  | number bits => (convertNumber (wordSize bits) j).map .number
  | optionalText => ((Slot.given j).optional convertText).map .optionalText

/-- The values of a type. -/
def Fits : Kind → Setting → Prop
  | text, .text _ => True
  | number bits, .number n => n < wordSize bits
  | optionalText, .optionalText _ => True
  | _, _ => False

/-- A converted value is one of the type. -/
theorem fits_of_convert {kind : Kind} {j : Json} {v : Setting} (h : kind.convert j = some v) :
    kind.Fits v := by
  cases kind with
  | text =>
    obtain ⟨s, -, rfl⟩ := Option.map_eq_some_iff.mp h
    trivial
  | number bits =>
    obtain ⟨n, hn, rfl⟩ := Option.map_eq_some_iff.mp h
    have hbound : n < wordSize bits := by
      unfold convertNumber at hn
      simpa using (Option.filter_eq_some_iff.mp hn).2
    exact hbound
  | optionalText =>
    obtain ⟨s, -, rfl⟩ := Option.map_eq_some_iff.mp h
    trivial

/-- A table is never the value of a setting. -/
@[simp] theorem convert_obj (kind : Kind) (members : List (String × Json)) :
    kind.convert (.obj members) = none := by
  cases kind <;> rfl

end Kind

namespace Field

/-- The table that a setting is in. -/
def table : Field → String
  | databaseUrl | maxConnections | minConnections | databaseTimeout => "database"
  | redisUrl | redisTimeout => "redis"
  | lockKeyPrefix | lockTtl | lockAcquireTimeout | lockRetryDelay
  | timezone | retentionDays | retentionCron => "scheduler"
  | logLevel | metricsPort | tracingEndpoint => "observability"

/-- The key of a setting in its table. -/
def key : Field → String
  | databaseUrl | redisUrl => "url"
  | maxConnections => "max_connections"
  | minConnections => "min_connections"
  | databaseTimeout | redisTimeout => "connect_timeout_seconds"
  | lockKeyPrefix => "lock_key_prefix"
  | lockTtl => "lock_ttl_seconds"
  | lockAcquireTimeout => "lock_acquire_timeout_ms"
  | lockRetryDelay => "lock_retry_delay_ms"
  | timezone => "timezone"
  | retentionDays => "retention_days"
  | retentionCron => "retention_cron"
  | logLevel => "log_level"
  | metricsPort => "metrics_port"
  | tracingEndpoint => "tracing_endpoint"

/-- The type of a setting. -/
def kind : Field → Kind
  | databaseUrl | redisUrl | lockKeyPrefix | timezone | retentionCron | logLevel => .text
  | metricsPort => .number 16
  | maxConnections | minConnections | retentionDays => .number 32
  | databaseTimeout | redisTimeout | lockTtl | lockAcquireTimeout | lockRetryDelay => .number 64
  | tracingEndpoint => .optionalText

/-- A value converted to the type of a setting. -/
def convert (x : Field) (j : Json) : Option Setting := x.kind.convert j

/-- The value that settings have. -/
def get (s : Settings) : Field → Setting
  | databaseUrl => .text s.database.url
  | maxConnections => .number s.database.maxConnections.toNat
  | minConnections => .number s.database.minConnections.toNat
  | databaseTimeout => .number s.database.connectTimeoutSeconds.toNat
  | redisUrl => .text s.redis.url
  | redisTimeout => .number s.redis.connectTimeoutSeconds.toNat
  | lockKeyPrefix => .text s.scheduler.lockKeyPrefix
  | lockTtl => .number s.scheduler.lockTtlSeconds.toNat
  | lockAcquireTimeout => .number s.scheduler.lockAcquireTimeoutMillis.toNat
  | lockRetryDelay => .number s.scheduler.lockRetryDelayMillis.toNat
  | timezone => .text s.scheduler.timezone
  | retentionDays => .number s.scheduler.retentionDays.toNat
  | retentionCron => .text s.scheduler.retentionCron
  | logLevel => .text s.observability.logLevel
  | metricsPort => .number s.observability.metricsPort.toNat
  | tracingEndpoint => .optionalText s.observability.tracingEndpoint

/-- Every setting has a value of its type. -/
theorem fits_get (s : Settings) (x : Field) : x.kind.Fits (x.get s) := by
  cases x <;> first
    | trivial
    | exact UInt16.toNat_lt _
    | exact UInt32.toNat_lt _
    | exact UInt64.toNat_lt _

/-- The name of the variable for a setting, in lower case. -/
def variableName (x : Field) : List Char := ("app__" ++ x.table ++ "__" ++ x.key).toList

/-- There are sixteen settings, in four tables. -/
theorem forall_iff {p : Field → Prop} : (∀ x, p x) ↔
    (p databaseUrl ∧ p maxConnections ∧ p minConnections ∧ p databaseTimeout) ∧
    (p redisUrl ∧ p redisTimeout) ∧
    (p lockKeyPrefix ∧ p lockTtl ∧ p lockAcquireTimeout ∧ p lockRetryDelay ∧ p timezone ∧
      p retentionDays ∧ p retentionCron) ∧
    (p logLevel ∧ p metricsPort ∧ p tracingEndpoint) := by
  constructor
  · intro h
    refine ⟨⟨?_, ?_, ?_, ?_⟩, ⟨?_, ?_⟩, ⟨?_, ?_, ?_, ?_, ?_, ?_, ?_⟩, ?_, ?_, ?_⟩ <;> exact h _
  · intro ⟨⟨h1, h2, h3, h4⟩, ⟨h5, h6⟩, ⟨h7, h8, h9, h10, h11, h12, h13⟩, h14, h15, h16⟩ x
    cases x <;> assumption

/-- A setting is known by its table and its key. -/
theorem eq_of_path {x y : Field} (htable : x.table = y.table) (hkey : x.key = y.key) : x = y := by
  revert htable hkey
  cases x <;> cases y <;> decide

/-- The names of tables are in lower case already. -/
theorem lowerKey_table (x : Field) : lowerKey x.table = x.table := by cases x <;> decide

theorem lowerKey_key (x : Field) : lowerKey x.key = x.key := by cases x <;> decide

/-- The name of a variable is the path of its setting. -/
theorem stepsOf_variableName (x : Field) :
    stepsOf (String.ofList (pointed (x.variableName.drop variablePrefix.length))) =
      (x.table, [.member x.key]) := by
  cases x <;> decide

/-- The variable of every setting has the prefix of settings. -/
theorem isPrefixOf_variableName (x : Field) : variablePrefix.isPrefixOf x.variableName := by
  cases x <;> decide

end Field

/-! ## Leaves of a tree -/

/-- What a tree has in the place of a setting. -/
def leaf (x : Field) (tree : Json) : Option Json := (tree.get? x.table).bind (get? x.key)

/-- The value that a tree has for a setting, converted to its type. -/
def held (x : Field) (tree : Json) : Option Setting := (leaf x tree).bind x.convert

/-- A tree with something in the place of every setting. -/
def Whole (tree : Json) : Prop := ∀ x, (leaf x tree).isSome

/-- What a tree has at a key is looked up in its members. -/
theorem get?_eq_lookup (key : String) (tree : Json) :
    tree.get? key = lookup key (membersOf tree) := by
  cases tree <;> rfl

/-- Where there is no table yet, an empty one is laid over. -/
theorem tableAt_eq (key : String) (tree : Json) :
    tableAt key tree = (tree.get? key).getD (.obj []) := by
  rw [get?_eq_lookup]
  rfl

/-- A tree has at a key what was put there. -/
@[simp] theorem get?_put_self (key : String) (value tree : Json) :
    (put key value tree).get? key = some value :=
  lookup_setMember_self key value (membersOf tree)

theorem get?_put_ne {key other : String} (h : other ≠ key) (value tree : Json) :
    (put key value tree).get? other = tree.get? other := by
  rw [get?_eq_lookup other tree]
  exact lookup_setMember_ne h value (membersOf tree)

/-- A leaf stands under its key in its table. -/
theorem leaf_eq_get?_tableAt (x : Field) (tree : Json) :
    leaf x tree = (tableAt x.table tree).get? x.key := by
  unfold leaf
  rw [tableAt_eq]
  cases tree.get? x.table <;> rfl

/-! ## Reading leaf by leaf -/

/-- The reader converts texts as the type does. -/
theorem convertText_eq_some_iff {j : Json} {s : String} : convertText j = some s ↔
    Kind.text.convert j = some (.text s) := by
  simp [Kind.convert]

/-- A word of some bits is read from a value if the value converts to the number of the word. -/
theorem map_ofNat_eq_some_iff {α : Type} {ofNat : Nat → α} {toNat : α → Nat} {bits : Nat}
    {j : Json} {w : α} (hofNat : ∀ n < wordSize bits, toNat (ofNat n) = n)
    (htoNat : ofNat (toNat w) = w) :
    (convertNumber (wordSize bits) j).map ofNat = some w ↔
    (Kind.number bits).convert j = some (.number (toNat w)) := by
  have hword : ∀ n, convertNumber (wordSize bits) j = some n → (ofNat n = w ↔ n = toNat w) := by
    intro n hn
    have hconvert : (Kind.number bits).convert j = some (.number n) := by
      simp only [Kind.convert, hn, Option.map_some]
    have hbound : n < wordSize bits := Kind.fits_of_convert hconvert
    constructor
    · intro hw
      rw [← hw, hofNat n hbound]
    · intro hw
      rw [hw, htoNat]
  unfold Kind.convert
  rw [Option.map_eq_some_iff, Option.map_eq_some_iff]
  constructor
  · intro ⟨n, hn, hw⟩
    exact ⟨n, hn, congrArg Setting.number ((hword n hn).mp hw)⟩
  · intro ⟨n, hn, hw⟩
    exact ⟨n, hn, (hword n hn).mpr (Setting.number.inj hw)⟩

/-- The reader converts words of 16 bits as the type does. -/
theorem word16_eq_some_iff {j : Json} {w : UInt16} :
    converted.word16 j = some w ↔ (Kind.number 16).convert j = some (.number w.toNat) :=
  map_ofNat_eq_some_iff (fun _ h => UInt16.toNat_ofNat_of_lt h) UInt16.ofNat_toNat

theorem word32_eq_some_iff {j : Json} {w : UInt32} :
    converted.word32 j = some w ↔ (Kind.number 32).convert j = some (.number w.toNat) :=
  map_ofNat_eq_some_iff (fun _ h => UInt32.toNat_ofNat_of_lt h) UInt32.ofNat_toNat

theorem word64_eq_some_iff {j : Json} {w : UInt64} :
    converted.word64 j = some w ↔ (Kind.number 64).convert j = some (.number w.toNat) :=
  map_ofNat_eq_some_iff (fun _ h => UInt64.toNat_ofNat_of_lt h) UInt64.ofNat_toNat

variable {tree : Json}

/-- The tables of a whole tree are objects with a member for each of their settings. -/
theorem Whole.members_of (hwhole : Whole tree) (x : Field) :
    ∃ members, tree.get? x.table = some (.obj members) ∧
    ∀ y : Field, y.table = x.table → ∃ j, lookup y.key members = some j ∧
    held y tree = y.convert j := by
  obtain ⟨j, hj⟩ := Option.isSome_iff_exists.mp (hwhole x)
  obtain ⟨table, htable, hmember⟩ := Option.bind_eq_some_iff.mp hj
  cases table with
  | obj members =>
    refine ⟨members, htable, ?_⟩
    intro y hy
    obtain ⟨value, hvalue⟩ := Option.isSome_iff_exists.mp (hwhole y)
    have hlookup : leaf y tree = lookup y.key members := by
      unfold leaf
      rw [hy, htable]
      rfl
    refine ⟨value, hlookup ▸ hvalue, ?_⟩
    unfold held
    rw [hvalue, Option.bind_some]
  | null | bool | int | float | str | arr => exact absurd hmember (by simp [get?])

/-- The database section is read leaf by leaf. -/
theorem read?_database_iff (hwhole : Whole tree) {s : DatabaseSettings} :
    (tree.get? "database").bind (DatabaseSettings.read? converted) = some s ↔
      held .databaseUrl tree = some (.text s.url) ∧
      held .maxConnections tree = some (.number s.maxConnections.toNat) ∧
      held .minConnections tree = some (.number s.minConnections.toNat) ∧
      held .databaseTimeout tree = some (.number s.connectTimeoutSeconds.toNat) := by
  obtain ⟨members, htable, hmember⟩ := hwhole.members_of .databaseUrl
  obtain ⟨url, hurl, hheld₁⟩ := hmember .databaseUrl rfl
  obtain ⟨most, hmost, hheld₂⟩ := hmember .maxConnections rfl
  obtain ⟨least, hleast, hheld₃⟩ := hmember .minConnections rfl
  obtain ⟨timeout, htimeout, hheld₄⟩ := hmember .databaseTimeout rfl
  simp only [Field.table, Field.key] at htable hurl hmost hleast htimeout
  rw [hheld₁, hheld₂, hheld₃, hheld₄, htable]
  simp only [Field.convert, Field.kind, ← convertText_eq_some_iff, ← word32_eq_some_iff,
    ← word64_eq_some_iff]
  obtain ⟨_, _, _, _⟩ := s
  simp only [DatabaseSettings.read?, DatabaseSettings.fieldNames, converted, convertSlots,
    memberSlots, List.map, hurl, hmost, hleast, htimeout, Slot.required, Option.bind_eq_bind,
    Option.bind_some, Option.bind_eq_some_iff]
  grind

theorem read?_redis_iff (hwhole : Whole tree) {s : RedisSettings} :
    (tree.get? "redis").bind (RedisSettings.read? converted) = some s ↔
      held .redisUrl tree = some (.text s.url) ∧ held .redisTimeout tree =
        some (.number s.connectTimeoutSeconds.toNat) := by
  obtain ⟨members, htable, hmember⟩ := hwhole.members_of .redisUrl
  obtain ⟨url, hurl, hheld₁⟩ := hmember .redisUrl rfl
  obtain ⟨timeout, htimeout, hheld₂⟩ := hmember .redisTimeout rfl
  simp only [Field.table, Field.key] at htable hurl htimeout
  rw [hheld₁, hheld₂, htable]
  simp only [Field.convert, Field.kind, ← convertText_eq_some_iff, ← word64_eq_some_iff]
  obtain ⟨_, _⟩ := s
  simp only [RedisSettings.read?, RedisSettings.fieldNames, converted, convertSlots, memberSlots,
    List.map, hurl, htimeout, Slot.required, Option.bind_eq_bind, Option.bind_some,
    Option.bind_eq_some_iff]
  grind

/-- The section of the scheduler is read leaf by leaf. -/
theorem read?_scheduler_iff (hwhole : Whole tree) {s : SchedulerSettings} :
    (tree.get? "scheduler").bind (SchedulerSettings.read? converted) = some s ↔
      held .lockKeyPrefix tree = some (.text s.lockKeyPrefix) ∧
      held .lockTtl tree = some (.number s.lockTtlSeconds.toNat) ∧
      held .lockAcquireTimeout tree = some (.number s.lockAcquireTimeoutMillis.toNat) ∧
      held .lockRetryDelay tree = some (.number s.lockRetryDelayMillis.toNat) ∧
      held .timezone tree = some (.text s.timezone) ∧
      held .retentionDays tree = some (.number s.retentionDays.toNat) ∧
      held .retentionCron tree = some (.text s.retentionCron) := by
  obtain ⟨members, htable, hmember⟩ := hwhole.members_of .lockKeyPrefix
  obtain ⟨lockPrefix, hprefix, hheld₁⟩ := hmember .lockKeyPrefix rfl
  obtain ⟨ttl, httl, hheld₂⟩ := hmember .lockTtl rfl
  obtain ⟨timeout, htimeout, hheld₃⟩ := hmember .lockAcquireTimeout rfl
  obtain ⟨delay, hdelay, hheld₄⟩ := hmember .lockRetryDelay rfl
  obtain ⟨timezone, htimezone, hheld₅⟩ := hmember .timezone rfl
  obtain ⟨days, hdays, hheld₆⟩ := hmember .retentionDays rfl
  obtain ⟨cron, hcron, hheld₇⟩ := hmember .retentionCron rfl
  simp only [Field.table, Field.key] at htable hprefix httl htimeout hdelay htimezone hdays hcron
  rw [hheld₁, hheld₂, hheld₃, hheld₄, hheld₅, hheld₆, hheld₇, htable]
  simp only [Field.convert, Field.kind, ← convertText_eq_some_iff, ← word32_eq_some_iff,
    ← word64_eq_some_iff]
  obtain ⟨_, _, _, _, _, _, _⟩ := s
  simp only [SchedulerSettings.read?, SchedulerSettings.fieldNames, converted, convertSlots,
    memberSlots, List.map, hprefix, httl, htimeout, hdelay, htimezone, hdays, hcron, Slot.required,
    Slot.orElse, Option.bind_eq_bind, Option.bind_some, Option.bind_eq_some_iff]
  grind

theorem read?_observability_iff (hwhole : Whole tree) {s : ObservabilitySettings} :
    (tree.get? "observability").bind (ObservabilitySettings.read? converted) = some s ↔
      held .logLevel tree = some (.text s.logLevel) ∧
      held .metricsPort tree = some (.number s.metricsPort.toNat) ∧
      held .tracingEndpoint tree = some (.optionalText s.tracingEndpoint) := by
  obtain ⟨members, htable, hmember⟩ := hwhole.members_of .logLevel
  obtain ⟨level, hlevel, hheld₁⟩ := hmember .logLevel rfl
  obtain ⟨port, hport, hheld₂⟩ := hmember .metricsPort rfl
  obtain ⟨endpoint, hendpoint, hheld₃⟩ := hmember .tracingEndpoint rfl
  simp only [Field.table, Field.key] at htable hlevel hport hendpoint
  rw [hheld₁, hheld₂, hheld₃, htable]
  have hoptional : ∀ t, Kind.optionalText.convert endpoint = some (.optionalText t) ↔
      (Slot.given endpoint).optional convertText = some t := by simp [Kind.convert]
  simp only [Field.convert, Field.kind, ← convertText_eq_some_iff, ← word16_eq_some_iff, hoptional]
  obtain ⟨_, _, _⟩ := s
  simp only [ObservabilitySettings.read?, ObservabilitySettings.fieldNames, converted, convertSlots,
    memberSlots, List.map, hlevel, hport, hendpoint, Slot.required, Option.bind_eq_bind,
    Option.bind_some, Option.bind_eq_some_iff]
  grind

/-- Settings are read from a whole tree leaf by leaf. -/
theorem read?_converted_iff (hwhole : Whole tree) {s : Settings} :
    Settings.read? converted tree = some s ↔ ∀ x, held x tree = some (x.get s) := by
  obtain ⟨database, hdatabase, -⟩ := hwhole.members_of .databaseUrl
  obtain ⟨redis, hredis, -⟩ := hwhole.members_of .redisUrl
  obtain ⟨scheduler, hscheduler, -⟩ := hwhole.members_of .lockKeyPrefix
  obtain ⟨observability, hobservability, -⟩ := hwhole.members_of .logLevel
  rw [Field.forall_iff]
  have h₁ := read?_database_iff hwhole (s := s.database)
  have h₂ := read?_redis_iff hwhole (s := s.redis)
  have h₃ := read?_scheduler_iff hwhole (s := s.scheduler)
  have h₄ := read?_observability_iff hwhole (s := s.observability)
  simp only [Field.table] at hdatabase hredis hscheduler hobservability
  simp only [Field.get, ← h₁, ← h₂, ← h₃, ← h₄, hdatabase, hredis, hscheduler, hobservability,
    Option.bind_some]
  cases tree with
  | obj members =>
    obtain ⟨_, _, _, _⟩ := s
    simp only [get?] at hdatabase hredis hscheduler hobservability
    simp only [Settings.read?, Settings.fieldNames, converted, convertSlots, memberSlots, List.map,
      hdatabase, hredis, hscheduler, hobservability, Slot.required, Option.bind_eq_bind,
      Option.bind_eq_some_iff]
    grind
  | null | bool | int | float | str | arr => exact absurd hdatabase (by simp [get?])

/-- The text of a value. -/
def Setting.toText : Setting → String
  | .text t => t
  | _ => ""

/-- The number of a value. -/
def Setting.toNat : Setting → Nat
  | .number n => n
  | _ => 0

/-- The text of a value, if there is one. -/
def Setting.toOptionalText : Setting → Option String
  | .optionalText t => t
  | _ => none

/-- The settings with the given values. -/
def ofValues (value : Field → Setting) : Settings where
  database := {
    url := (value .databaseUrl).toText
    maxConnections := .ofNat (value .maxConnections).toNat
    minConnections := .ofNat (value .minConnections).toNat
    connectTimeoutSeconds := .ofNat (value .databaseTimeout).toNat }
  redis := {
    url := (value .redisUrl).toText
    connectTimeoutSeconds := .ofNat (value .redisTimeout).toNat }
  scheduler := {
    lockKeyPrefix := (value .lockKeyPrefix).toText
    lockTtlSeconds := .ofNat (value .lockTtl).toNat
    lockAcquireTimeoutMillis := .ofNat (value .lockAcquireTimeout).toNat
    lockRetryDelayMillis := .ofNat (value .lockRetryDelay).toNat
    timezone := (value .timezone).toText
    retentionDays := .ofNat (value .retentionDays).toNat
    retentionCron := (value .retentionCron).toText }
  observability := {
    logLevel := (value .logLevel).toText
    metricsPort := .ofNat (value .metricsPort).toNat
    tracingEndpoint := (value .tracingEndpoint).toOptionalText }

/-- Settings that are put together from values of the right types have these values. -/
theorem get_ofValues {value : Field → Setting} {x : Field} (hfits : x.kind.Fits (value x)) :
    x.get (ofValues value) = value x := by
  cases x <;> simp only [Field.get, ofValues] <;> revert hfits <;> cases value _ <;>
    simp [Kind.Fits, Field.kind, Setting.toText, Setting.toNat, Setting.toOptionalText]

/-! ## Laying a table over a tree -/

/-- A value laid over what a tree has in its place. -/
def overlaid (below : Json) : Json → Json
  | .obj members => mergeAll below members
  | value => value

/-- The value that a table gives a key, which it may write in any case. -/
def named? (key : String) (members : List (String × Json)) : Option Json :=
  (members.find? (fun m => lowerKey m.1 = key)).map (·.2)

/-- The keys of a table are distinct in lower case. -/
def Distinct (members : List (String × Json)) : Prop := (members.map (fun m => lowerKey m.1)).Nodup

instance (members : List (String × Json)) : Decidable (Distinct members) :=
  inferInstanceAs (Decidable (List.Nodup _))

/-- Merging puts what was laid over the value below in its place. -/
theorem merge_eq (key : String) (tree value : Json) :
    merge key tree value =
      put (lowerKey key) (overlaid (tableAt (lowerKey key) tree) value) tree := by
  cases value <;> rfl

/-- A key that no member writes in any case has no value. -/
theorem named?_eq_none {key : String} {members : List (String × Json)}
    (h : key ∉ members.map (fun m => lowerKey m.1)) :
    named? key members = none := by
  unfold named?
  rw [Option.map_eq_none_iff, List.find?_eq_none]
  intro m hm hkey
  exact h (List.mem_map.mpr ⟨m, hm, of_decide_eq_true hkey⟩)

/-- What a tree has at a key after a table was laid over it. -/
theorem get?_mergeAll {members : List (String × Json)} (hdistinct : Distinct members)
    (key : String) (tree : Json) :
    (mergeAll tree members).get? key = match named? key members with
      | some value => some (overlaid (tableAt key tree) value)
      | none => tree.get? key := by
  induction members generalizing tree with
  | nil => rfl
  | cons m rest ih =>
    obtain ⟨name, value⟩ := m
    obtain ⟨hfresh, hrest⟩ := List.nodup_cons.mp hdistinct
    unfold mergeAll
    rw [ih hrest, merge_eq]
    by_cases hkey : lowerKey name = key
    · -- the first member names the key, and no other does
      subst hkey
      rw [named?_eq_none hfresh, get?_put_self]
      simp [named?]
    · have hnamed : named? key ((name, value) :: rest) = named? key rest := by
        unfold named?
        rw [List.find?_cons_of_neg (by simpa using hkey)]
      have hsame : ∀ v, (put (lowerKey name) v tree).get? key = tree.get? key :=
        fun v => get?_put_ne (Ne.symm hkey) v tree
      rw [hnamed, tableAt_eq, hsame, ← tableAt_eq]

/-- An empty table. -/
def isEmptyTable : Json → Bool
  | .obj [] => true
  | _ => false

/-- A tree stays a table when something is laid over it. -/
theorem mergeAll_obj (members below : List (String × Json)) :
    ∃ above, mergeAll (.obj below) members = .obj above := by
  induction members generalizing below with
  | nil => exact ⟨below, rfl⟩
  | cons m rest ih =>
    unfold mergeAll
    rw [merge_eq]
    exact ih _

/-- What is laid over a value decides what the result converts to, unless it is an empty table. -/
theorem convert_overlaid (x : Field) (below value : Json) :
    x.convert (overlaid below value) = if isEmptyTable value then x.convert below
    else x.convert value := by
  cases value with
  | obj members =>
    cases members with
    | nil => rfl
    | cons m rest =>
      obtain ⟨above, habove⟩ := mergeAll_obj rest (membersOf (merge m.1 below m.2))
      have hmerge : merge m.1 below m.2 = .obj (membersOf (merge m.1 below m.2)) := by
        rw [merge_eq]
        rfl
      have htable : overlaid below (.obj (m :: rest)) = .obj above := by
        rw [← habove, ← hmerge]
        rfl
      rw [htable]
      exact Eq.trans (Kind.convert_obj _ _) (Kind.convert_obj _ _).symm
  | null | bool | int | float | str | arr => rfl

/-! ## Files -/

/-- A key that is no path: letters, digits, blanks, underscores and hyphens. -/
def IsPlain (key : String) : Prop := key.toList ≠ [] ∧ ∀ c ∈ key.toList, isStepChar c

instance (key : String) : Decidable (IsPlain key) :=
  decidable_of_iff (key.toList ≠ [] ∧ key.toList.all isStepChar =
    true) (by rw [IsPlain, List.all_eq_true])

/-- A table with keys that are distinct in lower case. -/
def IsTable : Json → Prop
  | .obj members => Distinct members
  | _ => False

instance : (j : Json) → Decidable (IsTable j)
  | .obj members => inferInstanceAs (Decidable (Distinct members))
  | .null | .bool _ | .int _ | .float _ | .str _ | .arr _ => inferInstanceAs (Decidable False)

/-- The names of the sections. -/
def tableNames : List String := ["database", "redis", "scheduler", "observability"]

/-- A layer with plain keys, distinct in lower case, that gives the sections as tables. -/
structure Layer.IsPlain (layer : Layer) : Prop where
  plain : ∀ entry ∈ layer, Settings.IsPlain entry.1
  distinct : Distinct layer
  tables : ∀ entry ∈ layer, lowerKey entry.1 ∈ tableNames → IsTable entry.2

/-- The value that a layer defines for a setting. -/
def Field.inLayer (x : Field) (layer : Layer) : Option Json :=
  (named? x.table layer).bind (fun table => named? x.key (membersOf table))

theorem Field.table_mem (x : Field) : x.table ∈ tableNames := by cases x <;> decide

/-- A plain key is a single step. -/
theorem stepsOf_of_isPlain {key : String} (h : IsPlain key) : stepsOf key = (key, []) := by
  have htake : key.toList.takeWhile isStepChar = key.toList := List.takeWhile_eq_self_iff.mpr h.2
  have hdrop : key.toList.dropWhile isStepChar = [] := List.dropWhile_eq_nil_iff.mpr h.2
  unfold stepsOf
  simp only [htake, hdrop, List.isEmpty_iff, h.1, laterSteps?, String.ofList_toList, if_false]

/-- A layer with plain keys is merged member by member. -/
theorem withLayer_of_plain {layer : Layer}
    (hplain : ∀ entry ∈ layer, IsPlain entry.1) (tree : Json) :
    withLayer tree layer = mergeAll tree layer := by
  induction layer generalizing tree with
  | nil => rfl
  | cons entry rest ih =>
    have hstep : withLayer tree (entry :: rest) = withLayer (merge entry.1 tree entry.2) rest := by
      unfold withLayer
      rw [List.foldl_cons, stepsOf_of_isPlain (hplain entry List.mem_cons_self)]
      rfl
    rw [hstep, ih (fun e he => hplain e (List.mem_cons_of_mem _ he))]
    rfl

/-- A plain layer gives a section as a table with distinct keys. -/
theorem Layer.IsPlain.table {layer : Layer} (h : layer.IsPlain) {x : Field} {value : Json}
    (hnamed : named? x.table layer = some value) :
    ∃ members, value = .obj members ∧ Distinct members := by
  obtain ⟨entry, hentry, rfl⟩ := Option.map_eq_some_iff.mp hnamed
  have hkey : lowerKey entry.1 = x.table := by simpa using List.find?_some hentry
  have htable := h.tables entry (List.mem_of_find?_eq_some hentry) (hkey ▸ x.table_mem)
  revert htable
  cases entry.2 with
  | obj members => exact fun htable => ⟨members, rfl, htable⟩
  | null | bool | int | float | str | arr => exact False.elim

/-- What a leaf is after a layer was laid over the tree. -/
theorem leaf_withLayer {layer : Layer} (h : layer.IsPlain) (x : Field) (tree : Json) :
    leaf x (withLayer tree layer) = match x.inLayer layer with
      | some value => some (overlaid ((leaf x tree).getD (.obj [])) value)
      | none => leaf x tree := by
  rw [withLayer_of_plain h.plain]
  unfold Field.inLayer
  have hleaf : leaf x (mergeAll tree layer) =
      ((mergeAll tree layer).get? x.table).bind (get? x.key) := rfl
  rw [hleaf, get?_mergeAll h.distinct]
  cases htable : named? x.table layer with
  | none => rfl
  | some table =>
    obtain ⟨members, rfl, hdistinct⟩ := h.table htable
    have hmember := get?_mergeAll hdistinct x.key (tableAt x.table tree)
    rw [tableAt_eq x.key, ← leaf_eq_get?_tableAt] at hmember
    exact hmember

/-- A tree that has all settings still has them under a layer. -/
theorem Whole.layered {layer : Layer} (h : layer.IsPlain) (hwhole : Whole tree) :
    Whole (withLayer tree layer) := by
  intro x
  rw [leaf_withLayer h]
  cases x.inLayer layer with
  | none => exact hwhole x
  | some value => rfl

/-- A layer decides what a leaf stands for if it defines it, by anything but an empty table. -/
theorem held_withLayer {layer : Layer} (h : layer.IsPlain) (hwhole : Whole tree) (x : Field) :
    held x (Settings.withLayer tree layer) =
      match (x.inLayer layer).filter (fun v => !isEmptyTable v) with
      | some value => x.convert value
      | none => held x tree := by
  unfold held
  rw [leaf_withLayer h]
  obtain ⟨below, hbelow⟩ := Option.isSome_iff_exists.mp (hwhole x)
  rw [hbelow]
  cases x.inLayer layer with
  | none => rfl
  | some value =>
    rw [Option.bind_some, Option.getD_some, convert_overlaid]
    cases hempty : isEmptyTable value <;> simp only [Option.filter, hempty] <;> rfl

/-! ## The environment -/

/-- The names of the variables that are settings, in lower case. -/
def settingNames (environment : List (String × String)) : List (List Char) :=
  (environment.map (fun v => lowerText v.1.toList)).filter (variablePrefix.isPrefixOf ·)

/-- An environment that names settings of the program only, and none of them twice. -/
structure PlainEnvironment (environment : List (String × String)) : Prop where
  known : ∀ name ∈ settingNames environment, ∃ x : Field, name = x.variableName
  distinct : (settingNames environment).Nodup

/-- The value that an environment defines for a setting. -/
def Field.inEnvironment (x : Field) (environment : List (String × String)) : Option Json :=
  (environment.find? (fun v => lowerText v.1.toList = x.variableName)).map
    (fun v => variableValue v.2)

/-- The value of a variable is no table. -/
theorem variableValue_ne_obj (text : String) (members : List (String × Json)) :
    variableValue text ≠ .obj members := by
  unfold variableValue
  dsimp only
  split
  · exact Json.noConfusion
  · split
    · exact Json.noConfusion
    · split
      · exact Json.noConfusion
      · split <;> exact Json.noConfusion

/-- A setting is known by the name of its variable. -/
theorem Field.eq_of_variableName {x y : Field} (h : x.variableName = y.variableName) : x = y := by
  have hpath := stepsOf_variableName x
  rw [h, stepsOf_variableName y] at hpath
  obtain ⟨htable, hkey⟩ := Prod.mk.inj hpath
  exact Field.eq_of_path htable.symm (Step.member.inj (List.cons.inj hkey).1).symm

/-- A variable is put at the key of its setting. -/
theorem mergeAt_field (y : Field) {value : Json}
    (hvalue : ∀ members, value ≠ .obj members) (tree : Json) :
    mergeAt y.table value [.member y.key] tree =
      put y.table (put y.key value ((tree.get? y.table).getD .null)) tree := by
  have hoverlaid : ∀ below, overlaid below value = value := by
    intro below
    cases value with
    | obj members => exact absurd rfl (hvalue members)
    | null | bool | int | float | str | arr => rfl
  rw [get?_eq_lookup, mergeAt, mergeAt, merge_eq, hoverlaid, y.lowerKey_table, y.lowerKey_key]

/-- Giving one setting a value changes its leaf and no other. -/
theorem leaf_mergeAt (x y : Field) {value : Json}
    (hvalue : ∀ members, value ≠ .obj members) (tree : Json) :
    leaf x (mergeAt y.table value [.member y.key] tree) = if x = y then some value
    else leaf x tree := by
  rw [mergeAt_field y hvalue]
  unfold leaf
  by_cases htable : x.table = y.table
  · rw [htable, get?_put_self, Option.bind_some]
    by_cases hkey : x.key = y.key
    · rw [hkey, get?_put_self, if_pos (Field.eq_of_path htable hkey)]
    · have hne : x ≠ y := fun h => hkey (h ▸ rfl)
      rw [get?_put_ne hkey, if_neg hne]
      cases tree.get? y.table <;> rfl
  · have hne : x ≠ y := fun h => htable (h ▸ rfl)
    rw [get?_put_ne htable, if_neg hne]

/-- A variable with the prefix names a setting. -/
theorem settingNames_cons_of_setting {v : String × String}
    (h : variablePrefix.isPrefixOf (lowerText v.1.toList)) (rest : List (String × String)) :
    settingNames (v :: rest) = lowerText v.1.toList :: settingNames rest :=
  List.filter_cons_of_pos h

theorem settingNames_cons_of_other {v : String × String}
    (h : ¬ variablePrefix.isPrefixOf (lowerText v.1.toList)) (rest : List (String × String)) :
    settingNames (v :: rest) = settingNames rest :=
  List.filter_cons_of_neg h

/-- A variable that names a setting is merged at its place, and then the others are. -/
theorem environmentLayer_cons_of_setting {v : String × String} {x : Field}
    (h : lowerText v.1.toList = x.variableName) (rest : List (String × String)) (tree : Json) :
    withLayer tree (environmentLayer (v :: rest)) =
      withLayer (mergeAt x.table (variableValue v.2) [.member x.key] tree)
        (environmentLayer rest) := by
  unfold environmentLayer
  rw [List.filterMap_cons_some
    (b := (String.ofList (pointed (x.variableName.drop variablePrefix.length)), variableValue v.2))
    (by simp only [h, x.isPrefixOf_variableName, if_true])]
  unfold withLayer
  rw [List.foldl_cons, x.stepsOf_variableName]

/-- A variable that names no setting is passed over. -/
theorem environmentLayer_cons_of_other {v : String × String}
    (h : ¬ variablePrefix.isPrefixOf (lowerText v.1.toList)) (rest : List (String × String)) :
    environmentLayer (v :: rest) = environmentLayer rest :=
  List.filterMap_cons_none (if_neg h)

/-- The first variable that names a setting defines it. -/
theorem Field.inEnvironment_cons_self {v : String × String} {x : Field}
    (h : lowerText v.1.toList = x.variableName) (rest : List (String × String)) :
    x.inEnvironment (v :: rest) = some (variableValue v.2) := by
  unfold inEnvironment
  rw [List.find?_cons_of_pos (by simpa using h)]
  rfl

theorem Field.inEnvironment_cons_ne {v : String × String} {x : Field}
    (h : lowerText v.1.toList ≠ x.variableName) (rest : List (String × String)) :
    x.inEnvironment (v :: rest) = x.inEnvironment rest := by
  unfold inEnvironment
  rw [List.find?_cons_of_neg (by simpa using h)]

/-- A setting that no variable names is not defined. -/
theorem Field.inEnvironment_eq_none {x : Field} {environment : List (String × String)}
    (h : x.variableName ∉ settingNames environment) : x.inEnvironment environment = none := by
  unfold inEnvironment
  rw [Option.map_eq_none_iff, List.find?_eq_none]
  intro v hv hname
  have hname : lowerText v.1.toList = x.variableName := of_decide_eq_true hname
  refine h (List.mem_filter.mpr ⟨List.mem_map.mpr ⟨v, hv, hname⟩, x.isPrefixOf_variableName⟩)

/-- A single variable defines its setting only. -/
theorem Field.inEnvironment_single {name : String} {x : Field}
    (h : lowerText name.toList = x.variableName) (text : String) (y : Field) :
    y.inEnvironment [(name, text)] = if y = x then some (variableValue text) else none := by
  by_cases hy : y = x
  · rw [if_pos hy, inEnvironment_cons_self (hy ▸ h)]
  · rw [if_neg hy, inEnvironment_cons_ne (fun hname =>
      hy (eq_of_variableName (hname.symm.trans h)))]
    rfl

/-- A single variable that names a setting is a plain environment. -/
theorem PlainEnvironment.single {name : String} {x : Field}
    (h : lowerText name.toList = x.variableName) (text : String) :
    PlainEnvironment [(name, text)] := by
  have hnames : settingNames [(name, text)] = [x.variableName] := by
    rw [settingNames_cons_of_setting (h ▸ x.isPrefixOf_variableName), h]
    rfl
  constructor
  · rw [hnames]
    exact fun n hn => ⟨x, List.mem_singleton.mp hn⟩
  · rw [hnames]
    simp

/-- What a leaf is after the environment was laid over the tree. -/
theorem leaf_withVariables {environment : List (String × String)} (h : PlainEnvironment environment)
    (x : Field) (tree : Json) :
    leaf x (withLayer tree (environmentLayer environment)) =
      (x.inEnvironment environment).or (leaf x tree) := by
  obtain ⟨hknown, hdistinct⟩ := h
  induction environment generalizing tree with
  | nil => rfl
  | cons v rest ih =>
    by_cases hsetting : variablePrefix.isPrefixOf (lowerText v.1.toList)
    · rw [settingNames_cons_of_setting hsetting] at hknown hdistinct
      obtain ⟨hfresh, hrest⟩ := List.nodup_cons.mp hdistinct
      obtain ⟨y, hy⟩ := hknown _ List.mem_cons_self
      rw [environmentLayer_cons_of_setting hy,
        ih _ (fun n hn => hknown n (List.mem_cons_of_mem _ hn)) hrest,
        leaf_mergeAt x y (variableValue_ne_obj v.2)]
      by_cases hxy : x = y
      · -- the first variable names the setting, and no later one does
        subst hxy
        rw [Field.inEnvironment_cons_self hy, Field.inEnvironment_eq_none (hy ▸ hfresh), if_pos rfl]
        rfl
      · have hne : lowerText v.1.toList ≠ x.variableName :=
          fun hx => hxy (Field.eq_of_variableName (hx.symm.trans hy))
        rw [Field.inEnvironment_cons_ne hne, if_neg hxy]
    · rw [settingNames_cons_of_other hsetting] at hknown hdistinct
      have hne : lowerText v.1.toList ≠ x.variableName :=
        fun hx => hsetting (hx ▸ x.isPrefixOf_variableName)
      rw [environmentLayer_cons_of_other hsetting, ih _ hknown hdistinct,
        Field.inEnvironment_cons_ne hne]

theorem Whole.overridden {environment : List (String × String)} (h : PlainEnvironment environment)
    (hwhole : Whole tree) :
    Whole (withLayer tree (environmentLayer environment)) := by
  intro x
  rw [leaf_withVariables h]
  cases x.inEnvironment environment with
  | none => exact hwhole x
  | some value => rfl

/-- A variable never stands for an empty table. -/
theorem Field.isEmptyTable_inEnvironment {x : Field}
    {environment : List (String × String)} {value : Json}
    (h : x.inEnvironment environment = some value) : isEmptyTable value = false := by
  obtain ⟨v, -, rfl⟩ := Option.map_eq_some_iff.mp h
  have hne := variableValue_ne_obj v.2
  cases hvalue : variableValue v.2 with
  | obj members => exact absurd hvalue (hne members)
  | null | bool | int | float | str | arr => rfl

/-- The environment decides what a leaf stands for if it defines it. -/
theorem held_withVariables {environment : List (String × String)} (h : PlainEnvironment environment)
    (x : Field) (tree : Json) :
    held x (withLayer tree (environmentLayer environment)) = match x.inEnvironment environment with
      | some value => x.convert value
      | none => held x tree := by
  unfold held
  rw [leaf_withVariables h]
  cases x.inEnvironment environment <;> rfl

/-! ## All layers -/

/-- What settings are loaded from: the texts of `default.toml` and of `local.toml`, if they exist,
    and the environment. -/
structure Sources where
  defaultFile : Option String
  localFile : Option String
  environment : List (String × String)

namespace Sources

/-- The settings that sources give. -/
def load? (S : Sources) : Option Settings := Settings.load? S.defaultFile S.localFile S.environment

/-- Both files are valid. -/
def Readable (S : Sources) : Prop := (fileLayer? S.defaultFile).isSome ∧
    (fileLayer? S.localFile).isSome

/-- The files have plain layers, and the environment names settings of the program. -/
structure IsPlain (S : Sources) : Prop where
  ofDefault : ∀ layer, fileLayer? S.defaultFile = some layer → Layer.IsPlain layer
  ofLocal : ∀ layer, fileLayer? S.localFile = some layer → Layer.IsPlain layer
  ofEnvironment : PlainEnvironment S.environment

/-- The values that the sources define for a setting, the highest layer first. -/
def definitions (S : Sources) (x : Field) : List Json :=
  (x.inEnvironment S.environment).toList ++ ((fileLayer? S.localFile).bind x.inLayer).toList ++
    ((fileLayer? S.defaultFile).bind x.inLayer).toList

/-- The value of the highest layer that defines a setting; an empty table defines nothing. -/
def given (S : Sources) (x : Field) : Option Json :=
  (S.definitions x).find? (fun v => !isEmptyTable v)

end Sources

/-- The environment comes before the local file, and that before the default one. -/
theorem Sources.definitions_eq {S : Sources} {ofDefault ofLocal : Layer}
    (hdefault : fileLayer? S.defaultFile = some ofDefault)
    (hlocal : fileLayer? S.localFile = some ofLocal) (x : Field) : S.definitions x =
      (x.inEnvironment S.environment).toList ++ (x.inLayer ofLocal).toList ++
        (x.inLayer ofDefault).toList := by
  unfold definitions
  rw [hdefault, hlocal]
  rfl

/-- The default tree holds the default settings. -/
theorem held_defaults (x : Field) : held x (Settings.toJson {}) = some (x.get {}) := by
  cases x <;> rfl

theorem whole_defaults : Whole (Settings.toJson {}) := by
  intro x
  cases x <;> rfl

theorem find?_toList {α : Type} (p : α → Bool) (o : Option α) : o.toList.find? p = o.filter p := by
  cases o <;> simp [Option.filter]

/-- The leaves of the tree that settings are read from. -/
theorem held_layers {S : Sources} (h : S.IsPlain) {ofDefault ofLocal : Layer}
    (hdefault : fileLayer? S.defaultFile = some ofDefault)
    (hlocal : fileLayer? S.localFile = some ofLocal) (x : Field) :
    held x (withLayer (withLayer (withLayer (Settings.toJson {}) ofDefault) ofLocal)
      (environmentLayer S.environment)) =
      match S.given x with
        | some value => x.convert value
        | none => some (x.get {}) := by
  have hwhole := whole_defaults.layered (h.ofDefault _ hdefault)
  rw [held_withVariables h.ofEnvironment, held_withLayer (h.ofLocal _ hlocal) hwhole,
    held_withLayer (h.ofDefault _ hdefault) whole_defaults, held_defaults]
  unfold Sources.given
  simp only [Sources.definitions_eq hdefault hlocal, List.find?_append, find?_toList]
  cases hvariable : x.inEnvironment S.environment with
  | some value =>
    have hfilter : (some value).filter (fun v => !isEmptyTable v) = some value := by
      simp [Option.filter, Field.isEmptyTable_inEnvironment hvariable]
    rw [hfilter]
    rfl
  | none =>
    cases (x.inLayer ofLocal).filter (fun v => !isEmptyTable v) with
    | some value => rfl
    | none => cases (x.inLayer ofDefault).filter (fun v => !isEmptyTable v) <;> rfl

/-- The value that sources give a setting; none when it cannot be converted. -/
def Sources.value? (S : Sources) (x : Field) : Option Setting :=
  match S.given x with
  | some value => x.convert value
  | none => some (x.get {})

/-- Settings are loaded if both files are valid and each setting has a value, and then these are the
    values. -/
theorem load?_eq_some_iff {S : Sources} (h : S.IsPlain) {s : Settings} :
    S.load? = some s ↔ S.Readable ∧ ∀ x, S.value? x = some (x.get s) := by
  unfold Sources.load? Settings.load? Sources.Readable
  cases hdefault : fileLayer? S.defaultFile with
  | none => simp
  | some ofDefault =>
    cases hlocal : fileLayer? S.localFile with
    | none => simp
    | some ofLocal =>
      have hwhole : Whole (withLayer (withLayer (withLayer (Settings.toJson {}) ofDefault) ofLocal)
          (environmentLayer S.environment)) :=
        ((whole_defaults.layered (h.ofDefault _ hdefault)).layered (h.ofLocal _ hlocal)).overridden
          h.ofEnvironment
      show Settings.read? converted _ = some s ↔ _
      rw [read?_converted_iff hwhole]
      simp only [held_layers h hdefault hlocal, Sources.value?, Option.isSome_some, true_and]

theorem Sources.fits_of_value? {S : Sources} {x : Field} {v : Setting} (h : S.value? x = some v) :
    x.kind.Fits v := by
  unfold Sources.value? at h
  cases hgiven : S.given x with
  | some value =>
    rw [hgiven] at h
    exact Kind.fits_of_convert h
  | none =>
    rw [hgiven] at h
    exact Option.some.inj h ▸ Field.fits_get {} x

/-- Settings are loaded if the files are valid and every setting has a value. -/
theorem isSome_load?_iff {S : Sources} (h : S.IsPlain) : S.load?.isSome ↔
    S.Readable ∧ ∀ x, (S.value? x).isSome := by
  constructor
  · intro hsome
    obtain ⟨s, hs⟩ := Option.isSome_iff_exists.mp hsome
    obtain ⟨hreadable, hvalues⟩ := (load?_eq_some_iff h).mp hs
    exact ⟨hreadable, fun x => Option.isSome_of_eq_some (hvalues x)⟩
  · intro ⟨hreadable, hvalues⟩
    choose value hvalue using fun x => Option.isSome_iff_exists.mp (hvalues x)
    have hget : ∀ x : Field, x.get (ofValues value) = value x :=
      fun x => get_ofValues (Sources.fits_of_value? (hvalue x))
    exact Option.isSome_of_eq_some ((load?_eq_some_iff h).mpr ⟨hreadable,
      fun x => by rw [hget, hvalue]⟩)

/-- **Layers override setting by setting.**  Settings are loaded from files and an environment if
    both files are valid and the value of the highest layer that defines a setting converts to its
    type, for every setting.  Each setting then has that value, and its default if no layer defines
    it.  Nothing else has an influence: sources with the same topmost values give the same result.
    An empty table in the place of a setting merges with what lies below it and defines nothing. -/
theorem layers_override_leaf_by_leaf (S : Sources) (h : S.IsPlain) :
    (S.load?.isSome ↔ S.Readable ∧ ∀ x value, S.given x = some value → (x.convert value).isSome) ∧
    (∀ s, S.load? = some s → ∀ x : Field, match S.given x with
      | some value => x.convert value = some (x.get s)
      | none => x.get s = x.get {}) ∧
    (∀ T : Sources, T.IsPlain → (T.Readable ↔ S.Readable) → (∀ x, T.given x = S.given x) →
      T.load? = S.load?) := by
  refine ⟨?_, ?_, ?_⟩
  · rw [isSome_load?_iff h]
    refine and_congr_right (fun _ => forall_congr' fun x => ?_)
    unfold Sources.value?
    cases S.given x with
    | some value =>
      exact ⟨fun hvalue _ heq => Option.some.inj heq ▸ hvalue, fun hvalue => hvalue value rfl⟩
    | none => exact ⟨fun _ _ heq => absurd heq (by simp), fun _ => rfl⟩
  · intro s hs x
    have hvalue := ((load?_eq_some_iff h).mp hs).2 x
    unfold Sources.value? at hvalue
    cases hgiven : S.given x with
    | some value => rwa [hgiven] at hvalue
    | none =>
      rw [hgiven] at hvalue
      exact (Option.some.inj hvalue).symm
  · intro T hT hreadable hgiven
    refine Option.ext ?_
    intro s
    rw [load?_eq_some_iff hT, load?_eq_some_iff h, hreadable]
    simp only [Sources.value?, hgiven]

/-- A file, a local file with a value of no use, and a variable above both; an unknown key in
    another file changes nothing. -/
theorem layers_override_leaf_by_leaf_threeLayers :
    let S : Sources := ⟨some "Redis.URL=[]", some "redis.url=[[]]", [("App__Redis__Url", "9")]⟩
    let T : Sources := ⟨some "q=[]", none, [("APP__REDIS__URL", "9")]⟩
    S.load?.isSome ∧ (∀ s, S.load? = some s → s.redis.url = "9" ∧
      s.database.url = "postgresql://localhost/hr_records") ∧
      T.load? = S.load? := by
  intro S T
  have hdefault : Toml.read? "Redis.URL=[]" = some [("Redis", .obj [("URL", .arr [])])] := by cbv
  have hlocal : Toml.read? "redis.url=[[]]" =
      some [("redis", .obj [("url", .arr [.arr []])])] := by cbv
  have hother : Toml.read? "q=[]" = some [("q", .arr [])] := by cbv
  have hvariable : variableValue "9" = .int 9 := by
    have hnumber : readSigned? 64 "9".toList = some 9 := by decide
    unfold variableValue
    rw [if_neg (by decide), if_neg (by decide), hnumber]
  have hplain : ∀ layer : Layer, layer ∈ [[("Redis", .obj [("URL", .arr [])])],
    [("redis", .obj [("url", .arr [.arr []])])],
      [("q", .arr [])], []] → layer.IsPlain := by
    intro layer hlayer
    simp only [List.mem_cons, List.not_mem_nil, or_false] at hlayer
    obtain rfl | rfl | rfl | rfl := hlayer <;> exact ⟨by decide, by decide, by decide⟩
  have hname : lowerText "App__Redis__Url".toList = Field.redisUrl.variableName := by decide
  have hname' : lowerText "APP__REDIS__URL".toList = Field.redisUrl.variableName := by decide
  have hS : S.IsPlain := ⟨fun _ h => hplain _ (by simp [Option.some.inj (h.symm.trans hdefault)]),
    fun _ h => hplain _ (by simp [Option.some.inj (h.symm.trans hlocal)]),
    PlainEnvironment.single hname "9"⟩
  have hT : T.IsPlain := ⟨fun _ h => hplain _ (by simp [Option.some.inj (h.symm.trans hother)]),
    fun _ h => hplain _ (by simp [(Option.some.inj h).symm]), PlainEnvironment.single hname' "9"⟩
  have hgiven : ∀ x, S.given x = if x = .redisUrl then some (.int 9) else none := by
    intro x
    unfold Sources.given
    rw [Sources.definitions_eq (S := S) hdefault hlocal,
      Field.inEnvironment_single hname, hvariable]
    cases x <;> rfl
  have hgiven' : ∀ x, T.given x = if x = .redisUrl then some (.int 9) else none := by
    intro x
    unfold Sources.given
    rw [Sources.definitions_eq (S := T) hother rfl, Field.inEnvironment_single hname', hvariable]
    cases x <;> rfl
  have hreadable : S.Readable :=
    ⟨Option.isSome_of_eq_some hdefault, Option.isSome_of_eq_some hlocal⟩
  have hreadable' : T.Readable := ⟨Option.isSome_of_eq_some hother, rfl⟩
  clear_value S T
  obtain ⟨hsome, hvalues, hsame⟩ := layers_override_leaf_by_leaf S hS
  refine ⟨hsome.mpr ⟨hreadable, ?_⟩, ?_,
    hsame T hT ⟨fun _ => hreadable, fun _ => hreadable'⟩ (fun x =>
      (hgiven' x).trans (hgiven x).symm)⟩
  · intro x value hvalue
    rw [hgiven] at hvalue
    obtain ⟨rfl, rfl⟩ : x = .redisUrl ∧ .int 9 = value := by simpa using hvalue
    rfl
  · intro s hs
    have hredis := hvalues s hs .redisUrl
    have hdatabase := hvalues s hs .databaseUrl
    have hconvert : Field.redisUrl.convert (.int 9) = some (.text "9") := by decide
    simp only [hgiven, hconvert, reduceCtorEq, if_true, if_false] at hredis hdatabase
    exact ⟨Setting.text.inj (Option.some.inj hredis.symm), Setting.text.inj hdatabase⟩

/-- An empty table is no text, and yet it is no fault in the place of one. -/
theorem empty_table_defines_nothing :
    let S : Sources := ⟨some "[database.url]\n", none, []⟩
    S.IsPlain ∧ S.Readable ∧ (S.definitions .databaseUrl).head? = some (.obj []) ∧
      Field.databaseUrl.convert (.obj []) = none ∧
      S.load? = some {} := by
  have hread : Toml.read? "[database.url]\n" =
      some [("database", .obj [("url", .obj [])])] := by cbv
  have hplain : Sources.IsPlain ⟨some "[database.url]\n", none, []⟩ := by
    refine ⟨?_, ?_, ?_⟩
    · intro layer hlayer
      obtain rfl := Option.some.inj (hread.symm.trans hlayer)
      exact ⟨by decide, by decide, by decide⟩
    · intro layer hlayer
      obtain rfl := Option.some.inj hlayer
      exact ⟨by decide, by decide, by decide⟩
    · exact ⟨nofun, List.nodup_nil⟩
  have hgiven : ∀ x, Sources.value? ⟨some "[database.url]\n", none, []⟩ x = some (x.get {}) := by
    intro x
    unfold Sources.value? Sources.given Sources.definitions fileLayer?
    simp only [hread]
    cases x <;> rfl
  have hreadable : Sources.Readable ⟨some "[database.url]\n", none, []⟩ :=
    ⟨Option.isSome_of_eq_some hread, rfl⟩
  refine ⟨hplain, hreadable, ?_, rfl, (load?_eq_some_iff hplain).mpr ⟨hreadable, hgiven⟩⟩
  unfold Sources.definitions fileLayer?
  simp only [hread]
  rfl

end JobFleet.Settings
