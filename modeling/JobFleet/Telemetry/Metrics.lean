/-
  JobFleet.Telemetry.Metrics: what the fleet counts.

  Counters start at zero and only rise; durations are kept in the order of recording; the gauge has
  the number of jobs after the last registration or removal.
-/

namespace JobFleet

/-- What starts a run. -/
inductive RunKind
  /-- The schedule of the job. -/
  | scheduled
  /-- An operator. -/
  | manual
deriving DecidableEq, Repr

/-- The word for a kind. -/
def RunKind.word : RunKind → String
  | .scheduled => "scheduled"
  | .manual => "manual"

/-- A call on a lock that the store can fail. -/
inductive LockCall
  | acquire
  | release
  | extend
deriving DecidableEq, Repr

/-- The word for a call. -/
def LockCall.word : LockCall → String
  | .acquire => "acquire"
  | .release => "release"
  | .extend => "extend"

/-- A counter. -/
inductive Counter
  /-- Runs of a job that succeeded. -/
  | succeeded (job : String)
  /-- Runs of a job that failed. -/
  | failed (job : String)
  /-- Runs of a job that did not get their lock. -/
  | skipped (job : String) (kind : RunKind)
  /-- Calls that the lock store failed. -/
  | lockErrors (call : LockCall)
deriving DecidableEq, Repr

/-- Everything that has been counted. -/
structure Metrics where
  counts : List (Counter × Nat) := []
  /-- The durations of the runs of each job in seconds, newest first. -/
  durations : List (String × List Float) := []
  /-- The number of registered jobs. -/
  registered : Option Nat := none

namespace Metrics

/-- The value of a counter. -/
def count (c : Counter) (m : Metrics) : Nat := (m.counts.lookup c).getD 0

/-- Changes the value of a key in a list, with a value for when the key is missing. -/
def alter {κ α : Type} [DecidableEq κ] (key : κ) (fresh : α) (f : α → α) :
    List (κ × α) → List (κ × α)
  | [] => [(key, fresh)]
  | (k, a) :: rest => if k = key then (k, f a) :: rest else (k, a) :: alter key fresh f rest

/-- Raises a counter by one. -/
def raise (c : Counter) (m : Metrics) : Metrics := { m with counts := alter c 1 (· + 1) m.counts }

/-- The durations recorded for a job, in order. -/
def durationsOf (job : String) (m : Metrics) : List Float :=
  ((m.durations.lookup job).getD []).reverse

/-- Records a duration of a job. -/
def recordDuration (job : String) (seconds : Float) (m : Metrics) : Metrics :=
  { m with durations := alter job [seconds] (seconds :: ·) m.durations }

/-- Counts a run that ended. -/
def recordRun (job : String) (success : Bool) (seconds : Float) (m : Metrics) : Metrics :=
  (m.raise (if success then .succeeded job else .failed job)).recordDuration job seconds

/-- Sets the number of registered jobs. -/
def setRegistered (n : Nat) (m : Metrics) : Metrics := { m with registered := some n }

/-! ## Laws -/

theorem lookup_alter_self {κ α : Type} [DecidableEq κ] (key : κ) (fresh : α) (f : α → α)
    (l : List (κ × α)) :
    (alter key fresh f l).lookup key = some (match l.lookup key with
      | some a => f a
      | none => fresh) := by
  induction l with
  | nil => simp [alter]
  | cons entry rest ih =>
    obtain ⟨k, a⟩ := entry
    by_cases h : k = key
    · subst h
      simp [alter]
    · simp [alter, h, List.lookup_cons, beq_eq_false_iff_ne.2 (Ne.symm h), ih]

theorem lookup_alter_ne {κ α : Type} [DecidableEq κ] {key other : κ} (h : other ≠ key) (fresh : α)
    (f : α → α) (l : List (κ × α)) : (alter key fresh f l).lookup other = l.lookup other := by
  induction l with
  | nil => simp [alter, List.lookup_cons, beq_eq_false_iff_ne.2 h]
  | cons entry rest ih =>
    obtain ⟨k, a⟩ := entry
    by_cases hk : k = key
    · subst hk
      simp [alter, List.lookup_cons, beq_eq_false_iff_ne.2 h]
    · by_cases ho : other = k
      · subst ho
        simp [alter, hk]
      · simp [alter, hk, List.lookup_cons, beq_eq_false_iff_ne.2 ho, ih]

/-- Raising a counter adds one to it and changes no other. -/
theorem count_raise (c d : Counter) (m : Metrics) :
    (m.raise c).count d = m.count d + (if d = c then 1 else 0) := by
  by_cases h : d = c
  · subst h
    simp only [count, raise, lookup_alter_self, Option.getD_some, if_true]
    cases m.counts.lookup d <;> simp
  · simp [count, raise, lookup_alter_ne h, h]

end Metrics

end JobFleet
