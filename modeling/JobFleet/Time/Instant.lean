/-
  JobFleet.Time.Instant: points in time, counted in nanoseconds.

  The calendar is bounded: instants lie between the first moment of year -262143 and the last
  nanosecond of year 262142.  `later?` moves an instant and answers nothing when it would leave the
  calendar.
-/
import JobFleet.Time.Calendar

namespace JobFleet.Time

/-- A point in time: the nanoseconds since 1970-01-01T00:00:00Z. -/
structure Instant where
  nanos : Int
deriving DecidableEq, Repr, Inhabited

/-- The nanoseconds of a second. -/
def nanosPerSecond : Int := 1000000000

/-- The nanoseconds of a millisecond. -/
def nanosPerMilli : Int := 1000000

/-- The seconds of a day. -/
def secondsPerDay : Int := 86400

namespace Instant

instance : LE Instant := ⟨fun a b => a.nanos ≤ b.nanos⟩
instance : LT Instant := ⟨fun a b => a.nanos < b.nanos⟩
instance (a b : Instant) : Decidable (a ≤ b) := inferInstanceAs (Decidable (a.nanos ≤ b.nanos))
instance (a b : Instant) : Decidable (a < b) := inferInstanceAs (Decidable (a.nanos < b.nanos))
instance : Max Instant := ⟨fun a b => if a ≤ b then b else a⟩
instance : Min Instant := ⟨fun a b => if a ≤ b then a else b⟩

/-- The instant a number of whole seconds after the epoch. -/
def ofSeconds (s : Int) : Instant := ⟨s * nanosPerSecond⟩

/-- The whole seconds since the epoch, rounded down. -/
def seconds (t : Instant) : Int := t.nanos / nanosPerSecond

/-- The nanoseconds since the last whole second. -/
def subsecond (t : Instant) : Nat := (t.nanos % nanosPerSecond).toNat

/-- The last year of the calendar. -/
def lastYear : Int := 262142

/-- The first year of the calendar. -/
def firstYear : Int := -262143

/-- The first instant of the calendar. -/
def earliest : Instant := ofSeconds ((Date.dayNumber ⟨firstYear, 1, 1⟩) * secondsPerDay)

/-- The last instant of the calendar. -/
def latest : Instant :=
  ⟨(Date.dayNumber ⟨lastYear + 1, 1, 1⟩) * secondsPerDay * nanosPerSecond - 1⟩

/-- The instant lies in the calendar. -/
def inCalendar (t : Instant) : Bool := decide (earliest ≤ t ∧ t ≤ latest)

/-- The instant `nanos` nanoseconds later, if the calendar has it. -/
def later? (t : Instant) (nanos : Int) : Option Instant :=
  let moved : Instant := ⟨t.nanos + nanos⟩
  if moved.inCalendar then some moved else none

/-- The instant `ms` milliseconds later. -/
def plusMillis (t : Instant) (ms : Nat) : Instant := ⟨t.nanos + ms * nanosPerMilli⟩

theorem later?_eq_some {t u : Instant} {nanos : Int} :
    t.later? nanos = some u ↔ u.nanos = t.nanos + nanos ∧ u.inCalendar = true := by
  simp only [later?]
  constructor
  · intro h
    split at h
    · rename_i hin
      cases h
      exact ⟨rfl, hin⟩
    · cases h
  · rintro ⟨hn, hin⟩
    have hu : u = ⟨t.nanos + nanos⟩ := by cases u; simp_all
    rw [if_pos (hu ▸ hin), hu]

/-- What is later than a later instant is later than the first. -/
theorem later?_later? {t u : Instant} {a : Int} (h : t.later? a = some u) (b : Int) :
    u.later? b = t.later? (a + b) := by
  unfold later?
  rw [(later?_eq_some.1 h).1, Int.add_assoc]

/-- The calendar has no gaps: it has what is not before its first instant and not after one that it
    has. -/
theorem inCalendar_of_le {t u : Instant} (ht : earliest ≤ t) (htu : t ≤ u)
    (hu : u.inCalendar = true) :
    t.inCalendar = true :=
  decide_eq_true ⟨ht, Int.le_trans htu (of_decide_eq_true hu).2⟩

theorem eq_of_le {t u : Instant} (htu : t ≤ u) (hut : u ≤ t) : t = u :=
  congrArg Instant.mk (Int.le_antisymm htu hut)

end Instant

/-! ## Time of day -/

/-- A reading of a calendar and a clock, without the place it was taken at. -/
structure WallTime where
  date : Date
  hour : Nat
  minute : Nat
  second : Nat
deriving DecidableEq, Repr

namespace WallTime

/-- The seconds of the reading since midnight at the start of 1970-01-01 on the same clock. -/
def seconds (w : WallTime) : Int :=
  w.date.dayNumber * secondsPerDay + (3600 * w.hour + 60 * w.minute + w.second : Nat)

/-- The reading a number of seconds after midnight at the start of 1970-01-01. -/
def ofSeconds (s : Int) : WallTime :=
  let time := (s % secondsPerDay).toNat
  ⟨Date.ofDayNumber (s / secondsPerDay), time / 3600, time / 60 % 60, time % 60⟩

end WallTime

end JobFleet.Time
