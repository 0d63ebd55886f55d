/-
  JobFleet.Time.Zone: time zones as a first offset and a list of changes.

  `offsetAt` is the offset in force at an instant, `reading` what a clock in the zone shows.  A wall
  time exists at no instant when clocks are set forward over it, at two when they are set back over
  it, and otherwise at exactly one: `once?` finds that one.  Which zones there are is for a
  `ZoneDatabase` to say.
-/
import JobFleet.Time.Instant

namespace JobFleet.Time

/-- From `at` on, in seconds since the epoch, clocks are `offset` seconds ahead of UTC. -/
structure OffsetChange where
  second : Int
  offset : Int
deriving DecidableEq, Repr

/-- A time zone: its name, the offset in force before its first change, and its changes in order of
    time. -/
structure Zone where
  name : String
  initial : Int
  changes : List OffsetChange
deriving DecidableEq, Repr

/-- The offset after the changes up to `second`, starting from `offset`. -/
def offsetAfter (offset : Int) : List OffsetChange → Int → Int
  | [], _ => offset
  | change :: later, second =>
    if change.second ≤ second then offsetAfter change.offset later second else offset

namespace Zone

/-- The offset in force at a second since the epoch. -/
def offsetAt (z : Zone) (second : Int) : Int := offsetAfter z.initial z.changes second

/-- What a clock in the zone shows at a second since the epoch, as seconds of wall time. -/
def wallSeconds (z : Zone) (second : Int) : Int := second + z.offsetAt second

/-- What a clock in the zone shows at an instant; the fraction of the second is dropped. -/
def reading (z : Zone) (t : Instant) : WallTime := .ofSeconds (z.wallSeconds t.seconds)

/-- Every offset that is ever in force, each once. -/
def offsets (z : Zone) : List Int := (z.initial :: z.changes.map OffsetChange.offset).eraseDups

/-- The seconds since the epoch at which a clock in the zone shows the wall time `wall`. -/
def occurrences (z : Zone) (wall : Int) : List Int :=
  (z.offsets.map (wall - ·)).filter (fun second => z.wallSeconds second == wall)

/-- The second since the epoch at which a clock in the zone shows `wall`, when there is exactly
    one. -/
def once? (z : Zone) (wall : Int) : Option Int :=
  match z.occurrences wall with
  | [second] => some second
  | _ => none

end Zone

/-! ## Zones that keep one offset -/

/-- Hours and minutes in seconds. -/
def clock (hours : Int) (minutes : Int) : Int := 3600 * hours + 60 * minutes

/-- A zone that keeps one offset. -/
def fixedZone (name : String) (hours minutes : Int) : Zone := ⟨name, clock hours minutes, []⟩

/-- Coordinated universal time. -/
def Zone.utc : Zone := fixedZone "UTC" 0 0

/-! ## Databases -/

/-- The zones that there are, each under its exact name. -/
structure ZoneDatabase where
  find? : String → Option Zone
  name_of_find? : ∀ {name : String} {z : Zone}, find? name = some z → z.name = name

/-! ## Laws -/

theorem offsetAfter_mem (offset : Int) (changes : List OffsetChange) (second : Int) :
    offsetAfter offset changes second ∈ offset :: changes.map OffsetChange.offset := by
  induction changes generalizing offset with
  | nil => simp [offsetAfter]
  | cons change later ih =>
    simp only [offsetAfter]
    split
    · exact List.mem_cons_of_mem _ (by simpa using ih change.offset)
    · exact List.mem_cons_self

namespace Zone

theorem offsetAt_mem_offsets (z : Zone) (second : Int) : z.offsetAt second ∈ z.offsets :=
  List.mem_eraseDups.2 (offsetAfter_mem _ _ _)

/-- The occurrences of a wall time are exactly the seconds at which a clock shows it. -/
theorem mem_occurrences {z : Zone} {wall second : Int} :
    second ∈ z.occurrences wall ↔ z.wallSeconds second = wall := by
  simp only [occurrences, List.mem_filter, List.mem_map, beq_iff_eq]
  constructor
  · exact fun h => h.2
  · intro h
    refine ⟨⟨z.offsetAt second, z.offsetAt_mem_offsets second, ?_⟩, h⟩
    simp only [wallSeconds] at h
    omega

end Zone

end JobFleet.Time
