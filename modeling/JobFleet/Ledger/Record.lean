/-
  JobFleet.Ledger.Record: finished attempts and the rows that keep them.

  A `Report` is a finished attempt as it is handed over, a `Row` is a report in the ledger with an
  identity and the time of its entry.
-/
import JobFleet.Json.Value
import JobFleet.Time.Instant

namespace JobFleet

open JobFleet.Time

/-- A 128-bit identifier. -/
structure Uuid where
  value : BitVec 128
deriving DecidableEq, Repr

/-- A finished attempt. -/
structure Report where
  job : String
  startedAt : Instant
  finishedAt : Instant
  durationSeconds : Float
  success : Bool
  message : String
  errorTrace : Option String
  resultData : Option Json

/-- A finished attempt in the ledger.  Rows are never changed, so both times of entry stay equal. -/
structure Row extends Report where
  id : Uuid
  createdAt : Instant
  updatedAt : Instant

/-- The row of a report that is entered at `now`. -/
def Row.ofReport (id : Uuid) (report : Report) (now : Instant) : Row :=
  { report with id := id, createdAt := now, updatedAt := now }

end JobFleet
