/-
  JobFleet.Ledger.Memory: the execution ledger in memory.

  Rows are entered at the end, never changed, and leave only by `cleanup`.  The newest row is the
  one that started last; of rows that started together, lists keep the order of entry while
  `latest?` takes the one entered last.  Single operations may be made to fail.
-/
import JobFleet.Error
import JobFleet.Ledger.Record

namespace JobFleet

open JobFleet.Time

/-! ## Rows -/

namespace Row

/-- The rows of a job. -/
def ofJob (job : String) (rows : List Row) : List Row := rows.filter (fun r => r.job = job)

/-- The rows that started at a moment or after it. -/
def since (moment : Instant) (rows : List Row) : List Row :=
  rows.filter (fun r => moment ≤ r.startedAt)

/-- The rows by start, last first; rows that started together stay in order. -/
def newestFirst (rows : List Row) :
    List Row := rows.mergeSort (fun a b => b.startedAt ≤ a.startedAt)

/-- The row that started last; of several the last one. -/
def latest? (rows : List Row) : Option Row :=
  rows.foldl (fun best r => match best with
    | none => some r
    | some b => if b.startedAt ≤ r.startedAt then some r else some b) none

end Row

/-! ## Windows -/

/-- The moment a number of seconds ago, if the calendar has it. -/
def windowStart? (now : Instant) (seconds : Int) : Option Instant :=
  now.later? (-(seconds * nanosPerSecond))

/-- The moment a number of hours ago; a window that leaves the calendar starts with it. -/
def hoursAgo (now : Instant) (hours : Int) : Instant :=
  (windowStart? now (3600 * hours)).getD Instant.earliest

/-- The moment a number of days ago; a window that leaves the calendar starts with it. -/
def daysAgo (now : Instant) (days : Int) : Instant :=
  (windowStart? now (secondsPerDay * days)).getD Instant.earliest

/-! ## The ledger -/

/-- The operations of the ledger. -/
inductive LedgerOperation
  | create
  | latest
  | list
  | count
  | recent
  | countFailed
  | cleanup
deriving DecidableEq, Repr

/-- The rows in order of entry, the operations that fail, and the number of the next identity. -/
structure Ledger where
  rows : List Row := []
  failing : List LedgerOperation := []
  nextId : Nat := 0

namespace Ledger

/-- What a failing operation answers. -/
def refusal : LedgerError := .queryFailed "ledger offline"

/-- The answer of an operation unless it fails. -/
def answer {α : Type} (l : Ledger) (operation : LedgerOperation) (value : α) :
    Except LedgerError α :=
  if operation ∈ l.failing then .error refusal else .ok value

/-- Enters a row as it is. -/
def insert (row : Row) (l : Ledger) : Ledger := { l with rows := l.rows ++ [row] }

/-- The identity of the next row. -/
def freshId (l : Ledger) : Uuid := ⟨BitVec.ofNat 128 l.nextId⟩

/-- Enters a report at a moment. -/
def create (now : Instant) (report : Report) (l : Ledger) : Except LedgerError Row × Ledger :=
  if .create ∈ l.failing then (.error refusal, l)
  else
    let row := Row.ofReport l.freshId report now
    (.ok row, { l.insert row with nextId := l.nextId + 1 })

/-- The latest row of a job. -/
def latest? (job : String) (l : Ledger) : Except LedgerError (Option Row) :=
  l.answer .latest (Row.latest? (Row.ofJob job l.rows))

/-- The rows of a job, newest first: at most `limit` after the first `offset`; negative numbers
    count as zero. -/
def list (job : String) (limit offset : Int) (l : Ledger) : Except LedgerError (List Row) :=
  l.answer .list (((Row.newestFirst (Row.ofJob job l.rows)).drop offset.toNat).take limit.toNat)

/-- The number of rows of a job. -/
def count (job : String) (l : Ledger) : Except LedgerError Int :=
  l.answer .count (Row.ofJob job l.rows).length

/-- The rows of the last hours, newest first. -/
def recent (now : Instant) (hours : Int) (l : Ledger) : Except LedgerError (List Row) :=
  l.answer .recent (Row.newestFirst (Row.since (hoursAgo now hours) l.rows))

/-- A row of one job, or any row. -/
def isOf (job : Option String) (r : Row) : Bool :=
  match job with
  | some id => r.job = id
  | none => true

/-- The number of failed rows of the last hours, of one job or of all. -/
def countFailed (job : Option String) (now : Instant) (hours : Int) (l : Ledger) :
    Except LedgerError Int :=
  l.answer .countFailed
    ((Row.since (hoursAgo now hours) l.rows).filter (fun r => !r.success && isOf job r)).length

/-- Drops the rows entered before the moment a number of days ago; tells how many. -/
def cleanup (now : Instant) (days : Int) (l : Ledger) : Except LedgerError Nat × Ledger :=
  if .cleanup ∈ l.failing then (.error refusal, l)
  else
    let kept := l.rows.filter (fun r => daysAgo now days ≤ r.createdAt)
    (.ok (l.rows.length - kept.length), { l with rows := kept })

end Ledger

end JobFleet
