/-
  JobFleet.Form.Ledger: reports and rows as JSON.

  An identifier is written in lower-case groups with hyphens; it is read also without hyphens, in
  braces or with the `urn:uuid:` scheme, in either case.
-/
import JobFleet.Json.Reader
import JobFleet.Json.Shape
import JobFleet.Json.Writer
import JobFleet.Ledger.Record

namespace JobFleet

open JobFleet.Json

/-! ## Identifiers -/

namespace Uuid

/-- The hexadecimal digits of an identifier, most significant first. -/
def digits (u : Uuid) : List Char :=
  (List.range 32).map (fun i => hexDigit (u.value.toNat / Nat.pow 16 (31 - i) % 16))

/-- The lengths of the groups between hyphens. -/
def groups : List Nat := [8, 4, 4, 4, 12]

/-- Cuts a text into groups of the given lengths with a hyphen between two of them. -/
def hyphenate : List Nat → List Char → List Char
  | [], _ => []
  | [_], cs => cs
  | n :: rest, cs => cs.take n ++ '-' :: hyphenate rest (cs.drop n)

/-- Takes the hyphens between groups of the given lengths out of a text. -/
def unhyphenate? : List Nat → List Char → Option (List Char)
  | [], cs => if cs.isEmpty then some [] else none
  | [n], cs => if cs.length = n then some cs else none
  | n :: rest, cs =>
    match cs.drop n with
    | '-' :: after => (unhyphenate? rest after).map (cs.take n ++ ·)
    | _ => none

/-- The text of an identifier. -/
def write (u : Uuid) : String := String.ofList (hyphenate groups u.digits)

/-- The number written by hexadecimal digits of either case. -/
def hexNumber? (cs : List Char) : Option Nat :=
  cs.foldlM (fun n c => (Reader.hexDigit? c).map (fun d => 16 * n + d)) 0

/-- The identifier written by 32 digits. -/
def ofDigits? (cs : List Char) : Option Uuid :=
  if cs.length = 32 then (hexNumber? cs).map (fun n => ⟨BitVec.ofNat 128 n⟩) else none

/-- Reads an identifier in any of its four forms. -/
def read? (s : String) : Option Uuid :=
  let cs := s.toList
  let scheme := "urn:uuid:".toList
  if cs.length = 32 then ofDigits? cs
  else if cs.length = 36 then (unhyphenate? groups cs).bind ofDigits?
  else if cs.length = 38 ∧ cs.head? = some '\x7b' ∧ cs.getLast? = some '\x7d' then
    (unhyphenate? groups ((cs.drop 1).take 36)).bind ofDigits?
  else if cs.length = 45 ∧ cs.take scheme.length = scheme then
    (unhyphenate? groups (cs.drop scheme.length)).bind ofDigits?
  else none

/-- An identifier from JSON. -/
def ofJson? (j : Json) : Option Uuid := (asText j).bind read?

end Uuid

/-! ## Reports and rows -/

namespace Report

/-- The members of a report. -/
def members (r : Report) : List (String × Json) :=
  [("job_id", .str r.job),
   ("started_at", ofInstant r.startedAt),
   ("finished_at", ofInstant r.finishedAt),
   ("duration_seconds", .float r.durationSeconds),
   ("success", .bool r.success),
   ("message", .str r.message),
   ("error_trace", Json.ofOption .str r.errorTrace),
   ("result_data", Json.ofOption id r.resultData)]

/-- A report as JSON. -/
def toJson (r : Report) : Json := .obj r.members

/-- The field names of a report, in order. -/
def fieldNames : List String :=
  ["job_id", "started_at", "finished_at", "duration_seconds", "success", "message",
    "error_trace", "result_data"]

/-- A report from the slots of its fields. -/
def ofSlots? : List Slot → Option Report
  | [job, startedAt, finishedAt, duration, success, message, errorTrace, resultData] => do
    return {
      job := ← job.required asText
      startedAt := ← startedAt.required asInstant
      finishedAt := ← finishedAt.required asInstant
      durationSeconds := ← duration.required asFloat
      success := ← success.required asBool
      message := ← message.required asText
      errorTrace := ← errorTrace.optional asText
      resultData := ← resultData.optional asAny }
  | _ => none

/-- A report from JSON. -/
def ofJson? (j : Json) : Option Report := (slots? fieldNames j).bind ofSlots?

end Report

namespace Row

/-- The members of a row: those of its report between its own. -/
def members (r : Row) : List (String × Json) :=
  ("id", .str r.id.write) :: (r.toReport.members ++
    [("created_at", ofInstant r.createdAt), ("updated_at", ofInstant r.updatedAt)])

/-- A row as JSON. -/
def toJson (r : Row) : Json := .obj r.members

/-- The field names of a row, in order. -/
def fieldNames : List String := "id" :: Report.fieldNames ++ ["created_at", "updated_at"]

/-- A row from the slots of its fields. -/
def ofSlots? : List Slot → Option Row
  | id :: rest => do
    let id ← id.required Uuid.ofJson?
    let report ← Report.ofSlots? (rest.take 8)
    match rest.drop 8 with
    | [createdAt, updatedAt] =>
      return { report with
        id := id
        createdAt := ← createdAt.required asInstant
        updatedAt := ← updatedAt.required asInstant }
    | _ => none
  | [] => none

/-- A row from JSON. -/
def ofJson? (j : Json) : Option Row := (slots? fieldNames j).bind ofSlots?

end Row

end JobFleet
