/-
  JobFleet.Telemetry.LogFilter: which events are logged.

  A filter is a comma list of levels, areas and `area=level`.  A level alone holds everywhere, an
  area alone lets everything of it through.  Of the directives whose area the event's area starts
  with, the one with the longest area decides; where there is none, the event is dropped.
-/
import JobFleet.Text.Blank
import JobFleet.Text.Decimal
import JobFleet.Telemetry.Event

namespace JobFleet.Telemetry

open JobFleet.Text

/-! ## Levels -/

/-- The rank up to which a level lets events through: a name in either case, or a number. -/
def readLevel? (cs : List Char) : Option Nat :=
  match readUnsigned? (wordSize 64) cs with
  | some n => if n ≤ 5 then some n else none
  | none =>
    match String.ofList (cs.map Char.toLower) with
    | "" => some Severity.error.rank
    | "off" => some 0
    | "error" => some Severity.error.rank
    | "warn" => some Severity.warn.rank
    | "info" => some Severity.info.rank
    | "debug" => some Severity.debug.rank
    | "trace" => some Severity.trace.rank
    | _ => none

/-! ## Directives -/

/-- One part of a filter. -/
structure Directive where
  /-- What the area of an event must start with. -/
  area : List Char
  /-- Whether the directive names its area; one for everything does not. -/
  named : Bool
  rank : Nat
deriving DecidableEq, Repr

/-- Why a text is no filter. -/
inductive FilterFault
  | badLevel
  | badDirective
deriving DecidableEq, Repr

/-- The wording of a fault. -/
def FilterFault.message : FilterFault → String
  | .badLevel =>
    "error parsing level filter: expected one of \"off\", \"error\", \"warn\", \"info\", " ++
      "\"debug\", \"trace\", or a number 0-5"
  | .badDirective => "invalid filter directive"

/-- A character that a directive may start with. -/
def startsDirective (c : Char) : Bool := c == '-' || c == ':' || c == '_' ||
    c.isAlphanum || 0x7F < c.toNat

/-- Reads one directive. -/
def readDirective (cs : List Char) : Except FilterFault Directive :=
  let opening := (trim cs).head?
  if opening.any (fun c => !startsDirective c) then .error .badDirective
  else match cutFirst '=' cs with
    | none =>
      match readLevel? cs with
      | some rank => .ok ⟨[], false, rank⟩
      | none => .ok ⟨cs, true, Severity.trace.rank⟩
    | some (area, []) => .ok ⟨area, true, Severity.trace.rank⟩
    | some (area, level) =>
      match readLevel? level with
      | some rank => .ok ⟨area, true, rank⟩
      | none => .error .badLevel

/-- A filter. -/
abbrev Filter := List Directive

/-- Reads a filter; empty parts are skipped. -/
def Filter.read (s : String) : Except FilterFault Filter :=
  ((pieces (· == ',') s.toList).filter (fun part => !part.isEmpty)).mapM readDirective

/-- The directive that decides about an area: the one with the longest area, of several equal ones
    the last. -/
def Filter.deciding? (f : Filter) (area : String) : Option Directive :=
  (f.filter (fun d => d.area.isPrefixOf area.toList)).foldl (fun best d =>
    match best with
    | none => some d
    | some b => if b.area.length ≤ d.area.length then some d else some b) none

/-- The rank up to which events of an area are logged. -/
def Filter.rankOf (f : Filter) (area : String) : Nat := ((f.deciding? area).map (·.rank)).getD 0

/-- The filter of a text that overrides another one as long as it is a filter itself. -/
def chooseFilter (override : Option String) (level : String) : Except FilterFault Filter :=
  match override.map Filter.read with
  | some (.ok filter) => .ok filter
  | _ => Filter.read level

end JobFleet.Telemetry
