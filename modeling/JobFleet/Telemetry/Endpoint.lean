/-
  JobFleet.Telemetry.Endpoint: which addresses traces can be sent to.

  The path of the trace service is put behind the configured address.  The result must be a path, or
  a scheme with an authority and an optional path, in characters that may stand in an address.
-/
import JobFleet.Text.Blank
import JobFleet.Text.Decimal

namespace JobFleet.Telemetry

open JobFleet.Text

/-! ## Faults -/

/-- Why traces cannot be sent to an address. -/
inductive EndpointFault
  | badCharacter
  | badAuthority
  | badFormat
deriving DecidableEq, Repr

/-- The wording of a fault. -/
def EndpointFault.message : EndpointFault → String
  | .badCharacter => "invalid uri character"
  | .badAuthority => "invalid authority"
  | .badFormat => "invalid format"

/-! ## Authority -/

/-- A character that may stand in an authority, a percent sign included. -/
def isAuthorityChar (c : Char) : Bool :=
  c.isAlphanum || "-._~:[]@!$&'()*+,;=%".toList.contains c

/-- A character that ends an authority. -/
def endsHost (c : Char) : Bool := c == '/' || c == '?' || c == '#'

/-- What has been seen of an authority. -/
structure AuthorityScan where
  colons : Nat := 0
  opened : Bool := false
  closed : Bool := false
  percent : Bool := false
  /-- The last character was an `@`. -/
  atEnd : Bool := false

/-- Takes the next character of an authority. -/
def AuthorityScan.next (s : AuthorityScan) (c : Char) : Except EndpointFault AuthorityScan :=
  let s := { s with atEnd := c == '@' }
  if !isAuthorityChar c then .error .badCharacter
  else if c = ':' then
    if s.colons ≥ 8 then .error .badAuthority else .ok { s with colons := s.colons + 1 }
  else if c = '[' then
    if s.percent ∨ s.opened then .error .badAuthority else .ok { s with opened := true }
  else if c = ']' then
    if !s.opened ∨ s.closed then .error .badAuthority
    else .ok { s with closed := true, colons := 0, percent := false }
  else if c = '@' then .ok { s with colons := 0, percent := false }
  else if c = '%' then .ok { s with percent := true }
  else .ok s

/-- The fault of an authority, if it has one. -/
def authorityFault? (cs : List Char) : Option EndpointFault :=
  match cs.foldlM AuthorityScan.next {} with
  | .error fault => some fault
  | .ok s =>
    if s.opened ≠ s.closed ∨ 1 < s.colons ∨ s.atEnd ∨ s.percent then some .badAuthority else none

/-! ## Path -/

/-- A character that may stand in a path. -/
def isPathChar (c : Char) : Bool :=
  let n := c.toNat
  n == 0x21 || (0x24 ≤ n && n ≤ 0x3B) || n == 0x3D || (0x40 ≤ n && n ≤ 0x5F) ||
    (0x61 ≤ n && n ≤ 0x7A) ||
    n == 0x7C || n == 0x7E || n == 0x22 || n == 0x7B || n == 0x7D || 0x7F < n

/-- A character that may stand in a query. -/
def isQueryChar (c : Char) : Bool :=
  let n := c.toNat
  n == 0x21 || (0x24 ≤ n && n ≤ 0x3B) || n == 0x3D || (0x3F ≤ n && n ≤ 0x7E) || 0x7F < n

/-- The path and query are in order; a fragment is dropped. -/
def isPath (cs : List Char) : Bool :=
  let cs := cs.takeWhile (· != '#')
  match cutFirst '?' cs with
  | some (path, query) => path.all isPathChar && query.all isQueryChar
  | none => cs.all isPathChar

/-! ## Addresses -/

/-- A character of a scheme. -/
def isSchemeChar (c : Char) : Bool := c.isAlphanum || c == '+' || c == '-' || c == '.'

/-- What follows a scheme and its two slashes. -/
def afterScheme? (cs : List Char) : Option (List Char) :=
  match cs.dropWhile isSchemeChar with
  | ':' :: '/' :: '/' :: rest => some rest
  | _ => none

/-- The path of the trace service. -/
def tracePath : String := "/v1/traces"

/-- The fault of an address that traces should be sent to, if it has one. -/
def endpointFault? (endpoint : String) : Option EndpointFault :=
  let cs := (endpoint ++ tracePath).toList
  if cs.head? = some '/' then if isPath cs then none else some .badCharacter
  else
    let scheme := afterScheme? cs
    let rest := scheme.getD cs
    let authority := rest.takeWhile (fun c => !endsHost c)
    match authorityFault? authority with
    | some fault => some fault
    | none =>
      if scheme.isNone ∨ authority.isEmpty then some .badFormat
      else if isPath (rest.drop authority.length) then none
      else some .badCharacter

end JobFleet.Telemetry
