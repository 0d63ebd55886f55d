/-
  JobFleet.Net.Url: reading a URL.

  A URL has a scheme and, after two slashes, a host with an optional port.  Blanks at the ends and
  tabs and line breaks inside are dropped first.  `Url.read?` reports why a text is no URL.
-/
import JobFleet.Text.Blank
import JobFleet.Text.Decimal

namespace JobFleet.Net

open JobFleet.Text

/-! ## Faults -/

/-- Why a text is no URL. -/
inductive UrlFault
  | noScheme
  | emptyHost
  | badPort
  | badAddress
  | badHost
deriving DecidableEq, Repr

/-- The wording of a fault. -/
def UrlFault.message : UrlFault → String
  | .noScheme => "relative URL without a base"
  | .emptyHost => "empty host"
  | .badPort => "invalid port number"
  | .badAddress => "invalid IPv6 address"
  | .badHost => "invalid domain character"

/-! ## Addresses in brackets -/

/-- A hexadecimal digit. -/
def isHexDigit (c : Char) : Bool := c.isDigit || ('a' ≤ c && c ≤ 'f') || ('A' ≤ c && c ≤ 'F')

/-- A group of one to four hexadecimal digits. -/
def isGroup (cs : List Char) : Bool := !cs.isEmpty && cs.length ≤ 4 && cs.all isHexDigit

/-- One of the four numbers of a dotted address. -/
def isOctet (cs : List Char) : Bool :=
  match readNat? cs with
  | some n => n < 256 && (cs.length == 1 || cs.head? != some '0')
  | none => false

/-- Four numbers with points between them. -/
def isDotted (cs : List Char) : Bool :=
  let parts := pieces (· == '.') cs
  parts.length == 4 && parts.all isOctet

/-- How many groups a run of groups with colons between them has, a dotted address at the end
    counting for two. -/
def groupCount? : List (List Char) → Option Nat
  | [] => some 0
  | [last] => if isGroup last then some 1 else if isDotted last then some 2 else none
  | first :: rest => if isGroup first then (groupCount? rest).map (· + 1) else none

/-- The groups in a part of an address; an empty part has none. -/
def partCount? (cs : List Char) : Option Nat :=
  if cs.isEmpty then some 0 else groupCount? (pieces (· == ':') cs)

/-- The parts before and after the first two colons in a row. -/
def cutGap : List Char → Option (List Char × List Char)
  | ':' :: ':' :: rest => some ([], rest)
  | c :: rest => (cutGap rest).map (fun r => (c :: r.1, r.2))
  | [] => none

/-- An address of eight groups; one gap may stand for some of them. -/
def isAddress (cs : List Char) : Bool :=
  match cutGap cs with
  | none => partCount? cs == some 8
  | some (before, after) =>
    let dottedBefore := before.contains '.'
    match partCount? before, partCount? after with
    | some a, some b => !dottedBefore && a + b < 8
    | _, _ => false

/-! ## Parts -/

/-- A URL. -/
structure Url where
  scheme : String
  /-- The host, when the scheme is followed by two slashes and the host is not empty. -/
  host : Option String
  port : Option Nat
  /-- What follows the host up to a query or a fragment. -/
  path : String
deriving DecidableEq, Repr

/-- A character of a scheme after its first letter. -/
def isSchemeChar (c : Char) : Bool := c.isAlphanum || c == '+' || c == '-' || c == '.'

/-- The schemes whose URLs must have a host. -/
def hostedSchemes : List String := ["http", "https", "ws", "wss", "ftp"]

/-- A character that may not stand in a host. -/
def isForbiddenInHost (c : Char) : Bool :=
  c.toNat == 0 || c == ' ' || c == '<' || c == '>' || c == '^' || c == '|' || c == '\\' ||
    c == '[' || c == ']' || c == '@'

/-- A character that ends the host and port. -/
def endsAuthority (c : Char) : Bool := c == '/' || c == '?' || c == '#'

/-- The part after the last `@`. -/
def afterUser (cs : List Char) : List Char :=
  (cs.reverse.takeWhile (· != '@')).reverse

/-- The host at the start of an authority and what follows it; a colon in brackets belongs to the
    host. -/
def splitHost (inBrackets : Bool) : List Char → List Char × List Char
  | [] => ([], [])
  | c :: rest =>
    if c = ':' ∧ ¬ inBrackets then ([], c :: rest)
    else
      let (host, after) := splitHost (if c = '[' then true else if c = ']' then false
        else inBrackets) rest
      (c :: host, after)

/-- The fault of a host, if it has one. -/
def hostFault? (host : List Char) : Option UrlFault :=
  match host with
  | '[' :: rest =>
    if rest.getLast? = some ']' ∧ isAddress rest.dropLast then none else some .badAddress
  | _ => if host.any isForbiddenInHost then some .badHost else none

/-- The port after a host: nothing, or a colon and a number below 65536, which may be missing. -/
def port? : List Char → Except UrlFault (Option Nat)
  | [] => .ok none
  | _ :: [] => .ok none
  | _ :: digits =>
    match readNat? digits with
    | some n => if n < 65536 then .ok (some n) else .error .badPort
    | none => .error .badPort

/-- The part of a text that a URL is read from: no control characters and blanks at its ends, no
    tabs and line breaks. -/
def strip (cs : List Char) : List Char :=
  let edge := fun (c : Char) => decide (c.toNat ≤ 0x20)
  ((cs.dropWhile edge).reverse.dropWhile edge).reverse.filter
    (fun c => !(c == '\t' || c == '\n' || c == '\r'))

/-- Reads a URL. -/
def Url.read? (s : String) : Except UrlFault Url :=
  let cs := strip s.toList
  let name := cs.takeWhile isSchemeChar
  match name.head?, cs.dropWhile isSchemeChar with
  | some first, ':' :: rest =>
    if !first.isAlpha then .error .noScheme
    else
      let scheme := String.ofList (name.map Char.toLower)
      let hosted := hostedSchemes.contains scheme
      let authority? := match rest with
        | '/' :: '/' :: after => some after
        | _ => if hosted then some (rest.dropWhile (fun c => c == '/' || c == '\\')) else none
      match authority? with
      | none =>
        .ok ⟨scheme, none, none, String.ofList (rest.takeWhile (fun c => c != '?' && c != '#'))⟩
      | some after => do
        let authority := after.takeWhile (fun c => !endsAuthority c)
        let path := (after.dropWhile (fun c => !endsAuthority c)).takeWhile
          (fun c => c != '?' && c != '#')
        let (host, portPart) := splitHost false (afterUser authority)
        match hostFault? host with
        | some fault => throw fault
        | none =>
          if host.isEmpty ∧ (hosted ∨ !portPart.isEmpty ∨ authority.contains '@') then
            throw .emptyHost
          let port ← port? portPart
          return ⟨scheme, if host.isEmpty then none else some (String.ofList host), port,
            String.ofList path⟩
  | _, _ => .error .noScheme

end JobFleet.Net
