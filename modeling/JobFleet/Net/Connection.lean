/-
  JobFleet.Net.Connection: which connection URLs the stores refuse before they try to connect.
-/
import JobFleet.Error
import JobFleet.Net.Url

namespace JobFleet.Net

open JobFleet.Text

/-! ## Database -/

/-- The error of a malformed database URL: what the log reports, without the caller's wording. -/
def databaseUrlFault? (url : String) : Option String :=
  match Url.read? url with
  | .error fault => some ("error with configuration: " ++ fault.message)
  | .ok _ => none

/-- The error of opening the ledger at a malformed URL. -/
def openDatabase (url : String) : Except LedgerError Unit :=
  match databaseUrlFault? url with
  | some text => .error (.connectionFailed text)
  | none => .ok ()

/-! ## Lock store -/

/-- Why a URL names no lock store. -/
inductive LockUrlFault
  /-- It is no URL, or its scheme is another one. -/
  | unreadable
  /-- It asks for an encrypted connection. -/
  | encrypted
  | noHost
  /-- Its path is no whole number. -/
  | badDatabaseNumber
deriving DecidableEq, Repr

/-- The wording of a fault. -/
def LockUrlFault.message : LockUrlFault → String
  | .unreadable => "Redis URL did not parse"
  | .encrypted => "can't connect with TLS, the feature is not enabled"
  | .noHost => "Missing hostname"
  | .badDatabaseNumber => "Invalid database number"

/-- A text without slashes at its ends. -/
def trimSlashes (cs : List Char) : List Char :=
  ((cs.dropWhile (· == '/')).reverse.dropWhile (· == '/')).reverse

/-- The fault of a lock store URL, if it has one.  The host is looked at first, then the database
    number. -/
def lockUrlFault? (url : String) : Option LockUrlFault :=
  match Url.read? url with
  | .error _ => some .unreadable
  | .ok u =>
    if u.scheme = "unix" ∨ u.scheme = "redis+unix" then none
    else if u.scheme ≠ "redis" ∧ u.scheme ≠ "rediss" then some .unreadable
    else if u.host.isNone then some .noHost
    else if u.scheme = "rediss" then some .encrypted
    else
      let path := trimSlashes u.path.toList
      if path.isEmpty ∨ (readSigned? 64 path).isSome then none else some .badDatabaseNumber

/-- The error of opening the lock store at a malformed URL. -/
def openLockStore (url : String) : Except LockStoreError Unit :=
  match lockUrlFault? url with
  | some fault =>
    .error (.connectionFailed ("Invalid lock store URL: " ++ fault.message ++
    "- InvalidClientConfig"))
  | none => .ok ()

end JobFleet.Net
