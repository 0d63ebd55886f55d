/-
  JobFleet.Lock.Memory: a lock store in memory.

  A key has a lease from when it is set until its expiry; at the moment of expiry the lease is over.
  Leases that are over stay in the list until an operation on their key takes them out, which no
  answer shows.  So of an operation that only reads the interface gives the answer and drops the
  store.
-/
import JobFleet.Lock.Store

namespace JobFleet

/-- A holder and the moment at which its hold is over. -/
structure Lease where
  holder : Holder
  expiresAt : Nat
deriving DecidableEq, Repr

/-- The leases by key, at most one for each. -/
structure MemoryStore where
  leases : List (String × Lease) := []
deriving DecidableEq, Repr

namespace MemoryStore

/-! ## Leases -/

/-- The lease of a key, over or not. -/
def lookup (key : String) (s : MemoryStore) : Option Lease := s.leases.lookup key

/-- The store without the lease of a key. -/
def erase (key : String) (s : MemoryStore) : MemoryStore :=
  ⟨s.leases.filter (fun entry => entry.1 != key)⟩

/-- The store with a lease for a key. -/
def insert (key : String) (lease : Lease) (s : MemoryStore) : MemoryStore :=
  ⟨(key, lease) :: (s.erase key).leases⟩

/-- The lease of a key that is not over. -/
def live? (now : Nat) (key : String) (s : MemoryStore) : Option Lease :=
  (s.lookup key).filter (fun lease => now < lease.expiresAt)

/-- The store without the lease of a key if it is over. -/
def purge (now : Nat) (key : String) (s : MemoryStore) : MemoryStore :=
  match s.lookup key with
  | some lease => if lease.expiresAt ≤ now then s.erase key else s
  | none => s

/-- The holder of a key. -/
def holder? (now : Nat) (key : String) (s : MemoryStore) : Option Holder :=
  (s.live? now key).map (·.holder)

/-! ## Operations -/

/-- Gives a key without a live lease one that ends after a number of seconds. -/
def setIfAbsent (now : Nat) (key : String) (holder : Holder) (seconds : Nat) (s : MemoryStore) :
    Bool × MemoryStore :=
  let s := s.purge now key
  match s.lookup key with
  | some _ => (false, s)
  | none => (true, s.insert key ⟨holder, now + 1000 * seconds⟩)

/-- Takes out the live lease of a key if it has the given holder. -/
def compareAndDelete (now : Nat) (key : String) (holder : Holder) (s : MemoryStore) :
    Bool × MemoryStore :=
  let s := s.purge now key
  match s.lookup key with
  | some lease => if lease.holder = holder then (true, s.erase key) else (false, s)
  | none => (false, s)

/-- Moves the expiry of the live lease of a key if it has the given holder. -/
def compareAndExtend (now : Nat) (key : String) (holder : Holder) (seconds : Nat)
    (s : MemoryStore) :
    Bool × MemoryStore :=
  let s := s.purge now key
  match s.lookup key with
  | some lease =>
    if lease.holder = holder then (true, s.insert key ⟨holder, lease.expiresAt + 1000 * seconds⟩)
    else (false, s)
  | none => (false, s)

/-- Whether a key has a live lease. -/
def isPresent (now : Nat) (key : String) (s : MemoryStore) : Bool × MemoryStore :=
  let s := s.purge now key
  ((s.lookup key).isSome, s)

/-- The seconds left to a key, rounded up; -2 when it has no live lease. -/
def secondsLeft (now : Nat) (key : String) (s : MemoryStore) : Int × MemoryStore :=
  let s := s.purge now key
  match s.lookup key with
  | some lease => (((lease.expiresAt - now + 999) / 1000 : Nat), s)
  | none => (-2, s)

/-- The holder of the live lease of a key. -/
def get (now : Nat) (key : String) (s : MemoryStore) : Option Holder × MemoryStore :=
  let s := s.purge now key
  ((s.lookup key).map (·.holder), s)

end MemoryStore

instance : LockStore MemoryStore where
  setIfAbsent now key holder seconds s :=
    let (answer, s) := s.setIfAbsent now key holder seconds
    (.ok answer, s)
  compareAndDelete now key holder s :=
    let (answer, s) := s.compareAndDelete now key holder
    (.ok answer, s)
  isPresent now key s := .ok (s.isPresent now key).1
  secondsLeft now key s := .ok (s.secondsLeft now key).1
  compareAndExtend now key holder seconds s :=
    let (answer, s) := s.compareAndExtend now key holder seconds
    (.ok answer, s)

end JobFleet
