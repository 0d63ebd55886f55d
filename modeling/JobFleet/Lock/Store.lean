/-
  JobFleet.Lock.Store: what a fleet asks of its lock store.

  A store maps keys to holders for a limited time.  Each of its five operations is one atomic step
  at a moment given in milliseconds; it may answer or fail.  `LockStore` is the interface, so that
  everything built on it holds for every store, however it answers.
-/
import JobFleet.Error

namespace JobFleet

/-- Who holds a lock: a scheduler of the fleet, or anyone who wrote a value of their own. -/
inductive Holder
  /-- The scheduler with this number. -/
  | scheduler (number : Nat)
  /-- Another value. -/
  | foreign (value : String)
deriving DecidableEq, Repr

/-- A lock store with states of type `σ`. -/
class LockStore (σ : Type) where
  /-- Gives a key without a value a holder for a number of seconds; tells whether it did. -/
  setIfAbsent (now : Nat) (key : String) (holder : Holder) (seconds : Nat) (store : σ) :
    Except LockStoreError Bool × σ
  /-- Removes a key that has the given holder; tells whether it did. -/
  compareAndDelete (now : Nat) (key : String) (holder : Holder) (store : σ) :
    Except LockStoreError Bool × σ
  /-- Whether a key has a value. -/
  isPresent (now : Nat) (key : String) (store : σ) : Except LockStoreError Bool
  /-- The seconds left to a key, rounded up; -2 when it has no value. -/
  secondsLeft (now : Nat) (key : String) (store : σ) : Except LockStoreError Int
  /-- Gives a key that has the given holder more seconds; tells whether it has that holder. -/
  compareAndExtend (now : Nat) (key : String) (holder : Holder) (seconds : Nat) (store : σ) :
    Except LockStoreError Bool × σ

end JobFleet
