/-
  JobFleet.Fleet.Lock: the locks of one scheduler.

  A lock is a key of the store with the scheduler as its holder.  Taking it is one attempt, or with
  a timeout an attempt after every retry delay that still ends by the deadline.  A store that fails
  counts as a lock that is not free, so that nothing runs without a lock that is known to be held.
-/
import JobFleet.Fleet.World

namespace JobFleet

/-- How a scheduler locks. -/
structure Lock where
  /-- What every key starts with. -/
  keyPrefix : String
  holder : Holder
  /-- The milliseconds between two attempts. -/
  retryDelay : Nat
deriving DecidableEq, Repr

namespace Lock

/-! ## Keys and times -/

/-- The key of a lock. -/
def key (l : Lock) (id : String) : String := l.keyPrefix ++ ":" ++ id

/-- The whole seconds of a time to live, at least one. -/
def wholeSeconds (ttlMillis : Nat) : Nat := max (ttlMillis / 1000) 1

/-- The last moment at which an attempt may be made, when a positive timeout is given. -/
def deadline? (timeout : Option Nat) (now : Nat) : Option Nat :=
  (timeout.filter (0 < ·)).map (now + ·)

/-- When to try again after a lock was not free, if there is time.  Without a delay this is at once,
    until the deadline has passed. -/
def retryAt? (l : Lock) (deadline : Option Nat) (now : Nat) : Option Nat :=
  deadline.bind fun last => if now + l.retryDelay ≤ last then some (now + l.retryDelay) else none

/-! ## Attempts -/

/-- What an attempt to take a lock comes to. -/
inductive Verdict
  /-- The lock is held. -/
  | acquired
  /-- It is not, and there will be no other attempt. -/
  | refused
  /-- It is not yet; there is an attempt at the given moment. -/
  | retryAt (moment : Nat)
deriving DecidableEq, Repr

/-- The event of a store error. -/
def storeError (message : String) (call : LockCall) (e : LockStoreError) {σ : Type}
    (w : World σ) : World σ :=
  (w.emit .warn message [("error", .str e.message)]).measure (·.raise (.lockErrors call))

/-- What the answer of the store to the attempt with the given number comes to. -/
def judge (l : Lock) (deadline : Option Nat) (number : Nat) {σ : Type} :
    Except LockStoreError Bool → World σ → Verdict × World σ
  | .ok true, w => (.acquired, w.emit .debug "Lock acquired" [("attempts", .ofNat number)])
  | .ok false, w =>
    let w := w.emit .debug "Lock held elsewhere" [("attempts", .ofNat number)]
    match l.retryAt? deadline w.elapsed with
    | some moment => (.retryAt moment, w)
    | none => (.refused, w)
  | .error e, w =>
    (.refused, storeError "Lock store error during acquire, treating as not acquired" .acquire e w)

variable {σ : Type} [LockStore σ]

/-- Makes the attempt with the given number to take a lock. -/
def attempt (l : Lock) (id : String) (ttlMillis : Nat) (deadline : Option Nat) (number : Nat)
    (w : World σ) : Verdict × World σ :=
  let (answer, w) := w.setIfAbsent (l.key id) l.holder (wholeSeconds ttlMillis)
  l.judge deadline number answer w

/-! ## Other calls -/

/-- Gives a lock back, if this scheduler still holds it. -/
def release (l : Lock) (id : String) (w : World σ) : World σ :=
  let (answer, w) := w.compareAndDelete (l.key id) l.holder
  match answer with
  | .ok true => w.emit .debug "Lock released" []
  | .ok false => w.emit .debug "Lock expired or held by another instance at release" []
  | .error e => storeError "Failed to release lock" .release e w

/-- Lengthens a lock that this scheduler holds by whole seconds; tells whether it did. -/
def extend (l : Lock) (id : String) (extraMillis : Nat) (w : World σ) : Bool × World σ :=
  let (answer, w) := w.compareAndExtend (l.key id) l.holder (extraMillis / 1000)
  match answer with
  | .ok true => (true, w.emit .info "Lock TTL extended" [])
  | .ok false => (false, w.emit .debug "Lock expired or held by another instance, not extended" [])
  | .error e => (false, storeError "Failed to extend lock" .extend e w)

/-- Whether anyone holds a lock. -/
def isLocked (l : Lock) (id : String) (w : World σ) : Except LockStoreError Bool :=
  w.isPresent (l.key id)

/-- The seconds left on a lock, if anyone holds it. -/
def remaining (l : Lock) (id : String) (w : World σ) : Except LockStoreError (Option Int) :=
  (w.secondsLeft (l.key id)).map (fun n => if 0 ≤ n then some n else none)

end Lock

end JobFleet
