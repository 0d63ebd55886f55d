/-
  JobFleet.Lock.Faulty: a lock store in memory that some operations cannot reach.

  An operation that fails changes nothing.
-/
import JobFleet.Lock.Memory

namespace JobFleet

/-- The operations of a lock store. -/
inductive StoreOperation
  | setIfAbsent
  | compareAndDelete
  | isPresent
  | secondsLeft
  | compareAndExtend
deriving DecidableEq, Repr

/-- A store in memory and the operations that fail on it. -/
structure FaultyStore where
  memory : MemoryStore := {}
  failing : List StoreOperation := []
deriving DecidableEq, Repr

namespace FaultyStore

/-- What a failing operation answers. -/
def refusal : LockStoreError := .unavailable "connection refused"

/-- The answer of an operation that reads. -/
def observe {α : Type} (operation : StoreOperation) (answer : MemoryStore → α) (s : FaultyStore) :
    Except LockStoreError α :=
  if operation ∈ s.failing then .error refusal else .ok (answer s.memory)

/-- The answer of an operation that may write, and the store after it. -/
def change (operation : StoreOperation) (act : MemoryStore → Bool × MemoryStore) (s : FaultyStore) :
    Except LockStoreError Bool × FaultyStore :=
  if operation ∈ s.failing then (.error refusal, s)
  else
    let (answer, memory) := act s.memory
    (.ok answer, { s with memory := memory })

end FaultyStore

instance : LockStore FaultyStore where
  setIfAbsent now key holder seconds s :=
    s.change .setIfAbsent (·.setIfAbsent now key holder seconds)
  compareAndDelete now key holder s :=
    s.change .compareAndDelete (·.compareAndDelete now key holder)
  isPresent now key s := s.observe .isPresent (fun m => (m.isPresent now key).1)
  secondsLeft now key s := s.observe .secondsLeft (fun m => (m.secondsLeft now key).1)
  compareAndExtend now key holder seconds s :=
    s.change .compareAndExtend (·.compareAndExtend now key holder seconds)

end JobFleet
